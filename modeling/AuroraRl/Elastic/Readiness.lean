import AuroraRl.Elastic.Pool

/-!
# Which servers are ready after a call

* `Same` : what work on other servers leaves alone, `forEach_same`, `forEach_visit`;
* `syncServerAdapter_spec` : a server that was synced is ready only if it reported the desired adapter;
* `Current` : every ready server reported the desired adapter during the call;
* `syncWeights_current`, `sync_current_iff` : when it holds after a call;
* `poolReadiness` : for every call of every run.
-/

namespace AuroraRl.Elastic

section Readiness

variable [Unicode]

/-! ## Other servers -/

/-- Nothing about the server `ip`, nor about what is desired, has changed. -/
structure Same (ip : String) (s s' : Session) : Prop where
  server : s'.pool.servers.get? ip = s.pool.servers.get? ip
  answers : s'.answers ip = s.answers ip
  client : ip ∈ s'.pool.adminClients ↔ ip ∈ s.pool.adminClients
  desired : s'.pool.desired = s.pool.desired
  modelName : s'.pool.modelName = s.pool.modelName
  baseModelName : s'.pool.baseModelName = s.pool.baseModelName

namespace Same

omit [Unicode]

variable {ip ip' : String} {s s' s'' : Session}

theorem refl (ip : String) (s : Session) : Same ip s s := ⟨rfl, rfl, Iff.rfl, rfl, rfl, rfl⟩

theorem trans (h : Same ip s s') (h' : Same ip s' s'') : Same ip s s'' :=
  ⟨h'.server.trans h.server, h'.answers.trans h.answers, h'.client.trans h.client, h'.desired.trans h.desired,
    h'.modelName.trans h.modelName, h'.baseModelName.trans h.baseModelName⟩

theorem ask (h : ip ≠ ip') (s : Session) (answer : Answer) : Same ip s (s.ask ip' answer) :=
  ⟨rfl, Function.update_of_ne h _ _, Iff.rfl, rfl, rfl, rfl⟩

theorem setServer (h : ip ≠ ip') (s : Session) (server : ServerState) : Same ip s (s.setServer ip' server) :=
  ⟨Dict.get?_insert_ne _ _ h.symm, rfl, by simp [Session.setServer, h], rfl, rfl, rfl⟩

theorem removeServer (h : ip ≠ ip') (s : Session) : Same ip s (s.removeServer ip') :=
  ⟨(Dict.get?_erase _ _ _).trans (if_neg h.symm), rfl, by simp [Session.removeServer, h], rfl, rfl, rfl⟩

end Same

section Frames

variable {ip ip' : String} (h : ip ≠ ip') (s : Session)

include h

theorem same_getLoadedAdapter (answer : Answer) : Same ip s (getLoadedAdapter s ip' answer).1 := by
  unfold getLoadedAdapter
  split
  · exact .ask h s answer
  · exact .refl ip s

theorem same_confirmAdapter (server : ServerState) (answer : Answer) : Same ip s (confirmAdapter s ip' server answer) := by
  have hq := same_getLoadedAdapter h s answer
  unfold confirmAdapter
  dsimp only
  split
  · exact hq.trans (.setServer h _ _)
  · exact hq.trans (.setServer h _ _)

theorem same_syncServerAdapter (a : Resync) : Same ip s (syncServerAdapter s ip' a) := by
  have hq := same_getLoadedAdapter h s a.before
  unfold syncServerAdapter
  split
  · exact .refl ip s
  · dsimp only
    split
    · exact hq.trans (.setServer h _ _)
    · split
      · exact hq.trans (.setServer h _ _)
      · exact hq.trans (same_confirmAdapter h _ _ _)

omit [Unicode] in
theorem same_checkServerHealth (health : Health) : Same ip s (checkServerHealth s ip' health).1 := by
  unfold checkServerHealth
  split
  · exact .ask h s _
  · exact .refl ip s

theorem same_addServer (client closes : Bool) (health : Health) (a : Resync) :
    Same ip s (addServer s ip' client closes health a).1 := by
  have hq := same_checkServerHealth h s health
  unfold addServer
  split
  · dsimp only
    split
    · exact (hq.trans (.setServer h _ _)).trans (same_syncServerAdapter h _ a)
    · exact hq
  · exact .refl ip s

theorem same_checkServer (a : SyncAnswers) : Same ip s (checkServer a ip' s).1 := by
  have hq := same_checkServerHealth h s (a.health ip')
  unfold checkServer
  split
  · dsimp only
    split
    · split
      · exact hq.trans (same_syncServerAdapter h _ _)
      · exact hq
    · exact hq.trans (.removeServer h _)
  · exact .refl ip s

end Frames

/-! ## Loops -/

section Loops

omit [Unicode]

variable {body : String → Session → Session × Bool} (hbody : ∀ ip ip' s, ip ≠ ip' → Same ip s (body ip' s).1)

include hbody

theorem forEach_same (ips : List String) (ip : String) (hip : ip ∉ ips) (s : Session) :
    Same ip s (forEach body ips s).1 := by
  induction ips generalizing s with
  | nil => exact .refl ip s
  | cons ip' ips ih =>
      rw [List.mem_cons, not_or] at hip
      have hfirst := hbody ip ip' s hip.1
      rw [forEach]
      split
      · rename_i s' hs
        rw [hs] at hfirst
        exact hfirst.trans (ih hip.2 s')
      · rename_i s' hs
        rw [hs] at hfirst
        exact hfirst

/-- A loop that is not left visits each server once; what comes before and after does not concern it. -/
theorem forEach_visit {ips : List String} {ip : String} (hip : ip ∈ ips) (hnodup : ips.Nodup) {s : Session}
    (hok : (forEach body ips s).2 = true) :
    ∃ s₁, Same ip s s₁ ∧ Same ip (body ip s₁).1 (forEach body ips s).1 := by
  induction ips generalizing s with
  | nil => cases hip
  | cons ip' ips ih =>
      rw [List.nodup_cons] at hnodup
      rw [forEach] at hok ⊢
      split at hok
      · rename_i s' hs
        by_cases heq : ip = ip'
        · subst heq
          refine ⟨s, .refl ip s, ?_⟩
          rw [hs]
          exact forEach_same hbody _ _ hnodup.1 s'
        · have hfirst := hbody ip ip' s heq
          rw [hs] at hfirst
          obtain ⟨s₁, h₁, h₂⟩ := ih ((List.mem_cons.1 hip).resolve_left heq) hnodup.2 hok
          exact ⟨s₁, hfirst.trans h₁, h₂⟩
      · cases hok

end Loops

/-! ## One server -/

/-- No adapter is desired, or one of the answers has the desired adapter. -/
def Reports (pool : Pool) (answers : List Answer) : Prop :=
  pool.desired.path = none ∨ ∃ models, some models ∈ answers ∧
    adapterMatchesDesired pool.desired (loadedAdapter pool.desired pool.modelName (some models)) = true

theorem Reports.mono {pool : Pool} {answers answers' : List Answer} (h : Reports pool answers)
    (hsub : ∀ a ∈ answers, a ∈ answers') : Reports pool answers' := by
  rcases h with h | ⟨models, hmem, hmatch⟩
  · exact .inl h
  · exact .inr ⟨models, hsub _ hmem, hmatch⟩

theorem reports_congr {pool pool' : Pool} (hdesired : pool'.desired = pool.desired)
    (hname : pool'.modelName = pool.modelName) {answers : List Answer} : Reports pool' answers ↔ Reports pool answers := by
  unfold Reports
  rw [hdesired, hname]

theorem reports_of_match {pool : Pool} {answers : List Answer} {answer : Answer} (hmem : answer ∈ answers)
    (h : adapterMatchesDesired pool.desired (loadedAdapter pool.desired pool.modelName answer) = true) :
    Reports pool answers := by
  cases answer with
  | some models => exact .inr ⟨models, hmem, h⟩
  | none =>
      refine .inl ?_
      unfold adapterMatchesDesired at h
      split at h
      · assumption
      · cases h
      · rename_i hloaded
        cases hloaded

/-- The server is ready only if it reported the desired adapter since the call began. -/
def Good (ip : String) (s : Session) : Prop :=
  ∀ server, s.pool.servers.get? ip = some server → server.status = .ready → Reports s.pool (s.answers ip)

theorem good_of_none {ip : String} {s : Session} (h : s.pool.servers.get? ip = none) : Good ip s := by
  intro server hserver
  rw [h] at hserver
  cases hserver

theorem Good.of_same {ip : String} {s s' : Session} (h : Good ip s) (hs : Same ip s s') : Good ip s' := by
  intro server hserver hready
  rw [hs.server] at hserver
  rw [reports_congr hs.desired hs.modelName, hs.answers]
  exact h server hserver hready

theorem good_iff_of_same {ip : String} {s s' : Session} (hs : Same ip s s') : Good ip s' ↔ Good ip s := by
  unfold Good
  rw [hs.server, hs.answers]
  simp only [reports_congr hs.desired hs.modelName]

omit [Unicode] in
theorem get?_setServer (s : Session) (ip : String) (server : ServerState) :
    (s.setServer ip server).pool.servers.get? ip = some server := (Dict.get?_insert ..).trans (if_pos rfl)

/-- Setting a server that is not ready, or that has reported the adapter. -/
theorem good_setServer {s : Session} {ip : String} {server : ServerState}
    (h : server.status = .ready → Reports s.pool (s.answers ip)) : Good ip (s.setServer ip server) := by
  intro server' hserver hready
  rw [get?_setServer] at hserver
  cases hserver
  exact h hready

omit [Unicode] in
theorem ask_answers (s : Session) (ip : String) (answer : Answer) :
    (s.ask ip answer).answers ip = s.answers ip ++ [answer] := Function.update_self ..

theorem good_confirmAdapter {s : Session} {ip : String} (hip : ip ∈ s.pool.adminClients) (server : ServerState)
    (answer : Answer) : Good ip (confirmAdapter s ip server answer) := by
  unfold confirmAdapter getLoadedAdapter
  rw [if_pos hip]
  dsimp only
  split
  · rename_i hmatch
    apply good_setServer
    intro _
    refine reports_of_match (show answer ∈ _ from ?_) hmatch
    rw [ask_answers]
    exact List.mem_append_right _ List.mem_cons_self
  · apply good_setServer
    intro h
    cases h

/-- **A synced server** is ready only if it reported the desired adapter. -/
theorem good_syncServerAdapter {s : Session} {ip : String} (hip : ip ∈ s.pool.adminClients) (a : Resync) :
    Good ip (syncServerAdapter s ip a) := by
  unfold syncServerAdapter
  split
  · rename_i hnone
    exact good_of_none hnone
  · unfold getLoadedAdapter
    rw [if_pos hip]
    dsimp only
    split
    · rename_i hmatch
      apply good_setServer
      intro _
      refine reports_of_match (show a.before ∈ _ from ?_) hmatch
      rw [ask_answers]
      exact List.mem_append_right _ List.mem_cons_self
    · split
      · apply good_setServer
        intro h
        cases h
      · exact good_confirmAdapter (s := s.ask ip a.before) hip _ _

def Health.ok (h : Health) (baseModelName : String) : Bool :=
  h.health && match h.models with
    | none => false
    | some models => models.any fun m => m.id = baseModelName

omit [Unicode] in
theorem checkServerHealth_snd (s : Session) (ip : String) (h : Health) :
    (checkServerHealth s ip h).2 = h.ok s.pool.baseModelName := by
  unfold checkServerHealth Health.ok
  cases h.health <;> rfl

omit [Unicode] in
theorem checkServerHealth_pool (s : Session) (ip : String) (h : Health) : (checkServerHealth s ip h).1.pool = s.pool := by
  unfold checkServerHealth
  split <;> rfl

omit [Unicode] in
theorem checkServerHealth_answers {s : Session} {ip : String} {h : Health} (hok : h.ok s.pool.baseModelName = true) :
    (checkServerHealth s ip h).1.answers ip = s.answers ip ++ [h.models] := by
  unfold Health.ok at hok
  unfold checkServerHealth
  rw [Bool.and_eq_true] at hok
  rw [if_pos hok.1]
  exact ask_answers s ip h.models

theorem good_addServer {s : Session} {ip : String} (hip : s.pool.servers.get? ip = none) (client closes : Bool)
    (h : Health) (a : Resync) : Good ip (addServer s ip client closes h a).1 := by
  have hpool := checkServerHealth_pool s ip h
  unfold addServer
  split
  · dsimp only
    split
    · exact good_syncServerAdapter (by simp [Session.setServer]) a
    · apply good_of_none
      rw [hpool, hip]
  · exact good_of_none hip

section CheckServer

variable {s : Session} {ip : String} (hip : ip ∈ s.pool.adminClients) (a : SyncAnswers)

include hip

/-- A server that was not ready is synced again. -/
theorem good_checkServer_of_not_ready (h : (s.pool.servers.get? ip).map (·.status) ≠ some .ready) :
    Good ip (checkServer a ip s).1 := by
  have hpool := checkServerHealth_pool s ip (a.health ip)
  unfold checkServer
  rw [if_pos hip]
  dsimp only
  split
  · rw [hpool, if_pos h]
    apply good_syncServerAdapter
    rw [hpool]
    exact hip
  · exact good_of_none ((Dict.get?_erase _ _ _).trans (if_pos rfl))

/-- A server that was ready stays ready if it is healthy, whatever it reports. -/
theorem good_checkServer_iff {server : ServerState} (hserver : s.pool.servers.get? ip = some server)
    (hready : server.status = .ready) : Good ip (checkServer a ip s).1 ↔
      ((a.health ip).ok s.pool.baseModelName = true → Reports s.pool (s.answers ip ++ [(a.health ip).models])) := by
  have hpool := checkServerHealth_pool s ip (a.health ip)
  have hsnd := checkServerHealth_snd s ip (a.health ip)
  unfold checkServer
  rw [if_pos hip]
  dsimp only
  cases hok : (a.health ip).ok s.pool.baseModelName with
  | false =>
      rw [hsnd, hok, if_neg Bool.false_ne_true]
      exact iff_of_true (good_of_none ((Dict.get?_erase _ _ _).trans (if_pos rfl))) nofun
  | true =>
      rw [hsnd, hok, if_pos rfl, hpool, hserver, Option.map_some, hready, if_neg (not_not_intro rfl)]
      unfold Good
      dsimp only
      rw [hpool, checkServerHealth_answers hok]
      refine ⟨fun h _ => h server hserver hready, fun h _ _ _ => h rfl⟩

theorem good_checkServer (h : Good ip s) : Good ip (checkServer a ip s).1 := by
  by_cases hready : (s.pool.servers.get? ip).map (·.status) = some .ready
  · obtain ⟨server, hserver, hstatus⟩ := Option.map_eq_some_iff.1 hready
    apply (good_checkServer_iff hip a hserver hstatus).2
    intro _
    exact (h server hserver hstatus).mono fun x hx => List.mem_append_left _ hx
  · exact good_checkServer_of_not_ready hip a hready

end CheckServer

/-! ## The calls -/

/-- Every ready server reported the desired adapter during the call. -/
def Current (s : Session) : Prop := ∀ ip, Good ip s

/-- **`sync_weights`** leaves only servers ready that reported the adapter. -/
theorem syncWeights_current (pool : Pool) (weightsPath : Option PurePath) (loraName : Option String) (step : Int)
    (a : String → Resync) : Current (syncWeights pool weightsPath loraName step a) := by
  intro ip
  unfold syncWeights
  dsimp only
  have hbody : ∀ ip ip' s, ip ≠ ip' → Same ip s ((syncServerAdapter s ip' (a ip'), true) : Session × Bool).1 :=
    fun ip ip' s h => same_syncServerAdapter h s (a ip')
  by_cases hip : ip ∈ pool.servers.keys
  · have hok : ∀ (ips : List String) (s : Session),
        (forEach (fun ip s => (syncServerAdapter s ip (a ip), true)) ips s).2 = true := by
      intro ips
      induction ips with
      | nil => exact fun s => rfl
      | cons ip ips ih => exact fun s => ih _
    obtain ⟨s₁, h₁, h₂⟩ := forEach_visit hbody hip pool.servers.nodup (hok _ _)
    exact (good_syncServerAdapter (h₁.client.2 (pool.hasClient ip hip)) (a ip)).of_same h₂
  · have hsame := forEach_same hbody _ _ hip
      ⟨{ pool with desired := ⟨loraName, if loraName.getD "" ≠ "" then weightsPath else none, step⟩ }, fun _ => []⟩
    exact Good.of_same (good_of_none (Dict.get?_eq_none_iff.2 hip)) hsame

/-- Every server that was ready before a call of `sync`, is still listed and is healthy reports the desired adapter when
its health is checked. -/
def Kept (pool : Pool) (a : SyncAnswers) : Prop :=
  ∀ ip ∈ a.discovered, ∀ server, pool.servers.get? ip = some server → server.status = .ready →
    (a.health ip).ok pool.baseModelName = true → Reports pool [(a.health ip).models]

section Sync

variable {a : SyncAnswers} {s s' : Session} {ip : String}

theorem Good.checkLoop (h : Good ip s) (hok : (forEach (checkServer a) s.pool.servers.keys s).2 = true) :
    Good ip (forEach (checkServer a) s.pool.servers.keys s).1 := by
  have hbody : ∀ ip ip' s, ip ≠ ip' → Same ip s (checkServer a ip' s).1 := fun ip ip' s h => same_checkServer h s a
  by_cases hip : ip ∈ s.pool.servers.keys
  · obtain ⟨s₁, h₁, h₂⟩ := forEach_visit hbody hip s.pool.servers.nodup hok
    exact (good_checkServer (h₁.client.2 (s.pool.hasClient ip hip)) a (h.of_same h₁)).of_same h₂
  · exact h.of_same (forEach_same hbody _ _ hip s)

/-- A server that comes to the last loop of `sync` as it was before the call. -/
theorem good_checkLoop_iff {server : ServerState} (hserver : s.pool.servers.get? ip = some server)
    (hanswers : s.answers ip = []) (hok : (forEach (checkServer a) s.pool.servers.keys s).2 = true) :
    Good ip (forEach (checkServer a) s.pool.servers.keys s).1 ↔
      (server.status = .ready → (a.health ip).ok s.pool.baseModelName = true → Reports s.pool [(a.health ip).models]) := by
  have hbody : ∀ ip ip' s, ip ≠ ip' → Same ip s (checkServer a ip' s).1 := fun ip ip' s h => same_checkServer h s a
  have hip : ip ∈ s.pool.servers.keys := Dict.mem_keys_iff.2 ⟨server, hserver⟩
  obtain ⟨s₁, h₁, h₂⟩ := forEach_visit hbody hip s.pool.servers.nodup hok
  have hclient := h₁.client.2 (s.pool.hasClient ip hip)
  have hserver₁ := h₁.server.trans hserver
  rw [good_iff_of_same h₂]
  by_cases hready : server.status = .ready
  · rw [good_checkServer_iff hclient a hserver₁ hready, h₁.baseModelName, reports_congr h₁.desired h₁.modelName,
      h₁.answers, hanswers, List.nil_append]
    exact ⟨fun h _ => h, fun h => h hready⟩
  · refine iff_of_true (good_checkServer_of_not_ready hclient a ?_) fun h => absurd h hready
    rw [hserver₁, Option.map_some]
    exact fun h => hready (Option.some.inj h)

end Sync

/-- **`sync`** leaves only servers ready that reported the adapter exactly if every ready server that it keeps did. -/
theorem sync_current_iff (pool : Pool) (a : SyncAnswers) (hok : (sync pool a).2 = true) :
    Current (sync pool a).1 ↔ Kept pool a := by
  have hadd : ∀ ip ip' s, ip ≠ ip' →
      Same ip s (addServer s ip' (a.client ip') (a.closes ip') (a.addHealth ip') (a.addSync ip')).1 :=
    fun ip ip' s h => same_addServer h s _ _ _ _
  have hremove : ∀ ip ip' s, ip ≠ ip' → Same ip s ((s.removeServer ip', a.closes ip') : Session × Bool).1 :=
    fun ip ip' s h => .removeServer h s
  unfold sync at hok ⊢
  dsimp only at hok ⊢
  generalize hloop₁ : forEach _ _ _ = r₁ at hok ⊢
  obtain ⟨s₁, ok₁⟩ := r₁
  cases ok₁ with
  | false => cases hok
  | true =>
      simp only [if_true] at hok ⊢
      generalize hloop₂ : forEach _ _ s₁ = r₂ at hok ⊢
      obtain ⟨s₂, ok₂⟩ := r₂
      cases ok₂ with
      | false => cases hok
      | true =>
          simp only [if_true] at hok ⊢
          -- a server that was not known is added and synced
          have hnew : ∀ ip, ip ∉ pool.servers.keys → Good ip s₂ := by
            intro ip hip
            have hnone : pool.servers.get? ip = none := Dict.get?_eq_none_iff.2 hip
            have hafter : Same ip s₁ s₂ := by
              have := forEach_same hremove (pool.servers.keys.filter (· ∉ a.discovered)) ip
                (fun h => hip (List.mem_of_mem_filter h)) s₁
              rwa [hloop₂] at this
            refine Good.of_same ?_ hafter
            by_cases hlisted : ip ∈ a.discovered.dedup.filter (· ∉ pool.servers.keys)
            · obtain ⟨s', h₁, h₂⟩ := forEach_visit hadd hlisted (a.discovered.nodup_dedup.filter _)
                (s := ⟨pool, fun _ => []⟩) (by rw [hloop₁])
              rw [hloop₁] at h₂
              exact (good_addServer (h₁.server.trans hnone) _ _ _ _).of_same h₂
            · have hsame := forEach_same hadd _ _ hlisted ⟨pool, fun _ => []⟩
              rw [hloop₁] at hsame
              exact (good_of_none hnone).of_same hsame
          -- a server that is no longer discovered is removed
          have hgone : ∀ ip ∈ pool.servers.keys, ip ∉ a.discovered → s₂.pool.servers.get? ip = none := by
            intro ip hip hlost
            obtain ⟨s', -, h₂⟩ := forEach_visit hremove (List.mem_filter.2 ⟨hip, decide_eq_true hlost⟩)
              (List.Nodup.filter _ pool.servers.nodup) (s := s₁) (by rw [hloop₂])
            rw [hloop₂] at h₂
            exact h₂.server.trans ((Dict.get?_erase _ _ _).trans (if_pos rfl))
          -- any other server comes to the last loop as it was
          have hstay : ∀ ip ∈ pool.servers.keys, ip ∈ a.discovered → Same ip ⟨pool, fun _ => []⟩ s₂ := by
            intro ip hip hlisted
            have h₁ := forEach_same hadd (a.discovered.dedup.filter (· ∉ pool.servers.keys)) ip
              (fun h => of_decide_eq_true (List.mem_filter.1 h).2 hip) ⟨pool, fun _ => []⟩
            have h₂ := forEach_same hremove (pool.servers.keys.filter (· ∉ a.discovered)) ip
              (fun h => of_decide_eq_true (List.mem_filter.1 h).2 hlisted) s₁
            rw [hloop₁] at h₁
            rw [hloop₂] at h₂
            exact h₁.trans h₂
          refine ⟨fun h ip hlisted server hserver hready hhealthy => ?_, fun h ip => ?_⟩
          · have hsame := hstay ip (Dict.mem_keys_iff.2 ⟨server, hserver⟩) hlisted
            have hreports := (good_checkLoop_iff (hsame.server.trans hserver) hsame.answers hok).1 (h ip) hready
              (by rwa [hsame.baseModelName])
            rwa [reports_congr hsame.desired hsame.modelName] at hreports
          · by_cases hip : ip ∈ pool.servers.keys
            · by_cases hlisted : ip ∈ a.discovered
              · have hsame := hstay ip hip hlisted
                obtain ⟨server, hserver⟩ := Dict.mem_keys_iff.1 hip
                apply (good_checkLoop_iff (hsame.server.trans hserver) hsame.answers hok).2
                rw [reports_congr hsame.desired hsame.modelName, hsame.baseModelName]
                exact h ip hlisted server hserver
              · exact (good_of_none (hgone ip hip hlisted)).checkLoop hok
            · exact (hnew ip hip).checkLoop hok

/-! ## Runs -/

/-- What happens to a pool. -/
inductive Call
  | sync (a : SyncAnswers)
  | syncWeights (weightsPath : Option PurePath) (loraName : Option String) (step : Int) (a : String → Resync)
  | updateModelName (modelName : String)

/-- The pool after a call, with what was answered during it. -/
def Call.run (pool : Pool) : Call → Session
  | .sync a => (Elastic.sync pool a).1
  | .syncWeights weightsPath loraName step a => Elastic.syncWeights pool weightsPath loraName step a
  | .updateModelName modelName => ⟨{ pool with modelName := modelName }, fun _ => []⟩

/-- A call of `sync` or `sync_weights` that returns. -/
def Call.completes (pool : Pool) : Call → Bool
  | .sync a => (Elastic.sync pool a).2
  | .syncWeights .. => true
  | .updateModelName _ => false

/-- What a call of `sync` needs: every ready server that it keeps reports the desired adapter to the health check. -/
def Call.Checked (pool : Pool) : Call → Prop
  | .sync a => Kept pool a
  | _ => True

def Pool.start (modelName : String) : Pool :=
  ⟨modelName, modelName, .empty, [], ⟨none, none, 0⟩, nofun⟩

def runCalls (modelName : String) (calls : List Call) : Pool :=
  calls.foldl (fun pool call => (call.run pool).pool) (.start modelName)

/-- **Main.** After any run, a call that returns leaves only servers ready that reported the desired adapter during it,
exactly if every ready server that it keeps without syncing reports the adapter to its health check. -/
theorem poolReadiness (modelName : String) (calls : List Call) (call : Call)
    (hcompletes : call.completes (runCalls modelName calls) = true) :
    Current (call.run (runCalls modelName calls)) ↔ call.Checked (runCalls modelName calls) := by
  cases call with
  | sync a => exact sync_current_iff _ a hcompletes
  | syncWeights weightsPath loraName step a =>
      exact iff_of_true (syncWeights_current _ weightsPath loraName step a) trivial
  | updateModelName modelName => cases hcompletes

end Readiness

section Example

attribute [local instance] asciiUnicode

def baseModel : Model := ⟨"base", none, some "base"⟩

def lora : Model := ⟨"lora", some "base", some "/weights/step_1"⟩

/-- An adapter is desired, and a new server loads it. -/
def loaded : List Call :=
  [.syncWeights (some (.ofString "/weights/step_1")) (some "lora") 1 fun _ => ⟨none, false, none⟩,
    .sync ⟨["a"], fun _ => true, fun _ => ⟨true, some [baseModel]⟩,
      fun _ => ⟨some [baseModel], true, some [baseModel, lora]⟩, fun _ => true, fun _ => ⟨true, some [baseModel, lora]⟩,
      fun _ => ⟨none, false, none⟩⟩]

/-- The server has restarted at its address, healthy and without the adapter. -/
def restarted : Call :=
  .sync ⟨["a"], fun _ => true, fun _ => ⟨false, none⟩, fun _ => ⟨none, false, none⟩, fun _ => true,
    fun _ => ⟨true, some [baseModel]⟩, fun _ => ⟨some [baseModel], true, some [baseModel, lora]⟩⟩

theorem poolReadiness_restarted :
    Current (restarted.run (runCalls "base" loaded)) ↔ restarted.Checked (runCalls "base" loaded) :=
  poolReadiness "base" loaded restarted (by decide +kernel)

/-- The server is still ready after the call, and reported no adapter during it. -/
theorem restarted_not_current : restarted.completes (runCalls "base" loaded) = true ∧
    ¬ Current (restarted.run (runCalls "base" loaded)) := by
  refine ⟨by decide +kernel, fun h => ?_⟩
  have hready : ((restarted.run (runCalls "base" loaded)).pool.servers.get? "a").map (·.status) = some .ready := by
    decide +kernel
  obtain ⟨server, hserver, hstatus⟩ := Option.map_eq_some_iff.1 hready
  have hpath : (restarted.run (runCalls "base" loaded)).pool.desired.path ≠ none := by decide +kernel
  have hanswers : (restarted.run (runCalls "base" loaded)).answers "a" = [some [baseModel]] := rfl
  rcases h "a" server hserver hstatus with hnone | ⟨models, hmem, hmatch⟩
  · exact hpath hnone
  · rw [hanswers, List.mem_singleton] at hmem
    cases hmem
    revert hmatch
    decide +kernel

end Example

end AuroraRl.Elastic
