import AuroraRl.Server.VersionSafety

/-!
# A commit relayed to peers is applied once everywhere

* `Once` : how many updates to `v` a server handed to its engine since a given moment;
* `commit_meets` : serving `/commit` of `v`, `/pause` and `/resume` keeps it, and a success answer means that `v`
  is active and, on a relaying server, that every peer's commit came back well;
* `RelayNet` : a seed and its peers, with requests and answers lost, delayed or repeated at will;
* `relayCommitOnce` : the result over all runs.
-/

namespace AuroraRl.Server
open Coroutine Discipline Transition

variable {W A : Type} [WeightModel W A]

/-! ## One server -/

/-- The number of updates to `v` handed to the engine. -/
def issuedCount (v : String) (history : List (EngineEvent A)) : Nat :=
  history.countP fun e => match e with
    | .issued u => u.version = v
    | _ => false

omit [WeightModel W A] in
theorem issuedCount_concat (v : String) (history : List (EngineEvent A)) (e : EngineEvent A)
    (he : ∀ u, e ≠ .issued u) : issuedCount v (history ++ [e]) = issuedCount v history := by
  unfold issuedCount
  rw [List.countP_append]
  cases e with
  | issued u => exact absurd rfl (he u)
  | _ => rfl

omit [WeightModel W A] in
theorem issuedCount_issued (history : List (EngineEvent A)) (u : UpdateCall) :
    issuedCount u.version (history ++ [.issued u]) = issuedCount u.version history + 1 := by
  simp [issuedCount, List.countP_append]

/-- Beyond the first `n` at most one update to `v` was handed to the engine, and then `v` is active or the server
dirty. -/
def Once (v : String) (n : Nat) (core : VersionCore W A) : Prop :=
  issuedCount v core.engine.history = n ∨
    (issuedCount v core.engine.history = n + 1 ∧ (core.activeVersion = some v ∨ core.weightsDirty = true))

omit [WeightModel W A] in
theorem Once.le {v : String} {n : Nat} {core : VersionCore W A} (h : Once v n core) :
    issuedCount v core.engine.history ≤ n + 1 := by
  rcases h with h | h <;> omega

/-- An active version stays active, the relay configuration is fixed, and relayed sends stay on record. -/
structure Grows (v : String) (s s' : ServerState W A) : Prop where
  active : s.activeVersion = some v → s'.activeVersion = some v
  peers : relayPeers s' = relayPeers s
  fail : s'.relayFailOnPeerError = s.relayFailOnPeerError
  relayed : s.relayed ⊆ s'.relayed

omit [WeightModel W A] in
theorem Grows.refl (v : String) (s : ServerState W A) : Grows v s s := ⟨id, rfl, rfl, fun _ h => h⟩

omit [WeightModel W A] in
theorem Grows.trans {v : String} {s t u : ServerState W A} (h : Grows v s t) (h' : Grows v t u) : Grows v s u :=
  ⟨fun ha => h'.active (h.active ha), h'.peers.trans h.peers, h'.fail.trans h.fail,
    fun _ hm => h'.relayed (h.relayed hm)⟩

/-- The discipline of the servers while `v` is being committed. -/
def onceDiscipline (W A : Type) (v : String) (n : Nat) : Discipline (ServerState W A) (VersionCore W A) where
  core := versionCore
  free := Once v n
  always state := Once v n (versionCore state)
  guar := Grows v
  guar_refl := Grows.refl v
  guar_trans := Grows.trans

section Commit

variable [Host] {v : String} {n : Nat} {state : ServerState W A}

/-- What an answer to a commit of `v` promises. -/
def Committed (v : String) (relay : Bool) (r : Except PyError JSONResponse) (s : ServerState W A) : Prop :=
  ∀ response, r = .ok response → response.IsSuccess → s.activeVersion = some v ∧
    (relay = true → s.relayFailOnPeerError = true → ∃ mode, ∀ p ∈ relayPeers s, commitSend v mode p ∈ s.relayed)

omit [WeightModel W A] [Host] in
theorem committed_of_status {relay : Bool} {response : JSONResponse} {s : ServerState W A}
    (h : ¬ response.IsSuccess) : Committed v relay (.ok response) s := by
  intro response' hr hstatus
  cases hr
  exact absurd hstatus h

omit [WeightModel W A] [Host] in
theorem committed_error {relay : Bool} {x : PyError} {s : ServerState W A} : Committed v relay (.error x) s := nofun

omit [WeightModel W A] [Host] in
theorem relayFrame_once : RelayFrame (onceDiscipline W A v n) := fun _ _ h =>
  ⟨rfl, ⟨id, rfl, rfl, fun _ hm => List.mem_append_left _ hm⟩, h⟩

omit [WeightModel W A] [Host] in
/-- A state that differs in the engine, the version or the dirty flag only. -/
theorem Grows.of_same {s s' : ServerState W A} (hactive : s.activeVersion = some v → s'.activeVersion = some v)
    (henabled : s'.relayEnabled = s.relayEnabled) (hpeers : s'.relayPeers = s.relayPeers)
    (hfail : s'.relayFailOnPeerError = s.relayFailOnPeerError) (hrelayed : s'.relayed = s.relayed) :
    Grows v s s' := by
  refine ⟨hactive, ?_, hfail, fun _ hm => ?_⟩
  · unfold relayPeers
    rw [henabled, hpeers]
  · rw [hrelayed]
    exact hm

omit [Host] in
/-- The update RPC of `v`: it is handed to the engine only while the count is still at `n`. -/
theorem wp_applyStaged_once {entry : StagedEntry} (h : Once v n (versionCore state))
    (hdirty : state.weightsDirty = false) :
    (onceDiscipline W A v n).wp World true (applyStaged v entry) state fun b r s' =>
      b = true ∧ Once v n (versionCore s') ∧ Grows v state s' ∧
        (∀ response, r = .ok (some response) → ¬ response.IsSuccess) ∧
        (r = .ok none → s'.activeVersion = some v) := by
  refine wp_bind.2 (wp_getState.2 ?_)
  dsimp only
  split
  · rename_i hactive
    exact ⟨rfl, h, Grows.refl v state, nofun, fun _ => hactive⟩
  · rename_i hactive
    cases hvalid : validateStageMetadata state (.ofEntry (some v) entry.mode entry.baseVersion) with
    | error response =>
        refine ⟨rfl, h, Grows.refl v state, fun response' hr => ?_, nofun⟩
        cases hr
        exact validateStageMetadata_status hvalid
    | ok metadata =>
        have hn : issuedCount v state.engine.history = n := by
          rcases h with h | ⟨-, ha | hd⟩
          · exact h
          · exact absurd ha hactive
          · exact absurd (hdirty.symm.trans hd) (by decide)
        have hissue : issuedCount v (state.engine.history ++ [.issued ⟨v, entry⟩]) = n + 1 := by
          rw [issuedCount_issued _ ⟨v, entry⟩, hn]
        refine wp_bind.2 (wp_modify.2 ⟨of_held, .of_same id rfl rfl rfl rfl, ?_⟩)
        refine wp_bind.2 (wp_bind.2 (wp_modify.2 ⟨of_held, .of_same id rfl rfl rfl rfl, ?_⟩))
        refine wp_bind.2 (wp_perform.2 ⟨Or.inr ⟨hissue, Or.inr rfl⟩, fun s₁ a s₂ hs₁ hg hcore hw => ?_⟩)
        have hcore : versionCore s₁ = issueCore (versionCore state) ⟨v, entry⟩ := hcore rfl
        have hcount : ∀ e : EngineEvent A, (∀ u, e ≠ .issued u) →
            issuedCount v (s₁.engine.history ++ [e]) = n + 1 := by
          intro e he
          rw [issuedCount_concat v _ e he, ← hissue]
          exact congrArg (fun c => issuedCount v c.engine.history) hcore
        have hg₁ : Grows v state s₁ := (show Grows v state (recordEvent (.issued ⟨v, entry⟩)
          { state with weightsDirty := true }) from .of_same id rfl rfl rfl rfl).trans hg
        rcases world_update v hw with ⟨a, rfl, rfl⟩ | ⟨x, weights, rfl, rfl⟩
        · refine ⟨of_held, .of_same id rfl rfl rfl rfl, wp_ofExcept.2 ⟨of_held, .of_same (fun _ => rfl) rfl rfl rfl rfl, ?_⟩⟩
          exact ⟨rfl, Or.inr ⟨hcount _ nofun, Or.inl rfl⟩, hg₁.trans (.of_same (fun _ => rfl) rfl rfl rfl rfl), nofun,
            fun _ => rfl⟩
        · refine ⟨of_held, .of_same id rfl rfl rfl rfl, wp_ofExcept.2 ⟨rfl, ?_, ?_, nofun, nofun⟩⟩
          · exact Or.inr ⟨hcount _ nofun, Or.inr (congrArg VersionCore.weightsDirty hcore)⟩
          · exact hg₁.trans (.of_same id rfl rfl rfl rfl)

/-- Serving `/commit` of `v` under the lock. -/
theorem wp_commitLocked_once {request : Request} {value : PyValue}
    (hvalue : (requestFields request).1.get? "version" = some value) (hv : value.text = v)
    (h : Once v n (versionCore state)) :
    (onceDiscipline W A v n).wp World true (commitLocked request) state fun b r s' =>
      b = true ∧ Once v n (versionCore s') ∧ Grows v state s' ∧
        Committed v (relayRequested (requestFields request).1) r s' := by
  refine wp_bind.2 (Keeps.wp (keeps_readRequestFields request h) fun r s hs hg hcore hr => ?_)
  cases r with
  | error x => exact ⟨rfl, hs, hg, committed_error⟩
  | ok r =>
      have hr := hr r rfl
      obtain ⟨fields, uploadedFile⟩ := r
      have hfields : fields = (requestFields request).1 := congrArg Prod.fst hr
      rw [← hfields] at hvalue ⊢
      dsimp only
      rw [hvalue]
      refine wp_bind.2 (wp_getState.2 ?_)
      dsimp only
      rw [hv]
      cases hstaged : s.stagedVersions.get? v with
      | none => exact ⟨rfl, hs, hg, committed_of_status (by simp [errorResponse, JSONResponse.IsSuccess])⟩
      | some entry =>
          dsimp only
          split
          · exact ⟨rfl, hs, hg, committed_of_status (by simp [errorResponse, JSONResponse.IsSuccess])⟩
          · split
            · exact ⟨rfl, hs, hg, committed_of_status (by simp [errorResponse, JSONResponse.IsSuccess])⟩
            · rename_i hclean
              refine wp_bind.2 (wp_mono (wp_applyStaged_once hs (by simpa using hclean)) fun b r s' hr => ?_)
              obtain ⟨rfl, hs', hg', hstatus, hactive⟩ := hr
              have hg' : Grows v state s' := hg.trans hg'
              cases r with
              | error x => exact ⟨rfl, hs', hg', committed_error⟩
              | ok error =>
                  cases error with
                  | some error => exact ⟨rfl, hs', hg', committed_of_status (hstatus error rfl)⟩
                  | none =>
                      obtain ⟨files, heq⟩ := cleanupOtherVersions_eq v s'
                      have hgrows : Grows v s' (cleanupOtherVersions v s') := by
                        rw [heq]
                        exact .of_same id rfl rfl rfl rfl
                      have honce : Once v n (versionCore (cleanupOtherVersions v s')) := by
                        rw [heq]
                        exact hs'
                      refine wp_bind.2 (wp_modify.2 ⟨of_held, hgrows, ?_⟩)
                      refine wp_bind.2 (Keeps.wp (keeps_fanOut relayFrame_once (fun _ => rfl) _ honce)
                        fun r s'' hs'' hg'' _ hr => ?_)
                      have hg'' : Grows v s' s'' := hgrows.trans hg''
                      cases r with
                      | error x => exact ⟨rfl, hs'', hg'.trans hg'', committed_error⟩
                      | ok stats =>
                          refine wp_bind.2 (wp_getState.2 ?_)
                          dsimp only
                          cases hfail : relayFailureResponse s'' "commit" stats with
                          | some failure =>
                              exact ⟨rfl, hs'', hg'.trans hg'', committed_of_status (relayFailureResponse_status hfail)⟩
                          | none =>
                              refine ⟨rfl, hs'', hg'.trans hg'', fun _ _ _ => ⟨hg''.active (hactive rfl), ?_⟩⟩
                              refine fun hrelay hflag => ⟨entry.mode, fun p hp => ?_⟩
                              have hpeers : relayPeers s'' = relayPeers (cleanupOtherVersions v s') :=
                                hg''.peers.trans hgrows.peers.symm
                              obtain ⟨b, hb, hsend⟩ := hr stats rfl hrelay p (hpeers ▸ hp)
                              exact hsend (relayFailureResponse_none hflag hfail hb)

/-- The requests that commit `v`, and the generation switches around them. -/
def CommitOf (v : String) (request : Request) : Prop :=
  request.route = .pause ∨ request.route = .resume ∨
    (request.route = .commit ∧ ∃ value, (requestFields request).1.get? "version" = some value ∧ value.text = v)

/-- What the end of a request promises on a server whose commits are `relayed`. -/
def CommitPost (v : String) (relayed : Bool) (request : Request) (r : Except PyError JSONResponse)
    (s : ServerState W A) : Prop :=
  request.route = .commit → Committed v relayed r s

theorem wp_handle_once {request : Request} {relayed : Bool} (hq : CommitOf v request)
    (hrelayed : relayed = true → request.route = .commit → relayRequested (requestFields request).1 = true)
    (h : Once v n (versionCore state)) :
    (onceDiscipline W A v n).wp World false (handle request) state
      (Pool.Post (onceDiscipline W A v n) (CommitPost v relayed) request) := by
  unfold handle
  rcases hq with hq | hq | ⟨hq, value, hvalue, hv⟩
  · rw [hq]
    refine Keeps.wp (keeps_bind (keeps_await trivial h) fun _ _ hs _ _ _ => keeps_pure hs trivial
      (R := fun _ _ => True)) fun r s' hs' _ _ _ => ⟨rfl, hs', fun hc => ?_⟩
    rw [hq] at hc
    cases hc
  · rw [hq]
    have hresume : Keeps (onceDiscipline W A v n) World false resume state fun _ _ => True := by
      refine keeps_getState_bind ?_
      split
      · exact keeps_pure h trivial
      · exact keeps_bind (keeps_await trivial h) fun _ _ hs _ _ _ => keeps_pure hs trivial
    refine hresume.wp fun r s' hs' _ _ _ => ⟨rfl, hs', fun hc => ?_⟩
    rw [hq] at hc
    cases hc
  · rw [hq]
    refine wp_withLock h fun s₁ hs₁ _ hfree => ?_
    refine wp_mono (wp_commitLocked_once hvalue hv hs₁) fun b r s' hr => ?_
    obtain ⟨rfl, honce, _, hcommitted⟩ := hr
    refine ⟨rfl, honce, rfl, honce, fun _ response hres hsuccess => ?_⟩
    obtain ⟨hactive, hsends⟩ := hcommitted response hres hsuccess
    exact ⟨hactive, fun hrelay => hsends (hrelayed hrelay hq)⟩

end Commit

/-! ## A seed and its peers -/

/-- The answer is a success, as `raise_for_status` sees it. -/
def Succeeds (l : ServerLabel) : Prop :=
  ∃ response, l.result = some (.ok response) ∧ response.IsSuccess

/-- The seed, its peers, and the requests the peers have answered with success so far. -/
structure RelayNet (W A ι : Type) where
  seed : ServerConfig W A
  peer : ι → ServerConfig W A
  answered : List (ι × Request)

inductive RelayLabel (ι : Type)
  | seed (l : ServerLabel)
  | peer (i : ι) (l : ServerLabel)

section Net

variable [Host]

/-- A server that serves `/commit` of `v`, `/pause` and `/resume`; with `relayed`, no commit switches the relay
off, as in the client's requests to the seed. -/
def commitPool (W : Type) {A : Type} [WeightModel W A] (v : String) (relayed : Bool) :
    Pool (ServerState W A) Await Answer PyError JSONResponse Request where
  init _ := True
  admits request := CommitOf v request ∧
    (relayed = true → request.route = .commit → relayRequested (requestFields request).1 = true)
  program := handle
  world := World

variable {ι : Type} [DecidableEq ι] (host : String → ι) (read : PurePath → Bytes) (v : String)

/-- The node behind a configured peer. -/
def peerNode (peer : String) : ι := host (normalizeAdminUrl peer)

/-- Every request of the send was answered with success by its peer. -/
def Delivered (net : RelayNet W A ι) (send : RelaySend) : Prop :=
  ∀ post ∈ send.posts, (peerNode host post.peer, post.request read) ∈ net.answered

/-- A request may reach a peer at any time, any number of times or never, and its answer may get lost: a send of
the seed comes back well only if the peer has answered all its requests with success. -/
inductive RelayStep : RelayNet W A ι → RelayLabel ι → RelayNet W A ι → Prop
  | seed {net : RelayNet W A ι} {l : ServerLabel} {seed : ServerConfig W A}
      (hstep : (commitPool W v true).Step net.seed l seed)
      (hrelayed : ∀ send ∈ seed.shared.relayed, send ∈ net.seed.shared.relayed ∨ Delivered host read net send) :
      RelayStep net (.seed l) { net with seed := seed }
  | peer {net : RelayNet W A ι} {i : ι} {l : ServerLabel} {c : ServerConfig W A} {answered : List (ι × Request)}
      (hstep : (commitPool W v false).Step (net.peer i) l c)
      (hanswered : answered = net.answered ∨ (Succeeds l ∧ answered = net.answered ++ [(i, l.action.request)])) :
      RelayStep net (.peer i l) { net with peer := Function.update net.peer i c, answered := answered }

/-- Nothing under way; the seed insists on its peers. -/
structure RelayStart (net : RelayNet W A ι) : Prop where
  seed : net.seed.tasks = []
  peer : ∀ i, (net.peer i).tasks = []
  fail : net.seed.shared.relayFailOnPeerError = true
  relayed : net.seed.shared.relayed = []
  answered : net.answered = []

def relayNet : System (RelayNet W A ι) (RelayLabel ι) where
  init := RelayStart
  step := RelayStep host read v

/-- The invariant of a run from `net₀`. -/
structure RelayInv (net₀ net : RelayNet W A ι) : Prop where
  seed : Pool.Ok (onceDiscipline W A v (issuedCount v net₀.seed.shared.engine.history)) World (CommitPost v true)
    net.seed
  grows : Grows v net₀.seed.shared net.seed.shared
  peer : ∀ i, Pool.Ok (onceDiscipline W A v (issuedCount v (net₀.peer i).shared.engine.history)) World
    (CommitPost v false) (net.peer i)
  answered : ∀ i q, (i, q) ∈ net.answered → q.route = .commit → (net.peer i).shared.activeVersion = some v
  relayed : ∀ send ∈ net.seed.shared.relayed, Delivered host read net send

variable {host read v}

theorem commitPool_meets (relayed : Bool) (n : Nat) :
    (commitPool W v relayed).Meets (onceDiscipline W A v n) (CommitPost v relayed) := fun _ hq _ hs =>
  wp_handle_once hq.1 hq.2 hs

omit [DecidableEq ι] in
theorem RelayStart.inv {net : RelayNet W A ι} (h : RelayStart net) : RelayInv host read v net net := by
  refine ⟨?_, Grows.refl v _, fun i => ?_, fun i q hq => ?_, fun send hsend => ?_⟩
  · obtain ⟨⟨s, tasks⟩, peer, answered⟩ := net
    obtain rfl : tasks = [] := h.seed
    exact Pool.Ok.start (P := commitPool W v true) (Or.inl rfl) (Or.inl rfl)
  · generalize hc : net.peer i = c
    obtain ⟨s, tasks⟩ := c
    obtain rfl : tasks = [] := by simpa [hc] using h.peer i
    exact Pool.Ok.start (P := commitPool W v false) (Or.inl rfl) (Or.inl rfl)
  · rw [h.answered] at hq
    cases hq
  · rw [h.relayed] at hsend
    cases hsend

theorem RelayInv.step {net₀ net net' : RelayNet W A ι} {l : RelayLabel ι} (h : RelayInv host read v net₀ net)
    (hstep : RelayStep host read v net l net') : RelayInv host read v net₀ net' := by
  cases hstep with
  | @seed l seed hst hrelayed =>
      obtain ⟨hok, hguar, -⟩ := h.seed.step (commitPool_meets true _) hst
      refine ⟨hok, h.grows.trans hguar, h.peer, h.answered, fun send hsend => ?_⟩
      rcases hrelayed send hsend with hold | hnew
      · exact h.relayed send hold
      · exact hnew
  | @peer i l c answered hst hanswered =>
      obtain ⟨hok, hguar, hpost⟩ := (h.peer i).step (commitPool_meets false _) hst
      have hactive : ∀ j, (net.peer j).shared.activeVersion = some v →
          (Function.update net.peer i c j).shared.activeVersion = some v := by
        intro j hj
        by_cases hij : j = i
        · subst hij
          rw [Function.update_self]
          exact hguar.active hj
        · rw [Function.update_of_ne hij]
          exact hj
      refine ⟨h.seed, h.grows, fun j => ?_, fun j q hq hroute => ?_, fun send hsend post hmem => ?_⟩
      · dsimp only
        by_cases hij : j = i
        · subst hij
          rw [Function.update_self]
          exact hok
        · rw [Function.update_of_ne hij]
          exact h.peer j
      · rcases hanswered with rfl | ⟨⟨response, hres, hsuccess⟩, rfl⟩
        · exact hactive j (h.answered j q hq hroute)
        · rcases List.mem_append.1 hq with hq | hq
          · exact hactive j (h.answered j q hq hroute)
          · obtain ⟨rfl, rfl⟩ := Prod.mk.inj (List.mem_singleton.1 hq)
            change (Function.update net.peer j c j).shared.activeVersion = some v
            rw [Function.update_self]
            exact (hpost _ hres hroute response rfl hsuccess).1
      · have hmem' := h.relayed send hsend post hmem
        rcases hanswered with rfl | ⟨-, rfl⟩
        · exact hmem'
        · exact List.mem_append_left _ hmem'

theorem RelayInv.run {net₀ net : RelayNet W A ι} {ls : List (RelayLabel ι)} (h₀ : RelayStart net₀)
    (hrun : (relayNet (W := W) host read v).Run net₀ ls net) : RelayInv host read v net₀ net :=
  hrun.preserves (fun _ _ _ h hst => h.step hst) h₀.inv

/-- **Relayed commits.** Along every run the seed and each peer hand at most one update to `v` to their engines;
and whenever the seed answers a commit with success, `v` is active on the seed and on every peer. -/
theorem relayCommitOnce {net₀ net : RelayNet W A ι} {ls : List (RelayLabel ι)} (h₀ : RelayStart net₀)
    (hrun : (relayNet (W := W) host read v).Run net₀ ls net) :
    (issuedCount v net.seed.shared.engine.history ≤ issuedCount v net₀.seed.shared.engine.history + 1 ∧
      ∀ i, issuedCount v (net.peer i).shared.engine.history ≤
        issuedCount v (net₀.peer i).shared.engine.history + 1) ∧
    ∀ l net' response, RelayStep host read v net (.seed l) net' → l.action.request.route = .commit →
      l.result = some (.ok response) → response.statusCode = 200 →
        net'.seed.shared.activeVersion = some v ∧
          ∀ p ∈ relayPeers net'.seed.shared, (net'.peer (peerNode host p)).shared.activeVersion = some v := by
  have hinv := RelayInv.run h₀ hrun
  refine ⟨⟨hinv.seed.always.le, fun i => (hinv.peer i).always.le⟩, fun l net' response hst hroute hres hcode => ?_⟩
  have hinv' := hinv.step hst
  cases hst with
  | seed hst hrelayed =>
      obtain ⟨-, -, hpost⟩ := hinv.seed.step (commitPool_meets true _) hst
      have hsuccess : response.IsSuccess := by
        unfold JSONResponse.IsSuccess
        omega
      obtain ⟨hactive, hsends⟩ := hpost _ hres hroute response rfl hsuccess
      refine ⟨hactive, fun p hp => ?_⟩
      have hfail := hinv'.grows.fail.trans h₀.fail
      obtain ⟨mode, hsends⟩ := hsends rfl hfail
      have hdelivered := hinv'.relayed _ (hsends p hp) (relayCommitPeer v mode p) (by simp [commitSend, RelaySend.posts])
      exact hinv'.answered _ _ hdelivered rfl

theorem RelayStep.update (net : RelayNet W A ι) {i : ι} {l : ServerLabel} {c c' : ServerConfig W A}
    {answered : List (ι × Request)} (hst : (commitPool W v false).Step c l c')
    (hanswered : answered = net.answered ∨ (Succeeds l ∧ answered = net.answered ++ [(i, l.action.request)])) :
    RelayStep host read v { net with peer := Function.update net.peer i c } (.peer i l)
      { net with peer := Function.update net.peer i c', answered := answered } := by
  have hst' : (commitPool W v false).Step (Function.update net.peer i c i) l c' := by
    rw [Function.update_self]
    exact hst
  have hstep : RelayStep host read v { net with peer := Function.update net.peer i c } (.peer i l) _ :=
    .peer hst' hanswered
  rw [Function.update_idem] at hstep
  exact hstep

theorem peer_serve {w : ServerState W A → (e : Await) → Answer e × ServerState W A}
    (hw : ∀ s e, World s e (w s e).1 (w s e).2) {net₀ : RelayNet W A ι} {ls₀ : List (RelayLabel ι)}
    {seed : ServerConfig W A} {peer : ι → ServerConfig W A} {answered : List (ι × Request)}
    (hrun₀ : (relayNet (W := W) host read v).Run net₀ ls₀ ⟨seed, peer, answered⟩) {i : ι} {q : Request}
    {s s' : ServerState W A} {response : JSONResponse} (hpeer : peer i = ⟨s, []⟩) (hq : CommitOf v q)
    (h : (handle q).exec w false s = some (s', .ok response)) (hresponse : response.IsSuccess) :
    ∃ ls, (relayNet (W := W) host read v).Run net₀ ls
      ⟨seed, Function.update peer i ⟨s', []⟩, answered ++ [(i, q)]⟩ := by
  obtain ⟨ls, c, a, hrun, hlast, rfl⟩ := Pool.serve_run (P := commitPool W v false) hw ⟨hq, nofun⟩ h
  have hlift : ∃ ls, (relayNet (W := W) host read v).Run net₀ ls ⟨seed, Function.update peer i c, answered⟩ := by
    clear hlast
    induction hrun with
    | nil =>
        rw [← hpeer, Function.update_eq_self]
        exact ⟨ls₀, hrun₀⟩
    | snoc _ hst ih =>
        obtain ⟨ls, hrun⟩ := ih
        exact ⟨_, hrun.snoc (RelayStep.update ⟨seed, peer, answered⟩ hst (Or.inl rfl))⟩
  obtain ⟨ls, hrun⟩ := hlift
  exact ⟨_, hrun.snoc (RelayStep.update ⟨seed, peer, answered⟩ hlast
    (Or.inr ⟨⟨response, rfl, hresponse⟩, rfl⟩))⟩

/-- An await of a request the seed serves alone ends. -/
theorem seed_answer {net₀ : RelayNet W A ι} {ls : List (RelayLabel ι)} {q : Request}
    {o : Coro.Outcome (ServerState W A) Await Answer PyError JSONResponse} {peer : ι → ServerConfig W A}
    {answered : List (ι × Request)} {e : Await} {a : Answer e} {k : Answer e → Handler W A JSONResponse}
    {s : ServerState W A} (hrun : (relayNet (W := W) host read v).Run net₀ ls ⟨.settle [] [] q o, peer, answered⟩)
    (ho : o.rest = .inl (.await e k)) (hw : World o.state e a s)
    (hrelayed : ∀ send ∈ (Config.settle [] [] q ((k a).run o.held s)).shared.relayed,
      send ∈ (Config.settle [] [] q o).shared.relayed ∨ Delivered host read ⟨.settle [] [] q o, peer, answered⟩ send) :
    RelayStep host read v ⟨.settle [] [] q o, peer, answered⟩
        (.seed ⟨.answer q e a, ((k a).run o.held s).result?⟩)
        ⟨.settle [] [] q ((k a).run o.held s), peer, answered⟩ ∧
      ∃ ls, (relayNet (W := W) host read v).Run net₀ ls ⟨.settle [] [] q ((k a).run o.held s), peer, answered⟩ :=
  have hstep : RelayStep host read v ⟨.settle [] [] q o, peer, answered⟩ _ _ :=
    .seed (Pool.Step.answer_alone rfl ho hw) hrelayed
  ⟨hstep, _, hrun.snoc hstep⟩

end Net

/-! ### A seed and one peer that take a delta -/

section Example

attribute [local instance] asciiHost listWeights

/-- A seed and its peer, both with a delta staged. -/
def relayingState : ServerState (List Nat) Nat := { stagedState with relayEnabled := true, relayPeers := ["p"] }

def stagedNet : RelayNet (List Nat) Nat Unit := ⟨⟨relayingState, []⟩, fun _ => ⟨stagedState, []⟩, []⟩

theorem relayStart_stagedNet : RelayStart stagedNet := ⟨rfl, fun _ => rfl, rfl, rfl, rfl⟩

theorem commitOf_commitDelta : CommitOf "1" commitDelta := Or.inr (Or.inr ⟨rfl, .str "1", rfl, rfl⟩)

theorem exec_pause : (handle ((relayPausePeer "p").request fun _ => [])).exec obliging false stagedState =
    some (stagedState, .ok (ok (.status "paused"))) := rfl

theorem exec_commit : (handle ((relayCommitPeer "1" .delta "p").request fun _ => [])).exec obliging false stagedState =
    some (committedState, .ok (ok (.committed "1" .delta ∅))) := rfl

theorem exec_resume : (handle ((relayResumePeer "p").request fun _ => [])).exec obliging false committedState =
    some (committedState, .ok (ok (.status "resumed"))) := rfl

/-- The seed commits and turns to its peer, the peer pauses, commits and resumes, and the seed answers. -/
theorem relayCommitOnce_delivered : ∃ ls net,
    (relayNet (W := List Nat) (fun _ => ()) (fun _ => []) "1").Run stagedNet ls net ∧
      net.seed.shared.activeVersion = some "1" ∧ (net.peer ()).shared.activeVersion = some "1" := by
  have harrive : RelayStep (fun _ => ()) (fun _ => []) "1" stagedNet _ _ :=
    .seed (.arrive (q := commitDelta) ⟨commitOf_commitDelta, fun _ _ => rfl⟩ rfl) fun _ h => Or.inl h
  have h₁ := System.Run.single (M := relayNet (W := List Nat) (fun _ => ()) (fun _ => []) "1") harrive
  have h₂ := h₁.snoc (RelayStep.seed
    (.acquire_alone (q := commitDelta) (o := (handle commitDelta).run false relayingState) rfl rfl rfl)
    fun _ h => Or.inl h)
  obtain ⟨-, ls₃, h₃⟩ := seed_answer (q := commitDelta) h₂ rfl (world_obliging _ _) (by
    intro send hsend
    exact Or.inl hsend)
  obtain ⟨ls₄, h₄⟩ := peer_serve world_obliging h₃ (i := ()) rfl (Or.inl rfl) exec_pause ok_isSuccess
  obtain ⟨ls₅, h₅⟩ := peer_serve world_obliging h₄ (i := ()) rfl (Or.inr (Or.inr ⟨rfl, .str "1", rfl, rfl⟩))
    exec_commit ok_isSuccess
  obtain ⟨ls₆, h₆⟩ := peer_serve world_obliging h₅ (i := ()) rfl (Or.inr (Or.inl rfl)) exec_resume ok_isSuccess
  obtain ⟨hanswer, ls₇, h₇⟩ := seed_answer (q := commitDelta) h₆ rfl (world_obliging _ _) (by
    intro send hsend
    obtain rfl : send = commitSend "1" .delta "p" := List.mem_singleton.1 hsend
    refine Or.inr fun post hpost => ?_
    simp only [commitSend, RelaySend.posts, List.mem_cons, List.not_mem_nil, or_false] at hpost
    rcases hpost with rfl | rfl | rfl
    · exact List.mem_append_left _ (List.mem_append_left _ List.mem_concat_self)
    · exact List.mem_append_left _ List.mem_concat_self
    · exact List.mem_concat_self)
  have hactive := (relayCommitOnce relayStart_stagedNet h₆).2 _ _ _ hanswer rfl rfl rfl
  exact ⟨ls₇, _, h₇, hactive.1, hactive.2 "p" (List.mem_singleton.2 rfl)⟩

end Example

end AuroraRl.Server
