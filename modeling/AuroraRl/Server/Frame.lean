import AuroraRl.Server.Engine

/-!
# What the helpers of the handlers leave alone

* `FilesOnly` : removing files changes nothing but the files;
* `keeps_await`, `keeps_readRequestFields` : under any discipline, the reads of a request and the generation
  switches leave the state alone;
* `keeps_gatherStats`, `keeps_fanOut` : the statistics of a fan-out tell which sends came back well.
-/

namespace AuroraRl.Server
open Coroutine Discipline

variable {W A κ : Type} [WeightModel W A] {D : Discipline (ServerState W A) κ} {held : Bool}
  {state state' : ServerState W A}

/-! ## Files -/

/-- `s'` is `s` but for the files. -/
def FilesOnly (s s' : ServerState W A) : Prop := ∃ files, s' = { s with files := files }

section Files

omit [WeightModel W A]

theorem FilesOnly.refl (s : ServerState W A) : FilesOnly s s := ⟨s.files, rfl⟩

theorem FilesOnly.trans {s t u : ServerState W A} (h : FilesOnly s t) (h' : FilesOnly t u) : FilesOnly s u := by
  obtain ⟨f, rfl⟩ := h
  obtain ⟨f', rfl⟩ := h'
  exact ⟨f', rfl⟩

theorem filesOnly_unlinkOwned (state : ServerState W A) (path : PurePath) :
    FilesOnly state (unlinkOwned state path) := by
  unfold unlinkOwned
  split
  · exact ⟨_, rfl⟩
  · exact .refl state

theorem filesOnly_cleanupStagedFile (state : ServerState W A) (entry : StagedEntry) :
    FilesOnly state (cleanupStagedFile state entry) := by
  unfold cleanupStagedFile
  split
  · exact filesOnly_unlinkOwned ..
  · exact .refl state

theorem filesOnly_cleanupPrevious (state : ServerState W A) (version : String) (entry : StagedEntry) :
    FilesOnly state (cleanupPrevious state version entry) := by
  unfold cleanupPrevious
  split
  · split
    · exact filesOnly_cleanupStagedFile ..
    · exact .refl state
  · exact .refl state

theorem filesOnly_foldl {β : Type} {f : ServerState W A → β → ServerState W A} (hf : ∀ s b, FilesOnly s (f s b))
    (l : List β) (state : ServerState W A) : FilesOnly state (l.foldl f state) := by
  induction l generalizing state with
  | nil => exact .refl state
  | cons b l ih => exact (hf state b).trans (ih _)

theorem cleanupOtherVersions_eq (version : String) (state : ServerState W A) : ∃ files,
    cleanupOtherVersions version state = { state with
      files := files, stagedVersions := state.stagedVersions.filter fun v _ => v = version } := by
  obtain ⟨files, hfiles⟩ := filesOnly_foldl filesOnly_cleanupStagedFile
    (state.stagedVersions.filter fun v _ => v ≠ version).values state
  refine ⟨files, ?_⟩
  rw [cleanupOtherVersions, hfiles]

theorem clearStaging_eq (state : ServerState W A) : ∃ files,
    clearStaging state = { state with
      files := files, activeVersion := none, weightsDirty := false, stagedVersions := ∅, stageUploads := ∅ } := by
  obtain ⟨files, hfiles⟩ := filesOnly_foldl filesOnly_cleanupStagedFile state.stagedVersions.values state
  obtain ⟨files', hfiles'⟩ := filesOnly_foldl filesOnly_unlinkOwned
    (state.stageUploads.values.map fun ref => (state.uploadObjects ref).path) { state with files := files }
  refine ⟨files', ?_⟩
  rw [clearStaging, hfiles]
  change { (List.foldl unlinkOwned { state with files := files } _) with
    activeVersion := none, weightsDirty := false, stagedVersions := ∅, stageUploads := ∅ } = _
  rw [hfiles']

end Files

/-! ## Responses -/

theorem ok_isSuccess {content : Content} : (ok content).IsSuccess := by
  simp [ok, JSONResponse.IsSuccess]

theorem errorResponse_status {code : Nat} {message : String} (h : 300 ≤ code) :
    ¬ (errorResponse code message).IsSuccess := by
  intro hs
  have := hs.2
  unfold errorResponse at this
  dsimp only at this
  omega

omit [WeightModel W A] in
theorem validateStageMetadata_status {fields : StageFields} {response : JSONResponse}
    (h : validateStageMetadata state fields = .error response) : ¬ response.IsSuccess := by
  unfold validateStageMetadata at h
  dsimp only at h
  split at h
  · cases h
    exact errorResponse_status (by decide)
  · split at h
    · cases h
      exact errorResponse_status (by decide)
    · split at h
      · cases h
      · split at h
        · cases h
          exact errorResponse_status (by decide)
        · split at h
          · cases h
            exact errorResponse_status (by decide)
          · split at h
            · cases h
              exact errorResponse_status (by decide)
            · split at h
              · cases h
                exact errorResponse_status (by decide)
              · cases h

theorem parseNonNegativeInt_status [Host] {fields : Fields} {name : String} {response : JSONResponse}
    (h : parseNonNegativeInt fields name = .ok (.error response)) : ¬ response.IsSuccess := by
  unfold parseNonNegativeInt at h
  split at h
  · cases h
    exact errorResponse_status (by decide)
  · split at h
    · cases h
    · cases h
      exact errorResponse_status (by decide)
    · cases h
      exact errorResponse_status (by decide)
    · cases h
      exact errorResponse_status (by decide)
    · cases h

/-! ## Awaits -/

/-- The operations that are no weight RPC. -/
def Operation.Quiet : Operation → Prop
  | .collectiveRpc _ => False
  | _ => True

theorem quiet_readBody : Operation.Quiet .readBody := trivial

theorem world_quiet {op : Operation} (hop : op.Quiet) {a : Except PyError Unit}
    (h : World state (.operation op) a state') : state' = state := by
  cases h <;> first | rfl | exact hop.elim

theorem keeps_await {op : Operation} (hop : op.Quiet) (h : D.always state) :
    Keeps D World held (await op) state fun _ _ => True := by
  refine keeps_bind (R := fun _ _ => True) (keeps_perform h fun s₁ a s₂ hs _ hw => ?_) fun _ _ ha _ _ _ => ?_
  · rw [world_quiet hop hw]
    exact ⟨rfl, D.guar_refl _, hs, trivial⟩
  · exact keeps_ofExcept ha fun _ _ => trivial

theorem keeps_readRequestFields (request : Request) (h : D.always state) :
    Keeps D World held (readRequestFields request) state fun r _ => r = requestFields request := by
  have hreturn : ∀ s : ServerState W A, D.always s →
      Keeps D World held (pure (requestFields request) : Handler W A _) s fun r _ => r = requestFields request :=
    fun s hs => keeps_pure hs rfl
  unfold readRequestFields
  cases request.body with
  | raw _ => exact hreturn state h
  | json _ => exact keeps_bind (keeps_await trivial h) fun _ s hs _ _ _ => hreturn s hs
  | form _ => exact keeps_bind (keeps_await trivial h) fun _ s hs _ _ _ => hreturn s hs

/-! ## Fan-outs -/

/-- A discipline that does not mind new entries in the record of relayed sends. -/
def RelayFrame (D : Discipline (ServerState W A) κ) : Prop :=
  ∀ s results, D.always s → D.core (recordRelayed results s) = D.core s ∧ D.guar s (recordRelayed results s) ∧
    D.always (recordRelayed results s)

/-- Every send has ended, and those that ended well are on record. -/
def Gathered (sends : List RelaySend) (results : SendResults) (s : ServerState W A) : Prop :=
  (results.map Prod.fst).Perm sends ∧ ∀ r ∈ results, r.2.isSome → r.1 ∈ s.relayed

theorem keeps_gather (hD : RelayFrame D) (sends : List RelaySend) (h : D.always state) :
    Keeps D World held (gather sends) state (Gathered sends) := by
  refine keeps_bind (R := fun a s => ∀ results, a = .ok results → Gathered sends results s)
    (keeps_perform h fun s₁ a s₂ hs _ hw => ?_) fun a s ha _ _ hR => keeps_ofExcept ha hR
  cases hw with
  | gathered _ results hperm =>
      obtain ⟨hcore, hguar, halways⟩ := hD s₁ results hs
      refine ⟨hcore, hguar, halways, fun r hr => ?_⟩
      cases hr
      refine ⟨hperm, fun r hr hsome => List.mem_append_right _ ?_⟩
      exact List.mem_map.2 ⟨r, List.mem_filter.2 ⟨hr, hsome⟩, rfl⟩
  | gatherRaised _ x => exact ⟨rfl, D.guar_refl _, hs, nofun⟩

/-- What the statistics of a fan-out say about its sends. -/
def StatsOf (sends : List RelaySend) (stats : RelayStats) (s : ServerState W A) : Prop :=
  (∀ send ∈ sends, (stats.get? send.peer).isSome) ∧
    ∀ peer, stats.get? peer = some true → ∃ send ∈ sends, send.peer = peer ∧ send ∈ s.relayed

omit [WeightModel W A] in
theorem statsOf_gathered {sends : List RelaySend} {results : SendResults} {s : ServerState W A}
    (h : Gathered sends results s) :
    StatsOf sends (.ofList (results.map fun p => (p.1.peer, p.2.isSome))) s := by
  refine ⟨fun send hsend => Dict.get?_insertAll_isSome (Or.inl ?_), fun peer hpeer => ?_⟩
  · obtain ⟨r, hr, rfl⟩ := List.mem_map.1 (h.1.mem_iff.2 hsend)
    exact List.mem_map.2 ⟨_, List.mem_map.2 ⟨r, hr, rfl⟩, rfl⟩
  · rcases Dict.get?_insertAll_eq_some hpeer with hmem | hnone
    · obtain ⟨r, hr, heq⟩ := List.mem_map.1 hmem
      obtain ⟨hpeer', hsome⟩ := Prod.mk.inj heq
      exact ⟨r.1, h.1.mem_iff.1 (List.mem_map.2 ⟨r, hr, rfl⟩), hpeer', h.2 r hr hsome⟩
    · cases hnone

theorem keeps_gatherStats (hD : RelayFrame D) (sends : List RelaySend) (h : D.always state) :
    Keeps D World held (gatherStats sends) state (StatsOf sends) :=
  keeps_bind (keeps_gather hD sends h) fun _ _ ha _ _ hR => keeps_pure ha (statsOf_gathered hR)

/-- What the statistics of a fan-out to the configured peers say. -/
theorem keeps_fanOut (hD : RelayFrame D) {send : String → RelaySend} (hsend : ∀ p, (send p).peer = p) (relay : Bool)
    (h : D.always state) : Keeps D World held (fanOut relay send) state fun stats s' =>
      relay = true → ∀ p ∈ relayPeers state, ∃ b, stats.get? p = some b ∧ (b = true → send p ∈ s'.relayed) := by
  refine keeps_getState_bind ?_
  dsimp only
  split
  · rename_i hnone
    exact keeps_pure h fun hrelay p hp => by simp_all
  · refine (keeps_gatherStats hD _ h).mono fun stats s' hstats _ p hp => ?_
    obtain ⟨b, hb⟩ := Option.isSome_iff_exists.1 (hstats.1 (send p) (List.mem_map.2 ⟨p, hp, rfl⟩))
    rw [hsend] at hb
    refine ⟨b, hb, ?_⟩
    rintro rfl
    obtain ⟨_, hmem, hpeer, hrelayed⟩ := hstats.2 p hb
    obtain ⟨q, _, rfl⟩ := List.mem_map.1 hmem
    rw [hsend] at hpeer
    exact hpeer ▸ hrelayed

omit [WeightModel W A] in
/-- With `relay_fail_on_peer_error` set, no failure response means that no peer failed. -/
theorem relayFailureResponse_none {s : ServerState W A} {operation : String} {stats : RelayStats}
    (hfail : s.relayFailOnPeerError = true) (h : relayFailureResponse s operation stats = none) {p : String}
    {b : Bool} (hb : stats.get? p = some b) : b = true := by
  unfold relayFailureResponse at h
  rw [if_neg (by simp [hfail])] at h
  dsimp only at h
  split at h
  · rename_i hnil
    cases b with
    | true => rfl
    | false =>
        have hmem : p ∈ (stats.entries.filter fun e => ¬ e.2).map Prod.fst :=
          List.mem_map.2 ⟨(p, false), List.mem_filter.2 ⟨(stats.mem_entries_iff p false).2 hb, by simp⟩, rfl⟩
        rw [hnil] at hmem
        cases hmem
  · cases h

omit [WeightModel W A] in
theorem relayFailureResponse_status {s : ServerState W A} {operation : String} {stats : RelayStats}
    {failure : JSONResponse} (h : relayFailureResponse s operation stats = some failure) :
    ¬ failure.IsSuccess := by
  unfold relayFailureResponse at h
  split at h
  · cases h
  · dsimp only at h
    split at h
    · cases h
    · cases h
      simp [JSONResponse.IsSuccess]

end AuroraRl.Server
