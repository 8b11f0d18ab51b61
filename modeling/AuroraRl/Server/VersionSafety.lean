import AuroraRl.Server.VersionDiscipline

/-!
# The weights the engine holds are the ones `active_version` names

* `FreeCore.issue`, `FreeCore.finish`, `FreeCore.fail` : an update RPC, step by step; the same for a reload;
* `calm_commitWeights`, `calm_reloadWeights` : the two routes that use the engine keep the discipline;
* `server_meets` : so does every route; `weightVersionSafety` : the result over all interleavings.
-/

namespace AuroraRl.Server
open Coroutine Discipline

variable {W A : Type} [WeightModel W A]

/-! ## The engine's phases -/

section Phases

variable {core : VersionCore W A}

omit [WeightModel W A] in
theorem not_isClean_broken : ¬ (Phase.broken : Phase A).IsClean := id

/-- The version the checks compare with is the one the engine holds. -/
theorem FreeCore.currentVersion_eq (h : FreeCore core) {us : List (Update A)}
    (hus : core.activeVersion = lastVersion us) : currentVersion core.activeVersion = heldVersion us := by
  have hactive := h.active
  unfold heldVersion
  rw [← hus]
  cases hv : core.activeVersion with
  | none => rfl
  | some v =>
      have hne : v ≠ "" := fun hv' => hactive (hv.trans (hv' ▸ rfl))
      simp [currentVersion, hne]

/-- The core once an update RPC is under way. -/
def issueCore (core : VersionCore W A) (u : UpdateCall) : VersionCore W A :=
  { core with weightsDirty := true, engine := { core.engine with history := core.engine.history ++ [.issued u] } }

/-- The core after the RPC under way ended with `e` and left `weights`. -/
def endCore (core : VersionCore W A) (e : EngineEvent A) (weights : W) : VersionCore W A :=
  { core with engine := ⟨weights, core.engine.history ++ [e]⟩ }

theorem Consistent.issue (h : Consistent core) {u : UpdateCall} (hu : MayIssue (phase core.engine.history) u) :
    Consistent (issueCore core u) := by
  refine ⟨nofun, fun _ => ?_, issuesOk_concat h.issues fun u' hu' => by cases hu'; exact hu⟩
  obtain ⟨us, hus, -⟩ := hu
  change ¬ (phase (core.engine.history ++ [.issued u])).IsClean
  rw [phase_concat, hus]
  exact id

theorem FreeCore.fail (h : FreeCore core) {u : UpdateCall} (hu : MayIssue (phase core.engine.history) u)
    (weights : W) : FreeCore (endCore (issueCore core u) .failed weights) := by
  have hphase : phase (core.engine.history ++ [.issued u] ++ [.failed]) = .broken := by
    obtain ⟨us, hus, -⟩ := hu
    rw [phase_concat, phase_concat, hus]
    rfl
  refine ⟨⟨nofun, fun _ => ?_, issuesOk_concat (h.consistent.issue hu).issues nofun⟩, fun _ => hphase, h.named,
    h.active⟩
  exact fun hclean => not_isClean_broken (hphase ▸ hclean)

theorem weightsAfter_concat (us : List (Update A)) (u : Update A) :
    (weightsAfter (us ++ [u]) : W) = u.apply (weightsAfter us) := List.foldl_concat ..

omit [WeightModel W A] in
theorem lastVersion_concat (us : List (Update A)) (u : Update A) :
    lastVersion (us ++ [u]) = some u.call.version := by
  simp [lastVersion]

theorem FreeCore.finish (h : FreeCore core) (hdirty : core.weightsDirty = false) {u : UpdateCall}
    (hu : MayIssue (phase core.engine.history) u) (hv : u.version ≠ "") (a : A) :
    FreeCore { endCore (issueCore core u) (.applied a) ((⟨u, a⟩ : Update A).apply core.engine.weights) with
      activeVersion := some u.version, weightsDirty := false } := by
  obtain ⟨us, hus, hweights, -⟩ := h.consistent.clean hdirty
  have hphase : phase (core.engine.history ++ [.issued u] ++ [.applied a]) = .clean (us ++ [⟨u, a⟩]) := by
    rw [phase_concat, phase_concat, hus]
    rfl
  refine ⟨⟨fun _ => ⟨us ++ [Update.mk u a], hphase, ?_, ?_⟩, nofun, issuesOk_concat (h.consistent.issue hu).issues nofun⟩,
    nofun, h.named, fun hempty => hv (Option.some.inj hempty)⟩
  · rw [weightsAfter_concat, ← hweights]
    rfl
  · exact (lastVersion_concat us ⟨u, a⟩).symm

/-- The core once a reload is under way. -/
def reloadCore (core : VersionCore W A) : VersionCore W A :=
  { core with weightsDirty := true, engine := { core.engine with history := core.engine.history ++ [.reloadIssued] } }

theorem phase_reloadIssued (history : List (EngineEvent A)) : phase (history ++ [.reloadIssued]) = .reloading := by
  rw [phase_concat]
  cases phase history <;> rfl

theorem Consistent.reload (h : Consistent core) : Consistent (reloadCore core) := by
  refine ⟨nofun, fun _ => ?_, issuesOk_concat h.issues nofun⟩
  change ¬ (phase (core.engine.history ++ [.reloadIssued])).IsClean
  rw [phase_reloadIssued]
  exact id

theorem FreeCore.reloadFail (h : FreeCore core) (weights : W) :
    FreeCore (endCore (reloadCore core) .reloadFailed weights) := by
  have hphase : phase (core.engine.history ++ [.reloadIssued] ++ [.reloadFailed]) = .broken := by
    rw [phase_concat, phase_reloadIssued]
    rfl
  refine ⟨⟨nofun, fun _ => ?_, issuesOk_concat h.consistent.reload.issues nofun⟩, fun _ => hphase, h.named, h.active⟩
  exact fun hclean => not_isClean_broken (hphase ▸ hclean)

/-- A finished reload: the base weights, no active version, nothing staged. -/
theorem FreeCore.reload (h : FreeCore core) :
    FreeCore { endCore (reloadCore core) .reloaded WeightModel.base with
      activeVersion := none, weightsDirty := false, stagedVersions := ∅ } := by
  have hphase : phase (core.engine.history ++ [.reloadIssued] ++ [.reloaded]) = .clean [] := by
    rw [phase_concat, phase_reloadIssued]
    rfl
  exact ⟨⟨fun _ => ⟨[], hphase, rfl, rfl⟩, nofun, issuesOk_concat h.consistent.reload.issues nofun⟩, nofun, nofun, nofun⟩

end Phases

/-! ## Commit -/

section Commit

variable [Host] {state : ServerState W A}

/-- A critical section that began in `state` can give the lock back. -/
def Returns {ρ : Type} (state : ServerState W A) (b : Bool) (_ : Except PyError ρ) (s : ServerState W A) : Prop :=
  b = true ∧ (versionDiscipline W A).always s ∧ (versionDiscipline W A).guar state s ∧ FreeCore (versionCore s)

omit [Host] in
theorem wp_pure_returns {ρ : Type} {r : ρ} {s : ServerState W A} (hs : (versionDiscipline W A).always s)
    (hguar : (versionDiscipline W A).guar state s) (hfree : FreeCore (versionCore s)) :
    (versionDiscipline W A).wp World true (pure r : Handler W A ρ) s (Returns state) := ⟨rfl, hs, hguar, hfree⟩

omit [Host] in
theorem wp_bind_calm {ρ τ : Type} {c : Handler W A ρ} {f : ρ → Handler W A τ} {s : ServerState W A}
    {R : ρ → ServerState W A → Prop} (h : Calm true c s R) (hguar : (versionDiscipline W A).guar state s)
    (hfree : FreeCore (versionCore s))
    (hf : ∀ a s', (versionDiscipline W A).always s' → (versionDiscipline W A).guar state s' →
      FreeCore (versionCore s') → R a s' → (versionDiscipline W A).wp World true (f a) s' (Returns state)) :
    (versionDiscipline W A).wp World true (c >>= f) s (Returns state) := by
  refine wp_bind.2 (Keeps.wp h fun r s' hs hg hcore hR => ?_)
  have hcore : versionCore s' = versionCore s := hcore rfl
  have hfree' : FreeCore (versionCore s') := by
    rw [hcore]
    exact hfree
  cases r with
  | ok a => exact hf a s' hs (hguar.trans hg) hfree' (hR a rfl)
  | error x => exact ⟨rfl, hs, hguar.trans hg, hfree'⟩

omit [Host] in
/-- The end of a critical section: the answer depends on the fan-out alone. -/
theorem wp_relayAnswer_returns {op : String} {stats : RelayStats} {response : JSONResponse} {s : ServerState W A}
    (hs : (versionDiscipline W A).always s) (hguar : (versionDiscipline W A).guar state s)
    (hfree : FreeCore (versionCore s)) :
    (versionDiscipline W A).wp World true (do
      match relayFailureResponse (← Coro.getState) op stats with
      | some failure => return failure
      | none => return response) s (Returns state) := by
  refine wp_bind.2 (wp_getState.2 ?_)
  dsimp only
  split
  · exact wp_pure_returns hs hguar hfree
  · exact wp_pure_returns hs hguar hfree

omit [Host] in
theorem calm_withLock {ρ : Type} {c : Handler W A ρ} (h : (versionDiscipline W A).always state)
    (hc : ∀ s, (versionDiscipline W A).always s → FreeCore (versionCore s) →
      (versionDiscipline W A).wp World true c s (Returns s)) :
    Calm false (Coro.withLock c) state fun _ _ => True := by
  refine wp_withLock h fun s hs hg hfree => wp_mono (hc s hs hfree) fun b r s' hr => ?_
  obtain ⟨rfl, hs', hg', hfree'⟩ := hr
  exact ⟨rfl, hfree', rfl, hs', hg.trans hg', nofun, fun _ _ => trivial⟩

omit [Host] in
/-- An accepted entry may be handed to the engine. -/
theorem FreeCore.mayIssue {version : String} {entry : StagedEntry} {metadata : StageMetadata}
    (h : FreeCore (versionCore state)) (hdirty : state.weightsDirty = false)
    (hvalid : validateStageMetadata state (.ofEntry (some version) entry.mode entry.baseVersion) = .ok metadata) :
    MayIssue (phase state.engine.history) ⟨version, entry⟩ := by
  obtain ⟨us, hus, -, hactive⟩ := h.consistent.clean hdirty
  obtain ⟨hversion, hbase, hmode, hdelta⟩ := validateStageMetadata_ok hvalid
  refine ⟨us, hus, fun hm => ?_⟩
  have hmode' : metadata.mode = entry.mode := by
    have := ofString?_text entry.mode
    simp only [StageFields.ofEntry, Option.getD_some, PyValue.text] at hmode
    rw [this] at hmode
    exact (Option.some.inj hmode).symm
  obtain ⟨-, hcurrent, hne⟩ := hdelta (hmode'.trans hm)
  have hheld : currentVersion state.activeVersion = heldVersion us := h.currentVersion_eq hactive
  rw [hheld] at hcurrent hne
  refine ⟨?_, fun hv => hne (hversion.trans hv)⟩
  rw [← hcurrent, hbase]
  simp only [StageFields.ofEntry]
  cases entry.baseVersion <;> rfl

omit [Host] in
/-- An update RPC loads the whole artifact, or raises and leaves the weights in any state. -/
theorem world_update (version : String) {entry : StagedEntry} {a : Except PyError Unit} {state' : ServerState W A}
    (h : World state (.operation (.collectiveRpc (updateCall entry))) a state') :
    (∃ art, a = .ok () ∧ state' = finishUpdate (fun art => (Update.mk ⟨version, entry⟩ art).apply) art state) ∨
      ∃ x weights, a = .error x ∧ state' = failCall .failed weights state := by
  unfold updateCall at h
  cases hmode : entry.mode with
  | delta =>
      rw [hmode] at h
      cases h with
      | updatedDelta _ art => exact Or.inl ⟨art, rfl, by simp [finishUpdate, Update.apply, hmode]⟩
      | updateDeltaFailed _ x weights => exact Or.inr ⟨x, weights, rfl, rfl⟩
  | full =>
      rw [hmode] at h
      cases h with
      | updatedFull _ art => exact Or.inl ⟨art, rfl, by simp [finishUpdate, Update.apply, hmode]⟩
      | updateFullFailed _ x weights => exact Or.inr ⟨x, weights, rfl, rfl⟩

omit [Host] in
/-- The update RPC of a commit. -/
theorem wp_applyStaged {version : String} {entry : StagedEntry} (h : (versionDiscipline W A).always state)
    (hfree : FreeCore (versionCore state)) (hdirty : state.weightsDirty = false) (hv : version ≠ "") :
    (versionDiscipline W A).wp World true (applyStaged version entry) state (Returns state) := by
  refine wp_bind.2 (wp_getState.2 ?_)
  dsimp only
  split
  · exact ⟨rfl, h, List.prefix_rfl, hfree⟩
  · cases hvalid : validateStageMetadata state (.ofEntry (some version) entry.mode entry.baseVersion) with
    | error response => exact ⟨rfl, h, List.prefix_rfl, hfree⟩
    | ok metadata =>
        have hu : MayIssue (phase state.engine.history) ⟨version, entry⟩ := hfree.mayIssue hdirty hvalid
        refine wp_bind.2 (wp_modify.2 ⟨of_held, List.prefix_rfl, ?_⟩)
        refine wp_bind.2 (wp_bind.2 (wp_modify.2 ⟨of_held, List.prefix_append .., ?_⟩))
        have hissue : (versionDiscipline W A).always
            (recordEvent (.issued ⟨version, entry⟩) { state with weightsDirty := true }) :=
          ⟨hfree.consistent.issue hu, h.2⟩
        refine wp_bind.2 (wp_perform.2 ⟨hissue, fun s₁ a s₂ hs₁ _ hcore hw => ?_⟩)
        have hcore : versionCore s₁ = issueCore (versionCore state) ⟨version, entry⟩ := hcore rfl
        have hweights : s₁.engine.weights = state.engine.weights := congrArg (fun c => c.engine.weights) hcore
        have hhistory : ∀ e, state.engine.history <+: s₁.engine.history ++ [e] := by
          intro e
          rw [show s₁.engine.history = state.engine.history ++ [.issued ⟨version, entry⟩] from
            congrArg (fun c => c.engine.history) hcore, List.append_assoc]
          exact List.prefix_append ..
        rcases world_update version hw with ⟨a, rfl, rfl⟩ | ⟨x, weights, rfl, rfl⟩
        · have hfinish : FreeCore { endCore (versionCore s₁) (.applied a)
              ((Update.mk ⟨version, entry⟩ a).apply s₁.engine.weights) with
              activeVersion := some version, weightsDirty := false } := by
            rw [hcore, hweights]
            exact hfree.finish hdirty hu hv a
          exact ⟨of_held, List.prefix_append .., wp_ofExcept.2 ⟨of_held, List.prefix_rfl, rfl,
            ⟨hfinish.consistent, hs₁.2⟩, hhistory _, hfinish⟩⟩
        · have hfailed : FreeCore (endCore (versionCore s₁) .failed weights) := by
            rw [hcore]
            exact hfree.fail hu weights
          exact ⟨of_held, List.prefix_append .., wp_ofExcept.2 ⟨rfl, ⟨hfailed.consistent, hs₁.2⟩, hhistory _, hfailed⟩⟩

omit [Host] in
/-- Dropping the other staged versions keeps the core free. -/
theorem FreeCore.cleanupOthers (h : FreeCore (versionCore state)) (version : String) :
    FreeCore (versionCore (cleanupOtherVersions version state)) := by
  obtain ⟨files, heq⟩ := cleanupOtherVersions_eq version state
  rw [heq]
  refine ⟨⟨h.consistent.clean, h.consistent.dirty, h.consistent.issues⟩, h.broken, fun v entry hv => ?_, h.active⟩
  change (state.stagedVersions.filter fun v _ => v = version).get? v = some entry at hv
  rw [Dict.get?_filter, Option.filter_eq_some_iff] at hv
  exact h.named v entry hv.1

omit [Host] in
theorem guar_cleanupOthers (state : ServerState W A) (version : String) :
    (versionDiscipline W A).guar state (cleanupOtherVersions version state) := by
  obtain ⟨files, heq⟩ := cleanupOtherVersions_eq version state
  rw [heq]
  exact guar_of_engine rfl

omit [WeightModel W A] [Host] in
theorem UploadsNamed.cleanupOthers (h : UploadsNamed state) (version : String) :
    UploadsNamed (cleanupOtherVersions version state) := by
  obtain ⟨files, heq⟩ := cleanupOtherVersions_eq version state
  rw [heq]
  exact h

theorem wp_commitLocked (request : Request) (h : (versionDiscipline W A).always state)
    (hfree : FreeCore (versionCore state)) :
    (versionDiscipline W A).wp World true (commitLocked request) state (Returns state) := by
  refine wp_bind_calm (keeps_readRequestFields request h) List.prefix_rfl hfree fun r s hs hg hfree _ => ?_
  obtain ⟨fields, uploadedFile⟩ := r
  dsimp only
  cases fields.get? "version" with
  | none => exact wp_pure_returns hs hg hfree
  | some version =>
      refine wp_bind.2 (wp_getState.2 ?_)
      dsimp only
      cases hstaged : s.stagedVersions.get? version.text with
      | none => exact wp_pure_returns hs hg hfree
      | some entry =>
          dsimp only
          split
          · exact wp_pure_returns hs hg hfree
          · split
            · exact wp_pure_returns hs hg hfree
            · rename_i hclean
              have hv : version.text ≠ "" := hfree.named _ entry hstaged
              refine wp_bind.2 (wp_mono (wp_applyStaged hs hfree (by simpa using hclean) hv) fun b r s' hr => ?_)
              obtain ⟨rfl, hs', hg', hfree'⟩ := hr
              have hg' := hg.trans hg'
              cases r with
              | error x => exact ⟨rfl, hs', hg', hfree'⟩
              | ok error =>
                  cases error with
                  | some error => exact wp_pure_returns hs' hg' hfree'
                  | none =>
                      have hguar := guar_cleanupOthers s' version.text
                      have hfree'' := hfree'.cleanupOthers version.text
                      refine wp_bind.2 (wp_modify.2 ⟨of_held, hguar, ?_⟩)
                      refine wp_bind_calm (calm_fanOut _ _ ⟨hfree''.consistent, hs'.2.cleanupOthers _⟩)
                        (hg'.trans hguar) hfree'' fun stats s hs hg hfree _ => ?_
                      exact wp_relayAnswer_returns hs hg hfree

theorem calm_commitWeights (request : Request) (h : (versionDiscipline W A).always state) :
    Calm false (commitWeights request) state fun _ _ => True :=
  calm_withLock h fun _ hs hfree => wp_commitLocked request hs hfree

/-! ## Reload -/

omit [WeightModel W A] [Host] in
theorem versionCore_clearStaging : versionCore (clearStaging state) =
    { versionCore state with activeVersion := none, weightsDirty := false, stagedVersions := ∅ } := by
  obtain ⟨files, heq⟩ := clearStaging_eq state
  rw [heq]
  rfl

omit [WeightModel W A] [Host] in
theorem uploadsNamed_clearStaging : UploadsNamed (clearStaging state) := by
  obtain ⟨files, heq⟩ := clearStaging_eq state
  rw [heq]
  exact nofun

theorem wp_reloadLocked (request : Request) (h : (versionDiscipline W A).always state)
    (hfree : FreeCore (versionCore state)) :
    (versionDiscipline W A).wp World true (reloadLocked request) state (Returns state) := by
  refine wp_bind_calm (keeps_readRequestFields request h) List.prefix_rfl hfree fun r s hs hg hfree _ => ?_
  obtain ⟨fields, uploadedFile⟩ := r
  refine wp_bind.2 (wp_modify.2 ⟨of_held, List.prefix_rfl, ?_⟩)
  refine wp_bind.2 (wp_bind.2 (wp_modify.2 ⟨of_held, List.prefix_append .., ?_⟩))
  have hissue : (versionDiscipline W A).always (recordEvent .reloadIssued { s with weightsDirty := true }) :=
    ⟨hfree.consistent.reload, hs.2⟩
  refine wp_bind.2 (wp_perform.2 ⟨hissue, fun s₁ a s₂ hs₁ _ hcore hw => ?_⟩)
  have hcore : versionCore s₁ = reloadCore (versionCore s) := hcore rfl
  have hhistory : ∀ e, state.engine.history <+: s₁.engine.history ++ [e] := by
    intro e
    rw [show s₁.engine.history = s.engine.history ++ [.reloadIssued] from
      congrArg (fun c => c.engine.history) hcore, List.append_assoc]
    exact hg.trans (List.prefix_append ..)
  cases hw with
  | reloadFailed x weights =>
      have hfailed : FreeCore (endCore (versionCore s₁) .reloadFailed weights) := by
        rw [hcore]
        exact hfree.reloadFail weights
      exact ⟨of_held, List.prefix_append .., wp_ofExcept.2 ⟨rfl, ⟨hfailed.consistent, hs₁.2⟩, hhistory _, hfailed⟩⟩
  | reloaded =>
      generalize hs₂ : recordEvent EngineEvent.reloaded
        { s₁ with engine := { s₁.engine with weights := (WeightModel.base : W) } } = s₂
      have hguar : (versionDiscipline W A).guar state s₂ := by
        rw [← hs₂]
        exact hhistory .reloaded
      have hclear : (versionDiscipline W A).guar s₂ (clearStaging s₂) :=
        guar_of_engine (congrArg VersionCore.engine versionCore_clearStaging)
      have hdone : FreeCore (versionCore (clearStaging s₂)) := by
        have hreload := hfree.reload
        rw [← hcore] at hreload
        rw [versionCore_clearStaging, ← hs₂]
        exact hreload
      refine ⟨of_held, hs₂ ▸ List.prefix_append .., wp_ofExcept.2 (wp_bind.2 (wp_modify.2 ⟨of_held, hclear, ?_⟩))⟩
      refine wp_bind_calm (calm_fanOut _ _ ⟨hdone.consistent, uploadsNamed_clearStaging⟩) (hguar.trans hclear) hdone
        fun stats s hs hg hfree _ => ?_
      exact wp_relayAnswer_returns hs hg hfree

theorem calm_reloadWeights (request : Request) (h : (versionDiscipline W A).always state) :
    Calm false (reloadWeights request) state fun _ _ => True :=
  calm_withLock h fun _ hs hfree => wp_reloadLocked request hs hfree

end Commit

/-! ## All interleavings -/

section Safety

variable [Host]

theorem calm_handle {request : Request} (hv : NonemptyVersion request) {state : ServerState W A}
    (h : (versionDiscipline W A).always state) : Calm false (handle request) state fun _ _ => True := by
  unfold handle
  cases request.route with
  | pause => exact calm_pause h
  | resume => exact calm_resume h
  | stage => exact calm_stageWeights hv h
  | stageStreamInit => exact calm_stageStreamInit hv h
  | stageStreamChunk => exact calm_stageStreamChunk request h
  | stageStreamFinalize => exact calm_stageStreamFinalize request h
  | stageChunk => exact calm_stageChunk request h
  | stageFinalize => exact calm_stageFinalize hv h
  | commit => exact calm_commitWeights request h
  | reloadWeights => exact calm_reloadWeights request h

omit [Host] in
theorem Fresh.freeCore {state : ServerState W A} (h : Fresh state) : FreeCore (versionCore state) := by
  refine ⟨⟨fun _ => ⟨[], ?_, h.weights, h.activeVersion⟩, fun hd => ?_, ?_⟩, fun hd => ?_, fun v e hve => ?_, ?_⟩
  · exact congrArg phase h.history
  · exact absurd (h.weightsDirty.symm.trans hd) (by decide)
  · exact (congrArg IssuesOk h.history).mpr issuesOk_nil
  · exact absurd (h.weightsDirty.symm.trans hd) (by decide)
  · have hnone : state.stagedVersions.get? v = none := by
      rw [h.stagedVersions]
      rfl
    exact absurd (hnone.symm.trans hve) (by simp)
  · exact fun hempty => absurd (h.activeVersion.symm.trans hempty) (by simp)

theorem server_meets : (server (W := W)).Meets (versionDiscipline W A) fun _ _ _ => True := fun _ hq _ hs =>
  (calm_handle hq hs).wp fun _ _ hs' _ _ _ => ⟨rfl, hs', trivial⟩

/-- The discipline holds in every reachable configuration. -/
theorem server_ok {c : Config (ServerState W A) Await Answer PyError JSONResponse Request}
    (h : server.system.Reachable c) : Pool.Ok (versionDiscipline W A) World (fun _ _ _ => True) c := by
  refine Pool.reachable_ok server_meets (fun s hs => ⟨⟨hs.freeCore.consistent, fun key ref hk => ?_⟩, hs.freeCore⟩) h
  rw [hs.stageUploads] at hk
  cases hk

omit [WeightModel W A] [Host] in
/-- Only a reload leads from an unknown state back to a clean one. -/
theorem reloaded_mem_of_clean {p : Phase A} {us : List (Update A)} {events : List (EngineEvent A)}
    (hp : p = .broken ∨ p = .reloading) (h : events.foldl Phase.next p = .clean us) :
    EngineEvent.reloaded ∈ events := by
  induction events generalizing p with
  | nil => rcases hp with rfl | rfl <;> cases h
  | cons e events ih =>
      rw [List.mem_cons]
      rcases hp with rfl | rfl <;> cases e <;> first
        | exact Or.inl rfl
        | exact Or.inr (ih (Or.inl rfl) h)
        | exact Or.inr (ih (Or.inr rfl) h)

omit [WeightModel W A] [Host] in
theorem success_mem_of_clean {p : Phase A} {us : List (Update A)} {events : List (EngineEvent A)}
    (hp : ¬ p.IsClean) (h : events.foldl Phase.next p = .clean us) :
    EngineEvent.reloaded ∈ events ∨ ∃ a, EngineEvent.applied a ∈ events := by
  cases p with
  | clean _ => exact absurd trivial hp
  | broken => exact Or.inl (reloaded_mem_of_clean (Or.inl rfl) h)
  | reloading => exact Or.inl (reloaded_mem_of_clean (Or.inr rfl) h)
  | updating us u =>
      cases events with
      | nil => cases h
      | cons e events =>
          cases e with
          | applied a => exact Or.inr ⟨a, List.mem_cons_self⟩
          | reloadIssued => exact Or.inl (List.mem_cons_of_mem _ (reloaded_mem_of_clean (Or.inr rfl) h))
          | _ => exact Or.inl (List.mem_cons_of_mem _ (reloaded_mem_of_clean (Or.inl rfl) h))

/-- **Weight-version safety.** In every interleaving, while the server is clean and the lock is free the engine
holds the base checkpoint with the artifacts since the last reload, and `active_version` names the last of them;
every delta was handed to an engine that held its base; and a dirty server hands nothing to the engine before a
reload, or the update under way, ends well. -/
theorem weightVersionSafety {c : Config (ServerState W A) Await Answer PyError JSONResponse Request}
    (h : server.system.Reachable c) :
    (c.shared.weightsDirty = false → c.LockFree → ∃ updates : List (Update A),
      phase c.shared.engine.history = .clean updates ∧ c.shared.engine.weights = weightsAfter updates ∧
        c.shared.activeVersion = lastVersion updates) ∧
    (∀ before call after, c.shared.engine.history = before ++ .issued call :: after →
      ∃ updates : List (Update A), phase before = .clean updates ∧ (call.entry.mode = .delta →
        call.entry.baseVersion = some (heldVersion updates) ∧ call.version ≠ heldVersion updates)) ∧
    (c.shared.weightsDirty = true → ∀ ls c', server.system.Run c ls c' → ∀ middle call after,
      c'.shared.engine.history = c.shared.engine.history ++ middle ++ .issued call :: after →
        EngineEvent.reloaded ∈ middle ∨ (¬ c.LockFree ∧ ∃ a, EngineEvent.applied a ∈ middle)) := by
  have hok := server_ok h
  refine ⟨fun hdirty _ => hok.always.1.clean hdirty, hok.always.1.issues, fun hdirty ls c' hrun => ?_⟩
  intro middle call after hhistory
  have hok' := server_ok (h.run hrun)
  obtain ⟨updates, hclean, -⟩ := hok'.always.1.issues _ call after hhistory
  have hfold : middle.foldl Phase.next (phase c.shared.engine.history) = .clean updates := by
    rw [← hclean, phase, phase, List.foldl_append]
  by_cases hfree : c.LockFree
  · exact Or.inl (reloaded_mem_of_clean (Or.inl ((hok.free hfree).broken hdirty)) hfold)
  · rcases success_mem_of_clean (hok.always.1.dirty hdirty) hfold with hr | ha
    · exact Or.inl hr
    · exact Or.inr ⟨hfree, ha⟩

end Safety

/-! ### A server that took one delta -/

section Example

attribute [local instance] asciiHost listWeights

def stageDelta : Request :=
  ⟨.stage, [("path", "/w"), ("version", "1"), ("mode", "delta"), ("base_version", "0")], .raw []⟩

def commitDelta : Request := ⟨.commit, [("version", "1")], .raw []⟩

/-- The server after `stageDelta`, and after `commitDelta` as well. -/
def stagedState : ServerState (List Nat) Nat :=
  insertStaged (freshState []) "1" ⟨PurePath.ofString "/w", .delta, some "0", false⟩

def committedState : ServerState (List Nat) Nat :=
  { stagedState with
    activeVersion := some "1"
    engine := ⟨[2], [.issued ⟨"1", ⟨PurePath.ofString "/w", .delta, some "0", false⟩⟩, .applied 2]⟩ }

theorem exec_stageDelta : (handle stageDelta).exec obliging false (freshState []) =
    some (stagedState, .ok (ok (.staged "1" .delta "/w" ∅))) := rfl

theorem exec_commitDelta : (handle commitDelta).exec obliging false stagedState =
    some (committedState, .ok (ok (.committed "1" .delta ∅))) := rfl

theorem reachable_committed : server.system.Reachable
    (⟨committedState, []⟩ : Config (ServerState (List Nat) Nat) Await Answer PyError JSONResponse Request) := by
  have hstage : NonemptyVersion stageDelta := fun v hv => by
    obtain rfl : PyValue.str "1" = v := Option.some.inj hv
    decide
  have hcommit : NonemptyVersion commitDelta := fun v hv => by
    obtain rfl : PyValue.str "1" = v := Option.some.inj hv
    decide
  obtain ⟨ls, c, a, hrun, hlast, -⟩ := Pool.serve_run (P := server) world_obliging hstage exec_stageDelta
  obtain ⟨ls', c', a', hrun', hlast', -⟩ := Pool.serve_run (P := server) world_obliging hcommit exec_commitDelta
  exact ⟨⟨freshState [], []⟩, _, ⟨fresh_freshState [], rfl⟩, (hrun.snoc hlast).append (hrun'.snoc hlast')⟩

theorem weightVersionSafety_committed : ∃ updates : List (Update Nat),
    phase committedState.engine.history = .clean updates ∧
      committedState.engine.weights = weightsAfter updates ∧ committedState.activeVersion = lastVersion updates :=
  (weightVersionSafety reachable_committed).1 rfl nofun

end Example

end AuroraRl.Server
