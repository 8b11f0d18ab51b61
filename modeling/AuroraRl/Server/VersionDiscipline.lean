import AuroraRl.Server.Frame

/-!
# The discipline of `weight_update_lock`

* `VersionCore` : what the lock guards;
* `Consistent` : the version state agrees with the engine's history at every suspension; `FreeCore` : what holds
  besides while the lock is free;
* `calm_*` : the staging routes leave the core alone, registration adds at most one staged version to it.
-/

namespace AuroraRl.Server
open Coroutine Discipline

variable {W A : Type} [WeightModel W A]

/-- The state `weight_update_lock` guards. -/
structure VersionCore (W A : Type) where
  stagedVersions : Dict String StagedEntry
  activeVersion : Option String
  weightsDirty : Bool
  engine : Engine W A

def versionCore (state : ServerState W A) : VersionCore W A :=
  ⟨state.stagedVersions, state.activeVersion, state.weightsDirty, state.engine⟩

/-- The engine may be handed this update: it is clean, and a delta's base is the version it holds. -/
def MayIssue (p : Phase A) (u : UpdateCall) : Prop :=
  ∃ us, p = .clean us ∧
    (u.entry.mode = .delta → u.entry.baseVersion = some (heldVersion us) ∧ u.version ≠ heldVersion us)

/-- Every update was handed to the engine when it might be. -/
def IssuesOk (history : List (EngineEvent A)) : Prop :=
  ∀ before u after, history = before ++ .issued u :: after → MayIssue (phase before) u

omit [WeightModel W A] in
theorem issuesOk_nil : IssuesOk ([] : List (EngineEvent A)) := by
  intro before u after h
  simp at h

omit [WeightModel W A] in
theorem issuesOk_concat {history : List (EngineEvent A)} {e : EngineEvent A} (h : IssuesOk history)
    (he : ∀ u, e = .issued u → MayIssue (phase history) u) : IssuesOk (history ++ [e]) := by
  intro before u after hsplit
  rcases List.eq_nil_or_concat after with rfl | ⟨after', e', rfl⟩
  · obtain ⟨rfl, he'⟩ := List.append_inj' hsplit rfl
    exact he u (by simpa using he')
  · refine h before u after' ?_
    have hsplit' : history ++ [e] = (before ++ .issued u :: after') ++ [e'] := by simpa using hsplit
    exact (List.append_inj' hsplit' rfl).1

/-- The version state agrees with the engine's history. -/
structure Consistent (core : VersionCore W A) : Prop where
  clean : core.weightsDirty = false → ∃ us, phase core.engine.history = .clean us ∧
    core.engine.weights = weightsAfter us ∧ core.activeVersion = lastVersion us
  dirty : core.weightsDirty = true → ¬ (phase core.engine.history).IsClean
  issues : IssuesOk core.engine.history

/-- References are in use, and uploads carry non-empty versions. -/
def UploadsNamed (state : ServerState W A) : Prop :=
  ∀ key ref, state.stageUploads.get? key = some ref →
    ref < state.uploadCount ∧ (state.uploadObjects ref).version ≠ some ""

/-- What holds besides while nobody commits or reloads. -/
structure FreeCore (core : VersionCore W A) : Prop where
  consistent : Consistent core
  broken : core.weightsDirty = true → phase core.engine.history = .broken
  named : ∀ v entry, core.stagedVersions.get? v = some entry → v ≠ ""
  active : core.activeVersion ≠ some ""

/-- The discipline of `weight_update_lock`; the engine's history only grows. -/
def versionDiscipline (W A : Type) [WeightModel W A] : Discipline (ServerState W A) (VersionCore W A) where
  core := versionCore
  free := FreeCore
  always state := Consistent (versionCore state) ∧ UploadsNamed state
  guar state state' := state.engine.history <+: state'.engine.history
  guar_refl _ := List.prefix_rfl
  guar_trans := List.IsPrefix.trans

/-! ## Code that leaves the version state alone -/

section Calm

variable {ρ : Type} {held : Bool} {state state' : ServerState W A}

/-- A coroutine of the server that leaves the lock and the version state as they are. -/
abbrev Calm (held : Bool) (c : Handler W A ρ) (state : ServerState W A) (R : ρ → ServerState W A → Prop) : Prop :=
  Keeps (versionDiscipline W A) World held c state R

theorem always_of_core (h : (versionDiscipline W A).always state) (hcore : versionCore state' = versionCore state)
    (hnamed : UploadsNamed state') : (versionDiscipline W A).always state' := by
  refine ⟨?_, hnamed⟩
  rw [hcore]
  exact h.1

theorem guar_of_engine (hengine : state'.engine = state.engine) : (versionDiscipline W A).guar state state' := by
  have hhistory : state'.engine.history = state.engine.history ++ [] := by rw [hengine, List.append_nil]
  exact ⟨[], hhistory.symm⟩

theorem guar_of_core (hcore : versionCore state' = versionCore state) :
    (versionDiscipline W A).guar state state' := guar_of_engine (congrArg VersionCore.engine hcore)

theorem calm_setState {R : Unit → ServerState W A → Prop} (h : (versionDiscipline W A).always state)
    (hcore : versionCore state' = versionCore state) (hnamed : UploadsNamed state') (hR : R () state') :
    Calm held (Coro.setState state') state R :=
  keeps_setState (always_of_core h hcore hnamed) hcore (guar_of_core hcore) hR

/-! ### Files -/

omit [WeightModel W A] in
theorem FilesOnly.versionCore_eq (h : FilesOnly state state') : versionCore state' = versionCore state := by
  obtain ⟨files, rfl⟩ := h
  rfl

omit [WeightModel W A] in
theorem FilesOnly.uploadsNamed (h : FilesOnly state state') (hs : UploadsNamed state) : UploadsNamed state' := by
  obtain ⟨files, rfl⟩ := h
  exact hs

omit [WeightModel W A] in
theorem UploadsNamed.popUpload (h : UploadsNamed state) (key : String) : UploadsNamed (popUpload state key) := by
  intro key' ref hk
  simp only [Server.popUpload, Dict.get?_erase] at hk
  split at hk
  · cases hk
  · exact h key' ref hk

omit [WeightModel W A] in
theorem UploadsNamed.setUpload (h : UploadsNamed state) {ref : Nat} {upload : StageUpload}
    (hv : upload.version = (state.uploadObjects ref).version) : UploadsNamed (setUpload state ref upload) := by
  intro key r hk
  refine ⟨(h key r hk).1, ?_⟩
  simp only [Server.setUpload]
  split
  · rename_i hr
    rw [hv, ← hr]
    exact (h key r hk).2
  · exact (h key r hk).2

omit [WeightModel W A] in
theorem UploadsNamed.openUpload (h : UploadsNamed state) {key : String} {upload : StageUpload}
    (hv : upload.version ≠ some "") : UploadsNamed (openUpload state key upload) := by
  intro k r hk
  simp only [Server.openUpload, Server.setUpload, Dict.get?_insert] at hk ⊢
  split at hk
  · cases hk
    exact ⟨Nat.lt_succ_self _, by simpa using hv⟩
  · obtain ⟨hlt, hver⟩ := h k r hk
    rw [if_neg (Nat.ne_of_lt hlt)]
    exact ⟨Nat.lt_succ_of_lt hlt, hver⟩

/-! ### Awaits that answer nothing about the weights -/

theorem relayFrame_version : RelayFrame (versionDiscipline W A) := fun _ _ h => ⟨rfl, List.prefix_rfl, h⟩

theorem calm_gatherStats (sends : List RelaySend) (h : (versionDiscipline W A).always state) :
    Calm held (gatherStats sends) state fun _ _ => True :=
  (keeps_gatherStats relayFrame_version sends h).mono fun _ _ _ => trivial

theorem calm_fanOut (relay : Bool) (send : String → RelaySend) (h : (versionDiscipline W A).always state) :
    Calm held (fanOut relay send) state fun _ _ => True := by
  refine keeps_getState_bind ?_
  dsimp only
  split
  · exact keeps_pure h trivial
  · exact calm_gatherStats _ h

theorem calm_fanOutStageFile (path : PurePath) (version : String) (mode : WeightUpdateMode)
    (baseVersion : Option String) (relay : Bool) (h : (versionDiscipline W A).always state) :
    Calm held (fanOutStageFile path version mode baseVersion relay) state fun _ _ => True := by
  refine keeps_getState_bind ?_
  dsimp only
  split
  · exact keeps_pure h trivial
  · split
    · exact keeps_pure h trivial
    · exact calm_gatherStats _ h

theorem calm_fanOutStreamInit (fields : Fields) (filename : String) (relay : Bool)
    (h : (versionDiscipline W A).always state) :
    Calm held (fanOutStreamInit fields filename relay) state fun _ _ => True := by
  refine keeps_getState_bind ?_
  dsimp only
  split
  · exact keeps_pure h trivial
  · exact keeps_bind (keeps_gather relayFrame_version _ h) fun _ _ ha _ _ _ => keeps_pure ha trivial

theorem calm_fanOutStreamChunk (upload : StageUpload) (offset : Nat) (chunk : Bytes)
    (h : (versionDiscipline W A).always state) :
    Calm held (fanOutStreamChunk upload offset chunk) state fun _ _ => True := by
  unfold fanOutStreamChunk
  split
  · exact keeps_pure h trivial
  · exact calm_gatherStats _ h

theorem calm_fanOutStreamFinalize (upload : StageUpload) (fields : Fields)
    (h : (versionDiscipline W A).always state) :
    Calm held (fanOutStreamFinalize upload fields) state fun _ _ => True := by
  unfold fanOutStreamFinalize
  split
  · exact keeps_pure h trivial
  · exact calm_gatherStats _ h

/-! ### Staging routes, up to registration -/

theorem calm_relayAnswer {op : String} {stats : RelayStats} {response : JSONResponse}
    (h : (versionDiscipline W A).always state) :
    Calm held (do
      match relayFailureResponse (← Coro.getState) op stats with
      | some failure => return failure
      | none => return response) state fun _ _ => True := by
  refine keeps_getState_bind ?_
  cases relayFailureResponse state op stats with
  | some failure => exact keeps_pure h trivial
  | none => exact keeps_pure h trivial

theorem calm_writeChunk (ref offset : Nat) (chunk : Bytes) (h : (versionDiscipline W A).always state) :
    Calm held (writeChunk ref offset chunk) state fun _ _ => True := by
  refine keeps_getState_bind ?_
  dsimp only
  cases openForUpdate state (state.uploadObjects ref).path with
  | error x => exact keeps_throw h
  | ok content =>
      have hnamed : UploadsNamed
          (setFile state (state.uploadObjects ref).path (some (.file (writeAt content offset chunk)))) := h.2
      exact calm_setState h rfl (hnamed.setUpload rfl) trivial

variable [Host]

theorem calm_uuid4 (h : (versionDiscipline W A).always state) :
    Calm held uuid4 state fun _ _ => True := by
  refine keeps_getState_bind ?_
  refine keeps_bind (calm_setState h rfl h.2 (R := fun _ _ => True) trivial) fun _ s hs _ _ _ => ?_
  exact keeps_pure hs trivial

omit [Host] in
theorem calm_copyUpload (path : PurePath) (chunks : List Bytes) (h : (versionDiscipline W A).always state) :
    Calm held (copyUpload path chunks) state fun _ _ => True := by
  induction chunks generalizing state with
  | nil => exact keeps_await trivial h
  | cons chunk chunks ih =>
      refine keeps_bind (keeps_await trivial h) fun _ s hs _ _ _ => ?_
      refine keeps_bind (R := fun _ _ => True) ?_ fun _ s' hs' _ _ _ => ih hs'
      refine keeps_getState_bind (f := fun s => Coro.setState _) (calm_setState hs ?_ ?_ trivial)
      · split <;> rfl
      · split
        · exact hs.2
        · exact hs.2

theorem calm_stageUploaded (file : UploadFile) (mode : WeightUpdateMode)
    (h : (versionDiscipline W A).always state) :
    Calm held (stageUploaded file mode) state fun _ _ => True := by
  refine keeps_bind (calm_uuid4 h) fun uuid s hs _ _ _ => ?_
  refine keeps_getState_bind ?_
  refine keeps_bind (calm_setState hs rfl hs.2 (R := fun _ _ => True) trivial)
    fun _ s' hs' _ _ _ => ?_
  exact keeps_bind (calm_copyUpload _ _ hs') fun _ _ ha _ _ _ => keeps_pure ha trivial

/-! ### Registration -/

omit [WeightModel W A] [Host] in
theorem ofString?_text (mode : WeightUpdateMode) : WeightUpdateMode.ofString? mode.text = some mode := by
  cases mode <;> rfl

omit [WeightModel W A] [Host] in
/-- What an accepted request, entry or upload satisfies. -/
theorem validateStageMetadata_ok {fields : StageFields} {metadata : StageMetadata}
    (h : validateStageMetadata state fields = .ok metadata) :
    metadata.version = (fields.version.getD (.str "unknown")).text ∧
      metadata.baseVersion = fields.baseVersion.map PyValue.text ∧
      WeightUpdateMode.ofString? (fields.mode.getD (.str "full")).text = some metadata.mode ∧
      (metadata.mode = .delta → state.weightsDirty = false ∧
        metadata.baseVersion = some (currentVersion state.activeVersion) ∧
        metadata.version ≠ currentVersion state.activeVersion) := by
  unfold validateStageMetadata at h
  dsimp only at h
  split at h
  · cases h
  · rename_i m hm
    split at h
    · cases h
    · cases m with
      | full =>
          cases h
          exact ⟨rfl, rfl, hm, nofun⟩
      | delta =>
          dsimp only at h
          split at h
          · cases h
          · rename_i hdirty
            split at h
            · cases h
            · rename_i base hbase
              split at h
              · cases h
              · rename_i hcurrent
                split at h
                · cases h
                · rename_i hversion
                  cases h
                  rw [not_not] at hcurrent
                  exact ⟨rfl, rfl, hm, fun _ => ⟨by simpa using hdirty, hbase.trans (by rw [hcurrent]),
                    hcurrent ▸ hversion⟩⟩

omit [WeightModel W A] [Host] in
theorem validateStageMetadata_version_ne {fields : StageFields} {metadata : StageMetadata}
    (h : validateStageMetadata state fields = .ok metadata) (hv : ∀ v, fields.version = some v → v.text ≠ "") :
    metadata.version ≠ "" := by
  rw [(validateStageMetadata_ok h).1]
  cases hversion : fields.version with
  | none => decide
  | some v => exact hv v hversion

omit [Host] in
theorem FreeCore.insert {core : VersionCore W A} (h : FreeCore core) {version : String}
    (hv : version ≠ "") (entry : StagedEntry) :
    FreeCore { core with stagedVersions := core.stagedVersions.insert version entry } := by
  refine ⟨⟨h.consistent.clean, h.consistent.dirty, h.consistent.issues⟩, h.broken, fun v e hve => ?_, h.active⟩
  rw [Dict.get?_insert] at hve
  split at hve
  · rename_i hvv
    exact hvv ▸ hv
  · exact h.named v e hve

omit [Host] in
/-- Registration adds at most the new version to the core. -/
theorem calm_registerStagedVersion {version : String} (hv : version ≠ "") (entry : StagedEntry)
    (h : (versionDiscipline W A).always state) :
    Calm false (registerStagedVersion version entry) state fun _ _ => True := by
  refine wp_withLock h fun s hs hg hfree => ?_
  refine wp_bind.2 (wp_getState.2 ?_)
  dsimp only
  have hclean : ∀ e, versionCore (cleanupStagedFile s e) = versionCore s := fun e =>
    (filesOnly_cleanupStagedFile s e).versionCore_eq
  split
  · refine wp_bind.2 (wp_setState.2 ⟨nofun, guar_of_core (hclean entry), ?_⟩)
    refine ⟨rfl, ?_, rfl, always_of_core hs (hclean entry) ((filesOnly_cleanupStagedFile s entry).uploadsNamed hs.2), ?_⟩
    · change FreeCore (versionCore _)
      rw [hclean entry]
      exact hfree
    · exact ⟨hg.trans (guar_of_core (hclean entry)), nofun, fun _ _ => trivial⟩
  · have hfiles := filesOnly_cleanupPrevious s version entry
    have hcore := hfiles.versionCore_eq
    have halways := always_of_core hs hcore (hfiles.uploadsNamed hs.2)
    have hguar : (versionDiscipline W A).guar s (insertStaged (cleanupPrevious s version entry) version entry) :=
      guar_of_engine (congrArg VersionCore.engine hcore)
    refine wp_bind.2 (wp_setState.2 ⟨nofun, hguar, ?_⟩)
    refine ⟨rfl, ?_, rfl, ⟨⟨halways.1.clean, halways.1.dirty, halways.1.issues⟩, halways.2⟩, hg.trans hguar, nofun,
      fun _ _ => trivial⟩
    have hfree' : FreeCore (versionCore (cleanupPrevious s version entry)) := by
      rw [hcore]
      exact hfree
    exact hfree'.insert hv entry

/-! ### Staging handlers -/

omit [Host] in
theorem calm_pause (h : (versionDiscipline W A).always state) : Calm held pause state fun _ _ => True :=
  keeps_bind (keeps_await trivial h) fun _ _ hs _ _ _ => keeps_pure hs trivial

omit [Host] in
theorem calm_resume (h : (versionDiscipline W A).always state) : Calm held resume state fun _ _ => True := by
  refine keeps_getState_bind ?_
  split
  · exact keeps_pure h trivial
  · exact keeps_bind (keeps_await trivial h) fun _ _ hs _ _ _ => keeps_pure hs trivial

theorem calm_ingest (fields : Fields) (uploadedFile : Option UploadFile) (mode : WeightUpdateMode)
    (h : (versionDiscipline W A).always state) :
    Calm held (stageWeights.ingest fields uploadedFile mode) state fun _ _ => True := by
  cases uploadedFile with
  | some file => exact keeps_bind (calm_stageUploaded file _ h) fun _ _ hs _ _ _ => keeps_pure hs trivial
  | none =>
      unfold stageWeights.ingest
      dsimp only
      cases fields.get? "path" with
      | none => exact keeps_pure h trivial
      | some path =>
          refine keeps_bind (keeps_ofExcept h (R := fun _ _ => True) fun _ _ => trivial) fun path s hs _ _ _ => ?_
          refine keeps_getState_bind ?_
          split
          · exact keeps_pure hs trivial
          · exact keeps_pure hs trivial

theorem calm_stageWeights {request : Request} (hv : NonemptyVersion request)
    (h : (versionDiscipline W A).always state) :
    Calm false (stageWeights request) state fun _ _ => True := by
  refine keeps_bind (keeps_readRequestFields request h) fun r s hs _ _ hr => ?_
  obtain ⟨fields, uploadedFile⟩ := r
  have hfields : fields = (requestFields request).1 := congrArg Prod.fst hr
  refine keeps_getState_bind ?_
  cases hmeta : validateStageMetadata s (.ofRequest fields) with
  | error response => exact keeps_pure hs trivial
  | ok metadata =>
      have hversion := validateStageMetadata_version_ne hmeta (hfields ▸ hv)
      refine keeps_bind (calm_ingest _ _ _ hs) fun staged s hs _ _ _ => ?_
      cases staged with
      | error response => exact keeps_pure hs trivial
      | ok staged =>
          refine keeps_bind (calm_registerStagedVersion hversion _ hs) fun error s hs _ _ _ => ?_
          cases error with
          | some error => exact keeps_pure hs trivial
          | none => exact keeps_bind (calm_fanOutStageFile _ _ _ _ _ hs) fun _ _ hs _ _ _ => calm_relayAnswer hs

theorem calm_stageStreamInit {request : Request} (hv : NonemptyVersion request)
    (h : (versionDiscipline W A).always state) :
    Calm false (stageStreamInit request) state fun _ _ => True := by
  refine keeps_bind (keeps_readRequestFields request h) fun r s hs _ _ hr => ?_
  obtain ⟨fields, uploadedFile⟩ := r
  have hfields : fields = (requestFields request).1 := congrArg Prod.fst hr
  refine keeps_getState_bind ?_
  cases hmeta : validateStageMetadata s (.ofRequest fields) with
  | error response => exact keeps_pure hs trivial
  | ok metadata =>
      have hversion := validateStageMetadata_version_ne hmeta (hfields ▸ hv)
      dsimp only
      cases fields.get? "filename" with
      | none => exact keeps_pure hs trivial
      | some filename =>
          refine keeps_bind (calm_uuid4 hs) fun uploadId s hs _ _ _ => ?_
          refine keeps_getState_bind ?_
          refine keeps_bind (calm_setState hs rfl hs.2 (R := fun _ _ => True) trivial)
            fun _ s hs _ _ _ => ?_
          refine keeps_bind (calm_fanOutStreamInit _ _ _ hs) fun relayed s hs _ _ _ => ?_
          refine keeps_getState_bind ?_
          cases relayFailureResponse s "stage_stream_init" relayed.2 with
          | some failure =>
              refine keeps_bind (calm_setState hs (filesOnly_unlinkOwned ..).versionCore_eq
                ((filesOnly_unlinkOwned ..).uploadsNamed hs.2)
                (R := fun _ _ => True) trivial) fun _ s hs _ _ _ => ?_
              exact keeps_pure hs trivial
          | none =>
              refine keeps_bind (calm_setState hs rfl (hs.2.openUpload ?_) (R := fun _ _ => True) trivial)
                fun _ s hs _ _ _ => keeps_pure hs trivial
              simpa using hversion

theorem calm_stageStreamChunk (request : Request) (h : (versionDiscipline W A).always state) :
    Calm held (stageStreamChunk request) state fun _ _ => True := by
  unfold stageStreamChunk
  dsimp only
  cases (queryFields request).get? "upload_id" with
  | none => exact keeps_pure h trivial
  | some uploadId =>
      refine keeps_bind (keeps_ofExcept h (R := fun _ _ => True) fun _ _ => trivial) fun offset s hs _ _ _ => ?_
      cases offset with
      | error response => exact keeps_pure hs trivial
      | ok offset =>
          refine keeps_getState_bind ?_
          cases s.stageUploads.get? (stageStreamUploadKey uploadId.text) with
          | none => exact keeps_pure hs trivial
          | some ref =>
              refine keeps_bind (keeps_await trivial hs) fun _ s hs _ _ _ => ?_
              split
              · exact keeps_pure hs trivial
              · refine keeps_bind (calm_writeChunk _ _ _ hs) fun _ s hs _ _ _ => ?_
                refine keeps_getState_bind ?_
                refine keeps_bind (calm_fanOutStreamChunk _ _ _ hs) fun stats s hs _ _ _ => ?_
                refine keeps_getState_bind ?_
                cases relayFailureResponse s "stage_stream_chunk" stats with
                | some failure => exact keeps_pure hs trivial
                | none =>
                    dsimp only
                    cases (s.uploadObjects ref).version with
                    | none => exact keeps_throw hs
                    | some version => exact keeps_pure hs trivial

/-- An accepted stream upload is registered under its own version. -/
theorem calm_finalizeStream (fields : Fields) (uploadId : String) {key : String} {ref : Nat} (finalSize : Nat)
    (hkey : state.stageUploads.get? key = some ref) (h : (versionDiscipline W A).always state) :
    Calm held (stageStreamFinalize.finalizeStream fields uploadId key ref finalSize) state fun r _ =>
      ∀ version entry, r = .ok (version, entry) → version ≠ "" := by
  have herror : ∀ (s : ServerState W A) (response : JSONResponse), (versionDiscipline W A).always s →
      Calm held (pure (.error response)) s fun (r : Except JSONResponse (String × StagedEntry)) _ =>
        ∀ version entry, r = .ok (version, entry) → version ≠ "" :=
    fun s response hs => keeps_pure hs nofun
  refine keeps_getState_bind ?_
  dsimp only
  split
  · exact herror _ _ h
  · split
    · exact herror _ _ h
    · split
      · exact herror _ _ h
      · cases hread : readFile state (state.uploadObjects ref).path with
        | error x => exact keeps_throw h
        | ok content =>
            refine keeps_bind (keeps_ofExcept h (R := fun a s => a = content ∧ s = state)
              (fun a ha => by cases ha; exact ⟨rfl, rfl⟩)) fun a s hs _ _ hR => ?_
            obtain ⟨rfl, rfl⟩ := hR
            split
            · exact herror _ _ h
            · split
              · refine keeps_bind (calm_setState h (filesOnly_unlinkOwned ..).versionCore_eq
                  (((filesOnly_unlinkOwned ..).uploadsNamed h.2).popUpload _)
                  (R := fun _ _ => True) trivial) fun _ s hs _ _ _ => herror _ _ hs
              · split
                · rename_i stagedPath version _ hversion
                  refine keeps_bind (keeps_ofExcept h (R := fun s' s'' => versionCore s' = versionCore s ∧
                    UploadsNamed s' ∧ s'' = s) fun a ha => ?_) fun s' s'' hs _ _ hR => ?_
                  · unfold replaceFile at ha
                    split at ha
                    · cases ha
                    · cases ha
                      exact ⟨rfl, h.2, rfl⟩
                  · obtain ⟨hcore, hnamed, rfl⟩ := hR
                    refine keeps_bind (calm_setState h hcore (hnamed.popUpload _) (R := fun _ _ => True) trivial)
                      fun _ s hs _ _ _ => keeps_pure hs fun v entry hve => ?_
                    cases hve
                    rintro rfl
                    exact (h.2 key ref hkey).2 hversion
                · exact keeps_throw h

theorem calm_stageStreamFinalize (request : Request) (h : (versionDiscipline W A).always state) :
    Calm false (stageStreamFinalize request) state fun _ _ => True := by
  refine keeps_bind (keeps_readRequestFields request h) fun r s hs _ _ hr => ?_
  obtain ⟨fields, uploadedFile⟩ := r
  dsimp only
  cases fields.get? "upload_id" with
  | none => exact keeps_pure hs trivial
  | some uploadId =>
      refine keeps_bind (keeps_ofExcept hs (R := fun _ _ => True) fun _ _ => trivial) fun size s hs _ _ _ => ?_
      cases size with
      | error response => exact keeps_pure hs trivial
      | ok finalSize =>
          refine keeps_getState_bind ?_
          cases hkey : s.stageUploads.get? (stageStreamUploadKey uploadId.text) with
          | none => exact keeps_pure hs trivial
          | some ref =>
              refine keeps_bind (calm_finalizeStream _ _ _ hkey hs) fun r s hs _ _ hr => ?_
              cases r with
              | error response => exact keeps_pure hs trivial
              | ok staged =>
                  obtain ⟨version, entry⟩ := staged
                  refine keeps_bind (calm_registerStagedVersion (hr version entry rfl) _ hs) fun error s hs _ _ _ => ?_
                  cases error with
                  | some error => exact keeps_pure hs trivial
                  | none =>
                      refine keeps_getState_bind ?_
                      exact keeps_bind (calm_fanOutStreamFinalize _ _ hs) fun _ _ hs _ _ _ => calm_relayAnswer hs

theorem calm_chunkUpload (metadata : StageMetadata) (filename : String) (totalSize : Nat) (sha256 : String)
    (h : (versionDiscipline W A).always state) :
    Calm held (chunkUpload metadata filename totalSize sha256) state fun _ _ => True := by
  refine keeps_getState_bind ?_
  dsimp only
  split
  · refine keeps_bind (calm_setState h rfl (h.2.openUpload nofun) (R := fun _ _ => True) trivial)
      fun _ s hs _ _ _ => keeps_pure hs trivial
  · split
    · exact keeps_pure h trivial
    · exact keeps_pure h trivial

theorem calm_stageChunk (request : Request) (h : (versionDiscipline W A).always state) :
    Calm held (stageChunk request) state fun _ _ => True := by
  refine keeps_bind (keeps_readRequestFields request h) fun r s hs _ _ hr => ?_
  obtain ⟨fields, uploadedFile⟩ := r
  refine keeps_getState_bind ?_
  cases validateStageMetadata s (.ofRequest fields) with
  | error response => exact keeps_pure hs trivial
  | ok metadata =>
      cases uploadedFile with
      | none => exact keeps_pure hs trivial
      | some file =>
          refine keeps_bind (keeps_ofExcept hs (R := fun _ _ => True) fun _ _ => trivial) fun offset s hs _ _ _ => ?_
          cases offset with
          | error response => exact keeps_pure hs trivial
          | ok offset =>
              refine keeps_bind (keeps_ofExcept hs (R := fun _ _ => True) fun _ _ => trivial)
                fun totalSize s hs _ _ _ => ?_
              cases totalSize with
              | error response => exact keeps_pure hs trivial
              | ok totalSize =>
                  dsimp only
                  cases fields.get? "sha256" with
                  | none => exact keeps_pure hs trivial
                  | some sha256 =>
                      refine keeps_bind (keeps_await trivial hs) fun _ s hs _ _ _ => ?_
                      dsimp only
                      split
                      · exact keeps_pure hs trivial
                      · refine keeps_bind (calm_chunkUpload _ _ _ _ hs) fun r s hs _ _ _ => ?_
                        cases r with
                        | error response => exact keeps_pure hs trivial
                        | ok ref =>
                            refine keeps_bind (calm_writeChunk _ _ _ hs) fun _ s hs _ _ _ => ?_
                            refine keeps_bind (calm_fanOut _ _ hs) fun stats s hs _ _ _ => ?_
                            refine keeps_getState_bind ?_
                            cases relayFailureResponse s "stage_chunk" stats with
                            | some failure => exact keeps_pure hs trivial
                            | none => exact keeps_pure hs trivial

theorem calm_finalizeChunks (fields : Fields) (metadata : StageMetadata) (totalSize : Nat) (sha256 : String)
    (h : (versionDiscipline W A).always state) :
    Calm held (stageFinalize.finalizeChunks fields metadata totalSize sha256) state fun _ _ => True := by
  refine keeps_getState_bind ?_
  dsimp only
  split
  · exact keeps_pure h trivial
  · split
    · exact keeps_pure h trivial
    · split
      · exact keeps_pure h trivial
      · refine keeps_bind (keeps_ofExcept h (R := fun _ s => s = state) fun _ _ => rfl) fun sha s hs _ _ hR => ?_
        subst hR
        split
        · refine keeps_bind (calm_setState h (filesOnly_unlinkOwned ..).versionCore_eq
                  (((filesOnly_unlinkOwned ..).uploadsNamed h.2).popUpload _)
            (R := fun _ _ => True) trivial) fun _ s hs _ _ _ => keeps_pure hs trivial
        · refine keeps_bind (calm_uuid4 h) fun uuid s hs _ _ _ => ?_
          refine keeps_getState_bind ?_
          refine keeps_bind (keeps_ofExcept hs (R := fun s' s'' => versionCore s' = versionCore s ∧
            UploadsNamed s' ∧ s'' = s) fun a ha => ?_) fun s' s'' hs' _ _ hR => ?_
          · unfold replaceFile at ha
            split at ha
            · cases ha
            · cases ha
              exact ⟨rfl, hs.2, rfl⟩
          · obtain ⟨hcore, hnamed, rfl⟩ := hR
            exact keeps_bind (calm_setState hs hcore (hnamed.popUpload _) (R := fun _ _ => True) trivial)
              fun _ s hs _ _ _ => keeps_pure hs trivial

theorem calm_stageFinalize {request : Request} (hv : NonemptyVersion request)
    (h : (versionDiscipline W A).always state) :
    Calm false (stageFinalize request) state fun _ _ => True := by
  refine keeps_bind (keeps_readRequestFields request h) fun r s hs _ _ hr => ?_
  obtain ⟨fields, uploadedFile⟩ := r
  have hfields : fields = (requestFields request).1 := congrArg Prod.fst hr
  refine keeps_getState_bind ?_
  cases hmeta : validateStageMetadata s (.ofRequest fields) with
  | error response => exact keeps_pure hs trivial
  | ok metadata =>
      have hversion := validateStageMetadata_version_ne hmeta (hfields ▸ hv)
      refine keeps_bind (keeps_ofExcept hs (R := fun _ _ => True) fun _ _ => trivial) fun totalSize s hs _ _ _ => ?_
      cases totalSize with
      | error response => exact keeps_pure hs trivial
      | ok totalSize =>
          dsimp only
          cases fields.get? "sha256" with
          | none => exact keeps_pure hs trivial
          | some sha256 =>
              refine keeps_bind (calm_finalizeChunks _ _ _ _ hs) fun r s hs _ _ _ => ?_
              cases r with
              | error response => exact keeps_pure hs trivial
              | ok entry =>
                  refine keeps_bind (calm_registerStagedVersion hversion _ hs) fun error s hs _ _ _ => ?_
                  cases error with
                  | some error => exact keeps_pure hs trivial
                  | none => exact keeps_bind (calm_fanOut _ _ hs) fun _ _ hs _ _ _ => calm_relayAnswer hs

end Calm

end AuroraRl.Server
