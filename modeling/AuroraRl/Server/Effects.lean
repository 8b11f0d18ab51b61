import AuroraRl.Lib.Protocol
import AuroraRl.Server.Frame

/-!
# What the pieces of the handlers do to the state

Rules for `Protocol.wp`, one for each piece, whatever the protocol is.

* `files_setFile`, `files_unlinkOwned_of_ne`, … : which files an operation touches;
* `wp_await`, `wp_readRequestFields`, `wp_gatherStats` : the awaits;
* `wp_registerStagedVersion` : the critical section of a registration;
* `wp_writeChunk`, `wp_chunkUpload`, `wp_finalizeStream`, `wp_finalizeChunks` : the pieces without awaits.
-/

namespace AuroraRl.Server
open Coroutine Protocol

variable {W A : Type}

/-! ## Files -/

section Files

variable (state : ServerState W A) {path other : PurePath}

theorem files_setFile (path : PurePath) (node : Option FileNode) (other : PurePath) :
    (setFile state path node).files other = if other = path then node else state.files other := rfl

@[simp] theorem files_setFile_self (path : PurePath) (node : Option FileNode) :
    (setFile state path node).files path = node := if_pos rfl

theorem files_setFile_of_ne (node : Option FileNode) (h : other ≠ path) :
    (setFile state path node).files other = state.files other := if_neg h

theorem files_unlinkOwned_of_ne (h : other ≠ path) : (unlinkOwned state path).files other = state.files other := by
  unfold unlinkOwned
  split
  · exact files_setFile_of_ne _ _ h
  · rfl

theorem files_unlinkOwned (path other : PurePath) :
    (unlinkOwned state path).files other = state.files other ∨ (unlinkOwned state path).files other = none := by
  unfold unlinkOwned
  split
  · rw [files_setFile]
    split
    · exact Or.inr rfl
    · exact Or.inl rfl
  · exact Or.inl rfl

theorem files_cleanupStagedFile_of_ne {entry : StagedEntry} (h : other ≠ entry.path) :
    (cleanupStagedFile state entry).files other = state.files other := by
  unfold cleanupStagedFile
  split
  · exact files_unlinkOwned_of_ne state h
  · rfl

theorem files_cleanupStagedFile (entry : StagedEntry) (other : PurePath) :
    (cleanupStagedFile state entry).files other = state.files other ∨
      (cleanupStagedFile state entry).files other = none := by
  unfold cleanupStagedFile
  split
  · exact files_unlinkOwned state entry.path other
  · exact Or.inl rfl

/-- Only the file of the entry under the same version may go. -/
theorem files_cleanupPrevious_of_ne {version : String} {entry : StagedEntry}
    (h : ∀ previous, state.stagedVersions.get? version = some previous → previous.path ≠ entry.path →
      other ≠ previous.path) : (cleanupPrevious state version entry).files other = state.files other := by
  unfold cleanupPrevious
  split
  · rename_i previous hprevious
    split
    · rename_i hne
      exact files_cleanupStagedFile_of_ne state (h previous hprevious hne)
    · rfl
  · rfl

end Files

/-! ## Awaits -/

variable [WeightModel W A] {R ρ : Type} {P : Protocol (ServerState W A) Await Answer Request R} {q : Request}
  {m : Moment (ServerState W A) Await Answer Request R} {s : ServerState W A} {r : R}

theorem wp_await {op : Operation} (hop : op.Quiet)
    {Q : Moment (ServerState W A) Await Answer Request R → Except PyError Unit → ServerState W A → Prop}
    (hs : P.Suspends m r s)
    (h : ∀ s₁ a rest, Exclusive m.held rest → P.inv ((m.held, r) :: rest) s₁ →
      P.assumes (.answer q (.operation op) a) s₁ → Q ⟨.answer q (.operation op) a, s₁, m.held, rest⟩ a s₁) :
    P.wp World q (await op) m s Q := by
  refine wp_bind.2 (wp_perform hs fun s₁ a s₂ rest hx hi hw ha => ?_)
  rw [world_quiet hop hw]
  exact wp_ofExcept.2 (h s₁ a rest hx hi ha)

/-- A raw body is left for later; any other is read here. -/
theorem wp_readRequestFields {request : Request}
    {Q : Moment (ServerState W A) Await Answer Request R → Except PyError (Fields × Option UploadFile) →
      ServerState W A → Prop} (hs : P.Suspends m r s)
    (hraw : ∀ bytes, request.body = .raw bytes → Q m (.ok (requestFields request)) s)
    (h : ∀ s₁ a rest, Exclusive m.held rest → P.inv ((m.held, r) :: rest) s₁ →
      P.assumes (.answer q (.operation .readBody) a) s₁ →
        Q ⟨.answer q (.operation .readBody) a, s₁, m.held, rest⟩ (a.map fun _ => requestFields request) s₁) :
    P.wp World q (readRequestFields request) m s Q := by
  have hread : P.wp World q (readBody >>= fun _ => (pure (requestFields request) : Handler W A _)) m s Q := by
    refine wp_bind.2 (wp_await quiet_readBody hs fun s₁ a rest hx hi ha => ?_)
    have := h s₁ a rest hx hi ha
    cases a with
    | error x => exact this
    | ok _ => exact this
  unfold readRequestFields
  cases hbody : request.body with
  | raw bytes => exact hraw bytes hbody
  | json _ => exact hread
  | form _ => exact hread

/-- The action after which a request that has just arrived goes on with its fields. -/
def ReadsFields (request : Request) (a : Action Await Answer Request) : Prop :=
  a = .arrive request ∨ ∃ x, a = .answer request (.operation .readBody) x

/-- A request that starts with reading its fields, owning nothing meanwhile. -/
theorem wp_readRequestFields_arrive {tasks : List (Bool × R)}
    {Q : Moment (ServerState W A) Await Answer Request R → Except PyError (Fields × Option UploadFile) →
      ServerState W A → Prop} (hidle : ∀ rest s, P.inv ((false, r) :: rest) s ↔ P.inv rest s)
    (hinv : P.inv tasks s) (hguar : P.guar (.arrive q) s s) (hassumes : P.assumes (.arrive q) s)
    (h : ∀ a s₁ rest (res : Except PyError Unit), ReadsFields q a → P.inv rest s₁ → P.assumes a s₁ →
      Q ⟨a, s₁, false, rest⟩ (res.map fun _ => requestFields q) s₁) :
    P.wp World q (readRequestFields q) ⟨.arrive q, s, false, tasks⟩ s Q := by
  refine wp_readRequestFields ⟨(hidle _ _).2 hinv, hguar⟩ (fun _ _ => ?_) fun s₁ a rest _ hi ha => ?_
  · exact h _ s tasks (.ok ()) (Or.inl rfl) hinv hassumes
  · exact h _ s₁ rest a (Or.inr ⟨a, rfl⟩) ((hidle _ _).1 hi) ha

theorem wp_gather {sends : List RelaySend}
    {Q : Moment (ServerState W A) Await Answer Request R → Except PyError SendResults → ServerState W A → Prop}
    (hs : P.Suspends m r s)
    (h : ∀ s₁ s₂ a rest, Exclusive m.held rest → P.inv ((m.held, r) :: rest) s₁ →
      P.assumes (.answer q (.gather sends) a) s₁ → World s₁ (.gather sends) a s₂ →
        Q ⟨.answer q (.gather sends) a, s₁, m.held, rest⟩ a s₂) :
    P.wp World q (gather sends) m s Q := by
  refine wp_bind.2 (wp_perform hs fun s₁ a s₂ rest hx hi hw ha => ?_)
  exact wp_ofExcept.2 (h s₁ s₂ a rest hx hi ha hw)

/-- A fan-out leaves nothing but new entries in the record of relayed sends. -/
theorem world_gather {sends : List RelaySend} {a : Except PyError SendResults} {s s' : ServerState W A}
    (h : World s (.gather sends) a s') : ∃ relayed, s' = { s with relayed := s.relayed ++ relayed } := by
  cases h with
  | gathered results _ => exact ⟨_, rfl⟩
  | gatherRaised x =>
      refine ⟨[], ?_⟩
      rw [List.append_nil]

/-- The statistics, if the fan-out returns, and what they say. -/
theorem wp_gatherStats {sends : List RelaySend}
    {Q : Moment (ServerState W A) Await Answer Request R → Except PyError RelayStats → ServerState W A → Prop}
    (hs : P.Suspends m r s)
    (h : ∀ s₁ s₂ a rest res, Exclusive m.held rest → P.inv ((m.held, r) :: rest) s₁ →
      P.assumes (.answer q (.gather sends) a) s₁ → World s₁ (.gather sends) a s₂ →
      (∀ stats, res = .ok stats → StatsOf sends stats s₂) →
        Q ⟨.answer q (.gather sends) a, s₁, m.held, rest⟩ res s₂) :
    P.wp World q (gatherStats sends) m s Q := by
  refine wp_bind.2 (wp_gather hs fun s₁ s₂ a rest hx hi ha hw => ?_)
  cases a with
  | error x => exact h s₁ s₂ _ rest (.error x) hx hi ha hw nofun
  | ok results =>
      refine h s₁ s₂ _ rest (.ok _) hx hi ha hw fun stats hstats => ?_
      cases hstats
      cases hw with
      | gathered _ _ hperm =>
          refine statsOf_gathered ⟨hperm, fun r hr hsome => List.mem_append_right _ ?_⟩
          exact List.mem_map.2 ⟨r, List.mem_filter.2 ⟨hr, hsome⟩, rfl⟩

theorem wp_fanOutStreamChunk {upload : StageUpload} {offset : Nat} {chunk : Bytes}
    {Q : Moment (ServerState W A) Await Answer Request R → Except PyError RelayStats → ServerState W A → Prop}
    (hs : P.Suspends m r s) (hnone : Q m (.ok ∅) s)
    (h : ∀ s₁ s₂ sends a rest res, Exclusive m.held rest → P.inv ((m.held, r) :: rest) s₁ →
      P.assumes (.answer q (.gather sends) a) s₁ → World s₁ (.gather sends) a s₂ →
        Q ⟨.answer q (.gather sends) a, s₁, m.held, rest⟩ res s₂) :
    P.wp World q (fanOutStreamChunk upload offset chunk) m s Q := by
  unfold fanOutStreamChunk
  split
  · exact hnone
  · exact wp_gatherStats hs fun s₁ s₂ a rest res hx hi ha hw _ => h s₁ s₂ _ a rest res hx hi ha hw

/-- The request a relayed finalize sends to a peer. -/
def streamFinalizeSend (fields : Fields) (target : String × String) : RelaySend :=
  .post target.1 { relayPost target.1 .stageStreamFinalize with
    data := ((fields.erase "upload_id").entries.map fun e => (e.1, e.2.text)) ++ [("upload_id", target.2)] }

theorem wp_fanOutStreamFinalize {upload : StageUpload} {fields : Fields}
    {Q : Moment (ServerState W A) Await Answer Request R → Except PyError RelayStats → ServerState W A → Prop}
    (hs : P.Suspends m r s) (hnone : upload.relayTargets = [] → Q m (.ok ∅) s)
    (h : ∀ s₁ s₂ a rest res, Exclusive m.held rest → P.inv ((m.held, r) :: rest) s₁ →
      World s₁ (.gather (upload.relayTargets.map (streamFinalizeSend fields))) a s₂ →
      P.assumes (.answer q (.gather (upload.relayTargets.map (streamFinalizeSend fields))) a) s₁ →
      (∀ stats, res = .ok stats → StatsOf (upload.relayTargets.map (streamFinalizeSend fields)) stats s₂) →
        Q ⟨.answer q (.gather (upload.relayTargets.map (streamFinalizeSend fields))) a, s₁, m.held, rest⟩ res s₂) :
    P.wp World q (fanOutStreamFinalize upload fields) m s Q := by
  unfold fanOutStreamFinalize
  split
  · rename_i hnil
    exact hnone hnil
  · exact wp_gatherStats hs fun s₁ s₂ a rest res hx hi ha hw hstats => h s₁ s₂ a rest res hx hi hw ha hstats

/-! ## Registration -/

/-- The lock is free again when a registration is over. -/
theorem wp_registerStagedVersion {version : String} {entry : StagedEntry}
    {Q : Moment (ServerState W A) Await Answer Request R → Except PyError (Option JSONResponse) →
      ServerState W A → Prop} (hheld : m.held = false) (hs : P.Suspends m r s)
    (hrefused : ∀ s₁ rest response, P.inv ((false, r) :: rest) s₁ → P.assumes (.acquire q) s₁ →
      validateStageMetadata s₁ (.ofEntry (some version) entry.mode entry.baseVersion) = .error response →
        Q ⟨.acquire q, s₁, false, rest⟩ (.ok (some response)) (cleanupStagedFile s₁ entry))
    (haccepted : ∀ s₁ rest, P.inv ((false, r) :: rest) s₁ → P.assumes (.acquire q) s₁ →
        Q ⟨.acquire q, s₁, false, rest⟩ (.ok none)
          (insertStaged (cleanupPrevious s₁ version entry) version entry)) :
    P.wp World q (registerStagedVersion version entry) m s Q := by
  refine wp_withLock hheld hs fun s₁ rest _ hi ha => ?_
  unfold registerLocked
  refine wp_getState_bind.2 ?_
  cases hvalid : validateStageMetadata s₁ (.ofEntry (some version) entry.mode entry.baseVersion) with
  | error response => exact wp_setState_bind.2 ⟨rfl, hrefused s₁ rest response hi ha hvalid⟩
  | ok metadata => exact wp_setState_bind.2 ⟨rfl, haccepted s₁ rest hi ha⟩

/-! ## Uploads -/

section Uploads

variable [Host]

/-- The state after a chunk went into the file of an upload. -/
def chunkWritten (state : ServerState W A) (ref offset : Nat) (chunk content : Bytes) : ServerState W A :=
  let upload := state.uploadObjects ref
  setUpload (setFile state upload.path (some (.file (writeAt content offset chunk)))) ref { upload with
    ranges := mergeReceivedRange upload.ranges offset (offset + chunk.length), chunks := upload.chunks + 1 }

omit [Host] in
theorem wp_writeChunk {ref offset : Nat} {chunk : Bytes}
    {Q : Moment (ServerState W A) Await Answer Request R → Except PyError Unit → ServerState W A → Prop}
    (herror : ∀ x, openForUpdate s (s.uploadObjects ref).path = .error x → Q m (.error x) s)
    (hok : ∀ content, openForUpdate s (s.uploadObjects ref).path = .ok content →
      Q m (.ok ()) (chunkWritten s ref offset chunk content)) :
    P.wp World q (writeChunk ref offset chunk) m s Q := by
  unfold writeChunk
  refine wp_getState_bind.2 (wp_bind.2 (wp_ofExcept.2 ?_))
  cases hopen : openForUpdate s (s.uploadObjects ref).path with
  | error x => exact herror x hopen
  | ok content => exact hok content hopen

/-- How the finalization of a stream may end: refused with the state as it was, given up for its checksum, or with
the file under its staged name. -/
inductive StreamFinalized (s : ServerState W A) (key : String) (ref finalSize : Nat) :
    Except PyError (Except JSONResponse (String × StagedEntry)) → ServerState W A → Prop
  | raised (x : PyError) : StreamFinalized s key ref finalSize (.error x) s
  | refused {response : JSONResponse} (hstatus : ¬ response.IsSuccess) :
      StreamFinalized s key ref finalSize (.ok (.error response)) s
  | mismatch {response : JSONResponse} (hstatus : ¬ response.IsSuccess) :
      StreamFinalized s key ref finalSize (.ok (.error response))
        (popUpload (cleanupStageUpload s (s.uploadObjects ref).path) key)
  | staged {content : Bytes} {stagedPath : PurePath} {version : String}
      (hcomplete : uploadComplete (s.uploadObjects ref).ranges finalSize = true)
      (hfile : s.files (s.uploadObjects ref).path = some (.file content)) (hsize : content.length = finalSize)
      (hpath : (s.uploadObjects ref).stagedPath = some stagedPath)
      (hversion : (s.uploadObjects ref).version = some version) :
      StreamFinalized s key ref finalSize
        (.ok (.ok (version, ⟨stagedPath, (s.uploadObjects ref).mode, (s.uploadObjects ref).baseVersion, true⟩)))
        (popUpload (setFile (setFile s (s.uploadObjects ref).path none) stagedPath (some (.file content))) key)

omit [WeightModel W A] [Host] in
theorem readFile_eq_ok {state : ServerState W A} {path : PurePath} {content : Bytes} :
    readFile state path = .ok content ↔ state.files path = some (.file content) := by
  unfold readFile
  cases state.files path with
  | none => simp
  | some node => cases node <;> simp

omit [WeightModel W A] [Host] in
theorem replaceFile_of_file {state : ServerState W A} {source target : PurePath} {node : FileNode}
    (h : state.files source = some node) :
    replaceFile state source target = .ok (setFile (setFile state source none) target (some node)) := by
  unfold replaceFile
  rw [h]

theorem wp_finalizeStream {fields : Fields} {uploadId key : String} {ref finalSize : Nat}
    {Q : Moment (ServerState W A) Await Answer Request R → Except PyError (Except JSONResponse (String × StagedEntry)) →
      ServerState W A → Prop} (h : ∀ res s', StreamFinalized s key ref finalSize res s' → Q m res s') :
    P.wp World q (stageStreamFinalize.finalizeStream fields uploadId key ref finalSize) m s Q := by
  unfold stageStreamFinalize.finalizeStream
  refine wp_getState_bind.2 ?_
  dsimp only
  split
  · rename_i response hvalid
    exact h _ _ (.refused (validateStageMetadata_status hvalid))
  · split
    · exact h _ _ (.refused (errorResponse_status (by decide)))
    · rename_i hcomplete
      split
      · exact h _ _ (.refused (errorResponse_status (by decide)))
      · refine wp_bind.2 (wp_ofExcept.2 ?_)
        cases hread : readFile s (s.uploadObjects ref).path with
        | error x => exact h _ _ (.raised x)
        | ok content =>
            dsimp only
            have hfile := readFile_eq_ok.1 hread
            split
            · exact h _ _ (.refused (errorResponse_status (by decide)))
            · rename_i hsize
              split
              · exact wp_setState_bind.2 (h _ _ (.mismatch (errorResponse_status (by decide))))
              · split
                · rename_i stagedPath version hpath hversion
                  refine wp_bind.2 (wp_ofExcept.2 ?_)
                  rw [replaceFile_of_file hfile]
                  refine wp_setState_bind.2 ?_
                  exact h _ _ (.staged (by simpa using hcomplete) hfile (by simpa using hsize) hpath hversion)
                · exact h _ _ (.raised _)

end Uploads

end AuroraRl.Server
