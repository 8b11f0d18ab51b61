import AuroraRl.Server.Relay

/-!
# The request handlers

* staging in one request (`stageWeights`), by stream (`stageStreamInit`, `stageStreamChunk`,
  `stageStreamFinalize`) and by chunks (`stageChunk`, `stageFinalize`);
* `commitWeights` : hand a staged version to the engine, at most once;
* `reloadWeights` : back to the base checkpoint;
* `pause`, `resume`; `handle` dispatches on the route.
-/

namespace AuroraRl.Server
open Coroutine

variable {W A : Type} [Host]

def stageReadChunkBytes : Nat := 16 * 1024 * 1024

def dirtyMessage : String := "weights require reload after a failed update"

/-! ## Engine calls -/

def pauseGeneration : Handler W A Unit := await .pauseGeneration

def resumeGeneration : Handler W A Unit := await .resumeGeneration

def recordEvent (event : EngineEvent A) (state : ServerState W A) : ServerState W A :=
  { state with engine := { state.engine with history := state.engine.history ++ [event] } }

/-- The RPC that loads a staged entry. -/
def updateCall (entry : StagedEntry) : EngineCall :=
  match entry.mode with
  | .delta => .updateWeightsFromDeltaPath entry.path.asPosix
  | .full => .updateWeightsFromPath entry.path.asPosix

def updateWeightsRpc (version : String) (entry : StagedEntry) : Handler W A Unit := do
  Coro.modify (recordEvent (.issued ⟨version, entry⟩))
  await (.collectiveRpc (updateCall entry))

def reloadWeightsRpc : Handler W A Unit := do
  Coro.modify (recordEvent .reloadIssued)
  await (.collectiveRpc .reloadWeights)

def pause : Handler W A JSONResponse := do
  pauseGeneration
  return ok (.status "paused")

def resume : Handler W A JSONResponse := do
  let state ← Coro.getState
  if state.weightsDirty then return errorResponse 409 dirtyMessage
  resumeGeneration
  return ok (.status "resumed")

/-! ## Staging in one request -/

/-- The body is copied to the staging directory one read at a time. -/
def copyUpload (path : PurePath) : List Bytes → Handler W A Unit
  | [] => readUpload
  | chunk :: chunks => do
    readUpload
    Coro.modify fun state =>
      match state.files path with
      | some (.file content) => setFile state path (some (.file (content ++ chunk)))
      | _ => state
    copyUpload path chunks

def stageUploaded (file : UploadFile) (mode : WeightUpdateMode) : Handler W A PurePath := do
  let filename := safePathComponent (PurePath.ofString (file.filename.filter (· ≠ "") |>.getD "weights")).name
  let uuid ← uuid4
  let state ← Coro.getState
  let stagedPath := state.stagingDir.join (uuid ++ "_" ++ mode.text ++ "_" ++ filename)
  Coro.setState (setFile state stagedPath (some (.file [])))
  copyUpload stagedPath (file.content.toChunks stageReadChunkBytes)
  return stagedPath

def stageWeights (request : Request) : Handler W A JSONResponse := do
  let (fields, uploadedFile) ← readRequestFields request
  let relay := relayRequested fields
  match validateStageMetadata (← Coro.getState) (.ofRequest fields) with
  | .error response => return response
  | .ok metadata =>
    match ← ingest fields uploadedFile metadata.mode with
    | .error response => return response
    | .ok (path, owned) =>
      match ← registerStagedVersion metadata.version ⟨path, metadata.mode, metadata.baseVersion, owned⟩ with
      | some error => return error
      | none =>
        let stats ← fanOutStageFile path metadata.version metadata.mode metadata.baseVersion relay
        match relayFailureResponse (← Coro.getState) "stage" stats with
        | some failure => return failure
        | none => return ok (.staged metadata.version metadata.mode path.asPosix stats)
where
  /-- The path to stage, and whether the server owns the file. -/
  ingest (fields : Fields) (uploadedFile : Option UploadFile) (mode : WeightUpdateMode) :
      Handler W A (Except JSONResponse (PurePath × Bool)) := do
    match uploadedFile with
    | some file =>
      let path ← stageUploaded file mode
      return .ok (path, true)
    | none =>
      match fields.get? "path" with
      | none => return .error (errorResponse 400 "No file uploaded or path provided")
      | some path =>
        let path ← Coro.ofExcept (Host.expanduser (PurePath.ofString path.text))
        if ¬ fileExists (← Coro.getState) path then
          return .error (errorResponse 404 ("staged path does not exist: " ++ path.asPosix))
        return .ok (path, false)

/-! ## Uploads -/

def setUpload (state : ServerState W A) (ref : Nat) (upload : StageUpload) : ServerState W A :=
  { state with uploadObjects := fun r => if r = ref then upload else state.uploadObjects r }

def openUpload (state : ServerState W A) (key : String) (upload : StageUpload) : ServerState W A :=
  { setUpload state state.uploadCount upload with
    stageUploads := state.stageUploads.insert key state.uploadCount, uploadCount := state.uploadCount + 1 }

def popUpload (state : ServerState W A) (key : String) : ServerState W A :=
  { state with stageUploads := state.stageUploads.erase key }

def Body.bytes : Body → Bytes
  | .raw bytes => bytes
  | _ => []

def chunkFilename (fields : Fields) (filename : Option String) : String :=
  match (fields.get? "filename").filter PyValue.truthy with
  | some v => v.text
  | none => (filename.filter (· ≠ "")).getD "weights"

/-! ## Staging by stream -/

def stageStreamInit (request : Request) : Handler W A JSONResponse := do
  let (fields, _) ← readRequestFields request
  let relay := relayRequested fields
  match validateStageMetadata (← Coro.getState) (.ofRequest fields) with
  | .error response => return response
  | .ok metadata =>
    match fields.get? "filename" with
    | none => return errorResponse 400 "filename is required"
    | some filename =>
      let filename := safePathComponent (PurePath.ofString filename.text).name
      let uploadId ← uuid4
      let state ← Coro.getState
      let stem := uploadId ++ "_" ++ metadata.mode.text ++ "_" ++ filename
      let tempPath := state.stagingDir.join (stem ++ ".stream.part")
      let stagedPath := state.stagingDir.join stem
      Coro.setState (setFile state tempPath (some (.file [])))
      let (relayUploads, stats) ← fanOutStreamInit fields filename relay
      let state ← Coro.getState
      match relayFailureResponse state "stage_stream_init" stats with
      | some failure =>
        Coro.setState (cleanupStageUpload state tempPath)
        return failure
      | none =>
        let upload : StageUpload :=
          { path := tempPath, filename, mode := metadata.mode, baseVersion := metadata.baseVersion, ranges := [],
            chunks := 0, totalSize := none, sha256 := none, stagedPath := some stagedPath,
            version := some metadata.version, relayRequested := some relay, relayUploads := some relayUploads }
        Coro.setState (openUpload state (stageStreamUploadKey uploadId) upload)
        return ok (.streamInit uploadId metadata.version metadata.mode stats)

/-- Write a chunk into the file of an upload and record its range. -/
def writeChunk (ref offset : Nat) (chunk : Bytes) : Handler W A Unit := do
  let state ← Coro.getState
  let upload := state.uploadObjects ref
  let content ← Coro.ofExcept (openForUpdate state upload.path)
  let state := setFile state upload.path (some (.file (writeAt content offset chunk)))
  Coro.setState (setUpload state ref { upload with
    ranges := mergeReceivedRange upload.ranges offset (offset + chunk.length), chunks := upload.chunks + 1 })

def stageStreamChunk (request : Request) : Handler W A JSONResponse := do
  let fields := queryFields request
  match fields.get? "upload_id" with
  | none => return errorResponse 400 "upload_id is required"
  | some uploadId =>
    let uploadId := uploadId.text
    match ← Coro.ofExcept (parseNonNegativeInt fields "offset") with
    | .error response => return response
    | .ok offset =>
      match (← Coro.getState).stageUploads.get? (stageStreamUploadKey uploadId) with
      | none => return errorResponse 404 ("streaming upload " ++ uploadId ++ " not found")
      | some ref =>
        readBody
        let chunk := request.body.bytes
        if chunk = [] then return errorResponse 400 "chunk body is required"
        writeChunk ref offset chunk
        let stats ← fanOutStreamChunk ((← Coro.getState).uploadObjects ref) offset chunk
        let state ← Coro.getState
        match relayFailureResponse state "stage_stream_chunk" stats with
        | some failure => return failure
        | none =>
          let upload := state.uploadObjects ref
          match upload.version with
          | none => throw .keyError
          | some version =>
            return ok (.streamChunk uploadId version upload.mode (receivedBytes upload.ranges) stats)

def stageStreamFinalize (request : Request) : Handler W A JSONResponse := do
  let (fields, _) ← readRequestFields request
  match fields.get? "upload_id" with
  | none => return errorResponse 400 "upload_id is required"
  | some uploadId =>
    let uploadId := uploadId.text
    match ← Coro.ofExcept (parseNonNegativeInt fields "final_size") with
    | .error response => return response
    | .ok finalSize =>
      let key := stageStreamUploadKey uploadId
      match (← Coro.getState).stageUploads.get? key with
      | none => return errorResponse 404 ("streaming upload " ++ uploadId ++ " not found")
      | some ref =>
        match ← finalizeStream fields uploadId key ref finalSize with
        | .error response => return response
        | .ok (version, entry) =>
          match ← registerStagedVersion version entry with
          | some error => return error
          | none =>
            let stats ← fanOutStreamFinalize ((← Coro.getState).uploadObjects ref) fields
            match relayFailureResponse (← Coro.getState) "stage_stream_finalize" stats with
            | some failure => return failure
            | none => return ok (.staged version entry.mode entry.path.asPosix stats)
where
  /-- The checks, and the rename to the staged path; no await in between. -/
  finalizeStream (fields : Fields) (uploadId key : String) (ref finalSize : Nat) :
      Handler W A (Except JSONResponse (String × StagedEntry)) := do
    let state ← Coro.getState
    let upload := state.uploadObjects ref
    match validateStageMetadata state (.ofEntry upload.version upload.mode upload.baseVersion) with
    | .error response => return .error response
    | .ok _ =>
      if ¬ uploadComplete upload.ranges finalSize then
        return .error (errorResponse 409 ("upload incomplete: received=" ++ toString (receivedBytes upload.ranges)
          ++ " total=" ++ toString finalSize))
      if ¬ fileExists state upload.path then
        return .error (errorResponse 404 ("streaming upload file for " ++ uploadId ++ " not found"))
      let content ← Coro.ofExcept (readFile state upload.path)
      if content.length ≠ finalSize then
        return .error (errorResponse 409 ("final_size mismatch: expected=" ++ toString finalSize
          ++ ", got=" ++ toString content.length))
      let expectedSha256 := (fields.get? "sha256").map PyValue.text
      if expectedSha256.any (· ≠ Host.sha256 content) then
        Coro.setState (popUpload (cleanupStageUpload state upload.path) key)
        return .error (errorResponse 409 ("sha256 mismatch: expected=" ++ expectedSha256.getD "" ++ ", got="
          ++ Host.sha256 content))
      match upload.stagedPath, upload.version with
      | some stagedPath, some version =>
        let state ← Coro.ofExcept (replaceFile state upload.path stagedPath)
        Coro.setState (popUpload state key)
        return .ok (version, ⟨stagedPath, upload.mode, upload.baseVersion, true⟩)
      | _, _ => throw .keyError

/-! ## Staging by chunks -/

/-- The metadata of a chunk or of a finalize request agrees with the upload's. -/
def StageUpload.Matches (upload : StageUpload) (filename : String) (totalSize : Nat) (sha256 : String)
    (baseVersion : Option String) : Prop :=
  upload.filename = filename ∧ upload.totalSize = some totalSize ∧ upload.sha256 = some sha256 ∧
    upload.baseVersion = baseVersion

instance (upload : StageUpload) (filename : String) (totalSize : Nat) (sha256 : String)
    (baseVersion : Option String) : Decidable (upload.Matches filename totalSize sha256 baseVersion) := by
  unfold StageUpload.Matches
  infer_instance

/-- The upload a chunk belongs to, opened by its first chunk. -/
def chunkUpload (metadata : StageMetadata) (filename : String) (totalSize : Nat) (sha256 : String) :
    Handler W A (Except JSONResponse Nat) := do
  let state ← Coro.getState
  let key := stageUploadKey metadata.version metadata.mode
  match state.stageUploads.get? key with
  | none =>
    let name := safePathComponent metadata.version ++ "_" ++ metadata.mode.text ++ "_" ++ filename ++ ".part"
    let upload : StageUpload :=
      { path := state.stagingDir.join name, filename, mode := metadata.mode, baseVersion := metadata.baseVersion,
        ranges := [], chunks := 0, totalSize := some totalSize, sha256 := some sha256, stagedPath := none,
        version := none, relayRequested := none, relayUploads := none }
    Coro.setState (openUpload state key upload)
    return .ok state.uploadCount
  | some ref =>
    if (state.uploadObjects ref).Matches filename totalSize sha256 metadata.baseVersion then return .ok ref
    else return .error (errorResponse 409 "chunk metadata does not match active upload")

def stageChunk (request : Request) : Handler W A JSONResponse := do
  let (fields, uploadedFile) ← readRequestFields request
  let relay := relayRequested fields
  match validateStageMetadata (← Coro.getState) (.ofRequest fields) with
  | .error response => return response
  | .ok metadata =>
    match uploadedFile with
    | none => return errorResponse 400 "file chunk is required"
    | some file =>
      match ← Coro.ofExcept (parseNonNegativeInt fields "offset") with
      | .error response => return response
      | .ok offset =>
        match ← Coro.ofExcept (parseNonNegativeInt fields "total_size") with
        | .error response => return response
        | .ok totalSize =>
          match fields.get? "sha256" with
          | none => return errorResponse 400 "sha256 is required"
          | some sha256 => writeFileChunk fields relay metadata file offset totalSize sha256.text
where
  writeFileChunk (fields : Fields) (relay : Bool) (metadata : StageMetadata) (file : UploadFile)
      (offset totalSize : Nat) (sha256 : String) : Handler W A JSONResponse := do
    let filename := safePathComponent (PurePath.ofString (chunkFilename fields file.filename)).name
    readUpload
    let chunk := file.content
    if totalSize < offset + chunk.length then
      return errorResponse 400 ("chunk exceeds total_size: offset=" ++ toString offset ++ ", size="
        ++ toString chunk.length ++ ", total=" ++ toString totalSize)
    match ← chunkUpload metadata filename totalSize sha256 with
    | .error response => return response
    | .ok ref =>
      writeChunk ref offset chunk
      let stats ← fanOutStageChunk fields filename chunk relay
      let state ← Coro.getState
      match relayFailureResponse state "stage_chunk" stats with
      | some failure => return failure
      | none =>
        return ok (.chunk metadata.version metadata.mode (receivedBytes (state.uploadObjects ref).ranges) totalSize
          stats)

def stageFinalize (request : Request) : Handler W A JSONResponse := do
  let (fields, _) ← readRequestFields request
  let relay := relayRequested fields
  match validateStageMetadata (← Coro.getState) (.ofRequest fields) with
  | .error response => return response
  | .ok metadata =>
    match ← Coro.ofExcept (parseNonNegativeInt fields "total_size") with
    | .error response => return response
    | .ok totalSize =>
      match fields.get? "sha256" with
      | none => return errorResponse 400 "sha256 is required"
      | some sha256 =>
        match ← finalizeChunks fields metadata totalSize sha256.text with
        | .error response => return response
        | .ok entry =>
          match ← registerStagedVersion metadata.version entry with
          | some error => return error
          | none =>
            let stats ← fanOutStageFinalize fields relay
            match relayFailureResponse (← Coro.getState) "stage_finalize" stats with
            | some failure => return failure
            | none => return ok (.staged metadata.version metadata.mode entry.path.asPosix stats)
where
  finalizeChunks (fields : Fields) (metadata : StageMetadata) (totalSize : Nat) (sha256 : String) :
      Handler W A (Except JSONResponse StagedEntry) := do
    let filename := safePathComponent (PurePath.ofString (chunkFilename fields none)).name
    let key := stageUploadKey metadata.version metadata.mode
    let state ← Coro.getState
    match state.stageUploads.get? key with
    | none => return .error (errorResponse 404 ("upload for version " ++ metadata.version ++ " not found"))
    | some ref =>
      let upload := state.uploadObjects ref
      if ¬ upload.Matches filename totalSize sha256 metadata.baseVersion then
        return .error (errorResponse 409 "finalize metadata does not match active upload")
      if ¬ uploadComplete upload.ranges totalSize then
        return .error (errorResponse 409 ("upload incomplete: received=" ++ toString (receivedBytes upload.ranges)
          ++ " total=" ++ toString totalSize))
      let actualSha256 ← Coro.ofExcept (fileSha256 state upload.path)
      if actualSha256 ≠ sha256 then
        Coro.setState (popUpload (cleanupStageUpload state upload.path) key)
        return .error (errorResponse 409 ("sha256 mismatch: expected=" ++ sha256 ++ ", got=" ++ actualSha256))
      let uuid ← uuid4
      let state ← Coro.getState
      let stagedPath := state.stagingDir.join (uuid ++ "_" ++ metadata.mode.text ++ "_" ++ filename)
      let state ← Coro.ofExcept (replaceFile state upload.path stagedPath)
      Coro.setState (popUpload state key)
      return .ok ⟨stagedPath, metadata.mode, metadata.baseVersion, true⟩

/-! ## Commit and reload -/

/-- Drop every staged version but the committed one. -/
def cleanupOtherVersions (version : String) (state : ServerState W A) : ServerState W A :=
  let others := state.stagedVersions.filter fun v _ => v ≠ version
  { others.values.foldl cleanupStagedFile state with
    stagedVersions := state.stagedVersions.filter fun v _ => v = version }

/-- The update RPC of a commit; skipped when the version is already active. -/
def applyStaged (version : String) (entry : StagedEntry) : Handler W A (Option JSONResponse) := do
  let state ← Coro.getState
  if state.activeVersion = some version then return none
  match validateStageMetadata state (.ofEntry (some version) entry.mode entry.baseVersion) with
  | .error response => return some response
  | .ok _ =>
    Coro.modify fun state => { state with weightsDirty := true }
    updateWeightsRpc version entry
    Coro.modify fun state => { state with activeVersion := some version, weightsDirty := false }
    return none

def commitLocked (request : Request) : Handler W A JSONResponse := do
  let (fields, _) ← readRequestFields request
  let relay := relayRequested fields
  match fields.get? "version" with
  | none => return errorResponse 400 "version is required"
  | some version =>
    let version := version.text
    let state ← Coro.getState
    match state.stagedVersions.get? version with
    | none => return errorResponse 404 ("version " ++ version ++ " not found in staging")
    | some entry =>
      let requestedMode := (fields.get? "mode").map PyValue.text
      if requestedMode.any (· ≠ entry.mode.text) then
        return errorResponse 409 ("staged mode mismatch: staged=" ++ entry.mode.text ++ ", requested="
          ++ requestedMode.getD "")
      if state.weightsDirty then return errorResponse 409 dirtyMessage
      match ← applyStaged version entry with
      | some error => return error
      | none =>
        Coro.modify (cleanupOtherVersions version)
        let stats ← fanOutCommit version entry.mode relay
        match relayFailureResponse (← Coro.getState) "commit" stats with
        | some failure => return failure
        | none => return ok (.committed version entry.mode stats)

def commitWeights (request : Request) : Handler W A JSONResponse := Coro.withLock (commitLocked request)

/-- The staging state is dropped, and the files of staged versions and uploads with it. -/
def clearStaging (state : ServerState W A) : ServerState W A :=
  let state := state.stagedVersions.values.foldl cleanupStagedFile state
  let state := (state.stageUploads.values.map fun ref => (state.uploadObjects ref).path).foldl cleanupStageUpload state
  { state with activeVersion := none, weightsDirty := false, stagedVersions := ∅, stageUploads := ∅ }

def reloadLocked (request : Request) : Handler W A JSONResponse := do
  let (fields, _) ← readRequestFields request
  let relay := relayRequested fields
  Coro.modify fun state => { state with weightsDirty := true }
  reloadWeightsRpc
  Coro.modify clearStaging
  let stats ← fanOutReload relay
  match relayFailureResponse (← Coro.getState) "reload_weights" stats with
  | some failure => return failure
  | none => return ok (.reloaded stats)

def reloadWeights (request : Request) : Handler W A JSONResponse := Coro.withLock (reloadLocked request)

/-! ## Dispatch -/

def handle (request : Request) : Handler W A JSONResponse :=
  match request.route with
  | .pause => pause
  | .resume => resume
  | .stage => stageWeights request
  | .stageStreamInit => stageStreamInit request
  | .stageStreamChunk => stageStreamChunk request
  | .stageStreamFinalize => stageStreamFinalize request
  | .stageChunk => stageChunk request
  | .stageFinalize => stageFinalize request
  | .commit => commitWeights request
  | .reloadWeights => reloadWeights request

end AuroraRl.Server
