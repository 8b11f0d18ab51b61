import AuroraRl.Server.State

/-!
# Reading, checking and registering what is staged

* `readRequestFields` : `_read_request_fields`;
* `validateStageMetadata` : `_validate_stage_metadata`, shared by all staging routes and by `/commit`;
* `registerStagedVersion` : `_register_staged_version`, the only place that adds to `staged_versions`;
* `mergeReceivedRange`, `uploadComplete` : the bookkeeping of received byte ranges;
* `writeAt`, `openForUpdate` : the file operations of the chunk routes.
-/

namespace AuroraRl.Server
open Coroutine

variable {W A : Type} [Host]

/-! ## Small helpers -/

def safePathComponent (value : String) : String :=
  let safe := value.toList.map fun c => if Unicode.isAlnum c || c ∈ ['.', '_', '-'] then c else '_'
  if safe = [] then "unknown" else String.ofList safe

def errorResponse (statusCode : Nat) (message : String) : JSONResponse := ⟨statusCode, .error message⟩

def coerceBool (value : Option PyValue) (default : Bool) : Bool :=
  match value with
  | none => default
  | some (.bool b) => b
  | some (.int n) => n ≠ 0
  | some v =>
    let text := Unicode.lower (Python.strip v.text)
    if text ∈ ["1", "true", "t", "yes", "y", "on"] then true
    else if text ∈ ["0", "false", "f", "no", "n", "off"] then false
    else default

/-- Whatever an awaited operation raises is raised where it was awaited. -/
def await (op : Operation) : Handler W A Unit := do
  let answer : Except PyError Unit ← Coro.perform (Await.operation op)
  Coro.ofExcept answer

/-- `await request.form()`, `await request.json()`, `await request.body()`. -/
def readBody : Handler W A Unit := await .readBody

def readUpload : Handler W A Unit := await .readUpload

def formFields : Fields × Option UploadFile → List (String × FormValue) → Fields × Option UploadFile
  | acc, [] => acc
  | (fields, uploaded), (key, .file f) :: items =>
    formFields (fields, if key = "file" then some f else uploaded) items
  | (fields, uploaded), (key, .text v) :: items => formFields (fields.insert key (.str v), uploaded) items

def queryFields (request : Request) : Fields := .ofList (request.queryParams.map fun p => (p.1, .str p.2))

def requestFields (request : Request) : Fields × Option UploadFile :=
  let fields := queryFields request
  match request.body with
  | .json (some data) => (fields.insertAll (data.filterMap fun p => p.2.map (p.1, ·)), none)
  | .json none => (fields, none)
  | .form items => formFields (fields, none) items
  | .raw _ => (fields, none)

def readRequestFields (request : Request) : Handler W A (Fields × Option UploadFile) := do
  match request.body with
  | .raw _ => pure ()
  | _ => readBody
  return requestFields request

def parseNonNegativeInt (fields : Fields) (name : String) : Except PyError (Except JSONResponse Nat) :=
  match fields.get? name with
  | none => .ok (.error (errorResponse 400 (name ++ " is required")))
  | some value =>
    match value.toInt with
    | .ok (.ofNat n) => .ok (.ok n)
    | .ok (.negSucc _) => .ok (.error (errorResponse 400 (name ++ " must be non-negative")))
    | .error .typeError => .ok (.error (errorResponse 400 (name ++ " must be an integer")))
    | .error .valueError => .ok (.error (errorResponse 400 (name ++ " must be an integer")))
    | .error e => .error e

/-! ## Stage metadata -/

structure StageMetadata where
  version : String
  mode : WeightUpdateMode
  baseVersion : Option String
  activeVersion : Option String

def currentVersion (activeVersion : Option String) : String :=
  match activeVersion with
  | some v => if v = "" then "0" else v
  | none => "0"

/-- The three keys the check reads from a request, an entry or an upload. -/
structure StageFields where
  version : Option PyValue
  mode : Option PyValue
  baseVersion : Option PyValue

def StageFields.ofRequest (fields : Fields) : StageFields :=
  ⟨fields.get? "version", fields.get? "mode", fields.get? "base_version"⟩

def StageFields.ofEntry (version : Option String) (mode : WeightUpdateMode) (baseVersion : Option String) :
    StageFields :=
  ⟨version.map .str, some (.str mode.text), baseVersion.map .str⟩

def validateStageMetadata (state : ServerState W A) (fields : StageFields) : Except JSONResponse StageMetadata :=
  let version := (fields.version.getD (.str "unknown")).text
  let mode := (fields.mode.getD (.str "full")).text
  let baseVersion := fields.baseVersion.map PyValue.text
  match WeightUpdateMode.ofString? mode with
  | none => .error (errorResponse 400 ("unsupported weight update mode: " ++ mode))
  | some m =>
    if state.apiServerCount ≠ 1 then
      .error (errorResponse 400 "stage_commit requires a single API server to own the version state")
    else
      match m with
      | .full => .ok ⟨version, m, baseVersion, state.activeVersion⟩
      | .delta =>
        if state.weightsDirty then .error (errorResponse 409 "weights require reload after a failed update")
        else
          let current := currentVersion state.activeVersion
          match baseVersion with
          | none => .error (errorResponse 400 "base_version is required for delta updates")
          | some base =>
            if base ≠ current then
              .error (errorResponse 409 ("base_version mismatch: current=" ++ current ++ ", got=" ++ base))
            else if version = base then
              .error (errorResponse 409 "delta version must differ from base_version")
            else .ok ⟨version, m, baseVersion, state.activeVersion⟩

/-! ## Files -/

def isFile (state : ServerState W A) (path : PurePath) : Bool :=
  match state.files path with
  | some (.file _) => true
  | _ => false

def fileExists (state : ServerState W A) (path : PurePath) : Bool := (state.files path).isSome

def setFile (state : ServerState W A) (path : PurePath) (node : Option FileNode) : ServerState W A :=
  { state with files := fun p => if p = path then node else state.files p }

def readFile (state : ServerState W A) (path : PurePath) : Except PyError Bytes :=
  match state.files path with
  | some (.file b) => .ok b
  | some .directory => .error .isADirectoryError
  | none => .error .fileNotFoundError

/-- `f.seek(offset); f.write(chunk)`: a gap before the offset reads as zeros, and writing nothing leaves none. -/
def writeAt (content : Bytes) (offset : Nat) (chunk : Bytes) : Bytes :=
  if chunk = [] then content
  else content.take offset ++ List.replicate (offset - content.length) 0 ++ chunk ++ content.drop (offset + chunk.length)

def openForUpdate (state : ServerState W A) (path : PurePath) : Except PyError Bytes :=
  match state.files path with
  | some (.file b) => .ok b
  | some .directory => .error .isADirectoryError
  | none => .ok []

def replaceFile (state : ServerState W A) (source target : PurePath) : Except PyError (ServerState W A) :=
  match state.files source with
  | none => .error .fileNotFoundError
  | some node => .ok (setFile (setFile state source none) target (some node))

def uuid4 : Handler W A String := do
  let state ← Coro.getState
  Coro.setState { state with uuids := state.uuids + 1 }
  return Host.uuid4 state.uuids

def unlinkOwned (state : ServerState W A) (path : PurePath) : ServerState W A :=
  if isFile state path ∧ path.parent = state.stagingDir then setFile state path none else state

def cleanupStagedFile (state : ServerState W A) (entry : StagedEntry) : ServerState W A :=
  if entry.owned then unlinkOwned state entry.path else state

def cleanupStageUpload (state : ServerState W A) (path : PurePath) : ServerState W A := unlinkOwned state path

/-! ## Registration -/

/-- The file of an earlier entry under the same version goes, unless the new entry names it too. -/
def cleanupPrevious (state : ServerState W A) (version : String) (entry : StagedEntry) : ServerState W A :=
  match state.stagedVersions.get? version with
  | some previous => if previous.path ≠ entry.path then cleanupStagedFile state previous else state
  | none => state

def insertStaged (state : ServerState W A) (version : String) (entry : StagedEntry) : ServerState W A :=
  { state with stagedVersions := state.stagedVersions.insert version entry }

/-- The body of `_register_staged_version`, under `weight_update_lock`. -/
def registerLocked (version : String) (entry : StagedEntry) : Handler W A (Option JSONResponse) := do
  let state ← Coro.getState
  match validateStageMetadata state (.ofEntry (some version) entry.mode entry.baseVersion) with
  | .error response =>
    Coro.setState (cleanupStagedFile state entry)
    return some response
  | .ok _ =>
    Coro.setState (insertStaged (cleanupPrevious state version entry) version entry)
    return none

def registerStagedVersion (version : String) (entry : StagedEntry) : Handler W A (Option JSONResponse) :=
  Coro.withLock (registerLocked version entry)

/-! ## Received ranges -/

def mergeStep (merged : List (Nat × Nat)) (range : Nat × Nat) : List (Nat × Nat) :=
  match merged with
  | [] => [range]
  | (previousStart, previousEnd) :: rest =>
    if previousEnd < range.1 then range :: merged else (previousStart, max previousEnd range.2) :: rest

/-- The tuples in Python's order. -/
def rangeLe (a b : Nat × Nat) : Bool := a.1 < b.1 || (a.1 = b.1 && a.2 ≤ b.2)

/-- `merged` is built backwards. -/
def mergeReceivedRange (ranges : List (Nat × Nat)) (start stop : Nat) : List (Nat × Nat) :=
  if stop ≤ start then ranges
  else (((ranges ++ [(start, stop)]).mergeSort rangeLe).foldl mergeStep []).reverse

def receivedBytes (ranges : List (Nat × Nat)) : Nat := ranges.foldl (fun n r => n + (r.2 - r.1)) 0

def uploadComplete (ranges : List (Nat × Nat)) (totalSize : Nat) : Bool :=
  if totalSize = 0 then ranges = [] else ranges = [(0, totalSize)]

def stageUploadKey (version : String) (mode : WeightUpdateMode) : String := version ++ ":" ++ mode.text

def stageStreamUploadKey (uploadId : String) : String := "stream:" ++ uploadId

def fileSha256 (state : ServerState W A) (path : PurePath) : Except PyError String :=
  (readFile state path).map Host.sha256

end AuroraRl.Server
