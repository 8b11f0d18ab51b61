import AuroraRl.Lib.Coroutine
import AuroraRl.Lib.Dict
import AuroraRl.Lib.Python

/-!
# The weight-staging server: requests, responses and state

* `Request`, `JSONResponse` : what the handlers read and return; elapsed times are left out;
* `StagedEntry`, `StageUpload` : the entries of `staged_versions` and `stage_uploads`;
* `Engine` : the weights the workers hold, and everything the engine was asked and answered, oldest first;
* `ServerState` : `app.state`, the files, and the engine behind it;
* `Await`, `Answer` : the awaits of the handlers and what they return.
-/

namespace AuroraRl.Server
open Coroutine

abbrev Bytes := List UInt8

/-- What the interpreter and the host supply. -/
class Host extends Unicode where
  uuid4 : Nat → String
  sha256 : Bytes → String
  expanduser : PurePath → Except PyError PurePath

/-! ## Requests and responses -/

/-- A part of a form that carries a file. -/
structure UploadFile where
  filename : Option String
  content : Bytes

inductive FormValue
  | text (s : String)
  | file (f : UploadFile)

/-- The body by content type; a JSON document that is no object is `json none`, and a JSON `null` value is `none`. -/
inductive Body
  | json (data : Option (List (String × Option PyValue)))
  | form (items : List (String × FormValue))
  | raw (bytes : Bytes)

inductive Route
  | pause
  | resume
  | stage
  | stageStreamInit
  | stageStreamChunk
  | stageStreamFinalize
  | stageChunk
  | stageFinalize
  | commit
  | reloadWeights
  deriving DecidableEq, Repr, Inhabited

/-- The path a handler is registered under. -/
def Route.path : Route → String
  | pause => "/pause"
  | resume => "/resume"
  | stage => "/stage"
  | stageStreamInit => "/stage_stream_init"
  | stageStreamChunk => "/stage_stream_chunk"
  | stageStreamFinalize => "/stage_stream_finalize"
  | stageChunk => "/stage_chunk"
  | stageFinalize => "/stage_finalize"
  | commit => "/commit"
  | reloadWeights => "/reload_weights"

structure Request where
  route : Route
  queryParams : List (String × String)
  body : Body

abbrev Fields := Dict String PyValue

/-- `WEIGHT_UPDATE_MODES`. -/
inductive WeightUpdateMode
  | full
  | delta
  deriving DecidableEq, Repr, Inhabited

namespace WeightUpdateMode

def text : WeightUpdateMode → String
  | full => "full"
  | delta => "delta"

def ofString? (s : String) : Option WeightUpdateMode :=
  if s = "full" then some full else if s = "delta" then some delta else none

end WeightUpdateMode

/-- Per peer, `true` where the source keeps the seconds a call took and `false` where it keeps `None`. -/
abbrev RelayStats := Dict String Bool

/-- The JSON contents the handlers return. -/
inductive Content
  | error (message : String)
  | relayError (message : String) (failedPeers : List String) (relay : RelayStats)
  | status (text : String)
  | staged (version : String) (mode : WeightUpdateMode) (path : String) (relay : RelayStats)
  | streamInit (uploadId version : String) (mode : WeightUpdateMode) (relay : RelayStats)
  | streamChunk (uploadId version : String) (mode : WeightUpdateMode) (receivedBytes : Nat) (relay : RelayStats)
  | chunk (version : String) (mode : WeightUpdateMode) (receivedBytes totalSize : Nat) (relay : RelayStats)
  | committed (activeVersion : String) (mode : WeightUpdateMode) (relay : RelayStats)
  | reloaded (relay : RelayStats)

structure JSONResponse where
  statusCode : Nat
  content : Content

/-- What `raise_for_status` lets pass. -/
def JSONResponse.IsSuccess (response : JSONResponse) : Prop := 200 ≤ response.statusCode ∧ response.statusCode < 300

/-- A handler's plain `return {...}`. -/
def ok (content : Content) : JSONResponse := ⟨200, content⟩

/-! ## State -/

/-- An entry of `staged_versions`. -/
structure StagedEntry where
  path : PurePath
  mode : WeightUpdateMode
  baseVersion : Option String
  owned : Bool
  deriving DecidableEq, Inhabited

/-- An entry of `stage_uploads`. The optional keys are those only one of the two kinds of upload has. -/
structure StageUpload where
  path : PurePath
  filename : String
  mode : WeightUpdateMode
  baseVersion : Option String
  ranges : List (Nat × Nat)
  chunks : Nat
  totalSize : Option Nat
  sha256 : Option String
  stagedPath : Option PurePath
  version : Option String
  relayRequested : Option Bool
  relayUploads : Option (Dict String String)
  deriving Inhabited

inductive FileNode
  | file (content : Bytes)
  | directory

/-- One update RPC: the version being committed and its staged entry. -/
structure UpdateCall where
  version : String
  entry : StagedEntry
  deriving DecidableEq

/-- What the engine was asked and what came of it. -/
inductive EngineEvent (A : Type)
  | issued (u : UpdateCall)
  | applied (a : A)
  | failed
  | reloadIssued
  | reloaded
  | reloadFailed

/-- The weights the workers hold and the history of the weight RPCs. -/
structure Engine (W A : Type) where
  weights : W
  history : List (EngineEvent A)

/-- A request to a peer. -/
structure RelayPost where
  peer : String
  route : Route
  params : List (String × String)
  data : List (String × String)
  json : List (String × PyValue)
  file : Option (String × (PurePath ⊕ Bytes))
  content : Option Bytes
  deriving Inhabited

/-- One `_send(peer)` of a fan-out; `paused` brackets the request with `/pause` and, in any case, `/resume`. -/
inductive RelaySend
  | post (peer : String) (call : RelayPost)
  | paused (peer : String) (pause call resume : RelayPost)

def RelaySend.peer : RelaySend → String
  | post peer _ => peer
  | paused peer _ _ _ => peer

/-- `app.state` after `custom_init_app_state`, the files, and the engine. An upload is an object that handlers
hold on to across awaits, also after it left `stage_uploads`, so `stageUploads` maps to references. `relayed` is
the record of the sends that came back well. -/
structure ServerState (W A : Type) where
  stagingDir : PurePath
  stagedVersions : Dict String StagedEntry
  stageUploads : Dict String Nat
  uploadObjects : Nat → StageUpload
  uploadCount : Nat
  activeVersion : Option String
  weightsDirty : Bool
  apiServerCount : Nat
  relayEnabled : Bool
  relayPeers : List String
  relayFailOnPeerError : Bool
  files : PurePath → Option FileNode
  uuids : Nat
  engine : Engine W A
  relayed : List RelaySend

/-! ## Awaits -/

/-- The weight RPCs of the workers. -/
inductive EngineCall
  | updateWeightsFromPath (path : String)
  | updateWeightsFromDeltaPath (path : String)
  | reloadWeights
  deriving DecidableEq

/-- The awaited operations that return nothing. -/
inductive Operation
  | readBody
  | readUpload
  | pauseGeneration
  | resumeGeneration
  | collectiveRpc (call : EngineCall)

/-- The awaits of the handlers. -/
inductive Await
  | operation (op : Operation)
  | gather (sends : List RelaySend)

/-- The sends of a fan-out in the order they end, each with `none` if it failed and else with the `upload_id` in
the peer's answer. -/
abbrev SendResults := List (RelaySend × Option (Option String))

/-- What an await returns; any of them may raise. -/
abbrev Answer : Await → Type
  | .operation _ => Except PyError Unit
  | .gather _ => Except PyError SendResults

/-- A coroutine of the server. -/
abbrev Handler (W A : Type) (ρ : Type) := Coro (ServerState W A) Await Answer PyError ρ

end AuroraRl.Server
