import AuroraRl.Server.Staging

/-!
# Relaying staging and commits to peer servers

* `relayPeers`, `relayRequested`, `relayPeerUrl` : whom to relay to, and where;
* `fanOut` : one `asyncio.gather` over the peers, and the per-peer statistics it leaves;
* `fanOutStageFile` … `fanOutReload` : the fan-out of each route;
* `relayFailureResponse` : the 502 answer when a peer failed.
-/

namespace AuroraRl.Server
open Coroutine

variable {W A : Type} [Host]

def normalizeAdminUrl (url : String) : String := Python.removesuffix (Python.rstrip url '/') "/v1"

def relayPeerUrl (peer route : String) : String := normalizeAdminUrl peer ++ "/" ++ Python.lstrip route '/'

def RelayPost.url (post : RelayPost) : String := relayPeerUrl post.peer post.route.path

/-- The request the peer sees; `read` gives the content of a file that is sent by name. -/
def RelayPost.request (read : PurePath → Bytes) (post : RelayPost) : Request where
  route := post.route
  queryParams := post.params
  body :=
    match post.content, post.json, post.data, post.file with
    | some bytes, _, _, _ => .raw bytes
    | none, [], [], none => .raw []
    | none, [], data, none => .form (data.map fun e => (e.1, .text e.2))
    | none, [], data, some (name, file) =>
      .form (data.map (fun e => (e.1, .text e.2)) ++ [("file", .file ⟨some name, file.elim read id⟩)])
    | none, json, _, _ => .json (some (json.map fun e => (e.1, some e.2)))

def relayRequested (fields : Fields) : Bool := coerceBool (fields.get? "relay") true

def relayPeers (state : ServerState W A) : List String := if state.relayEnabled then state.relayPeers else []

/-- The requests of a `_send`, in order. -/
def RelaySend.posts : RelaySend → List RelayPost
  | .post _ call => [call]
  | .paused _ pause call resume => [pause, call, resume]

/-- A bare `_relay_post`. -/
def relayPost (peer : String) (route : Route) : RelayPost := ⟨peer, route, [], [], [], none, none⟩

def relayPausePeer (peer : String) : RelayPost :=
  { relayPost peer .pause with params := [("mode", "keep"), ("clear_cache", "false")] }

def relayResumePeer (peer : String) : RelayPost := relayPost peer .resume

def relayFailureResponse (state : ServerState W A) (operation : String) (stats : RelayStats) : Option JSONResponse :=
  if ¬ state.relayFailOnPeerError then none
  else
    let failedPeers := (stats.entries.filter fun e => ¬ e.2).map Prod.fst
    if failedPeers = [] then none
    else
      let message := "relay " ++ operation ++ " failed for " ++ toString failedPeers.length ++ " peer(s)"
      some ⟨502, .relayError message failedPeers stats⟩

def gather (sends : List RelaySend) : Handler W A SendResults := do
  let answer : Except PyError SendResults ← Coro.perform (Await.gather sends)
  Coro.ofExcept answer

/-- `results`, filled as the sends end. -/
def gatherStats (sends : List RelaySend) : Handler W A RelayStats := do
  let results ← gather sends
  return .ofList (results.map fun p => (p.1.peer, p.2.isSome))

/-- The fan-outs that send to every configured peer. -/
def fanOut (relay : Bool) (send : String → RelaySend) : Handler W A RelayStats := do
  let peers := relayPeers (← Coro.getState)
  if ¬ relay ∨ peers = [] then return ∅
  gatherStats (peers.map send)

/-- `fields` as form data for a peer, which must not relay further. -/
def relayData (fields : Fields) : List (String × String) :=
  ((fields.erase "relay").entries.map fun e => (e.1, e.2.text)) ++ [("relay", "false")]

/-! ## Staging routes -/

def stageRelayFile (state : ServerState W A) (path : PurePath) (mode : WeightUpdateMode) : PurePath :=
  match state.files path, mode with
  | some .directory, .delta =>
    if fileExists state (path.join "delta.stream") then path.join "delta.stream" else path.join "delta.safetensors"
  | _, _ => path

def fanOutStageFile (path : PurePath) (version : String) (mode : WeightUpdateMode) (baseVersion : Option String)
    (relay : Bool) : Handler W A RelayStats := do
  let state ← Coro.getState
  let peers := relayPeers state
  if ¬ relay ∨ peers = [] then return ∅
  let uploadPath := stageRelayFile state path mode
  if ¬ isFile state uploadPath then return .ofList (peers.map (·, false))
  let base := match baseVersion with
    | some b => [("base_version", b)]
    | none => []
  let data := [("version", version), ("mode", mode.text), ("relay", "false")] ++ base
  gatherStats (peers.map fun peer =>
    .post peer { relayPost peer .stage with data, file := some (uploadPath.name, .inl uploadPath) })

def fanOutStageChunk (fields : Fields) (filename : String) (chunk : Bytes) (relay : Bool) :
    Handler W A RelayStats :=
  fanOut relay fun peer =>
    .post peer { relayPost peer .stageChunk with
      data := relayData fields, file := some (filename, .inr chunk) }

def fanOutStageFinalize (fields : Fields) (relay : Bool) : Handler W A RelayStats :=
  fanOut relay fun peer => .post peer { relayPost peer .stageFinalize with data := relayData fields }

/-- A peer whose answer names no upload counts as failed. -/
def streamInitUpload : Option (Option String) → Option String
  | some (some uploadId) => if uploadId = "" then none else some uploadId
  | _ => none

def fanOutStreamInit (fields : Fields) (filename : String) (relay : Bool) :
    Handler W A (Dict String String × RelayStats) := do
  let peers := relayPeers (← Coro.getState)
  if ¬ relay ∨ peers = [] then return (∅, ∅)
  let payload := ((fields.erase "relay").insert "filename" (.str filename)).insert "relay" (.bool false)
  let results ← gather (peers.map fun peer =>
    .post peer { relayPost peer .stageStreamInit with json := payload.entries })
  let uploads := results.filterMap fun p => (streamInitUpload p.2).map (p.1.peer, ·)
  return (.ofList uploads, .ofList (results.map fun p => (p.1.peer, (streamInitUpload p.2).isSome)))

/-- `upload.get("relay_uploads")` if the upload is relayed at all. -/
def StageUpload.relayTargets (upload : StageUpload) : List (String × String) :=
  if upload.relayRequested.getD true then (upload.relayUploads.getD ∅).entries else []

def fanOutStreamChunk (upload : StageUpload) (offset : Nat) (chunk : Bytes) : Handler W A RelayStats := do
  if upload.relayTargets = [] then return ∅
  gatherStats (upload.relayTargets.map fun p =>
    .post p.1 { relayPost p.1 .stageStreamChunk with
      params := [("upload_id", p.2), ("offset", toString offset)], content := some chunk })

def fanOutStreamFinalize (upload : StageUpload) (fields : Fields) : Handler W A RelayStats := do
  if upload.relayTargets = [] then return ∅
  let data := (fields.erase "upload_id").entries.map fun e => (e.1, e.2.text)
  gatherStats (upload.relayTargets.map fun p =>
    .post p.1 { relayPost p.1 .stageStreamFinalize with data := data ++ [("upload_id", p.2)] })

/-! ## Commit and reload -/

def relayCommitPeer (version : String) (mode : WeightUpdateMode) (peer : String) : RelayPost :=
  { relayPost peer .commit with data := [("version", version), ("mode", mode.text), ("relay", "false")] }

/-- The `_send` of a commit. -/
def commitSend (version : String) (mode : WeightUpdateMode) (peer : String) : RelaySend :=
  .paused peer (relayPausePeer peer) (relayCommitPeer version mode peer) (relayResumePeer peer)

def fanOutCommit (version : String) (mode : WeightUpdateMode) (relay : Bool) : Handler W A RelayStats :=
  fanOut relay (commitSend version mode)

def fanOutReload (relay : Bool) : Handler W A RelayStats :=
  fanOut relay fun peer =>
    .paused peer (relayPausePeer peer) { relayPost peer .reloadWeights with data := [("relay", "false")] }
      (relayResumePeer peer)

end AuroraRl.Server
