import AuroraRl.Server.Handlers

/-!
# The engine behind the server, and the server as a pool of requests

* `WeightModel` : the base checkpoint and what an artifact does to the weights;
* `Phase`, `phase` : what an engine history says about the weights the workers hold;
* `world` : how the engine, the clients and the peers may answer an await;
* `server` : the pool of requests, interleaved at their awaits.
-/

namespace AuroraRl.Server
open Coroutine

/-- The base checkpoint, and the effect of loading a full artifact or a delta. -/
class WeightModel (W : Type) (A : outParam Type) where
  base : W
  loadFull : A → W
  applyDelta : A → W → W

variable {W A : Type} [WeightModel W A]

/-! ## Histories -/

/-- An update RPC that succeeded. -/
structure Update (A : Type) where
  call : UpdateCall
  artifact : A

/-- The workers load the artifact of an update. -/
def Update.apply (u : Update A) (weights : W) : W :=
  match u.call.entry.mode with
  | .full => WeightModel.loadFull u.artifact
  | .delta => WeightModel.applyDelta u.artifact weights

/-- The base checkpoint with the artifacts applied in order. -/
def weightsAfter (updates : List (Update A)) : W := updates.foldl (fun w u => u.apply w) WeightModel.base

def lastVersion (updates : List (Update A)) : Option String := updates.getLast?.map (·.call.version)

/-- The version the engine holds; the base checkpoint counts as `"0"`. -/
def heldVersion (updates : List (Update A)) : String := (lastVersion updates).getD "0"

/-- What a history of weight RPCs leaves: the updates since the last reload if every call ended well since
then, a call in flight, or weights in an unknown state. -/
inductive Phase (A : Type)
  | clean (updates : List (Update A))
  | updating (updates : List (Update A)) (call : UpdateCall)
  | reloading
  | broken

namespace Phase

def next : Phase A → EngineEvent A → Phase A
  | clean us, .issued u => updating us u
  | updating us u, .applied a => clean (us ++ [⟨u, a⟩])
  | _, .reloadIssued => reloading
  | reloading, .reloaded => clean []
  | _, _ => broken

def IsClean : Phase A → Prop
  | clean _ => True
  | _ => False

end Phase

def phase (history : List (EngineEvent A)) : Phase A := history.foldl Phase.next (.clean [])

omit [WeightModel W A] in
@[simp] theorem phase_nil : phase ([] : List (EngineEvent A)) = .clean [] := rfl

omit [WeightModel W A] in
theorem phase_concat (history : List (EngineEvent A)) (e : EngineEvent A) :
    phase (history ++ [e]) = (phase history).next e := List.foldl_concat ..

/-! ## The world -/

/-- The engine after an update RPC ended well. -/
def finishUpdate (load : A → W → W) (a : A) (state : ServerState W A) : ServerState W A :=
  recordEvent (.applied a) { state with engine := { state.engine with weights := load a state.engine.weights } }

/-- The engine after an RPC raised: the workers may hold anything. -/
def failCall (event : EngineEvent A) (weights : W) (state : ServerState W A) : ServerState W A :=
  recordEvent event { state with engine := { state.engine with weights := weights } }

def recordRelayed (results : SendResults) (state : ServerState W A) : ServerState W A :=
  { state with relayed := state.relayed ++ (results.filter (·.2.isSome)).map Prod.fst }

/-- How an await may be answered. A weight RPC that returns has loaded a whole artifact (or the base
checkpoint); one that raises leaves the weights in any state. A fan-out returns when every send has ended. -/
inductive World : ServerState W A → (e : Await) → Answer e → ServerState W A → Prop
  | updatedFull (state : ServerState W A) (path : String) (a : A) :
      World state (.operation (.collectiveRpc (.updateWeightsFromPath path))) (.ok ())
        (finishUpdate (fun a _ => WeightModel.loadFull a) a state)
  | updatedDelta (state : ServerState W A) (path : String) (a : A) :
      World state (.operation (.collectiveRpc (.updateWeightsFromDeltaPath path))) (.ok ())
        (finishUpdate WeightModel.applyDelta a state)
  | updateFullFailed (state : ServerState W A) (path : String) (x : PyError) (weights : W) :
      World state (.operation (.collectiveRpc (.updateWeightsFromPath path))) (.error x)
        (failCall .failed weights state)
  | updateDeltaFailed (state : ServerState W A) (path : String) (x : PyError) (weights : W) :
      World state (.operation (.collectiveRpc (.updateWeightsFromDeltaPath path))) (.error x)
        (failCall .failed weights state)
  | reloaded (state : ServerState W A) :
      World state (.operation (.collectiveRpc .reloadWeights)) (.ok ())
        (recordEvent .reloaded { state with engine := { state.engine with weights := WeightModel.base } })
  | reloadFailed (state : ServerState W A) (x : PyError) (weights : W) :
      World state (.operation (.collectiveRpc .reloadWeights)) (.error x) (failCall .reloadFailed weights state)
  | readBody (state : ServerState W A) (a : Except PyError Unit) : World state (.operation .readBody) a state
  | readUpload (state : ServerState W A) (a : Except PyError Unit) : World state (.operation .readUpload) a state
  | pauseGeneration (state : ServerState W A) (a : Except PyError Unit) :
      World state (.operation .pauseGeneration) a state
  | resumeGeneration (state : ServerState W A) (a : Except PyError Unit) :
      World state (.operation .resumeGeneration) a state
  | gathered (state : ServerState W A) (sends : List RelaySend) (results : SendResults)
      (h : (results.map Prod.fst).Perm sends) :
      World state (.gather sends) (.ok results) (recordRelayed results state)
  | gatherRaised (state : ServerState W A) (sends : List RelaySend) (x : PyError) :
      World state (.gather sends) (.error x) state

/-! ## The server -/

/-- A freshly started server: base weights, nothing staged. -/
structure Fresh (state : ServerState W A) : Prop where
  stagedVersions : state.stagedVersions = ∅
  stageUploads : state.stageUploads = ∅
  activeVersion : state.activeVersion = none
  weightsDirty : state.weightsDirty = false
  weights : state.engine.weights = WeightModel.base
  history : state.engine.history = []

variable [Host]

/-- The version string a request carries, if any, is not empty. -/
def NonemptyVersion (request : Request) : Prop :=
  ∀ v, (requestFields request).1.get? "version" = some v → v.text ≠ ""

/-- Any number of requests with non-empty versions, interleaved at their awaits. -/
def server : Pool (ServerState W A) Await Answer PyError JSONResponse Request where
  init := Fresh
  admits := NonemptyVersion
  program := handle
  world := World

abbrev ServerAction := Action Await Answer Request

abbrev ServerConfig (W A : Type) := Config (ServerState W A) Await Answer PyError JSONResponse Request

abbrev ServerLabel := Label Await Answer PyError JSONResponse Request

/-! ## A concrete server -/

/-- An interpreter that knows only ASCII; the hash of a file is its length. -/
@[reducible] def asciiHost : Host where
  isSpace c := c = ' '
  isAlnum c := c.isAlphanum
  digit c := if c.isDigit then some (c.toNat - '0'.toNat) else none
  lower s := String.ofList (s.toList.map Char.toLower)
  uuid4 n := toString n
  sha256 b := toString b.length
  expanduser p := .ok p

/-- Weights that list the artifacts loaded since the last full one. -/
@[reducible] def listWeights : WeightModel (List Nat) Nat where
  base := []
  loadFull a := [a]
  applyDelta a w := w ++ [a]

/-- A fresh server that relays to `peers`; every path names a file. -/
def freshState (peers : List String) : ServerState (List Nat) Nat where
  stagingDir := ⟨"", ["staging"]⟩
  stagedVersions := ∅
  stageUploads := ∅
  uploadObjects := default
  uploadCount := 0
  activeVersion := none
  weightsDirty := false
  apiServerCount := 1
  relayEnabled := peers ≠ []
  relayPeers := peers
  relayFailOnPeerError := true
  files _ := some (.file [])
  uuids := 0
  engine := ⟨[], []⟩
  relayed := []

attribute [local instance] listWeights

omit [Host] in
theorem fresh_freshState (peers : List String) : Fresh (freshState peers) := ⟨rfl, rfl, rfl, rfl, rfl, rfl⟩

/-- A world in which everything goes well; the artifact at a path is the length of its name. -/
def obliging (state : ServerState (List Nat) Nat) : (e : Await) → Answer e × ServerState (List Nat) Nat
  | .operation (.collectiveRpc (.updateWeightsFromPath path)) =>
    (.ok (), finishUpdate (fun a _ => [a]) path.length state)
  | .operation (.collectiveRpc (.updateWeightsFromDeltaPath path)) =>
    (.ok (), finishUpdate (fun a w => w ++ [a]) path.length state)
  | .operation (.collectiveRpc .reloadWeights) =>
    (.ok (), recordEvent .reloaded { state with engine := { state.engine with weights := [] } })
  | .operation .readBody => (.ok (), state)
  | .operation .readUpload => (.ok (), state)
  | .operation .pauseGeneration => (.ok (), state)
  | .operation .resumeGeneration => (.ok (), state)
  | .gather sends => (.ok (sends.map (·, some none)), recordRelayed (sends.map (·, some none)) state)

omit [Host] in
theorem world_obliging (state : ServerState (List Nat) Nat) (e : Await) :
    World state e (obliging state e).1 (obliging state e).2 := by
  match e with
  | .operation (.collectiveRpc (.updateWeightsFromPath path)) => exact .updatedFull state path path.length
  | .operation (.collectiveRpc (.updateWeightsFromDeltaPath path)) => exact .updatedDelta state path path.length
  | .operation (.collectiveRpc .reloadWeights) => exact .reloaded state
  | .operation .readBody => exact .readBody state _
  | .operation .readUpload => exact .readUpload state _
  | .operation .pauseGeneration => exact .pauseGeneration state _
  | .operation .resumeGeneration => exact .resumeGeneration state _
  | .gather sends => exact .gathered state sends _ (by simp [Function.comp_def])

end AuroraRl.Server
