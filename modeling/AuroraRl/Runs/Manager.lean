import AuroraRl.Lib.Dict
import AuroraRl.Lib.Python
import Mathlib.Data.Finset.Basic

/-!
# `MultiRunManager`

* `OutputDir` : what the manager reads of the run directories;
* `createRunData`, `deleteRunData` : the bookkeeping of one run;
* `discoverRuns` : the master looks at the directories;
* `syncData`, `synchronizeMaster`, `synchronizeRank` : `synchronize_state` on the master and on the other ranks.

Sets are iterated in whatever order the caller names.
-/

namespace AuroraRl.Runs

/-! ## Data -/

structure Progress where
  step : Int
  totalTokens : Nat
  totalSamples : Nat
  deriving DecidableEq, Inhabited

structure CkptConfig where
  resumeStep : Option Int
  deriving DecidableEq

/-- `student.model.lora`. -/
structure RunLoRAConfig (F : Type) where
  rank : Option Nat
  alpha : Option F
  deriving DecidableEq

/-- The parts of an orchestrator's config that the manager reads. -/
structure OrchestratorConfig (F : Type) where
  ckpt : Option CkptConfig
  lora : Option (RunLoRAConfig F)
  deriving DecidableEq

/-- The trainer's LoRA config. -/
structure LoRAConfig (F : Type) where
  rank : Nat
  alpha : F

/-- The `bfloat16` numbers that scaling factors are. -/
class ScalingFactor (F : Type) where
  /-- `1000_000.0`. -/
  reset : F
  /-- `alpha / rank`. -/
  ratio : F → Nat → F

/-- A run directory; `orchToml` is `none` when the file is missing or does not parse. -/
structure RunDir (F : Type) where
  evicted : Bool
  orchToml : Option (OrchestratorConfig F)
  ckptSteps : List Nat
  stableSteps : List Nat

structure OutputDir (F : Type) where
  runIds : Finset String
  runDir : String → RunDir F

/-- What the manager asked of its modules and hooks. -/
inductive HookCall
  | forgotten (idx : Nat) (runId : String)
  | discovered (idx : Nat) (runId : String)
  | deleted (idx : Nat) (runId : String)
  | resetParameters (idx : Nat)
  | created (idx : Nat) (runId : String)
  deriving DecidableEq

structure MultiRunManager (F : Type) where
  maxRuns : Nat
  idx2Id : Dict Nat String
  id2Idx : Dict String Nat
  unusedIdxs : Finset Nat
  progress : Dict Nat Progress
  config : Dict Nat (OrchestratorConfig F)
  readyToUpdate : List Bool
  scalingFactors : Nat → F
  lastSyncedId2Idx : Dict String Nat
  calls : List HookCall

variable {F : Type} [ScalingFactor F]

def MultiRunManager.init (F : Type) [ScalingFactor F] (maxRuns : Nat) : MultiRunManager F where
  maxRuns := maxRuns
  idx2Id := ∅
  id2Idx := ∅
  unusedIdxs := Finset.range maxRuns
  progress := ∅
  config := ∅
  readyToUpdate := List.replicate maxRuns false
  scalingFactors _ := ScalingFactor.reset
  lastSyncedId2Idx := ∅
  calls := []

/-! ## Dictionaries -/

def getItem {κ ν : Type} [DecidableEq κ] (d : Dict κ ν) (k : κ) : Except PyError ν :=
  match d.get? k with
  | some v => .ok v
  | none => .error .keyError

def delItem {κ ν : Type} [DecidableEq κ] (d : Dict κ ν) (k : κ) : Except PyError (Dict κ ν) :=
  if d.contains k then .ok (d.erase k) else .error .keyError

def keysMinus {ν ν' : Type} (d : Dict String ν) (d' : Dict String ν') : Finset String :=
  d.keys.toFinset \ d'.keys.toFinset

/-- An order in which a set is iterated. -/
def Enumerates (l : List String) (s : Finset String) : Prop := l.Nodup ∧ l.toFinset = s

instance (l : List String) (s : Finset String) : Decidable (Enumerates l s) := inferInstanceAs (Decidable (_ ∧ _))

/-- `next(iter(s))`: some element, and none only of an empty set. -/
structure NextIter where
  next : Finset Nat → Option Nat
  mem : ∀ {s i}, next s = some i → i ∈ s
  empty : ∀ {s}, next s = none → s = ∅

/-! ## The config of a run -/

/-- The validation hook of `setup_multi_run_manager`; it fills in the trainer's defaults. -/
def validateLoraRank (trainerLora : LoRAConfig F) (config : OrchestratorConfig F) :
    Except PyError (Bool × OrchestratorConfig F) :=
  match config.lora with
  | none => .error .attributeError
  | some lora =>
    let rank := lora.rank.getD trainerLora.rank
    let config := { config with lora := some ⟨some rank, some (lora.alpha.getD trainerLora.alpha)⟩ }
    .ok (rank ≤ trainerLora.rank, config)

/-- `get_orchestrator_config`; `none` where the source logs an error and returns `None`. -/
def getOrchestratorConfig (trainerLora : Option (LoRAConfig F)) (out : OutputDir F) (runId : String) :
    Except PyError (Option (OrchestratorConfig F)) :=
  match (out.runDir runId).orchToml, trainerLora with
  | none, _ => .ok none
  | some config, none => .ok (some config)
  | some config, some lora =>
    match validateLoraRank lora config with
    | .error e => .error e
    | .ok (isValid, config) => .ok (if isValid then some config else none)

/-! ## The data of a run -/

namespace MultiRunManager

/-- The step a run starts at. -/
def initialStep (m : MultiRunManager F) (out : OutputDir F) (runId : String) (config : OrchestratorConfig F) : Int :=
  match config.ckpt.bind CkptConfig.resumeStep with
  | none => 0
  | some resumeStep =>
    if resumeStep = -1 then
      let steps := if 1 < m.maxRuns then (out.runDir runId).stableSteps else (out.runDir runId).ckptSteps
      (steps.foldl max 0 : Nat)
    else resumeStep

def createRunData (m : MultiRunManager F) (out : OutputDir F) (newRun : String) (newId : Nat)
    (config : OrchestratorConfig F) : Except PyError (MultiRunManager F) :=
  if newId ∈ m.unusedIdxs then
    .ok { m with
      id2Idx := m.id2Idx.insert newRun newId
      unusedIdxs := m.unusedIdxs.erase newId
      idx2Id := m.idx2Id.insert newId newRun
      progress := m.progress.insert newId ⟨m.initialStep out newRun config, 0, 0⟩
      config := m.config.insert newId config }
  else .error .keyError

def deleteRunData (m : MultiRunManager F) (deletedRun : String) (deletedIdx : Nat) :
    Except PyError (MultiRunManager F) := do
  let progress ← delItem m.progress deletedIdx
  let idx2Id ← delItem m.idx2Id deletedIdx
  let id2Idx ← delItem m.id2Idx deletedRun
  return { m with
    progress := progress
    config := m.config.erase deletedIdx
    scalingFactors := fun i => if i = deletedIdx then ScalingFactor.reset else m.scalingFactors i
    unusedIdxs := insert deletedIdx m.unusedIdxs
    idx2Id := idx2Id
    id2Idx := id2Idx }

def call (m : MultiRunManager F) (hook : HookCall) : MultiRunManager F := { m with calls := m.calls ++ [hook] }

def createRunHooks (m : MultiRunManager F) (newId : Nat) (newRun : String) : MultiRunManager F :=
  (m.call (.resetParameters newId)).call (.created newId newRun)

def deleteRunHooks (m : MultiRunManager F) (deletedIdx : Nat) (deletedRun : String) : MultiRunManager F :=
  m.call (.deleted deletedIdx deletedRun)

/-! ## `discover_runs` -/

/-- `on_run_discovered`, with a LoRA trainer. -/
def onRunDiscovered (m : MultiRunManager F) (trainerLora : Option (LoRAConfig F)) (idx : Nat)
    (config : OrchestratorConfig F) : Except PyError (MultiRunManager F) :=
  match trainerLora with
  | none => .ok m
  | some _ =>
    match config.lora with
    | some ⟨some rank, some alpha⟩ =>
      .ok { m with scalingFactors := fun i => if i = idx then ScalingFactor.ratio alpha rank else m.scalingFactors i }
    | some _ => .error .typeError
    | none => .error .attributeError

def forgetRun (m : MultiRunManager F) (deletedRun : String) : Except PyError (MultiRunManager F) := do
  let deletedIdx ← getItem m.id2Idx deletedRun
  (m.call (.forgotten deletedIdx deletedRun)).deleteRunData deletedRun deletedIdx

/-- One turn of the loop over the new runs; without an unused index or a valid config the run is left for later. -/
def discoverRun (trainerLora : Option (LoRAConfig F)) (out : OutputDir F) (iter : NextIter) (m : MultiRunManager F)
    (newRun : String) : Except PyError (MultiRunManager F) :=
  match iter.next m.unusedIdxs with
  | none => .ok m
  | some newId => do
    match ← getOrchestratorConfig trainerLora out newRun with
    | none => return m
    | some config =>
      let m ← m.createRunData out newRun newId config
      (m.call (.discovered newId newRun)).onRunDiscovered trainerLora newId config

/-- The runs on disk that are not evicted. -/
def presentRuns (out : OutputDir F) : Finset String := out.runIds.filter fun r => (out.runDir r).evicted = false

def deletedRuns (m : MultiRunManager F) (out : OutputDir F) : Finset String := m.id2Idx.keys.toFinset \ presentRuns out

def newRuns (m : MultiRunManager F) (out : OutputDir F) : Finset String := presentRuns out \ m.id2Idx.keys.toFinset

/-- `discover_runs`, over the deleted and the new runs in the given orders. -/
def discoverRuns (trainerLora : Option (LoRAConfig F)) (out : OutputDir F) (iter : NextIter) (m : MultiRunManager F)
    (deleted new : List String) : Except PyError (MultiRunManager F) := do
  let m ← deleted.foldlM forgetRun m
  new.foldlM (discoverRun trainerLora out iter) m

end MultiRunManager

/-! ## `synchronize_state` -/

/-- What the master puts into the store. -/
structure SyncData (F : Type) where
  id2Idx : Dict String Nat
  readyToUpdate : List Bool
  scalingFactors : Nat → F
  newConfigs : Dict String (OrchestratorConfig F)
  progress : Dict Nat Progress

namespace MultiRunManager

def newConfigs (m : MultiRunManager F) (new : List String) : Except PyError (Dict String (OrchestratorConfig F)) :=
  new.foldlM (fun d newRun => do
    let idx ← getItem m.id2Idx newRun
    let config ← getItem m.config idx
    return d.insert newRun config) ∅

def syncData (m : MultiRunManager F) (new : List String) : Except PyError (SyncData F) := do
  let newConfigs ← m.newConfigs new
  return ⟨m.id2Idx, m.readyToUpdate, m.scalingFactors, newConfigs, m.progress⟩

/-- The hooks of the deleted runs at the indices they had, then those of the new runs. -/
def runHooks (m : MultiRunManager F) (indices : Dict String Nat) (deleted new : List String) :
    Except PyError (MultiRunManager F) := do
  let m ← deleted.foldlM (fun m run => do
    let idx ← getItem indices run
    return m.deleteRunHooks idx run) m
  new.foldlM (fun m run => do
    let idx ← getItem m.id2Idx run
    return m.createRunHooks idx run) m

/-- The master's part after the barrier. -/
def synchronizeMaster (m : MultiRunManager F) (deleted new : List String) : Except PyError (MultiRunManager F) := do
  let m ← m.runHooks m.lastSyncedId2Idx deleted new
  return { m with lastSyncedId2Idx := m.id2Idx }

/-- The part of the other ranks. -/
def synchronizeRank (m : MultiRunManager F) (out : OutputDir F) (data : SyncData F)
    (deleted new : List String) : Except PyError (MultiRunManager F) := do
  let indices := m.id2Idx
  let m := { m with readyToUpdate := data.readyToUpdate, scalingFactors := data.scalingFactors }
  let m ← deleted.foldlM (fun m run => do
    let idx ← getItem indices run
    m.deleteRunData run idx) m
  let m ← new.foldlM (fun m run => do
    let idx ← getItem data.id2Idx run
    let config ← getItem data.newConfigs run
    m.createRunData out run idx config) m
  runHooks { m with progress := data.progress } indices deleted new

end MultiRunManager

end AuroraRl.Runs
