import AuroraRl.Runs.Discovery
import AuroraRl.Trainer.Batch
import AuroraRl.Transport.TrainingBatches
import Mathlib.Data.List.Sort

/-!
# `MultiPacker`

* `PackerConfig`, `MultiPacker` : the settings, and the manager with a buffer for each run index;
* `getBatch` : the directories are looked at, batches are validated and buffered, and the directories looked at again;
* `countTokens`, `hasEnoughTokens` : what `pack` waits for;
* `takeSamples`, `findWork`, `selectSamplesRoundRobin` : the samples of one call of `pack`;
* `updateRunProgress`, `microBatchGrid`, `pack`.

The batches are what the receiver returned. The round-robin loop runs on fuel, and without enough of it there is no result.
-/

namespace AuroraRl.Trainer
open AuroraRl.Runs AuroraRl.Transport

variable {F R : Type}

/-! ## Data -/

/-- The settings of a packer; sequences hold a token and there is a data rank. -/
structure PackerConfig (F : Type) where
  trainerLora : Option (LoRAConfig F)
  seqLen : Nat
  dpWorldSize : Nat
  padToMultipleOf : Nat
  seqLen_pos : 0 < seqLen
  dpWorldSize_pos : 0 < dpWorldSize

def PackerConfig.tokenBudget (config : PackerConfig F) : Nat := config.seqLen * config.dpWorldSize

/-- There is a buffer for every index below `max_runs`. -/
structure MultiPacker (F R : Type) where
  manager : MultiRunManager F
  buffers : Nat → List (TrainingSample R × Nat)
  roundRobinPosition : Nat

/-- What one `discover_runs` reads, and the orders in which it goes through its sets. -/
structure Look (F : Type) where
  out : OutputDir F
  iter : NextIter
  deleted : List String
  new : List String

/-- What one `_get_batch` reads. -/
structure Poll (F R : Type) where
  before : Look F
  batches : List (TrainingBatch (TrainingSample R))
  after : Look F

/-! ## `_get_batch` -/

/-- The indices whose runs were forgotten after the first `n` calls. -/
def forgottenSince (n : Nat) (calls : List HookCall) : List Nat :=
  (calls.drop n).filterMap HookCall.forgottenIdx

/-- The runs evicted meanwhile have an `evicted.txt`. -/
def evictIn (out : OutputDir F) (evicted : List (String × String)) : OutputDir F :=
  { out with runDir := fun r =>
      { out.runDir r with evicted := (out.runDir r).evicted || (evicted.map Prod.fst).contains r } }

namespace MultiPacker

/-- `_on_run_data_deleted`, for every index that `discover_runs` forgets. -/
def onRunDataDeleted (s : MultiPacker F R) (idxs : List Nat) : MultiPacker F R :=
  { s with buffers := fun idx => if idx ∈ idxs then [] else s.buffers idx }

def discoverRuns [ScalingFactor F] (config : PackerConfig F) (look : Look F) (s : MultiPacker F R) :
    Except PyError (MultiPacker F R) := do
  let manager ← MultiRunManager.discoverRuns config.trainerLora look.out look.iter s.manager look.deleted look.new
  return onRunDataDeleted { s with manager := manager } (forgottenSince s.manager.calls.length manager.calls)

/-- `evict_run`: the file and the reason in it. -/
def evictRun (s : MultiPacker F R) (idx : Nat) (reason : String) : List (String × String) :=
  match s.manager.idx2Id.get? idx with
  | none => []
  | some runId => [(runId, reason)]

/-- One turn of the loop over the batches; `evicted` are the runs evicted so far. -/
def bufferBatch (config : PackerConfig F) (x : MultiPacker F R × List (String × String))
    (batch : TrainingBatch (TrainingSample R)) : MultiPacker F R × List (String × String) :=
  match batch.runIdx with
  | none => x
  | some runIdx =>
      if batch.examples = [] then (x.1, x.2 ++ x.1.evictRun runIdx "Run wrote a batch with no samples")
      else
        let valid := batch.examples.takeWhile fun sample => (validateSample config.seqLen sample).isNone
        let buffer := x.1.buffers runIdx ++ valid.map fun sample => (sample, batch.step)
        let s := { x.1 with buffers := Function.update x.1.buffers runIdx buffer }
        match batch.examples[valid.length]? with
        | none => (s, x.2)
        | some sample => (s, x.2 ++ x.1.evictRun runIdx
            ("Run wrote a sample with invalid data: " ++ (validateSample config.seqLen sample).getD ""))

def getBatch [ScalingFactor F] (config : PackerConfig F) (poll : Poll F R) (s : MultiPacker F R) :
    Except PyError (MultiPacker F R) := do
  let s ← s.discoverRuns config poll.before
  let x := poll.batches.foldl (bufferBatch config) (s, [])
  x.1.discoverRuns config { poll.after with out := evictIn poll.after.out x.2 }

/-! ## Waiting for tokens -/

/-- The loop over one buffer, and whether it returned from `_count_tokens`. -/
def countBuffer (threshold : Option Nat) (currentStep : Int) : List (TrainingSample R × Nat) → Nat → Nat × Bool
  | [], tokens => (tokens, false)
  | (sample, step) :: buffer, tokens =>
      if currentStep < step then (tokens, false)
      else if threshold.any (· ≤ tokens + sample.length) then (tokens + sample.length, true)
      else countBuffer threshold currentStep buffer (tokens + sample.length)

def countRuns (s : MultiPacker F R) (threshold : Option Nat) : List Nat → Nat → Except PyError Nat
  | [], tokens => .ok tokens
  | runIdx :: runIdxs, tokens => do
      let progress ← getItem s.manager.progress runIdx
      let x := countBuffer threshold progress.step (s.buffers runIdx) tokens
      if x.2 then return x.1 else s.countRuns threshold runIdxs x.1

def usedIdxs (s : MultiPacker F R) : List Nat := s.manager.idx2Id.keys.insertionSort (· ≤ ·)

def countTokens (s : MultiPacker F R) (threshold : Option Nat) : Except PyError Nat := s.countRuns threshold s.usedIdxs 0

def hasEnoughTokens (config : PackerConfig F) (s : MultiPacker F R) : Except PyError Bool := do
  return config.tokenBudget ≤ (← s.countTokens (some config.tokenBudget))

end MultiPacker

/-! ## `_select_samples_round_robin` -/

/-- The variables of the loop over one buffer; `returned` when it returned from `_select_samples_round_robin`. -/
structure Taking (R : Type) where
  buffer : List (TrainingSample R × Nat)
  selected : List (Nat × TrainingSample R × Nat)
  tokensCollected : Nat
  returned : Bool

def takeSamples (tokenBudget : Nat) (currentStep : Int) (runIdx : Nat) :
    List (TrainingSample R × Nat) → List (Nat × TrainingSample R × Nat) → Nat → Taking R
  | [], selected, tokens => ⟨[], selected, tokens, false⟩
  | (sample, step) :: buffer, selected, tokens =>
      if currentStep < step then ⟨(sample, step) :: buffer, selected, tokens, false⟩
      else if tokenBudget < tokens + sample.length then
        -- A sample that is alone too large is dropped.
        if tokens + sample.length = sample.length then takeSamples tokenBudget currentStep runIdx buffer selected tokens
        else ⟨(sample, step) :: buffer, selected, tokens + sample.length, true⟩
      else takeSamples tokenBudget currentStep runIdx buffer (selected ++ [(runIdx, sample, step)]) (tokens + sample.length)

/-- The variables of `_select_samples_round_robin`. -/
structure Selection (R : Type) where
  buffers : Nat → List (TrainingSample R × Nat)
  position : Nat
  selected : List (Nat × TrainingSample R × Nat)
  tokensCollected : Nat

variable (manager : MultiRunManager F)

/-- Is the first sample of a buffer of the run's current step or an earlier one? -/
def hasWork (buffers : Nat → List (TrainingSample R × Nat)) (position : Nat) : Except PyError Bool :=
  match buffers position with
  | [] => .ok false
  | (_, step) :: _ => do
      let progress ← getItem manager.progress position
      return decide ((step : Int) ≤ progress.step)

/-- The `for` loop: the position it ends at, and whether it broke off there. -/
def findWork (buffers : Nat → List (TrainingSample R × Nat)) : Nat → Nat → Except PyError (Nat × Bool)
  | 0, position => .ok (position, false)
  | n + 1, position => do
      let found ← hasWork manager buffers position
      if found then return (position, true) else findWork buffers n ((position + 1) % manager.maxRuns)

/-- The `while` loop. -/
def selectLoop (tokenBudget : Nat) : Nat → Selection R → Except PyError (Option (Selection R))
  | 0, _ => .ok none
  | fuel + 1, x =>
      if x.tokensCollected < tokenBudget then do
        let found ← findWork manager x.buffers manager.maxRuns x.position
        if found.2 then
          let progress ← getItem manager.progress found.1
          let taking := takeSamples tokenBudget progress.step found.1 (x.buffers found.1) x.selected x.tokensCollected
          let x := ⟨Function.update x.buffers found.1 taking.buffer, (found.1 + 1) % manager.maxRuns, taking.selected,
            taking.tokensCollected⟩
          if taking.returned then return some x else selectLoop tokenBudget fuel x
        else return some { x with position := found.1 }
      else return some x

namespace MultiPacker

def selectSamplesRoundRobin (tokenBudget fuel : Nat) (s : MultiPacker F R) :
    Except PyError (Option (MultiPacker F R × List (Nat × TrainingSample R × Nat))) := do
  let x ← selectLoop s.manager tokenBudget fuel ⟨s.buffers, s.roundRobinPosition, [], 0⟩
  return x.map fun x => ({ s with buffers := x.buffers, roundRobinPosition := x.position }, x.selected)

/-! ## `pack` -/

def updateRunProgress (s : MultiPacker F R) (runIdx numSamples numTokens : Nat) : Except PyError (MultiPacker F R) := do
  let progress ← getItem s.manager.progress runIdx
  let consumed := (s.buffers runIdx).head?.all fun x => decide (progress.step < x.2)
  let m := s.manager
  return { s with manager := { m with
    progress := m.progress.insert runIdx ⟨if consumed then progress.step + 1 else progress.step,
      progress.totalTokens + numTokens, progress.totalSamples + numSamples⟩
    readyToUpdate := if consumed then m.readyToUpdate.set runIdx true else m.readyToUpdate } }

end MultiPacker

/-- `per_run_stats`: the numbers of samples and tokens of every run. -/
def perRunStats (selected : List (Nat × TrainingSample R × Nat)) : Dict Nat (Nat × Nat) :=
  selected.foldl (fun stats x =>
    let cur := (stats.get? x.1).getD (0, 0)
    stats.insert x.1 (cur.1 + 1, cur.2 + x.2.1.length)) ∅

def samplesByRun (selected : List (Nat × TrainingSample R × Nat)) : Dict Nat (List (TrainingSample R)) :=
  Dict.appendAll ∅ (selected.map fun x => (x.1, x.2.1))

/-- `all_micro_batches`: the runs are packed one after the other, in the order of their indices. -/
def microBatchGrid [Zero R] [One R] (config : PackerConfig F) (maxRuns : Nat)
    (selected : List (Nat × TrainingSample R × Nat)) : Except PyException (List (List (MicroBatch R))) :=
  let samples := samplesByRun selected
  (samples.keys.insertionSort (· ≤ ·)).foldlM (fun allMicroBatches runIdx => do
    let runSamples := (samples.get? runIdx).getD []
    let grid ← prepareBatch runSamples config.seqLen config.dpWorldSize (List.replicate runSamples.length runIdx) maxRuns
      config.padToMultipleOf
    return allMicroBatches.mapIdx fun workerIdx row => row ++ grid.getD workerIdx [])
    (List.replicate config.dpWorldSize [])

/-- An exception whose message is not modelled. -/
def withoutMessage {α : Type} (x : Except PyError α) : Except PyException α := x.mapError fun kind => ⟨kind, ""⟩

namespace MultiPacker

/-- The progress of the runs that samples were selected from. -/
def updateProgress (s : MultiPacker F R) (selected : List (Nat × TrainingSample R × Nat)) :
    Except PyError (MultiPacker F R) :=
  (perRunStats selected).entries.foldlM (fun s e => s.updateRunProgress e.1 e.2.1 e.2.2) s

/-- `pack` after its loop, with the samples it selected and the micro batches it sends. -/
def pack [Zero R] [One R] (config : PackerConfig F) (fuel : Nat) (s : MultiPacker F R) :
    Except PyException (Option (MultiPacker F R × List (Nat × TrainingSample R × Nat) × List (List (MicroBatch R)))) := do
  match ← withoutMessage (s.selectSamplesRoundRobin config.tokenBudget fuel) with
  | none => return none
  | some (s, selected) =>
      pyAssert (selected.length ≠ 0) "No samples selected"
      let s ← withoutMessage (s.updateProgress selected)
      let grid ← microBatchGrid config s.manager.maxRuns selected
      return some (s, selected, grid)

end MultiPacker

end AuroraRl.Trainer
