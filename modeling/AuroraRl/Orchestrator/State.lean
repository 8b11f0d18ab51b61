import AuroraRl.Lib.Coroutine
import AuroraRl.Lib.Dict
import AuroraRl.Lib.Python

/-!
# The rollout scheduler: configuration, state and awaits

* `BatchConfig`, `resolveBatching` : the batching options and their validator;
* `SchedulerConfig` : what the scheduler reads of its configuration, with what the validator guarantees;
* `GroupState`, `InflightRequest` : the entries of `groups` and `inflight_requests`;
* `SchedulerState` : the fields of a `Scheduler`, the rollouts kept in the buffer, the tasks of the event loop, and the
  broadcast directory; statistics and elapsed times are left out;
* `Await`, `Answer`, `World` : what the scheduler awaits, and what may come back.
-/

namespace AuroraRl.Orchestrator
open Coroutine

/-- An `asyncio.Task`. -/
abbrev TaskId := Nat

abbrev GroupId := Nat

/-- What the scheduler and its buffer read of a rollout; `request` is the task that ran it. -/
class RolloutOutput (R : Type) where
  error : R → Bool
  trajectoryLength : R → Nat
  seqLen : R → Nat
  setEnvName : String → R → R
  exampleKey : R → String × Nat
  /-- The mean reward is 0 or 1. -/
  extremeReward : List R → Bool
  request : R → TaskId
  request_setEnvName : ∀ name r, request (setEnvName name r) = request r

/-! ## Configuration -/

structure BatchConfig (F : Type) where
  batchSize : Option Nat
  tokenBatchSize : Option Nat
  oversamplingFactor : Option F
  maxInflightRollouts : Option Nat
  groupSize : Nat
  groupSize_pos : 0 < groupSize

/-- The middle of `resolve_batching`; `scale n f` is `int(n * f)`. -/
def resolveMaxInflightRollouts {F : Type} (scale : Nat → F → Nat) (config : BatchConfig F) :
    Except PyException (BatchConfig F) :=
  match config.tokenBatchSize with
  | some _ => do
    raiseIf config.oversamplingFactor.isSome "oversampling_factor can only be set when batch_size is set"
    raiseIf config.maxInflightRollouts.isNone "max_inflight_rollouts must be set when token_batch_size is set"
    return config
  | none => do
    let batchSize := config.batchSize.getD 128
    raiseIf (batchSize % config.groupSize ≠ 0) "Batch size must be divisible by the number of samples per problem"
    let resolved := max config.groupSize ((config.oversamplingFactor.map (scale batchSize)).getD batchSize)
    raiseIf (config.oversamplingFactor.isSome ∧ config.maxInflightRollouts.isSome ∧
      config.maxInflightRollouts ≠ some resolved) "max_inflight_rollouts conflicts with oversampling_factor * batch_size"
    return { config with
      batchSize := some batchSize
      maxInflightRollouts := some (config.maxInflightRollouts.getD resolved) }

def resolveBatching {F : Type} (scale : Nat → F → Nat) (config : BatchConfig F) : Except PyException (BatchConfig F) := do
  raiseIf (config.batchSize.isSome ∧ config.tokenBatchSize.isSome)
    "Set exactly one of batch_size or token_batch_size"
  let config ← resolveMaxInflightRollouts scale config
  raiseIf (config.maxInflightRollouts.any (· < config.groupSize))
    "max_inflight_rollouts must be at least the number of rollouts per example"
  return config

inductive WeightUpdateMode
  | full
  | delta
  deriving DecidableEq, Repr

inductive StageTransport
  | sharedFs
  | httpUpload
  | chunkedUpload
  | streamingUpload
  deriving DecidableEq, Repr

structure ClientConfig where
  apiBaseUrl : String
  dpRank : Option String
  deriving DecidableEq

structure Example where
  envName : String
  deriving DecidableEq

/-- What the scheduler reads of its configuration; `sampleExamples i` is what the buffer draws for the `i`-th group. -/
structure SchedulerConfig where
  batchSize : Option Nat
  tokenBatchSize : Option Nat
  groupSize : Nat
  maxInflightRollouts : Nat
  maxOffPolicySteps : Nat
  rateLimited : Bool
  requiresGroupScoring : String → Bool
  onlineDifficultyFiltering : Bool
  sampleExamples : Nat → Except PyError Example
  mode : WeightUpdateMode
  stageCommit : Bool
  backgroundStage : Bool
  stageTransport : StageTransport
  loraName : Option String
  groupSize_pos : 0 < groupSize
  fits : groupSize ≤ maxInflightRollouts

section Batching

variable {F : Type} {scale : Nat → F → Nat} {config resolved : BatchConfig F}

/-- A group fits into what the validator resolves. -/
theorem fits_of_resolveBatching (h : resolveBatching scale config = .ok resolved) :
    resolved.groupSize ≤ resolved.maxInflightRollouts.getD 0 := by
  unfold resolveBatching at h
  obtain ⟨_, -, h⟩ := bind_eq_ok.1 h
  obtain ⟨config', hconfig', h⟩ := bind_eq_ok.1 h
  obtain ⟨_, hfits, h⟩ := bind_eq_ok.1 h
  obtain rfl : config' = resolved := Except.ok.inj h
  have hsome : config'.maxInflightRollouts.isSome = true := by
    unfold resolveMaxInflightRollouts at hconfig'
    split at hconfig'
    · obtain ⟨_, -, hconfig'⟩ := bind_eq_ok.1 hconfig'
      obtain ⟨_, hset, hconfig'⟩ := bind_eq_ok.1 hconfig'
      obtain rfl := Except.ok.inj hconfig'
      simpa [Option.isSome_iff_ne_none] using raiseIf_eq_ok.1 hset
    · obtain ⟨_, -, hconfig'⟩ := bind_eq_ok.1 hconfig'
      obtain ⟨_, -, hconfig'⟩ := bind_eq_ok.1 hconfig'
      obtain rfl := Except.ok.inj hconfig'
      rfl
  obtain ⟨n, hn⟩ := Option.isSome_iff_exists.1 hsome
  have hle := raiseIf_eq_ok.1 hfits
  rw [hn] at hle ⊢
  simpa using hle

/-- The options under a validated batching configuration. -/
def SchedulerConfig.withBatching (options : SchedulerConfig) (h : resolveBatching scale config = .ok resolved) :
    SchedulerConfig :=
  { options with
    batchSize := resolved.batchSize
    tokenBatchSize := resolved.tokenBatchSize
    groupSize := resolved.groupSize
    maxInflightRollouts := resolved.maxInflightRollouts.getD 0
    groupSize_pos := resolved.groupSize_pos
    fits := fits_of_resolveBatching h }

end Batching

def SchedulerConfig.batchTarget (config : SchedulerConfig) : Nat := config.tokenBatchSize.getD (config.batchSize.getD 0)

/-! ## State -/

structure InflightRequest where
  offPolicySteps : Nat
  clientConfig : ClientConfig
  envName : String
  groupId : Option GroupId
  rolloutCount : Nat
  deriving DecidableEq

structure GroupState (R : Type) where
  groupExample : Example
  rolloutsToSchedule : Nat
  completedRollouts : List R
  pinnedClient : Option ClientConfig
  failedRollouts : Nat

/-- How a rollout task ended. -/
inductive RolloutResult (R : Type)
  | returned (rollouts : List R)
  | raised
  | cancelled

structure StagedPolicy where
  step : Nat
  mode : WeightUpdateMode
  deriving DecidableEq

/-- The tasks the scheduler creates for itself. -/
inductive PolicyTask
  | updateLoop
  | apply (step : Nat)
  | stage (step : Nat)
  deriving DecidableEq

/-- The directory of one broadcast step. -/
structure BroadcastDir where
  stable : Bool
  stream : Bool
  deriving DecidableEq

/-- What happened, oldest first; `ageing` carries the requests in flight when an ageing pass begins, `aged` ends it.
`committed` is a commit of the scheduler's that the inference pool acknowledged; one that raised may have reached some of
its endpoints. -/
inductive SchedulerEvent (R : Type)
  | scheduled (task : TaskId) (groupId : GroupId) (cacheSalt : Nat)
  | waited (tasks : List TaskId)
  | woke (tasks : List TaskId)
  | updated (step : Nat)
  | ageing (requests : List (TaskId × InflightRequest))
  | dropped (groupId : GroupId)
  | aged
  | finalized (groupId : GroupId) (rollouts : List R)
  | committed (version : String)
  | passedBarrier (step ckptStep : Nat)
  | evalStarted
  | evalEnded
  | returned (rollouts : List R)

structure SchedulerState (R : Type) where
  step : Nat
  ckptStep : Nat
  checkpointReady : Bool
  /-- How often `checkpoint_ready.set()` released its waiters. -/
  readySets : Nat
  groups : Dict GroupId (GroupState R)
  inflightRequests : Dict TaskId InflightRequest
  nextGroupId : GroupId
  updatePolicyTask : Option TaskId
  inflightPolicyUpdateTask : Option TaskId
  inflightStageTask : Option TaskId
  inflightStageStep : Option Nat
  cancelledRolloutsCount : Nat
  rolloutBuffer : List R
  nextTask : TaskId
  created : List (TaskId × PolicyTask)
  cancelling : List TaskId
  finished : Dict TaskId (Except PyError (Option StagedPolicy))
  results : Dict TaskId (RolloutResult R)
  /-- The groups whose `drop_group` has been gathered and has not started. -/
  dropping : List GroupId
  /-- The orchestrator awaits a call of the scheduler. -/
  calling : Bool
  broadcasts : Dict Nat BroadcastDir
  events : List (SchedulerEvent R)

namespace SchedulerState

variable {R : Type}

def inflightRolloutCount (s : SchedulerState R) : Nat := s.inflightRequests.total fun _ info => info.rolloutCount

def record (s : SchedulerState R) (event : SchedulerEvent R) : SchedulerState R := { s with events := s.events ++ [event] }

def setReady (s : SchedulerState R) : SchedulerState R := { s with checkpointReady := true, readySets := s.readySets + 1 }

def clearReady (s : SchedulerState R) : SchedulerState R := { s with checkpointReady := false }

def latestCkptStep (s : SchedulerState R) : Option Nat :=
  ((s.broadcasts.entries.filter fun e => e.2.stable).map Prod.fst).max?

end SchedulerState

/-! ## Awaits -/

/-- The files of a broadcast step that are waited for. -/
inductive BroadcastFile
  | stable
  | deltaStream
  deriving DecidableEq

structure StageKwargs where
  upload : Bool
  uploadMethod : Option String
  donePath : Bool
  deriving DecidableEq

inductive Await
  | acquire
  | selectLeastLoadedClient
  | wait (tasks : List TaskId)
  | ready (sets : Nat)
  | cancelAll (tasks : List TaskId)
  | startTask (pending : List GroupId)
  | sleep (task : TaskId)
  | join (waiter : Option TaskId) (task : TaskId)
  | waitForPath (step : Nat) (file : BroadcastFile)
  | stageWeights (step : Nat) (version : String) (mode : WeightUpdateMode) (baseVersion : Option String)
      (kwargs : StageKwargs)
  | commitWeights (version : String) (mode : WeightUpdateMode)
  | updateWeights (step : Nat) (mode : WeightUpdateMode) (loraName : Option String)
  | evaluate
  | exhausted
  deriving DecidableEq

abbrev Answer : Await → Type
  | .acquire => Unit
  | .selectLeastLoadedClient => Except PyError ClientConfig
  | .wait _ => List TaskId
  | .ready _ => Unit
  | .cancelAll _ => Unit
  | .startTask _ => GroupId
  | .sleep _ => Except PyError Unit
  | .join _ _ => Except PyError (Except PyError (Option StagedPolicy))
  | .waitForPath _ _ => Unit
  | .stageWeights _ _ _ _ _ => Except PyError Unit
  | .commitWeights _ _ => Except PyError Unit
  | .updateWeights _ _ _ => Except PyError Unit
  | .evaluate => Except PyError Unit
  | .exhausted => Empty

abbrev Sched (R ρ : Type) := Coro (SchedulerState R) Await Answer PyError ρ

def BroadcastDir.has (dir : BroadcastDir) : BroadcastFile → Bool
  | .stable => dir.stable
  | .deltaStream => dir.stream

/-- What an await may come back with; only an acknowledged commit leaves a trace. -/
def World {R : Type} (s : SchedulerState R) : (e : Await) → Answer e → SchedulerState R → Prop
  | .wait tasks, finished, s' =>
      finished.Nodup ∧ finished ≠ [] ∧ (∀ t, t ∈ finished ↔ t ∈ tasks ∧ s.results.contains t = true) ∧ s' = s
  | .ready sets, _, s' => sets < s.readySets ∧ s' = s
  | .cancelAll tasks, _, s' => (∀ t ∈ tasks, s.results.contains t = true) ∧ s' = s
  | .startTask pending, groupId, s' => groupId ∈ pending ∧ s' = s
  | .sleep task, .error x, s' => x = .cancelledError ∧ task ∈ s.cancelling ∧ s' = s
  | .join _ task, .ok outcome, s' => s.finished.get? task = some outcome ∧ s' = s
  | .join waiter _, .error x, s' => x = .cancelledError ∧ (∃ task ∈ waiter, task ∈ s.cancelling) ∧ s' = s
  | .waitForPath step file, _, s' => (∃ dir, s.broadcasts.get? step = some dir ∧ dir.has file = true) ∧ s' = s
  | .commitWeights version _, .ok _, s' => s' = s.record (.committed version)
  | _, _, s' => s' = s

end AuroraRl.Orchestrator
