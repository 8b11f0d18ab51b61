import AuroraRl.Lib.Protocol
import AuroraRl.Orchestrator.PolicyUpdate

/-!
# The scheduler on its event loop

* `generateBatch`, `evaluate` : the calls of the orchestrator;
* `Job`, `run` : what may run on the event loop, or change the files next to it;
* `EventLoop` : what starts when: one call of the orchestrator at a time, and tasks that were created;
* `scheduler`, `schedulerSystem` : the pool of all of them.
-/

namespace AuroraRl.Orchestrator
open Coroutine Transition

variable {R : Type} [RolloutOutput R]

/-! ## The calls of the orchestrator -/

omit [RolloutOutput R] in
/-- `safe_cancel` of a task of the scheduler. -/
def safeCancel (task : TaskId) : Sched R Unit := do
  Coro.modify fun s => { s with cancelling := s.cancelling ++ [task] }
  let _ ← Coro.perform (Await.join none task)

omit [RolloutOutput R] in
/-- `asyncio.wait(tasks, return_when=FIRST_COMPLETED)`, which refuses an empty set. -/
def waitFirstCompleted (tasks : List TaskId) : Sched R (List TaskId) := do
  Coro.modify (·.record (.waited tasks))
  if tasks = [] then throw .valueError
  let finished ← Coro.perform (Await.wait tasks)
  Coro.modify (·.record (.woke finished))
  return finished

omit [RolloutOutput R] in
def waitReady : Sched R Unit := do
  let s ← Coro.getState
  if s.checkpointReady = false then Coro.perform (Await.ready s.readySets)

/-- The loop of `generate_batch`. -/
def fillBatch (config : SchedulerConfig) (fuel : Nat) : Sched R (BatchProgress R) :=
  Coro.iterate exhausted (fun batch => do
    if config.batchTarget ≤ batch.progress then return .inr batch
    fillInflightRequests config fuel
    let finished ← waitFirstCompleted (← Coro.getState).inflightRequests.keys
    waitReady
    let batch ← collectFinished config finished batch
    return .inl batch) fuel ⟨[], 0⟩

omit [RolloutOutput R] in
def finalizeBatchRollouts (config : SchedulerConfig) (rollouts : List R) : List R :=
  match config.batchSize with
  | none => rollouts
  | some batchSize => rollouts.take batchSize

def generateBatch (config : SchedulerConfig) (fuel step : Nat) : Sched R Unit := do
  Coro.modify fun s => { s with step := step }
  match (← Coro.getState).updatePolicyTask with
  | some task => safeCancel task
  | none => pure ()
  maybeUpdatePolicy config fuel none true
  let task ← createTask .updateLoop
  Coro.modify fun s => { s.record (.passedBarrier s.step s.ckptStep) with updatePolicyTask := some task }
  let batch ← fillBatch config fuel
  fillInflightRequests config fuel
  Coro.modify (·.record (.returned (finalizeBatchRollouts config batch.rollouts)))

omit [RolloutOutput R] in
/-- The evaluation section of `orchestrate`. -/
def evaluate (cancelInflightRolloutsOnEval : Bool) : Sched R Unit := do
  Coro.modify fun s => s.clearReady.record .evalStarted
  if cancelInflightRolloutsOnEval then cancelInflightRollouts
  let evaluated ← Coro.perform Await.evaluate
  Coro.ofExcept evaluated
  Coro.modify fun s => s.setReady.record .evalEnded

/-! ## The event loop -/

/-- The calls of the orchestrator, the tasks of the scheduler, the ends of rollouts, and the trainer's broadcasts. -/
inductive Job (R : Type)
  | generateBatch (fuel step : Nat)
  | evaluate (cancelInflightRolloutsOnEval : Bool)
  | policyTask (fuel : Nat) (self : TaskId) (task : PolicyTask)
  | rolloutDone (task : TaskId) (result : RolloutResult R)
  | broadcast (step : Nat) (dir : BroadcastDir)
  | cleanBroadcast (step : Nat)

omit [RolloutOutput R] in
/-- The orchestrator awaits a call. -/
def call (body : Sched R Unit) : Sched R Unit := do
  Coro.modify fun s => { s with calling := true }
  let outcome ← Coro.attempt body
  Coro.modify fun s => { s with calling := false }
  Coro.ofExcept outcome

/-- What a job runs. -/
def run (config : SchedulerConfig) : Job R → Sched R Unit
  | .generateBatch fuel step => call (generateBatch config fuel step)
  | .evaluate cancel => call (evaluate cancel)
  | .policyTask fuel self task => runPolicyTask config fuel self task
  | .rolloutDone task result => Coro.modify fun s => { s with results := s.results.insert task result }
  | .broadcast step dir => Coro.modify fun s => { s with broadcasts := s.broadcasts.insert step dir }
  | .cleanBroadcast step => Coro.modify fun s => { s with broadcasts := s.broadcasts.erase step }

/-- `run_rollout` returns one rollout and `run_group` as many as it was asked for. -/
def RolloutResult.Meets (result : RolloutResult R) (task : TaskId) (info : InflightRequest) : Prop :=
  ∀ rollouts, result = .returned rollouts →
    rollouts.length = info.rolloutCount ∧ ∀ r ∈ rollouts, RolloutOutput.request r = task

abbrev SchedulerAction (R : Type) := Action Await Answer (Job R)

/-- The orchestrator makes one call at a time, a task starts after its creation, and a rollout task ends once. -/
def EventLoop (action : SchedulerAction R) (s : SchedulerState R) : Prop :=
  match action with
  | .arrive (.generateBatch _ _) => s.calling = false
  | .arrive (.evaluate _) => s.calling = false
  | .arrive (.policyTask _ self task) => (self, task) ∈ s.created
  | .arrive (.rolloutDone task result) =>
      s.results.get? task = none ∧ (∃ groupId salt, .scheduled task groupId salt ∈ s.events) ∧
        ∀ info, s.inflightRequests.get? task = some info → result.Meets task info
  | _ => True

/-- A scheduler before its first call, over whatever files and rollouts in the buffer there are. -/
structure Idle (s : SchedulerState R) : Prop where
  checkpointReady : s.checkpointReady = true
  groups : s.groups = ∅
  inflightRequests : s.inflightRequests = ∅
  nextGroupId : s.nextGroupId = 0
  updatePolicyTask : s.updatePolicyTask = none
  inflightPolicyUpdateTask : s.inflightPolicyUpdateTask = none
  inflightStageTask : s.inflightStageTask = none
  inflightStageStep : s.inflightStageStep = none
  created : s.created = []
  cancelling : s.cancelling = []
  finished : s.finished = ∅
  results : s.results = ∅
  dropping : s.dropping = []
  calling : s.calling = false
  events : s.events = []

def scheduler (config : SchedulerConfig) : Pool (SchedulerState R) Await Answer PyError Unit (Job R) where
  init := Idle
  admits _ := True
  program := run config
  world := World

abbrev SchedulerConfiguration (R : Type) := Config (SchedulerState R) Await Answer PyError Unit (Job R)

abbrev SchedulerLabel (R : Type) := Label Await Answer PyError Unit (Job R)

/-- The runs of the scheduler that the event loop allows. -/
def schedulerSystem (config : SchedulerConfig) : System (SchedulerConfiguration R) (SchedulerLabel R) :=
  (scheduler config).assuming EventLoop

end AuroraRl.Orchestrator
