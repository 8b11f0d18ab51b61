import AuroraRl.Orchestrator.State

/-!
# Groups, requests and the rollout buffer

* `updateBuffer`, `sampleRollouts` : `Buffer.update` and `Buffer.sample_rollouts`;
* `dropGroup`, `scheduleRollout`, `scheduleNextRequest`, `fillInflightRequests` : the requests in flight;
* `collectRollout`, `collectFinished` : the body of the loop of `generate_batch` over the finished tasks;
* `cancelInflightRollouts`.
-/

namespace AuroraRl.Orchestrator
open Coroutine

variable {R : Type}

/-! ## The buffer -/

/-- The rollouts by example, in the order of the first one of each. -/
def rolloutsByExample [RolloutOutput R] (rollouts : List R) : Dict (String × Nat) (List R) :=
  rollouts.foldl (fun d r =>
    d.insert (RolloutOutput.exampleKey r) ((d.get? (RolloutOutput.exampleKey r)).getD [] ++ [r])) ∅

/-- `Buffer.update`: what it adds to the rollout buffer. -/
def updateBuffer [RolloutOutput R] (config : SchedulerConfig) (buffer rollouts : List R) : List R :=
  (rolloutsByExample rollouts).values.foldl (fun buffer exampleRollouts =>
    if config.onlineDifficultyFiltering ∧ RolloutOutput.extremeReward exampleRollouts then buffer
    else buffer ++ exampleRollouts) buffer

/-- `Buffer.sample_rollouts`: the latest rollouts and the buffer without them; `[-0:]` is everything. -/
def sampleRollouts (buffer : List R) (n : Nat) : List R × List R :=
  let n := min n buffer.length
  if n = 0 then (buffer, []) else (buffer.drop (buffer.length - n), buffer.take (buffer.length - n))

/-! ## Scheduling -/

def safeCancelAll (tasks : List TaskId) : Sched R Unit :=
  if tasks = [] then pure () else Coro.perform (Await.cancelAll tasks)

def SchedulerState.requestsOf (s : SchedulerState R) (groupId : GroupId) : List (TaskId × InflightRequest) :=
  s.inflightRequests.entries.filter fun e => e.2.groupId = some groupId

def SchedulerState.withoutGroup (s : SchedulerState R) (groupId : GroupId) : SchedulerState R :=
  { s with
    inflightRequests := s.inflightRequests.filter fun _ info => info.groupId ≠ some groupId
    groups := s.groups.erase groupId }

def rolloutCounts (requests : List (TaskId × InflightRequest)) : Nat :=
  Dict.totalOf (fun _ info => info.rolloutCount) requests

/-- `drop_group` up to its await. -/
def forgetGroup (groupId : GroupId) : Sched R (List (TaskId × InflightRequest)) := do
  let requests := (← Coro.getState).requestsOf groupId
  Coro.modify (·.withoutGroup groupId)
  return requests

def dropGroup (groupId : GroupId) : Sched R Nat := do
  let requests ← forgetGroup groupId
  safeCancelAll (requests.map Prod.fst)
  return rolloutCounts requests

/-- How many rollouts the next request of a group is for. -/
def requestSize (config : SchedulerConfig) (group : GroupState R) : Nat :=
  if config.requiresGroupScoring group.groupExample.envName then group.rolloutsToSchedule else 1

/-- `schedule_rollout` once it has its client: the new task and its record. -/
def SchedulerState.startRequest (config : SchedulerConfig) (s : SchedulerState R) (groupId : GroupId)
    (group : GroupState R) (client : ClientConfig) : SchedulerState R :=
  { s with
    groups := s.groups.insert groupId { group with
      rolloutsToSchedule := group.rolloutsToSchedule - requestSize config group
      pinnedClient := some client }
    inflightRequests := s.inflightRequests.insert s.nextTask
      ⟨0, client, group.groupExample.envName, some groupId, requestSize config group⟩
    nextTask := s.nextTask + 1
    events := s.events ++ [.scheduled s.nextTask groupId s.ckptStep] }

/-- `schedule_rollout` past the rate limiter. -/
def scheduleAdmitted (config : SchedulerConfig) (groupId : GroupId) : Sched R Unit := do
  match (← Coro.getState).groups.get? groupId with
  | none => return
  | some group =>
    if group.rolloutsToSchedule = 0 then return
    match group.pinnedClient with
    | some client => Coro.modify (·.startRequest config groupId group client)
    | none =>
      let client ← Coro.ofExcept (← Coro.perform Await.selectLeastLoadedClient)
      match (← Coro.getState).groups.get? groupId with
      | none => return
      | some group => Coro.modify (·.startRequest config groupId group client)

def scheduleRollout (config : SchedulerConfig) (groupId : GroupId) : Sched R Unit := do
  if config.rateLimited then Coro.perform Await.acquire
  scheduleAdmitted config groupId

def SchedulerState.addGroup (config : SchedulerConfig) (s : SchedulerState R) (ex : Example) : SchedulerState R :=
  { s with
    groups := s.groups.insert s.nextGroupId ⟨ex, config.groupSize, [], none, 0⟩
    nextGroupId := s.nextGroupId + 1 }

/-- The first group with rollouts to schedule that fit. -/
def SchedulerState.nextGroup? (config : SchedulerConfig) (s : SchedulerState R) : Option (GroupId × GroupState R) :=
  s.groups.entries.find? fun e => 0 < e.2.rolloutsToSchedule ∧
    requestSize config e.2 ≤ config.maxInflightRollouts - s.inflightRolloutCount

def scheduleNextRequest (config : SchedulerConfig) : Sched R Bool := do
  let s ← Coro.getState
  let remainingCapacity := config.maxInflightRollouts - s.inflightRolloutCount
  if remainingCapacity = 0 then return false
  match s.nextGroup? config with
  | some (groupId, _) =>
    scheduleRollout config groupId
    return true
  | none =>
    if remainingCapacity < config.groupSize then return false
    let ex ← Coro.ofExcept (config.sampleExamples s.nextGroupId)
    Coro.modify (·.addGroup config ex)
    scheduleRollout config s.nextGroupId
    return true

/-- A loop that has used up its turns never goes on. -/
def exhausted {ρ : Type} : Sched R ρ := do
  let x ← Coro.perform Await.exhausted
  nomatch x

def fillInflightRequests (config : SchedulerConfig) (fuel : Nat) : Sched R Unit :=
  Coro.iterate exhausted (fun () => do
    if ← scheduleNextRequest config then return .inl () else return .inr ()) fuel ()

/-! ## Finished rollouts -/

def SchedulerState.popRequest (s : SchedulerState R) (task : TaskId) : SchedulerState R :=
  { s with inflightRequests := s.inflightRequests.erase task }

/-- The rollouts of a batch so far, and how much they count. -/
structure BatchProgress (R : Type) where
  rollouts : List R
  progress : Nat

variable [RolloutOutput R]

/-- Rollouts without an error and with a trajectory, under the name of their environment. -/
def validRollouts (envName : String) (rollouts : List R) : List R :=
  (rollouts.filter fun r => RolloutOutput.error r = false ∧ 0 < RolloutOutput.trajectoryLength r).map
    (RolloutOutput.setEnvName envName)

def getBatchProgressIncrement (config : SchedulerConfig) (rollouts : List R) : Nat :=
  if config.tokenBatchSize.isSome then rollouts.foldl (fun n r => n + RolloutOutput.seqLen r) 0 else rollouts.length

/-- A group leaves the scheduler for the buffer, and the batch takes the latest rollouts of the buffer. -/
def acceptGroup (config : SchedulerConfig) (groupId : GroupId) (completed : List R) (batch : BatchProgress R) :
    Sched R (BatchProgress R) := do
  let s ← Coro.getState
  let (accepted, rest) := sampleRollouts (updateBuffer config s.rolloutBuffer completed) completed.length
  Coro.setState { s with
    groups := s.groups.erase groupId
    rolloutBuffer := rest
    events := s.events ++ [.finalized groupId completed] }
  return ⟨batch.rollouts ++ accepted, batch.progress + getBatchProgressIncrement config accepted⟩

/-- The rollouts a request of a live group returned. -/
def collectReturned (config : SchedulerConfig) (info : InflightRequest) (groupId : GroupId) (group : GroupState R)
    (rollouts : List R) (batch : BatchProgress R) : Sched R (BatchProgress R) := do
  let valid := validRollouts info.envName rollouts
  let numFailed := rollouts.length - valid.length
  let group := { group with failedRollouts := group.failedRollouts + numFailed }
  if 0 < numFailed ∧ config.requiresGroupScoring info.envName then
    Coro.modify fun s => { s with groups := s.groups.insert groupId group }
    let _ ← dropGroup groupId
    return batch
  let group := { group with completedRollouts := group.completedRollouts ++ valid }
  Coro.modify fun s => { s with groups := s.groups.insert groupId group }
  if group.completedRollouts.length + group.failedRollouts < config.groupSize then return batch
  if group.completedRollouts = [] then
    Coro.modify fun s => { s with groups := s.groups.erase groupId }
    return batch
  acceptGroup config groupId group.completedRollouts batch

/-- One turn of the loop over the finished tasks. -/
def collectRollout (config : SchedulerConfig) (task : TaskId) (batch : BatchProgress R) : Sched R (BatchProgress R) := do
  match (← Coro.getState).inflightRequests.get? task with
  | none => return batch
  | some info =>
    Coro.modify (·.popRequest task)
    match info.groupId with
    | none => return batch
    | some groupId =>
      let s ← Coro.getState
      match s.groups.get? groupId with
      | none => return batch
      | some group =>
        match s.results.get? task with
        | some (.returned rollouts) => collectReturned config info groupId group rollouts batch
        | _ =>
          let _ ← dropGroup groupId
          return batch

/-- The loop over the finished tasks, which a full batch breaks. -/
def collectFinished (config : SchedulerConfig) : List TaskId → BatchProgress R → Sched R (BatchProgress R)
  | [], batch => return batch
  | task :: tasks, batch =>
    if config.batchTarget ≤ batch.progress then return batch
    else do
      let batch ← collectRollout config task batch
      collectFinished config tasks batch

omit [RolloutOutput R] in
def cancelInflightRollouts : Sched R Unit := do
  let requests := (← Coro.getState).inflightRequests.entries
  safeCancelAll (requests.map Prod.fst)
  Coro.modify fun s => { s with
    inflightRequests := ∅
    groups := ∅
    cancelledRolloutsCount := s.cancelledRolloutsCount + rolloutCounts requests }

end AuroraRl.Orchestrator
