import Mathlib.Data.List.Dedup
import AuroraRl.Orchestrator.Rollouts

/-!
# Policy updates

* `computeNextCkptStep` : the version to update to;
* `updateOffPolicy` : `_update_off_policy`; the drops it gathers start one after the other, in some order;
* `applyPolicyUpdate`, `stagePolicyUpdate`, `commitStagedPolicyUpdate` : the two update protocols;
* `maybeUpdatePolicy`, `updatePolicyLoop` : who starts them;
* `runPolicyTask` : a task of the event loop from its first step to its outcome.
-/

namespace AuroraRl.Orchestrator
open Coroutine

variable {R : Type}

/-! ## Configuration -/

def SchedulerConfig.usesBackgroundStage (config : SchedulerConfig) : Bool := config.stageCommit && config.backgroundStage

def stageUploadKwargs (config : SchedulerConfig) : Except PyError StageKwargs :=
  match config.stageTransport with
  | .sharedFs => .ok ⟨false, none, false⟩
  | transport =>
    if config.mode ≠ .delta then .error .valueError
    else
      match transport with
      | .chunkedUpload => .ok ⟨true, some "chunked", false⟩
      | .streamingUpload => .ok ⟨true, some "streaming", false⟩
      | _ => .ok ⟨true, none, false⟩

def baseVersion (config : SchedulerConfig) (step : Nat) : Option String :=
  if config.mode = .delta then some (toString (step - 1)) else none

/-- The file `_stage_ready_path` names. -/
def stageReadyFile (config : SchedulerConfig) : BroadcastFile :=
  if config.stageTransport = .streamingUpload ∧ config.mode = .delta then .deltaStream else .stable

def computeNextCkptStep (config : SchedulerConfig) (s : SchedulerState R) : Nat :=
  let targetStep := max (s.step - 1) (s.latestCkptStep.getD 0)
  if config.mode = .delta then min targetStep (s.ckptStep + 1) else targetStep

/-! ## Ageing -/

/-- The groups with a request that has seen enough updates. -/
def SchedulerState.staleGroupIds (config : SchedulerConfig) (s : SchedulerState R) : List GroupId :=
  (s.inflightRequests.values.filterMap fun info =>
    if config.maxOffPolicySteps ≤ info.offPolicySteps then info.groupId else none).dedup

theorem SchedulerState.mem_staleGroupIds {config : SchedulerConfig} {s : SchedulerState R} {groupId : GroupId} :
    groupId ∈ s.staleGroupIds config ↔ ∃ task info, s.inflightRequests.get? task = some info ∧
      info.groupId = some groupId ∧ config.maxOffPolicySteps ≤ info.offPolicySteps := by
  unfold SchedulerState.staleGroupIds Dict.values
  simp only [List.mem_dedup, List.mem_filterMap, List.mem_map, Prod.exists, exists_eq_right, Option.ite_none_right_eq_some]
  constructor
  · rintro ⟨info, ⟨task, hmem⟩, hage, hgroupId⟩
    exact ⟨task, info, (Dict.mem_entries_iff _ _ _).1 hmem, hgroupId, hage⟩
  · rintro ⟨task, info, hinfo, hgroupId, hage⟩
    exact ⟨info, ⟨task, (Dict.mem_entries_iff _ _ _).2 hinfo⟩, hage, hgroupId⟩

/-- The requests of no stale group. -/
def SchedulerState.tasksToIncrement (config : SchedulerConfig) (s : SchedulerState R) : List TaskId :=
  (s.inflightRequests.entries.filter fun e => ∀ groupId ∈ e.2.groupId, groupId ∉ s.staleGroupIds config).map Prod.fst

theorem SchedulerState.mem_tasksToIncrement {config : SchedulerConfig} {s : SchedulerState R} {task : TaskId} :
    task ∈ s.tasksToIncrement config ↔ ∃ info, s.inflightRequests.get? task = some info ∧
      ∀ groupId ∈ info.groupId, groupId ∉ s.staleGroupIds config := by
  unfold SchedulerState.tasksToIncrement
  simp only [List.mem_map, List.mem_filter, Prod.exists, exists_and_right, exists_eq_right, decide_eq_true_eq]
  constructor
  · rintro ⟨info, hmem, hgroups⟩
    exact ⟨info, (Dict.mem_entries_iff _ _ _).1 hmem, hgroups⟩
  · rintro ⟨info, hinfo, hgroups⟩
    exact ⟨info, (Dict.mem_entries_iff _ _ _).2 hinfo, hgroups⟩

/-- The requests among `tasks` that are still in flight have seen one update more. -/
def SchedulerState.incrementOffPolicy (s : SchedulerState R) (tasks : List TaskId) : SchedulerState R :=
  { s with inflightRequests := tasks.foldl (fun d task =>
      match d.get? task with
      | some info => d.insert task { info with offPolicySteps := info.offPolicySteps + 1 }
      | none => d) s.inflightRequests }

/-- The first steps of the gathered drops; which starts next is up to the event loop. -/
def startDrops : Nat → List GroupId → Sched R (List (TaskId × InflightRequest))
  | 0, _ => return []
  | n + 1, pending => do
    let groupId ← Coro.perform (Await.startTask pending)
    Coro.modify fun s => { s with dropping := s.dropping.erase groupId }.record (.dropped groupId)
    let requests ← forgetGroup groupId
    let others ← startDrops n (pending.erase groupId)
    return requests ++ others

def updateOffPolicy (config : SchedulerConfig) : Sched R Unit := do
  let s ← Coro.getState
  let staleGroupIds := s.staleGroupIds config
  let tasksToIncrement := s.tasksToIncrement config
  Coro.setState ({ s with dropping := staleGroupIds }.record (.ageing s.inflightRequests.entries))
  let removed ← startDrops staleGroupIds.length staleGroupIds
  -- the drops are tasks of their own, waited for even if they found nothing to cancel
  if staleGroupIds ≠ [] then Coro.perform (Await.cancelAll (removed.map Prod.fst))
  Coro.modify (·.incrementOffPolicy tasksToIncrement)
  Coro.modify fun s =>
    { s with cancelledRolloutsCount := s.cancelledRolloutsCount + rolloutCounts removed }.record .aged

/-- The inference pool has the version of `step`. -/
def SchedulerState.advance (s : SchedulerState R) (step : Nat) : SchedulerState R :=
  ({ s with ckptStep := step }.record (.updated step)).setReady

/-! ## Updating in one go -/

def updateInferenceWeights (config : SchedulerConfig) (step : Nat) : Sched R Unit := do
  if config.stageCommit then
    if config.loraName.isSome then throw .valueError
    let kwargs ← Coro.ofExcept (stageUploadKwargs config)
    let staged ← Coro.perform (Await.stageWeights step (toString step) config.mode (baseVersion config step) kwargs)
    Coro.ofExcept staged
    let committed ← Coro.perform (Await.commitWeights (toString step) config.mode)
    Coro.ofExcept committed
  else
    let updated ← Coro.perform (Await.updateWeights step config.mode config.loraName)
    Coro.ofExcept updated

def applyPolicyUpdate (config : SchedulerConfig) (nextCkptStep : Nat) : Sched R Unit := do
  let checkpointReadyCleared := nextCkptStep = (← Coro.getState).step - 1
  let outcome ← Coro.attempt (do
    if checkpointReadyCleared then
      Coro.modify (·.clearReady)
      Coro.perform (Await.waitForPath nextCkptStep .stable)
    updateInferenceWeights config nextCkptStep
    Coro.modify (·.advance nextCkptStep)
    updateOffPolicy config)
  match outcome with
  | .ok () => return
  | .error x =>
    if checkpointReadyCleared ∧ x ≠ .cancelledError then Coro.modify (·.setReady)
    throw x

/-! ## Staging in the background -/

def stagePolicyUpdate (config : SchedulerConfig) (nextCkptStep : Nat) : Sched R StagedPolicy := do
  if config.loraName.isSome then throw .valueError
  Coro.perform (Await.waitForPath nextCkptStep (stageReadyFile config))
  let kwargs ← Coro.ofExcept (stageUploadKwargs config)
  let kwargs := if config.stageTransport = .streamingUpload then { kwargs with donePath := true } else kwargs
  let staged ← Coro.perform (Await.stageWeights nextCkptStep (toString nextCkptStep) config.mode
    (baseVersion config nextCkptStep) kwargs)
  Coro.ofExcept staged
  return ⟨nextCkptStep, config.mode⟩

def createTask (task : PolicyTask) : Sched R TaskId := do
  let s ← Coro.getState
  Coro.setState { s with nextTask := s.nextTask + 1, created := s.created ++ [(s.nextTask, task)] }
  return s.nextTask

def getOrStartStageTask (nextCkptStep : Nat) : Sched R TaskId := do
  let s ← Coro.getState
  match s.inflightStageTask with
  | some task =>
    if s.inflightStageStep = some nextCkptStep ∨ s.finished.contains task = false then return task
  | none => pure ()
  let task ← createTask (.stage nextCkptStep)
  Coro.modify fun s => { s with inflightStageTask := some task, inflightStageStep := some nextCkptStep }
  return task

/-- The end of `_commit_staged_policy_update`, however it ends. -/
def SchedulerState.forgetStage (s : SchedulerState R) (stageTask : TaskId) : SchedulerState R :=
  if s.inflightStageTask = some stageTask then { s with inflightStageTask := none, inflightStageStep := none } else s

def commitStagedPolicyUpdate (config : SchedulerConfig) (stageTask : TaskId) : Sched R Unit := do
  Coro.modify (·.clearReady)
  let outcome ← Coro.attempt (do
    let joined ← Coro.perform (Await.join none stageTask)
    match ← Coro.ofExcept (joined.bind id) with
    | none => throw .attributeError
    | some stagedPolicy =>
      let committed ← Coro.perform (Await.commitWeights (toString stagedPolicy.step) stagedPolicy.mode)
      Coro.ofExcept committed
      Coro.modify (·.advance stagedPolicy.step)
      updateOffPolicy config)
  match outcome with
  | .ok () => Coro.modify (·.forgetStage stageTask)
  | .error x =>
    if x ≠ .cancelledError then Coro.modify (·.setReady)
    Coro.modify (·.forgetStage stageTask)
    throw x

/-! ## Starting updates -/

/-- `_get_or_start_policy_update_task`; nobody awaits anything under its lock, so that taking it never waits. -/
def getOrStartPolicyUpdateTask (nextCkptStep : Nat) : Sched R TaskId := do
  let s ← Coro.getState
  match s.inflightPolicyUpdateTask with
  | some task => if s.finished.contains task = false then return task
  | none => pure ()
  let task ← createTask (.apply nextCkptStep)
  Coro.modify fun s => { s with inflightPolicyUpdateTask := some task }
  return task

/-- `maybe_update_policy`, called by the task `caller` or by the orchestrator. -/
def maybeUpdatePolicy (config : SchedulerConfig) (fuel : Nat) (caller : Option TaskId) (block : Bool) : Sched R Unit :=
  Coro.iterate exhausted (fun () => do
    let s ← Coro.getState
    let nextCkptStep := computeNextCkptStep config s
    if nextCkptStep ≤ s.ckptStep then return .inr ()
    if config.usesBackgroundStage then
      let stageTask ← getOrStartStageTask nextCkptStep
      if block = false then return .inr ()
      commitStagedPolicyUpdate config stageTask
      return .inl ()
    else
      let task ← getOrStartPolicyUpdateTask nextCkptStep
      let joined ← Coro.perform (Await.join caller task)
      let _ ← Coro.ofExcept (joined.bind id)
      return .inl ()) fuel ()

/-- `update_policy_loop`, run as the task `self`. -/
def updatePolicyLoop (config : SchedulerConfig) (fuel : Nat) (self : TaskId) : Sched R Unit :=
  Coro.iterate exhausted (fun () => do
    maybeUpdatePolicy config fuel (some self) false
    let slept ← Coro.perform (Await.sleep self)
    Coro.ofExcept slept
    return .inl ()) fuel ()

/-! ## Tasks -/

def SchedulerState.start (s : SchedulerState R) (task : TaskId) : SchedulerState R :=
  { s with created := s.created.filter fun e => e.1 ≠ task }

/-- A task is done; the callback of an update clears the field that names it. -/
def SchedulerState.finish (s : SchedulerState R) (task : TaskId) (outcome : Except PyError (Option StagedPolicy)) :
    SchedulerState R :=
  { s with
    finished := s.finished.insert task outcome
    inflightPolicyUpdateTask := if s.inflightPolicyUpdateTask = some task then none else s.inflightPolicyUpdateTask }

/-- What a task of the scheduler runs. -/
def policyTaskBody (config : SchedulerConfig) (fuel : Nat) (self : TaskId) : PolicyTask → Sched R (Option StagedPolicy)
  | .updateLoop => do
    updatePolicyLoop config fuel self
    return none
  | .apply step => do
    applyPolicyUpdate config step
    return none
  | .stage step => do
    let staged ← stagePolicyUpdate config step
    return some staged

/-- A task that was cancelled before its first step runs none. -/
def runPolicyTask (config : SchedulerConfig) (fuel : Nat) (self : TaskId) (task : PolicyTask) : Sched R Unit := do
  Coro.modify (·.start self)
  let cancelled := self ∈ (← Coro.getState).cancelling
  let outcome ← if cancelled then pure (.error .cancelledError) else Coro.attempt (policyTaskBody config fuel self task)
  Coro.modify (·.finish self outcome)

end AuroraRl.Orchestrator
