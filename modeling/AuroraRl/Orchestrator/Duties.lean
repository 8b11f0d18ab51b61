import AuroraRl.Orchestrator.Engine

/-!
# Where the tasks of the scheduler stand

* `Duty` : what a task of the scheduler is about, at its suspensions and between the operations of a segment;
* `Preserved` : an invariant over the duties of all tasks and the state, kept by every operation of the scheduler;
* `dutyProtocol` : such an invariant as a protocol.
-/

namespace AuroraRl.Orchestrator
open Coroutine

/-! ## Duties -/

/-- How far an update in one go has come. -/
inductive ApplyPhase
  | waiting
  | ready
  | staged
  deriving DecidableEq

/-- Who ages the requests. -/
inductive Ager
  | apply (self : TaskId)
  | commit (stageTask : TaskId)
  deriving DecidableEq

/-- A call of the orchestrator carries its batch so far; `running` tasks have not done anything yet. -/
inductive Duty (R : Type)
  | starting
  | committing (stageTask : TaskId)
  | commitReady (stageTask : TaskId) (policy : StagedPolicy)
  | filling (batch : List R)
  | reserving (batch : List R) (groupId : GroupId)
  | waiting (batch : List R) (tasks : List TaskId)
  | woken (batch : List R) (finished : List TaskId)
  | awaitingReady (batch : List R) (finished : List TaskId)
  | collecting (batch : List R) (tasks : List TaskId)
  | canceling (batch : List R) (tasks : List TaskId)
  | evaluating
  | running (self : TaskId) (task : PolicyTask)
  | applying (self : TaskId) (step : Nat) (cleared : Bool) (phase : ApplyPhase)
  | failed (self : TaskId)
  | fileReady (self : TaskId) (step : Nat)
  | staged (self : TaskId) (policy : StagedPolicy)
  | ageing (ager : Ager) (tasks : List TaskId) (pending : List GroupId)
  | aged (ager : Ager)

variable {R : Type}

/-- A duty of a call of the orchestrator. -/
def Duty.IsCall : Duty R → Bool
  | starting => true
  | committing _ => true
  | commitReady _ _ => true
  | filling _ => true
  | reserving _ _ => true
  | waiting _ _ => true
  | woken _ _ => true
  | awaitingReady _ _ => true
  | collecting _ _ => true
  | canceling _ _ => true
  | evaluating => true
  | ageing (.commit _) _ _ => true
  | aged (.commit _) => true
  | _ => false

/-- A duty of a call in which it may end; a pass over the requests in flight is finished first. -/
def Duty.MayEnd : Duty R → Bool
  | ageing _ _ _ => false
  | d => d.IsCall

theorem Duty.isCall_of_mayEnd {d : Duty R} (h : d.MayEnd = true) : d.IsCall = true := by
  cases d with
  | ageing ager tasks pending => cases h
  | _ => exact h

/-- A duty at which a task may stand while others run; from `woken` and `collecting` it goes on at once. -/
def Duty.Suspended : Duty R → Bool
  | woken _ _ => false
  | collecting _ _ => false
  | _ => true

/-- The duties in which `maybe_update_policy` runs. -/
inductive Duty.Updates : Duty R → Prop
  | call : Updates .starting
  | loop (self : TaskId) : Updates (.running self .updateLoop)

/-- How a task that ends with `outcome` stood. -/
inductive Duty.Ends (self : TaskId) : Duty R → Except PyError (Option StagedPolicy) → Prop
  | unable {task : PolicyTask} {x : PyError} : Ends self (.running self task) (.error x)
  | notStaged {step : Nat} {x : PyError} : Ends self (.fileReady self step) (.error x)
  | staged {policy : StagedPolicy} : Ends self (.staged self policy) (.ok (some policy))
  | failed {x : PyError} : Ends self (.failed self) (.error x)
  | applied : Ends self (.aged (.apply self)) (.ok none)

/-! ## What the operations do -/

namespace SchedulerState

def withTask (s : SchedulerState R) (task : PolicyTask) : SchedulerState R :=
  { s with nextTask := s.nextTask + 1, created := s.created ++ [(s.nextTask, task)] }

def withStageTask (s : SchedulerState R) (step : Nat) : SchedulerState R :=
  { s.withTask (.stage step) with inflightStageTask := some s.nextTask, inflightStageStep := some step }

def withApplyTask (s : SchedulerState R) (step : Nat) : SchedulerState R :=
  { s.withTask (.apply step) with inflightPolicyUpdateTask := some s.nextTask }

def passBarrier (s : SchedulerState R) : SchedulerState R :=
  { (s.withTask .updateLoop).record (.passedBarrier s.step s.ckptStep) with updatePolicyTask := some s.nextTask }

/-- A new version is there, and the drops of the stale groups are gathered. -/
def beginAgeing (config : SchedulerConfig) (s : SchedulerState R) (step : Nat) : SchedulerState R :=
  { s.advance step with dropping := s.staleGroupIds config }.record (.ageing s.inflightRequests.entries)

def startDrop (s : SchedulerState R) (groupId : GroupId) : SchedulerState R :=
  ({ s with dropping := s.dropping.erase groupId }.record (.dropped groupId)).withoutGroup groupId

def withGroup (s : SchedulerState R) (groupId : GroupId) (group : GroupState R) : SchedulerState R :=
  { s with groups := s.groups.insert groupId group }

def eraseGroup (s : SchedulerState R) (groupId : GroupId) : SchedulerState R := { s with groups := s.groups.erase groupId }

/-- The completed group leaves for the buffer. -/
def acceptGroup [RolloutOutput R] (config : SchedulerConfig) (s : SchedulerState R) (groupId : GroupId)
    (completed : List R) : SchedulerState R :=
  { s with
    groups := s.groups.erase groupId
    rolloutBuffer := (sampleRollouts (updateBuffer config s.rolloutBuffer completed) completed.length).2
    events := s.events ++ [.finalized groupId completed] }

def clearRollouts (s : SchedulerState R) (count : Nat) : SchedulerState R :=
  { s with inflightRequests := ∅, groups := ∅, cancelledRolloutsCount := s.cancelledRolloutsCount + count }

end SchedulerState

/-- What a group becomes by the rollouts of one request. -/
def GroupState.collect [RolloutOutput R] (group : GroupState R) (envName : String) (rollouts : List R) : GroupState R :=
  { group with
    failedRollouts := group.failedRollouts + (rollouts.length - (validRollouts envName rollouts).length)
    completedRollouts := group.completedRollouts ++ validRollouts envName rollouts }

/-! ## Invariants over the duties -/

/-- The operations of the scheduler keep `Inv`, if what they wait for comes back as `Admits` says. -/
structure Preserved [RolloutOutput R] (config : SchedulerConfig) (Admits : SchedulerAction R → SchedulerState R → Prop)
    (Inv : List (Duty R) → SchedulerState R → Prop) : Prop where
  perm : ∀ {ds ds' s}, ds.Perm ds' → Inv ds s → Inv ds' s
  -- next to the scheduler
  rolloutDone : ∀ {ds s task result}, Inv ds s → Admits (.arrive (.rolloutDone task result)) s →
    Inv ds { s with results := s.results.insert task result }
  broadcast : ∀ {ds s step dir}, Inv ds s → Admits (.arrive (.broadcast step dir)) s →
    Inv ds { s with broadcasts := s.broadcasts.insert step dir }
  cleanBroadcast : ∀ {ds s step}, Inv ds s → Admits (.arrive (.cleanBroadcast step)) s →
    Inv ds { s with broadcasts := s.broadcasts.erase step }
  -- the beginning and the end of a call
  beginGenerate : ∀ {ds s fuel step}, Inv ds s → Admits (.arrive (.generateBatch fuel step)) s →
    Inv (.starting :: ds) { s with calling := true, step := step }
  cancelLoop : ∀ {ds s task}, Inv (.starting :: ds) s → s.updatePolicyTask = some task →
    Inv (.starting :: ds) { s with cancelling := s.cancelling ++ [task] }
  passBarrier : ∀ {ds s}, Inv (.starting :: ds) s → computeNextCkptStep config s ≤ s.ckptStep →
    Inv (.filling [] :: ds) s.passBarrier
  returned : ∀ {ds s batch}, Inv (.filling batch :: ds) s →
    Inv (.filling batch :: ds) (s.record (.returned (finalizeBatchRollouts config batch)))
  beginEvaluate : ∀ {ds s cancel}, Inv ds s → Admits (.arrive (.evaluate cancel)) s →
    Inv (.evaluating :: ds) ({ s with calling := true }.clearReady.record .evalStarted)
  clearRollouts : ∀ {ds s count}, Inv (.evaluating :: ds) s → Inv (.evaluating :: ds) (s.clearRollouts count)
  evaluated : ∀ {ds s}, Inv (.evaluating :: ds) s → Inv (.evaluating :: ds) (s.setReady.record .evalEnded)
  endCall : ∀ {ds s d}, d.MayEnd = true → Inv (d :: ds) s → Inv ds { s with calling := false }
  -- starting updates
  startStage : ∀ {ds s d}, d.Updates → Inv (d :: ds) s → config.usesBackgroundStage = true →
    s.ckptStep < computeNextCkptStep config s →
    (∀ task, s.inflightStageTask = some task → s.finished.contains task = true) →
    Inv (d :: ds) (s.withStageTask (computeNextCkptStep config s))
  startApply : ∀ {ds s d}, d.Updates → Inv (d :: ds) s → config.usesBackgroundStage = false →
    s.ckptStep < computeNextCkptStep config s →
    (∀ task, s.inflightPolicyUpdateTask = some task → s.finished.contains task = true) →
    Inv (d :: ds) (s.withApplyTask (computeNextCkptStep config s))
  -- committing what was staged in the background
  beginCommit : ∀ {ds s task}, Inv (.starting :: ds) s → config.usesBackgroundStage = true →
    s.inflightStageTask = some task → Inv (.committing task :: ds) s.clearReady
  joinedStage : ∀ {ds s task policy}, Inv (.committing task :: ds) s →
    s.finished.get? task = some (.ok (some policy)) → Inv (.commitReady task policy :: ds) s
  committedStage : ∀ {ds s task policy q}, Inv (.commitReady task policy :: ds) s →
    (∀ d ∈ ds, d.Suspended = true) → Admits (.answer q (.commitWeights (toString policy.step) policy.mode) (.ok ())) s →
    Inv (.ageing (.commit task) (s.tasksToIncrement config) (s.staleGroupIds config) :: ds)
      ((s.record (.committed (toString policy.step))).beginAgeing config policy.step)
  abortCommit : ∀ {ds s task}, Inv (.committing task :: ds) s →
    Inv (.starting :: ds) (s.forgetStage task) ∧ Inv (.starting :: ds) (s.setReady.forgetStage task)
  abortCommitReady : ∀ {ds s task policy}, Inv (.commitReady task policy :: ds) s → Inv (.committing task :: ds) s
  agedCommit : ∀ {ds s task}, Inv (.aged (.commit task) :: ds) s → Inv (.starting :: ds) (s.forgetStage task)
  -- ageing
  startDrop : ∀ {ds s ager tasks pending groupId}, Inv (.ageing ager tasks pending :: ds) s → groupId ∈ pending →
    Inv (.ageing ager tasks (pending.erase groupId) :: ds) (s.startDrop groupId)
  aged : ∀ {ds s ager tasks count}, Inv (.ageing ager tasks [] :: ds) s → Inv (.aged ager :: ds)
    ({ s.incrementOffPolicy tasks with cancelledRolloutsCount := s.cancelledRolloutsCount + count }.record .aged)
  -- tasks
  startTask : ∀ {ds s fuel self task}, Inv ds s → Admits (.arrive (.policyTask fuel self task)) s →
    Inv (.running self task :: ds) (s.start self)
  finishTask : ∀ {ds s d self outcome}, d.Ends self outcome → Inv (d :: ds) s → Inv ds (s.finish self outcome)
  beginApply : ∀ {ds s self step}, Inv (.running self (.apply step) :: ds) s → step ≠ s.step - 1 →
    Inv (.applying self step false .ready :: ds) s
  beginWait : ∀ {ds s self step}, Inv (.running self (.apply step) :: ds) s → step = s.step - 1 →
    Inv (.applying self step true .waiting :: ds) s.clearReady
  foundStable : ∀ {ds s self step dir}, Inv (.applying self step true .waiting :: ds) s →
    s.broadcasts.get? step = some dir → dir.stable = true → Inv (.applying self step true .ready :: ds) s
  stagedApply : ∀ {ds s self step cleared}, Inv (.applying self step cleared .ready :: ds) s → config.stageCommit = true →
    Inv (.applying self step cleared .staged :: ds) s
  committedApply : ∀ {ds s self step cleared q}, Inv (.applying self step cleared .staged :: ds) s →
    (∀ d ∈ ds, d.Suspended = true) → Admits (.answer q (.commitWeights (toString step) config.mode) (.ok ())) s →
    Inv (.ageing (.apply self) (s.tasksToIncrement config) (s.staleGroupIds config) :: ds)
      ((s.record (.committed (toString step))).beginAgeing config step)
  updatedApply : ∀ {ds s self step cleared q}, Inv (.applying self step cleared .ready :: ds) s →
    config.stageCommit = false → (∀ d ∈ ds, d.Suspended = true) →
      Admits (.answer q (.updateWeights step config.mode config.loraName) (.ok ())) s →
    Inv (.ageing (.apply self) (s.tasksToIncrement config) (s.staleGroupIds config) :: ds) (s.beginAgeing config step)
  failApply : ∀ {ds s self step cleared phase}, Inv (.applying self step cleared phase :: ds) s →
    Inv (.failed self :: ds) s ∧ (cleared = true → Inv (.failed self :: ds) s.setReady)
  foundFile : ∀ {ds s self step dir}, Inv (.running self (.stage step) :: ds) s → s.broadcasts.get? step = some dir →
    dir.has (stageReadyFile config) = true → Inv (.fileReady self step :: ds) s
  stagedFile : ∀ {ds s self step kwargs q}, Inv (.fileReady self step :: ds) s →
    Admits (.answer q (.stageWeights step (toString step) config.mode (baseVersion config step) kwargs) (.ok ())) s →
    (config.stageTransport = .streamingUpload → kwargs.donePath = true) →
    Inv (.staged self ⟨step, config.mode⟩ :: ds) s
  -- scheduling
  addGroup : ∀ {ds s batch ex}, Inv (.filling batch :: ds) s →
    config.groupSize ≤ config.maxInflightRollouts - s.inflightRolloutCount →
    Inv (.reserving batch s.nextGroupId :: ds) (s.addGroup config ex)
  reserve : ∀ {ds s batch groupId group}, Inv (.filling batch :: ds) s → s.nextGroup? config = some (groupId, group) →
    config.maxInflightRollouts - s.inflightRolloutCount ≠ 0 → Inv (.reserving batch groupId :: ds) s
  startRequest : ∀ {ds s batch groupId group client}, Inv (.reserving batch groupId :: ds) s →
    s.groups.get? groupId = some group → Inv (.filling batch :: ds) (s.startRequest config groupId group client)
  unreserve : ∀ {ds s batch groupId}, Inv (.reserving batch groupId :: ds) s → Inv (.filling batch :: ds) s
  -- waiting
  wait : ∀ {ds s batch}, Inv (.filling batch :: ds) s →
    config.maxInflightRollouts - s.inflightRolloutCount < config.groupSize →
    Inv (.waiting batch s.inflightRequests.keys :: ds) (s.record (.waited s.inflightRequests.keys))
  woke : ∀ {ds s batch tasks finished q}, Inv (.waiting batch tasks :: ds) s → finished.Nodup →
    (∀ t, t ∈ finished ↔ t ∈ tasks ∧ s.results.contains t = true) →
    Admits (.answer q (.wait tasks) finished) s → Inv (.woken batch finished :: ds) (s.record (.woke finished))
  awaitReady : ∀ {ds s batch finished}, Inv (.woken batch finished :: ds) s → Inv (.awaitingReady batch finished :: ds) s
  collectNow : ∀ {ds s batch finished}, Inv (.woken batch finished :: ds) s → Inv (.collecting batch finished :: ds) s
  collectLater : ∀ {ds s batch finished sets q}, Inv (.awaitingReady batch finished :: ds) s →
    Admits (.answer q (.ready sets) ()) s → Inv (.collecting batch finished :: ds) s
  -- collecting
  collected : ∀ {ds s batch tasks}, Inv (.collecting batch tasks :: ds) s → Inv (.filling batch :: ds) s
  skip : ∀ {ds s batch task tasks}, Inv (.collecting batch (task :: tasks) :: ds) s →
    s.inflightRequests.get? task = none → Inv (.collecting batch tasks :: ds) s
  orphan : ∀ {ds s batch task tasks info}, Inv (.collecting batch (task :: tasks) :: ds) s →
    s.inflightRequests.get? task = some info → (∀ groupId ∈ info.groupId, s.groups.get? groupId = none) →
    Inv (.collecting batch tasks :: ds) (s.popRequest task)
  drop : ∀ {ds s batch task tasks info groupId}, Inv (.collecting batch (task :: tasks) :: ds) s →
    s.inflightRequests.get? task = some info → info.groupId = some groupId →
    Inv (.collecting batch tasks :: ds) ((s.popRequest task).withoutGroup groupId)
  dropFailed : ∀ {ds s batch task tasks info groupId group}, Inv (.collecting batch (task :: tasks) :: ds) s →
    s.inflightRequests.get? task = some info → info.groupId = some groupId →
    Inv (.collecting batch tasks :: ds) (((s.popRequest task).withGroup groupId group).withoutGroup groupId)
  collect : ∀ {ds s batch task tasks info groupId group rollouts}, Inv (.collecting batch (task :: tasks) :: ds) s →
    s.inflightRequests.get? task = some info → info.groupId = some groupId → s.groups.get? groupId = some group →
    s.results.get? task = some (.returned rollouts) →
    (group.collect info.envName rollouts).completedRollouts.length +
      (group.collect info.envName rollouts).failedRollouts < config.groupSize →
    Inv (.collecting batch tasks :: ds) ((s.popRequest task).withGroup groupId (group.collect info.envName rollouts))
  collectFailed : ∀ {ds s batch task tasks info groupId group rollouts}, Inv (.collecting batch (task :: tasks) :: ds) s →
    s.inflightRequests.get? task = some info → info.groupId = some groupId → s.groups.get? groupId = some group →
    s.results.get? task = some (.returned rollouts) →
    config.groupSize ≤ (group.collect info.envName rollouts).completedRollouts.length +
      (group.collect info.envName rollouts).failedRollouts →
    Inv (.collecting batch tasks :: ds)
      (((s.popRequest task).withGroup groupId (group.collect info.envName rollouts)).eraseGroup groupId)
  accept : ∀ {ds s batch task tasks info groupId group rollouts}, Inv (.collecting batch (task :: tasks) :: ds) s →
    s.inflightRequests.get? task = some info → info.groupId = some groupId → s.groups.get? groupId = some group →
    s.results.get? task = some (.returned rollouts) →
    config.groupSize ≤ (group.collect info.envName rollouts).completedRollouts.length +
      (group.collect info.envName rollouts).failedRollouts →
    Inv (.collecting (batch ++ (sampleRollouts (updateBuffer config s.rolloutBuffer
        (group.collect info.envName rollouts).completedRollouts)
        (group.collect info.envName rollouts).completedRollouts.length).1) tasks :: ds)
      (((s.popRequest task).withGroup groupId (group.collect info.envName rollouts)).acceptGroup config groupId
        (group.collect info.envName rollouts).completedRollouts)
  awaitCancel : ∀ {ds s batch tasks}, Inv (.collecting batch tasks :: ds) s → Inv (.canceling batch tasks :: ds) s
  collectAgain : ∀ {ds s batch tasks cancelled q}, Inv (.canceling batch tasks :: ds) s →
    Admits (.answer q (.cancelAll cancelled) ()) s → Inv (.collecting batch tasks :: ds) s

/-- An invariant over the duties as a protocol; at an await every task is suspended. -/
def dutyProtocol (Admits : SchedulerAction R → SchedulerState R → Prop) (Inv : List (Duty R) → SchedulerState R → Prop)
    (perm : ∀ {ds ds' s}, ds.Perm ds' → Inv ds s → Inv ds' s) :
    Protocol (SchedulerState R) Await Answer (Job R) (Duty R) where
  inv rs s := Inv (rs.map Prod.snd) s ∧ ∀ d ∈ rs.map Prod.snd, d.Suspended = true
  inv_perm hperm h := ⟨perm (hperm.map Prod.snd) h.1, fun d hd => h.2 d ((hperm.map Prod.snd).mem_iff.2 hd)⟩
  assumes := Admits
  guar _ _ _ := True

end AuroraRl.Orchestrator
