import AuroraRl.Lib.Play
import AuroraRl.Orchestrator.Engine

/-!
# Scripted runs of the scheduler

* `answers` : what the world answers, decided;
* `allows` : what the event loop allows, decided;
* `director` : both, for the runs of `schedulerSystem`.
-/

namespace AuroraRl.Orchestrator
open Coroutine

variable {R : Type}

/-- `World` as a function. -/
def answers (s : SchedulerState R) : (e : Await) → Answer e → Option (SchedulerState R)
  | .wait tasks, finished =>
      if finished.Nodup ∧ finished ≠ [] ∧ (∀ t ∈ finished, t ∈ tasks ∧ s.results.contains t = true) ∧
        ∀ t ∈ tasks, s.results.contains t = true → t ∈ finished then some s else none
  | .ready sets, _ => if sets < s.readySets then some s else none
  | .cancelAll tasks, _ => if ∀ t ∈ tasks, s.results.contains t = true then some s else none
  | .startTask pending, groupId => if groupId ∈ pending then some s else none
  | .sleep task, .error x => if x = .cancelledError ∧ task ∈ s.cancelling then some s else none
  | .sleep _, .ok _ => some s
  | .join _ task, .ok outcome => if s.finished.get? task = some outcome then some s else none
  | .join waiter _, .error x =>
      if x = .cancelledError ∧ waiter.any (· ∈ s.cancelling) = true then some s else none
  | .waitForPath step file, _ => if (s.broadcasts.get? step).any (·.has file) = true then some s else none
  | .commitWeights version _, .ok _ => some (s.record (.committed version))
  | .commitWeights _ _, .error _ => some s
  | .acquire, _ => some s
  | .selectLeastLoadedClient, _ => some s
  | .stageWeights _ _ _ _ _, _ => some s
  | .updateWeights _ _ _, _ => some s
  | .evaluate, _ => some s

theorem world_of_answers {s s' : SchedulerState R} {e : Await} {a : Answer e} (h : answers s e a = some s') :
    World s e a s' := by
  cases e with
  | wait tasks =>
      simp only [answers, Option.ite_none_right_eq_some, Option.some.injEq] at h
      obtain ⟨⟨hnodup, hne, hmem, hall⟩, rfl⟩ := h
      exact ⟨hnodup, hne, fun t => ⟨hmem t, fun ht => hall t ht.1 ht.2⟩, rfl⟩
  | ready sets =>
      simp only [answers, Option.ite_none_right_eq_some, Option.some.injEq] at h
      exact ⟨h.1, h.2.symm⟩
  | cancelAll tasks =>
      simp only [answers, Option.ite_none_right_eq_some, Option.some.injEq] at h
      exact ⟨h.1, h.2.symm⟩
  | startTask pending =>
      simp only [answers, Option.ite_none_right_eq_some, Option.some.injEq] at h
      exact ⟨h.1, h.2.symm⟩
  | sleep task =>
      cases a with
      | ok _ => exact (Option.some.inj h).symm
      | error x =>
          simp only [answers, Option.ite_none_right_eq_some, Option.some.injEq] at h
          exact ⟨h.1.1, h.1.2, h.2.symm⟩
  | join waiter task =>
      cases a with
      | ok outcome =>
          simp only [answers, Option.ite_none_right_eq_some, Option.some.injEq] at h
          exact ⟨h.1, h.2.symm⟩
      | error x =>
          simp only [answers, Option.ite_none_right_eq_some, Option.some.injEq, Option.any_eq_true,
            decide_eq_true_eq] at h
          exact ⟨h.1.1, h.1.2, h.2.symm⟩
  | waitForPath step file =>
      simp only [answers, Option.ite_none_right_eq_some, Option.some.injEq, Option.any_eq_true] at h
      exact ⟨h.1, h.2.symm⟩
  | commitWeights version mode =>
      cases a with
      | ok _ => exact (Option.some.inj h).symm
      | error x => exact (Option.some.inj h).symm
  | exhausted => exact a.elim
  | _ => exact (Option.some.inj h).symm

variable [RolloutOutput R]

/-- `EventLoop` as a function. -/
def allows (s : SchedulerState R) : SchedulerAction R → Bool
  | .arrive (.generateBatch _ _) => !s.calling
  | .arrive (.evaluate _) => !s.calling
  | .arrive (.policyTask _ self task) => (self, task) ∈ s.created
  | .arrive (.rolloutDone task result) =>
      (s.results.get? task).isNone && s.events.any (fun event =>
        match event with
        | .scheduled task' _ _ => task' = task
        | _ => false) && (s.inflightRequests.get? task).all fun info =>
          match result with
          | .returned rollouts =>
              rollouts.length = info.rolloutCount ∧ ∀ r ∈ rollouts, RolloutOutput.request r = task
          | _ => true
  | _ => true

theorem eventLoop_of_allows {s : SchedulerState R} {a : SchedulerAction R} (h : allows s a = true) : EventLoop a s := by
  cases a with
  | arrive q =>
      cases q with
      | generateBatch fuel step => simpa [allows, EventLoop] using h
      | evaluate cancel => simpa [allows, EventLoop] using h
      | policyTask fuel self task =>
          change (self, task) ∈ s.created
          exact of_decide_eq_true h
      | rolloutDone task result =>
          simp only [allows, Bool.and_eq_true, Option.isNone_iff_eq_none, List.any_eq_true] at h
          obtain ⟨⟨hnone, event, hevent, hscheduled⟩, hmeets⟩ := h
          refine ⟨hnone, ?_, fun info hinfo rollouts hreturned => ?_⟩
          · cases event with
            | scheduled task' groupId salt =>
                obtain rfl : task' = task := of_decide_eq_true hscheduled
                exact ⟨groupId, salt, hevent⟩
            | _ => cases hscheduled
          · subst hreturned
            rw [hinfo] at hmeets
            exact of_decide_eq_true hmeets
      | _ => trivial
  | answer q e a => trivial
  | acquire q => trivial

def director (config : SchedulerConfig) : Director (scheduler (R := R) config) EventLoop where
  allows a s := allows s a
  answer := answers
  admits_of_allows _ := trivial
  assumes_of_allows := eventLoop_of_allows
  world_of_answer := world_of_answers

/-- What is played from an idle scheduler is reachable. -/
theorem reachable_of_play {config : SchedulerConfig} {s : SchedulerState R} (hidle : Idle s)
    {cues : List (Cue Await Answer (Job R))} {c : SchedulerConfiguration R}
    (h : (director config).play cues ⟨s, []⟩ = some c) : (schedulerSystem config).Reachable c := by
  obtain ⟨ls, hrun⟩ := Director.run_of_play h
  exact ⟨⟨s, []⟩, ls, ⟨hidle, rfl⟩, hrun⟩

/-! ## A small scheduler -/

/-- A rollout that says which request it came from. -/
structure TaggedRollout where
  request : TaskId
  envName : String
  deriving DecidableEq

instance : RolloutOutput TaggedRollout where
  error _ := false
  trajectoryLength _ := 1
  seqLen _ := 1
  setEnvName name r := { r with envName := name }
  exampleKey r := (r.envName, r.request)
  extremeReward _ := false
  request := TaggedRollout.request
  request_setEnvName _ _ := rfl

/-- Groups of two, one request each at a time; a rollout may see one update. -/
def exampleOptions : SchedulerConfig where
  batchSize := some 2
  tokenBatchSize := none
  groupSize := 2
  maxInflightRollouts := 2
  maxOffPolicySteps := 1
  rateLimited := false
  requiresGroupScoring _ := false
  onlineDifficultyFiltering := false
  sampleExamples _ := .ok ⟨""⟩
  mode := .full
  stageCommit := false
  backgroundStage := false
  stageTransport := .sharedFs
  loraName := none
  groupSize_pos := by decide
  fits := by decide

def idleState : SchedulerState TaggedRollout where
  step := 0
  ckptStep := 0
  checkpointReady := true
  readySets := 0
  groups := ∅
  inflightRequests := ∅
  nextGroupId := 0
  updatePolicyTask := none
  inflightPolicyUpdateTask := none
  inflightStageTask := none
  inflightStageStep := none
  cancelledRolloutsCount := 0
  rolloutBuffer := []
  nextTask := 0
  created := []
  cancelling := []
  finished := ∅
  results := ∅
  dropping := []
  calling := false
  broadcasts := ∅
  events := []

theorem idle_idleState : Idle idleState := ⟨rfl, rfl, rfl, rfl, rfl, rfl, rfl, rfl, rfl, rfl, rfl, rfl, rfl, rfl, rfl⟩

end AuroraRl.Orchestrator
