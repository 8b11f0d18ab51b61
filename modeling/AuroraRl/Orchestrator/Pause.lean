import AuroraRl.Orchestrator.Policy
import Mathlib.Data.List.Induction

/-!
# Evaluations and updates

* `inEval` : an evaluation is running; `UndisturbedEvals` : the scheduler committed and moved to no version during one;
* `Orchestrated` : the orchestrator goes on after an evaluation only if it succeeded;
* `paused_preserved`, `evaluationPaused` : with background staging updates are paused during every evaluation.
-/

namespace AuroraRl.Orchestrator
open Coroutine Transition

variable {R : Type}

/-! ## Evaluations -/

def evalStep (running : Bool) : SchedulerEvent R → Bool
  | .evalStarted => true
  | .evalEnded => false
  | _ => running

/-- An evaluation has started and not ended. -/
def inEval (events : List (SchedulerEvent R)) : Bool := events.foldl evalStep false

def SchedulerEvent.isUpdate : SchedulerEvent R → Bool
  | .updated _ => true
  | .committed _ => true
  | _ => false

/-- During no evaluation did the scheduler commit a version or move to one. -/
def UndisturbedEvals (events : List (SchedulerEvent R)) : Prop :=
  ∀ before event after, events = before ++ event :: after → inEval before = true → event.isUpdate = false

theorem inEval_append (events : List (SchedulerEvent R)) (event : SchedulerEvent R) :
    inEval (events ++ [event]) = evalStep (inEval events) event := List.foldl_concat _ _ _ _

theorem inEval_policyEvents (events : List (SchedulerEvent R)) : inEval (policyEvents events) = inEval events := by
  unfold inEval policyEvents
  rw [List.foldl_filter]
  congr 1
  funext running event
  cases event <;> rfl

theorem undisturbedEvals_append {events : List (SchedulerEvent R)} {event : SchedulerEvent R} :
    UndisturbedEvals (events ++ [event]) ↔ UndisturbedEvals events ∧ (inEval events = true → event.isUpdate = false) := by
  constructor
  · intro h
    refine ⟨fun before e after heq hin => ?_, h events event [] rfl⟩
    exact h before e (after ++ [event]) (by rw [heq, List.append_assoc, List.cons_append]) hin
  · rintro ⟨h, hlast⟩ before e after heq hin
    rcases List.eq_nil_or_concat after with rfl | ⟨after, e', rfl⟩
    · obtain ⟨rfl, he⟩ := List.append_inj' heq rfl
      cases he
      exact hlast hin
    · rw [List.concat_eq_append, ← List.cons_append, ← List.append_assoc] at heq
      obtain ⟨rfl, -⟩ := List.append_inj' heq rfl
      exact h before e after rfl hin

/-- Something happens next to the evaluations, and none is running. -/
theorem UndisturbedEvals.outside {events : List (SchedulerEvent R)} (h : UndisturbedEvals events)
    (hout : inEval events = false)
    (event : SchedulerEvent R) (hevent : ∀ running, evalStep running event = running) :
    UndisturbedEvals (events ++ [event]) ∧ inEval (events ++ [event]) = false := by
  refine ⟨undisturbedEvals_append.2 ⟨h, fun hin => ?_⟩, ?_⟩
  · rw [hout] at hin
    cases hin
  · rw [inEval_append, hevent, hout]

theorem undisturbedEvals_policyEvents (events : List (SchedulerEvent R)) :
    UndisturbedEvals (policyEvents events) ↔ UndisturbedEvals events := by
  induction events using List.reverseRecOn with
  | nil => rfl
  | append_singleton events event ih =>
      rw [policyEvents_append, undisturbedEvals_append]
      cases hevent : event.isPolicy with
      | true =>
          rw [if_pos rfl, undisturbedEvals_append, ih, inEval_policyEvents]
      | false =>
          have hupdate : event.isUpdate = false := by cases event <;> first | rfl | cases hevent
          rw [if_neg Bool.false_ne_true, List.append_nil, ih]
          exact (and_iff_left fun _ => hupdate).symm

/-! ## Pausing -/

/-- The orchestrator stops when an evaluation raises. -/
def Orchestrated [RolloutOutput R] (action : SchedulerAction R) (s : SchedulerState R) : Prop :=
  EventLoop action s ∧
  match action with
  | .arrive (.generateBatch _ _) => inEval s.events = false
  | .arrive (.evaluate _) => inEval s.events = false
  | _ => True

/-- No evaluation is disturbed, and rollouts wait for the end of the one that is running. -/
structure Paused (s : SchedulerState R) : Prop where
  undisturbed : UndisturbedEvals s.events
  waits : inEval s.events = true → s.checkpointReady = false

/-- A call of `generate_batch` and an evaluation exclude each other. -/
def Duty.Outside (s : SchedulerState R) (d : Duty R) : Prop := d.IsCall = true → d ≠ .evaluating → inEval s.events = false

section

variable {d d' : Duty R} {s s' : SchedulerState R}

theorem Duty.Outside.same (h : d.Outside s) (hevents : inEval s'.events = inEval s.events) : d.Outside s' :=
  fun hcall hne => hevents ▸ h hcall hne

theorem Duty.outside_of_not_call (h : d.IsCall = false) : d.Outside s := by
  intro hcall
  rw [h] at hcall
  cases hcall

theorem Paused.quiet (h : Paused s) (hsame : SamePolicy s s') : Paused s' := by
  refine ⟨?_, fun hin => ?_⟩
  · rw [← undisturbedEvals_policyEvents, hsame.events, undisturbedEvals_policyEvents]
    exact h.undisturbed
  · rw [← inEval_policyEvents, hsame.events, inEval_policyEvents] at hin
    rw [hsame.checkpointReady]
    exact h.waits hin

end

/-! ## Every operation -/

variable [RolloutOutput R] {config : SchedulerConfig}

/-- No evaluation is disturbed, and every call is where it should be. -/
abbrev Pausing : List (Duty R) → SchedulerState R → Prop := DutyWise Paused Duty.Outside

omit [RolloutOutput R] in
theorem Pausing.keep {ds : List (Duty R)} {s s' : SchedulerState R} (h : Pausing ds s) (hglob : Paused s')
    (hevents : inEval s'.events = inEval s.events) (hcreated : s'.created = s.created) : Pausing ds s' :=
  h.change (fun _ he => hcreated ▸ he) hglob fun _ hd => hd.same hevents

omit [RolloutOutput R] in
theorem Pausing.outside {ds : List (Duty R)} {s s' : SchedulerState R} (h : Pausing ds s) (hout : inEval s.events = false)
    (hundisturbed : UndisturbedEvals s'.events) (hevents : inEval s'.events = inEval s.events)
    (hcreated : s'.created = s.created) : Pausing ds s' := by
  refine h.keep ⟨hundisturbed, fun hin => ?_⟩ hevents hcreated
  rw [hevents, hout] at hin
  cases hin

omit [RolloutOutput R] in
theorem Tasked.background {ds : List (Duty R)} {d : Duty R} {s : SchedulerState R} {self : TaskId}
    (h : Tasked config (d :: ds) s)
    (hd : d.role = .applies self) (hbackground : config.usesBackgroundStage = true) : False := by
  have hforeground := (h.updating self (Tasked.mem_roles_cons.2 (Or.inl hd.symm))).2
  rw [hbackground] at hforeground
  cases hforeground

theorem paused_preserved (hbackground : config.usesBackgroundStage = true) : PolicyPreserved (R := R) config
    Orchestrated (Kept config) Paused Duty.Outside where
  quiet hsame h := h.quiet hsame
  quietLoc {s s' d} hsame h := h.same (by rw [← inEval_policyEvents, hsame.events, inEval_policyEvents])
  batching {s d d'} hd hd' h := by
    have hcall : d.IsCall = true := by cases d <;> first | rfl | cases hd
    have hne : d ≠ .evaluating := by
      rintro rfl
      cases hd
    exact fun _ _ => h hcall hne
  ages {s ager tasks tasks' pending pending'} h := by
    cases ager with
    | apply self => exact Duty.outside_of_not_call rfl
    | commit stageTask => exact fun _ _ => h rfl nofun
  aged {s ager tasks} h := by
    cases ager with
    | apply self => exact Duty.outside_of_not_call rfl
    | commit stageTask => exact fun _ _ => h rfl nofun
  broadcast hw _ := Pausing.keep hw.wise { hw.wise.glob with } rfl rfl
  cleanBroadcast hw _ := Pausing.keep hw.wise { hw.wise.glob with } rfl rfl
  beginGenerate {ds s fuel step} hw hadmits := by
    have hcalling : Pausing ds { s with calling := true, step := step } :=
      Pausing.keep hw.wise { hw.wise.glob with } rfl rfl
    exact hcalling.cons fun _ _ => hadmits.2
  passBarrier {ds s} hw hnext := by
    have hout := hw.wise.head rfl nofun
    have hevents : inEval s.passBarrier.events = inEval s.events := inEval_append _ _
    have hundisturbed : UndisturbedEvals s.passBarrier.events :=
      undisturbedEvals_append.2 ⟨hw.wise.glob.undisturbed, fun _ => rfl⟩
    refine hw.wise.passBarrier ⟨hundisturbed, fun hin => ?_⟩ (fun _ hd => hd.same hevents) (Duty.outside_of_not_call rfl)
      fun _ _ => hevents.trans hout
    rw [hevents, hout] at hin
    cases hin
  beginEvaluate {ds s cancel} hw hadmits := by
    have hidle : ∀ d ∈ ds, d.IsCall = false := by
      have hone := hw.known.counted.oneCall
      rw [show s.calling = false from hadmits.1, Bool.toNat_false] at hone
      exact fun d hd => Bool.eq_false_iff.2 (List.countP_eq_zero.1 hone d hd)
    refine ⟨⟨?_, fun _ => rfl⟩, fun e _ => Duty.outside_of_not_call rfl, fun d hd => ?_⟩
    · exact undisturbedEvals_append.2 ⟨hw.wise.glob.undisturbed, fun _ => rfl⟩
    · rcases List.mem_cons.1 hd with rfl | hd
      · exact fun _ hne => absurd rfl hne
      · exact Duty.outside_of_not_call (hidle d hd)
  evaluated {ds s} hw := by
    have hevents : inEval (s.setReady.record .evalEnded).events = false := inEval_append _ _
    refine ⟨⟨?_, fun hin => ?_⟩, fun e _ => Duty.outside_of_not_call rfl, fun d _ _ _ => hevents⟩
    · exact undisturbedEvals_append.2 ⟨hw.wise.glob.undisturbed, fun _ => rfl⟩
    · rw [hevents] at hin
      cases hin
  startStage _ _ _ := Duty.outside_of_not_call rfl
  startApply _ hforeground _ := by
    rw [hbackground] at hforeground
    cases hforeground
  beginCommit {ds s task} hw _ := by
    have hcleared : Pausing (.starting :: ds) s.clearReady :=
      Pausing.keep hw.wise ⟨hw.wise.glob.undisturbed, fun _ => rfl⟩ rfl rfl
    exact hcleared.move fun _ _ => hcleared.head rfl nofun
  joinedStage hw _ _ _ := hw.wise.head rfl nofun
  committedStage {ds s task policy} hw := by
    have hout := hw.wise.head rfl nofun
    obtain ⟨hcommitted, hout₁⟩ := hw.wise.glob.undisturbed.outside hout (.committed (toString policy.step)) fun _ => rfl
    obtain ⟨hupdated, hout₂⟩ := hcommitted.outside hout₁ (.updated policy.step) fun _ => rfl
    obtain ⟨hageing, hout₃⟩ := hupdated.outside hout₂ (.ageing s.inflightRequests.entries) fun _ => rfl
    have houtside : Pausing (.commitReady task policy :: ds)
        ((s.record (.committed (toString policy.step))).beginAgeing config policy.step) :=
      Pausing.outside hw.wise hout hageing (hout₃.trans hout.symm) rfl
    exact houtside.move fun _ _ => hout₃
  abortCommit {ds s task} hw := by
    have hout := hw.wise.head rfl nofun
    have hready : Pausing (.committing task :: ds) s.setReady :=
      Pausing.outside hw.wise hout hw.wise.glob.undisturbed rfl rfl
    exact ⟨fun _ _ => hout, hready.move fun _ _ => hout⟩
  abortCommitReady h _ _ := h rfl nofun
  agedCommit h _ _ := h rfl nofun
  beginApply _ _ := Duty.outside_of_not_call rfl
  beginWait hw := (hw.known.tasked.background rfl hbackground).elim
  foundStable _ _ _ := Duty.outside_of_not_call rfl
  stagedApply _ _ := Duty.outside_of_not_call rfl
  committedApply hw := (hw.known.tasked.background rfl hbackground).elim
  updatedApply hw _ := (hw.known.tasked.background rfl hbackground).elim
  failApply hw := (hw.known.tasked.background rfl hbackground).elim
  foundFile _ := Duty.outside_of_not_call rfl
  stagedFile _ := Duty.outside_of_not_call rfl

/-- The runs in which the orchestrator stops when an evaluation raises. -/
def orchestratedSystem (config : SchedulerConfig) : System (SchedulerConfiguration R) (SchedulerLabel R) :=
  (scheduler config).assuming Orchestrated

/-- **Main.** With background staging, whatever the update loop, its stage tasks, the batches and the evaluations do in
whatever order: the scheduler commits no version and moves to none during an evaluation, and until it ends nobody lets the
waiting batch go on. -/
theorem evaluationPaused (hbackground : config.usesBackgroundStage = true) {c : SchedulerConfiguration R}
    (h : (orchestratedSystem config).Reachable c) : Paused c.shared := by
  obtain ⟨c₀, ls, ⟨hidle, htasks⟩, hrun⟩ := h
  have hloop : ∀ (a : SchedulerAction R) s, Orchestrated a s → EventLoop a s := fun _ _ h => h.1
  have hpreserved := (paused_preserved (R := R) hbackground).preserved ((kept_preserved config).of_admits hloop) hloop
  have hinit : Pausing [] c₀.shared := by
    refine DutyWise.of_idle hidle ⟨fun before event after heq => ?_, fun hin => ?_⟩
    · rw [hidle.events] at heq
      exact absurd heq.symm (List.append_ne_nil_of_right_ne_nil _ (List.cons_ne_nil _ _))
    · rw [hidle.events] at hin
      cases hin
  obtain ⟨ds, -, hfinal⟩ := hpreserved.run hrun htasks ⟨kept_of_idle hidle, hinit⟩
  exact hfinal.glob

/-! ### A broadcast during an evaluation -/

section Example

/-- Deltas, staged in the background. -/
def backgroundOptions : SchedulerConfig :=
  { exampleOptions with mode := .delta, stageCommit := true, backgroundStage := true }

def orchestrates (s : SchedulerState R) (action : SchedulerAction R) : Bool :=
  allows s action &&
    match action with
    | .arrive (.generateBatch _ _) => !inEval s.events
    | .arrive (.evaluate _) => !inEval s.events
    | _ => true

theorem orchestrated_of_orchestrates {s : SchedulerState R} {action : SchedulerAction R} (h : orchestrates s action = true) :
    Orchestrated action s := by
  obtain ⟨hallows, houtside⟩ := Bool.and_eq_true_iff.1 h
  refine ⟨eventLoop_of_allows hallows, ?_⟩
  cases action with
  | arrive q =>
      cases q with
      | generateBatch fuel step => simpa using houtside
      | evaluate cancel => simpa using houtside
      | _ => trivial
  | answer q e a => trivial
  | acquire q => trivial

def orchestratedDirector (config : SchedulerConfig) : Director (scheduler (R := R) config) Orchestrated where
  allows action s := orchestrates s action
  answer := answers
  admits_of_allows _ := trivial
  assumes_of_allows := orchestrated_of_orchestrates
  world_of_answer := world_of_answers

theorem evaluationPaused_broadcast : ∃ c : SchedulerConfiguration TaggedRollout,
    inEval c.shared.events = true ∧ c.shared.latestCkptStep = some 1 ∧ Paused c.shared := by
  have hplay : ((orchestratedDirector backgroundOptions).play
      [.arrive (.evaluate false), .arrive (.broadcast 1 ⟨true, false⟩)] ⟨idleState, []⟩).map
      (fun c => (inEval c.shared.events, c.shared.latestCkptStep)) = some (true, some 1) := rfl
  obtain ⟨c, hc, heval⟩ := Option.map_eq_some_iff.1 hplay
  obtain ⟨ls, hrun⟩ := Director.run_of_play hc
  have hreach : (orchestratedSystem backgroundOptions).Reachable c :=
    ⟨⟨idleState, []⟩, ls, ⟨idle_idleState, rfl⟩, hrun⟩
  exact ⟨c, congrArg Prod.fst heval, congrArg Prod.snd heval, evaluationPaused rfl hreach⟩

end Example

end AuroraRl.Orchestrator
