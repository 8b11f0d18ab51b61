import AuroraRl.Orchestrator.Ageing

/-!
# Invariants about the policy

* `SamePolicy` : two states that differ in rollouts, groups and tasks only;
* `DutyWise` : a fact about the state, with one about each duty, of the tasks created too;
* `PolicyPreserved` : the operations that concern the policy keep it; `PolicyPreserved.preserved` : then all do;
* `Preserved.of_admits` : what is kept in more runs is kept in fewer.
-/

namespace AuroraRl.Orchestrator
open Coroutine Transition

variable {R : Type}

/-! ## What concerns the policy -/

def SchedulerEvent.isPolicy : SchedulerEvent R → Bool
  | .updated _ => true
  | .committed _ => true
  | .passedBarrier _ _ => true
  | .evalStarted => true
  | .evalEnded => true
  | _ => false

/-- What happened to the policy, oldest first. -/
def policyEvents (events : List (SchedulerEvent R)) : List (SchedulerEvent R) := events.filter SchedulerEvent.isPolicy

theorem policyEvents_append (events : List (SchedulerEvent R)) (event : SchedulerEvent R) :
    policyEvents (events ++ [event]) = policyEvents events ++ (if event.isPolicy then [event] else []) := by
  unfold policyEvents
  rw [List.filter_append]
  cases h : event.isPolicy <;> simp [h]

theorem policyEvents_quiet {events : List (SchedulerEvent R)} {event : SchedulerEvent R} (h : event.isPolicy = false) :
    policyEvents (events ++ [event]) = policyEvents events := by
  rw [policyEvents_append, h]
  exact List.append_nil _

theorem filterMap_policyEvents {α : Type} {f : SchedulerEvent R → Option α}
    (hf : ∀ event, event.isPolicy = false → f event = none)
    (events : List (SchedulerEvent R)) : (policyEvents events).filterMap f = events.filterMap f := by
  unfold policyEvents
  rw [List.filterMap_filter]
  refine List.filterMap_congr fun event _ => ?_
  cases h : event.isPolicy with
  | true => rfl
  | false => exact (hf event h).symm

theorem mem_policyEvents {events : List (SchedulerEvent R)} {event : SchedulerEvent R} (h : event.isPolicy = true) :
    event ∈ policyEvents events ↔ event ∈ events := by
  simp [policyEvents, h]

/-- Nothing that concerns the policy has changed. -/
structure SamePolicy (s s' : SchedulerState R) : Prop where
  step : s'.step = s.step
  ckptStep : s'.ckptStep = s.ckptStep
  checkpointReady : s'.checkpointReady = s.checkpointReady
  broadcasts : s'.broadcasts = s.broadcasts
  events : policyEvents s'.events = policyEvents s.events

theorem SamePolicy.refl (s : SchedulerState R) : SamePolicy s s := ⟨rfl, rfl, rfl, rfl, rfl⟩

/-- A duty of a call that gathers a batch. -/
def Duty.IsBatching : Duty R → Bool
  | filling _ => true
  | reserving _ _ => true
  | waiting _ _ => true
  | woken _ _ => true
  | awaitingReady _ _ => true
  | collecting _ _ => true
  | canceling _ _ => true
  | _ => false

/-! ## A fact about each duty -/

/-- `Glob` of the state, and `Loc` of each duty and of each task that was created. -/
structure DutyWise (Glob : SchedulerState R → Prop) (Loc : SchedulerState R → Duty R → Prop) (ds : List (Duty R))
    (s : SchedulerState R) : Prop where
  glob : Glob s
  created : ∀ e ∈ s.created, Loc s (.running e.1 e.2)
  duties : ∀ d ∈ ds, Loc s d

namespace DutyWise

variable {Glob : SchedulerState R → Prop} {Loc : SchedulerState R → Duty R → Prop} {ds ds' : List (Duty R)}
  {d d' : Duty R} {s s' : SchedulerState R}

theorem perm (h : DutyWise Glob Loc ds s) (hperm : ds.Perm ds') : DutyWise Glob Loc ds' s :=
  ⟨h.glob, h.created, fun d hd => h.duties d (hperm.mem_iff.2 hd)⟩

theorem head (h : DutyWise Glob Loc (d :: ds) s) : Loc s d := h.duties d List.mem_cons_self

theorem tail (h : DutyWise Glob Loc (d :: ds) s) : DutyWise Glob Loc ds s :=
  ⟨h.glob, h.created, fun d' hd' => h.duties d' (List.mem_cons_of_mem _ hd')⟩

theorem cons (h : DutyWise Glob Loc ds s) (hd : Loc s d) : DutyWise Glob Loc (d :: ds) s :=
  ⟨h.glob, h.created, List.forall_mem_cons.2 ⟨hd, h.duties⟩⟩

theorem move (h : DutyWise Glob Loc (d :: ds) s) (hd' : Loc s d') : DutyWise Glob Loc (d' :: ds) s := h.tail.cons hd'

theorem change (h : DutyWise Glob Loc ds s) (hcreated : ∀ e ∈ s'.created, e ∈ s.created) (hglob : Glob s')
    (hloc : ∀ d, Loc s d → Loc s' d) : DutyWise Glob Loc ds s' :=
  ⟨hglob, fun e he => hloc _ (h.created e (hcreated e he)), fun d hd => hloc d (h.duties d hd)⟩

/-- A call passes the barrier and creates the update loop. -/
theorem passBarrier (h : DutyWise Glob Loc (d :: ds) s) (hglob : Glob s.passBarrier)
    (hloc : ∀ d, Loc s d → Loc s.passBarrier d)
    (hloop : Loc s.passBarrier (.running s.nextTask .updateLoop)) (hd' : Loc s.passBarrier d') :
    DutyWise Glob Loc (d' :: ds) s.passBarrier := by
  refine ⟨hglob, fun e he => ?_, List.forall_mem_cons.2 ⟨hd', fun e he => hloc e (h.tail.duties e he)⟩⟩
  rcases List.mem_append.1 he with he | he
  · exact hloc _ (h.created e he)
  · cases List.mem_singleton.1 he
    exact hloop

theorem of_idle (h : Idle s) (hglob : Glob s) : DutyWise Glob Loc [] s := by
  refine ⟨hglob, fun e he => ?_, List.forall_mem_nil _⟩
  rw [h.created] at he
  cases he

end DutyWise

/-! ## The operations that concern the policy -/

/-- What the proofs below may use of `Known`, next to a fact about each duty. -/
structure With (Known : List (Duty R) → SchedulerState R → Prop) (Glob : SchedulerState R → Prop)
    (Loc : SchedulerState R → Duty R → Prop) (ds : List (Duty R)) (s : SchedulerState R) : Prop where
  known : Known ds s
  wise : DutyWise Glob Loc ds s

/-- The operations that concern the policy keep a fact about each duty, if `Known` holds along the run. -/
structure PolicyPreserved (config : SchedulerConfig) (Admits : SchedulerAction R → SchedulerState R → Prop)
    (Known : List (Duty R) → SchedulerState R → Prop) (Glob : SchedulerState R → Prop)
    (Loc : SchedulerState R → Duty R → Prop) : Prop where
  quiet : ∀ {s s'}, SamePolicy s s' → Glob s → Glob s'
  quietLoc : ∀ {s s' d}, SamePolicy s s' → Loc s d → Loc s' d
  batching : ∀ {s d d'}, d.IsBatching = true → d'.IsBatching = true → Loc s d → Loc s d'
  ages : ∀ {s ager tasks tasks' pending pending'}, Loc s (.ageing ager tasks pending) → Loc s (.ageing ager tasks' pending')
  aged : ∀ {s ager tasks}, Loc s (.ageing ager tasks []) → Loc s (.aged ager)
  -- the trainer, and the beginning and the end of a call
  broadcast : ∀ {ds s step dir}, With Known Glob Loc ds s → Admits (.arrive (.broadcast step dir)) s →
    DutyWise Glob Loc ds { s with broadcasts := s.broadcasts.insert step dir }
  cleanBroadcast : ∀ {ds s step}, With Known Glob Loc ds s → Admits (.arrive (.cleanBroadcast step)) s →
    DutyWise Glob Loc ds { s with broadcasts := s.broadcasts.erase step }
  beginGenerate : ∀ {ds s fuel step}, With Known Glob Loc ds s → Admits (.arrive (.generateBatch fuel step)) s →
    DutyWise Glob Loc (.starting :: ds) { s with calling := true, step := step }
  passBarrier : ∀ {ds s}, With Known Glob Loc (.starting :: ds) s → computeNextCkptStep config s ≤ s.ckptStep →
    DutyWise Glob Loc (.filling [] :: ds) s.passBarrier
  beginEvaluate : ∀ {ds s cancel}, With Known Glob Loc ds s → Admits (.arrive (.evaluate cancel)) s →
    DutyWise Glob Loc (.evaluating :: ds) ({ s with calling := true }.clearReady.record .evalStarted)
  evaluated : ∀ {ds s}, With Known Glob Loc (.evaluating :: ds) s →
    DutyWise Glob Loc (.evaluating :: ds) (s.setReady.record .evalEnded)
  -- updates
  startStage : ∀ {ds s d}, With Known Glob Loc (d :: ds) s → config.usesBackgroundStage = true →
    s.ckptStep < computeNextCkptStep config s → Loc s (.running s.nextTask (.stage (computeNextCkptStep config s)))
  startApply : ∀ {ds s d}, With Known Glob Loc (d :: ds) s → config.usesBackgroundStage = false →
    s.ckptStep < computeNextCkptStep config s → Loc s (.running s.nextTask (.apply (computeNextCkptStep config s)))
  beginCommit : ∀ {ds s task}, With Known Glob Loc (.starting :: ds) s → config.usesBackgroundStage = true →
    DutyWise Glob Loc (.committing task :: ds) s.clearReady
  joinedStage : ∀ {ds s task policy}, With Known Glob Loc (.committing task :: ds) s →
    s.finished.get? task = some (.ok (some policy)) → Loc s (.commitReady task policy)
  committedStage : ∀ {ds s task policy}, With Known Glob Loc (.commitReady task policy :: ds) s →
    DutyWise Glob Loc (.ageing (.commit task) (s.tasksToIncrement config) (s.staleGroupIds config) :: ds)
      ((s.record (.committed (toString policy.step))).beginAgeing config policy.step)
  abortCommit : ∀ {ds s task}, With Known Glob Loc (.committing task :: ds) s →
    Loc s .starting ∧ DutyWise Glob Loc (.starting :: ds) s.setReady
  abortCommitReady : ∀ {s task policy}, Loc s (.commitReady task policy) → Loc s (.committing task)
  agedCommit : ∀ {s task}, Loc s (.aged (.commit task)) → Loc s .starting
  beginApply : ∀ {ds s self step}, With Known Glob Loc (.running self (.apply step) :: ds) s → step ≠ s.step - 1 →
    Loc s (.applying self step false .ready)
  beginWait : ∀ {ds s self step}, With Known Glob Loc (.running self (.apply step) :: ds) s →
    DutyWise Glob Loc (.applying self step true .waiting :: ds) s.clearReady
  foundStable : ∀ {ds s self step dir}, With Known Glob Loc (.applying self step true .waiting :: ds) s →
    s.broadcasts.get? step = some dir → dir.stable = true → Loc s (.applying self step true .ready)
  stagedApply : ∀ {s self step cleared}, Loc s (.applying self step cleared .ready) → config.stageCommit = true →
    Loc s (.applying self step cleared .staged)
  committedApply : ∀ {ds s self step cleared}, With Known Glob Loc (.applying self step cleared .staged :: ds) s →
    DutyWise Glob Loc (.ageing (.apply self) (s.tasksToIncrement config) (s.staleGroupIds config) :: ds)
      ((s.record (.committed (toString step))).beginAgeing config step)
  updatedApply : ∀ {ds s self step cleared}, With Known Glob Loc (.applying self step cleared .ready :: ds) s →
    config.stageCommit = false →
    DutyWise Glob Loc (.ageing (.apply self) (s.tasksToIncrement config) (s.staleGroupIds config) :: ds)
      (s.beginAgeing config step)
  failApply : ∀ {ds s self step cleared phase}, With Known Glob Loc (.applying self step cleared phase :: ds) s →
    Loc s (.failed self) ∧ DutyWise Glob Loc (.failed self :: ds) s.setReady
  foundFile : ∀ {s self step}, Loc s (.running self (.stage step)) → Loc s (.fileReady self step)
  stagedFile : ∀ {s self step}, Loc s (.fileReady self step) → Loc s (.staged self ⟨step, config.mode⟩)

/-! ## Every operation -/

section Preserved

variable [RolloutOutput R] {config : SchedulerConfig} {Admits Admits' : SchedulerAction R → SchedulerState R → Prop}
  {Known : List (Duty R) → SchedulerState R → Prop} {Glob : SchedulerState R → Prop} {Loc : SchedulerState R → Duty R → Prop}

theorem kept_of_idle {s : SchedulerState R} (h : Idle s) : Kept config [] s :=
  ⟨counted_of_idle config h, tasked_of_idle config h, aged_of_idle config h⟩

/-- What is kept whatever is admitted is kept when less is. -/
theorem Preserved.of_admits (h : Preserved config Admits Known) (hadmits : ∀ a s, Admits' a s → Admits a s) :
    Preserved config Admits' Known :=
  { h with
    rolloutDone := fun hi ha => h.rolloutDone hi (hadmits _ _ ha)
    broadcast := fun hi ha => h.broadcast hi (hadmits _ _ ha)
    cleanBroadcast := fun hi ha => h.cleanBroadcast hi (hadmits _ _ ha)
    beginGenerate := fun hi ha => h.beginGenerate hi (hadmits _ _ ha)
    beginEvaluate := fun hi ha => h.beginEvaluate hi (hadmits _ _ ha)
    committedStage := fun hi hothers ha => h.committedStage hi hothers (hadmits _ _ ha)
    startTask := fun hi ha => h.startTask hi (hadmits _ _ ha)
    committedApply := fun hi hothers ha => h.committedApply hi hothers (hadmits _ _ ha)
    updatedApply := fun hi hdirect hothers ha => h.updatedApply hi hdirect hothers (hadmits _ _ ha)
    stagedFile := fun hi ha => h.stagedFile hi (hadmits _ _ ha)
    woke := fun hi hnodup hmem ha => h.woke hi hnodup hmem (hadmits _ _ ha)
    collectLater := fun hi ha => h.collectLater hi (hadmits _ _ ha)
    collectAgain := fun hi ha => h.collectAgain hi (hadmits _ _ ha) }

namespace PolicyPreserved

variable (h : PolicyPreserved config Admits Known Glob Loc) {ds : List (Duty R)} {d d' : Duty R} {s s' : SchedulerState R}

include h

omit [RolloutOutput R] in
theorem keep (hwise : DutyWise Glob Loc ds s) (hsame : SamePolicy s s') (hcreated : ∀ e ∈ s'.created, e ∈ s.created) :
    DutyWise Glob Loc ds s' := hwise.change hcreated (h.quiet hsame hwise.glob) fun _ => h.quietLoc hsame

omit [RolloutOutput R] in
theorem create {task : PolicyTask} (hwise : DutyWise Glob Loc ds s) (hsame : SamePolicy s s')
    (hcreated : s'.created = s.created ++ [(s.nextTask, task)]) (htask : Loc s (.running s.nextTask task)) :
    DutyWise Glob Loc ds s' := by
  refine ⟨h.quiet hsame hwise.glob, fun e he => h.quietLoc hsame ?_, fun d hd => h.quietLoc hsame (hwise.duties d hd)⟩
  rw [hcreated, List.mem_append, List.mem_singleton] at he
  rcases he with he | rfl
  · exact hwise.created e he
  · exact htask

omit [RolloutOutput R] in
theorem forgetStage (task : TaskId) (hwise : DutyWise Glob Loc ds s) : DutyWise Glob Loc ds (s.forgetStage task) := by
  unfold SchedulerState.forgetStage
  split
  · exact h.keep hwise ⟨rfl, rfl, rfl, rfl, rfl⟩ (fun _ he => he)
  · exact hwise

omit [RolloutOutput R] in
theorem batch (hwise : DutyWise Glob Loc (d :: ds) s) (hd : d.IsBatching = true) (hd' : d'.IsBatching = true)
    (hsame : SamePolicy s s') (hcreated : ∀ e ∈ s'.created, e ∈ s.created) : DutyWise Glob Loc (d' :: ds) s' :=
  h.keep (hwise.move (h.batching hd hd' hwise.head)) hsame hcreated

/-- All operations keep what those on the policy keep. -/
theorem preserved (hknown : Preserved config Admits Known) (hloop : ∀ a s, Admits a s → EventLoop a s) :
    Preserved config Admits (With Known Glob Loc) where
  perm hperm hw := ⟨hknown.perm hperm hw.known, hw.wise.perm hperm⟩
  rolloutDone hw ha := ⟨hknown.rolloutDone hw.known ha, h.keep hw.wise ⟨rfl, rfl, rfl, rfl, rfl⟩ fun _ he => he⟩
  broadcast hw ha := ⟨hknown.broadcast hw.known ha, h.broadcast hw ha⟩
  cleanBroadcast hw ha := ⟨hknown.cleanBroadcast hw.known ha, h.cleanBroadcast hw ha⟩
  beginGenerate hw ha := ⟨hknown.beginGenerate hw.known ha, h.beginGenerate hw ha⟩
  cancelLoop hw htask := ⟨hknown.cancelLoop hw.known htask, h.keep hw.wise ⟨rfl, rfl, rfl, rfl, rfl⟩ fun _ he => he⟩
  passBarrier hw hnext := ⟨hknown.passBarrier hw.known hnext, h.passBarrier hw hnext⟩
  returned hw := ⟨hknown.returned hw.known, h.keep hw.wise ⟨rfl, rfl, rfl, rfl, policyEvents_quiet rfl⟩ fun _ he => he⟩
  beginEvaluate hw ha := ⟨hknown.beginEvaluate hw.known ha, h.beginEvaluate hw ha⟩
  clearRollouts hw := ⟨hknown.clearRollouts hw.known, h.keep hw.wise ⟨rfl, rfl, rfl, rfl, rfl⟩ fun _ he => he⟩
  evaluated hw := ⟨hknown.evaluated hw.known, h.evaluated hw⟩
  endCall hd hw := ⟨hknown.endCall hd hw.known, h.keep hw.wise.tail ⟨rfl, rfl, rfl, rfl, rfl⟩ fun _ he => he⟩
  startStage hd hw huses hbehind hnone := ⟨hknown.startStage hd hw.known huses hbehind hnone,
    h.create hw.wise ⟨rfl, rfl, rfl, rfl, rfl⟩ rfl (h.startStage hw huses hbehind)⟩
  startApply hd hw huses hbehind hnone := ⟨hknown.startApply hd hw.known huses hbehind hnone,
    h.create hw.wise ⟨rfl, rfl, rfl, rfl, rfl⟩ rfl (h.startApply hw huses hbehind)⟩
  beginCommit hw huses htask := ⟨hknown.beginCommit hw.known huses htask, h.beginCommit hw huses⟩
  joinedStage hw hfinished := ⟨hknown.joinedStage hw.known hfinished, hw.wise.move (h.joinedStage hw hfinished)⟩
  committedStage hw hothers ha := ⟨hknown.committedStage hw.known hothers ha, h.committedStage hw⟩
  abortCommit hw := by
    obtain ⟨hstarting, hready⟩ := h.abortCommit hw
    obtain ⟨hforgotten, hforgottenReady⟩ := hknown.abortCommit hw.known
    exact ⟨⟨hforgotten, h.forgetStage _ (hw.wise.move hstarting)⟩, hforgottenReady, h.forgetStage _ hready⟩
  abortCommitReady hw := ⟨hknown.abortCommitReady hw.known, hw.wise.move (h.abortCommitReady hw.wise.head)⟩
  agedCommit hw := ⟨hknown.agedCommit hw.known, h.forgetStage _ (hw.wise.move (h.agedCommit hw.wise.head))⟩
  startDrop hw hmem := ⟨hknown.startDrop hw.known hmem,
    h.keep (hw.wise.move (h.ages hw.wise.head)) ⟨rfl, rfl, rfl, rfl, policyEvents_quiet rfl⟩ fun _ he => he⟩
  aged hw := ⟨hknown.aged hw.known,
    h.keep (hw.wise.move (h.aged hw.wise.head)) ⟨rfl, rfl, rfl, rfl, policyEvents_quiet rfl⟩ fun _ he => he⟩
  startTask {ds s fuel self task} hw ha := by
    refine ⟨hknown.startTask hw.known ha, ?_⟩
    have hloc := hw.wise.created (self, task) (hloop _ _ ha)
    exact h.keep (hw.wise.cons hloc) ⟨rfl, rfl, rfl, rfl, rfl⟩ (fun _ he => List.mem_of_mem_filter he)
  finishTask hends hw := ⟨hknown.finishTask hends hw.known,
    h.keep hw.wise.tail ⟨rfl, rfl, rfl, rfl, rfl⟩ fun _ he => he⟩
  beginApply hw hstep := ⟨hknown.beginApply hw.known hstep, hw.wise.move (h.beginApply hw hstep)⟩
  beginWait hw hstep := ⟨hknown.beginWait hw.known hstep, h.beginWait hw⟩
  foundStable hw hdir hstable := ⟨hknown.foundStable hw.known hdir hstable, hw.wise.move (h.foundStable hw hdir hstable)⟩
  stagedApply hw hstage := ⟨hknown.stagedApply hw.known hstage, hw.wise.move (h.stagedApply hw.wise.head hstage)⟩
  committedApply hw hothers ha := ⟨hknown.committedApply hw.known hothers ha, h.committedApply hw⟩
  updatedApply hw hdirect hothers ha := ⟨hknown.updatedApply hw.known hdirect hothers ha, h.updatedApply hw hdirect⟩
  failApply hw := by
    obtain ⟨hfailed, hready⟩ := h.failApply hw
    obtain ⟨hknownFailed, hknownReady⟩ := hknown.failApply hw.known
    exact ⟨⟨hknownFailed, hw.wise.move hfailed⟩, fun hcleared => ⟨hknownReady hcleared, hready⟩⟩
  foundFile hw hdir hfile := ⟨hknown.foundFile hw.known hdir hfile, hw.wise.move (h.foundFile hw.wise.head)⟩
  stagedFile hw ha hstream := ⟨hknown.stagedFile hw.known ha hstream, hw.wise.move (h.stagedFile hw.wise.head)⟩
  addGroup hw hroom := ⟨hknown.addGroup hw.known hroom, h.batch hw.wise rfl rfl ⟨rfl, rfl, rfl, rfl, rfl⟩ fun _ he => he⟩
  reserve hw hnext hfree := ⟨hknown.reserve hw.known hnext hfree, h.batch hw.wise rfl rfl (.refl _) fun _ he => he⟩
  startRequest hw hgroup := ⟨hknown.startRequest hw.known hgroup,
    h.batch hw.wise rfl rfl ⟨rfl, rfl, rfl, rfl, policyEvents_quiet rfl⟩ fun _ he => he⟩
  unreserve hw := ⟨hknown.unreserve hw.known, h.batch hw.wise rfl rfl (.refl _) fun _ he => he⟩
  wait hw hfull := ⟨hknown.wait hw.known hfull,
    h.batch hw.wise rfl rfl ⟨rfl, rfl, rfl, rfl, policyEvents_quiet rfl⟩ fun _ he => he⟩
  woke hw hnodup hmem ha := ⟨hknown.woke hw.known hnodup hmem ha,
    h.batch hw.wise rfl rfl ⟨rfl, rfl, rfl, rfl, policyEvents_quiet rfl⟩ fun _ he => he⟩
  awaitReady hw := ⟨hknown.awaitReady hw.known, h.batch hw.wise rfl rfl (.refl _) fun _ he => he⟩
  collectNow hw := ⟨hknown.collectNow hw.known, h.batch hw.wise rfl rfl (.refl _) fun _ he => he⟩
  collectLater hw ha := ⟨hknown.collectLater hw.known ha, h.batch hw.wise rfl rfl (.refl _) fun _ he => he⟩
  collected hw := ⟨hknown.collected hw.known, h.batch hw.wise rfl rfl (.refl _) fun _ he => he⟩
  skip hw hnone := ⟨hknown.skip hw.known hnone, h.batch hw.wise rfl rfl (.refl _) fun _ he => he⟩
  orphan hw hinfo hnone := ⟨hknown.orphan hw.known hinfo hnone,
    h.batch hw.wise rfl rfl ⟨rfl, rfl, rfl, rfl, rfl⟩ fun _ he => he⟩
  drop hw hinfo hgroupId := ⟨hknown.drop hw.known hinfo hgroupId,
    h.batch hw.wise rfl rfl ⟨rfl, rfl, rfl, rfl, rfl⟩ fun _ he => he⟩
  dropFailed hw hinfo hgroupId := ⟨hknown.dropFailed hw.known hinfo hgroupId,
    h.batch hw.wise rfl rfl ⟨rfl, rfl, rfl, rfl, rfl⟩ fun _ he => he⟩
  collect hw hinfo hgroupId hgroup hresult hmore := ⟨hknown.collect hw.known hinfo hgroupId hgroup hresult hmore,
    h.batch hw.wise rfl rfl ⟨rfl, rfl, rfl, rfl, rfl⟩ fun _ he => he⟩
  collectFailed hw hinfo hgroupId hgroup hresult hall := ⟨hknown.collectFailed hw.known hinfo hgroupId hgroup hresult hall,
    h.batch hw.wise rfl rfl ⟨rfl, rfl, rfl, rfl, rfl⟩ fun _ he => he⟩
  accept hw hinfo hgroupId hgroup hresult hall := ⟨hknown.accept hw.known hinfo hgroupId hgroup hresult hall,
    h.batch hw.wise rfl rfl ⟨rfl, rfl, rfl, rfl, policyEvents_quiet rfl⟩ fun _ he => he⟩
  awaitCancel hw := ⟨hknown.awaitCancel hw.known, h.batch hw.wise rfl rfl (.refl _) fun _ he => he⟩
  collectAgain hw ha := ⟨hknown.collectAgain hw.known ha, h.batch hw.wise rfl rfl (.refl _) fun _ he => he⟩

end PolicyPreserved

end Preserved

end AuroraRl.Orchestrator
