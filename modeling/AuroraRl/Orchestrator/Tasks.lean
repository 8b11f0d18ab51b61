import AuroraRl.Orchestrator.Discipline

/-!
# The scheduler's own tasks

* `Role` : what a task of the scheduler may do to the policy: nothing, commit what was staged, or apply an update;
* `Tasked` : tasks are numbered apart, and the one update under way is the one the scheduler knows of;
* `tasked_preserved` : every operation keeps this.
-/

namespace AuroraRl.Orchestrator
open Coroutine

variable {R : Type}

/-! ## Roles -/

inductive Role
  | idle
  | commits
  | runs (self : TaskId)
  | applies (self : TaskId)
  deriving DecidableEq

def Role.self? : Role → Option TaskId
  | runs self => some self
  | applies self => some self
  | _ => none

def Duty.role : Duty R → Role
  | .committing _ => .commits
  | .commitReady _ _ => .commits
  | .ageing (.commit _) _ _ => .commits
  | .aged (.commit _) => .commits
  | .running self (.apply _) => .applies self
  | .running self _ => .runs self
  | .applying self _ _ _ => .applies self
  | .failed self => .applies self
  | .ageing (.apply self) _ _ => .applies self
  | .aged (.apply self) => .applies self
  | .fileReady self _ => .runs self
  | .staged self _ => .runs self
  | _ => .idle

/-- The role of a task that has not started. -/
def PolicyTask.role (self : TaskId) : PolicyTask → Role
  | .apply _ => .applies self
  | _ => .runs self

/-- The roles of the tasks that were created and of those that run. -/
def roles (ds : List (Duty R)) (s : SchedulerState R) : List Role :=
  s.created.map (fun e => e.2.role e.1) ++ ds.map Duty.role

def selves (rs : List Role) : List TaskId := rs.filterMap Role.self?

@[simp] theorem PolicyTask.self?_role (self : TaskId) (task : PolicyTask) : (task.role self).self? = some self := by
  cases task <;> rfl

/-- A task of its own that starts has the role it was created with. -/
theorem Duty.role_running (self : TaskId) (task : PolicyTask) :
    (Duty.running self task : Duty R).role = task.role self := by
  cases task <;> rfl

theorem Duty.Ends.self?_role {self : TaskId} {d : Duty R} {outcome : Except PyError (Option StagedPolicy)}
    (h : d.Ends self outcome) : d.role.self? = some self := by
  cases h with
  | unable =>
      rw [Duty.role_running]
      exact PolicyTask.self?_role _ _
  | _ => rfl

theorem selves_created (created : List (TaskId × PolicyTask)) :
    selves (created.map fun e => e.2.role e.1) = created.map Prod.fst := by
  unfold selves
  rw [List.filterMap_map, ← List.filterMap_eq_map]
  apply List.filterMap_congr
  intro e _
  exact PolicyTask.self?_role _ _

/-! ## The invariant -/

structure Tasked (config : SchedulerConfig) (ds : List (Duty R)) (s : SchedulerState R) : Prop where
  apart : (selves (roles ds s)).Nodup
  fresh : ∀ task ∈ selves (roles ds s), task < s.nextTask ∧ s.finished.contains task = false
  finishedIds : ∀ task, s.finished.contains task = true → task < s.nextTask
  updating : ∀ task, .applies task ∈ roles ds s →
    s.inflightPolicyUpdateTask = some task ∧ config.usesBackgroundStage = false
  committing : .commits ∈ roles ds s → config.usesBackgroundStage = true

namespace Tasked

variable {config : SchedulerConfig} {ds ds' : List (Duty R)} {d d' : Duty R} {s s' : SchedulerState R} {self : TaskId}

/-- Nothing that concerns the tasks has changed. -/
structure Same (s s' : SchedulerState R) : Prop where
  created : s'.created = s.created
  finished : s'.finished = s.finished
  updateTask : s'.inflightPolicyUpdateTask = s.inflightPolicyUpdateTask
  nextTask : s.nextTask ≤ s'.nextTask

theorem same (h : Tasked config ds s) (hsame : Same s s') : Tasked config ds s' := by
  have hroles : roles ds s' = roles ds s := by
    unfold roles
    rw [hsame.created]
  obtain ⟨hapart, hfresh, hfinished, hupdating, hcommitting⟩ := h
  have hnext := hsame.nextTask
  refine ⟨hroles ▸ hapart, ?_, ?_, ?_, hroles ▸ hcommitting⟩
  · rw [hroles, hsame.finished]
    intro task htask
    obtain ⟨hlt, hnot⟩ := hfresh task htask
    exact ⟨Nat.lt_of_lt_of_le hlt hnext, hnot⟩
  · rw [hsame.finished]
    intro task htask
    exact Nat.lt_of_lt_of_le (hfinished task htask) hnext
  · rw [hroles, hsame.updateTask]
    exact hupdating

theorem perm (h : Tasked config ds s) (hperm : ds.Perm ds') : Tasked config ds' s := by
  have hroles : (roles ds s).Perm (roles ds' s) := (hperm.map _).append_left _
  obtain ⟨hapart, hfresh, hfinished, hupdating, hcommitting⟩ := h
  have hselves : (selves (roles ds s)).Perm (selves (roles ds' s)) := hroles.filterMap _
  refine ⟨hselves.nodup_iff.1 hapart, fun task htask => hfresh task (hselves.mem_iff.2 htask), hfinished,
    fun task htask => hupdating task (hroles.mem_iff.2 htask), fun hcommits => hcommitting (hroles.mem_iff.2 hcommits)⟩

theorem roles_cons_perm (d : Duty R) (ds : List (Duty R)) (s : SchedulerState R) :
    (roles (d :: ds) s).Perm (d.role :: roles ds s) := List.perm_middle

theorem mem_roles_cons {r : Role} : r ∈ roles (d :: ds) s ↔ r = d.role ∨ r ∈ roles ds s := by
  rw [(roles_cons_perm d ds s).mem_iff, List.mem_cons]

theorem selves_cons_perm (d : Duty R) (ds : List (Duty R)) (s : SchedulerState R) :
    (selves (roles (d :: ds) s)).Perm (d.role.self?.toList ++ selves (roles ds s)) := by
  refine ((roles_cons_perm d ds s).filterMap _).trans ?_
  unfold selves
  cases h : d.role.self? <;> simp [h]

/-- A call begins, or another task without one of its own. -/
theorem cons_idle (h : Tasked config ds s) (hd : d.role = .idle) : Tasked config (d :: ds) s := by
  have hselves : (selves (roles (d :: ds) s)).Perm (selves (roles ds s)) := by
    refine (selves_cons_perm d ds s).trans ?_
    rw [hd]
    rfl
  refine ⟨hselves.nodup_iff.2 h.apart, fun task htask => h.fresh task (hselves.mem_iff.1 htask), h.finishedIds, ?_, ?_⟩
  · intro task htask
    rcases mem_roles_cons.1 htask with heq | htask
    · rw [hd] at heq
      cases heq
    · exact h.updating task htask
  · intro hcommits
    rcases mem_roles_cons.1 hcommits with heq | hcommits
    · rw [hd] at heq
      cases heq
    · exact h.committing hcommits

theorem tail (h : Tasked config (d :: ds) s) : Tasked config ds s := by
  have hperm := selves_cons_perm d ds s
  refine ⟨(List.nodup_append.1 (hperm.nodup_iff.1 h.apart)).2.1,
    fun task htask => h.fresh task (hperm.mem_iff.2 (List.mem_append_right _ htask)), h.finishedIds,
    fun task htask => h.updating task (mem_roles_cons.2 (Or.inr htask)),
    fun hcommits => h.committing (mem_roles_cons.2 (Or.inr hcommits))⟩

/-- A task that goes on to another duty keeps its role, unless it is a call that begins or ends a commit. -/
theorem move (h : Tasked config (d :: ds) s)
    (hrole : d'.role = d.role ∨ d'.role = .idle ∨ d'.role = .commits ∧ config.usesBackgroundStage = true) :
    Tasked config (d' :: ds) s := by
  rcases hrole with hrole | hrole | ⟨hrole, hbackground⟩
  · have hroles : roles (d' :: ds) s = roles (d :: ds) s := by
      unfold roles
      rw [List.map_cons, List.map_cons, hrole]
    obtain ⟨hapart, hfresh, hfinished, hupdating, hcommitting⟩ := h
    exact ⟨hroles ▸ hapart, hroles ▸ hfresh, hfinished, hroles ▸ hupdating, hroles ▸ hcommitting⟩
  · exact h.tail.cons_idle hrole
  · have htail := h.tail
    have hselves : (selves (roles (d' :: ds) s)).Perm (selves (roles ds s)) := by
      refine (selves_cons_perm d' ds s).trans ?_
      rw [hrole]
      rfl
    refine ⟨hselves.nodup_iff.2 htail.apart, fun task htask => htail.fresh task (hselves.mem_iff.1 htask),
      htail.finishedIds, ?_, fun _ => hbackground⟩
    intro task htask
    rcases mem_roles_cons.1 htask with heq | htask
    · rw [hrole] at heq
      cases heq
    · exact htail.updating task htask

/-- A new task; an update is one only when no other is under way. -/
theorem withTask (h : Tasked config ds s) (task : PolicyTask) (hupdate : Option TaskId)
    (hkept : ∀ self, .applies self ∈ roles ds s → hupdate = some self)
    (hnew : ∀ step, task = .apply step → hupdate = some s.nextTask ∧ config.usesBackgroundStage = false) :
    Tasked config ds { s.withTask task with inflightPolicyUpdateTask := hupdate } := by
  have hroles : (roles ds (s.withTask task)).Perm (task.role s.nextTask :: roles ds s) := by
    unfold roles SchedulerState.withTask
    rw [List.map_append, List.append_assoc]
    exact List.perm_middle
  have hselves : (selves (roles ds (s.withTask task))).Perm (s.nextTask :: selves (roles ds s)) := by
    refine (hroles.filterMap _).trans ?_
    rw [List.filterMap_cons, PolicyTask.self?_role]
    rfl
  refine ⟨?_, ?_, ?_, ?_, ?_⟩
  · refine hselves.nodup_iff.2 (List.nodup_cons.2 ⟨fun hmem => ?_, h.apart⟩)
    exact Nat.lt_irrefl _ (h.fresh _ hmem).1
  · intro self hself
    show self < s.nextTask + 1 ∧ s.finished.contains self = false
    rcases List.mem_cons.1 (hselves.mem_iff.1 hself) with rfl | hself
    · refine ⟨Nat.lt_succ_self _, Bool.eq_false_iff.2 fun hfinished => ?_⟩
      exact Nat.lt_irrefl _ (h.finishedIds _ hfinished)
    · obtain ⟨hlt, hnot⟩ := h.fresh self hself
      exact ⟨Nat.lt_succ_of_lt hlt, hnot⟩
  · intro self hself
    exact Nat.lt_succ_of_lt (h.finishedIds self hself)
  · intro self hself
    rcases List.mem_cons.1 (hroles.mem_iff.1 hself) with heq | hself
    · cases task with
      | apply step =>
          cases heq
          exact hnew step rfl
      | _ => cases heq
    · exact ⟨hkept self hself, (h.updating self hself).2⟩
  · intro hcommits
    rcases List.mem_cons.1 (hroles.mem_iff.1 hcommits) with heq | hcommits
    · cases task <;> cases heq
    · exact h.committing hcommits

theorem start {task : PolicyTask} (h : Tasked config ds s) (hmem : (self, task) ∈ s.created) :
    Tasked config (.running self task :: ds) (s.start self) := by
  -- the ids of the created tasks differ, so that only this one starts
  have hnodup : (s.created.map Prod.fst).Nodup := by
    have hapart := h.apart
    unfold roles selves at hapart
    rw [List.filterMap_append] at hapart
    exact selves_created s.created ▸ (List.nodup_append.1 hapart).1
  have hperm : s.created.Perm ((self, task) :: s.created.filter fun e => e.1 ≠ self) := by
    obtain ⟨l, r, hsplit⟩ := List.append_of_mem hmem
    rw [hsplit] at hnodup ⊢
    rw [List.map_append, List.map_cons] at hnodup
    have hnot := List.nodup_cons.1 (List.perm_middle.nodup_iff.1 hnodup)
    have hl : ∀ e ∈ l ++ r, e.1 ≠ self := by
      intro e he heq
      apply hnot.1
      have hmem : e.1 ∈ (l ++ r).map Prod.fst := List.mem_map_of_mem he
      rwa [heq, List.map_append] at hmem
    have hfilter : (l ++ (self, task) :: r).filter (fun e => e.1 ≠ self) = l ++ r := by
      rw [List.filter_append, List.filter_cons_of_neg (by simp), ← List.filter_append]
      exact List.filter_eq_self.2 fun e he => by simpa using hl e he
    rw [hfilter]
    exact List.perm_middle
  have hroles : (roles (.running self task :: ds) (s.start self)).Perm (roles ds s) := by
    refine (roles_cons_perm _ ds _).trans ?_
    rw [Duty.role_running]
    exact ((hperm.map fun e => e.2.role e.1).append_right _).symm
  have hselves := hroles.filterMap Role.self?
  exact ⟨hselves.nodup_iff.2 h.apart, fun task htask => h.fresh task (hselves.mem_iff.1 htask), h.finishedIds,
    fun task htask => h.updating task (hroles.mem_iff.1 htask), fun hcommits => h.committing (hroles.mem_iff.1 hcommits)⟩

theorem finish {outcome : Except PyError (Option StagedPolicy)} (h : Tasked config (d :: ds) s)
    (hends : d.Ends self outcome) : Tasked config ds (s.finish self outcome) := by
  have hperm := selves_cons_perm d ds s
  rw [hends.self?_role] at hperm
  have hnodup := List.nodup_cons.1 (hperm.nodup_iff.1 h.apart)
  have hlt := h.fresh self (hperm.mem_iff.2 List.mem_cons_self)
  have hother : ∀ task ∈ selves (roles ds s), task ≠ self := fun task htask heq => hnodup.1 (heq ▸ htask)
  have hcontains : ∀ task, (s.finish self outcome).finished.contains task = true ↔
      task = self ∨ s.finished.contains task = true := by
    intro task
    show ((s.finished.insert self outcome).get? task).isSome = true ↔ _ ∨ (s.finished.get? task).isSome = true
    rw [Dict.get?_insert]
    by_cases heq : self = task
    · simp [heq]
    · simp [heq, Ne.symm heq]
  have htail := h.tail
  refine ⟨hnodup.2, ?_, ?_, ?_, htail.committing⟩
  · intro task htask
    obtain ⟨hlt', hnot⟩ := htail.fresh task htask
    refine ⟨hlt', Bool.eq_false_iff.2 fun hfinished => ?_⟩
    rcases (hcontains task).1 hfinished with heq | hfinished
    · exact hother task htask heq
    · rw [hnot] at hfinished
      cases hfinished
  · intro task htask
    rcases (hcontains task).1 htask with rfl | htask
    · exact hlt.1
    · exact h.finishedIds task htask
  · intro task htask
    obtain ⟨hupdate, hbackground⟩ := htail.updating task htask
    refine ⟨?_, hbackground⟩
    have hne : task ≠ self := hother task (List.mem_filterMap.2 ⟨_, htask, rfl⟩)
    show (if s.inflightPolicyUpdateTask = some self then none else s.inflightPolicyUpdateTask) = some task
    rw [hupdate, if_neg (by simpa using hne)]

theorem record (h : Tasked config ds s) (event : SchedulerEvent R) : Tasked config ds (s.record event) :=
  h.same ⟨rfl, rfl, rfl, Nat.le_refl _⟩

theorem setReady (h : Tasked config ds s) : Tasked config ds s.setReady := h.same ⟨rfl, rfl, rfl, Nat.le_refl _⟩

theorem clearReady (h : Tasked config ds s) : Tasked config ds s.clearReady := h.same ⟨rfl, rfl, rfl, Nat.le_refl _⟩

theorem forgetStage (h : Tasked config ds s) (task : TaskId) : Tasked config ds (s.forgetStage task) := by
  unfold SchedulerState.forgetStage
  split
  · exact h.same ⟨rfl, rfl, rfl, Nat.le_refl _⟩
  · exact h

theorem beginAgeing (h : Tasked config ds s) (step : Nat) : Tasked config ds (s.beginAgeing config step) :=
  h.same ⟨rfl, rfl, rfl, Nat.le_refl _⟩

/-- What happens in a call, or in the table of requests. -/
theorem step (h : Tasked config (d :: ds) s) (hrole : d'.role = d.role) (hsame : Same s s') : Tasked config (d' :: ds) s' :=
  (h.same hsame).move (Or.inl hrole)

theorem begin (h : Tasked config ds s) (hd : d.role = .idle) (hsame : Same s s') : Tasked config (d :: ds) s' :=
  (h.same hsame).cons_idle hd

end Tasked

variable [RolloutOutput R]

theorem tasked_preserved (config : SchedulerConfig) : Preserved (R := R) config EventLoop (Tasked config) where
  perm hperm h := h.perm hperm
  rolloutDone h _ := h.same ⟨rfl, rfl, rfl, Nat.le_refl _⟩
  broadcast h _ := h.same ⟨rfl, rfl, rfl, Nat.le_refl _⟩
  cleanBroadcast h _ := h.same ⟨rfl, rfl, rfl, Nat.le_refl _⟩
  beginGenerate h _ := h.begin rfl ⟨rfl, rfl, rfl, Nat.le_refl _⟩
  cancelLoop h _ := h.same ⟨rfl, rfl, rfl, Nat.le_refl _⟩
  passBarrier {ds s} h _ := by
    have hloop := h.withTask .updateLoop s.inflightPolicyUpdateTask (fun self hself => (h.updating self hself).1)
      fun step hstep => by cases hstep
    exact hloop.step rfl ⟨rfl, rfl, rfl, Nat.le_refl _⟩
  returned h := h.record _
  beginEvaluate h _ := h.begin rfl ⟨rfl, rfl, rfl, Nat.le_refl _⟩
  clearRollouts h := h.same ⟨rfl, rfl, rfl, Nat.le_refl _⟩
  evaluated h := h.setReady.record _
  endCall _ h := h.tail.same ⟨rfl, rfl, rfl, Nat.le_refl _⟩
  startStage {ds s d} _ h _ _ _ := by
    have hstage := h.withTask (.stage (computeNextCkptStep config s)) s.inflightPolicyUpdateTask
      (fun self hself => (h.updating self hself).1) fun step hstep => by cases hstep
    exact hstage.same ⟨rfl, rfl, rfl, Nat.le_refl _⟩
  startApply {ds s d} _ h hforeground _ hnone := by
    refine (h.withTask (.apply (computeNextCkptStep config s)) (some s.nextTask) (fun self hself => ?_)
      fun _ _ => ⟨rfl, hforeground⟩).same ⟨rfl, rfl, rfl, Nat.le_refl _⟩
    -- the update under way has not finished, so that no other is started
    have hself' : self ∈ selves (roles (d :: ds) s) := List.mem_filterMap.2 ⟨_, hself, rfl⟩
    have hfinished := hnone self (h.updating self hself).1
    rw [(h.fresh self hself').2] at hfinished
    cases hfinished
  beginCommit h huses _ := h.clearReady.move (Or.inr (Or.inr ⟨rfl, huses⟩))
  joinedStage h _ := h.move (Or.inl rfl)
  committedStage h _ _ := ((h.record _).beginAgeing _).move (Or.inl rfl)
  abortCommit h := ⟨(h.forgetStage _).move (Or.inr (Or.inl rfl)), (h.setReady.forgetStage _).move (Or.inr (Or.inl rfl))⟩
  abortCommitReady h := h.move (Or.inl rfl)
  agedCommit h := (h.forgetStage _).move (Or.inr (Or.inl rfl))
  startDrop {ds s ager tasks pending groupId} h _ := h.step (by cases ager <;> rfl) ⟨rfl, rfl, rfl, Nat.le_refl _⟩
  aged {ds s ager tasks count} h := h.step (by cases ager <;> rfl) ⟨rfl, rfl, rfl, Nat.le_refl _⟩
  startTask h hadmits := h.start hadmits
  finishTask hends h := h.finish hends
  beginApply h _ := h.move (Or.inl rfl)
  beginWait h _ := h.clearReady.move (Or.inl rfl)
  foundStable h _ _ := h.move (Or.inl rfl)
  stagedApply h _ := h.move (Or.inl rfl)
  committedApply h _ _ := ((h.record _).beginAgeing _).move (Or.inl rfl)
  updatedApply h _ _ _ := (h.beginAgeing _).move (Or.inl rfl)
  failApply h := ⟨h.move (Or.inl rfl), fun _ => h.setReady.move (Or.inl rfl)⟩
  foundFile h _ _ := h.move (Or.inl rfl)
  stagedFile h _ _ := h.move (Or.inl rfl)
  addGroup h _ := h.step rfl ⟨rfl, rfl, rfl, Nat.le_refl _⟩
  reserve h _ _ := h.move (Or.inl rfl)
  startRequest h _ := h.step rfl ⟨rfl, rfl, rfl, Nat.le_succ _⟩
  unreserve h := h.move (Or.inl rfl)
  wait h _ := h.step rfl ⟨rfl, rfl, rfl, Nat.le_refl _⟩
  woke h _ _ _ := h.step rfl ⟨rfl, rfl, rfl, Nat.le_refl _⟩
  awaitReady h := h.move (Or.inl rfl)
  collectNow h := h.move (Or.inl rfl)
  collectLater h _ := h.move (Or.inl rfl)
  collected h := h.move (Or.inl rfl)
  skip h _ := h.move (Or.inl rfl)
  orphan h _ _ := h.step rfl ⟨rfl, rfl, rfl, Nat.le_refl _⟩
  drop h _ _ := h.step rfl ⟨rfl, rfl, rfl, Nat.le_refl _⟩
  dropFailed h _ _ := h.step rfl ⟨rfl, rfl, rfl, Nat.le_refl _⟩
  collect h _ _ _ _ _ := h.step rfl ⟨rfl, rfl, rfl, Nat.le_refl _⟩
  collectFailed h _ _ _ _ _ := h.step rfl ⟨rfl, rfl, rfl, Nat.le_refl _⟩
  accept h _ _ _ _ _ := h.step rfl ⟨rfl, rfl, rfl, Nat.le_refl _⟩
  awaitCancel h := h.move (Or.inl rfl)
  collectAgain h _ := h.move (Or.inl rfl)

omit [RolloutOutput R] in
theorem tasked_of_idle (config : SchedulerConfig) {s : SchedulerState R} (h : Idle s) : Tasked config [] s := by
  have hroles : roles ([] : List (Duty R)) s = [] := by
    unfold roles
    rw [h.created]
    rfl
  refine ⟨?_, ?_, ?_, ?_, ?_⟩
  · rw [hroles]
    exact List.nodup_nil
  · rw [hroles]
    exact List.forall_mem_nil _
  · intro task htask
    rw [h.finished] at htask
    cases htask
  · intro task htask
    rw [hroles] at htask
    cases htask
  · intro hcommits
    rw [hroles] at hcommits
    cases hcommits

end AuroraRl.Orchestrator
