import Mathlib.Data.List.Dedup
import Mathlib.Data.List.TakeWhile
import AuroraRl.Orchestrator.Groups
import AuroraRl.Orchestrator.Tasks

/-!
# In-flight ageing

* `openPass` : the ageing pass that is running, with the requests it began with and the groups it has dropped;
* `AgeingLog` : passes follow each other, and drop the groups with a request too old for another update, no others;
* `passesSince` : how many passes have begun since a request was scheduled;
* `AgedBy`, `Aged` : how the requests stand, between the passes and in one;
* `inflightAgeing` : in every state of every run a request is as old as the passes say, and never too old.
-/

namespace AuroraRl.Orchestrator
open Coroutine Transition

variable {R : Type}

/-! ## Passes -/

structure AgeingPass where
  requests : List (TaskId × InflightRequest)
  dropped : List GroupId

/-- A request of the group would exceed the bound. -/
def AgeingPass.Exceeds (pass : AgeingPass) (maxOffPolicySteps : Nat) (groupId : GroupId) : Prop :=
  ∃ e ∈ pass.requests, e.2.groupId = some groupId ∧ maxOffPolicySteps < e.2.offPolicySteps + 1

def passStep (pass : Option AgeingPass) : SchedulerEvent R → Option AgeingPass
  | .ageing requests => some ⟨requests, []⟩
  | .dropped groupId => pass.map fun pass => { pass with dropped := pass.dropped ++ [groupId] }
  | .aged => none
  | _ => pass

def openPass (events : List (SchedulerEvent R)) : Option AgeingPass := events.foldl passStep none

def SchedulerEvent.isAgeing : SchedulerEvent R → Bool
  | .ageing _ => true
  | _ => false

/-- The ageing passes that began after the request was scheduled. -/
def passesSince (events : List (SchedulerEvent R)) (task : TaskId) : Nat :=
  (events.dropWhile fun event => event.scheduledTask? ≠ some task).countP SchedulerEvent.isAgeing

def scheduledTasks (events : List (SchedulerEvent R)) : List TaskId := events.filterMap SchedulerEvent.scheduledTask?

/-- Nothing ages, and nothing is scheduled. -/
def SchedulerEvent.Quiet : SchedulerEvent R → Prop
  | .scheduled _ _ _ => False
  | .ageing _ => False
  | .dropped _ => False
  | .aged => False
  | _ => True

/-- One pass after the other; each drops exactly the groups with a request that would exceed the bound. -/
inductive AgeingLog (maxOffPolicySteps : Nat) : List (SchedulerEvent R) → Prop
  | nil : AgeingLog maxOffPolicySteps []
  | quiet {events event} (h : AgeingLog maxOffPolicySteps events) (hquiet : event.Quiet) :
      AgeingLog maxOffPolicySteps (events ++ [event])
  | scheduled {events task groupId cacheSalt} (h : AgeingLog maxOffPolicySteps events) :
      AgeingLog maxOffPolicySteps (events ++ [.scheduled task groupId cacheSalt])
  | ageing {events requests} (h : AgeingLog maxOffPolicySteps events) (hclosed : openPass events = none)
      (hage : ∀ e ∈ requests, e.2.offPolicySteps = passesSince events e.1) :
      AgeingLog maxOffPolicySteps (events ++ [.ageing requests])
  | dropped {events pass groupId} (h : AgeingLog maxOffPolicySteps events) (hopen : openPass events = some pass)
      (hexceeds : pass.Exceeds maxOffPolicySteps groupId) : AgeingLog maxOffPolicySteps (events ++ [.dropped groupId])
  | aged {events pass} (h : AgeingLog maxOffPolicySteps events) (hopen : openPass events = some pass)
      (hall : ∀ groupId, pass.Exceeds maxOffPolicySteps groupId → groupId ∈ pass.dropped) :
      AgeingLog maxOffPolicySteps (events ++ [.aged])

section Log

variable {events : List (SchedulerEvent R)} {event : SchedulerEvent R} {task : TaskId}

theorem openPass_append : openPass (events ++ [event]) = passStep (openPass events) event := by
  simp [openPass]

theorem SchedulerEvent.Quiet.openPass (h : event.Quiet) :
    Orchestrator.openPass (events ++ [event]) = Orchestrator.openPass events := by
  rw [openPass_append]
  cases event <;> first | rfl | exact h.elim

theorem SchedulerEvent.Quiet.isAgeing (h : event.Quiet) : event.isAgeing = false := by
  cases event <;> first | rfl | exact h.elim

theorem SchedulerEvent.Quiet.scheduledTask? (h : event.Quiet) : event.scheduledTask? = none := by
  cases event <;> first | rfl | exact h.elim

theorem scheduledTasks_append : scheduledTasks (events ++ [event]) = scheduledTasks events ++
    event.scheduledTask?.toList := by
  unfold scheduledTasks
  rw [List.filterMap_append]
  cases h : event.scheduledTask? <;> simp [h]

theorem mem_scheduledTasks : task ∈ scheduledTasks events ↔ ∃ event ∈ events, event.scheduledTask? = some task :=
  List.mem_filterMap

theorem passesSince_append (h : event.isAgeing = false) :
    passesSince (events ++ [event]) task = passesSince events task := by
  unfold passesSince
  induction events with
  | nil =>
      rw [List.nil_append, List.dropWhile_cons]
      split <;> simp [h]
  | cons event' events ih =>
      rw [List.cons_append, List.dropWhile_cons, List.dropWhile_cons]
      by_cases hscheduled : event'.scheduledTask? = some task
      · simp [hscheduled, List.countP_append, List.countP_cons, h]
      · simpa [hscheduled] using ih

theorem passesSince_append_ageing (h : task ∈ scheduledTasks events) (requests : List (TaskId × InflightRequest)) :
    passesSince (events ++ [.ageing requests]) task = passesSince events task + 1 := by
  obtain ⟨event, hevent, htask⟩ := mem_scheduledTasks.1 h
  unfold passesSince
  rw [List.dropWhile_append, if_neg]
  · simp [List.countP_append, SchedulerEvent.isAgeing]
  · -- what is left begins with the scheduling
    intro hempty
    have hall := List.dropWhile_eq_nil_iff.1 (List.isEmpty_iff.1 hempty) event hevent
    simp [htask] at hall

theorem passesSince_eq_zero (h : task ∉ scheduledTasks events) : passesSince events task = 0 := by
  have hempty : (events.dropWhile fun event => event.scheduledTask? ≠ some task) = [] := by
    refine List.dropWhile_eq_nil_iff.2 fun event hevent => ?_
    exact decide_eq_true fun htask => h (mem_scheduledTasks.2 ⟨event, hevent, htask⟩)
  unfold passesSince
  rw [hempty]
  rfl

end Log

/-! ## The invariant -/

/-- The tasks that the pass of a duty will increment, and the groups it has still to drop. -/
def Duty.pass? : Duty R → Option (List TaskId × List GroupId)
  | .ageing _ tasks pending => some (tasks, pending)
  | _ => none

/-- How old a request is, in the pass of `running` if there is one. -/
def InflightRequest.AgedBy (info : InflightRequest) (task : TaskId) (config : SchedulerConfig) (passes : Nat) :
    Option (List TaskId × List GroupId) → Prop
  | none => info.offPolicySteps = passes
  | some (tasks, pending) =>
      (task ∈ tasks ∧ info.offPolicySteps + 1 = passes ∧ info.offPolicySteps < config.maxOffPolicySteps) ∨
        (∃ groupId ∈ pending, info.groupId = some groupId) ∨ (task ∉ tasks ∧ info.offPolicySteps = passes)

/-- The log knows of the pass that is running, and the groups it has to drop are those with a request too old. -/
def Underway (config : SchedulerConfig) (s : SchedulerState R) : Option (List TaskId × List GroupId) → Prop
  | none => openPass s.events = none
  | some (tasks, pending) => ∃ pass, openPass s.events = some pass ∧
      (∀ groupId, pass.Exceeds config.maxOffPolicySteps groupId ↔ groupId ∈ pending ∨ groupId ∈ pass.dropped) ∧
      tasks.Nodup ∧ (∀ task ∈ tasks, task < s.nextTask) ∧ ∀ groupId ∈ pending, groupId < s.nextGroupId

structure AgedBy (config : SchedulerConfig) (running : Option (List TaskId × List GroupId)) (s : SchedulerState R) :
    Prop where
  log : AgeingLog config.maxOffPolicySteps s.events
  underway : Underway config s running
  age : ∀ task info, s.inflightRequests.get? task = some info → info.AgedBy task config (passesSince s.events task) running
  bound : ∀ task info, s.inflightRequests.get? task = some info → info.offPolicySteps ≤ config.maxOffPolicySteps
  scheduled : ∀ task info, s.inflightRequests.get? task = some info → task ∈ scheduledTasks s.events
  scheduledOnce : (scheduledTasks s.events).Nodup
  dropped : ∀ groupId, .dropped groupId ∈ s.events → groupId < s.nextGroupId ∧ s.groups.get? groupId = none

def Aged (config : SchedulerConfig) (ds : List (Duty R)) (s : SchedulerState R) : Prop :=
  ∃ running, ds.filterMap Duty.pass? = running.toList ∧ AgedBy config running s

/-- Requests and groups only leave, and ids only grow. -/
structure Lessens (s s' : SchedulerState R) : Prop where
  events : s'.events = s.events
  requests : ∀ task info, s'.inflightRequests.get? task = some info → s.inflightRequests.get? task = some info
  groups : ∀ groupId < s.nextGroupId, s.groups.get? groupId = none → s'.groups.get? groupId = none
  nextTask : s.nextTask ≤ s'.nextTask
  nextGroupId : s.nextGroupId ≤ s'.nextGroupId

namespace Lessens

variable {s s' s'' : SchedulerState R}

theorem same (hevents : s'.events = s.events) (hrequests : s'.inflightRequests = s.inflightRequests)
    (hgroups : s'.groups = s.groups) (hnextTask : s.nextTask ≤ s'.nextTask) (hnextGroup : s'.nextGroupId = s.nextGroupId) :
    Lessens s s' :=
  ⟨hevents, fun _ _ hinfo => hrequests ▸ hinfo, fun _ _ hnone => hgroups ▸ hnone, hnextTask, Nat.le_of_eq hnextGroup.symm⟩

theorem trans (h : Lessens s s') (h' : Lessens s' s'') : Lessens s s'' where
  events := h'.events.trans h.events
  requests task info hinfo := h.requests task info (h'.requests task info hinfo)
  groups groupId hlt hnone := h'.groups groupId (Nat.lt_of_lt_of_le hlt h.nextGroupId) (h.groups groupId hlt hnone)
  nextTask := Nat.le_trans h.nextTask h'.nextTask
  nextGroupId := Nat.le_trans h.nextGroupId h'.nextGroupId

theorem popRequest (task : TaskId) : Lessens s (s.popRequest task) :=
  ⟨rfl, fun _ _ hinfo => (SchedulerState.get?_popRequest hinfo).2, fun _ _ hnone => hnone, Nat.le_refl _, Nat.le_refl _⟩

theorem eraseGroup (groupId : GroupId) : Lessens s (s.eraseGroup groupId) := by
  refine ⟨rfl, fun _ _ hinfo => hinfo, fun groupId' _ hnone => ?_, Nat.le_refl _, Nat.le_refl _⟩
  show (s.groups.erase groupId).get? groupId' = none
  rw [Dict.get?_erase]
  simp [hnone]

theorem withoutGroup (groupId : GroupId) : Lessens s (s.withoutGroup groupId) := by
  refine ⟨rfl, fun task info hinfo => ?_, (eraseGroup groupId).groups, Nat.le_refl _, Nat.le_refl _⟩
  change (s.inflightRequests.filter _).get? task = _ at hinfo
  rw [Dict.get?_filter, Option.filter_eq_some_iff] at hinfo
  exact hinfo.1

theorem withGroup {groupId : GroupId} {group : GroupState R} (hgroup : s.groups.get? groupId = some group)
    (group' : GroupState R) : Lessens s (s.withGroup groupId group') := by
  refine ⟨rfl, fun _ _ hinfo => hinfo, fun groupId' _ hnone => ?_, Nat.le_refl _, Nat.le_refl _⟩
  have hne : groupId ≠ groupId' := by
    rintro rfl
    rw [hgroup] at hnone
    cases hnone
  exact (Dict.get?_insert_ne _ _ hne).trans hnone

theorem collect (task : TaskId) {groupId : GroupId} {group : GroupState R}
    (hgroup : s.groups.get? groupId = some group) (group' : GroupState R) :
    Lessens s ((s.popRequest task).withGroup groupId group') :=
  (popRequest task).trans (withGroup (s := s.popRequest task) hgroup group')

theorem addGroup (config : SchedulerConfig) (ex : Example) : Lessens s (s.addGroup config ex) :=
  ⟨rfl, fun _ _ hinfo => hinfo, fun _ hlt hnone => (Dict.get?_insert_ne _ _ (Nat.ne_of_gt hlt)).trans hnone,
    Nat.le_refl _, Nat.le_succ _⟩

theorem clearRollouts (count : Nat) : Lessens s (s.clearRollouts count) :=
  ⟨rfl, fun _ _ hinfo => (nomatch hinfo), fun _ _ _ => rfl, Nat.le_refl _, Nat.le_refl _⟩

end Lessens

namespace AgedBy

variable {config : SchedulerConfig} {running : Option (List TaskId × List GroupId)} {s s' : SchedulerState R}
  {groupId : GroupId} {tasks : List TaskId} {pending : List GroupId}

theorem lessens (h : AgedBy config running s) (hless : Lessens s s') : AgedBy config running s' := by
  obtain ⟨hevents, hrequests, hgroups, hnextTask, hnextGroup⟩ := hless
  have hunderway : Underway config s' running := by
    cases running with
    | none =>
        show openPass s'.events = none
        rw [hevents]
        exact h.underway
    | some tasksAndPending =>
        obtain ⟨pass, hopen, hexceeds, hnodup, htasks, hpending⟩ := h.underway
        exact ⟨pass, hevents ▸ hopen, hexceeds, hnodup, fun task htask => Nat.lt_of_lt_of_le (htasks task htask) hnextTask,
          fun groupId hgroupId => Nat.lt_of_lt_of_le (hpending groupId hgroupId) hnextGroup⟩
  refine ⟨hevents ▸ h.log, hunderway, ?_, fun task info hinfo => h.bound task info (hrequests task info hinfo), ?_,
    hevents ▸ h.scheduledOnce, ?_⟩
  · intro task info hinfo
    rw [hevents]
    exact h.age task info (hrequests task info hinfo)
  · intro task info hinfo
    rw [hevents]
    exact h.scheduled task info (hrequests task info hinfo)
  · intro groupId hdropped
    obtain ⟨hlt, hnone⟩ := h.dropped groupId (hevents ▸ hdropped)
    exact ⟨Nat.lt_of_lt_of_le hlt hnextGroup, hgroups groupId hlt hnone⟩

theorem record (h : AgedBy config running s) {event : SchedulerEvent R} (hquiet : event.Quiet) :
    AgedBy config running (s.record event) := by
  have hopen : openPass (s.record event).events = openPass s.events := hquiet.openPass
  have hscheduled : scheduledTasks (s.record event).events = scheduledTasks s.events := by
    show scheduledTasks (s.events ++ [event]) = _
    rw [scheduledTasks_append, hquiet.scheduledTask?, Option.toList_none, List.append_nil]
  have hpasses : ∀ task, passesSince (s.record event).events task = passesSince s.events task :=
    fun _ => passesSince_append hquiet.isAgeing
  have hunderway : Underway config (s.record event) running := by
    cases running with
    | none => exact hopen.trans h.underway
    | some tasksAndPending =>
        obtain ⟨pass, hpass, hrest⟩ := h.underway
        exact ⟨pass, hopen.trans hpass, hrest⟩
  refine ⟨.quiet h.log hquiet, hunderway, ?_, h.bound, ?_, hscheduled ▸ h.scheduledOnce, ?_⟩
  · intro task info hinfo
    rw [hpasses]
    exact h.age task info hinfo
  · rw [hscheduled]
    exact h.scheduled
  · intro groupId hdropped
    rcases List.mem_append.1 hdropped with hdropped | hdropped
    · exact h.dropped groupId hdropped
    · obtain rfl := List.mem_singleton.1 hdropped
      exact hquiet.elim

/-- The next request is new, so that no pass knows of it. -/
theorem startRequest (h : AgedBy config running s)
    (hids : ∀ event ∈ s.events, ∀ task ∈ event.scheduledTask?, task < s.nextTask) {group : GroupState R}
    (hgroup : s.groups.get? groupId = some group) (client : ClientConfig) :
    AgedBy config running (s.startRequest config groupId group client) := by
  have hfresh : s.nextTask ∉ scheduledTasks s.events := by
    intro hmem
    obtain ⟨event, hevent, htask⟩ := mem_scheduledTasks.1 hmem
    exact Nat.lt_irrefl _ (hids event hevent _ htask)
  have hevents : (s.startRequest config groupId group client).events =
      s.events ++ [.scheduled s.nextTask groupId s.ckptStep] := rfl
  have hopen : openPass (s.startRequest config groupId group client).events = openPass s.events := by
    rw [hevents, openPass_append]
    rfl
  have hscheduled : scheduledTasks (s.startRequest config groupId group client).events =
      scheduledTasks s.events ++ [s.nextTask] := by
    rw [hevents, scheduledTasks_append]
    rfl
  have hpasses : ∀ task, passesSince (s.startRequest config groupId group client).events task =
      passesSince s.events task := by
    intro task
    rw [hevents]
    exact passesSince_append rfl
  have hrequests : ∀ {task info}, (s.startRequest config groupId group client).inflightRequests.get? task = some info →
      (task = s.nextTask ∧ info.offPolicySteps = 0) ∨ s.inflightRequests.get? task = some info := by
    intro task info hinfo
    change (s.inflightRequests.insert s.nextTask _).get? task = _ at hinfo
    rw [Dict.get?_insert] at hinfo
    split at hinfo
    · rename_i htask
      cases hinfo
      exact .inl ⟨htask.symm, rfl⟩
    · exact .inr hinfo
  have hunderway : Underway config (s.startRequest config groupId group client) running := by
    cases running with
    | none => exact hopen.trans h.underway
    | some tasksAndPending =>
        obtain ⟨pass, hpass, hexceeds, hnodup, htasks, hpending⟩ := h.underway
        exact ⟨pass, hopen.trans hpass, hexceeds, hnodup, fun task htask => Nat.lt_succ_of_lt (htasks task htask), hpending⟩
  refine ⟨.scheduled h.log, hunderway, ?_, ?_, ?_, ?_, ?_⟩
  · intro task info hinfo
    rw [hpasses]
    rcases hrequests hinfo with ⟨rfl, hzero⟩ | hinfo
    · rw [passesSince_eq_zero hfresh]
      cases running with
      | none => exact hzero
      | some tasksAndPending =>
          obtain ⟨pass, hpass, hexceeds, hnodup, htasks, hpending⟩ := h.underway
          exact Or.inr (Or.inr ⟨fun htask => Nat.lt_irrefl _ (htasks _ htask), hzero⟩)
    · exact h.age task info hinfo
  · intro task info hinfo
    rcases hrequests hinfo with ⟨rfl, hzero⟩ | hinfo
    · rw [hzero]
      exact Nat.zero_le _
    · exact h.bound task info hinfo
  · intro task info hinfo
    rw [hscheduled, List.mem_append]
    rcases hrequests hinfo with ⟨rfl, -⟩ | hinfo
    · exact Or.inr (List.mem_singleton_self _)
    · exact Or.inl (h.scheduled task info hinfo)
  · rw [hscheduled, List.nodup_append]
    refine ⟨h.scheduledOnce, List.nodup_singleton _, ?_⟩
    intro task htask task' htask' heq
    rw [List.mem_singleton.1 htask'] at heq
    exact hfresh (heq ▸ htask)
  · intro groupId' hdropped
    rw [hevents] at hdropped
    have hdropped : .dropped groupId' ∈ s.events := by simpa using hdropped
    obtain ⟨hlt, hnone⟩ := h.dropped groupId' hdropped
    refine ⟨hlt, ?_⟩
    show (s.groups.insert groupId _).get? groupId' = none
    rw [Dict.get?_insert_ne _ _ fun heq => ?_]
    · exact hnone
    · rw [← heq, hgroup] at hnone
      cases hnone

/-- A pass begins: the requests too old for another update are those of the groups to be dropped. -/
theorem ageing (h : AgedBy config none s)
    (hlive : ∀ task info, s.inflightRequests.get? task = some info → task < s.nextTask ∧
      ∃ groupId < s.nextGroupId, info.groupId = some groupId) :
    AgedBy config (some (s.tasksToIncrement config, s.staleGroupIds config))
      (s.record (.ageing s.inflightRequests.entries)) := by
  have hevents : (s.record (.ageing s.inflightRequests.entries)).events =
      s.events ++ [.ageing s.inflightRequests.entries] := rfl
  have hscheduled : scheduledTasks (s.record (.ageing s.inflightRequests.entries)).events = scheduledTasks s.events := by
    rw [hevents, scheduledTasks_append]
    exact List.append_nil _
  refine ⟨.ageing h.log h.underway fun e he => ?_, ?_, ?_, h.bound, ?_, hscheduled ▸ h.scheduledOnce, ?_⟩
  · exact h.age e.1 e.2 ((Dict.mem_entries_iff _ _ _).1 he)
  · refine ⟨⟨s.inflightRequests.entries, []⟩, ?_, ?_, ?_, ?_, ?_⟩
    · rw [hevents, openPass_append]
      rfl
    · intro groupId
      rw [SchedulerState.mem_staleGroupIds]
      constructor
      · rintro ⟨e, he, hgroupId, hage⟩
        exact Or.inl ⟨e.1, e.2, (Dict.mem_entries_iff _ _ _).1 he, hgroupId, Nat.le_of_lt_succ hage⟩
      · rintro (⟨task, info, hinfo, hgroupId, hage⟩ | hmem)
        · exact ⟨(task, info), (Dict.mem_entries_iff _ _ _).2 hinfo, hgroupId, Nat.lt_succ_of_le hage⟩
        · cases hmem
    · exact (List.filter_sublist.map Prod.fst).nodup s.inflightRequests.nodup
    · intro task htask
      obtain ⟨info, hinfo, -⟩ := SchedulerState.mem_tasksToIncrement.1 htask
      exact (hlive task info hinfo).1
    · intro groupId hmem
      obtain ⟨task, info, hinfo, hgroupId, -⟩ := SchedulerState.mem_staleGroupIds.1 hmem
      obtain ⟨-, groupId', hlt, hgroupId'⟩ := hlive task info hinfo
      rw [hgroupId] at hgroupId'
      exact Option.some.inj hgroupId' ▸ hlt
  · intro task info hinfo
    have hage : info.offPolicySteps = passesSince s.events task := h.age task info hinfo
    obtain ⟨-, groupId, -, hgroupId⟩ := hlive task info hinfo
    rw [hevents, passesSince_append_ageing (h.scheduled task info hinfo), ← hage]
    by_cases hmem : groupId ∈ s.staleGroupIds config
    · exact Or.inr (Or.inl ⟨groupId, hmem, hgroupId⟩)
    · refine Or.inl ⟨SchedulerState.mem_tasksToIncrement.2 ⟨info, hinfo, fun groupId' hgroupId' => ?_⟩, rfl, ?_⟩
      · rw [hgroupId] at hgroupId'
        exact Option.some.inj hgroupId' ▸ hmem
      · apply Nat.lt_of_not_le
        intro hle
        exact hmem (SchedulerState.mem_staleGroupIds.2 ⟨task, info, hinfo, hgroupId, hle⟩)
  · intro task info hinfo
    rw [hscheduled]
    exact h.scheduled task info hinfo
  · intro groupId hdropped
    rw [hevents] at hdropped
    exact h.dropped groupId (by simpa using hdropped)

/-- One drop of the pass runs up to its await. -/
theorem drop (h : AgedBy config (some (tasks, pending)) s) (hmem : groupId ∈ pending) :
    AgedBy config (some (tasks, pending.erase groupId)) (s.startDrop groupId) := by
  obtain ⟨pass, hopen, hexceeds, hnodup, htasks, hpending⟩ := h.underway
  have hevents : (s.startDrop groupId).events = s.events ++ [.dropped groupId] := rfl
  have hscheduled : scheduledTasks (s.startDrop groupId).events = scheduledTasks s.events := by
    rw [hevents, scheduledTasks_append]
    exact List.append_nil _
  have hrequests : ∀ {task info}, (s.startDrop groupId).inflightRequests.get? task = some info →
      info.groupId ≠ some groupId ∧ s.inflightRequests.get? task = some info := by
    intro task info hinfo
    change (s.inflightRequests.filter _).get? task = _ at hinfo
    rw [Dict.get?_filter, Option.filter_eq_some_iff] at hinfo
    exact ⟨of_decide_eq_true hinfo.2, hinfo.1⟩
  have hgroups : ∀ groupId', (s.startDrop groupId).groups.get? groupId' =
      if groupId = groupId' then none else s.groups.get? groupId' := fun groupId' => Dict.get?_erase _ _ _
  refine ⟨.dropped h.log hopen ((hexceeds groupId).2 (Or.inl hmem)), ?_, ?_,
    fun task info hinfo => h.bound task info (hrequests hinfo).2, ?_, hscheduled ▸ h.scheduledOnce, ?_⟩
  · refine ⟨{ pass with dropped := pass.dropped ++ [groupId] }, ?_, ?_, hnodup, htasks,
      fun groupId' hgroupId' => hpending groupId' (List.mem_of_mem_erase hgroupId')⟩
    · rw [hevents, openPass_append, hopen]
      rfl
    · intro groupId'
      have hbefore := hexceeds groupId'
      change pass.Exceeds config.maxOffPolicySteps groupId' ↔ _ ∨ groupId' ∈ pass.dropped ++ [groupId]
      rw [hbefore, List.mem_append, List.mem_singleton]
      by_cases heq : groupId' = groupId
      · simp [heq, hmem]
      · rw [List.mem_erase_of_ne heq]
        simp [heq]
  · intro task info hinfo
    obtain ⟨hother, hinfo⟩ := hrequests hinfo
    have hpasses : passesSince (s.startDrop groupId).events task = passesSince s.events task := passesSince_append rfl
    rw [hpasses]
    rcases h.age task info hinfo with hold | ⟨groupId', hgroupId', hinfoGroup⟩ | hnew
    · exact Or.inl hold
    · refine Or.inr (Or.inl ⟨groupId', ?_, hinfoGroup⟩)
      apply (List.mem_erase_of_ne _).2 hgroupId'
      rintro rfl
      exact hother hinfoGroup
    · exact Or.inr (Or.inr hnew)
  · intro task info hinfo
    rw [hscheduled]
    exact h.scheduled task info (hrequests hinfo).2
  · intro groupId' hdropped
    rw [hgroups]
    rcases List.mem_append.1 hdropped with hdropped | hdropped
    · obtain ⟨hlt, hnone⟩ := h.dropped groupId' hdropped
      exact ⟨hlt, by simp [hnone]⟩
    · cases List.mem_singleton.1 hdropped
      exact ⟨hpending groupId hmem, if_pos rfl⟩

/-- A pass ends: what was in flight when it began and still is has seen one update more. -/
theorem aged (h : AgedBy config (some (tasks, [])) s) (count : Nat) :
    AgedBy config none
      ({ s.incrementOffPolicy tasks with cancelledRolloutsCount := s.cancelledRolloutsCount + count }.record .aged) := by
  obtain ⟨pass, hopen, hexceeds, hnodup, htasks, -⟩ := h.underway
  let s' := { s.incrementOffPolicy tasks with cancelledRolloutsCount := s.cancelledRolloutsCount + count }.record .aged
  have hevents : s'.events = s.events ++ [.aged] := rfl
  have hscheduled : scheduledTasks s'.events = scheduledTasks s.events := by
    rw [hevents, scheduledTasks_append]
    exact List.append_nil _
  have hrequests : ∀ {task info}, s'.inflightRequests.get? task = some info →
      ∃ info₀, s.inflightRequests.get? task = some info₀ ∧ info.offPolicySteps = info₀.offPolicySteps + tasks.count task := by
    intro task info hinfo
    change (s.incrementOffPolicy tasks).inflightRequests.get? task = _ at hinfo
    rw [SchedulerState.get?_incrementOffPolicy] at hinfo
    obtain ⟨info₀, hinfo₀, rfl⟩ := Option.map_eq_some_iff.1 hinfo
    exact ⟨info₀, hinfo₀, rfl⟩
  have hage : ∀ {task info}, s.inflightRequests.get? task = some info →
      info.offPolicySteps + tasks.count task = passesSince s.events task ∧
        info.offPolicySteps + tasks.count task ≤ config.maxOffPolicySteps := by
    intro task info hinfo
    have hbound := h.bound task info hinfo
    rcases h.age task info hinfo with ⟨hmem, hpasses, hlt⟩ | ⟨groupId, hmem, -⟩ | ⟨hnot, hpasses⟩
    · rw [List.count_eq_one_of_mem hnodup hmem]
      exact ⟨hpasses, hlt⟩
    · cases hmem
    · rw [List.count_eq_zero_of_not_mem hnot]
      exact ⟨hpasses, hbound⟩
  refine ⟨.aged h.log hopen fun groupId hgroup => ?_, ?_, ?_, ?_, ?_, hscheduled ▸ h.scheduledOnce, ?_⟩
  · rcases (hexceeds groupId).1 hgroup with hmem | hmem
    · cases hmem
    · exact hmem
  · show openPass s'.events = none
    rw [hevents, openPass_append]
    rfl
  · intro task info hinfo
    obtain ⟨info₀, hinfo₀, hoff⟩ := hrequests hinfo
    have hpasses : passesSince s'.events task = passesSince s.events task := passesSince_append rfl
    show info.offPolicySteps = passesSince s'.events task
    rw [hpasses, hoff]
    exact (hage hinfo₀).1
  · intro task info hinfo
    obtain ⟨info₀, hinfo₀, hoff⟩ := hrequests hinfo
    rw [hoff]
    exact (hage hinfo₀).2
  · intro task info hinfo
    obtain ⟨info₀, hinfo₀, -⟩ := hrequests hinfo
    rw [hscheduled]
    exact h.scheduled task info₀ hinfo₀
  · intro groupId hdropped
    rw [hevents] at hdropped
    exact h.dropped groupId (by simpa using hdropped)

end AgedBy

/-! ## One pass at a time -/

section Alone

variable {config : SchedulerConfig} {ds ds' : List (Duty R)} {d d' : Duty R} {s s' : SchedulerState R} {self : TaskId}
  {ager : Ager} {tasks : List TaskId} {pending : List GroupId}

/-- The update that is applied is the only one, and nobody commits. -/
theorem Tasked.noPass_of_applies (h : Tasked config (d :: ds) s) (hd : d.role = .applies self) :
    ds.filterMap Duty.pass? = [] := by
  obtain ⟨hself, hforeground⟩ := h.updating self (mem_roles_cons.2 (Or.inl hd.symm))
  have hperm := selves_cons_perm d ds s
  rw [hd] at hperm
  have hnot := (List.nodup_cons.1 (hperm.nodup_iff.1 h.apart)).1
  refine List.filterMap_eq_nil_iff.2 fun d' hd' => ?_
  cases d' with
  | ageing ager tasks pending =>
      have hrole : (Duty.ageing ager tasks pending : Duty R).role ∈ roles ds s :=
        List.mem_append_right _ (List.mem_map_of_mem hd')
      cases ager with
      | apply self' =>
          have hself' := (h.updating self' (mem_roles_cons.2 (Or.inr hrole))).1
          obtain rfl : self = self' := Option.some.inj (hself.symm.trans hself')
          exact (hnot (List.mem_filterMap.2 ⟨_, hrole, rfl⟩)).elim
      | commit stageTask =>
          have hbackground := h.committing (mem_roles_cons.2 (Or.inr hrole))
          rw [hforeground] at hbackground
          cases hbackground
  | _ => rfl

/-- Only the one call commits, and nothing is applied. -/
theorem Tasked.noPass_of_commits (h : Tasked config (d :: ds) s) (hcalls : ∀ d' ∈ ds, d'.IsCall = false)
    (hd : d.role = .commits) : ds.filterMap Duty.pass? = [] := by
  have hbackground := h.committing (mem_roles_cons.2 (Or.inl hd.symm))
  refine List.filterMap_eq_nil_iff.2 fun d' hd' => ?_
  cases d' with
  | ageing ager tasks pending =>
      cases ager with
      | apply self =>
          have hrole : Role.applies self ∈ roles ds s := List.mem_append_right _ (List.mem_map_of_mem hd')
          have hforeground := (h.updating self (mem_roles_cons.2 (Or.inr hrole))).2
          rw [hbackground] at hforeground
          cases hforeground
      | commit stageTask => cases hcalls _ hd'
  | _ => rfl

namespace Aged

theorem perm (h : Aged config ds s) (hperm : ds.Perm ds') : Aged config ds' s := by
  obtain ⟨running, hrunning, hage⟩ := h
  have hpasses := hperm.filterMap Duty.pass?
  rw [hrunning] at hpasses
  refine ⟨running, ?_, hage⟩
  cases running with
  | none => exact hpasses.symm.eq_nil
  | some tasksAndPending => exact List.perm_singleton.1 hpasses.symm

theorem keep (h : Aged config ds s) (hkeep : ∀ running, AgedBy config running s → AgedBy config running s') :
    Aged config ds s' := by
  obtain ⟨running, hrunning, hage⟩ := h
  exact ⟨running, hrunning, hkeep running hage⟩

theorem lessens (h : Aged config ds s) (hless : Lessens s s') : Aged config ds s' := h.keep fun _ hage => hage.lessens hless

theorem record (h : Aged config ds s) (event : SchedulerEvent R) (hquiet : event.Quiet) :
    Aged config ds (s.record event) := h.keep fun _ hage => hage.record hquiet

theorem setReady (h : Aged config ds s) : Aged config ds s.setReady := h.lessens (.same rfl rfl rfl (Nat.le_refl _) rfl)

theorem clearReady (h : Aged config ds s) : Aged config ds s.clearReady :=
  h.lessens (.same rfl rfl rfl (Nat.le_refl _) rfl)

theorem forgetStage (h : Aged config ds s) (task : TaskId) : Aged config ds (s.forgetStage task) := by
  unfold SchedulerState.forgetStage
  split
  · exact h.lessens (.same rfl rfl rfl (Nat.le_refl _) rfl)
  · exact h

theorem cons (h : Aged config ds s) (hd : d.pass? = none) : Aged config (d :: ds) s := by
  obtain ⟨running, hrunning, hage⟩ := h
  exact ⟨running, by rw [List.filterMap_cons_none hd, hrunning], hage⟩

theorem tail (h : Aged config (d :: ds) s) (hd : d.pass? = none) : Aged config ds s := by
  obtain ⟨running, hrunning, hage⟩ := h
  rw [List.filterMap_cons_none hd] at hrunning
  exact ⟨running, hrunning, hage⟩

theorem move (h : Aged config (d :: ds) s) (hd : d.pass? = none) (hd' : d'.pass? = none) : Aged config (d' :: ds) s :=
  (h.tail hd).cons hd'

theorem passes_ageing : (Duty.ageing ager tasks pending :: ds : List (Duty R)).filterMap Duty.pass? =
    (tasks, pending) :: ds.filterMap Duty.pass? := List.filterMap_cons_some rfl

/-- Who ages the requests runs the only pass. -/
theorem running (h : Aged config (.ageing ager tasks pending :: ds) s) :
    AgedBy config (some (tasks, pending)) s ∧ ds.filterMap Duty.pass? = [] := by
  obtain ⟨running, hrunning, hage⟩ := h
  rw [passes_ageing] at hrunning
  cases running with
  | none => cases hrunning
  | some tasksAndPending =>
      obtain ⟨rfl, hrest⟩ := List.cons.inj hrunning
      exact ⟨hage, hrest⟩

/-- A new version is there, and a pass begins. -/
theorem beginAgeing (h : Aged config (d :: ds) s)
    (hlive : ∀ task info, s.inflightRequests.get? task = some info → task < s.nextTask ∧
      ∃ groupId < s.nextGroupId, info.groupId = some groupId)
    (hd : d.pass? = none) (hnone : ds.filterMap Duty.pass? = []) (step : Nat) :
    Aged config (.ageing ager (s.tasksToIncrement config) (s.staleGroupIds config) :: ds)
      (s.beginAgeing config step) := by
  obtain ⟨running, hrunning, hage⟩ := h.tail hd
  rw [hnone] at hrunning
  cases running with
  | some tasksAndPending => cases hrunning
  | none =>
      have hupdated : AgedBy config none (s.record (.updated step)) := hage.record trivial
      have hadvanced : AgedBy config none { s.advance step with dropping := s.staleGroupIds config } :=
        hupdated.lessens ⟨rfl, fun _ _ hinfo => hinfo, fun _ _ hnone => hnone, Nat.le_refl _, Nat.le_refl _⟩
      refine ⟨some (s.tasksToIncrement config, s.staleGroupIds config), ?_, hadvanced.ageing hlive⟩
      rw [passes_ageing, hnone]
      rfl

theorem startDrop {groupId : GroupId} (h : Aged config (.ageing ager tasks pending :: ds) s) (hmem : groupId ∈ pending) :
    Aged config (.ageing ager tasks (pending.erase groupId) :: ds) (s.startDrop groupId) := by
  obtain ⟨hage, hrest⟩ := h.running
  refine ⟨some (tasks, pending.erase groupId), ?_, hage.drop hmem⟩
  rw [passes_ageing, hrest]
  rfl

theorem endPass (h : Aged config (.ageing ager tasks [] :: ds) s) (count : Nat) : Aged config (.aged ager :: ds)
    ({ s.incrementOffPolicy tasks with cancelledRolloutsCount := s.cancelledRolloutsCount + count }.record .aged) := by
  obtain ⟨hage, hrest⟩ := h.running
  refine ⟨none, ?_, hage.aged count⟩
  rw [List.filterMap_cons_none rfl, hrest]
  rfl

end Aged

end Alone

/-! ## Every operation -/

variable [RolloutOutput R]

/-- The accounts, the tasks and the ages. -/
structure Kept (config : SchedulerConfig) (ds : List (Duty R)) (s : SchedulerState R) : Prop where
  counted : Counted config ds s
  tasked : Tasked config ds s
  aged : Aged config ds s

namespace Kept

variable {config : SchedulerConfig} {ds : List (Duty R)} {d : Duty R} {s : SchedulerState R}

theorem live (h : Kept config ds s) (task : TaskId) (info : InflightRequest)
    (hinfo : s.inflightRequests.get? task = some info) :
    task < s.nextTask ∧ ∃ groupId < s.nextGroupId, info.groupId = some groupId := by
  obtain ⟨groupId, group, hgroupId, hgroup⟩ := h.counted.books.live task info hinfo
  exact ⟨h.counted.books.taskIds task info hinfo, groupId, h.counted.books.groupIds groupId group hgroup, hgroupId⟩

end Kept

/-- Every operation keeps the ages, next to the accounts and the tasks. -/
theorem kept_preserved (config : SchedulerConfig) : Preserved (R := R) config EventLoop (Kept config) := by
  have hc := counted_preserved (R := R) config
  have ht := tasked_preserved (R := R) config
  exact {
    perm := fun hperm h => ⟨hc.perm hperm h.counted, ht.perm hperm h.tasked, h.aged.perm hperm⟩
    rolloutDone := fun h hadmits => ⟨hc.rolloutDone h.counted hadmits, ht.rolloutDone h.tasked hadmits,
      h.aged.lessens (.same rfl rfl rfl (Nat.le_refl _) rfl)⟩
    broadcast := fun h hadmits => ⟨hc.broadcast h.counted hadmits, ht.broadcast h.tasked hadmits,
      h.aged.lessens (.same rfl rfl rfl (Nat.le_refl _) rfl)⟩
    cleanBroadcast := fun h hadmits => ⟨hc.cleanBroadcast h.counted hadmits, ht.cleanBroadcast h.tasked hadmits,
      h.aged.lessens (.same rfl rfl rfl (Nat.le_refl _) rfl)⟩
    beginGenerate := fun {ds s fuel step} h hadmits => by
      have hcalling : Aged config ds { s with calling := true, step := step } :=
        h.aged.lessens (.same rfl rfl rfl (Nat.le_refl _) rfl)
      exact ⟨hc.beginGenerate h.counted hadmits, ht.beginGenerate h.tasked hadmits, hcalling.cons rfl⟩
    cancelLoop := fun h htask => ⟨hc.cancelLoop h.counted htask, ht.cancelLoop h.tasked htask,
      h.aged.lessens (.same rfl rfl rfl (Nat.le_refl _) rfl)⟩
    passBarrier := fun {ds s} h hnext => by
      have hloop : Aged config (.starting :: ds) (s.withTask .updateLoop) :=
        h.aged.lessens (.same rfl rfl rfl (Nat.le_succ _) rfl)
      have hrecorded : Aged config (.starting :: ds)
          ((s.withTask .updateLoop).record (.passedBarrier s.step s.ckptStep)) := hloop.record _ trivial
      have hpassed : Aged config (.starting :: ds) s.passBarrier :=
        hrecorded.lessens (.same rfl rfl rfl (Nat.le_refl _) rfl)
      exact ⟨hc.passBarrier h.counted hnext, ht.passBarrier h.tasked hnext, hpassed.move rfl rfl⟩
    returned := fun h => ⟨hc.returned h.counted, ht.returned h.tasked, h.aged.record _ trivial⟩
    beginEvaluate := fun {ds s cancel} h hadmits => by
      have hcalling : Aged config ds { s with calling := true } :=
        h.aged.lessens (.same rfl rfl rfl (Nat.le_refl _) rfl)
      exact ⟨hc.beginEvaluate h.counted hadmits, ht.beginEvaluate h.tasked hadmits,
        (hcalling.clearReady.record .evalStarted trivial).cons rfl⟩
    clearRollouts := fun h => ⟨hc.clearRollouts h.counted, ht.clearRollouts h.tasked, h.aged.lessens (.clearRollouts _)⟩
    evaluated := fun h => ⟨hc.evaluated h.counted, ht.evaluated h.tasked, h.aged.setReady.record _ trivial⟩
    endCall := fun {ds s d} hd h => by
      have hpass : d.pass? = none := by
        cases d with
        | ageing ager tasks pending => cases hd
        | _ => rfl
      exact ⟨hc.endCall hd h.counted, ht.endCall hd h.tasked,
        (h.aged.tail hpass).lessens (.same rfl rfl rfl (Nat.le_refl _) rfl)⟩
    startStage := fun hd h huses hbehind hnone => ⟨hc.startStage hd h.counted huses hbehind hnone,
      ht.startStage hd h.tasked huses hbehind hnone, h.aged.lessens (.same rfl rfl rfl (Nat.le_succ _) rfl)⟩
    startApply := fun hd h huses hbehind hnone => ⟨hc.startApply hd h.counted huses hbehind hnone,
      ht.startApply hd h.tasked huses hbehind hnone, h.aged.lessens (.same rfl rfl rfl (Nat.le_succ _) rfl)⟩
    beginCommit := fun h huses htask => ⟨hc.beginCommit h.counted huses htask, ht.beginCommit h.tasked huses htask,
      (h.aged.clearReady).move rfl rfl⟩
    joinedStage := fun h hfinished => ⟨hc.joinedStage h.counted hfinished, ht.joinedStage h.tasked hfinished,
      h.aged.move rfl rfl⟩
    committedStage := fun {ds s task policy q} h hothers hadmits => by
      have hnone := h.tasked.noPass_of_commits (h.counted.others rfl) rfl
      have hcommitted : Aged config (.commitReady task policy :: ds) (s.record (.committed (toString policy.step))) :=
        h.aged.record _ trivial
      exact ⟨hc.committedStage h.counted hothers hadmits, ht.committedStage h.tasked hothers hadmits,
        hcommitted.beginAgeing h.live rfl hnone _⟩
    abortCommit := fun h => ⟨⟨(hc.abortCommit h.counted).1, (ht.abortCommit h.tasked).1,
        (h.aged.forgetStage _).move rfl rfl⟩,
      (hc.abortCommit h.counted).2, (ht.abortCommit h.tasked).2,
        (h.aged.setReady.forgetStage _).move rfl rfl⟩
    abortCommitReady := fun h => ⟨hc.abortCommitReady h.counted, ht.abortCommitReady h.tasked, h.aged.move rfl rfl⟩
    agedCommit := fun h => ⟨hc.agedCommit h.counted, ht.agedCommit h.tasked,
      (h.aged.forgetStage _).move rfl rfl⟩
    startDrop := fun h hmem => ⟨hc.startDrop h.counted hmem, ht.startDrop h.tasked hmem, h.aged.startDrop hmem⟩
    aged := fun h => ⟨hc.aged h.counted, ht.aged h.tasked, h.aged.endPass _⟩
    startTask := fun {ds s fuel self task} h hadmits => by
      have hstarted : Aged config ds (s.start self) := h.aged.lessens (.same rfl rfl rfl (Nat.le_refl _) rfl)
      exact ⟨hc.startTask h.counted hadmits, ht.startTask h.tasked hadmits, hstarted.cons rfl⟩
    finishTask := fun hends h => ⟨hc.finishTask hends h.counted, ht.finishTask hends h.tasked,
      (h.aged.tail (by cases hends <;> rfl)).lessens (.same rfl rfl rfl (Nat.le_refl _) rfl)⟩
    beginApply := fun h hstep => ⟨hc.beginApply h.counted hstep, ht.beginApply h.tasked hstep, h.aged.move rfl rfl⟩
    beginWait := fun h hstep => ⟨hc.beginWait h.counted hstep, ht.beginWait h.tasked hstep,
      (h.aged.clearReady).move rfl rfl⟩
    foundStable := fun h hdir hstable => ⟨hc.foundStable h.counted hdir hstable, ht.foundStable h.tasked hdir hstable,
      h.aged.move rfl rfl⟩
    stagedApply := fun h hstage => ⟨hc.stagedApply h.counted hstage, ht.stagedApply h.tasked hstage, h.aged.move rfl rfl⟩
    committedApply := fun {ds s self step cleared q} h hothers hadmits => by
      have hnone := h.tasked.noPass_of_applies rfl
      have hcommitted : Aged config (.applying self step cleared .staged :: ds) (s.record (.committed (toString step))) :=
        h.aged.record _ trivial
      exact ⟨hc.committedApply h.counted hothers hadmits, ht.committedApply h.tasked hothers hadmits,
        hcommitted.beginAgeing h.live rfl hnone _⟩
    updatedApply := fun h hdirect hothers hadmits => ⟨hc.updatedApply h.counted hdirect hothers hadmits,
      ht.updatedApply h.tasked hdirect hothers hadmits,
      h.aged.beginAgeing h.live rfl (h.tasked.noPass_of_applies rfl) _⟩
    failApply := fun h => ⟨⟨(hc.failApply h.counted).1, (ht.failApply h.tasked).1, h.aged.move rfl rfl⟩,
      fun hcleared => ⟨(hc.failApply h.counted).2 hcleared, (ht.failApply h.tasked).2 hcleared,
        (h.aged.setReady).move rfl rfl⟩⟩
    foundFile := fun h hdir hfile => ⟨hc.foundFile h.counted hdir hfile, ht.foundFile h.tasked hdir hfile,
      h.aged.move rfl rfl⟩
    stagedFile := fun h hadmits hstream => ⟨hc.stagedFile h.counted hadmits hstream, ht.stagedFile h.tasked hadmits hstream,
      h.aged.move rfl rfl⟩
    addGroup := fun h hroom => ⟨hc.addGroup h.counted hroom, ht.addGroup h.tasked hroom,
      (h.aged.lessens (.addGroup _ _)).move rfl rfl⟩
    reserve := fun h hnext hfree => ⟨hc.reserve h.counted hnext hfree, ht.reserve h.tasked hnext hfree, h.aged.move rfl rfl⟩
    startRequest := fun h hgroup => ⟨hc.startRequest h.counted hgroup, ht.startRequest h.tasked hgroup,
      (h.aged.keep fun _ hage => hage.startRequest h.counted.books.scheduledIds hgroup _).move rfl rfl⟩
    unreserve := fun h => ⟨hc.unreserve h.counted, ht.unreserve h.tasked, h.aged.move rfl rfl⟩
    wait := fun h hfull => ⟨hc.wait h.counted hfull, ht.wait h.tasked hfull, (h.aged.record (.waited _) trivial).move rfl rfl⟩
    woke := fun h hnodup hmem hadmits => ⟨hc.woke h.counted hnodup hmem hadmits, ht.woke h.tasked hnodup hmem hadmits,
      (h.aged.record (.woke _) trivial).move rfl rfl⟩
    awaitReady := fun h => ⟨hc.awaitReady h.counted, ht.awaitReady h.tasked, h.aged.move rfl rfl⟩
    collectNow := fun h => ⟨hc.collectNow h.counted, ht.collectNow h.tasked, h.aged.move rfl rfl⟩
    collectLater := fun h hadmits => ⟨hc.collectLater h.counted hadmits, ht.collectLater h.tasked hadmits,
      h.aged.move rfl rfl⟩
    collected := fun h => ⟨hc.collected h.counted, ht.collected h.tasked, h.aged.move rfl rfl⟩
    skip := fun h hnone => ⟨hc.skip h.counted hnone, ht.skip h.tasked hnone, h.aged.move rfl rfl⟩
    orphan := fun h hinfo hnone => ⟨hc.orphan h.counted hinfo hnone, ht.orphan h.tasked hinfo hnone,
      (h.aged.lessens (.popRequest _)).move rfl rfl⟩
    drop := fun h hinfo hgroupId => ⟨hc.drop h.counted hinfo hgroupId, ht.drop h.tasked hinfo hgroupId,
      (h.aged.lessens ((Lessens.popRequest _).trans (.withoutGroup _))).move rfl rfl⟩
    dropFailed := fun {ds s batch task tasks info groupId group} h hinfo hgroupId => by
      refine ⟨hc.dropFailed h.counted hinfo hgroupId, ht.dropFailed h.tasked hinfo hgroupId, ?_⟩
      rw [SchedulerState.withGroup_withoutGroup]
      exact (h.aged.lessens ((Lessens.popRequest _).trans (.withoutGroup _))).move rfl rfl
    collect := fun h hinfo hgroupId hgroup hresult hmore => ⟨hc.collect h.counted hinfo hgroupId hgroup hresult hmore,
      ht.collect h.tasked hinfo hgroupId hgroup hresult hmore,
      (h.aged.lessens (Lessens.collect _ hgroup _)).move rfl rfl⟩
    collectFailed := fun h hinfo hgroupId hgroup hresult hall =>
      ⟨hc.collectFailed h.counted hinfo hgroupId hgroup hresult hall,
        ht.collectFailed h.tasked hinfo hgroupId hgroup hresult hall,
        (h.aged.lessens ((Lessens.collect _ hgroup _).trans (.eraseGroup _))).move rfl rfl⟩
    accept := fun {ds s batch task tasks info groupId group rollouts} h hinfo hgroupId hgroup hresult hall => by
      let s₁ := ((s.popRequest task).withGroup groupId (group.collect info.envName rollouts)).eraseGroup groupId
      have hless : Lessens s s₁ := (Lessens.collect _ hgroup _).trans (.eraseGroup _)
      have hbuffer : Lessens s₁ { s₁ with rolloutBuffer := (sampleRollouts (updateBuffer config s.rolloutBuffer
          (group.collect info.envName rollouts).completedRollouts)
          (group.collect info.envName rollouts).completedRollouts.length).2 } := .same rfl rfl rfl (Nat.le_refl _) rfl
      have haccepted := (h.aged.lessens (hless.trans hbuffer)).record
        (.finalized groupId (group.collect info.envName rollouts).completedRollouts) trivial
      exact ⟨hc.accept h.counted hinfo hgroupId hgroup hresult hall, ht.accept h.tasked hinfo hgroupId hgroup hresult hall,
        haccepted.move rfl rfl⟩
    awaitCancel := fun h => ⟨hc.awaitCancel h.counted, ht.awaitCancel h.tasked, h.aged.move rfl rfl⟩
    collectAgain := fun h hadmits => ⟨hc.collectAgain h.counted hadmits, ht.collectAgain h.tasked hadmits,
      h.aged.move rfl rfl⟩ }

omit [RolloutOutput R] in
theorem aged_of_idle (config : SchedulerConfig) {s : SchedulerState R} (h : Idle s) : Aged config [] s := by
  have hnone : ∀ task, s.inflightRequests.get? task = none := by
    intro task
    rw [h.inflightRequests]
    rfl
  refine ⟨none, rfl, ?_, ?_, ?_, ?_, ?_, ?_, ?_⟩
  · rw [h.events]
    exact .nil
  · show openPass s.events = none
    rw [h.events]
    rfl
  · intro task info hinfo
    rw [hnone] at hinfo
    cases hinfo
  · intro task info hinfo
    rw [hnone] at hinfo
    cases hinfo
  · intro task info hinfo
    rw [hnone] at hinfo
    cases hinfo
  · rw [h.events]
    exact List.nodup_nil
  · intro groupId hdropped
    rw [h.events] at hdropped
    cases hdropped

/-! ## In-flight ageing -/

/-- How old the requests in flight are, and what the passes have dropped. -/
structure InflightAgeing (config : SchedulerConfig) (s : SchedulerState R) : Prop where
  scheduledOnce : (scheduledTasks s.events).Nodup
  scheduled : ∀ task info, s.inflightRequests.get? task = some info → task ∈ scheduledTasks s.events
  age : openPass s.events = none → ∀ task info, s.inflightRequests.get? task = some info →
    info.offPolicySteps = passesSince s.events task
  bound : ∀ task info, s.inflightRequests.get? task = some info → info.offPolicySteps ≤ config.maxOffPolicySteps
  log : AgeingLog config.maxOffPolicySteps s.events
  dropped : ∀ groupId, .dropped groupId ∈ s.events → s.groups.get? groupId = none ∧
    ∀ task info, s.inflightRequests.get? task = some info → info.groupId ≠ some groupId

/-- **Main.** Whatever is scheduled, finishes, updates and is dropped in whatever order: between the ageing passes a
request in flight is as old as the number of passes since it was scheduled, and never beyond the bound; a pass drops
exactly the groups with a request that would exceed it, and with them their requests. -/
theorem inflightAgeing {config : SchedulerConfig} {c : SchedulerConfiguration R}
    (h : (schedulerSystem config).Reachable c) : InflightAgeing config c.shared := by
  obtain ⟨c₀, ls, ⟨hidle, htasks⟩, hrun⟩ := h
  have hinit : Kept config [] c₀.shared :=
    ⟨counted_of_idle config hidle, tasked_of_idle config hidle, aged_of_idle config hidle⟩
  obtain ⟨ds, hcounted, -, running, -, hage⟩ := (kept_preserved config).run hrun htasks hinit
  refine ⟨hage.scheduledOnce, hage.scheduled, fun hclosed task info hinfo => ?_, hage.bound, hage.log,
    fun groupId hdropped => ?_⟩
  · cases running with
    | none => exact hage.age task info hinfo
    | some tasksAndPending =>
        obtain ⟨pass, hopen, -⟩ := hage.underway
        rw [hclosed] at hopen
        cases hopen
  · have hnone := (hage.dropped groupId hdropped).2
    refine ⟨hnone, fun task info hinfo hgroupId => ?_⟩
    obtain ⟨groupId', group, hgroupId', hgroup⟩ := hcounted.books.live task info hinfo
    rw [hgroupId] at hgroupId'
    cases hgroupId'
    rw [hnone] at hgroup
    cases hgroup

/-! ### One update later -/

section Example

/-- Two rollouts are in flight when the trainer broadcasts its first version. -/
def updateOnce : List (Cue Await Answer (Job TaggedRollout)) :=
  beginBatch ++ [.arrive (.broadcast 1 ⟨true, false⟩), .arrive (.policyTask 4 0 .updateLoop),
    .arrive (.policyTask 4 3 (.apply 1)), .answer 2 (.updateWeights 1 .full none) (.ok ())]

theorem inflightAgeing_updateOnce : ∃ c : SchedulerConfiguration TaggedRollout,
    (schedulerSystem exampleOptions).Reachable c ∧
      c.shared.inflightRequests.values.map InflightRequest.offPolicySteps = [1, 1] ∧
      InflightAgeing exampleOptions c.shared := by
  have hplay : ((director exampleOptions).play updateOnce ⟨idleState, []⟩).map
      (fun c => c.shared.inflightRequests.values.map InflightRequest.offPolicySteps) = some [1, 1] := rfl
  obtain ⟨c, hc, hages⟩ := Option.map_eq_some_iff.1 hplay
  have hreach := reachable_of_play idle_idleState hc
  exact ⟨c, hreach, hages, inflightAgeing hreach⟩

end Example

end AuroraRl.Orchestrator
