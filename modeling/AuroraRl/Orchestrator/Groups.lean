import AuroraRl.Orchestrator.Counts
import AuroraRl.Orchestrator.Discipline
import AuroraRl.Orchestrator.Play

/-!
# Group accounting and capacity

* `Accounting` : what is kept redundantly in the groups, the requests and the capacity, and what follows from it for
  the wait set and the finalized groups;
* `Bookkeeping` : with what the induction needs; one lemma for each operation;
* `Counted` : over the duties of the tasks, with the room a call has reserved for the request it is about to start;
* `groupAccounting` : it holds in every state of every run.
-/

namespace AuroraRl.Orchestrator
open Coroutine Transition

variable {R : Type}

/-! ## Accounting -/

def SchedulerEvent.finalizedGroup? : SchedulerEvent R → Option GroupId
  | .finalized groupId _ => some groupId
  | _ => none

def SchedulerEvent.scheduledTask? : SchedulerEvent R → Option TaskId
  | .scheduled task _ _ => some task
  | _ => none

/-- Nothing is scheduled or finalized, and no wait is for nothing. -/
structure SchedulerEvent.Inert (event : SchedulerEvent R) : Prop where
  finalized : event.finalizedGroup? = none
  scheduled : event.scheduledTask? = none
  waited : event ≠ .waited []

/-- The groups that were finalized, oldest first. -/
def finalizedGroups (events : List (SchedulerEvent R)) : List GroupId := events.filterMap SchedulerEvent.finalizedGroup?

theorem finalizedGroups_append (events : List (SchedulerEvent R)) (event : SchedulerEvent R) :
    finalizedGroups (events ++ [event]) = finalizedGroups events ++ event.finalizedGroup?.toList := by
  unfold finalizedGroups
  rw [List.filterMap_append]
  cases h : event.finalizedGroup? <;> simp [h]

structure Accounting (config : SchedulerConfig) (s : SchedulerState R) : Prop where
  capacity : s.inflightRolloutCount ≤ config.maxInflightRollouts
  complete : ∀ groupId group, s.groups.get? groupId = some group →
    group.rolloutsToSchedule + s.inflightOf groupId + group.completedRollouts.length + group.failedRollouts =
      config.groupSize
  live : ∀ task info, s.inflightRequests.get? task = some info →
    ∃ groupId group, info.groupId = some groupId ∧ s.groups.get? groupId = some group
  finalizedOnce : (finalizedGroups s.events).Nodup
  waitsForSome : .waited [] ∉ s.events

/-- The group has rollouts to schedule, and the next request fits. -/
structure Room (config : SchedulerConfig) (s : SchedulerState R) (group : GroupState R) : Prop where
  pending : 0 < group.rolloutsToSchedule
  fits : s.inflightRolloutCount + requestSize config group ≤ config.maxInflightRollouts

/-- Nothing that is accounted for has changed. -/
structure Untouched (s s' : SchedulerState R) : Prop where
  groups : s'.groups = s.groups
  inflightRequests : s'.inflightRequests = s.inflightRequests
  nextGroupId : s'.nextGroupId = s.nextGroupId
  nextTask : s.nextTask ≤ s'.nextTask
  results : s'.results = s.results
  calling : s'.calling = s.calling
  events : s'.events = s.events

variable [RolloutOutput R]

structure Bookkeeping (config : SchedulerConfig) (s : SchedulerState R) : Prop extends Accounting config s where
  nonempty : ∀ task info, s.inflightRequests.get? task = some info → 0 < info.rolloutCount
  groupIds : ∀ groupId group, s.groups.get? groupId = some group → groupId < s.nextGroupId
  taskIds : ∀ task info, s.inflightRequests.get? task = some info → task < s.nextTask
  scheduledIds : ∀ event ∈ s.events, ∀ task ∈ event.scheduledTask?, task < s.nextTask
  resultIds : ∀ task result, s.results.get? task = some result → task < s.nextTask
  meets : ∀ task info result, s.inflightRequests.get? task = some info → s.results.get? task = some result →
    result.Meets task info
  gone : ∀ groupId ∈ finalizedGroups s.events, groupId < s.nextGroupId ∧ s.groups.get? groupId = none

namespace Bookkeeping

variable {config : SchedulerConfig} {s s' : SchedulerState R} {groupId : GroupId} {group : GroupState R} {task : TaskId}
  {info : InflightRequest}

theorem untouched (h : Bookkeeping config s) (hsame : Untouched s s') : Bookkeeping config s' where
  capacity := by
    unfold SchedulerState.inflightRolloutCount
    rw [hsame.inflightRequests]
    exact h.capacity
  complete groupId group hgroup := by
    unfold SchedulerState.inflightOf SchedulerState.requestsOf
    rw [hsame.inflightRequests]
    exact h.complete groupId group (hsame.groups ▸ hgroup)
  live := by
    rw [hsame.inflightRequests, hsame.groups]
    exact h.live
  finalizedOnce := hsame.events ▸ h.finalizedOnce
  waitsForSome := hsame.events ▸ h.waitsForSome
  nonempty := hsame.inflightRequests ▸ h.nonempty
  groupIds := by
    rw [hsame.groups, hsame.nextGroupId]
    exact h.groupIds
  taskIds task info hinfo := Nat.lt_of_lt_of_le (h.taskIds task info (hsame.inflightRequests ▸ hinfo)) hsame.nextTask
  scheduledIds event hevent task htask :=
    Nat.lt_of_lt_of_le (h.scheduledIds event (hsame.events ▸ hevent) task htask) hsame.nextTask
  resultIds task result hresult := Nat.lt_of_lt_of_le (h.resultIds task result (hsame.results ▸ hresult)) hsame.nextTask
  meets := by
    rw [hsame.inflightRequests, hsame.results]
    exact h.meets
  gone := by
    rw [hsame.events, hsame.nextGroupId, hsame.groups]
    exact h.gone

theorem record (h : Bookkeeping config s) {event : SchedulerEvent R} (hinert : event.Inert) :
    Bookkeeping config (s.record event) := by
  have hfinalized : finalizedGroups (s.record event).events = finalizedGroups s.events := by
    change finalizedGroups (s.events ++ [event]) = _
    rw [finalizedGroups_append, hinert.finalized, Option.toList_none, List.append_nil]
  exact {
    h with
    finalizedOnce := hfinalized ▸ h.finalizedOnce
    waitsForSome := fun hmem => (List.mem_append.1 hmem).elim h.waitsForSome fun hmem =>
      hinert.waited (List.mem_singleton.1 hmem).symm
    scheduledIds := fun event' hevent' task htask => by
      rcases List.mem_append.1 hevent' with hevent' | hevent'
      · exact h.scheduledIds event' hevent' task htask
      · rw [List.mem_singleton.1 hevent', hinert.scheduled] at htask
        cases htask
    gone := hfinalized ▸ h.gone }

theorem rolloutDone (h : Bookkeeping config s) {result : RolloutResult R}
    (hadmits : EventLoop (.arrive (.rolloutDone task result)) s) :
    Bookkeeping config { s with results := s.results.insert task result } := by
  obtain ⟨-, ⟨groupId, salt, hscheduled⟩, hmeets⟩ := hadmits
  exact {
    h with
    resultIds := fun task' result' hresult => by
      rw [Dict.get?_insert] at hresult
      split at hresult
      · rename_i htask
        exact htask ▸ h.scheduledIds _ hscheduled task rfl
      · exact h.resultIds task' result' hresult
    meets := fun task' info result' hinfo hresult => by
      rw [Dict.get?_insert] at hresult
      split at hresult
      · rename_i htask
        cases hresult
        subst htask
        exact hmeets info hinfo
      · exact h.meets task' info result' hinfo hresult }

/-! ## Dropping -/

theorem withoutGroup (h : Bookkeeping config s) (groupId : GroupId) : Bookkeeping config (s.withoutGroup groupId) := by
  have hgroups : ∀ {groupId' group}, (s.withoutGroup groupId).groups.get? groupId' = some group →
      groupId' ≠ groupId ∧ s.groups.get? groupId' = some group := by
    intro groupId' group hgroup
    unfold SchedulerState.withoutGroup at hgroup
    rw [Dict.get?_erase] at hgroup
    split at hgroup
    · cases hgroup
    · rename_i hne
      exact ⟨Ne.symm hne, hgroup⟩
  have hrequests : ∀ {task info}, (s.withoutGroup groupId).inflightRequests.get? task = some info →
      info.groupId ≠ some groupId ∧ s.inflightRequests.get? task = some info := by
    intro task info hinfo
    unfold SchedulerState.withoutGroup at hinfo
    rw [Dict.get?_filter, Option.filter_eq_some_iff] at hinfo
    exact ⟨of_decide_eq_true hinfo.2, hinfo.1⟩
  exact {
    capacity := Nat.le_trans SchedulerState.inflightRolloutCount_withoutGroup_le h.capacity
    complete := fun groupId' group hgroup => by
      obtain ⟨hne, hgroup⟩ := hgroups hgroup
      rw [SchedulerState.inflightOf_withoutGroup hne]
      exact h.complete groupId' group hgroup
    live := fun task info hinfo => by
      obtain ⟨hother, hinfo⟩ := hrequests hinfo
      obtain ⟨groupId', group, hgroupId, hgroup⟩ := h.live task info hinfo
      refine ⟨groupId', group, hgroupId, ?_⟩
      unfold SchedulerState.withoutGroup
      rw [Dict.get?_erase, if_neg fun heq : groupId = groupId' => hother (heq ▸ hgroupId)]
      exact hgroup
    finalizedOnce := h.finalizedOnce
    waitsForSome := h.waitsForSome
    nonempty := fun task info hinfo => h.nonempty task info (hrequests hinfo).2
    groupIds := fun groupId' group hgroup => h.groupIds groupId' group (hgroups hgroup).2
    taskIds := fun task info hinfo => h.taskIds task info (hrequests hinfo).2
    scheduledIds := h.scheduledIds
    resultIds := h.resultIds
    meets := fun task info result hinfo hresult => h.meets task info result (hrequests hinfo).2 hresult
    gone := fun groupId' hmem => by
      obtain ⟨hlt, hnone⟩ := h.gone groupId' hmem
      refine ⟨hlt, ?_⟩
      unfold SchedulerState.withoutGroup
      rw [Dict.get?_erase]
      split
      · rfl
      · exact hnone }

theorem clearRollouts (h : Bookkeeping config s) (count : Nat) : Bookkeeping config (s.clearRollouts count) where
  capacity := Nat.zero_le _
  complete _ _ hgroup := by cases hgroup
  live _ _ hinfo := by cases hinfo
  finalizedOnce := h.finalizedOnce
  waitsForSome := h.waitsForSome
  nonempty _ _ hinfo := by cases hinfo
  groupIds _ _ hgroup := by cases hgroup
  taskIds _ _ hinfo := by cases hinfo
  scheduledIds := h.scheduledIds
  resultIds := h.resultIds
  meets _ _ _ hinfo := by cases hinfo
  gone groupId hmem := ⟨(h.gone groupId hmem).1, rfl⟩

/-! ## Ageing -/

theorem incrementOffPolicy (h : Bookkeeping config s) (tasks : List TaskId) :
    Bookkeeping config (s.incrementOffPolicy tasks) := by
  have hrequests : ∀ {task info}, (s.incrementOffPolicy tasks).inflightRequests.get? task = some info →
      ∃ info₀ count, s.inflightRequests.get? task = some info₀ ∧ info = info₀.age count := by
    intro task info hinfo
    rw [SchedulerState.get?_incrementOffPolicy] at hinfo
    obtain ⟨info₀, hinfo₀, rfl⟩ := Option.map_eq_some_iff.1 hinfo
    exact ⟨info₀, _, hinfo₀, rfl⟩
  exact {
    capacity := by
      rw [SchedulerState.inflightRolloutCount_eq, SchedulerState.inflightWhere_incrementOffPolicy,
        ← SchedulerState.inflightRolloutCount_eq]
      exact h.capacity
    complete := fun groupId group hgroup => by
      rw [SchedulerState.inflightOf_eq, SchedulerState.inflightWhere_incrementOffPolicy, ← SchedulerState.inflightOf_eq]
      exact h.complete groupId group hgroup
    live := fun task info hinfo => by
      obtain ⟨info₀, count, hinfo₀, rfl⟩ := hrequests hinfo
      exact h.live task info₀ hinfo₀
    finalizedOnce := h.finalizedOnce
    waitsForSome := h.waitsForSome
    nonempty := fun task info hinfo => by
      obtain ⟨info₀, count, hinfo₀, rfl⟩ := hrequests hinfo
      exact h.nonempty task info₀ hinfo₀
    groupIds := h.groupIds
    taskIds := fun task info hinfo => by
      obtain ⟨info₀, count, hinfo₀, rfl⟩ := hrequests hinfo
      exact h.taskIds task info₀ hinfo₀
    scheduledIds := h.scheduledIds
    resultIds := h.resultIds
    meets := fun task info result hinfo hresult => by
      obtain ⟨info₀, count, hinfo₀, rfl⟩ := hrequests hinfo
      exact h.meets task info₀ result hinfo₀ hresult
    gone := h.gone }

/-! ## Scheduling -/

theorem addGroup (h : Bookkeeping config s) (ex : Example) : Bookkeeping config (s.addGroup config ex) := by
  have hold : ∀ {groupId' group}, s.groups.get? groupId' = some group → s.nextGroupId ≠ groupId' :=
    fun {groupId' group} hgroup => Nat.ne_of_gt (h.groupIds groupId' group hgroup)
  have hempty : (s.addGroup config ex).inflightOf s.nextGroupId = 0 := by
    rw [SchedulerState.inflightOf_eq]
    refine Dict.total_eq_zero fun task info hinfo => ?_
    obtain ⟨groupId', group, hgroupId, hgroup⟩ := h.live task info hinfo
    rw [if_neg]
    rw [hgroupId]
    simpa using (hold hgroup).symm
  exact {
    h with
    complete := fun groupId group hgroup => by
      change (s.groups.insert s.nextGroupId _).get? groupId = _ at hgroup
      rw [Dict.get?_insert] at hgroup
      split at hgroup
      · rename_i hid
        cases hgroup
        rw [← hid, hempty]
        rfl
      · exact h.complete groupId group hgroup
    live := fun task info hinfo => by
      obtain ⟨groupId', group, hgroupId, hgroup⟩ := h.live task info hinfo
      refine ⟨groupId', group, hgroupId, ?_⟩
      change (s.groups.insert s.nextGroupId _).get? groupId' = _
      rw [Dict.get?_insert_ne _ _ (hold hgroup)]
      exact hgroup
    groupIds := fun groupId group hgroup => by
      change (s.groups.insert s.nextGroupId _).get? groupId = _ at hgroup
      rw [Dict.get?_insert] at hgroup
      split at hgroup
      · rename_i hid
        exact hid ▸ Nat.lt_succ_self _
      · exact Nat.lt_succ_of_lt (h.groupIds groupId group hgroup)
    gone := fun groupId hmem => by
      obtain ⟨hlt, hnone⟩ := h.gone groupId hmem
      refine ⟨Nat.lt_succ_of_lt hlt, ?_⟩
      change (s.groups.insert s.nextGroupId _).get? groupId = _
      rw [Dict.get?_insert_ne _ _ (Nat.ne_of_gt hlt)]
      exact hnone }

theorem startRequest (h : Bookkeeping config s) (hgroup : s.groups.get? groupId = some group) (hroom : Room config s group)
    (client : ClientConfig) : Bookkeeping config (s.startRequest config groupId group client) := by
  obtain ⟨hpos, hle⟩ : 0 < requestSize config group ∧ requestSize config group ≤ group.rolloutsToSchedule :=
    requestSize_pos_le hroom.pending
  have hfresh : s.inflightRequests.get? s.nextTask = none := by
    rw [Option.eq_none_iff_forall_ne_some]
    exact fun info hinfo => Nat.lt_irrefl _ (h.taskIds _ info hinfo)
  have hrequests : ∀ {task info}, (s.startRequest config groupId group client).inflightRequests.get? task = some info →
      (task = s.nextTask ∧ info = ⟨0, client, group.groupExample.envName, some groupId, requestSize config group⟩) ∨
        s.inflightRequests.get? task = some info := by
    intro task info hinfo
    change (s.inflightRequests.insert s.nextTask _).get? task = _ at hinfo
    rw [Dict.get?_insert] at hinfo
    split at hinfo
    · rename_i htask
      exact .inl ⟨htask.symm, (Option.some.inj hinfo).symm⟩
    · exact .inr hinfo
  have hgroups : ∀ groupId', (s.startRequest config groupId group client).groups.get? groupId' =
      if groupId = groupId' then some { group with
        rolloutsToSchedule := group.rolloutsToSchedule - requestSize config group
        pinnedClient := some client } else s.groups.get? groupId' := fun groupId' => Dict.get?_insert _ _ _ _
  have hevents : (s.startRequest config groupId group client).events = s.events ++
      [.scheduled s.nextTask groupId s.ckptStep] := rfl
  exact {
    capacity := by
      rw [SchedulerState.inflightRolloutCount_eq, SchedulerState.inflightWhere_startRequest hfresh,
        ← SchedulerState.inflightRolloutCount_eq]
      exact hroom.fits
    complete := fun groupId' group' hgroup' => by
      rw [SchedulerState.inflightOf_eq, SchedulerState.inflightWhere_startRequest hfresh, ← SchedulerState.inflightOf_eq]
      rw [hgroups] at hgroup'
      split at hgroup'
      · rename_i hid
        subst hid
        cases hgroup'
        have := h.complete groupId group hgroup
        simp only [decide_true, if_true]
        omega
      · rename_i hne
        have := h.complete groupId' group' hgroup'
        simp [hne, this]
    live := fun task info hinfo => by
      rcases hrequests hinfo with ⟨-, rfl⟩ | hinfo
      · exact ⟨groupId, _, rfl, by rw [hgroups, if_pos rfl]⟩
      · obtain ⟨groupId', group', hgroupId, hgroup'⟩ := h.live task info hinfo
        refine ⟨groupId', ?_⟩
        rw [hgroups]
        split
        · exact ⟨_, hgroupId, rfl⟩
        · exact ⟨_, hgroupId, hgroup'⟩
    finalizedOnce := by
      rw [hevents, finalizedGroups_append]
      simpa [SchedulerEvent.finalizedGroup?] using h.finalizedOnce
    waitsForSome := by
      rw [hevents]
      simpa using h.waitsForSome
    nonempty := fun task info hinfo => by
      rcases hrequests hinfo with ⟨-, rfl⟩ | hinfo
      · exact hpos
      · exact h.nonempty task info hinfo
    groupIds := fun groupId' group' hgroup' => by
      rw [hgroups] at hgroup'
      split at hgroup'
      · rename_i hid
        exact hid ▸ h.groupIds groupId group hgroup
      · exact h.groupIds groupId' group' hgroup'
    taskIds := fun task info hinfo => by
      rcases hrequests hinfo with ⟨rfl, -⟩ | hinfo
      · exact Nat.lt_succ_self _
      · exact Nat.lt_succ_of_lt (h.taskIds task info hinfo)
    scheduledIds := fun event hevent task htask => by
      rw [hevents] at hevent
      rcases List.mem_append.1 hevent with hevent | hevent
      · exact Nat.lt_succ_of_lt (h.scheduledIds event hevent task htask)
      · rw [List.mem_singleton.1 hevent] at htask
        cases htask
        exact Nat.lt_succ_self _
    resultIds := fun task result hresult => Nat.lt_succ_of_lt (h.resultIds task result hresult)
    meets := fun task info result hinfo hresult => by
      rcases hrequests hinfo with ⟨rfl, -⟩ | hinfo
      · exact absurd (h.resultIds _ result hresult) (Nat.lt_irrefl _)
      · exact h.meets task info result hinfo hresult
    gone := fun groupId' hmem => by
      rw [hevents, finalizedGroups_append] at hmem
      obtain ⟨hlt, hnone⟩ := h.gone groupId' (by simpa [SchedulerEvent.finalizedGroup?] using hmem)
      refine ⟨hlt, ?_⟩
      rw [hgroups, if_neg]
      · exact hnone
      · rintro rfl
        rw [hgroup] at hnone
        cases hnone }

theorem wait (h : Bookkeeping config s)
    (hfull : config.maxInflightRollouts - s.inflightRolloutCount < config.groupSize) :
    Bookkeeping config (s.record (.waited s.inflightRequests.keys)) :=
  h.record ⟨rfl, rfl, fun heq => SchedulerState.keys_ne_nil hfull (SchedulerEvent.waited.inj heq)⟩

/-! ## Collecting -/

/-- Every returned rollout is counted, as completed or as failed. -/
theorem length_collect (group : GroupState R) (envName : String) (rollouts : List R) :
    (group.collect envName rollouts).completedRollouts.length + (group.collect envName rollouts).failedRollouts =
      group.completedRollouts.length + group.failedRollouts + rollouts.length := by
  have hvalid : (validRollouts envName rollouts).length ≤ rollouts.length := by
    unfold validRollouts
    rw [List.length_map]
    exact List.length_filter_le _ _
  simp only [GroupState.collect, List.length_append]
  omega

theorem collect (h : Bookkeeping config s) (hinfo : s.inflightRequests.get? task = some info)
    (hgroupId : info.groupId = some groupId) (hgroup : s.groups.get? groupId = some group) {rollouts : List R}
    (hresult : s.results.get? task = some (.returned rollouts)) :
    Bookkeeping config ((s.popRequest task).withGroup groupId (group.collect info.envName rollouts)) := by
  have hlength : rollouts.length = info.rolloutCount := (h.meets task info _ hinfo hresult rollouts rfl).1
  have hgroups : ∀ groupId',
      ((s.popRequest task).withGroup groupId (group.collect info.envName rollouts)).groups.get? groupId' =
        if groupId = groupId' then some (group.collect info.envName rollouts) else s.groups.get? groupId' :=
    fun groupId' => Dict.get?_insert _ _ _ _
  exact {
    capacity := Nat.le_trans (SchedulerState.inflightRolloutCount_popRequest_le hinfo) h.capacity
    complete := fun groupId' group' hgroup' => by
      change _ + (s.popRequest task).inflightOf groupId' + _ + _ = _
      have hpop := SchedulerState.inflightOf_popRequest hinfo hgroupId groupId'
      rw [hgroups] at hgroup'
      split at hgroup'
      · rename_i hid
        subst hid
        cases hgroup'
        have hcount := length_collect group info.envName rollouts
        have hcomplete := h.complete groupId group hgroup
        have hpending : (group.collect info.envName rollouts).rolloutsToSchedule = group.rolloutsToSchedule := rfl
        rw [if_pos rfl] at hpop
        omega
      · rename_i hne
        rw [if_neg hne, Nat.add_zero] at hpop
        rw [hpop]
        exact h.complete groupId' group' hgroup'
    live := fun task' info' hinfo' => by
      obtain ⟨groupId', group', hgroupId', hgroup'⟩ := h.live task' info' (SchedulerState.get?_popRequest hinfo').2
      refine ⟨groupId', ?_⟩
      rw [hgroups]
      split
      · exact ⟨_, hgroupId', rfl⟩
      · exact ⟨_, hgroupId', hgroup'⟩
    finalizedOnce := h.finalizedOnce
    waitsForSome := h.waitsForSome
    nonempty := fun task' info' hinfo' => h.nonempty task' info' (SchedulerState.get?_popRequest hinfo').2
    groupIds := fun groupId' group' hgroup' => by
      rw [hgroups] at hgroup'
      split at hgroup'
      · rename_i hid
        exact hid ▸ h.groupIds groupId group hgroup
      · exact h.groupIds groupId' group' hgroup'
    taskIds := fun task' info' hinfo' => h.taskIds task' info' (SchedulerState.get?_popRequest hinfo').2
    scheduledIds := h.scheduledIds
    resultIds := h.resultIds
    meets := fun task' info' result hinfo' hresult' =>
      h.meets task' info' result (SchedulerState.get?_popRequest hinfo').2 hresult'
    gone := fun groupId' hmem => by
      obtain ⟨hlt, hnone⟩ := h.gone groupId' hmem
      refine ⟨hlt, ?_⟩
      rw [hgroups, if_neg]
      · exact hnone
      · rintro rfl
        rw [hgroup] at hnone
        cases hnone }

/-- A group all of whose rollouts have come back has no request left. -/
theorem eraseGroup (h : Bookkeeping config s) (hgroup : s.groups.get? groupId = some group)
    (hall : config.groupSize ≤ group.completedRollouts.length + group.failedRollouts) :
    Bookkeeping config (s.eraseGroup groupId) := by
  have hnone : ∀ task info, s.inflightRequests.get? task = some info → info.groupId ≠ some groupId := by
    intro task info hinfo hgroupId
    have hcomplete := h.complete groupId group hgroup
    have hpop := SchedulerState.inflightOf_popRequest hinfo hgroupId groupId
    have hpos := h.nonempty task info hinfo
    rw [if_pos rfl] at hpop
    omega
  have hgroups : ∀ {groupId' group'}, (s.eraseGroup groupId).groups.get? groupId' = some group' →
      s.groups.get? groupId' = some group' := by
    intro groupId' group' hgroup'
    unfold SchedulerState.eraseGroup at hgroup'
    rw [Dict.get?_erase] at hgroup'
    split at hgroup'
    · cases hgroup'
    · exact hgroup'
  exact {
    h with
    complete := fun groupId' group' hgroup' => h.complete groupId' group' (hgroups hgroup')
    live := fun task info hinfo => by
      obtain ⟨groupId', group', hgroupId', hgroup'⟩ := h.live task info hinfo
      refine ⟨groupId', group', hgroupId', ?_⟩
      unfold SchedulerState.eraseGroup
      rw [Dict.get?_erase, if_neg fun heq : groupId = groupId' => hnone task info hinfo (heq ▸ hgroupId')]
      exact hgroup'
    groupIds := fun groupId' group' hgroup' => h.groupIds groupId' group' (hgroups hgroup')
    gone := fun groupId' hmem => by
      obtain ⟨hlt, hnone⟩ := h.gone groupId' hmem
      refine ⟨hlt, ?_⟩
      unfold SchedulerState.eraseGroup
      rw [Dict.get?_erase]
      split
      · rfl
      · exact hnone }

theorem acceptGroup (h : Bookkeeping config s) (hgroup : s.groups.get? groupId = some group)
    (hall : config.groupSize ≤ group.completedRollouts.length + group.failedRollouts) (completed : List R) :
    Bookkeeping config (s.acceptGroup config groupId completed) := by
  have herase := h.eraseGroup hgroup hall
  have hfinalized : finalizedGroups (s.acceptGroup config groupId completed).events = finalizedGroups s.events ++ [groupId] :=
    finalizedGroups_append s.events (.finalized groupId completed)
  exact {
    herase with
    finalizedOnce := by
      rw [hfinalized, List.nodup_append]
      refine ⟨h.finalizedOnce, List.nodup_singleton _, fun groupId' hmem _ heq => ?_⟩
      rw [List.mem_singleton.1 heq]
      rintro rfl
      rw [(h.gone groupId' hmem).2] at hgroup
      cases hgroup
    waitsForSome := fun hmem => (List.mem_append.1 hmem).elim h.waitsForSome fun hmem => by
      cases List.mem_singleton.1 hmem
    scheduledIds := fun event hevent task htask => by
      rcases List.mem_append.1 hevent with hevent | hevent
      · exact h.scheduledIds event hevent task htask
      · rw [List.mem_singleton.1 hevent] at htask
        cases htask
    gone := fun groupId' hmem => by
      rw [hfinalized] at hmem
      rcases List.mem_append.1 hmem with hmem | hmem
      · exact herase.gone groupId' hmem
      · rw [List.mem_singleton.1 hmem]
        refine ⟨h.groupIds groupId group hgroup, ?_⟩
        change (s.groups.erase groupId).get? groupId = none
        rw [Dict.get?_erase, if_pos rfl] }

end Bookkeeping

/-! ## The room a call has reserved -/

/-- What the state grants a duty: the request that is about to start fits, whatever else happens first. -/
def Duty.Granted (config : SchedulerConfig) (s : SchedulerState R) : Duty R → Prop
  | .reserving _ groupId => ∀ group, s.groups.get? groupId = some group → Room config s group
  | _ => True

structure Counted (config : SchedulerConfig) (ds : List (Duty R)) (s : SchedulerState R) : Prop where
  books : Bookkeeping config s
  oneCall : ds.countP Duty.IsCall = s.calling.toNat
  granted : ∀ d ∈ ds, d.Granted config s

/-- Groups only go, and rollouts only leave. -/
structure Shrinks (s s' : SchedulerState R) : Prop where
  groups : ∀ groupId group, s'.groups.get? groupId = some group → s.groups.get? groupId = some group
  count : s'.inflightRolloutCount ≤ s.inflightRolloutCount

omit [RolloutOutput R] in
theorem Shrinks.withoutGroup (s : SchedulerState R) (groupId : GroupId) : Shrinks s (s.withoutGroup groupId) where
  groups groupId' group hgroup := by
    change (s.groups.erase groupId).get? groupId' = _ at hgroup
    rw [Dict.get?_erase] at hgroup
    split at hgroup
    · cases hgroup
    · exact hgroup
  count := SchedulerState.inflightRolloutCount_withoutGroup_le

namespace Counted

variable {config : SchedulerConfig} {ds : List (Duty R)} {d d' : Duty R} {s s' : SchedulerState R}

omit [RolloutOutput R] in
theorem granted_of_shrinks (hshrinks : Shrinks s s') (h : d.Granted config s) : d.Granted config s' := by
  cases d with
  | reserving batch groupId =>
      intro group hgroup
      obtain ⟨hpending, hfits⟩ := h group (hshrinks.groups groupId group hgroup)
      exact ⟨hpending, Nat.le_trans (Nat.add_le_add_right hshrinks.count _) hfits⟩
  | _ => trivial

omit [RolloutOutput R] in
theorem granted_of_isCall_eq_false (h : d.IsCall = false) : d.Granted config s := by
  cases d with
  | reserving batch groupId => cases h
  | _ => trivial

theorem others (h : Counted config (d :: ds) s) (hd : d.IsCall = true) : ∀ d' ∈ ds, d'.IsCall = false := by
  have hone := h.oneCall
  rw [List.countP_cons_of_pos hd] at hone
  have hle := Bool.toNat_le s.calling
  have hzero : ds.countP Duty.IsCall = 0 := by omega
  intro d' hd'
  exact Bool.eq_false_iff.2 (List.countP_eq_zero.1 hzero d' hd')

theorem keep (h : Counted config ds s) (hbooks : Bookkeeping config s') (hcalling : s'.calling = s.calling)
    (hshrinks : Shrinks s s') : Counted config ds s' :=
  ⟨hbooks, hcalling ▸ h.oneCall, fun d hd => granted_of_shrinks hshrinks (h.granted d hd)⟩

theorem move (h : Counted config (d :: ds) s) (hcall : d'.IsCall = d.IsCall) (hgranted : d'.Granted config s) :
    Counted config (d' :: ds) s where
  books := h.books
  oneCall := by
    have hone := h.oneCall
    rw [List.countP_cons] at hone ⊢
    rw [hcall]
    exact hone
  granted := by
    intro d'' hd''
    rcases List.mem_cons.1 hd'' with rfl | hd''
    · exact hgranted
    · exact h.granted d'' (List.mem_cons_of_mem _ hd'')

theorem act (h : Counted config (d :: ds) s) (hd : d.IsCall = true) (hd' : d'.IsCall = true)
    (hbooks : Bookkeeping config s') (hcalling : s'.calling = s.calling) (hgranted : d'.Granted config s') :
    Counted config (d' :: ds) s' where
  books := hbooks
  oneCall := by
    have hone := h.oneCall
    rw [List.countP_cons_of_pos hd] at hone
    rw [List.countP_cons_of_pos hd', hcalling]
    exact hone
  granted := by
    intro d'' hd''
    rcases List.mem_cons.1 hd'' with rfl | hd''
    · exact hgranted
    · exact granted_of_isCall_eq_false (h.others hd d'' hd'')

theorem begin (h : Counted config ds s) (hd : d.IsCall = true) (hidle : s.calling = false)
    (hbooks : Bookkeeping config s') (hcalling : s'.calling = true) (hgranted : d.Granted config s') :
    Counted config (d :: ds) s' where
  books := hbooks
  oneCall := by
    rw [List.countP_cons_of_pos hd, h.oneCall, hidle, hcalling]
    rfl
  granted := by
    have hzero : ds.countP Duty.IsCall = 0 := by rw [h.oneCall, hidle, Bool.toNat_false]
    intro d' hd'
    rcases List.mem_cons.1 hd' with rfl | hd'
    · exact hgranted
    · exact granted_of_isCall_eq_false (Bool.eq_false_iff.2 (List.countP_eq_zero.1 hzero d' hd'))

theorem endCall (h : Counted config (d :: ds) s) (hd : d.IsCall = true) :
    Counted config ds { s with calling := false } where
  books := { h.books with }
  oneCall := List.countP_eq_zero.2 fun d' hd' => by simp [h.others hd d' hd']
  granted := fun d' hd' => granted_of_isCall_eq_false (h.others hd d' hd')

theorem cons (h : Counted config ds s) (hd : d.IsCall = false) (hgranted : d.Granted config s) :
    Counted config (d :: ds) s where
  books := h.books
  oneCall := by
    rw [List.countP_cons_of_neg (by simp [hd])]
    exact h.oneCall
  granted := List.forall_mem_cons.2 ⟨hgranted, h.granted⟩

theorem tail (h : Counted config (d :: ds) s) (hd : d.IsCall = false) : Counted config ds s where
  books := h.books
  oneCall := by
    have hone := h.oneCall
    rwa [List.countP_cons_of_neg (by simp [hd])] at hone
  granted := (List.forall_mem_cons.1 h.granted).2

theorem untouched (h : Counted config ds s) (hsame : Untouched s s') : Counted config ds s' := by
  refine h.keep (h.books.untouched hsame) hsame.calling ⟨fun groupId group hgroup => hsame.groups ▸ hgroup, Nat.le_of_eq ?_⟩
  unfold SchedulerState.inflightRolloutCount
  rw [hsame.inflightRequests]

theorem record (h : Counted config ds s) {event : SchedulerEvent R} (hinert : event.Inert) :
    Counted config ds (s.record event) :=
  h.keep (h.books.record hinert) rfl ⟨fun _ _ hgroup => hgroup, Nat.le_refl _⟩

theorem setReady (h : Counted config ds s) : Counted config ds s.setReady :=
  h.untouched ⟨rfl, rfl, rfl, Nat.le_refl _, rfl, rfl, rfl⟩

theorem clearReady (h : Counted config ds s) : Counted config ds s.clearReady :=
  h.untouched ⟨rfl, rfl, rfl, Nat.le_refl _, rfl, rfl, rfl⟩

theorem withTask (h : Counted config ds s) (task : PolicyTask) : Counted config ds (s.withTask task) :=
  h.untouched ⟨rfl, rfl, rfl, Nat.le_succ _, rfl, rfl, rfl⟩

theorem forgetStage (h : Counted config ds s) (task : TaskId) : Counted config ds (s.forgetStage task) := by
  unfold SchedulerState.forgetStage
  split
  · exact h.untouched ⟨rfl, rfl, rfl, Nat.le_refl _, rfl, rfl, rfl⟩
  · exact h

theorem beginAgeing (h : Counted config ds s) (step : Nat) : Counted config ds (s.beginAgeing config step) := by
  have hupdated : Counted config ds (s.record (.updated step)) := h.record ⟨rfl, rfl, fun heq => (by cases heq)⟩
  have hageing : Counted config ds ((s.record (.updated step)).record (.ageing s.inflightRequests.entries)) :=
    hupdated.record ⟨rfl, rfl, fun heq => (by cases heq)⟩
  exact hageing.untouched ⟨rfl, rfl, rfl, Nat.le_refl _, rfl, rfl, rfl⟩

theorem drop (h : Counted config (d :: ds) s) (groupId : GroupId) : Counted config (d :: ds) (s.withoutGroup groupId) :=
  h.keep (h.books.withoutGroup groupId) rfl (.withoutGroup s groupId)

end Counted

omit [RolloutOutput R] in
/-- The next group the scheduler finds has room. -/
theorem room_of_nextGroup? {config : SchedulerConfig} {s : SchedulerState R} {groupId : GroupId} {group : GroupState R}
    (hnext : s.nextGroup? config = some (groupId, group)) (hfree : config.maxInflightRollouts - s.inflightRolloutCount ≠ 0) :
    s.groups.get? groupId = some group ∧ Room config s group := by
  have hmem := List.mem_of_find?_eq_some hnext
  have hcond := List.find?_some hnext
  simp only [decide_eq_true_eq] at hcond
  refine ⟨(Dict.mem_entries_iff _ _ _).1 hmem, hcond.1, ?_⟩
  omega

omit [RolloutOutput R] in
theorem Duty.Ends.not_isCall {self : TaskId} {d : Duty R} {outcome : Except PyError (Option StagedPolicy)}
    (h : d.Ends self outcome) : d.IsCall = false := by
  cases h <;> rfl

/-- Every operation keeps the accounts. -/
theorem counted_preserved (config : SchedulerConfig) : Preserved (R := R) config EventLoop (Counted config) where
  perm hperm h := ⟨h.books, hperm.countP_eq _ ▸ h.oneCall, fun d hd => h.granted d (hperm.mem_iff.2 hd)⟩
  rolloutDone h hadmits := h.keep (h.books.rolloutDone hadmits) rfl ⟨fun _ _ hgroup => hgroup, Nat.le_refl _⟩
  broadcast h _ := h.untouched ⟨rfl, rfl, rfl, Nat.le_refl _, rfl, rfl, rfl⟩
  cleanBroadcast h _ := h.untouched ⟨rfl, rfl, rfl, Nat.le_refl _, rfl, rfl, rfl⟩
  beginGenerate h hadmits := h.begin rfl hadmits { h.books with } rfl trivial
  cancelLoop h _ := h.untouched ⟨rfl, rfl, rfl, Nat.le_refl _, rfl, rfl, rfl⟩
  passBarrier {ds s} h _ := by
    have hrecord : Counted config (.starting :: ds)
        ((s.withTask .updateLoop).record (.passedBarrier s.step s.ckptStep)) :=
      (h.withTask .updateLoop).record ⟨rfl, rfl, fun heq => (by cases heq)⟩
    have hbooks : Counted config (.starting :: ds) s.passBarrier :=
      hrecord.untouched ⟨rfl, rfl, rfl, Nat.le_refl _, rfl, rfl, rfl⟩
    exact hbooks.move rfl trivial
  returned h := h.record ⟨rfl, rfl, fun heq => (by cases heq)⟩
  beginEvaluate {ds s cancel} h hadmits := by
    have hrecord : Counted config ds (s.clearReady.record .evalStarted) :=
      h.clearReady.record ⟨rfl, rfl, fun heq => (by cases heq)⟩
    exact hrecord.begin rfl hadmits { hrecord.books with } rfl trivial
  clearRollouts h := h.act rfl rfl (h.books.clearRollouts _) rfl trivial
  evaluated h := h.setReady.record ⟨rfl, rfl, fun heq => (by cases heq)⟩
  endCall hd h := h.endCall (Duty.isCall_of_mayEnd hd)
  startStage _ h _ _ _ := h.untouched ⟨rfl, rfl, rfl, Nat.le_succ _, rfl, rfl, rfl⟩
  startApply _ h _ _ _ := h.untouched ⟨rfl, rfl, rfl, Nat.le_succ _, rfl, rfl, rfl⟩
  beginCommit h _ _ := h.clearReady.move rfl trivial
  joinedStage h _ := h.move rfl trivial
  committedStage h _ _ := ((h.record ⟨rfl, rfl, fun heq => (by cases heq)⟩).beginAgeing _).move rfl trivial
  abortCommit h := ⟨(h.forgetStage _).move rfl trivial, (h.setReady.forgetStage _).move rfl trivial⟩
  abortCommitReady h := h.move rfl trivial
  agedCommit h := (h.forgetStage _).move rfl trivial
  startDrop {ds s ager tasks pending groupId} h _ := by
    have hdropping : Counted config (.ageing ager tasks pending :: ds) { s with dropping := s.dropping.erase groupId } :=
      h.untouched ⟨rfl, rfl, rfl, Nat.le_refl _, rfl, rfl, rfl⟩
    have hdropped : Counted config (.ageing ager tasks pending :: ds)
        ({ s with dropping := s.dropping.erase groupId }.record (.dropped groupId)) :=
      hdropping.record ⟨rfl, rfl, fun heq => (by cases heq)⟩
    exact (hdropped.drop groupId).move (by cases ager <;> rfl) (by cases ager <;> trivial)
  aged {ds s ager tasks count} h := by
    have haged : Counted config (.ageing ager tasks [] :: ds) (s.incrementOffPolicy tasks) := by
      refine h.keep (h.books.incrementOffPolicy tasks) rfl ⟨fun _ _ hgroup => hgroup, Nat.le_of_eq ?_⟩
      rw [SchedulerState.inflightRolloutCount_eq, SchedulerState.inflightRolloutCount_eq,
        SchedulerState.inflightWhere_incrementOffPolicy]
    have hcounted : Counted config (.ageing ager tasks [] :: ds)
        { s.incrementOffPolicy tasks with cancelledRolloutsCount := s.cancelledRolloutsCount + count } :=
      haged.untouched ⟨rfl, rfl, rfl, Nat.le_refl _, rfl, rfl, rfl⟩
    have hended : Counted config (.ageing ager tasks [] :: ds)
        ({ s.incrementOffPolicy tasks with cancelledRolloutsCount := s.cancelledRolloutsCount + count }.record .aged) :=
      hcounted.record ⟨rfl, rfl, fun heq => (by cases heq)⟩
    exact hended.move (by cases ager <;> rfl) (by cases ager <;> trivial)
  startTask {ds s fuel self task} h _ := by
    have hstart : Counted config ds (s.start self) := h.untouched ⟨rfl, rfl, rfl, Nat.le_refl _, rfl, rfl, rfl⟩
    exact hstart.cons rfl trivial
  finishTask hd h := (h.tail hd.not_isCall).untouched ⟨rfl, rfl, rfl, Nat.le_refl _, rfl, rfl, rfl⟩
  beginApply h _ := h.move rfl trivial
  beginWait h _ := h.clearReady.move rfl trivial
  foundStable h _ _ := h.move rfl trivial
  stagedApply h _ := h.move rfl trivial
  committedApply h _ _ := ((h.record ⟨rfl, rfl, fun heq => (by cases heq)⟩).beginAgeing _).move rfl trivial
  updatedApply h _ _ _ := (h.beginAgeing _).move rfl trivial
  failApply h := ⟨h.move rfl trivial, fun _ => h.setReady.move rfl trivial⟩
  foundFile h _ _ := h.move rfl trivial
  stagedFile h _ _ := h.move rfl trivial
  addGroup {ds s batch ex} h hroom := by
    refine h.act rfl rfl (h.books.addGroup ex) rfl fun group hgroup => ?_
    obtain rfl : _ = group := Option.some.inj ((Dict.get?_insert_self _ _ _).symm.trans hgroup)
    have hpos := config.groupSize_pos
    have hle : requestSize config (⟨ex, config.groupSize, [], none, 0⟩ : GroupState R) ≤ config.groupSize :=
      (requestSize_pos_le hpos).2
    refine ⟨hpos, ?_⟩
    change s.inflightRolloutCount + _ ≤ _
    omega
  reserve h hnext hfree := by
    obtain ⟨hgroup, hroom⟩ := room_of_nextGroup? hnext hfree
    refine h.move rfl fun group hgroup' => ?_
    rw [hgroup] at hgroup'
    cases hgroup'
    exact hroom
  startRequest h hgroup := by
    have hroom := h.granted _ List.mem_cons_self _ hgroup
    exact h.act rfl rfl (h.books.startRequest hgroup hroom _) rfl trivial
  unreserve h := h.move rfl trivial
  wait h hfull := h.act rfl rfl (h.books.wait hfull) rfl trivial
  woke h _ _ _ := (h.record ⟨rfl, rfl, fun heq => (by cases heq)⟩).move rfl trivial
  awaitReady h := h.move rfl trivial
  collectNow h := h.move rfl trivial
  collectLater h _ := h.move rfl trivial
  collected h := h.move rfl trivial
  skip h _ := h.move rfl trivial
  orphan h hinfo hnone := by
    obtain ⟨groupId, group, hgroupId, hgroup⟩ := h.books.live _ _ hinfo
    rw [hnone groupId hgroupId] at hgroup
    cases hgroup
  drop h hinfo hgroupId := by
    rw [SchedulerState.popRequest_withoutGroup hinfo hgroupId]
    exact (h.drop _).move rfl trivial
  dropFailed h hinfo hgroupId := by
    rw [SchedulerState.withGroup_withoutGroup, SchedulerState.popRequest_withoutGroup hinfo hgroupId]
    exact (h.drop _).move rfl trivial
  collect h hinfo hgroupId hgroup hresult _ :=
    h.act rfl rfl (h.books.collect hinfo hgroupId hgroup hresult) rfl trivial
  collectFailed h hinfo hgroupId hgroup hresult hall :=
    h.act rfl rfl ((h.books.collect hinfo hgroupId hgroup hresult).eraseGroup (Dict.get?_insert_self _ _ _) hall) rfl trivial
  accept h hinfo hgroupId hgroup hresult hall :=
    h.act rfl rfl ((h.books.collect hinfo hgroupId hgroup hresult).acceptGroup (Dict.get?_insert_self _ _ _) hall _) rfl
      trivial
  awaitCancel h := h.move rfl trivial
  collectAgain h _ := h.move rfl trivial

theorem counted_of_idle (config : SchedulerConfig) {s : SchedulerState R} (h : Idle s) : Counted config [] s where
  books := {
    capacity := by
      unfold SchedulerState.inflightRolloutCount
      rw [h.inflightRequests]
      exact Nat.zero_le _
    complete := fun _ _ hgroup => by
      rw [h.groups] at hgroup
      cases hgroup
    live := fun _ _ hinfo => by
      rw [h.inflightRequests] at hinfo
      cases hinfo
    finalizedOnce := by
      rw [h.events]
      exact List.nodup_nil
    waitsForSome := by
      rw [h.events]
      exact List.not_mem_nil
    nonempty := fun _ _ hinfo => by
      rw [h.inflightRequests] at hinfo
      cases hinfo
    groupIds := fun _ _ hgroup => by
      rw [h.groups] at hgroup
      cases hgroup
    taskIds := fun _ _ hinfo => by
      rw [h.inflightRequests] at hinfo
      cases hinfo
    scheduledIds := fun _ hevent => by
      rw [h.events] at hevent
      cases hevent
    resultIds := fun _ _ hresult => by
      rw [h.results] at hresult
      cases hresult
    meets := fun _ _ _ hinfo => by
      rw [h.inflightRequests] at hinfo
      cases hinfo
    gone := fun _ hmem => by
      rw [h.events] at hmem
      cases hmem }
  oneCall := by
    rw [h.calling]
    rfl
  granted := List.forall_mem_nil _

/-- The accounts of every reachable state. -/
theorem accounting_of_reachable {config : SchedulerConfig} {c : SchedulerConfiguration R}
    (h : (schedulerSystem config).Reachable c) : Accounting config c.shared := by
  obtain ⟨c₀, ls, ⟨hidle, htasks⟩, hrun⟩ := h
  obtain ⟨ds, hcounted⟩ := (counted_preserved config).run hrun htasks (counted_of_idle config hidle)
  exact hcounted.books.toAccounting

/-- **Main.** Under a validated batching configuration, whatever rollouts, drops, updates and calls come in whatever
order: the requests fit, the groups add up, no request outlives its group, no group is finalized twice, and nobody
waits for nothing. -/
theorem groupAccounting {F : Type} {scale : Nat → F → Nat} {batching resolved : BatchConfig F}
    (hvalid : resolveBatching scale batching = .ok resolved) (options : SchedulerConfig) {c : SchedulerConfiguration R}
    (h : (schedulerSystem (options.withBatching hvalid)).Reachable c) :
    Accounting (options.withBatching hvalid) c.shared :=
  accounting_of_reachable h

/-! ### Two rollouts in flight -/

section Example

def twoRollouts : BatchConfig Nat := ⟨some 2, none, some 1, none, 2, Nat.two_pos⟩

theorem twoRollouts_valid : resolveBatching (· * ·) twoRollouts = .ok { twoRollouts with maxInflightRollouts := some 2 } :=
  rfl

/-- A batch begins, and its first group gets a client. -/
def beginBatch : List (Cue Await Answer (Job TaggedRollout)) :=
  [.arrive (.generateBatch 4 0), .answer 0 .selectLeastLoadedClient (.ok ⟨"", none⟩)]

theorem groupAccounting_twoRollouts : ∃ c : SchedulerConfiguration TaggedRollout,
    (schedulerSystem (exampleOptions.withBatching twoRollouts_valid)).Reachable c ∧
      c.shared.inflightRolloutCount = 2 ∧ Accounting (exampleOptions.withBatching twoRollouts_valid) c.shared := by
  have hplay : ((director (exampleOptions.withBatching twoRollouts_valid)).play beginBatch ⟨idleState, []⟩).map
      (fun c => c.shared.inflightRolloutCount) = some 2 := rfl
  obtain ⟨c, hc, hcount⟩ := Option.map_eq_some_iff.1 hplay
  have hreach := reachable_of_play idle_idleState hc
  exact ⟨c, hreach, hcount, groupAccounting twoRollouts_valid exampleOptions hreach⟩

end Example

end AuroraRl.Orchestrator
