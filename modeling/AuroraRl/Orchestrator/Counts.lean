import AuroraRl.Orchestrator.Duties

/-!
# What the scheduler's operations do to the requests in flight

* `inflightWhere` : how many rollouts are in flight, of some groups or of all;
* one lemma for each operation that starts, pops, drops or ages requests.
-/

namespace AuroraRl.Orchestrator

variable {R : Type}

theorem requestSize_pos_le {config : SchedulerConfig} {group : GroupState R} (hpending : 0 < group.rolloutsToSchedule) :
    0 < requestSize config group ∧ requestSize config group ≤ group.rolloutsToSchedule := by
  unfold requestSize
  split
  · exact ⟨hpending, Nat.le_refl _⟩
  · exact ⟨Nat.one_pos, hpending⟩

/-- A request as `count` further updates leave it. -/
def InflightRequest.age (info : InflightRequest) (count : Nat) : InflightRequest :=
  { info with offPolicySteps := info.offPolicySteps + count }

namespace SchedulerState

variable (s : SchedulerState R)

/-- How many rollouts of the groups in `p` are in flight. -/
def inflightWhere (p : Option GroupId → Bool) : Nat :=
  s.inflightRequests.total fun _ info => if p info.groupId then info.rolloutCount else 0

def inflightOf (groupId : GroupId) : Nat := rolloutCounts (s.requestsOf groupId)

theorem inflightRolloutCount_eq : s.inflightRolloutCount = s.inflightWhere fun _ => true := rfl

theorem inflightOf_eq (groupId : GroupId) : s.inflightOf groupId = s.inflightWhere fun g => g = some groupId :=
  Dict.totalOf_filter (f := fun _ (info : InflightRequest) => info.rolloutCount) s.inflightRequests.entries
    fun _ info => info.groupId = some groupId

variable {s} {p : Option GroupId → Bool}

theorem inflightWhere_startRequest {config : SchedulerConfig} {groupId : GroupId} {group : GroupState R}
    {client : ClientConfig} (hfresh : s.inflightRequests.get? s.nextTask = none) :
    (s.startRequest config groupId group client).inflightWhere p =
      s.inflightWhere p + if p (some groupId) then requestSize config group else 0 :=
  Dict.total_insert_new _ hfresh

theorem inflightWhere_popRequest {task : TaskId} {info : InflightRequest}
    (hinfo : s.inflightRequests.get? task = some info) :
    (s.popRequest task).inflightWhere p + (if p info.groupId then info.rolloutCount else 0) = s.inflightWhere p :=
  Dict.total_erase hinfo

theorem inflightWhere_withoutGroup {groupId : GroupId} :
    (s.withoutGroup groupId).inflightWhere p = s.inflightWhere fun g => p g && decide (g ≠ some groupId) := by
  unfold inflightWhere withoutGroup
  rw [Dict.total_filter]
  refine Dict.total_congr fun task info _ => ?_
  by_cases hgroup : info.groupId = some groupId
  · simp [hgroup]
  · simp [hgroup]

theorem inflightWhere_mono {p' : Option GroupId → Bool} (h : ∀ g, p g = true → p' g = true) :
    s.inflightWhere p ≤ s.inflightWhere p' := by
  refine Dict.total_le fun task info _ => ?_
  by_cases hp : p info.groupId = true
  · exact Nat.le_of_eq (by rw [if_pos hp, if_pos (h _ hp)])
  · rw [if_neg hp]
    exact Nat.zero_le _

theorem inflightRolloutCount_withoutGroup_le {groupId : GroupId} :
    (s.withoutGroup groupId).inflightRolloutCount ≤ s.inflightRolloutCount := by
  rw [inflightRolloutCount_eq, inflightRolloutCount_eq, inflightWhere_withoutGroup]
  exact inflightWhere_mono fun _ _ => rfl

theorem inflightOf_withoutGroup {groupId groupId' : GroupId} (h : groupId' ≠ groupId) :
    (s.withoutGroup groupId).inflightOf groupId' = s.inflightOf groupId' := by
  rw [inflightOf_eq, inflightOf_eq, inflightWhere_withoutGroup]
  congr 1
  funext g
  by_cases hg : g = some groupId'
  · simp [hg, h]
  · simp [hg]

/-- Who drops the group of a request has popped the request. -/
theorem popRequest_withoutGroup {task : TaskId} {info : InflightRequest} {groupId : GroupId}
    (hinfo : s.inflightRequests.get? task = some info) (hgroup : info.groupId = some groupId) :
    (s.popRequest task).withoutGroup groupId = s.withoutGroup groupId := by
  unfold popRequest withoutGroup
  congr 1
  refine Dict.ext ?_
  simp only [Dict.erase, Dict.filter, List.filter_filter]
  refine List.filter_congr fun e he => ?_
  by_cases htask : e.1 = task
  · have : e.2 = info := by
      have := (Dict.mem_entries_iff _ e.1 e.2).1 he
      rw [htask, hinfo] at this
      exact (Option.some.inj this).symm
    simp [this, hgroup]
  · simp [htask]

theorem withGroup_withoutGroup {groupId : GroupId} {group : GroupState R} :
    (s.withGroup groupId group).withoutGroup groupId = s.withoutGroup groupId := by
  unfold withGroup withoutGroup
  dsimp only
  rw [Dict.erase_insert]

theorem get?_popRequest {task task' : TaskId} {info : InflightRequest}
    (hinfo : (s.popRequest task).inflightRequests.get? task' = some info) :
    task ≠ task' ∧ s.inflightRequests.get? task' = some info := by
  unfold popRequest at hinfo
  rw [Dict.get?_erase] at hinfo
  split at hinfo
  · cases hinfo
  · rename_i hne
    exact ⟨hne, hinfo⟩

theorem inflightOf_popRequest {task : TaskId} {info : InflightRequest} {groupId : GroupId}
    (hinfo : s.inflightRequests.get? task = some info) (hgroupId : info.groupId = some groupId) (groupId' : GroupId) :
    (s.popRequest task).inflightOf groupId' + (if groupId = groupId' then info.rolloutCount else 0) =
      s.inflightOf groupId' := by
  rw [inflightOf_eq, inflightOf_eq, ← inflightWhere_popRequest hinfo, hgroupId]
  by_cases hid : groupId = groupId' <;> simp [hid]

theorem inflightRolloutCount_popRequest_le {task : TaskId} {info : InflightRequest}
    (hinfo : s.inflightRequests.get? task = some info) :
    (s.popRequest task).inflightRolloutCount ≤ s.inflightRolloutCount := by
  rw [inflightRolloutCount_eq, inflightRolloutCount_eq, ← inflightWhere_popRequest hinfo]
  exact Nat.le_add_right _ _

/-- Without room for a group there is something in flight. -/
theorem keys_ne_nil {config : SchedulerConfig}
    (hfull : config.maxInflightRollouts - s.inflightRolloutCount < config.groupSize) : s.inflightRequests.keys ≠ [] := by
  intro hkeys
  have hentries : s.inflightRequests.entries = [] := List.map_eq_nil_iff.1 hkeys
  have hzero : s.inflightRolloutCount = 0 := by
    unfold inflightRolloutCount Dict.total
    rw [hentries]
    rfl
  have := config.fits
  omega

/-! ## Ageing -/

theorem get?_incrementOffPolicy (tasks : List TaskId) (task : TaskId) :
    (s.incrementOffPolicy tasks).inflightRequests.get? task =
      (s.inflightRequests.get? task).map fun info => info.age (tasks.count task) := by
  induction tasks generalizing s with
  | nil => simp [incrementOffPolicy, InflightRequest.age]
  | cons task' tasks ih =>
      change (({ s with inflightRequests := _ } : SchedulerState R).incrementOffPolicy tasks).inflightRequests.get? task = _
      rw [ih]
      dsimp only
      split
      · rename_i info hinfo
        rw [Dict.get?_insert]
        by_cases htask : task' = task
        · subst htask
          simp [hinfo, InflightRequest.age, Nat.add_right_comm, Nat.add_assoc]
        · simp [htask]
      · rename_i hnone
        by_cases htask : task' = task
        · subst htask
          simp [hnone]
        · simp [htask]

theorem inflightWhere_incrementOffPolicy (tasks : List TaskId) :
    (s.incrementOffPolicy tasks).inflightWhere p = s.inflightWhere p := by
  induction tasks generalizing s with
  | nil => rfl
  | cons task tasks ih =>
      change (({ s with inflightRequests := _ } : SchedulerState R).incrementOffPolicy tasks).inflightWhere p = _
      rw [ih]
      unfold inflightWhere
      dsimp only
      split
      · rename_i info hinfo
        exact Dict.total_insert_old hinfo rfl
      · rfl

end SchedulerState

end AuroraRl.Orchestrator
