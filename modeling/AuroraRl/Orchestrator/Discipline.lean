import AuroraRl.Orchestrator.Duties

/-!
# The scheduler keeps every preserved invariant

* `Owns` : the task that runs stands at a duty;
* `wp_…` : one rule for each function of the scheduler;
* `follows` : whatever is `Preserved`, the pool of the scheduler follows; `Preserved.run` : along every run.
-/

namespace AuroraRl.Orchestrator
open Coroutine Protocol Transition

variable {R : Type}

abbrev SchedulerMoment (R : Type) := Moment (SchedulerState R) Await Answer (Job R) (Duty R)

/-- The running task holds no lock, and the others are suspended. -/
def Alone (m : SchedulerMoment R) : Prop := m.held = false ∧ ∀ d ∈ m.rest.map Prod.snd, d.Suspended = true

/-- The running task stands at `d`, and the others at their duties. -/
def Owns (Inv : List (Duty R) → SchedulerState R → Prop) (m : SchedulerMoment R) (d : Duty R) (s : SchedulerState R) : Prop :=
  Alone m ∧ Inv (d :: m.rest.map Prod.snd) s

/-- After an exception only `err` is left. -/
def Then {ρ : Type} (ok : ρ → SchedulerMoment R → SchedulerState R → Prop)
    (err : SchedulerMoment R → SchedulerState R → Prop) : SchedulerMoment R → Except PyError ρ → SchedulerState R → Prop
  | m, .ok a, s => ok a m s
  | m, .error _, s => err m s

/-- In a call that may end. -/
def InCall (Inv : List (Duty R) → SchedulerState R → Prop) (m : SchedulerMoment R) (s : SchedulerState R) : Prop :=
  ∃ d : Duty R, d.MayEnd = true ∧ Owns Inv m d s

variable [RolloutOutput R] {config : SchedulerConfig} {Admits : SchedulerAction R → SchedulerState R → Prop}
  {Inv : List (Duty R) → SchedulerState R → Prop} {q : Job R} {m : SchedulerMoment R} {s : SchedulerState R} {d : Duty R}
  {ρ : Type}

namespace Preserved

variable (h : Preserved config Admits Inv)

/-- The protocol of a preserved invariant. -/
abbrev protocol : Protocol (SchedulerState R) Await Answer (Job R) (Duty R) := dutyProtocol Admits Inv h.perm

/-! ## Awaits -/

theorem wp_perform {e : Await} {Q : SchedulerMoment R → Except PyError (Answer e) → SchedulerState R → Prop}
    (howns : Owns Inv m d s) (hd : d.Suspended = true)
    (hQ : ∀ m₁ s₁ a s₂, Owns Inv m₁ d s₁ → World s₁ e a s₂ → Admits (.answer q e a) s₁ → Q m₁ (.ok a) s₂) :
    h.protocol.wp World q (Coro.perform e) m s Q := by
  obtain ⟨⟨hheld, hothers⟩, hinv⟩ := howns
  refine ⟨d, ⟨⟨hinv, List.forall_mem_cons.2 ⟨hd, hothers⟩⟩, trivial⟩, fun s₁ a s₂ rest _ hinv₁ hw hadmits => ?_⟩
  have halone : Alone (⟨.answer q e a, s₁, m.held, rest⟩ : SchedulerMoment R) :=
    ⟨hheld, (List.forall_mem_cons.1 hinv₁.2).2⟩
  exact hQ _ s₁ a s₂ ⟨halone, hinv₁.1⟩ hw hadmits

theorem wp_exhausted {Q : SchedulerMoment R → Except PyError ρ → SchedulerState R → Prop} (howns : Owns Inv m d s)
    (hd : d.Suspended = true) : h.protocol.wp World q exhausted m s Q :=
  wp_bind.2 (h.wp_perform howns hd fun _ _ a _ _ _ _ => nomatch a)

theorem wp_safeCancelAll {tasks : List TaskId} {Q : SchedulerMoment R → Except PyError Unit → SchedulerState R → Prop}
    (howns : Owns Inv m d s) (hd : d.Suspended = true) (hQ : ∀ m₁ s₁, Owns Inv m₁ d s₁ → Q m₁ (.ok ()) s₁) :
    h.protocol.wp World q (safeCancelAll tasks) m s Q := by
  unfold safeCancelAll
  split
  · exact hQ m s howns
  · refine h.wp_perform howns hd fun m₁ s₁ _ s₂ howns₁ hw _ => ?_
    obtain ⟨-, rfl⟩ := hw
    exact hQ m₁ _ howns₁

/-! ## Ageing -/

theorem wp_startDrops {ager : Ager} {tasks : List TaskId} {n : Nat} {pending : List GroupId} (hn : n = pending.length)
    {Q : SchedulerMoment R → Except PyError (List (TaskId × InflightRequest)) → SchedulerState R → Prop}
    (howns : Owns Inv m (.ageing ager tasks pending) s)
    (hQ : ∀ m₁ s₁ removed, Owns Inv m₁ (.ageing ager tasks []) s₁ → Q m₁ (.ok removed) s₁) :
    h.protocol.wp World q (startDrops n pending) m s Q := by
  induction n generalizing pending m s Q with
  | zero =>
      rw [List.length_eq_zero_iff.1 hn.symm] at howns
      exact hQ m s [] howns
  | succ n ih =>
      refine wp_bind.2 (h.wp_perform howns rfl fun m₁ s₁ groupId s₂ howns₁ hw _ => ?_)
      obtain ⟨hmem, rfl⟩ := hw
      refine wp_modify_bind.2 (wp_bind.2 ?_)
      refine wp_getState_bind.2 (wp_modify_bind.2 ?_)
      refine wp_bind.2 (ih ?_ ⟨howns₁.1, h.startDrop howns₁.2 hmem⟩ fun m₃ s₃ removed howns₃ => ?_)
      · rw [List.length_erase_of_mem hmem]
        omega
      · exact hQ m₃ s₃ _ howns₃

theorem wp_updateOffPolicy {ager : Ager} {Q : SchedulerMoment R → Except PyError Unit → SchedulerState R → Prop}
    (howns : Owns Inv m (.ageing ager (s.tasksToIncrement config) (s.staleGroupIds config))
      ({ s with dropping := s.staleGroupIds config }.record (.ageing s.inflightRequests.entries)))
    (hQ : ∀ m₁ s₁, Owns Inv m₁ (.aged ager) s₁ → Q m₁ (.ok ()) s₁) :
    h.protocol.wp World q (updateOffPolicy config) m s Q := by
  refine wp_getState_bind.2 (wp_setState_bind.2 (wp_bind.2 ?_))
  refine h.wp_startDrops rfl howns fun m₁ s₁ removed howns₁ => ?_
  have hend : ∀ m₂ s₂, Owns Inv m₂ (.ageing ager (s.tasksToIncrement config) []) s₂ → h.protocol.wp World q (do
      Coro.modify (·.incrementOffPolicy (s.tasksToIncrement config))
      Coro.modify fun s =>
        { s with cancelledRolloutsCount := s.cancelledRolloutsCount + rolloutCounts removed }.record .aged) m₂ s₂ Q :=
    fun m₂ s₂ howns₂ => hQ m₂ _ ⟨howns₂.1, h.aged howns₂.2⟩
  dsimp only
  split
  · refine wp_bind.2 (h.wp_perform howns₁ rfl fun m₂ s₂ _ s₃ howns₂ hw _ => ?_)
    obtain ⟨-, rfl⟩ := hw
    exact hend m₂ _ howns₂
  · exact hend m₁ s₁ howns₁

/-! ## Scheduling -/

theorem wp_scheduleAdmitted {batch : List R} {groupId : GroupId} (howns : Owns Inv m (.reserving batch groupId) s) :
    h.protocol.wp World q (scheduleAdmitted config groupId) m s
      (Then (fun _ m s => Owns Inv m (.filling batch) s) (InCall Inv)) := by
  unfold scheduleAdmitted
  refine wp_getState_bind.2 ?_
  split
  · exact ⟨howns.1, h.unreserve howns.2⟩
  · rename_i group hgroup
    split
    · exact ⟨howns.1, h.unreserve howns.2⟩
    · split
      · exact ⟨howns.1, h.startRequest howns.2 hgroup⟩
      · refine wp_bind.2 (h.wp_perform howns rfl fun m₁ s₁ client s₂ howns₁ hw _ => ?_)
        obtain rfl : s₂ = s₁ := hw
        refine wp_bind.2 (wp_ofExcept.2 ?_)
        cases client with
        | error x => exact ⟨_, rfl, howns₁⟩
        | ok client =>
            refine wp_getState_bind.2 ?_
            split
            · exact ⟨howns₁.1, h.unreserve howns₁.2⟩
            · rename_i group hgroup
              exact ⟨howns₁.1, h.startRequest howns₁.2 hgroup⟩

theorem wp_scheduleRollout {batch : List R} {groupId : GroupId} (howns : Owns Inv m (.reserving batch groupId) s) :
    h.protocol.wp World q (scheduleRollout config groupId) m s
      (Then (fun _ m s => Owns Inv m (.filling batch) s) (InCall Inv)) := by
  unfold scheduleRollout
  split
  · refine wp_bind.2 (h.wp_perform howns rfl fun m₁ s₁ _ s₂ howns₁ hw _ => ?_)
    obtain rfl : s₂ = s₁ := hw
    exact h.wp_scheduleAdmitted howns₁
  · exact h.wp_scheduleAdmitted howns

/-- Without another request to start there is no room for a group. -/
def Scheduled (config : SchedulerConfig) (Inv : List (Duty R) → SchedulerState R → Prop) (batch : List R) (more : Bool)
    (m : SchedulerMoment R) (s : SchedulerState R) : Prop :=
  Owns Inv m (.filling batch) s ∧
    (more = false → config.maxInflightRollouts - s.inflightRolloutCount < config.groupSize)

theorem wp_scheduleNextRequest {batch : List R} (howns : Owns Inv m (.filling batch) s) :
    h.protocol.wp World q (scheduleNextRequest config) m s (Then (Scheduled config Inv batch) (InCall Inv)) := by
  have hmore : ∀ {groupId m s}, Owns Inv m (.reserving batch groupId) s → h.protocol.wp World q (do
      scheduleRollout config groupId
      return true) m s (Then (Scheduled config Inv batch) (InCall Inv)) := by
    intro groupId m s howns
    refine wp_bind.2 (wp_mono (h.wp_scheduleRollout howns) fun m₁ r s₁ hr => ?_)
    cases r with
    | error x => exact hr
    | ok _ => exact ⟨hr, fun h => by cases h⟩
  unfold scheduleNextRequest
  refine wp_getState_bind.2 ?_
  dsimp only
  split
  · rename_i hzero
    refine ⟨howns, fun _ => ?_⟩
    have := config.groupSize_pos
    omega
  · rename_i hpos
    split
    · rename_i groupId group hnext
      exact hmore ⟨howns.1, h.reserve howns.2 hnext hpos⟩
    · split
      · rename_i hfull
        exact ⟨howns, fun _ => hfull⟩
      · rename_i hroom
        refine wp_bind.2 (wp_ofExcept.2 ?_)
        cases config.sampleExamples s.nextGroupId with
        | error x => exact ⟨_, rfl, howns⟩
        | ok ex =>
            refine wp_modify_bind.2 (hmore ⟨howns.1, h.addGroup howns.2 ?_⟩)
            omega

theorem wp_fillInflightRequests {batch : List R} {fuel : Nat} (howns : Owns Inv m (.filling batch) s) :
    h.protocol.wp World q (fillInflightRequests config fuel) m s
      (Then (fun _ => Scheduled config Inv batch false) (InCall Inv)) := by
  refine wp_iterate (fun _ m s => Owns Inv m (.filling batch) s) (fun _ m s howns => ?_)
    (fun _ m s howns => h.wp_exhausted howns rfl) howns
  refine wp_bind.2 (wp_mono (h.wp_scheduleNextRequest howns) fun m₁ r s₁ hr => ?_)
  cases r with
  | error x => exact hr
  | ok more =>
      cases more with
      | true => exact hr.1
      | false => exact hr

/-! ## Collecting -/

/-- After a drop the loop goes on, at once or once the tasks are cancelled. -/
theorem wp_dropGroup {batch : List R} {tasks : List TaskId} {groupId : GroupId}
    {Q : SchedulerMoment R → Except PyError (BatchProgress R) → SchedulerState R → Prop} {progress : BatchProgress R}
    (howns : Owns Inv m (.collecting batch tasks) (s.withoutGroup groupId))
    (hQ : ∀ m₁ s₁, Owns Inv m₁ (.collecting batch tasks) s₁ → Q m₁ (.ok progress) s₁) :
    h.protocol.wp World q (do
      let _ ← dropGroup groupId
      return progress) m s Q := by
  unfold dropGroup forgetGroup
  refine wp_bind.2 (wp_bind.2 (wp_getState_bind.2 (wp_modify_bind.2 (wp_pure.2 ?_))))
  refine wp_bind.2 ?_
  unfold safeCancelAll
  split
  · exact hQ m _ howns
  · refine h.wp_perform ⟨howns.1, h.awaitCancel howns.2⟩ rfl fun m₁ s₁ _ s₂ howns₁ hw hadmits => ?_
    obtain ⟨-, rfl⟩ := hw
    exact hQ m₁ _ ⟨howns₁.1, h.collectAgain howns₁.2 hadmits⟩

/-- The loop over the finished tasks stands before `tasks`, with the batch it has so far. -/
def Collecting (Inv : List (Duty R) → SchedulerState R → Prop) (tasks : List TaskId) (batch : BatchProgress R)
    (m : SchedulerMoment R) (s : SchedulerState R) : Prop := Owns Inv m (.collecting batch.rollouts tasks) s

theorem wp_collectReturned {batch : BatchProgress R} {task : TaskId} {tasks : List TaskId} {info : InflightRequest}
    {groupId : GroupId} {group : GroupState R} {rollouts : List R}
    (howns : Owns Inv m (.collecting batch.rollouts (task :: tasks)) s)
    (hinfo : s.inflightRequests.get? task = some info) (hgroupId : info.groupId = some groupId)
    (hgroup : s.groups.get? groupId = some group) (hresult : s.results.get? task = some (.returned rollouts)) :
    h.protocol.wp World q (collectReturned config info groupId group rollouts batch) m (s.popRequest task)
      (Then (Collecting Inv tasks) (InCall Inv)) := by
  unfold collectReturned
  dsimp only
  split
  · refine wp_modify_bind.2 (h.wp_dropGroup ?_ fun m₁ s₁ howns₁ => howns₁)
    exact ⟨howns.1, h.dropFailed howns.2 hinfo hgroupId⟩
  · refine wp_modify_bind.2 ?_
    split
    · rename_i hopen
      exact ⟨howns.1, h.collect howns.2 hinfo hgroupId hgroup hresult hopen⟩
    · rename_i hclosed
      split
      · exact ⟨howns.1, h.collectFailed howns.2 hinfo hgroupId hgroup hresult (Nat.le_of_not_lt hclosed)⟩
      · exact ⟨howns.1, h.accept howns.2 hinfo hgroupId hgroup hresult (Nat.le_of_not_lt hclosed)⟩

theorem wp_collectRollout {batch : BatchProgress R} {task : TaskId} {tasks : List TaskId}
    (howns : Owns Inv m (.collecting batch.rollouts (task :: tasks)) s) :
    h.protocol.wp World q (collectRollout config task batch) m s (Then (Collecting Inv tasks) (InCall Inv)) := by
  unfold collectRollout
  refine wp_getState_bind.2 ?_
  split
  · rename_i hnone
    exact ⟨howns.1, h.skip howns.2 hnone⟩
  · rename_i info hinfo
    refine wp_modify_bind.2 ?_
    split
    · rename_i hgroupId
      refine ⟨howns.1, h.orphan howns.2 hinfo fun groupId hmem => ?_⟩
      rw [hgroupId] at hmem
      cases hmem
    · rename_i groupId hgroupId
      refine wp_getState_bind.2 ?_
      split
      · rename_i hnone
        refine ⟨howns.1, h.orphan howns.2 hinfo fun groupId' hmem => ?_⟩
        rw [hgroupId] at hmem
        cases hmem
        exact hnone
      · rename_i group hgroup
        split
        · rename_i rollouts hresult
          exact h.wp_collectReturned howns hinfo hgroupId hgroup hresult
        · exact h.wp_dropGroup ⟨howns.1, h.drop howns.2 hinfo hgroupId⟩ fun m₁ s₁ howns₁ => howns₁

theorem wp_collectFinished {tasks : List TaskId} {batch : BatchProgress R}
    (howns : Owns Inv m (.collecting batch.rollouts tasks) s) :
    h.protocol.wp World q (collectFinished config tasks batch) m s
      (Then (fun batch m s => Owns Inv m (.filling batch.rollouts) s) (InCall Inv)) := by
  induction tasks generalizing batch m s with
  | nil => exact ⟨howns.1, h.collected howns.2⟩
  | cons task tasks ih =>
      unfold collectFinished
      split
      · exact ⟨howns.1, h.collected howns.2⟩
      · refine wp_bind.2 (wp_mono (h.wp_collectRollout howns) fun m₁ r s₁ hr => ?_)
        cases r with
        | error x => exact hr
        | ok batch => exact ih hr

theorem wp_waitReady {batch : List R} {finished : List TaskId}
    {Q : SchedulerMoment R → Except PyError Unit → SchedulerState R → Prop}
    (howns : Owns Inv m (.woken batch finished) s)
    (hQ : ∀ m₁ s₁, Owns Inv m₁ (.collecting batch finished) s₁ → Q m₁ (.ok ()) s₁) :
    h.protocol.wp World q waitReady m s Q := by
  unfold waitReady
  refine wp_getState_bind.2 ?_
  split
  · refine h.wp_perform ⟨howns.1, h.awaitReady howns.2⟩ rfl fun m₁ s₁ _ s₂ howns₁ hw hadmits => ?_
    obtain ⟨-, rfl⟩ := hw
    exact hQ m₁ _ ⟨howns₁.1, h.collectLater howns₁.2 hadmits⟩
  · exact hQ m s ⟨howns.1, h.collectNow howns.2⟩

theorem wp_waitFirstCompleted {batch : List R}
    {Q : SchedulerMoment R → Except PyError (List TaskId) → SchedulerState R → Prop}
    (howns : Scheduled config Inv batch false m s)
    (hQ : ∀ m₁ s₁ finished, Owns Inv m₁ (.woken batch finished) s₁ → Q m₁ (.ok finished) s₁)
    (herr : ∀ m₁ s₁ x, InCall Inv m₁ s₁ → Q m₁ (.error x) s₁) :
    h.protocol.wp World q (waitFirstCompleted s.inflightRequests.keys) m s Q := by
  obtain ⟨⟨hheld, hinv⟩, hfull⟩ := howns
  have hwait := h.wait hinv (hfull rfl)
  unfold waitFirstCompleted
  refine wp_modify_bind.2 ?_
  split
  · exact herr _ _ _ ⟨_, rfl, hheld, hwait⟩
  · refine wp_bind.2 (h.wp_perform ⟨hheld, hwait⟩ rfl fun m₁ s₁ finished s₂ howns₁ hw hadmits => ?_)
    obtain ⟨hnodup, -, hfinished, rfl⟩ := hw
    exact wp_modify_bind.2 (hQ m₁ _ finished ⟨howns₁.1, h.woke howns₁.2 hnodup hfinished hadmits⟩)

theorem wp_fillBatch {fuel : Nat} (howns : Owns Inv m (.filling []) s) :
    h.protocol.wp World q (fillBatch config fuel) m s
      (Then (fun batch m s => Owns Inv m (.filling batch.rollouts) s) (InCall Inv)) := by
  refine wp_iterate (fun batch m s => Owns Inv m (.filling batch.rollouts) s) (fun batch m s howns => ?_)
    (fun _ m s howns => h.wp_exhausted howns rfl) howns
  split
  · exact howns
  · refine wp_bind.2 (wp_mono (h.wp_fillInflightRequests howns) fun m₁ r s₁ hr => ?_)
    cases r with
    | error x => exact hr
    | ok _ =>
        refine wp_getState_bind.2 (wp_bind.2 (h.wp_waitFirstCompleted hr (fun m₂ s₂ finished howns₂ => ?_)
          fun _ _ _ hr => hr))
        refine wp_bind.2 (h.wp_waitReady howns₂ fun m₃ s₃ howns₃ => ?_)
        refine wp_bind.2 (wp_mono (h.wp_collectFinished howns₃) fun m₄ r s₄ hr => ?_)
        cases r with
        | error x => exact hr
        | ok batch => exact hr

/-! ## Starting updates -/

theorem wp_getOrStartStageTask (hd : d.Updates) {Q : SchedulerMoment R → Except PyError TaskId → SchedulerState R → Prop}
    (howns : Owns Inv m d s) (huses : config.usesBackgroundStage = true)
    (hnext : s.ckptStep < computeNextCkptStep config s)
    (hQ : ∀ s₁ task, Owns Inv m d s₁ → s₁.inflightStageTask = some task → Q m (.ok task) s₁) :
    h.protocol.wp World q (getOrStartStageTask (computeNextCkptStep config s)) m s Q := by
  have hstart : (∀ task, s.inflightStageTask = some task → s.finished.contains task = true) →
      Q m (.ok s.nextTask) (s.withStageTask (computeNextCkptStep config s)) := fun hfinished =>
    hQ _ _ ⟨howns.1, h.startStage hd howns.2 huses hnext hfinished⟩ rfl
  unfold getOrStartStageTask
  refine wp_getState_bind.2 ?_
  dsimp only
  split
  · rename_i task htask
    split
    · exact hQ s task howns htask
    · rename_i hlate
      refine hstart fun task' htask' => ?_
      rw [htask] at htask'
      cases htask'
      simpa using (not_or.1 hlate).2
  · rename_i hnone
    refine hstart fun task htask => ?_
    rw [hnone] at htask
    cases htask

theorem wp_getOrStartPolicyUpdateTask (hd : d.Updates)
    {Q : SchedulerMoment R → Except PyError TaskId → SchedulerState R → Prop}
    (howns : Owns Inv m d s) (huses : config.usesBackgroundStage = false)
    (hnext : s.ckptStep < computeNextCkptStep config s)
    (hQ : ∀ s₁ task, Owns Inv m d s₁ → Q m (.ok task) s₁) :
    h.protocol.wp World q (getOrStartPolicyUpdateTask (computeNextCkptStep config s)) m s Q := by
  have hstart : (∀ task, s.inflightPolicyUpdateTask = some task → s.finished.contains task = true) →
      Q m (.ok s.nextTask) (s.withApplyTask (computeNextCkptStep config s)) := fun hfinished =>
    hQ _ _ ⟨howns.1, h.startApply hd howns.2 huses hnext hfinished⟩
  unfold getOrStartPolicyUpdateTask
  refine wp_getState_bind.2 ?_
  dsimp only
  split
  · rename_i task htask
    split
    · exact hQ s task howns
    · rename_i hlate
      refine hstart fun task' htask' => ?_
      rw [htask] at htask'
      cases htask'
      simpa using hlate
  · rename_i hnone
    refine hstart fun task htask => ?_
    rw [hnone] at htask
    cases htask

/-! ## Updating in one go -/

/-- Somewhere in an update in one go. -/
def Applying (Inv : List (Duty R) → SchedulerState R → Prop) (self : TaskId) (step : Nat) (cleared : Bool)
    (m : SchedulerMoment R) (s : SchedulerState R) : Prop :=
  ∃ phase : ApplyPhase, Owns Inv m (.applying self step cleared phase) s

theorem wp_updateInferenceWeights {self : TaskId} {step : Nat} {cleared : Bool}
    (howns : Owns Inv m (.applying self step cleared .ready) s) :
    h.protocol.wp World q (updateInferenceWeights config step) m s
      (Then (fun _ m s => Owns Inv m (.ageing (.apply self) (s.tasksToIncrement config) (s.staleGroupIds config))
        (s.beginAgeing config step)) (Applying Inv self step cleared)) := by
  unfold updateInferenceWeights
  split
  · rename_i hcommit
    split
    · exact ⟨_, howns⟩
    · refine wp_bind.2 (wp_ofExcept.2 ?_)
      cases stageUploadKwargs config with
      | error x => exact ⟨_, howns⟩
      | ok kwargs =>
          refine wp_bind.2 (h.wp_perform howns rfl fun m₁ s₁ staged s₂ howns₁ hw _ => ?_)
          obtain rfl : s₂ = s₁ := hw
          refine wp_bind.2 (wp_ofExcept.2 ?_)
          cases staged with
          | error x => exact ⟨_, howns₁⟩
          | ok _ =>
              have hstaged : Owns Inv m₁ (.applying self step cleared .staged) s₂ :=
                ⟨howns₁.1, h.stagedApply howns₁.2 hcommit⟩
              refine wp_bind.2 (h.wp_perform hstaged rfl fun m₂ s₃ committed s₄ howns₂ hw hadmits => ?_)
              refine wp_ofExcept.2 ?_
              cases committed with
              | error x =>
                  obtain rfl : s₄ = s₃ := hw
                  exact ⟨_, howns₂⟩
              | ok _ =>
                  obtain rfl : s₄ = s₃.record (.committed (toString step)) := hw
                  exact ⟨howns₂.1, h.committedApply howns₂.2 howns₂.1.2 hadmits⟩
  · rename_i hcommit
    refine wp_bind.2 (h.wp_perform howns rfl fun m₁ s₁ updated s₂ howns₁ hw hadmits => ?_)
    obtain rfl : s₂ = s₁ := hw
    refine wp_ofExcept.2 ?_
    cases updated with
    | error x => exact ⟨_, howns₁⟩
    | ok _ => exact ⟨howns₁.1, h.updatedApply howns₁.2 (by simpa using hcommit) howns₁.1.2 hadmits⟩

/-- A task that is done stands where `outcome` leaves it. -/
def Ended {ρ : Type} (Inv : List (Duty R) → SchedulerState R → Prop) (self : TaskId)
    (outcome : ρ → Option StagedPolicy) (m : SchedulerMoment R) (r : Except PyError ρ) (s : SchedulerState R) : Prop :=
  ∃ d : Duty R, Duty.Ends self d (r.map outcome) ∧ Owns Inv m d s

theorem wp_advanceAndAge {ager : Ager} {step : Nat} {Q : SchedulerMoment R → Except PyError Unit → SchedulerState R → Prop}
    (howns : Owns Inv m (.ageing ager (s.tasksToIncrement config) (s.staleGroupIds config)) (s.beginAgeing config step))
    (hQ : ∀ m₁ s₁, Owns Inv m₁ (.aged ager) s₁ → Q m₁ (.ok ()) s₁) :
    h.protocol.wp World q (do
      Coro.modify (·.advance step)
      updateOffPolicy config) m s Q :=
  wp_modify_bind.2 (h.wp_updateOffPolicy howns hQ)

theorem wp_applyPolicyUpdate {self : TaskId} {step : Nat} (howns : Owns Inv m (.running self (.apply step)) s) :
    h.protocol.wp World q (applyPolicyUpdate config step) m s (Ended Inv self fun _ => none) := by
  have hupdate : ∀ {cleared m s}, Owns Inv m (.applying self step cleared .ready) s → h.protocol.wp World q (do
      updateInferenceWeights config step
      Coro.modify (·.advance step)
      updateOffPolicy config) m s (Then (fun _ m s => Owns Inv m (.aged (.apply self)) s)
        (Applying Inv self step cleared)) := by
    intro cleared m s howns
    refine wp_bind.2 (wp_mono (h.wp_updateInferenceWeights howns) fun m₁ r s₁ hr => ?_)
    cases r with
    | error x => exact hr
    | ok _ => exact h.wp_advanceAndAge hr fun m₂ s₂ howns₂ => howns₂
  obtain ⟨cleared, hcleared⟩ : ∃ cleared : Bool, cleared = true ↔ step = s.step - 1 := ⟨decide _, decide_eq_true_iff⟩
  unfold applyPolicyUpdate
  refine wp_getState_bind.2 (wp_bind.2 (wp_attempt.2 (wp_mono (Q := Then (fun _ m s => Owns Inv m (.aged (.apply self)) s)
    (Applying Inv self step cleared)) ?_ fun m₁ r s₁ hr => ?_)))
  · split
    · rename_i hstep
      rw [hcleared.2 hstep]
      refine wp_modify_bind.2 (wp_bind.2 (h.wp_perform ⟨howns.1, h.beginWait howns.2 hstep⟩ rfl
        fun m₁ s₁ _ s₂ howns₁ hw _ => ?_))
      obtain ⟨⟨dir, hdir, hstable⟩, rfl⟩ := hw
      exact hupdate ⟨howns₁.1, h.foundStable howns₁.2 hdir hstable⟩
    · rename_i hstep
      obtain rfl : cleared = false := by simpa using mt hcleared.1 hstep
      exact hupdate ⟨howns.1, h.beginApply howns.2 hstep⟩
  · cases r with
    | ok _ => exact ⟨_, .applied, hr⟩
    | error x =>
        obtain ⟨phase, hheld, hinv⟩ := hr
        obtain ⟨hfailed, hset⟩ := h.failApply hinv
        dsimp only
        split
        · rename_i hclear
          exact ⟨_, .failed, hheld, hset (hcleared.2 hclear.1)⟩
        · exact ⟨_, .failed, hheld, hfailed⟩

/-! ## Staging in the background -/

theorem wp_stagePolicyUpdate {self : TaskId} {step : Nat} (howns : Owns Inv m (.running self (.stage step)) s) :
    h.protocol.wp World q (stagePolicyUpdate config step) m s (Ended Inv self some) := by
  unfold stagePolicyUpdate
  dsimp only
  by_cases hlora : config.loraName.isSome = true
  · rw [if_pos hlora]
    exact ⟨_, .unable, howns⟩
  · rw [if_neg hlora]
    refine wp_bind.2 (h.wp_perform howns rfl fun m₁ s₁ _ s₂ howns₁ hw _ => ?_)
    obtain ⟨⟨dir, hdir, hfile⟩, rfl⟩ := hw
    have hready : Owns Inv m₁ (.fileReady self step) s₂ := ⟨howns₁.1, h.foundFile howns₁.2 hdir hfile⟩
    refine wp_bind.2 (wp_ofExcept.2 ?_)
    cases stageUploadKwargs config with
    | error x => exact ⟨_, .notStaged, hready⟩
    | ok kwargs =>
        refine wp_bind.2 (h.wp_perform hready rfl fun m₂ s₃ staged s₄ howns₂ hw hadmits => ?_)
        obtain rfl : s₄ = s₃ := hw
        refine wp_bind.2 (wp_ofExcept.2 ?_)
        cases staged with
        | error x => exact ⟨_, .notStaged, howns₂⟩
        | ok _ =>
            refine ⟨_, .staged, howns₂.1, h.stagedFile howns₂.2 hadmits fun hstream => ?_⟩
            rw [if_pos hstream]

theorem wp_commitStagedPolicyUpdate {task : TaskId} (howns : Owns Inv m .starting s)
    (huses : config.usesBackgroundStage = true) (htask : s.inflightStageTask = some task) :
    h.protocol.wp World q (commitStagedPolicyUpdate config task) m s
      (Then (fun _ m s => Owns Inv m .starting s) (fun m s => Owns Inv m .starting s)) := by
  unfold commitStagedPolicyUpdate
  refine wp_modify_bind.2 (wp_bind.2 (wp_attempt.2 (wp_mono (Q := Then (fun _ m s => Owns Inv m (.aged (.commit task)) s)
    (fun m s => Owns Inv m (.committing task) s)) ?_ fun m₁ r s₁ hr => ?_)))
  · refine wp_bind.2 (h.wp_perform ⟨howns.1, h.beginCommit howns.2 huses htask⟩ rfl fun m₁ s₁ joined s₂ howns₁ hw _ => ?_)
    refine wp_bind.2 (wp_ofExcept.2 ?_)
    cases joined with
    | error x =>
        obtain ⟨-, -, rfl⟩ := hw
        exact howns₁
    | ok outcome =>
        obtain ⟨hfinished, rfl⟩ := hw
        cases outcome with
        | error x => exact howns₁
        | ok policy? =>
            cases policy? with
            | none => exact howns₁
            | some policy =>
                have hready : Owns Inv m₁ (.commitReady task policy) s₂ := ⟨howns₁.1, h.joinedStage howns₁.2 hfinished⟩
                refine wp_bind.2 (h.wp_perform hready rfl fun m₂ s₃ committed s₄ howns₂ hw hadmits => ?_)
                refine wp_bind.2 (wp_ofExcept.2 ?_)
                cases committed with
                | error x =>
                    obtain rfl : s₄ = s₃ := hw
                    exact ⟨howns₂.1, h.abortCommitReady howns₂.2⟩
                | ok _ =>
                    obtain rfl : s₄ = s₃.record (.committed (toString policy.step)) := hw
                    exact h.wp_advanceAndAge ⟨howns₂.1, h.committedStage howns₂.2 howns₂.1.2 hadmits⟩
                      fun m₃ s₅ howns₃ => howns₃
  · cases r with
    | ok _ => exact ⟨hr.1, h.agedCommit hr.2⟩
    | error x =>
        obtain ⟨hplain, hset⟩ := h.abortCommit hr.2
        dsimp only
        split
        · exact ⟨hr.1, hset⟩
        · exact ⟨hr.1, hplain⟩

/-! ## The update loop -/

/-- The barrier of a batch: nothing is left to update to. -/
theorem wp_maybeUpdatePolicy_call {fuel : Nat} (howns : Owns Inv m .starting s) :
    h.protocol.wp World q (maybeUpdatePolicy config fuel none true) m s
      (Then (fun _ m s => Owns Inv m .starting s ∧ computeNextCkptStep config s ≤ s.ckptStep) (InCall Inv)) := by
  refine wp_iterate (fun _ m s => Owns Inv m .starting s) (fun _ m s howns => ?_)
    (fun _ m s howns => h.wp_exhausted howns rfl) howns
  refine wp_getState_bind.2 ?_
  dsimp only
  split
  · rename_i hdone
    exact ⟨howns, hdone⟩
  · rename_i hbehind
    split
    · rename_i huses
      refine wp_bind.2 (h.wp_getOrStartStageTask .call howns huses (Nat.lt_of_not_le hbehind)
        fun s₁ task howns₁ htask => ?_)
      refine wp_bind.2 (wp_mono (h.wp_commitStagedPolicyUpdate howns₁ huses htask) fun m₂ r s₂ hr => ?_)
      cases r with
      | error x => exact ⟨_, rfl, hr⟩
      | ok _ => exact hr
    · rename_i huses
      refine wp_bind.2 (h.wp_getOrStartPolicyUpdateTask .call howns (by simpa using huses) (Nat.lt_of_not_le hbehind)
        fun s₁ task howns₁ => ?_)
      refine wp_bind.2 (h.wp_perform howns₁ rfl fun m₂ s₂ joined s₃ howns₂ hw _ => ?_)
      refine wp_bind.2 (wp_ofExcept.2 ?_)
      cases joined with
      | error x =>
          obtain ⟨-, -, rfl⟩ := hw
          exact ⟨_, rfl, howns₂⟩
      | ok outcome =>
          obtain ⟨-, rfl⟩ := hw
          cases outcome with
          | error x => exact ⟨_, rfl, howns₂⟩
          | ok _ => exact howns₂

theorem wp_maybeUpdatePolicy_loop {self : TaskId} {fuel : Nat} (howns : Owns Inv m (.running self .updateLoop) s) :
    h.protocol.wp World q (maybeUpdatePolicy config fuel (some self) false) m s
      fun m _ s => Owns Inv m (.running self .updateLoop) s := by
  refine wp_iterate (fun _ m s => Owns Inv m (.running self .updateLoop) s) (fun _ m s howns => ?_)
    (fun _ m s howns => h.wp_exhausted howns rfl) howns
  refine wp_getState_bind.2 ?_
  dsimp only
  split
  · exact howns
  · rename_i hbehind
    split
    · rename_i huses
      exact wp_bind.2 (h.wp_getOrStartStageTask (.loop self) howns huses (Nat.lt_of_not_le hbehind)
        fun s₁ task howns₁ _ => howns₁)
    · rename_i huses
      refine wp_bind.2 (h.wp_getOrStartPolicyUpdateTask (.loop self) howns (by simpa using huses)
        (Nat.lt_of_not_le hbehind) fun s₁ task howns₁ => ?_)
      refine wp_bind.2 (h.wp_perform howns₁ rfl fun m₂ s₂ joined s₃ howns₂ hw _ => ?_)
      refine wp_bind.2 (wp_ofExcept.2 ?_)
      cases joined with
      | error x =>
          obtain ⟨-, -, rfl⟩ := hw
          exact howns₂
      | ok outcome =>
          obtain ⟨-, rfl⟩ := hw
          cases outcome with
          | error x => exact howns₂
          | ok _ => exact howns₂

/-- The loop ends only by an exception. -/
theorem wp_updatePolicyLoop {self : TaskId} {fuel : Nat} (howns : Owns Inv m (.running self .updateLoop) s) :
    h.protocol.wp World q (updatePolicyLoop config fuel self) m s
      (Then (fun _ _ _ => False) fun m s => Owns Inv m (.running self .updateLoop) s) := by
  refine wp_iterate (fun _ m s => Owns Inv m (.running self .updateLoop) s) (fun _ m s howns => ?_)
    (fun _ m s howns => h.wp_exhausted howns rfl) howns
  refine wp_bind.2 (wp_mono (h.wp_maybeUpdatePolicy_loop howns) fun m₁ r s₁ howns₁ => ?_)
  cases r with
  | error x => exact howns₁
  | ok _ =>
      refine wp_bind.2 (h.wp_perform howns₁ rfl fun m₂ s₂ slept s₃ howns₂ hw _ => ?_)
      refine wp_bind.2 (wp_ofExcept.2 ?_)
      cases slept with
      | error x =>
          obtain ⟨-, -, rfl⟩ := hw
          exact howns₂
      | ok _ =>
          obtain rfl : s₃ = s₂ := hw
          exact howns₂

/-! ## Jobs -/

theorem wp_policyTaskBody {self : TaskId} {fuel : Nat} {task : PolicyTask} (howns : Owns Inv m (.running self task) s) :
    h.protocol.wp World q (policyTaskBody config fuel self task) m s (Ended Inv self id) := by
  cases task with
  | updateLoop =>
      refine wp_bind.2 (wp_mono (h.wp_updatePolicyLoop howns) fun m₁ r s₁ hr => ?_)
      cases r with
      | error x => exact ⟨_, .unable, hr⟩
      | ok _ => exact hr.elim
  | apply step =>
      refine wp_bind.2 (wp_mono (h.wp_applyPolicyUpdate howns) fun m₁ r s₁ hr => ?_)
      cases r with
      | error x => exact hr
      | ok _ => exact hr
  | stage step =>
      refine wp_bind.2 (wp_mono (h.wp_stagePolicyUpdate howns) fun m₁ r s₁ hr => ?_)
      cases r with
      | error x => exact hr
      | ok _ => exact hr

/-- The state and the duties at the end of a job. -/
def Done (Inv : List (Duty R) → SchedulerState R → Prop) (m : SchedulerMoment R) (_ : Except PyError Unit)
    (s : SchedulerState R) : Prop := Alone m ∧ Inv (m.rest.map Prod.snd) s

theorem wp_runPolicyTask {self : TaskId} {fuel : Nat} {task : PolicyTask}
    (howns : Owns Inv m (.running self task) (s.start self)) :
    h.protocol.wp World q (runPolicyTask config fuel self task) m s (Done Inv) := by
  have hend : ∀ {m : SchedulerMoment R} {r : Except PyError (Option StagedPolicy)} {s : SchedulerState R},
      Ended Inv self id m r s → Done Inv m (.ok ()) (s.finish self r) := by
    rintro m r s ⟨d, hd, hheld, hinv⟩
    rw [Except.map_id] at hd
    exact ⟨hheld, h.finishTask hd hinv⟩
  unfold runPolicyTask
  refine wp_modify_bind.2 (wp_getState_bind.2 ?_)
  dsimp only
  split
  · exact hend ⟨_, .unable, howns⟩
  · refine wp_bind.2 (wp_attempt.2 (wp_mono (h.wp_policyTaskBody howns) fun m₁ r s₁ hr => ?_))
    exact hend hr

theorem wp_call {body : Sched R Unit}
    (hbody : h.protocol.wp World q body m { s with calling := true }
      (Then (fun _ => InCall Inv) (InCall Inv))) :
    h.protocol.wp World q (call body) m s (Done Inv) := by
  refine wp_modify_bind.2 (wp_bind.2 (wp_attempt.2 (wp_mono hbody fun m₁ r s₁ hr => ?_)))
  have hcall : InCall Inv m₁ s₁ := by
    cases r with
    | error x => exact hr
    | ok _ => exact hr
  obtain ⟨d, hd, hheld, hinv⟩ := hcall
  exact wp_modify_bind.2 (wp_ofExcept.2 ⟨hheld, h.endCall hd hinv⟩)

theorem wp_safeCancel {task : TaskId} {Q : SchedulerMoment R → Except PyError Unit → SchedulerState R → Prop}
    (howns : Owns Inv m d { s with cancelling := s.cancelling ++ [task] }) (hd : d.Suspended = true)
    (hQ : ∀ m₁ s₁, Owns Inv m₁ d s₁ → Q m₁ (.ok ()) s₁) :
    h.protocol.wp World q (safeCancel task) m s Q := by
  refine wp_modify_bind.2 (wp_bind.2 (h.wp_perform howns hd fun m₁ s₁ joined s₂ howns₁ hw _ => ?_))
  cases joined with
  | error x =>
      obtain ⟨-, -, rfl⟩ := hw
      exact hQ m₁ _ howns₁
  | ok outcome =>
      obtain ⟨-, rfl⟩ := hw
      exact hQ m₁ _ howns₁

/-- `generate_batch` past the cancellation of the update loop. -/
theorem wp_pastCancel {fuel : Nat} (howns : Owns Inv m .starting s) :
    h.protocol.wp World q (do
      maybeUpdatePolicy config fuel none true
      let task ← createTask .updateLoop
      Coro.modify fun s => { s.record (.passedBarrier s.step s.ckptStep) with updatePolicyTask := some task }
      let batch ← fillBatch config fuel
      fillInflightRequests config fuel
      Coro.modify (·.record (.returned (finalizeBatchRollouts config batch.rollouts)))) m s
      (Then (fun _ => InCall Inv) (InCall Inv)) := by
  refine wp_bind.2 (wp_mono (h.wp_maybeUpdatePolicy_call howns) fun m₁ r s₁ hr => ?_)
  cases r with
  | error x => exact hr
  | ok _ =>
      obtain ⟨⟨hheld, hinv⟩, hnext⟩ := hr
      refine wp_bind.2 (wp_getState_bind.2 (wp_setState_bind.2 (wp_pure.2 (wp_modify_bind.2 (wp_bind.2 ?_)))))
      refine wp_mono (h.wp_fillBatch ⟨hheld, h.passBarrier hinv hnext⟩) fun m₂ r s₂ hr => ?_
      cases r with
      | error x => exact hr
      | ok batch =>
          refine wp_bind.2 (wp_mono (h.wp_fillInflightRequests hr) fun m₃ r s₃ hr => ?_)
          cases r with
          | error x => exact hr
          | ok _ => exact ⟨_, rfl, hr.1.1, h.returned hr.1.2⟩

theorem wp_generateBatch {fuel step : Nat} (howns : Owns Inv m .starting { s with step := step }) :
    h.protocol.wp World q (generateBatch config fuel step) m s (Then (fun _ => InCall Inv) (InCall Inv)) := by
  refine wp_modify_bind.2 (wp_getState_bind.2 ?_)
  split
  · rename_i task htask
    refine wp_bind.2 (h.wp_safeCancel ⟨howns.1, h.cancelLoop howns.2 htask⟩ rfl fun m₁ s₁ howns₁ => ?_)
    exact h.wp_pastCancel howns₁
  · exact h.wp_pastCancel howns

theorem wp_evaluate {cancel : Bool} (howns : Owns Inv m .evaluating (s.clearReady.record .evalStarted)) :
    h.protocol.wp World q (evaluate cancel) m s (Then (fun _ => InCall Inv) (InCall Inv)) := by
  have hend : ∀ {m s}, Owns Inv m .evaluating s → h.protocol.wp World q (do
      let evaluated ← Coro.perform Await.evaluate
      Coro.ofExcept evaluated
      Coro.modify fun s => s.setReady.record .evalEnded) m s (Then (fun _ => InCall Inv) (InCall Inv)) := by
    intro m s howns
    refine wp_bind.2 (h.wp_perform howns rfl fun m₁ s₁ evaluated s₂ howns₁ hw _ => ?_)
    obtain rfl : s₂ = s₁ := hw
    refine wp_bind.2 (wp_ofExcept.2 ?_)
    cases evaluated with
    | error x => exact ⟨_, rfl, howns₁⟩
    | ok _ => exact ⟨_, rfl, howns₁.1, h.evaluated howns₁.2⟩
  refine wp_modify_bind.2 ?_
  split
  · unfold cancelInflightRollouts
    refine wp_bind.2 (wp_getState_bind.2 (wp_bind.2 (h.wp_safeCancelAll howns rfl fun m₁ s₁ howns₁ => ?_)))
    exact hend ⟨howns₁.1, h.clearRollouts howns₁.2⟩
  · exact hend howns

/-! ## Adequacy -/

/-- Whatever runs on the event loop keeps the invariant. -/
theorem follows : (scheduler config).Follows h.protocol fun _ _ _ => True := by
  intro q _ s rest ⟨hinv, hothers⟩ hadmits
  have halone : Alone (⟨.arrive q, s, false, rest⟩ : SchedulerMoment R) := ⟨rfl, hothers⟩
  refine wp_mono (Q := Done Inv) ?_ fun m r s ⟨halone, hinv⟩ => ⟨halone.1, ⟨hinv, halone.2⟩, trivial, trivial⟩
  cases q with
  | generateBatch fuel step => exact h.wp_call (h.wp_generateBatch ⟨halone, h.beginGenerate (s := s) hinv hadmits⟩)
  | evaluate cancel => exact h.wp_call (h.wp_evaluate ⟨halone, h.beginEvaluate (s := s) hinv hadmits⟩)
  | policyTask fuel self task => exact h.wp_runPolicyTask ⟨halone, h.startTask hinv hadmits⟩
  | rolloutDone task result => exact ⟨halone, h.rolloutDone hinv hadmits⟩
  | broadcast step dir => exact ⟨halone, h.broadcast hinv hadmits⟩
  | cleanBroadcast step => exact ⟨halone, h.cleanBroadcast hinv hadmits⟩

include h in
/-- **Main.** Along a run of the scheduler in which everything comes back as `Admits` says, the invariant holds of the
duties of the tasks. -/
theorem run {c c' : SchedulerConfiguration R} {ls : List (SchedulerLabel R)}
    (hrun : ((scheduler config).assuming Admits).Run c ls c') (htasks : c.tasks = []) (hinit : Inv [] c.shared) :
    ∃ ds : List (Duty R), Inv ds c'.shared := by
  have hstart : Pool.Kept h.protocol (scheduler config).world (fun _ _ _ => True) c := by
    obtain ⟨shared, tasks⟩ := c
    subst htasks
    exact Pool.Kept.start ⟨hinit, List.forall_mem_nil _⟩
  obtain ⟨l, -, hinv, -⟩ := (hstart.run h.follows hrun).inv
  exact ⟨_, hinv⟩

end Preserved

end AuroraRl.Orchestrator
