import AuroraRl.Trainer.Checkpoint
import Mathlib.Data.List.Pairwise
import Mathlib.Data.List.Sort

/-!
# Which checkpoints are kept

* `Retention` : a checkpoint manager with the directories it finds and the steps it resumes from and starts at;
* `Retention.save`, `Retention.clean` : its calls, on its own and as one of the managers of `MultiCheckpointManager`;
* `Kept` : the steps the policy is to keep, `maybeClean_of_increasing`;
* `Retention.Sound` : what is to hold along its calls;
* `Retention.sound_iff` : it holds iff no directory found lies ahead of the run.
-/

namespace AuroraRl.Trainer

/-! ## The calls of a manager -/

/-- Who builds the `CheckpointManager`: the trainer for itself, or `MultiCheckpointManager` for one of the runs. -/
inductive Owner
  | trainer
  | multi
  deriving DecidableEq, Repr

/-- A manager as it is configured, and the step its run starts at, which is 0 unless the progress of a checkpoint is loaded;
the bounds are those of the configuration's fields. -/
structure Retention where
  owner : Owner
  isMaster : Bool
  config : CheckpointConfig
  resumeStep : Option Int
  startStep : Nat
  /-- The steps of the `step_*` directories, in the order the listing gives them. -/
  stepDirs : List Nat
  keepLast_pos : ∀ k ∈ config.keepLast, 1 ≤ k
  keepInterval_pos : ∀ k ∈ config.keepInterval, 1 ≤ k

def getAllCkptSteps (stepDirs : List Nat) : List Nat := stepDirs.insertionSort (· ≤ ·)

/-- The list a `CheckpointManager` starts with. -/
def initialCkptSteps (resumeStep : Option Int) (stepDirs : List Nat) : List Nat :=
  match resumeStep with
  | some r =>
      if 0 ≤ r then (getAllCkptSteps stepDirs).filter fun d : Nat => (d : Int) ≤ r else getAllCkptSteps stepDirs
  | none => getAllCkptSteps stepDirs

/-- The `try` block of a save on one rank comes to its end. -/
def appendsStep (isMaster : Bool) (faults : Faults) : Bool :=
  !Rank.raisesEarly isMaster faults && !(isMaster && (faults .markStable).isSome)

/-- A manager at work: the step of its run, the step it saved last and the directories it has removed. -/
structure Keeper where
  ckptSteps : List Nat
  progress : Nat
  lastSaved : Option Nat
  removed : List Nat

inductive Call
  | save (step : Nat) (faults : Faults)
  | clean

namespace Retention

/-- The `resume_step` the manager is built with: `_maybe_create_manager` hands on the interval and the policy alone. -/
def ownResumeStep (s : Retention) : Option Int :=
  match s.owner with
  | .trainer => s.resumeStep
  | .multi => none

def init (s : Retention) : Keeper := ⟨initialCkptSteps s.ownResumeStep s.stepDirs, s.startStep, none, []⟩

/-- `save`: the trainer inserts the step with `bisect.insort`, `MultiCheckpointManager` appends it. -/
def save (s : Retention) (m : Keeper) (step : Nat) (faults : Faults) : Keeper :=
  match s.owner with
  | .trainer => ⟨m.ckptSteps.orderedInsert (· ≤ ·) step, step, some step, m.removed⟩
  | .multi =>
      if shouldSave (some s.config) m.ckptSteps step && appendsStep s.isMaster faults then
        ⟨m.ckptSteps ++ [step], step, some step, m.removed⟩
      else { m with progress := step }

/-- `MultiCheckpointManager.maybe_clean` cleans on the master alone. -/
def cleans (s : Retention) : Bool := s.isMaster || s.owner = .trainer

/-- `maybe_clean`; the master removes the directories of the steps that are not kept. -/
def clean (s : Retention) (m : Keeper) : Except PyException Keeper :=
  if s.cleans then do
    let kept ← s.config.maybeClean m.ckptSteps
    return { m with
      ckptSteps := kept
      removed := if s.isMaster then m.removed ++ m.ckptSteps.filter (· ∉ kept) else m.removed }
  else .ok m

def call (s : Retention) (m : Keeper) : Call → Except PyException Keeper
  | .save step faults => .ok (s.save m step faults)
  | .clean => s.clean m

/-- A manager after the calls, in order. -/
def run (s : Retention) (calls : List Call) : Except PyException Keeper := calls.foldlM s.call s.init

end Retention

/-- The list `saveRun` leaves is the one of `Retention.save`. -/
theorem Rank.saveRun_ckptSteps_self (isMaster : Bool) (faults : Faults) (config : CheckpointConfig) (step idx : Nat)
    (k : Rank) : ((Rank.saveRun isMaster faults (some config) step idx).run k).2.ckptSteps idx =
      if shouldSave (some config) (k.ckptSteps idx) step && appendsStep isMaster faults then k.ckptSteps idx ++ [step]
      else k.ckptSteps idx := by
  have happend : ∀ k' : Rank, ((appendStep idx step).run k').2.ckptSteps idx = k'.ckptSteps idx ++ [step] := by
    intro k'
    exact Function.update_self ..
  rw [saveRun_run]
  cases hsave : shouldSave (some config) (k.ckptSteps idx) step with
  | false => simp
  | true =>
      obtain ⟨x, hx, hok⟩ := writeFiles_run isMaster faults k
      rw [if_pos rfl, Bool.true_and]
      unfold trySave appendsStep
      show ((_ >>= _ : ExceptT PyException M Unit).run k).2.ckptSteps idx = _
      rw [bind_run, hx, ← hok]
      cases x with
      | error e => simp [Except.isOk, Except.toBool]
      | ok u =>
          cases isMaster
          · exact happend { k with executed := k.executed ++ [.written idx] }
          · show ((perform (faults .markStable) >>= fun _ =>
              (liftM (appendStep idx step) : ExceptT PyException M Unit)).run
                { k with executed := k.executed ++ [.written idx] }).2.ckptSteps idx = _
            rw [bind_run, perform_run]
            cases faults .markStable with
            | some e => rfl
            | none => exact happend { k with executed := k.executed ++ [.written idx] }

/-! ## What the policy keeps -/

/-- The steps the policy is to keep: the ones with fewer than `keep_last` later ones and the multiples of
`keep_interval`, or all of them when there is no policy. -/
def Kept (config : CheckpointConfig) (ckptSteps : List Nat) (step : Nat) : Prop :=
  (config.keepLast = none ∧ config.keepInterval = none) ∨
    (∃ k ∈ config.keepLast, ckptSteps.countP (step < ·) < k) ∨ ∃ k ∈ config.keepInterval, k ∣ step

/-- In an increasing list the last `k` entries are the ones with fewer than `k` greater ones. -/
theorem mem_drop_iff {l : List Nat} (h : l.Pairwise (· < ·)) (k x : Nat) :
    x ∈ l.drop (l.length - k) ↔ x ∈ l ∧ l.countP (x < ·) < k := by
  induction l with
  | nil => simp
  | cons a l ih =>
      rw [List.pairwise_cons] at h
      have hall : l.countP (a < ·) = l.length := List.countP_eq_length.2 fun y hy => decide_eq_true (h.1 y hy)
      have hcount : x ∈ l → (a :: l).countP (x < ·) = l.countP (x < ·) := by
        intro hx
        rw [List.countP_cons_of_neg]
        have := h.1 x hx
        simp only [decide_eq_true_eq]
        omega
      by_cases hk : l.length < k
      · have hle : (a :: l).length - k = 0 := by
          rw [List.length_cons]
          omega
        rw [hle, List.drop_zero]
        refine ⟨fun hx => ⟨hx, ?_⟩, And.left⟩
        obtain rfl | hx := List.mem_cons.1 hx
        · rw [List.countP_cons_of_neg (by simp)]
          omega
        · rw [hcount hx]
          have := List.countP_le_length (p := fun y => decide (x < y)) (l := l)
          omega
      · have hsub : (a :: l).length - k = (l.length - k) + 1 := by
          rw [List.length_cons]
          omega
        rw [hsub, List.drop_succ_cons, ih h.2]
        constructor
        · intro hx
          exact ⟨List.mem_cons_of_mem a hx.1, (hcount hx.1).trans_lt hx.2⟩
        · rintro ⟨hx, hlt⟩
          obtain rfl | hx := List.mem_cons.1 hx
          · rw [List.countP_cons_of_neg (by simp), hall] at hlt
            omega
          · exact ⟨hx, (hcount hx).symm.trans_lt hlt⟩

/-- **A cleaning** of an increasing list keeps what the policy is to keep. -/
theorem maybeClean_of_increasing (config : CheckpointConfig) {ckptSteps : List Nat}
    (h : ckptSteps.Pairwise (· < ·)) : ∃ kept, config.maybeClean ckptSteps = .ok kept ∧ kept.Sublist ckptSteps ∧
      ∀ x, x ∈ kept ↔ x ∈ ckptSteps ∧ Kept config ckptSteps x := by
  unfold CheckpointConfig.maybeClean
  by_cases hnone : config.keepLast = none ∧ config.keepInterval = none
  · rw [if_pos hnone]
    refine ⟨_, rfl, List.Sublist.refl _, fun x => ?_⟩
    exact ⟨fun hx => ⟨hx, .inl hnone⟩, And.left⟩
  · rw [if_neg hnone, if_neg (not_not.2 (h.imp Nat.le_of_lt))]
    refine ⟨_, rfl, List.filter_sublist, fun x => ?_⟩
    rw [List.mem_filter, decide_eq_true_eq]
    refine and_congr_right fun hx => ?_
    unfold CheckpointConfig.stepsToKeep Kept
    rw [List.mem_append, or_iff_right hnone]
    apply or_congr
    · cases config.keepLast with
      | none => simp
      | some k => simp [mem_drop_iff h, hx]
    · cases config.keepInterval with
      | none => simp
      | some k => simp [hx, Nat.dvd_iff_mod_eq_zero]

/-! ## What is to hold along the calls -/

namespace Call

def steps (calls : List Call) : List Nat :=
  calls.filterMap fun c =>
    match c with
    | .save step _ => some step
    | .clean => none

theorem mem_steps {calls : List Call} {step : Nat} {faults : Faults} (h : .save step faults ∈ calls) :
    step ∈ steps calls := List.mem_filterMap.2 ⟨_, h, rfl⟩

end Call

namespace Retention

variable (s : Retention)

/-- The steps of the saves grow. `MultiCheckpointManager` may be called again at the step of its last call. -/
structure Increasing (from_ : Nat) (calls : List Call) : Prop where
  ge : ∀ step ∈ Call.steps calls, from_ ≤ step
  sorted : (Call.steps calls).Pairwise (· ≤ ·)
  strict : s.owner = .trainer → (Call.steps calls).Pairwise (· < ·)

/-- The list of saved steps as it should be. -/
structure InOrder (m : Keeper) : Prop where
  increasing : m.ckptSteps.Pairwise (· < ·)
  le_progress : ∀ x ∈ m.ckptSteps, x ≤ m.progress
  lastSaved : s.config.keepLast ≠ none → ∀ x ∈ m.lastSaved, x ∈ m.ckptSteps

/-- A cleaning ends, and removes what the policy does not keep and nothing else. -/
def CleansExactly (m : Keeper) : Prop :=
  ∃ m', s.clean m = .ok m' ∧ (∀ x, x ∈ m'.ckptSteps ↔ x ∈ m.ckptSteps ∧ Kept s.config m.ckptSteps x) ∧
    (s.isMaster = true → ∃ deleted, m'.removed = m.removed ++ deleted ∧
      ∀ x, x ∈ deleted ↔ x ∈ m.ckptSteps ∧ ¬ Kept s.config m.ckptSteps x)

/-- After any number of the calls the list is in order, and a cleaning that comes next is exact. -/
def Sound (calls : List Call) : Prop :=
  ∀ done rest, calls = done ++ rest → ∃ m, s.run done = .ok m ∧ s.InOrder m ∧
    (rest.head? = some .clean → s.cleans = true → s.CleansExactly m)

/-- The directories the manager lists: those up to the step it was built to resume from. -/
def listed : List Nat :=
  s.stepDirs.filter fun d : Nat => ∀ r ∈ s.ownResumeStep, 0 ≤ r → (d : Int) ≤ r

/-- The policy keeps this step for as long as nothing later is saved. -/
def KeepsLatest (step : Nat) : Prop :=
  s.config.keepLast ≠ none ∨ s.config.keepInterval = none ∨ ∃ k ∈ s.config.keepInterval, k ∣ step

/-- No step is listed twice, none lies ahead of the run, and the trainer does not save the listed step it starts at again. -/
structure Clear (calls : List Call) : Prop where
  nodup : s.listed.Nodup
  le_start : ∀ d ∈ s.listed, d ≤ s.startStep
  not_again : s.owner = .trainer → s.startStep ∈ s.listed → ∀ cleans faults rest,
    calls = cleans ++ .save s.startStep faults :: rest → (∀ c ∈ cleans, c = .clean) →
      cleans ≠ [] ∧ ¬ s.KeepsLatest s.startStep

/-! ## The list at the start -/

theorem init_ckptSteps_eq : s.init.ckptSteps =
    (getAllCkptSteps s.stepDirs).filter fun d : Nat => ∀ r ∈ s.ownResumeStep, 0 ≤ r → (d : Int) ≤ r := by
  show initialCkptSteps s.ownResumeStep s.stepDirs = _
  unfold initialCkptSteps
  cases s.ownResumeStep with
  | none => simp
  | some r =>
      by_cases hr : 0 ≤ r
      · simp [hr]
      · simp [hr]

theorem init_perm_listed : s.init.ckptSteps.Perm s.listed := by
  rw [init_ckptSteps_eq]
  exact (List.perm_insertionSort _ s.stepDirs).filter _

theorem mem_init {d : Nat} : d ∈ s.init.ckptSteps ↔ d ∈ s.listed := s.init_perm_listed.mem_iff

theorem init_increasing_iff : s.init.ckptSteps.Pairwise (· < ·) ↔ s.listed.Nodup := by
  rw [← s.init_perm_listed.nodup_iff]
  have hsorted : s.init.ckptSteps.Pairwise (· ≤ ·) := by
    rw [init_ckptSteps_eq]
    exact (List.pairwise_insertionSort _ s.stepDirs).filter _
  constructor
  · intro h
    exact h.imp Nat.ne_of_lt
  · intro h
    exact (hsorted.and h).imp fun h => Nat.lt_of_le_of_ne h.1 h.2

/-! ## One call -/

variable {s} {m : Keeper}

/-- Between two calls the list is in order, and the step saved last has no later one. -/
structure Steady (s : Retention) (m : Keeper) : Prop extends s.InOrder m where
  latest : ∀ x ∈ m.lastSaved, ∀ y ∈ m.ckptSteps, y ≤ x

theorem Kept.of_keepsLatest {step : Nat} (h : s.KeepsLatest step) (hmax : ∀ y ∈ m.ckptSteps, y ≤ step) :
    Kept s.config m.ckptSteps step := by
  have hcount : m.ckptSteps.countP (step < ·) = 0 := by
    rw [List.countP_eq_zero]
    intro y hy
    have := hmax y hy
    simp only [decide_eq_true_eq]
    omega
  have hlast : ∀ k ∈ s.config.keepLast, Kept s.config m.ckptSteps step := by
    intro k hk
    exact .inr (.inl ⟨k, hk, hcount ▸ s.keepLast_pos k hk⟩)
  cases hkeep : s.config.keepLast with
  | some k => exact hlast k hkeep
  | none =>
      obtain h | h | h := h
      · exact absurd hkeep h
      · exact .inl ⟨hkeep, h⟩
      · exact .inr (.inr h)

theorem keepsLatest_of_kept {step : Nat} (h : Kept s.config m.ckptSteps step) : s.KeepsLatest step := by
  obtain h | ⟨k, hk, -⟩ | h := h
  · exact .inr (.inl h.2)
  · exact .inl (Option.ne_none_iff_exists'.2 ⟨k, hk⟩)
  · exact .inr (.inr h)

theorem InOrder.cleansExactly (h : s.InOrder m) (hcleans : s.cleans = true) : s.CleansExactly m := by
  obtain ⟨kept, hkept, hsub, hmem⟩ := maybeClean_of_increasing s.config h.increasing
  unfold CleansExactly clean
  rw [if_pos hcleans, hkept]
  refine ⟨_, rfl, hmem, fun hmaster => ⟨m.ckptSteps.filter (· ∉ kept), if_pos hmaster, fun x => ?_⟩⟩
  rw [List.mem_filter, decide_eq_true_eq, hmem]
  exact and_congr_right fun hx => not_congr (and_iff_right hx)

theorem Steady.clean (h : s.Steady m) : ∃ m', s.clean m = .ok m' ∧ s.Steady m' ∧ m'.progress = m.progress ∧
    m'.ckptSteps.Sublist m.ckptSteps ∧
      (s.cleans = true → ∀ x, x ∈ m'.ckptSteps ↔ x ∈ m.ckptSteps ∧ Kept s.config m.ckptSteps x) := by
  by_cases hcleans : s.cleans = true
  · obtain ⟨kept, hkept, hsub, hmem⟩ := maybeClean_of_increasing s.config h.increasing
    unfold Retention.clean
    rw [if_pos hcleans, hkept]
    refine ⟨_, rfl, ⟨⟨h.increasing.sublist hsub, fun x hx => h.le_progress x (hsub.subset hx), fun hlast x hx => ?_⟩,
      fun x hx y hy => h.latest x hx y (hsub.subset hy)⟩, rfl, hsub, fun _ => hmem⟩
    exact (hmem x).2 ⟨h.lastSaved hlast x hx, Kept.of_keepsLatest (.inl hlast) (h.latest x hx)⟩
  · unfold Retention.clean
    rw [if_neg hcleans]
    exact ⟨m, rfl, h, rfl, List.Sublist.refl _, fun hc => absurd hc hcleans⟩

theorem Steady.save (h : s.Steady m) {step : Nat} (hge : m.progress ≤ step)
    (hnew : s.owner = .trainer → step ∉ m.ckptSteps) (faults : Faults) :
    s.Steady (s.save m step faults) ∧ (s.save m step faults).progress = step := by
  have hle : ∀ x ∈ m.ckptSteps, x ≤ step := fun x hx => (h.le_progress x hx).trans hge
  unfold Retention.save
  cases howner : s.owner with
  | trainer =>
      have hperm := List.perm_orderedInsert (· ≤ ·) step m.ckptSteps
      have hmem : ∀ x, x ∈ m.ckptSteps.orderedInsert (· ≤ ·) step ↔ x = step ∨ x ∈ m.ckptSteps := by
        intro x
        rw [hperm.mem_iff, List.mem_cons]
      have hall : ∀ x ∈ m.ckptSteps.orderedInsert (· ≤ ·) step, x ≤ step := by
        intro x hx
        obtain rfl | hx := (hmem x).1 hx
        · exact Nat.le_refl _
        · exact hle x hx
      have hnodup : (m.ckptSteps.orderedInsert (· ≤ ·) step).Nodup :=
        hperm.nodup_iff.2 (List.nodup_cons.2 ⟨hnew howner, h.increasing.imp Nat.ne_of_lt⟩)
      have hsorted : (m.ckptSteps.orderedInsert (· ≤ ·) step).Pairwise (· ≤ ·) :=
        List.Pairwise.orderedInsert step _ (h.increasing.imp Nat.le_of_lt)
      refine ⟨⟨⟨(hsorted.and hnodup).imp fun h => Nat.lt_of_le_of_ne h.1 h.2, hall, fun _ x hx => ?_⟩,
        fun x hx => ?_⟩, rfl⟩
      · cases hx
        exact (hmem step).2 (.inl rfl)
      · cases hx
        exact hall
  | multi =>
      dsimp only
      split_ifs with hsave
      · have hfresh : step ∉ m.ckptSteps := by
          rw [Bool.and_eq_true] at hsave
          intro hmem
          have := hsave.1
          unfold shouldSave at this
          split at this
          · cases this
          · simp [hmem] at this
        have hall : ∀ x ∈ m.ckptSteps ++ [step], x ≤ step := by
          intro x hx
          simp only [List.mem_append, List.mem_singleton] at hx
          obtain hx | rfl := hx
          · exact hle x hx
          · exact Nat.le_refl _
        refine ⟨⟨⟨?_, hall, fun _ x hx => ?_⟩, fun x hx => ?_⟩, rfl⟩
        · rw [List.pairwise_append]
          refine ⟨h.increasing, List.pairwise_singleton _ _, fun x hx y hy => ?_⟩
          rw [List.mem_singleton] at hy
          subst hy
          exact Nat.lt_of_le_of_ne (hle x hx) fun heq => hfresh (heq ▸ hx)
        · cases hx
          simp
        · cases hx
          exact hall
      · exact ⟨⟨⟨h.increasing, hle, h.lastSaved⟩, h.latest⟩, rfl⟩

/-! ## All calls -/

/-- The calls ahead do not save a step again that the trainer still lists. -/
def NotAgain (s : Retention) (m : Keeper) (calls : List Call) : Prop :=
  s.owner = .trainer → ∀ cleans step faults rest, calls = cleans ++ .save step faults :: rest →
    (∀ c ∈ cleans, c = .clean) → step ∈ m.ckptSteps → cleans ≠ [] ∧ ¬ s.KeepsLatest step

/-- What a manager has to bring to the calls ahead of it. -/
structure Prepared (s : Retention) (m : Keeper) (calls : List Call) : Prop extends s.Steady m where
  ahead : s.Increasing m.progress calls
  notAgain : s.NotAgain m calls

theorem Increasing.tail {from_ step : Nat} {faults : Faults} {calls : List Call}
    (h : s.Increasing from_ (.save step faults :: calls)) : s.Increasing step calls where
  ge := (List.pairwise_cons.1 h.sorted).1
  sorted := (List.pairwise_cons.1 h.sorted).2
  strict howner := (List.pairwise_cons.1 (h.strict howner)).2

/-- **One call** brings a prepared manager to the calls after it. -/
theorem Prepared.call {c : Call} {calls : List Call} (h : s.Prepared m (c :: calls)) :
    ∃ m', s.call m c = .ok m' ∧ s.Prepared m' calls := by
  cases c with
  | clean =>
      obtain ⟨m', hm', hsteady, hprogress, hsub, hmem⟩ := h.toSteady.clean
      refine ⟨m', hm', hsteady, hprogress ▸ ⟨h.ahead.ge, h.ahead.sorted, h.ahead.strict⟩, ?_⟩
      intro howner cleans step faults rest hcalls hall hstep
      have hcleans : s.cleans = true := by
        unfold Retention.cleans
        simp [howner]
      obtain ⟨hlisted, hkept⟩ := (hmem hcleans step).1 hstep
      refine absurd (keepsLatest_of_kept hkept) ?_
      refine (h.notAgain howner (.clean :: cleans) step faults rest (by rw [hcalls]; rfl) ?_ hlisted).2
      intro c hc
      obtain rfl | hc := List.mem_cons.1 hc
      · rfl
      · exact hall c hc
  | save step faults =>
      have hnew : s.owner = .trainer → step ∉ m.ckptSteps := by
        intro howner hstep
        exact (h.notAgain howner [] step faults calls rfl (fun c hc => absurd hc List.not_mem_nil) hstep).1 rfl
      obtain ⟨hsteady, hprogress⟩ := h.toSteady.save (h.ahead.ge step List.mem_cons_self) hnew faults
      refine ⟨_, rfl, hsteady, hprogress.symm ▸ h.ahead.tail, ?_⟩
      intro howner cleans step' faults' rest hcalls _ hstep'
      -- a later save is of a later step, and the list holds none
      have hlater : step < step' := by
        refine (List.pairwise_cons.1 (h.ahead.strict howner)).1 step'
          (Call.mem_steps (show .save step' faults' ∈ calls from ?_))
        rw [hcalls]
        simp
      have := hsteady.le_progress step' hstep'
      omega

/-- **Any number of calls**: a prepared manager comes to every one of them. -/
theorem Prepared.run {calls : List Call} (h : s.Prepared m calls) (done rest : List Call) (hcalls : calls = done ++ rest) :
    ∃ m', done.foldlM s.call m = .ok m' ∧ s.Steady m' := by
  induction done generalizing m calls with
  | nil => exact ⟨m, rfl, h.toSteady⟩
  | cons c done ih =>
      subst hcalls
      obtain ⟨m', hm', hprepared⟩ := h.call
      rw [List.foldlM_cons, hm']
      exact ih hprepared rfl

theorem Clear.prepared {calls : List Call} (h : s.Clear calls) (hcalls : s.Increasing s.startStep calls) :
    s.Prepared s.init calls where
  increasing := s.init_increasing_iff.2 h.nodup
  le_progress x hx := h.le_start x (s.mem_init.1 hx)
  lastSaved _ x hx := by cases hx
  latest x hx := by cases hx
  ahead := hcalls
  notAgain := by
    intro howner cleans step faults rest heq hall hstep
    have hle := h.le_start step (s.mem_init.1 hstep)
    have hge := hcalls.ge step (Call.mem_steps (show .save step faults ∈ calls by simp [heq]))
    obtain rfl : step = s.startStep := by omega
    exact h.not_again howner (s.mem_init.1 hstep) cleans faults rest heq hall

/-- Cleaning again and again keeps the latest step when the policy does. -/
theorem exists_run_cleans {cleans : List Call} (hall : ∀ c ∈ cleans, c = .clean) {step : Nat} (hsteady : s.Steady m)
    (hstep : step ∈ m.ckptSteps) (hmax : ∀ y ∈ m.ckptSteps, y ≤ step) (hkeeps : cleans = [] ∨ s.KeepsLatest step) :
    ∃ m', cleans.foldlM s.call m = .ok m' ∧ step ∈ m'.ckptSteps := by
  induction cleans generalizing m with
  | nil => exact ⟨m, rfl, hstep⟩
  | cons c cleans ih =>
      obtain rfl : c = .clean := hall c List.mem_cons_self
      have hkeeps := hkeeps.resolve_left (List.cons_ne_nil _ _)
      obtain ⟨m', hm', hsteady', -, hsub, hmem⟩ := hsteady.clean
      have hstep' : step ∈ m'.ckptSteps := by
        by_cases hcleans : s.cleans = true
        · exact (hmem hcleans step).2 ⟨hstep, Kept.of_keepsLatest hkeeps hmax⟩
        · have : m' = m := by
            have hskip : s.clean m = .ok m := if_neg hcleans
            rw [hskip] at hm'
            cases hm'
            rfl
          rwa [this]
      rw [List.foldlM_cons, show s.call m .clean = .ok m' from hm']
      exact ih (fun c hc => hall c (List.mem_cons_of_mem _ hc)) hsteady' hstep'
        (fun y hy => hmax y (hsub.subset hy)) (.inr hkeeps)

/-- **Main.** The list of saved steps stays in order and the cleanings are exact along all calls iff no step is listed
twice, none lies ahead of the run, and the trainer does not save the step it starts at again. -/
theorem sound_iff (s : Retention) (calls : List Call) (hcalls : s.Increasing s.startStep calls) :
    s.Sound calls ↔ s.Clear calls := by
  constructor
  · intro h
    obtain ⟨m, hm, hinit, -⟩ := h [] calls rfl
    cases hm
    have hle : ∀ d ∈ s.listed, d ≤ s.startStep := fun d hd => hinit.le_progress d (s.mem_init.2 hd)
    refine ⟨s.init_increasing_iff.1 hinit.increasing, hle, fun howner hlisted cleans faults rest heq hall => ?_⟩
    by_contra hagain
    rw [not_and_or, not_not, not_not] at hagain
    have hsteady : s.Steady s.init := ⟨hinit, fun x hx => by cases hx⟩
    obtain ⟨m', hm', hstep⟩ := exists_run_cleans hall hsteady (s.mem_init.2 hlisted)
      (fun y hy => hle y (s.mem_init.1 hy)) hagain
    obtain ⟨m'', hm'', hafter, -⟩ := h (cleans ++ [.save s.startStep faults]) rest (by rw [heq]; simp)
    have hsave : m'' = s.save m' s.startStep faults := by
      unfold Retention.run at hm''
      rw [List.foldlM_append, hm'] at hm''
      cases hm''
      rfl
    have hsteps : m''.ckptSteps = m'.ckptSteps.orderedInsert (· ≤ ·) s.startStep := by
      rw [hsave]
      unfold Retention.save
      rw [howner]
    -- the step would be listed twice
    have hnodup : (s.startStep :: m'.ckptSteps).Nodup := by
      rw [← (List.perm_orderedInsert (· ≤ ·) s.startStep m'.ckptSteps).nodup_iff, ← hsteps]
      exact hafter.increasing.imp Nat.ne_of_lt
    exact (List.nodup_cons.1 hnodup).1 hstep
  · intro h done rest heq
    obtain ⟨m, hm, hsteady⟩ := (h.prepared hcalls).run done rest heq
    exact ⟨m, hm, hsteady.toInOrder, fun _ hcleans => hsteady.toInOrder.cleansExactly hcleans⟩

/-- A run resumed at step 5 whose directory still holds step 10 of an earlier attempt. -/
def staleRun (owner : Owner) : Retention where
  owner := owner
  isMaster := true
  config := ⟨some 1, some 1, none⟩
  resumeStep := some 5
  startStep := 5
  stepDirs := [10, 5]
  keepLast_pos := by decide
  keepInterval_pos := by decide

/-- Its next save and cleaning end in the assertion of `maybe_clean`. -/
theorem staleRun_not_sound : (staleRun .multi).run [.save 6 fun _ => none, .clean] = .error ⟨.assertionError, ""⟩ ∧
    ¬ (staleRun .multi).Sound [.save 6 fun _ => none, .clean] := by
  have hrun : (staleRun .multi).run [.save 6 fun _ => none, .clean] = .error ⟨.assertionError, ""⟩ := rfl
  refine ⟨hrun, fun h => ?_⟩
  obtain ⟨m, hm, -⟩ := h _ [] (List.append_nil _).symm
  rw [hrun] at hm
  cases hm

/-- The trainer's own manager, which lists up to step 5, meets the condition on the same directory. -/
theorem sound_iff_staleRun : (staleRun .trainer).Sound [.save 6 fun _ => none, .clean] ↔
    (staleRun .trainer).Clear [.save 6 fun _ => none, .clean] :=
  sound_iff (staleRun .trainer) _ ⟨by decide, by decide, fun _ => by decide⟩

end Retention
end AuroraRl.Trainer
