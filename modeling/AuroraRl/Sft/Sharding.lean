import AuroraRl.Lib.Generator
import AuroraRl.Lib.PyData
import Mathlib.Data.List.Rotate
import Mathlib.Data.Nat.Basic

/-!
# Sharding and resuming the SFT dataset

* `dataRank` : the data rank of a worker of a rank;
* `ShardedDataset` : what `SFTDataset.__iter__` reads; `order` : its rows in the order of an epoch;
* `advance`, `turn` : the loop body up to the example it reads, and with the example processed;
* `catTurn` : the loop body of `CatDataset` over another dataset;
* `visitsAt_iff` : which example a rank reads in which turn; `yield_iff` : what that turn yields;
* `sftSharding` : every example of every epoch is read once and processed, and a saved dataset continues where it was.
-/

namespace AuroraRl.Sft

open Generator

/-- The data rank of a worker: `non_dp_size` ranks read the same data. -/
def dataRank (rank nonDpSize numWorkers workerId : Nat) : Nat := rank / nonDpSize * numWorkers + workerId

/-- What the loop reads. Row orders of `Dataset.shuffle` are permutations. -/
structure ShardedDataset (α : Type) where
  dataset : List α
  /-- `self.dataset.shuffle(seed=seed)`. -/
  shuffled : Int → List α
  perm : ∀ seed, (shuffled seed).Perm dataset
  shuffle : Bool
  seed : Int
  maxEpochs : Option Nat
  dataWorldSize : Nat
  dataWorldSize_pos : 0 < dataWorldSize
  /-- `self._process`; an example that is skipped gives nothing. -/
  process : α → Option PyDict

namespace ShardedDataset

variable {α : Type}

/-- The stored step and epoch, and the rows that the loop holds. -/
structure Iteration (α : Type) where
  step : Nat
  epoch : Nat
  dataset : List α

/-- An example that is read, with its epoch and its place in that epoch. -/
structure Visit (α : Type) where
  epoch : Nat
  position : Nat
  example_ : α

/-- `state_dict()`. -/
structure StateDict where
  step : Nat
  epoch : Nat

variable (d : ShardedDataset α)

def numExamples : Nat := d.dataset.length

/-- `self.dataset.shuffle(seed=epoch + self.seed) if self.shuffle else self.dataset`. -/
def order (epoch : Nat) : List α := if d.shuffle then d.shuffled (epoch + d.seed) else d.dataset

/-- A fresh instance that starts to iterate. -/
def start : Iteration α := ⟨0, 0, d.order 0⟩

/-- The loop body up to `example = dataset[…]`. -/
def advance (rank : Nat) (s : Iteration α) : Turn (Iteration α) (Visit α) PyException :=
  let step := s.step + 1
  if d.numExamples = 0 then .raise ⟨.zeroDivisionError, "integer division or modulo by zero"⟩
  else
    let epoch := (step - 1) / d.numExamples
    if d.maxEpochs.any fun maxEpochs => maxEpochs ≤ epoch then .done
    else
      let s : Iteration α := if s.epoch < epoch then ⟨step, epoch, d.order epoch⟩ else { s with step }
      if (step - 1) % d.dataWorldSize ≠ rank then .next s
      else match s.dataset[(step - 1) % d.numExamples]? with
        | some example_ => .yield ⟨s.epoch, (step - 1) % d.numExamples, example_⟩ s
        | none => .raise ⟨.indexError, "list index out of range"⟩

/-- The loop body of `__iter__`. -/
def turn (rank : Nat) (s : Iteration α) : Turn (Iteration α) PyDict PyException :=
  match d.advance rank s with
  | .yield visit s =>
    match d.process visit.example_ with
    | some processed => .yield processed s
    | none => .next s
  | .next s => .next s
  | .done => .done
  | .raise x => .raise x

def stateDict (s : Iteration α) : StateDict := ⟨s.step, s.epoch⟩

/-- A fresh instance that loads a state and starts to iterate. -/
def loadStateDict (state : StateDict) : Iteration α := ⟨state.step, state.epoch, d.order state.epoch⟩

end ShardedDataset

/-! ## Concatenation -/

/-- The dataset below, and the local variables of the loop. -/
structure CatIteration (σ : Type) where
  dataset : σ
  packedSamples : PyDict
  seqLen : Nat

def packedList (packed : PyDict) (key : String) : List PyData :=
  match packed.get? key with
  | some (.list l) => l
  | _ => []

/-- `packed_samples[key].extend(value)` for the items of a sample. -/
def extendPacked : PyDict → List (String × PyData) → Except PyException PyDict
  | packed, [] => .ok packed
  | packed, (key, .list value) :: items => extendPacked (packed.set key (.list (packedList packed key ++ value))) items
  | _, (key, _) :: _ => .error ⟨.assertionError, "Value for key " ++ key ++ " must be a list"⟩

/-- `len(sample["input_ids"])`, for a sample of lists. -/
def inputLength (sample : PyDict) : Except PyException Nat :=
  match sample.get? "input_ids" with
  | some (.list inputIds) => .ok inputIds.length
  | _ => .error ⟨.keyError, "'input_ids'"⟩

/-- `value[: self.seq_len]` for every key. -/
def truncatePacked (seqLen : Nat) (packed : PyDict) : PyDict :=
  packed.map fun e => (e.1, match e.2 with
    | .list value => .list (value.take seqLen)
    | value => value)

/-- The loop body of `CatDataset.__iter__`. What follows its `yield` resets the local variables. -/
def catTurn {σ : Type} (maxLen : Nat) (turn : σ → Turn σ PyDict PyException) (s : CatIteration σ) :
    Turn (CatIteration σ) PyDict PyException :=
  match turn s.dataset with
  | .next dataset => .next { s with dataset }
  | .done => .done
  | .raise x => .raise x
  | .yield sample dataset =>
    match (extendPacked s.packedSamples sample).bind fun packed => (inputLength sample).map fun n => (packed, n) with
    | .error x => .raise x
    | .ok (packed, n) =>
      if maxLen ≤ s.seqLen + n then .yield (truncatePacked maxLen packed) ⟨dataset, [], 0⟩
      else .next ⟨dataset, packed, s.seqLen + n⟩

/-- A fresh instance over a dataset. -/
def catStart {σ : Type} (dataset : σ) : CatIteration σ := ⟨dataset, [], 0⟩

/-- The data ranks are those of the workers of all ranks. -/
theorem lt_iff_exists_dataRank {worldSize nonDpSize numWorkers r : Nat} (hdvd : nonDpSize ∣ worldSize)
    (hpos : 0 < nonDpSize) : r < worldSize / nonDpSize * numWorkers ↔
      ∃ rank < worldSize, ∃ workerId < numWorkers, dataRank rank nonDpSize numWorkers workerId = r := by
  obtain ⟨m, rfl⟩ := hdvd
  rw [Nat.mul_div_cancel_left m hpos]
  constructor
  · intro hr
    have hworkers : 0 < numWorkers := Nat.pos_of_ne_zero fun h => by simp [h] at hr
    have hlt : r / numWorkers < m := (Nat.div_lt_iff_lt_mul hworkers).2 hr
    refine ⟨nonDpSize * (r / numWorkers), Nat.mul_lt_mul_of_pos_left hlt hpos, r % numWorkers, Nat.mod_lt _ hworkers, ?_⟩
    rw [dataRank, Nat.mul_div_cancel_left _ hpos, Nat.div_add_mod']
  · rintro ⟨rank, hrank, workerId, hworker, rfl⟩
    have hlt : rank / nonDpSize < m := by
      rw [Nat.div_lt_iff_lt_mul hpos, Nat.mul_comm]
      exact hrank
    calc rank / nonDpSize * numWorkers + workerId < rank / nonDpSize * numWorkers + numWorkers := by omega
      _ = (rank / nonDpSize + 1) * numWorkers := (Nat.succ_mul _ _).symm
      _ ≤ m * numWorkers := Nat.mul_le_mul_right _ hlt

namespace ShardedDataset

variable {α : Type} {d : ShardedDataset α} {rank : Nat}

/-! ## The turns of a rank -/

theorem order_perm (epoch : Nat) : (d.order epoch).Perm d.dataset := by
  unfold order
  split
  · exact d.perm _
  · exact List.Perm.refl _

theorem length_order (epoch : Nat) : (d.order epoch).length = d.numExamples := (order_perm epoch).length_eq

/-- The epoch is that of the last step, and the rows are in its order. -/
structure Tracked (d : ShardedDataset α) (s : Iteration α) : Prop where
  epoch : s.epoch = (s.step - 1) / d.numExamples
  dataset : s.dataset = d.order s.epoch

theorem tracked_start : Tracked d d.start where
  epoch := by simp [start]
  dataset := rfl

/-- The state of the next turn: the next step, in the epoch of this one. -/
def stepped (d : ShardedDataset α) (s : Iteration α) : Iteration α :=
  ⟨s.step + 1, s.step / d.numExamples, d.order (s.step / d.numExamples)⟩

theorem tracked_stepped (s : Iteration α) : Tracked d (d.stepped s) := ⟨rfl, rfl⟩

/-- The epoch of a step is in the run. -/
def Runs (d : ShardedDataset α) (step : Nat) : Prop :=
  0 < d.numExamples ∧ ∀ maxEpochs ∈ d.maxEpochs, step / d.numExamples < maxEpochs

theorem Tracked.store {s : Iteration α} (h : Tracked d s) :
    (if s.epoch < s.step / d.numExamples then
      (⟨s.step + 1, s.step / d.numExamples, d.order (s.step / d.numExamples)⟩ : Iteration α)
    else { s with step := s.step + 1 }) = d.stepped s := by
  split
  · rfl
  · rename_i hle
    have hepoch : s.epoch = s.step / d.numExamples := by
      have hmono := Nat.div_le_div_right (c := d.numExamples) (Nat.sub_le s.step 1)
      have := h.epoch
      omega
    unfold stepped
    rw [h.dataset, hepoch]

/-- What a turn reads: the example of its step, if the step is the rank's. -/
theorem Tracked.advance_of_runs {s : Iteration α} (h : Tracked d s) (hruns : d.Runs s.step) :
    d.advance rank s = if s.step % d.dataWorldSize = rank then
        match (d.order (s.step / d.numExamples))[s.step % d.numExamples]? with
        | some x => .yield ⟨s.step / d.numExamples, s.step % d.numExamples, x⟩ (d.stepped s)
        | none => .raise ⟨.indexError, "list index out of range"⟩
      else .next (d.stepped s) := by
  obtain ⟨hpos, hmax⟩ := hruns
  unfold advance
  simp only [Nat.add_sub_cancel]
  rw [if_neg (by omega), if_neg, h.store]
  · by_cases hrank : s.step % d.dataWorldSize = rank
    · rw [if_neg (by simpa using hrank), if_pos hrank]
      rfl
    · rw [if_pos hrank, if_neg hrank]
  · cases hm : d.maxEpochs with
    | none => simp
    | some m => simpa using hmax m hm

variable (rank) in
theorem advance_of_not_runs {s : Iteration α} (h : ¬ d.Runs s.step) : (d.advance rank s).state = none := by
  unfold advance
  simp only [Nat.add_sub_cancel]
  split
  · rfl
  · rename_i hpos
    rw [if_pos]
    · rfl
    · by_contra hany
      apply h
      refine ⟨by omega, fun m hm => ?_⟩
      rw [Option.mem_def.1 hm] at hany
      simpa using hany

theorem state_turn (s : Iteration α) : (d.turn rank s).state = (d.advance rank s).state := by
  unfold turn
  cases d.advance rank s with
  | yield visit s =>
      dsimp only
      cases d.process visit.example_ <;> rfl
  | next s => rfl
  | done => rfl
  | raise x => rfl

variable (rank) in
/-- **One turn.** While its step is in the run, a turn ends in the next step. -/
theorem Tracked.state_turn {s : Iteration α} (h : Tracked d s) :
    (d.turn rank s).state = some (d.stepped s) ∧ d.Runs s.step ∨ (d.turn rank s).state = none ∧ ¬ d.Runs s.step := by
  rw [ShardedDataset.state_turn]
  by_cases hruns : d.Runs s.step
  · refine .inl ⟨?_, hruns⟩
    rw [h.advance_of_runs hruns]
    have hlt : s.step % d.numExamples < (d.order (s.step / d.numExamples)).length := by
      rw [length_order]
      exact Nat.mod_lt _ hruns.1
    rw [List.getElem?_eq_getElem hlt]
    split <;> rfl
  · exact .inr ⟨advance_of_not_runs rank hruns, hruns⟩

theorem keeps_tracked : Keeps (d.turn rank) (Tracked d) := by
  intro s s' h hstate
  rcases h.state_turn rank with ⟨hsome, -⟩ | ⟨hnone, -⟩
  · obtain rfl := Option.some.inj (hsome.symm.trans hstate)
    exact tracked_stepped s
  · rw [hnone] at hstate
    cases hstate

theorem step_after {n : Nat} {s s' : Iteration α} (h : Tracked d s) (hafter : after (d.turn rank) n s = some s') :
    s'.step = s.step + n := by
  induction n generalizing s with
  | zero =>
      obtain rfl := Option.some.inj hafter
      rfl
  | succ n ih =>
      obtain ⟨s₁, hs₁, hafter⟩ := Option.bind_eq_some_iff.1 hafter
      rcases h.state_turn rank with ⟨hsome, -⟩ | ⟨hnone, -⟩
      · obtain rfl := Option.some.inj (hsome.symm.trans hs₁)
        rw [ih (tracked_stepped s) hafter]
        show s.step + 1 + n = _
        omega
      · rw [hnone] at hs₁
        cases hs₁

variable (rank) in
theorem exists_after (n : Nat) (hruns : ∀ i < n, d.Runs i) : ∃ s, after (d.turn rank) n d.start = some s := by
  induction n with
  | zero => exact ⟨d.start, rfl⟩
  | succ n ih =>
      obtain ⟨s, hs⟩ := ih fun i hi => hruns i (by omega)
      have htracked := keeps_tracked.after tracked_start hs
      have hstep : s.step = n := by
        rw [step_after tracked_start hs]
        show 0 + n = n
        omega
      rw [after_succ hs]
      rcases htracked.state_turn rank with ⟨hsome, -⟩ | ⟨-, hnot⟩
      · exact ⟨_, hsome⟩
      · exact (hnot (hstep ▸ hruns n (by omega))).elim

/-! ## Which examples a rank reads -/

/-- The `n`-th turn of a rank, counted from 0, reads the example. -/
def VisitsAt (d : ShardedDataset α) (rank n : Nat) (visit : Visit α) : Prop :=
  ∃ s s', after (d.turn rank) n d.start = some s ∧ d.advance rank s = .yield visit s'

/-- The example is at its place in the shuffled order of an epoch of the run. -/
structure Placed (d : ShardedDataset α) (visit : Visit α) : Prop where
  epoch : ∀ maxEpochs ∈ d.maxEpochs, visit.epoch < maxEpochs
  example_ : (d.order visit.epoch)[visit.position]? = some visit.example_

/-- The step at which an example is read. -/
def stepOf (d : ShardedDataset α) (visit : Visit α) : Nat := visit.epoch * d.numExamples + visit.position

theorem Placed.lt {visit : Visit α} (h : Placed d visit) : visit.position < d.numExamples := by
  obtain ⟨hlt, -⟩ := List.getElem?_eq_some_iff.1 h.example_
  rwa [length_order] at hlt

theorem Placed.div_stepOf {visit : Visit α} (h : Placed d visit) : d.stepOf visit / d.numExamples = visit.epoch := by
  have hlt := h.lt
  rw [stepOf, Nat.mul_comm, Nat.mul_add_div (by omega), Nat.div_eq_of_lt hlt, Nat.add_zero]

theorem Placed.mod_stepOf {visit : Visit α} (h : Placed d visit) : d.stepOf visit % d.numExamples = visit.position := by
  rw [stepOf, Nat.mul_comm, Nat.mul_add_mod, Nat.mod_eq_of_lt h.lt]

theorem Placed.runs {visit : Visit α} (h : Placed d visit) {i : Nat} (hi : i ≤ d.stepOf visit) : d.Runs i := by
  refine ⟨by have := h.lt; omega, fun m hm => ?_⟩
  have hmono := Nat.div_le_div_right (c := d.numExamples) hi
  rw [h.div_stepOf] at hmono
  have := h.epoch m hm
  omega

/-- **Which examples a rank reads.** In the turn of its step, the rank whose turn it is reads an example. -/
theorem visitsAt_iff {n : Nat} {visit : Visit α} :
    d.VisitsAt rank n visit ↔ Placed d visit ∧ n = d.stepOf visit ∧ n % d.dataWorldSize = rank := by
  constructor
  · rintro ⟨s, s', hafter, hvisit⟩
    have htracked := keeps_tracked.after tracked_start hafter
    have hstep : s.step = n := by
      rw [step_after tracked_start hafter]
      show 0 + n = n
      omega
    by_cases hruns : d.Runs s.step
    · rw [htracked.advance_of_runs hruns, hstep] at hvisit
      split at hvisit
      · rename_i hrank
        split at hvisit
        · rename_i x hx
          cases hvisit
          refine ⟨⟨fun m hm => hstep ▸ hruns.2 m hm, hx⟩, ?_, hrank⟩
          exact (Nat.div_add_mod' n d.numExamples).symm
        · cases hvisit
      · cases hvisit
    · have hnone := advance_of_not_runs rank hruns
      rw [hvisit] at hnone
      cases hnone
  · rintro ⟨hplaced, hn, hrank⟩
    subst hn
    obtain ⟨s, hafter⟩ := exists_after rank (d.stepOf visit) fun i hi => hplaced.runs (by omega)
    have htracked := keeps_tracked.after tracked_start hafter
    have hstep : s.step = d.stepOf visit := by
      rw [step_after tracked_start hafter]
      show 0 + d.stepOf visit = d.stepOf visit
      omega
    refine ⟨s, d.stepped s, hafter, ?_⟩
    rw [htracked.advance_of_runs (hstep ▸ hplaced.runs le_rfl), hstep, if_pos hrank, hplaced.div_stepOf,
      hplaced.mod_stepOf, hplaced.example_]

theorem Placed.existsUnique {visit : Visit α} (h : Placed d visit) :
    ∃! at_ : Nat × Nat, at_.1 < d.dataWorldSize ∧ d.VisitsAt at_.1 at_.2 visit := by
  refine ⟨(d.stepOf visit % d.dataWorldSize, d.stepOf visit), ⟨Nat.mod_lt _ d.dataWorldSize_pos, ?_⟩, ?_⟩
  · exact visitsAt_iff.2 ⟨h, rfl, rfl⟩
  · rintro ⟨rank, n⟩ ⟨-, hvisits⟩
    obtain ⟨-, hn, hrank⟩ := visitsAt_iff.1 hvisits
    exact Prod.ext (hrank.symm.trans (congrArg (· % d.dataWorldSize) hn)) hn

theorem Placed.exists_worker {visit : Visit α} (h : Placed d visit) {worldSize nonDpSize numWorkers : Nat}
    (hpos : 0 < nonDpSize) (hdvd : nonDpSize ∣ worldSize)
    (hsize : d.dataWorldSize = worldSize / nonDpSize * numWorkers) :
    ∃ rank < worldSize, ∃ workerId < numWorkers, ∃ n,
      d.VisitsAt (dataRank rank nonDpSize numWorkers workerId) n visit := by
  obtain ⟨⟨r, n⟩, ⟨hr, hvisits⟩, -⟩ := h.existsUnique
  obtain ⟨rank, hrank, workerId, hworker, rfl⟩ := (lt_iff_exists_dataRank hdvd hpos).1 (hsize ▸ hr)
  exact ⟨rank, hrank, workerId, hworker, n, hvisits⟩

/-- **What a turn yields.** It is the processed example that the turn reads, unless that one is skipped. -/
theorem yield_iff {n : Nat} {s : Iteration α} (hafter : after (d.turn rank) n d.start = some s) (b : PyDict) :
    (∃ s', d.turn rank s = .yield b s') ↔ ∃ visit, d.VisitsAt rank n visit ∧ d.process visit.example_ = some b := by
  constructor
  · rintro ⟨s', hturn⟩
    unfold turn at hturn
    cases hadvance : d.advance rank s with
    | yield visit s₁ =>
        refine ⟨visit, ⟨s, s₁, hafter, hadvance⟩, ?_⟩
        rw [hadvance] at hturn
        cases hprocess : d.process visit.example_ with
        | none => simp [hprocess] at hturn
        | some processed =>
            simp only [hprocess] at hturn
            cases hturn
            rfl
    | next s₁ =>
        rw [hadvance] at hturn
        cases hturn
    | done =>
        rw [hadvance] at hturn
        cases hturn
    | raise x =>
        rw [hadvance] at hturn
        cases hturn
  · rintro ⟨visit, ⟨s₁, s', hafter', hadvance⟩, hprocess⟩
    obtain rfl : s = s₁ := Option.some.inj (hafter.symm.trans hafter')
    refine ⟨s', ?_⟩
    unfold turn
    rw [hadvance]
    simp only [hprocess]

/-! ## Resuming -/

/-- A fresh instance with the state of `s`. -/
def restore (d : ShardedDataset α) (s : Iteration α) : Iteration α := d.loadStateDict (stateDict s)

theorem Tracked.restore {s : Iteration α} (h : Tracked d s) : d.restore s = s := by
  unfold ShardedDataset.restore loadStateDict stateDict
  rw [← h.dataset]

end ShardedDataset

section Concatenation

variable {σ : Type} {turn : σ → Turn σ PyDict PyException} {maxLen : Nat} {Inv : σ → Prop}

/-- A turn that yields leaves nothing in the local variables. -/
theorem catTurn_yield {s s' : CatIteration σ} {packed : PyDict} (h : catTurn maxLen turn s = .yield packed s') :
    ∃ sample dataset, turn s.dataset = .yield sample dataset ∧ s' = catStart dataset := by
  unfold catTurn at h
  split at h
  · cases h
  · cases h
  · cases h
  · rename_i sample dataset hturn
    split at h
    · cases h
    · split at h
      · cases h
        exact ⟨sample, dataset, hturn, rfl⟩
      · cases h

theorem keeps_catTurn (hkeeps : Keeps turn Inv) : Keeps (catTurn maxLen turn) fun s => Inv s.dataset := by
  intro s s' h hstate
  unfold catTurn at hstate
  cases hturn : turn s.dataset with
  | next dataset =>
      rw [hturn] at hstate
      obtain rfl := Option.some.inj hstate
      exact hkeeps s.dataset dataset h (by rw [hturn]; rfl)
  | done =>
      rw [hturn] at hstate
      cases hstate
  | raise x =>
      rw [hturn] at hstate
      cases hstate
  | yield sample dataset =>
      have hdataset := hkeeps s.dataset dataset h (by rw [hturn]; rfl)
      rw [hturn] at hstate
      dsimp only at hstate
      split at hstate
      · cases hstate
      · split at hstate <;>
          · obtain rfl := Option.some.inj hstate
            exact hdataset

end Concatenation

namespace ShardedDataset

variable {α : Type}

/-- **Sharding and resuming.** Every example of every epoch is read by one data rank in one turn, from its place in the
order of that epoch, by a worker of some rank; no turn reads anything else, and a turn yields what processing makes of the
example that it reads. A dataset that is saved at a `yield` and loaded continues with what the uninterrupted one still
yields, and so does a `CatDataset` over it. -/
theorem sftSharding (d : ShardedDataset α) :
    (∀ visit, Placed d visit → ∃! at_ : Nat × Nat, at_.1 < d.dataWorldSize ∧ d.VisitsAt at_.1 at_.2 visit) ∧
    (∀ worldSize nonDpSize numWorkers, 0 < nonDpSize → nonDpSize ∣ worldSize →
      d.dataWorldSize = worldSize / nonDpSize * numWorkers → ∀ visit, Placed d visit → ∃ rank < worldSize,
        ∃ workerId < numWorkers, ∃ n, d.VisitsAt (dataRank rank nonDpSize numWorkers workerId) n visit) ∧
    (∀ rank n visit, d.VisitsAt rank n visit → Placed d visit) ∧
    (∀ rank n s, after (d.turn rank) n d.start = some s → ∀ b,
      (∃ s', d.turn rank s = .yield b s') ↔ ∃ visit, d.VisitsAt rank n visit ∧ d.process visit.example_ = some b) ∧
    (∀ rank m s, Suspended (d.turn rank) m d.start s → ∀ n, trace (d.turn rank) (m + n) d.start =
      trace (d.turn rank) m d.start ++ trace (d.turn rank) n (d.loadStateDict (stateDict s))) ∧
    ∀ maxLen rank m s, Suspended (catTurn maxLen (d.turn rank)) m (catStart d.start) s →
      ∀ n, trace (catTurn maxLen (d.turn rank)) (m + n) (catStart d.start) =
        trace (catTurn maxLen (d.turn rank)) m (catStart d.start) ++
          trace (catTurn maxLen (d.turn rank)) n (catStart (d.loadStateDict (stateDict s.dataset))) := by
  refine ⟨fun visit h => h.existsUnique, fun _ _ _ hpos hdvd hsize visit h => h.exists_worker hpos hdvd hsize,
    fun rank n visit h => (visitsAt_iff.1 h).1, fun rank n s hafter => yield_iff hafter, ?_, ?_⟩
  · intro rank m s hsuspended n
    refine trace_restore (r := d.restore) keeps_tracked tracked_start (fun s₁ b s' h hturn => ?_) hsuspended n
    exact Tracked.restore (keeps_tracked s₁ s' h (by rw [hturn]; rfl))
  · intro maxLen rank m s hsuspended n
    refine trace_restore (r := fun s => catStart (d.restore s.dataset)) (keeps_catTurn keeps_tracked)
      tracked_start (fun s₁ b s' h hturn => ?_) hsuspended n
    obtain ⟨sample, dataset, hinner, rfl⟩ := catTurn_yield hturn
    have hdataset := keeps_tracked s₁.dataset dataset h (by rw [hinner]; rfl)
    exact congrArg catStart hdataset.restore

/-- Three examples for two ranks over three epochs, each epoch in another order; the example 20 is skipped. -/
def threeExamples : ShardedDataset Nat where
  dataset := [10, 20, 30]
  shuffled seed := [10, 20, 30].rotate seed.toNat
  perm _ := List.rotate_perm _ _
  shuffle := true
  seed := 0
  maxEpochs := some 3
  dataWorldSize := 2
  dataWorldSize_pos := Nat.zero_lt_two
  process x := if x = 20 then none else some [("input_ids", .list [.int x, .int (x + 1)])]

def tokens (l : List (Event PyDict PyException)) : List (Option PyData) :=
  l.map fun
    | .yield sample => sample.get? "input_ids"
    | _ => none

/-- The first rank is saved after the last example of the first epoch, alone and under a `CatDataset`; the second reads
the example that is skipped in both of the first epochs. -/
theorem sftSharding_threeExamples :
    (∃! at_ : Nat × Nat, at_.1 < 2 ∧ threeExamples.VisitsAt at_.1 at_.2 ⟨1, 0, 20⟩) ∧
    (∃ s s', after (threeExamples.turn 0) 2 threeExamples.start = some s ∧
      threeExamples.turn 0 s = .yield [("input_ids", .list [.int 30, .int 31])] s') ∧
    trace (threeExamples.turn 0) 10 threeExamples.start = trace (threeExamples.turn 0) 3 threeExamples.start ++
      trace (threeExamples.turn 0) 7 (threeExamples.loadStateDict ⟨3, 0⟩) ∧
    trace (catTurn 3 (threeExamples.turn 0)) 10 (catStart threeExamples.start) =
      trace (catTurn 3 (threeExamples.turn 0)) 3 (catStart threeExamples.start) ++
        trace (catTurn 3 (threeExamples.turn 0)) 7 (catStart (threeExamples.loadStateDict ⟨3, 0⟩)) ∧
    tokens (trace (threeExamples.turn 1) 6 threeExamples.start) = [some (.list [.int 10, .int 11])] ∧
    tokens (trace (threeExamples.turn 0) 10 threeExamples.start) = [some (.list [.int 10, .int 11]),
      some (.list [.int 30, .int 31]), some (.list [.int 30, .int 31]), some (.list [.int 30, .int 31]), none] ∧
    tokens (trace (catTurn 3 (threeExamples.turn 0)) 10 (catStart threeExamples.start)) =
      [some (.list [.int 10, .int 11, .int 30]), some (.list [.int 30, .int 31, .int 30]), none] := by
  obtain ⟨hunique, -, -, hyields, hresume, hcat⟩ := sftSharding threeExamples
  refine ⟨hunique _ ⟨fun m hm => ?_, rfl⟩, ?_, ?_, ?_, rfl, rfl, rfl⟩
  · obtain rfl : 3 = m := Option.some.inj hm
    decide
  · obtain ⟨s', hs'⟩ := (hyields 0 2 _ rfl _).2 ⟨⟨0, 2, 30⟩, ⟨_, _, rfl, rfl⟩, rfl⟩
    exact ⟨_, s', rfl, hs'⟩
  · exact hresume 0 3 ⟨3, 0, _⟩ ⟨2, _, _, rfl, rfl, rfl⟩ 7
  · exact hcat 3 0 3 ⟨⟨3, 0, _⟩, [], 0⟩ ⟨2, _, _, rfl, rfl, rfl⟩ 7

end ShardedDataset

end AuroraRl.Sft
