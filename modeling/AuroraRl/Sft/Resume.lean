import AuroraRl.Sft.Conservation
import Mathlib.Algebra.BigOperators.Intervals

/-!
# Resuming the stacking dataset

* `Reaches` : when a bucket that has timed out is merged into another one;
* `Apart` : an example that a resumed dataset treats as the uninterrupted one does;
* `Lags` : a resumed dataset beside the uninterrupted one, `Lags.turn`, `Lags.turn_ne`;
* `resume_iff` : a resumed dataset yields the batches of the uninterrupted one as long as all examples are apart.
-/

namespace AuroraRl.Sft
namespace StackDataset

variable {maxArea : Nat}

/-! ## Where a bucket is merged into -/

variable (maxArea) in
/-- There is room for the buckets from `j` on in every bucket up to `i`. -/
def Reaches (s : StackDataset) (j i : Nat) : Prop :=
  j < i ∧ ∀ m, j ≤ m → m < i →
    size maxArea (m + 1) * (∑ k ∈ Finset.Ico j (m + 2), (s.buckets k).length) < maxArea

theorem sum_two (f : Nat → Nat) (j : Nat) : ∑ k ∈ Finset.Ico j (j + 2), f k = f j + f (j + 1) := by
  rw [Finset.sum_eq_sum_Ico_succ_bot (by omega), Finset.sum_eq_sum_Ico_succ_bot (by omega), Finset.Ico_self,
    Finset.sum_empty, Nat.add_zero]

/-- Moving a bucket up keeps the examples from it on. -/
theorem sum_moveUp (s : StackDataset) {j m : Nat} (hjm : j < m) :
    ∑ k ∈ Finset.Ico (j + 1) (m + 2), ((s.moveUp j).buckets k).length =
      ∑ k ∈ Finset.Ico j (m + 2), (s.buckets k).length := by
  rw [Finset.sum_eq_sum_Ico_succ_bot (by omega), Finset.sum_eq_sum_Ico_succ_bot (a := j) (by omega),
    Finset.sum_eq_sum_Ico_succ_bot (a := j + 1) (by omega), moveUp_buckets_succ, List.length_append]
  have hrest : ∑ k ∈ Finset.Ico (j + 1 + 1) (m + 2), ((s.moveUp j).buckets k).length =
      ∑ k ∈ Finset.Ico (j + 1 + 1) (m + 2), (s.buckets k).length := by
    apply Finset.sum_congr rfl
    intro k hk
    have := (Finset.mem_Ico.1 hk).1
    rw [moveUp_buckets_of_ne s (by omega) (by omega)]
  rw [hrest]
  omega

theorem Reaches.room {s : StackDataset} {j i : Nat} (h : Reaches maxArea s j i) :
    size maxArea (j + 1) * ((s.buckets j).length + (s.buckets (j + 1)).length) < maxArea := by
  have := h.2 j le_rfl h.1
  rwa [sum_two fun k => (s.buckets k).length] at this

/-- Being merged into `i` is a matter of room at the first move, and of the moves after it. -/
theorem reaches_iff {s : StackDataset} {j i : Nat} (hji : j + 1 < i) :
    Reaches maxArea s j i ↔
      size maxArea (j + 1) * ((s.buckets j).length + (s.buckets (j + 1)).length) < maxArea ∧
        Reaches maxArea (s.moveUp j) (j + 1) i := by
  refine ⟨fun h => ⟨h.room, hji, fun m hm hmi => ?_⟩, fun ⟨hroom, h⟩ => ⟨by omega, fun m hm hmi => ?_⟩⟩
  · rw [sum_moveUp s (by omega)]
    exact h.2 m (by omega) hmi
  · rcases Nat.eq_or_lt_of_le hm with rfl | hlt
    · rwa [sum_two fun k => (s.buckets k).length]
    · have := h.2 m hlt hmi
      rwa [sum_moveUp s hlt] at this

theorem reaches_succ_iff {s : StackDataset} {j : Nat} : Reaches maxArea s j (j + 1) ↔
    size maxArea (j + 1) * ((s.buckets j).length + (s.buckets (j + 1)).length) < maxArea := by
  refine ⟨Reaches.room, fun hroom => ⟨by omega, fun m hm hmi => ?_⟩⟩
  have hmj : m = j := by omega
  rw [hmj, sum_two fun k => (s.buckets k).length]
  exact hroom

theorem Reaches.le_mergeUp {k : Nat} {s : StackDataset} {j i : Nat} (h : Reaches maxArea s j i) (hk : i ≤ j + k) :
    i ≤ (mergeUp maxArea k s j).2 := by
  induction k generalizing s j with
  | zero =>
      have := h.1
      omega
  | succ k ih =>
      rw [mergeUp_succ, if_pos h.room]
      rcases Nat.eq_or_lt_of_le (Nat.succ_le_of_lt h.1) with rfl | hlt
      · exact (mergeUp_suffix maxArea k _ _).1
      · exact ih ((reaches_iff hlt).1 h).2 (by omega)

/-! ## A turn, case by case -/

theorem fill_of_full {width fuel : Nat} {l : List Sample} (h : maxArea ≤ width * l.length) :
    fill maxArea width fuel l = l := by
  cases fuel with
  | zero => rfl
  | succ fuel => rw [fill, if_neg (by omega)]

/-- A full bucket that has timed out is yielded as it is. -/
theorem expire_of_full {s : StackDataset} {i : Nat} (hi : i < numBuckets maxArea) (h : isFull maxArea s i = true) :
    expire maxArea s i = (s, i) := by
  have hfull := of_decide_eq_true h
  have hmerge : ∀ k, i + k = numBuckets maxArea - 1 → mergeUp maxArea k s i = (s, i) := by
    intro k hk
    cases k with
    | zero => rfl
    | succ k =>
        rw [mergeUp_succ, if_neg]
        rw [size_succ (by omega), Nat.mul_assoc, Nat.mul_add]
        omega
  unfold expire
  rw [hmerge _ (by show i + (numBuckets maxArea - 1 - i) = _; omega)]
  dsimp only
  rw [fill_of_full hfull, setBucket, Function.update_eq_self]

abbrev put (maxArea : Nat) (s : StackDataset) (x : Sample) : StackDataset :=
  s.append (bucketOf maxArea x) (x.fit maxArea)

theorem turn_of_full (hv : ValidArea maxArea) {s : StackDataset} {x : Sample}
    (h : isFull maxArea (s.put maxArea x) (bucketOf maxArea x) = true) :
    s.turn maxArea x = ((s.put maxArea x).resume (bucketOf maxArea x),
      some ((s.put maxArea x).batch maxArea (bucketOf maxArea x))) := by
  have hfeed : feed maxArea s x = (s.put maxArea x, some (bucketOf maxArea x)) := by
    rw [feed_yield (by rw [h, Bool.true_or]), expire_of_full (bucketOf_lt hv x) h]
    split <;> rfl
  rw [turn, hfeed]

theorem turn_of_timeout {s : StackDataset} {x : Sample} (h : s.hitTimeout (bucketOf maxArea x) = true) :
    s.turn maxArea x = ((expire maxArea (s.put maxArea x) (bucketOf maxArea x)).1.resume
        (expire maxArea (s.put maxArea x) (bucketOf maxArea x)).2,
      some ((expire maxArea (s.put maxArea x) (bucketOf maxArea x)).1.batch maxArea
        (expire maxArea (s.put maxArea x) (bucketOf maxArea x)).2)) := by
  have hfeed := feed_yield (s := s) (x := x) (by rw [h, Bool.or_true] : (isFull maxArea _ _ || _) = true)
  rw [if_pos h] at hfeed
  rw [turn, hfeed]

theorem turn_of_keep {s : StackDataset} {x : Sample}
    (hfull : isFull maxArea (s.put maxArea x) (bucketOf maxArea x) = false)
    (hhit : s.hitTimeout (bucketOf maxArea x) = false) :
    s.turn maxArea x = (if s.bucketTimers (bucketOf maxArea x) = none then
        (s.put maxArea x).setTimer (bucketOf maxArea x) (some s.step)
      else s.put maxArea x, none) := by
  have hfeed := feed_keep (s := s) (x := x) (by rw [hfull, hhit]; rfl : (isFull maxArea _ _ || _) = false)
  rw [turn, hfeed]

/-! ## The resumed dataset beside the uninterrupted one -/

variable (maxArea) in
/-- The resumed dataset `r` is one step behind `u` and still holds the bucket `i` that was yielded; the timers set since
the save lag with it. -/
structure Lags (i saved : Nat) (u r : StackDataset) : Prop where
  step : u.step = r.step + 1
  saved_lt : saved < u.step
  empty : u.buckets i = []
  full : maxArea ≤ size maxArea i * (r.buckets i).length
  buckets : ∀ j ≠ i, r.buckets j = u.buckets j
  timers : ∀ j ≠ i, r.bucketTimers j = (u.bucketTimers j).map fun t => if t ≤ saved then t else t - 1

variable {i saved : Nat} {u r : StackDataset}

/-- What the save leaves behind: the state after the `yield` beside the one before it. -/
theorem lags_resume {s : StackDataset} (hfull : maxArea ≤ size maxArea i * (s.buckets i).length)
    (htimers : ∀ j t, s.bucketTimers j = some t → t ≤ s.step) : Lags maxArea i s.step (s.resume i) s where
  step := rfl
  saved_lt := Nat.lt_succ_self _
  empty := resume_buckets_self s i
  full := hfull
  buckets := fun j hj => (resume_buckets_of_ne s hj).symm
  timers := by
    intro j hj
    rw [resume_bucketTimers_of_ne s hj]
    cases ht : s.bucketTimers j with
    | none => rfl
    | some t => rw [Option.map_some, if_pos (htimers j t ht)]

theorem Lags.append (h : Lags maxArea i saved u r) {j : Nat} (hj : j ≠ i) (x : Sample) :
    Lags maxArea i saved (u.append j x) (r.append j x) where
  step := h.step
  saved_lt := h.saved_lt
  empty := by rw [append_buckets_of_ne u hj.symm, h.empty]
  full := by
    rw [append_buckets_of_ne r hj.symm]
    exact h.full
  buckets := by
    intro k hk
    by_cases hkj : k = j
    · rw [hkj, append_buckets_self, append_buckets_self, h.buckets j hj]
    · rw [append_buckets_of_ne r hkj, append_buckets_of_ne u hkj, h.buckets k hk]
  timers := h.timers

theorem Lags.moveUp (h : Lags maxArea i saved u r) {j : Nat} (hj : j ≠ i) (hj' : j + 1 ≠ i) :
    Lags maxArea i saved (u.moveUp j) (r.moveUp j) where
  step := h.step
  saved_lt := h.saved_lt
  empty := by rw [moveUp_buckets_of_ne u hj.symm hj'.symm, h.empty]
  full := by
    rw [moveUp_buckets_of_ne r hj.symm hj'.symm]
    exact h.full
  buckets := by
    intro k hk
    by_cases hkj : k = j
    · rw [hkj, moveUp_buckets_self, moveUp_buckets_self]
    · by_cases hkj' : k = j + 1
      · rw [hkj', moveUp_buckets_succ, moveUp_buckets_succ, h.buckets j hj, h.buckets (j + 1) hj']
      · rw [moveUp_buckets_of_ne r hkj hkj', moveUp_buckets_of_ne u hkj hkj', h.buckets k hk]
  timers := by
    intro k hk
    by_cases hkj : k = j
    · rw [hkj, moveUp_bucketTimers_self, moveUp_bucketTimers_self]
      rfl
    · rw [moveUp_bucketTimers_of_ne r hkj, moveUp_bucketTimers_of_ne u hkj, h.timers k hk]

theorem Lags.resume (h : Lags maxArea i saved u r) {j : Nat} (hj : j ≠ i) :
    Lags maxArea i saved (u.resume j) (r.resume j) where
  step := by simp [h.step]
  saved_lt := Nat.lt_succ_of_lt h.saved_lt
  empty := by rw [resume_buckets_of_ne u hj.symm, h.empty]
  full := by
    rw [resume_buckets_of_ne r hj.symm]
    exact h.full
  buckets := by
    intro k hk
    by_cases hkj : k = j
    · rw [hkj, resume_buckets_self, resume_buckets_self]
    · rw [resume_buckets_of_ne r hkj, resume_buckets_of_ne u hkj, h.buckets k hk]
  timers := by
    intro k hk
    by_cases hkj : k = j
    · rw [hkj, resume_bucketTimers_self, resume_bucketTimers_self]
      rfl
    · rw [resume_bucketTimers_of_ne r hkj, resume_bucketTimers_of_ne u hkj, h.timers k hk]

/-- A timer set by both is older by one in the resumed dataset. -/
theorem Lags.setTimer (h : Lags maxArea i saved u r) (j : Nat) :
    Lags maxArea i saved (u.setTimer j (some u.step)) (r.setTimer j (some r.step)) where
  step := h.step
  saved_lt := h.saved_lt
  empty := h.empty
  full := h.full
  buckets := h.buckets
  timers := by
    intro k hk
    by_cases hkj : k = j
    · have hlt := h.saved_lt
      rw [hkj, setTimer_bucketTimers_self, setTimer_bucketTimers_self, Option.map_some, if_neg (by omega), h.step,
        Nat.add_sub_cancel]
    · rw [setTimer_bucketTimers_of_ne r hkj, setTimer_bucketTimers_of_ne u hkj, h.timers k hk]

theorem Lags.setBucket (h : Lags maxArea i saved u r) {j : Nat} (hj : j ≠ i) (l : List Sample) :
    Lags maxArea i saved (u.setBucket j l) (r.setBucket j l) where
  step := h.step
  saved_lt := h.saved_lt
  empty := by rw [setBucket_buckets_of_ne u hj.symm, h.empty]
  full := by
    rw [setBucket_buckets_of_ne r hj.symm]
    exact h.full
  buckets := by
    intro k hk
    by_cases hkj : k = j
    · rw [hkj, setBucket_buckets_self, setBucket_buckets_self]
    · rw [setBucket_buckets_of_ne r hkj, setBucket_buckets_of_ne u hkj, h.buckets k hk]
  timers := h.timers

/-- A timeout is over for both at once, but for an old timer in the first step it is over. -/
theorem Lags.hitTimeout (h : Lags maxArea i saved u r) {j : Nat} (hj : j ≠ i)
    (hearly : ∀ t, u.bucketTimers j = some t → t ≤ saved → t + bucketTimeout + 1 ≠ u.step) :
    r.hitTimeout j = u.hitTimeout j := by
  have hlt := h.saved_lt
  have hstep := h.step
  unfold StackDataset.hitTimeout
  rw [h.timers j hj]
  cases ht : u.bucketTimers j with
  | none => rfl
  | some t =>
      have hne := hearly t ht
      apply decide_eq_decide.2
      dsimp only
      split <;> omega

/-- The resumed dataset never merges into the bucket that it still holds. -/
theorem Lags.not_room (h : Lags maxArea i saved u r) (hi : i < numBuckets maxArea) (hv : ValidArea maxArea) (len : Nat) :
    ¬ size maxArea i * (len + (r.buckets i).length) < maxArea := by
  have := h.full
  have := size_pos hv hi
  rw [Nat.mul_add]
  omega

/-- **The merging loop** does the same in both, unless it reaches the bucket. -/
theorem Lags.mergeUp (h : Lags maxArea i saved u r) (hi : i < numBuckets maxArea) (hv : ValidArea maxArea) {k j : Nat}
    (hj : j ≠ i) (hreach : ¬ Reaches maxArea u j i) :
    Lags maxArea i saved (StackDataset.mergeUp maxArea k u j).1 (StackDataset.mergeUp maxArea k r j).1 ∧
      (StackDataset.mergeUp maxArea k r j).2 = (StackDataset.mergeUp maxArea k u j).2 ∧
      (StackDataset.mergeUp maxArea k u j).2 ≠ i := by
  induction k generalizing u r j with
  | zero => exact ⟨h, rfl, hj⟩
  | succ k ih =>
      rw [mergeUp_succ, mergeUp_succ]
      by_cases hji : j + 1 = i
      · subst hji
        rw [reaches_succ_iff] at hreach
        rw [if_neg hreach, if_neg (h.not_room hi hv _)]
        exact ⟨h, rfl, hj⟩
      · rw [h.buckets j hj, h.buckets (j + 1) hji]
        split
        · rename_i hroom
          apply ih (h.moveUp hj hji) hji
          intro hmore
          exact hreach ((reaches_iff hmore.1).2 ⟨hroom, hmore⟩)
        · exact ⟨h, rfl, hj⟩

variable (maxArea) in
/-- The example `x` meets the resumed dataset as it meets the uninterrupted one `u`: it is not for the bucket that was
being yielded, it does not end an old timeout in the first step it is over, unless it fills its bucket, and its bucket is
not merged into the one that was being yielded. -/
structure Apart (i saved : Nat) (u : StackDataset) (x : Sample) : Prop where
  bucket : bucketOf maxArea x ≠ i
  timeout : ∀ t, u.bucketTimers (bucketOf maxArea x) = some t → t ≤ saved → t + bucketTimeout + 1 = u.step →
    isFull maxArea (u.put maxArea x) (bucketOf maxArea x) = true
  merge : u.hitTimeout (bucketOf maxArea x) = true → ¬ Reaches maxArea (u.put maxArea x) (bucketOf maxArea x) i

theorem Lags.isFull (h : Lags maxArea i saved u r) {j : Nat} (hj : j ≠ i) :
    StackDataset.isFull maxArea r j = StackDataset.isFull maxArea u j := by
  unfold StackDataset.isFull
  rw [h.buckets j hj]

/-- **One turn of both.** -/
theorem Lags.turn (h : Lags maxArea i saved u r) (hi : i < numBuckets maxArea) (hv : ValidArea maxArea) {x : Sample}
    (hx : Apart maxArea i saved u x) :
    (r.turn maxArea x).2 = (u.turn maxArea x).2 ∧
      Lags maxArea i saved (u.turn maxArea x).1 (r.turn maxArea x).1 := by
  have hput : Lags maxArea i saved (u.put maxArea x) (r.put maxArea x) := h.append hx.bucket _
  have hsame := hput.isFull hx.bucket
  cases hfull : StackDataset.isFull maxArea (u.put maxArea x) (bucketOf maxArea x) with
  | true =>
      rw [turn_of_full hv hfull, turn_of_full hv (hsame.trans hfull)]
      refine ⟨?_, hput.resume hx.bucket⟩
      rw [batch, batch, hput.buckets _ hx.bucket]
  | false =>
      have hearly : r.hitTimeout (bucketOf maxArea x) = u.hitTimeout (bucketOf maxArea x) := by
        apply h.hitTimeout hx.bucket
        intro t ht hle heq
        rw [hx.timeout t ht hle heq] at hfull
        cases hfull
      cases hhit : u.hitTimeout (bucketOf maxArea x) with
      | true =>
          rw [turn_of_timeout hhit, turn_of_timeout (hearly.trans hhit)]
          obtain ⟨hlags, hindex, hne⟩ := hput.mergeUp (k := numBuckets maxArea - 1 - bucketOf maxArea x) hi hv hx.bucket
            (hx.merge hhit)
          unfold expire
          generalize StackDataset.mergeUp maxArea (numBuckets maxArea - 1 - bucketOf maxArea x) (u.put maxArea x)
            (bucketOf maxArea x) = p at hlags hindex hne ⊢
          generalize StackDataset.mergeUp maxArea (numBuckets maxArea - 1 - bucketOf maxArea x) (r.put maxArea x)
            (bucketOf maxArea x) = q at hlags hindex hne ⊢
          obtain ⟨u', m⟩ := p
          obtain ⟨r', m'⟩ := q
          dsimp only at hlags hindex hne ⊢
          subst hindex
          rw [hlags.buckets m' hne]
          have hfilled := hlags.setBucket hne (fill maxArea (size maxArea m') maxArea (u'.buckets m'))
          refine ⟨?_, hfilled.resume hne⟩
          rw [batch, batch, hfilled.buckets m' hne]
      | false =>
          rw [turn_of_keep hfull hhit, turn_of_keep (hsame.trans hfull) (hearly.trans hhit)]
          refine ⟨rfl, ?_⟩
          rw [h.timers _ hx.bucket]
          cases u.bucketTimers (bucketOf maxArea x) with
          | none => exact hput.setTimer _
          | some t => exact hput

/-! ## An example that is not apart -/

/-- The width of a yielded batch can be read off an example that fits it. -/
theorem width_of_pack {y : Yielded} (hy : y.Fits maxArea) {width : Nat} {l : List Sample}
    (h : y.batch maxArea = pack width l) {x : Sample} (hx : x ∈ l) (hlen : x.inputIds.length ≤ width) :
    y.width maxArea = width ∧ l.length * width = maxArea := by
  have hrow : pad width 0 x.inputIds ∈ (y.batch maxArea).inputIds := by
    rw [h]
    exact List.mem_map_of_mem hx
  have hwidth : y.width maxArea = width := by rw [← hy.inputIds.2 _ hrow, length_pad hlen]
  have hcount : l.length = y.examples.length + y.dummies := by
    rw [← hy.inputIds.1, h]
    exact (List.length_map _).symm
  refine ⟨hwidth, ?_⟩
  rw [hcount, ← hwidth]
  exact hy.area

theorem Steady.yielded {s : StackDataset} (h : Steady maxArea s) (hv : ValidArea maxArea) {x : Sample} {b : Batch}
    (hb : (s.turn maxArea x).2 = some b) : ∃ y : Yielded, y.batch maxArea = b ∧ y.Fits maxArea := by
  obtain ⟨ys, hys, hfits, -⟩ := h.turn hv x
  rw [hb] at hys
  cases ys with
  | none => cases hys
  | some y => exact ⟨y, (Option.some.inj hys).symm, hfits y rfl⟩

/-- A bucket that has timed out holds its last example when it is yielded. -/
theorem mem_expire {s : StackDataset} {x : Sample} (j : Nat) (hx : x ∈ s.buckets j) :
    x ∈ (expire maxArea s j).1.buckets (expire maxArea s j).2 := by
  obtain ⟨-, hsuffix⟩ := mergeUp_suffix maxArea (numBuckets maxArea - 1 - j) s j
  unfold expire
  dsimp only
  rw [setBucket_buckets_self]
  have hfill : ∀ (fuel : Nat) (l : List Sample), x ∈ l → ∀ width, x ∈ fill maxArea width fuel l := by
    intro fuel
    induction fuel with
    | zero => exact fun l hl width => hl
    | succ fuel ih =>
        intro l hl width
        rw [fill]
        split
        · exact ih _ (List.mem_append_left _ hl) width
        · exact hl
  exact hfill _ _ (hsuffix.subset hx) _

theorem Lags.mergeUp_lt (h : Lags maxArea i saved u r) (hi : i < numBuckets maxArea) (hv : ValidArea maxArea) {k j : Nat}
    (hj : j < i) : (StackDataset.mergeUp maxArea k r j).2 < i := by
  induction k generalizing u r j with
  | zero => exact hj
  | succ k ih =>
      rw [mergeUp_succ]
      by_cases hji : j + 1 = i
      · subst hji
        rw [if_neg (h.not_room hi hv _)]
        exact hj
      · split
        · exact ih (h.moveUp hj.ne hji) (by omega)
        · exact hj

theorem not_reaches_of_full {s : StackDataset} {j : Nat} (hi : i < numBuckets maxArea)
    (h : isFull maxArea s j = true) : ¬ Reaches maxArea s j i := by
  intro hreach
  have hfull := of_decide_eq_true h
  have hroom := hreach.room
  have hji := hreach.1
  rw [size_succ (by omega), Nat.mul_assoc, Nat.mul_add] at hroom
  omega

/-- The resumed dataset yields its bucket again, with one row too many. -/
theorem Lags.turn_ne_of_bucket (h : Lags maxArea i saved u r) (hu : Steady maxArea u) (hv : ValidArea maxArea) {x : Sample}
    (hx : bucketOf maxArea x = i) : (r.turn maxArea x).2 ≠ (u.turn maxArea x).2 := by
  subst hx
  intro heq
  have hpos := size_pos hv (bucketOf_lt hv x)
  have hmore : size maxArea (bucketOf maxArea x) * ((r.put maxArea x).buckets (bucketOf maxArea x)).length =
      size maxArea (bucketOf maxArea x) * (r.buckets (bucketOf maxArea x)).length + size maxArea (bucketOf maxArea x) := by
    rw [append_buckets_self, List.length_append, List.length_singleton, Nat.mul_succ]
  have hfull := h.full
  rw [turn_of_full hv (decide_eq_true (by omega))] at heq
  obtain ⟨y, hy, hfits⟩ := hu.yielded hv heq.symm
  obtain ⟨-, harea⟩ := width_of_pack hfits hy (x := x.fit maxArea) (by simp) (length_le_size hv x)
  rw [Nat.mul_comm] at harea
  omega

/-- The uninterrupted dataset merges into the bucket that the resumed one still holds. -/
theorem Lags.turn_ne_of_reaches (h : Lags maxArea i saved u r) (hu : Steady maxArea u) (hi : i < numBuckets maxArea)
    (hv : ValidArea maxArea) {x : Sample} (hx : bucketOf maxArea x ≠ i) (hhit : u.hitTimeout (bucketOf maxArea x) = true)
    (hhit' : r.hitTimeout (bucketOf maxArea x) = true)
    (hreach : Reaches maxArea (u.put maxArea x) (bucketOf maxArea x) i) :
    (r.turn maxArea x).2 ≠ (u.turn maxArea x).2 := by
  have hput : Lags maxArea i saved (u.put maxArea x) (r.put maxArea x) := h.append hx _
  intro heq
  have hlt := hput.mergeUp_lt (k := numBuckets maxArea - 1 - bucketOf maxArea x) hi hv hreach.1
  have hge := hreach.le_mergeUp (k := numBuckets maxArea - 1 - bucketOf maxArea x) (by omega)
  have hbound := ((hu.append hv (bucketOf_lt hv x) (length_le_size hv x)).mergeUp
    (k := numBuckets maxArea - 1 - bucketOf maxArea x) (by have := bucketOf_lt hv x; omega)).1.lt
  obtain ⟨hle, -⟩ := mergeUp_suffix maxArea (numBuckets maxArea - 1 - bucketOf maxArea x)
    (r.put maxArea x) (bucketOf maxArea x)
  have hmem : ∀ s : StackDataset, x.fit maxArea ∈ (s.put maxArea x).buckets (bucketOf maxArea x) := by
    intro s
    simp
  have hsize : ∀ j, bucketOf maxArea x ≤ j → j < numBuckets maxArea → (x.fit maxArea).inputIds.length ≤ size maxArea j := by
    intro j hj hjn
    have := length_le_size hv x
    rcases Nat.eq_or_lt_of_le hj with rfl | hlt
    · exact this
    · exact this.trans (size_lt hv hlt hjn).le
  rw [turn_of_timeout hhit'] at heq
  obtain ⟨y, hy, hfits⟩ := hu.yielded hv heq.symm
  have hy' : y.batch maxArea = (expire maxArea (u.put maxArea x) (bucketOf maxArea x)).1.batch maxArea
      (expire maxArea (u.put maxArea x) (bucketOf maxArea x)).2 := by
    rw [turn_of_timeout hhit] at heq
    rw [hy]
    exact Option.some.inj heq
  have hwidth := (width_of_pack hfits hy (mem_expire _ (hmem r)) (hsize _ hle (hlt.trans hi))).1
  have hwidth' := (width_of_pack hfits hy' (mem_expire _ (hmem u)) (hsize _ (hreach.1.le.trans hge) hbound)).1
  exact absurd (hwidth.symm.trans hwidth') (size_lt hv (hlt.trans_le hge) hbound).ne

/-- **A turn on an example that is not apart.** -/
theorem Lags.turn_ne (h : Lags maxArea i saved u r) (hu : Steady maxArea u) (hi : i < numBuckets maxArea)
    (hv : ValidArea maxArea) {x : Sample} (hx : ¬ Apart maxArea i saved u x) :
    (r.turn maxArea x).2 ≠ (u.turn maxArea x).2 := by
  by_cases hb : bucketOf maxArea x = i
  · exact h.turn_ne_of_bucket hu hv hb
  · have hput : Lags maxArea i saved (u.put maxArea x) (r.put maxArea x) := h.append hb _
    cases hfull : StackDataset.isFull maxArea (u.put maxArea x) (bucketOf maxArea x) with
    | true => exact absurd ⟨hb, fun _ _ _ _ => hfull, fun _ => not_reaches_of_full hi hfull⟩ hx
    | false =>
        -- without a timeout the resumed dataset yields nothing
        have hnone : ∀ hhit : u.hitTimeout (bucketOf maxArea x) = true, r.hitTimeout (bucketOf maxArea x) = false →
            (r.turn maxArea x).2 ≠ (u.turn maxArea x).2 := by
          intro hhit hhit' heq
          rw [turn_of_timeout hhit, turn_of_keep ((hput.isFull hb).trans hfull) hhit'] at heq
          cases heq
        by_cases hearly : ∃ t, u.bucketTimers (bucketOf maxArea x) = some t ∧ t ≤ saved ∧ t + bucketTimeout + 1 = u.step
        · obtain ⟨t, ht, hle, hstep⟩ := hearly
          have hrstep := h.step
          apply hnone
          · unfold StackDataset.hitTimeout
            rw [ht]
            exact decide_eq_true (by omega)
          · unfold StackDataset.hitTimeout
            rw [h.timers _ hb, ht, Option.map_some, if_pos hle]
            exact decide_eq_false (by omega)
        · have hmerge : u.hitTimeout (bucketOf maxArea x) = true ∧
              Reaches maxArea (u.put maxArea x) (bucketOf maxArea x) i := by
            by_contra hno
            exact hx ⟨hb, fun t ht hle hstep => absurd ⟨t, ht, hle, hstep⟩ hearly, fun hhit hreach => hno ⟨hhit, hreach⟩⟩
          cases hhit' : r.hitTimeout (bucketOf maxArea x) with
          | false => exact hnone hmerge.1 hhit'
          | true => exact h.turn_ne_of_reaches hu hi hv hb hmerge.1 hhit' hmerge.2

/-! ## Whole runs -/

theorem iterate_succ (stream : Nat → Option Sample) (n position : Nat) (s : StackDataset) :
    iterate maxArea stream (n + 1) position s =
      match stream (iterate maxArea stream n position s).2.1 with
      | none => iterate maxArea stream n position s
      | some x => ((iterate maxArea stream n position s).1 ++
          ((iterate maxArea stream n position s).2.2.turn maxArea x).2.toList,
          (iterate maxArea stream n position s).2.1 + 1, ((iterate maxArea stream n position s).2.2.turn maxArea x).1) := by
  induction n generalizing position s with
  | zero =>
      rw [iterate, iterate]
      dsimp only
      cases stream position with
      | none => rfl
      | some x => simp [iterate]
  | succ n ih =>
      rw [iterate]
      cases hx : stream position with
      | none =>
          rw [iterate, hx]
          dsimp only
          rw [hx]
      | some x =>
          dsimp only
          rw [ih, iterate, hx]
          dsimp only
          cases stream (iterate maxArea stream n (position + 1) (s.turn maxArea x).1).2.1 with
          | none => rfl
          | some y => simp

/-- No timer is set in the future. -/
def TimersPast (s : StackDataset) : Prop := ∀ j t, s.bucketTimers j = some t → t ≤ s.step

theorem TimersPast.clear {s : StackDataset} (h : TimersPast s) (i : Nat) : TimersPast (s.setTimer i none) := by
  intro j t ht
  by_cases hji : j = i
  · rw [hji, setTimer_bucketTimers_self] at ht
    cases ht
  · rw [setTimer_bucketTimers_of_ne s hji] at ht
    exact h j t ht

theorem TimersPast.mergeUp {s : StackDataset} (h : TimersPast s) (k i : Nat) :
    TimersPast (mergeUp maxArea k s i).1 := by
  induction k generalizing s i with
  | zero => exact h
  | succ k ih =>
      rw [mergeUp_succ]
      split
      · apply ih
        exact TimersPast.clear (s := (s.setBucket (i + 1) (s.buckets (i + 1) ++ s.buckets i)).setBucket i []) h i
      · exact h

variable (maxArea) in
theorem TimersPast.feed {s : StackDataset} (h : TimersPast s) (x : Sample) : TimersPast (feed maxArea s x).1 := by
  have hput : TimersPast (s.put maxArea x) := h
  cases hyield : StackDataset.isFull maxArea (s.put maxArea x) (bucketOf maxArea x) ||
      s.hitTimeout (bucketOf maxArea x) with
  | true =>
      rw [feed_yield hyield]
      split
      · exact hput.mergeUp _ _
      · exact hput
  | false =>
      rw [feed_keep hyield]
      dsimp only
      split
      · intro j t ht
        by_cases hj : j = bucketOf maxArea x
        · rw [hj, setTimer_bucketTimers_self] at ht
          cases ht
          exact le_rfl
        · rw [setTimer_bucketTimers_of_ne _ hj] at ht
          exact h j t ht
      · exact hput

variable (maxArea) in
theorem TimersPast.turn {s : StackDataset} (h : TimersPast s) (x : Sample) : TimersPast (s.turn maxArea x).1 := by
  have hfeed := h.feed maxArea x
  unfold StackDataset.turn
  split
  · rename_i s' hs
    rw [hs] at hfeed
    exact hfeed
  · rename_i s' i hs
    rw [hs] at hfeed
    have hlater : TimersPast ({ s' with step := s'.step + 1 }.setBucket i []) :=
      fun j t ht => Nat.le_succ_of_le (hfeed j t ht)
    exact hlater.clear i

theorem TimersPast.iterate {s : StackDataset} (h : TimersPast s) (stream : Nat → Option Sample) (n position : Nat) :
    TimersPast (iterate maxArea stream n position s).2.2 := by
  induction n with
  | zero => exact h
  | succ n ih =>
      rw [iterate_succ]
      split
      · exact ih
      · exact ih.turn maxArea _

section Resume

variable (maxArea) (stream : Nat → Option Sample) (position : Nat) (s : StackDataset) (i : Nat)

/-- The uninterrupted iteration, `k` examples after the yield. -/
abbrev uninterrupted (k : Nat) : List Batch × Nat × StackDataset := iterate maxArea stream k position (s.resume i)

/-- The iteration of a fresh dataset that has loaded the state saved at the yield. -/
abbrev resumed (k : Nat) : List Batch × Nat × StackDataset :=
  iterate maxArea stream k (loadStateDict (s.stateDict position)).1 (loadStateDict (s.stateDict position)).2

/-- What both have in common after `k` examples. -/
structure Together (k : Nat) : Prop where
  batches : (resumed maxArea stream position s k).1 = (uninterrupted maxArea stream position s i k).1
  position_eq : (resumed maxArea stream position s k).2.1 = (uninterrupted maxArea stream position s i k).2.1
  lags : Lags maxArea i s.step (uninterrupted maxArea stream position s i k).2.2 (resumed maxArea stream position s k).2.2

variable {maxArea} {stream} {position} {s} {i}

theorem toList_inj {α : Type} {a b : Option α} (h : a.toList = b.toList) : a = b := by
  cases a <;> cases b <;> simp_all

variable (hv : ValidArea maxArea) (hi : i < numBuckets maxArea)

include hv hi in
/-- **One example more.** The batches stay the same exactly if it is apart. -/
theorem Together.succ_iff (hs : Steady maxArea (s.resume i)) {k : Nat}
    (h : Together maxArea stream position s i k) :
    (resumed maxArea stream position s (k + 1)).1 = (uninterrupted maxArea stream position s i (k + 1)).1 ↔
      ∀ x, stream (uninterrupted maxArea stream position s i k).2.1 = some x →
        Apart maxArea i s.step (uninterrupted maxArea stream position s i k).2.2 x := by
  obtain ⟨-, -, -, hsteady, -⟩ := hs.iterate hv stream k position
  have hposition : (iterate maxArea stream k (loadStateDict (s.stateDict position)).1
      (loadStateDict (s.stateDict position)).2).2.1 = _ := h.position_eq
  rw [resumed, uninterrupted, iterate_succ, iterate_succ, hposition]
  cases hx : stream (uninterrupted maxArea stream position s i k).2.1 with
  | none => exact iff_of_true h.batches fun x hx => nomatch hx
  | some x =>
      refine ⟨fun heq y hy => ?_, fun hall => ?_⟩
      · cases hy
        by_contra hna
        have hbatches := h.batches
        dsimp only at heq
        rw [hbatches] at heq
        exact h.lags.turn_ne hsteady hi hv hna (toList_inj (List.append_cancel_left heq))
      · have hout := (h.lags.turn hi hv (hall x rfl)).1
        show _ ++ (StackDataset.turn maxArea (resumed maxArea stream position s k).2.2 x).2.toList = _
        rw [hout]
        exact congrArg (· ++ _) h.batches

include hv hi in
theorem Together.succ {k : Nat}
    (h : Together maxArea stream position s i k)
    (hall : ∀ x, stream (uninterrupted maxArea stream position s i k).2.1 = some x →
      Apart maxArea i s.step (uninterrupted maxArea stream position s i k).2.2 x) :
    Together maxArea stream position s i (k + 1) := by
  have hrsucc : resumed maxArea stream position s (k + 1) = _ := iterate_succ stream k _ _
  have husucc : uninterrupted maxArea stream position s i (k + 1) = _ := iterate_succ stream k position (s.resume i)
  have hposition : (iterate maxArea stream k (loadStateDict (s.stateDict position)).1
      (loadStateDict (s.stateDict position)).2).2.1 = _ := h.position_eq
  rw [hposition] at hrsucc
  cases hx : stream (uninterrupted maxArea stream position s i k).2.1 with
  | none =>
      rw [hx] at hrsucc husucc
      exact ⟨by rw [hrsucc, husucc]; exact h.batches, by rw [hrsucc, husucc]; exact h.position_eq,
        by rw [hrsucc, husucc]; exact h.lags⟩
  | some x =>
      obtain ⟨hout, hlags⟩ := h.lags.turn hi hv (hall x hx)
      rw [hx] at hrsucc husucc
      refine ⟨?_, ?_, ?_⟩
      · rw [hrsucc, husucc]
        dsimp only
        rw [hout]
        exact congrArg (· ++ _) h.batches
      · rw [hrsucc, husucc]
      · rw [hrsucc, husucc]
        exact hlags

end Resume

/-- **Main.** A fresh dataset that loads the state saved at a yield goes on as the uninterrupted one, after every number
of examples, exactly if every later example is apart from what the save left behind. -/
theorem resume_iff (hv : ValidArea maxArea) (stream : Nat → Option Sample) (n : Nat) {x : Sample} {s : StackDataset}
    {i : Nat} (_hx : stream (iterate maxArea stream n 0 init).2.1 = some x)
    (hyield : feed maxArea (iterate maxArea stream n 0 init).2.2 x = (s, some i)) :
    (∀ k, (resumed maxArea stream ((iterate maxArea stream n 0 init).2.1 + 1) s k).1 =
        (uninterrupted maxArea stream ((iterate maxArea stream n 0 init).2.1 + 1) s i k).1) ↔
      ∀ k y, stream (uninterrupted maxArea stream ((iterate maxArea stream n 0 init).2.1 + 1) s i k).2.1 = some y →
        Apart maxArea i s.step (uninterrupted maxArea stream ((iterate maxArea stream n 0 init).2.1 + 1) s i k).2.2 y := by
  obtain ⟨-, -, -, hsteady, -⟩ := (steady_init hv).iterate hv stream n 0
  have hpast : TimersPast (iterate maxArea stream n 0 init).2.2 :=
    TimersPast.iterate (fun _ _ h => by cases h) stream n 0
  have hpast' := hpast.feed maxArea x
  rw [hyield] at hpast'
  generalize (iterate maxArea stream n 0 init).2.1 + 1 = position
  have hyields : (isFull maxArea (put maxArea (iterate maxArea stream n 0 init).2.2 x) (bucketOf maxArea x) ||
      (iterate maxArea stream n 0 init).2.2.hitTimeout (bucketOf maxArea x)) = true := by
    by_contra hno
    obtain ⟨s', hfeed, -⟩ := hsteady.feed_none hv (Bool.eq_false_iff.2 hno)
    rw [hyield] at hfeed
    cases hfeed
  obtain ⟨s', i', examples, dummies, hfeed, hy, -⟩ := hsteady.feed_some hv hyields
  rw [hyield] at hfeed
  cases hfeed
  have hfull : maxArea ≤ size maxArea i * (s.buckets i).length := by
    rw [hy.bucket, List.length_append, List.length_replicate, hy.area]
  have hstart : Together maxArea stream position s i 0 :=
    ⟨rfl, rfl, lags_resume hfull hpast'⟩
  refine ⟨fun heq => ?_, fun hall => ?_⟩
  · have htogether : ∀ k, Together maxArea stream position s i k := by
      intro k
      induction k with
      | zero => exact hstart
      | succ k ih => exact ih.succ hv hy.lt ((ih.succ_iff hv hy.lt hy.steady).1 (heq (k + 1)))
    intro k
    exact ((htogether k).succ_iff hv hy.lt hy.steady).1 (heq (k + 1))
  · have htogether : ∀ k, Together maxArea stream position s i k := by
      intro k
      induction k with
      | zero => exact hstart
      | succ k ih => exact ih.succ hv hy.lt (hall k)
    exact fun k => (htogether k).batches

theorem resume_iff_oneBucket :
    (∀ k, (resumed 256 (fun _ => some Sample.dummy) 1 (feed 256 init Sample.dummy).1 k).1 =
        (uninterrupted 256 (fun _ => some Sample.dummy) 1 (feed 256 init Sample.dummy).1 0 k).1) ↔
      ∀ k y, some Sample.dummy = some y →
        Apart 256 0 (feed 256 init Sample.dummy).1.step
          (uninterrupted 256 (fun _ => some Sample.dummy) 1 (feed 256 init Sample.dummy).1 0 k).2.2 y :=
  resume_iff ⟨by decide, by decide⟩ (fun _ => some Sample.dummy) 0 rfl (Prod.ext rfl (by decide +kernel))

/-- The resumed dataset repeats the example that was just yielded. -/
theorem resume_repeats : ∃ s, feed 256 init Sample.dummy = (s, some 0) ∧
    (uninterrupted 256 (fun _ => some Sample.dummy) 1 s 0 1).1 = [pack 256 [Sample.dummy]] ∧
    (resumed 256 (fun _ => some Sample.dummy) 1 s 1).1 = [pack 256 [Sample.dummy, Sample.dummy]] ∧
    (resumed 256 (fun _ => some Sample.dummy) 1 s 1).1 ≠ (uninterrupted 256 (fun _ => some Sample.dummy) 1 s 0 1).1 :=
  ⟨(feed 256 init Sample.dummy).1, Prod.ext rfl (by decide +kernel), by decide +kernel, by decide +kernel,
    by decide +kernel⟩

end StackDataset
end AuroraRl.Sft
