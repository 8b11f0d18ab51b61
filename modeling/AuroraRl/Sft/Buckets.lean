import AuroraRl.Sft.Stack
import Mathlib.Data.List.Chain
import Mathlib.Data.List.GetD
import Mathlib.Tactic.Ring

/-!
# Buckets of the stacking dataset

* `size_succ`, `size_mul_pow` : every bucket is twice as wide as the one before, the last as wide as the area;
* `bucketOf_lt`, `length_le_size` : an example goes into a bucket that it fits in;
* `items` : all examples in the buckets;
* `Open` : what holds while one bucket is worked on, `Open.mergeUp`, `Open.fill`, `Open.expire`.
-/

namespace AuroraRl.Sft
namespace StackDataset

/-- An area that `StackDataset` accepts. -/
structure ValidArea (maxArea : Nat) : Prop where
  pos : 0 < maxArea
  aligned : maxArea % 256 = 0

/-! ## Widths -/

/-- Every width is twice the one before. -/
def Doubling : List Nat → Prop := List.IsChain fun size next => next = 2 * size

theorem doubling_bucketSizesLoop {fuel area : Nat} {sizes : List Nat} (h : Doubling sizes)
    (hhead : ∀ size ∈ sizes.head?, size = 2 * area) : Doubling (bucketSizesLoop fuel area sizes) := by
  induction fuel generalizing area sizes with
  | zero => exact h
  | succ fuel ih =>
      rw [bucketSizesLoop]
      split
      · rename_i hdvd
        apply ih
        · exact List.isChain_cons.2 ⟨hhead, h⟩
        · intro size hsize
          simp only [List.head?_cons, Option.mem_some_iff] at hsize
          omega
      · exact h

theorem getLast?_bucketSizesLoop (fuel area : Nat) {sizes : List Nat} (h : sizes ≠ []) :
    (bucketSizesLoop fuel area sizes).getLast? = sizes.getLast? := by
  induction fuel generalizing area sizes with
  | zero => rfl
  | succ fuel ih =>
      rw [bucketSizesLoop]
      split
      · rw [ih _ (List.cons_ne_nil _ _), List.getLast?_cons_of_ne_nil h]
      · rfl

/-- The fuel of the loop is enough: the area is never halved more often than it is large. -/
theorem bucketSizesLoop_succ {fuel area : Nat} (hpos : 0 < area) (hle : area ≤ fuel) (sizes : List Nat) :
    bucketSizesLoop (fuel + 1) area sizes = bucketSizesLoop fuel area sizes := by
  induction fuel generalizing area sizes with
  | zero => omega
  | succ fuel ih =>
      show (if area % 256 = 0 then bucketSizesLoop (fuel + 1) (area / 2) (area :: sizes) else sizes) =
        if area % 256 = 0 then bucketSizesLoop fuel (area / 2) (area :: sizes) else sizes
      split
      · exact ih (by omega) (by omega) _
      · rfl

variable {maxArea : Nat}

theorem doubling_bucketSizes (maxArea : Nat) : Doubling (bucketSizes maxArea) :=
  doubling_bucketSizesLoop .nil nofun

theorem getLast?_bucketSizes (h : ValidArea maxArea) : (bucketSizes maxArea).getLast? = some maxArea := by
  have hfuel : maxArea = maxArea - 1 + 1 := by have := h.pos; omega
  unfold bucketSizes
  rw [hfuel, bucketSizesLoop, ← hfuel, if_pos h.aligned, getLast?_bucketSizesLoop _ _ (List.cons_ne_nil _ _)]
  rfl

abbrev numBuckets (maxArea : Nat) : Nat := (bucketSizes maxArea).length

theorem numBuckets_pos (h : ValidArea maxArea) : 0 < numBuckets maxArea := by
  apply List.length_pos_iff.2
  intro hnil
  have := getLast?_bucketSizes h
  rw [hnil] at this
  cases this

theorem size_succ {i : Nat} (hi : i + 1 < numBuckets maxArea) : size maxArea (i + 1) = 2 * size maxArea i := by
  have h := (List.isChain_iff_getElem.1 (doubling_bucketSizes maxArea)) i hi
  unfold size
  rw [List.getD_eq_getElem _ _ hi, List.getD_eq_getElem _ _ (Nat.lt_of_succ_lt hi)]
  exact h

theorem size_last (h : ValidArea maxArea) : size maxArea (numBuckets maxArea - 1) = maxArea := by
  have hlast := getLast?_bucketSizes h
  rw [List.getLast?_eq_getElem?] at hlast
  unfold size
  rw [List.getD_eq_getElem?_getD, hlast]
  rfl

theorem size_mul_pow (h : ValidArea maxArea) {k i : Nat} (hk : i + k = numBuckets maxArea - 1) :
    size maxArea i * 2 ^ k = maxArea := by
  induction k generalizing i with
  | zero =>
      rw [pow_zero, Nat.mul_one, show i = numBuckets maxArea - 1 by omega, size_last h]
  | succ k ih =>
      have hn := numBuckets_pos h
      have hnext := ih (i := i + 1) (by omega)
      rw [size_succ (by omega)] at hnext
      calc size maxArea i * 2 ^ (k + 1) = 2 * size maxArea i * 2 ^ k := by ring
        _ = maxArea := hnext

theorem size_dvd (h : ValidArea maxArea) {i : Nat} (hi : i < numBuckets maxArea) : size maxArea i ∣ maxArea :=
  ⟨2 ^ (numBuckets maxArea - 1 - i), (size_mul_pow h (by omega)).symm⟩

theorem size_pos (h : ValidArea maxArea) {i : Nat} (hi : i < numBuckets maxArea) : 0 < size maxArea i :=
  Nat.pos_of_dvd_of_pos (size_dvd h hi) h.pos

theorem size_lt (h : ValidArea maxArea) {i j : Nat} (hij : i < j) (hj : j < numBuckets maxArea) :
    size maxArea i < size maxArea j := by
  induction j with
  | zero => omega
  | succ j ih =>
      have hpos := size_pos h (i := j) (by omega)
      rw [size_succ hj]
      rcases Nat.lt_or_eq_of_le (Nat.lt_succ_iff.1 hij) with hlt | rfl
      · have := ih hlt (by omega)
        omega
      · omega

/-! ## The bucket of an example -/

theorem findBucketIdx_lt {sizes : List Nat} (h : sizes ≠ []) (len : Nat) : findBucketIdx sizes len < sizes.length := by
  induction sizes with
  | nil => exact absurd rfl h
  | cons size sizes ih =>
      cases sizes with
      | nil => exact Nat.one_pos
      | cons next sizes =>
          rw [findBucketIdx, List.length_cons]
          split
          · exact Nat.succ_lt_succ (ih (List.cons_ne_nil _ _))
          · omega

theorem le_getD_findBucketIdx {sizes : List Nat} {last len : Nat} (h : sizes.getLast? = some last) (hlen : len ≤ last) :
    len ≤ sizes.getD (findBucketIdx sizes len) 0 := by
  induction sizes with
  | nil => cases h
  | cons size sizes ih =>
      cases sizes with
      | nil =>
          cases h
          exact hlen
      | cons next sizes =>
          rw [findBucketIdx]
          split
          · rw [List.getD_cons_succ]
            exact ih (by rwa [List.getLast?_cons_of_ne_nil (List.cons_ne_nil _ _)] at h)
          · rw [List.getD_cons_zero]
            omega

theorem bucketOf_lt (h : ValidArea maxArea) (x : Sample) : bucketOf maxArea x < numBuckets maxArea :=
  findBucketIdx_lt (List.length_pos_iff.1 (numBuckets_pos h)) _

theorem length_le_size (h : ValidArea maxArea) (x : Sample) :
    (x.fit maxArea).inputIds.length ≤ size maxArea (bucketOf maxArea x) :=
  le_getD_findBucketIdx (getLast?_bucketSizes h) (x.length_fit maxArea)

/-! ## Examples in the buckets -/

theorem perm_flatMap_update {α : Type} {l : List Nat} (hl : l.Nodup) {i : Nat} (hi : i ∈ l) (f : Nat → List α)
    (v : List α) : (l.flatMap (Function.update f i v) ++ f i).Perm (l.flatMap f ++ v) := by
  induction l with
  | nil => cases hi
  | cons j l ih =>
      rw [List.nodup_cons] at hl
      rw [List.flatMap_cons, List.flatMap_cons]
      by_cases hij : i = j
      · subst hij
        have hrest : l.flatMap (Function.update f i v) = l.flatMap f := by
          refine List.flatMap_congr fun k hk => Function.update_of_ne ?_ _ _
          rintro rfl
          exact hl.1 hk
        rw [Function.update_self, hrest, List.append_assoc]
        exact List.perm_append_comm.trans (List.Perm.append_right _ List.perm_append_comm)
      · rw [Function.update_of_ne (Ne.symm hij), List.append_assoc, List.append_assoc]
        exact (ih hl.2 ((List.mem_cons.1 hi).resolve_left hij)).append_left _

variable (maxArea) in
def items (s : StackDataset) : List Sample := (List.range (numBuckets maxArea)).flatMap s.buckets

theorem items_setBucket (s : StackDataset) {i : Nat} (hi : i < numBuckets maxArea) (l : List Sample) :
    (items maxArea (s.setBucket i l) ++ s.buckets i).Perm (items maxArea s ++ l) :=
  perm_flatMap_update List.nodup_range (List.mem_range.2 hi) _ _

theorem items_append (s : StackDataset) {i : Nat} (hi : i < numBuckets maxArea) (x : Sample) :
    (items maxArea (s.append i x)).Perm (items maxArea s ++ [x]) := by
  apply (List.perm_append_right_iff (s.buckets i)).1
  apply (items_setBucket s hi _).trans
  rw [List.append_assoc]
  exact List.perm_append_comm.append_left _

/-! ## Moving a bucket up -/

variable (maxArea) in
/-- What holds between two turns, but for the capacity and the timer of bucket `i`. -/
structure Open (s : StackDataset) (i : Nat) : Prop where
  lt : i < numBuckets maxArea
  fits : ∀ j < numBuckets maxArea, ∀ x ∈ s.buckets j, x.inputIds.length ≤ size maxArea j
  below : ∀ j < numBuckets maxArea, j ≠ i → size maxArea j * (s.buckets j).length < maxArea
  timers : ∀ j < numBuckets maxArea, j ≠ i → ((s.bucketTimers j).isSome ↔ s.buckets j ≠ [])
  atMost : size maxArea i * (s.buckets i).length ≤ maxArea

variable (maxArea) in
/-- What one move of the merging loop makes of the state. -/
def moveUp (s : StackDataset) (i : Nat) : StackDataset :=
  ((s.setBucket (i + 1) (s.buckets (i + 1) ++ s.buckets i)).setBucket i []).setTimer i none

@[simp] theorem moveUp_step (s : StackDataset) (i : Nat) : (s.moveUp i).step = s.step := rfl

@[simp] theorem moveUp_buckets_succ (s : StackDataset) (i : Nat) :
    (s.moveUp i).buckets (i + 1) = s.buckets (i + 1) ++ s.buckets i := by simp [moveUp]

@[simp] theorem moveUp_buckets_self (s : StackDataset) (i : Nat) : (s.moveUp i).buckets i = [] := by simp [moveUp]

@[simp] theorem moveUp_buckets_of_ne (s : StackDataset) {i j : Nat} (h : j ≠ i) (h' : j ≠ i + 1) :
    (s.moveUp i).buckets j = s.buckets j := by simp [moveUp, h, h']

@[simp] theorem moveUp_bucketTimers_self (s : StackDataset) (i : Nat) : (s.moveUp i).bucketTimers i = none := by
  simp [moveUp]

@[simp] theorem moveUp_bucketTimers_of_ne (s : StackDataset) {i j : Nat} (h : j ≠ i) :
    (s.moveUp i).bucketTimers j = s.bucketTimers j := by simp [moveUp, h]

theorem items_moveUp (s : StackDataset) {i : Nat} (hi : i + 1 < numBuckets maxArea) :
    (items maxArea (s.moveUp i)).Perm (items maxArea s) := by
  have h₁ := items_setBucket s hi (s.buckets (i + 1) ++ s.buckets i)
  have h₂ := items_setBucket (s.setBucket (i + 1) (s.buckets (i + 1) ++ s.buckets i)) (Nat.lt_of_succ_lt hi) []
  have hsame : (s.setBucket (i + 1) (s.buckets (i + 1) ++ s.buckets i)).buckets i = s.buckets i :=
    setBucket_buckets_of_ne s (by omega) _
  rw [hsame, List.append_nil] at h₂
  apply (List.perm_append_right_iff (s.buckets i ++ s.buckets (i + 1))).1
  calc items maxArea (s.moveUp i) ++ (s.buckets i ++ s.buckets (i + 1))
      = items maxArea (s.moveUp i) ++ s.buckets i ++ s.buckets (i + 1) := (List.append_assoc ..).symm
    List.Perm _ (items maxArea (s.setBucket (i + 1) (s.buckets (i + 1) ++ s.buckets i)) ++ s.buckets (i + 1)) :=
      h₂.append_right _
    List.Perm _ (items maxArea s ++ (s.buckets (i + 1) ++ s.buckets i)) := h₁
    List.Perm _ (items maxArea s ++ (s.buckets i ++ s.buckets (i + 1))) := List.perm_append_comm.append_left _

theorem Open.moveUp {s : StackDataset} {i : Nat} (h : Open maxArea s i) (hi : i + 1 < numBuckets maxArea)
    (hroom : size maxArea (i + 1) * ((s.buckets i).length + (s.buckets (i + 1)).length) < maxArea) :
    Open maxArea (s.moveUp i) (i + 1) where
  lt := hi
  fits := by
    intro j hj x hx
    by_cases hji : j = i
    · rw [hji, moveUp_buckets_self] at hx
      cases hx
    · by_cases hji' : j = i + 1
      · subst hji'
        rw [moveUp_buckets_succ] at hx
        rcases List.mem_append.1 hx with hx | hx
        · exact h.fits _ hj x hx
        · have := h.fits i h.lt x hx
          rw [size_succ hi]
          omega
      · rw [moveUp_buckets_of_ne _ hji hji'] at hx
        exact h.fits j hj x hx
  below := by
    intro j hj hne
    by_cases hji : j = i
    · rw [hji, moveUp_buckets_self, List.length_nil, Nat.mul_zero]
      omega
    · rw [moveUp_buckets_of_ne _ hji hne]
      exact h.below j hj hji
  timers := by
    intro j hj hne
    by_cases hji : j = i
    · simp [hji]
    · rw [moveUp_buckets_of_ne _ hji hne, moveUp_bucketTimers_of_ne _ hji]
      exact h.timers j hj hji
  atMost := by
    rw [moveUp_buckets_succ, List.length_append, Nat.add_comm (s.buckets (i + 1)).length]
    exact hroom.le

theorem mergeUp_succ (k : Nat) (s : StackDataset) (i : Nat) : mergeUp maxArea (k + 1) s i =
    if size maxArea (i + 1) * ((s.buckets i).length + (s.buckets (i + 1)).length) < maxArea then
      mergeUp maxArea k (s.moveUp i) (i + 1)
    else (s, i) := rfl

variable (maxArea) in
/-- The merging loop moves up, and what it started from stays in the bucket it ends at. -/
theorem mergeUp_suffix (k : Nat) (s : StackDataset) (i : Nat) : i ≤ (mergeUp maxArea k s i).2 ∧
    s.buckets i <:+ (mergeUp maxArea k s i).1.buckets (mergeUp maxArea k s i).2 := by
  induction k generalizing s i with
  | zero => exact ⟨le_rfl, List.suffix_refl _⟩
  | succ k ih =>
      rw [mergeUp_succ]
      split
      · obtain ⟨hle, hsuffix⟩ := ih (s.moveUp i) (i + 1)
        rw [moveUp_buckets_succ] at hsuffix
        exact ⟨by omega, (List.suffix_append _ _).trans hsuffix⟩
      · exact ⟨le_rfl, List.suffix_refl _⟩

/-- **The merging loop.** It keeps all examples. -/
theorem Open.mergeUp {k : Nat} {s : StackDataset} {i : Nat} (h : Open maxArea s i) (hk : i + k = numBuckets maxArea - 1) :
    Open maxArea (StackDataset.mergeUp maxArea k s i).1 (StackDataset.mergeUp maxArea k s i).2 ∧
      (items maxArea (StackDataset.mergeUp maxArea k s i).1).Perm (items maxArea s) ∧
      (StackDataset.mergeUp maxArea k s i).1.step = s.step := by
  induction k generalizing s i with
  | zero => exact ⟨h, .refl _, rfl⟩
  | succ k ih =>
      rw [mergeUp_succ]
      split
      · rename_i hroom
        have hi : i + 1 < numBuckets maxArea := by omega
        obtain ⟨hopen, hperm, hstep⟩ := ih (h.moveUp hi hroom) (by omega)
        exact ⟨hopen, hperm.trans (items_moveUp s hi), hstep⟩
      · exact ⟨h, .refl _, rfl⟩

/-! ## Filling a bucket -/

theorem mul_succ_le_of_dvd {width area len : Nat} (hdvd : width ∣ area) (hlt : width * len < area) :
    width * (len + 1) ≤ area := by
  obtain ⟨c, rfl⟩ := hdvd
  exact Nat.mul_le_mul_left _ (Nat.lt_of_mul_lt_mul_left hlt)

/-- **The filling loop.** It appends dummies up to the area. -/
theorem fill_spec {width fuel : Nat} {l : List Sample} (hpos : 0 < width) (hdvd : width ∣ maxArea)
    (hle : width * l.length ≤ maxArea) (hfuel : maxArea ≤ width * l.length + fuel) :
    ∃ d, fill maxArea width fuel l = l ++ List.replicate d Sample.dummy ∧ width * (l.length + d) = maxArea := by
  induction fuel generalizing l with
  | zero => exact ⟨0, by simp [fill], by rw [Nat.add_zero]; omega⟩
  | succ fuel ih =>
      rw [fill]
      split
      · rename_i hlt
        have hnext := mul_succ_le_of_dvd hdvd hlt
        have hstep : width * (l.length + 1) = width * l.length + width := Nat.mul_succ ..
        obtain ⟨d, hfill, hd⟩ := ih (l := l ++ [Sample.dummy]) (by simpa using hnext) (by simp; omega)
        refine ⟨d + 1, ?_, ?_⟩
        · rw [hfill, List.append_assoc, List.replicate_succ, List.singleton_append]
        · rw [← hd, List.length_append, List.length_singleton]
          congr 1
          omega
      · exact ⟨0, by simp, by rw [Nat.add_zero]; omega⟩

end StackDataset
end AuroraRl.Sft
