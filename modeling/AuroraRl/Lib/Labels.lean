import AuroraRl.Lib.Segments
import Mathlib

/-!
# Labelled segments

* `labelled` : every position of a segment with the segment's label;
* `window_labelled` : the segments a window of the positions has;
* `labelled_count` : a sorted list of labels is its counts, in the order of the labels.
-/

namespace Segments

variable {α β : Type*}

/-- Each label as often as its segment has positions. -/
def labelled : List α → List Nat → List α
  | l :: labels, n :: lengths => List.replicate n l ++ labelled labels lengths
  | _, _ => []

theorem nil_labelled (lengths : List Nat) : labelled ([] : List α) lengths = [] := rfl

theorem labelled_nil (labels : List α) : labelled labels [] = [] := by
  cases labels <;> rfl

theorem labelled_cons (l : α) (labels : List α) (n : Nat) (lengths : List Nat) :
    labelled (l :: labels) (n :: lengths) = List.replicate n l ++ labelled labels lengths := rfl

theorem labelled_length {labels : List α} {lengths : List Nat} (h : labels.length = lengths.length) :
    (labelled labels lengths).length = lengths.sum := by
  induction labels generalizing lengths with
  | nil =>
      have hnil : lengths = [] := by simpa using h.symm
      simp [hnil, nil_labelled]
  | cons l labels ih =>
      cases lengths with
      | nil => simp at h
      | cons n lengths => simp [labelled_cons, ih (by simpa using h)]

theorem labelled_map (f : α → β) (labels : List α) (lengths : List Nat) :
    labelled (labels.map f) lengths = (labelled labels lengths).map f := by
  induction labels generalizing lengths with
  | nil => simp [nil_labelled]
  | cons l labels ih => cases lengths <;> simp [labelled_nil, labelled_cons, ih]

theorem labelled_append {labels labels' : List α} {lengths lengths' : List Nat} (h : labels.length = lengths.length) :
    labelled (labels ++ labels') (lengths ++ lengths') = labelled labels lengths ++ labelled labels' lengths' := by
  induction labels generalizing lengths with
  | nil =>
      have hnil : lengths = [] := by simpa using h.symm
      simp [hnil, nil_labelled]
  | cons l labels ih =>
      cases lengths with
      | nil => simp at h
      | cons n lengths => simp [labelled_cons, ih (by simpa using h)]

theorem mem_labelled {labels : List α} {lengths : List Nat} {a : α} (h : a ∈ labelled labels lengths) : a ∈ labels := by
  induction labels generalizing lengths with
  | nil => simp [nil_labelled] at h
  | cons l labels ih =>
      cases lengths with
      | nil => simp [labelled_nil] at h
      | cons n lengths =>
          rcases List.mem_append.1 h with h | h
          · rw [List.eq_of_mem_replicate h]
            exact List.mem_cons_self
          · exact List.mem_cons_of_mem _ (ih h)

/-! ## Windows -/

@[simp] theorem diffs_length (start : Nat) (es : List Nat) : (diffs start es).length = es.length := by
  induction es generalizing start with
  | nil => rfl
  | cons e es ih => simp [diffs, ih]

/-- The labels from `lo` on, when the segments start at `start`. -/
theorem window_labelled_from (labels : List α) (lengths : List Nat) (start lo size : Nat) :
    ((labelled labels lengths).drop (lo - start)).take (size - (start - lo)) =
      labelled labels (diffs (min (start - lo) size) ((ends start lengths).map fun e => min (e - lo) size)) := by
  induction labels generalizing lengths start with
  | nil => simp [nil_labelled]
  | cons l labels ih =>
      cases lengths with
      | nil => simp [labelled_nil, ends, diffs]
      | cons n lengths =>
          have hdrop : lo - start - n = lo - (start + n) := by omega
          have htake : size - (start - lo) - (n - (lo - start)) = size - (start + n - lo) := by omega
          have hcount : min (size - (start - lo)) (n - (lo - start)) = min (start + n - lo) size -
              min (start - lo) size := by omega
          simp only [labelled_cons, ends, List.map_cons, diffs]
          rw [List.drop_append, List.take_append, List.drop_replicate, List.take_replicate, List.length_replicate,
            List.length_replicate, hdrop, htake, hcount, ih]

/-- A window of the positions has of every segment what its ends, clipped to the window, are apart. -/
theorem window_labelled (labels : List α) (lengths : List Nat) (lo size : Nat) :
    ((labelled labels lengths).drop lo).take size =
      labelled labels (diffs 0 ((ends 0 lengths).map fun e => min (e - lo) size)) := by
  simpa using window_labelled_from labels lengths 0 lo size

/-! ## Counts -/

theorem labelled_range_succ (n : Nat) (f : Nat → Nat) :
    labelled (List.range (n + 1)) ((List.range (n + 1)).map f) =
      labelled (List.range n) ((List.range n).map f) ++ List.replicate (f n) n := by
  rw [List.range_succ, List.map_append, labelled_append (by simp)]
  simp [nil_labelled, labelled_cons]

theorem mem_labelled_range {n : Nat} {f : Nat → Nat} {a : Nat} (h : a ∈ labelled (List.range n) ((List.range n).map f)) :
    a < n := by
  induction n with
  | zero => simp [nil_labelled] at h
  | succ n ih =>
      rw [labelled_range_succ] at h
      rcases List.mem_append.1 h with h | h
      · exact (ih h).trans (Nat.lt_succ_self n)
      · rw [List.eq_of_mem_replicate h]
        exact Nat.lt_succ_self n

theorem labelled_range_sorted (n : Nat) (f : Nat → Nat) :
    (labelled (List.range n) ((List.range n).map f)).Pairwise (· ≤ ·) := by
  induction n with
  | zero => simp [nil_labelled]
  | succ n ih =>
      rw [labelled_range_succ]
      refine List.pairwise_append.2 ⟨ih, ?_, fun a ha b hb => ?_⟩
      · simp [List.pairwise_replicate]
      · rw [List.eq_of_mem_replicate hb]
        exact (mem_labelled_range ha).le

theorem count_labelled_range (n : Nat) (f : Nat → Nat) (a : Nat) :
    (labelled (List.range n) ((List.range n).map f)).count a = if a < n then f a else 0 := by
  induction n with
  | zero => simp [nil_labelled]
  | succ n ih =>
      rw [labelled_range_succ, List.count_append, ih, List.count_replicate]
      rcases Nat.lt_trichotomy a n with h | rfl | h
      · simp [h, h.ne', h.trans (Nat.lt_succ_self n)]
      · simp
      · simp [h.ne, Nat.not_lt.2 h.le, Nat.not_lt.2 (Nat.succ_le_of_lt h)]

/-- A sorted list of labels is its counts, in order. -/
theorem labelled_count {l : List Nat} {n : Nat} (hsorted : l.Pairwise (· ≤ ·)) (hlt : ∀ a ∈ l, a < n) :
    labelled (List.range n) ((List.range n).map l.count) = l := by
  have hperm : (labelled (List.range n) ((List.range n).map l.count)).Perm l := by
    apply List.perm_iff_count.2
    intro a
    rw [count_labelled_range]
    split_ifs with h
    · rfl
    · exact (List.count_eq_zero_of_not_mem fun ha => h (hlt a ha)).symm
  exact hperm.eq_of_pairwise (fun a b _ _ h h' => Nat.le_antisymm h h') (labelled_range_sorted n _) hsorted

/-- The lengths of labelled segments are the counts of the labels. -/
theorem count_labelled {lengths : List Nat} {a : Nat} (h : a < lengths.length) :
    lengths[a]? = some ((labelled (List.range lengths.length) lengths).count a) := by
  have hmap : (List.range lengths.length).map (fun i => lengths.getD i 0) = lengths := by
    apply List.ext_getElem
    · simp
    · intro i _ hi
      simp [List.getElem?_eq_getElem hi]
  have hcount := count_labelled_range lengths.length (fun i => lengths.getD i 0) a
  rw [hmap, if_pos h] at hcount
  rw [hcount, List.getElem?_eq_getElem h]
  simp [h]

theorem set_count {l : List Nat} {n i k m : Nat} (h : ((List.range n).map l.count)[i]? = some k) :
    ((List.range n).map l.count).set i (k + m) = (List.range n).map (l ++ List.replicate m i).count := by
  obtain ⟨hi, rfl⟩ := List.getElem?_eq_some_iff.1 h
  apply List.ext_getElem
  · simp
  · intro j _ _
    rw [List.getElem_set]
    split_ifs with hij
    · subst hij
      simp
    · simp [List.count_replicate, hij]

end Segments
