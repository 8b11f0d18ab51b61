import Mathlib

/-!
# The largest elements of a list

* `IsTopK` : positions of `k` largest elements, whichever of equal elements they take;
* `IsTopK.map_perm` : every such selection has the same elements;
* `exists_isTopK_mem` : an element that fewer than `k` exceed is in some selection;
* `TopK` : a function that returns selections; `TopK.sort` : one that sorts;
* `TopK.update` : one that returns a given selection for a given list.
-/

variable {R : Type} [LinearOrder R] [Zero R]

/-- `selected` are the positions of `k` largest elements. -/
structure IsTopK (k : Nat) (xs : List R) (selected : List Nat) : Prop where
  nodup : selected.Nodup
  length_eq : selected.length = k
  lt_length : ∀ i ∈ selected, i < xs.length
  le_of_not_mem : ∀ i ∈ selected, ∀ j < xs.length, j ∉ selected → xs.getD j 0 ≤ xs.getD i 0

/-- The positions of a list from the largest element to the smallest. -/
def descending (xs : List R) : List Nat :=
  (List.range xs.length).insertionSort fun i j => xs.getD j 0 ≤ xs.getD i 0

theorem descending_perm (xs : List R) : (descending xs).Perm (List.range xs.length) := List.perm_insertionSort _ _

theorem descending_pairwise (xs : List R) : (descending xs).Pairwise fun i j => xs.getD j 0 ≤ xs.getD i 0 := by
  have htotal : Std.Total fun i j => xs.getD j 0 ≤ xs.getD i 0 := ⟨fun i j => le_total _ _⟩
  have htrans : IsTrans Nat fun i j => xs.getD j 0 ≤ xs.getD i 0 := ⟨fun _ _ _ hij hjk => hjk.trans hij⟩
  exact List.pairwise_insertionSort _ _

theorem map_descending (xs : List R) : (descending xs).map (xs.getD · 0) = xs.insertionSort (· ≥ ·) := by
  unfold descending
  rw [List.map_insertionSort _ (· ≥ ·) (xs.getD · 0) _ fun _ _ _ _ => Iff.rfl]
  congr 1
  apply List.ext_getElem
  · simp
  · intro i h₁ h₂
    simp [List.getElem?_eq_getElem h₂]

/-- The first positions of the descending order. -/
theorem isTopK_take {k : Nat} {xs : List R} (hk : k ≤ xs.length) : IsTopK k xs ((descending xs).take k) := by
  have hperm := descending_perm xs
  have hpairwise := descending_pairwise xs
  rw [← List.take_append_drop k (descending xs)] at hperm hpairwise
  refine ⟨?_, ?_, fun i hi => ?_, fun i hi j hj hnot => ?_⟩
  · exact (List.nodup_append.1 (hperm.nodup_iff.2 List.nodup_range)).1
  · rw [List.length_take, (descending_perm xs).length_eq, List.length_range]
    omega
  · simpa using hperm.mem_iff.1 (List.mem_append_left _ hi)
  · have hmem := hperm.mem_iff.2 (List.mem_range.2 hj)
    exact (List.pairwise_append.1 hpairwise).2.2 i hi j ((List.mem_append.1 hmem).resolve_left hnot)

/-- A selection with a position exchanged for another of the same element. -/
theorem IsTopK.exchange {k : Nat} {xs : List R} {selected : List Nat} (h : IsTopK k xs selected) {i j : Nat}
    (hi : i ∈ selected) (hj : j ∉ selected) (hlt : j < xs.length) (heq : xs.getD j 0 = xs.getD i 0) :
    IsTopK k xs (j :: selected.erase i) := by
  have hmem : ∀ a, a ∈ selected.erase i ↔ a ≠ i ∧ a ∈ selected := fun a => h.nodup.mem_erase_iff
  refine ⟨?_, ?_, fun a ha => ?_, fun a ha b hb hnot => ?_⟩
  · rw [List.nodup_cons, hmem]
    exact ⟨fun hj' => hj hj'.2, h.nodup.erase i⟩
  · rw [List.length_cons, List.length_erase_of_mem hi, ← h.length_eq]
    have := List.length_pos_of_mem hi
    omega
  · rcases List.mem_cons.1 ha with rfl | ha
    · exact hlt
    · exact h.lt_length a ((hmem a).1 ha).2
  · rw [List.mem_cons, hmem, not_or, not_and] at hnot
    have hge : ∀ c ∈ selected, xs.getD b 0 ≤ xs.getD c 0 := by
      intro c hc
      by_cases hbi : b = i
      · rw [hbi, ← heq]
        exact h.le_of_not_mem c hc j hlt hj
      · exact h.le_of_not_mem c hc b hb (hnot.2 hbi)
    rcases List.mem_cons.1 ha with rfl | ha
    · rw [heq]
      exact hge i hi
    · exact hge a ((hmem a).1 ha).2

/-- Two selections have the same elements. -/
theorem IsTopK.map_perm {k : Nat} {xs : List R} {selected selected' : List Nat} (h : IsTopK k xs selected)
    (h' : IsTopK k xs selected') : (selected.map (xs.getD · 0)).Perm (selected'.map (xs.getD · 0)) := by
  have hcommon : (selected.filter (· ∈ selected')).Perm (selected'.filter (· ∈ selected)) := by
    rw [List.perm_ext_iff_of_nodup (h.nodup.filter _) (h'.nodup.filter _)]
    intro i
    simp [and_comm]
  have hsplit := List.filter_append_perm (· ∈ selected') selected
  have hsplit' := List.filter_append_perm (· ∈ selected) selected'
  have hlength : (selected.filter fun i => !decide (i ∈ selected')).length =
      (selected'.filter fun i => !decide (i ∈ selected)).length := by
    have h₁ := hsplit.length_eq
    have h₂ := hsplit'.length_eq
    have h₃ := hcommon.length_eq
    rw [List.length_append, h.length_eq] at h₁
    rw [List.length_append, h'.length_eq] at h₂
    omega
  -- the elements that only one of the two has are equal to each other
  have hequal : ∀ i ∈ selected.filter fun i => !decide (i ∈ selected'),
      ∀ j ∈ selected'.filter fun i => !decide (i ∈ selected), xs.getD i 0 = xs.getD j 0 := by
    intro i hi j hj
    simp only [List.mem_filter, Bool.not_eq_true', decide_eq_false_iff_not] at hi hj
    apply le_antisymm
    · exact h'.le_of_not_mem j hj.1 i (h.lt_length i hi.1) hi.2
    · exact h.le_of_not_mem i hi.1 j (h'.lt_length j hj.1) hj.2
  have hrest : (selected.filter fun i => !decide (i ∈ selected')).map (xs.getD · 0) =
      (selected'.filter fun i => !decide (i ∈ selected)).map (xs.getD · 0) := by
    apply List.ext_getElem
    · simpa using hlength
    · intro n h₁ h₂
      rw [List.getElem_map, List.getElem_map]
      exact hequal _ (List.getElem_mem _) _ (List.getElem_mem _)
  have hparts := (hcommon.map (xs.getD · 0)).append (List.Perm.of_eq hrest)
  rw [← List.map_append, ← List.map_append] at hparts
  exact (hsplit.symm.map _).trans (hparts.trans (hsplit'.map _))

/-- The elements of a selection are the first in descending order. -/
theorem IsTopK.map_perm_take {k : Nat} {xs : List R} {selected : List Nat} (h : IsTopK k xs selected)
    (hk : k ≤ xs.length) : (selected.map (xs.getD · 0)).Perm ((xs.insertionSort (· ≥ ·)).take k) := by
  rw [← map_descending, ← List.map_take]
  exact h.map_perm (isTopK_take hk)

/-- An element that fewer than `k` elements exceed is in some selection. -/
theorem exists_isTopK_mem {k : Nat} {xs : List R} {i : Nat} (hk : k ≤ xs.length) (hi : i < xs.length)
    (hcount : (List.range xs.length).countP (fun j => xs.getD i 0 < xs.getD j 0) < k) :
    ∃ selected, IsTopK k xs selected ∧ i ∈ selected := by
  have h := isTopK_take hk
  by_cases hmem : i ∈ (descending xs).take k
  · exact ⟨_, h, hmem⟩
  · obtain ⟨j, hj, hle⟩ : ∃ j ∈ (descending xs).take k, ¬ xs.getD i 0 < xs.getD j 0 := by
      by_contra hall
      push Not at hall
      have hsub : ((descending xs).take k).Subperm
          ((List.range xs.length).filter fun j => xs.getD i 0 < xs.getD j 0) := by
        apply List.subperm_of_subset h.nodup
        intro j hj
        exact List.mem_filter.2 ⟨List.mem_range.2 (h.lt_length j hj), decide_eq_true (hall j hj)⟩
      have hle := hsub.length_le
      rw [h.length_eq, ← List.countP_eq_length_filter] at hle
      omega
    refine ⟨_, h.exchange hj hmem hi ?_, List.mem_cons_self⟩
    exact le_antisymm (h.le_of_not_mem j hj i hi hmem) (not_lt.1 hle)

/-! ## Functions that select -/

/-- A function that returns the positions of `k` largest elements. -/
structure TopK (R : Type) [LinearOrder R] [Zero R] where
  indices : Nat → List R → List Nat
  isTopK : ∀ k xs, k ≤ xs.length → IsTopK k xs (indices k xs)

namespace TopK

/-- The selection by sorting. -/
def sort : TopK R := ⟨fun k xs => (descending xs).take k, fun _ _ => isTopK_take⟩

/-- A function that returns `selected` for `k` and `xs`. -/
def update (topk : TopK R) (k : Nat) (xs : List R) (selected : List Nat) (h : IsTopK k xs selected) : TopK R where
  indices k' xs' := if k' = k ∧ xs' = xs then selected else topk.indices k' xs'
  isTopK k' xs' hk := by
    split
    · next heq => exact heq.1 ▸ heq.2 ▸ h
    · exact topk.isTopK k' xs' hk

theorem update_self (topk : TopK R) {k : Nat} {xs : List R} {selected : List Nat} (h : IsTopK k xs selected) :
    (topk.update k xs selected h).indices k xs = selected := if_pos ⟨rfl, rfl⟩

theorem update_of_ne (topk : TopK R) {k k' : Nat} {xs xs' : List R} {selected : List Nat} (h : IsTopK k xs selected)
    (hne : xs' ≠ xs) : (topk.update k xs selected h).indices k' xs' = topk.indices k' xs' :=
  if_neg fun heq => hne heq.2

end TopK
