import AuroraRl.Lib.Python
import Mathlib.Data.List.Sort
import Mathlib.Algebra.Order.Group.Int

/-!
# Indexing with index tensors

* `indexItem`, `gather` : `t[indices]`, in which a negative index counts from the end;
* `argsort`, `map_argsort` : the positions of a list in the order of its elements;
* `scatter`, `getElem?_scatter` : `t[indices] = values`;
* `Numbers` : a list whose elements that are not negative are `0`, …, `n - 1`, each once.
-/

namespace Indexing

variable {α : Type}

def indexItem (l : List α) (i : Int) : Except PyException α :=
  match l[(if i < 0 then i + l.length else i).toNat]? with
  | some a => if -(l.length : Int) ≤ i then .ok a else .error ⟨.indexError, "index out of bounds"⟩
  | none => .error ⟨.indexError, "index out of bounds"⟩

theorem indexItem_natCast {l : List α} {i : Nat} {a : α} (h : l[i]? = some a) : indexItem l i = .ok a := by
  have hi : ¬ (i : Int) < 0 := by omega
  simp only [indexItem, hi, if_false, Int.toNat_natCast, h]
  rw [if_pos (by omega)]

def gather (l : List α) (indices : List Int) : Except PyException (List α) := indices.mapM (indexItem l)

theorem gather_natCast {l : List α} {indices : List Nat} {as : List α}
    (h : List.Forall₂ (fun i a => l[i]? = some a) indices as) : gather l (indices.map (↑)) = .ok as := by
  unfold gather
  rw [mapM_eq_ok_iff, List.forall₂_map_left_iff]
  exact h.imp fun _ _ hi => indexItem_natCast hi

/-- Indices in range have a result, with one element for each. -/
theorem exists_gather {l : List α} {indices : List Nat} (h : ∀ i ∈ indices, i < l.length) :
    ∃ as, gather l (indices.map (↑)) = .ok as ∧ as.length = indices.length ∧
      ∀ k i : Nat, indices[k]? = some i → as[k]? = l[i]? := by
  have hall : List.Forall₂ (fun i a => l[i]? = some a) indices (indices.pmap (fun i hi => l[i]) h) := by
    induction indices with
    | nil => exact .nil
    | cons i indices ih =>
        rw [List.forall_mem_cons] at h
        exact .cons (List.getElem?_eq_getElem h.1) (ih h.2)
  refine ⟨_, gather_natCast hall, List.length_pmap .., fun k i hk => ?_⟩
  obtain ⟨hlt, rfl⟩ := List.getElem?_eq_some_iff.1 hk
  simp [hlt, List.getElem?_eq_getElem (h _ (List.getElem_mem hlt))]

/-! ## Sorting -/

def argsort (l : List Int) : List Nat := (List.range l.length).insertionSort fun i j => l.getD i 0 ≤ l.getD j 0

theorem mem_argsort {l : List Int} {i : Nat} : i ∈ argsort l ↔ i < l.length := by
  unfold argsort
  rw [List.mem_insertionSort, List.mem_range]

/-- The elements in the order of their positions are sorted. -/
theorem map_argsort (l : List Int) : (argsort l).map (l.getD · 0) = l.insertionSort (· ≤ ·) := by
  unfold argsort
  rw [List.map_insertionSort _ (· ≤ ·) (l.getD · 0) _ fun _ _ _ _ => Iff.rfl]
  congr 1
  apply List.ext_getElem
  · simp
  · intro i h₁ h₂
    simp [List.getElem?_eq_getElem h₂]

/-- The elements of a list that are not negative are `0`, …, `n - 1`, each once. -/
def Numbers (n : Nat) (l : List Int) : Prop := (l.filter (0 ≤ ·)).Perm ((List.range n).map (↑))

instance (n : Nat) (l : List Int) : Decidable (Numbers n l) := inferInstanceAs (Decidable (List.Perm _ _))

theorem pairwise_range (n : Nat) : ((List.range n).map ((↑) : Nat → Int)).Pairwise (· ≤ ·) := by
  rw [List.pairwise_map]
  exact List.pairwise_lt_range.imp fun h => by omega

theorem Numbers.insertionSort {n : Nat} {l : List Int} (h : Numbers n l) :
    (l.filter (0 ≤ ·)).insertionSort (· ≤ ·) = (List.range n).map (↑) :=
  ((List.perm_insertionSort _ _).trans h).eq_of_pairwise' (List.pairwise_insertionSort _ _) (pairwise_range n)

theorem Numbers.nodup {n : Nat} {l : List Int} (h : Numbers n l) : (l.filter (0 ≤ ·)).Nodup :=
  (List.Perm.nodup_iff h).2 (List.Nodup.map (fun i j hij => by omega) List.nodup_range)

theorem Numbers.mem_iff {n : Nat} {l : List Int} (h : Numbers n l) {i : Nat} : (i : Int) ∈ l ↔ i < n := by
  have hmem : (i : Int) ∈ l.filter (0 ≤ ·) ↔ (i : Int) ∈ (List.range n).map (↑) := List.Perm.mem_iff h
  simp only [List.mem_filter, List.mem_map, List.mem_range] at hmem
  constructor
  · intro hi
    obtain ⟨j, hj, hij⟩ := hmem.1 ⟨hi, by simp⟩
    omega
  · intro hi
    exact (hmem.2 ⟨i, hi, rfl⟩).1

/-! ## Scattering -/

/-- `t[indices] = values`, in the order of the indices. -/
def scatter (l : List α) (entries : List (Nat × α)) : List α := entries.foldl (fun l e => l.set e.1 e.2) l

theorem scatter_cons (l : List α) (e : Nat × α) (entries : List (Nat × α)) :
    scatter l (e :: entries) = scatter (l.set e.1 e.2) entries := rfl

@[simp] theorem length_scatter (l : List α) (entries : List (Nat × α)) : (scatter l entries).length = l.length := by
  induction entries generalizing l with
  | nil => rfl
  | cons e entries ih => rw [scatter_cons, ih, List.length_set]

theorem getElem?_scatter_of_not_mem {l : List α} {entries : List (Nat × α)} {i : Nat}
    (h : i ∉ entries.map Prod.fst) : (scatter l entries)[i]? = l[i]? := by
  induction entries generalizing l with
  | nil => rfl
  | cons e entries ih =>
      rw [List.map_cons, List.mem_cons, not_or] at h
      rw [scatter_cons, ih h.2, List.getElem?_set_ne (Ne.symm h.1)]

theorem getElem?_scatter {l : List α} {entries : List (Nat × α)} {i : Nat} {a : α}
    (hnodup : (entries.map Prod.fst).Nodup) (hi : i < l.length) (h : (i, a) ∈ entries) :
    (scatter l entries)[i]? = some a := by
  induction entries generalizing l with
  | nil => simp at h
  | cons e entries ih =>
      rw [List.map_cons, List.nodup_cons] at hnodup
      rw [scatter_cons]
      rcases List.mem_cons.1 h with rfl | h
      · rw [getElem?_scatter_of_not_mem hnodup.1, List.getElem?_set_self hi]
      · exact ih hnodup.2 (by simpa using hi) h

end Indexing
