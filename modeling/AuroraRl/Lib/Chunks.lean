import Mathlib.Algebra.BigOperators.Fin
import Mathlib.Tactic.Ring

/-!
# Vectors in chunks

* `starts`, `foldl_starts` : the loop over `range(0, n, width)`, with its invariant rule;
* `slice`, `assign`, `addTo` : a part of a vector, a part replaced, a part increased;
* `prefixSum`, `prefixSum_slice` : the sum of the first entries, and what one chunk adds to it.
-/

namespace Chunks

variable {α σ M : Type} {n lo hi : Nat}

/-! ## The loop -/

def starts (n width : Nat) : List Nat := (List.range ((n + width - 1) / width)).map (· * width)

theorem mul_lt_of_lt_starts {n width k : Nat} (hwidth : 0 < width) (hk : k < (n + width - 1) / width) : k * width < n := by
  have hle : (k + 1) * width ≤ n + width - 1 := (Nat.le_div_iff_mul_le hwidth).1 hk
  rw [Nat.add_mul, Nat.one_mul] at hle
  omega

theorem le_mul_starts (n : Nat) {width : Nat} (hwidth : 0 < width) : n ≤ (n + width - 1) / width * width := by
  have hlt := Nat.lt_div_mul_add (a := n + width - 1) hwidth
  omega

/-- The invariant rule of the loop: what each chunk carries from its start to its end holds at the end. -/
theorem foldl_starts {n width : Nat} (hwidth : 0 < width) (step : σ → Nat → σ) (Inv : Nat → σ → Prop) (s : σ)
    (hinit : Inv 0 s) (hstep : ∀ start s, start < n → Inv start s → Inv (min (start + width) n) (step s start)) :
    Inv n ((starts n width).foldl step s) := by
  have hrun : ∀ k ≤ (n + width - 1) / width, Inv (min (k * width) n) (((List.range k).map (· * width)).foldl step s) := by
    intro k
    induction k with
    | zero =>
        intro _
        simpa using hinit
    | succ k ih =>
        intro hk
        have hlt := mul_lt_of_lt_starts hwidth hk
        have hbefore := ih (by omega)
        rw [Nat.min_eq_left hlt.le] at hbefore
        rw [List.range_succ, List.map_append, List.foldl_append, Nat.add_mul, Nat.one_mul]
        exact hstep _ _ hlt hbefore
  have hend := hrun _ le_rfl
  rwa [Nat.min_eq_right (le_mul_starts n hwidth)] at hend

/-! ## Parts of a vector -/

theorem lt_of_slice (h : hi ≤ n) (i : Fin (hi - lo)) : lo + i < n := by omega

theorem sub_lt_of_mem {i : Nat} (h : lo ≤ i ∧ i < hi) : i - lo < hi - lo := by omega

def slice (lo hi : Nat) (h : hi ≤ n) (x : Fin n → α) : Fin (hi - lo) → α := fun i => x ⟨lo + i, lt_of_slice h i⟩

def assign (lo hi : Nat) (block : Fin (hi - lo) → α) (x : Fin n → α) : Fin n → α := fun i =>
  if h : lo ≤ i.val ∧ i.val < hi then block ⟨i - lo, sub_lt_of_mem h⟩ else x i

def addTo [Add α] (lo hi : Nat) (block : Fin (hi - lo) → α) (x : Fin n → α) : Fin n → α := fun i =>
  if h : lo ≤ i.val ∧ i.val < hi then x i + block ⟨i - lo, sub_lt_of_mem h⟩ else x i

theorem slice_sub (h : hi ≤ n) (x : Fin n → α) {i : Fin n} (hmem : lo ≤ i.val ∧ i.val < hi) :
    slice lo hi h x ⟨i - lo, sub_lt_of_mem hmem⟩ = x i := by
  unfold slice
  congr 1
  apply Fin.ext
  show lo + (i.val - lo) = i.val
  omega

theorem assign_of_mem {block : Fin (hi - lo) → α} {x : Fin n → α} {i : Fin n} (h : lo ≤ i.val ∧ i.val < hi) :
    assign lo hi block x i = block ⟨i - lo, sub_lt_of_mem h⟩ := dif_pos h

theorem assign_of_not_mem {block : Fin (hi - lo) → α} {x : Fin n → α} {i : Fin n} (h : ¬ (lo ≤ i.val ∧ i.val < hi)) :
    assign lo hi block x i = x i := dif_neg h

/-- Writing a part of `y` over `x` makes that part `y`'s. -/
theorem assign_slice (h : hi ≤ n) (x y : Fin n → α) {i : Fin n} (hmem : lo ≤ i.val ∧ i.val < hi) :
    assign lo hi (slice lo hi h y) x i = y i := by
  rw [assign_of_mem hmem, slice_sub h y hmem]

theorem addTo_of_mem [Add α] {block : Fin (hi - lo) → α} {x : Fin n → α} {i : Fin n} (h : lo ≤ i.val ∧ i.val < hi) :
    addTo lo hi block x i = x i + block ⟨i - lo, sub_lt_of_mem h⟩ := dif_pos h

theorem addTo_of_not_mem [Add α] {block : Fin (hi - lo) → α} {x : Fin n → α} {i : Fin n}
    (h : ¬ (lo ≤ i.val ∧ i.val < hi)) : addTo lo hi block x i = x i := dif_neg h

/-! ## Sums of the first entries -/

variable [AddCommMonoid M]

/-- The sum of the entries before `v`. -/
def prefixSum (v : Nat) (f : Fin n → M) : M := ∑ i with i.val < v, f i

@[simp] theorem prefixSum_zero (f : Fin n → M) : prefixSum 0 f = 0 := by simp [prefixSum]

@[simp] theorem prefixSum_all (f : Fin n → M) : prefixSum n f = ∑ i, f i := by simp [prefixSum]

theorem prefixSum_slice (hle : lo ≤ hi) (h : hi ≤ n) (f : Fin n → M) :
    prefixSum hi f = prefixSum lo f + ∑ i, slice lo hi h f i := by
  have hsplit : (Finset.univ.filter fun i : Fin n => i.val < hi) =
      (Finset.univ.filter fun i : Fin n => i.val < lo) ∪ Finset.univ.filter fun i : Fin n => lo ≤ i.val ∧ i.val < hi := by
    ext i
    simp only [Finset.mem_union, Finset.mem_filter, Finset.mem_univ, true_and]
    omega
  have hdisjoint : Disjoint (Finset.univ.filter fun i : Fin n => i.val < lo)
      (Finset.univ.filter fun i : Fin n => lo ≤ i.val ∧ i.val < hi) := by
    rw [Finset.disjoint_filter]
    intro i _ hlt
    omega
  have hchunk : ∑ i with lo ≤ i.val ∧ i.val < hi, f i = ∑ i, slice lo hi h f i := by
    symm
    apply Finset.sum_bij (fun (i : Fin (hi - lo)) _ => (⟨lo + i, lt_of_slice h i⟩ : Fin n))
    · intro i _
      simp only [Finset.mem_filter, Finset.mem_univ, true_and]
      omega
    · intro i _ j _ heq
      apply Fin.ext
      have hval := congrArg Fin.val heq
      simp only at hval
      omega
    · intro i hi'
      have hmem := (Finset.mem_filter.1 hi').2
      refine ⟨⟨i - lo, sub_lt_of_mem hmem⟩, Finset.mem_univ _, ?_⟩
      apply Fin.ext
      show lo + (i.val - lo) = i.val
      omega
    · intro i _
      rfl
  rw [prefixSum, hsplit, Finset.sum_union hdisjoint, hchunk]
  rfl

end Chunks
