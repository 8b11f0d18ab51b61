import AuroraRl.Lib.RowMajor
import Mathlib.Data.List.Nodup

/-!
# Process meshes

A mesh names the axes of a row-major grid of ranks.

* `Mesh`, `size` : the axes with their sizes, and the number of ranks;
* `group` : the ranks that differ from one along some axes only, in row-major order;
* `group_leading`, `group_trailing` : the groups along the first and along the last axes.
-/

namespace ProcessMesh

open RowMajor

/-- Named axes with their sizes, the first one slowest. -/
abbrev Mesh (N : Type) := List (N × Nat)

variable {N : Type}

def shape (m : Mesh N) : List Nat := m.map Prod.snd

def size (m : Mesh N) : Nat := numel (shape m)

/-- The flattened submesh along the chosen axes, through the rank at the coordinates. -/
def groupAt (chosen : N → Bool) : Mesh N → List Nat → List Nat
  | (name, d) :: m, c :: cs =>
    if chosen name then (List.range d).flatMap fun x => (groupAt chosen m cs).map (x * size m + ·)
    else (groupAt chosen m cs).map (c * size m + ·)
  | _, _ => [0]

def group (chosen : N → Bool) (m : Mesh N) (rank : Nat) : List Nat := groupAt chosen m (unravel (shape m) rank)

theorem size_cons (e : N × Nat) (m : Mesh N) : size (e :: m) = e.2 * size m := rfl

theorem size_append (m m' : Mesh N) : size (m ++ m') = size m * size m' := by
  induction m with
  | nil => exact (Nat.one_mul _).symm
  | cons e m ih => rw [List.cons_append, size_cons, ih, size_cons, Nat.mul_assoc]

theorem group_nil (chosen : N → Bool) (rank : Nat) : group chosen [] rank = [0] := rfl

theorem group_cons (chosen : N → Bool) (name : N) (d : Nat) (m : Mesh N) (rank : Nat) :
    group chosen ((name, d) :: m) rank = if chosen name
      then (List.range d).flatMap fun x => (group chosen m (rank % size m)).map (x * size m + ·)
      else (group chosen m (rank % size m)).map (rank / size m * size m + ·) := rfl

theorem size_pos {e : N × Nat} {m : Mesh N} {rank : Nat} (h : rank < size (e :: m)) : 0 < size m := by
  apply Nat.pos_of_ne_zero
  intro hzero
  rw [size_cons, hzero] at h
  simp at h

theorem range_blocks (d n : Nat) : ((List.range d).flatMap fun x => (List.range n).map (x * n + ·)) = List.range (d * n) := by
  induction d with
  | zero => simp
  | succ d ih => rw [List.range_succ, List.flatMap_append, ih, Nat.succ_mul, List.range_add, List.flatMap_singleton]

theorem group_all {chosen : N → Bool} {m : Mesh N} (h : ∀ e ∈ m, chosen e.1 = true) (rank : Nat) :
    group chosen m rank = List.range (size m) := by
  induction m generalizing rank with
  | nil => rfl
  | cons e m ih =>
      obtain ⟨name, d⟩ := e
      rw [group_cons, if_pos (h (name, d) List.mem_cons_self), ih fun e he => h e (List.mem_cons_of_mem _ he)]
      exact range_blocks d (size m)

theorem group_none {chosen : N → Bool} {m : Mesh N} (h : ∀ e ∈ m, chosen e.1 = false) {rank : Nat}
    (hrank : rank < size m) : group chosen m rank = [rank] := by
  induction m generalizing rank with
  | nil =>
      have hzero : rank = 0 := Nat.lt_one_iff.1 hrank
      rw [hzero, group_nil]
  | cons e m ih =>
      obtain ⟨name, d⟩ := e
      rw [group_cons, if_neg (by simp [h (name, d) List.mem_cons_self]),
        ih (fun e he => h e (List.mem_cons_of_mem _ he)) (Nat.mod_lt _ (size_pos hrank))]
      simp [Nat.div_add_mod']

/-- **First axes.** Along them, a group steps over the ranks of the other axes. -/
theorem group_leading {chosen : N → Bool} {m m' : Mesh N} (h : ∀ e ∈ m, chosen e.1 = true)
    (h' : ∀ e ∈ m', chosen e.1 = false) (rank : Nat) (hrank : rank < size (m ++ m')) :
    group chosen (m ++ m') rank = (List.range (size m)).map fun i => i * size m' + rank % size m' := by
  induction m generalizing rank with
  | nil =>
      rw [List.nil_append] at hrank
      rw [List.nil_append, group_none h' hrank, Nat.mod_eq_of_lt hrank]
      simp [size, shape, numel]
  | cons e m ih =>
      obtain ⟨name, d⟩ := e
      rw [List.cons_append, group_cons, if_pos (h (name, d) List.mem_cons_self),
        ih (fun e he => h e (List.mem_cons_of_mem _ he)) _ (Nat.mod_lt _ (size_pos hrank)), size_cons, ← range_blocks,
        List.map_flatMap]
      apply List.flatMap_congr
      intro x _
      rw [List.map_map, List.map_map]
      apply List.map_congr_left
      intro i _
      simp only [Function.comp_apply, size_append]
      rw [Nat.mod_mul_left_mod]
      ring

/-- **Last axes.** Along them, a group is a block of ranks. -/
theorem group_trailing (chosen : N → Bool) {m m' : Mesh N} (h : ∀ e ∈ m, chosen e.1 = false)
    (h' : ∀ e ∈ m', chosen e.1 = true) (rank : Nat) (hrank : rank < size (m ++ m')) :
    group chosen (m ++ m') rank = (List.range (size m')).map (rank / size m' * size m' + ·) := by
  induction m generalizing rank with
  | nil =>
      rw [List.nil_append] at hrank
      rw [List.nil_append, group_all h', Nat.div_eq_of_lt hrank]
      simp
  | cons e m ih =>
      obtain ⟨name, d⟩ := e
      rw [List.cons_append, group_cons, if_neg (by simp [h (name, d) List.mem_cons_self]),
        ih (fun e he => h e (List.mem_cons_of_mem _ he)) _ (Nat.mod_lt _ (size_pos hrank)), List.map_map]
      apply List.map_congr_left
      intro j _
      have hblock : rank / size m' = rank / (size m * size m') * size m + rank % (size m * size m') / size m' := by
        rw [Nat.mod_mul_left_div_self, Nat.mul_comm (size m), ← Nat.div_div_eq_div_mul, Nat.div_add_mod']
      simp only [Function.comp_apply, size_append]
      rw [hblock]
      ring

end ProcessMesh
