import Mathlib.Data.List.Basic
import Mathlib.Tactic.Ring

/-!
# Lists by blocks

* `slice`, `write` : a part of a list, and a list with a part replaced;
* `flatMap_slices` : the blocks of one width make up the list;
* `take_write` : blocks written one after the other build up a list.
-/

namespace Blocks

variable {α β : Type}

def slice (lo hi : Nat) (l : List α) : List α := (l.take hi).drop lo

def write (lo : Nat) (block l : List α) : List α := l.take lo ++ block ++ l.drop (lo + block.length)

theorem length_slice (lo hi : Nat) (l : List α) : (slice lo hi l).length = min hi l.length - lo := by
  simp [slice]

theorem getElem?_slice (lo hi : Nat) (l : List α) (i : Nat) :
    (slice lo hi l)[i]? = if lo + i < hi then l[lo + i]? else none := by
  rw [slice, List.getElem?_drop, List.getElem?_take]

theorem getD_slice {lo hi i : Nat} (h : lo + i < hi) (l : List α) (d : α) : (slice lo hi l).getD i d = l.getD (lo + i) d := by
  rw [List.getD_eq_getElem?_getD, getElem?_slice, if_pos h, ← List.getD_eq_getElem?_getD]

theorem slice_map (f : α → β) (lo hi : Nat) (l : List α) : slice lo hi (l.map f) = (slice lo hi l).map f := by
  rw [slice, slice, ← List.map_take, ← List.map_drop]

theorem slice_range (f : Nat → α) {lo n w : Nat} (h : lo + w ≤ n) :
    slice lo (lo + w) ((List.range n).map f) = (List.range w).map fun i => f (lo + i) := by
  apply List.ext_getElem?
  intro i
  rw [getElem?_slice, List.getElem?_map, List.getElem?_map]
  by_cases hi : i < w
  · rw [if_pos (by omega), List.getElem?_range (by omega), List.getElem?_range hi]
    rfl
  · rw [if_neg (by omega), List.getElem?_eq_none (by simpa using hi)]
    rfl

theorem flatMap_slices (w n : Nat) (l : List α) :
    ((List.range n).flatMap fun j => slice (j * w) ((j + 1) * w) l) = l.take (n * w) := by
  induction n with
  | zero => simp
  | succ n ih =>
      rw [List.range_succ, List.flatMap_append, ih, List.flatMap_singleton, slice]
      have hle : n * w ≤ (n + 1) * w := Nat.mul_le_mul_right w (Nat.le_succ n)
      have htake : l.take (n * w) = (l.take ((n + 1) * w)).take (n * w) := by rw [List.take_take, Nat.min_eq_left hle]
      rw [htake, List.take_append_drop]

theorem length_write {lo : Nat} {block l : List α} (h : lo + block.length ≤ l.length) :
    (write lo block l).length = l.length := by
  simp only [write, List.length_append, List.length_take, List.length_drop]
  omega

theorem take_write {lo w : Nat} {block l target : List α} (hbefore : l.take lo = target.take lo)
    (hblock : block = slice lo (lo + w) target) (hfits : lo + w ≤ target.length) (hlength : l.length = target.length) :
    (write lo block l).take (lo + w) = target.take (lo + w) := by
  have hwidth : block.length = w := by
    rw [hblock, length_slice]
    omega
  have hlo : (l.take lo).length = lo := by
    rw [List.length_take]
    omega
  have hboth : (l.take lo ++ block).length = lo + w := by rw [List.length_append, hlo, hwidth]
  rw [write, ← hboth, List.take_left, hboth, hbefore, hblock, slice]
  have htake : target.take lo = (target.take (lo + w)).take lo := by
    rw [List.take_take, Nat.min_eq_left (Nat.le_add_right lo w)]
  rw [htake, List.take_append_drop]

end Blocks
