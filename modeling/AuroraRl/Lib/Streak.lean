import AuroraRl.Lib.Loops
import Mathlib.Order.Bounds.Basic
import Mathlib.Data.List.Induction

/-!
# Scans that stop early

* `foldlM_flatMap` : a loop over nested lists is one over their elements;
* `trailing` : how many elements at the end of a list satisfy a predicate in a row;
* `streakScan_eq` : a counter that is reset stops where the last elements satisfy the predicate for the first time;
* `firstTurn` : a turn of a scan that stops at the first such element.

A loop stops by raising the index it has reached.
-/

namespace Streak

variable {α β ε σ : Type}

theorem foldlM_flatMap {f : α → List β} {g : σ → β → Except ε σ} {l : List α} {s : σ} :
    (l.flatMap f).foldlM g s = l.foldlM (fun s a => (f a).foldlM g s) s := by
  induction l generalizing s with
  | nil => rfl
  | cons a l ih =>
      rw [List.flatMap_cons, List.foldlM_append, List.foldlM_cons]
      exact congrArg _ (funext fun s' => ih)

/-- The number of elements at the end that satisfy `p`. -/
def trailing (p : α → Bool) (l : List α) : Nat := (l.reverse.takeWhile p).length

theorem trailing_concat (p : α → Bool) (l : List α) (a : α) :
    trailing p (l ++ [a]) = if p a then trailing p l + 1 else 0 := by
  unfold trailing
  rw [List.reverse_append, List.reverse_singleton, List.singleton_append, List.takeWhile_cons]
  split_ifs <;> simp

/-- Enough elements at the end satisfy `p` when each of the last ones does. -/
theorem le_trailing_iff (p : α → Bool) (l : List α) (window : Nat) :
    window ≤ trailing p l ↔ window ≤ l.length ∧ ∀ j a, l[j]? = some a → l.length ≤ j + window → p a = true := by
  induction l using List.reverseRecOn generalizing window with
  | nil => simp [trailing]
  | append_singleton l a ih =>
      rw [trailing_concat, List.length_append, List.length_singleton]
      cases window with
      | zero =>
          simp only [Nat.zero_le, true_and, true_iff, Nat.add_zero]
          intro j b hj hle
          rw [List.getElem?_eq_none (by simpa using hle)] at hj
          cases hj
      | succ window =>
          by_cases hp : p a
          · rw [if_pos hp, Nat.succ_le_succ_iff, Nat.succ_le_succ_iff, ih]
            refine and_congr_right fun hw => ⟨fun h j b hj hle => ?_, fun h j b hj hle => ?_⟩
            · rcases Nat.lt_or_ge j l.length with hlt | hge
              · rw [List.getElem?_append_left hlt] at hj
                exact h j b hj (by omega)
              · rw [List.getElem?_append_right hge] at hj
                obtain rfl : a = b := by
                  cases hidx : j - l.length with
                  | zero => simpa [hidx] using hj
                  | succ n => simp [hidx] at hj
                exact hp
            · obtain ⟨hlt, -⟩ := List.getElem?_eq_some_iff.1 hj
              exact h j b (by rw [List.getElem?_append_left hlt]; exact hj) (by omega)
          · rw [if_neg hp]
            refine iff_of_false (by omega) fun h => hp (h.2 l.length a (by simp) (by omega))

/-! ## Streaks -/

/-- A turn of the counter: its value and the index so far. -/
def streakTurn (p : α → Bool) (window : Nat) (s : Nat × Nat) (a : α) : Except Nat (Nat × Nat) :=
  let consecutive := if p a then s.1 + 1 else 0
  if window ≤ consecutive then .error s.2 else .ok (consecutive, s.2 + 1)

/-- The counter stops at the first index where it reaches the window. -/
theorem streakScan_eq (p : α → Bool) (window : Nat) (l : List α) :
    l.foldlM (streakTurn p window) (0, 0) =
      match (List.range l.length).find? fun i => window ≤ trailing p (l.take (i + 1)) with
      | some i => .error i
      | none => .ok (trailing p l, l.length) := by
  induction l using List.reverseRecOn with
  | nil => rfl
  | append_singleton l a ih =>
      have hfind : (List.range l.length).find? (fun i => decide (window ≤ trailing p ((l ++ [a]).take (i + 1)))) =
          (List.range l.length).find? fun i => decide (window ≤ trailing p (l.take (i + 1))) := by
        rw [← List.head?_filter, ← List.head?_filter]
        refine congrArg _ (List.filter_congr fun i hi => ?_)
        rw [List.take_append_of_le_length (Nat.succ_le_of_lt (List.mem_range.1 hi))]
      have hlast : (l ++ [a]).take (l.length + 1) = l ++ [a] := List.take_of_length_le (by simp)
      rw [List.foldlM_append, ih, List.length_append, List.length_singleton, List.range_succ, List.find?_append, hfind]
      cases (List.range l.length).find? fun i => decide (window ≤ trailing p (l.take (i + 1))) with
      | some i => rfl
      | none =>
          rw [ok_bind, List.foldlM_cons, streakTurn, ← trailing_concat, List.find?_singleton, hlast]
          by_cases h : window ≤ trailing p (l ++ [a])
          · simp [h]
          · simp [h]

/-- The counter stops at `i` when `i` is the first index at which the last `window` elements satisfy `p`. -/
theorem streakScan_error_iff (p : α → Bool) (window : Nat) (l : List α) (i : Nat) :
    l.foldlM (streakTurn p window) (0, 0) = .error i ↔ IsLeast {i | i < l.length ∧ window ≤ i + 1 ∧
      ∀ j a, l[j]? = some a → j ≤ i → i < j + window → p a = true} i := by
  have hspec : ∀ k < l.length, window ≤ trailing p (l.take (k + 1)) ↔
      window ≤ k + 1 ∧ ∀ j a, l[j]? = some a → j ≤ k → k < j + window → p a = true := by
    intro k hk
    rw [le_trailing_iff, List.length_take, Nat.min_eq_left (Nat.succ_le_of_lt hk)]
    refine and_congr_right fun _ => forall_congr' fun j => forall_congr' fun a => ?_
    rw [List.getElem?_take]
    constructor
    · intro h ha hj hlt
      exact h (by rw [if_pos (by omega)]; exact ha) (by omega)
    · intro h ha hle
      split_ifs at ha with hj
      exact h ha (by omega) (by omega)
  rw [streakScan_eq]
  cases hfind : (List.range l.length).find? fun i => decide (window ≤ trailing p (l.take (i + 1))) with
  | none =>
      refine iff_of_false (fun h => by cases h) fun h => ?_
      have hnone := List.find?_eq_none.1 hfind i (List.mem_range.2 h.1.1)
      exact hnone (decide_eq_true ((hspec i h.1.1).2 h.1.2))
  | some k =>
      obtain ⟨hk, hmem, hbefore⟩ := List.find?_range_eq_some.1 hfind
      have hlt := List.mem_range.1 hmem
      have hleast : IsLeast {i | i < l.length ∧ window ≤ i + 1 ∧
          ∀ j a, l[j]? = some a → j ≤ i → i < j + window → p a = true} k := by
        refine ⟨⟨hlt, (hspec k hlt).1 (of_decide_eq_true hk)⟩, fun m hm => ?_⟩
        by_contra hmk
        have := hbefore m (Nat.lt_of_not_le hmk)
        simp only [Bool.not_eq_true', decide_eq_false_iff_not] at this
        exact this ((hspec m hm.1).2 hm.2)
      constructor
      · intro h
        cases h
        exact hleast
      · intro h
        exact congrArg Except.error (hleast.unique h)

/-! ## One element -/

/-- A turn of a scan for an element that satisfies `p`. -/
def firstTurn (p : α → Bool) (idx : Nat) (a : α) : Except Nat Nat := if p a then .error idx else .ok (idx + 1)

end Streak
