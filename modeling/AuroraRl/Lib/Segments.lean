import Mathlib

/-!
# Segments of a sequence

* `ends`, `diffs` : where segments of given lengths end, and the lengths again from the ends;
* `starts` : where they start; `Together` : two positions in one segment;
* `restarts` : the positions of a sequence of segments, counted from zero in each;
* `merged` : what is left of the lengths when a boundary counts only between two segments of at least two positions;
* `withTrailing` : the lengths when the last segment takes more positions.
-/

namespace Segments

/-! ## Ends and lengths -/

/-- Cumulative sums from `start` on. -/
def ends (start : Nat) : List Nat → List Nat
  | [] => []
  | n :: lengths => (start + n) :: ends (start + n) lengths

/-- From every end to the next, the first from `start` on. -/
def diffs (start : Nat) : List Nat → List Nat
  | [] => []
  | e :: rest => (e - start) :: diffs e rest

/-- The first segment starts at `start`. -/
def starts (start : Nat) : List Nat → List Nat
  | [] => []
  | n :: lengths => start :: starts (start + n) lengths

@[simp] theorem diffs_ends (start : Nat) (lengths : List Nat) : diffs start (ends start lengths) = lengths := by
  induction lengths generalizing start with
  | nil => rfl
  | cons n lengths ih => simp [ends, diffs, ih]

@[simp] theorem ends_length (start : Nat) (lengths : List Nat) : (ends start lengths).length = lengths.length := by
  induction lengths generalizing start with
  | nil => rfl
  | cons n lengths ih => simp [ends, ih]

/-- The segments end where the next ones start, the last at the end of the sequence. -/
theorem ends_eq (start n : Nat) (lengths : List Nat) :
    ends start (n :: lengths) = (starts start (n :: lengths)).tail ++ [start + (n :: lengths).sum] := by
  induction lengths generalizing start n with
  | nil => simp [ends, starts]
  | cons m lengths ih =>
      have htail := ih (start + n) m
      rw [ends, htail]
      simp [starts, Nat.add_assoc]

theorem starts_map_add (k start : Nat) (lengths : List Nat) :
    (starts start lengths).map (· + k) = starts (start + k) lengths := by
  induction lengths generalizing start with
  | nil => rfl
  | cons n lengths ih =>
      simp only [starts, List.map_cons, ih]
      rw [Nat.add_right_comm]

/-- Two positions are in one segment. -/
def Together (lengths : List Nat) (i j : Nat) : Prop :=
  ∃ before n after, lengths = before ++ n :: after ∧ before.sum ≤ i ∧ i < before.sum + n ∧ before.sum ≤ j ∧
    j < before.sum + n

theorem mem_zip_ends {start a b : Nat} {lengths : List Nat} :
    (a, b) ∈ (start :: ends start lengths).zip (ends start lengths) ↔
      ∃ before n after, lengths = before ++ n :: after ∧ a = start + before.sum ∧ b = a + n := by
  induction lengths generalizing start with
  | nil => simp [ends]
  | cons m lengths ih =>
      rw [ends, List.zip_cons_cons, List.mem_cons, ih]
      constructor
      · rintro (heq | ⟨before, n, after, rfl, rfl, rfl⟩)
        · obtain ⟨rfl, rfl⟩ := Prod.mk.inj heq
          exact ⟨[], m, lengths, rfl, rfl, rfl⟩
        · exact ⟨m :: before, n, after, rfl, by simp [Nat.add_assoc], rfl⟩
      · rintro ⟨before, n, after, heq, rfl, rfl⟩
        cases before with
        | nil =>
            obtain ⟨rfl, rfl⟩ := List.cons.inj heq
            exact Or.inl rfl
        | cons k before =>
            obtain ⟨rfl, rfl⟩ := List.cons.inj heq
            exact Or.inr ⟨before, n, after, rfl, by simp [Nat.add_assoc], rfl⟩

theorem any_zip_ends {lengths : List Nat} {i j : Nat} :
    ((0 :: ends 0 lengths).zip (ends 0 lengths)).any (fun e => e.1 ≤ i ∧ i < e.2 ∧ e.1 ≤ j ∧ j < e.2) = true ↔
      Together lengths i j := by
  rw [List.any_eq_true]
  constructor
  · rintro ⟨⟨a, b⟩, hmem, hin⟩
    obtain ⟨before, n, after, heq, rfl, rfl⟩ := mem_zip_ends.1 hmem
    exact ⟨before, n, after, heq, by simpa using hin⟩
  · rintro ⟨before, n, after, heq, hin⟩
    exact ⟨(before.sum, before.sum + n), mem_zip_ends.2 ⟨before, n, after, heq, by simp, rfl⟩, by simpa using hin⟩

/-! ## Positions -/

/-- The positions of the segments, counted from zero in each. -/
def restarts (lengths : List Nat) : List Nat := lengths.flatMap List.range

theorem restarts_cons (n : Nat) (lengths : List Nat) : restarts (n :: lengths) = List.range n ++ restarts lengths := rfl

@[simp] theorem restarts_length (lengths : List Nat) : (restarts lengths).length = lengths.sum := by
  simp [restarts, List.length_flatMap]

/-! ## Lost boundaries -/

/-- Another segment before the first one becomes part of it. -/
def joinHead (n : Nat) : List Nat → List Nat
  | [] => [n]
  | m :: lengths => (n + m) :: lengths

/-- The lengths that are left when a boundary counts only between two segments of at least two positions. -/
def merged : List Nat → List Nat
  | [] => []
  | [n] => [n]
  | n :: m :: lengths => if 2 ≤ n ∧ 2 ≤ m then n :: merged (m :: lengths) else joinHead n (merged (m :: lengths))

theorem joinHead_length_le (n : Nat) {lengths : List Nat} (h : lengths ≠ []) :
    (joinHead n lengths).length = lengths.length := by
  cases lengths with
  | nil => exact absurd rfl h
  | cons m lengths => rfl

theorem merged_ne_nil (n : Nat) (lengths : List Nat) : merged (n :: lengths) ≠ [] := by
  cases lengths with
  | nil => simp [merged]
  | cons m lengths =>
      rw [merged]
      split
      · simp
      · cases merged (m :: lengths) <;> simp [joinHead]

theorem merged_length_le (lengths : List Nat) : (merged lengths).length ≤ lengths.length := by
  induction lengths using merged.induct with
  | case1 => simp [merged]
  | case2 n => simp [merged]
  | case3 n m lengths h ih =>
      rw [merged, if_pos h]
      simpa using ih
  | case4 n m lengths h ih =>
      rw [merged, if_neg h, joinHead_length_le n (merged_ne_nil m lengths)]
      exact Nat.le_succ_of_le ih

/-- The head of what is left is at least the first segment. -/
theorem le_head_merged {n : Nat} {lengths : List Nat} : ∀ m ∈ (merged (n :: lengths)).head?, n ≤ m := by
  cases lengths with
  | nil => simp [merged]
  | cons k lengths =>
      rw [merged]
      split
      · simp
      · cases merged (k :: lengths) <;> simp [joinHead]

theorem apart_cons_iff {n m : Nat} {lengths : List Nat} (h : 2 ≤ n ∧ 2 ≤ m) :
    ((m :: lengths).length = 1 ∨ ∀ k ∈ m :: lengths, 2 ≤ k) ↔
      (n :: m :: lengths).length = 1 ∨ ∀ k ∈ n :: m :: lengths, 2 ≤ k := by
  constructor
  · rintro (hone | hall)
    · have hnil : lengths = [] := by simpa using hone
      subst hnil
      exact Or.inr (by simpa using h)
    · exact Or.inr (List.forall_mem_cons.2 ⟨h.1, hall⟩)
  · rintro (hone | hall)
    · simp at hone
    · exact Or.inr (List.forall_mem_cons.1 hall).2

/-- Nothing is lost iff there is one segment, or each has at least two positions. -/
theorem merged_eq_self_iff {lengths : List Nat} (h : lengths ≠ []) :
    merged lengths = lengths ↔ lengths.length = 1 ∨ ∀ n ∈ lengths, 2 ≤ n := by
  induction lengths using merged.induct with
  | case1 => exact absurd rfl h
  | case2 n => simp [merged]
  | case3 n m lengths hnm ih =>
      rw [merged, if_pos hnm, List.cons_inj_right, ih (List.cons_ne_nil _ _)]
      exact apart_cons_iff hnm
  | case4 n m lengths hnm ih =>
      have hshort : merged (n :: m :: lengths) ≠ n :: m :: lengths := by
        intro heq
        have hlen := congrArg List.length heq
        rw [merged, if_neg hnm, joinHead_length_le n (merged_ne_nil m lengths)] at hlen
        have hle := merged_length_le (m :: lengths)
        simp only [List.length_cons] at hlen hle
        omega
      refine iff_of_false hshort ?_
      rintro (hone | hall)
      · simp at hone
      · exact hnm ⟨hall n (by simp), hall m (by simp)⟩

/-- The last segment takes `k` more positions. -/
def withTrailing : List Nat → Nat → List Nat
  | [], k => [k]
  | [n], k => [n + k]
  | n :: m :: lengths, k => n :: withTrailing (m :: lengths) k

theorem withTrailing_zero {lengths : List Nat} (h : lengths ≠ []) : withTrailing lengths 0 = lengths := by
  induction lengths with
  | nil => exact absurd rfl h
  | cons n lengths ih =>
      cases lengths with
      | nil => rfl
      | cons m lengths => rw [withTrailing, ih (List.cons_ne_nil _ _)]

/-- The ends are the same but for the start of the positions after the last segment. -/
theorem eraseIdx_ends {lengths : List Nat} (h : lengths ≠ []) (start k : Nat) :
    (start :: ends start (lengths ++ [k])).eraseIdx lengths.length = start :: ends start (withTrailing lengths k) := by
  induction lengths generalizing start with
  | nil => exact absurd rfl h
  | cons n lengths ih =>
      cases lengths with
      | nil => simp [ends, withTrailing, Nat.add_assoc]
      | cons m lengths =>
          rw [List.cons_append, ends, withTrailing, ends, List.length_cons, List.eraseIdx_cons_succ,
            ih (List.cons_ne_nil _ _) (start + n)]

/-- With `k` positions after them, the segments are told apart iff there is one, or each has at least two positions. -/
theorem merged_append_iff {lengths : List Nat} (hne : lengths ≠ []) (hpos : ∀ n ∈ lengths, 0 < n) (k : Nat) :
    (merged (lengths ++ [k]) = lengths ++ [k] ∨ merged (lengths ++ [k]) = withTrailing lengths k) ↔
      lengths.length = 1 ∨ ∀ n ∈ lengths, 2 ≤ n := by
  induction lengths with
  | nil => exact absurd rfl hne
  | cons n lengths ih =>
      cases lengths with
      | nil =>
          rw [List.cons_append, List.nil_append, merged]
          split <;> simp [joinHead, merged, withTrailing]
      | cons m lengths =>
          have hrest := ih (List.cons_ne_nil _ _) (List.forall_mem_cons.1 hpos).2
          rw [List.cons_append, List.cons_append, merged, withTrailing]
          split
          · rename_i hnm
            rw [← List.cons_append, List.cons_inj_right, List.cons_inj_right, hrest]
            exact apart_cons_iff hnm
          · rename_i hnm
            -- the first segment grows, whatever comes after it
            have hgrow : ∀ l, joinHead n (merged (m :: (lengths ++ [k]))) ≠ n :: l := by
              intro l heq
              have hm : 0 < m := hpos m (by simp)
              cases hmerged : merged (m :: (lengths ++ [k])) with
              | nil => exact merged_ne_nil _ _ hmerged
              | cons f fs =>
                  have hle : m ≤ f := le_head_merged f (by rw [hmerged]; rfl)
                  rw [hmerged, joinHead, List.cons.injEq] at heq
                  omega
            refine iff_of_false ?_ ?_
            · rintro (heq | heq)
              · exact hgrow _ heq
              · exact hgrow _ heq
            · rintro (hone | hall)
              · simp at hone
              · exact hnm ⟨hall n (by simp), hall m (by simp)⟩

end Segments
