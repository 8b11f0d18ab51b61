import Mathlib

/-!
# Reports that overlap

Items report rows for the positions below their size, from the first one on; a later item repeats what is before it.

* `spliced` : of every item the rows from the size of the one before it on;
* `reported` : for how many positions some item has a row;
* `Gapless` : an item with rows finds everything before it reported;
* `spliced_of_gapless` : then every row is at a position it was reported for;
* `exists_shifted` : else some position has no row, or one reported for a later position.
-/

namespace Splice

variable {ι ρ : Type*} (rows : ι → List ρ) (size : ι → Nat)

def spliced : Nat → List ι → List ρ
  | _, [] => []
  | n, x :: items => (rows x).drop n ++ spliced (size x) items

def reported (items : List ι) : Nat := items.foldr (fun x n => max (rows x).length n) 0

/-- The size of the last item, or `n`. -/
def lastSize (n : Nat) (items : List ι) : Nat := items.foldl (fun _ x => size x) n

/-- Items that report nothing or all their positions, none smaller than one before it. -/
structure Reporting (items : List ι) : Prop where
  length : ∀ x ∈ items, rows x ≠ [] → (rows x).length = size x
  sorted : items.Pairwise fun x y => size x ≤ size y

def Gapless (items : List ι) : Prop :=
  ∀ l w x l', items = l ++ w :: x :: l' → rows x ≠ [] → reported rows (l ++ [w]) = size w

variable {rows size} {items l l' : List ι} {w x : ι} {κ σ : Type*} {rows' : κ → List σ} {size' : κ → Nat}

@[simp] theorem lastSize_concat (n : Nat) (l : List ι) (w : ι) : lastSize size n (l ++ [w]) = size w := by
  simp [lastSize]

theorem spliced_append (n : Nat) (l l' : List ι) :
    spliced rows size n (l ++ l') = spliced rows size n l ++ spliced rows size (lastSize size n l) l' := by
  induction l generalizing n with
  | nil => rfl
  | cons x l ih => simp [spliced, lastSize, ih]

theorem reported_le_iff {n : Nat} : reported rows items ≤ n ↔ ∀ x ∈ items, (rows x).length ≤ n := by
  induction items with
  | nil => simp [reported]
  | cons x items ih =>
      rw [List.forall_mem_cons, ← ih]
      exact max_le_iff

theorem length_le_reported (hx : x ∈ items) : (rows x).length ≤ reported rows items :=
  reported_le_iff.1 (le_refl _) x hx

theorem reported_concat (l : List ι) (x : ι) : reported rows (l ++ [x]) = max (reported rows l) (rows x).length := by
  refine le_antisymm ?_ (max_le ?_ ?_)
  · apply reported_le_iff.2
    intro y hy
    rcases List.mem_append.1 hy with hy | hy
    · exact (length_le_reported hy).trans (le_max_left _ _)
    · rw [List.mem_singleton.1 hy]
      exact le_max_right _ _
  · exact reported_le_iff.2 fun y hy => length_le_reported (List.mem_append_left _ hy)
  · exact length_le_reported (List.mem_append_right _ (List.mem_singleton_self x))

/-! ## Other rows -/

theorem spliced_map {f : κ → ι} {g : σ → ρ} {items : List κ} (hrows : ∀ x ∈ items, rows (f x) = (rows' x).map g)
    (hsize : ∀ x, size (f x) = size' x) (n : Nat) :
    spliced rows size n (items.map f) = (spliced rows' size' n items).map g := by
  induction items generalizing n with
  | nil => rfl
  | cons x items ih =>
      obtain ⟨hx, hrows⟩ := List.forall_mem_cons.1 hrows
      simp [spliced, hx, hsize, ih hrows]

theorem reported_map {f : κ → ι} (hrows : ∀ x, (rows (f x)).length = (rows' x).length) (items : List κ) :
    reported rows (items.map f) = reported rows' items := by
  induction items with
  | nil => rfl
  | cons x items ih => exact congrArg₂ max (hrows x) ih

/-- Whether there are gaps is a matter of how many rows there are. -/
theorem Gapless.map {f : κ → ι} {items : List κ} (hrows : ∀ x, (rows (f x)).length = (rows' x).length)
    (hsize : ∀ x, size (f x) = size' x) (h : Gapless rows' size' items) : Gapless rows size (items.map f) := by
  intro l w x l' heq hx
  obtain ⟨l₁, _, rfl, rfl, htail⟩ := List.map_eq_append_iff.1 heq
  obtain ⟨w₁, _, rfl, rfl, hrest⟩ := List.map_eq_cons_iff.1 htail
  obtain ⟨x₁, l₂, rfl, rfl, rfl⟩ := List.map_eq_cons_iff.1 hrest
  have hx' : rows' x₁ ≠ [] := by
    rw [← List.length_pos_iff] at hx ⊢
    rwa [← hrows x₁]
  have hreported := reported_map hrows (l₁ ++ [w₁])
  rw [List.map_append, h l₁ w₁ x₁ l₂ rfl hx', ← hsize w₁] at hreported
  exact hreported

/-! ## Gaps -/

theorem Reporting.left (h : Reporting rows size (l ++ l')) : Reporting rows size l :=
  ⟨fun x hx => h.length x (List.mem_append_left _ hx), (List.pairwise_append.1 h.sorted).1⟩

theorem Gapless.left (h : Gapless rows size (l ++ l')) : Gapless rows size l := by
  intro l₁ w x l₂ heq
  apply h l₁ w x (l₂ ++ l')
  simp [heq]

theorem Reporting.length_le (h : Reporting rows size items) (hx : x ∈ items) : (rows x).length ≤ size x := by
  by_cases hne : rows x = []
  · simp [hne]
  · exact (h.length x hx hne).le

theorem Reporting.reported_le (h : Reporting rows size (l ++ [w])) : reported rows (l ++ [w]) ≤ size w := by
  apply reported_le_iff.2
  intro y hy
  refine (h.length_le hy).trans ?_
  rcases List.mem_append.1 hy with hl | hl
  · exact (List.pairwise_append.1 h.sorted).2.2 y hl w (List.mem_singleton_self w)
  · rw [List.mem_singleton.1 hl]

theorem Reporting.lastSize_le (h : Reporting rows size (l ++ [x])) : lastSize size 0 l ≤ size x := by
  rcases List.eq_nil_or_concat' l with rfl | ⟨l, w, rfl⟩
  · exact Nat.zero_le _
  · rw [lastSize_concat]
    exact (List.pairwise_append.1 h.sorted).2.2 w (by simp) x (List.mem_singleton_self x)

theorem Reporting.reported_le_lastSize (h : Reporting rows size l) : reported rows l ≤ lastSize size 0 l := by
  rcases List.eq_nil_or_concat' l with rfl | ⟨l, w, rfl⟩
  · exact Nat.le_refl _
  · rw [lastSize_concat]
    exact h.reported_le

theorem spliced_concat (l : List ι) (x : ι) :
    spliced rows size 0 (l ++ [x]) = spliced rows size 0 l ++ (rows x).drop (lastSize size 0 l) := by
  rw [spliced_append]
  simp [spliced]

theorem Reporting.spliced_length_le (h : Reporting rows size items) :
    (spliced rows size 0 items).length ≤ reported rows items := by
  induction items using List.reverseRecOn with
  | nil => simp [spliced]
  | append_singleton l x ih =>
      have hl := ih h.left
      have hlast := h.left.reported_le_lastSize
      have hmono := h.lastSize_le
      rw [spliced_concat, reported_concat, List.length_append, List.length_drop]
      by_cases hx : rows x = []
      · simp [hx, hl]
      · have hlen := h.length x (by simp) hx
        omega

/-- Items that all report have no gaps. -/
theorem Reporting.gapless (h : Reporting rows size items) (hall : ∀ x ∈ items, (rows x).length = size x) :
    Gapless rows size items := by
  rintro l w x l' rfl _
  have hsplit : l ++ w :: x :: l' = (l ++ [w]) ++ (x :: l') := by simp
  rw [hsplit] at h hall
  apply le_antisymm h.left.reported_le
  rw [← hall w (by simp)]
  exact length_le_reported (by simp)

/-- Every row is at a position it was reported for, and the rows end where the reports do. -/
theorem spliced_of_gapless (h : Reporting rows size items) (hgap : Gapless rows size items) :
    (spliced rows size 0 items).length = reported rows items ∧
      ∀ (k : Nat) (row : ρ), (spliced rows size 0 items)[k]? = some row → ∃ x ∈ items, (rows x)[k]? = some row := by
  induction items using List.reverseRecOn with
  | nil => simp [spliced, reported]
  | append_singleton l x ih =>
      obtain ⟨hlen, hrows⟩ := ih h.left hgap.left
      rw [spliced_concat, reported_concat, List.length_append, List.length_drop, hlen]
      by_cases hx : rows x = []
      · refine ⟨by simp [hx], fun k row hk => ?_⟩
        simp only [hx, List.drop_nil, List.append_nil] at hk
        obtain ⟨y, hy, hrow⟩ := hrows k row hk
        exact ⟨y, List.mem_append_left _ hy, hrow⟩
      · have hlast : reported rows l = lastSize size 0 l := by
          rcases List.eq_nil_or_concat' l with rfl | ⟨l, w, rfl⟩
          · rfl
          · rw [lastSize_concat]
            exact hgap l w x [] (by simp) hx
        have hmono := h.lastSize_le
        have hsize := h.length x (by simp) hx
        refine ⟨by omega, fun k row hk => ?_⟩
        rw [List.getElem?_append, hlen, hlast] at hk
        split_ifs at hk with hlt
        · obtain ⟨y, hy, hrow⟩ := hrows k row hk
          exact ⟨y, List.mem_append_left _ hy, hrow⟩
        · rw [List.getElem?_drop, Nat.add_sub_cancel' (Nat.le_of_not_lt hlt)] at hk
          exact ⟨x, by simp, hk⟩

/-- A row after an item of size `n` was reported for a position from `n` on. -/
theorem mem_spliced {n : Nat} {row : ρ} (hn : ∀ x ∈ items, n ≤ size x) (hsorted : items.Pairwise fun x y => size x ≤ size y)
    (hrow : row ∈ spliced rows size n items) : ∃ x ∈ items, ∃ j, n ≤ j ∧ (rows x)[j]? = some row := by
  induction items generalizing n with
  | nil => simp [spliced] at hrow
  | cons x items ih =>
      obtain ⟨hx, hsorted⟩ := List.pairwise_cons.1 hsorted
      rcases List.mem_append.1 hrow with hrow | hrow
      · obtain ⟨j, hj⟩ := List.getElem?_of_mem hrow
        rw [List.getElem?_drop] at hj
        exact ⟨x, List.mem_cons_self, n + j, Nat.le_add_right _ _, hj⟩
      · obtain ⟨y, hy, j, hj, hget⟩ := ih hx hsorted hrow
        exact ⟨y, List.mem_cons_of_mem _ hy, j, (hn x List.mem_cons_self).trans hj, hget⟩

/-- After a gap some reported position has no row of its own. -/
theorem exists_shifted (h : Reporting rows size items) (hgap : ¬ Gapless rows size items) :
    ∃ k < reported rows items, ∀ row : ρ, (spliced rows size 0 items)[k]? = some row →
      ∃ x ∈ items, ∃ j, k < j ∧ (rows x)[j]? = some row := by
  unfold Gapless at hgap
  push Not at hgap
  obtain ⟨l, w, x, l', rfl, hx, hne⟩ := hgap
  have hsplit : l ++ w :: x :: l' = (l ++ [w]) ++ (x :: l') := by simp
  rw [hsplit] at h ⊢
  have hlt : reported rows (l ++ [w]) < size w := lt_of_le_of_ne h.left.reported_le hne
  obtain ⟨-, hsorted, hacross⟩ := List.pairwise_append.1 h.sorted
  have hw : ∀ y ∈ x :: l', size w ≤ size y := fun y hy => hacross w (by simp) y hy
  refine ⟨reported rows (l ++ [w]), ?_, fun row hrow => ?_⟩
  · have hmem : x ∈ (l ++ [w]) ++ (x :: l') := by simp
    have hreported : (rows x).length ≤ reported rows ((l ++ [w]) ++ (x :: l')) := length_le_reported hmem
    rw [h.length x hmem hx] at hreported
    exact hlt.trans_le ((hw x List.mem_cons_self).trans hreported)
  · rw [spliced_append, lastSize_concat, List.getElem?_append_right h.left.spliced_length_le] at hrow
    obtain ⟨y, hy, j, hj, hget⟩ := mem_spliced hw hsorted (List.mem_of_getElem? hrow)
    exact ⟨y, List.mem_append_right _ hy, j, hlt.trans_le hj, hget⟩

end Splice
