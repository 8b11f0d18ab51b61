import AuroraRl.Lib.Indexing
import Mathlib

/-!
# Rows in groups

* `pick` : `l[indices]`, for indices in range;
* `mapGroups`, `mapGroups_sorted` : rows split by the sizes of groups, each through the function of its group;
* `scatterAdd` : rows added at the positions of an index;
* `tagged` : the slots of all rows, each with the position of its row;
* `scatterAdd_sorted` : sorted in any order and added back, every row gets the sum over its slots.
-/

namespace Grouped
open Indexing

variable {α β σ M : Type}

/-! ## Gather -/

/-- `l[indices]`, for indices in range. -/
def pick (l : List α) (indices : List Nat) : List α := indices.filterMap (l[·]?)

@[simp]
theorem pick_map (f : α → β) (l : List α) (indices : List Nat) : pick (l.map f) indices = (pick l indices).map f := by
  unfold pick
  rw [List.map_filterMap]
  apply List.filterMap_congr
  intro i _
  exact List.getElem?_map ..

theorem pick_eq_map {l : List α} {indices : List Nat} (h : ∀ i ∈ indices, i < l.length) (d : α) :
    pick l indices = indices.map (l.getD · d) := by
  unfold pick
  rw [← List.filterMap_eq_map]
  apply List.filterMap_congr
  intro i hi
  simp [List.getElem?_eq_getElem (h i hi)]

theorem pick_range (l : List α) : pick l (List.range l.length) = l := by
  cases l with
  | nil => rfl
  | cons a l =>
      rw [pick_eq_map (fun i hi => List.mem_range.1 hi) a]
      apply List.ext_getElem
      · simp
      · intro i h₁ h₂
        simp [List.getElem?_eq_getElem h₂]

theorem pick_range_of_lt {n : Nat} {indices : List Nat} (h : ∀ i ∈ indices, i < n) :
    pick (List.range n) indices = indices := by
  rw [pick_eq_map (fun i hi => by simpa using h i hi) 0]
  conv_rhs => rw [← List.map_id indices]
  apply List.map_congr_left
  intro i hi
  simp [List.getD_eq_getElem?_getD, List.getElem?_range (h i hi)]

theorem pick_perm {l : List α} {indices : List Nat} (h : indices.Perm (List.range l.length)) : (pick l indices).Perm l := by
  have hperm := h.filterMap (l[·]?)
  rw [← pick, ← pick, pick_range] at hperm
  exact hperm

theorem argsort_perm (l : List Int) : (argsort l).Perm (List.range l.length) := List.perm_insertionSort _ _

/-- Picked in the order of the keys, the keys are sorted. -/
theorem pairwise_pick_argsort {l : List α} (key : α → Int) :
    (pick l (argsort (l.map key))).Pairwise fun a b => key a ≤ key b := by
  rw [← List.pairwise_map (R := (· ≤ ·)), ← pick_map]
  have hlt : ∀ i ∈ argsort (l.map key), i < (l.map key).length := fun i hi => mem_argsort.1 hi
  rw [pick_eq_map hlt 0, map_argsort]
  exact List.pairwise_insertionSort _ _

/-! ## Groups -/

/-- The rows split by the sizes; the rows of group `e` through `f e`. -/
def mapGroups (f : Nat → α → β) (sizes : List Nat) (rows : List α) : List β :=
  ((sizes.splitLengths rows).zipIdx.map fun group => group.1.map (f group.2)).flatten

/-- `torch.histc` with a bin for each of `0`, …, `n - 1`. -/
def histc (n : Nat) (keys : List Nat) : List Nat := (List.range n).map fun e => keys.count e

theorem filter_append_filter {key : σ → Nat} {l : List σ} {s : Nat} (hsorted : l.Pairwise fun a b => key a ≤ key b)
    (hmin : ∀ a ∈ l, s ≤ key a) : l.filter (key · = s) ++ l.filter (key · ≠ s) = l := by
  induction l with
  | nil => rfl
  | cons a l ih =>
      rw [List.pairwise_cons] at hsorted
      have hrest := ih hsorted.2 fun b hb => hmin b (List.mem_cons_of_mem a hb)
      by_cases ha : key a = s
      · simpa [ha] using hrest
      · have hlt : s < key a := by
          have hle := hmin a List.mem_cons_self
          omega
        have hnone : ∀ b ∈ a :: l, ¬ key b = s := by
          intro b hb
          rcases List.mem_cons.1 hb with rfl | hb
          · exact ha
          · have hle := hsorted.1 b hb
            omega
        rw [List.filter_eq_nil_iff.2 (by simpa using hnone), List.filter_eq_self.2 (by simpa using hnone), List.nil_append]

theorem count_map_filter {key : σ → Nat} (l : List σ) {s e : Nat} (h : e ≠ s) :
    ((l.filter (key · ≠ s)).map key).count e = (l.map key).count e := by
  induction l with
  | nil => rfl
  | cons a l ih =>
      by_cases ha : key a = s
      · rw [List.filter_cons_of_neg (by simpa using ha), ih, List.map_cons, List.count_cons_of_ne]
        omega
      · rw [List.filter_cons_of_pos (by simpa using ha), List.map_cons, List.map_cons, List.count_cons, List.count_cons, ih]

theorem count_map_eq_length {key : σ → Nat} (l : List σ) (s : Nat) : (l.map key).count s = (l.filter (key · = s)).length := by
  rw [List.count, List.countP_map, List.countP_eq_length_filter]
  congr 1

theorem mapGroups_sorted_from {key : σ → Nat} (row : σ → α) (f : Nat → α → β) {n s : Nat} {l : List σ}
    (hsorted : l.Pairwise fun a b => key a ≤ key b) (hkey : ∀ a ∈ l, s ≤ key a ∧ key a < s + n) :
    ((((List.range' s n).map fun e => (l.map key).count e).splitLengths (l.map row)).zipIdx s |>.map fun group =>
      group.1.map (f group.2)).flatten = l.map fun a => f (key a) (row a) := by
  induction n generalizing s l with
  | zero =>
      cases l with
      | nil => rfl
      | cons a l =>
          have ha := hkey a List.mem_cons_self
          omega
  | succ n ih =>
      have hsplit := filter_append_filter hsorted fun a ha => (hkey a ha).1
      have hrows : l.map row = (l.filter (key · = s)).map row ++ (l.filter (key · ≠ s)).map row := by
        rw [← List.map_append, hsplit]
      have hlength : (l.map key).count s = ((l.filter (key · = s)).map row).length := by
        rw [count_map_eq_length, List.length_map]
      have hcounts : ((List.range' (s + 1) n).map fun e => (l.map key).count e) =
          (List.range' (s + 1) n).map fun e => ((l.filter (key · ≠ s)).map key).count e := by
        apply List.map_congr_left
        intro e he
        have hlt := (List.mem_range'_1.1 he).1
        rw [count_map_filter l (by omega)]
      have hrest := ih (s := s + 1) (hsorted.filter (fun a => decide (key a ≠ s))) fun a ha => by
        have hmem := List.mem_filter.1 ha
        have hne : key a ≠ s := of_decide_eq_true hmem.2
        have hrange := hkey a hmem.1
        omega
      rw [List.range'_succ, List.map_cons, List.splitLengths_cons, List.zipIdx_cons, List.map_cons,
        List.flatten_cons, hlength, hrows,
        List.take_left', List.drop_left', hcounts, hrest, List.map_map]
      · conv_rhs => rw [← hsplit, List.map_append]
        congr 1
        apply List.map_congr_left
        intro a ha
        rw [of_decide_eq_true (List.mem_filter.1 ha).2]
        rfl
      · rfl
      · rfl

/-- On rows sorted by group, with the sizes of the groups, every row goes through the function of its group. -/
theorem mapGroups_sorted {key : σ → Nat} (row : σ → α) (f : Nat → α → β) {n : Nat} {l : List σ}
    (hsorted : l.Pairwise fun a b => key a ≤ key b) (hkey : ∀ a ∈ l, key a < n) :
    mapGroups f (histc n (l.map key)) (l.map row) = l.map fun a => f (key a) (row a) := by
  unfold mapGroups histc
  rw [List.range_eq_range']
  exact mapGroups_sorted_from row f hsorted fun a ha => ⟨Nat.zero_le _, by simpa using hkey a ha⟩

theorem histc_perm {n : Nat} {keys keys' : List Nat} (h : keys.Perm keys') : histc n keys = histc n keys' := by
  unfold histc
  simp only [h.count_eq]

theorem sum_histc {n : Nat} {keys : List Nat} (h : ∀ e ∈ keys, e < n) : (histc n keys).sum = keys.length := by
  induction keys with
  | nil => simp [histc]
  | cons a keys ih =>
      rw [List.forall_mem_cons] at h
      have hone : ∑ e ∈ Finset.range n, (if a = e then 1 else 0) = 1 := by
        rw [Finset.sum_ite_eq, if_pos (Finset.mem_range.2 h.1)]
      have hrest : ∑ e ∈ Finset.range n, keys.count e = keys.length := ih h.2
      show ∑ e ∈ Finset.range n, (a :: keys).count e = keys.length + 1
      simp only [List.count_cons, beq_iff_eq]
      rw [Finset.sum_add_distrib, hone, hrest]

/-! ## Scatter -/

def scatterAdd [Add M] (out : List M) (index : List Nat) (src : List M) : List M :=
  (index.zip src).foldl (fun out e => out.modify e.1 (· + e.2)) out

theorem getElem?_foldl_modify [AddCommMonoid M] (entries : List (Nat × M)) (out : List M) (t : Nat) :
    (entries.foldl (fun out e => out.modify e.1 (· + e.2)) out)[t]? =
      out[t]?.map (· + ((entries.filter (·.1 = t)).map Prod.snd).sum) := by
  induction entries generalizing out with
  | nil => simp
  | cons e entries ih =>
      rw [List.foldl_cons, ih, List.getElem?_modify]
      by_cases he : e.1 = t
      · cases out[t]? <;> simp [he, add_assoc]
      · simp [he]

/-- Sorted in any order and added back, every row gets the sum over its slots. -/
theorem scatterAdd_sorted [AddCommMonoid M] {slots sorted : List (Nat × σ)} (hperm : sorted.Perm slots)
    (out : List M) (c : Nat × σ → M)
    (t : Nat) : (scatterAdd out (sorted.map Prod.fst) (sorted.map c))[t]? =
      out[t]?.map (· + ((slots.filter (·.1 = t)).map c).sum) := by
  unfold scatterAdd
  have hfilter : ((sorted.map fun s => (s.1, c s)).filter (·.1 = t)).map Prod.snd = (sorted.filter (·.1 = t)).map c := by
    rw [List.filter_map, List.map_map]
    rfl
  rw [List.zip_map', getElem?_foldl_modify, hfilter, ((hperm.filter _).map c).sum_eq]

/-! ## Slots -/

/-- The slots of all rows, each with the position of its row. -/
def tagged (rows : List (List σ)) : List (Nat × σ) := (rows.zipIdx.map fun row => row.1.map (row.2, ·)).flatten

def repeatInterleave (l : List α) (times : List Nat) : List α :=
  (List.zipWith (fun a n => List.replicate n a) l times).flatten

theorem filter_tagged_from (rows : List (List σ)) {s t : Nat} (h : s ≤ t) :
    ((rows.zipIdx s).map fun row => row.1.map (row.2, ·)).flatten.filter (·.1 = t) = (rows.getD (t - s) []).map (t, ·) := by
  induction rows generalizing s with
  | nil => simp
  | cons row rows ih =>
      rw [List.zipIdx_cons, List.map_cons, List.flatten_cons, List.filter_append]
      rcases Nat.eq_or_lt_of_le h with rfl | hlt
      · have hnone : ((rows.zipIdx (s + 1)).map fun row => row.1.map (row.2, ·)).flatten.filter (·.1 = s) = [] := by
          rw [List.filter_eq_nil_iff]
          intro x hx
          obtain ⟨l, hl, hx⟩ := List.mem_flatten.1 hx
          obtain ⟨r, hr, rfl⟩ := List.mem_map.1 hl
          obtain ⟨a, -, rfl⟩ := List.mem_map.1 hx
          have hle := List.le_snd_of_mem_zipIdx hr
          simp only [decide_eq_true_eq]
          omega
        rw [hnone, List.append_nil, Nat.sub_self, List.getD_cons_zero, List.filter_eq_self.2]
        intro x hx
        obtain ⟨a, -, rfl⟩ := List.mem_map.1 hx
        simp
      · have hnone : (row.map (s, ·)).filter (·.1 = t) = [] := by
          rw [List.filter_eq_nil_iff]
          intro x hx
          obtain ⟨a, -, rfl⟩ := List.mem_map.1 hx
          simp only [decide_eq_true_eq]
          omega
        obtain ⟨k, rfl⟩ := Nat.exists_eq_add_of_lt hlt
        have hsub : s + k + 1 - s = k + 1 := by omega
        have hsub' : s + k + 1 - (s + 1) = k := by omega
        rw [hnone, List.nil_append, ih hlt, hsub, hsub', List.getD_cons_succ]

theorem filter_tagged (rows : List (List σ)) (t : Nat) : (tagged rows).filter (·.1 = t) = (rows.getD t []).map (t, ·) :=
  filter_tagged_from rows (Nat.zero_le t)

theorem map_snd_tagged (rows : List (List σ)) : (tagged rows).map Prod.snd = rows.flatten := by
  unfold tagged
  rw [List.map_flatten, List.map_map]
  have hrow : (List.map Prod.snd ∘ fun row : List σ × Nat => row.1.map (row.2, ·)) = Prod.fst := by
    funext row
    simp [Function.comp_def]
  rw [hrow, List.zipIdx_map_fst]

theorem map_tagged (f : σ → α) (rows : List (List σ)) :
    (tagged rows).map (fun s => f s.2) = (rows.map (·.map f)).flatten := by
  rw [← List.map_flatten, ← map_snd_tagged, List.map_map]
  rfl

theorem map_fst_tagged (rows : List (List σ)) :
    (tagged rows).map Prod.fst = repeatInterleave (List.range rows.length) (rows.map List.length) := by
  unfold tagged repeatInterleave
  rw [List.map_flatten, List.map_map, List.range_eq_range', List.zipIdx_eq_zip_range', List.zip,
    List.map_zipWith, List.zipWith_map_right,
    List.zipWith_comm]
  congr 2
  funext t row
  simp [Function.comp_def]

theorem repeatInterleave_replicate (n k : Nat) :
    repeatInterleave (List.range n) (List.replicate n k) = (List.range (n * k)).map (· / k) := by
  induction n with
  | zero => simp [repeatInterleave]
  | succ n ih =>
      have hlast : (List.range k).map (fun i => (n * k + i) / k) = List.replicate k n := by
        rw [List.eq_replicate_iff]
        refine ⟨by simp, ?_⟩
        intro q hq
        obtain ⟨i, hi, rfl⟩ := List.mem_map.1 hq
        have hlt := List.mem_range.1 hi
        rw [Nat.mul_comm, Nat.mul_add_div (by omega), Nat.div_eq_of_lt hlt, Nat.add_zero]
      have hrange : List.range ((n + 1) * k) = List.range (n * k) ++ (List.range k).map (n * k + ·) := by
        rw [Nat.succ_mul, List.range_add]
      rw [hrange, List.map_append, ← ih, List.map_map]
      unfold repeatInterleave
      rw [List.range_succ, List.replicate_succ', List.zipWith_append (by simp), List.flatten_append]
      congr 1
      simpa [Function.comp_def] using hlast.symm

theorem mem_tagged_lt {rows : List (List σ)} {x : Nat × σ} (hx : x ∈ tagged rows) : x.1 < rows.length := by
  obtain ⟨l, hl, hx⟩ := List.mem_flatten.1 hx
  obtain ⟨r, hr, rfl⟩ := List.mem_map.1 hl
  obtain ⟨a, -, rfl⟩ := List.mem_map.1 hx
  simpa using List.snd_lt_of_mem_zipIdx hr

/-- The elements at the rows of the slots. -/
theorem pick_tagged {l : List α} {rows : List (List σ)} {sorted : List (Nat × σ)} (hperm : sorted.Perm (tagged rows))
    (h : l.length = rows.length) (d : α) : pick l (sorted.map Prod.fst) = sorted.map fun s => l.getD s.1 d := by
  rw [pick_eq_map _ d, List.map_map]
  · rfl
  · intro i hi
    obtain ⟨s, hs, rfl⟩ := List.mem_map.1 hi
    rw [h]
    exact mem_tagged_lt (hperm.mem_iff.1 hs)

theorem mem_tagged_snd {rows : List (List σ)} {x : Nat × σ} (hx : x ∈ tagged rows) : ∃ row ∈ rows, x.2 ∈ row := by
  have hmem : x.2 ∈ rows.flatten := by
    rw [← map_snd_tagged]
    exact List.mem_map_of_mem hx
  exact List.mem_flatten.1 hmem

/-- The slots of every row added up, in any order. -/
theorem scatterAdd_tagged [AddCommMonoid M] {rows : List (List σ)} {sorted : List (Nat × σ)}
    (hperm : sorted.Perm (tagged rows))
    (c : Nat × σ → M) : scatterAdd (List.replicate rows.length 0) (sorted.map Prod.fst) (sorted.map c) =
      rows.zipIdx.map fun row => (row.1.map fun slot => c (row.2, slot)).sum := by
  apply List.ext_getElem?
  intro t
  rw [scatterAdd_sorted hperm, filter_tagged, List.map_map, List.getElem?_map, List.getElem?_zipIdx]
  rcases Nat.lt_or_ge t rows.length with hlt | hge
  · simp [hlt, Function.comp_def]
  · simp [hge]

end Grouped
