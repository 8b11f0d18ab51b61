import AuroraRl.Trainer.Batch

/-!
# Micro batches of the workers

* `distribute_perm`, `distribute_row` : striding hands out every batch once, and row `r` has the batches `k * w + r`;
* `padGroupForDistribution_spec` : a group and enough dummies to be shared evenly;
* `distribute_append` : two groups of whole rows stay apart at every index.
-/

namespace AuroraRl.Trainer

variable {R α : Type}

/-! ## Striding -/

/-- `distribute` from a grid and an index on. -/
def scatter (w i : Nat) (l : List α) (grid : List (List α)) : List (List α) :=
  (l.zipIdx i).foldl (fun grid x => grid.modify (x.2 % w) (· ++ [x.1])) grid

theorem scatter_cons (w i : Nat) (a : α) (l : List α) (grid : List (List α)) :
    scatter w i (a :: l) grid = scatter w (i + 1) l (grid.modify (i % w) (· ++ [a])) := rfl

theorem scatter_length (w i : Nat) (l : List α) (grid : List (List α)) : (scatter w i l grid).length = grid.length := by
  induction l generalizing i grid with
  | nil => rfl
  | cons a l ih => rw [scatter_cons, ih, List.length_modify]

theorem modify_flatten_perm (a : α) {m : Nat} {grid : List (List α)} (h : m < grid.length) :
    (grid.modify m (· ++ [a])).flatten.Perm (grid.flatten ++ [a]) := by
  induction grid generalizing m with
  | nil => exact absurd h (Nat.not_lt_zero m)
  | cons row grid ih =>
      cases m with
      | zero =>
          rw [List.modify_zero_cons, List.flatten_cons, List.flatten_cons, List.append_assoc, List.append_assoc]
          exact List.perm_append_comm.append_left row
      | succ m =>
          rw [List.modify_succ_cons, List.flatten_cons, List.flatten_cons, List.append_assoc]
          exact (ih (Nat.lt_of_succ_lt_succ h)).append_left row

theorem scatter_perm {w : Nat} (hw : 0 < w) (i : Nat) (l : List α) {grid : List (List α)} (hgrid : grid.length = w) :
    (scatter w i l grid).flatten.Perm (grid.flatten ++ l) := by
  induction l generalizing i grid with
  | nil => exact .of_eq (List.append_nil _).symm
  | cons a l ih =>
      rw [scatter_cons]
      refine (ih (i + 1) ((List.length_modify ..).trans hgrid)).trans ?_
      rw [List.append_cons]
      exact (modify_flatten_perm a ((Nat.mod_lt i hw).trans_eq hgrid.symm)).append_right l

theorem distribute_length (w : Nat) (l : List α) : (distribute w l).length = w :=
  (scatter_length w 0 l _).trans List.length_replicate

theorem distribute_perm {w : Nat} (hw : 0 < w) (l : List α) : (distribute w l).flatten.Perm l := by
  have h := scatter_perm hw 0 l (List.length_replicate (n := w) (a := ([] : List α)))
  rwa [List.flatten_replicate_nil, List.nil_append] at h

theorem distribute_map {β : Type} (f : α → β) (w : Nat) (l : List α) :
    (distribute w l).map (List.map f) = distribute w (l.map f) := by
  have hscatter : ∀ (i : Nat) (grid : List (List α)),
      (scatter w i l grid).map (List.map f) = scatter w i (l.map f) (grid.map (List.map f)) := by
    induction l with
    | nil => exact fun _ _ => rfl
    | cons a l ih =>
        intro i grid
        have hmodify : (grid.modify (i % w) (· ++ [a])).map (List.map f) =
            (grid.map (List.map f)).modify (i % w) (· ++ [f a]) := by
          refine List.ext_getElem? fun j => ?_
          rw [List.getElem?_map, List.getElem?_modify, List.getElem?_modify, List.getElem?_map]
          cases grid[j]? with
          | none => rfl
          | some row =>
              by_cases h : i % w = j <;> simp [h]
        rw [scatter_cons, ih, List.map_cons, scatter_cons, hmodify]
  refine (hscatter 0 _).trans ?_
  rw [List.map_replicate]
  rfl

/-- A row collects the batches whose index has its remainder. -/
theorem scatter_getElem? (w i : Nat) (l : List α) (grid : List (List α)) (r : Nat) :
    (scatter w i l grid)[r]? = grid[r]?.map (· ++ ((l.zipIdx i).filter (·.2 % w = r)).map Prod.fst) := by
  induction l generalizing i grid with
  | nil =>
      show grid[r]? = grid[r]?.map (· ++ [])
      simp
  | cons a l ih =>
      rw [scatter_cons, ih, List.getElem?_modify, List.zipIdx_cons, List.filter_cons]
      by_cases h : i % w = r
      · cases grid[r]? <;> simp [h]
      · cases grid[r]? <;> simp [h]

theorem filter_zipIdx_chunk {w q r : Nat} {l : List α} (hc : l.length = w) (hr : r < l.length) :
    ((l.zipIdx (q * w)).filter (·.2 % w = r)).map Prod.fst = [l[r]] := by
  have hsplit : l = l.take r ++ l[r] :: l.drop (r + 1) := by
    rw [List.getElem_cons_drop, List.take_append_drop]
  have hmod : ∀ i, q * w ≤ i → i < q * w + w → i % w = i - q * w := by
    intro i hi hlt
    obtain ⟨j, rfl⟩ := Nat.exists_eq_add_of_le hi
    rw [Nat.add_comm, Nat.add_mul_mod_self_right, Nat.add_sub_cancel]
    exact Nat.mod_eq_of_lt (by omega)
  have hfront : ((l.take r).zipIdx (q * w)).filter (·.2 % w = r) = [] := by
    rw [List.filter_eq_nil_iff]
    rintro ⟨x, i⟩ hx
    obtain ⟨hlo, hhi, -⟩ := List.mem_zipIdx hx
    rw [List.length_take, hc] at hhi
    have hi := hmod i hlo (by omega)
    simp only [decide_eq_true_eq]
    omega
  have hback : ((l.drop (r + 1)).zipIdx (q * w + r + 1)).filter (·.2 % w = r) = [] := by
    rw [List.filter_eq_nil_iff]
    rintro ⟨x, i⟩ hx
    obtain ⟨hlo, hhi, -⟩ := List.mem_zipIdx hx
    rw [List.length_drop, hc] at hhi
    have hi := hmod i (by omega) (by omega)
    simp only [decide_eq_true_eq]
    omega
  have hlen : (l.take r).length = r := List.length_take_of_le hr.le
  have hself : (q * w + r) % w = r := by
    rw [hmod _ (by omega) (by omega)]
    omega
  conv_lhs => rw [hsplit]
  rw [List.zipIdx_append, List.filter_append, hfront, hlen, List.zipIdx_cons, List.filter_cons,
    if_pos (decide_eq_true hself), hback]
  rfl

/-- Of whole rows, worker `r` gets every `w`-th batch from the `r`-th on. -/
theorem distribute_row {w q r : Nat} {l : List α} (hl : l.length = q * w) (hr : r < w) :
    ∃ row, (distribute w l)[r]? = some row ∧ row.length = q ∧ ∀ k < q, row[k]? = l[k * w + r]? := by
  have hrow : (distribute w l)[r]? = some ((l.zipIdx.filter (·.2 % w = r)).map Prod.fst) := by
    show (scatter w 0 l _)[r]? = _
    rw [scatter_getElem?, List.getElem?_replicate, if_pos hr]
    rfl
  refine ⟨_, hrow, ?_⟩
  clear hrow
  induction q generalizing l with
  | zero =>
      rw [Nat.zero_mul] at hl
      rw [List.length_eq_zero_iff.1 hl]
      exact ⟨rfl, fun k hk => absurd hk (Nat.not_lt_zero k)⟩
  | succ q ih =>
      have hle : q * w ≤ l.length := by
        rw [hl]
        exact Nat.mul_le_mul_right w (Nat.le_succ q)
      have hlast : (l.drop (q * w)).length = w := by
        rw [List.length_drop, hl, Nat.succ_mul, Nat.add_sub_cancel_left]
      have hr' : r < (l.drop (q * w)).length := hr.trans_eq hlast.symm
      have hfirst : (l.take (q * w)).length = q * w := List.length_take_of_le hle
      have hsplit : (l.zipIdx.filter (·.2 % w = r)).map Prod.fst =
          ((l.take (q * w)).zipIdx.filter (·.2 % w = r)).map Prod.fst ++ [(l.drop (q * w))[r]] := by
        conv_lhs => rw [← List.take_append_drop (q * w) l]
        rw [List.zipIdx_append, hfirst, List.filter_append, List.map_append, Nat.zero_add, filter_zipIdx_chunk hlast hr']
      obtain ⟨hlen, hget⟩ := ih hfirst
      rw [hsplit]
      refine ⟨?_, fun k hk => ?_⟩
      · rw [List.length_append, hlen, List.length_singleton]
      · by_cases hkq : k < q
        · have hlt : k * w + r < q * w := by
            have hmul : (k + 1) * w ≤ q * w := Nat.mul_le_mul_right w hkq
            rw [Nat.succ_mul] at hmul
            omega
          rw [List.getElem?_append_left (hkq.trans_eq hlen.symm), hget k hkq, List.getElem?_take, if_pos hlt]
        · obtain rfl : k = q := by omega
          rw [List.getElem?_append_right (by omega), hlen, Nat.sub_self, List.getElem?_singleton, if_pos rfl,
            List.getElem_drop, eq_comm, List.getElem?_eq_some_iff]
          exact ⟨_, rfl⟩

/-- Two groups of whole rows: at every index all workers are in one of them. -/
theorem distribute_append {w a b : Nat} {l l' : List α} {P : α → Prop} (hl : l.length = a * w) (hl' : l'.length = b * w)
    (hP : ∀ x ∈ l, P x) (hP' : ∀ x ∈ l', ¬ P x) {row : List α} (hrow : row ∈ distribute w (l ++ l')) :
    row.length = a + b ∧ ∀ k x, row[k]? = some x → (P x ↔ k < a) := by
  obtain ⟨r, hr, he⟩ := List.getElem_of_mem hrow
  rw [distribute_length] at hr
  have hlen : (l ++ l').length = (a + b) * w := by rw [List.length_append, hl, hl', Nat.add_mul]
  obtain ⟨row', hrow', hlen', hget⟩ := distribute_row hlen hr
  obtain rfl : row = row' := by
    rw [← he]
    exact Option.some.inj ((List.getElem?_eq_getElem _).symm.trans hrow')
  refine ⟨hlen', fun k x hx => ?_⟩
  have hk : k < a + b := hlen' ▸ (List.getElem?_eq_some_iff.1 hx).1
  rw [hget k hk] at hx
  by_cases hka : k < a
  · have hmul : (k + 1) * w ≤ a * w := Nat.mul_le_mul_right w hka
    rw [Nat.succ_mul] at hmul
    rw [List.getElem?_append_left (by omega)] at hx
    exact iff_of_true (hP x (List.mem_of_getElem? hx)) hka
  · have hmul : a * w ≤ k * w := Nat.mul_le_mul_right w (Nat.le_of_not_lt hka)
    rw [List.getElem?_append_right (by omega)] at hx
    exact iff_of_false (hP' x (List.mem_of_getElem? hx)) hka

/-! ## Groups of whole rows -/

section

variable [Zero R]

/-- A group is filled up to whole rows with copies that have no loss. -/
theorem padGroupForDistribution_spec {w : Nat} (hw : 0 < w) (group : List (MicroBatch R)) :
    ∃ dummies q, padGroupForDistribution group w = group ++ dummies ∧ (group ++ dummies).length = q * w ∧
      ∀ d ∈ dummies, ∃ source ∈ group, d = makeDummyBatch source := by
  cases group with
  | nil => exact ⟨[], 0, rfl, (Nat.zero_mul w).symm, fun _ h => absurd h List.not_mem_nil⟩
  | cons first rest =>
      have hdvd : w ∣ (first :: rest).length + (w - (first :: rest).length % w) % w := by
        rw [Nat.dvd_iff_mod_eq_zero]
        have hlt := Nat.mod_lt (first :: rest).length hw
        rw [Nat.add_mod, Nat.mod_mod]
        rcases Nat.eq_zero_or_pos ((first :: rest).length % w) with h | h
        · rw [h, Nat.sub_zero, Nat.mod_self, Nat.zero_add, Nat.zero_mod]
        · rw [Nat.mod_eq_of_lt (Nat.sub_lt hw h), Nat.add_sub_cancel' hlt.le, Nat.mod_self]
      obtain ⟨q, hq⟩ := hdvd
      refine ⟨List.replicate _ (makeDummyBatch first), q, rfl, ?_, fun d hd => ?_⟩
      · rw [List.length_append, List.length_replicate, hq, Nat.mul_comm]
      · exact ⟨first, List.mem_cons_self, List.eq_of_mem_replicate hd⟩

end

end AuroraRl.Trainer
