import AuroraRl.Trainer.Packer
import AuroraRl.Trainer.Prepare
import Mathlib

/-!
# Round-robin selection

* `Takes`, `takeSamples_spec` : what the loop over one buffer takes;
* `Work`, `findWork_spec` : the position found has work, and none is found only when there is none;
* `takenOf`, `Selects`, `selectLoop_spec` : the loop ends, keeps the order of every buffer and stays in the budget.
-/

namespace AuroraRl.Trainer
open AuroraRl.Runs

variable {F R : Type}

/-! ## One buffer -/

/-- What the loop over one buffer took. -/
structure Takes (tokenBudget : Nat) (currentStep : Int) (runIdx : Nat) (buffer : List (TrainingSample R × Nat))
    (selected : List (Nat × TrainingSample R × Nat)) (tokens : Nat) (taking : Taking R)
    (taken : List (TrainingSample R × Nat)) : Prop where
  split : buffer = taken ++ taking.buffer
  appended : taking.selected = selected ++ taken.map fun x => (runIdx, x)
  step : ∀ x ∈ taken, (x.2 : Int) ≤ currentStep
  room : tokens + (taken.map (·.1.length)).sum ≤ tokenBudget
  going : taking.returned = false → taking.tokensCollected = tokens + (taken.map (·.1.length)).sum ∧
    ∀ x ∈ taking.buffer.head?, currentStep < x.2
  takes : ∀ x ∈ buffer.head?, (x.2 : Int) ≤ currentStep → tokens = 0 ∨ taking.returned = false → taken ≠ []

theorem takeSamples_spec {tokenBudget : Nat} (currentStep : Int) (runIdx : Nat)
    {buffer : List (TrainingSample R × Nat)} (hfit : ∀ x ∈ buffer, x.1.length ≤ tokenBudget)
    (selected : List (Nat × TrainingSample R × Nat)) (tokens : Nat) (htokens : tokens ≤ tokenBudget) :
    ∃ taken, Takes tokenBudget currentStep runIdx buffer selected tokens
      (takeSamples tokenBudget currentStep runIdx buffer selected tokens) taken := by
  induction buffer generalizing selected tokens with
  | nil =>
      refine ⟨[], rfl, (List.append_nil _).symm, fun _ h => absurd h List.not_mem_nil, by simpa, ?_, ?_⟩
      · exact fun _ => ⟨rfl, fun x hx => by cases hx⟩
      · intro x hx
        cases hx
  | cons y buffer ih =>
      obtain ⟨sample, step⟩ := y
      obtain ⟨hsample, hrest⟩ := List.forall_mem_cons.1 hfit
      unfold takeSamples
      split_ifs with hstep hfull halone
      · refine ⟨[], rfl, (List.append_nil _).symm, fun _ h => absurd h List.not_mem_nil, by simpa, ?_, ?_⟩
        · refine fun _ => ⟨rfl, fun x hx => ?_⟩
          cases hx
          exact hstep
        · intro x hx hle
          cases hx
          exact absurd hstep (not_lt.2 hle)
      · -- An accepted sample is not too large.
        have : sample.length ≤ tokenBudget := hsample
        omega
      · refine ⟨[], rfl, (List.append_nil _).symm, fun _ h => absurd h List.not_mem_nil, by simpa, ?_, ?_⟩
        · intro h
          cases h
        · rintro _ - - (h | h)
          · omega
          · cases h
      · obtain ⟨taken, ht⟩ := ih hrest (selected ++ [(runIdx, sample, step)]) (tokens + sample.length)
          (not_lt.1 hfull)
        have hroom : tokens + sample.length + (taken.map (·.1.length)).sum ≤ tokenBudget := ht.room
        refine ⟨(sample, step) :: taken, ?_, ?_, ?_, ?_, ?_, fun _ _ _ _ => List.cons_ne_nil _ _⟩
        · rw [List.cons_append, ← ht.split]
        · rw [ht.appended, List.append_assoc]
          rfl
        · exact List.forall_mem_cons.2 ⟨not_lt.1 hstep, ht.step⟩
        · rw [List.map_cons, List.sum_cons, ← Nat.add_assoc]
          exact hroom
        · intro h
          obtain ⟨heq, hhead⟩ := ht.going h
          refine ⟨?_, hhead⟩
          rw [heq, List.map_cons, List.sum_cons, Nat.add_assoc]

/-! ## Looking for work -/

section

variable {manager : MultiRunManager F} {buffers : Nat → List (TrainingSample R × Nat)}

/-- Buffered samples have a run with progress. -/
def Tracked (manager : MultiRunManager F) (buffers : Nat → List (TrainingSample R × Nat)) : Prop :=
  ∀ i, buffers i ≠ [] → ∃ p, manager.progress.get? i = some p

/-- The first sample of a buffer is of its run's current step or an earlier one. -/
def Work (manager : MultiRunManager F) (buffers : Nat → List (TrainingSample R × Nat)) (i : Nat) : Prop :=
  ∃ x ∈ (buffers i).head?, ∃ p, manager.progress.get? i = some p ∧ (x.2 : Int) ≤ p.step

theorem hasWork_spec (htracked : Tracked manager buffers) (i : Nat) :
    ∃ b, hasWork manager buffers i = .ok b ∧ (b = true ↔ Work manager buffers i) := by
  unfold hasWork Work
  cases hb : buffers i with
  | nil => exact ⟨false, rfl, by simp⟩
  | cons x buffer =>
      obtain ⟨p, hp⟩ := htracked i (by rw [hb]; exact List.cons_ne_nil _ _)
      refine ⟨decide ((x.2 : Int) ≤ p.step), ?_, ?_⟩
      · exact bind_eq_ok.2 ⟨p, getItem_eq_ok.2 hp, rfl⟩
      · simp [hp]

theorem findWork_spec (htracked : Tracked manager buffers) (n : Nat) {position : Nat} (hpos : position < manager.maxRuns) :
    ∃ r, findWork manager buffers n position = .ok r ∧ r.1 < manager.maxRuns ∧
      (r.2 = true → Work manager buffers r.1) ∧
      (r.2 = false → ∀ j < n, ¬ Work manager buffers ((position + j) % manager.maxRuns)) := by
  induction n generalizing position with
  | zero =>
      refine ⟨(position, false), rfl, hpos, ?_, ?_⟩
      · intro h
        cases h
      · intro _ j hj
        omega
  | succ n ih =>
      obtain ⟨b, hb, hwork⟩ := hasWork_spec htracked position
      cases b with
      | true =>
          refine ⟨(position, true), bind_eq_ok.2 ⟨true, hb, rfl⟩, hpos, fun _ => hwork.1 rfl, ?_⟩
          intro h
          cases h
      | false =>
          obtain ⟨r, hr, hlt, hfound, hnone⟩ := ih (Nat.mod_lt (position + 1) (by omega))
          refine ⟨r, bind_eq_ok.2 ⟨false, hb, hr⟩, hlt, hfound, fun h j hj => ?_⟩
          cases j with
          | zero =>
              rw [Nat.add_zero, Nat.mod_eq_of_lt hpos, ← hwork]
              exact Bool.false_ne_true
          | succ j =>
              have hj' := hnone h j (by omega)
              rwa [Nat.mod_add_mod, Nat.add_assoc, Nat.add_comm 1] at hj'

theorem not_work_of_findWork {position : Nat} (hpos : position < manager.maxRuns)
    (h : ∀ j < manager.maxRuns, ¬ Work manager buffers ((position + j) % manager.maxRuns)) {i : Nat}
    (hi : i < manager.maxRuns) : ¬ Work manager buffers i := by
  have hj := h ((i + (manager.maxRuns - position)) % manager.maxRuns) (Nat.mod_lt _ (by omega))
  have heq : position + (i + (manager.maxRuns - position)) = i + manager.maxRuns := by omega
  rwa [Nat.add_mod_mod, heq, Nat.add_mod_right, Nat.mod_eq_of_lt hi] at hj

end

/-! ## The loop -/

def takenOf (selected : List (Nat × TrainingSample R × Nat)) (i : Nat) : List (TrainingSample R × Nat) :=
  (selected.filter fun x => x.1 = i).map Prod.snd

theorem takenOf_append (selected : List (Nat × TrainingSample R × Nat)) (runIdx : Nat) (taken : List (TrainingSample R × Nat))
    (i : Nat) : takenOf (selected ++ taken.map fun x => (runIdx, x)) i =
      takenOf selected i ++ if runIdx = i then taken else [] := by
  unfold takenOf
  rw [List.filter_append, List.map_append, List.filter_map, List.map_map]
  congr 1
  split_ifs with h
  · have hall : taken.filter ((fun x : Nat × TrainingSample R × Nat => decide (x.1 = i)) ∘ fun x => (runIdx, x)) = taken :=
      List.filter_eq_self.2 fun _ _ => decide_eq_true h
    rw [hall]
    exact List.map_id taken
  · have hnone : taken.filter ((fun x : Nat × TrainingSample R × Nat => decide (x.1 = i)) ∘ fun x => (runIdx, x)) = [] :=
      List.filter_eq_nil_iff.2 fun _ _ => (decide_eq_true_iff.not).2 h
    rw [hnone]
    rfl

def buffered (maxRuns : Nat) (buffers : Nat → List (TrainingSample R × Nat)) : Nat :=
  ∑ i ∈ Finset.range maxRuns, (buffers i).length

theorem buffered_update {maxRuns i : Nat} (hi : i < maxRuns) {buffers : Nat → List (TrainingSample R × Nat)}
    {taken rest : List (TrainingSample R × Nat)} (h : buffers i = taken ++ rest) :
    buffered maxRuns (Function.update buffers i rest) + taken.length = buffered maxRuns buffers := by
  unfold buffered
  rw [← Finset.add_sum_erase _ _ (Finset.mem_range.2 hi), ← Finset.add_sum_erase _ _ (Finset.mem_range.2 hi),
    Function.update_self, h, List.length_append]
  have hrest : ∑ j ∈ (Finset.range maxRuns).erase i, (Function.update buffers i rest j).length =
      ∑ j ∈ (Finset.range maxRuns).erase i, (buffers j).length := by
    refine Finset.sum_congr rfl fun j hj => ?_
    rw [Function.update_of_ne (Finset.ne_of_mem_erase hj)]
  omega

/-- A selection from some buffers: each keeps its order, and everything selected was due. -/
structure Selects (manager : MultiRunManager F) (tokenBudget : Nat) (buffers : Nat → List (TrainingSample R × Nat))
    (x : Selection R) : Prop where
  split : ∀ i, buffers i = takenOf x.selected i ++ x.buffers i
  position : x.position < manager.maxRuns
  inRange : ∀ y ∈ x.selected, y.1 < manager.maxRuns
  due : ∀ y ∈ x.selected, ∃ p, manager.progress.get? y.1 = some p ∧ (y.2.2 : Int) ≤ p.step
  room : (x.selected.map (·.2.1.length)).sum ≤ tokenBudget

section

variable {manager : MultiRunManager F} {tokenBudget : Nat} {buffers : Nat → List (TrainingSample R × Nat)}

theorem Selects.tracked {x : Selection R} (h : Selects manager tokenBudget buffers x) (htracked : Tracked manager buffers) :
    Tracked manager x.buffers := by
  intro i hi
  refine htracked i ?_
  rw [h.split]
  exact List.append_ne_nil_of_right_ne_nil _ hi

theorem Selects.turn {x : Selection R} (h : Selects manager tokenBudget buffers x) {runIdx : Nat}
    (hrun : runIdx < manager.maxRuns) {progress : Progress} (hprogress : manager.progress.get? runIdx = some progress)
    (htokens : x.tokensCollected = (x.selected.map (·.2.1.length)).sum) {taking : Taking R}
    {taken : List (TrainingSample R × Nat)}
    (ht : Takes tokenBudget progress.step runIdx (x.buffers runIdx) x.selected x.tokensCollected taking taken) :
    Selects manager tokenBudget buffers ⟨Function.update x.buffers runIdx taking.buffer, (runIdx + 1) % manager.maxRuns,
      taking.selected, taking.tokensCollected⟩ ∧
      (taking.returned = false → taking.tokensCollected = (taking.selected.map (·.2.1.length)).sum) := by
  have hsum : (taking.selected.map (·.2.1.length)).sum = x.tokensCollected + (taken.map (·.1.length)).sum := by
    rw [ht.appended, List.map_append, List.sum_append, List.map_map, htokens]
    rfl
  refine ⟨⟨fun i => ?_, Nat.mod_lt _ (by omega), ?_, ?_, ?_⟩, fun hgo => (ht.going hgo).1.trans hsum.symm⟩
  · show buffers i = takenOf taking.selected i ++ Function.update x.buffers runIdx taking.buffer i
    rw [ht.appended, takenOf_append, h.split]
    split_ifs with hi
    · subst hi
      rw [Function.update_self, List.append_assoc, ← ht.split]
    · rw [Function.update_of_ne (Ne.symm hi), List.append_nil]
  · show ∀ y ∈ taking.selected, y.1 < manager.maxRuns
    rw [ht.appended]
    intro y hy
    rcases List.mem_append.1 hy with hy | hy
    · exact h.inRange y hy
    · obtain ⟨z, -, rfl⟩ := List.mem_map.1 hy
      exact hrun
  · show ∀ y ∈ taking.selected, _
    rw [ht.appended]
    intro y hy
    rcases List.mem_append.1 hy with hy | hy
    · exact h.due y hy
    · obtain ⟨z, hz, rfl⟩ := List.mem_map.1 hy
      exact ⟨progress, hprogress, ht.step z hz⟩
  · show (taking.selected.map (·.2.1.length)).sum ≤ tokenBudget
    rw [hsum]
    exact ht.room

/-- The loop ends once its fuel exceeds the buffered samples, and selects something when there is work. -/
theorem selectLoop_spec (htracked : Tracked manager buffers) (hfit : ∀ i, ∀ x ∈ buffers i, x.1.length ≤ tokenBudget)
    (fuel : Nat) {x : Selection R} (h : Selects manager tokenBudget buffers x)
    (htokens : x.tokensCollected = (x.selected.map (·.2.1.length)).sum) :
    ∃ r, selectLoop manager tokenBudget fuel x = .ok r ∧
      (buffered manager.maxRuns x.buffers < fuel → r ≠ none) ∧
      ∀ x', r = some x' → Selects manager tokenBudget buffers x' ∧ x.selected <+: x'.selected ∧
        (x.tokensCollected < tokenBudget → (∃ i, i < manager.maxRuns ∧ Work manager x.buffers i) → x.selected = [] →
          x'.selected ≠ []) := by
  induction fuel generalizing x with
  | zero =>
      refine ⟨none, rfl, fun hlt => absurd hlt (Nat.not_lt_zero _), fun x' hx' => ?_⟩
      cases hx'
  | succ fuel ih =>
      unfold selectLoop
      split_ifs with hbudget
      · obtain ⟨r, hr, hlt, hfound, hnone⟩ := findWork_spec (h.tracked htracked) manager.maxRuns h.position
        rw [hr, ok_bind]
        cases hfalse : r.2 with
        | false =>
            refine ⟨some { x with position := r.1 }, rfl, fun _ => Option.some_ne_none _, fun x' hx' => ?_⟩
            cases hx'
            refine ⟨⟨h.split, hlt, h.inRange, h.due, h.room⟩, List.prefix_rfl, ?_⟩
            rintro - ⟨i, hi, hwork⟩ -
            exact absurd hwork (not_work_of_findWork h.position (hnone hfalse) hi)
        | true =>
            obtain ⟨y, hy, p, hp, hle⟩ := hfound hfalse
            have hfit' : ∀ z ∈ x.buffers r.1, z.1.length ≤ tokenBudget := by
              intro z hz
              refine hfit r.1 z ?_
              rw [h.split]
              exact List.mem_append_right _ hz
            obtain ⟨taken, ht⟩ := takeSamples_spec p.step r.1 hfit' x.selected x.tokensCollected hbudget.le
            obtain ⟨hturn, hsum⟩ := h.turn hlt hp htokens ht
            rw [if_pos rfl, getItem_eq_ok.2 hp, ok_bind]
            dsimp only
            generalize takeSamples tokenBudget p.step r.1 (x.buffers r.1) x.selected x.tokensCollected = taking at *
            have hgrown : x.selected <+: taking.selected := ⟨_, ht.appended.symm⟩
            have hnonempty : x.selected = [] → taking.selected ≠ [] := by
              intro hnil
              have htaken := ht.takes y hy hle (.inl (by rw [htokens, hnil]; rfl))
              rw [ht.appended]
              exact List.append_ne_nil_of_right_ne_nil _ (mt List.map_eq_nil_iff.1 htaken)
            cases hret : taking.returned with
            | true =>
                refine ⟨some _, rfl, fun _ => Option.some_ne_none _, fun x' hx' => ?_⟩
                cases hx'
                exact ⟨hturn, hgrown, fun _ _ => hnonempty⟩
            | false =>
                obtain ⟨r', hr', htotal, hr''⟩ := ih hturn (hsum hret)
                refine ⟨r', hr', fun hfuel => htotal ?_, fun x' hx' => ?_⟩
                · have hless := buffered_update hlt ht.split
                  have hpos := List.length_pos_iff.2 (ht.takes y hy hle (.inr hret))
                  show buffered manager.maxRuns (Function.update x.buffers r.1 taking.buffer) < fuel
                  omega
                · obtain ⟨hselects, hgrows, -⟩ := hr'' x' hx'
                  refine ⟨hselects, hgrown.trans hgrows, fun _ _ hnil hnil' => hnonempty hnil ?_⟩
                  exact List.prefix_nil.1 (hnil' ▸ hgrows)
      · refine ⟨some x, rfl, fun _ => Option.some_ne_none _, fun x' hx' => ?_⟩
        cases hx'
        exact ⟨h, List.prefix_rfl, fun hlt => absurd hlt hbudget⟩

end

/-! ## Counting -/

/-- A count grows exactly when there is work. -/
theorem countBuffer_spec (threshold : Option Nat) (currentStep : Int) {buffer : List (TrainingSample R × Nat)}
    (hpos : ∀ x ∈ buffer, 0 < x.1.length) (tokens : Nat) :
    tokens ≤ (MultiPacker.countBuffer threshold currentStep buffer tokens).1 ∧
      (tokens < (MultiPacker.countBuffer threshold currentStep buffer tokens).1 ↔
        ∃ x ∈ buffer.head?, (x.2 : Int) ≤ currentStep) ∧
      ((MultiPacker.countBuffer threshold currentStep buffer tokens).2 = true →
        tokens < (MultiPacker.countBuffer threshold currentStep buffer tokens).1) := by
  have hle : ∀ (buffer : List (TrainingSample R × Nat)) (tokens : Nat),
      tokens ≤ (MultiPacker.countBuffer threshold currentStep buffer tokens).1 := by
    intro buffer
    induction buffer with
    | nil => exact fun _ => le_refl _
    | cons y buffer ih =>
        intro tokens
        unfold MultiPacker.countBuffer
        split_ifs
        · exact le_refl _
        · exact Nat.le_add_right _ _
        · exact (Nat.le_add_right _ _).trans (ih _)
  refine ⟨hle buffer tokens, ?_⟩
  cases buffer with
  | nil => simp [MultiPacker.countBuffer]
  | cons y buffer =>
      have hy := hpos y List.mem_cons_self
      simp only [List.head?_cons, Option.mem_some_iff, exists_eq_left']
      unfold MultiPacker.countBuffer
      split_ifs with hstep
      · exact ⟨iff_of_false (lt_irrefl _) (not_le.2 hstep), fun h => by cases h⟩
      · have hlt : tokens < tokens + y.1.length := Nat.lt_add_of_pos_right hy
        exact ⟨iff_of_true hlt (not_lt.1 hstep), fun _ => hlt⟩
      · have hlt := (Nat.lt_add_of_pos_right hy).trans_le (hle buffer (tokens + y.1.length))
        exact ⟨iff_of_true hlt (not_lt.1 hstep), fun _ => hlt⟩

theorem countRuns_spec {s : MultiPacker F R} (threshold : Option Nat) (hpos : ∀ i, ∀ x ∈ s.buffers i, 0 < x.1.length)
    {idxs : List Nat} (hidxs : ∀ i ∈ idxs, ∃ p, s.manager.progress.get? i = some p) (tokens : Nat) :
    ∃ n, s.countRuns threshold idxs tokens = .ok n ∧ tokens ≤ n ∧
      (tokens < n ↔ ∃ i ∈ idxs, Work s.manager s.buffers i) := by
  induction idxs generalizing tokens with
  | nil => exact ⟨tokens, rfl, le_refl _, by simp⟩
  | cons i idxs ih =>
      obtain ⟨⟨p, hp⟩, hrest⟩ := List.forall_mem_cons.1 hidxs
      have hbuffer := countBuffer_spec threshold p.step (hpos i) tokens
      have hwork : Work s.manager s.buffers i ↔ ∃ x ∈ (s.buffers i).head?, (x.2 : Int) ≤ p.step := by
        unfold Work
        simp [hp]
      unfold MultiPacker.countRuns
      rw [getItem_eq_ok.2 hp, ok_bind]
      dsimp only
      generalize MultiPacker.countBuffer threshold p.step (s.buffers i) tokens = r at hbuffer
      rw [← hwork] at hbuffer
      obtain ⟨hge, hlt, hstop⟩ := hbuffer
      simp only [List.exists_mem_cons_iff, ← hlt]
      split_ifs with hreached
      · exact ⟨r.1, rfl, hge, iff_of_true (hstop hreached) (.inl (hstop hreached))⟩
      · obtain ⟨n, hn, hle, hlt⟩ := ih hrest r.1
        refine ⟨n, hn, hge.trans hle, ?_⟩
        rw [← hlt]
        omega

end AuroraRl.Trainer
