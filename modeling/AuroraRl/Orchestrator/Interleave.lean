import AuroraRl.Orchestrator.Trajectories
import Mathlib

/-!
# Interleaved rollouts

* `Cell`, `stepCells`, `newCells` : the completion tokens of a sample with the step each comes from;
* `Interleaved` : the invariant of a sample being built, `interleaved_makeSample`, `interleaved_extendSample`;
* `mergeStep_eq` : the loop is first fit;
* `Part`, `interleaveCorrect` : the samples partition the steps, and every completion token is in one of them once.
-/

namespace AuroraRl.Orchestrator
open AuroraRl.Trainer FirstFit

variable {R π : Type}

/-! ## Completion tokens and their steps -/

/-- A completion token of a sample: the step and position it comes from, unless a later prompt brought it in. -/
structure Cell (R : Type) where
  origin : Option (Nat × Nat)
  id : Int
  mask : Bool
  logprob : R

/-- The lists of a step fit together. -/
structure StepTokens.WellFormed (tokens : StepTokens R π) : Prop where
  promptMask : tokens.promptMask.length = tokens.promptIds.length
  completionMask : tokens.completionMask.length = tokens.completionIds.length
  completionLogprobs : tokens.completionLogprobs.length = tokens.completionIds.length

section

variable (output : Rollout R π)

/-- The completion of a step. -/
def stepCells (x : Nat × StepTokens R π) : List (Cell R) :=
  (x.2.completionIds.zip ((output.maskOf x.2).zip x.2.completionLogprobs)).zipIdx.map fun c =>
    ⟨some (x.1, c.2), c.1.1, c.1.2.1, c.1.2.2⟩

/-- The prompt tokens a later step brings in. -/
def newCells [Zero R] (ids : List Int) : List (Cell R) := ids.map fun id => ⟨none, id, false, 0⟩

variable {output} {x : Nat × StepTokens R π}

theorem maskOf_length (tokens : StepTokens R π) : (output.maskOf tokens).length = tokens.completionMask.length := by
  unfold Rollout.maskOf
  split_ifs
  · exact List.length_replicate
  · rfl

theorem maskOf_getElem? (tokens : StepTokens R π) (j : Nat) :
    (output.maskOf tokens)[j]? = tokens.completionMask[j]?.map fun m => m && !output.hasError := by
  unfold Rollout.maskOf
  split_ifs with h
  · rw [h, List.getElem?_replicate]
    split_ifs with hj
    · rw [List.getElem?_eq_getElem hj]
      simp
    · rw [List.getElem?_eq_none (Nat.le_of_not_lt hj)]
      rfl
  · rw [Bool.not_eq_true] at h
    rw [h]
    simp

theorem map_zipIdx_fst {α β : Type} (f : α → β) (l : List α) : (l.zipIdx.map fun c => f c.1) = l.map f := by
  conv_rhs => rw [← List.zipIdx_map_fst 0 l, List.map_map]
  rfl

theorem zip_length (h : x.2.WellFormed) :
    ((output.maskOf x.2).zip x.2.completionLogprobs).length = x.2.completionIds.length := by
  rw [List.length_zip, maskOf_length, h.completionMask, h.completionLogprobs, Nat.min_self]

theorem stepCells_ids (h : x.2.WellFormed) : (stepCells output x).map (·.id) = x.2.completionIds := by
  unfold stepCells
  rw [List.map_map]
  exact (map_zipIdx_fst Prod.fst _).trans (List.map_fst_zip (zip_length h).ge)

theorem stepCells_masks (h : x.2.WellFormed) : (stepCells output x).map (·.mask) = output.maskOf x.2 := by
  have hlen : (output.maskOf x.2).length ≤ x.2.completionLogprobs.length := by
    rw [maskOf_length, h.completionMask, h.completionLogprobs]
  unfold stepCells
  rw [List.map_map]
  refine (map_zipIdx_fst (Prod.fst ∘ (Prod.snd : Int × Bool × R → Bool × R)) _).trans ?_
  rw [← List.map_map, List.map_snd_zip (zip_length h).le, List.map_fst_zip hlen]

theorem stepCells_logprobs (h : x.2.WellFormed) : (stepCells output x).map (·.logprob) = x.2.completionLogprobs := by
  have hlen : x.2.completionLogprobs.length ≤ (output.maskOf x.2).length := by
    rw [maskOf_length, h.completionMask, h.completionLogprobs]
  unfold stepCells
  rw [List.map_map]
  refine (map_zipIdx_fst (Prod.snd ∘ (Prod.snd : Int × Bool × R → Bool × R)) _).trans ?_
  rw [← List.map_map, List.map_snd_zip (zip_length h).le, List.map_snd_zip hlen]

theorem stepCells_length (h : x.2.WellFormed) : (stepCells output x).length = x.2.completionIds.length := by
  rw [← stepCells_ids h, List.length_map]

/-- The places the completion of a step comes from, in order. -/
theorem stepCells_origins (h : x.2.WellFormed) : (stepCells output x).map (·.origin) =
    (List.range x.2.completionIds.length).map fun j => some (x.1, j) := by
  unfold stepCells
  rw [List.map_map]
  show List.map ((fun j => some (x.1, j)) ∘ (Prod.snd : (Int × Bool × R) × Nat → Nat)) _ = _
  rw [← List.map_map, List.zipIdx_map_snd, List.length_zip, zip_length h,
    Nat.min_self, List.range_eq_range']

/-- A completion token has the entries of its step at its position. -/
theorem stepCells_getElem? {c : Cell R} {k : Nat} (hc : (stepCells output x)[k]? = some c) : c.origin = some (x.1, k) ∧
    x.2.completionIds[k]? = some c.id ∧ x.2.completionLogprobs[k]? = some c.logprob ∧
      (x.2.completionMask[k]?.map fun m => m && !output.hasError) = some c.mask := by
  unfold stepCells at hc
  rw [List.getElem?_map, List.getElem?_zipIdx, Option.map_map, Option.map_eq_some_iff] at hc
  obtain ⟨y, hy, rfl⟩ := hc
  rw [List.getElem?_zip_eq_some, List.getElem?_zip_eq_some] at hy
  exact ⟨by simp, hy.1, hy.2.2, (maskOf_getElem? x.2 k).symm.trans hy.2.1⟩

theorem newCells_getElem? [Zero R] {ids : List Int} {c : Cell R} {k : Nat} (hc : (newCells ids)[k]? = some c) :
    c.origin = none ∧ c.mask = false := by
  unfold newCells at hc
  rw [List.getElem?_map, Option.map_eq_some_iff] at hc
  obtain ⟨_, -, rfl⟩ := hc
  exact ⟨rfl, rfl⟩

end

/-! ## A sample being built -/

/-- What a sample and its cells are, after the steps of a bin went in. -/
structure Interleaved [Zero R] (output : Rollout R π) (bin : List (Nat × StepTokens R π)) (a : Active R)
    (cells : List (Cell R)) : Prop where
  last : ∀ x ∈ bin.getLast?, a.prefixTokens = x.2.ids ∧ a.sample.promptIds ++ a.sample.completionIds = x.2.ids
  first : ∀ x ∈ bin.head?, a.sample.promptIds = x.2.promptIds ∧ a.sample.promptMask = x.2.promptMask
  completionIds : a.sample.completionIds = cells.map (·.id)
  completionMask : a.sample.completionMask = cells.map (·.mask)
  completionLogprobs : a.sample.completionLogprobs = cells.map (·.logprob)
  completionTemperatures : a.sample.completionTemperatures = List.replicate cells.length output.temperature
  optional : a.sample.teacherLogprobs = none ∧ a.sample.routedExperts = none ∧ a.sample.mmTokenTypeIds = none
  fresh : ∀ (k : Nat) (c : Cell R), cells[k]? = some c → c.origin = none → c.mask = false
  copied : ∀ (k : Nat) (c : Cell R), cells[k]? = some c → ∀ i j, c.origin = some (i, j) → ∃ tokens, (i, tokens) ∈ bin ∧
    a.sample.promptIds.length + k = tokens.promptIds.length + j ∧ tokens.completionIds[j]? = some c.id ∧
        tokens.completionLogprobs[j]? = some c.logprob ∧
      (tokens.completionMask[j]?.map fun m => m && !output.hasError) = some c.mask
  origins : (cells.map (·.origin)).filterMap id =
    bin.flatMap fun x => (List.range x.2.completionIds.length).map fun j => (x.1, j)
  stepIndices : a.stepIndices = bin.map Prod.fst
  chunks : ∀ chunks, a.chunks = some chunks → ∀ c ∈ chunks, ∃ x ∈ bin, ∃ r, x.2.routedExperts = some r ∧
    c.rowShape = r.rowShape

section

variable [Zero R] {output : Rollout R π} {x : Nat × StepTokens R π}

omit [Zero R] in
theorem stepCells_filterMap (h : x.2.WellFormed) : ((stepCells output x).map (·.origin)).filterMap id =
    (List.range x.2.completionIds.length).map fun j => (x.1, j) := by
  rw [stepCells_origins h, List.filterMap_map]
  exact congrFun List.filterMap_eq_map' _

theorem interleaved_makeSample (h : x.2.WellFormed) : Interleaved output [x] (makeSample output x) (stepCells output x) where
  last := by
    rintro _ ⟨⟩
    exact ⟨rfl, rfl⟩
  first := by
    rintro _ ⟨⟩
    exact ⟨rfl, rfl⟩
  completionIds := (stepCells_ids h).symm
  completionMask := (stepCells_masks h).symm
  completionLogprobs := (stepCells_logprobs h).symm
  completionTemperatures := by
    rw [stepCells_length h]
    rfl
  optional := ⟨rfl, rfl, rfl⟩
  fresh := by
    intro k c hc hnone
    rw [(stepCells_getElem? hc).1] at hnone
    cases hnone
  copied := by
    intro k c hc i j hij
    obtain ⟨horigin, hrest⟩ := stepCells_getElem? hc
    rw [horigin] at hij
    cases hij
    exact ⟨x.2, List.mem_singleton_self _, rfl, hrest⟩
  origins := by
    rw [stepCells_filterMap h, List.flatMap_cons, List.flatMap_nil, List.append_nil]
  stepIndices := rfl
  chunks := by
    intro chunks hchunks c hc
    obtain ⟨r, hr, rfl⟩ := Option.map_eq_some_iff.1 hchunks
    rw [List.mem_singleton.1 hc]
    exact ⟨x, List.mem_singleton_self x, r, hr, rfl⟩

theorem newChunks_rowShape {r c : ByteArray2} {n : Nat} (hc : c ∈ newChunks r n) : c.rowShape = r.rowShape := by
  unfold newChunks at hc
  split_ifs at hc
  · rcases List.mem_pair.1 hc with rfl | rfl <;> rfl
  · rw [List.mem_singleton.1 hc]
    rfl

/-- A later step whose prompt starts with the tokens of the sample. -/
theorem interleaved_extendSample {bin : List (Nat × StepTokens R π)} {a : Active R} {cells : List (Cell R)}
    (hne : bin ≠ []) (ha : Interleaved output bin a cells) (h : x.2.WellFormed)
    (hstarts : x.2.promptIds.take a.prefixTokens.length = a.prefixTokens) :
    Interleaved output (bin ++ [x]) (extendSample output a x)
      (cells ++ newCells (x.2.promptIds.drop a.prefixTokens.length) ++ stepCells output x) where
  last := by
    intro y hy
    rw [List.getLast?_concat] at hy
    cases hy
    refine ⟨rfl, ?_⟩
    have hlast := (ha.last _ (List.getLast?_eq_getLast_of_ne_nil hne)).2
    have hids := (ha.last _ (List.getLast?_eq_getLast_of_ne_nil hne)).1
    show a.sample.promptIds ++ (a.sample.completionIds ++ x.2.promptIds.drop a.prefixTokens.length ++ x.2.completionIds) =
      x.2.promptIds ++ x.2.completionIds
    rw [← List.append_assoc, ← List.append_assoc, hlast, ← hids]
    exact congrArg (· ++ x.2.completionIds) ((congrArg (· ++ _) hstarts.symm).trans (List.take_append_drop _ _))
  first := by
    intro y hy
    rw [List.head?_append_of_ne_nil _ hne] at hy
    exact ha.first y hy
  completionIds := by
    show a.sample.completionIds ++ x.2.promptIds.drop a.prefixTokens.length ++ x.2.completionIds = _
    rw [List.map_append, List.map_append, stepCells_ids h, ha.completionIds, newCells, List.map_map]
    exact congrArg (_ ++ · ++ _) (List.map_id _).symm
  completionMask := by
    show a.sample.completionMask ++ List.replicate _ false ++ output.maskOf x.2 = _
    rw [List.map_append, List.map_append, stepCells_masks h, ha.completionMask, newCells, List.map_map]
    exact congrArg (_ ++ · ++ _) (List.map_const' ..).symm
  completionLogprobs := by
    show a.sample.completionLogprobs ++ List.replicate _ 0 ++ x.2.completionLogprobs = _
    rw [List.map_append, List.map_append, stepCells_logprobs h, ha.completionLogprobs, newCells, List.map_map]
    exact congrArg (_ ++ · ++ _) (List.map_const' ..).symm
  completionTemperatures := by
    show a.sample.completionTemperatures ++ List.replicate _ output.temperature ++ List.replicate _ output.temperature = _
    rw [ha.completionTemperatures, List.replicate_append_replicate, List.replicate_append_replicate, List.length_append,
      List.length_append, stepCells_length h, newCells, List.length_map]
  optional := ha.optional
  fresh := by
    intro k c hc hnone
    rw [List.getElem?_append] at hc
    split_ifs at hc
    · rw [List.getElem?_append] at hc
      split_ifs at hc
      · exact ha.fresh k c hc hnone
      · exact (newCells_getElem? hc).2
    · rw [(stepCells_getElem? hc).1] at hnone
      cases hnone
  copied := by
    intro k c hc i j hij
    rw [List.getElem?_append] at hc
    split_ifs at hc with hk
    · rw [List.getElem?_append] at hc
      split_ifs at hc
      · obtain ⟨tokens, hmem, hrest⟩ := ha.copied k c hc i j hij
        exact ⟨tokens, List.mem_append_left _ hmem, hrest⟩
      · rw [(newCells_getElem? hc).1] at hij
        cases hij
    · obtain ⟨horigin, hrest⟩ := stepCells_getElem? hc
      rw [horigin] at hij
      cases hij
      refine ⟨x.2, List.mem_append_right _ (List.mem_singleton_self _), ?_, hrest⟩
      -- The tokens before the completion of the step are its prompt.
      have hlast := ha.last _ (List.getLast?_eq_getLast_of_ne_nil hne)
      have hlen := congrArg List.length (hlast.2.trans hlast.1.symm)
      have hle := congrArg List.length hstarts
      rw [List.length_append, ha.completionIds, List.length_map] at hlen
      rw [List.length_take] at hle
      rw [List.length_append, newCells, List.length_map, List.length_drop] at hk ⊢
      show a.sample.promptIds.length + k = _
      omega
  origins := by
    have hnew : ((newCells (R := R) (x.2.promptIds.drop a.prefixTokens.length)).map (·.origin)).filterMap id = [] := by
      rw [newCells, List.map_map]
      exact (congrArg (List.filterMap id) (List.map_const' ..)).trans (List.filterMap_replicate_of_none rfl)
    rw [List.map_append, List.map_append, List.filterMap_append, List.filterMap_append, hnew, List.append_nil,
      stepCells_filterMap h, ha.origins, List.flatMap_append, List.flatMap_cons, List.flatMap_nil, List.append_nil]
  stepIndices := by
    show a.stepIndices ++ [x.1] = _
    rw [ha.stepIndices, List.map_append]
    rfl
  chunks := by
    intro chunks hchunks c hc
    have hold : ∀ chunks, a.chunks = some chunks → ∀ c ∈ chunks, ∃ y ∈ bin ++ [x], ∃ r, y.2.routedExperts = some r ∧
        c.rowShape = r.rowShape := by
      intro chunks hchunks c hc
      obtain ⟨y, hy, hrest⟩ := ha.chunks chunks hchunks c hc
      exact ⟨y, List.mem_append_left _ hy, hrest⟩
    unfold extendSample at hchunks
    dsimp only at hchunks
    cases hr : x.2.routedExperts with
    | none =>
        rw [hr] at hchunks
        exact hold chunks hchunks c hc
    | some r =>
        cases hcs : a.chunks with
        | none =>
            rw [hr, hcs] at hchunks
            cases hchunks
        | some old =>
            rw [hr, hcs] at hchunks
            cases hchunks
            rcases List.mem_append.1 hc with hc | hc
            · exact hold old hcs c hc
            · exact ⟨x, List.mem_append_right _ (List.mem_singleton_self x), r, hr, newChunks_rowShape hc⟩

end

/-! ## The loop is first fit -/

section

variable [Zero R] {output : Rollout R π}

omit [Zero R] in
/-- A step extends the last step of a sample. -/
def stepExtends (bin : List (Nat × StepTokens R π)) (x : Nat × StepTokens R π) : Bool :=
  bin.getLast?.all fun y => decide (x.2.promptIds.take y.2.ids.length = y.2.ids)

theorem mergeStep_eq (l : List (Active R)) (x : Nat × StepTokens R π) :
    (placeM (fun x => .ok (makeSample output x)) (fun a x => .ok (extendSample output a x)) extendsPrefix x l :
      Except PyException (List (Active R))) = .ok (mergeStep output l x) := by
  induction l with
  | nil => rfl
  | cons a l ih =>
      unfold placeM mergeStep
      rw [List.findIdx?_cons]
      cases hfits : extendsPrefix a x with
      | true => rfl
      | false =>
          rw [ih]
          unfold mergeStep
          cases l.findIdx? (extendsPrefix · x) <;> rfl

/-- A sample built from the steps of a bin. -/
abbrev Grown (output : Rollout R π) : List (Nat × StepTokens R π) → Active R → Prop :=
  Built (ε := PyException) (fun x => .ok (makeSample output x)) fun a x => .ok (extendSample output a x)

theorem Grown.prefixTokens {bin : List (Nat × StepTokens R π)} {a : Active R} (h : Grown output bin a) :
    ∀ y ∈ bin.getLast?, a.prefixTokens = y.2.ids := by
  cases h with
  | opened h =>
      cases h
      rintro _ ⟨⟩
      rfl
  | added _ h =>
      cases h
      intro y hy
      rw [List.getLast?_concat] at hy
      cases hy
      rfl

/-- The samples of the loop are built from the bins of first fit. -/
theorem foldl_mergeStep (steps : List (Nat × StepTokens R π)) :
    List.Forall₂ (Grown output) (firstFit stepExtends steps) (steps.foldl (mergeStep output) []) := by
  have hfits : ∀ {bin : List (Nat × StepTokens R π)} {a : Active R} (x : Nat × StepTokens R π), Grown output bin a →
      extendsPrefix a x = stepExtends bin x := by
    intro bin a x h
    obtain ⟨y, hy⟩ := Option.ne_none_iff_exists'.1 (mt List.getLast?_eq_none_iff.1 h.ne_nil)
    unfold extendsPrefix stepExtends
    rw [hy, Option.all_some, h.prefixTokens y hy]
  refine (firstFitM_eq_ok_iff hfits).1 ?_
  unfold firstFitM
  simp only [mergeStep_eq]
  exact List.foldlM_pure

end

/-! ## The end of `interleave_rollout` -/

namespace ByteArray2

theorem concatenate₂_spec {a b : ByteArray2} (h : a.rowShape = b.rowShape) :
    ∃ r, a.concatenate₂ b = .ok r ∧ r.rows = a.rows ++ b.rows ∧ r.rowShape = a.rowShape :=
  ⟨a.append b h, dif_pos h, rfl, rfl⟩

theorem concatenate_spec {chunks : List ByteArray2} (hne : chunks ≠ []) {rowShape : List Nat}
    (h : ∀ c ∈ chunks, c.rowShape = rowShape) :
    ∃ r, concatenate chunks = .ok r ∧ r.rows = chunks.flatMap (·.rows) ∧ r.rowShape = rowShape := by
  cases chunks with
  | nil => exact absurd rfl hne
  | cons a chunks =>
      show ∃ r, chunks.foldlM concatenate₂ a = .ok r ∧ _
      obtain ⟨ha, hrest⟩ := List.forall_mem_cons.1 h
      clear h hne
      induction chunks generalizing a with
      | nil => exact ⟨a, rfl, by simp, ha⟩
      | cons c chunks ih =>
          obtain ⟨hc, hrest⟩ := List.forall_mem_cons.1 hrest
          obtain ⟨r, hr, hrows, hshape⟩ := concatenate₂_spec (ha.trans hc.symm)
          obtain ⟨r', hr', hrows', hshape'⟩ := ih r (hshape.trans ha) hrest
          refine ⟨r', ?_, ?_, hshape'⟩
          · rw [List.foldlM_cons, hr]
            exact hr'
          · simp [hrows', hrows]

end ByteArray2

/-- Rows cut or filled with zeros to the length `n`. -/
def alignedRows (rowSize n : Nat) (rows : List (List UInt8)) : List (List UInt8) :=
  rows.take n ++ List.replicate (n - rows.length) (List.replicate rowSize 0)

@[simp] theorem alignedRows_length (rowSize n : Nat) (rows : List (List UInt8)) :
    (alignedRows rowSize n rows).length = n := by
  simp only [alignedRows, List.length_append, List.length_take, List.length_replicate]
  omega

theorem alignRoutedExperts_spec {a : ByteArray2} (h : a.rowShape.length = 2) (n : Nat) :
    ∃ r, alignRoutedExperts a n = .ok r ∧ r.rows = alignedRows (a.rowShape.foldr (· * ·) 1) n a.rows ∧
      r.rowShape = a.rowShape := by
  have hassert : pyAssert (a.rowShape.length = 2) "" = .ok () := pyAssert_eq_ok.2 h
  unfold alignRoutedExperts
  rw [hassert]
  show ∃ r, (if n < a.rows.length then _ else _ : Except PyException ByteArray2) = .ok r ∧ _
  split_ifs with hlt hzero
  · refine ⟨_, rfl, ?_, rfl⟩
    simp [ByteArray2.slice, alignedRows, Nat.sub_eq_zero_of_le hlt.le]
  · refine ⟨a, rfl, ?_, rfl⟩
    simp [alignedRows, List.take_of_length_le (Nat.le_of_not_lt hlt), show a.rows.length = n by omega]
  · obtain ⟨r, hr, hrows, hshape⟩ := ByteArray2.concatenate₂_spec
      (show a.rowShape = (ByteArray2.zeros (n - a.rows.length) a.rowShape).rowShape from rfl)
    refine ⟨r, hr, ?_, hshape⟩
    rw [hrows, alignedRows, List.take_of_length_le (Nat.le_of_not_lt hlt)]
    rfl

/-- A sample without what is attached to it at the end. -/
def bare (sample : TrainingSample R) : TrainingSample R :=
  { sample with mmKwargs := none, routedExperts := none, mmTokenTypeIds := none }

/-- The lists that are attached at the end have an entry for every token. -/
structure Attached (a a' : Active R) : Prop where
  stepIndices : a'.stepIndices = a.stepIndices
  sample : bare a'.sample = bare a.sample
  routedExperts : ∀ r, a'.sample.routedExperts = some r →
    r.shape[0]? = some (a.sample.promptIds.length + a.sample.completionIds.length)
  mmTokenTypeIds : ∀ l, a'.sample.mmTokenTypeIds = some l →
    l.length = a.sample.promptIds.length + a.sample.completionIds.length

theorem Attached.field {a a' : Active R} (h : Attached a a') {β : Type} (f : TrainingSample R → β)
    (hf : ∀ sample, f (bare sample) = f sample) : f a'.sample = f a.sample := by
  rw [← hf, h.sample, hf]

theorem finalizeRoutedExperts_spec {a : Active R} (hnone : a.sample.routedExperts = none)
    (hmm : a.sample.mmTokenTypeIds = none) {layers topk : Nat}
    (hchunks : ∀ chunks, a.chunks = some chunks → ∀ c ∈ chunks, c.rowShape = [layers, topk]) :
    ∃ a', finalizeRoutedExperts a = .ok a' ∧ Attached a a' := by
  have hkeep : Attached a a := by
    refine ⟨rfl, rfl, fun r hr => ?_, fun l hl => ?_⟩
    · rw [hnone] at hr
      cases hr
    · rw [hmm] at hl
      cases hl
  unfold finalizeRoutedExperts
  rcases hc : a.chunks with _ | _ | ⟨c, chunks⟩
  · exact ⟨a, rfl, hkeep⟩
  · exact ⟨a, rfl, hkeep⟩
  · obtain ⟨r, hr, -, hshape⟩ := ByteArray2.concatenate_spec (List.cons_ne_nil c chunks) (hchunks _ hc)
    obtain ⟨r', hr', hrows, -⟩ := alignRoutedExperts_spec (a := r) (by rw [hshape]; rfl)
      (a.sample.promptIds.length + a.sample.completionIds.length)
    refine ⟨{ a with chunks := some (c :: chunks), sample := { a.sample with routedExperts := some r'.encode } },
      bind_eq_ok.2 ⟨r, hr, bind_eq_ok.2 ⟨r', hr', rfl⟩⟩, rfl, rfl, ?_, ?_⟩
    · intro _ h
      cases h
      exact congrArg some ((congrArg List.length hrows).trans (alignedRows_length ..))
    · intro l hl
      rw [show a.sample.mmTokenTypeIds = some l from hl] at hmm
      cases hmm

/-- A tensor payload of a keyword in the images of the steps. -/
def Payload (steps : List (StepTokens R π)) (key : String) (v : π) : Prop :=
  ∃ tokens ∈ steps, ∃ e ∈ (tokens.mmItems.getD ∅).entries, ∃ item ∈ e.2, (key, v) ∈ item.entries

theorem mem_unionStepMmData {steps : List (StepTokens R π)} {indices : List Nat} {d : MmItems π}
    (h : unionStepMmData steps indices = some d) {item : Dict String π} (hitem : item ∈ d.values.flatten) :
    ∃ tokens ∈ steps, ∃ e ∈ (tokens.mmItems.getD ∅).entries, item ∈ e.2 := by
  unfold unionStepMmData at h
  dsimp only at h
  split_ifs at h
  cases h
  obtain ⟨items, hitems, hin⟩ := List.mem_flatten.1 hitem
  obtain ⟨⟨modality, _⟩, hentry, rfl⟩ := List.mem_map.1 hitems
  rw [Dict.mem_entries_iff] at hentry
  rcases Dict.mem_appendAll hentry hin with ⟨_, hget, -⟩ | hmem
  · cases hget
  · obtain ⟨i, -, hi⟩ := List.mem_flatMap.1 hmem
    cases hs : steps[i]? with
    | none =>
        rw [hs] at hi
        cases hi
    | some tokens =>
        rw [hs] at hi
        obtain ⟨e, he, hmap⟩ := List.mem_flatMap.1 hi
        obtain ⟨item', hitem', heq⟩ := List.mem_map.1 hmap
        cases heq
        exact ⟨tokens, List.mem_of_getElem? hs, e, he, hitem'⟩

theorem packMmKwargs_spec {concat : List π → Except PyException EncodedTensor} {steps : List (StepTokens R π)}
    (hconcat : ∀ key l, l ≠ [] → (∀ v ∈ l, Payload steps key v) → ∃ t, concat l = .ok t) {indices : List Nat} {d : MmItems π}
    (h : unionStepMmData steps indices = some d) : ∃ mmKwargs, packMmKwargsFromRenderer concat d = .ok mmKwargs := by
  have hentries : ∀ e ∈ (Dict.appendAll ∅ (d.values.flatten.flatMap (·.entries))).entries, ∃ t, concat e.2 = .ok t := by
    rintro ⟨key, l⟩ he
    rw [Dict.mem_entries_iff] at he
    refine hconcat key l (Dict.appendAll_ne_nil (fun _ _ h => by cases h) he) fun v hv => ?_
    rcases Dict.mem_appendAll he hv with ⟨_, hget, -⟩ | hmem
    · cases hget
    · obtain ⟨item, hitem, hkv⟩ := List.mem_flatMap.1 hmem
      obtain ⟨tokens, ht, e, he, hin⟩ := mem_unionStepMmData h hitem
      exact ⟨tokens, ht, e, he, item, hin, hkv⟩
  unfold packMmKwargsFromRenderer
  dsimp only
  generalize (Dict.appendAll ∅ (d.values.flatten.flatMap (·.entries))).entries = entries at hentries
  cases entries with
  | nil => exact ⟨none, rfl⟩
  | cons e entries =>
      have hone : ∀ e' ∈ e :: entries, ∃ y, (do return (e'.1, ← concat e'.2) : Except PyException (String × EncodedTensor)) =
          .ok y := by
        intro e' he'
        obtain ⟨t, ht⟩ := hentries e' he'
        exact ⟨(e'.1, t), bind_eq_ok.2 ⟨t, ht, rfl⟩⟩
      obtain ⟨out, hout⟩ := exists_forall₂_iff.2 hone
      exact ⟨_, bind_eq_ok.2 ⟨out, mapM_eq_ok_iff.2 hout, rfl⟩⟩

theorem attachImages_spec {concat : List π → Except PyException EncodedTensor} {steps : List (StepTokens R π)}
    (hconcat : ∀ key l, l ≠ [] → (∀ v ∈ l, Payload steps key v) → ∃ t, concat l = .ok t) (mapping : Option (Dict Int Int))
    {a a' : Active R} (ha : Attached a a') : ∃ a'', attachImages concat mapping steps a' = .ok a'' ∧ Attached a a'' := by
  unfold attachImages
  split
  · exact ⟨a', rfl, ha⟩
  · rename_i d hd
    obtain ⟨mmKwargs, hpack⟩ := packMmKwargs_spec hconcat hd
    rw [hpack]
    cases mmKwargs with
    | none => exact ⟨a', rfl, ha⟩
    | some mmKwargs =>
        refine ⟨_, rfl, ha.stepIndices, ha.sample, fun r' hr' => ha.routedExperts r' hr', ?_⟩
        intro l hl
        rcases mapping with _ | mapping
        · exact ha.mmTokenTypeIds l hl
        · cases hl
          rw [List.length_map, List.length_append, ha.field TrainingSample.promptIds fun _ => rfl,
            ha.field TrainingSample.completionIds fun _ => rfl]

/-! ## The returned samples -/

/-- The token lists of a rollout fit together, and what is attached to the samples can be joined. -/
structure Rollout.WellFormed (concat : List π → Except PyException EncodedTensor) (output : Rollout R π) : Prop where
  tokens : ∀ step ∈ output.trajectory, ∃ tokens, step = some tokens ∧ tokens.WellFormed
  routedExperts : ∃ layers topk, ∀ tokens, some tokens ∈ output.trajectory → ∀ r, tokens.routedExperts = some r →
    r.rowShape = [layers, topk]
  payloads : ∀ key l, l ≠ [] → (∀ v ∈ l, Payload output.trajectory.reduceOption key v) → ∃ t, concat l = .ok t

/-- A returned sample, with the steps in it and its completion tokens. -/
structure Part (R π : Type) where
  steps : List (Nat × StepTokens R π)
  cells : List (Cell R)
  sample : TrainingSample R

/-- What a returned sample is: the tokens of its last step, each with the entries of the step it comes from. -/
structure Part.Correct [Zero R] (output : Rollout R π) (p : Part R π) : Prop where
  nonempty : p.steps ≠ []
  last : ∀ x ∈ p.steps.getLast?, p.sample.promptIds ++ p.sample.completionIds = x.2.ids
  first : ∀ x ∈ p.steps.head?, p.sample.promptIds = x.2.promptIds ∧ p.sample.promptMask = x.2.promptMask
  promptMask : p.sample.promptMask.length = p.sample.promptIds.length
  completionIds : p.sample.completionIds = p.cells.map (·.id)
  completionMask : p.sample.completionMask = p.cells.map (·.mask)
  completionLogprobs : p.sample.completionLogprobs = p.cells.map (·.logprob)
  completionTemperatures : p.sample.completionTemperatures = List.replicate p.cells.length output.temperature
  teacherLogprobs : p.sample.teacherLogprobs = none
  routedExperts : ∀ r, p.sample.routedExperts = some r →
    r.shape[0]? = some (p.sample.promptIds.length + p.sample.completionIds.length)
  mmTokenTypeIds : ∀ l, p.sample.mmTokenTypeIds = some l →
    l.length = p.sample.promptIds.length + p.sample.completionIds.length
  fresh : ∀ (k : Nat) (c : Cell R), p.cells[k]? = some c → c.origin = none → c.mask = false
  copied : ∀ (k : Nat) (c : Cell R), p.cells[k]? = some c → ∀ i j, c.origin = some (i, j) →
    ∃ tokens, (i, tokens) ∈ p.steps ∧ p.sample.promptIds.length + k = tokens.promptIds.length + j ∧
      tokens.completionIds[j]? = some c.id ∧ tokens.completionLogprobs[j]? = some c.logprob ∧
        (tokens.completionMask[j]?.map fun m => m && !output.hasError) = some c.mask

section

variable [Zero R] {output : Rollout R π} {concat : List π → Except PyException EncodedTensor}

/-- A sample of the loop, after the routed experts and the images were attached. -/
theorem correct_of_interleaved {steps : List (StepTokens R π)} {layers topk : Nat}
    {bin : List (Nat × StepTokens R π)} {a : Active R} {cells : List (Cell R)} (ha : Interleaved output bin a cells)
    (hne : bin ≠ []) (hwf : ∀ x ∈ bin, x.2.WellFormed)
    (hshape : ∀ x ∈ bin, ∀ r, x.2.routedExperts = some r → r.rowShape = [layers, topk])
    (hconcat : ∀ key l, l ≠ [] → (∀ v ∈ l, Payload steps key v) → ∃ t, concat l = .ok t) (mapping : Option (Dict Int Int)) :
    ∃ a' a'', finalizeRoutedExperts a = .ok a' ∧ attachImages concat mapping steps a' = .ok a'' ∧
      (⟨bin, cells, a''.sample⟩ : Part R π).Correct output := by
  have hchunks : ∀ chunks, a.chunks = some chunks → ∀ c ∈ chunks, c.rowShape = [layers, topk] := by
    intro chunks hc c hmem
    obtain ⟨x, hx, r, hr, heq⟩ := ha.chunks chunks hc c hmem
    exact heq.trans (hshape x hx r hr)
  obtain ⟨a', hfinal, hatt⟩ := finalizeRoutedExperts_spec ha.optional.2.1 ha.optional.2.2 hchunks
  obtain ⟨a'', hattach, hatt⟩ := attachImages_spec hconcat mapping hatt
  have hids : a''.sample.promptIds = a.sample.promptIds := hatt.field TrainingSample.promptIds fun _ => rfl
  have hcompletion : a''.sample.completionIds = a.sample.completionIds := hatt.field TrainingSample.completionIds fun _ => rfl
  have hmask : a''.sample.promptMask = a.sample.promptMask := hatt.field TrainingSample.promptMask fun _ => rfl
  refine ⟨a', a'', hfinal, hattach, hne, ?_, ?_, ?_, hcompletion.trans ha.completionIds,
    (hatt.field TrainingSample.completionMask fun _ => rfl).trans ha.completionMask,
    (hatt.field TrainingSample.completionLogprobs fun _ => rfl).trans ha.completionLogprobs,
    (hatt.field TrainingSample.completionTemperatures fun _ => rfl).trans ha.completionTemperatures,
    (hatt.field TrainingSample.teacherLogprobs fun _ => rfl).trans ha.optional.1, ?_, ?_, ha.fresh, ?_⟩
  · intro x hx
    exact (congrArg₂ (· ++ ·) hids hcompletion).trans (ha.last x hx).2
  · intro x hx
    exact ⟨hids.trans (ha.first x hx).1, hmask.trans (ha.first x hx).2⟩
  · obtain ⟨x, hx⟩ := Option.ne_none_iff_exists'.1 (mt List.head?_eq_none_iff.1 hne)
    have hfirst := ha.first x hx
    show a''.sample.promptMask.length = a''.sample.promptIds.length
    rw [hmask, hids, hfirst.1, hfirst.2, (hwf x (List.mem_of_mem_head? hx)).promptMask]
  · intro r hr
    show r.shape[0]? = some (a''.sample.promptIds.length + a''.sample.completionIds.length)
    rw [hids, hcompletion]
    exact hatt.routedExperts r hr
  · intro l hl
    show l.length = a''.sample.promptIds.length + a''.sample.completionIds.length
    rw [hids, hcompletion]
    exact hatt.mmTokenTypeIds l hl
  · intro k c hc i j hij
    obtain ⟨tokens, hmem, hpos, hrest⟩ := ha.copied k c hc i j hij
    refine ⟨tokens, hmem, ?_, hrest⟩
    show a''.sample.promptIds.length + k = _
    rw [hids]
    exact hpos

omit [Zero R] in
theorem exists_parts {steps : List (StepTokens R π)} {mapping : Option (Dict Int Int)} {P : Part R π → Prop}
    {bins : List (List (Nat × StepTokens R π))} {actives : List (Active R)}
    (h : List.Forall₂ (fun bin a => ∃ a' a'' cells, finalizeRoutedExperts a = .ok a' ∧
      attachImages concat mapping steps a' = .ok a'' ∧ P ⟨bin, cells, a''.sample⟩) bins actives) :
    ∃ l l', ∃ parts : List (Part R π), actives.mapM finalizeRoutedExperts = .ok l ∧
    l.mapM (attachImages concat mapping steps) = .ok l' ∧
      l'.map (·.sample) = parts.map Part.sample ∧ parts.map Part.steps = bins ∧ ∀ p ∈ parts, P p := by
  suffices hall : ∃ l l', ∃ parts : List (Part R π), List.Forall₂ (fun a a' => finalizeRoutedExperts a = .ok a') actives l ∧
      List.Forall₂ (fun a a' => attachImages concat mapping steps a = .ok a') l l' ∧
      l'.map (·.sample) = parts.map Part.sample ∧ parts.map Part.steps = bins ∧ ∀ p ∈ parts, P p by
    obtain ⟨l, l', parts, hl, hl', hrest⟩ := hall
    exact ⟨l, l', parts, mapM_eq_ok_iff.2 hl, mapM_eq_ok_iff.2 hl', hrest⟩
  induction h with
  | nil => exact ⟨[], [], [], .nil, .nil, rfl, rfl, fun _ h => absurd h List.not_mem_nil⟩
  | @cons bin a bins actives hone _ ih =>
      obtain ⟨a', a'', cells, hfinal, hattach, hP⟩ := hone
      obtain ⟨l, l', parts, hl, hl', hsamples, hbins, hparts⟩ := ih
      refine ⟨a' :: l, a'' :: l', ⟨bin, cells, a''.sample⟩ :: parts, .cons hfinal hl, .cons hattach hl', ?_, ?_, ?_⟩
      · rw [List.map_cons, List.map_cons, hsamples]
      · rw [List.map_cons, hbins]
      · exact List.forall_mem_cons.2 ⟨hP, hparts⟩

omit [Zero R] in
/-- An entry that some lists together hold once is at one place. -/
theorem existsUnique_place {α β : Type} {f : α → Option β} {ls : List (List α)}
    (h : (ls.flatMap fun l => l.filterMap f).Nodup) {b : β} (hb : b ∈ ls.flatMap fun l => l.filterMap f) :
    ∃! pos : Nat × Nat, ∃ l c, ls[pos.1]? = some l ∧ l[pos.2]? = some c ∧ f c = some b := by
  obtain ⟨l, hl, hmem⟩ := List.mem_flatMap.1 hb
  obtain ⟨c, hc, hf⟩ := List.mem_filterMap.1 hmem
  obtain ⟨m, hm⟩ := List.getElem?_of_mem hl
  obtain ⟨k, hk⟩ := List.getElem?_of_mem hc
  obtain ⟨hnodup, hdisjoint⟩ := List.nodup_flatMap.1 h
  have hindex : ∀ {γ : Type} {S : γ → γ → Prop} {xs : List γ}, xs.Pairwise S → (∀ x y, S x y → S y x) →
      ∀ {i j : Nat} {x y : γ}, xs[i]? = some x → xs[j]? = some y → ¬ S x y → i = j := by
    intro γ S xs hpair hsymm i j x y hx hy hnot
    obtain ⟨hi, rfl⟩ := List.getElem?_eq_some_iff.1 hx
    obtain ⟨hj, rfl⟩ := List.getElem?_eq_some_iff.1 hy
    rcases Nat.lt_trichotomy i j with hlt | heq | hlt
    · exact absurd (List.pairwise_iff_getElem.1 hpair i j hi hj hlt) hnot
    · exact heq
    · exact absurd (hsymm _ _ (List.pairwise_iff_getElem.1 hpair j i hj hi hlt)) hnot
  refine ⟨(m, k), ⟨l, c, hm, hk, hf⟩, ?_⟩
  rintro ⟨m', k'⟩ ⟨l', c', hm', hk', hf'⟩
  have hlists : m' = m := by
    refine hindex hdisjoint (fun _ _ hd b hy hx => hd hx hy) hm' hm fun hd => ?_
    exact hd (List.mem_filterMap.2 ⟨c', List.mem_of_getElem? hk', hf'⟩) hmem
  subst hlists
  rw [hm] at hm'
  cases hm'
  have hentry : k' = k := by
    refine hindex (List.pairwise_filterMap.1 (hnodup l hl)) (fun x y hxy b' hb' b hb => (hxy b hb b' hb').symm) hk' hk ?_
    exact fun hne => hne b hf' b hf rfl
  rw [hentry]

/-- The steps of a rollout with their indices. -/
def numbered (steps : List (StepTokens R π)) : List (Nat × StepTokens R π) := steps.zipIdx.map Prod.swap

omit [Zero R] in
theorem numbered_map_fst (steps : List (StepTokens R π)) : (numbered steps).map Prod.fst = List.range steps.length := by
  unfold numbered
  rw [List.map_map, List.range_eq_range', ← List.zipIdx_map_snd]
  rfl

omit [Zero R] in
theorem mem_numbered {steps : List (StepTokens R π)} {x : Nat × StepTokens R π} :
    x ∈ numbered steps ↔ steps[x.1]? = some x.2 := by
  unfold numbered
  rw [List.mem_map]
  constructor
  · rintro ⟨y, hy, rfl⟩
    exact List.mem_zipIdx_iff_getElem?.1 hy
  · intro h
    exact ⟨x.swap, List.mem_zipIdx_iff_getElem?.2 h, Prod.swap_swap x⟩

/-- The places of the completion tokens of a step. -/
def places (x : Nat × StepTokens R π) : List (Nat × Nat) := (List.range x.2.completionIds.length).map fun j => (x.1, j)

omit [Zero R] in
theorem numbered_places_nodup (steps : List (StepTokens R π)) : ((numbered steps).flatMap places).Nodup := by
  rw [List.nodup_flatMap]
  constructor
  · intro x _
    exact List.nodup_range.map fun j j' h => (Prod.mk.inj h).2
  · have hfst : (numbered steps).Pairwise fun x y => x.1 ≠ y.1 := by
      rw [← List.pairwise_map, numbered_map_fst]
      exact List.nodup_range
    refine hfst.imp fun {x y} hne => ?_
    intro p hx hy
    obtain ⟨_, -, rfl⟩ := List.mem_map.1 hx
    obtain ⟨_, -, heq⟩ := List.mem_map.1 hy
    exact hne (Prod.mk.inj heq).1.symm

omit [Zero R] in
theorem mapM_some (steps : List (StepTokens R π)) : (steps.map some).mapM id = some steps := by
  induction steps with
  | nil => rfl
  | cons x steps ih =>
      rw [List.map_cons, List.mapM_cons, ih]
      rfl

theorem interleaveRollout_eq {steps : List (StepTokens R π)} {mapping : Option (Dict Int Int)}
    (htraj : output.trajectory = steps.map some) (hne : steps ≠ []) :
    interleaveRollout concat mapping output = (do
      let activeSamples ← ((numbered steps).foldl (mergeStep output) []).mapM finalizeRoutedExperts
      let activeSamples ← activeSamples.mapM (attachImages concat mapping steps)
      return some (activeSamples.map (·.sample))) := by
  obtain ⟨first, rest, rfl⟩ := List.exists_cons_of_ne_nil hne
  unfold interleaveRollout numbered
  rw [htraj, mapM_some, List.zipIdx_cons, List.map_cons, List.foldl_cons, List.foldl_map]
  rfl

omit [Zero R] in
/-- The steps of a rollout whose token lists fit together. -/
theorem Rollout.WellFormed.exists_steps (hwf : output.WellFormed concat) :
    ∃ steps : List (StepTokens R π), output.trajectory = steps.map some ∧ (∀ x ∈ numbered steps, x.2.WellFormed) ∧
      ∀ key l, l ≠ [] → (∀ v ∈ l, Payload steps key v) → ∃ t, concat l = .ok t := by
  obtain ⟨steps, hsteps⟩ := exists_forall₂_iff.2 fun step h => (hwf.tokens step h).imp fun _ h => h.1
  have htraj : List.Forall₂ (· = ·) output.trajectory (steps.map some) := List.forall₂_map_right_iff.2 hsteps
  rw [List.forall₂_eq_eq_eq] at htraj
  refine ⟨steps, htraj, fun x hx => ?_, ?_⟩
  · have hmem : some x.2 ∈ output.trajectory := by
      rw [htraj]
      exact List.mem_map_of_mem (List.mem_of_getElem? (mem_numbered.1 hx))
    obtain ⟨tokens, heq, h⟩ := hwf.tokens _ hmem
    cases heq
    exact h
  · have hreduce : (steps.map some).reduceOption = steps := by simp [List.reduceOption]
    have h := hwf.payloads
    rwa [htraj, hreduce] at h

theorem interleaved_of_grown {steps : List (StepTokens R π)} (hwf : ∀ x ∈ numbered steps, x.2.WellFormed) :
    ∀ bin ∈ firstFit stepExtends (numbered steps), ∀ a, Grown output bin a → ∃ cells, Interleaved output bin a cells := by
  apply built_of_firstFit
  · intro x hx a ha
    cases ha
    exact ⟨_, interleaved_makeSample (hwf x hx)⟩
  · rintro bin x hx a a' hne ⟨cells, ha⟩ htakes hadd
    cases hadd
    refine ⟨_, interleaved_extendSample hne ha (hwf x hx) ?_⟩
    have hlast := List.getLast?_eq_getLast_of_ne_nil hne
    unfold stepExtends at htakes
    rw [hlast, Option.all_some] at htakes
    rw [(ha.last _ hlast).1]
    exact of_decide_eq_true htakes

/-- **Main.** The samples of a rollout partition its steps, each is the tokens of its last step with the entries of the
steps they come from, and every completion token of every step is in one place of one sample. -/
theorem interleaveCorrect (hwf : output.WellFormed concat) (mapping : Option (Dict Int Int)) :
    ∃ result, interleaveRollout concat mapping output = .ok result ∧ (output.trajectory = [] → result = none) ∧
      (output.trajectory ≠ [] → ∃ parts : List (Part R π), result = some (parts.map Part.sample) ∧
        (parts.flatMap fun p => p.steps.map Prod.fst).Perm (List.range output.trajectory.length) ∧
        (∀ p ∈ parts, p.Correct output ∧ ∀ x ∈ p.steps, output.trajectory[x.1]? = some (some x.2)) ∧
        ∀ i j tokens, output.trajectory[i]? = some (some tokens) → j < tokens.completionIds.length →
          ∃! pos : Nat × Nat, ∃ p c, parts[pos.1]? = some p ∧ p.cells[pos.2]? = some c ∧ c.origin = some (i, j)) := by
  obtain ⟨steps, htraj, hstepWf, hconcat⟩ := hwf.exists_steps
  have hget : ∀ {i : Nat} {tokens : StepTokens R π}, output.trajectory[i]? = some (some tokens) ↔
      (i, tokens) ∈ numbered steps := by
    intro i tokens
    rw [mem_numbered, htraj, List.getElem?_map]
    simp
  have hmemTraj : ∀ x ∈ numbered steps, some x.2 ∈ output.trajectory := fun x hx => List.mem_of_getElem? (hget.2 hx)
  by_cases hne : steps = []
  · refine ⟨none, ?_, fun _ => rfl, fun h => ?_⟩
    · unfold interleaveRollout
      rw [htraj, hne]
      rfl
    · rw [htraj, hne] at h
      exact absurd rfl h
  · obtain ⟨layers, topk, hshape⟩ := hwf.routedExperts
    let P : Part R π → Prop := fun p => p.Correct output ∧ p.cells.filterMap (·.origin) = p.steps.flatMap places
    have hparts : List.Forall₂ (fun bin a => ∃ a' a'' cells, finalizeRoutedExperts a = .ok a' ∧
        attachImages concat mapping steps a' = .ok a'' ∧ P ⟨bin, cells, a''.sample⟩)
        (firstFit stepExtends (numbered steps)) ((numbered steps).foldl (mergeStep output) []) := by
      refine ((List.forall₂_and_left _ _).2 ⟨fun bin h => h, foldl_mergeStep (numbered steps)⟩).imp ?_
      rintro bin a ⟨hbin, hgrown⟩
      obtain ⟨cells, ha⟩ := interleaved_of_grown hstepWf bin hbin a hgrown
      have hmem : ∀ x ∈ bin, x ∈ numbered steps := fun x hx => mem_of_firstFit hbin hx
      obtain ⟨a', a'', hfinal, hattach, hcorrect⟩ := correct_of_interleaved ha hgrown.ne_nil
        (fun x hx => hstepWf x (hmem x hx)) (fun x hx => hshape x.2 (hmemTraj x (hmem x hx))) hconcat mapping
      refine ⟨a', a'', cells, hfinal, hattach, hcorrect, ?_⟩
      have horigins := ha.origins
      rw [List.filterMap_map] at horigins
      exact horigins
    obtain ⟨l, l', parts, hl, hl', hsamples, hbins, hcorrect⟩ := exists_parts (P := P) hparts
    have hperm : (parts.flatMap Part.steps).Perm (numbered steps) := by
      rw [List.flatMap_def, hbins]
      exact firstFit_perm _
    have hplaces : ((parts.map Part.cells).flatMap fun cells => cells.filterMap (·.origin)).Perm
        ((numbered steps).flatMap places) := by
      have heq : ((parts.map Part.cells).flatMap fun cells => cells.filterMap (·.origin)) =
          (parts.flatMap Part.steps).flatMap places := by
        rw [List.flatMap_map, List.flatMap_assoc]
        exact List.flatMap_congr fun p hp => (hcorrect p hp).2
      rw [heq]
      exact hperm.flatMap_right _
    refine ⟨some (parts.map Part.sample), ?_, fun h => ?_, fun _ => ⟨parts, rfl, ?_, fun p hp => ⟨(hcorrect p hp).1, ?_⟩, ?_⟩⟩
    · rw [interleaveRollout_eq htraj hne]
      exact bind_eq_ok.2 ⟨l, hl, bind_eq_ok.2 ⟨l', hl', by rw [hsamples]; rfl⟩⟩
    · rw [htraj, List.map_eq_nil_iff] at h
      exact absurd h hne
    · rw [← List.map_flatMap, htraj, List.length_map, ← numbered_map_fst]
      exact hperm.map _
    · intro x hx
      exact hget.2 (hperm.subset (List.mem_flatMap.2 ⟨p, hp, hx⟩))
    · intro i j tokens htokens hj
      have hin : (i, j) ∈ (parts.map Part.cells).flatMap fun cells => cells.filterMap (·.origin) := by
        refine hplaces.symm.subset (List.mem_flatMap.2 ⟨(i, tokens), hget.1 htokens, ?_⟩)
        exact List.mem_map.2 ⟨j, List.mem_range.2 hj, rfl⟩
      obtain ⟨pos, ⟨cells, c, hcells, hc, ho⟩, huniq⟩ :=
        existsUnique_place (hplaces.symm.nodup (numbered_places_nodup steps)) hin
      rw [List.getElem?_map, Option.map_eq_some_iff] at hcells
      obtain ⟨p, hp, rfl⟩ := hcells
      refine ⟨pos, ⟨p, c, hp, hc, ho⟩, ?_⟩
      rintro pos' ⟨p', c', hp', hc', ho'⟩
      refine huniq pos' ⟨p'.cells, c', ?_, hc', ho'⟩
      rw [List.getElem?_map, hp']
      rfl

end

/-- Two turns of one agent with a step of another between them. -/
def twoAgents : Rollout Int Unit where
  trajectory :=
    [some ⟨[1], [false], [2], [true], [-1], none, none⟩,
     some ⟨[7], [false], [8], [true], [-2], none, none⟩,
     some ⟨[1, 2, 3], [false, false, false], [4], [true], [-3], none, none⟩]
  error := none
  temperature := 1
  envName := "env"

/-- There are no images to join. -/
def concatNothing : List Unit → Except PyException EncodedTensor := fun _ =>
  raiseValueError "torch.cat(): expected a non-empty list of Tensors"

theorem twoAgents_wellFormed : twoAgents.WellFormed concatNothing where
  tokens := by
    simp only [twoAgents, List.forall_mem_cons]
    exact ⟨⟨_, rfl, rfl, rfl, rfl⟩, ⟨_, rfl, rfl, rfl, rfl⟩, ⟨_, rfl, rfl, rfl, rfl⟩, fun _ h => absurd h List.not_mem_nil⟩
  routedExperts := by
    refine ⟨0, 0, fun tokens h r hr => ?_⟩
    simp only [twoAgents, List.mem_cons, Option.some.injEq, List.not_mem_nil, or_false] at h
    rcases h with rfl | rfl | rfl <;> cases hr
  payloads := by
    intro key l hne h
    obtain ⟨v, l, rfl⟩ := List.exists_cons_of_ne_nil hne
    obtain ⟨tokens, ht, e, he, -⟩ := h v List.mem_cons_self
    simp only [twoAgents, List.reduceOption, List.filterMap_cons, List.filterMap_nil, id, List.mem_cons,
      List.not_mem_nil, or_false] at ht
    rcases ht with rfl | rfl | rfl <;> cases he

theorem interleaveCorrect_twoAgents :
    ∃ result, interleaveRollout concatNothing none twoAgents = .ok result ∧ (twoAgents.trajectory = [] → result = none) ∧
      (twoAgents.trajectory ≠ [] → ∃ parts : List (Part Int Unit), result = some (parts.map Part.sample) ∧
        (parts.flatMap fun p => p.steps.map Prod.fst).Perm (List.range twoAgents.trajectory.length) ∧
        (∀ p ∈ parts, p.Correct twoAgents ∧ ∀ x ∈ p.steps, twoAgents.trajectory[x.1]? = some (some x.2)) ∧
        ∀ i j tokens, twoAgents.trajectory[i]? = some (some tokens) → j < tokens.completionIds.length →
          ∃! pos : Nat × Nat, ∃ p c, parts[pos.1]? = some p ∧ p.cells[pos.2]? = some c ∧ c.origin = some (i, j)) :=
  interleaveCorrect twoAgents_wellFormed none

end AuroraRl.Orchestrator
