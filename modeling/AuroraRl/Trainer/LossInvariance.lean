import AuroraRl.Trainer.MicroBatchLoss
import AuroraRl.Trainer.Validation
import Mathlib

/-!
# The loss does not depend on the packing

* `sampleLoss`, `workersLoss` : the loss of a sample alone, and of all micro batches of all workers;
* `Forwarded` : a grid with the trainer's logprobs of the samples in it;
* `binTokens` : a micro batch has the tokens of its samples, and padding without a loss mask;
* `LossInvariant`, `packingInvariance` : when the two losses are the same.
-/

namespace AuroraRl.Trainer
open FirstFit

variable {R : Type} [Field R] [LinearOrder R]

/-! ## The two losses -/

section

variable (exp : R → R) (config : DefaultLossConfig R) (logprobs : Nat × TrainingSample R → Nat → R) (seqLen : Nat)

omit [Field R] [LinearOrder R] in
/-- The trainer's logprobs on the tokens of a sample. -/
def sampleLogprobs (p : Nat × TrainingSample R) : List R := (List.range (p.2.tokens seqLen).length).map (logprobs p)

/-- The loss of a sample alone, as `prepare_sample` cuts it. -/
def sampleLoss (p : Nat × TrainingSample R) : Except PyException R := do
  let mb := p.2.packed seqLen
  let advantages ← toTensor mb.advantages
  let out ← setupLossFns exp config mb.trainingMode
    ⟨sampleLogprobs logprobs seqLen p, mb.inferenceLogprobs, mb.teacherLogprobs, advantages, mb.lossMask⟩
  return out.loss

/-- The losses of all micro batches of all workers. -/
def workersLoss (lossScale : Nat) (evaluated : List (List (MicroBatch R × List R))) : Except PyException R := do
  let losses ← evaluated.flatten.mapM fun x => microBatchLoss exp config lossScale x.1 x.2
  return (losses.map Prod.fst).sum

omit [LinearOrder R] in
/-- The micro batch of a bin, with the logprobs of its samples and any on the padding. -/
def Evaluated (numLoras padToMultipleOf : Nat) (bin : List (Nat × TrainingSample R)) (x : MicroBatch R × List R) : Prop :=
  (∃ b, Fills numLoras (bin.map (packedItem seqLen)) b ∧ padMicroBatch b padToMultipleOf = .ok x.1) ∧
    x.2.length = x.1.inputIds.length ∧ ∃ padding, x.2 = bin.flatMap (sampleLogprobs logprobs seqLen) ++ padding

omit [LinearOrder R] in
/-- A grid with logprobs: the micro batches of the bins with those of their samples, and dummies with any. -/
def Forwarded (samples : List (Nat × TrainingSample R)) (numLoras padToMultipleOf : Nat)
    (evaluated : List (List (MicroBatch R × List R))) : Prop :=
  ∃ real dummies, evaluated.flatten.Perm (real ++ dummies) ∧
    List.Forall₂ (Evaluated logprobs seqLen numLoras padToMultipleOf) (assignment seqLen samples) real ∧
    ∀ x ∈ dummies, x.2.length = x.1.inputIds.length ∧ ∃ y ∈ real, x.1 = makeDummyBatch y.1

/-- The micro batches together have the loss of the samples, whatever the trainer's logprobs on padding and dummies. -/
def LossInvariant (lossScale : Nat) (samples : List (Nat × TrainingSample R)) (w numLoras padToMultipleOf : Nat) : Prop :=
  ∃ grid losses,
    prepareBatch (samples.map Prod.snd) seqLen w (samples.map Prod.fst) numLoras padToMultipleOf = .ok grid ∧
    List.Forall₂ (fun p loss => sampleLoss exp config logprobs seqLen p = .ok loss) samples losses ∧
    ∀ evaluated, evaluated.map (List.map Prod.fst) = grid →
      Forwarded logprobs seqLen samples numLoras padToMultipleOf evaluated →
        workersLoss exp config lossScale evaluated = .ok (1 / lossScale * losses.sum)

end

/-! ## The loss of a sample -/

/-- A sample with tokens has an advantage, and one of distillation its teacher logprobs. -/
structure SampleReady (seqLen : Nat) (s : TrainingSample R) : Prop where
  advantage : 0 < (s.tokens seqLen).length → s.advantage.isSome = true
  teacherLogprobs : s.trainingMode = .opd → s.teacherLogprobs.isSome = true

section

variable {exp : R → R} {config : DefaultLossConfig R} {logprobs : Nat × TrainingSample R → Nat → R} {seqLen : Nat}

def sampleInputs (logprobs : Nat × TrainingSample R → Nat → R) (seqLen : Nat) (p : Nat × TrainingSample R) : LossInputs R :=
  ⟨sampleLogprobs logprobs seqLen p, (p.2.packed seqLen).inferenceLogprobs, (p.2.packed seqLen).teacherLogprobs,
    (p.2.packed seqLen).advantages.map (·.getD 0), (p.2.packed seqLen).lossMask⟩

omit [LinearOrder R] in
theorem map_getD_eq_iff {l : List (Option R)} : l = (l.map (·.getD 0)).map some ↔ ∀ a ∈ l, a.isSome = true := by
  induction l with
  | nil => exact iff_of_true rfl fun _ h => absurd h List.not_mem_nil
  | cons a l ih =>
      rw [List.map_cons, List.map_cons, List.cons.injEq, ih, List.forall_mem_cons]
      cases a <;> simp

omit [LinearOrder R] in
theorem toTensor_eq_ok_iff' {l : List (Option R)} {l' : List R} :
    toTensor l = .ok l' ↔ (∀ a ∈ l, a.isSome = true) ∧ l' = l.map (·.getD 0) := by
  rw [toTensor_eq_ok_iff]
  constructor
  · rintro rfl
    refine ⟨fun a ha => ?_, ?_⟩
    · obtain ⟨b, -, rfl⟩ := List.mem_map.1 ha
      rfl
    · rw [List.map_map]
      exact (List.map_id _).symm
  · rintro ⟨h, rfl⟩
    exact map_getD_eq_iff.2 h

omit [LinearOrder R] in
theorem packed_advantages (s : TrainingSample R) :
    (s.packed seqLen).advantages = List.replicate (s.tokens seqLen).length s.advantage := by
  show s.cut seqLen (List.replicate s.length s.advantage) = _
  rw [s.tokens_length]
  unfold TrainingSample.cut
  split_ifs with h
  · rw [List.take_replicate, Nat.min_comm]
  · rw [Nat.min_eq_left (Nat.le_of_not_lt h)]

/-- A ready sample has the loss of its tokens. -/
theorem sampleLoss_eq_ok_iff {p : Nat × TrainingSample R} {loss : R} :
    sampleLoss exp config logprobs seqLen p = .ok loss ↔ SampleReady seqLen p.2 ∧
      loss = ((sampleInputs logprobs seqLen p).tokens.map (tokenLoss exp config p.2.trainingMode)).sum := by
  have hadv : (∀ a ∈ (p.2.packed seqLen).advantages, a.isSome = true) ↔
      (0 < (p.2.tokens seqLen).length → p.2.advantage.isSome = true) := by
    rw [packed_advantages]
    simp only [List.mem_replicate, Nat.pos_iff_ne_zero]
    exact ⟨fun h hne => h _ ⟨hne, rfl⟩, fun h a ha => ha.2 ▸ h ha.1⟩
  have hspec := setupLossFns_spec exp config p.2.trainingMode (sampleInputs logprobs seqLen p)
  rw [show (sampleInputs logprobs seqLen p).teacherLogprobs.isSome = p.2.teacherLogprobs.isSome from
    Option.isSome_map] at hspec
  unfold sampleLoss
  dsimp only
  constructor
  · intro h
    obtain ⟨advantages, ha, h⟩ := bind_eq_ok.1 h
    obtain ⟨hall, rfl⟩ := toTensor_eq_ok_iff'.1 ha
    obtain ⟨out, hout, hloss⟩ := bind_eq_ok.1 h
    cases hloss
    exact ⟨⟨hadv.1 hall, hspec.2.1 ⟨out, hout⟩⟩, hspec.1 out hout⟩
  · rintro ⟨hready, rfl⟩
    obtain ⟨out, hout⟩ := hspec.2.2 hready.teacherLogprobs
    refine bind_eq_ok.2 ⟨_, toTensor_eq_ok_iff'.2 ⟨hadv.2 hready.advantage, rfl⟩, bind_eq_ok.2 ⟨out, hout, ?_⟩⟩
    rw [← hspec.1 out hout]
    rfl

end

/-! ## The tokens of a micro batch -/

omit [LinearOrder R] in
theorem TrainingSample.packed_teacherLogprobs_isSome (s : TrainingSample R) (seqLen : Nat) :
    (s.packed seqLen).teacherLogprobs.isSome = s.teacherLogprobs.isSome := Option.isSome_map

omit [Field R] [LinearOrder R] in
/-- A complete optional list has the lists of the samples, and missing entries where they miss it. -/
theorem orNone_mergedOptional {ι α β : Type} {f : ι → Option (List α)} {g : ι → List β} {bin : List ι}
    (hcomplete : ∀ x ∈ bin, ∀ y ∈ bin, (f x).isSome = true → 0 < (g y).length → (f y).isSome = true) :
    orNone (mergedOptional f bin) (bin.flatMap g).length = bin.flatMap fun x => orNone (f x) (g x).length := by
  unfold mergedOptional
  split_ifs with hall
  · have hnone : ∀ x ∈ bin, f x = none := fun x hx => Option.isNone_iff_eq_none.1 (List.all_eq_true.1 hall x hx)
    show List.replicate _ none = _
    clear hall hcomplete
    induction bin with
    | nil => rfl
    | cons x bin ih =>
        rw [List.flatMap_cons, List.flatMap_cons, List.length_append, ← List.replicate_append_replicate,
          ih fun y hy => hnone y (List.mem_cons_of_mem _ hy), hnone x List.mem_cons_self]
        rfl
  · obtain ⟨x₀, hx₀, h₀⟩ : ∃ x ∈ bin, (f x).isSome = true := by
      by_contra hnot
      refine hall (List.all_eq_true.2 fun x hx => ?_)
      rw [Option.isNone_iff_eq_none, ← Option.not_isSome_iff_eq_none]
      exact fun h => hnot ⟨x, hx, h⟩
    show (bin.flatMap fun x => (f x).getD []).map some = _
    rw [List.map_flatMap]
    refine List.flatMap_congr fun x hx => ?_
    cases h : f x with
    | none =>
        -- a sample without the list has no tokens
        have hzero : (g x).length = 0 := by
          by_contra hne
          have hs := hcomplete x₀ hx₀ x hx h₀ (Nat.pos_of_ne_zero hne)
          rw [h] at hs
          cases hs
        rw [hzero]
        rfl
    | some l => rfl

def evaluatedTokens (x : MicroBatch R × List R) : List (Token R) :=
  (⟨x.2, x.1.inferenceLogprobs, x.1.teacherLogprobs, x.1.advantages.map (·.getD 0), x.1.lossMask⟩ : LossInputs R).tokens

section

variable {logprobs : Nat × TrainingSample R → Nat → R} {seqLen numLoras k : Nat} {bin : List (Nat × TrainingSample R)}
  {b : MicroBatch R} {x : MicroBatch R × List R} {padding : List R}

/-- The samples of a bin that have tokens all have teacher logprobs, or none has. -/
def TeacherComplete (seqLen : Nat) (bin : List (Nat × TrainingSample R)) : Prop :=
  ∀ p ∈ bin, ∀ q ∈ bin, p.2.teacherLogprobs.isSome = true → 0 < (q.2.tokens seqLen).length →
    q.2.teacherLogprobs.isSome = true

omit [LinearOrder R] in
/-- The tokens of the samples, and padding without a loss mask. -/
theorem evaluatedTokens_bin (hprep : ∀ p ∈ bin, p.2.Prepares seqLen) (hteacher : TeacherComplete seqLen bin)
    (hm : Merged numLoras (bin.map (packedItem seqLen)) b) (hpad : Padded k b x.1)
    (hx : x.2 = bin.flatMap (sampleLogprobs logprobs seqLen) ++ padding) :
    ∃ rest, evaluatedTokens x = bin.flatMap (fun p => (sampleInputs logprobs seqLen p).tokens) ++ rest ∧
      ∀ t ∈ rest, t.lossMask = false := by
  have hlength : ∀ p, (sampleLogprobs logprobs seqLen p).length = (p.2.tokens seqLen).length := fun p => by
    rw [sampleLogprobs, List.length_map, List.length_range]
  have hal : ∀ p ∈ bin, (p.2.packed seqLen).Aligned := fun p hp => (hprep p hp).aligned
  have hids : ∀ p : Nat × TrainingSample R, (p.2.packed seqLen).inputIds.length = (sampleLogprobs logprobs seqLen p).length :=
    fun p => (hlength p).symm
  have hblock : ∀ p ∈ bin, (p.2.packed seqLen).inferenceLogprobs.length = (sampleLogprobs logprobs seqLen p).length ∧
      (orNone (p.2.packed seqLen).teacherLogprobs (sampleLogprobs logprobs seqLen p).length).length =
        (sampleLogprobs logprobs seqLen p).length ∧
      ((p.2.packed seqLen).advantages.map (·.getD 0)).length = (sampleLogprobs logprobs seqLen p).length ∧
      (p.2.packed seqLen).lossMask.length = (sampleLogprobs logprobs seqLen p).length := by
    intro p hp
    refine ⟨(hal p hp).inferenceLogprobs.trans (hids p), orNone_length fun l hl => ?_, ?_,
      (hal p hp).lossMask.trans (hids p)⟩
    · exact ((hal p hp).teacherLogprobs l hl).trans (hids p)
    · rw [List.length_map]
      exact (hal p hp).advantages.trans (hids p)
  have hflat : ∀ {α : Type} (f : MicroBatch R → List α),
      (bin.map (packedItem seqLen)).flatMap (fun y => f y.2) = bin.flatMap fun p => f (p.2.packed seqLen) :=
    fun f => List.flatMap_map ..
  -- the teacher's list, with what is missing as missing entries
  obtain ⟨teacher, hteacher'⟩ : ∃ rest, orNone x.1.teacherLogprobs x.2.length = (bin.flatMap fun p =>
      orNone (p.2.packed seqLen).teacherLogprobs (sampleLogprobs logprobs seqLen p).length) ++ rest := by
    have hmerged : mergedOptional (fun y : Nat × MicroBatch R => y.2.teacherLogprobs) (bin.map (packedItem seqLen)) =
        mergedOptional (fun p => (p.2.packed seqLen).teacherLogprobs) bin := by
      unfold mergedOptional
      rw [List.flatMap_map, List.all_map]
      rfl
    obtain ⟨rest, hrest⟩ := orNone_append (mergedOptional (fun p => (p.2.packed seqLen).teacherLogprobs) bin)
      (List.replicate k 0) (bin.flatMap (sampleLogprobs logprobs seqLen)).length padding.length
    refine ⟨rest, ?_⟩
    rw [hpad.teacherLogprobs, hm.teacherLogprobs, hmerged, hx, List.length_append, hrest, orNone_mergedOptional]
    intro p hp q hq hs hpos
    rw [hlength] at hpos
    rw [TrainingSample.packed_teacherLogprobs_isSome] at hs ⊢
    exact hteacher p hp q hq hs hpos
  have heach : ∀ {α : Type} (f : Nat × TrainingSample R → List α),
      (∀ p ∈ bin, (f p).length = (sampleLogprobs logprobs seqLen p).length) →
        (bin.flatMap f).length = (bin.flatMap (sampleLogprobs logprobs seqLen)).length := fun f h =>
    (flatMap_length_eq_iff fun p hp => (h p hp).le).2 h
  refine ⟨zipTokens padding (List.replicate k 0) teacher ((List.replicate k (some 0)).map (·.getD 0))
    (List.replicate k false), ?_, fun t ht => List.eq_of_mem_replicate (lossMask_of_mem_zipTokens ht)⟩
  unfold evaluatedTokens LossInputs.tokens
  dsimp only
  rw [hteacher', hpad.inferenceLogprobs, hpad.advantages, hpad.lossMask, hm.inferenceLogprobs, hm.advantages,
    hm.lossMask, hflat (·.inferenceLogprobs), hflat (·.advantages), hflat (·.lossMask), List.map_append,
    List.map_flatMap, hx, zipTokens_append _ _ _ _ _ (heach _ fun p hp => (hblock p hp).1)
    (heach _ fun p hp => (hblock p hp).2.1) (heach _ fun p hp => (hblock p hp).2.2.1)
    (heach _ fun p hp => (hblock p hp).2.2.2), zipTokens_flatMap hblock]
  rfl

end

/-! ## The loss of a micro batch with logprobs -/

section

variable (exp : R → R) (config : DefaultLossConfig R) (lossScale : Nat)

def microBatchValue (x : MicroBatch R × List R) : R :=
  ((evaluatedTokens x).map (tokenLoss exp config x.1.trainingMode)).sum / lossScale

def sampleValue (logprobs : Nat × TrainingSample R → Nat → R) (seqLen : Nat) (p : Nat × TrainingSample R) : R :=
  ((sampleInputs logprobs seqLen p).tokens.map (tokenLoss exp config p.2.trainingMode)).sum

/-- The lists of a micro batch and its logprobs have one length. -/
structure Sized (x : MicroBatch R × List R) : Prop where
  logprobs : x.2.length = x.1.inputIds.length
  positionIds : x.1.positionIds.length = x.1.inputIds.length
  inferenceLogprobs : x.1.inferenceLogprobs.length = x.1.inputIds.length
  advantages : x.1.advantages.length = x.1.inputIds.length
  lossMask : x.1.lossMask.length = x.1.inputIds.length

variable {x : MicroBatch R × List R}

theorem microBatchLoss_sized (hx : Sized x) (hadv : ∀ a ∈ x.1.advantages, a.isSome = true) :
    (∀ r, microBatchLoss exp config lossScale x.1 x.2 = .ok r → r.1 = microBatchValue exp config lossScale x) ∧
    ((∃ r, microBatchLoss exp config lossScale x.1 x.2 = .ok r) ↔ x.1.inputIds.length ≠ 1 ∧
      (∀ l, x.1.teacherLogprobs = some l → l.length = x.1.inputIds.length) ∧
        (x.1.trainingMode = .opd → x.1.teacherLogprobs.isSome = true)) := by
  have hspec := microBatchLoss_spec exp config lossScale (map_getD_eq_iff.2 hadv) (hx.positionIds.trans hx.logprobs.symm)
    (hx.inferenceLogprobs.trans hx.logprobs.symm) (by rw [List.length_map, hx.advantages, hx.logprobs])
    (hx.lossMask.trans hx.logprobs.symm)
  rw [hx.logprobs] at hspec
  exact hspec

variable {exp config lossScale}

theorem sum_eq_zero_of_not_mask {tokens : List (Token R)} (mode : TrainingMode) (h : ∀ t ∈ tokens, t.lossMask = false) :
    (tokens.map (tokenLoss exp config mode)).sum = 0 := by
  refine List.sum_eq_zero fun a ha => ?_
  obtain ⟨t, ht, rfl⟩ := List.mem_map.1 ha
  exact tokenLoss_of_not_mask exp config mode (h t ht)

theorem microBatchValue_dummy (mb : MicroBatch R) (l : List R) :
    microBatchValue exp config lossScale (makeDummyBatch mb, l) = 0 := by
  unfold microBatchValue
  rw [sum_eq_zero_of_not_mask, zero_div]
  intro t ht
  exact List.eq_of_mem_replicate (lossMask_of_mem_zipTokens ht)

theorem exists_microBatchLoss_dummy {y : MicroBatch R × List R} (hx : x.2.length = x.1.inputIds.length)
    (he : x.1 = makeDummyBatch y.1) (hy : Sized y) (hadv : ∀ a ∈ y.1.advantages, a.isSome = true)
    (h : ∃ r, microBatchLoss exp config lossScale y.1 y.2 = .ok r) :
    (∀ r, microBatchLoss exp config lossScale x.1 x.2 = .ok r → r.1 = microBatchValue exp config lossScale x) ∧
      ∃ r, microBatchLoss exp config lossScale x.1 x.2 = .ok r := by
  have hsized : Sized x := by
    refine ⟨hx, ?_, ?_, ?_, ?_⟩ <;> rw [he]
    · exact hy.positionIds
    · exact hy.inferenceLogprobs
    · exact List.length_replicate
    · exact List.length_replicate
  have hadv' : ∀ a ∈ x.1.advantages, a.isSome = true := by
    intro a ha
    rw [he] at ha
    rw [List.eq_of_mem_replicate ha]
    rfl
  have hspec := microBatchLoss_sized exp config lossScale hsized hadv'
  refine ⟨hspec.1, hspec.2.2 ?_⟩
  rw [he]
  exact (microBatchLoss_sized exp config lossScale hy hadv).2.1 h

end

/-! ## The loss of a bin -/

theorem add_paddingSize_eq_one {m n : Nat} (hm : 0 < m) : n + paddingSize m n = 1 ↔ n = 1 ∧ m = 1 := by
  constructor
  · intro h
    have hdvd := dvd_add_paddingSize hm n
    rw [h] at hdvd
    obtain rfl := Nat.dvd_one.1 hdvd
    unfold paddingSize at h
    rw [Nat.mod_one] at h
    exact ⟨h, rfl⟩
  · rintro ⟨rfl, rfl⟩
    rfl

omit [Field R] [LinearOrder R] in
theorem mergedOptional_isSome {ι α : Type} {f : ι → Option (List α)} {bin : List ι} {y : ι} (hy : y ∈ bin)
    (h : (f y).isSome = true) : (mergedOptional f bin).isSome = true := by
  unfold mergedOptional
  split_ifs with hall
  · have hnone := List.all_eq_true.1 hall y hy
    rw [Option.isNone_iff_eq_none] at hnone
    rw [hnone] at h
    cases h
  · rfl

section

variable {logprobs : Nat × TrainingSample R → Nat → R} {seqLen numLoras padToMultipleOf : Nat}
  {bin : List (Nat × TrainingSample R)} {b : MicroBatch R} {x : MicroBatch R × List R} {padding : List R}

/-- A bin as the assignment makes it, of samples that are ready. -/
structure BinReady (seqLen : Nat) (bin : List (Nat × TrainingSample R)) : Prop where
  prepares : ∀ p ∈ bin, p.2.Prepares seqLen
  ready : ∀ p ∈ bin, SampleReady seqLen p.2
  room : (bin.flatMap (·.2.tokens seqLen)).length ≤ seqLen
  trainingMode : ∀ p ∈ bin, ∀ q ∈ bin, p.2.trainingMode = q.2.trainingMode
  modality : (∀ p ∈ bin, p.2.mmKwargs.isNone) ∨ ∃ p, bin = [p]

omit [LinearOrder R] in
theorem BinReady.sized (h : BinReady seqLen bin) (hb : Fills numLoras (bin.map (packedItem seqLen)) b)
    (hmb : padMicroBatch b padToMultipleOf = .ok x.1) (hlen : x.2.length = x.1.inputIds.length) : Sized x := by
  obtain ⟨-, k, hholds⟩ := padMicroBatch_holds h.prepares h.room h.trainingMode h.modality hb hmb
  exact ⟨hlen, hholds.aligned.1, hholds.aligned.2.2.2, hholds.aligned.2.2.1, hholds.aligned.2.1⟩

omit [LinearOrder R] in
theorem BinReady.advantages (h : BinReady seqLen bin) (hb : Fills numLoras (bin.map (packedItem seqLen)) b)
    (hmb : padMicroBatch b padToMultipleOf = .ok x.1) : ∀ a ∈ x.1.advantages, a.isSome = true := by
  obtain ⟨-, -, hpad⟩ := padMicroBatch_padded hmb
  have hm := merged_packed h.prepares hb
  intro a ha
  rw [hpad.advantages, hm.advantages] at ha
  rcases List.mem_append.1 ha with ha | ha
  · obtain ⟨y, hy, ha⟩ := List.mem_flatMap.1 ha
    obtain ⟨p, hp, rfl⟩ := List.mem_map.1 hy
    rw [show (packedItem seqLen p).2.advantages = _ from packed_advantages p.2, List.mem_replicate] at ha
    rw [ha.2]
    exact (h.ready p hp).advantage (Nat.pos_of_ne_zero ha.1)
  · rw [List.eq_of_mem_replicate ha]
    rfl

omit [LinearOrder R] in
theorem BinReady.teacher_iff (h : BinReady seqLen bin) (hb : Fills numLoras (bin.map (packedItem seqLen)) b)
    (hmb : padMicroBatch b padToMultipleOf = .ok x.1) :
    (∀ l, x.1.teacherLogprobs = some l → l.length = x.1.inputIds.length) ↔ TeacherComplete seqLen bin := by
  obtain ⟨-, -, hpad⟩ := padMicroBatch_padded hmb
  have hm := merged_packed h.prepares hb
  have hcomplete : (∀ l, mergedOptional (·.2.teacherLogprobs) (bin.map (packedItem seqLen)) = some l →
      l.length = ((bin.map (packedItem seqLen)).flatMap (·.2.inputIds)).length) ↔ _ :=
    mergedOptional_complete_iff (forall_packedItem.2 fun p hp => (h.prepares p hp).aligned.teacherLogprobs)
  rw [← hm.teacherLogprobs, ← hm.inputIds] at hcomplete
  simp only [forall_packedItem] at hcomplete
  have hteacher : (∀ l, x.1.teacherLogprobs = some l → l.length = x.1.inputIds.length) ↔
      ∀ l, b.teacherLogprobs = some l → l.length = b.inputIds.length := by
    rw [hpad.teacherLogprobs, hpad.inputIds, List.length_append, List.length_replicate]
    constructor
    · intro hall l hl
      have hl' := hall (l ++ List.replicate _ 0) (by rw [hl]; rfl)
      rw [List.length_append, List.length_replicate] at hl'
      exact Nat.add_right_cancel hl'
    · intro hall l hl
      obtain ⟨l', hl', rfl⟩ := Option.map_eq_some_iff.1 hl
      rw [List.length_append, List.length_replicate, hall l' hl']
  rw [hteacher, hcomplete]
  refine forall₂_congr fun p _ => forall₂_congr fun q _ => ?_
  rw [show (packedItem seqLen p).2.teacherLogprobs.isSome = _ from p.2.packed_teacherLogprobs_isSome seqLen,
    show (packedItem seqLen q).2.teacherLogprobs.isSome = _ from q.2.packed_teacherLogprobs_isSome seqLen]
  rfl

omit [LinearOrder R] in
theorem BinReady.trainingMode_eq (h : BinReady seqLen bin) (hb : Fills numLoras (bin.map (packedItem seqLen)) b)
    (hmb : padMicroBatch b padToMultipleOf = .ok x.1) : ∀ p ∈ bin, p.2.trainingMode = x.1.trainingMode := by
  obtain ⟨-, k, hholds⟩ := padMicroBatch_holds h.prepares h.room h.trainingMode h.modality hb hmb
  exact hholds.trainingMode

omit [LinearOrder R] in
theorem BinReady.of_evaluated (h : BinReady seqLen bin) (hx : Evaluated logprobs seqLen numLoras padToMultipleOf bin x) :
    Sized x ∧ ∀ a ∈ x.1.advantages, a.isSome = true := by
  obtain ⟨⟨b, hb, hmb⟩, hlen, -⟩ := hx
  exact ⟨h.sized hb hmb hlen, h.advantages hb hmb⟩

variable (exp : R → R) (config : DefaultLossConfig R) (lossScale : Nat)

/-- A bin has a loss iff it has not just one token and its teacher logprobs are complete. -/
theorem BinReady.exists_loss_iff (h : BinReady seqLen bin)
    (hx : Evaluated logprobs seqLen numLoras padToMultipleOf bin x) :
    (∃ r, microBatchLoss exp config lossScale x.1 x.2 = .ok r) ↔
      TeacherComplete seqLen bin ∧ ((bin.flatMap (·.2.tokens seqLen)).length = 1 → padToMultipleOf ≠ 1) := by
  obtain ⟨hsized, hadv⟩ := h.of_evaluated hx
  obtain ⟨⟨b, hb, hmb⟩, -, -⟩ := hx
  obtain ⟨hpos, -, hpad⟩ := padMicroBatch_padded hmb
  have hm := merged_packed h.prepares hb
  obtain ⟨p, hp⟩ := List.exists_mem_of_ne_nil bin (mt List.map_eq_nil_iff.2 hb.ne_nil)
  have hids : b.inputIds.length = (bin.flatMap (·.2.tokens seqLen)).length := by
    rw [hm.inputIds, List.flatMap_map]
    rfl
  have hone : x.1.inputIds.length ≠ 1 ↔ ((bin.flatMap (·.2.tokens seqLen)).length = 1 → padToMultipleOf ≠ 1) := by
    rw [hpad.inputIds, List.length_append, List.length_replicate, Ne, add_paddingSize_eq_one hpos, hids, not_and]
  have hopd : x.1.trainingMode = .opd → x.1.teacherLogprobs.isSome = true := by
    intro hmode
    rw [hpad.teacherLogprobs, Option.isSome_map, hm.teacherLogprobs]
    refine mergedOptional_isSome (List.mem_map_of_mem hp) ?_
    show (p.2.packed seqLen).teacherLogprobs.isSome = true
    rw [p.2.packed_teacherLogprobs_isSome]
    exact (h.ready p hp).teacherLogprobs ((h.trainingMode_eq hb hmb p hp).trans hmode)
  rw [(microBatchLoss_sized exp config lossScale hsized hadv).2, hone, h.teacher_iff hb hmb, and_iff_left hopd]
  exact and_comm

/-- The loss of a bin is that of its samples. -/
theorem BinReady.value_eq (h : BinReady seqLen bin) (hteacher : TeacherComplete seqLen bin)
    (hx : Evaluated logprobs seqLen numLoras padToMultipleOf bin x) :
    microBatchValue exp config lossScale x = (bin.map (sampleValue exp config logprobs seqLen)).sum / lossScale := by
  obtain ⟨⟨b, hb, hmb⟩, -, padding, hx⟩ := hx
  obtain ⟨-, -, hpad⟩ := padMicroBatch_padded hmb
  obtain ⟨rest, htokens, hrest⟩ := evaluatedTokens_bin h.prepares hteacher (merged_packed h.prepares hb) hpad hx
  unfold microBatchValue
  rw [htokens, List.map_append, List.sum_append, sum_eq_zero_of_not_mask _ hrest, add_zero, List.map_flatMap,
    List.flatMap_def, List.sum_flatten, List.map_map]
  congr 2
  refine List.map_congr_left fun p hp => ?_
  rw [← h.trainingMode_eq hb hmb p hp]
  rfl

end

/-! ## All micro batches -/

section

variable {logprobs : Nat × TrainingSample R → Nat → R} {seqLen w numLoras padToMultipleOf : Nat}
  {samples : List (Nat × TrainingSample R)} {grid : List (List (MicroBatch R))}

omit [LinearOrder R] in
theorem exists_evaluated {mbs : List (MicroBatch R)} (h : Packs samples seqLen numLoras padToMultipleOf mbs) :
    ∃ real : List (MicroBatch R × List R), real.map Prod.fst = mbs ∧
      List.Forall₂ (Evaluated logprobs seqLen numLoras padToMultipleOf) (assignment seqLen samples) real := by
  unfold Packs at h
  generalize assignment seqLen samples = bins at h ⊢
  induction h with
  | nil => exact ⟨[], rfl, .nil⟩
  | @cons bin mb _ _ h _ ih =>
      obtain ⟨real, hmap, hreal⟩ := ih
      obtain ⟨b, hb, hmb⟩ := h
      have hle : (bin.flatMap (sampleLogprobs logprobs seqLen)).length ≤ mb.inputIds.length := by
        rw [(padMicroBatch_padded hmb).2.2.inputIds, hb.head.1, List.flatMap_map, List.length_append]
        refine (flatMap_length_le fun p _ => ?_).trans (Nat.le_add_right _ _)
        rw [sampleLogprobs, List.length_map, List.length_range]
        rfl
      refine ⟨(mb, bin.flatMap (sampleLogprobs logprobs seqLen) ++
        List.replicate (mb.inputIds.length - (bin.flatMap (sampleLogprobs logprobs seqLen)).length) 0) :: real,
        congrArg (mb :: ·) hmap, .cons ⟨⟨b, hb, hmb⟩, ?_, _, rfl⟩ hreal⟩
      rw [List.length_append, List.length_replicate]
      exact Nat.add_sub_cancel' hle

omit [LinearOrder R] in
theorem exists_forwarded
    (hgrid : prepareBatch (samples.map Prod.snd) seqLen w (samples.map Prod.fst) numLoras padToMultipleOf = .ok grid) :
    ∃ evaluated, evaluated.map (List.map Prod.fst) = grid ∧
      Forwarded logprobs seqLen samples numLoras padToMultipleOf evaluated := by
  obtain ⟨hw, hprep, mbs, hmbs, rfl⟩ := prepareBatch_eq_ok_iff.1 hgrid
  obtain ⟨real, rfl, hreal⟩ : ∃ real : List (MicroBatch R × List R), real.map Prod.fst = mbs ∧
      List.Forall₂ (Evaluated logprobs seqLen numLoras padToMultipleOf) (assignment seqLen samples) real :=
    exists_evaluated hmbs
  obtain ⟨dmm, q, he, -, hdmm⟩ := padGroupForDistribution_spec hw ((real.map Prod.fst).filter (·.isMultimodal))
  obtain ⟨dtext, q', he', -, hdtext⟩ := padGroupForDistribution_spec hw ((real.map Prod.fst).filter (!·.isMultimodal))
  -- dummies get any logprobs
  let annotate : MicroBatch R → MicroBatch R × List R := fun d => (d, List.replicate d.inputIds.length 0)
  have hannotate : ∀ l : List (MicroBatch R), (l.map annotate).map Prod.fst = l := fun l => by
    rw [List.map_map]
    exact List.map_id l
  refine ⟨distribute w (real.filter (·.1.isMultimodal) ++ dmm.map annotate ++
    (real.filter (!·.1.isMultimodal) ++ dtext.map annotate)), ?_, real, dmm.map annotate ++ dtext.map annotate,
    (distribute_perm hw _).trans (groups_perm (·.1.isMultimodal) real _ _), hreal, fun x hx => ?_⟩
  · rw [distribute_map, he, he', List.map_append, List.map_append, List.map_append, hannotate, hannotate,
      List.filter_map, List.filter_map]
    rfl
  · have hsource : ∀ d, (∃ source ∈ real.map Prod.fst, d = makeDummyBatch source) → ∃ y ∈ real, d = makeDummyBatch y.1 := by
      rintro d ⟨_, hs, rfl⟩
      obtain ⟨y, hy, rfl⟩ := List.mem_map.1 hs
      exact ⟨y, hy, rfl⟩
    rcases List.mem_append.1 hx with hx | hx
    · obtain ⟨d, hd, rfl⟩ := List.mem_map.1 hx
      obtain ⟨source, hs, rfl⟩ := hdmm d hd
      exact ⟨List.length_replicate, hsource _ ⟨source, (List.mem_filter.1 hs).1, rfl⟩⟩
    · obtain ⟨d, hd, rfl⟩ := List.mem_map.1 hx
      obtain ⟨source, hs, rfl⟩ := hdtext d hd
      exact ⟨List.length_replicate, hsource _ ⟨source, (List.mem_filter.1 hs).1, rfl⟩⟩

theorem workersLoss_eq_ok {exp : R → R} {config : DefaultLossConfig R} {lossScale : Nat}
    {evaluated : List (List (MicroBatch R × List R))}
    (h : ∀ x ∈ evaluated.flatten, (∀ r, microBatchLoss exp config lossScale x.1 x.2 = .ok r →
      r.1 = microBatchValue exp config lossScale x) ∧ ∃ r, microBatchLoss exp config lossScale x.1 x.2 = .ok r) :
    workersLoss exp config lossScale evaluated =
      .ok (evaluated.flatten.map (microBatchValue exp config lossScale)).sum := by
  unfold workersLoss
  generalize evaluated.flatten = l at h
  obtain ⟨losses, hlosses, hvalues⟩ : ∃ losses, (l.mapM fun x => microBatchLoss exp config lossScale x.1 x.2) = .ok losses ∧
      losses.map Prod.fst = l.map (microBatchValue exp config lossScale) := by
    induction l with
    | nil => exact ⟨[], rfl, rfl⟩
    | cons x l ih =>
        obtain ⟨hvalue, r, hr⟩ := h x List.mem_cons_self
        obtain ⟨losses, hlosses, hvalues⟩ := ih fun y hy => h y (List.mem_cons_of_mem _ hy)
        rw [mapM_eq_ok_iff] at hlosses
        refine ⟨r :: losses, mapM_eq_ok_iff.2 (.cons hr hlosses), ?_⟩
        rw [List.map_cons, List.map_cons, hvalue r hr, hvalues]
  rw [hlosses, ← hvalues]
  rfl

omit [LinearOrder R] in
/-- The bins of the assignment, when the samples are ready. -/
theorem binReady (hprep : ∀ p ∈ samples, p.2.Prepares seqLen) (hready : ∀ p ∈ samples, SampleReady seqLen p.2) :
    ∀ bin ∈ assignment seqLen samples, BinReady seqLen bin := by
  intro bin hbin
  obtain ⟨hroom, hmode, hmm⟩ := assignment_bins seqLen bin hbin
  have hmem : ∀ p ∈ bin, p ∈ samples := fun p hp => (List.mem_insertionSort _).1 (mem_of_firstFit hbin hp)
  exact ⟨fun p hp => hprep p (hmem p hp), fun p hp => hready p (hmem p hp), hroom, hmode, hmm⟩

variable {exp : R → R} {config : DefaultLossConfig R} {lossScale : Nat} {real dummies : List (MicroBatch R × List R)}

/-- Evaluated bins all have a loss iff none is a single token or has incomplete teacher logprobs. -/
theorem real_loss_iff (hbins : ∀ bin ∈ assignment seqLen samples, BinReady seqLen bin)
    (hreal : List.Forall₂ (Evaluated logprobs seqLen numLoras padToMultipleOf) (assignment seqLen samples) real) :
    (∀ bin ∈ assignment seqLen samples, TeacherComplete seqLen bin ∧
      ((bin.flatMap (·.2.tokens seqLen)).length = 1 → padToMultipleOf ≠ 1)) ↔
        ∀ x ∈ real, ∃ r, microBatchLoss exp config lossScale x.1 x.2 = .ok r := by
  refine forall₂_forall_iff (((List.forall₂_and_left _ _).2 ⟨hbins, hreal⟩).imp ?_)
  rintro bin x ⟨hbin, hx⟩
  exact (hbin.exists_loss_iff exp config lossScale hx).symm

/-- Their losses are those of the samples. -/
theorem real_values (hbins : ∀ bin ∈ assignment seqLen samples, BinReady seqLen bin)
    (hteacher : ∀ bin ∈ assignment seqLen samples, TeacherComplete seqLen bin)
    (hreal : List.Forall₂ (Evaluated logprobs seqLen numLoras padToMultipleOf) (assignment seqLen samples) real) :
    (real.map (microBatchValue exp config lossScale)).sum =
      (samples.map (sampleValue exp config logprobs seqLen)).sum / lossScale := by
  have hboth := (List.forall₂_and_left _ _).2 ⟨hbins, (List.forall₂_and_left _ _).2 ⟨hteacher, hreal⟩⟩
  have hvalues : (assignment seqLen samples).map (fun bin =>
      (bin.map (sampleValue exp config logprobs seqLen)).sum / (lossScale : R)) =
        real.map (microBatchValue exp config lossScale) := by
    rw [← List.forall₂_eq_eq_eq, List.forall₂_map_left_iff, List.forall₂_map_right_iff]
    refine hboth.imp ?_
    rintro bin x ⟨hbin, hteacher, hx⟩
    exact (hbin.value_eq exp config lossScale hteacher hx).symm
  have hperm := (assignment_perm seqLen samples).map (sampleValue exp config logprobs seqLen)
  rw [← hvalues, ← hperm.sum_eq, List.map_flatten, List.sum_flatten, List.map_map, div_eq_mul_inv,
    ← List.sum_map_mul_right]
  simp only [div_eq_mul_inv, Function.comp_def]

end

/-- **Main.** The micro batches of all workers have the loss of the samples iff the samples have one, `prepare_batch`
returns, no bin has teacher logprobs for a part of its tokens only, and no micro batch is a single token. -/
theorem packingInvariance (exp : R → R) (config : DefaultLossConfig R) (logprobs : Nat × TrainingSample R → Nat → R)
    (lossScale : Nat) (samples : List (Nat × TrainingSample R)) (seqLen w numLoras padToMultipleOf : Nat) :
    LossInvariant exp config logprobs seqLen lossScale samples w numLoras padToMultipleOf ↔
      0 < w ∧ (samples ≠ [] → 0 < padToMultipleOf) ∧
        (∀ p ∈ samples, p.1 < numLoras ∧ p.2.Prepares seqLen ∧ SampleReady seqLen p.2) ∧
        ∀ bin ∈ assignment seqLen samples, OneLayout seqLen bin ∧ TeacherComplete seqLen bin ∧
          ((bin.flatMap (·.2.tokens seqLen)).length = 1 → padToMultipleOf ≠ 1) := by
  constructor
  · rintro ⟨grid, losses, hgrid, hlosses, hall⟩
    obtain ⟨hw, hpad, hsamples, hlayout⟩ := exists_prepareBatch_iff.1 ⟨grid, hgrid⟩
    have hready : ∀ p ∈ samples, SampleReady seqLen p.2 := by
      intro p hp
      obtain ⟨loss, hloss⟩ := exists_forall₂_iff.1 ⟨losses, hlosses⟩ p hp
      exact (sampleLoss_eq_ok_iff.1 hloss).1
    have hbins := binReady (fun p hp => (hsamples p hp).2) hready
    obtain ⟨evaluated, hmap, hfwd⟩ : ∃ evaluated, evaluated.map (List.map Prod.fst) = grid ∧
      Forwarded logprobs seqLen samples numLoras padToMultipleOf evaluated := exists_forwarded hgrid
    obtain ⟨results, hresults, -⟩ := bind_eq_ok.1 (hall evaluated hmap hfwd)
    obtain ⟨real, dummies, hperm, hreal, -⟩ := hfwd
    have hok : ∀ x ∈ real, ∃ r, microBatchLoss exp config lossScale x.1 x.2 = .ok r := fun x hx =>
      exists_forall₂_iff.1 ⟨results, mapM_eq_ok_iff.1 hresults⟩ x (hperm.symm.subset (List.mem_append_left _ hx))
    refine ⟨hw, hpad, fun p hp => ⟨(hsamples p hp).1, (hsamples p hp).2, hready p hp⟩, fun bin hbin => ?_⟩
    exact ⟨hlayout bin hbin, (real_loss_iff hbins hreal).2 hok bin hbin⟩
  · rintro ⟨hw, hpad, hsamples, hall⟩
    obtain ⟨grid, hgrid⟩ := exists_prepareBatch_iff.2
      ⟨hw, hpad, fun p hp => ⟨(hsamples p hp).1, (hsamples p hp).2.1⟩, fun bin hbin => (hall bin hbin).1⟩
    have hready : ∀ p ∈ samples, SampleReady seqLen p.2 := fun p hp => (hsamples p hp).2.2
    have hbins := binReady (fun p hp => (hsamples p hp).2.1) hready
    refine ⟨grid, samples.map (sampleValue exp config logprobs seqLen), hgrid, ?_, ?_⟩
    · rw [List.forall₂_map_right_iff, List.forall₂_same]
      exact fun p hp => sampleLoss_eq_ok_iff.2 ⟨hready p hp, rfl⟩
    · rintro evaluated - ⟨real, dummies, hperm, hreal, hdummies⟩
      have hok : ∀ x ∈ real, ∃ r, microBatchLoss exp config lossScale x.1 x.2 = .ok r :=
        (real_loss_iff hbins hreal).1 fun bin hbin => (hall bin hbin).2
      have hsized : ∀ x ∈ real, Sized x ∧ ∀ a ∈ x.1.advantages, a.isSome = true := by
        refine (forall₂_forall_iff (((List.forall₂_and_left _ _).2 ⟨hbins, hreal⟩).imp ?_)).1 fun _ _ => trivial
        rintro bin x ⟨hbin, hx⟩
        exact iff_of_true trivial (hbin.of_evaluated hx)
      rw [workersLoss_eq_ok, (hperm.map _).sum_eq, List.map_append, List.sum_append,
        real_values hbins (fun bin hbin => (hall bin hbin).2.1) hreal]
      · have hzero : (dummies.map (microBatchValue exp config lossScale)).sum = 0 := by
          refine List.sum_eq_zero fun v hv => ?_
          obtain ⟨x, hx, rfl⟩ := List.mem_map.1 hv
          obtain ⟨-, y, -, he⟩ := hdummies x hx
          obtain ⟨mb, l⟩ := x
          obtain rfl : mb = _ := he
          exact microBatchValue_dummy y.1 l
        rw [hzero, add_zero, one_div, div_eq_inv_mul]
      · intro x hx
        rcases List.mem_append.1 (hperm.subset hx) with hx | hx
        · exact ⟨(microBatchLoss_sized exp config lossScale (hsized x hx).1 (hsized x hx).2).1, hok x hx⟩
        · obtain ⟨hlen, y, hy, he⟩ := hdummies x hx
          exact exists_microBatchLoss_dummy hlen he (hsized y hy).1 (hsized y hy).2 (hok y hy)

/-- The loss of a sample of one token alone is a number, but the trainer cannot split its micro batch. -/
theorem packingInvariance_oneToken : validateSample 2 (oneToken (R := ℝ) none) = none ∧
    (∃ loss, sampleLoss Real.exp ⟨1 / 5, 1 / 5, 1, 1 / 1000⟩ (fun _ _ => 0) 2 (0, oneToken none) = .ok loss) ∧
    ¬ LossInvariant Real.exp ⟨1 / 5, 1 / 5, 1, 1 / 1000⟩ (fun _ _ => 0) 2 1 [(0, oneToken none)] 1 1 1 := by
  refine ⟨rfl, ⟨_, rfl⟩, ?_⟩
  rintro ⟨grid, losses, hgrid, -, hall⟩
  obtain ⟨mb, hrun, b, hb, hmb, hids⟩ : ∃ mb, prepareBatch [oneToken (R := ℝ) none] 2 1 [0] 1 1 = .ok [[mb]] ∧
      ∃ b, Fills 1 [packedItem 2 (0, oneToken (R := ℝ) none)] b ∧ padMicroBatch b 1 = .ok mb ∧
        mb.inputIds.length = 1 := ⟨_, rfl, _, .opened rfl, rfl, rfl⟩
  obtain rfl : grid = [[mb]] := Except.ok.inj (hgrid.symm.trans hrun)
  have hfwd : Forwarded (fun _ _ => 0) 2 [(0, oneToken (R := ℝ) none)] 1 1 [[(mb, [0])]] := by
    refine ⟨[(mb, [0])], [], .refl _, ?_, fun x hx => absurd hx List.not_mem_nil⟩
    exact .cons ⟨⟨b, hb, hmb⟩, hids.symm, [], rfl⟩ .nil
  obtain ⟨results, hresults, -⟩ := bind_eq_ok.1 (hall [[(mb, [0])]] rfl hfwd)
  obtain ⟨r, hr⟩ := exists_forall₂_iff.1 ⟨results, mapM_eq_ok_iff.1 hresults⟩ (mb, [0]) (List.mem_singleton_self _)
  obtain ⟨_, -, h⟩ := bind_eq_ok.1 hr
  obtain ⟨_, hsplit, -⟩ := bind_eq_ok.1 h
  exact (split_eq_ok_iff.1 hsplit).1 rfl

end AuroraRl.Trainer
