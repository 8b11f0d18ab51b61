import AuroraRl.Trainer.Batch

/-!
# Prepared samples

* `RoutedExperts.Sound`, `MicroBatch.Aligned` : experts of `n` rows; all lists of a micro batch as long as its tokens;
* `checkLengths_eq_ok_iff`, `prepareSample_eq_ok_iff` : when the assertions pass;
* `TrainingSample.Valid`, `validateSample_eq_none_iff` : what the packer accepts;
* `prepareSample_valid_iff` : what an accepted sample still needs to get through `prepare_sample`.
-/

namespace AuroraRl.Trainer

variable {R : Type}

/-! ## Lengths -/

/-- The experts of `n` tokens. -/
structure RoutedExperts.Sound (r : RoutedExperts) (n : Nat) : Prop where
  rows : r.shape[0]? = some n
  data : ∃ rowSize, r.rowSize = .ok rowSize ∧ r.data.length = n * rowSize

/-- Every list of the micro batch is as long as its tokens. -/
structure MicroBatch.Aligned (mb : MicroBatch R) : Prop where
  lossMask : mb.lossMask.length = mb.inputIds.length
  advantages : mb.advantages.length = mb.inputIds.length
  inferenceLogprobs : mb.inferenceLogprobs.length = mb.inputIds.length
  positionIds : mb.positionIds.length = mb.inputIds.length
  temperatures : mb.temperatures.length = mb.inputIds.length
  envNames : mb.envNames.length = mb.inputIds.length
  teacherLogprobs : ∀ l, mb.teacherLogprobs = some l → l.length = mb.inputIds.length
  mmTokenTypeIds : ∀ l, mb.mmTokenTypeIds = some l → l.length = mb.inputIds.length
  rewards : ∀ l, mb.rewards = some l → l.length = mb.inputIds.length
  routedExperts : ∀ r, mb.routedExperts = some r → r.shape[0]? = some mb.inputIds.length

theorem checkOptional_eq_ok_iff {α : Type} {l : Option (List α)} {n : Nat} {message : Nat → String} {u : Unit} :
    checkOptional l n message = .ok u ↔ ∀ l', l = some l' → l'.length = n := by
  cases l with
  | none => exact ⟨fun _ _ h => (by cases h), fun _ => rfl⟩
  | some l =>
      unfold checkOptional
      rw [pyAssert_eq_ok]
      exact ⟨fun h _ he => (by cases he; exact h), fun h => h l rfl⟩

theorem checkRoutedExperts_eq_ok_iff {routedExperts : Option RoutedExperts} {n : Nat} {u : Unit} :
    checkRoutedExperts routedExperts n = .ok u ↔ ∀ r, routedExperts = some r → r.Sound n := by
  cases routedExperts with
  | none => exact ⟨fun _ _ h => (by cases h), fun _ => rfl⟩
  | some r =>
      simp only [checkRoutedExperts, bind_eq_ok, pyAssert_eq_ok, listItem_eq_ok, exists_and_left]
      constructor
      · rintro ⟨rows, hrows, rfl, _, rowSize, hsize, hdata⟩ _ he
        cases he
        exact ⟨hrows, rowSize, hsize, hdata⟩
      · intro h
        obtain ⟨hrows, rowSize, hsize, hdata⟩ := h r rfl
        exact ⟨n, hrows, rfl, (), rowSize, hsize, hdata⟩

theorem checkLengths_eq_ok_iff {mb : MicroBatch R} {rewards : List (Option R)} (hrewards : mb.rewards = some rewards)
    {u : Unit} : checkLengths mb = .ok u ↔
      mb.Aligned ∧ ∀ r, mb.routedExperts = some r → r.Sound mb.inputIds.length := by
  simp only [checkLengths, bind_eq_ok, pyAssert_eq_ok, checkOptional_eq_ok_iff, checkRoutedExperts_eq_ok_iff, hrewards,
    Option.getD_some, exists_const]
  constructor
  · rintro ⟨⟨hadv, hmask, hpos, hinf, hrew, htemp⟩, hteacher, hrouted, hmm, henv⟩
    refine ⟨⟨hmask.symm, hadv.symm, hinf.symm, hpos.symm, htemp.symm, henv, hteacher, hmm, fun l hl => ?_,
      fun r hr => (hrouted r hr).rows⟩, hrouted⟩
    rw [hrewards] at hl
    cases hl
    exact hrew.symm
  · rintro ⟨h, hrouted⟩
    exact ⟨⟨h.advantages.symm, h.lossMask.symm, h.positionIds.symm, h.inferenceLogprobs.symm,
      (h.rewards _ hrewards).symm, h.temperatures.symm⟩, h.teacherLogprobs, hrouted, h.mmTokenTypeIds, h.envNames⟩

/-! ## `prepare_sample` -/

section

variable [Zero R] [One R]

theorem prepareSample_eq_ok_iff {s : TrainingSample R} {seqLen : Nat} {mb : MicroBatch R} :
    prepareSample s seqLen = .ok mb ↔ s.envName ≠ "all" ∧ ∃ routed, s.preparedExperts seqLen = .ok routed ∧
      mb = s.prepared seqLen routed ∧ mb.Aligned ∧ ∀ r, routed = some r → r.Sound mb.inputIds.length := by
  have hcheck : ∀ (routed : Option RoutedExperts) (u : Unit), checkLengths (s.prepared seqLen routed) = .ok u ↔
      (s.prepared seqLen routed).Aligned ∧
        ∀ r, routed = some r → r.Sound (s.prepared seqLen routed).inputIds.length :=
    fun routed u => checkLengths_eq_ok_iff rfl
  simp only [prepareSample, bind_eq_ok, pyAssert_eq_ok, hcheck, exists_const]
  refine and_congr_right fun _ => exists_congr fun routed => and_congr_right fun _ => ?_
  constructor
  · rintro ⟨hal, h⟩
    cases h
    exact ⟨rfl, hal⟩
  · rintro ⟨rfl, hal⟩
    exact ⟨hal, rfl⟩

end

/-! ## Samples the packer accepts -/

/-- What `_validate_sample` accepts. -/
structure TrainingSample.Valid (seqLen : Nat) (s : TrainingSample R) : Prop where
  promptMask : s.promptMask.length = s.promptIds.length
  completionMask : s.completionMask.length = s.completionIds.length
  completionLogprobs : s.completionLogprobs.length = s.completionIds.length
  completionTemperatures : s.completionTemperatures.length = s.completionIds.length
  pos : 0 < s.length
  le : s.length ≤ seqLen
  teacherLogprobs : ∀ l, s.teacherLogprobs = some l → l.length = s.length

theorem validateSample_eq_none_iff {seqLen : Nat} {s : TrainingSample R} :
    validateSample seqLen s = none ↔ s.Valid seqLen := by
  constructor
  · intro h
    unfold validateSample at h
    split_ifs at h with h₁ h₂ h₃ h₄ h₅ h₆
    refine ⟨not_not.1 h₁, not_not.1 h₂, not_not.1 h₃, not_not.1 h₄, Nat.pos_of_ne_zero h₅, Nat.le_of_not_lt h₆,
      fun l hl => ?_⟩
    rw [hl] at h
    dsimp only at h
    split_ifs at h with h₇
    exact not_not.1 h₇
  · intro h
    unfold validateSample
    rw [if_neg (not_not.2 h.promptMask), if_neg (not_not.2 h.completionMask), if_neg (not_not.2 h.completionLogprobs),
      if_neg (not_not.2 h.completionTemperatures), if_neg h.pos.ne', if_neg (Nat.not_lt.2 h.le)]
    cases hl : s.teacherLogprobs with
    | none => rfl
    | some l => exact if_neg (not_not.2 (h.teacherLogprobs l hl))

namespace TrainingSample

variable {seqLen : Nat} {s : TrainingSample R}

theorem cut_of_le {α : Type} (h : s.length ≤ seqLen) (l : List α) : s.cut seqLen l = l :=
  if_neg (Nat.not_lt.2 h)

/-- What an accepted sample still needs for `prepare_sample`. -/
structure Sound (s : TrainingSample R) : Prop where
  envName : s.envName ≠ "all"
  mmTokenTypeIds : ∀ l, s.mmTokenTypeIds = some l → l.length = s.length
  routedExperts : ∀ r, s.routedExperts = some r → r.Sound s.length

variable [Zero R] [One R]

theorem prepared_inputIds_length (s : TrainingSample R) (seqLen : Nat) (routed : Option RoutedExperts) :
    (s.prepared seqLen routed).inputIds.length = min s.length seqLen := by
  show (s.cut seqLen (s.promptIds ++ s.completionIds)).length = _
  unfold cut
  split_ifs with h
  · rw [List.length_take, List.length_append, Nat.min_comm]
    rfl
  · rw [List.length_append]
    exact (Nat.min_eq_left (Nat.le_of_not_lt h)).symm

theorem Valid.aligned (h : s.Valid seqLen) {routed : Option RoutedExperts}
    (hmm : ∀ l, s.mmTokenTypeIds = some l → l.length = s.length)
    (hrouted : ∀ r, routed = some r → r.shape[0]? = some s.length) : (s.prepared seqLen routed).Aligned := by
  have hlen : (s.prepared seqLen routed).inputIds.length = s.length := by
    rw [prepared_inputIds_length, Nat.min_eq_left h.le]
  refine ⟨?_, ?_, ?_, ?_, ?_, ?_, fun l hl => ?_, fun l hl => ?_, fun l hl => ?_, fun r hr => ?_⟩ <;> rw [hlen]
  · show (s.cut seqLen _).length = _
    rw [cut_of_le h.le, List.length_append, h.promptMask, h.completionMask]
    rfl
  · show (s.cut seqLen _).length = _
    rw [cut_of_le h.le, List.length_replicate]
  · show (s.cut seqLen _).length = _
    rw [cut_of_le h.le, List.length_append, List.length_replicate, h.completionLogprobs]
    rfl
  · show (s.cut seqLen _).length = _
    rw [cut_of_le h.le, List.length_range]
  · show (s.cut seqLen _).length = _
    rw [cut_of_le h.le, List.length_append, List.length_replicate, h.completionTemperatures]
    rfl
  · show (s.cut seqLen _).length = _
    rw [cut_of_le h.le, List.length_replicate]
  · obtain ⟨l', hl', rfl⟩ := Option.map_eq_some_iff.1 hl
    rw [cut_of_le h.le]
    exact h.teacherLogprobs l' hl'
  · obtain ⟨l', hl', rfl⟩ := Option.map_eq_some_iff.1 hl
    rw [cut_of_le h.le]
    exact hmm l' hl'
  · cases hl
    rw [cut_of_le h.le, List.length_replicate]
  · exact hrouted r hr

omit [Zero R] [One R] in
theorem Valid.preparedExperts (h : s.Valid seqLen) : s.preparedExperts seqLen = .ok s.routedExperts := by
  unfold TrainingSample.preparedExperts
  cases s.routedExperts with
  | none => rfl
  | some r => exact if_neg (Nat.not_lt.2 h.le)

end TrainingSample

/-- An accepted sample gets through `prepare_sample` iff it is sound. -/
theorem prepareSample_valid_iff [Zero R] [One R] {s : TrainingSample R} {seqLen : Nat} (h : s.Valid seqLen)
    {mb : MicroBatch R} :
    prepareSample s seqLen = .ok mb ↔ s.Sound ∧ mb = s.prepared seqLen s.routedExperts := by
  have hlen : ∀ routed, (s.prepared seqLen routed).inputIds.length = s.length := fun routed => by
    rw [s.prepared_inputIds_length, Nat.min_eq_left h.le]
  rw [prepareSample_eq_ok_iff]
  constructor
  · rintro ⟨henv, routed, hrouted, rfl, hal, hsound⟩
    rw [h.preparedExperts] at hrouted
    cases hrouted
    refine ⟨⟨henv, fun l hl => ?_, fun r hr => (hlen s.routedExperts) ▸ hsound r hr⟩, rfl⟩
    have hmm := hal.mmTokenTypeIds (s.cut seqLen l) (congrArg (Option.map (s.cut seqLen)) hl)
    rwa [hlen, s.cut_of_le h.le] at hmm
  · rintro ⟨hs, rfl⟩
    refine ⟨hs.envName, s.routedExperts, h.preparedExperts, rfl, ?_, fun r hr => (hlen _).symm ▸ hs.routedExperts r hr⟩
    exact h.aligned hs.mmTokenTypeIds fun r hr => (hs.routedExperts r hr).rows

end AuroraRl.Trainer
