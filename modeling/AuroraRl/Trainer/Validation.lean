import AuroraRl.Trainer.Conservation
import Mathlib

/-!
# What the check of the packer is good for

* `mergedOptional_complete_iff` : an optional list of a bin is complete iff all samples have it or none has;
* `Merged.aligned_iff`, `Padded.aligned`, `Padded.optional` : when a bin is aligned, and that padding keeps it;
* `BinAgrees`, `Returns` : samples that may share a bin; `prepare_batch` returns aligned micro batches;
* `validationSufficiency` : accepted samples get there iff they are sound and those of every bin agree.
-/

namespace AuroraRl.Trainer
open FirstFit

variable {R : Type}

/-! ## Aligned bins -/

/-- Complete lists make a complete list iff, beside one that is there, none with entries is missing. -/
theorem mergedOptional_complete_iff {ι α β : Type} {f : ι → Option (List α)} {g : ι → List β} {bin : List ι}
    (hf : ∀ x ∈ bin, ∀ l, f x = some l → l.length = (g x).length) :
    (∀ l, mergedOptional f bin = some l → l.length = (bin.flatMap g).length) ↔
      ∀ x ∈ bin, ∀ y ∈ bin, (f x).isSome = true → 0 < (g y).length → (f y).isSome = true := by
  have hle : ∀ x ∈ bin, ((f x).getD []).length ≤ (g x).length := by
    intro x hx
    cases h : f x with
    | none => exact Nat.zero_le _
    | some l => exact (hf x hx l h).le
  have hsome : ∀ x ∈ bin, ((f x).getD []).length = (g x).length ↔ (0 < (g x).length → (f x).isSome = true) := by
    intro x hx
    cases h : f x with
    | none =>
        refine ⟨fun he hpos => absurd he hpos.ne, fun he => ?_⟩
        by_contra hne
        cases he (Nat.pos_of_ne_zero fun h => hne h.symm)
    | some l => exact iff_of_true (hf x hx l h) fun _ => rfl
  unfold mergedOptional
  split_ifs with hall
  · have hnone : ∀ x ∈ bin, f x = none := fun x hx => Option.isNone_iff_eq_none.1 (List.all_eq_true.1 hall x hx)
    refine iff_of_true (fun l hl => (by cases hl)) fun x hx y hy h => ?_
    rw [hnone x hx] at h
    cases h
  · obtain ⟨x₀, hx₀, h₀⟩ : ∃ x ∈ bin, (f x).isSome = true := by
      by_contra hnot
      refine hall (List.all_eq_true.2 fun x hx => ?_)
      rw [Option.isNone_iff_eq_none, ← Option.not_isSome_iff_eq_none]
      exact fun h => hnot ⟨x, hx, h⟩
    have hflat := flatMap_length_eq_iff hle
    constructor
    · intro h x hx y hy _
      exact (hsome y hy).1 (hflat.1 (h _ rfl) y hy)
    · intro h l hl
      cases hl
      exact hflat.2 fun x hx => (hsome x hx).2 (h x₀ hx₀ x hx h₀)

theorem mergedOptional_length_iff {ι α β : Type} {f : ι → Option (List α)} {g : ι → List β} {bin : List ι}
    (hpos : ∀ x ∈ bin, 0 < (g x).length) (hf : ∀ x ∈ bin, ∀ l, f x = some l → l.length = (g x).length) :
    (∀ l, mergedOptional f bin = some l → l.length = (bin.flatMap g).length) ↔
      ∀ x ∈ bin, ∀ y ∈ bin, (f x).isSome = (f y).isSome := by
  rw [mergedOptional_complete_iff hf]
  constructor
  · intro h x hx y hy
    rw [Bool.eq_iff_iff]
    exact ⟨fun hs => h x hx y hy hs (hpos y hy), fun hs => h y hy x hx hs (hpos x hx)⟩
  · intro h x hx y hy hs _
    rwa [← h x hx y hy]

section

variable {numLoras : Nat} {bin : List (Nat × MicroBatch R)} {b : MicroBatch R}

/-- A bin of aligned samples is aligned iff their optional lists are there in all or in none. -/
theorem Merged.aligned_iff (h : Merged numLoras bin b) (hal : ∀ x ∈ bin, x.2.Aligned)
    (hrewards : ∀ x ∈ bin, ∃ l, x.2.rewards = some l) (hpos : ∀ x ∈ bin, 0 < x.2.inputIds.length) : b.Aligned ↔
      (∀ x ∈ bin, ∀ y ∈ bin, x.2.teacherLogprobs.isSome = y.2.teacherLogprobs.isSome) ∧
        ∀ x ∈ bin, ∀ y ∈ bin, x.2.mmTokenTypeIds.isSome = y.2.mmTokenTypeIds.isSome := by
  have hlist : ∀ {α : Type} (f : Nat × MicroBatch R → List α), (∀ x ∈ bin, (f x).length = x.2.inputIds.length) →
      (bin.flatMap f).length = (bin.flatMap (·.2.inputIds)).length := fun f hf =>
    (flatMap_length_eq_iff fun x hx => (hf x hx).le).2 hf
  rw [← mergedOptional_length_iff hpos fun x hx => (hal x hx).teacherLogprobs,
    ← mergedOptional_length_iff hpos fun x hx => (hal x hx).mmTokenTypeIds, ← h.teacherLogprobs, ← h.mmTokenTypeIds,
    ← h.inputIds]
  refine ⟨fun h => ⟨h.teacherLogprobs, h.mmTokenTypeIds⟩, fun ⟨hteacher, hmm⟩ =>
    ⟨?_, ?_, ?_, ?_, ?_, ?_, hteacher, hmm, fun l hl => ?_, h.rows⟩⟩ <;> rw [h.inputIds]
  · rw [h.lossMask, hlist _ fun x hx => (hal x hx).lossMask]
  · rw [h.advantages, hlist _ fun x hx => (hal x hx).advantages]
  · rw [h.inferenceLogprobs, hlist _ fun x hx => (hal x hx).inferenceLogprobs]
  · rw [h.positionIds, hlist _ fun x hx => (hal x hx).positionIds]
  · rw [h.temperatures, hlist _ fun x hx => (hal x hx).temperatures]
  · rw [h.envNames, hlist _ fun x hx => (hal x hx).envNames]
  · rw [h.rewards] at hl
    cases hl
    refine hlist _ fun x hx => ?_
    obtain ⟨l, hl⟩ := hrewards x hx
    rw [hl, Option.getD_some]
    exact (hal x hx).rewards l hl

end

section

variable [Zero R] [One R] {k : Nat} {mb mb' : MicroBatch R}

theorem Padded.aligned (h : Padded k mb mb') (hal : mb.Aligned) : mb'.Aligned := by
  have hlen : mb'.inputIds.length = mb.inputIds.length + k := by
    rw [h.inputIds, List.length_append, List.length_replicate]
  refine ⟨?_, ?_, ?_, ?_, ?_, ?_, fun l hl => ?_, fun l hl => ?_, fun l hl => ?_, fun r' hr' => ?_⟩ <;> rw [hlen]
  · rw [h.lossMask, List.length_append, List.length_replicate, hal.lossMask]
  · rw [h.advantages, List.length_append, List.length_replicate, hal.advantages]
  · rw [h.inferenceLogprobs, List.length_append, List.length_replicate, hal.inferenceLogprobs]
  · rw [h.positionIds, List.length_append, List.length_range, hal.positionIds]
  · rw [h.temperatures, List.length_append, List.length_replicate, hal.temperatures]
  · rw [h.envNames, List.length_append, List.length_replicate, hal.envNames]
  · rw [h.teacherLogprobs] at hl
    obtain ⟨l', hl', rfl⟩ := Option.map_eq_some_iff.1 hl
    rw [List.length_append, List.length_replicate, hal.teacherLogprobs l' hl']
  · rw [h.mmTokenTypeIds] at hl
    obtain ⟨l', hl', rfl⟩ := Option.map_eq_some_iff.1 hl
    rw [List.length_append, List.length_replicate, hal.mmTokenTypeIds l' hl']
  · rw [h.rewards] at hl
    obtain ⟨l', hl', rfl⟩ := Option.map_eq_some_iff.1 hl
    rw [List.length_append, List.length_replicate, hal.rewards l' hl']
  · obtain ⟨r, hr, hrows⟩ := h.rows r' hr'
    exact hrows _ (hal.routedExperts r hr)

/-- Padding does not hide a missing part of an optional list. -/
theorem Padded.optional (h : Padded k mb mb') (hal : mb'.Aligned) :
    (∀ l, mb.teacherLogprobs = some l → l.length = mb.inputIds.length) ∧
      ∀ l, mb.mmTokenTypeIds = some l → l.length = mb.inputIds.length := by
  have hlen : mb'.inputIds.length = mb.inputIds.length + k := by
    rw [h.inputIds, List.length_append, List.length_replicate]
  constructor
  · intro l hl
    have hl' := hal.teacherLogprobs (l ++ List.replicate k 0) (by rw [h.teacherLogprobs, hl]; rfl)
    rw [List.length_append, List.length_replicate, hlen] at hl'
    exact Nat.add_right_cancel hl'
  · intro l hl
    have hl' := hal.mmTokenTypeIds (l ++ List.replicate k 0) (by rw [h.mmTokenTypeIds, hl]; rfl)
    rw [List.length_append, List.length_replicate, hlen] at hl'
    exact Nat.add_right_cancel hl'

omit [One R] in
theorem makeDummyBatch_aligned (hal : mb.Aligned) : (makeDummyBatch mb).Aligned where
  lossMask := List.length_replicate
  advantages := List.length_replicate
  inferenceLogprobs := hal.inferenceLogprobs
  positionIds := hal.positionIds
  temperatures := hal.temperatures
  envNames := hal.envNames
  teacherLogprobs := hal.teacherLogprobs
  mmTokenTypeIds := hal.mmTokenTypeIds
  rewards := hal.rewards
  routedExperts := hal.routedExperts

end

/-! ## Accepted samples -/

/-- `prepare_batch` returns, with aligned micro batches. -/
def ReturnsAligned [Zero R] [One R] (samples : List (Nat × TrainingSample R)) (seqLen w numLoras padToMultipleOf : Nat) :
    Prop :=
  ∃ grid, prepareBatch (samples.map Prod.snd) seqLen w (samples.map Prod.fst) numLoras padToMultipleOf = .ok grid ∧
    ∀ row ∈ grid, ∀ mb ∈ row, mb.Aligned

/-- The samples of a bin have the same optional lists and experts of one layout. -/
structure BinAgrees (bin : List (Nat × TrainingSample R)) : Prop where
  teacherLogprobs : ∀ p ∈ bin, ∀ q ∈ bin, p.2.teacherLogprobs.isSome = q.2.teacherLogprobs.isSome
  mmTokenTypeIds : ∀ p ∈ bin, ∀ q ∈ bin, p.2.mmTokenTypeIds.isSome = q.2.mmTokenTypeIds.isSome
  routedExperts : ∀ p ∈ bin, ∀ q ∈ bin,
    p.2.routedExperts.map RoutedExperts.layout = q.2.routedExperts.map RoutedExperts.layout

section

variable [Zero R] [One R] {seqLen numLoras padToMultipleOf : Nat} {samples bin : List (Nat × TrainingSample R)}

theorem TrainingSample.Valid.prepares_iff {s : TrainingSample R} (h : s.Valid seqLen) : s.Prepares seqLen ↔ s.Sound := by
  constructor
  · rintro ⟨mb, hmb⟩
    exact ((prepareSample_valid_iff h).1 hmb).1
  · exact fun hs => ⟨_, (prepareSample_valid_iff h).2 ⟨hs, rfl⟩⟩

theorem TrainingSample.Valid.packed {s : TrainingSample R} (h : s.Valid seqLen) :
    s.packed seqLen = s.prepared seqLen s.routedExperts := by
  unfold TrainingSample.packed
  rw [h.preparedExperts]
  rfl

theorem oneLayout_iff (hvalid : ∀ p ∈ bin, p.2.Valid seqLen) : OneLayout seqLen bin ↔ ∀ p ∈ bin, ∀ q ∈ bin,
    p.2.routedExperts.map RoutedExperts.layout = q.2.routedExperts.map RoutedExperts.layout := by
  have hexperts : ∀ p ∈ bin, (p.2.packed seqLen).routedExperts = p.2.routedExperts := fun p hp =>
    congrArg MicroBatch.routedExperts (hvalid p hp).packed
  refine forall₂_congr fun p hp => forall₂_congr fun q hq => ?_
  rw [hexperts p hp, hexperts q hq]

/-- The micro batch of a bin is aligned iff the optional lists of the samples agree. -/
theorem packed_aligned_iff (hvalid : ∀ p ∈ bin, p.2.Valid seqLen) (hprep : ∀ p ∈ bin, p.2.Prepares seqLen)
    {b mb : MicroBatch R} (hb : Fills numLoras (bin.map (packedItem seqLen)) b)
    (hmb : padMicroBatch b padToMultipleOf = .ok mb) : mb.Aligned ↔
      (∀ p ∈ bin, ∀ q ∈ bin, p.2.teacherLogprobs.isSome = q.2.teacherLogprobs.isSome) ∧
        ∀ p ∈ bin, ∀ q ∈ bin, p.2.mmTokenTypeIds.isSome = q.2.mmTokenTypeIds.isSome := by
  have hm := merged_packed hprep hb
  have hpos : ∀ p ∈ bin, 0 < (p.2.packed seqLen).inputIds.length := by
    intro p hp
    show 0 < (p.2.tokens seqLen).length
    rw [p.2.tokens_length, Nat.min_eq_left (hvalid p hp).le]
    exact (hvalid p hp).pos
  have hbin := hm.aligned_iff (forall_packedItem.2 fun p hp => (hprep p hp).aligned)
    (forall_packedItem.2 fun p hp => (hprep p hp).prepared.rewards) (forall_packedItem.2 hpos)
  have hteacher : ∀ p : Nat × TrainingSample R,
      (packedItem seqLen p).2.teacherLogprobs.isSome = p.2.teacherLogprobs.isSome := fun p => Option.isSome_map
  have hmm : ∀ p : Nat × TrainingSample R,
      (packedItem seqLen p).2.mmTokenTypeIds.isSome = p.2.mmTokenTypeIds.isSome := fun p => Option.isSome_map
  simp only [forall_packedItem, hteacher, hmm] at hbin
  obtain ⟨-, -, hpad⟩ := padMicroBatch_padded hmb
  rw [← hbin]
  refine ⟨fun hal => ?_, hpad.aligned⟩
  have hopt := hpad.optional hal
  refine hbin.2 ⟨?_, ?_⟩
  · have hlen := (mergedOptional_length_iff (forall_packedItem.2 hpos) (forall_packedItem.2 fun p hp =>
      (hprep p hp).aligned.teacherLogprobs)).1 (by rw [← hm.teacherLogprobs, ← hm.inputIds]; exact hopt.1)
    simpa only [forall_packedItem, hteacher] using hlen
  · have hlen := (mergedOptional_length_iff (forall_packedItem.2 hpos) (forall_packedItem.2 fun p hp =>
      (hprep p hp).aligned.mmTokenTypeIds)).1 (by rw [← hm.mmTokenTypeIds, ← hm.inputIds]; exact hopt.2)
    simpa only [forall_packedItem, hmm] using hlen

/-- The micro batches of the assignment are aligned iff the optional lists agree in every bin. -/
theorem packs_aligned_iff (hvalid : ∀ p ∈ samples, p.2.Valid seqLen) (hprep : ∀ p ∈ samples, p.2.Prepares seqLen)
    {mbs : List (MicroBatch R)} (hmbs : Packs samples seqLen numLoras padToMultipleOf mbs) :
    (∀ bin ∈ assignment seqLen samples,
      (∀ p ∈ bin, ∀ q ∈ bin, p.2.teacherLogprobs.isSome = q.2.teacherLogprobs.isSome) ∧
        ∀ p ∈ bin, ∀ q ∈ bin, p.2.mmTokenTypeIds.isSome = q.2.mmTokenTypeIds.isSome) ↔ ∀ mb ∈ mbs, mb.Aligned := by
  have hmem : ∀ bin ∈ assignment seqLen samples, ∀ p ∈ bin, p ∈ samples := fun bin hbin p hp =>
    (List.mem_insertionSort _).1 (mem_of_firstFit hbin hp)
  refine forall₂_forall_iff (((List.forall₂_and_left _ _).2 ⟨hmem, hmbs⟩).imp ?_)
  rintro bin mb ⟨hin, b, hb, hmb⟩
  exact (packed_aligned_iff (fun p hp => hvalid p (hin p hp)) (fun p hp => hprep p (hin p hp)) hb hmb).symm

omit [One R] in
/-- Every worker's micro batches are aligned iff those of the assignment are. -/
theorem distribute_aligned_iff {w : Nat} (hw : 0 < w) (mbs : List (MicroBatch R)) :
    (∀ row ∈ distribute w (padGroupForDistribution (mbs.filter (·.isMultimodal)) w ++
      padGroupForDistribution (mbs.filter (!·.isMultimodal)) w), ∀ mb ∈ row, mb.Aligned) ↔ ∀ mb ∈ mbs, mb.Aligned := by
  obtain ⟨dummies, -, -, hdummies, hperm, -⟩ := distributeBatches_rows hw mbs
  constructor
  · intro h mb hmb
    obtain ⟨row, hrow, hin⟩ := List.mem_flatten.1 (hperm.symm.subset (List.mem_append_left dummies hmb))
    exact h row hrow mb hin
  · intro h row hrow mb hmb
    rcases List.mem_append.1 (hperm.subset (List.mem_flatten.2 ⟨row, hrow, hmb⟩)) with hmb | hmb
    · exact h mb hmb
    · obtain ⟨source, hsource, rfl⟩ := hdummies mb hmb
      exact makeDummyBatch_aligned (h source hsource)

end

/-- **Main.** What `_validate_sample` accepts goes through `prepare_batch` iff the samples are sound and share their bins
only with samples that have the same optional lists. -/
theorem validationSufficiency [Zero R] [One R] (samples : List (Nat × TrainingSample R))
    (seqLen w numLoras padToMultipleOf : Nat) (hne : samples ≠ [])
    (haccepted : ∀ p ∈ samples, validateSample seqLen p.2 = none) :
    ReturnsAligned samples seqLen w numLoras padToMultipleOf ↔
      0 < w ∧ 0 < padToMultipleOf ∧ (∀ p ∈ samples, p.1 < numLoras ∧ p.2.Sound) ∧
        ∀ bin ∈ assignment seqLen samples, BinAgrees bin := by
  have hvalid : ∀ p ∈ samples, p.2.Valid seqLen := fun p hp => validateSample_eq_none_iff.1 (haccepted p hp)
  have hlayouts : ∀ bin ∈ assignment seqLen samples, OneLayout seqLen bin ↔ ∀ p ∈ bin, ∀ q ∈ bin,
      p.2.routedExperts.map RoutedExperts.layout = q.2.routedExperts.map RoutedExperts.layout := fun bin hbin =>
    oneLayout_iff fun p hp => hvalid p ((List.mem_insertionSort _).1 (mem_of_firstFit hbin hp))
  constructor
  · rintro ⟨grid, hgrid, hal⟩
    obtain ⟨hw, hpad, hsamples, hlayout⟩ := exists_prepareBatch_iff.1 ⟨grid, hgrid⟩
    obtain ⟨-, hprep, mbs, hmbs, rfl⟩ := prepareBatch_eq_ok_iff.1 hgrid
    have hagree := (packs_aligned_iff hvalid hprep hmbs).2 ((distribute_aligned_iff hw mbs).1 hal)
    refine ⟨hw, hpad hne, fun p hp => ⟨(hsamples p hp).1, (hvalid p hp).prepares_iff.1 (hsamples p hp).2⟩, ?_⟩
    exact fun bin hbin => ⟨(hagree bin hbin).1, (hagree bin hbin).2, (hlayouts bin hbin).1 (hlayout bin hbin)⟩
  · rintro ⟨hw, hpad, hsamples, hagree⟩
    have hprep : ∀ p ∈ samples, p.2.Prepares seqLen := fun p hp => (hvalid p hp).prepares_iff.2 (hsamples p hp).2
    obtain ⟨grid, hgrid⟩ := exists_prepareBatch_iff.2 ⟨hw, fun _ => hpad,
      fun p hp => ⟨(hsamples p hp).1, hprep p hp⟩, fun bin hbin => (hlayouts bin hbin).2 (hagree bin hbin).routedExperts⟩
    obtain ⟨-, -, mbs, hmbs, rfl⟩ := prepareBatch_eq_ok_iff.1 hgrid
    refine ⟨_, hgrid, (distribute_aligned_iff hw mbs).2 ((packs_aligned_iff hvalid hprep hmbs).1 ?_)⟩
    exact fun bin hbin => ⟨(hagree bin hbin).teacherLogprobs, (hagree bin hbin).mmTokenTypeIds⟩

/-! ## Fixed inputs -/

/-- A sample of one prompt token and the given teacher logprobs. -/
def oneToken [One R] (teacherLogprobs : Option (List R)) : TrainingSample R where
  promptIds := [7]
  promptMask := [false]
  completionIds := []
  completionMask := []
  completionLogprobs := []
  completionTemperatures := []
  envName := "env"
  teacherLogprobs := teacherLogprobs
  advantage := some 1
  reward := none
  mmKwargs := none
  routedExperts := none
  mmTokenTypeIds := none
  trainingMode := .rl

/-- Two runs share a bin: both samples have teacher logprobs. -/
theorem validationSufficiency_sharedBin :
    ReturnsAligned [(0, oneToken (R := Int) (some [5])), (1, oneToken (some [6]))] 2 1 2 1 := by
  have hassign : assignment 2 [(0, oneToken (R := Int) (some [5])), (1, oneToken (some [6]))] =
      [[(0, oneToken (some [5])), (1, oneToken (some [6]))]] := rfl
  refine (validationSufficiency _ 2 1 2 1 (List.cons_ne_nil _ _) (by decide)).2
    ⟨Nat.one_pos, Nat.one_pos, fun p hp => ?_, fun bin hbin => ?_⟩
  · simp only [List.mem_cons, List.not_mem_nil, or_false] at hp
    rcases hp with rfl | rfl
    · exact ⟨by decide, by decide, fun l hl => (by cases hl), fun r hr => (by cases hr)⟩
    · exact ⟨by decide, by decide, fun l hl => (by cases hl), fun r hr => (by cases hr)⟩
  · rw [hassign, List.mem_singleton] at hbin
    subst hbin
    have hsame : ∀ p ∈ [(0, oneToken (R := Int) (some [5])), (1, oneToken (some [6]))],
        p.2.teacherLogprobs.isSome = true ∧ p.2.mmTokenTypeIds = none ∧ p.2.routedExperts = none := by
      intro p hp
      simp only [List.mem_cons, List.not_mem_nil, or_false] at hp
      rcases hp with rfl | rfl
      · exact ⟨rfl, rfl, rfl⟩
      · exact ⟨rfl, rfl, rfl⟩
    refine ⟨fun p hp q hq => ?_, fun p hp q hq => ?_, fun p hp q hq => ?_⟩
    · rw [(hsame p hp).1, (hsame q hq).1]
    · rw [(hsame p hp).2.1, (hsame q hq).2.1]
    · rw [(hsame p hp).2.2, (hsame q hq).2.2]

/-- Two accepted samples of one bin, of which one has teacher logprobs: the bin has one logprob for its two tokens. -/
theorem validationSufficiency_mixedTeacher :
    (∀ p ∈ [(0, oneToken (R := Int) (some [5])), (0, oneToken (R := Int) none)], validateSample 2 p.2 = none) ∧
      ¬ ReturnsAligned [(0, oneToken (R := Int) (some [5])), (0, oneToken (R := Int) none)] 2 1 1 1 := by
  refine ⟨by decide, ?_⟩
  rintro ⟨grid, hgrid, hal⟩
  obtain ⟨mb, hrun, hteacher, hids⟩ : ∃ mb, prepareBatch [oneToken (R := Int) (some [5]),
    oneToken (R := Int) none] 2 1 [0, 0] 1 1 =
      .ok [[mb]] ∧ mb.teacherLogprobs = some [5] ∧ mb.inputIds = [7, 7] := ⟨_, rfl, rfl, rfl⟩
  obtain rfl : grid = [[mb]] := Except.ok.inj (hgrid.symm.trans hrun)
  have hlen := (hal [mb] (List.mem_singleton_self _) mb (List.mem_singleton_self _)).teacherLogprobs [5] hteacher
  rw [hids] at hlen
  cases hlen

end AuroraRl.Trainer
