import AuroraRl.Trainer.Packing
import AuroraRl.Trainer.Workers

/-!
# `prepare_batch` loses and doubles nothing

* `Padded`, `padMicroBatch_padded`, `exists_padMicroBatch` : what padding appends, and when it succeeds;
* `Packs`, `prepareBatch_eq_ok_iff` : the workers' micro batches from the assignment of the samples;
* `exists_prepareBatch_iff` : when there are any;
* `Holds`, `Conserves`, `batchConservation` : the samples of every bin one after the other, then the padding; the rest
  are dummies without loss, shared evenly.
-/

namespace AuroraRl.Trainer
open FirstFit

variable {R : Type} [Zero R] [One R]

/-! ## Padding -/

/-- `mb'` is `mb` with `k` tokens of padding. -/
structure Padded (k : Nat) (mb mb' : MicroBatch R) : Prop where
  inputIds : mb'.inputIds = mb.inputIds ++ List.replicate k 1
  advantages : mb'.advantages = mb.advantages ++ List.replicate k (some 0)
  rewards : mb'.rewards = mb.rewards.map (· ++ List.replicate k none)
  lossMask : mb'.lossMask = mb.lossMask ++ List.replicate k false
  positionIds : mb'.positionIds = mb.positionIds ++ List.range k
  inferenceLogprobs : mb'.inferenceLogprobs = mb.inferenceLogprobs ++ List.replicate k 0
  temperatures : mb'.temperatures = mb.temperatures ++ List.replicate k 1
  teacherLogprobs : mb'.teacherLogprobs = mb.teacherLogprobs.map (· ++ List.replicate k 0)
  mmTokenTypeIds : mb'.mmTokenTypeIds = mb.mmTokenTypeIds.map (· ++ List.replicate k 0)
  envNames : mb'.envNames = mb.envNames ++ List.replicate k ""
  mmKwargs : mb'.mmKwargs = mb.mmKwargs
  trainingMode : mb'.trainingMode = mb.trainingMode
  rows : ∀ r', mb'.routedExperts = some r' → ∃ r, mb.routedExperts = some r ∧
    ∀ n, r.shape[0]? = some n → r'.shape[0]? = some (n + k)

theorem Padded.refl (mb : MicroBatch R) : Padded 0 mb mb := by
  refine ⟨?_, ?_, ?_, ?_, ?_, ?_, ?_, ?_, ?_, ?_, rfl, rfl, fun r hr => ⟨r, hr, fun n hn => hn⟩⟩
  all_goals simp only [List.replicate_zero, List.range_zero, List.append_nil, Option.map_id_fun', id_eq]

theorem dvd_add_paddingSize {m : Nat} (hm : 0 < m) (n : Nat) : m ∣ n + paddingSize m n := by
  have hlt := Nat.mod_lt n hm
  unfold paddingSize
  rw [Nat.dvd_iff_mod_eq_zero, Nat.add_mod, Nat.mod_mod]
  rcases Nat.eq_zero_or_pos (n % m) with h | h
  · rw [h, Nat.sub_zero, Nat.mod_self, Nat.zero_add, Nat.zero_mod]
  · rw [Nat.mod_eq_of_lt (Nat.sub_lt hm h), Nat.add_sub_cancel' hlt.le, Nat.mod_self]

omit [Zero R] [One R] in
theorem RoutedExperts.pad_eq_ok_iff {r r' : RoutedExperts} {k : Nat} : r.pad k = .ok r' ↔
    ∃ rowSize n, r.rowSize = .ok rowSize ∧ r.shape[0]? = some n ∧
      r' = ⟨r.data ++ List.replicate (k * rowSize) 0, r.shape.set 0 (n + k), r.dtype⟩ := by
  simp only [RoutedExperts.pad, bind_eq_ok, RoutedExperts.addRows_eq_ok_iff, exists_and_left]

theorem padMicroBatch_padded {mb mb' : MicroBatch R} {m : Nat} (h : padMicroBatch mb m = .ok mb') :
    0 < m ∧ mb.envNames.length = mb.inputIds.length ∧ Padded (paddingSize m mb.inputIds.length) mb mb' := by
  unfold padMicroBatch at h
  dsimp only at h
  split_ifs at h with hm henv hpad
  · cases h
  · refine ⟨Nat.pos_of_ne_zero hm, not_not.1 henv, ?_⟩
    obtain ⟨padded, hpadded, h⟩ := bind_eq_ok.1 h
    obtain ⟨counts, c, -, -, rfl⟩ := addLoraTokens_eq_ok_iff.1 hpadded
    obtain ⟨routed, hrouted, h⟩ := bind_eq_ok.1 h
    cases h
    refine ⟨rfl, rfl, rfl, rfl, rfl, rfl, rfl, rfl, rfl, rfl, rfl, rfl, fun r' hr' => ?_⟩
    cases hr : mb.routedExperts with
    | none =>
        rw [hr] at hrouted
        cases hrouted
        cases hr'
    | some r =>
        rw [hr] at hrouted
        obtain ⟨r'', hr'', he⟩ := map_eq_ok.1 hrouted
        cases he
        cases hr'
        obtain ⟨rowSize, n, -, hn, rfl⟩ := RoutedExperts.pad_eq_ok_iff.1 hr''
        refine ⟨r, rfl, fun n' hn' => ?_⟩
        rw [hn] at hn'
        cases hn'
        exact RoutedExperts.set_rows hn _
  · -- nothing is missing
    cases h
    have hk : paddingSize m mb.inputIds.length = 0 := by
      by_contra hne
      refine hpad ⟨?_, Nat.pos_of_ne_zero hne⟩
      have hlt : paddingSize m mb.inputIds.length < m := Nat.mod_lt _ (Nat.pos_of_ne_zero hm)
      omega
    rw [hk]
    exact ⟨Nat.pos_of_ne_zero hm, not_not.1 henv, .refl mb⟩

/-- Padding succeeds on a micro batch with its adapter counts and experts of a known row size. -/
theorem exists_padMicroBatch {mb : MicroBatch R} {m : Nat} (hm : 0 < m) (henv : mb.envNames.length = mb.inputIds.length)
    {counts : List Nat} (hcounts : mb.loraNumTokens = some counts) (hpos : 0 < counts.length)
    (hrouted : ∀ r, mb.routedExperts = some r → ∃ n rowSize, r.shape[0]? = some n ∧ r.rowSize = .ok rowSize) :
    ∃ mb', padMicroBatch mb m = .ok mb' := by
  unfold padMicroBatch
  dsimp only
  rw [if_neg hm.ne', if_neg (not_not.2 henv)]
  split_ifs
  swap
  · exact ⟨mb, rfl⟩
  · have hlora : ∃ padded, (mb.withPadding (paddingSize m mb.inputIds.length)).addLoraTokens
        ((mb.loraNumTokens.getD []).length - 1) (paddingSize m mb.inputIds.length) = .ok padded := by
      rw [hcounts, Option.getD_some]
      have hlt : counts.length - 1 < counts.length := Nat.sub_lt hpos Nat.one_pos
      exact ⟨_, addLoraTokens_eq_ok_iff.2 ⟨counts, counts[counts.length - 1], hcounts, List.getElem?_eq_getElem hlt, rfl⟩⟩
    have hexperts : ∃ e, padOptionalExperts mb.routedExperts (paddingSize m mb.inputIds.length) = .ok e := by
      cases hr : mb.routedExperts with
      | none => exact ⟨none, rfl⟩
      | some r =>
          obtain ⟨n, rowSize, hn, hsize⟩ := hrouted r hr
          exact ⟨_, map_eq_ok.2 ⟨_, RoutedExperts.pad_eq_ok_iff.2 ⟨rowSize, n, hsize, hn, rfl⟩, rfl⟩⟩
    obtain ⟨padded, hpadded⟩ := hlora
    obtain ⟨e, he⟩ := hexperts
    exact ⟨_, bind_eq_ok.2 ⟨padded, hpadded, bind_eq_ok.2 ⟨e, he, rfl⟩⟩⟩

/-! ## The samples as they are packed -/

namespace TrainingSample

/-- What `prepare_sample` makes of a sample. -/
def packed (seqLen : Nat) (s : TrainingSample R) : MicroBatch R :=
  s.prepared seqLen ((s.preparedExperts seqLen).toOption.getD none)

/-- `prepare_sample` succeeds. -/
def Prepares (seqLen : Nat) (s : TrainingSample R) : Prop := ∃ mb, prepareSample s seqLen = .ok mb

variable {s : TrainingSample R} {seqLen : Nat}

theorem prepareSample_packed {mb : MicroBatch R} (h : prepareSample s seqLen = .ok mb) : mb = s.packed seqLen ∧
    mb.Aligned ∧ Prepared mb ∧ ∀ r, mb.routedExperts = some r → r.Sound mb.inputIds.length := by
  obtain ⟨-, routed, hrouted, rfl, hal, hsound⟩ := prepareSample_eq_ok_iff.1 h
  refine ⟨?_, hal, ⟨⟨_, rfl⟩, fun r hr => (hsound r hr).rows⟩, hsound⟩
  unfold packed
  rw [hrouted]
  rfl

theorem Prepares.eq_ok (h : s.Prepares seqLen) : prepareSample s seqLen = .ok (s.packed seqLen) := by
  obtain ⟨mb, hmb⟩ := h
  rw [hmb, (prepareSample_packed hmb).1]

theorem Prepares.aligned (h : s.Prepares seqLen) : (s.packed seqLen).Aligned := (prepareSample_packed h.eq_ok).2.1

theorem Prepares.prepared (h : s.Prepares seqLen) : Prepared (s.packed seqLen) := (prepareSample_packed h.eq_ok).2.2.1

theorem Prepares.sound (h : s.Prepares seqLen) :
    ∀ r, (s.packed seqLen).routedExperts = some r → r.Sound (s.packed seqLen).inputIds.length :=
  (prepareSample_packed h.eq_ok).2.2.2

end TrainingSample

/-- A sample with its run index, as it is packed. -/
def packedItem (seqLen : Nat) (p : Nat × TrainingSample R) : Nat × MicroBatch R := (p.1, p.2.packed seqLen)

theorem mapM_prepareSample {samples : List (Nat × TrainingSample R)} {seqLen : Nat} {l : List (Nat × MicroBatch R)} :
    (samples.mapM fun x => do return (x.1, ← prepareSample x.2 seqLen)) = .ok l ↔
      (∀ p ∈ samples, p.2.Prepares seqLen) ∧ l = samples.map (packedItem seqLen) := by
  have hone : ∀ (p : Nat × TrainingSample R) (x : Nat × MicroBatch R),
      (do return (p.1, ← prepareSample p.2 seqLen) : Except PyException (Nat × MicroBatch R)) = .ok x ↔
        p.2.Prepares seqLen ∧ x = packedItem seqLen p := by
    intro p x
    rw [bind_eq_ok]
    constructor
    · rintro ⟨mb, hmb, h⟩
      cases h
      exact ⟨⟨mb, hmb⟩, congrArg (Prod.mk p.1) (TrainingSample.prepareSample_packed hmb).1⟩
    · rintro ⟨h, rfl⟩
      exact ⟨_, h.eq_ok, rfl⟩
  simp only [mapM_eq_ok_iff, hone]
  induction samples generalizing l with
  | nil =>
      rw [List.forall₂_nil_left_iff]
      exact ⟨fun h => ⟨fun p hp => absurd hp List.not_mem_nil, h⟩, (·.2)⟩
  | cons p samples ih =>
      rw [List.forall₂_cons_left_iff, List.forall_mem_cons, List.map_cons]
      constructor
      · rintro ⟨x, l, ⟨hp, rfl⟩, hl, rfl⟩
        obtain ⟨hall, rfl⟩ := ih.1 hl
        exact ⟨⟨hp, hall⟩, rfl⟩
      · rintro ⟨⟨hp, hall⟩, rfl⟩
        exact ⟨_, _, ⟨hp, rfl⟩, ih.2 ⟨hall, rfl⟩, rfl⟩

/-! ## `prepare_batch` -/

omit [One R] in
theorem distributeBatches_eq_ok_iff {mbs : List (MicroBatch R)} {w : Nat} {grid : List (List (MicroBatch R))} :
    distributeBatches mbs w = .ok grid ↔ 0 < w ∧ grid = distribute w
      (padGroupForDistribution (mbs.filter (·.isMultimodal)) w ++
        padGroupForDistribution (mbs.filter (!·.isMultimodal)) w) := by
  unfold distributeBatches
  split_ifs with hw
  · exact ⟨fun h => (by cases h), fun h => absurd hw h.1.ne'⟩
  · have hpos := Nat.pos_of_ne_zero hw
    obtain ⟨_, q, he, hq, -⟩ := padGroupForDistribution_spec hpos (mbs.filter (·.isMultimodal))
    obtain ⟨_, q', he', hq', -⟩ := padGroupForDistribution_spec hpos (mbs.filter (!·.isMultimodal))
    have hdvd : (padGroupForDistribution (mbs.filter (·.isMultimodal)) w ++
        padGroupForDistribution (mbs.filter (!·.isMultimodal)) w).length % w = 0 := by
      rw [List.length_append, he, he', hq, hq', ← Nat.add_mul, Nat.mul_mod_left]
    simp only [bind_eq_ok, pyAssert_eq_ok, exists_const]
    constructor
    · rintro ⟨-, h⟩
      cases h
      exact ⟨hpos, rfl⟩
    · rintro ⟨-, rfl⟩
      exact ⟨hdvd, rfl⟩

/-- The micro batches of the bins, padded. -/
def Packs (samples : List (Nat × TrainingSample R)) (seqLen numLoras padToMultipleOf : Nat) (mbs : List (MicroBatch R)) :
    Prop :=
  List.Forall₂ (fun bin mb => ∃ b, Fills numLoras (bin.map (packedItem seqLen)) b ∧ padMicroBatch b padToMultipleOf = .ok mb)
    (assignment seqLen samples) mbs

theorem packs_iff {samples : List (Nat × TrainingSample R)} {seqLen numLoras padToMultipleOf : Nat}
    {mbs : List (MicroBatch R)} : Packs samples seqLen numLoras padToMultipleOf mbs ↔
      ∃ packed, List.Forall₂ (Fills numLoras) ((assignment seqLen samples).map (List.map (packedItem seqLen))) packed ∧
        List.Forall₂ (fun b mb => padMicroBatch b padToMultipleOf = .ok mb) packed mbs := by
  unfold Packs
  induction assignment seqLen samples generalizing mbs with
  | nil =>
      rw [List.forall₂_nil_left_iff]
      constructor
      · rintro rfl
        exact ⟨[], .nil, .nil⟩
      · rintro ⟨packed, hpacked, h⟩
        cases hpacked
        cases h
        rfl
  | cons bin bins ih =>
      rw [List.forall₂_cons_left_iff]
      constructor
      · rintro ⟨mb, rest, ⟨b, hb, hmb⟩, hrest, rfl⟩
        obtain ⟨packed, hpacked, hpad⟩ := ih.1 hrest
        exact ⟨b :: packed, .cons hb hpacked, .cons hmb hpad⟩
      · rintro ⟨packed, hpacked, h⟩
        cases hpacked with
        | cons hb hpacked =>
            cases h with
            | cons hmb hpad => exact ⟨_, _, ⟨_, hb, hmb⟩, ih.2 ⟨_, hpacked, hpad⟩, rfl⟩

/-- The grid comes from the padded micro batches of the assignment. -/
theorem prepareBatch_eq_ok_iff {samples : List (Nat × TrainingSample R)} {seqLen w numLoras padToMultipleOf : Nat}
    {grid : List (List (MicroBatch R))} :
    prepareBatch (samples.map Prod.snd) seqLen w (samples.map Prod.fst) numLoras padToMultipleOf = .ok grid ↔
      0 < w ∧ (∀ p ∈ samples, p.2.Prepares seqLen) ∧ ∃ mbs, Packs samples seqLen numLoras padToMultipleOf mbs ∧
        grid = distribute w (padGroupForDistribution (mbs.filter (·.isMultimodal)) w ++
          padGroupForDistribution (mbs.filter (!·.isMultimodal)) w) := by
  have hzip : (samples.map Prod.fst).zip (samples.map Prod.snd) = samples := by
    rw [← List.unzip_fst, ← List.unzip_snd, List.zip_unzip]
  have hbins := firstFit_prepared (R := R) seqLen (f := fun p => p.2.packed seqLen) (fun _ => rfl) (fun _ => rfl)
    (fun _ => rfl) samples
  unfold prepareBatch
  rw [hzip, bind_eq_ok]
  constructor
  · rintro ⟨_, hsamples, h⟩
    obtain ⟨hprep, rfl⟩ := mapM_prepareSample.1 hsamples
    obtain ⟨packed, hpacked, h⟩ := bind_eq_ok.1 h
    obtain ⟨mbs, hmbs, h⟩ := bind_eq_ok.1 h
    obtain ⟨hw, rfl⟩ := distributeBatches_eq_ok_iff.1 h
    have hfills := packedSamplesIntoMicroBs_eq_ok_iff.1 hpacked
    exact ⟨hw, hprep, mbs, packs_iff.2 ⟨packed, hbins ▸ hfills, mapM_eq_ok_iff.1 hmbs⟩, rfl⟩
  · rintro ⟨hw, hprep, mbs, hmbs, rfl⟩
    obtain ⟨packed, hfills, hpad⟩ := packs_iff.1 hmbs
    have hfills' := (congrArg (List.Forall₂ (Fills numLoras) · packed) hbins).mpr hfills
    exact ⟨_, mapM_prepareSample.2 ⟨hprep, rfl⟩, bind_eq_ok.2 ⟨packed, packedSamplesIntoMicroBs_eq_ok_iff.2 hfills',
      bind_eq_ok.2 ⟨mbs, mapM_eq_ok_iff.2 hpad, distributeBatches_eq_ok_iff.2 ⟨hw, rfl⟩⟩⟩⟩

/-! ## When there are micro batches -/

/-- The routed experts of a bin have one layout. -/
def OneLayout (seqLen : Nat) (bin : List (Nat × TrainingSample R)) : Prop :=
  ∀ p ∈ bin, ∀ q ∈ bin, (p.2.packed seqLen).routedExperts.map RoutedExperts.layout =
    (q.2.packed seqLen).routedExperts.map RoutedExperts.layout

section

variable {samples : List (Nat × TrainingSample R)} {seqLen numLoras padToMultipleOf : Nat}
  {bin : List (Nat × TrainingSample R)}

theorem forall_packedItem {P : Nat × MicroBatch R → Prop} :
    (∀ x ∈ bin.map (packedItem seqLen), P x) ↔ ∀ p ∈ bin, P (packedItem seqLen p) := List.forall_mem_map

theorem merged_packed (hprep : ∀ p ∈ bin, p.2.Prepares seqLen) {b : MicroBatch R}
    (hb : Fills numLoras (bin.map (packedItem seqLen)) b) : Merged numLoras (bin.map (packedItem seqLen)) b :=
  Fills.merged (forall_packedItem.2 fun p hp => (hprep p hp).prepared) hb

/-- A list of the samples that is aligned in each is aligned in the bin. -/
theorem flatMap_packed_length {α : Type} (f : MicroBatch R → List α)
    (h : ∀ p ∈ bin, (f (p.2.packed seqLen)).length = (p.2.packed seqLen).inputIds.length) :
    ((bin.map (packedItem seqLen)).flatMap (f ·.2)).length = ((bin.map (packedItem seqLen)).flatMap (·.2.inputIds)).length :=
  (flatMap_length_eq_iff (forall_packedItem.2 fun p hp => (h p hp).le)).2 (forall_packedItem.2 h)

/-- A bin whose samples prepare becomes a micro batch iff its run indices are in range and its experts have one layout. -/
theorem exists_packs_bin_iff (hpad : 0 < padToMultipleOf) (hne : bin ≠ []) (hprep : ∀ p ∈ bin, p.2.Prepares seqLen) :
    (∃ mb b, Fills numLoras (bin.map (packedItem seqLen)) b ∧ padMicroBatch b padToMultipleOf = .ok mb) ↔
      (∀ p ∈ bin, p.1 < numLoras) ∧ OneLayout seqLen bin := by
  have hfill : (∃ b, Fills numLoras (bin.map (packedItem seqLen)) b) ↔ _ :=
    exists_fills_iff (mt List.map_eq_nil_iff.1 hne) (forall_packedItem.2 fun p hp => (hprep p hp).prepared)
  simp only [forall_packedItem] at hfill
  refine Iff.trans ?_ hfill
  constructor
  · rintro ⟨_, b, hb, -⟩
    exact ⟨b, hb⟩
  · rintro ⟨b, hb⟩
    have hm := merged_packed hprep hb
    obtain ⟨counts, hcounts, hlen⟩ := hm.loraNumTokens
    obtain ⟨p, hp⟩ := List.exists_mem_of_ne_nil bin hne
    have hmem : packedItem seqLen p ∈ bin.map (packedItem seqLen) := List.mem_map_of_mem hp
    have hpos : 0 < counts.length := hlen.symm ▸ Nat.zero_lt_of_lt (hm.idx _ hmem)
    have hrouted : ∀ r, b.routedExperts = some r → ∃ n rowSize, r.shape[0]? = some n ∧ r.rowSize = .ok rowSize := by
      intro r hr
      have hlay := hm.layout _ hmem
      rw [hr] at hlay
      obtain ⟨r', hr', he⟩ := Option.map_eq_some_iff.1 hlay.symm
      obtain ⟨rowSize, hsize, -⟩ := ((hprep p hp).sound r' hr').data
      exact ⟨_, rowSize, hm.rows r hr, (RoutedExperts.rowSize_congr he).symm.trans hsize⟩
    have henv : b.envNames.length = b.inputIds.length := by
      rw [hm.envNames, hm.inputIds]
      exact flatMap_packed_length (·.envNames) fun p hp => (hprep p hp).aligned.envNames
    obtain ⟨mb, hmb⟩ := exists_padMicroBatch hpad henv hcounts hpos hrouted
    exact ⟨mb, b, hb, hmb⟩

/-- When `prepare_batch` returns. -/
theorem exists_prepareBatch_iff {w : Nat} :
    (∃ grid, prepareBatch (samples.map Prod.snd) seqLen w (samples.map Prod.fst) numLoras padToMultipleOf = .ok grid) ↔
      0 < w ∧ (samples ≠ [] → 0 < padToMultipleOf) ∧ (∀ p ∈ samples, p.1 < numLoras ∧ p.2.Prepares seqLen) ∧
        ∀ bin ∈ assignment seqLen samples, OneLayout seqLen bin := by
  have hmem : ∀ bin ∈ assignment seqLen samples, ∀ p ∈ bin, p ∈ samples := fun bin hbin p hp =>
    (List.mem_insertionSort _).1 (mem_of_firstFit hbin hp)
  have hbin : ∀ p ∈ samples, ∃ bin ∈ assignment seqLen samples, p ∈ bin := fun p hp =>
    exists_bin ((List.mem_insertionSort _).2 hp)
  simp only [prepareBatch_eq_ok_iff]
  constructor
  · rintro ⟨grid, hw, hprep, mbs, hmbs, -⟩
    have heach : ∀ bin ∈ assignment seqLen samples, 0 < padToMultipleOf ∧ (∀ p ∈ bin, p.1 < numLoras) ∧
        OneLayout seqLen bin := by
      intro bin hb
      obtain ⟨mb, b, hfill, hmb⟩ := exists_forall₂_iff.1 ⟨mbs, hmbs⟩ bin hb
      have hpad := (padMicroBatch_padded hmb).1
      refine ⟨hpad, (exists_packs_bin_iff hpad (firstFit_ne_nil bin hb) fun p hp => hprep p (hmem bin hb p hp)).1 ?_⟩
      exact ⟨mb, b, hfill, hmb⟩
    refine ⟨hw, fun hne => ?_, fun p hp => ?_, fun bin hb => (heach bin hb).2.2⟩
    · obtain ⟨p, hp⟩ := List.exists_mem_of_ne_nil samples hne
      obtain ⟨bin, hb, -⟩ := hbin p hp
      exact (heach bin hb).1
    · obtain ⟨bin, hb, hpb⟩ := hbin p hp
      exact ⟨(heach bin hb).2.1 p hpb, hprep p hp⟩
  · rintro ⟨hw, hpad, hsamples, hlayout⟩
    have hprep : ∀ p ∈ samples, p.2.Prepares seqLen := fun p hp => (hsamples p hp).2
    have heach : ∀ bin ∈ assignment seqLen samples, ∃ mb b, Fills numLoras (bin.map (packedItem seqLen)) b ∧
        padMicroBatch b padToMultipleOf = .ok mb := by
      intro bin hb
      have hne := firstFit_ne_nil bin hb
      obtain ⟨p, hp⟩ := List.exists_mem_of_ne_nil bin hne
      have hpos := hpad (List.ne_nil_of_mem (hmem bin hb p hp))
      refine (exists_packs_bin_iff hpos hne fun q hq => hprep q (hmem bin hb q hq)).2 ⟨fun q hq => ?_, hlayout bin hb⟩
      exact (hsamples q (hmem bin hb q hq)).1
    obtain ⟨mbs, hmbs⟩ := exists_forall₂_iff.2 heach
    exact ⟨_, hw, hprep, mbs, hmbs, rfl⟩

end

/-! ## Conservation -/

/-- A micro batch has the samples of a bin one after the other, cut to `seqLen`, and then `k` tokens of padding. -/
structure Holds (seqLen k : Nat) (bin : List (Nat × TrainingSample R)) (mb : MicroBatch R) : Prop where
  inputIds : mb.inputIds = bin.flatMap (fun p => (p.2.promptIds ++ p.2.completionIds).take seqLen) ++ List.replicate k 1
  positionIds : mb.positionIds = bin.flatMap (fun p => (List.range p.2.length).take seqLen) ++ List.range k
  lossMask : mb.lossMask =
    bin.flatMap (fun p => (p.2.promptMask ++ p.2.completionMask).take seqLen) ++ List.replicate k false
  advantages : mb.advantages =
    bin.flatMap (fun p => (List.replicate p.2.length p.2.advantage).take seqLen) ++ List.replicate k (some 0)
  inferenceLogprobs : mb.inferenceLogprobs =
    bin.flatMap (fun p => (List.replicate p.2.promptIds.length 0 ++ p.2.completionLogprobs).take seqLen) ++
      List.replicate k 0
  aligned : mb.positionIds.length = mb.inputIds.length ∧ mb.lossMask.length = mb.inputIds.length ∧
    mb.advantages.length = mb.inputIds.length ∧ mb.inferenceLogprobs.length = mb.inputIds.length
  room : (bin.flatMap fun p => (p.2.promptIds ++ p.2.completionIds).take seqLen).length ≤ seqLen
  trainingMode : ∀ p ∈ bin, p.2.trainingMode = mb.trainingMode
  modality : ∀ p ∈ bin, p.2.mmKwargs.isSome = mb.isMultimodal
  alone : mb.isMultimodal → ∃ p, bin = [p]

/-- The grid has every sample once, in one micro batch, and nothing else but padding and dummies, in even rows. -/
structure Conserves (samples : List (Nat × TrainingSample R)) (seqLen w padToMultipleOf : Nat)
    (grid : List (List (MicroBatch R))) : Prop where
  batches : ∃ bins mbs dummies, bins.flatten.Perm samples ∧ grid.flatten.Perm (mbs ++ dummies) ∧
    List.Forall₂ (fun bin mb => padToMultipleOf ∣ mb.inputIds.length ∧ ∃ k, Holds seqLen k bin mb) bins mbs ∧
    ∀ mb ∈ dummies, mb.lossMask = List.replicate mb.inputIds.length false ∧
      mb.advantages = List.replicate mb.inputIds.length (some 0)
  workers : grid.length = w
  rows : ∃ q m, ∀ row ∈ grid, row.length = q ∧
    ∀ (k : Nat) (mb : MicroBatch R), row[k]? = some mb → (mb.isMultimodal = true ↔ k < m)

omit [Zero R] [One R] in
theorem TrainingSample.cut_eq_take {s : TrainingSample R} {seqLen : Nat} {α : Type} {l : List α}
    (h : (s.cut seqLen l).length = (s.tokens seqLen).length) : s.cut seqLen l = l.take seqLen := by
  rw [s.tokens_length] at h
  unfold cut at h ⊢
  split_ifs at h ⊢ with hlt
  · rfl
  · rw [List.take_of_length_le]
    omega

theorem flatMap_packed_take {bin : List (Nat × TrainingSample R)} {seqLen : Nat} {α : Type} (f : MicroBatch R → List α)
    (g : TrainingSample R → List α) (hfg : ∀ s : TrainingSample R, f (s.packed seqLen) = s.cut seqLen (g s))
    (h : ∀ p ∈ bin, (f (p.2.packed seqLen)).length = (p.2.packed seqLen).inputIds.length) :
    (bin.map (packedItem seqLen)).flatMap (f ·.2) = bin.flatMap fun p => (g p.2).take seqLen := by
  rw [List.flatMap_map]
  refine List.flatMap_congr fun p hp => ?_
  have hp' := h p hp
  rw [hfg] at hp'
  exact (hfg p.2).trans (TrainingSample.cut_eq_take hp')

theorem padMicroBatch_holds {bin : List (Nat × TrainingSample R)} {seqLen numLoras padToMultipleOf : Nat}
    {b mb : MicroBatch R} (hprep : ∀ p ∈ bin, p.2.Prepares seqLen)
    (hroom : (bin.flatMap (·.2.tokens seqLen)).length ≤ seqLen)
    (hmode : ∀ p ∈ bin, ∀ q ∈ bin, p.2.trainingMode = q.2.trainingMode)
    (hmm : (∀ p ∈ bin, p.2.mmKwargs.isNone) ∨ ∃ p, bin = [p])
    (hb : Fills numLoras (bin.map (packedItem seqLen)) b) (hmb : padMicroBatch b padToMultipleOf = .ok mb) :
    padToMultipleOf ∣ mb.inputIds.length ∧ ∃ k, Holds seqLen k bin mb := by
  obtain ⟨hpos, -, hpad⟩ := padMicroBatch_padded hmb
  have hm := merged_packed hprep hb
  have hal : ∀ p ∈ bin, (p.2.packed seqLen).Aligned := fun p hp => (hprep p hp).aligned
  have hids : ∀ p : Nat × TrainingSample R, p.2.tokens seqLen = (p.2.promptIds ++ p.2.completionIds).take seqLen :=
    fun p => TrainingSample.cut_eq_take rfl
  obtain ⟨p₀, l, rfl⟩ := List.exists_cons_of_ne_nil (mt List.map_eq_nil_iff.2 hb.ne_nil)
  have hhead : ∀ p ∈ p₀ :: l, p.2.trainingMode = mb.trainingMode ∧ p.2.mmKwargs.isSome = mb.isMultimodal := by
    intro p hp
    have hmode₀ := hpad.trainingMode.trans (hm.trainingMode (packedItem seqLen p₀) rfl)
    have hmm₀ := hpad.mmKwargs.trans (hm.mmKwargs (packedItem seqLen p₀) rfl)
    refine ⟨(hmode p hp p₀ List.mem_cons_self).trans hmode₀.symm, ?_⟩
    show p.2.mmKwargs.isSome = mb.mmKwargs.isSome
    rw [hmm₀]
    rcases hmm with hmm | ⟨q, hq⟩
    · rw [Option.isNone_iff_eq_none.1 (hmm p hp)]
      exact congrArg Option.isSome (Option.isNone_iff_eq_none.1 (hmm p₀ List.mem_cons_self)).symm
    · cases hq
      rw [List.mem_singleton.1 hp]
      rfl
  refine ⟨?_, paddingSize padToMultipleOf b.inputIds.length, ?_, ?_, ?_, ?_, ?_, ⟨?_, ?_, ?_, ?_⟩, ?_,
    fun p hp => (hhead p hp).1, fun p hp => (hhead p hp).2, fun hmulti => ?_⟩
  · rw [hpad.inputIds, List.length_append, List.length_replicate]
    exact dvd_add_paddingSize hpos _
  · rw [hpad.inputIds, hm.inputIds,
      flatMap_packed_take (·.inputIds) (fun s => s.promptIds ++ s.completionIds) (fun _ => rfl) fun _ _ => rfl]
  · rw [hpad.positionIds, hm.positionIds,
      flatMap_packed_take (·.positionIds) (fun s => List.range s.length) (fun _ => rfl) fun p hp => (hal p hp).positionIds]
  · rw [hpad.lossMask, hm.lossMask, flatMap_packed_take (·.lossMask) (fun s => s.promptMask ++ s.completionMask)
      (fun _ => rfl) fun p hp => (hal p hp).lossMask]
  · rw [hpad.advantages, hm.advantages, flatMap_packed_take (·.advantages) (fun s => List.replicate s.length s.advantage)
      (fun _ => rfl) fun p hp => (hal p hp).advantages]
  · rw [hpad.inferenceLogprobs, hm.inferenceLogprobs, flatMap_packed_take (·.inferenceLogprobs)
      (fun s => List.replicate s.promptIds.length 0 ++ s.completionLogprobs) (fun _ => rfl)
      fun p hp => (hal p hp).inferenceLogprobs]
  · rw [hpad.positionIds, hpad.inputIds, List.length_append, List.length_append, List.length_range,
      List.length_replicate, hm.positionIds, hm.inputIds,
      flatMap_packed_length (·.positionIds) fun p hp => (hal p hp).positionIds]
  · rw [hpad.lossMask, hpad.inputIds, List.length_append, List.length_append, List.length_replicate,
      List.length_replicate, hm.lossMask, hm.inputIds, flatMap_packed_length (·.lossMask) fun p hp => (hal p hp).lossMask]
  · rw [hpad.advantages, hpad.inputIds, List.length_append, List.length_append, List.length_replicate,
      List.length_replicate, hm.advantages, hm.inputIds,
      flatMap_packed_length (·.advantages) fun p hp => (hal p hp).advantages]
  · rw [hpad.inferenceLogprobs, hpad.inputIds, List.length_append, List.length_append, List.length_replicate,
      List.length_replicate, hm.inferenceLogprobs, hm.inputIds,
      flatMap_packed_length (·.inferenceLogprobs) fun p hp => (hal p hp).inferenceLogprobs]
  · rwa [List.flatMap_congr fun p _ => (hids p).symm]
  · rcases hmm with hmm | hmm
    · have hp₀ := (hhead p₀ List.mem_cons_self).2
      rw [hmulti, Option.isNone_iff_eq_none.1 (hmm p₀ List.mem_cons_self)] at hp₀
      cases hp₀
    · exact hmm

omit [Zero R] [One R] in
/-- Two groups with their dummies are the whole with the dummies. -/
theorem groups_perm {α : Type} (P : α → Bool) (l d d' : List α) :
    (l.filter P ++ d ++ (l.filter (!P ·) ++ d')).Perm (l ++ (d ++ d')) := by
  rw [List.append_assoc]
  refine List.Perm.trans ?_ ((List.filter_append_perm P l).append_right (d ++ d'))
  rw [List.append_assoc]
  refine List.Perm.append_left _ ?_
  rw [← List.append_assoc, ← List.append_assoc]
  exact List.perm_append_comm.append_right d'

omit [One R] in
/-- The grid is even and has the micro batches and dummies of their modality. -/
theorem distributeBatches_rows {w : Nat} (hw : 0 < w) (mbs : List (MicroBatch R)) :
    ∃ dummies q m, (∀ mb ∈ dummies, ∃ source ∈ mbs, mb = makeDummyBatch source) ∧
      (distribute w (padGroupForDistribution (mbs.filter (·.isMultimodal)) w ++
        padGroupForDistribution (mbs.filter (!·.isMultimodal)) w)).flatten.Perm (mbs ++ dummies) ∧
      ∀ row ∈ distribute w (padGroupForDistribution (mbs.filter (·.isMultimodal)) w ++
        padGroupForDistribution (mbs.filter (!·.isMultimodal)) w), row.length = q ∧
          ∀ (k : Nat) (mb : MicroBatch R), row[k]? = some mb → (mb.isMultimodal = true ↔ k < m) := by
  obtain ⟨dmm, q, he, hq, hdmm⟩ := padGroupForDistribution_spec hw (mbs.filter (·.isMultimodal))
  obtain ⟨dtext, q', he', hq', hdtext⟩ := padGroupForDistribution_spec hw (mbs.filter (!·.isMultimodal))
  rw [he, he']
  refine ⟨dmm ++ dtext, q + q', q, fun mb hmb => ?_, ?_, fun row hrow => ?_⟩
  · rcases List.mem_append.1 hmb with hmb | hmb
    · obtain ⟨source, hsource, rfl⟩ := hdmm mb hmb
      exact ⟨source, (List.mem_filter.1 hsource).1, rfl⟩
    · obtain ⟨source, hsource, rfl⟩ := hdtext mb hmb
      exact ⟨source, (List.mem_filter.1 hsource).1, rfl⟩
  · exact (distribute_perm hw _).trans (groups_perm (·.isMultimodal) mbs dmm dtext)
  · refine distribute_append (P := fun mb : MicroBatch R => mb.isMultimodal = true) hq hq' ?_ ?_ hrow
    · intro mb hmb
      rcases List.mem_append.1 hmb with hmb | hmb
      · exact (List.mem_filter.1 hmb).2
      · obtain ⟨source, hsource, rfl⟩ := hdmm mb hmb
        exact (List.mem_filter.1 hsource).2
    · have htext : ∀ mb ∈ mbs.filter (!·.isMultimodal), ¬ mb.isMultimodal = true := by
        intro mb hmb
        simpa using (List.mem_filter.1 hmb).2
      intro mb hmb
      rcases List.mem_append.1 hmb with hmb | hmb
      · exact htext mb hmb
      · obtain ⟨source, hsource, rfl⟩ := hdtext mb hmb
        exact htext source hsource

/-- What `prepare_batch` returns conserves the samples. -/
theorem conserves_of_prepareBatch {samples : List (Nat × TrainingSample R)} {seqLen w numLoras padToMultipleOf : Nat}
    {grid : List (List (MicroBatch R))}
    (hgrid : prepareBatch (samples.map Prod.snd) seqLen w (samples.map Prod.fst) numLoras padToMultipleOf = .ok grid) :
    Conserves samples seqLen w padToMultipleOf grid := by
  obtain ⟨hw, hprep, mbs, hmbs, rfl⟩ := prepareBatch_eq_ok_iff.1 hgrid
  obtain ⟨dummies, q, m, hdummies, hperm, hrows⟩ := distributeBatches_rows hw mbs
  refine ⟨⟨assignment seqLen samples, mbs, dummies, assignment_perm seqLen samples, hperm, ?_, ?_⟩,
    distribute_length w _, q, m, hrows⟩
  · have hbins : ∀ bin ∈ assignment seqLen samples, (bin.flatMap (·.2.tokens seqLen)).length ≤ seqLen ∧
        (∀ p ∈ bin, ∀ q ∈ bin, p.2.trainingMode = q.2.trainingMode) ∧
        ((∀ p ∈ bin, p.2.mmKwargs.isNone) ∨ ∃ p, bin = [p]) := assignment_bins seqLen
    have hmem : ∀ bin ∈ assignment seqLen samples, ∀ p ∈ bin, p.2.Prepares seqLen := fun bin hbin p hp =>
      hprep p ((List.mem_insertionSort _).1 (mem_of_firstFit hbin hp))
    have hboth := (List.forall₂_and_left _ _).2 ⟨hmem, (List.forall₂_and_left _ _).2 ⟨hbins, hmbs⟩⟩
    refine hboth.imp ?_
    rintro bin mb ⟨hprep, ⟨hroom, hmode, hmm⟩, b, hb, hmb⟩
    exact padMicroBatch_holds hprep hroom hmode hmm hb hmb
  · intro mb hmb
    obtain ⟨source, -, rfl⟩ := hdummies mb hmb
    exact ⟨rfl, rfl⟩

/-- A micro batch that is sent is a padded bin of the assignment, or has the tokens of one. -/
theorem exists_source_of_prepareBatch {samples : List (Nat × TrainingSample R)} {seqLen w numLoras padToMultipleOf : Nat}
    {grid : List (List (MicroBatch R))}
    (hgrid : prepareBatch (samples.map Prod.snd) seqLen w (samples.map Prod.fst) numLoras padToMultipleOf = .ok grid)
    {row : List (MicroBatch R)} (hrow : row ∈ grid) {mb : MicroBatch R} (hmb : mb ∈ row) :
    ∃ bin ∈ assignment seqLen samples, (∀ p ∈ bin, p ∈ samples ∧ p.2.Prepares seqLen) ∧ ∃ b source,
      Fills numLoras (bin.map (packedItem seqLen)) b ∧ padMicroBatch b padToMultipleOf = .ok source ∧
        (mb = source ∨ mb = makeDummyBatch source) := by
  obtain ⟨hw, hprep, mbs, hmbs, rfl⟩ := prepareBatch_eq_ok_iff.1 hgrid
  obtain ⟨dummies, q, m, hdummies, hperm, -⟩ := distributeBatches_rows hw mbs
  obtain ⟨source, hsource, hkind⟩ : ∃ source ∈ mbs, mb = source ∨ mb = makeDummyBatch source := by
    rcases List.mem_append.1 (hperm.mem_iff.1 (List.mem_flatten.2 ⟨row, hrow, hmb⟩)) with hmem | hmem
    · exact ⟨mb, hmem, Or.inl rfl⟩
    · obtain ⟨source, hsource, rfl⟩ := hdummies mb hmem
      exact ⟨source, hsource, Or.inr rfl⟩
  obtain ⟨bin, hbin, b, hb, hpad⟩ := exists_of_mem_forall₂ hmbs hsource
  refine ⟨bin, hbin, fun p hp => ?_, b, source, hb, hpad, hkind⟩
  have hp' := (List.mem_insertionSort _).1 (mem_of_firstFit hbin hp)
  exact ⟨hp', hprep p hp'⟩

/-- **Main.** `prepare_batch` conserves the samples, and returns whenever they are well formed. -/
theorem batchConservation (samples : List (Nat × TrainingSample R)) (seqLen w numLoras padToMultipleOf : Nat) :
    (∀ grid, prepareBatch (samples.map Prod.snd) seqLen w (samples.map Prod.fst) numLoras padToMultipleOf = .ok grid →
      Conserves samples seqLen w padToMultipleOf grid) ∧
    ((∃ grid, prepareBatch (samples.map Prod.snd) seqLen w (samples.map Prod.fst) numLoras padToMultipleOf = .ok grid) ↔
      0 < w ∧ (samples ≠ [] → 0 < padToMultipleOf) ∧ (∀ p ∈ samples, p.1 < numLoras ∧ p.2.Prepares seqLen) ∧
        ∀ bin ∈ assignment seqLen samples, OneLayout seqLen bin) :=
  ⟨fun _ hgrid => conserves_of_prepareBatch hgrid, exists_prepareBatch_iff⟩

end AuroraRl.Trainer
