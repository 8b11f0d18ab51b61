import AuroraRl.Trainer.Boundaries

/-!
# Which token predicts which

* `shiftTensorLeft`, `shiftTensorRight`, `trainerLogprobs` : the logprobs that `compute_loss` pairs with the tokens, for a
  model that attends within a document;
* `trainerLogprobs_segment` : inside a document a token's logprob comes from the tokens before it;
* `PredictedWithin` : a token of a packed sample is predicted by its own sample, whatever the others have;
* `nextToken_confined` : all trained tokens are iff no sample trains its first token.
-/

namespace AuroraRl.Trainer
open Segments FirstFit

variable {R : Type}

/-! ## The trainer's logprobs -/

def shiftTensorLeft (t : List Int) : List Int := t.tail ++ [0]

def shiftTensorRight (padValue : R) (t : List R) : List R := padValue :: t.dropLast

/-- Where the document of a position starts: at the last zero up to it. -/
def documentStart (positionIds : List Nat) (i : Nat) : Nat :=
  (((List.range (i + 1)).filter fun j => positionIds[j]? = some 0).getLast?).getD 0

/-- What the model attends to at a position: the tokens of its document up to it, with their temperatures. -/
def attended (mb : MicroBatch R) (i : Nat) : List (Int × R) :=
  ((mb.inputIds.zip mb.temperatures).take (i + 1)).drop (documentStart mb.positionIds i)

/-- The logprobs of the labels; `predict` is the model on what it attends to and a label. -/
def modelLogprobs (predict : List (Int × R) → Int → R) (mb : MicroBatch R) : List R :=
  let labels := shiftTensorLeft mb.inputIds
  (List.range mb.inputIds.length).map fun i => predict (attended mb i) (labels.getD i 0)

/-- The logprobs that `compute_loss` is called with. -/
def trainerLogprobs (predict : List (Int × R) → Int → R) (padValue : R) (mb : MicroBatch R) : List R :=
  shiftTensorRight padValue (modelLogprobs predict mb)

theorem documentStart_eq {positionIds : List Nat} {start i : Nat} (hle : start ≤ i) (hzero : positionIds[start]? = some 0)
    (hinside : ∀ j, start < j → j ≤ i → positionIds[j]? ≠ some 0) : documentStart positionIds i = start := by
  have hsplit : List.range (i + 1) = List.range (start + 1) ++ (List.range (i - start)).map (start + 1 + ·) := by
    rw [← List.range_add]
    congr 1
    omega
  have hrest : ((List.range (i - start)).map (start + 1 + ·)).filter (fun j => positionIds[j]? = some 0) = [] := by
    rw [List.filter_eq_nil_iff]
    intro j hj
    obtain ⟨k, hk, rfl⟩ := List.mem_map.1 hj
    have hk' := List.mem_range.1 hk
    simpa using hinside (start + 1 + k) (by omega) (by omega)
  unfold documentStart
  rw [hsplit, List.filter_append, hrest, List.append_nil, List.range_succ, List.filter_append]
  simp [hzero]

theorem attended_segment {mb : MicroBatch R} {start m : Nat} {tokens : List Int} {temperatures : List R}
    (hids : ∀ l < tokens.length, mb.inputIds[start + l]? = tokens[l]?)
    (htemps : ∀ l < tokens.length, mb.temperatures[start + l]? = temperatures[l]?)
    (hpositions : ∀ l < tokens.length, mb.positionIds[start + l]? = some l) (hlt : m < tokens.length) :
    attended mb (start + m) = (tokens.zip temperatures).take (m + 1) := by
  have hstart : documentStart mb.positionIds (start + m) = start := by
    apply documentStart_eq (Nat.le_add_right _ _) (hpositions 0 (by omega))
    intro j hj hle
    obtain ⟨l, rfl⟩ : ∃ l, j = start + (l + 1) := ⟨j - start - 1, by omega⟩
    rw [hpositions (l + 1) (by omega)]
    simp
  unfold attended
  rw [hstart]
  apply List.ext_getElem?
  intro l
  rw [List.getElem?_drop, List.getElem?_take, List.getElem?_take]
  by_cases hl : l < m + 1
  · rw [if_pos (by omega), if_pos hl]
    simp only [List.zip, List.getElem?_zipWith, hids l (by omega), htemps l (by omega)]
  · rw [if_neg (by omega), if_neg hl]

/-- Inside a document the logprob of a token is that of the model on the tokens before it. -/
theorem trainerLogprobs_segment (predict : List (Int × R) → Int → R) (padValue : R) {mb : MicroBatch R} {start j : Nat}
    {tokens : List Int} {temperatures : List R}
    (hids : ∀ l < tokens.length, mb.inputIds[start + l]? = tokens[l]?)
    (htemps : ∀ l < tokens.length, mb.temperatures[start + l]? = temperatures[l]?)
    (hpositions : ∀ l < tokens.length, mb.positionIds[start + l]? = some l) (hpos : 0 < j) (hlt : j < tokens.length) :
    (trainerLogprobs predict padValue mb)[start + j]? =
      some (predict ((tokens.zip temperatures).take j) (tokens.getD j 0)) := by
  obtain ⟨m, rfl⟩ := Nat.exists_eq_add_of_lt hpos
  rw [Nat.zero_add] at hlt ⊢
  have htoken : mb.inputIds[start + m + 1]? = some (tokens.getD (m + 1) 0) := by
    rw [Nat.add_assoc, hids _ hlt, List.getElem?_eq_getElem hlt]
    simp [List.getElem?_eq_getElem hlt]
  have hin : start + m + 1 < mb.inputIds.length := (List.getElem?_eq_some_iff.1 htoken).1
  have hlabel : (shiftTensorLeft mb.inputIds).getD (start + m) 0 = tokens.getD (m + 1) 0 := by
    unfold shiftTensorLeft
    rw [List.getD_eq_getElem?_getD, List.getElem?_append_left (by rw [List.length_tail]; omega), List.getElem?_tail,
      htoken]
    rfl
  unfold trainerLogprobs shiftTensorRight modelLogprobs
  dsimp only
  rw [← Nat.add_assoc, List.getElem?_cons_succ, List.getElem?_dropLast, List.length_map, List.length_range,
    if_pos (by omega), List.getElem?_map, List.getElem?_range (by omega), Option.map_some, hlabel,
    attended_segment hids htemps hpositions (by omega)]

/-! ## Packed samples -/

def packedLength [Zero R] [One R] (seqLen : Nat) (p : Nat × TrainingSample R) : Nat := (p.2.packed seqLen).inputIds.length

/-- A micro batch of the samples of a bin one after another, with `k` tokens of padding. -/
structure PackedAs [Zero R] [One R] (seqLen : Nat) (bin : List (Nat × TrainingSample R)) (k : Nat) (mb : MicroBatch R) :
    Prop where
  inputIds : mb.inputIds = bin.flatMap (fun p => (p.2.packed seqLen).inputIds) ++ List.replicate k 1
  lossMask : mb.lossMask = bin.flatMap (fun p => (p.2.packed seqLen).lossMask) ++ List.replicate k false
  positionIds : mb.positionIds = restarts (bin.map (packedLength seqLen)) ++ List.range k
  temperatures : mb.temperatures = bin.flatMap (fun p => (p.2.packed seqLen).temperatures) ++ List.replicate k 1

/-- Position `i` is token `j` of the sample `p` after those of `before`, not its first one; its logprob is that of the
model on the tokens of the sample before it, and stays when the tokens of other samples change. -/
structure PredictedWithin [Zero R] [One R] (predict : List (Int × R) → Int → R) (padValue : R) (seqLen : Nat)
    (mb : MicroBatch R) (before : List (Nat × TrainingSample R)) (p : Nat × TrainingSample R) (i j : Nat) : Prop where
  position : i = (before.map (packedLength seqLen)).sum + j
  pos : 0 < j
  lt_length : j < packedLength seqLen p
  logprob : (trainerLogprobs predict padValue mb)[i]? = some (predict
    (((p.2.packed seqLen).inputIds.zip (p.2.packed seqLen).temperatures).take j) ((p.2.packed seqLen).inputIds.getD j 0))
  independent : ∀ inputIds : List Int,
    (∀ l < packedLength seqLen p, inputIds[(before.map (packedLength seqLen)).sum + l]? =
      mb.inputIds[(before.map (packedLength seqLen)).sum + l]?) →
    (trainerLogprobs predict padValue { mb with inputIds := inputIds })[i]? = (trainerLogprobs predict padValue mb)[i]?

/-- Every trained position belongs to a sample that predicts it. -/
def Confined [Zero R] [One R] (predict : List (Int × R) → Int → R) (padValue : R) (seqLen : Nat)
    (samples : List (Nat × TrainingSample R)) (mb : MicroBatch R) : Prop :=
  ∀ i, mb.lossMask[i]? = some true → ∃ before p after k j, (∀ q ∈ before ++ p :: after, q ∈ samples) ∧
    PackedAs seqLen (before ++ p :: after) k mb ∧ PredictedWithin predict padValue seqLen mb before p i j

/-! ## The segment of a sample -/

section Segment

variable [Zero R] [One R] {predict : List (Int × R) → Int → R} {padValue : R} {seqLen : Nat}

omit [Zero R] [One R] in
/-- The entries of one list among lists one after another. -/
theorem getElem?_flatMap_segment {ι α : Type} {f : ι → List α} {n : ι → Nat} {before : List ι} {p : ι} {after : List ι}
    (hlength : ∀ q ∈ before, (f q).length = n q) {l : Nat} (hl : l < (f p).length) (rest : List α) :
    ((before ++ p :: after).flatMap f ++ rest)[(before.map n).sum + l]? = (f p)[l]? := by
  have hsum : (before.flatMap f).length = (before.map n).sum := by
    rw [List.length_flatMap]
    exact congrArg List.sum (List.map_congr_left hlength)
  rw [List.flatMap_append, List.flatMap_cons, List.append_assoc, List.append_assoc, ← hsum,
    List.getElem?_append_right (Nat.le_add_right _ _), Nat.add_sub_cancel_left, List.getElem?_append_left hl]

/-- The lists of a sample have its length. -/
structure SampleAligned (seqLen : Nat) (p : Nat × TrainingSample R) : Prop where
  lossMask : (p.2.packed seqLen).lossMask.length = packedLength seqLen p
  temperatures : (p.2.packed seqLen).temperatures.length = packedLength seqLen p
  pos : 0 < packedLength seqLen p

/-- Counted from the start of its sample, a position has the sample's entries. -/
theorem PackedAs.segment {mb : MicroBatch R} {before after : List (Nat × TrainingSample R)} {p : Nat × TrainingSample R}
    {k : Nat} (h : PackedAs seqLen (before ++ p :: after) k mb) (hal : ∀ q ∈ before ++ p :: after, SampleAligned seqLen q)
    {l : Nat} (hl : l < packedLength seqLen p) :
    mb.inputIds[(before.map (packedLength seqLen)).sum + l]? = (p.2.packed seqLen).inputIds[l]? ∧
      mb.lossMask[(before.map (packedLength seqLen)).sum + l]? = (p.2.packed seqLen).lossMask[l]? ∧
      mb.temperatures[(before.map (packedLength seqLen)).sum + l]? = (p.2.packed seqLen).temperatures[l]? ∧
      mb.positionIds[(before.map (packedLength seqLen)).sum + l]? = some l := by
  have hp := hal p (by simp)
  have hbefore : ∀ q ∈ before, SampleAligned seqLen q := fun q hq => hal q (by simp [hq])
  refine ⟨?_, ?_, ?_, ?_⟩
  · rw [h.inputIds]
    exact getElem?_flatMap_segment (f := fun q : Nat × TrainingSample R => (q.2.packed seqLen).inputIds)
      (n := packedLength seqLen) (fun q _ => rfl) hl _
  · rw [h.lossMask]
    exact getElem?_flatMap_segment (fun q hq => (hbefore q hq).lossMask) (hp.lossMask.symm ▸ hl) _
  · rw [h.temperatures]
    exact getElem?_flatMap_segment (fun q hq => (hbefore q hq).temperatures) (hp.temperatures.symm ▸ hl) _
  · rw [h.positionIds, restarts, List.flatMap_map,
      getElem?_flatMap_segment (fun q _ => List.length_range) (by rwa [List.length_range])]
    simp [hl]

/-- A token of a sample but its first is predicted by the sample. -/
theorem predictedWithin {mb : MicroBatch R} {before after : List (Nat × TrainingSample R)} {p : Nat × TrainingSample R}
    {k : Nat} (h : PackedAs seqLen (before ++ p :: after) k mb) (hal : ∀ q ∈ before ++ p :: after, SampleAligned seqLen q)
    {j : Nat} (hpos : 0 < j) (hlt : j < packedLength seqLen p) :
    PredictedWithin predict padValue seqLen mb before p ((before.map (packedLength seqLen)).sum + j) j := by
  have hsegment := fun l hl => h.segment hal (l := l) hl
  have hlogprob := trainerLogprobs_segment predict padValue (fun l hl => (hsegment l hl).1)
    (fun l hl => (hsegment l hl).2.2.1) (fun l hl => (hsegment l hl).2.2.2) hpos hlt
  refine ⟨rfl, hpos, hlt, hlogprob, fun inputIds hids => ?_⟩
  rw [hlogprob]
  exact trainerLogprobs_segment predict padValue (fun l hl => (hids l hl).trans (hsegment l hl).1)
    (fun l hl => (hsegment l hl).2.2.1) (fun l hl => (hsegment l hl).2.2.2) hpos hlt

/-! ## Micro batches -/

variable {samples : List (Nat × TrainingSample R)} {w numLoras padToMultipleOf : Nat}
  {bin : List (Nat × TrainingSample R)} {b mb : MicroBatch R}

theorem packedAs_of_fills (hprep : ∀ p ∈ bin, p.2.Prepares seqLen) (hb : Fills numLoras (bin.map (packedItem seqLen)) b)
    (hmb : padMicroBatch b padToMultipleOf = .ok mb) : ∃ k, PackedAs seqLen bin k mb := by
  obtain ⟨k, hids, hpositions⟩ := positionIds_of_fills hprep hb hmb
  obtain ⟨-, -, hpad⟩ := padMicroBatch_padded hmb
  have hm := merged_packed hprep hb
  generalize paddingSize padToMultipleOf b.inputIds.length = k' at hpad
  have hk : k' = k := by
    have hlength := congrArg List.length (hpad.inputIds.symm.trans hids)
    rw [hm.inputIds, List.flatMap_map, List.length_append, List.length_append, List.length_replicate,
      List.length_replicate] at hlength
    exact Nat.add_left_cancel hlength
  rw [hk] at hpad
  refine ⟨k, hids, ?_, hpositions, ?_⟩
  · rw [hpad.lossMask, hm.lossMask, List.flatMap_map]
    rfl
  · rw [hpad.temperatures, hm.temperatures, List.flatMap_map]
    rfl

theorem sampleAligned {p : Nat × TrainingSample R} (hvalid : validateSample seqLen p.2 = none)
    (hprep : p.2.Prepares seqLen) : SampleAligned seqLen p := by
  have hv := validateSample_eq_none_iff.1 hvalid
  refine ⟨hprep.aligned.lossMask, hprep.aligned.temperatures, ?_⟩
  show 0 < (p.2.tokens seqLen).length
  rw [p.2.tokens_length]
  exact lt_min hv.pos (hv.pos.trans_le hv.le)

/-- An accepted sample keeps its whole mask. -/
theorem packed_lossMask {p : Nat × TrainingSample R} (hvalid : validateSample seqLen p.2 = none) :
    (p.2.packed seqLen).lossMask = p.2.promptMask ++ p.2.completionMask :=
  if_neg (Nat.not_lt.2 (validateSample_eq_none_iff.1 hvalid).le)

omit [Zero R] [One R] in
/-- What is true in a list of masks with padding is so in one of the masks. -/
theorem exists_segment_of_true {ι : Type} {f : ι → List Bool} {n : ι → Nat} {bin : List ι}
    (hlength : ∀ q ∈ bin, (f q).length = n q) {k i : Nat}
    (h : (bin.flatMap f ++ List.replicate k false)[i]? = some true) :
    ∃ before p after j, bin = before ++ p :: after ∧ i = (before.map n).sum + j ∧ (f p)[j]? = some true := by
  induction bin generalizing i with
  | nil =>
      rw [List.flatMap_nil, List.nil_append] at h
      exact absurd (List.eq_of_mem_replicate (List.mem_of_getElem? h)) (by decide)
  | cons q bin ih =>
      rw [List.flatMap_cons, List.append_assoc] at h
      rw [List.forall_mem_cons] at hlength
      by_cases hi : i < (f q).length
      · rw [List.getElem?_append_left hi] at h
        exact ⟨[], q, bin, i, rfl, by simp, h⟩
      · rw [List.getElem?_append_right (Nat.le_of_not_lt hi)] at h
        obtain ⟨before, p, after, j, rfl, heq, hj⟩ := ih hlength.2 h
        refine ⟨q :: before, p, after, j, rfl, ?_, hj⟩
        rw [List.map_cons, List.sum_cons, ← hlength.1]
        omega

/-- The first token of a sample, which has position id zero, is not trained in a confined micro batch. -/
theorem Confined.positionIds_ne (h : Confined predict padValue seqLen samples mb)
    (hal : ∀ p ∈ samples, SampleAligned seqLen p) {i : Nat} (htrue : mb.lossMask[i]? = some true) :
    mb.positionIds[i]? ≠ some 0 := by
  obtain ⟨before, p, after, k, j, hmem, hpacked, hwithin⟩ := h i htrue
  have hposition := (hpacked.segment (fun q hq => hal q (hmem q hq)) hwithin.lt_length).2.2.2
  rw [hwithin.position, hposition]
  intro hzero
  exact hwithin.pos.ne' (Option.some.inj hzero)

/-- **Main.** In every micro batch every trained token is predicted from its own sample iff no sample trains its first
token. -/
theorem nextToken_confined (predict : List (Int × R) → Int → R) (padValue : R) {grid : List (List (MicroBatch R))}
    (hvalid : ∀ p ∈ samples, validateSample seqLen p.2 = none)
    (hgrid : prepareBatch (samples.map Prod.snd) seqLen w (samples.map Prod.fst) numLoras padToMultipleOf = .ok grid) :
    (∀ row ∈ grid, ∀ mb ∈ row, Confined predict padValue seqLen samples mb) ↔
      ∀ p ∈ samples, (p.2.promptMask ++ p.2.completionMask).head? ≠ some true := by
  obtain ⟨hw, hprep, mbs, hmbs, heq⟩ := prepareBatch_eq_ok_iff.1 hgrid
  have hal : ∀ p ∈ samples, SampleAligned seqLen p := fun p hp => sampleAligned (hvalid p hp) (hprep p hp)
  constructor
  · intro hall p hp htrue
    obtain ⟨bin, hbin, hpbin⟩ := List.mem_flatten.1 ((assignment_perm seqLen samples).mem_iff.2 hp)
    have hmem : ∀ q ∈ bin, q ∈ samples := fun q hq => (List.mem_insertionSort _).1 (mem_of_firstFit hbin hq)
    obtain ⟨mb, hmb, b, hb, hpad⟩ := exists_of_mem_forall₂ (List.Forall₂.flip hmbs) hbin
    obtain ⟨k, hpacked⟩ := packedAs_of_fills (fun q hq => hprep q (hmem q hq)) hb hpad
    obtain ⟨dummies, q, m, -, hperm, -⟩ := distributeBatches_rows hw mbs
    obtain ⟨row, hrow, hin⟩ := List.mem_flatten.1 (hperm.symm.subset (List.mem_append_left dummies hmb))
    obtain ⟨before, after, rfl⟩ := List.append_of_mem hpbin
    have hfirst := hpacked.segment (fun q hq => hal q (hmem q hq)) (hal p hp).pos
    rw [List.head?_eq_getElem?] at htrue
    rw [packed_lossMask (hvalid p hp), htrue] at hfirst
    exact (hall row (heq ▸ hrow) mb hin).positionIds_ne hal hfirst.2.1 hfirst.2.2.2
  · intro hfirst row hrow mb hmb i hi
    obtain ⟨bin, -, hmem, b, source, hb, hpad, hkind⟩ := exists_source_of_prepareBatch hgrid hrow hmb
    rcases hkind with rfl | rfl
    · obtain ⟨k, hpacked⟩ := packedAs_of_fills (fun q hq => (hmem q hq).2) hb hpad
      rw [hpacked.lossMask] at hi
      obtain ⟨before, p, after, j, rfl, rfl, hj⟩ := exists_segment_of_true
        (fun q hq => (hal q (hmem q hq).1).lossMask) hi
      have hp := (hmem p (by simp)).1
      have hlt : j < packedLength seqLen p := (hal p hp).lossMask ▸ (List.getElem?_eq_some_iff.1 hj).1
      have hpos : 0 < j := by
        apply Nat.pos_of_ne_zero
        rintro rfl
        rw [packed_lossMask (hvalid p hp)] at hj
        exact hfirst p hp (List.head?_eq_getElem?.trans hj)
      exact ⟨before, p, after, k, j, fun q hq => (hmem q hq).1, hpacked,
        predictedWithin hpacked (fun q hq => hal q (hmem q hq).1) hpos hlt⟩
    · exact absurd (List.eq_of_mem_replicate (List.mem_of_getElem? hi)) (by decide)

end Segment

/-! ## Samples of one trained token -/

/-- A prompt that is not trained and one trained token. -/
def answerTo (promptIds : List Int) : TrainingSample Int where
  promptIds := promptIds
  promptMask := promptIds.map fun _ => false
  completionIds := [5]
  completionMask := [true]
  completionLogprobs := [-1]
  completionTemperatures := [1]
  envName := "env"
  teacherLogprobs := none
  advantage := some 1
  reward := none
  mmKwargs := none
  routedExperts := none
  mmTokenTypeIds := none
  trainingMode := .rl

/-- A model that depends on everything it attends to. -/
def sumPredict (attended : List (Int × Int)) (label : Int) : Int := label - (attended.map Prod.fst).sum

theorem nextToken_confined_prompts :
    ∃ mb, prepareBatch [answerTo [7, 8], answerTo [9]] 8 1 [0, 0] 1 1 = .ok [[mb]] ∧
      Confined sumPredict 0 8 [(0, answerTo [7, 8]), (0, answerTo [9])] mb := by
  obtain ⟨mb, hgrid⟩ : ∃ mb, prepareBatch ([(0, answerTo [7, 8]), (0, answerTo [9])].map Prod.snd) 8 1
      ([(0, answerTo [7, 8]), (0, answerTo [9])].map Prod.fst) 1 1 = .ok [[mb]] := ⟨_, rfl⟩
  exact ⟨mb, hgrid, (nextToken_confined sumPredict 0 (by decide) hgrid).2 (by decide) [mb] (List.mem_singleton_self _) mb
    (List.mem_singleton_self _)⟩

/-- The second of two accepted samples has no prompt: its token is trained on a logprob from the first one. -/
theorem nextToken_noPrompt :
    (∀ p ∈ [(0, answerTo [7]), (0, answerTo [])], validateSample 8 p.2 = none) ∧
      ∃ mb, prepareBatch [answerTo [7], answerTo []] 8 1 [0, 0] 1 1 = .ok [[mb]] ∧ mb.inputIds = [7, 5, 5] ∧
        mb.lossMask[2]? = some true ∧ (trainerLogprobs sumPredict 0 mb)[2]? = some (sumPredict [(7, 1), (5, 1)] 5) ∧
        ¬ Confined sumPredict 0 8 [(0, answerTo [7]), (0, answerTo [])] mb := by
  have hvalid : ∀ p ∈ [(0, answerTo [7]), (0, answerTo [])], validateSample 8 p.2 = none := by decide
  obtain ⟨mb, hgrid, hids, hmask, hpositions, hlogprob⟩ : ∃ mb, prepareBatch [answerTo [7], answerTo []] 8 1 [0, 0] 1 1 =
      .ok [[mb]] ∧ mb.inputIds = [7, 5, 5] ∧ mb.lossMask[2]? = some true ∧ mb.positionIds[2]? = some 0 ∧
        (trainerLogprobs sumPredict 0 mb)[2]? = some (sumPredict [(7, 1), (5, 1)] 5) := ⟨_, rfl, rfl, rfl, rfl, rfl⟩
  have hrun : prepareBatch ([(0, answerTo [7]), (0, answerTo [])].map Prod.snd) 8 1
      ([(0, answerTo [7]), (0, answerTo [])].map Prod.fst) 1 1 = .ok [[mb]] := hgrid
  have hprep := (prepareBatch_eq_ok_iff.1 hrun).2.1
  refine ⟨hvalid, mb, hgrid, hids, hmask, hlogprob, fun hconfined => ?_⟩
  exact hconfined.positionIds_ne (fun p hp => sampleAligned (hvalid p hp) (hprep p hp)) hmask hpositions

end AuroraRl.Trainer
