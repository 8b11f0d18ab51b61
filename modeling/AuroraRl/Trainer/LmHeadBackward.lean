import AuroraRl.Trainer.LmHeadForward
import Mathlib

/-!
# The chunked heads return the gradients

* `logitGrad`, `gradLogitsChunk_eq` : the gradient at each logit, recomputed chunk by chunk from the saved normaliser;
* `GradInvariant`, `backwardVocabChunk_keeps` : what the two accumulated tensors hold inside the two loops;
* `hasFDerivAt_objective` : the derivative of the weighted log-probabilities in any parameter of the logits;
* `ExactHead`, `chunkedHeads_exact` : `forward` and `backward` compute log softmax, entropy and the two gradients.
-/

namespace AuroraRl.Trainer.LmHead
open Chunks LogSumExp

variable {n d vocab k : Nat}

/-! ## The two loops -/

section

variable (f : LogitMap ℝ) (hidden : Fin n → Fin d → ℝ) (weight : Fin vocab → Fin d → ℝ) (labels : Fin n → Fin vocab)
  (invTemperature gradLogprobs : Fin n → ℝ)

/-- The gradient at each logit. -/
noncomputable def logitGrad (i : Fin n) (j : Fin vocab) : ℝ :=
  f.pull (logits hidden weight i j)
    ((-gradLogprobs i * softmax (scaledLogits f.apply hidden weight invTemperature i) j +
      if j = labels i then gradLogprobs i else 0) * invTemperature i)

/-- The state between the loops: rows before `start` are done, those before `stop` have the vocabulary up to `v`. -/
structure GradInvariant (start stop v : Nat) (grads : Gradients ℝ n d vocab) : Prop where
  gradHidden : ∀ i l, grads.gradHidden i l = prefixSum (if i.val < start then vocab else if i.val < stop then v else 0)
    fun j => logitGrad f hidden weight labels invTemperature gradLogprobs i j * weight j l
  gradWeight : ∀ j l, grads.gradWeight j l = prefixSum (if j.val < v then stop else start)
    fun i => logitGrad f hidden weight labels invTemperature gradLogprobs i j * hidden i l

variable {f hidden weight labels invTemperature gradLogprobs}

/-- A chunk of the vocabulary recomputes its part of the gradients at the logits. -/
theorem gradLogitsChunk_eq {lo hi : Nat} (hhi : hi ≤ vocab) (i : Fin n) (j : Fin (hi - lo)) :
    gradLogitsChunk real f lo hi hidden (slice lo hi hhi weight) labels gradLogprobs invTemperature
      (exactOutputs f hidden weight labels invTemperature).logz i j =
    slice lo hi hhi (logitGrad f hidden weight labels invTemperature gradLogprobs i) j := by
  have hprobs := exp_sub_logSumExp (scaledLogits f.apply hidden weight invTemperature i) ⟨lo + j, lt_of_slice hhi j⟩
  have hlabel : (lo ≤ (labels i).val ∧ (labels i).val < hi ∧ j.val = labels i - lo) ↔
      (⟨lo + j, lt_of_slice hhi j⟩ : Fin vocab) = labels i := by
    rw [Fin.ext_iff]
    show _ ↔ lo + j.val = _
    omega
  show f.pull _ ((if _ then -_ * Real.exp _ + _ else -_ * Real.exp _) * _) =
    f.pull _ ((-_ * softmax _ _ + if _ then _ else _) * _)
  rw [← hprobs]
  congr 2
  by_cases h : (⟨lo + j, lt_of_slice hhi j⟩ : Fin vocab) = labels i
  · rw [if_pos (hlabel.2 h), if_pos h]
    rfl
  · rw [if_neg (fun hmask => h (hlabel.1 hmask)), if_neg h, add_zero]
    rfl

theorem gradLogitsChunk_row {start stop lo hi : Nat} (hstop : stop ≤ n) (hhi : hi ≤ vocab)
    (i : Fin (stop - start)) (j : Fin (hi - lo)) :
    gradLogitsChunk real f lo hi (slice start stop hstop hidden) (slice lo hi hhi weight) (slice start stop hstop labels)
      (slice start stop hstop gradLogprobs) (slice start stop hstop invTemperature)
      (slice start stop hstop (exactOutputs f hidden weight labels invTemperature).logz) i j =
    slice lo hi hhi (slice start stop hstop (logitGrad f hidden weight labels invTemperature gradLogprobs) i) j :=
  gradLogitsChunk_eq hhi i j

variable (f hidden weight labels invTemperature gradLogprobs) in
/-- What `forward` saved. -/
noncomputable def exactContext (chunkSize : Nat) : Context ℝ n d vocab :=
  ⟨hidden, weight, labels, invTemperature, (exactOutputs f hidden weight labels invTemperature).logz, chunkSize⟩

theorem backwardVocabChunk_keeps {chunkSize vocabChunkSize start stop v : Nat} (hle : start ≤ stop)
    (hstop : stop ≤ n) (hv : v < vocab)
    {grads : Gradients ℝ n d vocab} (h : GradInvariant f hidden weight labels invTemperature gradLogprobs start
      stop v grads) :
    GradInvariant f hidden weight labels invTemperature gradLogprobs start stop (min (v + vocabChunkSize) vocab)
      (backwardVocabChunk real f (exactContext f hidden weight labels invTemperature chunkSize) gradLogprobs vocabChunkSize
        start stop hstop grads v) := by
  have hend : v ≤ min (v + vocabChunkSize) vocab := by omega
  constructor
  · intro i l
    simp only [backwardVocabChunk, exactContext]
    by_cases hmem : start ≤ i.val ∧ i.val < stop
    · rw [addTo_of_mem hmem, Pi.add_apply, h.gradHidden, if_neg (by omega), if_pos hmem.2, if_neg (by omega), if_pos hmem.2,
        prefixSum_slice hend (end_le v vocabChunkSize)]
      congr 1
      apply Finset.sum_congr rfl
      intro j _
      rw [gradLogitsChunk_row, slice_sub hstop _ hmem]
      rfl
    · rw [addTo_of_not_mem hmem, h.gradHidden]
      congr 1
      split_ifs <;> omega
  · intro j l
    simp only [backwardVocabChunk, exactContext]
    by_cases hmem : v ≤ j.val ∧ j.val < min (v + vocabChunkSize) vocab
    · rw [addTo_of_mem hmem, Pi.add_apply, h.gradWeight, if_neg (by omega), if_pos hmem.2, prefixSum_slice hle hstop]
      congr 1
      apply Finset.sum_congr rfl
      intro i _
      rw [transpose, gradLogitsChunk_row, slice_sub _ _ hmem]
      rfl
    · rw [addTo_of_not_mem hmem, h.gradWeight]
      congr 1
      split_ifs <;> omega

/-- One chunk of tokens: the whole vocabulary, then on to the next tokens. -/
theorem backwardTokenChunk_keeps {chunkSize vocabChunkSize start : Nat} (hvocab : 0 < vocabChunkSize) (hstart : start < n)
    {grads : Gradients ℝ n d vocab} (h : GradInvariant f hidden weight labels invTemperature gradLogprobs start
      start 0 grads) :
    GradInvariant f hidden weight labels invTemperature gradLogprobs (min (start + chunkSize) n) (min (start + chunkSize) n) 0
      (backwardTokenChunk real f (exactContext f hidden weight labels invTemperature chunkSize) gradLogprobs
        vocabChunkSize grads start) := by
  have hle : start ≤ min (start + chunkSize) n := by omega
  have hinit : GradInvariant f hidden weight labels invTemperature gradLogprobs start
      (min (start + chunkSize) n) 0 grads := by
    constructor
    · intro i l
      rw [h.gradHidden]
      congr 1
      split_ifs <;> rfl
    · intro j l
      rw [h.gradWeight, if_neg (Nat.not_lt_zero _), if_neg (Nat.not_lt_zero _)]
  have hall := foldl_starts hvocab
    (backwardVocabChunk real f (exactContext f hidden weight labels invTemperature chunkSize) gradLogprobs vocabChunkSize
      start (min (start + chunkSize) n) (end_le start chunkSize))
    (GradInvariant f hidden weight labels invTemperature gradLogprobs start (min (start + chunkSize) n)) grads hinit
    (fun v grads hv hinv => backwardVocabChunk_keeps hle (end_le start chunkSize) hv hinv)
  constructor
  · intro i l
    refine (hall.gradHidden i l).trans ?_
    congr 1
    split_ifs <;> omega
  · intro j l
    refine (hall.gradWeight j l).trans ?_
    rw [if_pos j.isLt, if_neg (Nat.not_lt_zero _)]

variable (f hidden weight labels invTemperature gradLogprobs) in
/-- The two products of the gradients at the logits, over the whole vocabulary and all tokens. -/
noncomputable def exactGradients : Gradients ℝ n d vocab where
  gradHidden := fun i l => ∑ j, logitGrad f hidden weight labels invTemperature gradLogprobs i j * weight j l
  gradWeight := fun j l => ∑ i, logitGrad f hidden weight labels invTemperature gradLogprobs i j * hidden i l

/-- **Main.** Whatever the chunking of tokens and of the vocabulary. -/
theorem chunkedBackward_eq {chunkSize vocabChunkSize : Nat} (hchunk : 0 < chunkSize) (hvocab : 0 < vocab → 0 < vocabChunkSize)
    (name : String) {gradEntropy : Option (Fin n → ℝ)} (hentropy : ∀ g ∈ gradEntropy, ∀ i, g i = 0) :
    chunkedBackward real name f vocabChunkSize (exactContext f hidden weight labels invTemperature chunkSize)
      gradLogprobs gradEntropy =
      .ok (exactGradients f hidden weight labels invTemperature gradLogprobs) := by
  have hall := foldl_starts hchunk
    (backwardTokenChunk real f (exactContext f hidden weight labels invTemperature chunkSize) gradLogprobs vocabChunkSize)
    (fun start => GradInvariant f hidden weight labels invTemperature gradLogprobs start start 0) ⟨fun _ _ => 0, fun _ _ => 0⟩
    ⟨fun i l => by simp, fun j l => by simp⟩
    (fun start grads hstart hinv => backwardTokenChunk_keeps (hvocab (Fin.pos (labels ⟨start, hstart⟩))) hstart hinv)
  have heq : (starts n chunkSize).foldl
      (backwardTokenChunk real f (exactContext f hidden weight labels invTemperature chunkSize) gradLogprobs vocabChunkSize)
      ⟨fun _ _ => 0, fun _ _ => 0⟩ = exactGradients f hidden weight labels invTemperature gradLogprobs := by
    have hhidden := hall.gradHidden
    have hweight := hall.gradWeight
    simp only [Fin.is_lt, if_true, prefixSum_all] at hhidden
    simp only [Nat.not_lt_zero, if_false, prefixSum_all] at hweight
    generalize (starts n chunkSize).foldl _ _ = grads at hhidden hweight ⊢
    cases grads
    simp only [exactGradients, Gradients.mk.injEq]
    refine ⟨?_, ?_⟩
    · funext i l
      exact hhidden i l
    · funext j l
      exact hweight j l
  rw [chunkedBackward, pyAssert, if_pos hentropy, ← heq]
  rfl

end

/-! ## The derivative -/

/-- A logit map whose `pull` is the chain rule. -/
def LogitMap.Smooth (f : LogitMap ℝ) : Prop := ∀ z, ∃ f', HasDerivAt f.apply f' z ∧ ∀ g, f.pull z g = g * f'

theorem plainLogits_smooth : (plainLogits : LogitMap ℝ).Smooth := by
  intro z
  exact ⟨1, hasDerivAt_id' z, fun g => (mul_one g).symm⟩

theorem hasDerivAt_tanh (z : ℝ) : HasDerivAt Real.tanh (1 - Real.tanh z ^ 2) z := by
  have hfun : Real.tanh = fun x => Real.sinh x / Real.cosh x := by
    funext x
    exact Real.tanh_eq_sinh_div_cosh x
  have hcosh := (Real.cosh_pos z).ne'
  rw [hfun]
  refine ((Real.hasDerivAt_sinh z).div (Real.hasDerivAt_cosh z) hcosh).congr_deriv ?_
  field_simp

theorem cappedLogits_smooth {softcap : ℝ} (h : 0 < softcap) : (cappedLogits real softcap).Smooth := by
  intro z
  refine ⟨1 - Real.tanh (z / softcap) ^ 2, ?_, fun g => rfl⟩
  have hinner := (hasDerivAt_tanh (z / softcap)).comp z ((hasDerivAt_id' z).div_const softcap)
  refine (hinner.const_mul softcap).congr_deriv ?_
  field_simp

variable {E : Type} [NormedAddCommGroup E] [NormedSpace ℝ E]

/-- The weighted log-probabilities of the labels, from the logits. -/
noncomputable def weightedLogprobs (f : ℝ → ℝ) (labels : Fin n → Fin vocab) (invTemperature gradLogprobs : Fin n → ℝ)
    (z : Fin n → Fin vocab → ℝ) : ℝ :=
  ∑ i, gradLogprobs i * Real.log (softmax (fun j => f (z i j) * invTemperature i) (labels i))

/-- The gradient at one logit is its coefficient in the derivative. -/
theorem hasFDerivAt_weightedLogprobs {f : LogitMap ℝ} (hf : f.Smooth) (labels : Fin n → Fin vocab)
    (invTemperature gradLogprobs : Fin n → ℝ) {z : E → Fin n → Fin vocab → ℝ} {z' : Fin n → Fin vocab → E →L[ℝ] ℝ} {e : E}
    (hz : ∀ i j, HasFDerivAt (fun e => z e i j) (z' i j) e) :
    HasFDerivAt (fun e => weightedLogprobs f.apply labels invTemperature gradLogprobs (z e))
      (∑ i, ∑ j, f.pull (z e i j) ((-gradLogprobs i * softmax (fun j => f.apply (z e i j) * invTemperature i) j +
        if j = labels i then gradLogprobs i else 0) * invTemperature i) • z' i j) e := by
  apply HasFDerivAt.fun_sum
  intro i _
  choose f' hf' hpull using fun j => hf (z e i j)
  have hscaled : ∀ j, HasFDerivAt (fun e => f.apply (z e i j) * invTemperature i) (invTemperature i • f' j • z' i j) e :=
    fun j => ((hf' j).comp_hasFDerivAt e (hz i j)).mul_const (invTemperature i)
  refine ((hasFDerivAt_log_softmax (labels i) hscaled).const_mul (gradLogprobs i)).congr_fderiv ?_
  rw [Finset.smul_sum]
  apply Finset.sum_congr rfl
  intro j _
  rw [hpull, smul_smul, smul_smul, smul_smul]
  congr 1
  by_cases hj : j = labels i
  · rw [if_pos hj, if_pos hj]
    ring
  · rw [if_neg hj, if_neg hj]
    ring

/-- The tensor `g` is the gradient of `l` at `x`. -/
def IsGradient {p q : Nat} (l : (Fin p → Fin q → ℝ) → ℝ) (g x : Fin p → Fin q → ℝ) : Prop :=
  HasFDerivAt l (∑ i, ∑ j, g i j • (ContinuousLinearMap.proj j).comp
    (ContinuousLinearMap.proj (R := ℝ) (φ := fun _ : Fin p => Fin q → ℝ) i)) x

section

variable {f : LogitMap ℝ} (hidden : Fin n → Fin d → ℝ) (weight : Fin vocab → Fin d → ℝ) (labels : Fin n → Fin vocab)
  (invTemperature gradLogprobs : Fin n → ℝ)

theorem isGradient_gradHidden (hf : f.Smooth) :
    IsGradient (fun h => weightedLogprobs f.apply labels invTemperature gradLogprobs (logits h weight))
      (exactGradients f hidden weight labels invTemperature gradLogprobs).gradHidden hidden := by
  have hlogits : ∀ (i : Fin n) (j : Fin vocab), HasFDerivAt (fun h : Fin n → Fin d → ℝ => logits h weight i j)
      (∑ l, weight j l • (ContinuousLinearMap.proj l).comp
        (ContinuousLinearMap.proj (R := ℝ) (φ := fun _ : Fin n => Fin d → ℝ) i)) hidden := by
    intro i j
    apply HasFDerivAt.fun_sum
    intro l _
    exact ((ContinuousLinearMap.proj l).comp
      (ContinuousLinearMap.proj (R := ℝ) (φ := fun _ : Fin n => Fin d → ℝ) i)).hasFDerivAt.mul_const (weight j l)
  refine (hasFDerivAt_weightedLogprobs hf labels invTemperature gradLogprobs hlogits).congr_fderiv ?_
  ext v
  simp only [sum_apply, smul_apply, ContinuousLinearMap.comp_apply,
    ContinuousLinearMap.proj_apply, smul_eq_mul, exactGradients]
  apply Finset.sum_congr rfl
  intro i _
  simp only [Finset.mul_sum, Finset.sum_mul]
  rw [Finset.sum_comm]
  apply Finset.sum_congr rfl
  intro l _
  apply Finset.sum_congr rfl
  intro j _
  rw [← mul_assoc]
  rfl

theorem isGradient_gradWeight (hf : f.Smooth) :
    IsGradient (fun w => weightedLogprobs f.apply labels invTemperature gradLogprobs (logits hidden w))
      (exactGradients f hidden weight labels invTemperature gradLogprobs).gradWeight weight := by
  have hlogits : ∀ (i : Fin n) (j : Fin vocab), HasFDerivAt (fun w : Fin vocab → Fin d → ℝ => logits hidden w i j)
      (∑ l, hidden i l • (ContinuousLinearMap.proj l).comp
        (ContinuousLinearMap.proj (R := ℝ) (φ := fun _ : Fin vocab => Fin d → ℝ) j)) weight := by
    intro i j
    apply HasFDerivAt.fun_sum
    intro l _
    exact ((ContinuousLinearMap.proj l).comp
      (ContinuousLinearMap.proj (R := ℝ) (φ := fun _ : Fin vocab => Fin d → ℝ) j)).hasFDerivAt.const_mul (hidden i l)
  refine (hasFDerivAt_weightedLogprobs hf labels invTemperature gradLogprobs hlogits).congr_fderiv ?_
  ext v
  simp only [sum_apply, smul_apply, ContinuousLinearMap.comp_apply,
    ContinuousLinearMap.proj_apply, smul_eq_mul, exactGradients]
  rw [Finset.sum_comm]
  apply Finset.sum_congr rfl
  intro j _
  simp only [Finset.mul_sum, Finset.sum_mul]
  rw [Finset.sum_comm]
  apply Finset.sum_congr rfl
  intro l _
  apply Finset.sum_congr rfl
  intro i _
  rw [← mul_assoc]
  rfl

end

/-! ## The heads -/

/-- A head is exact with `cap` on its logits: log softmax at the labels, entropies, and the gradients
of the weighted log-probabilities. -/
def ExactHead {C : Type} (cap : ℝ → ℝ) (hidden : Fin n → Fin d → ℝ) (weight : Fin vocab → Fin d → ℝ)
    (labels : Fin n → Fin vocab)
    (invTemperature gradLogprobs : Fin n → ℝ) (forward : Except PyException ((Fin n → ℝ) × (Fin n → ℝ) × C))
    (backward : C → Except PyException (Gradients ℝ n d vocab)) : Prop :=
  ∃ logprobs entropies ctx grads, forward = .ok (logprobs, entropies, ctx) ∧ backward ctx = .ok grads ∧
    (∀ i, logprobs i = Real.log (softmax (scaledLogits cap hidden weight invTemperature i) (labels i))) ∧
    (∀ i, entropies i = entropy (scaledLogits cap hidden weight invTemperature i)) ∧
    IsGradient (fun h => ∑ i, gradLogprobs i * Real.log (softmax (scaledLogits cap h weight invTemperature i) (labels i)))
      grads.gradHidden hidden ∧
    IsGradient (fun w => ∑ i, gradLogprobs i * Real.log (softmax (scaledLogits cap hidden w invTemperature i) (labels i)))
      grads.gradWeight weight

section

variable (hidden : Fin n → Fin d → ℝ) (weight : Fin vocab → Fin d → ℝ) (labels : Fin n → Fin vocab)
  (invTemperature gradLogprobs : Fin n → ℝ) (empty : Outputs ℝ n)

/-- **Main.** Any smooth head, by any chunks of tokens and of the vocabulary. -/
theorem chunked_exact {f : LogitMap ℝ} (hf : f.Smooth) {chunkSize vocabChunkSize : Nat} (hchunk : 0 < chunkSize)
    (hvocab : 0 < vocab → 0 < vocabChunkSize) (name : String) {gradEntropy : Option (Fin n → ℝ)}
    (hentropy : ∀ g ∈ gradEntropy, ∀ i, g i = 0) :
    ExactHead f.apply hidden weight labels invTemperature gradLogprobs
      (chunkedForward real f vocabChunkSize hidden weight labels invTemperature chunkSize empty)
      fun ctx => chunkedBackward real name f vocabChunkSize ctx gradLogprobs gradEntropy :=
  ⟨_, _, _, _, chunkedForward_eq hchunk hvocab empty, chunkedBackward_eq hchunk hvocab name hentropy,
    fun _ => rfl, fun _ => rfl,
    isGradient_gradHidden hidden weight labels invTemperature gradLogprobs hf,
    isGradient_gradWeight hidden weight labels invTemperature gradLogprobs hf⟩

theorem vocabChunkSize_pos (h : 0 < vocab) : 0 < min vocab 8192 := by omega

/-- **Main.** Both heads return log softmax at the labels, the entropies and the gradients. -/
theorem chunkedHeads_exact {chunkSize : Nat} (hchunk : 0 < chunkSize) {gradEntropy : Option (Fin n → ℝ)}
    (hentropy : ∀ g ∈ gradEntropy, ∀ i, g i = 0) :
    ExactHead (fun z => z) hidden weight labels invTemperature gradLogprobs
      (SequenceChunkedLogProbEntropyFn.forward real hidden weight labels invTemperature chunkSize empty)
      (fun ctx => SequenceChunkedLogProbEntropyFn.backward real ctx gradLogprobs gradEntropy) ∧
    ∀ softcap, 0 < softcap →
      ExactHead (fun z => softcap * Real.tanh (z / softcap)) hidden weight labels invTemperature gradLogprobs
        (GemmaChunkedLogProbEntropyFn.forward real hidden weight labels invTemperature chunkSize softcap empty)
        (fun ctx => GemmaChunkedLogProbEntropyFn.backward real ctx gradLogprobs gradEntropy) := by
  refine ⟨chunked_exact hidden weight labels invTemperature gradLogprobs empty plainLogits_smooth hchunk
    vocabChunkSize_pos _ hentropy, ?_⟩
  intro softcap hsoftcap
  obtain ⟨logprobs, entropies, ctx, grads, hforward, hbackward, hspec⟩ := chunked_exact hidden weight labels invTemperature
    gradLogprobs empty (cappedLogits_smooth hsoftcap) hchunk vocabChunkSize_pos "GemmaFusedOutputLinear" hentropy
  refine ⟨logprobs, entropies, (ctx, softcap), grads, ?_, hbackward, hspec⟩
  rw [GemmaChunkedLogProbEntropyFn.forward, hforward]
  rfl

noncomputable def fiveTokens (i : Fin 5) (l : Fin 2) : ℝ := i.val - l.val

/-- A vocabulary of three chunks. -/
noncomputable def threeChunks (j : Fin 20000) (l : Fin 2) : ℝ := j.val * l.val + 1

/-- Labels in each of them. -/
def fiveLabels (i : Fin 5) : Fin 20000 := ⟨4500 * i.val, by omega⟩

/-- Three chunks of tokens, two of them full, by three of the vocabulary, for different temperatures and a cap of one. -/
theorem chunkedHeads_exact_threeChunks :
    ExactHead (fun z => z) fiveTokens threeChunks fiveLabels (fun i => i.val + 1) (fun i => i.val)
      (SequenceChunkedLogProbEntropyFn.forward real fiveTokens threeChunks fiveLabels (fun i => i.val + 1) 2
        ⟨fun _ => 0, fun _ => 0, fun _ => 0⟩)
      (fun ctx => SequenceChunkedLogProbEntropyFn.backward real ctx (fun i => i.val) none) ∧
    ExactHead (fun z => 1 * Real.tanh (z / 1)) fiveTokens threeChunks fiveLabels (fun i => i.val + 1) (fun i => i.val)
      (GemmaChunkedLogProbEntropyFn.forward real fiveTokens threeChunks fiveLabels (fun i => i.val + 1) 2 1
        ⟨fun _ => 0, fun _ => 0, fun _ => 0⟩)
      (fun ctx => GemmaChunkedLogProbEntropyFn.backward real ctx (fun i => i.val) none) := by
  have hnone : ∀ g ∈ (none : Option (Fin 5 → ℝ)), ∀ i, g i = 0 := fun g hg => absurd hg (Option.not_mem_none g)
  obtain ⟨hplain, hcapped⟩ := chunkedHeads_exact fiveTokens threeChunks fiveLabels (fun i => i.val + 1) (fun i => i.val)
    ⟨fun _ => 0, fun _ => 0, fun _ => 0⟩ Nat.two_pos hnone
  exact ⟨hplain, hcapped 1 one_pos⟩

end

end AuroraRl.Trainer.LmHead
