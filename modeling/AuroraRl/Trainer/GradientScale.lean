import AuroraRl.Lib.Replicas
import AuroraRl.Trainer.MicroBatchLoss
import AuroraRl.Trainer.ParallelDims
import Mathlib

/-!
# Gradients over data and context parallel ranks

A gradient is a linear functional on the parameter space `E`; a forward pass reads the copy of the parameters of every
rank of its context parallel group.

* `shardForCp`, `gatherForCp`, `gatherForCpBackward` : the sequence over the ranks of a group;
* `fsdpAverage`, `fsdpGradientDivideFactor` : what FSDP makes of the gradients, and its divisor;
* `Rl.gradient`, `Sft.gradient` : what the two trainers hand to the optimizer;
* `BuiltIn.microBatch_computeLoss` : with a built-in loss, `computeLoss` is what the RL trainer computes;
* `gradient_isMean` : both are the gradient of the mean loss over the trainable tokens of the batch.
-/

namespace AuroraRl.Trainer

def ParallelDims.fsdpGradientDivideFactor (p : ParallelDims) : Nat := p.dpReplicate * p.dpShard * p.cp

namespace GradientScale
open Replicas

/-! ## Context parallel groups -/

section

variable {cp chunk : Nat} {α : Type}

/-- `shard_for_cp`, for a sequence of a multiple of `cp` tokens. -/
def shardForCp (t : Fin (cp * chunk) → α) (rank : Fin cp) (s : Fin chunk) : α := t (finProdFinEquiv (rank, s))

/-- `gather_for_cp`: the shards one after the other. -/
def gatherForCp (t : Fin cp → Fin chunk → α) (p : Fin (cp * chunk)) : α := t p.divNat p.modNat

/-- The backward of `all_gather` on a rank: the cotangents of all ranks, summed, on the shard of the rank. -/
noncomputable def gatherForCpBackward (cotangent : Fin cp → (Fin (cp * chunk) → ℝ) →L[ℝ] ℝ) (rank : Fin cp)
    (s : Fin chunk) : ℝ :=
  ∑ r, cotangent r (Pi.single (finProdFinEquiv (rank, s)) 1)

def shiftTensorRight {n : Nat} (padValue : ℝ) (t : Fin n → ℝ) (p : Fin n) : ℝ :=
  if h : p.val = 0 then padValue else t ⟨p - 1, by omega⟩

end

variable {E : Type} [NormedAddCommGroup E] [NormedSpace ℝ E]

/-- The gradients of all ranks, averaged, in one direction. -/
noncomputable def fsdpAverage (p : ParallelDims) (grad : Fin (p.dpReplicate * p.dpShard) → Fin p.cp → ℝ) : ℝ :=
  (∑ dpRank, ∑ cpRank, grad dpRank cpRank) / (p.dpReplicate * p.dpShard * p.cp : ℝ)

/-! ## The RL trainer -/

namespace Rl

/-- A micro batch: the logprobs of every rank's shard from the parameters of all ranks, and what a trainable token adds to the
loss given the logprobs of the sequence. -/
structure MicroBatch (E : Type) (cp : Nat) where
  chunk : Nat
  lossMask : Fin (cp * chunk) → Bool
  logprobs : (Fin cp → E) → Fin cp → Fin chunk → ℝ
  padValue : ℝ
  tokenLoss : Fin (cp * chunk) → (Fin (cp * chunk) → ℝ) → ℝ

namespace MicroBatch

variable {cp : Nat} (mb : MicroBatch E cp)

def tokens : Finset (Fin (cp * mb.chunk)) := Finset.univ.filter fun p => mb.lossMask p

/-- The loss over the trainable tokens, from the gathered logprobs. -/
def lossSum (gathered : Fin (cp * mb.chunk) → ℝ) : ℝ :=
  ∑ p ∈ mb.tokens, mb.tokenLoss p (shiftTensorRight mb.padValue gathered)

noncomputable def computeLoss (lossScale : Nat) (gathered : Fin (cp * mb.chunk) → ℝ) : ℝ := mb.lossSum gathered / lossScale

/-- The loss over the trainable tokens with parameters `θ`. -/
def loss (θ : E) : ℝ := mb.lossSum (gatherForCp (mb.logprobs fun _ => θ))

/-- `loss.backward()` on a rank: all ranks compute the loss, the gather sums up their cotangents, and the forward passes of
the ranks are differentiated in the rank's parameters. -/
noncomputable def backward (lossScale : Nat) (θ : E) (cpRank : Fin cp) : E →L[ℝ] ℝ :=
  let gathered := gatherForCp (mb.logprobs fun _ => θ)
  let cotangent := gatherForCpBackward fun _ => fderiv ℝ (mb.computeLoss lossScale) gathered
  fderiv ℝ (fun x => ∑ r, ∑ s, cotangent r s * mb.logprobs (Function.update (fun _ => θ) cpRank x) r s) θ

end MicroBatch

variable (p : ParallelDims) (batch : Fin (p.dpReplicate * p.dpShard) → List (MicroBatch E p.cp))

/-- `local_loss_scale`, the same on all ranks of a group. -/
def localLossScale (dpRank : Fin (p.dpReplicate * p.dpShard)) : Nat := ((batch dpRank).map fun mb => mb.tokens.card).sum

/-- `loss_scale`: summed over `dp_cp`. -/
def lossScale : Nat := max (∑ dpRank, ∑ _cpRank : Fin p.cp, localLossScale p batch dpRank) 1

/-- What the optimizer gets, in the direction `v`. -/
noncomputable def gradient (θ v : E) : ℝ :=
  p.fsdpGradientDivideFactor * fsdpAverage p fun dpRank cpRank =>
    ((batch dpRank).map fun mb => mb.backward (lossScale p batch) θ cpRank v).sum

def numTokens : Nat := ∑ dpRank, ((batch dpRank).map fun mb => mb.tokens.card).sum

/-- The loss over all trainable tokens of the global batch. -/
def globalLoss (θ : E) : ℝ := ∑ dpRank, ((batch dpRank).map fun mb => mb.loss θ).sum

/-- Logprobs and losses have derivatives at the parameters. -/
structure Differentiable {p : ParallelDims} (batch : Fin (p.dpReplicate * p.dpShard) → List (MicroBatch E p.cp))
    (θ : E) : Prop where
  logprobs : ∀ dpRank, ∀ mb ∈ batch dpRank, ∀ r s, DifferentiableAt ℝ (fun copies => mb.logprobs copies r s) fun _ => θ
  lossSum : ∀ dpRank, ∀ mb ∈ batch dpRank, DifferentiableAt ℝ mb.lossSum (gatherForCp (mb.logprobs fun _ => θ))

end Rl

/-! ## The SFT trainer -/

namespace Sft

/-- A micro batch: the loss of each position of a rank's shard from the parameters of all ranks. -/
structure MicroBatch (E : Type) (cp : Nat) where
  chunk : Nat
  lossMask : Fin (cp * chunk) → Bool
  tokenLoss : (Fin cp → E) → Fin cp → Fin chunk → ℝ

/-- `config.loss_impl`: the fused heads return the mean over the tokens that are not ignored. -/
inductive LossImpl
  | torch
  | liger
  | ligerFused
  | quackFused

def LossImpl.fused : LossImpl → Bool
  | torch => false
  | liger => false
  | ligerFused => true
  | quackFused => true

namespace MicroBatch

variable {cp : Nat} (mb : MicroBatch E cp)

def tokens (cpRank : Fin cp) : Finset (Fin mb.chunk) := Finset.univ.filter fun s => shardForCp mb.lossMask cpRank s

/-- `token_count` of `compute_loss`. -/
def tokenCount (cpRank : Fin cp) : Nat := (mb.tokens cpRank).card

/-- `loss_sum` of `compute_loss`. -/
noncomputable def lossSum (impl : LossImpl) (copies : Fin cp → E) (cpRank : Fin cp) : ℝ :=
  let masked := ∑ s ∈ mb.tokens cpRank, mb.tokenLoss copies cpRank s
  if impl.fused then masked / (mb.tokens cpRank).card * mb.tokenCount cpRank else masked

/-- The loss over the trainable tokens with parameters `θ`. -/
def loss (θ : E) : ℝ := ∑ r, ∑ s ∈ mb.tokens r, mb.tokenLoss (fun _ => θ) r s

/-- `scaled_loss.backward()` on a rank: the losses of all ranks, differentiated in the rank's parameters. -/
noncomputable def backward (impl : LossImpl) (gradAccumSteps : Nat) (θ : E) (cpRank : Fin cp) : E →L[ℝ] ℝ :=
  fderiv ℝ (fun x => ∑ r, mb.lossSum impl (Function.update (fun _ => θ) cpRank x) r / gradAccumSteps) θ

end MicroBatch

variable (p : ParallelDims) (impl : LossImpl) {gradAccumSteps : Nat}
  (batch : Fin (p.dpReplicate * p.dpShard) → Fin gradAccumSteps → MicroBatch E p.cp)

/-- `global_step_token_count`: summed over `dp_cp`. -/
def globalStepTokenCount : Nat := ∑ dpRank, ∑ cpRank, ∑ microStep, (batch dpRank microStep).tokenCount cpRank

/-- What the optimizer gets, in the direction `v`. -/
noncomputable def gradient (θ v : E) : ℝ :=
  let grad := fsdpAverage p fun dpRank cpRank => ∑ microStep, (batch dpRank microStep).backward impl gradAccumSteps θ cpRank v
  if 0 < globalStepTokenCount p batch then
    (p.fsdpGradientDivideFactor * gradAccumSteps : Nat) / (globalStepTokenCount p batch : ℝ) * grad
  else grad

def numTokens : Nat := ∑ dpRank, ∑ microStep, (Finset.univ.filter fun q => (batch dpRank microStep).lossMask q).card

/-- The loss over all trainable tokens of the global batch. -/
def globalLoss (θ : E) : ℝ := ∑ dpRank, ∑ microStep, (batch dpRank microStep).loss θ

/-- The losses have derivatives at the parameters. -/
def Differentiable {p : ParallelDims} (batch : Fin (p.dpReplicate * p.dpShard) → Fin gradAccumSteps →
    MicroBatch E p.cp) (θ : E) : Prop :=
  ∀ dpRank microStep r s, DifferentiableAt ℝ (fun copies => (batch dpRank microStep).tokenLoss copies r s) fun _ => θ

end Sft

/-! ## The built-in losses of the RL trainer -/

namespace BuiltIn

/-- The DPPO loss of a token with another logprob: `backward` takes its masks and its advantage `a` for constants. -/
noncomputable def dppoLossAt (low high klTau a : ℝ) (x : Token ℝ) (logprob : ℝ) : ℝ :=
  -(ofBool (x.keepMask Real.exp low high) * a * Real.exp (logprob - x.inferenceLogprob)) +
    klTau * (ofBool x.lossMask * (logprob - x.inferenceLogprob) ^ 2)

/-- `tokenLoss`, as `backward` differentiates it. -/
noncomputable def tokenLossAt (config : DefaultLossConfig ℝ) : TrainingMode → Token ℝ → ℝ → ℝ
  | .sft, x, logprob => if x.lossMask then -logprob else 0
  | .opd, x, logprob => dppoLossAt (1 / (5 : Nat)) (1 / (5 : Nat)) (1 / (1000 : Nat))
      (0 * x.advantage + 1 * x.teacherKl) x logprob
  | .rl, x, logprob => dppoLossAt config.dppoMaskLow config.dppoMaskHigh config.klTau (config.advTau * x.advantage) x logprob

theorem tokenLossAt_trainerLogprob (config : DefaultLossConfig ℝ) (mode : TrainingMode) (x : Token ℝ) :
    tokenLossAt config mode x x.trainerLogprob = tokenLoss Real.exp config mode x := by
  cases mode with
  | rl => rfl
  | opd =>
      unfold tokenLossAt tokenLoss
      rw [Nat.cast_ofNat, Nat.cast_ofNat]
      rfl
  | sft => rfl

theorem differentiable_tokenLossAt (config : DefaultLossConfig ℝ) (mode : TrainingMode) (x : Token ℝ) :
    Differentiable ℝ (tokenLossAt config mode x) := by
  cases mode with
  | rl =>
      unfold tokenLossAt dppoLossAt
      fun_prop
  | opd =>
      unfold tokenLossAt dppoLossAt
      fun_prop
  | sft =>
      show Differentiable ℝ fun logprob => if x.lossMask then -logprob else 0
      split
      · fun_prop
      · fun_prop

variable {cp chunk : Nat}

/-- A micro batch with the loss of its mode. -/
noncomputable def microBatch (config : DefaultLossConfig ℝ) (mode : TrainingMode) (tokens : Fin (cp * chunk) → Token ℝ)
    (logprobs : (Fin cp → E) → Fin cp → Fin chunk → ℝ) (padValue : ℝ) : Rl.MicroBatch E cp where
  chunk := chunk
  lossMask q := (tokens q).lossMask
  logprobs := logprobs
  padValue := padValue
  tokenLoss q shifted := tokenLossAt config mode (tokens q) (shifted q)

variable {config : DefaultLossConfig ℝ} {mode : TrainingMode} {tokens : Fin (cp * chunk) → Token ℝ}
  {logprobs : (Fin cp → E) → Fin cp → Fin chunk → ℝ} {padValue : ℝ}

theorem differentiable_shiftTensorRight {n : Nat} (q : Fin n) : Differentiable ℝ fun t => shiftTensorRight padValue t q := by
  unfold shiftTensorRight
  split
  · fun_prop
  · fun_prop

omit [NormedAddCommGroup E] [NormedSpace ℝ E] in
/-- The built-in losses have derivatives everywhere. -/
theorem microBatch_lossSum_differentiable : Differentiable ℝ (microBatch config mode tokens logprobs padValue).lossSum := by
  apply Differentiable.fun_sum
  intro q _
  exact (differentiable_tokenLossAt config mode (tokens q)).comp (differentiable_shiftTensorRight q)

omit [NormedAddCommGroup E] [NormedSpace ℝ E] in
/-- `computeLoss` is the loss of the trainer, when the logprobs are those of the tokens. -/
theorem microBatch_computeLoss {mb : Trainer.MicroBatch ℝ} {advantages : List ℝ} {gathered : Fin (cp * chunk) → ℝ}
    {lossScale : Nat} {r : ℝ × Dict String (List ℝ)} (hadv : mb.advantages = advantages.map some)
    (hpos : mb.positionIds.length = cp * chunk) (hinf : mb.inferenceLogprobs.length = cp * chunk)
    (hlen : advantages.length = cp * chunk) (hmask : mb.lossMask.length = cp * chunk)
    (htokens : (⟨List.ofFn (shiftTensorRight padValue gathered), mb.inferenceLogprobs, mb.teacherLogprobs,
      advantages, mb.lossMask⟩ : LossInputs ℝ).tokens = List.ofFn tokens)
    (hshifted : ∀ q, (tokens q).trainerLogprob = shiftTensorRight padValue gathered q)
    (hr : microBatchLoss Real.exp config lossScale mb (List.ofFn (shiftTensorRight padValue gathered)) = .ok r) :
    (microBatch config mb.trainingMode tokens logprobs padValue).computeLoss lossScale gathered = r.1 := by
  have hspec := (microBatchLoss_spec Real.exp config lossScale hadv (by simpa using hpos) (by simpa using hinf)
    (by simpa using hlen)
    (by simpa using hmask)).1 r hr
  have hterm : ∀ q, (if (tokens q).lossMask then tokenLossAt config mb.trainingMode (tokens q)
      (shiftTensorRight padValue gathered q) else 0) =
      tokenLoss Real.exp config mb.trainingMode (tokens q) := by
    intro q
    rw [← hshifted, tokenLossAt_trainerLogprob]
    split
    · rfl
    · next hfalse => exact (tokenLoss_of_not_mask Real.exp config _ (Bool.eq_false_of_not_eq_true hfalse)).symm
  rw [hspec, htokens, List.map_ofFn, List.sum_ofFn]
  refine congrArg (· / (lossScale : ℝ)) ?_
  refine (Finset.sum_filter ..).trans ?_
  exact Finset.sum_congr rfl fun q _ => hterm q

end BuiltIn

/-! ## One micro batch -/

section

variable {cp chunk : Nat}

theorem gatherForCp_apply {α : Type} (t : Fin cp → Fin chunk → α) (r : Fin cp) (s : Fin chunk) :
    gatherForCp t (finProdFinEquiv (r, s)) = t r s := by
  have hsymm := finProdFinEquiv.symm_apply_apply (r, s)
  exact congrArg (fun q : Fin cp × Fin chunk => t q.1 q.2) hsymm

theorem sum_shards {M : Type} [AddCommMonoid M] (f : Fin (cp * chunk) → M) :
    ∑ q, f q = ∑ r, ∑ s, f (finProdFinEquiv (r, s)) := by
  rw [← finProdFinEquiv.sum_comp, Fintype.sum_prod_type]

theorem functional_eq_sum (L : (Fin (cp * chunk) → ℝ) →L[ℝ] ℝ) (v : Fin (cp * chunk) → ℝ) :
    L v = ∑ r, ∑ s, L (Pi.single (finProdFinEquiv (r, s)) 1) * v (finProdFinEquiv (r, s)) := by
  rw [← sum_shards fun q => L (Pi.single q 1) * v q]
  have hv : v = ∑ q, v q • Pi.single (M := fun _ => ℝ) q 1 := by
    rw [← Finset.univ_sum_single v]
    apply Finset.sum_congr rfl
    intro q _
    rw [← Pi.single_smul, smul_eq_mul, mul_one, Finset.univ_sum_single]
  conv_lhs => rw [hv]
  simp only [map_sum, map_smul, smul_eq_mul]
  apply Finset.sum_congr rfl
  intro q _
  rw [mul_comm]

end

namespace Rl.MicroBatch

variable {cp : Nat} {mb : MicroBatch E cp} {θ : E}

/-- The gradient of the loss, through the gathered logprobs. -/
theorem hasFDerivAt_loss (hlogprobs : ∀ r s, DifferentiableAt ℝ (fun copies => mb.logprobs copies r s) fun _ => θ)
    (hloss : DifferentiableAt ℝ mb.lossSum (gatherForCp (mb.logprobs fun _ => θ))) :
    HasFDerivAt mb.loss (∑ r, ∑ s, fderiv ℝ mb.lossSum (gatherForCp (mb.logprobs fun _ => θ))
      (Pi.single (finProdFinEquiv (r, s)) 1) •
      fderiv ℝ (fun x => mb.logprobs (fun _ => x) r s) θ) θ := by
  have hgathered : HasFDerivAt (fun x => gatherForCp (mb.logprobs fun _ => x))
      (ContinuousLinearMap.pi fun q : Fin (cp * mb.chunk) =>
        fderiv ℝ (fun x => mb.logprobs (fun _ => x) q.divNat q.modNat) θ) θ := by
    rw [hasFDerivAt_pi]
    intro q
    exact (hasFDerivAt_copies (hlogprobs q.divNat q.modNat)).differentiableAt.hasFDerivAt
  refine (hloss.hasFDerivAt.comp θ hgathered).congr_fderiv ?_
  ext v
  rw [ContinuousLinearMap.comp_apply, functional_eq_sum]
  simp only [sum_apply, smul_apply, smul_eq_mul]
  apply Finset.sum_congr rfl
  intro r _
  apply Finset.sum_congr rfl
  intro s _
  congr 1
  exact gatherForCp_apply (fun r s => fderiv ℝ (fun x => mb.logprobs (fun _ => x) r s) θ v) r s

/-- The ranks of a group together have the gradient of the loss once for each of them. -/
theorem sum_backward (hlogprobs : ∀ r s, DifferentiableAt ℝ (fun copies => mb.logprobs copies r s) fun _ => θ)
    (hloss : DifferentiableAt ℝ mb.lossSum (gatherForCp (mb.logprobs fun _ => θ))) (lossScale : Nat) :
    ∑ r, mb.backward lossScale θ r = ((cp : ℝ) / lossScale) • fderiv ℝ mb.loss θ := by
  have hcomputeLoss : HasFDerivAt (mb.computeLoss lossScale)
      ((lossScale : ℝ)⁻¹ • fderiv ℝ mb.lossSum (gatherForCp (mb.logprobs fun _ => θ)))
        (gatherForCp (mb.logprobs fun _ => θ)) :=
    hloss.hasFDerivAt.mul_const (lossScale : ℝ)⁻¹
  have hcotangent : ∀ r s, gatherForCpBackward
      (fun _ => fderiv ℝ (mb.computeLoss lossScale) (gatherForCp (mb.logprobs fun _ => θ))) r s =
      (cp : ℝ) / lossScale * fderiv ℝ mb.lossSum (gatherForCp (mb.logprobs fun _ => θ))
        (Pi.single (finProdFinEquiv (r, s)) 1) := by
    intro r s
    rw [gatherForCpBackward, hcomputeLoss.fderiv, Finset.sum_const, Finset.card_univ, Fintype.card_fin,
      nsmul_eq_mul, smul_apply,
      smul_eq_mul, ← mul_assoc, div_eq_mul_inv]
  have hterm : ∀ r s, HasFDerivAt (fun x => (cp : ℝ) / lossScale *
      fderiv ℝ mb.lossSum (gatherForCp (mb.logprobs fun _ => θ)) (Pi.single (finProdFinEquiv (r, s)) 1) *
        mb.logprobs (fun _ => x) r s)
      (((cp : ℝ) / lossScale * fderiv ℝ mb.lossSum (gatherForCp (mb.logprobs fun _ => θ))
        (Pi.single (finProdFinEquiv (r, s)) 1)) •
        fderiv ℝ (fun x => mb.logprobs (fun _ => x) r s) θ) θ :=
    fun r s => (hasFDerivAt_copies (hlogprobs r s)).differentiableAt.hasFDerivAt.const_mul _
  simp only [backward, hcotangent]
  rw [sum_fderiv_copy (f := fun copies => ∑ r, ∑ s, (cp : ℝ) / lossScale *
    fderiv ℝ mb.lossSum (gatherForCp (mb.logprobs fun _ => θ)) (Pi.single (finProdFinEquiv (r, s)) 1) *
      mb.logprobs copies r s)
    (DifferentiableAt.fun_sum fun r _ => DifferentiableAt.fun_sum fun s _ => (hlogprobs r s).const_mul _),
    (HasFDerivAt.fun_sum fun r _ => HasFDerivAt.fun_sum fun s _ => hterm r s).fderiv,
      (hasFDerivAt_loss hlogprobs hloss).fderiv]
  simp only [Finset.smul_sum, smul_smul]

omit [NormedAddCommGroup E] [NormedSpace ℝ E] in
theorem loss_of_no_tokens (h : mb.tokens = ∅) : mb.loss = fun _ => 0 := by
  funext θ
  rw [loss, lossSum, h, Finset.sum_empty]

end Rl.MicroBatch

namespace Sft.MicroBatch

variable {cp : Nat} {mb : MicroBatch E cp} {θ : E}

omit [NormedAddCommGroup E] [NormedSpace ℝ E] in
/-- Both kinds of heads return the sum over the trainable tokens of the shard. -/
theorem lossSum_eq (impl : LossImpl) (copies : Fin cp → E) (r : Fin cp) :
    mb.lossSum impl copies r = ∑ s ∈ mb.tokens r, mb.tokenLoss copies r s := by
  unfold lossSum
  split
  · by_cases hempty : mb.tokens r = ∅
    · simp [hempty]
    · have hcard : ((mb.tokens r).card : ℝ) ≠ 0 := by
        rw [Nat.cast_ne_zero, Finset.card_ne_zero]
        exact Finset.nonempty_iff_ne_empty.2 hempty
      exact div_mul_cancel₀ _ hcard
  · rfl

/-- The ranks of a group together have the gradient of the loss once. -/
theorem sum_backward (hloss : ∀ r s, DifferentiableAt ℝ (fun copies => mb.tokenLoss copies r s) fun _ => θ) (impl : LossImpl)
    (gradAccumSteps : Nat) : ∑ r, mb.backward impl gradAccumSteps θ r = (1 / gradAccumSteps : ℝ) • fderiv ℝ mb.loss θ := by
  have hsum : DifferentiableAt ℝ (fun copies => ∑ r, ∑ s ∈ mb.tokens r, mb.tokenLoss copies r s) fun _ => θ :=
    DifferentiableAt.fun_sum fun r _ => DifferentiableAt.fun_sum fun s _ => hloss r s
  have hscaled : DifferentiableAt ℝ (fun copies => ∑ r,
      (∑ s ∈ mb.tokens r, mb.tokenLoss copies r s) / gradAccumSteps) fun _ => θ := by
    simp only [← Finset.sum_div]
    exact hsum.mul_const _
  have hmean : (fun x => ∑ r, (∑ s ∈ mb.tokens r, mb.tokenLoss (fun _ => x) r s) / (gradAccumSteps : ℝ)) =
      fun x => mb.loss x * (gradAccumSteps : ℝ)⁻¹ := by
    funext x
    rw [← Finset.sum_div, div_eq_mul_inv]
    rfl
  have hderiv : HasFDerivAt mb.loss (fderiv ℝ mb.loss θ) θ := (hasFDerivAt_copies hsum).differentiableAt.hasFDerivAt
  simp only [backward, lossSum_eq]
  rw [sum_fderiv_copy hscaled, hmean, (hderiv.mul_const _).fderiv, one_div]

omit [NormedAddCommGroup E] [NormedSpace ℝ E] in
theorem sum_tokenCount : ∑ r, mb.tokenCount r = (Finset.univ.filter fun q => mb.lossMask q).card := by
  rw [Finset.card_filter, sum_shards]
  apply Finset.sum_congr rfl
  intro r _
  rw [tokenCount, tokens, Finset.card_filter]
  rfl

end Sft.MicroBatch

/-! ## The global batch -/

theorem fsdpAverage_rescaled {p : ParallelDims} (hreplicate : 0 < p.dpReplicate) (hshard : 0 < p.dpShard) (hcp : 0 < p.cp)
    (grad : Fin (p.dpReplicate * p.dpShard) → Fin p.cp → ℝ) :
    p.fsdpGradientDivideFactor * fsdpAverage p grad = ∑ dpRank, ∑ cpRank, grad dpRank cpRank := by
  have hne : (p.dpReplicate * p.dpShard * p.cp : ℝ) ≠ 0 := by
    positivity
  rw [fsdpAverage, ParallelDims.fsdpGradientDivideFactor, Nat.cast_mul, Nat.cast_mul, mul_div_cancel₀ _ hne]

theorem list_sum_map_finset_sum {M β ι : Type} [AddCommMonoid M] [Fintype ι] (l : List β) (f : β → ι → M) :
    ∑ i, (l.map fun b => f b i).sum = (l.map fun b => ∑ i, f b i).sum := by
  induction l with
  | nil => simp
  | cons b l ih => simp [Finset.sum_add_distrib, ih]

namespace Rl

variable {p : ParallelDims} {batch : Fin (p.dpReplicate * p.dpShard) → List (MicroBatch E p.cp)} {θ : E}

omit [NormedAddCommGroup E] [NormedSpace ℝ E] in
theorem sum_localLossScale : ∑ dpRank, ∑ _cpRank : Fin p.cp, localLossScale p batch dpRank = p.cp * numTokens p batch := by
  simp only [Finset.sum_const, Finset.card_univ, Fintype.card_fin, smul_eq_mul]
  rw [← Finset.mul_sum]
  rfl

theorem hasFDerivAt_list_sum {β : Type} {l : List β} {f : β → E → ℝ} (h : ∀ b ∈ l, DifferentiableAt ℝ (f b) θ) :
    HasFDerivAt (fun x => (l.map fun b => f b x).sum) (l.map fun b => fderiv ℝ (f b) θ).sum θ := by
  induction l with
  | nil => exact hasFDerivAt_const 0 θ
  | cons b l ih =>
      simp only [List.map_cons, List.sum_cons]
      exact (h b List.mem_cons_self).hasFDerivAt.add (ih fun c hc => h c (List.mem_cons_of_mem b hc))

theorem Differentiable.loss (h : Differentiable batch θ) {dpRank : Fin (p.dpReplicate * p.dpShard)} {mb : MicroBatch E p.cp}
    (hmb : mb ∈ batch dpRank) : DifferentiableAt ℝ mb.loss θ :=
  (MicroBatch.hasFDerivAt_loss (h.logprobs dpRank mb hmb) (h.lossSum dpRank mb hmb)).differentiableAt

theorem Differentiable.hasFDerivAt_globalLoss (h : Differentiable batch θ) :
    HasFDerivAt (globalLoss p batch) (∑ dpRank, ((batch dpRank).map fun mb => fderiv ℝ mb.loss θ).sum) θ :=
  HasFDerivAt.fun_sum fun _ _ => hasFDerivAt_list_sum fun _ hmb => h.loss hmb

theorem list_sum_apply {β : Type} (l : List β) (f : β → E →L[ℝ] ℝ) (v : E) :
    (l.map f).sum v = (l.map fun b => f b v).sum := by
  induction l with
  | nil => rfl
  | cons b l ih => simp [ih]

/-- All ranks together: every loss once for each rank of its group, over the tokens of all ranks. -/
theorem gradient_eq (hreplicate : 0 < p.dpReplicate) (hshard : 0 < p.dpShard) (hcp : 0 < p.cp)
    (h : Differentiable batch θ) (v : E) :
    gradient p batch θ v = (p.cp : ℝ) / lossScale p batch *
      (∑ dpRank, ((batch dpRank).map fun mb => fderiv ℝ mb.loss θ).sum) v := by
  rw [gradient, fsdpAverage_rescaled hreplicate hshard hcp, sum_apply, Finset.mul_sum]
  apply Finset.sum_congr rfl
  intro dpRank _
  rw [list_sum_map_finset_sum, list_sum_apply, ← List.sum_map_mul_left]
  congr 1
  apply List.map_congr_left
  intro mb hmb
  have hsum := MicroBatch.sum_backward (h.logprobs dpRank mb hmb) (h.lossSum dpRank mb hmb) (lossScale p batch)
  rw [← sum_apply, hsum, smul_apply, smul_eq_mul]

omit [NormedAddCommGroup E] [NormedSpace ℝ E] in
theorem tokens_eq_empty (hnone : numTokens p batch = 0) {dpRank : Fin (p.dpReplicate * p.dpShard)} {mb : MicroBatch E p.cp}
    (hmb : mb ∈ batch dpRank) : mb.tokens = ∅ := by
  have hrank := Finset.sum_eq_zero_iff.1 hnone dpRank (Finset.mem_univ dpRank)
  have hcard := List.sum_eq_zero_iff.1 hrank _ (List.mem_map_of_mem hmb)
  exact Finset.card_eq_zero.1 hcard

/-- The RL trainer hands over the gradient of the mean loss. -/
theorem gradient_hasFDerivAt (hreplicate : 0 < p.dpReplicate) (hshard : 0 < p.dpShard) (hcp : 0 < p.cp)
    (h : Differentiable batch θ) :
    ∃ L : E →L[ℝ] ℝ, HasFDerivAt (fun θ => globalLoss p batch θ / numTokens p batch) L θ ∧ gradient p batch θ = L := by
  refine ⟨_, h.hasFDerivAt_globalLoss.mul_const (numTokens p batch : ℝ)⁻¹, ?_⟩
  funext v
  rw [gradient_eq hreplicate hshard hcp h, lossScale, sum_localLossScale, smul_apply, smul_eq_mul]
  rcases Nat.eq_zero_or_pos (numTokens p batch) with hnone | hpos
  · have hzero : ∑ dpRank, ((batch dpRank).map fun mb => fderiv ℝ mb.loss θ).sum = 0 := by
      apply Finset.sum_eq_zero
      intro dpRank _
      apply List.sum_eq_zero
      intro L hL
      obtain ⟨mb, hmb, rfl⟩ := List.mem_map.1 hL
      rw [MicroBatch.loss_of_no_tokens (tokens_eq_empty hnone hmb), fderiv_fun_const]
      rfl
    rw [hzero, zero_apply, mul_zero, mul_zero]
  · have hle : 1 ≤ p.cp * numTokens p batch := Nat.mul_pos hcp hpos
    have hcp' : (p.cp : ℝ) ≠ 0 := Nat.cast_ne_zero.2 hcp.ne'
    rw [max_eq_left hle, Nat.cast_mul, div_mul_eq_div_div, div_self hcp', one_div]

end Rl

namespace Sft

variable {p : ParallelDims} {gradAccumSteps : Nat}
    {batch : Fin (p.dpReplicate * p.dpShard) → Fin gradAccumSteps → MicroBatch E p.cp}
  {θ : E}

omit [NormedAddCommGroup E] [NormedSpace ℝ E] in
theorem globalStepTokenCount_eq : globalStepTokenCount p batch = numTokens p batch := by
  apply Finset.sum_congr rfl
  intro dpRank _
  rw [Finset.sum_comm]
  apply Finset.sum_congr rfl
  intro microStep _
  exact MicroBatch.sum_tokenCount

theorem Differentiable.loss (h : Differentiable batch θ) (dpRank : Fin (p.dpReplicate * p.dpShard))
    (microStep : Fin gradAccumSteps) :
    DifferentiableAt ℝ (batch dpRank microStep).loss θ :=
  DifferentiableAt.fun_sum fun r _ => DifferentiableAt.fun_sum fun s _ =>
    (hasFDerivAt_copies (h dpRank microStep r s)).differentiableAt

theorem Differentiable.hasFDerivAt_globalLoss (h : Differentiable batch θ) :
    HasFDerivAt (globalLoss p batch) (∑ dpRank, ∑ microStep, fderiv ℝ (batch dpRank microStep).loss θ) θ :=
  HasFDerivAt.fun_sum fun dpRank _ => HasFDerivAt.fun_sum fun microStep _ => (h.loss dpRank microStep).hasFDerivAt

theorem sum_backward (h : Differentiable batch θ) (impl : LossImpl) (v : E) :
    ∑ dpRank, ∑ cpRank, ∑ microStep, (batch dpRank microStep).backward impl gradAccumSteps θ cpRank v =
      1 / gradAccumSteps * (∑ dpRank, ∑ microStep, fderiv ℝ (batch dpRank microStep).loss θ) v := by
  rw [sum_apply, Finset.mul_sum]
  apply Finset.sum_congr rfl
  intro dpRank _
  rw [Finset.sum_comm, sum_apply, Finset.mul_sum]
  apply Finset.sum_congr rfl
  intro microStep _
  have hsum := MicroBatch.sum_backward (h dpRank microStep) impl gradAccumSteps
  rw [← sum_apply, hsum, smul_apply, smul_eq_mul]

omit [NormedAddCommGroup E] [NormedSpace ℝ E] in
theorem loss_of_numTokens_eq_zero (hnone : numTokens p batch = 0) (dpRank : Fin (p.dpReplicate * p.dpShard))
    (microStep : Fin gradAccumSteps) : (batch dpRank microStep).loss = fun _ => 0 := by
  have hrank := Finset.sum_eq_zero_iff.1 hnone dpRank (Finset.mem_univ dpRank)
  have hcard := Finset.sum_eq_zero_iff.1 hrank microStep (Finset.mem_univ microStep)
  rw [← MicroBatch.sum_tokenCount] at hcard
  funext θ
  apply Finset.sum_eq_zero
  intro r _
  have hempty := Finset.card_eq_zero.1 (Finset.sum_eq_zero_iff.1 hcard r (Finset.mem_univ r))
  rw [hempty, Finset.sum_empty]

/-- The SFT trainer hands over the gradient of the mean loss. -/
theorem gradient_hasFDerivAt (hreplicate : 0 < p.dpReplicate) (hshard : 0 < p.dpShard) (hcp : 0 < p.cp)
    (h : Differentiable batch θ)
    (impl : LossImpl) :
    ∃ L : E →L[ℝ] ℝ, HasFDerivAt (fun θ => globalLoss p batch θ / numTokens p batch) L θ ∧ gradient p impl batch θ = L := by
  refine ⟨_, h.hasFDerivAt_globalLoss.mul_const (numTokens p batch : ℝ)⁻¹, ?_⟩
  funext v
  rw [gradient, globalStepTokenCount_eq, smul_apply, smul_eq_mul]
  by_cases hpos : 0 < numTokens p batch
  · have hsteps : (gradAccumSteps : ℝ) ≠ 0 := by
      rw [Nat.cast_ne_zero]
      rintro rfl
      simp [numTokens] at hpos
    have hscale : ((p.fsdpGradientDivideFactor * gradAccumSteps : Nat) / (numTokens p batch : ℝ)) =
        gradAccumSteps / numTokens p batch * (p.fsdpGradientDivideFactor : ℝ) := by
      rw [Nat.cast_mul, mul_comm (p.fsdpGradientDivideFactor : ℝ), mul_div_right_comm]
    have hmean : (gradAccumSteps : ℝ) / numTokens p batch * (1 / gradAccumSteps) = (numTokens p batch : ℝ)⁻¹ := by
      rw [div_mul_div_comm, mul_one, mul_comm (numTokens p batch : ℝ), ← div_div, div_self hsteps, one_div]
    rw [if_pos hpos, hscale, mul_assoc, fsdpAverage_rescaled hreplicate hshard hcp, sum_backward h, ← mul_assoc, hmean]
  · have hnone : numTokens p batch = 0 := by omega
    have hzero : ∑ dpRank, ∑ microStep, fderiv ℝ (batch dpRank microStep).loss θ = 0 := by
      apply Finset.sum_eq_zero
      intro dpRank _
      apply Finset.sum_eq_zero
      intro microStep _
      rw [loss_of_numTokens_eq_zero hnone, fderiv_fun_const]
      rfl
    rw [if_neg hpos, fsdpAverage, sum_backward h, hzero, zero_apply, mul_zero, mul_zero, zero_div]

end Sft

/-- **Main.** Whatever the layout and the distribution, both trainers hand the gradient of the mean loss to the optimizer. -/
theorem gradient_isMean {p : ParallelDims} (hreplicate : 0 < p.dpReplicate) (hshard : 0 < p.dpShard)
    (hcp : 0 < p.cp) (θ : E) :
    (∀ batch : Fin (p.dpReplicate * p.dpShard) → List (Rl.MicroBatch E p.cp), Rl.Differentiable batch θ →
      ∃ L : E →L[ℝ] ℝ, HasFDerivAt (fun θ => Rl.globalLoss p batch θ / Rl.numTokens p batch) L θ ∧
      Rl.gradient p batch θ = L) ∧
    ∀ (impl : Sft.LossImpl) (gradAccumSteps : Nat)
      (batch : Fin (p.dpReplicate * p.dpShard) → Fin gradAccumSteps → Sft.MicroBatch E p.cp), Sft.Differentiable batch θ →
      ∃ L : E →L[ℝ] ℝ, HasFDerivAt (fun θ => Sft.globalLoss p batch θ / Sft.numTokens p batch) L θ ∧
      Sft.gradient p impl batch θ = L :=
  ⟨fun _ h => Rl.gradient_hasFDerivAt hreplicate hshard hcp h,
    fun impl _ _ h => Sft.gradient_hasFDerivAt hreplicate hshard hcp h impl⟩

/-- Two context parallel ranks. -/
def twoRanks : ParallelDims := ⟨1, 1, 2, 1, 1, 2⟩

/-- A sequence of two tokens on two ranks, whose logprobs need the parameters of both. -/
noncomputable def rlBatch : Fin (twoRanks.dpReplicate * twoRanks.dpShard) → List (Rl.MicroBatch ℝ twoRanks.cp) := fun _ =>
  [⟨1, fun _ => true, fun copies r _ => (∑ rank, copies rank) * copies r, 0, fun q logprobs => -logprobs q⟩]

/-- The same sequence twice, in two accumulation steps. -/
noncomputable def sftBatch : Fin (twoRanks.dpReplicate * twoRanks.dpShard) → Fin 2 →
    Sft.MicroBatch ℝ twoRanks.cp := fun _ _ =>
  ⟨1, fun q => q.val = 1, fun copies r _ => (∑ rank, copies rank) * copies r⟩

theorem gradient_isMean_example :
    (∃ L : ℝ →L[ℝ] ℝ, HasFDerivAt (fun θ => Rl.globalLoss twoRanks rlBatch θ / Rl.numTokens twoRanks rlBatch) L 3 ∧
      Rl.gradient twoRanks rlBatch 3 = L) ∧
    ∃ L : ℝ →L[ℝ] ℝ, HasFDerivAt (fun θ => Sft.globalLoss twoRanks sftBatch θ / Sft.numTokens twoRanks sftBatch) L 3 ∧
      Sft.gradient twoRanks .ligerFused sftBatch 3 = L := by
  have hmean := gradient_isMean (p := twoRanks) (by decide) (by decide) (by decide) (3 : ℝ)
  refine ⟨hmean.1 rlBatch ⟨?_, ?_⟩, hmean.2 .ligerFused 2 sftBatch ?_⟩
  · intro dpRank mb hmb r s
    obtain rfl := List.mem_singleton.1 hmb
    fun_prop
  · intro dpRank mb hmb
    obtain rfl := List.mem_singleton.1 hmb
    apply DifferentiableAt.fun_sum
    intro q _
    exact (BuiltIn.differentiable_shiftTensorRight q).differentiableAt.neg
  · intro dpRank microStep r s
    unfold sftBatch
    fun_prop

end GradientScale

end AuroraRl.Trainer
