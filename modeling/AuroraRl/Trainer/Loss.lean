import AuroraRl.Trainer.Batch
import Mathlib

/-!
# The built-in losses

* `Token`, `LossInputs.tokens` : the tensors of a sequence, position by position;
* `defaultLossFn`, `opdLossFn`, `sftLossFn`, `setupLossFns` : the loss functions and their metrics;
* `tokenLoss` : what a token adds to the loss of its mode;
* `computeLoss` : the loss of the sequences of a micro batch;
* `getResponseLengths`, `split`, `microBatchLoss` : how the trainer cuts a micro batch into sequences.

`R` stands for the numbers, with `exp` for `torch.exp`.
-/

namespace AuroraRl.Trainer

variable {R : Type}

/-! ## Tensors of a sequence -/

structure LossInputs (R : Type) where
  trainerLogprobs : List R
  inferenceLogprobs : List R
  teacherLogprobs : Option (List R)
  advantages : List R
  lossMask : List Bool

structure LossOutputs (R : Type) where
  loss : R
  metrics : Dict String R

/-- One position of the tensors. -/
structure Token (R : Type) where
  trainerLogprob : R
  inferenceLogprob : R
  teacherLogprob : Option R
  advantage : R
  lossMask : Bool

def zipTokens (trainer inference : List R) (teacher : List (Option R)) (advantages : List R) (lossMask : List Bool) :
    List (Token R) :=
  List.zipWith (fun x y => ⟨x.1, x.2, y.1, y.2.1, y.2.2⟩) (trainer.zip inference) (teacher.zip (advantages.zip lossMask))

/-- A list that may be missing, as one of missing entries. -/
def orNone {α : Type} (l : Option (List α)) (n : Nat) : List (Option α) :=
  match l with
  | none => List.replicate n none
  | some l => l.map some

def LossInputs.tokens (x : LossInputs R) : List (Token R) :=
  zipTokens x.trainerLogprobs x.inferenceLogprobs (orNone x.teacherLogprobs x.trainerLogprobs.length) x.advantages
    x.lossMask

variable [Field R] [LinearOrder R]

/-- A boolean tensor in a product. -/
def ofBool (b : Bool) : R := if b then 1 else 0

omit [LinearOrder R] in
def safeMean (values : Token R → R) (mask : Token R → Bool) (tokens : List (Token R)) : R :=
  ((tokens.filter mask).map values).sum / (max (tokens.filter mask).length 1 : Nat)

/-! ## Loss functions -/

structure DefaultLossConfig (R : Type) where
  dppoMaskLow : R
  dppoMaskHigh : R
  advTau : R
  klTau : R

namespace Token

variable (exp : R → R) (low high : R) (x : Token R)

omit [LinearOrder R] in
def logImportanceRatio : R := x.trainerLogprob - x.inferenceLogprob

omit [LinearOrder R] in
def importanceRatio : R := exp x.logImportanceRatio

omit [LinearOrder R] in
def mismatchKl : R := x.importanceRatio exp - x.logImportanceRatio - 1

omit [LinearOrder R] in
def probsDiff : R := exp x.trainerLogprob - exp x.inferenceLogprob

def maskHigh : Bool := decide (high < x.probsDiff exp)

def maskLow : Bool := decide (x.probsDiff exp < -low)

def positive : Bool := decide (0 < x.advantage)

def negative : Bool := decide (x.advantage < 0)

/-- `torch.where(positive_advantages, dppo_invalid_mask_high, dppo_invalid_mask_low)`. -/
def isMasked : Bool := if x.positive then x.maskHigh exp high else x.maskLow exp low

def dropMask : Bool := x.lossMask && x.isMasked exp low high

def keepMask : Bool := x.lossMask && !x.isMasked exp low high

/-- `-pg_loss + kl_tau * kl_loss` for an advantage `a`. -/
def dppoLoss (klTau a : R) : R :=
  -(ofBool (x.keepMask exp low high) * a * x.importanceRatio exp) +
    klTau * (ofBool x.lossMask * x.logImportanceRatio ^ 2)

omit [LinearOrder R] in
def teacherKl : R := x.teacherLogprob.getD 0 - x.trainerLogprob

end Token

/-- The metrics of the DPPO losses. -/
def dppoMetrics (exp : R → R) (low high : R) (tokens : List (Token R)) : Dict String R :=
  .ofList [("masked_mismatch_kl", safeMean (·.mismatchKl exp) (·.dropMask exp low high) tokens),
    ("unmasked_mismatch_kl", safeMean (·.mismatchKl exp) (·.keepMask exp low high) tokens),
    ("is_masked", safeMean (fun x => ofBool (x.isMasked exp low high)) (·.lossMask) tokens),
    ("is_masked_low", safeMean (fun x => ofBool (x.negative && x.maskLow exp low)) (·.lossMask) tokens),
    ("is_masked_high", safeMean (fun x => ofBool (x.positive && x.maskHigh exp high)) (·.lossMask) tokens),
    ("masked_advantage_positive", safeMean (fun x => ofBool x.positive) (·.dropMask exp low high) tokens),
    ("masked_advantage_negative", safeMean (fun x => ofBool x.negative) (·.dropMask exp low high) tokens)]

def defaultLossFn (exp : R → R) (config : DefaultLossConfig R) (inputs : LossInputs R) :
    Except PyException (LossOutputs R) :=
  let low := config.dppoMaskLow
  let high := config.dppoMaskHigh
  .ok ⟨(inputs.tokens.map fun x => x.dppoLoss exp low high config.klTau (config.advTau * x.advantage)).sum,
    dppoMetrics exp low high inputs.tokens⟩

def opdLossFn (exp : R → R) (inputs : LossInputs R) : Except PyException (LossOutputs R) :=
  match inputs.teacherLogprobs with
  | none => raiseValueError "opd_loss_fn requires teacher_logprobs - configure a teacher for opd mode."
  | some _ =>
      let low := 1 / 5
      let high := 1 / 5
      .ok ⟨(inputs.tokens.map fun x => x.dppoLoss exp low high (1 / 1000) (0 * x.advantage + 1 * x.teacherKl)).sum,
        (dppoMetrics exp low high inputs.tokens).insert "teacher_kl" (safeMean (·.teacherKl) (·.lossMask) inputs.tokens)⟩

omit [LinearOrder R] in
def sftLossFn (inputs : LossInputs R) : Except PyException (LossOutputs R) :=
  .ok ⟨-((inputs.tokens.filter (·.lossMask)).map (·.trainerLogprob)).sum,
    .ofList [("nll", safeMean (-·.trainerLogprob) (·.lossMask) inputs.tokens)]⟩

/-- `setup_loss_fns` for the default loss. -/
def setupLossFns (exp : R → R) (config : DefaultLossConfig R) :
    TrainingMode → LossInputs R → Except PyException (LossOutputs R)
  | .sft => sftLossFn
  | .opd => opdLossFn exp
  | .rl => defaultLossFn exp config

/-- What a token adds to the loss of its mode. -/
def tokenLoss (exp : R → R) (config : DefaultLossConfig R) : TrainingMode → Token R → R
  | .sft, x => if x.lossMask then -x.trainerLogprob else 0
  | .opd, x => x.dppoLoss exp (1 / 5) (1 / 5) (1 / 1000) (0 * x.advantage + 1 * x.teacherKl)
  | .rl, x => x.dppoLoss exp config.dppoMaskLow config.dppoMaskHigh config.klTau (config.advTau * x.advantage)

/-! ## `compute_loss` -/

omit [Field R] [LinearOrder R] in
/-- The sequences of the lists, a missing list of teacher logprobs being missing in each. -/
def zipInputs (trainer inference : List (List R)) (teacher : Option (List (List R))) (advantages : List (List R))
    (lossMask : List (List Bool)) : List (LossInputs R) :=
  List.zipWith (fun x y => ⟨x.1, x.2, y.1, y.2.1, y.2.2⟩) (trainer.zip inference)
    ((orNone teacher trainer.length).zip (advantages.zip lossMask))

omit [LinearOrder R] in
/-- One turn of the loop: the loss is added and every metric appended. -/
def lossStep (lossFn : LossInputs R → Except PyException (LossOutputs R)) (acc : R × Dict String (List R))
    (x : LossInputs R) : Except PyException (R × Dict String (List R)) := do
  let result ← lossFn x
  return (acc.1 + result.loss, acc.2.appendAll result.metrics.entries)

omit [LinearOrder R] in
def computeLoss (lossFns : TrainingMode → LossInputs R → Except PyException (LossOutputs R)) (lossScale : Nat)
    (trainingMode : TrainingMode) (inputs : List (LossInputs R)) : Except PyException (R × Dict String (List R)) := do
  let acc ← inputs.foldlM (lossStep (lossFns trainingMode)) (0, ∅)
  return (acc.1 / lossScale, acc.2)

/-! ## Sequences of a micro batch -/

/-- Where a sequence starts: at a `0` after another number, if a `1` follows. -/
def isBoundary (positionIds : List Nat) (i : Nat) : Bool :=
  decide (positionIds[i]? = some 0 ∧ positionIds[i - 1]? ≠ some 0 ∧ positionIds[i + 1]? = some 1)

/-- From every boundary to the next, or to the end. -/
def lengthsOf : List Nat → Nat → List Nat
  | [], _ => []
  | [start], n => [n - start]
  | start :: next :: rest, n => (next - start) :: lengthsOf (next :: rest) n

def getResponseLengths (positionIds : List Nat) : List Nat :=
  let boundaries := 0 :: (List.range' 1 (positionIds.length - 1)).filter (isBoundary positionIds)
  lengthsOf boundaries positionIds.length

/-- `t.squeeze().split(sizes)` of a tensor of shape `[1, n]`: with one element nothing is left to split. -/
def split {α : Type} (l : List α) (sizes : List Nat) : Except PyException (List (List α)) :=
  if l.length = 1 then .error ⟨.runtimeError, "split expects at least a 1-dimensional tensor"⟩
  else if sizes.sum ≠ l.length then
    .error ⟨.runtimeError,
      s!"split_with_sizes expects split_sizes to sum exactly to {l.length} (input tensor's size at dimension 0), " ++
        s!"but got split_sizes={sizes}"⟩
  else .ok (sizes.splitLengths l)

/-- `torch.tensor` of a list with `None` fails. -/
def toTensor (l : List (Option R)) : Except PyException (List R) :=
  l.mapM fun
    | some a => .ok a
    | none => .error ⟨.typeError, "must be real number, not NoneType"⟩

def splitOptional (l : Option (List R)) (sizes : List Nat) : Except PyException (Option (List (List R))) :=
  match l with
  | none => .ok none
  | some l => (split l sizes).map some

/-- The loss the trainer computes on a micro batch from its trainer logprobs. -/
def microBatchLoss (exp : R → R) (config : DefaultLossConfig R) (lossScale : Nat) (mb : MicroBatch R) (logprobs : List R) :
    Except PyException (R × Dict String (List R)) := do
  let advantages ← toTensor mb.advantages
  let responseLengths := getResponseLengths mb.positionIds
  let inputs := zipInputs (← split logprobs responseLengths) (← split mb.inferenceLogprobs responseLengths)
    (← splitOptional mb.teacherLogprobs responseLengths) (← split advantages responseLengths)
    (← split mb.lossMask responseLengths)
  computeLoss (setupLossFns exp config) lossScale mb.trainingMode inputs

end AuroraRl.Trainer
