import AuroraRl.Lib.Chunks
import AuroraRl.Lib.LogSumExp
import AuroraRl.Lib.Python
import Mathlib

/-!
# The chunked log-probability heads

* `Elementary`, `matmul` : the tensor operations, over any ordered field; the types carry the shapes `forward` asserts;
* `onlineLogsumexpAndWeightedUpdate` : the running maximum and sums over one chunk of the vocabulary;
* `chunkedForward`, `chunkedBackward` : the two loops, over tokens and over the vocabulary;
* `SequenceChunkedLogProbEntropyFn`, `GemmaChunkedLogProbEntropyFn` : the two heads.
-/

namespace AuroraRl.Trainer.LmHead
open Chunks LogSumExp

/-- `torch.exp`, `torch.log` and `torch.tanh` of finite numbers. -/
structure Elementary (R : Type) where
  exp : R → R
  log : R → R
  tanh : R → R

section

variable {R : Type} [Field R] [LinearOrder R] (torch : Elementary R) {n d vocab k w : Nat}

def matmul {p q r : Nat} (a : Fin p → Fin q → R) (b : Fin q → Fin r → R) : Fin p → Fin r → R := fun i j => ∑ l, a i l * b l j

def transpose {p q : Nat} (a : Fin p → Fin q → R) : Fin q → Fin p → R := fun j i => a i j

def amax (x : Fin w → R) : WithBot R := Finset.univ.sup fun j => (x j : WithBot R)

def onlineLogsumexpAndWeightedUpdate (m : Fin k → WithBot R) (s t : Fin k → R) (chunkLogits : Fin k → Fin w → R) :
    (Fin k → WithBot R) × (Fin k → R) × (Fin k → R) :=
  let chunkM := fun i => amax (chunkLogits i)
  let mNew := fun i => max (m i) (chunkM i)
  let expOld := fun i => expSub torch.exp (m i) (mNew i)
  let chunkExp := fun i j => expSub torch.exp (chunkLogits i j : WithBot R) (mNew i)
  let sNew := fun i => s i * expOld i + ∑ j, chunkExp i j
  let tNew := fun i => t i * expOld i + ∑ j, chunkExp i j * chunkLogits i j
  (mNew, sNew, tNew)

/-- What a head does to a logit before the temperature, and to a gradient on the way back. -/
structure LogitMap (R : Type) where
  apply : R → R
  pull : R → R → R

/-- What `forward` keeps for `backward` in `ctx`. -/
structure Context (R : Type) (n d vocab : Nat) where
  hidden : Fin n → Fin d → R
  weight : Fin vocab → Fin d → R
  labels : Fin n → Fin vocab
  invTemperature : Fin n → R
  logz : Fin n → R
  chunkSize : Nat

/-- The three vectors `forward` fills. -/
structure Outputs (R : Type) (n : Nat) where
  logprobs : Fin n → R
  entropy : Fin n → R
  logz : Fin n → R

/-- The state of the loop over the vocabulary, for the tokens of one chunk. -/
structure Accumulators (R : Type) (k : Nat) where
  m : Fin k → WithBot R
  s : Fin k → R
  t : Fin k → R
  targetLogits : Fin k → R

/-- The two tensors `backward` accumulates. -/
structure Gradients (R : Type) (n d vocab : Nat) where
  gradHidden : Fin n → Fin d → R
  gradWeight : Fin vocab → Fin d → R

/-- `scaled_logits` of a chunk of tokens on a chunk of the vocabulary. -/
def scaledChunk (f : LogitMap R) (hiddenChunk : Fin k → Fin d → R) (weightChunk : Fin w → Fin d → R) (invTChunk : Fin k → R) :
    Fin k → Fin w → R :=
  let logitsChunk := matmul hiddenChunk (transpose weightChunk)
  fun i j => f.apply (logitsChunk i j) * invTChunk i

theorem end_le (start size : Nat) : min (start + size) n ≤ n := Nat.min_le_right _ _

/-- One chunk of the vocabulary in `forward`; the scattered write
`target_logits[mask] = scaled_logits[mask, idx]` entry by entry. -/
def forwardVocabChunk (f : LogitMap R) (weight : Fin vocab → Fin d → R) (vocabChunkSize : Nat)
    (hiddenChunk : Fin k → Fin d → R) (labelsChunk : Fin k → Fin vocab) (invTChunk : Fin k → R)
    (acc : Accumulators R k) (vocabStart : Nat) : Accumulators R k :=
  let vocabEnd := min (vocabStart + vocabChunkSize) vocab
  let weightChunk := slice vocabStart vocabEnd (end_le vocabStart vocabChunkSize) weight
  let scaledLogits := scaledChunk f hiddenChunk weightChunk invTChunk
  let updated := onlineLogsumexpAndWeightedUpdate torch acc.m acc.s acc.t scaledLogits
  let targetLogits := fun i =>
    if mask : vocabStart ≤ (labelsChunk i).val ∧ (labelsChunk i).val < vocabEnd
    then scaledLogits i ⟨labelsChunk i - vocabStart, sub_lt_of_mem mask⟩ else acc.targetLogits i
  ⟨updated.1, updated.2.1, updated.2.2, targetLogits⟩

/-- The outputs of a chunk of tokens from its accumulators; no vocabulary is empty where there is a token. -/
def Accumulators.outputs (acc : Accumulators R k) : Outputs R k :=
  let logzChunk := fun i => (acc.m i).unbotD 0 + torch.log (acc.s i)
  { logz := logzChunk
    logprobs := fun i => acc.targetLogits i - logzChunk i
    entropy := fun i => logzChunk i - acc.t i / acc.s i }

/-- The outputs of a chunk of tokens, by the loop over the vocabulary. -/
def forwardTokens (f : LogitMap R) (weight : Fin vocab → Fin d → R) (vocabChunkSize : Nat)
    (hiddenChunk : Fin k → Fin d → R) (labelsChunk : Fin k → Fin vocab) (invTChunk : Fin k → R) : Outputs R k :=
  let acc := (starts vocab vocabChunkSize).foldl
    (forwardVocabChunk torch f weight vocabChunkSize hiddenChunk labelsChunk invTChunk)
    ⟨fun _ => ⊥, fun _ => 0, fun _ => 0, fun _ => 0⟩
  acc.outputs torch

/-- One chunk of tokens in `forward`. -/
def forwardTokenChunk (f : LogitMap R) (hidden : Fin n → Fin d → R) (weight : Fin vocab → Fin d → R)
    (labels : Fin n → Fin vocab)
    (invTemperature : Fin n → R) (chunkSize vocabChunkSize : Nat) (out : Outputs R n) (start : Nat) : Outputs R n :=
  let stop := min (start + chunkSize) n
  let chunk := forwardTokens torch f weight vocabChunkSize (slice start stop (end_le start chunkSize) hidden)
    (slice start stop (end_le start chunkSize) labels) (slice start stop (end_le start chunkSize) invTemperature)
  { logz := assign start stop chunk.logz out.logz
    logprobs := assign start stop chunk.logprobs out.logprobs
    entropy := assign start stop chunk.entropy out.entropy }

/-- `forward` by chunks of tokens and of the vocabulary, into uninitialised vectors. -/
def chunkedForward (f : LogitMap R) (vocabChunkSize : Nat) (hidden : Fin n → Fin d → R) (weight : Fin vocab → Fin d → R)
    (labels : Fin n → Fin vocab) (invTemperature : Fin n → R) (chunkSize : Nat) (empty : Outputs R n) :
    Except PyException ((Fin n → R) × (Fin n → R) × Context R n d vocab) := do
  pyAssert (0 < chunkSize) ""
  let out := (starts n chunkSize).foldl
    (forwardTokenChunk torch f hidden weight labels invTemperature chunkSize vocabChunkSize) empty
  return (out.logprobs, out.entropy, ⟨hidden, weight, labels, invTemperature, out.logz, chunkSize⟩)

/-- `grad_logits` of a chunk of tokens on a chunk of the vocabulary;
`grad_logits[mask, idx] += grad_chunk[mask]` entry by entry. -/
def gradLogitsChunk (f : LogitMap R) (vocabStart vocabEnd : Nat) (hiddenChunk : Fin k → Fin d → R)
    (weightChunk : Fin (vocabEnd - vocabStart) → Fin d → R) (labelsChunk : Fin k → Fin vocab)
    (gradChunk invTChunk logzChunk : Fin k → R) :
    Fin k → Fin (vocabEnd - vocabStart) → R :=
  let logitsChunk := matmul hiddenChunk (transpose weightChunk)
  let scaledLogits := scaledChunk f hiddenChunk weightChunk invTChunk
  let probs := fun i j => torch.exp (scaledLogits i j - logzChunk i)
  let gradLogits := fun i j => -gradChunk i * probs i j
  let gradLogits := fun i (j : Fin (vocabEnd - vocabStart)) =>
    if vocabStart ≤ (labelsChunk i).val ∧ (labelsChunk i).val < vocabEnd ∧ j.val = labelsChunk i - vocabStart
    then gradLogits i j + gradChunk i else gradLogits i j
  fun i j => f.pull (logitsChunk i j) (gradLogits i j * invTChunk i)

/-- One chunk of the vocabulary in `backward`, for the tokens from `start` to `stop`. -/
def backwardVocabChunk (f : LogitMap R) (ctx : Context R n d vocab) (gradLogprobs : Fin n → R)
    (vocabChunkSize start stop : Nat)
    (hstop : stop ≤ n) (grads : Gradients R n d vocab) (vocabStart : Nat) : Gradients R n d vocab :=
  let vocabEnd := min (vocabStart + vocabChunkSize) vocab
  let hiddenChunk := slice start stop hstop ctx.hidden
  let weightChunk := slice vocabStart vocabEnd (end_le vocabStart vocabChunkSize) ctx.weight
  let gradLogits := gradLogitsChunk torch f vocabStart vocabEnd hiddenChunk weightChunk (slice start stop hstop ctx.labels)
    (slice start stop hstop gradLogprobs) (slice start stop hstop ctx.invTemperature) (slice start stop hstop ctx.logz)
  { gradHidden := addTo start stop (matmul gradLogits weightChunk) grads.gradHidden
    gradWeight := addTo vocabStart vocabEnd (matmul (transpose gradLogits) hiddenChunk) grads.gradWeight }

/-- One chunk of tokens in `backward`. -/
def backwardTokenChunk (f : LogitMap R) (ctx : Context R n d vocab) (gradLogprobs : Fin n → R) (vocabChunkSize : Nat)
    (grads : Gradients R n d vocab) (start : Nat) : Gradients R n d vocab :=
  let stop := min (start + ctx.chunkSize) n
  (starts vocab vocabChunkSize).foldl
    (backwardVocabChunk torch f ctx gradLogprobs vocabChunkSize start stop (end_le start ctx.chunkSize)) grads

/-- `backward` by the chunks of `forward`; `name` is the module its assertion names. -/
def chunkedBackward (name : String) (f : LogitMap R) (vocabChunkSize : Nat) (ctx : Context R n d vocab)
    (gradLogprobs : Fin n → R)
    (gradEntropy : Option (Fin n → R)) : Except PyException (Gradients R n d vocab) := do
  pyAssert (∀ g ∈ gradEntropy, ∀ i, g i = 0) ("Backward through entropy is not implemented in " ++ name)
  return (starts n ctx.chunkSize).foldl (backwardTokenChunk torch f ctx gradLogprobs vocabChunkSize)
    ⟨fun _ _ => 0, fun _ _ => 0⟩

/-! ## The two heads -/

/-- The plain head leaves the logits as they are. -/
def plainLogits : LogitMap R := ⟨fun z => z, fun _ g => g⟩

/-- Gemma's head caps the logits softly. -/
def cappedLogits (softcap : R) : LogitMap R :=
  ⟨fun z => softcap * torch.tanh (z / softcap), fun z g => g * (1 - torch.tanh (z / softcap) ^ 2)⟩

namespace SequenceChunkedLogProbEntropyFn

def forward (hidden : Fin n → Fin d → R) (weight : Fin vocab → Fin d → R) (labels : Fin n → Fin vocab)
    (invTemperature : Fin n → R)
    (chunkSize : Nat) (empty : Outputs R n) : Except PyException ((Fin n → R) × (Fin n → R) × Context R n d vocab) :=
  chunkedForward torch plainLogits (min vocab 8192) hidden weight labels invTemperature chunkSize empty

def backward (ctx : Context R n d vocab) (gradLogprobs : Fin n → R) (gradEntropy : Option (Fin n → R)) :
    Except PyException (Gradients R n d vocab) :=
  chunkedBackward torch "FusedOutputLinear" plainLogits (min vocab 8192) ctx gradLogprobs gradEntropy

end SequenceChunkedLogProbEntropyFn

namespace GemmaChunkedLogProbEntropyFn

/-- `_GemmaChunkedLogProbEntropyFn.forward`; its `ctx` keeps `softcap` too. -/
def forward (hidden : Fin n → Fin d → R) (weight : Fin vocab → Fin d → R) (labels : Fin n → Fin vocab)
    (invTemperature : Fin n → R)
    (chunkSize : Nat) (softcap : R) (empty : Outputs R n) :
    Except PyException ((Fin n → R) × (Fin n → R) × Context R n d vocab × R) := do
  let (logprobs, entropy, ctx) ←
    chunkedForward torch (cappedLogits torch softcap) (min vocab 8192) hidden weight labels invTemperature chunkSize empty
  return (logprobs, entropy, ctx, softcap)

def backward (ctx : Context R n d vocab × R) (gradLogprobs : Fin n → R) (gradEntropy : Option (Fin n → R)) :
    Except PyException (Gradients R n d vocab) :=
  chunkedBackward torch "GemmaFusedOutputLinear" (cappedLogits torch ctx.2) (min vocab 8192) ctx.1 gradLogprobs gradEntropy

end GemmaChunkedLogProbEntropyFn

end

end AuroraRl.Trainer.LmHead
