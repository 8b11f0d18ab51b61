import AuroraRl.Trainer.LmHead
import Mathlib

/-!
# The chunked heads compute log softmax and entropy

* `real`, `logits`, `scaledLogits` : the reals, and the logits of each token over the whole vocabulary;
* `VocabInvariant`, `forwardVocabChunk_keeps` : the running sums are those of the vocabulary read so far;
* `forwardTokenChunk_eq` : a chunk of tokens gets its part of the three vectors;
* `chunkedForward_eq` : the vectors do not depend on either chunking.
-/

namespace AuroraRl.Trainer.LmHead
open Chunks LogSumExp

noncomputable def real : Elementary ℝ := ⟨Real.exp, Real.log, Real.tanh⟩

variable {n d vocab k w : Nat}

def logits (hidden : Fin n → Fin d → ℝ) (weight : Fin vocab → Fin d → ℝ) (i : Fin n) (j : Fin vocab) : ℝ :=
  ∑ l, hidden i l * weight j l

/-- The logits as the softmax sees them, over the temperature. -/
def scaledLogits (f : ℝ → ℝ) (hidden : Fin n → Fin d → ℝ) (weight : Fin vocab → Fin d → ℝ) (invTemperature : Fin n → ℝ)
    (i : Fin n) (j : Fin vocab) : ℝ := f (logits hidden weight i j) * invTemperature i

/-! ## The loop over the vocabulary -/

theorem exists_max_amax (m : WithBot ℝ) (x : Fin w → ℝ) (j : Fin w) : ∃ y : ℝ, max m (amax x) = (y : WithBot ℝ) := by
  have hle : (x j : WithBot ℝ) ≤ max m (amax x) :=
    le_max_of_le_right (Finset.le_sup (f := fun j => (x j : WithBot ℝ)) (Finset.mem_univ j))
  have hne : max m (amax x) ≠ ⊥ := by
    intro hbot
    rw [hbot, le_bot_iff] at hle
    exact WithBot.coe_ne_bot hle
  obtain ⟨y, hy⟩ := WithBot.ne_bot_iff_exists.1 hne
  exact ⟨y, hy.symm⟩

/-- One chunk keeps the running sums, whatever the new maximum. -/
theorem onlineUpdate_sums {m : Fin k → WithBot ℝ} {s t : Fin k → ℝ} {total weighted : ℝ} {i : Fin k} (x : Fin k → Fin w → ℝ)
    (j : Fin w) (h : Sums (m i) (s i) (t i) total weighted) :
    Sums ((onlineLogsumexpAndWeightedUpdate real m s t x).1 i) ((onlineLogsumexpAndWeightedUpdate real m s t x).2.1 i)
      ((onlineLogsumexpAndWeightedUpdate real m s t x).2.2 i)
      (total + ∑ j, Real.exp (x i j)) (weighted + ∑ j, Real.exp (x i j) * x i j) := by
  obtain ⟨y, hy⟩ := exists_max_amax (m i) (x i) j
  have hstep := h.step (x i) y
  simp only [onlineLogsumexpAndWeightedUpdate, hy]
  exact hstep

section

variable (f : LogitMap ℝ) (hidden : Fin n → Fin d → ℝ) (weight : Fin vocab → Fin d → ℝ) (labels : Fin n → Fin vocab)
  (invTemperature : Fin n → ℝ)

/-- After the vocabulary up to `v`: the sums over it, and the label's logit once it is in it. -/
structure VocabInvariant (v : Nat) (acc : Accumulators ℝ n) : Prop where
  sums : ∀ i, Sums (acc.m i) (acc.s i) (acc.t i)
    (prefixSum v fun j => Real.exp (scaledLogits f.apply hidden weight invTemperature i j))
    (prefixSum v fun j =>
      Real.exp (scaledLogits f.apply hidden weight invTemperature i j) * scaledLogits f.apply hidden weight
        invTemperature i j)
  target : ∀ i, (labels i).val < v → acc.targetLogits i = scaledLogits f.apply hidden weight invTemperature i (labels i)

theorem VocabInvariant.start :
    VocabInvariant f hidden weight labels invTemperature 0 ⟨fun _ => ⊥, fun _ => 0, fun _ => 0, fun _ => 0⟩ := by
  refine ⟨fun i => ?_, fun i hlt => absurd hlt (Nat.not_lt_zero _)⟩
  rw [prefixSum_zero, prefixSum_zero]
  exact Sums.start

theorem scaledChunk_slice {lo hi : Nat} (h : hi ≤ vocab) (i : Fin n) :
    scaledChunk f hidden (slice lo hi h weight) invTemperature i =
      slice lo hi h (scaledLogits f.apply hidden weight invTemperature i) := rfl

variable {f hidden weight labels invTemperature}

theorem forwardVocabChunk_keeps {vocabChunkSize start : Nat} (hchunk : 0 < vocabChunkSize) (hstart : start < vocab)
    {acc : Accumulators ℝ n} (h : VocabInvariant f hidden weight labels invTemperature start acc) :
    VocabInvariant f hidden weight labels invTemperature (min (start + vocabChunkSize) vocab)
      (forwardVocabChunk real f weight vocabChunkSize hidden labels invTemperature acc start) := by
  have hle : start ≤ min (start + vocabChunkSize) vocab := by omega
  constructor
  · intro i
    have hfirst : 0 < min (start + vocabChunkSize) vocab - start := by omega
    have hupdate := onlineUpdate_sums (scaledChunk f hidden
      (slice start (min (start + vocabChunkSize) vocab) (end_le start vocabChunkSize) weight) invTemperature)
      ⟨0, hfirst⟩ (h.sums i)
    rw [prefixSum_slice hle (end_le start vocabChunkSize), prefixSum_slice hle (end_le start vocabChunkSize)]
    exact hupdate
  · intro i hlt
    by_cases hmask : start ≤ (labels i).val ∧ (labels i).val < min (start + vocabChunkSize) vocab
    · simp only [forwardVocabChunk, dif_pos hmask]
      rw [scaledChunk_slice, slice_sub _ _ hmask]
    · simp only [forwardVocabChunk, dif_neg hmask]
      apply h.target i
      omega

theorem forwardVocab_invariant {vocabChunkSize : Nat} (hchunk : 0 < vocabChunkSize) :
    VocabInvariant f hidden weight labels invTemperature vocab ((starts vocab vocabChunkSize).foldl
      (forwardVocabChunk real f weight vocabChunkSize hidden labels invTemperature)
      ⟨fun _ => ⊥, fun _ => 0, fun _ => 0, fun _ => 0⟩) := by
  apply foldl_starts hchunk _ (VocabInvariant f hidden weight labels invTemperature)
  · exact VocabInvariant.start f hidden weight labels invTemperature
  · intro start acc hstart hinv
    exact forwardVocabChunk_keeps hchunk hstart hinv

variable (f hidden weight labels invTemperature) in
/-- What `forward` is for: the log-probability of each label, the entropy and the normaliser. -/
noncomputable def exactOutputs : Outputs ℝ n where
  logprobs := fun i => Real.log (softmax (scaledLogits f.apply hidden weight invTemperature i) (labels i))
  entropy := fun i => entropy (scaledLogits f.apply hidden weight invTemperature i)
  logz := fun i => logSumExp (scaledLogits f.apply hidden weight invTemperature i)

theorem VocabInvariant.outputs {acc : Accumulators ℝ n} (h : VocabInvariant f hidden weight labels invTemperature vocab acc) :
    acc.outputs real = exactOutputs f hidden weight labels invTemperature := by
  have hlogz : ∀ i, (acc.m i).unbotD 0 + real.log (acc.s i) =
      logSumExp (scaledLogits f.apply hidden weight invTemperature i) := by
    intro i
    have hsums := h.sums i
    rw [prefixSum_all, prefixSum_all] at hsums
    exact hsums.log (sum_exp_pos _ (labels i))
  simp only [Accumulators.outputs, exactOutputs, Outputs.mk.injEq, hlogz]
  refine ⟨?_, ?_, trivial⟩
  · funext i
    rw [h.target i (labels i).isLt, log_softmax]
  · funext i
    have hsums := h.sums i
    rw [prefixSum_all, prefixSum_all] at hsums
    rw [hsums.div (sum_exp_pos _ (labels i)), entropy_eq _ (labels i)]

theorem forwardTokens_eq {vocabChunkSize : Nat} (hchunk : 0 < vocabChunkSize) :
    forwardTokens real f weight vocabChunkSize hidden labels invTemperature =
      exactOutputs f hidden weight labels invTemperature :=
  (forwardVocab_invariant hchunk).outputs

/-! ## The loop over the tokens -/

/-- The vectors are `exact`'s before `v`. -/
structure Outputs.AgreeBelow (v : Nat) (out exact : Outputs ℝ n) : Prop where
  logprobs : ∀ i : Fin n, i.val < v → out.logprobs i = exact.logprobs i
  entropy : ∀ i : Fin n, i.val < v → out.entropy i = exact.entropy i
  logz : ∀ i : Fin n, i.val < v → out.logz i = exact.logz i

theorem Outputs.AgreeBelow.eq {out exact : Outputs ℝ n} (h : out.AgreeBelow n exact) : out = exact := by
  cases out
  cases exact
  simp only [Outputs.mk.injEq]
  exact ⟨funext fun i => h.logprobs i i.isLt, funext fun i => h.entropy i i.isLt, funext fun i => h.logz i i.isLt⟩

/-- A vector that is another's before `lo` is so before `hi`, once that part is written. -/
theorem assign_agree {lo hi : Nat} (h : hi ≤ n) {x y : Fin n → ℝ} (hbefore : ∀ i : Fin n, i.val < lo → x i = y i) :
    ∀ i : Fin n, i.val < hi → assign lo hi (slice lo hi h y) x i = y i := by
  intro i hlt
  by_cases hmem : lo ≤ i.val ∧ i.val < hi
  · exact assign_slice h x y hmem
  · rw [assign_of_not_mem hmem]
    apply hbefore
    omega

theorem forwardTokenChunk_keeps {chunkSize vocabChunkSize start : Nat} (hchunk : 0 < vocabChunkSize) {out : Outputs ℝ n}
    (h : out.AgreeBelow start (exactOutputs f hidden weight labels invTemperature)) :
    (forwardTokenChunk real f hidden weight labels invTemperature chunkSize vocabChunkSize out start).AgreeBelow
      (min (start + chunkSize) n) (exactOutputs f hidden weight labels invTemperature) := by
  simp only [forwardTokenChunk, forwardTokens_eq hchunk]
  have hle := end_le (n := n) start chunkSize
  exact ⟨assign_agree hle h.logprobs, assign_agree hle h.entropy, assign_agree hle h.logz⟩

theorem forwardTokenChunks_eq {chunkSize vocabChunkSize : Nat} (hchunk : 0 < chunkSize)
    (hvocab : 0 < vocab → 0 < vocabChunkSize)
    (empty : Outputs ℝ n) :
    (starts n chunkSize).foldl (forwardTokenChunk real f hidden weight labels invTemperature chunkSize vocabChunkSize) empty =
      exactOutputs f hidden weight labels invTemperature := by
  have hagree := foldl_starts hchunk
    (forwardTokenChunk real f hidden weight labels invTemperature chunkSize vocabChunkSize)
    (fun v out => out.AgreeBelow v (exactOutputs f hidden weight labels invTemperature)) empty
    ⟨fun i h => absurd h (Nat.not_lt_zero _), fun i h => absurd h (Nat.not_lt_zero _),
      fun i h => absurd h (Nat.not_lt_zero _)⟩
    (fun start out hstart h => forwardTokenChunk_keeps (hvocab (Fin.pos (labels ⟨start, hstart⟩))) h)
  exact hagree.eq

/-- **Main.** Whatever the chunking of tokens and of the vocabulary. -/
theorem chunkedForward_eq {chunkSize vocabChunkSize : Nat} (hchunk : 0 < chunkSize) (hvocab : 0 < vocab → 0 < vocabChunkSize)
    (empty : Outputs ℝ n) :
    chunkedForward real f vocabChunkSize hidden weight labels invTemperature chunkSize empty =
      .ok ((exactOutputs f hidden weight labels invTemperature).logprobs,
        (exactOutputs f hidden weight labels invTemperature).entropy,
        ⟨hidden, weight, labels, invTemperature, (exactOutputs f hidden weight labels invTemperature).logz, chunkSize⟩) := by
  rw [chunkedForward, pyAssert, if_pos hchunk, forwardTokenChunks_eq hchunk hvocab]
  rfl

end

end AuroraRl.Trainer.LmHead
