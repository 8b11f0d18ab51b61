import Mathlib

/-!
# Softmax, its entropy and its derivative; log-sum-exp online

* `softmax`, `logSumExp`, `entropy` : over a finite set of logits;
* `log_softmax`, `entropy_eq` : both from the two sums `∑ exp x` and `∑ exp x * x`;
* `expSub`, `Sums` : the two sums scaled down by a running maximum, which begins at minus infinity;
* `Sums.step`, `Sums.logSumExp`, `Sums.div` : one more block, and what the sums give at the end;
* `hasFDerivAt_log_softmax` : the derivative of a log-probability.
-/

namespace LogSumExp

/-! ## Exponentials under a running maximum -/

/-- `exp(x - y)`, where minus infinity has exponential `0`. -/
def expSub {R : Type} [Sub R] [Zero R] (exp : R → R) : WithBot R → WithBot R → R
  | some x, some y => exp (x - y)
  | _, _ => 0

@[simp] theorem expSub_coe (x y : ℝ) : expSub Real.exp (x : WithBot ℝ) (y : WithBot ℝ) = Real.exp (x - y) := rfl

@[simp] theorem expSub_bot (y : WithBot ℝ) : expSub Real.exp ⊥ y = 0 := by
  cases y <;> rfl

theorem expSub_mul (m : WithBot ℝ) (y z : ℝ) :
    expSub Real.exp m (y : WithBot ℝ) * Real.exp (y - z) = expSub Real.exp m (z : WithBot ℝ) := by
  induction m with
  | bot => simp
  | coe x =>
      rw [expSub_coe, expSub_coe, ← Real.exp_add]
      congr 1
      ring

/-- The running sums `s` and `t` are `total` and `weighted`, scaled down by the exponential of `m`. -/
structure Sums (m : WithBot ℝ) (s t total weighted : ℝ) : Prop where
  total : s * expSub Real.exp m ((0 : ℝ) : WithBot ℝ) = total
  weighted : t * expSub Real.exp m ((0 : ℝ) : WithBot ℝ) = weighted

theorem Sums.start : Sums ⊥ 0 0 0 0 := ⟨zero_mul _, zero_mul _⟩

variable {ι : Type} [Fintype ι]

theorem sum_expSub_mul (x w : ι → ℝ) (y : ℝ) :
    (∑ j, expSub Real.exp (x j : WithBot ℝ) (y : WithBot ℝ) * w j) * expSub Real.exp (y : WithBot ℝ) ((0 : ℝ) : WithBot ℝ) =
      ∑ j, Real.exp (x j) * w j := by
  rw [Finset.sum_mul]
  apply Finset.sum_congr rfl
  intro j _
  have hscale := expSub_mul (x j : WithBot ℝ) y 0
  rw [expSub_coe (x j) 0, sub_zero (x j)] at hscale
  rw [← hscale, expSub_coe y 0]
  ring

theorem Sums.step {m : WithBot ℝ} {s t total weighted : ℝ} (h : Sums m s t total weighted) (x : ι → ℝ) (y : ℝ) :
    Sums (y : WithBot ℝ)
      (s * expSub Real.exp m (y : WithBot ℝ) + ∑ j, expSub Real.exp (x j : WithBot ℝ) (y : WithBot ℝ))
      (t * expSub Real.exp m (y : WithBot ℝ) + ∑ j, expSub Real.exp (x j : WithBot ℝ) (y : WithBot ℝ) * x j)
      (total + ∑ j, Real.exp (x j)) (weighted + ∑ j, Real.exp (x j) * x j) := by
  have hold : ∀ a : ℝ, a * expSub Real.exp m (y : WithBot ℝ) * expSub Real.exp (y : WithBot ℝ) ((0 : ℝ) : WithBot ℝ) =
      a * expSub Real.exp m ((0 : ℝ) : WithBot ℝ) := by
    intro a
    rw [mul_assoc, expSub_coe, expSub_mul]
  constructor
  · have hnew := sum_expSub_mul x (fun _ => 1) y
    simp only [mul_one] at hnew
    rw [add_mul, hold, hnew, h.total]
  · rw [add_mul, hold, sum_expSub_mul, h.weighted]

theorem Sums.coe_of_pos {m : WithBot ℝ} {s t total weighted : ℝ} (h : Sums m s t total weighted) (hpos : 0 < total) :
    ∃ y : ℝ, m = (y : WithBot ℝ) ∧ s * Real.exp y = total ∧ t * Real.exp y = weighted := by
  induction m with
  | bot =>
      have hzero := h.total
      rw [expSub_bot, mul_zero] at hzero
      exact absurd hzero hpos.ne
  | coe y =>
      have htotal := h.total
      have hweighted := h.weighted
      rw [expSub_coe, sub_zero] at htotal hweighted
      exact ⟨y, rfl, htotal, hweighted⟩

/-- The maximum and the logarithm of the running sum are the logarithm of the sum. -/
theorem Sums.log {m : WithBot ℝ} {s t total weighted : ℝ} (h : Sums m s t total weighted) (hpos : 0 < total) :
    m.unbotD 0 + Real.log s = Real.log total := by
  obtain ⟨y, rfl, htotal, -⟩ := h.coe_of_pos hpos
  have hs : 0 < s := by
    rw [← htotal] at hpos
    exact pos_of_mul_pos_left hpos (Real.exp_pos y).le
  rw [← htotal, Real.log_mul hs.ne' (Real.exp_pos y).ne', Real.log_exp, WithBot.unbotD_coe, add_comm]

theorem Sums.div {m : WithBot ℝ} {s t total weighted : ℝ} (h : Sums m s t total weighted) (hpos : 0 < total) :
    t / s = weighted / total := by
  obtain ⟨y, rfl, htotal, hweighted⟩ := h.coe_of_pos hpos
  rw [← htotal, ← hweighted, mul_div_mul_right _ _ (Real.exp_pos y).ne']

/-! ## Softmax -/

noncomputable def softmax (x : ι → ℝ) (j : ι) : ℝ := Real.exp (x j) / ∑ k, Real.exp (x k)

noncomputable def logSumExp (x : ι → ℝ) : ℝ := Real.log (∑ k, Real.exp (x k))

/-- `-∑ p log p` of the probabilities. -/
noncomputable def entropy (x : ι → ℝ) : ℝ := ∑ j, Real.negMulLog (softmax x j)

theorem sum_exp_pos (x : ι → ℝ) (j : ι) : 0 < ∑ k, Real.exp (x k) :=
  Finset.sum_pos (fun k _ => Real.exp_pos (x k)) ⟨j, Finset.mem_univ j⟩

theorem log_softmax (x : ι → ℝ) (j : ι) : Real.log (softmax x j) = x j - logSumExp x := by
  rw [softmax, Real.log_div (Real.exp_pos _).ne' (sum_exp_pos x j).ne', Real.log_exp, logSumExp]

theorem exp_sub_logSumExp (x : ι → ℝ) (j : ι) : Real.exp (x j - logSumExp x) = softmax x j := by
  rw [Real.exp_sub, logSumExp, Real.exp_log (sum_exp_pos x j), softmax]

theorem sum_softmax (x : ι → ℝ) (j : ι) : ∑ k, softmax x k = 1 := by
  simp only [softmax]
  rw [← Finset.sum_div, div_self (sum_exp_pos x j).ne']

theorem entropy_eq (x : ι → ℝ) (j : ι) :
    entropy x = logSumExp x - (∑ k, Real.exp (x k) * x k) / ∑ k, Real.exp (x k) := by
  have hterm : ∀ k, Real.negMulLog (softmax x k) =
      softmax x k * logSumExp x - Real.exp (x k) * x k / ∑ k, Real.exp (x k) := by
    intro k
    rw [Real.negMulLog, log_softmax, softmax]
    ring
  rw [entropy, Finset.sum_congr rfl fun k _ => hterm k, Finset.sum_sub_distrib, ← Finset.sum_mul, sum_softmax x j,
    one_mul, Finset.sum_div]

variable {E : Type} [NormedAddCommGroup E] [NormedSpace ℝ E]

theorem hasFDerivAt_logSumExp {x : E → ι → ℝ} {x' : ι → E →L[ℝ] ℝ} {e : E} (j : ι)
    (h : ∀ k, HasFDerivAt (fun e => x e k) (x' k) e) :
    HasFDerivAt (fun e => logSumExp (x e)) (∑ k, softmax (x e) k • x' k) e := by
  have hsum : HasFDerivAt (fun e => ∑ k, Real.exp (x e k)) (∑ k, Real.exp (x e k) • x' k) e :=
    HasFDerivAt.fun_sum fun k _ => (h k).exp
  refine (hsum.log (sum_exp_pos (x e) j).ne').congr_fderiv ?_
  rw [Finset.smul_sum]
  apply Finset.sum_congr rfl
  intro k _
  rw [smul_smul, softmax, div_eq_inv_mul]

/-- The derivative of the log-probability of `j`: the indicator of `j` less the probabilities. -/
theorem hasFDerivAt_log_softmax [DecidableEq ι] {x : E → ι → ℝ} {x' : ι → E →L[ℝ] ℝ} {e : E} (j : ι)
    (h : ∀ k, HasFDerivAt (fun e => x e k) (x' k) e) :
    HasFDerivAt (fun e => Real.log (softmax (x e) j)) (∑ k, ((if k = j then 1 else 0) - softmax (x e) k) • x' k) e := by
  have hfun : (fun e => Real.log (softmax (x e) j)) = fun e => x e j - logSumExp (x e) := by
    funext e
    exact log_softmax (x e) j
  rw [hfun]
  refine ((h j).sub (hasFDerivAt_logSumExp j h)).congr_fderiv ?_
  ext v
  simp [sub_mul, Finset.sum_sub_distrib]

end LogSumExp
