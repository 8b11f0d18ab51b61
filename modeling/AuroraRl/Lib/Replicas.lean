import Mathlib

/-!
# Replicated parameters

A function of the copies that several ranks hold of the same parameters.

* `hasFDerivAt_copies` : its derivative in the parameters, all copies moving together;
* `hasFDerivAt_copy` : its derivative in the copy of one rank;
* `sum_fderiv_copy` : the derivatives in the single copies add up to the one in the parameters.
-/

namespace Replicas

variable {ι E : Type} [Fintype ι] [NormedAddCommGroup E] [NormedSpace ℝ E] {f : (ι → E) → ℝ} {θ : E}

theorem hasFDerivAt_copies (h : DifferentiableAt ℝ f fun _ => θ) :
    HasFDerivAt (fun x => f fun _ => x) ((fderiv ℝ f fun _ => θ).comp
      (ContinuousLinearMap.pi fun _ => ContinuousLinearMap.id ℝ E)) θ :=
  h.hasFDerivAt.comp θ (ContinuousLinearMap.pi fun _ : ι => ContinuousLinearMap.id ℝ E).hasFDerivAt

variable [DecidableEq ι]

theorem hasFDerivAt_copy (h : DifferentiableAt ℝ f fun _ => θ) (r : ι) :
    HasFDerivAt (fun x => f (Function.update (fun _ => θ) r x))
      ((fderiv ℝ f fun _ => θ).comp (ContinuousLinearMap.pi (Pi.single r (ContinuousLinearMap.id ℝ E)))) θ := by
  have hself : Function.update (fun _ : ι => θ) r θ = fun _ => θ := Function.update_eq_self r _
  have hf : HasFDerivAt f (fderiv ℝ f fun _ => θ) (Function.update (fun _ => θ) r θ) := by
    rw [hself]
    exact h.hasFDerivAt
  exact hf.comp θ (hasFDerivAt_update (fun _ => θ) θ)

theorem sum_fderiv_copy (h : DifferentiableAt ℝ f fun _ => θ) :
    ∑ r, fderiv ℝ (fun x => f (Function.update (fun _ => θ) r x)) θ = fderiv ℝ (fun x => f fun _ => x) θ := by
  rw [(hasFDerivAt_copies h).fderiv, Finset.sum_congr rfl fun r _ => (hasFDerivAt_copy h r).fderiv]
  ext v
  have hsum : (∑ r, Pi.single (M := fun _ => E) r v) = fun _ : ι => v := Finset.univ_sum_single fun _ => v
  have hsingle : ∀ r : ι, ContinuousLinearMap.pi (Pi.single r (ContinuousLinearMap.id ℝ E)) v =
      Pi.single (M := fun _ => E) r v := by
    intro r
    ext j
    by_cases hj : j = r
    · subst hj
      simp
    · simp [hj]
  simp only [sum_apply, ContinuousLinearMap.comp_apply, hsingle]
  rw [← map_sum, hsum]
  rfl

end Replicas
