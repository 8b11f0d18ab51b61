import AuroraRl.Lib.Python

/-!
# Validators that run one after another

* `floorDiv`, `floorMod` : `//` and `%` of integers;
* `checking` : a validator that raises or returns what it was given;
* `run` : validators in the order they are declared, up to the first that raises;
* `Keeps` : a validator leaves a part of the state as it is; `Keeps.run` : so does a run of such validators.
-/

def floorDiv (a b : Int) : Except PyException Int :=
  if b = 0 then .error ⟨.zeroDivisionError, "integer division or modulo by zero"⟩ else .ok (a.fdiv b)

def floorMod (a b : Int) : Except PyException Int :=
  if b = 0 then .error ⟨.zeroDivisionError, "integer modulo by zero"⟩ else .ok (a.fmod b)

theorem floorDiv_eq_ok {a b q : Int} : floorDiv a b = .ok q ↔ b ≠ 0 ∧ a.fdiv b = q := by
  unfold floorDiv
  split <;> simp [*]

theorem floorMod_eq_ok {a b m : Int} : floorMod a b = .ok m ↔ b ≠ 0 ∧ a.fmod b = m := by
  unfold floorMod
  split <;> simp [*]

/-- What divides with no remainder is the quotient times the divisor. -/
theorem fdiv_mul_of_fmod {a b : Int} (h : a.fmod b = 0) : a.fdiv b * b = a := by
  have := Int.mul_fdiv_add_fmod a b
  rw [h, Int.add_zero, Int.mul_comm] at this
  exact this

namespace Validators

variable {ε σ β : Type}

def checking (check : σ → Except ε Unit) (s : σ) : Except ε σ := (check s).map fun _ => s

def run (validators : List (σ → Except ε σ)) (s : σ) : Except ε σ := validators.foldlM (fun s v => v s) s

theorem checking_eq_ok {check : σ → Except ε Unit} {s s' : σ} : checking check s = .ok s' ↔ check s = .ok () ∧ s' = s := by
  unfold checking
  rw [map_eq_ok]
  constructor
  · rintro ⟨_, h, rfl⟩
    exact ⟨h, rfl⟩
  · rintro ⟨h, rfl⟩
    exact ⟨(), h, rfl⟩

theorem run_nil_eq_ok {s s' : σ} : run ([] : List (σ → Except ε σ)) s = .ok s' ↔ s' = s := by
  show Except.ok s = .ok s' ↔ _
  rw [Except.ok.injEq, eq_comm]

theorem run_cons_eq_ok {v : σ → Except ε σ} {validators : List (σ → Except ε σ)} {s s' : σ} :
    run (v :: validators) s = .ok s' ↔ ∃ s₁, v s = .ok s₁ ∧ run validators s₁ = .ok s' := by
  unfold run
  rw [List.foldlM_cons, bind_eq_ok]

theorem run_append_eq_ok {l l' : List (σ → Except ε σ)} {s s' : σ} :
    run (l ++ l') s = .ok s' ↔ ∃ s₁, run l s = .ok s₁ ∧ run l' s₁ = .ok s' := by
  unfold run
  rw [List.foldlM_append, bind_eq_ok]

/-- Whatever the validator returns has the part `view` of what it was given. -/
def Keeps (view : σ → β) (v : σ → Except ε σ) : Prop := ∀ s s', v s = .ok s' → view s' = view s

theorem Keeps.checking (view : σ → β) (check : σ → Except ε Unit) : Keeps view (checking check) := by
  intro s s' h
  rw [(checking_eq_ok.1 h).2]

theorem Keeps.run {view : σ → β} {validators : List (σ → Except ε σ)} (h : ∀ v ∈ validators, Keeps view v) :
    Keeps view (run validators) := by
  induction validators with
  | nil =>
      intro s s' hrun
      rw [run_nil_eq_ok.1 hrun]
  | cons v l ih =>
      intro s s' hrun
      obtain ⟨s₁, hv, hrest⟩ := run_cons_eq_ok.1 hrun
      rw [ih (fun w hw => h w (List.mem_cons_of_mem v hw)) s₁ s' hrest]
      exact h v List.mem_cons_self s s₁ hv

end Validators
