import Mathlib.Data.List.Basic

/-!
# Generators

A generator is its loop body: a function from the state before a turn to what the turn ends with.

* `Turn` : the next turn, a `yield`, the end of the loop, or an exception;
* `trace`, `after` : what the first turns show, and the state they leave;
* `Suspended` : the states at which a generator can be saved;
* `trace_restore` : a generator whose saved states are restored shows the rest of the trace.
-/

namespace Generator

/-- What a turn of the loop ends with. -/
inductive Turn (σ β χ : Type)
  | next (s : σ)
  | yield (b : β) (s : σ)
  | done
  | raise (x : χ)

/-- What the consumer of a generator sees. -/
inductive Event (β χ : Type)
  | yield (b : β)
  | done
  | raise (x : χ)

variable {σ β χ : Type}

/-- The state of the next turn, if there is one. -/
def Turn.state : Turn σ β χ → Option σ
  | next s | yield _ s => some s
  | done | raise _ => none

/-- What the first `n` turns show. -/
def trace (turn : σ → Turn σ β χ) : Nat → σ → List (Event β χ)
  | 0, _ => []
  | n + 1, s =>
    match turn s with
    | .next s => trace turn n s
    | .yield b s => .yield b :: trace turn n s
    | .done => [.done]
    | .raise x => [.raise x]

/-- The state after `n` turns, while the loop has not ended. -/
def after (turn : σ → Turn σ β χ) : Nat → σ → Option σ
  | 0, s => some s
  | n + 1, s => (turn s).state.bind (after turn n)

/-- The `n`-th turn ended in a `yield`, with the state `s'`. -/
def Suspended (turn : σ → Turn σ β χ) (n : Nat) (s s' : σ) : Prop :=
  ∃ m s₁ b, n = m + 1 ∧ after turn m s = some s₁ ∧ turn s₁ = .yield b s'

/-- Every turn keeps `Inv`. -/
def Keeps (turn : σ → Turn σ β χ) (Inv : σ → Prop) : Prop :=
  ∀ s s', Inv s → (turn s).state = some s' → Inv s'

variable {turn : σ → Turn σ β χ} {Inv : σ → Prop} {s s' : σ}

theorem after_succ {n : Nat} {s₁ : σ} (h : after turn n s = some s₁) : after turn (n + 1) s = (turn s₁).state := by
  induction n generalizing s with
  | zero =>
      obtain rfl : s = s₁ := Option.some.inj h
      show (turn s).state.bind some = _
      cases (turn s).state <;> rfl
  | succ n ih =>
      obtain ⟨s₂, hs₂, h⟩ := Option.bind_eq_some_iff.1 h
      rw [← ih h, after, hs₂]
      rfl

theorem Keeps.after (hkeeps : Keeps turn Inv) (h : Inv s) {n : Nat} (hafter : after turn n s = some s') : Inv s' := by
  induction n generalizing s with
  | zero => exact Option.some.inj hafter ▸ h
  | succ n ih =>
      obtain ⟨s₁, hs₁, hafter⟩ := Option.bind_eq_some_iff.1 hafter
      exact ih (hkeeps s s₁ h hs₁) hafter

/-- The trace of a longer run continues from where a shorter one is. -/
theorem trace_add {m : Nat} (h : after turn m s = some s') (n : Nat) :
    trace turn (m + n) s = trace turn m s ++ trace turn n s' := by
  induction m generalizing s with
  | zero =>
      obtain rfl : s = s' := Option.some.inj h
      rw [Nat.zero_add]
      rfl
  | succ m ih =>
      obtain ⟨s₁, hs₁, h⟩ := Option.bind_eq_some_iff.1 h
      rw [Nat.succ_add, trace, trace]
      cases hturn : turn s with
      | next s₂ =>
          rw [hturn] at hs₁
          obtain rfl : s₂ = s₁ := Option.some.inj hs₁
          exact ih h
      | yield b s₂ =>
          rw [hturn] at hs₁
          obtain rfl : s₂ = s₁ := Option.some.inj hs₁
          exact congrArg (_ :: ·) (ih h)
      | done =>
          rw [hturn] at hs₁
          cases hs₁
      | raise x =>
          rw [hturn] at hs₁
          cases hs₁

theorem Suspended.after {n : Nat} (h : Suspended turn n s s') : Generator.after turn n s = some s' := by
  obtain ⟨m, s₁, b, rfl, hafter, hturn⟩ := h
  rw [after_succ hafter, hturn]
  rfl

/-- **Saving and restoring.** A generator that is restored at a `yield` shows what the uninterrupted one still shows. -/
theorem trace_restore {r : σ → σ} (hkeeps : Keeps turn Inv) (hinit : Inv s)
    (hrestore : ∀ s₁ b s', Inv s₁ → turn s₁ = .yield b s' → r s' = s') {m : Nat} (h : Suspended turn m s s')
    (n : Nat) : trace turn (m + n) s = trace turn m s ++ trace turn n (r s') := by
  have hafter := h.after
  obtain ⟨k, s₁, b, -, hbefore, hturn⟩ := h
  rw [hrestore s₁ b s' (hkeeps.after hinit hbefore) hturn]
  exact trace_add hafter n

end Generator
