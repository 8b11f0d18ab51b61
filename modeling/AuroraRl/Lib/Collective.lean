import Mathlib.Data.List.Forall2

/-!
# Broadcasts from one source

The source broadcasts messages one after the other; every receiver calls the same collective with a buffer of its
own, and gets the message if the buffer is of its type and length. A call that does not fit hangs.

* `Message`, `Call` : what is broadcast, and what a call of a receiver asks for;
* `Program` : the calls of a receiver and what it makes of them, a monad;
* `run` : the calls it issues, its result and the messages it leaves;
* `Receives` : a program in step with some messages; `Receives.bind`, `Receives.collect`.
-/

namespace Collective

/-- A collective call with a buffer of `length` elements. -/
structure Call (D : Type) where
  dtype : D
  length : Nat
  deriving DecidableEq

structure Message (D R : Type) where
  dtype : D
  data : List R

def Message.call {D R : Type} (m : Message D R) : Call D := ⟨m.dtype, m.data.length⟩

/-- A receiver that raises `χ` or returns `ρ`. -/
inductive Program (D R χ ρ : Type)
  | ret (r : ρ)
  | raise (x : χ)
  | broadcast (call : Call D) (k : List R → Program D R χ ρ)

/-- How a receiver ends without a result. -/
inductive Fault (χ : Type)
  | hangs
  | raised (x : χ)

namespace Program

variable {D R χ ρ τ : Type}

protected def bind : Program D R χ ρ → (ρ → Program D R χ τ) → Program D R χ τ
  | ret r, f => f r
  | raise x, _ => raise x
  | broadcast call k, f => broadcast call fun data => (k data).bind f

instance : Monad (Program D R χ) where
  pure := ret
  bind := Program.bind

def ofExcept : Except χ ρ → Program D R χ ρ
  | .ok r => ret r
  | .error x => raise x

/-- The results of programs that run one after the other. -/
def collect : List (Program D R χ ρ) → Program D R χ (List ρ)
  | [] => ret []
  | p :: ps => do
    let r ← p
    let rs ← collect ps
    return r :: rs

/-- The calls, the result, and the messages that are left. -/
def run [DecidableEq D] : Program D R χ ρ → List (Message D R) → List (Call D) × Except (Fault χ) ρ × List (Message D R)
  | ret r, messages => ([], .ok r, messages)
  | raise x, messages => ([], .error (.raised x), messages)
  | broadcast call _, [] => ([call], .error .hangs, [])
  | broadcast call k, m :: messages =>
    if m.call = call then
      let rest := run (k m.data) messages
      (call :: rest.1, rest.2)
    else ([call], .error .hangs, m :: messages)

variable [DecidableEq D]

/-- Whatever follows, `p` issues the calls of these messages and returns `r`. -/
def Receives (p : Program D R χ ρ) (messages : List (Message D R)) (r : ρ) : Prop :=
  ∀ rest, p.run (messages ++ rest) = (messages.map Message.call, .ok r, rest)

theorem receives_ret (r : ρ) : Receives (ret r : Program D R χ ρ) [] r := fun _ => rfl

theorem Receives.broadcast {call : Call D} {k : List R → Program D R χ ρ} {m : Message D R}
    {messages : List (Message D R)} {r : ρ} (hcall : m.call = call) (h : Receives (k m.data) messages r) :
    Receives (Program.broadcast call k) (m :: messages) r := by
  intro rest
  rw [List.cons_append, run, if_pos hcall, h rest, ← hcall]
  rfl

/-- The calls of a program that goes on come after its own. -/
theorem run_bind (p : Program D R χ ρ) (f : ρ → Program D R χ τ) (messages : List (Message D R)) :
    (p.bind f).run messages = match p.run messages with
      | (calls, .ok r, left) => (calls ++ ((f r).run left).1, ((f r).run left).2)
      | (calls, .error e, left) => (calls, .error e, left) := by
  induction p generalizing messages with
  | ret r => rfl
  | raise x => rfl
  | broadcast call k ih =>
      cases messages with
      | nil => rfl
      | cons m messages =>
          simp only [Program.bind, run]
          split
          · rw [ih]
            rcases (k m.data).run messages with ⟨calls, e | r, left⟩ <;> rfl
          · rfl

theorem Receives.bind {p : Program D R χ ρ} {f : ρ → Program D R χ τ} {messages messages' : List (Message D R)} {r : ρ}
    {t : τ} (h : Receives p messages r) (h' : Receives (f r) messages' t) :
    Receives (p >>= f) (messages ++ messages') t := by
  intro rest
  show (p.bind f).run _ = _
  rw [run_bind, List.append_assoc, h (messages' ++ rest)]
  simp only [h' rest, List.map_append]

theorem receives_ofExcept {x : Except χ ρ} {r : ρ} (h : x = .ok r) : Receives (ofExcept x : Program D R χ ρ) [] r := by
  rw [h]
  exact receives_ret r

/-- **Programs in a row** receive the messages of each. -/
theorem Receives.collect {ps : List (Program D R χ ρ)} {parts : List (List (Message D R) × ρ)}
    (h : List.Forall₂ (fun p part => Receives p part.1 part.2) ps parts) :
    Receives (Program.collect ps) (parts.flatMap Prod.fst) (parts.map Prod.snd) := by
  induction h with
  | nil => exact receives_ret []
  | @cons p part ps parts hp _ ih =>
      have hrest := ih.bind (f := fun rs => ret (part.2 :: rs)) (receives_ret _)
      rw [List.append_nil] at hrest
      exact hp.bind hrest

end Program

end Collective
