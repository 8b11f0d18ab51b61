import Mathlib.Data.List.Basic

/-!
# Values as bytes

* `Format` : bytes written for a value, and read back from the front of others;
* `nat`, `pair`, `list` : numbers, pairs and lists;
* `retract` : a type whose values are told by those of another.
-/

namespace Serial

/-- What is written is read back, whatever follows. -/
structure Format (α : Type) where
  write : α → List UInt8
  read : List UInt8 → Option (α × List UInt8)
  read_write : ∀ a rest, read (write a ++ rest) = some (a, rest)

namespace Format

variable {α β : Type}

/-- A number by as many ones, up to a zero. -/
def readNat : List UInt8 → Option (Nat × List UInt8)
  | [] => none
  | b :: bytes => if b = 0 then some (0, bytes) else (readNat bytes).map fun p => (p.1 + 1, p.2)

def nat : Format Nat where
  write n := List.replicate n 1 ++ [0]
  read := readNat
  read_write n rest := by
    induction n with
    | zero => rfl
    | succ n ih =>
        rw [List.replicate_succ, List.cons_append, List.cons_append, readNat, if_neg (by decide), ih]
        rfl

def pair (fa : Format α) (fb : Format β) : Format (α × β) where
  write p := fa.write p.1 ++ fb.write p.2
  read bytes := do
    let (a, bytes) ← fa.read bytes
    let (b, bytes) ← fb.read bytes
    return ((a, b), bytes)
  read_write p rest := by
    rw [List.append_assoc, fa.read_write]
    show (fb.read (fb.write p.2 ++ rest)).bind _ = _
    rw [fb.read_write]
    rfl

def readValues (f : Format α) : Nat → List UInt8 → Option (List α × List UInt8)
  | 0, bytes => some ([], bytes)
  | n + 1, bytes => do
    let (a, bytes) ← f.read bytes
    let (as, bytes) ← readValues f n bytes
    return (a :: as, bytes)

theorem readValues_flatMap (f : Format α) (as : List α) (rest : List UInt8) :
    readValues f as.length (as.flatMap f.write ++ rest) = some (as, rest) := by
  induction as with
  | nil => rfl
  | cons a as ih =>
      rw [List.length_cons, List.flatMap_cons, List.append_assoc, readValues, f.read_write]
      show (readValues f as.length (as.flatMap f.write ++ rest)).bind _ = _
      rw [ih]
      rfl

/-- The number of values, and the values. -/
def list (f : Format α) : Format (List α) where
  write as := nat.write as.length ++ as.flatMap f.write
  read bytes := do
    let (n, bytes) ← nat.read bytes
    readValues f n bytes
  read_write as rest := by
    rw [List.append_assoc, nat.read_write]
    exact readValues_flatMap f as rest

def retract (f : Format β) (code : α → β) (decode : β → Option α) (h : ∀ a, decode (code a) = some a) : Format α where
  write a := f.write (code a)
  read bytes := do
    let (b, bytes) ← f.read bytes
    let a ← decode b
    return (a, bytes)
  read_write a rest := by
    rw [f.read_write]
    show (decode (code a)).bind _ = _
    rw [h]
    rfl

end Format

end Serial
