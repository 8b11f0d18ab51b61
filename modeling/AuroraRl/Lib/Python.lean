import Mathlib.Data.List.Basic
import Mathlib.Data.List.Forall2

/-!
# The Python values and library calls the models need

* `Unicode` : the character tables behind `str.isalnum`, `str.strip`, `str.lower` and `int(str)`;
* `parseInt` : `int(str)` in base 10, underscores and surrounding blanks included;
* `PyException` : an exception with its message;
* `PyValue` : a value that came out of a query, a form or a JSON document, with `str()` and `int()`;
* `PurePath` : a POSIX `pathlib` path.
-/

/-- Kinds of Python exceptions. -/
inductive PyError
  | typeError
  | valueError
  | keyError
  | indexError
  | attributeError
  | zeroDivisionError
  | overflowError
  | structError
  | unicodeDecodeError
  | safetensorError
  | fileNotFoundError
  | isADirectoryError
  | runtimeError
  | httpError
  | cancelledError
  | assertionError
  | notImplementedError
  deriving DecidableEq, Repr

/-- An exception with the text it was raised with. -/
structure PyException where
  kind : PyError
  message : String
  deriving DecidableEq, Repr

def raiseValueError {α : Type} (message : String) : Except PyException α := .error ⟨.valueError, message⟩

def raiseIf (c : Prop) [Decidable c] (message : String) : Except PyException Unit :=
  if c then raiseValueError message else .ok ()

theorem raiseIf_eq_ok {c : Prop} [Decidable c] {message : String} {u : Unit} :
    raiseIf c message = .ok u ↔ ¬ c := by
  unfold raiseIf raiseValueError
  split <;> simp [*]

@[simp] theorem raiseIf_of_not {c : Prop} [Decidable c] {message : String} (h : ¬ c) :
    raiseIf c message = .ok () := raiseIf_eq_ok.2 h

def pyAssert (c : Prop) [Decidable c] (message : String) : Except PyException Unit :=
  if c then .ok () else .error ⟨.assertionError, message⟩

theorem pyAssert_eq_ok {c : Prop} [Decidable c] {message : String} {u : Unit} : pyAssert c message = .ok u ↔ c := by
  unfold pyAssert
  split <;> simp [*]

def listItem {α : Type} (l : List α) (i : Nat) : Except PyException α :=
  match l[i]? with
  | some a => .ok a
  | none => .error ⟨.indexError, "list index out of range"⟩

theorem listItem_eq_ok {α : Type} {l : List α} {i : Nat} {a : α} : listItem l i = .ok a ↔ l[i]? = some a := by
  unfold listItem
  cases l[i]? <;> simp

theorem bind_eq_ok {ε α β : Type} {x : Except ε α} {f : α → Except ε β} {b : β} :
    (x >>= f) = .ok b ↔ ∃ a, x = .ok a ∧ f a = .ok b := by
  cases x with
  | error e => simp [bind, Except.bind]
  | ok a => simp [bind, Except.bind]

theorem map_eq_ok {ε α β : Type} {x : Except ε α} {f : α → β} {b : β} :
    x.map f = .ok b ↔ ∃ a, x = .ok a ∧ f a = b := by
  cases x with
  | error e => simp [Except.map]
  | ok a => simp [Except.map]

theorem mapM_eq_ok_iff {ε α β : Type} {f : α → Except ε β} {l : List α} {l' : List β} :
    l.mapM f = .ok l' ↔ List.Forall₂ (fun a b => f a = .ok b) l l' := by
  induction l generalizing l' with
  | nil =>
      rw [List.mapM_nil, List.forall₂_nil_left_iff]
      exact ⟨fun h => (by cases h; rfl), fun h => h ▸ rfl⟩
  | cons a l ih =>
      rw [List.mapM_cons, List.forall₂_cons_left_iff, bind_eq_ok]
      refine exists_congr fun b => ?_
      rw [bind_eq_ok]
      constructor
      · rintro ⟨hb, bs, hbs, h⟩
        cases h
        exact ⟨bs, hb, ih.1 hbs, rfl⟩
      · rintro ⟨bs, hb, hbs, rfl⟩
        exact ⟨hb, bs, ih.2 hbs, rfl⟩

/-- What every turn of a loop preserves, the loop preserves. -/
theorem foldlM_preserves {ε α σ : Type} {f : σ → α → Except ε σ} {P : σ → Prop}
    (hf : ∀ s a s', P s → f s a = .ok s' → P s') {l : List α} {s s' : σ} (h : l.foldlM f s = .ok s') (hs : P s) :
    P s' := by
  induction l generalizing s with
  | nil =>
      cases h
      exact hs
  | cons a l ih =>
      rw [List.foldlM_cons] at h
      obtain ⟨s₁, h₁, h⟩ := bind_eq_ok.1 h
      exact ih h (hf s a s₁ hs h₁)

theorem foldlM_congr {ε α σ : Type} {f g : σ → α → Except ε σ} {l : List α} (h : ∀ a ∈ l, ∀ s, f s a = g s a) {s : σ} :
    l.foldlM f s = l.foldlM g s := by
  induction l generalizing s with
  | nil => rfl
  | cons a l ih =>
      rw [List.foldlM_cons, List.foldlM_cons, h a List.mem_cons_self]
      exact congrArg _ (funext fun s' => ih fun b hb => h b (List.mem_cons_of_mem a hb))

theorem ok_bind {ε α β : Type} {a : α} {f : α → Except ε β} : ((.ok a : Except ε α) >>= f) = f a := rfl

theorem foldlM_collect {ε α β : Type} (f : α → β) (l : List α) (seen : List β) :
    l.foldlM (fun seen a => (.ok (seen ++ [f a]) : Except ε (List β))) seen = .ok (seen ++ l.map f) := by
  induction l generalizing seen with
  | nil => exact congrArg Except.ok (List.append_nil seen).symm
  | cons a l ih =>
      rw [List.foldlM_cons, ok_bind, ih, List.append_assoc]
      rfl

theorem bind_ok {ε α : Type} {x : Except ε α} : (x >>= fun a => .ok a) = x := by
  cases x <;> rfl

/-- The character database of the interpreter. -/
class Unicode where
  isSpace : Char → Bool
  isAlnum : Char → Bool
  digit : Char → Option Nat
  lower : String → String

@[reducible] def asciiUnicode : Unicode where
  isSpace := Char.isWhitespace
  isAlnum := Char.isAlphanum
  digit c := if c.isDigit then some (c.toNat - 48) else none
  lower := String.toLower

namespace Python

variable [Unicode]

def lstripChars (p : Char → Bool) (l : List Char) : List Char := l.dropWhile p

def rstripChars (p : Char → Bool) (l : List Char) : List Char := (l.reverse.dropWhile p).reverse

def strip (s : String) : String :=
  String.ofList (rstripChars Unicode.isSpace (lstripChars Unicode.isSpace s.toList))

/-- `str.rstrip(chars)` for one character. -/
def rstrip (s : String) (c : Char) : String := String.ofList (rstripChars (· == c) s.toList)

/-- `str.lstrip(chars)` for one character. -/
def lstrip (s : String) (c : Char) : String := String.ofList (lstripChars (· == c) s.toList)

def removesuffix (s suffix : String) : String :=
  if suffix.toList <:+ s.toList then String.ofList (s.toList.take (s.length - suffix.length)) else s

def endswith (s suffix : String) : Bool := suffix.toList <:+ s.toList

def contains (s part : String) : Bool := s.toList.tails.any (part.toList.isPrefixOf ·)

/-- `s.split(sep, 1)[1]`, where `sep` occurs in `s`. -/
def afterFirst (sep : List Char) : List Char → Option (List Char)
  | [] => none
  | c :: l => if sep.isPrefixOf (c :: l) then some ((c :: l).drop sep.length) else afterFirst sep l

def isdecimal (l : List Char) : Bool := l ≠ [] ∧ l.all fun c => (Unicode.digit c).isSome

/-- `str(t)` of a tuple of integers. -/
def tupleText : List Nat → String
  | [n] => "(" ++ toString n ++ ",)"
  | l => "(" ++ ", ".intercalate (l.map toString) ++ ")"

/-- `str(s)` of a set of strings, whose order Python leaves open. -/
def setText : List String → String
  | [] => "set()"
  | l => "\x7b" ++ ", ".intercalate (l.map fun s => "'" ++ s ++ "'") ++ "\x7d"

/-- The digits of a literal: single underscores may stand between digits. -/
def parseDigits : List Char → Option (List Nat)
  | [] => none
  | [c] => (Unicode.digit c).map ([·])
  | c :: '_' :: l => do
      let d ← Unicode.digit c
      let ds ← parseDigits l
      return d :: ds
  | c :: l => do
      let d ← Unicode.digit c
      let ds ← parseDigits l
      return d :: ds

/-- The longest decimal literal `int()` converts. -/
def intMaxStrDigits : Nat := 4300

def digitsValue (l : List Char) : Except PyError Nat :=
  match parseDigits l with
  | some ds => if intMaxStrDigits < ds.length then .error .valueError else .ok (ds.foldl (fun n d => 10 * n + d) 0)
  | none => .error .valueError

/-- `int(s)` for a string. -/
def parseInt (s : String) : Except PyError Int :=
  match (strip s).toList with
  | '-' :: l => (digitsValue l).map fun n => -(n : Int)
  | '+' :: l => (digitsValue l).map Int.ofNat
  | l => (digitsValue l).map Int.ofNat

section Suffix

variable (s : String) {suffix : String}

omit [Unicode] in
@[simp] theorem endswith_append : endswith (s ++ suffix) suffix = true := by
  unfold endswith
  rw [decide_eq_true_eq, String.toList_append]
  exact List.suffix_append ..

omit [Unicode] in
@[simp] theorem removesuffix_append : removesuffix (s ++ suffix) suffix = s := by
  have hlen : (s ++ suffix).length - suffix.length = s.toList.length := by
    rw [String.length_append, Nat.add_sub_cancel, String.length_toList]
  unfold removesuffix
  rw [String.toList_append, if_pos (List.suffix_append ..), hlen, List.take_left, String.ofList_toList]

omit [Unicode] in
/-- Two suffixes of one length that differ are not suffixes of one text. -/
theorem endswith_append_of_ne {suffix' : String} (hlen : suffix.length = suffix'.length) (hne : suffix ≠ suffix') :
    endswith (s ++ suffix) suffix' = false := by
  unfold endswith
  rw [decide_eq_false_iff_not, String.toList_append]
  rintro ⟨l, hl⟩
  refine hne (String.toList_inj.1 (List.append_inj_right' hl ?_).symm)
  rw [String.length_toList, String.length_toList, hlen]

end Suffix

end Python

/-- A value read from a request. Floats, lists and objects keep only their text and what `int()` makes of them. -/
inductive PyValue
  | str (s : String)
  | int (n : Int)
  | bool (b : Bool)
  | other (text : String) (asInt : Except PyError Int)

namespace PyValue

def text : PyValue → String
  | str s => s
  | int n => toString n
  | bool true => "True"
  | bool false => "False"
  | other t _ => t

/-- `bool(value)`; of the values that keep only their text, `0.0`, `[]` and `{}` are false. -/
def truthy : PyValue → Bool
  | str s => s ≠ ""
  | int n => n ≠ 0
  | bool b => b
  | other t _ => t ∉ ["0.0", "-0.0", "[]", "\x7b\x7d"]

def toInt [Unicode] : PyValue → Except PyError Int
  | str s => Python.parseInt s
  | int n => .ok n
  | bool b => .ok b.toNat
  | other _ n => n

end PyValue

/-! ## Paths -/

/-- A POSIX path: its anchor (`""`, `"/"` or `"//"`) and its components. -/
structure PurePath where
  anchor : String
  parts : List String
  deriving DecidableEq, Repr, Inhabited

namespace PurePath

/-- `Path(s)`: empty and `.` components are dropped. -/
def ofString (s : String) : PurePath where
  anchor :=
    match s.toList with
    | '/' :: '/' :: '/' :: _ => "/"
    | '/' :: '/' :: _ => "//"
    | '/' :: _ => "/"
    | _ => ""
  parts := ((s.toList.splitOn '/').map String.ofList).filter fun p => p ≠ "" ∧ p ≠ "."

def name (p : PurePath) : String := p.parts.getLastD ""

def parent (p : PurePath) : PurePath := { p with parts := p.parts.dropLast }

def join (p : PurePath) (s : String) : PurePath :=
  let q := ofString s
  if q.anchor = "" then { p with parts := p.parts ++ q.parts } else q

def asPosix (p : PurePath) : String :=
  if p.anchor = "" ∧ p.parts = [] then "." else p.anchor ++ "/".intercalate p.parts

end PurePath
