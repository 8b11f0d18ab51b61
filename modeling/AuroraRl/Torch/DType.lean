import AuroraRl.Lib.Python

/-!
# Element types and their arithmetic

* `DType`, `Elem` : the element types of the tensors; an element is its bit pattern;
* `FloatOps` : what the tensor library does with floating-point elements, with the laws of IEEE equality;
* `add`, `sub`, `eq`, `cast` : the element operations; integers wrap;
* `promoteTypes` : the element type of a mixed operation.
-/

namespace AuroraRl.Torch

inductive DType
  | float16
  | bfloat16
  | float32
  | float64
  | int64
  | int32
  | int16
  | int8
  | uint8
  deriving DecidableEq, Repr, Inhabited

namespace DType

/-- Bytes per element. -/
def size : DType → Nat
  | float16 => 2
  | bfloat16 => 2
  | float32 => 4
  | float64 => 8
  | int64 => 8
  | int32 => 4
  | int16 => 2
  | int8 => 1
  | uint8 => 1

def isFloat : DType → Bool
  | float16 => true
  | bfloat16 => true
  | float32 => true
  | float64 => true
  | _ => false

def text : DType → String
  | float16 => "torch.float16"
  | bfloat16 => "torch.bfloat16"
  | float32 => "torch.float32"
  | float64 => "torch.float64"
  | int64 => "torch.int64"
  | int32 => "torch.int32"
  | int16 => "torch.int16"
  | int8 => "torch.int8"
  | uint8 => "torch.uint8"

def promoteTypes (d d' : DType) : DType :=
  if d = d' then d
  else if d.isFloat ∧ ¬ d'.isFloat then d
  else if d'.isFloat ∧ ¬ d.isFloat then d'
  else if d = float64 ∨ d' = float64 then float64
  else if d.isFloat then float32
  else if d = int64 ∨ d' = int64 then int64
  else if d = int32 ∨ d' = int32 then int32
  else int16

@[simp] theorem promoteTypes_self (d : DType) : promoteTypes d d = d := if_pos rfl

theorem isFloat_promoteTypes {d d' : DType} (h : d.isFloat = true) : (d.promoteTypes d').isFloat = true := by
  revert h
  cases d <;> cases d' <;> decide

end DType

/-- A tensor element. -/
abbrev Elem (d : DType) := BitVec (8 * d.size)

/-- The floating-point operations of the tensor library. `scale` is the product with a Python float, which turns
integers into `float32`; `exceeds` is `x.abs() > threshold`. -/
class FloatOps where
  add : (d : DType) → Elem d → Elem d → Elem d
  sub : (d : DType) → Elem d → Elem d → Elem d
  eq : (d : DType) → Elem d → Elem d → Bool
  cast : (d d' : DType) → Elem d → Elem d'
  scale : (d : DType) → Elem .float64 → Elem d → Elem (if d.isFloat then d else .float32)
  exceeds : (d : DType) → Elem .float64 → Elem d → Bool
  eq_symm : ∀ {d : DType} {x y : Elem d}, eq d x y = true → eq d y x = true
  eq_trans : ∀ {d : DType} {x y z : Elem d}, eq d x y = true → eq d y z = true → eq d x z = true
  eq_cast : ∀ {d d' : DType} {x y : Elem d}, d.isFloat = true → d'.isFloat = true → eq d x y = true →
    eq d' (cast d d' x) (cast d d' y) = true

section Elements

variable [FloatOps]

def add (d : DType) (x y : Elem d) : Elem d := if d.isFloat then FloatOps.add d x y else x + y

def sub (d : DType) (x y : Elem d) : Elem d := if d.isFloat then FloatOps.sub d x y else x - y

/-- The equality of the element type; on floats neither `NaN` nor the two zeros behave like bit patterns. -/
def eq (d : DType) (x y : Elem d) : Bool := if d.isFloat then FloatOps.eq d x y else x == y

/-- `x.to(d')`; unsigned bytes are extended with zeros, other integers with their sign. -/
def cast (d d' : DType) (x : Elem d) : Elem d' :=
  if h : d = d' then h ▸ x
  else if d.isFloat ∨ d'.isFloat then FloatOps.cast d d' x
  else if d = .uint8 then x.setWidth _
  else x.signExtend _

@[simp] theorem cast_self (d : DType) (x : Elem d) : cast d d x = x := dif_pos rfl

theorem eq_symm {d : DType} {x y : Elem d} (h : eq d x y = true) : eq d y x = true := by
  unfold eq at *
  split at h
  · rename_i hd
    rw [if_pos hd]
    exact FloatOps.eq_symm h
  · rename_i hd
    rw [if_neg hd, eq_of_beq h]
    exact beq_self_eq_true _

theorem eq_trans {d : DType} {x y z : Elem d} (h : eq d x y = true) (h' : eq d y z = true) : eq d x z = true := by
  unfold eq at *
  split at h
  · rename_i hd
    rw [if_pos hd] at h' ⊢
    exact FloatOps.eq_trans h h'
  · rename_i hd
    rw [if_neg hd] at h' ⊢
    rw [eq_of_beq h]
    exact h'

/-- Elements that are equal stay equal to the same elements in a type they are promoted to. -/
theorem eq_cast_trans {d d' : DType} (hd : d.isFloat = true → d'.isFloat = true) {x y : Elem d} {z : Elem d'}
    (hxy : eq d x y = true) (hyz : eq d' (cast d d' y) z = true) : eq d' (cast d d' x) z = true := by
  by_cases heq : d = d'
  · subst heq
    rw [cast_self] at hyz ⊢
    exact eq_trans hxy hyz
  · by_cases hfloat : d.isFloat = true
    · refine eq_trans ?_ hyz
      unfold cast eq
      rw [dif_neg heq, dif_neg heq, if_pos (Or.inl hfloat), if_pos (Or.inl hfloat), if_pos (hd hfloat)]
      unfold eq at hxy
      rw [if_pos hfloat] at hxy
      exact FloatOps.eq_cast hfloat (hd hfloat) hxy
    · unfold eq at hxy
      rw [if_neg hfloat] at hxy
      rw [eq_of_beq hxy]
      exact hyz

theorem eq_promote_self (d : DType) (x y : Elem d) :
    eq (d.promoteTypes d) (cast d _ x) (cast d _ y) = eq d x y := by
  have key : ∀ p : DType, p = d → eq p (cast d p x) (cast d p y) = eq d x y := by
    rintro p rfl
    rw [cast_self, cast_self]
  exact key _ (DType.promoteTypes_self d)

/-- `flat + values` for one element, computed in the promoted type and stored back in the type of `flat`. -/
def combine (d d' : DType) (x : Elem d) (v : Elem d') : Elem d :=
  cast (d.promoteTypes d') d (add (d.promoteTypes d') (cast d _ x) (cast d' _ v))

theorem combine_self (d : DType) (x v : Elem d) : combine d d x v = add d x v := by
  unfold combine
  have key : ∀ p : DType, p = d → cast p d (add p (cast d p x) (cast d p v)) = add d x v := by
    rintro p rfl
    rw [cast_self, cast_self, cast_self]
  exact key _ (DType.promoteTypes_self d)

theorem combine_wider {d d' : DType} (h : d.promoteTypes d' = d') (x : Elem d) (v : Elem d') :
    combine d d' x v = cast d' d (add d' (cast d d' x) v) := by
  unfold combine
  have key : ∀ p : DType, p = d' → cast p d (add p (cast d p x) (cast d' p v)) = cast d' d (add d' (cast d d' x) v) := by
    rintro p rfl
    rw [cast_self]
  exact key _ h

end Elements

/-- Operations on bit patterns, for tensors of integers. -/
@[reducible] def bitOps : FloatOps where
  add _ x y := x + y
  sub _ x y := x - y
  eq _ x y := x == y
  cast _ _ x := x.setWidth _
  scale _ _ x := x.setWidth _
  exceeds _ _ _ := false
  eq_symm h := by rw [eq_of_beq h, beq_self_eq_true]
  eq_trans h h' := by rw [eq_of_beq h, h']
  eq_cast _ _ h := by rw [eq_of_beq h, beq_self_eq_true]

end AuroraRl.Torch
