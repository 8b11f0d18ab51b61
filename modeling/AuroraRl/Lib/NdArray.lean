import AuroraRl.Lib.RowMajor

/-!
# Arrays by coordinates

* `NdArray`, `Holds` : a shape with an element at all coordinates, and where a value is held;
* `Distinct` : no value is held twice;
* `join` : concatenation along an axis; `holds_join` : what it holds, and where.
-/

open RowMajor

/-- Elements by their coordinates; those outside the shape do not count. -/
structure NdArray (R : Type) where
  shape : List Nat
  get : List Nat → R

namespace NdArray

variable {R S : Type} {a b : NdArray R} {v : R} {cs : List Nat} {axis : Nat}

def Holds (a : NdArray R) (v : R) (cs : List Nat) : Prop := InBounds a.shape cs ∧ a.get cs = v

def Distinct (a : NdArray R) : Prop := ∀ v cs cs', a.Holds v cs → a.Holds v cs' → cs = cs'

def map (f : R → S) (a : NdArray R) : NdArray S := ⟨a.shape, fun cs => f (a.get cs)⟩

/-- The size along an axis. -/
def dim (a : NdArray R) (axis : Nat) : Nat := a.shape.getD axis 0

/-- Equal shapes but for the axis. -/
def Joinable (axis : Nat) (a b : NdArray R) : Prop := axis < a.shape.length ∧ a.shape.set axis 1 = b.shape.set axis 1

instance (axis : Nat) (a b : NdArray R) : Decidable (Joinable axis a b) := by
  unfold Joinable
  infer_instance

def join (axis : Nat) (a b : NdArray R) : NdArray R where
  shape := a.shape.set axis (a.dim axis + b.dim axis)
  get cs := if cs.getD axis 0 < a.dim axis then a.get cs else b.get (cs.set axis (cs.getD axis 0 - a.dim axis))

theorem map_join (f : R → S) : (join axis a b).map f = join axis (a.map f) (b.map f) := by
  unfold map join
  congr 1
  funext cs
  exact apply_ite f _ _ _

/-! ## One axis of the coordinates -/

variable (cs) in
theorem inBounds_set {shape : List Nat} {n : Nat} (h : axis < shape.length) :
    InBounds (shape.set axis n) cs ↔ cs.getD axis 0 < n ∧ InBounds (shape.set axis 1) (cs.set axis 0) := by
  induction shape generalizing axis cs with
  | nil => exact absurd h (Nat.not_lt_zero axis)
  | cons d shape ih =>
      cases axis with
      | zero =>
          cases cs with
          | nil => simp [InBounds]
          | cons c cs => simp [InBounds]
      | succ axis =>
          cases cs with
          | nil => simp [InBounds]
          | cons c cs =>
              have ih := ih cs (Nat.lt_of_succ_lt_succ h)
              simp only [InBounds, List.set_cons_succ, List.forall₂_cons, List.getD_cons_succ] at ih ⊢
              rw [ih]
              tauto

theorem set_getD (h : axis < cs.length) : cs.set axis (cs.getD axis 0) = cs := by
  apply set_getElem?
  rw [List.getD_eq_getElem?_getD, List.getElem?_eq_getElem h, Option.getD_some]

theorem axis_lt_length {shape : List Nat} (h : axis < shape.length)
    (hrest : InBounds (shape.set axis 1) (cs.set axis 0)) : axis < cs.length := by
  have hlength := List.Forall₂.length_eq hrest
  rw [List.length_set, List.length_set] at hlength
  rwa [← hlength]

theorem inBounds_axis {shape : List Nat} (h : axis < shape.length) :
    InBounds shape cs ↔ cs.getD axis 0 < shape.getD axis 0 ∧ InBounds (shape.set axis 1) (cs.set axis 0) := by
  have hself : shape.set axis (shape.getD axis 0) = shape := by
    exact set_getD h
  have hset := inBounds_set cs (n := shape.getD axis 0) h
  rwa [hself] at hset

theorem getD_set {c : Nat} (h : axis < cs.length) : (cs.set axis c).getD axis 0 = c := by
  simp [List.getD_eq_getElem?_getD, h]

/-! ## Concatenation -/

theorem Joinable.shape_join (h : Joinable axis a b) : InBounds (join axis a b).shape cs ↔
    cs.getD axis 0 < a.dim axis + b.dim axis ∧ InBounds (a.shape.set axis 1) (cs.set axis 0) := inBounds_set cs h.1

theorem Joinable.left (h : Joinable axis a b) : InBounds a.shape cs ↔
    cs.getD axis 0 < a.dim axis ∧ InBounds (a.shape.set axis 1) (cs.set axis 0) := inBounds_axis h.1

theorem Joinable.right (h : Joinable axis a b) : InBounds b.shape cs ↔
    cs.getD axis 0 < b.dim axis ∧ InBounds (a.shape.set axis 1) (cs.set axis 0) := by
  have hlength := congrArg List.length h.2
  rw [List.length_set, List.length_set] at hlength
  have hlt : axis < b.shape.length := by
    rw [← hlength]
    exact h.1
  rw [inBounds_axis hlt, h.2]
  rfl

/-- **Concatenation.** A value is held where the first array holds it, or behind that where the second one does. -/
theorem holds_join (h : Joinable axis a b) : (join axis a b).Holds v cs ↔
    (cs.getD axis 0 < a.dim axis ∧ a.Holds v cs) ∨
      (a.dim axis ≤ cs.getD axis 0 ∧ b.Holds v (cs.set axis (cs.getD axis 0 - a.dim axis))) := by
  have hget : (join axis a b).get cs = if cs.getD axis 0 < a.dim axis then a.get cs
      else b.get (cs.set axis (cs.getD axis 0 - a.dim axis)) := rfl
  rw [Holds, h.shape_join, hget, Holds, Holds, h.left, h.right, List.set_set]
  by_cases hlt : cs.getD axis 0 < a.dim axis
  · rw [if_pos hlt]
    have hadd : cs.getD axis 0 < a.dim axis + b.dim axis := Nat.lt_add_right _ hlt
    have hnotLe := Nat.not_le.2 hlt
    tauto
  · have hle := Nat.not_lt.1 hlt
    rw [if_neg hlt]
    constructor
    · rintro ⟨⟨hadd, hrest⟩, heq⟩
      refine .inr ⟨hle, ⟨?_, hrest⟩, heq⟩
      rw [getD_set (axis_lt_length h.1 hrest)]
      omega
    · rintro (⟨hlt', -⟩ | ⟨-, ⟨hsub, hrest⟩, heq⟩)
      · exact absurd hlt' hlt
      · rw [getD_set (axis_lt_length h.1 hrest)] at hsub
        exact ⟨⟨by omega, hrest⟩, heq⟩

theorem exists_holds_join (h : Joinable axis a b) :
    (∃ cs, (join axis a b).Holds v cs) ↔ (∃ cs, a.Holds v cs) ∨ ∃ cs, b.Holds v cs := by
  constructor
  · rintro ⟨cs, hholds⟩
    rcases (holds_join h).1 hholds with ⟨-, ha⟩ | ⟨-, hb⟩
    · exact .inl ⟨_, ha⟩
    · exact .inr ⟨_, hb⟩
  · rintro (⟨cs, ha⟩ | ⟨cs, hb⟩)
    · exact ⟨cs, (holds_join h).2 (.inl ⟨(h.left.1 ha.1).1, ha⟩)⟩
    · have haxis := axis_lt_length h.1 (h.right.1 hb.1).2
      refine ⟨cs.set axis (a.dim axis + cs.getD axis 0), (holds_join h).2 (.inr ⟨?_, ?_⟩)⟩
      · rw [getD_set haxis]
        exact Nat.le_add_right _ _
      · rw [getD_set haxis, List.set_set, Nat.add_sub_cancel_left, set_getD haxis]
        exact hb

theorem Distinct.join (h : Joinable axis a b) (ha : a.Distinct) (hb : b.Distinct)
    (hdisjoint : ∀ v cs cs', a.Holds v cs → ¬ b.Holds v cs') : (join axis a b).Distinct := by
  intro v cs cs' hcs hcs'
  rcases (holds_join h).1 hcs with ⟨-, hcs⟩ | ⟨hle, hcs⟩
  · rcases (holds_join h).1 hcs' with ⟨-, hcs'⟩ | ⟨-, hcs'⟩
    · exact ha v cs cs' hcs hcs'
    · exact absurd hcs' (hdisjoint v _ _ hcs)
  · rcases (holds_join h).1 hcs' with ⟨-, hcs'⟩ | ⟨hle', hcs'⟩
    · exact absurd hcs (hdisjoint v _ _ hcs')
    · have heq := hb v _ _ hcs hcs'
      have haxis := axis_lt_length h.1 (h.right.1 hcs.1).2
      have haxis' := axis_lt_length h.1 (h.right.1 hcs'.1).2
      rw [List.length_set] at haxis haxis'
      have hcoordinate := congrArg (fun cs => a.dim axis + cs.getD axis 0) heq
      have hrest := congrArg (fun cs => cs.set axis 0) heq
      simp only [getD_set haxis, getD_set haxis', List.set_set, Nat.add_sub_cancel' hle, Nat.add_sub_cancel' hle']
        at hcoordinate hrest
      calc
        cs = (cs.set axis 0).set axis (cs'.getD axis 0) := by rw [List.set_set, ← hcoordinate, set_getD haxis]
        _ = cs' := by rw [hrest, List.set_set, set_getD haxis']

end NdArray
