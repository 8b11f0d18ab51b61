import Mathlib.Data.List.Forall2
import Mathlib.Tactic.Ring

/-!
# Row-major indices

* `numel` : the number of elements of a shape;
* `ravel`, `unravel` : the flat index of coordinates, and back (`ravel_unravel`, `unravel_ravel`);
* `ravel_axis` : the flat index seen along one axis, `(outer * size + coordinate) * stride + inner`;
* `relocate` : the flat index after the size of an axis and the coordinate along it changed
  (`relocate_axis`, `relocate_lt`).
-/

namespace RowMajor

def numel : List Nat → Nat
  | [] => 1
  | d :: ds => d * numel ds

def ravel : List Nat → List Nat → Nat
  | _ :: ds, c :: cs => c * numel ds + ravel ds cs
  | _, _ => 0

def unravel : List Nat → Nat → List Nat
  | [], _ => []
  | _ :: ds, i => i / numel ds :: unravel ds (i % numel ds)

/-- One coordinate for each axis, below its size. -/
def InBounds (shape cs : List Nat) : Prop := List.Forall₂ (fun d c => c < d) shape cs

/-- The number of elements between neighbours along axis `k`. -/
def stride (shape : List Nat) (k : Nat) : Nat := numel (shape.drop (k + 1))

/-- The coordinate along the first axis. -/
def row (shape : List Nat) (i : Nat) : Nat := i / stride shape 0

theorem ravel_lt {shape cs : List Nat} (h : InBounds shape cs) : ravel shape cs < numel shape := by
  induction h with
  | nil => exact Nat.one_pos
  | @cons d c ds cs hc _ ih =>
      have hle : (c + 1) * numel ds ≤ d * numel ds := Nat.mul_le_mul_right _ hc
      rw [Nat.succ_mul] at hle
      show c * numel ds + ravel ds cs < d * numel ds
      omega

theorem unravel_ravel {shape cs : List Nat} (h : InBounds shape cs) : unravel shape (ravel shape cs) = cs := by
  induction h with
  | nil => rfl
  | @cons d c ds cs hc htail ih =>
      have hlt := ravel_lt htail
      have hpos : 0 < numel ds := by omega
      unfold ravel unravel
      rw [Nat.mul_comm c, Nat.mul_add_div hpos, Nat.mul_add_mod, Nat.mod_eq_of_lt hlt, Nat.div_eq_of_lt hlt, ih,
        Nat.add_zero]

theorem inBounds_unravel {shape : List Nat} {i : Nat} (h : i < numel shape) : InBounds shape (unravel shape i) := by
  induction shape generalizing i with
  | nil => exact .nil
  | cons d ds ih =>
      unfold numel at h
      have hpos : 0 < numel ds := Nat.pos_of_ne_zero fun h0 => by simp [h0] at h
      exact .cons (Nat.div_lt_of_lt_mul (by rwa [Nat.mul_comm])) (ih (Nat.mod_lt _ hpos))

theorem ravel_unravel {shape : List Nat} {i : Nat} (h : i < numel shape) : ravel shape (unravel shape i) = i := by
  induction shape generalizing i with
  | nil =>
      unfold numel at h
      unfold unravel ravel
      omega
  | cons d ds ih =>
      unfold numel at h
      have hpos : 0 < numel ds := Nat.pos_of_ne_zero fun h0 => by simp [h0] at h
      unfold unravel ravel
      rw [ih (Nat.mod_lt _ hpos), Nat.mul_comm]
      exact Nat.div_add_mod i (numel ds)

theorem ravel_inj {shape cs cs' : List Nat} (h : InBounds shape cs) (h' : InBounds shape cs')
    (heq : ravel shape cs = ravel shape cs') : cs = cs' := by
  rw [← unravel_ravel h, heq, unravel_ravel h']

theorem numel_set {shape : List Nat} {k : Nat} (hk : k < shape.length) (d : Nat) :
    numel (shape.set k d) = numel (shape.take k) * (d * stride shape k) := by
  induction shape generalizing k with
  | nil => exact absurd hk (Nat.not_lt_zero k)
  | cons e ds ih =>
      cases k with
      | zero =>
          show d * numel ds = 1 * (d * numel ds)
          rw [Nat.one_mul]
      | succ k =>
          show e * numel (ds.set k d) = e * numel (ds.take k) * (d * stride ds k)
          rw [ih (Nat.lt_of_succ_lt_succ hk), Nat.mul_assoc]

/-- **One axis.** Besides the size of the axis and the coordinate along it only `outer` and `inner` enter. -/
theorem ravel_axis {shape cs : List Nat} (h : InBounds shape cs) {k : Nat} (hk : k < shape.length) :
    ∃ outer inner, inner < stride shape k ∧
      ∀ d c, ravel (shape.set k d) (cs.set k c) = (outer * d + c) * stride shape k + inner := by
  induction h generalizing k with
  | nil => exact absurd hk (Nat.not_lt_zero k)
  | @cons e b ds cs hb htail ih =>
      cases k with
      | zero =>
          refine ⟨0, ravel ds cs, ravel_lt htail, fun d c => ?_⟩
          show c * numel ds + ravel ds cs = (0 * d + c) * numel ds + ravel ds cs
          rw [Nat.zero_mul, Nat.zero_add]
      | succ k =>
          have hk : k < ds.length := Nat.lt_of_succ_lt_succ hk
          obtain ⟨outer, inner, hlt, hravel⟩ := ih hk
          refine ⟨b * numel (ds.take k) + outer, inner, hlt, fun d c => ?_⟩
          show b * numel (ds.set k d) + ravel (ds.set k d) (cs.set k c) = _ * stride ds k + inner
          rw [hravel, numel_set hk]
          ring

/-! ## Moving along one axis -/

/-- The index of an element after the axis went from `size` to `size'` and the coordinate became `c`. -/
def relocate (size stride size' i c : Nat) : Nat := i / (size * stride) * (size' * stride) + c * stride + i % stride

section Relocate

variable {size stride size' outer inner c c' : Nat}

theorem axis_div_stride (hinner : inner < stride) : ((outer * size + c) * stride + inner) / stride = outer * size + c := by
  rw [Nat.mul_comm _ stride, Nat.mul_add_div (by omega), Nat.div_eq_of_lt hinner, Nat.add_zero]

theorem axis_mod_stride (hinner : inner < stride) : ((outer * size + c) * stride + inner) % stride = inner := by
  rw [Nat.mul_comm _ stride, Nat.mul_add_mod, Nat.mod_eq_of_lt hinner]

theorem axis_coordinate (hinner : inner < stride) (hc : c < size) :
    ((outer * size + c) * stride + inner) / stride % size = c := by
  rw [axis_div_stride hinner, Nat.mul_comm, Nat.mul_add_mod, Nat.mod_eq_of_lt hc]

theorem axis_outer (hinner : inner < stride) (hc : c < size) :
    ((outer * size + c) * stride + inner) / (size * stride) = outer := by
  rw [Nat.mul_comm size, ← Nat.div_div_eq_div_mul, axis_div_stride hinner, Nat.mul_comm, Nat.mul_add_div (by omega),
    Nat.div_eq_of_lt hc, Nat.add_zero]

theorem relocate_axis (hinner : inner < stride) (hc : c < size) :
    relocate size stride size' ((outer * size + c) * stride + inner) c' = (outer * size' + c') * stride + inner := by
  unfold relocate
  rw [axis_outer hinner hc, axis_mod_stride hinner]
  ring

/-- Two-digit numbers compare lexicographically. -/
theorem two_digit_lt {n a b a' b' : Nat} (hb : b < n) (hb' : b' < n) :
    a * n + b < a' * n + b' ↔ a < a' ∨ (a = a' ∧ b < b') := by
  rcases Nat.lt_trichotomy a a' with h | rfl | h
  · have hle := Nat.mul_le_mul_right n (Nat.succ_le_of_lt h)
    rw [Nat.succ_mul] at hle
    constructor
    · exact fun _ => Or.inl h
    · intro _
      omega
  · omega
  · have hle := Nat.mul_le_mul_right n (Nat.succ_le_of_lt h)
    rw [Nat.succ_mul] at hle
    omega

theorem two_digit_inj {n a b a' b' : Nat} (hb : b < n) (hb' : b' < n) (h : a * n + b = a' * n + b') :
    a = a' ∧ b = b' := by
  have hle := mt (two_digit_lt hb hb').2 (Nat.not_lt.2 h.ge)
  have hge := mt (two_digit_lt hb' hb).2 (Nat.not_lt.2 h.le)
  omega

/-- Order is kept as long as the coordinates keep theirs. -/
theorem axis_lt {outer₂ inner₂ c₂ c₂' : Nat} (hinner : inner < stride) (hinner₂ : inner₂ < stride) (hc : c < size)
    (hc₂ : c₂ < size) (hc' : c' < size') (hc₂' : c₂' < size') (hlt : c < c₂ → c' < c₂') (heq : c = c₂ → c' = c₂')
    (h : (outer * size + c) * stride + inner < (outer₂ * size + c₂) * stride + inner₂) :
    (outer * size' + c') * stride + inner < (outer₂ * size' + c₂') * stride + inner₂ := by
  rw [two_digit_lt hinner hinner₂] at h ⊢
  rcases h with h | ⟨h, hi⟩
  · left
    rw [two_digit_lt hc hc₂] at h
    rw [two_digit_lt hc' hc₂']
    rcases h with h | ⟨h, hcc⟩
    · exact Or.inl h
    · exact Or.inr ⟨h, hlt hcc⟩
  · right
    obtain ⟨rfl, hcc⟩ := two_digit_inj hc hc₂ h
    exact ⟨by rw [heq hcc], hi⟩

end Relocate

/-! ## Windows -/

/-- A window `[start, start + width)` of an axis of length `size`, moved to `[target, target + width)` of an axis of
length `size'`. -/
structure Window where
  size : Nat
  size' : Nat
  stride : Nat
  start : Nat
  width : Nat
  target : Nat
  start_le : start + width ≤ size
  target_le : target + width ≤ size'

namespace Window

variable (w : Window)

def coordinate (i : Nat) : Nat := i / w.stride % w.size

def Selects (i : Nat) : Prop := w.start ≤ w.coordinate i ∧ w.coordinate i < w.start + w.width

instance (i : Nat) : Decidable (w.Selects i) := by
  unfold Selects
  infer_instance

/-- The place of a selected element in the other tensor. -/
def move (i : Nat) : Nat := relocate w.size w.stride w.size' i (w.coordinate i - w.start + w.target)

variable {w}

theorem move_axis {outer inner c : Nat} (hinner : inner < w.stride) (hc : c < w.size) :
    w.move ((outer * w.size + c) * w.stride + inner) =
      (outer * w.size' + (c - w.start + w.target)) * w.stride + inner := by
  unfold move coordinate
  rw [axis_coordinate hinner hc, relocate_axis hinner hc]

theorem exists_axis (hstride : 0 < w.stride) (hsize : 0 < w.size) (i : Nat) :
    ∃ outer inner, inner < w.stride ∧ w.coordinate i < w.size ∧
      i = (outer * w.size + w.coordinate i) * w.stride + inner := by
  refine ⟨i / w.stride / w.size, i % w.stride, Nat.mod_lt _ hstride, Nat.mod_lt _ hsize, ?_⟩
  unfold coordinate
  rw [Nat.mul_comm _ w.size, Nat.div_add_mod, Nat.mul_comm _ w.stride, Nat.div_add_mod]

/-- **Moving a window keeps the order.** -/
theorem move_lt (hstride : 0 < w.stride) (hsize : 0 < w.size) {i j : Nat} (hi : w.Selects i) (hj : w.Selects j)
    (hlt : i < j) : w.move i < w.move j := by
  obtain ⟨outer, inner, hinner, hc, hi_eq⟩ := exists_axis hstride hsize i
  obtain ⟨outer₂, inner₂, hinner₂, hc₂, hj_eq⟩ := exists_axis hstride hsize j
  obtain ⟨hi₁, hi₂⟩ := hi
  obtain ⟨hj₁, hj₂⟩ := hj
  have htarget := w.target_le
  rw [hi_eq, hj_eq] at hlt ⊢
  rw [move_axis hinner hc, move_axis hinner₂ hc₂]
  exact axis_lt hinner hinner₂ hc hc₂ (by omega) (by omega) (by omega) (by omega) hlt

theorem move_inj (hstride : 0 < w.stride) (hsize : 0 < w.size) {i j : Nat} (hi : w.Selects i) (hj : w.Selects j)
    (heq : w.move i = w.move j) : i = j := by
  rcases Nat.lt_trichotomy i j with hlt | rfl | hlt
  · have := move_lt hstride hsize hi hj hlt
    omega
  · rfl
  · have := move_lt hstride hsize hj hi hlt
    omega

end Window

/-! ## Windows of a tensor axis -/

section Tensor

variable {shape cs : List Nat} {axis : Nat} {w : Window}

/-- The window lies along `axis` of `shape`. -/
structure Window.Along (w : Window) (shape : List Nat) (axis : Nat) : Prop where
  axis_lt : axis < shape.length
  size_eq : shape[axis]? = some w.size
  stride_eq : w.stride = RowMajor.stride shape axis

theorem Window.Along.getD_eq (h : w.Along shape axis) : shape.getD axis 0 = w.size := by
  rw [List.getD_eq_getElem?_getD, h.size_eq]
  rfl

theorem Window.Along.coordinate_eq_row (h : w.Along shape 0) {i : Nat} (hi : i < numel shape) :
    w.coordinate i = row shape i := by
  unfold Window.coordinate row
  rw [h.stride_eq]
  refine Nat.mod_eq_of_lt ?_
  have hsize := h.size_eq
  cases shape with
  | nil => cases hsize
  | cons d shape =>
      obtain rfl : d = w.size := Option.some.inj hsize
      exact Nat.div_lt_of_lt_mul (by rwa [Nat.mul_comm])

theorem InBounds.getElem?_lt (h : InBounds shape cs) {d : Nat} (hd : shape[axis]? = some d) :
    ∃ c, cs[axis]? = some c ∧ c < d := by
  induction h generalizing axis with
  | nil => cases hd
  | @cons e b ds cs hb _ ih =>
      cases axis with
      | zero =>
          cases hd
          exact ⟨b, rfl, hb⟩
      | succ axis => exact ih hd

theorem InBounds.set (h : InBounds shape cs) {d c : Nat} (hc : c < d) :
    InBounds (shape.set axis d) (cs.set axis c) := by
  induction h generalizing axis with
  | nil => exact .nil
  | cons hb htail ih =>
      cases axis with
      | zero => exact .cons hc htail
      | succ axis => exact .cons hb ih

theorem set_getElem? {α : Type} {l : List α} {k : Nat} {a : α} (h : l[k]? = some a) : l.set k a = l := by
  refine List.ext_getElem? fun j => ?_
  rw [List.getElem?_set']
  split
  · rename_i hjk
    subst hjk
    rw [h]
    rfl
  · rfl

/-- The element at `cs` seen along the axis, and what becomes of it when the window moves. -/
theorem Window.Along.move_ravel (hw : w.Along shape axis) (h : InBounds shape cs) {c : Nat} (hc : cs[axis]? = some c) :
    w.coordinate (ravel shape cs) = c ∧
      w.move (ravel shape cs) = ravel (shape.set axis w.size') (cs.set axis (c - w.start + w.target)) := by
  obtain ⟨outer, inner, hinner, hravel⟩ := ravel_axis h hw.axis_lt
  rw [← hw.stride_eq] at hinner hravel
  obtain ⟨c', hc', hlt⟩ := h.getElem?_lt hw.size_eq
  obtain rfl : c = c' := Option.some.inj (hc.symm.trans hc')
  have hself := hravel w.size c
  rw [set_getElem? hw.size_eq, set_getElem? hc] at hself
  rw [hself, hravel]
  exact ⟨axis_coordinate hinner hlt, move_axis hinner hlt⟩

theorem Window.Along.pos (hw : w.Along shape axis) (h : InBounds shape cs) : 0 < w.stride ∧ 0 < w.size := by
  obtain ⟨outer, inner, hinner, -⟩ := ravel_axis h hw.axis_lt
  obtain ⟨c, -, hlt⟩ := h.getElem?_lt hw.size_eq
  rw [← hw.stride_eq] at hinner
  omega

/-- Every moved element has coordinates inside the moved window. -/
theorem Window.Along.exists_moved (hw : w.Along shape axis) {i : Nat} (hi : i < numel shape) (hsel : w.Selects i) :
    ∃ cs c, InBounds (shape.set axis w.size') cs ∧ cs[axis]? = some c ∧ w.target ≤ c ∧ c < w.target + w.width ∧
      w.move i = ravel (shape.set axis w.size') cs := by
  have hbounds := inBounds_unravel hi
  obtain ⟨c, hc, -⟩ := hbounds.getElem?_lt hw.size_eq
  obtain ⟨hcoordinate, hmove⟩ := hw.move_ravel hbounds hc
  rw [ravel_unravel hi] at hcoordinate hmove
  obtain ⟨hlo, hhi⟩ := hsel
  rw [hcoordinate] at hlo hhi
  have htarget := w.target_le
  refine ⟨_, c - w.start + w.target, hbounds.set (by omega), ?_, by omega, by omega, hmove⟩
  rw [List.getElem?_set_self', hc]
  rfl

theorem Window.Along.move_lt_numel (hw : w.Along shape axis) {i : Nat} (hi : i < numel shape) (hsel : w.Selects i) :
    w.move i < numel (shape.set axis w.size') := by
  obtain ⟨cs, c, hcs, -, -, -, hmove⟩ := hw.exists_moved hi hsel
  rw [hmove]
  exact ravel_lt hcs

end Tensor

end RowMajor
