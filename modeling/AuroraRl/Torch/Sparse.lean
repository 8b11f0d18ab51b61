import AuroraRl.Lib.RowMajor
import AuroraRl.Torch.DType

/-!
# Tensors and sparse additive updates

* `Tensor`, `Flat`, `IndexTensor`, `Parameter` : a dense tensor in row-major order, flat lists of values and of
  indices, a model parameter;
* `applyDecodedSparseDeltaTensor` : the worker's in-place update;
* `sparseUpdate` : what it does to each element (`applyDecoded_ok`).
-/

namespace AuroraRl.Torch
open RowMajor

/-- A dense tensor; its data is laid out in row-major order. -/
structure Tensor where
  shape : List Nat
  dtype : DType
  data : List (Elem dtype)
  length_data : data.length = numel shape

/-- A one-dimensional tensor. -/
structure Flat where
  dtype : DType
  data : List (Elem dtype)

/-- A one-dimensional integer tensor that holds indices or their encoding. -/
structure IndexTensor where
  dtype : DType
  data : List Int

/-- A parameter of the inference model, with the attributes its weight loader set. -/
structure Parameter where
  tensor : Tensor
  contiguous : Bool
  inputDim : Option Int
  outputDim : Option Int
  packedDim : Option Int
  useBitsandbytes4bit : Bool

/-- The tensor whose element at the coordinates `cs` is `f cs`. -/
def Tensor.ofFn (shape : List Nat) (dtype : DType) (f : List Nat → Elem dtype) : Tensor :=
  ⟨shape, dtype, (List.range (numel shape)).map fun i => f (unravel shape i), by simp⟩

/-! ## Index lists -/

/-- `¬ any(indices[1:] <= indices[:-1])`. -/
def strictlyIncreasing (indices : List Int) : Bool := (indices.zip indices.tail).all fun p => p.1 < p.2

theorem strictlyIncreasing_iff {l : List Int} : strictlyIncreasing l = true ↔ l.Pairwise (· < ·) := by
  induction l with
  | nil => simp [strictlyIncreasing]
  | cons a l ih =>
      cases l with
      | nil => simp [strictlyIncreasing]
      | cons b l =>
          have hcons : strictlyIncreasing (a :: b :: l) = (decide (a < b) && strictlyIncreasing (b :: l)) := rfl
          rw [hcons, Bool.and_eq_true, ih, decide_eq_true_eq, List.pairwise_cons (a := a)]
          constructor
          · rintro ⟨hab, hl⟩
            refine ⟨fun c hc => ?_, hl⟩
            rcases List.mem_cons.1 hc with rfl | hc
            · exact hab
            · exact Int.lt_trans hab ((List.pairwise_cons.1 hl).1 c hc)
          · rintro ⟨ha, hl⟩
            exact ⟨ha b List.mem_cons_self, hl⟩

def indicesCoverFlatTensor (indices : List Int) (flatNumel : Nat) : Bool :=
  indices.length = flatNumel ∧ 0 < flatNumel ∧ indices.head? = some 0 ∧ indices.getLast? = some ((flatNumel : Int) - 1)

/-! ## Operations on flat data -/

def indexSelect {d : DType} (data : List (Elem d)) (indices : List Nat) : List (Elem d) :=
  indices.map fun i => data.getD i 0

def indexCopy {α : Type} (data : List α) (indices : List Nat) (source : List α) : List α :=
  (indices.zip source).foldl (fun l p => l.set p.1 p.2) data

@[simp] theorem length_indexCopy {α : Type} (data : List α) (indices : List Nat) (source : List α) :
    (indexCopy data indices source).length = data.length := by
  unfold indexCopy
  induction indices.zip source generalizing data with
  | nil => rfl
  | cons p l ih => rw [List.foldl_cons, ih, List.length_set]

/-- A tensor with other data of the same length. -/
def Tensor.withData (t : Tensor) (data : List (Elem t.dtype)) (h : data.length = t.data.length) : Tensor :=
  ⟨t.shape, t.dtype, data, h.trans t.length_data⟩

variable [FloatOps]

/-- `flat.add_(values)` on the flat view of `t`, for values of the same type. -/
def addInPlace (t : Tensor) (values : List (Elem t.dtype)) : Except PyException Tensor :=
  if h : values.length = t.data.length then .ok (t.withData (List.zipWith (add t.dtype) t.data values) (by simp [h]))
  else .error ⟨.runtimeError, "size mismatch"⟩

/-! ## The update of the worker -/

def scaleValues (scaleFactor : Option (Elem .float64)) (values : Flat) : Flat :=
  match scaleFactor with
  | none => values
  | some s => ⟨_, values.data.map (FloatOps.scale values.dtype s)⟩

def addAtIndices (t : Tensor) (indices : List Nat) (values : Flat) : Tensor :=
  let updated := List.zipWith (combine t.dtype values.dtype) (indexSelect t.data indices) values.data
  t.withData (indexCopy t.data indices updated) (length_indexCopy ..)

/-- `_apply_decoded_sparse_delta_tensor`; the scale factor `none` is the default `1.0`. -/
def applyDecodedSparseDeltaTensor (param : Parameter) (name : String) (indices : List Int) (values : Flat)
    (scaleFactor : Option (Elem .float64)) : Except PyException (Tensor × Bool) := do
  let numel := param.tensor.data.length
  raiseIf (¬ param.contiguous) ("sparse delta requires a contiguous parameter: " ++ name)
  raiseIf (indices.length ≠ values.data.length) ("sparse delta index/value length mismatch for " ++ name ++ ": "
    ++ toString indices.length ++ " vs " ++ toString values.data.length)
  if indices.length = 0 then return (param.tensor, false)
  raiseIf (indices.any (· < 0) ∨ indices.any ((numel : Int) ≤ ·)) ("sparse delta index out of range for " ++ name)
  raiseIf (1 < indices.length ∧ ¬ strictlyIncreasing indices)
    ("sparse delta indices must be strictly increasing for " ++ name)
  let values := scaleValues scaleFactor values
  let fullTensor := indicesCoverFlatTensor indices numel
  if h : fullTensor ∧ values.dtype = param.tensor.dtype then
    let tensor ← addInPlace param.tensor (h.2 ▸ values.data)
    return (tensor, fullTensor)
  else
    return (addAtIndices param.tensor (indices.map Int.toNat) values, fullTensor)

/-! ## What it does to each element -/

/-- Element `j` after the values `pairs` were added at their indices. -/
def updateElem {d d' : DType} (pairs : List (Nat × Elem d')) (j : Nat) (x : Elem d) : Elem d :=
  match pairs.lookup j with
  | some v => combine d d' x v
  | none => x

/-- `t` with the values added at the indices. -/
def sparseUpdate (t : Tensor) (indices : List Nat) (values : Flat) : Tensor :=
  t.withData (t.data.mapIdx (updateElem (indices.zip values.data))) (by simp)

omit [FloatOps] in
theorem Tensor.withData_congr {t : Tensor} {data data' : List (Elem t.dtype)} {h : data.length = t.data.length}
    {h' : data'.length = t.data.length} (heq : data = data') : t.withData data h = t.withData data' h' := by
  subst heq
  rfl

section Lookup

variable {α β : Type}

omit [FloatOps] in
theorem lookup_eq_none {l : List (Nat × α)} {j : Nat} (h : j ∉ l.map Prod.fst) : l.lookup j = none := by
  rw [List.lookup_eq_none_iff]
  intro p hp
  rw [bne_iff_ne]
  exact fun hj => h (hj ▸ List.mem_map_of_mem hp)

omit [FloatOps] in
theorem getElem?_foldl_set {l : List (Nat × α)} (hl : (l.map Prod.fst).Nodup) (data : List α) (j : Nat) :
    (l.foldl (fun l p => l.set p.1 p.2) data)[j]? = data[j]?.map fun x => (l.lookup j).getD x := by
  induction l generalizing data with
  | nil => simp
  | cons p l ih =>
      obtain ⟨i, v⟩ := p
      rw [List.map_cons, List.nodup_cons] at hl
      rw [List.foldl_cons, ih hl.2, List.lookup_cons]
      by_cases hij : j = i
      · subst hij
        rw [beq_self_eq_true, lookup_eq_none hl.1, List.getElem?_set_self']
        cases data[j]? <;> rfl
      · rw [beq_eq_false_iff_ne.2 hij, List.getElem?_set_ne (Ne.symm hij)]

omit [FloatOps] in
theorem lookup_zip_zipWith {γ : Type} (f : Nat → γ → β) (indices : List Nat) (values : List γ) (j : Nat) :
    (indices.zip (List.zipWith f indices values)).lookup j = ((indices.zip values).lookup j).map (f j) := by
  induction indices generalizing values with
  | nil => rfl
  | cons i indices ih =>
      cases values with
      | nil => rfl
      | cons v values =>
          rw [List.zipWith_cons_cons, List.zip_cons_cons, List.zip_cons_cons, List.lookup_cons, List.lookup_cons, ih]
          by_cases hij : j = i
          · subst hij
            rw [beq_self_eq_true]
            rfl
          · rw [beq_eq_false_iff_ne.2 hij]

omit [FloatOps] in
theorem lookup_zip_range' (a : Nat) (values : List α) (j : Nat) :
    ((List.range' a values.length).zip values).lookup (a + j) = values[j]? := by
  induction values generalizing a j with
  | nil => rfl
  | cons v values ih =>
      rw [List.length_cons, List.range'_succ, List.zip_cons_cons, List.lookup_cons]
      cases j with
      | zero => rw [Nat.add_zero, beq_self_eq_true, List.getElem?_cons_zero]
      | succ j =>
          have hne : a + (j + 1) ≠ a := by omega
          rw [beq_eq_false_iff_ne.2 hne, List.getElem?_cons_succ, ← ih (a + 1) j, Nat.add_right_comm, Nat.add_assoc]

end Lookup

section Range

omit [FloatOps]

theorem length_le_of_increasing {l : List Nat} {a b : Nat} (hl : l.Pairwise (· < ·)) (ha : ∀ i ∈ l, a ≤ i)
    (hb : ∀ i ∈ l, i < b) : l.length ≤ b - a := by
  induction l generalizing a with
  | nil => exact Nat.zero_le _
  | cons x l ih =>
      rw [List.pairwise_cons] at hl
      have hrest := ih (a := x + 1) hl.2 (fun i hi => hl.1 i hi) fun i hi => hb i (List.mem_cons_of_mem x hi)
      have hx := ha x List.mem_cons_self
      have hxb := hb x List.mem_cons_self
      rw [List.length_cons]
      omega

/-- Increasing indices that are as many as there are places fill them all. -/
theorem eq_range'_of_increasing {l : List Nat} {a : Nat} (hl : l.Pairwise (· < ·)) (ha : ∀ i ∈ l, a ≤ i)
    (hb : ∀ i ∈ l, i < a + l.length) : l = List.range' a l.length := by
  induction l generalizing a with
  | nil => rfl
  | cons x l ih =>
      have hlen := length_le_of_increasing (List.pairwise_cons.1 hl).2 (fun i hi => (List.pairwise_cons.1 hl).1 i hi)
        fun i hi => hb i (List.mem_cons_of_mem x hi)
      have hx := ha x List.mem_cons_self
      have hxb := hb x List.mem_cons_self
      rw [List.length_cons] at hlen hxb
      obtain rfl : x = a := by omega
      rw [List.pairwise_cons] at hl
      rw [List.length_cons, List.range'_succ]
      refine congrArg (x :: ·) (ih hl.2 (fun i hi => hl.1 i hi) fun i hi => ?_)
      have := hb i (List.mem_cons_of_mem x hi)
      rw [List.length_cons] at this
      omega

end Range

/-! ## The worker's update is the sparse update -/

/-- Indices the update accepts. -/
structure ValidIndices (indices : List Int) (n : Nat) : Prop where
  increasing : indices.Pairwise (· < ·)
  range : ∀ i ∈ indices, 0 ≤ i ∧ i < n

section Valid

variable {indices : List Int} {n : Nat}

omit [FloatOps]

theorem ValidIndices.toNat_increasing (h : ValidIndices indices n) : (indices.map Int.toNat).Pairwise (· < ·) := by
  rw [List.pairwise_map]
  refine h.increasing.imp_of_mem fun ha hb hlt => ?_
  have := (h.range _ ha).1
  omega

theorem ValidIndices.toNat_lt (h : ValidIndices indices n) {i : Nat} (hi : i ∈ indices.map Int.toNat) : i < n := by
  rw [List.mem_map] at hi
  obtain ⟨j, hj, rfl⟩ := hi
  have := h.range j hj
  omega

theorem ValidIndices.nodup (h : ValidIndices indices n) : (indices.map Int.toNat).Nodup :=
  h.toNat_increasing.imp Nat.ne_of_lt

theorem lt_of_getLast (hinc : indices.Pairwise (· < ·)) (hlast : ∀ i, indices.getLast? = some i → i < n) :
    ∀ i ∈ indices, i < n := by
  induction indices with
  | nil => exact nofun
  | cons a l ih =>
      intro i hi
      rw [List.pairwise_cons] at hinc
      cases l with
      | nil =>
          obtain rfl := List.mem_singleton.1 hi
          exact hlast _ rfl
      | cons b l =>
          have htail := ih hinc.2 hlast
          rcases List.mem_cons.1 hi with rfl | hi
          · have hab := hinc.1 b List.mem_cons_self
            have hb := htail b List.mem_cons_self
            omega
          · exact htail i hi

/-- Increasing indices are in range if the first and the last are. -/
theorem validIndices_of_ends (hinc : indices.Pairwise (· < ·)) (hfirst : ∀ i, indices.head? = some i → 0 ≤ i)
    (hlast : ∀ i, indices.getLast? = some i → i < n) : ValidIndices indices n := by
  refine ⟨hinc, fun i hi => ⟨?_, lt_of_getLast hinc hlast i hi⟩⟩
  cases indices with
  | nil => cases hi
  | cons a l =>
      have ha := hfirst a rfl
      rcases List.mem_cons.1 hi with rfl | hi
      · exact ha
      · have := (List.pairwise_cons.1 hinc).1 i hi
        omega

end Valid

theorem addAtIndices_eq {t : Tensor} {indices : List Nat} {values : Flat} (hnodup : indices.Nodup)
    (hlen : indices.length = values.data.length) : addAtIndices t indices values = sparseUpdate t indices values := by
  unfold addAtIndices
  refine Tensor.withData_congr (List.ext_getElem? fun j => ?_)
  have hupdated : List.zipWith (combine t.dtype values.dtype) (indexSelect t.data indices) values.data =
      List.zipWith (fun i v => combine t.dtype values.dtype (t.data.getD i 0) v) indices values.data := by
    unfold indexSelect
    rw [List.zipWith_map_left]
  have hkeys : ((indices.zip (List.zipWith (fun i v => combine t.dtype values.dtype (t.data.getD i 0) v) indices
      values.data)).map Prod.fst).Nodup := by
    rw [List.map_fst_zip (by simp [hlen])]
    exact hnodup
  unfold indexCopy
  rw [hupdated, getElem?_foldl_set hkeys, lookup_zip_zipWith, List.getElem?_mapIdx]
  cases hj : t.data[j]? with
  | none => rfl
  | some x =>
      unfold updateElem
      cases (indices.zip values.data).lookup j with
      | none => rfl
      | some v => simp [List.getD_eq_getElem?_getD, hj]

theorem addInPlace_eq {t : Tensor} {d : DType} {values : List (Elem d)} (h : d = t.dtype)
    (hlen : values.length = t.data.length) :
    addInPlace t (h ▸ values) = .ok (sparseUpdate t (List.range t.data.length) ⟨d, values⟩) := by
  subst h
  unfold addInPlace
  rw [dif_pos hlen]
  refine congrArg Except.ok (Tensor.withData_congr (List.ext_getElem? fun j => ?_))
  rw [List.getElem?_zipWith, List.getElem?_mapIdx]
  have hlookup := lookup_zip_range' 0 values j
  rw [Nat.zero_add, hlen, ← List.range_eq_range'] at hlookup
  unfold updateElem
  dsimp only
  rw [hlookup]
  cases hj : t.data[j]? with
  | none => rfl
  | some x =>
      cases hv : values[j]? with
      | none =>
          rw [List.getElem?_eq_none_iff] at hv
          have := (List.getElem?_eq_some_iff.1 hj).1
          omega
      | some v => simp [combine_self]

theorem sparseUpdate_nil (t : Tensor) (values : Flat) : sparseUpdate t [] values = t := by
  have hdata : t.data.mapIdx (updateElem (([] : List Nat).zip values.data)) = t.data := by
    refine List.ext_getElem? fun j => ?_
    rw [List.getElem?_mapIdx, List.zip_nil_left]
    cases t.data[j]? <;> rfl
  exact (Tensor.withData_congr hdata : sparseUpdate t [] values = t.withData t.data rfl)

omit [FloatOps] in
theorem ValidIndices.eq_range {indices : List Int} {n : Nat} (h : ValidIndices indices n)
    (hcover : indicesCoverFlatTensor indices n = true) : indices.map Int.toNat = List.range n := by
  unfold indicesCoverFlatTensor at hcover
  obtain ⟨hlen, -⟩ := of_decide_eq_true hcover
  have hmap : (indices.map Int.toNat).length = n := by rw [List.length_map, hlen]
  have heq := eq_range'_of_increasing (a := 0) h.toNat_increasing (fun _ _ => Nat.zero_le _) fun i hi => by
    have := h.toNat_lt hi
    omega
  rw [hmap] at heq
  rw [heq, List.range_eq_range']

/-- **The worker's update.** On valid indices it adds each value at its index and changes nothing else, whichever
way it takes. -/
theorem applyDecoded_ok {param : Parameter} {name : String} {indices : List Int} {values : Flat}
    {scaleFactor : Option (Elem .float64)} (hcontiguous : param.contiguous = true)
    (hlen : indices.length = values.data.length) (hvalid : ValidIndices indices param.tensor.data.length) :
    ∃ full, applyDecodedSparseDeltaTensor param name indices values scaleFactor =
      .ok (sparseUpdate param.tensor (indices.map Int.toNat) (scaleValues scaleFactor values), full) := by
  have hscaled : (scaleValues scaleFactor values).data.length = values.data.length := by
    cases scaleFactor with
    | none => rfl
    | some s => exact List.length_map ..
  unfold applyDecodedSparseDeltaTensor
  rw [raiseIf_of_not (by simp [hcontiguous]), raiseIf_of_not (by simp [hlen]), ok_bind, ok_bind]
  by_cases hempty : indices.length = 0
  · rw [List.length_eq_zero_iff] at hempty
    subst hempty
    exact ⟨false, by rw [List.map_nil, sparseUpdate_nil]; rfl⟩
  · have hany : ¬ (indices.any (· < 0) ∨ indices.any ((param.tensor.data.length : Int) ≤ ·)) := by
      simp only [List.any_eq_true, decide_eq_true_eq]
      rintro (⟨i, hi, hneg⟩ | ⟨i, hi, hge⟩)
      · have := hvalid.range i hi
        omega
      · have := hvalid.range i hi
        omega
    rw [if_neg hempty, raiseIf_of_not hany,
      raiseIf_of_not (fun h => h.2 (strictlyIncreasing_iff.2 hvalid.increasing)), ok_bind, ok_bind]
    dsimp only
    refine ⟨indicesCoverFlatTensor indices param.tensor.data.length, ?_⟩
    split
    · rename_i h
      have hcount : (scaleValues scaleFactor values).data.length = param.tensor.data.length := by
        rw [hscaled, ← hlen, ← List.length_map (f := Int.toNat), hvalid.eq_range h.1, List.length_range]
      rw [addInPlace_eq h.2 hcount, ok_bind, hvalid.eq_range h.1]
      rfl
    · rw [addAtIndices_eq hvalid.nodup (by rw [List.length_map, hlen, hscaled])]
      rfl

end AuroraRl.Torch
