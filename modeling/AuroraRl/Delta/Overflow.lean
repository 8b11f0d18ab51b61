import AuroraRl.Delta.Varint
import AuroraRl.Layout.Commutes

/-!
# Sums and shifts of the index decoder in `int64`

* `groupDiffInt64` : the number of a group in `int64`; groups of nine bytes fit (`toInt_groupDiffInt64`);
* `cumsum_of_nonneg` : a sum that wraps around is negative;
* `noAcceptedOverflow` : accepted indices are the true sums.
-/

namespace AuroraRl.Delta
open Bytes Layout Torch

/-! ## Shifts -/

/-- `diffs[active] |= payload.astype(int64) << (7 * offset)` over the bytes of one group. -/
def groupDiffInt64 (group : List Byte) : BitVec 64 :=
  group.zipIdx.foldl (fun diff p => diff ||| (p.1 &&& 0x7F#8).setWidth 64 <<< (7 * p.2)) 0#64

theorem foldl_groupDiffInt64 (group : List Byte) (offset : Nat) (diff : BitVec 64) (h : diff.toNat < 2 ^ (7 * offset))
    (hlen : offset + group.length ≤ 9) :
    ((group.zipIdx offset).foldl (fun diff p => diff ||| (p.1 &&& 0x7F#8).setWidth 64 <<< (7 * p.2)) diff).toNat =
      diff.toNat + 2 ^ (7 * offset) * varintValue group := by
  induction group generalizing offset diff with
  | nil => simp [varintValue]
  | cons b group ih =>
      rw [List.length_cons] at hlen
      have hpayload := payload_lt b
      have hpow : 2 ^ (7 * (offset + 1)) = 2 ^ (7 * offset) * 128 := by rw [Nat.mul_add, Nat.pow_add]
      have hbound : 2 ^ (7 * (offset + 1)) ≤ 2 ^ 64 := Nat.pow_le_pow_right (by decide) (by omega)
      have hfits : (b &&& 0x7F#8).toNat * 2 ^ (7 * offset) < 2 ^ 64 := by
        have := Nat.mul_lt_mul_of_pos_right hpayload (Nat.two_pow_pos (7 * offset))
        omega
      have hshift : ((b &&& 0x7F#8).setWidth 64 <<< (7 * offset)).toNat = (b &&& 0x7F#8).toNat <<< (7 * offset) := by
        have hwidth : (b &&& 0x7F#8).toNat % 2 ^ 64 = (b &&& 0x7F#8).toNat := Nat.mod_eq_of_lt (by omega)
        rw [BitVec.toNat_shiftLeft, BitVec.toNat_setWidth, hwidth, Nat.shiftLeft_eq, Nat.mod_eq_of_lt hfits]
      have hor : (diff ||| (b &&& 0x7F#8).setWidth 64 <<< (7 * offset)).toNat =
          diff.toNat + 2 ^ (7 * offset) * (b &&& 0x7F#8).toNat := by
        rw [BitVec.toNat_or, hshift, or_shiftLeft_eq h]
      rw [List.zipIdx_cons, List.foldl_cons, ih (offset + 1) _ (by rw [hor]; exact add_payload_lt b h) (by omega), hor,
        varintValue, hpow]
      ring

/-- No shift of a group of nine bytes leaves `int64`. -/
theorem toInt_groupDiffInt64 {group : List Byte} (h : group.length ≤ 9) :
    (groupDiffInt64 group).toInt = varintValue group := by
  have hvalue : (groupDiffInt64 group).toNat = varintValue group := by
    have hfold := foldl_groupDiffInt64 group 0 0#64 (by decide) (by omega)
    rwa [BitVec.toNat_ofNat, Nat.zero_mod, Nat.mul_zero, Nat.pow_zero, Nat.one_mul, Nat.zero_add] at hfold
  have hlt := varintValue_lt group
  have hbound : 2 ^ (7 * group.length) ≤ 2 ^ 63 := Nat.pow_le_pow_right (by decide) (by omega)
  rw [BitVec.toInt_eq_toNat_of_lt (by omega), hvalue]

/-! ## Sums -/

/-- A sum of two numbers below `2 ^ 63` that does not fit comes out negative. -/
theorem lt_of_wrapInt64_nonneg {n : Nat} (h : n < 2 ^ 64) (h0 : 0 ≤ wrapInt64 n) : n < 2 ^ 63 := by
  by_contra hlarge
  have hwrap : wrapInt64 n = (n : Int) - 2 ^ 64 := by
    unfold wrapInt64
    rw [BitVec.toInt_ofInt, Int.bmod_def]
    omega
  omega

theorem cumsum_of_nonneg {sum : Nat} {ds : List Nat} (hsum : sum < 2 ^ 63) (hds : ∀ d ∈ ds, d < 2 ^ 63)
    (h : ∀ i ∈ cumsum sum ds, 0 ≤ i) : cumsum sum ds = prefixSums sum ds := by
  induction ds generalizing sum with
  | nil => rfl
  | cons d ds ih =>
      have hd := hds d List.mem_cons_self
      rw [cumsum, ← Int.natCast_add] at h
      have hnext : sum + d < 2 ^ 63 := lt_of_wrapInt64_nonneg (by omega) (h _ List.mem_cons_self)
      have hwrap : wrapInt64 ((sum + d : Nat) : Int) = ((sum + d : Nat) : Int) := wrapInt64_of_lt (by omega) (by omega)
      rw [hwrap] at h
      rw [cumsum, prefixSums, ← Int.natCast_add, hwrap,
        ih hnext (fun d' hd' => hds d' (List.mem_cons_of_mem d hd')) fun i hi => h i (List.mem_cons_of_mem _ hi)]

/-! ## The checks -/

variable [FloatOps]

/-- `reconstruct_sparse_delta_tensor`; the scale factor `none` is the default `1.0`. -/
def reconstructSparseDeltaTensor (baseTensor : Tensor) (encodedIndices values : Flat)
    (scaleFactor : Option (Elem .float64)) : Except PyException Tensor := do
  let indices ← decodeSparseIndices encodedIndices values.data.length
  if indices.data.length = 0 then return baseTensor
  raiseIf (indices.data.any (· < 0) ∨ indices.data.any ((baseTensor.data.length : Int) ≤ ·))
    "sparse delta index out of range"
  return addAtIndices baseTensor (indices.data.map Int.toNat) (scaleValues scaleFactor values)

/-- Where indices decoded from `encoded` are checked: by the layout adapter of the worker, by its update in place, and
by the reconstruction. -/
inductive Accepted (encoded : Flat) (indices : IndexTensor) : Prop
  | layout {update : LogicalSparseUpdate} (hindices : update.indices = indices) (h : validateUpdate update = .ok ())
  | inPlace {param : Parameter} {name : String} {values : Flat} {scaleFactor : Option (Elem .float64)}
    {result : Tensor × Bool} (h : applyDecodedSparseDeltaTensor param name indices.data values scaleFactor = .ok result)
  | reconstruction {baseTensor : Tensor} {values : Flat} {scaleFactor : Option (Elem .float64)} {result : Tensor}
    (hindices : decodeSparseIndices encoded values.data.length = .ok indices)
    (h : reconstructSparseDeltaTensor baseTensor encoded values scaleFactor = .ok result)

theorem Accepted.nonneg {encoded : Flat} {indices : IndexTensor} (h : Accepted encoded indices) :
    ∀ i ∈ indices.data, 0 ≤ i := by
  have hany : ∀ {n : Int}, ¬ (indices.data.any (· < 0) ∨ indices.data.any (n ≤ ·)) → ∀ i ∈ indices.data, 0 ≤ i := by
    intro n hany i hi
    by_contra hneg
    exact hany (.inl (List.any_eq_true.2 ⟨i, hi, decide_eq_true (by omega)⟩))
  cases h with
  | layout hindices h =>
      subst hindices
      exact fun i hi => ((validateUpdate_ok h).2.range i hi).1
  | inPlace h =>
      unfold applyDecodedSparseDeltaTensor at h
      simp only [bind_eq_ok, raiseIf_eq_ok] at h
      obtain ⟨-, -, -, -, h⟩ := h
      split at h
      · rename_i hnil
        rw [List.length_eq_zero_iff.1 hnil]
        exact fun i hi => absurd hi List.not_mem_nil
      · obtain ⟨_, hrange, -⟩ := bind_eq_ok.1 h
        exact hany (raiseIf_eq_ok.1 hrange)
  | reconstruction hindices h =>
      unfold reconstructSparseDeltaTensor at h
      rw [hindices, ok_bind] at h
      split at h
      · rename_i hnil
        rw [List.length_eq_zero_iff.1 hnil]
        exact fun i hi => absurd hi List.not_mem_nil
      · obtain ⟨_, hrange, -⟩ := bind_eq_ok.1 h
        exact hany (raiseIf_eq_ok.1 hrange)

/-- **Main.** Decoded indices that pass a check are the sums of the encoded deltas, none of which lost bits in `int64`. -/
theorem noAcceptedOverflow {encoded : List Byte} {count : Nat} {indices : IndexTensor}
    (hdecode : decodeSparseIndices ⟨.uint8, encoded⟩ count = .ok indices) (haccept : Accepted ⟨.uint8, encoded⟩ indices) :
    indices.data = prefixSums 0 (deltas encoded) ∧
      ∀ g ∈ (splitGroups encoded).1, (groupDiffInt64 g).toInt = varintValue g := by
  obtain ⟨decoded, hdecoded, rfl⟩ := map_eq_ok.1 hdecode
  obtain ⟨-, hshort, -, rfl⟩ := decodeVarintDeltaIndices_eq_ok.1 hdecoded
  refine ⟨cumsum_of_nonneg (by decide) (fun d hd => ?_) haccept.nonneg, fun g hg => toInt_groupDiffInt64 (hshort g hg)⟩
  obtain ⟨g, hg, rfl⟩ := List.mem_map.1 hd
  have hbound : 2 ^ (7 * g.length) ≤ 2 ^ 63 := Nat.pow_le_pow_right (by decide) (by have := hshort g hg; omega)
  exact Nat.lt_of_lt_of_le (varintValue_lt g) hbound

/-- Two groups, of one and of two bytes. -/
def twoGroups : List Byte := [0x05#8, 0x80#8, 0x01#8]

omit [FloatOps] in
/-- Their indices pass the check of the layout adapter. -/
theorem noAcceptedOverflow_twoGroups : [5, 133] = prefixSums 0 (deltas twoGroups) ∧
    ∀ g ∈ (splitGroups twoGroups).1, (groupDiffInt64 g).toInt = varintValue g :=
  @noAcceptedOverflow bitOps twoGroups 2 ⟨.int64, [5, 133]⟩ rfl
    (@Accepted.layout bitOps _ _ ⟨"weight", [200], ⟨.int64, [5, 133]⟩, ⟨.int64, [1, 1]⟩⟩ rfl rfl)

end AuroraRl.Delta
