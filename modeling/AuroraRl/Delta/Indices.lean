import AuroraRl.Lib.Bytes
import AuroraRl.Torch.Sparse

/-!
# Sparse indices and their encodings

* `encodeSparseIndices`, `decodeSparseIndices` : the varint and the raw encoding of an index list;
* `decode_encode` : what was encoded is decoded.
-/

namespace AuroraRl.Delta
open Bytes Torch

/-! ## Encoding -/

/-- `_encode_varint_delta_indices_numba`, with the index before the first. -/
def encodeVarint : Nat → List Int → Except PyException (List Byte)
  | _, [] => .ok []
  | previous, current :: indices => do
    raiseIf (current < 0) "sparse delta indices must be non-negative"
    raiseIf (current < previous) "varint delta encoding expects sorted indices"
    let rest ← encodeVarint current.toNat indices
    return varint (current.toNat - previous) ++ rest

def encodeVarintDeltaIndices (indices : List Int) : Except PyException Flat :=
  (encodeVarint 0 indices).map fun bytes => ⟨.uint8, bytes⟩

def storeIndices (d : DType) (indices : List Int) : Flat := ⟨d, indices.map (BitVec.ofInt _)⟩

def encodeSparseIndices (indices : List Int) (encoding : String) : Except PyException Flat :=
  if encoding = "optimized" then encodeVarintDeltaIndices indices
  else if encoding = "naive" then
    .ok (storeIndices (if indices.all (· < 2 ^ 31) then .int32 else .int64) indices)
  else raiseValueError ("unsupported sparse index encoding: " ++ encoding)

/-! ## Decoding -/

/-- The `int64` with the low bits of `n`. -/
def wrapInt64 (n : Int) : Int := (BitVec.ofInt 64 n).toInt

/-- `numpy.cumsum` in `int64`, with the sum so far. -/
def cumsum : Int → List Nat → List Int
  | _, [] => []
  | sum, diff :: diffs => wrapInt64 (sum + diff) :: cumsum (wrapInt64 (sum + diff)) diffs

/-- The positions of the bytes that end a group, with the position of the first byte. -/
def endPositions : Nat → List Byte → List Nat
  | _, [] => []
  | position, b :: encoded =>
    if isTerminal b then position :: endPositions (position + 1) encoded else endPositions (position + 1) encoded

/-- `diffs |= payload << (7 * offset)` over the bytes of one group; groups of nine bytes fit `int64`. -/
def groupDiff (group : List Byte) : Nat :=
  group.zipIdx.foldl (fun diff p => diff ||| (p.1 &&& 0x7F#8).toNat <<< (7 * p.2)) 0

/-- `_decode_varint_delta_indices_numpy`. -/
def decodeVarintGroups (encoded : List Byte) (expectedCount : Nat) : Except PyException (List Int) := do
  let ends := endPositions 0 encoded
  if ends.length ≠ expectedCount then
    raiseIf (encoded.getLast?.any fun b => ! isTerminal b) "truncated varint stream"
    raiseIf (expectedCount < ends.length) "decoded more indices than expected"
    raiseValueError ("decoded index count mismatch: " ++ toString ends.length ++ " vs " ++ toString expectedCount)
  else if ends.length = 0 then
    -- `start_positions[0] = 0`
    .error ⟨.indexError, "index 0 is out of bounds for axis 0 with size 0"⟩
  else
    let starts := 0 :: ends.dropLast.map (· + 1)
    let groups := List.zipWith (fun first last => (encoded.drop first).take (last + 1 - first)) starts ends
    raiseIf (groups.any fun group => 9 < group.length)
      "varint stream contains an index delta that does not fit int64"
    return cumsum 0 (groups.map groupDiff)

def decodeVarintDeltaIndices (encoded : List Byte) (expectedCount : Nat) : Except PyException (List Int) := do
  if expectedCount = 0 then
    raiseIf (encoded.length ≠ 0) "expected no indices, but varint stream is not empty"
    return []
  else if encoded.length = expectedCount ∧ encoded.all isTerminal then return cumsum 0 (encoded.map BitVec.toNat)
  else decodeVarintGroups encoded expectedCount

def decodeSparseIndices : Flat → Nat → Except PyException IndexTensor
  | ⟨.uint8, encoded⟩, valueCount => (decodeVarintDeltaIndices encoded valueCount).map fun l => ⟨.int64, l⟩
  | ⟨.int32, encoded⟩, valueCount => raw (encoded.map BitVec.toInt) valueCount
  | ⟨.int64, encoded⟩, valueCount => raw (encoded.map BitVec.toInt) valueCount
  | ⟨d, _⟩, _ => raiseValueError ("unsupported sparse index dtype: " ++ d.text)
where
  raw (indices : List Int) (valueCount : Nat) : Except PyException IndexTensor := do
    raiseIf (indices.length ≠ valueCount)
      ("index/value length mismatch: " ++ toString indices.length ++ " vs " ++ toString valueCount)
    return ⟨.int64, indices⟩

/-! ## Groups -/

/-- A group: its last byte ends it, no other does. -/
def IsGroup (g : List Byte) : Prop := ∃ l b, g = l ++ [b] ∧ (∀ c ∈ l, isTerminal c = false) ∧ isTerminal b = true

theorem endPositions_group {g : List Byte} (h : IsGroup g) (position : Nat) (rest : List Byte) :
    endPositions position (g ++ rest) = (position + g.length - 1) :: endPositions (position + g.length) rest := by
  obtain ⟨l, b, rfl, hl, hb⟩ := h
  induction l generalizing position with
  | nil =>
      rw [List.nil_append, List.singleton_append, endPositions, if_pos hb]
      rfl
  | cons c l ih =>
      have hc := hl c List.mem_cons_self
      have htail := ih (position + 1) fun d hd => hl d (List.mem_cons_of_mem c hd)
      rw [List.cons_append, List.cons_append, endPositions, hc, if_neg Bool.false_ne_true, htail, List.length_cons]
      have hlen : position + 1 + (l ++ [b]).length = position + ((l ++ [b]).length + 1) := by omega
      rw [hlen]

theorem endPositions_rest {rest : List Byte} (h : ∀ b ∈ rest, isTerminal b = false) (position : Nat) :
    endPositions position rest = [] := by
  induction rest generalizing position with
  | nil => rfl
  | cons b rest ih =>
      have hb := h b List.mem_cons_self
      rw [endPositions, hb, if_neg Bool.false_ne_true]
      exact ih (fun c hc => h c (List.mem_cons_of_mem b hc)) _

theorem length_endPositions {gs : List (List Byte)} (h : ∀ g ∈ gs, IsGroup g) {rest : List Byte}
    (hrest : ∀ b ∈ rest, isTerminal b = false) (position : Nat) :
    (endPositions position (gs.flatten ++ rest)).length = gs.length := by
  induction gs generalizing position with
  | nil =>
      rw [List.flatten_nil, List.nil_append, endPositions_rest hrest]
      rfl
  | cons g gs ih =>
      rw [List.flatten_cons, List.append_assoc, endPositions_group (h g List.mem_cons_self), List.length_cons,
        List.length_cons, ih fun g' hg' => h g' (List.mem_cons_of_mem g hg')]

theorem zipWith_starts {α : Type} (f : Nat → Nat → α) (start last : Nat) (ends : List Nat) :
    List.zipWith f (start :: (last :: ends).dropLast.map (· + 1)) (last :: ends) =
      f start last :: List.zipWith f ((last + 1) :: ends.dropLast.map (· + 1)) ends := by
  cases ends with
  | nil => rfl
  | cons e ends => rfl

theorem slices_eq {gs : List (List Byte)} (h : ∀ g ∈ gs, IsGroup g) {rest : List Byte}
    (hrest : ∀ b ∈ rest, isTerminal b = false) (before : List Byte) :
    List.zipWith (fun first last => ((before ++ (gs.flatten ++ rest)).drop first).take (last + 1 - first))
      (before.length :: (endPositions before.length (gs.flatten ++ rest)).dropLast.map (· + 1))
      (endPositions before.length (gs.flatten ++ rest)) = gs := by
  induction gs generalizing before with
  | nil =>
      rw [List.flatten_nil, List.nil_append, endPositions_rest hrest]
      rfl
  | cons g gs ih =>
      have hg := h g List.mem_cons_self
      have hpos : 0 < g.length := by
        obtain ⟨l, b, rfl, -, -⟩ := hg
        rw [List.length_append, List.length_singleton]
        omega
      have htail := ih (fun g' hg' => h g' (List.mem_cons_of_mem g hg')) (before ++ g)
      rw [List.append_assoc, List.length_append] at htail
      have hlast : before.length + g.length - 1 + 1 = before.length + g.length := by omega
      rw [List.flatten_cons, List.append_assoc, endPositions_group hg, zipWith_starts, hlast, htail, List.drop_left,
        Nat.add_sub_cancel_left, List.take_left]

/-! ## The value of a group -/

theorem or_shiftLeft_eq {diff k : Nat} (h : diff < 2 ^ (7 * k)) (n : Nat) :
    diff ||| n <<< (7 * k) = diff + 2 ^ (7 * k) * n := by
  rw [Nat.or_comm, Nat.shiftLeft_eq, Nat.mul_comm, Nat.add_comm]
  exact (Nat.two_pow_add_eq_or_of_lt h _).symm

theorem add_payload_lt {diff k : Nat} (b : Byte) (h : diff < 2 ^ (7 * k)) :
    diff + 2 ^ (7 * k) * (b &&& 0x7F#8).toNat < 2 ^ (7 * (k + 1)) := by
  have hb := payload_lt b
  have hpow : 2 ^ (7 * (k + 1)) = 2 ^ (7 * k) * 128 := by
    rw [Nat.mul_add, Nat.pow_add]
  have := Nat.mul_le_mul_left (2 ^ (7 * k)) (show (b &&& 0x7F#8).toNat + 1 ≤ 128 by omega)
  rw [Nat.mul_add, Nat.mul_one] at this
  omega

theorem foldl_groupDiff (g : List Byte) (offset diff : Nat) (h : diff < 2 ^ (7 * offset)) :
    (g.zipIdx offset).foldl (fun diff p => diff ||| (p.1 &&& 0x7F#8).toNat <<< (7 * p.2)) diff =
      diff + 2 ^ (7 * offset) * varintValue g := by
  induction g generalizing offset diff with
  | nil => rw [varintValue, Nat.mul_zero]; rfl
  | cons b g ih =>
      rw [List.zipIdx_cons, List.foldl_cons, or_shiftLeft_eq h, ih _ _ (add_payload_lt b h), varintValue, Nat.mul_add 7,
        Nat.pow_add]
      ring

theorem groupDiff_eq (g : List Byte) : groupDiff g = varintValue g := by
  have h := foldl_groupDiff g 0 0 (by decide)
  rw [Nat.mul_zero, Nat.pow_zero, Nat.one_mul, Nat.zero_add] at h
  exact h

/-! ## Round trip -/

/-- The steps between consecutive indices. -/
def diffs : Nat → List Int → List Nat
  | _, [] => []
  | previous, i :: indices => (i.toNat - previous) :: diffs i.toNat indices

theorem encodeVarint_ok {previous : Nat} {indices : List Int} {bytes : List Byte}
    (h : encodeVarint previous indices = .ok bytes) :
    bytes = ((diffs previous indices).map varint).flatten ∧ ∀ i ∈ indices, (previous : Int) ≤ i := by
  induction indices generalizing previous bytes with
  | nil =>
      cases h
      exact ⟨rfl, nofun⟩
  | cons i indices ih =>
      simp only [encodeVarint, bind_eq_ok, raiseIf_eq_ok] at h
      obtain ⟨-, hneg, -, hlt, rest, hrest, hbytes⟩ := h
      cases hbytes
      obtain ⟨rfl, hall⟩ := ih hrest
      refine ⟨rfl, fun j hj => ?_⟩
      rcases List.mem_cons.1 hj with rfl | hj
      · omega
      · have := hall j hj
        omega

theorem wrapInt64_of_lt {n : Int} (h0 : 0 ≤ n) (h : n < 2 ^ 63) : wrapInt64 n = n := by
  unfold wrapInt64
  rw [BitVec.toInt_ofInt, Int.bmod_eq_of_le] <;> omega

theorem cumsum_diffs {previous : Nat} {indices : List Int} (hinc : indices.Pairwise (· ≤ ·))
    (hprev : ∀ i ∈ indices, (previous : Int) ≤ i) (hlt : ∀ i ∈ indices, i < 2 ^ 63) :
    cumsum previous (diffs previous indices) = indices := by
  induction indices generalizing previous with
  | nil => rfl
  | cons i indices ih =>
      rw [List.pairwise_cons] at hinc
      have hi := hprev i List.mem_cons_self
      have hbound := hlt i List.mem_cons_self
      have hsum : (previous : Int) + ((i.toNat - previous : Nat) : Int) = i := by omega
      have hprev' : ∀ j ∈ indices, ((i.toNat : Nat) : Int) ≤ j := fun j hj => by
        have := hinc.1 j hj
        omega
      have htail := ih hinc.2 hprev' fun j hj => hlt j (List.mem_cons_of_mem i hj)
      rw [Int.toNat_of_nonneg (by omega)] at htail
      rw [diffs, cumsum, hsum, wrapInt64_of_lt (by omega) hbound, htail]

theorem diffs_lt (previous : Nat) {indices : List Int} (hlt : ∀ i ∈ indices, i < 2 ^ 63) :
    ∀ d ∈ diffs previous indices, d < 128 ^ 9 := by
  induction indices generalizing previous with
  | nil => exact nofun
  | cons i indices ih =>
      intro d hd
      rw [diffs] at hd
      rcases List.mem_cons.1 hd with rfl | hd
      · have := hlt i List.mem_cons_self
        omega
      · exact ih _ (fun j hj => hlt j (List.mem_cons_of_mem i hj)) d hd

theorem length_diffs (previous : Nat) (indices : List Int) : (diffs previous indices).length = indices.length := by
  induction indices generalizing previous with
  | nil => rfl
  | cons i indices ih => rw [diffs, List.length_cons, List.length_cons, ih]

theorem decodeVarintGroups_varints {ds : List Nat} (hne : ds ≠ []) (h : ∀ d ∈ ds, d < 128 ^ 9) :
    decodeVarintGroups (ds.map varint).flatten ds.length = .ok (cumsum 0 ds) := by
  have hgroups : ∀ g ∈ ds.map varint, IsGroup g := by
    intro g hg
    obtain ⟨d, -, rfl⟩ := List.mem_map.1 hg
    exact varint_eq d
  have hlen : (endPositions 0 (ds.map varint).flatten).length = ds.length := by
    have := @length_endPositions _ hgroups [] nofun 0
    rwa [List.append_nil, List.length_map] at this
  have hslices := @slices_eq _ hgroups [] nofun []
  rw [List.append_nil, List.nil_append, List.length_nil] at hslices
  have hshort : ¬ ((ds.map varint).any fun group => decide (9 < group.length)) = true := by
    rw [Bool.not_eq_true, List.any_eq_false]
    intro g hg
    obtain ⟨d, hd, rfl⟩ := List.mem_map.1 hg
    have := length_varint_le (by decide) (h d hd)
    rw [decide_eq_true_eq]
    omega
  have hdiffs : (ds.map varint).map groupDiff = ds := by
    rw [List.map_map]
    refine (List.map_congr_left fun d _ => ?_).trans (List.map_id ds)
    exact (groupDiff_eq _).trans (varintValue_varint d)
  unfold decodeVarintGroups
  dsimp only
  rw [if_neg (not_not_intro hlen), if_neg (hlen ▸ mt List.length_eq_zero_iff.1 hne), hslices, raiseIf_of_not hshort, ok_bind,
    hdiffs]
  rfl

theorem map_toNat_of_terminal {ds : List Nat} (hlen : (ds.map varint).flatten.length = ds.length)
    (hall : ∀ b ∈ (ds.map varint).flatten, isTerminal b = true) : (ds.map varint).flatten.map BitVec.toNat = ds := by
  induction ds with
  | nil => rfl
  | cons d ds ih =>
      have hvarint : varint d = [BitVec.ofNat 8 d] ∧ d < 128 := by
        by_cases hd : d < 128
        · rw [varint, dif_pos hd]
          exact ⟨rfl, hd⟩
        · exfalso
          have hmod : d % 128 < 128 := Nat.mod_lt d (by decide)
          have hmem : BitVec.ofNat 8 (d % 128) ||| 0x80#8 ∈ ((d :: ds).map varint).flatten := by
            rw [List.map_cons, List.flatten_cons, varint, dif_neg hd]
            exact List.mem_append_left _ List.mem_cons_self
          have := hall _ hmem
          rw [(small_byte hmod).2.2.1] at this
          exact Bool.false_ne_true this
      rw [List.map_cons, List.flatten_cons, hvarint.1] at hlen hall ⊢
      rw [List.length_append, List.length_singleton, List.length_cons] at hlen
      rw [List.singleton_append, List.map_cons, ih (by omega) fun b hb => hall b (List.mem_cons_of_mem _ hb),
        BitVec.toNat_ofNat, Nat.mod_eq_of_lt (by have := hvarint.2; omega)]

theorem decodeVarint_varints {ds : List Nat} (h : ∀ d ∈ ds, d < 128 ^ 9) :
    decodeVarintDeltaIndices (ds.map varint).flatten ds.length = .ok (cumsum 0 ds) := by
  unfold decodeVarintDeltaIndices
  split
  · rename_i hzero
    rw [List.length_eq_zero_iff] at hzero
    subst hzero
    rfl
  · rename_i hpos
    split
    · rename_i hfast
      rw [map_toNat_of_terminal hfast.1 (List.all_eq_true.1 hfast.2)]
      rfl
    · exact decodeVarintGroups_varints (mt List.length_eq_zero_iff.2 hpos) h

theorem map_toInt_ofInt {w : Nat} {indices : List Int} (h0 : ∀ i ∈ indices, 0 ≤ i)
    (h : ∀ i ∈ indices, 2 * i < 2 ^ w) : (indices.map (BitVec.ofInt w)).map BitVec.toInt = indices := by
  rw [List.map_map]
  refine (List.map_congr_left fun i hi => ?_).trans (List.map_id indices)
  have hnonneg := h0 i hi
  have hlt := h i hi
  rw [Function.comp_apply, BitVec.toInt_ofInt]
  refine Int.bmod_eq_of_le ?_ ?_ <;> push_cast <;> omega

theorem decode_optimized {indices : List Int} {bytes : List Byte} (hmono : indices.Pairwise (· ≤ ·))
    (hlt : ∀ i ∈ indices, i < 2 ^ 63) (h : encodeVarint 0 indices = .ok bytes) :
    decodeVarintDeltaIndices bytes indices.length = .ok indices := by
  obtain ⟨rfl, hall⟩ := encodeVarint_ok h
  have hdecode := decodeVarint_varints (diffs_lt 0 hlt)
  have hsum : cumsum (0 : Nat) (diffs 0 indices) = indices := cumsum_diffs hmono hall hlt
  rwa [length_diffs, Int.natCast_zero.symm, hsum] at hdecode

theorem decode_naive {indices : List Int} (hnonneg : ∀ i ∈ indices, 0 ≤ i) (hlt : ∀ i ∈ indices, i < 2 ^ 63) :
    decodeSparseIndices (storeIndices (if indices.all (· < 2 ^ 31) then .int32 else .int64) indices) indices.length =
      .ok ⟨.int64, indices⟩ := by
  have hraw : decodeSparseIndices.raw indices indices.length = .ok ⟨.int64, indices⟩ := by
    unfold decodeSparseIndices.raw
    rw [raiseIf_of_not (not_not_intro rfl)]
    rfl
  split
  · rename_i hsmall
    show decodeSparseIndices.raw _ _ = _
    have hround : (indices.map (BitVec.ofInt 32)).map BitVec.toInt = indices :=
      map_toInt_ofInt hnonneg fun i hi => by
        have := of_decide_eq_true (List.all_eq_true.1 hsmall i hi)
        omega
    rw [← hraw]
    exact congrArg (decodeSparseIndices.raw · _) hround
  · show decodeSparseIndices.raw _ _ = _
    have hround : (indices.map (BitVec.ofInt 64)).map BitVec.toInt = indices :=
      map_toInt_ofInt hnonneg fun i hi => by
        have := hlt i hi
        omega
    rw [← hraw]
    exact congrArg (decodeSparseIndices.raw · _) hround

/-- **Round trip of the indices**, for increasing indices of a tensor with at most `2 ^ 63` elements. -/
theorem decode_encode {indices : List Int} {encoding : String} {encoded : Flat} {n : Nat}
    (hvalid : ValidIndices indices n) (hn : n ≤ 2 ^ 63) (h : encodeSparseIndices indices encoding = .ok encoded) :
    decodeSparseIndices encoded indices.length = .ok ⟨.int64, indices⟩ ∧
      encoded.dtype ∈ [DType.uint8, .int32, .int64] := by
  have hlt : ∀ i ∈ indices, i < 2 ^ 63 := fun i hi => by
    have := (hvalid.range i hi).2
    omega
  have hnonneg : ∀ i ∈ indices, 0 ≤ i := fun i hi => (hvalid.range i hi).1
  unfold encodeSparseIndices at h
  split at h
  · unfold encodeVarintDeltaIndices at h
    cases hbytes : encodeVarint 0 indices with
    | error e =>
        rw [hbytes] at h
        cases h
    | ok bytes =>
        rw [hbytes] at h
        cases h
        refine ⟨?_, List.mem_cons_self⟩
        show (decodeVarintDeltaIndices _ _).map _ = _
        rw [decode_optimized (hvalid.increasing.imp Int.le_of_lt) hlt hbytes]
        rfl
  · split at h
    · cases h
      refine ⟨decode_naive hnonneg hlt, ?_⟩
      show (if indices.all (· < 2 ^ 31) then DType.int32 else .int64) ∈ _
      split <;> simp
    · cases h

end AuroraRl.Delta
