import AuroraRl.Delta.Varint

/-!
# The two passes of the index encoder

* `encodedSize`, `writeIndices` : the pass that sizes the output and the pass that fills it;
* `writeIndices_eq` : the second fills exactly what the first counted;
* `indexCodec_roundTrip` : both encodings of nondecreasing indices are decoded.
-/

namespace AuroraRl.Delta
open Bytes Torch

/-- The bytes counted for one difference. -/
def varintSize (diff : Nat) : Nat := if _ : 0x80 ≤ diff then 1 + varintSize (diff >>> 7) else 1
termination_by diff
decreasing_by
  rw [Nat.shiftRight_eq_div_pow]
  omega

/-- The first loop of `_encode_varint_delta_indices_numba`, after the index `previous` and `size` bytes. -/
def encodedSize : Nat → Nat → List Int → Except PyException Nat
  | _, size, [] => .ok size
  | previous, size, current :: indices => do
    raiseIf (current < 0) "sparse delta indices must be non-negative"
    raiseIf (current < previous) "varint delta encoding expects sorted indices"
    encodedSize current.toNat (size + varintSize (current.toNat - previous)) indices

/-- The bytes of one difference, written from `outputIndex` on. -/
def writeDiff (encoded : List Byte) (outputIndex diff : Nat) : List Byte × Nat :=
  if _ : 0x80 ≤ diff then
    writeDiff (encoded.set outputIndex (BitVec.ofNat 8 (diff &&& 0x7F) ||| 0x80#8)) (outputIndex + 1) (diff >>> 7)
  else (encoded.set outputIndex (BitVec.ofNat 8 diff), outputIndex + 1)
termination_by diff
decreasing_by
  rw [Nat.shiftRight_eq_div_pow]
  omega

/-- The second loop, after the index `previous`. -/
def writeIndices : Nat → List Byte × Nat → List Int → List Byte × Nat
  | _, written, [] => written
  | previous, (encoded, outputIndex), current :: indices =>
    writeIndices current.toNat (writeDiff encoded outputIndex (current.toNat - previous)) indices

/-- `_encode_varint_delta_indices_numba`, where `empty` is what `numpy.empty` finds in memory. -/
def encodeVarintDeltaIndicesNumba (empty : (size : Nat) → Vector Byte size) (indices : List Int) :
    Except PyException (List Byte) := do
  let size ← encodedSize 0 0 indices
  return (writeIndices 0 ((empty size).toList, 0) indices).1

/-! ## The first pass -/

theorem varintSize_eq (diff : Nat) : varintSize diff = (varint diff).length := by
  induction diff using varint.induct with
  | case1 n h =>
      rw [varintSize, varint, dif_pos h, dif_neg (by omega)]
      rfl
  | case2 n h ih =>
      rw [varintSize, varint, dif_neg h, dif_pos (by omega), Nat.shiftRight_eq_div_pow, List.length_cons, Nat.add_comm]
      exact congrArg (· + 1) ih

theorem encodedSize_eq (previous size : Nat) (indices : List Int) :
    encodedSize previous size indices = (encodeVarint previous indices).map (size + ·.length) := by
  induction indices generalizing previous size with
  | nil => rfl
  | cons current indices ih =>
      rw [encodedSize, encodeVarint, ih, varintSize_eq]
      cases raiseIf (current < 0) "sparse delta indices must be non-negative" with
      | error e => rfl
      | ok u =>
          cases raiseIf (current < previous) "varint delta encoding expects sorted indices" with
          | error e => rfl
          | ok u =>
              cases encodeVarint current.toNat indices with
              | error e => rfl
              | ok rest =>
                  refine congrArg Except.ok ?_
                  show size + (varint (current.toNat - previous)).length + rest.length = size + (_ ++ rest).length
                  rw [List.length_append, Nat.add_assoc]

/-! ## The second pass -/

theorem set_append_cons {α : Type} (front rest : List α) (a b : α) :
    (front ++ a :: rest).set front.length b = front ++ b :: rest := by
  rw [List.set_append_right _ _ (Nat.le_refl _), Nat.sub_self, List.set_cons_zero]

theorem writeDiff_eq {front room rest : List Byte} {diff : Nat} (h : room.length = (varint diff).length) :
    writeDiff (front ++ room ++ rest) front.length diff =
      (front ++ varint diff ++ rest, front.length + (varint diff).length) := by
  induction diff using varint.induct generalizing front room with
  | case1 n hn =>
      rw [varint, dif_pos hn] at h ⊢
      obtain ⟨a, rfl⟩ := List.length_eq_one_iff.1 h
      rw [writeDiff, dif_neg (by omega), List.append_assoc, List.singleton_append, set_append_cons, List.append_assoc]
      rfl
  | case2 n hn ih =>
      rw [varint, dif_neg hn, List.length_cons] at h
      obtain ⟨a, room, rfl⟩ := List.exists_cons_of_length_eq_add_one h
      have htail := @ih (front ++ [BitVec.ofNat 8 (n % 128) ||| 0x80#8]) room (Nat.succ.inj h)
      have hand : n &&& 0x7F = n % 128 := Nat.and_two_pow_sub_one_eq_mod n 7
      rw [List.length_append, List.length_singleton] at htail
      rw [writeDiff, dif_pos (by omega), hand, List.append_assoc, List.cons_append, set_append_cons,
        Nat.shiftRight_eq_div_pow, varint, dif_neg hn, List.length_cons]
      have hcut : front ++ (BitVec.ofNat 8 (n % 128) ||| 0x80#8) :: (room ++ rest) =
          front ++ [BitVec.ofNat 8 (n % 128) ||| 0x80#8] ++ room ++ rest := by simp
      rw [hcut]
      refine htail.trans ?_
      simp [Nat.add_assoc, Nat.add_comm 1]

theorem writeIndices_eq {front room : List Byte} {previous : Nat} {indices : List Int}
    (h : room.length = ((diffs previous indices).map varint).flatten.length) :
    writeIndices previous (front ++ room, front.length) indices =
      (front ++ ((diffs previous indices).map varint).flatten,
        front.length + ((diffs previous indices).map varint).flatten.length) := by
  induction indices generalizing previous front room with
  | nil =>
      obtain rfl := List.length_eq_zero_iff.1 h
      rfl
  | cons current indices ih =>
      rw [diffs, List.map_cons, List.flatten_cons] at h ⊢
      rw [List.length_append] at h
      obtain ⟨room, room', rfl, hroom, hroom'⟩ : ∃ r r', room = r ++ r' ∧
          r.length = (varint (current.toNat - previous)).length ∧
          r'.length = ((diffs current.toNat indices).map varint).flatten.length :=
        ⟨_, _, (List.take_append_drop (varint (current.toNat - previous)).length room).symm,
          by rw [List.length_take]; omega, by rw [List.length_drop]; omega⟩
      rw [writeIndices, ← List.append_assoc, writeDiff_eq hroom]
      have htail := @ih (front ++ varint (current.toNat - previous)) room' current.toNat hroom'
      rw [List.length_append] at htail
      rw [htail, List.append_assoc, List.length_append, Nat.add_assoc]

/-- The two passes write the differences one after the other. -/
theorem encodeVarintDeltaIndicesNumba_eq (empty : (size : Nat) → Vector Byte size) (indices : List Int) :
    encodeVarintDeltaIndicesNumba empty indices = encodeVarint 0 indices := by
  unfold encodeVarintDeltaIndicesNumba
  rw [encodedSize_eq]
  cases hbytes : encodeVarint 0 indices with
  | error e => rfl
  | ok bytes =>
      obtain ⟨rfl, -⟩ := encodeVarint_ok hbytes
      have hwrite := @writeIndices_eq [] (empty (0 + _)).toList 0 indices
        ((Vector.length_toList).trans (Nat.zero_add _))
      show Except.ok (writeIndices 0 _ indices).1 = _
      exact congrArg (fun written => Except.ok written.1) hwrite

/-! ## Round trip -/

theorem encodeVarint_of_sorted {previous : Nat} {indices : List Int} (hmono : indices.Pairwise (· ≤ ·))
    (hprevious : ∀ i ∈ indices, (previous : Int) ≤ i) :
    encodeVarint previous indices = .ok ((diffs previous indices).map varint).flatten := by
  induction indices generalizing previous with
  | nil => rfl
  | cons i indices ih =>
      rw [List.pairwise_cons] at hmono
      have hi := hprevious i List.mem_cons_self
      have htail := @ih i.toNat hmono.2 fun j hj => by
        have := hmono.1 j hj
        omega
      rw [encodeVarint, raiseIf_of_not (by omega), ok_bind, raiseIf_of_not (by omega), ok_bind, htail]
      rfl

theorem length_flatten_varints (ds : List Nat) : (ds.map varint).flatten.length = (ds.map varintSize).sum := by
  induction ds with
  | nil => rfl
  | cons d ds ih =>
      rw [List.map_cons, List.flatten_cons, List.length_append, ih, List.map_cons, List.sum_cons, varintSize_eq]

/-- **Main.** Nondecreasing indices below `2 ^ 63` come back from both encodings, and from the slower path of the first where
there are any; the passes of the encoder agree on the size, with at most nine bytes for an index. -/
theorem indexCodec_roundTrip (empty : (size : Nat) → Vector Byte size) {indices : List Int}
    (hmono : indices.Pairwise (· ≤ ·)) (hrange : ∀ i ∈ indices, 0 ≤ i ∧ i < 2 ^ 63) :
    (∃ size bytes, encodedSize 0 0 indices = .ok size ∧
      writeIndices 0 ((empty size).toList, 0) indices = (bytes, size) ∧ bytes.length = size ∧
      size = ((diffs 0 indices).map varintSize).sum ∧ (∀ d ∈ diffs 0 indices, varintSize d ≤ 9) ∧
      encodeVarintDeltaIndicesNumba empty indices = .ok bytes ∧
      encodeSparseIndices indices "optimized" = .ok ⟨.uint8, bytes⟩ ∧
      decodeVarintDeltaIndices bytes indices.length = .ok indices ∧
      (indices ≠ [] → decodeVarintGroups bytes indices.length = .ok indices)) ∧
    ∃ encoded, encodeSparseIndices indices "naive" = .ok encoded ∧
      decodeSparseIndices encoded indices.length = .ok ⟨.int64, indices⟩ := by
  have hnonneg : ∀ i ∈ indices, 0 ≤ i := fun i hi => (hrange i hi).1
  have hlt : ∀ i ∈ indices, i < 2 ^ 63 := fun i hi => (hrange i hi).2
  have hencode := @encodeVarint_of_sorted 0 indices hmono hnonneg
  refine ⟨⟨((diffs 0 indices).map varint).flatten.length, ((diffs 0 indices).map varint).flatten, ?_, ?_, rfl,
    length_flatten_varints _, fun d hd => ?_, ?_, ?_, decode_optimized hmono hlt hencode, ?_⟩, _, rfl,
    decode_naive hnonneg hlt⟩
  · rw [encodedSize_eq, hencode]
    exact congrArg Except.ok (Nat.zero_add _)
  · have hwrite := @writeIndices_eq [] (empty ((diffs 0 indices).map varint).flatten.length).toList 0 indices
      Vector.length_toList
    rwa [List.length_nil, Nat.zero_add] at hwrite
  · rw [varintSize_eq]
    exact length_varint_le (by decide) (diffs_lt 0 hlt d hd)
  · rw [encodeVarintDeltaIndicesNumba_eq, hencode]
  · show (encodeVarint 0 indices).map _ = _
    rw [hencode]
    rfl
  · intro hne
    have hdiffs : diffs 0 indices ≠ [] := by
      rwa [← List.length_pos_iff, length_diffs, List.length_pos_iff]
    have hgroups := decodeVarintGroups_varints hdiffs (diffs_lt 0 hlt)
    have hsum : cumsum (0 : Nat) (diffs 0 indices) = indices := cumsum_diffs hmono hnonneg hlt
    rwa [length_diffs, Int.natCast_zero.symm, hsum] at hgroups

/-- Repeated indices, one of them far away. -/
theorem indexCodec_roundTrip_repeated :
    (∃ size bytes, encodedSize 0 0 [5, 5, 300] = .ok size ∧
      writeIndices 0 ((Vector.replicate size 0xFF#8).toList, 0) [5, 5, 300] = (bytes, size) ∧ bytes.length = size ∧
      size = ((diffs 0 [5, 5, 300]).map varintSize).sum ∧ (∀ d ∈ diffs 0 [5, 5, 300], varintSize d ≤ 9) ∧
      encodeVarintDeltaIndicesNumba (Vector.replicate · 0xFF#8) [5, 5, 300] = .ok bytes ∧
      encodeSparseIndices [5, 5, 300] "optimized" = .ok ⟨.uint8, bytes⟩ ∧
      decodeVarintDeltaIndices bytes 3 = .ok [5, 5, 300] ∧
      ([5, 5, 300] ≠ ([] : List Int) → decodeVarintGroups bytes 3 = .ok [5, 5, 300])) ∧
    ∃ encoded, encodeSparseIndices [5, 5, 300] "naive" = .ok encoded ∧
      decodeSparseIndices encoded 3 = .ok ⟨.int64, [5, 5, 300]⟩ :=
  indexCodec_roundTrip (Vector.replicate · 0xFF#8) (by decide) (by decide)

end AuroraRl.Delta
