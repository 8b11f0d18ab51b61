import AuroraRl.Delta.Indices
import AuroraRl.Layout.Adapter

/-!
# The stream artifact

* `writeRecord` : one tensor's update as a binary record;
* `readRecord`, `foldRecords` : the reader, with every check it makes, and its loop over the file;
* `readRecord_writeRecord` : a written record is read back and the reader stands behind it;
* `iterStreamingDeltaRecords_written` : the loop over a written file is the loop over its records.
-/

namespace AuroraRl.Delta
open Bytes Torch Layout

structure StreamingDeltaRecord where
  name : String
  shape : Option (List Nat)
  encodedIndices : Flat
  values : Flat
  formatVersion : Nat

def streamMagic : List Byte := [0x50, 0x44, 0x45, 0x4C, 0x53, 0x54, 0x52, 0x4D]

def streamVersion : Nat := 2

def streamDtypeToCode : DType → Option Nat
  | .float16 => some 1
  | .bfloat16 => some 2
  | .float32 => some 3
  | .float64 => some 4
  | .int64 => some 5
  | .int32 => some 6
  | .int8 => some 7
  | .uint8 => some 8
  | .int16 => none

def streamCodeToDtype : Nat → Option DType
  | 1 => some .float16
  | 2 => some .bfloat16
  | 3 => some .float32
  | 4 => some .float64
  | 5 => some .int64
  | 6 => some .int32
  | 7 => some .int8
  | 8 => some .uint8
  | _ => none

def streamIndexFormat (d : DType) : Except PyException Nat :=
  match d with
  | .uint8 => .ok 0
  | .int32 => .ok 1
  | .int64 => .ok 2
  | d => raiseValueError ("unsupported streaming delta index dtype: " ++ d.text)

def streamIndexDtype (indexFormat indexSize : Nat) : Except PyException DType := do
  if indexFormat = 0 then return .uint8
  else if indexFormat = 1 then
    raiseIf (indexSize % 4 ≠ 0) "streaming delta int32 index payload has invalid size"
    return .int32
  else if indexFormat = 2 then
    raiseIf (indexSize % 8 ≠ 0) "streaming delta int64 index payload has invalid size"
    return .int64
  else raiseValueError ("unsupported streaming delta index format: " ++ toString indexFormat)

/-- The six fields of `_STREAM_RECORD`. -/
structure RecordHeader where
  nameSize : Nat
  indexFormat : Nat
  dtypeCode : Nat
  reserved : Nat
  indexSize : Nat
  valueCount : Nat

/-! ## Writing -/

/-- `struct.pack` of one unsigned little-endian number of `k` bytes. -/
def packField (format : String) (k n : Nat) : Except PyException (List Byte) :=
  if n < 256 ^ k then .ok (littleEndian k n)
  else .error ⟨.structError, "'" ++ format ++ "' format requires 0 <= number <= " ++ toString (256 ^ k - 1)⟩

def RecordHeader.pack (header : RecordHeader) : Except PyException (List Byte) := do
  let nameSize ← packField "I" 4 header.nameSize
  let indexFormat ← packField "B" 1 header.indexFormat
  let dtypeCode ← packField "B" 1 header.dtypeCode
  let reserved ← packField "H" 2 header.reserved
  let indexSize ← packField "Q" 8 header.indexSize
  let valueCount ← packField "Q" 8 header.valueCount
  return nameSize ++ (indexFormat ++ (dtypeCode ++ (reserved ++ (indexSize ++ valueCount))))

def packDims : List Nat → Except PyException (List Byte)
  | [] => .ok []
  | dim :: shape => do
    let bytes ← packField "Q" 8 dim
    let rest ← packDims shape
    return bytes ++ rest

def tensorBytes (t : Flat) : List Byte := t.data.flatMap fun x => littleEndian t.dtype.size x.toNat

def streamHeader : List Byte := streamMagic ++ littleEndian 4 streamVersion

def writeRecord (update : LogicalSparseUpdate) (encoding : String) : Except PyException (List Byte) := do
  let encodedIndices ← encodeSparseIndices update.indices.data encoding
  let indexFormat ← streamIndexFormat encodedIndices.dtype
  match streamDtypeToCode update.values.dtype with
  | none => raiseValueError ("unsupported streaming delta value dtype: " ++ update.values.dtype.text)
  | some dtypeCode =>
    let nameBytes := utf8 update.name
    raiseIf (65535 < update.shape.length) ("streaming delta tensor rank is too large: " ++ update.name)
    let header ← RecordHeader.pack ⟨nameBytes.length, indexFormat, dtypeCode, update.shape.length,
      encodedIndices.data.length * encodedIndices.dtype.size, update.values.data.length⟩
    let dims ← packDims update.shape
    return header ++ (nameBytes ++ (dims ++ (tensorBytes encodedIndices ++ tensorBytes update.values)))

/-! ## Reading -/

/-- `_read_exact`, with the rest of the stream. -/
def readExact (bytes : List Byte) (size : Nat) (description : String) : Except PyException (List Byte × List Byte) :=
  if size ≤ bytes.length then .ok (bytes.take size, bytes.drop size) else raiseValueError ("truncated " ++ description)

def RecordHeader.unpack (bytes : List Byte) : RecordHeader :=
  let fields := readFields [4, 1, 1, 2, 8, 8] bytes
  ⟨fields.getD 0 0, fields.getD 1 0, fields.getD 2 0, fields.getD 3 0, fields.getD 4 0, fields.getD 5 0⟩

def tensorFromStreamBytes (bytes : List Byte) (d : DType) : Flat :=
  ⟨d, (readFields (List.replicate (bytes.length / d.size) d.size) bytes).map (BitVec.ofNat _)⟩

/-- The header of the file: its version and the records. -/
def readStreamHeader (bytes : List Byte) : Except PyException (Nat × List Byte) := do
  let (header, records) ← readExact bytes 12 "streaming delta header"
  raiseIf (header.take 8 ≠ streamMagic) "streaming delta magic mismatch"
  let version := ofLittleEndian (header.drop 8)
  raiseIf (version ≠ 1 ∧ version ≠ 2) ("unsupported streaming delta version: " ++ toString version)
  return (version, records)

/-- The shape of a record; version 1 has none. -/
def readShape (version : Nat) (header : RecordHeader) (name : String) (bytes : List Byte) :
    Except PyException (Option (List Nat) × List Byte) :=
  if version = 2 then do
    let (shapeBytes, rest) ← readExact bytes (header.reserved * 8) ("streaming delta shape for " ++ name)
    return (some (readFields (List.replicate header.reserved 8) shapeBytes), rest)
  else .ok (none, bytes)

/-- One turn of the loop of `iter_streaming_delta_records`. -/
def readRecord (version : Nat) (bytes : List Byte) : Except PyException (StreamingDeltaRecord × List Byte) := do
  raiseIf (bytes.length < 24) "truncated streaming delta record header"
  let header := RecordHeader.unpack (bytes.take 24)
  raiseIf (version = 1 ∧ header.reserved ≠ 0) "streaming delta v1 record has unsupported flags"
  match streamCodeToDtype header.dtypeCode with
  | none => raiseValueError ("unsupported streaming delta dtype code: " ++ toString header.dtypeCode)
  | some dtype =>
    let (nameBytes, rest) ← readExact (bytes.drop 24) header.nameSize "streaming delta tensor name"
    match ofUtf8? nameBytes with
    | none => .error ⟨.unicodeDecodeError, "'utf-8' codec can't decode bytes"⟩
    | some name =>
      let (shape, rest) ← readShape version header name rest
      let (indexBytes, rest) ← readExact rest header.indexSize ("streaming delta indices for " ++ name)
      let (valueBytes, rest) ← readExact rest (header.valueCount * dtype.size) ("streaming delta values for " ++ name)
      let indexDtype ← streamIndexDtype header.indexFormat header.indexSize
      return (⟨name, shape, tensorFromStreamBytes indexBytes indexDtype, tensorFromStreamBytes valueBytes dtype, version⟩,
        rest)

theorem readExact_ok {bytes l rest : List Byte} {size : Nat} {description : String}
    (h : readExact bytes size description = .ok (l, rest)) : rest.length ≤ bytes.length := by
  unfold readExact at h
  split at h
  · cases h
    rw [List.length_drop]
    exact Nat.sub_le ..
  · cases h

theorem readShape_ok {version : Nat} {header : RecordHeader} {name : String} {bytes rest : List Byte}
    {shape : Option (List Nat)} (h : readShape version header name bytes = .ok (shape, rest)) :
    rest.length ≤ bytes.length := by
  unfold readShape at h
  split at h
  · simp only [bind_eq_ok] at h
    obtain ⟨⟨l, rest'⟩, hread, hres⟩ := h
    cases hres
    exact readExact_ok hread
  · cases h
    exact Nat.le_refl _

theorem readRecord_length {version : Nat} {bytes rest : List Byte} {record : StreamingDeltaRecord}
    (h : readRecord version bytes = .ok (record, rest)) : rest.length < bytes.length := by
  unfold readRecord at h
  simp only [bind_eq_ok, raiseIf_eq_ok] at h
  obtain ⟨-, hlen, -, -, h⟩ := h
  split at h
  · cases h
  · simp only [bind_eq_ok] at h
    obtain ⟨⟨nameBytes, r₁⟩, h₁, h⟩ := h
    split at h
    · cases h
    · simp only [bind_eq_ok] at h
      obtain ⟨⟨shape, r₂⟩, h₂, ⟨indexBytes, r₃⟩, h₃, ⟨valueBytes, r₄⟩, h₄, _, -, hres⟩ := h
      cases hres
      have e₁ := readExact_ok h₁
      have e₂ := readShape_ok h₂
      have e₃ := readExact_ok h₃
      have e₄ := readExact_ok h₄
      rw [List.length_drop] at e₁
      show r₄.length < bytes.length
      dsimp only at e₃ e₄
      omega

/-- The loop over the records: each is handed to `f` before the next is read. -/
def foldRecords {σ : Type} (version : Nat) (f : σ → StreamingDeltaRecord → Except PyException σ) (s : σ)
    (bytes : List Byte) : Except PyException σ :=
  if bytes = [] then .ok s
  else
    match h : readRecord version bytes with
    | .error e => .error e
    | .ok (record, rest) =>
      have : rest.length < bytes.length := readRecord_length h
      match f s record with
      | .error e => .error e
      | .ok s => foldRecords version f s rest
termination_by bytes.length

def iterStreamingDeltaRecords {σ : Type} (bytes : List Byte) (f : σ → StreamingDeltaRecord → Except PyException σ)
    (s : σ) : Except PyException σ := do
  let (version, records) ← readStreamHeader bytes
  foldRecords version f s records

/-! ## Round trip -/

theorem packField_ok {format : String} {k n : Nat} {bytes : List Byte} (h : packField format k n = .ok bytes) :
    n < 256 ^ k ∧ bytes = littleEndian k n := by
  unfold packField at h
  split at h
  · rename_i hn
    cases h
    exact ⟨hn, rfl⟩
  · cases h

theorem unpack_pack {header : RecordHeader} {bytes : List Byte} (h : header.pack = .ok bytes) :
    bytes.length = 24 ∧ RecordHeader.unpack bytes = header := by
  unfold RecordHeader.pack at h
  simp only [bind_eq_ok] at h
  obtain ⟨_, h₁, _, h₂, _, h₃, _, h₄, _, h₅, _, h₆, hres⟩ := h
  cases hres
  obtain ⟨b₁, rfl⟩ := packField_ok h₁
  obtain ⟨b₂, rfl⟩ := packField_ok h₂
  obtain ⟨b₃, rfl⟩ := packField_ok h₃
  obtain ⟨b₄, rfl⟩ := packField_ok h₄
  obtain ⟨b₅, rfl⟩ := packField_ok h₅
  obtain ⟨b₆, rfl⟩ := packField_ok h₆
  refine ⟨by simp only [List.length_append, length_littleEndian], ?_⟩
  have hlast := readFields_cons b₆ [] []
  rw [List.append_nil] at hlast
  unfold RecordHeader.unpack
  rw [readFields_cons b₁, readFields_cons b₂, readFields_cons b₃, readFields_cons b₄, readFields_cons b₅, hlast]
  rfl

theorem readFields_packDims {shape : List Nat} {bytes : List Byte} (h : packDims shape = .ok bytes) :
    bytes.length = shape.length * 8 ∧ readFields (List.replicate shape.length 8) bytes = shape := by
  induction shape generalizing bytes with
  | nil =>
      cases h
      exact ⟨rfl, rfl⟩
  | cons dim shape ih =>
      unfold packDims at h
      simp only [bind_eq_ok] at h
      obtain ⟨_, hdim, rest, hrest, hres⟩ := h
      cases hres
      obtain ⟨hlt, rfl⟩ := packField_ok hdim
      obtain ⟨hlen, hread⟩ := ih hrest
      refine ⟨?_, ?_⟩
      · rw [List.length_append, length_littleEndian, hlen, List.length_cons]
        omega
      · rw [List.length_cons, List.replicate_succ, readFields_cons hlt, hread]

theorem DType.size_pos (d : DType) : 0 < d.size := by cases d <;> decide

theorem length_tensorBytes (t : Flat) : (tensorBytes t).length = t.data.length * t.dtype.size := by
  obtain ⟨d, data⟩ := t
  induction data with
  | nil => rw [List.length_nil, Nat.zero_mul]; rfl
  | cons x data ih =>
      have hcons : tensorBytes ⟨d, x :: data⟩ = littleEndian d.size x.toNat ++ tensorBytes ⟨d, data⟩ := rfl
      rw [hcons, List.length_append, ih, length_littleEndian, List.length_cons]
      ring

theorem readFields_tensorBytes (d : DType) (data : List (Elem d)) :
    readFields (List.replicate data.length d.size) (tensorBytes ⟨d, data⟩) = data.map BitVec.toNat := by
  induction data with
  | nil => rfl
  | cons x data ih =>
      have hx : x.toNat < 256 ^ d.size := by
        have := x.isLt
        rwa [Nat.pow_mul] at this
      have hcons : tensorBytes ⟨d, x :: data⟩ = littleEndian d.size x.toNat ++ tensorBytes ⟨d, data⟩ := rfl
      rw [List.length_cons, List.replicate_succ, hcons, readFields_cons hx, ih, List.map_cons]

theorem tensorFromStreamBytes_tensorBytes (t : Flat) : tensorFromStreamBytes (tensorBytes t) t.dtype = t := by
  obtain ⟨d, data⟩ := t
  unfold tensorFromStreamBytes
  rw [length_tensorBytes, Nat.mul_div_cancel _ (DType.size_pos d), readFields_tensorBytes, List.map_map]
  have hdata : data.map (BitVec.ofNat (8 * d.size) ∘ BitVec.toNat) = data :=
    (List.map_congr_left fun x _ => (BitVec.ofNat_toNat _ x).trans (BitVec.setWidth_eq x)).trans (List.map_id data)
  exact congrArg (Flat.mk d) hdata

theorem readExact_append {l rest : List Byte} {size : Nat} (h : l.length = size) (description : String) :
    readExact (l ++ rest) size description = .ok (l, rest) := by
  subst h
  unfold readExact
  rw [if_pos (by rw [List.length_append]; omega), List.take_left, List.drop_left]

theorem streamCodeToDtype_code {d : DType} {code : Nat} (h : streamDtypeToCode d = some code) :
    streamCodeToDtype code = some d := by
  revert h
  cases d <;> rintro ⟨⟩ <;> rfl

theorem streamIndexDtype_format {encoded : Flat} {format : Nat} (h : streamIndexFormat encoded.dtype = .ok format) :
    streamIndexDtype format (encoded.data.length * encoded.dtype.size) = .ok encoded.dtype := by
  obtain ⟨d, data⟩ := encoded
  unfold streamIndexDtype
  cases d <;> cases h
  · have hmod : data.length * DType.int64.size % 8 = 0 := Nat.mul_mod_left ..
    rw [if_neg (by decide), if_neg (by decide), if_pos rfl, raiseIf_of_not (not_not_intro hmod)]
    rfl
  · have hmod : data.length * DType.int32.size % 4 = 0 := Nat.mul_mod_left ..
    rw [if_neg (by decide), if_pos rfl, raiseIf_of_not (not_not_intro hmod)]
    rfl
  · rw [if_pos rfl]
    rfl

/-- The record that a written update becomes. -/
def recordOf (update : LogicalSparseUpdate) (encodedIndices : Flat) : StreamingDeltaRecord :=
  ⟨update.name, some update.shape, encodedIndices, update.values, 2⟩

theorem readRecord_writeRecord {update : LogicalSparseUpdate} {encoding : String} {bytes : List Byte}
    (h : writeRecord update encoding = .ok bytes) :
    ∃ encodedIndices, encodeSparseIndices update.indices.data encoding = .ok encodedIndices ∧ bytes ≠ [] ∧
      ∀ rest, readRecord 2 (bytes ++ rest) = .ok (recordOf update encodedIndices, rest) := by
  unfold writeRecord at h
  simp only [bind_eq_ok] at h
  obtain ⟨encoded, hencoded, format, hformat, h⟩ := h
  split at h
  · cases h
  · rename_i code hcode
    simp only [bind_eq_ok, raiseIf_eq_ok] at h
    obtain ⟨-, -, header, hheader, dims, hdims, hres⟩ := h
    cases hres
    obtain ⟨hlen, hunpack⟩ := unpack_pack hheader
    obtain ⟨hdimsLen, hdimsRead⟩ := readFields_packDims hdims
    refine ⟨encoded, hencoded, ?_, fun rest => ?_⟩
    · intro hnil
      rw [List.append_eq_nil_iff.1 hnil |>.1] at hlen
      cases hlen
    · have hshort : ¬ (header ++ (utf8 update.name ++ (dims ++ (tensorBytes encoded ++ tensorBytes update.values))) ++
          rest).length < 24 := by
        rw [List.append_assoc, List.length_append]
        omega
      unfold readRecord
      rw [raiseIf_of_not hshort, ok_bind, List.append_assoc, List.take_left' hlen, List.drop_left' hlen, hunpack]
      dsimp only
      rw [raiseIf_of_not (by omega), ok_bind, streamCodeToDtype_code hcode]
      dsimp only
      rw [List.append_assoc, readExact_append rfl, ok_bind]
      dsimp only
      rw [ofUtf8?_utf8]
      dsimp only
      unfold readShape
      rw [if_pos rfl, List.append_assoc, readExact_append hdimsLen, ok_bind]
      dsimp only
      rw [hdimsRead]
      show (readExact (tensorBytes encoded ++ tensorBytes update.values ++ rest) _ _ >>= _) = _
      rw [List.append_assoc, readExact_append (length_tensorBytes encoded), ok_bind]
      dsimp only
      rw [readExact_append (length_tensorBytes update.values), ok_bind]
      dsimp only
      rw [streamIndexDtype_format hformat, ok_bind, tensorFromStreamBytes_tensorBytes, tensorFromStreamBytes_tensorBytes]
      rfl

/-- A file whose records are the written updates. -/
inductive Written (encoding : String) : List LogicalSparseUpdate → List Byte → Prop
  | nil : Written encoding [] []
  | cons {update : LogicalSparseUpdate} {updates : List LogicalSparseUpdate} {record rest : List Byte} :
      writeRecord update encoding = .ok record → Written encoding updates rest →
      Written encoding (update :: updates) (record ++ rest)

section Fold

variable {σ : Type} {encoding : String} {f : σ → StreamingDeltaRecord → Except PyException σ}
  {g : σ → LogicalSparseUpdate → Except PyException σ}

/-- What `f` does to the record of an update, `g` does to the update. -/
def Handles (encoding : String) (f : σ → StreamingDeltaRecord → Except PyException σ)
    (g : σ → LogicalSparseUpdate → Except PyException σ) (update : LogicalSparseUpdate) : Prop :=
  ∀ s encoded, encodeSparseIndices update.indices.data encoding = .ok encoded → f s (recordOf update encoded) = g s update

theorem foldRecords_written {updates : List LogicalSparseUpdate} {bytes : List Byte} (h : Written encoding updates bytes)
    (hf : ∀ update ∈ updates, Handles encoding f g update) (s : σ) :
    foldRecords 2 f s bytes = updates.foldlM g s := by
  induction h generalizing s with
  | nil =>
      rw [foldRecords, if_pos rfl]
      rfl
  | @cons update updates record rest hrecord hrest ih =>
      obtain ⟨encoded, hencoded, hne, hread⟩ := readRecord_writeRecord hrecord
      have hne' : record ++ rest ≠ [] := fun hnil => hne (List.append_eq_nil_iff.1 hnil).1
      rw [foldRecords, if_neg hne', List.foldlM_cons]
      have hstep := hf update List.mem_cons_self s encoded hencoded
      have htail := ih (fun u hu => hf u (List.mem_cons_of_mem update hu))
      split
      · rename_i e he
        rw [hread rest] at he
        cases he
      · rename_i record' rest' he
        rw [hread rest] at he
        cases he
        rw [hstep]
        cases hg : g s update with
        | error e => rfl
        | ok s' => exact htail s'

theorem readStreamHeader_header (records : List Byte) : readStreamHeader (streamHeader ++ records) = .ok (2, records) := by
  unfold readStreamHeader
  have hlen : streamHeader.length = 12 := rfl
  rw [readExact_append hlen, ok_bind]
  rfl

/-- **The loop over a written file is the loop over its updates.** -/
theorem iterStreamingDeltaRecords_written {updates : List LogicalSparseUpdate} {bytes : List Byte}
    (h : Written encoding updates bytes) (hf : ∀ update ∈ updates, Handles encoding f g update) (s : σ) :
    iterStreamingDeltaRecords (streamHeader ++ bytes) f s = updates.foldlM g s := by
  unfold iterStreamingDeltaRecords
  rw [readStreamHeader_header, ok_bind]
  exact foldRecords_written h hf s

end Fold

end AuroraRl.Delta
