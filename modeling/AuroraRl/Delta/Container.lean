import AuroraRl.Delta.Stream
import AuroraRl.Lib.Framing

/-!
# The stream file as a container of records

* `writeStream` : the bytes of a file, record after record;
* `readRecords`, `iterRecords` : what the reader yields and how it ends, `foldRecords_eq`;
* `framed_readRecord` : a record takes its bytes from the front of the stream and fails on a part of them;
* `streamContainer` : a written file gives its records back, a cut file the records that are whole in it.
-/

namespace AuroraRl.Delta
open Bytes Torch Layout Framing

/-! ## The file -/

/-- The records of a `StreamingDeltaWriter`, each with its index encoding. -/
def writeRecordsOf : List (LogicalSparseUpdate × String) → Except PyException (List Byte)
  | [] => .ok []
  | (update, indexEncoding) :: written => do
    let record ← writeRecord update indexEncoding
    let rest ← writeRecordsOf written
    return record ++ rest

/-- The file of a `StreamingDeltaWriter` after the calls of `write_record`. -/
def writeStream (written : List (LogicalSparseUpdate × String)) : Except PyException (List Byte) :=
  (writeRecordsOf written).map (streamHeader ++ ·)

/-- The records that the loop of `iter_streaming_delta_records` yields, and the exception that ends it. -/
def readRecords (version : Nat) : List Byte → List StreamingDeltaRecord × Option PyException :=
  @drain _ _ _ (readRecord version) readRecord_length

def iterRecords (bytes : List Byte) : List StreamingDeltaRecord × Option PyException :=
  match readStreamHeader bytes with
  | .error e => ([], some e)
  | .ok (version, records) => readRecords version records

/-- A loop over the records is a loop over what the reader yields. -/
theorem foldRecords_eq {σ : Type} (version : Nat) (f : σ → StreamingDeltaRecord → Except PyException σ) (s : σ)
    (bytes : List Byte) :
    foldRecords version f s bytes = ((readRecords version bytes).1.foldlM f s >>= fun s =>
      match (readRecords version bytes).2 with
      | none => .ok s
      | some e => .error e) := by
  induction hn : bytes.length using Nat.strong_induction_on generalizing s bytes with
  | _ n ih =>
      subst hn
      rw [foldRecords]
      by_cases hnil : bytes = []
      · rw [if_pos hnil, hnil, readRecords, drain_nil]
        rfl
      · rw [if_neg hnil]
        split
        · rename_i e he
          rw [readRecords, drain_error readRecord_length hnil he]
          rfl
        · rename_i record rest he
          rw [readRecords, drain_ok readRecord_length he, List.foldlM_cons]
          cases hf : f s record with
          | error e => rfl
          | ok s' => exact ih _ (readRecord_length he) s' rest rfl

theorem iterStreamingDeltaRecords_eq {σ : Type} (f : σ → StreamingDeltaRecord → Except PyException σ) (s : σ)
    (bytes : List Byte) :
    iterStreamingDeltaRecords bytes f s = ((iterRecords bytes).1.foldlM f s >>= fun s =>
      match (iterRecords bytes).2 with
      | none => .ok s
      | some e => .error e) := by
  unfold iterStreamingDeltaRecords iterRecords
  cases readStreamHeader bytes with
  | error e => rfl
  | ok x => exact foldRecords_eq x.1 f s x.2

/-! ## Fields -/

theorem framed_readExact (size : Nat) (description : String) :
    Framed fun bytes => readExact bytes size description := framed_exact size _

theorem framed_readShape (version : Nat) (header : RecordHeader) (name : String) :
    Framed (readShape version header name) := by
  unfold readShape
  by_cases hv : version = 2
  · simp only [if_pos hv]
    apply (framed_readExact _ _).bind
    intro l
    dsimp only
    exact framed_pure _
  · simp only [if_neg hv]
    exact framed_pure none

/-- What follows the header of a record. -/
def readBody (version : Nat) (header : RecordHeader) (dtype : DType) (bytes : List Byte) :
    Except PyException (StreamingDeltaRecord × List Byte) := do
  let (nameBytes, rest) ← readExact bytes header.nameSize "streaming delta tensor name"
  match ofUtf8? nameBytes with
  | none => .error ⟨.unicodeDecodeError, "'utf-8' codec can't decode bytes"⟩
  | some name =>
    let (shape, rest) ← readShape version header name rest
    let (indexBytes, rest) ← readExact rest header.indexSize ("streaming delta indices for " ++ name)
    let (valueBytes, rest) ← readExact rest (header.valueCount * dtype.size) ("streaming delta values for " ++ name)
    let indexDtype ← streamIndexDtype header.indexFormat header.indexSize
    return (⟨name, shape, tensorFromStreamBytes indexBytes indexDtype, tensorFromStreamBytes valueBytes dtype, version⟩,
      rest)

theorem framed_readBody (version : Nat) (header : RecordHeader) (dtype : DType) :
    Framed (readBody version header dtype) := by
  apply (framed_readExact header.nameSize _).bind
  intro nameBytes
  dsimp only
  cases ofUtf8? nameBytes with
  | none => exact framed_error _
  | some name =>
      apply (framed_readShape version header name).bind
      intro shape
      dsimp only
      apply (framed_readExact header.indexSize _).bind
      intro indexBytes
      dsimp only
      apply (framed_readExact (header.valueCount * dtype.size) _).bind
      intro valueBytes
      dsimp only
      apply Framed.guard
      intro indexDtype
      exact framed_pure _

/-- What follows the `24` bytes of a header. -/
def readAfter (version : Nat) (headerBytes bytes : List Byte) : Except PyException (StreamingDeltaRecord × List Byte) :=
  raiseIf (version = 1 ∧ (RecordHeader.unpack headerBytes).reserved ≠ 0)
    "streaming delta v1 record has unsupported flags" >>= fun _ =>
  match streamCodeToDtype (RecordHeader.unpack headerBytes).dtypeCode with
  | none => raiseValueError ("unsupported streaming delta dtype code: " ++
      toString (RecordHeader.unpack headerBytes).dtypeCode)
  | some dtype => readBody version (RecordHeader.unpack headerBytes) dtype bytes

theorem framed_readAfter (version : Nat) (headerBytes : List Byte) : Framed (readAfter version headerBytes) := by
  apply Framed.guard
  intro _
  cases streamCodeToDtype (RecordHeader.unpack headerBytes).dtypeCode with
  | none => exact framed_error _
  | some dtype => exact framed_readBody version _ dtype

theorem readRecord_eq (version : Nat) : readRecord version = fun bytes =>
    (if 24 ≤ bytes.length then (.ok (bytes.take 24, bytes.drop 24) : Except PyException _)
      else raiseValueError "truncated streaming delta record header") >>= fun x => readAfter version x.1 x.2 := by
  funext bytes
  unfold readRecord
  by_cases h : 24 ≤ bytes.length
  · rw [if_pos h, raiseIf_of_not (by omega)]
    rfl
  · rw [if_neg h, raiseIf, if_pos (by omega)]
    rfl

theorem framed_readRecord (version : Nat) : Framed (readRecord version) := by
  rw [readRecord_eq]
  apply (framed_exact 24 _).bind
  intro headerBytes
  exact framed_readAfter version headerBytes

/-! ## Written files -/

theorem parts_of_writeRecordsOf {written : List (LogicalSparseUpdate × String)} {bytes : List Byte}
    (h : writeRecordsOf written = .ok bytes) :
    ∃ parts records, parts.flatten = bytes ∧
      List.Forall₂ (fun part record => ∀ rest, readRecord 2 (part ++ rest) = .ok (record, rest)) parts records ∧
      List.Forall₂ (fun x record => ∃ encoded, encodeSparseIndices x.1.indices.data x.2 = .ok encoded ∧
        record = recordOf x.1 encoded) written records := by
  induction written generalizing bytes with
  | nil =>
      cases h
      exact ⟨[], [], rfl, .nil, .nil⟩
  | cons x written ih =>
      obtain ⟨update, indexEncoding⟩ := x
      simp only [writeRecordsOf, bind_eq_ok] at h
      obtain ⟨record, hrecord, rest, hrest, hres⟩ := h
      cases hres
      obtain ⟨parts, records, rfl, hparts, hrecords⟩ := ih hrest
      obtain ⟨encoded, hencoded, -, hread⟩ := readRecord_writeRecord hrecord
      exact ⟨record :: parts, recordOf update encoded :: records, rfl, .cons hread hparts,
        .cons ⟨encoded, hencoded, rfl⟩ hrecords⟩

theorem iterRecords_header (records : List Byte) : iterRecords (streamHeader ++ records) = readRecords 2 records := by
  unfold iterRecords
  rw [readStreamHeader_header]

theorem iterRecords_writeStream {written : List (LogicalSparseUpdate × String)} {bytes : List Byte}
    (h : writeStream written = .ok bytes) :
    ∃ records, iterRecords bytes = (records, none) ∧
      List.Forall₂ (fun x record => ∃ encoded, encodeSparseIndices x.1.indices.data x.2 = .ok encoded ∧
        record = recordOf x.1 encoded) written records := by
  unfold writeStream at h
  cases hw : writeRecordsOf written with
  | error e =>
      rw [hw] at h
      cases h
  | ok body =>
      rw [hw] at h
      cases h
      obtain ⟨parts, records, rfl, hparts, hrecords⟩ := parts_of_writeRecordsOf hw
      exact ⟨records, (iterRecords_header _).trans (drain_flatten readRecord_length hparts), hrecords⟩

/-! ## Cut files -/

/-- A file header is its first `12` bytes, whatever follows. -/
theorem readStreamHeader_ok {bytes body : List Byte} {version : Nat} (h : readStreamHeader bytes = .ok (version, body)) :
    12 ≤ bytes.length ∧ body = bytes.drop 12 ∧ ∀ l, readStreamHeader (bytes.take 12 ++ l) = .ok (version, l) := by
  unfold readStreamHeader at h ⊢
  simp only [bind_eq_ok, readExact] at h
  obtain ⟨⟨header, rest⟩, hread, h⟩ := h
  split at hread
  · rename_i hlen
    cases hread
    simp only [raiseIf_eq_ok] at h
    obtain ⟨_, hmagic, _, hversion, hres⟩ := h
    cases hres
    refine ⟨hlen, rfl, fun l => ?_⟩
    rw [readExact_append (List.length_take_of_le hlen), ok_bind]
    dsimp only
    rw [raiseIf_of_not hmagic, ok_bind, raiseIf_of_not hversion, ok_bind]
    rfl
  · cases hread

theorem iterRecords_take_of_lt {bytes : List Byte} {k : Nat} (hk : k < 12) :
    ∃ e, iterRecords (bytes.take k) = ([], some e) := by
  have hlen : ¬ 12 ≤ (bytes.take k).length := by
    rw [List.length_take]
    omega
  have hread : readStreamHeader (bytes.take k) = raiseValueError "truncated streaming delta header" := by
    unfold readStreamHeader
    rw [readExact, if_neg hlen]
    rfl
  unfold iterRecords
  rw [hread]
  exact ⟨_, rfl⟩

/-- The records of a file read to its end, and what a cut of the file yields. -/
theorem iterRecords_cut {bytes : List Byte} {records : List StreamingDeltaRecord} (h : iterRecords bytes = (records, none)) :
    ∃ parts : List (List Byte), parts.length = records.length ∧ bytes = bytes.take 12 ++ parts.flatten ∧
      (∀ x ∈ parts.zip records, iterRecords (bytes.take 12 ++ x.1) = ([x.2], none)) ∧
      ∀ k < bytes.length,
        (k < 12 → ∃ e, iterRecords (bytes.take k) = ([], some e)) ∧
        (12 ≤ k → ∃ m < records.length + 1,
          (∀ i ≤ records.length, i ≤ m ↔ 12 + (parts.take i).flatten.length ≤ k) ∧
          (iterRecords (bytes.take k)).1 = records.take m ∧
          ((iterRecords (bytes.take k)).2 = none ↔ 12 + (parts.take m).flatten.length = k)) := by
  unfold iterRecords at h
  cases hheader : readStreamHeader bytes with
  | error e =>
      rw [hheader] at h
      cases h
  | ok x =>
      obtain ⟨version, body⟩ := x
      rw [hheader] at h
      obtain ⟨hlen, rfl, hagain⟩ := readStreamHeader_ok hheader
      obtain ⟨parts, hflat, hall⟩ := exists_parts_of_drain readRecord_length (framed_readRecord version) h
      have hbody : ∀ l, iterRecords (bytes.take 12 ++ l) = readRecords version l := by
        intro l
        unfold iterRecords
        rw [hagain]
      have hbytes : bytes = bytes.take 12 ++ parts.flatten := by rw [hflat, List.take_append_drop]
      have hlength : parts.length = records.length := hall.length_eq
      refine ⟨parts, hlength, hbytes, fun x hx => ?_, fun k hk => ⟨iterRecords_take_of_lt, fun hk12 => ?_⟩⟩
      · have htakes : Takes (readRecord version) x.1 x.2 := (List.forall₂_iff_zip.1 hall).2 hx
        have hread := drain_flatten readRecord_length (.cons htakes.whole .nil)
        rw [List.flatten_singleton] at hread
        exact (hbody x.1).trans hread
      · have htake : bytes.take k = bytes.take 12 ++ parts.flatten.take (k - 12) := by
          rw [hflat, ← List.take_add, Nat.add_sub_cancel' hk12]
        have hle : k - 12 ≤ parts.flatten.length := by
          rw [hflat, List.length_drop]
          omega
        obtain ⟨m, hm, hends, hvalues, hended⟩ := drain_cut readRecord_length hall hle
        rw [htake, hbody]
        refine ⟨m, by omega, fun i hi => ?_, hvalues, ?_⟩
        · rw [hends i (by omega)]
          omega
        · rw [readRecords, hended]
          omega

/-- **Main.** Reading a written file gives its records, with their indices decoded if need be; a cut file gives the
records that are whole in it, and raises unless it is cut between two. -/
theorem streamContainer :
    (∀ (written : List (LogicalSparseUpdate × String)) (bytes : List Byte), writeStream written = .ok bytes →
      ∃ records, iterRecords bytes = (records, none) ∧
        List.Forall₂ (fun x record => record.name = x.1.name ∧ record.shape = some x.1.shape ∧
          record.values = x.1.values ∧ encodeSparseIndices x.1.indices.data x.2 = .ok record.encodedIndices ∧
          ∀ n ≤ 2 ^ 63, ValidIndices x.1.indices.data n →
            decodeSparseIndices record.encodedIndices x.1.indices.data.length = .ok ⟨.int64, x.1.indices.data⟩)
          written records) ∧
    ∀ (bytes : List Byte) (records : List StreamingDeltaRecord), iterRecords bytes = (records, none) →
      ∃ parts : List (List Byte), parts.length = records.length ∧ bytes = bytes.take 12 ++ parts.flatten ∧
        (∀ x ∈ parts.zip records, iterRecords (bytes.take 12 ++ x.1) = ([x.2], none)) ∧
        ∀ k < bytes.length,
          (k < 12 → ∃ e, iterRecords (bytes.take k) = ([], some e)) ∧
          (12 ≤ k → ∃ m < records.length + 1,
            (∀ i ≤ records.length, i ≤ m ↔ 12 + (parts.take i).flatten.length ≤ k) ∧
            (iterRecords (bytes.take k)).1 = records.take m ∧
            ((iterRecords (bytes.take k)).2 = none ↔ 12 + (parts.take m).flatten.length = k)) := by
  refine ⟨fun written bytes h => ?_, fun bytes records h => iterRecords_cut h⟩
  obtain ⟨records, hread, hrecords⟩ := iterRecords_writeStream h
  refine ⟨records, hread, hrecords.imp ?_⟩
  rintro x record ⟨encoded, hencoded, rfl⟩
  exact ⟨rfl, rfl, rfl, hencoded, fun n hn hvalid => (decode_encode hvalid hn hencoded).1⟩

end AuroraRl.Delta
