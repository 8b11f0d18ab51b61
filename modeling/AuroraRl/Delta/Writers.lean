import Mathlib.Data.List.Sort
import Mathlib.Data.String.Basic
import AuroraRl.Delta.Extract
import AuroraRl.Delta.Stream

/-!
# Writing a delta

* `extractSparseDeltaStreaming` : the stream artifact;
* `extractSparseDelta` : the safetensors artifact, tensors and metadata;
* `writeRecords_ok`, `addSparseTensors_ok` : both hold the updates of the changed tensors.
-/

namespace AuroraRl.Delta
open Bytes Python Torch Layout

/-- A document that `json.loads` gives. -/
inductive Json
  | int (n : Int)
  | bool (b : Bool)
  | list (l : List Json)
  | object (entries : List (String × Json))
  | other (text : String)

/-- The metadata of a safetensors file that marks a delta; the shapes are the document their text encodes. -/
structure DeltaMetadata where
  format : Option String
  layout : Option String
  shapes : Option Json

/-- What a safetensors file holds. -/
structure SafetensorsFile where
  tensors : Dict String Flat
  metadata : DeltaMetadata

def deltaIndexSuffix : String := ".__idx"

def deltaValueSuffix : String := ".__val"

def deltaMetadataFormatV1 : String := "sparse_delta_v1"

def deltaMetadataFormatV2 : String := "sparse_delta_v2"

def deltaLayoutLogical : String := "huggingface"

def sortedNames (names : List String) : List String := names.insertionSort (· ≤ ·)

/-! ## The order of the stream -/

section Order

variable [Unicode]

def streamLayerIndex (name : String) : Except PyException (Option Nat) :=
  match afterFirst ".layers.".toList name.toList with
  | none => .ok none
  | some rest =>
    let layer := rest.takeWhile (· ≠ '.')
    if isdecimal layer then
      match parseInt (String.ofList layer) with
      | .ok n => .ok (some n.toNat)
      | .error kind => .error ⟨kind, "Exceeds the limit (" ++ toString intMaxStrDigits ++
        " digits) for integer string conversion"⟩
    else .ok none

def streamRecordOrder (name : String) : Except PyException (Nat × Nat × String) := do
  match ← streamLayerIndex name with
  | none => return (0, 0, name)
  | some layerIndex => return (1, layerIndex, name)

/-- The order of tuples. -/
def tupleLe (a b : Nat × Nat × String) : Bool :=
  a.1 < b.1 ∨ a.1 = b.1 ∧ (a.2.1 < b.2.1 ∨ a.2.1 = b.2.1 ∧ a.2.2 ≤ b.2.2)

def sortedRecordNames (keys : List String) : Except PyException (List String) := do
  let orders ← keys.mapM streamRecordOrder
  return (orders.insertionSort fun a b => tupleLe a b).map fun order => order.2.2

theorem streamRecordOrder_name {name : String} {order : Nat × Nat × String} (h : streamRecordOrder name = .ok order) :
    order.2.2 = name := by
  unfold streamRecordOrder at h
  rw [bind_eq_ok] at h
  obtain ⟨index, -, h⟩ := h
  cases index with
  | none =>
      cases h
      rfl
  | some n =>
      cases h
      rfl

theorem mapM_streamRecordOrder_names {keys : List String} {orders : List (Nat × Nat × String)}
    (h : keys.mapM streamRecordOrder = .ok orders) : (orders.map fun order => order.2.2) = keys := by
  induction keys generalizing orders with
  | nil =>
      cases h
      rfl
  | cons key keys ih =>
      rw [List.mapM_cons] at h
      simp only [bind_eq_ok] at h
      obtain ⟨order, horder, rest, hrest, hres⟩ := h
      cases hres
      rw [List.map_cons, streamRecordOrder_name horder, ih hrest]

theorem sortedRecordNames_perm {keys names : List String} (h : sortedRecordNames keys = .ok names) : names.Perm keys := by
  unfold sortedRecordNames at h
  rw [bind_eq_ok] at h
  obtain ⟨orders, horders, hnames⟩ := h
  cases hnames
  rw [← mapM_streamRecordOrder_names horders]
  exact (List.perm_insertionSort _ orders).map _

end Order

variable [FloatOps]

/-! ## The stream artifact -/

section Streaming

variable (base target : Dict String Tensor) (encoding : String)

/-- The record of an update; a tensor without a change has none. -/
def writeIfChanged (update : LogicalSparseUpdate) (encoding : String) : Except PyException (List Byte) :=
  if 0 < update.indices.data.length then writeRecord update encoding else .ok []

/-- The loop over the records. -/
def writeRecords : List String → Except PyException (List Byte)
  | [] => .ok []
  | name :: names => do
    let update ← extractUpdate base target none name
    let record ← writeIfChanged update encoding
    let rest ← writeRecords names
    return record ++ rest

/-- `_extract_sparse_delta_streaming_from_stores`: the file it leaves. Groups only decide when the file is flushed. -/
def extractSparseDeltaStreaming [Unicode] (groupSize : Int) : Except PyException (List Byte) := do
  raiseIf (groupSize < 0) "streaming delta group_size must be non-negative"
  let keys ← validatedModelKeys base target true
  let recordNames ← sortedRecordNames keys
  let records ← writeRecords base target encoding recordNames
  return streamHeader ++ records

end Streaming

/-! ## The safetensors artifact -/

/-- `_add_sparse_tensor` for one chunk of indices and values. -/
def addSparseTensor (deltaTensors : Dict String Flat) (update : LogicalSparseUpdate) (encoding : String) :
    Except PyException (Dict String Flat) := do
  let encodedIndices ← encodeSparseIndices update.indices.data encoding
  return (deltaTensors.insert (update.name ++ deltaIndexSuffix) encodedIndices).insert
    (update.name ++ deltaValueSuffix) update.values

section Safetensors

variable (base target : Dict String Tensor) (threshold : Option (Elem .float64)) (encoding : String)

/-- The loop over the tensors, with the tensors and the shapes so far. -/
def addSparseTensors : List String → Dict String Flat → Dict String (List Nat) →
    Except PyException (Dict String Flat × Dict String (List Nat))
  | [], deltaTensors, shapes => .ok (deltaTensors, shapes)
  | name :: names, deltaTensors, shapes => do
    let update ← extractUpdate base target threshold name
    if update.indices.data.length = 0 then addSparseTensors names deltaTensors shapes
    else
      let deltaTensors ← addSparseTensor deltaTensors update encoding
      addSparseTensors names deltaTensors (shapes.insert name update.shape)

def logicalDeltaMetadata (shapes : Dict String (List Nat)) : DeltaMetadata where
  format := some deltaMetadataFormatV2
  layout := some deltaLayoutLogical
  shapes := some (.object ((sortedNames shapes.keys).map fun name =>
    (name, .list (((shapes.get? name).getD []).map fun dim : Nat => Json.int dim))))

/-- `_extract_sparse_delta_from_stores`: the file it leaves. -/
def extractSparseDeltaFromStores (includeBias : Bool) : Except PyException SafetensorsFile := do
  let keys ← validatedModelKeys base target includeBias
  let (deltaTensors, shapes) ← addSparseTensors base target threshold encoding (sortedNames keys) .empty .empty
  return ⟨deltaTensors, logicalDeltaMetadata shapes⟩

def extractSparseDelta : Except PyException SafetensorsFile :=
  extractSparseDeltaFromStores base target none encoding true

end Safetensors

/-! ## Both hold the updates of the changed tensors -/

/-- The updates of the tensors in `names`, without those that change nothing. -/
inductive Extracted (base target : Dict String Tensor) : List String → List LogicalSparseUpdate → Prop
  | nil : Extracted base target [] []
  | unchanged {name : String} {names : List String} {update : LogicalSparseUpdate} {updates : List LogicalSparseUpdate} :
      extractUpdate base target none name = .ok update → update.indices.data = [] →
      Extracted base target names updates → Extracted base target (name :: names) updates
  | changed {name : String} {names : List String} {update : LogicalSparseUpdate} {updates : List LogicalSparseUpdate} :
      extractUpdate base target none name = .ok update → update.indices.data ≠ [] →
      Extracted base target names updates → Extracted base target (name :: names) (update :: updates)

section Extracted

variable {base target : Dict String Tensor} {encoding : String} {names : List String} {updates : List LogicalSparseUpdate}

theorem writeRecords_ok {bytes : List Byte} (h : writeRecords base target encoding names = .ok bytes) :
    ∃ updates, Extracted base target names updates ∧ Written encoding updates bytes := by
  induction names generalizing bytes with
  | nil =>
      cases h
      exact ⟨[], .nil, .nil⟩
  | cons name names ih =>
      unfold writeRecords at h
      simp only [bind_eq_ok] at h
      obtain ⟨update, hupdate, record, hrecord, rest, hrest, hres⟩ := h
      cases hres
      obtain ⟨updates, hextracted, hwritten⟩ := ih hrest
      unfold writeIfChanged at hrecord
      split at hrecord
      · rename_i hpos
        exact ⟨update :: updates, .changed hupdate (List.ne_nil_of_length_pos hpos) hextracted, .cons hrecord hwritten⟩
      · rename_i hpos
        cases hrecord
        rw [List.nil_append]
        exact ⟨updates, .unchanged hupdate (List.length_eq_zero_iff.1 (by omega)) hextracted, hwritten⟩

/-- The entries of the file, update by update. -/
inductive Stored (encoding : String) : List LogicalSparseUpdate → List (String × Flat) → Prop
  | nil : Stored encoding [] []
  | cons {update : LogicalSparseUpdate} {updates : List LogicalSparseUpdate} {encodedIndices : Flat}
      {entries : List (String × Flat)} :
      encodeSparseIndices update.indices.data encoding = .ok encodedIndices → Stored encoding updates entries →
      Stored encoding (update :: updates)
        ((update.name ++ deltaIndexSuffix, encodedIndices) :: (update.name ++ deltaValueSuffix, update.values) :: entries)

theorem addSparseTensors_ok {deltaTensors deltaTensors' : Dict String Flat} {shapes shapes' : Dict String (List Nat)}
    (h : addSparseTensors base target none encoding names deltaTensors shapes = .ok (deltaTensors', shapes')) :
    ∃ updates entries, Extracted base target names updates ∧ Stored encoding updates entries ∧
      deltaTensors' = deltaTensors.insertAll entries ∧
      shapes' = shapes.insertAll (updates.map fun update => (update.name, update.shape)) := by
  induction names generalizing deltaTensors shapes with
  | nil =>
      cases h
      exact ⟨[], [], .nil, .nil, rfl, rfl⟩
  | cons name names ih =>
      unfold addSparseTensors at h
      rw [bind_eq_ok] at h
      obtain ⟨update, hupdate, h⟩ := h
      split at h
      · rename_i hzero
        obtain ⟨updates, entries, hextracted, hstored, htensors, hshapes⟩ := ih h
        exact ⟨updates, entries, .unchanged hupdate (List.length_eq_zero_iff.1 hzero) hextracted, hstored, htensors, hshapes⟩
      · rename_i hzero
        rw [bind_eq_ok] at h
        obtain ⟨tensors, htensor, h⟩ := h
        unfold addSparseTensor at htensor
        rw [bind_eq_ok] at htensor
        obtain ⟨encodedIndices, hencoded, hinsert⟩ := htensor
        cases hinsert
        obtain ⟨updates, entries, hextracted, hstored, htensors, hshapes⟩ := ih h
        refine ⟨update :: updates, _, .changed hupdate (fun hnil => hzero (List.length_eq_zero_iff.2 hnil)) hextracted,
          .cons hencoded hstored, htensors, ?_⟩
        rw [hshapes, ← (extractUpdate_ok hupdate).1]
        rfl

theorem Extracted.mem (h : Extracted base target names updates) {update : LogicalSparseUpdate} (hu : update ∈ updates) :
    update.name ∈ names ∧ extractUpdate base target none update.name = .ok update := by
  induction h with
  | nil => cases hu
  | unchanged _ _ _ ih =>
      obtain ⟨hmem, hextract⟩ := ih hu
      exact ⟨List.mem_cons_of_mem _ hmem, hextract⟩
  | changed hupdate _ _ ih =>
      rcases List.mem_cons.1 hu with rfl | hu
      · obtain ⟨hname, -⟩ := extractUpdate_ok hupdate
        rw [hname]
        exact ⟨List.mem_cons_self, hupdate⟩
      · obtain ⟨hmem, hextract⟩ := ih hu
        exact ⟨List.mem_cons_of_mem _ hmem, hextract⟩

/-- A tensor in `names` that no update names did not change. -/
theorem Extracted.unchanged_of_not_mem (h : Extracted base target names updates) {name : String} (hname : name ∈ names)
    (hnot : name ∉ updates.map LogicalSparseUpdate.name) :
    ∃ update, extractUpdate base target none name = .ok update ∧ update.indices.data = [] := by
  induction h with
  | nil => cases hname
  | unchanged hupdate hnil _ ih =>
      rcases List.mem_cons.1 hname with rfl | hname
      · exact ⟨_, hupdate, hnil⟩
      · exact ih hname hnot
  | changed hupdate _ _ ih =>
      rw [List.map_cons, List.mem_cons, not_or] at hnot
      rcases List.mem_cons.1 hname with rfl | hname
      · exact absurd (extractUpdate_ok hupdate).1.symm hnot.1
      · exact ih hname hnot.2

theorem Extracted.sublist (h : Extracted base target names updates) :
    (updates.map LogicalSparseUpdate.name).Sublist names := by
  induction h with
  | nil => exact .slnil
  | unchanged _ _ _ ih => exact ih.cons _
  | changed hupdate _ _ ih =>
      rw [List.map_cons, (extractUpdate_ok hupdate).1]
      exact ih.cons_cons _

end Extracted

end AuroraRl.Delta
