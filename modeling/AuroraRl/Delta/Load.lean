import AuroraRl.Delta.Writers
import AuroraRl.Layout.Commutes

/-!
# Loading a delta into the inference model

* `loadSparseDeltaWeights` : the worker's loops over both artifacts;
* `applySparseUpdate` : one update through the adapter;
* `applyAll_ok` : a list of updates of different tensors reproduces each of them and leaves the others alone.
-/

namespace AuroraRl.Delta
open Bytes Python RowMajor Torch Layout

variable [FloatOps]

/-- A delta on disk. -/
inductive DeltaFile
  | bytes (content : List Byte)
  | safetensors (file : SafetensorsFile)

/-! ## Metadata -/

/-- `[int(dim) for dim in shape]` if the document is a list of integers; `bool` is a subclass of `int`. -/
def Json.dims? : Json → Option (List Int)
  | .list l => l.mapM fun
      | .int n => some n
      | .bool b => some b.toNat
      | _ => none
  | _ => none

/-- The loop of `sparse_delta_shapes`. -/
def readShapes : List (String × Json) → Dict String (List Nat) → Except PyException (Dict String (List Nat))
  | [], shapes => .ok shapes
  | (name, shape) :: entries, shapes =>
    match shape.dims? with
    | none => raiseValueError "logical sparse delta shapes metadata is malformed"
    | some dims => do
      raiseIf (dims.any (· < 0)) ("logical sparse delta shape has a negative dimension: " ++ name)
      readShapes entries (shapes.insert name (dims.map Int.toNat))

def sparseDeltaShapes (metadata : DeltaMetadata) : Except PyException (Dict String (List Nat)) :=
  match metadata.shapes with
  | none => .ok .empty
  | some (.object entries) => readShapes entries .empty
  | some _ => raiseValueError "logical sparse delta shapes metadata must be an object"

def looksLikeDelta (keys : List String) : Bool :=
  keys.any fun key => endswith key deltaIndexSuffix || endswith key deltaValueSuffix

def isSparseDeltaStore (file : SafetensorsFile) : Bool :=
  looksLikeDelta file.tensors.keys || file.metadata.format = some deltaMetadataFormatV1 ||
    file.metadata.format = some deltaMetadataFormatV2

/-! ## One tensor -/

/-- `params[name]` after its data was updated in place. -/
def setTensor (model : Adapter) (name : String) (param : Parameter) (tensor : Tensor) : Adapter :=
  { model with params := model.params.insert name { param with tensor := tensor } }

/-- The update of a logical tensor: `adapter.to_local` and `_apply_decoded_sparse_delta_tensor`. -/
def applySparseUpdate (scaleFactor : Option (Elem .float64)) (model : Adapter) (update : LogicalSparseUpdate) :
    Except PyException Adapter := do
  let localUpdate ← model.toLocal update
  match model.params.get? localUpdate.name with
  | none => .error ⟨.keyError, localUpdate.name⟩
  | some param =>
    let (tensor, _) ← applyDecodedSparseDeltaTensor param localUpdate.name localUpdate.indices localUpdate.values scaleFactor
    return setTensor model localUpdate.name param tensor

/-- `_apply_sparse_delta_tensor`, on the parameter of the same name. -/
def applySparseDeltaTensor (scaleFactor : Option (Elem .float64)) (model : Adapter) (name : String) (param : Parameter)
    (encodedIndices values : Flat) : Except PyException Adapter := do
  let indices ← decodeSparseIndices encodedIndices values.data.length
  let (tensor, _) ← applyDecodedSparseDeltaTensor param name indices.data values scaleFactor
  return setTensor model name param tensor

/-! ## The stream -/

/-- The body of the loop over the records, with the names seen so far. -/
def loadRecord (scaleFactor : Option (Elem .float64)) (s : List String × Adapter) (record : StreamingDeltaRecord) :
    Except PyException (List String × Adapter) := do
  raiseIf (record.name ∈ s.1) ("duplicate sparse delta tensor: " ++ record.name)
  let seen := record.name :: s.1
  if record.formatVersion = 2 then
    match record.shape with
    | none => raiseValueError ("logical streaming delta has no shape for " ++ record.name)
    | some shape =>
      let indices ← decodeSparseIndices record.encodedIndices record.values.data.length
      let model ← applySparseUpdate scaleFactor s.2 ⟨record.name, shape, indices, record.values⟩
      return (seen, model)
  else
    match s.2.params.get? record.name with
    | none => raiseValueError ("delta parameter is not present in the vLLM model: " ++ record.name)
    | some param =>
      let model ← applySparseDeltaTensor scaleFactor s.2 record.name param record.encodedIndices record.values
      return (seen, model)

/-- `is_streaming_delta_file`, on the content. -/
def isStreamingDeltaFile (content : List Byte) : Bool := streamMagic.isPrefixOf content

/-! ## The safetensors file -/

def getTensor (file : SafetensorsFile) (key : String) : Except PyException Flat :=
  match file.tensors.get? key with
  | some t => .ok t
  | none => .error ⟨.safetensorError, "File does not contain tensor " ++ key⟩

/-- The names whose tensors have the suffix. -/
def namesWith (suffix : String) (keys : List String) : List String :=
  (keys.filter fun key => endswith key suffix).map fun key => removesuffix key suffix

/-- The body of the loop over a logical delta. -/
def loadLogicalTensor (scaleFactor : Option (Elem .float64)) (file : SafetensorsFile) (shapes : Dict String (List Nat))
    (model : Adapter) (name : String) : Except PyException Adapter := do
  let values ← getTensor file (name ++ deltaValueSuffix)
  let encodedIndices ← getTensor file (name ++ deltaIndexSuffix)
  let indices ← decodeSparseIndices encodedIndices values.data.length
  match shapes.get? name with
  | none => .error ⟨.keyError, name⟩
  | some shape => applySparseUpdate scaleFactor model ⟨name, shape, indices, values⟩

/-- The body of the loop over a delta whose names are those of the model. -/
def loadPlainTensor (scaleFactor : Option (Elem .float64)) (file : SafetensorsFile) (model : Adapter) (name : String) :
    Except PyException Adapter := do
  match model.params.get? name with
  | none => .error ⟨.keyError, name⟩
  | some param =>
    let values ← getTensor file (name ++ deltaValueSuffix)
    let encodedIndices ← getTensor file (name ++ deltaIndexSuffix)
    applySparseDeltaTensor scaleFactor model name param encodedIndices values

def sameNames (l l' : List String) : Bool := (l.all fun name => name ∈ l') && l'.all fun name => name ∈ l

def loadSafetensors (scaleFactor : Option (Elem .float64)) (model : Adapter) (file : SafetensorsFile) :
    Except PyException Adapter := do
  let format := file.metadata.format
  raiseIf (format ≠ none ∧ format ≠ some deltaMetadataFormatV1 ∧ format ≠ some deltaMetadataFormatV2)
    ("unsupported sparse delta format: " ++ format.getD "None")
  raiseIf (format = some deltaMetadataFormatV2 ∧ file.metadata.layout ≠ some deltaLayoutLogical)
    ("unsupported logical sparse delta layout: " ++ file.metadata.layout.getD "None")
  let idxNames := namesWith deltaIndexSuffix file.tensors.keys
  let valNames := namesWith deltaValueSuffix file.tensors.keys
  if idxNames = [] ∧ valNames = [] then
    raiseIf (¬ isSparseDeltaStore file) "does not look like a sparse delta file"
    return model
  else
    raiseIf (¬ sameNames idxNames valNames) ("delta index/value names mismatch: idx-only="
      ++ setText (idxNames.filter (· ∉ valNames)) ++ ", val-only=" ++ setText (valNames.filter (· ∉ idxNames)))
    if format = some deltaMetadataFormatV2 then
      let shapes ← sparseDeltaShapes file.metadata
      raiseIf (¬ sameNames shapes.keys idxNames) ("logical delta shape/name mismatch: missing="
        ++ setText (idxNames.filter (· ∉ shapes.keys)) ++ ", unexpected="
        ++ setText (shapes.keys.filter (· ∉ idxNames)))
      (sortedNames idxNames).foldlM (loadLogicalTensor scaleFactor file shapes) model
    else
      let missing := sortedNames (idxNames.filter fun name => ! model.params.contains name)
      raiseIf (missing ≠ []) ("delta contains " ++ toString missing.length
        ++ " parameter(s) not present in the vLLM model: " ++ setText (missing.take 10))
      (sortedNames idxNames).foldlM (loadPlainTensor scaleFactor file) model

/-- `load_sparse_delta_weights`. A file that is neither a stream nor a safetensors file is refused by the reader. -/
def loadSparseDeltaWeights (model : Adapter) (scaleFactor : Option (Elem .float64)) :
    DeltaFile → Except PyException Adapter
  | .bytes content =>
    if isStreamingDeltaFile content then
      (iterStreamingDeltaRecords content (loadRecord scaleFactor) ([], model)).map Prod.snd
    else .error ⟨.safetensorError, "Error while deserializing header"⟩
  | .safetensors file => loadSafetensors scaleFactor model file

/-! ## A model that holds a state dict -/

/-- The model has the tensor `t` as a parameter of its own, whole and in plain layout. -/
structure HoldsTensor (model : Adapter) (name : String) (param : Parameter) (module : Module) : Prop where
  param_eq : model.params.get? name = some param
  module_eq : model.parameterModule name = .ok module
  contiguous : param.contiguous = true
  replicated : directLayoutKind module param = .replicated
  supported : validateSupportedParameter name param module = .ok ()

variable {model : Adapter} {update : LogicalSparseUpdate} {param : Parameter} {module : Module}

omit [FloatOps] in
theorem validateUpdate_of (hint : update.indices.dtype = .int64)
    (hlen : update.indices.data.length = update.values.data.length)
    (hvalid : ValidIndices update.indices.data (numel update.shape)) : validateUpdate update = .ok () := by
  have hends : ¬ (update.indices.data.head?.any (· < 0) = true ∨
      update.indices.data.getLast?.any (((numel update.shape : Nat) : Int) ≤ ·) = true) := by
    rintro (h | h)
    · obtain ⟨i, hi, hneg⟩ := Option.any_eq_true _ _ |>.1 h
      have := (hvalid.range i (List.mem_of_mem_head? hi)).1
      rw [decide_eq_true_eq] at hneg
      omega
    · obtain ⟨i, hi, hge⟩ := Option.any_eq_true _ _ |>.1 h
      have := (hvalid.range i (List.mem_of_getLast? hi)).2
      rw [decide_eq_true_eq] at hge
      omega
  unfold validateUpdate
  dsimp only
  rw [raiseIf_of_not (not_not_intro hint), ok_bind, raiseIf_of_not (not_not_intro hlen), ok_bind,
    raiseIf_of_not fun h => h.2 (strictlyIncreasing_iff.2 hvalid.increasing), ok_bind, raiseIf_of_not hends]

omit [FloatOps] in
/-- On a plain parameter the local update is the logical one. -/
theorem toLocal_plain (h : HoldsTensor model update.name param module) (hshape : update.shape = param.tensor.shape)
    (hint : update.indices.dtype = .int64) (hlen : update.indices.data.length = update.values.data.length)
    (hvalid : ValidIndices update.indices.data (numel update.shape)) :
    model.toLocal update = .ok ⟨update.name, update.indices.data, update.values⟩ := by
  have hmapping : model.mapping update.name = .ok ⟨update.name, .replicated, none⟩ := by
    unfold Adapter.mapping
    rw [h.param_eq]
    dsimp only
    rw [h.module_eq, ok_bind, h.replicated]
    rfl
  have hresolve : model.resolve update.name = .ok (⟨update.name, .replicated, none⟩, param, module) := by
    unfold Adapter.resolve
    rw [hmapping, ok_bind]
    dsimp only
    rw [h.param_eq]
    dsimp only
    rw [h.module_eq]
    rfl
  have hproject : project ⟨update.name, .replicated, none⟩ update param module =
      .ok (update.indices.data, update.indices.data.map fun _ => true) := if_neg (not_not_intro hshape.symm)
  unfold Adapter.toLocal
  rw [hresolve, ok_bind]
  dsimp only
  rw [h.supported, ok_bind, validateUpdate_of hint hlen hvalid, ok_bind, hproject, ok_bind]
  dsimp only
  rw [selectMask_true hlen]
  rfl

/-- **One update.** It reproduces its tensor and leaves the other parameters alone. -/
theorem applySparseUpdate_ok {t' : Tensor} (h : HoldsTensor model update.name param module)
    (hupdate : Reproduces update param.tensor t') :
    applySparseUpdate none model update = .ok (setTensor model update.name param
      (sparseUpdate param.tensor (update.indices.data.map Int.toNat) update.values)) := by
  have hvalid : ValidIndices update.indices.data (numel update.shape) := by
    rw [hupdate.shape_eq, ← param.tensor.length_data]
    exact hupdate.valid
  obtain ⟨full, hfull⟩ : ∃ full, applyDecodedSparseDeltaTensor param update.name update.indices.data update.values none =
      .ok (sparseUpdate param.tensor (update.indices.data.map Int.toNat) (scaleValues none update.values), full) :=
    applyDecoded_ok h.contiguous hupdate.length_eq hupdate.valid
  unfold applySparseUpdate
  rw [toLocal_plain h hupdate.shape_eq hupdate.int64 hupdate.length_eq hvalid, ok_bind]
  dsimp only
  rw [h.param_eq]
  dsimp only
  rw [hfull]
  rfl

omit [FloatOps] in
theorem HoldsTensor.setTensor {name name' : String} {param' : Parameter} {tensor : Tensor}
    (h : HoldsTensor model name param module) (hne : name' ≠ name) :
    HoldsTensor (setTensor model name' param' tensor) name param module := by
  refine ⟨?_, h.module_eq, h.contiguous, h.replicated, h.supported⟩
  exact (Dict.get?_insert_ne _ _ hne).trans h.param_eq

theorem applyAll_ok (model : Adapter) (target : Dict String Tensor) {updates : List LogicalSparseUpdate}
    (hnodup : (updates.map LogicalSparseUpdate.name).Nodup)
    (hholds : ∀ update ∈ updates, ∃ t t' param module, target.get? update.name = some t' ∧ param.tensor = t ∧
      HoldsTensor model update.name param module ∧ Reproduces update t t') :
    ∃ loaded, updates.foldlM (applySparseUpdate none) model = .ok loaded ∧
      (∀ name, name ∉ updates.map LogicalSparseUpdate.name → loaded.params.get? name = model.params.get? name) ∧
      ∀ update ∈ updates, ∃ param t', loaded.params.get? update.name = some param ∧
        target.get? update.name = some t' ∧ param.tensor.dtype = t'.dtype ∧ torchEqual param.tensor t' = true := by
  induction updates generalizing model with
  | nil => exact ⟨model, rfl, fun _ _ => rfl, nofun⟩
  | cons update updates ih =>
      rw [List.map_cons, List.nodup_cons] at hnodup
      obtain ⟨t, t', param, module, ht', rfl, hmodel, hreproduces⟩ := hholds update List.mem_cons_self
      obtain ⟨loaded, hloaded, hother, hnamed⟩ := ih (setTensor model update.name param
          (sparseUpdate param.tensor (update.indices.data.map Int.toNat) update.values)) hnodup.2 fun u hu => by
        obtain ⟨t₁, t₁', param₁, module₁, ht₁', hparam₁, hmodel₁, hreproduces₁⟩ :=
          hholds u (List.mem_cons_of_mem update hu)
        have hne : update.name ≠ u.name := fun heq => hnodup.1 (heq ▸ List.mem_map_of_mem hu)
        exact ⟨t₁, t₁', param₁, module₁, ht₁', hparam₁, hmodel₁.setTensor hne, hreproduces₁⟩
      refine ⟨loaded, ?_, fun name hname => ?_, fun u hu => ?_⟩
      · rw [List.foldlM_cons, applySparseUpdate_ok hmodel hreproduces, ok_bind, hloaded]
      · rw [List.map_cons, List.mem_cons, not_or] at hname
        rw [hother name hname.2]
        exact Dict.get?_insert_ne _ _ (Ne.symm hname.1)
      · rcases List.mem_cons.1 hu with rfl | hu
        · refine ⟨_, t', (hother u.name hnodup.1).trans (Dict.get?_insert_self ..), ht', ?_, hreproduces.equal⟩
          exact hreproduces.dtype_eq
        · exact hnamed u hu

end AuroraRl.Delta
