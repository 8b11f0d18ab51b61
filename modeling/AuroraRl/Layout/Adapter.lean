import AuroraRl.Lib.Dict
import AuroraRl.Torch.Sparse

/-!
# The adapter from logical updates to the shards of a tensor-parallel rank

* `LogicalSparseUpdate`, `LocalSparseUpdate` : an update of a checkpoint tensor, and of the local parameter;
* `Module` : the attributes of an inference module that the adapter reads;
* `projectDimension` : the indices that fall into a shard, moved to their place in it;
* `Adapter.toLocal` : the layout of each parameter and its projection.
-/

namespace AuroraRl.Layout
open Python RowMajor Torch

structure LogicalSparseUpdate where
  name : String
  shape : List Nat
  indices : IndexTensor
  values : Flat

structure LocalSparseUpdate where
  name : String
  indices : List Int
  values : Flat

/-- A module of the inference model; `none` where it has no such attribute. -/
structure Module where
  className : String
  hasQuantConfig : Bool
  quantMethod : Option String
  primeRlShardKind : Option String
  shardIndices : Option (Int × Int)
  hasNumEmbeddingsPerPartition : Bool
  tpRank : Option Int
  tpSize : Option Int
  outputSizes : Option (List Nat)
  headSize : Option Nat
  vHeadSize : Option Nat
  totalNumHeads : Option Nat
  totalNumKvHeads : Option Nat
  numHeads : Option Nat
  numKvHeads : Option Nat
  numKvHeadReplicas : Option Nat

/-- `module.name`, for an attribute that may be missing. -/
def Module.require {α : Type} (module : Module) (name : String) : Option α → Except PyException α
  | some a => .ok a
  | none => .error ⟨.attributeError, "'" ++ module.className ++ "' object has no attribute '" ++ name ++ "'"⟩

inductive LayoutKind
  | replicated
  | row
  | column
  | vocab
  | mergedColumn
  | qkv
  | other (kind : String)
  deriving DecidableEq, Repr

def LayoutKind.ofString (s : String) : LayoutKind :=
  if s = "replicated" then replicated
  else if s = "row" then row
  else if s = "column" then column
  else if s = "vocab" then vocab
  else if s = "merged_column" then mergedColumn
  else if s = "qkv" then qkv
  else other s

/-- Which part of a fused parameter a checkpoint tensor is. -/
inductive ShardId
  | q
  | k
  | v
  | part (n : Nat)
  deriving DecidableEq, Repr

def ShardId.text : ShardId → String
  | q => "q"
  | k => "k"
  | v => "v"
  | part n => toString n

structure LayoutMapping where
  targetName : String
  kind : LayoutKind
  shardId : Option ShardId

def fusedSuffixMappings : List (String × String × LayoutKind × ShardId) :=
  [(".self_attn.q_proj.weight", ".self_attn.qkv_proj.weight", .qkv, .q),
    (".self_attn.k_proj.weight", ".self_attn.qkv_proj.weight", .qkv, .k),
    (".self_attn.v_proj.weight", ".self_attn.qkv_proj.weight", .qkv, .v),
    (".self_attn.q_proj.bias", ".self_attn.qkv_proj.bias", .qkv, .q),
    (".self_attn.k_proj.bias", ".self_attn.qkv_proj.bias", .qkv, .k),
    (".self_attn.v_proj.bias", ".self_attn.qkv_proj.bias", .qkv, .v),
    (".mlp.gate_proj.weight", ".mlp.gate_up_proj.weight", .mergedColumn, .part 0),
    (".mlp.up_proj.weight", ".mlp.gate_up_proj.weight", .mergedColumn, .part 1),
    (".mlp.gate_proj.bias", ".mlp.gate_up_proj.bias", .mergedColumn, .part 0),
    (".mlp.up_proj.bias", ".mlp.gate_up_proj.bias", .mergedColumn, .part 1)]

/-! ## Layout of a parameter -/

def directLayoutKind (module : Module) (param : Parameter) : LayoutKind :=
  match module.primeRlShardKind with
  | some override => .ofString override
  | none =>
    if module.shardIndices.isSome ∧ module.hasNumEmbeddingsPerPartition then .vocab
    else if contains module.className "RowParallelLinear" then
      if param.inputDim.isSome then .row else .replicated
    else if contains module.className "ColumnParallelLinear" ∨ contains module.className "ParallelLMHead" then
      if param.outputDim.isSome then .column else .replicated
    else .replicated

def tensorParallelPosition (module : Module) : Except PyException (Int × Int) := do
  let tpRank := module.tpRank.getD 0
  let tpSize := module.tpSize.getD 1
  raiseIf (tpSize < 1 ∨ tpRank < 0 ∨ tpSize ≤ tpRank)
    ("invalid tensor-parallel position: rank=" ++ toString tpRank ++ ", size=" ++ toString tpSize)
  return (tpRank, tpSize)

/-- The model of one rank: its parameters and modules by name. -/
structure Adapter where
  params : Dict String Parameter
  modules : Dict String Module

/-- The name before the last dot. -/
def moduleName (parameterName : String) : String :=
  String.ofList ((parameterName.toList.reverse.dropWhile (· ≠ '.')).drop 1).reverse

def Adapter.parameterModule (adapter : Adapter) (parameterName : String) : Except PyException Module :=
  match adapter.modules.get? (moduleName parameterName) with
  | some module => .ok module
  | none => raiseValueError ("cannot resolve inference module for parameter: " ++ parameterName)

def Adapter.fusedMapping (adapter : Adapter) (sourceName : String) :
    List (String × String × LayoutKind × ShardId) → Except PyException LayoutMapping
  | [] => unsupported
  | (sourceSuffix, targetSuffix, kind, shardId) :: mappings =>
    if ¬ endswith sourceName sourceSuffix then adapter.fusedMapping sourceName mappings
    else
      let targetName := removesuffix sourceName sourceSuffix ++ targetSuffix
      if ¬ adapter.params.contains targetName then unsupported else .ok ⟨targetName, kind, some shardId⟩
where
  unsupported : Except PyException LayoutMapping :=
    raiseValueError ("logical delta parameter is not supported by the inference model: " ++ sourceName)

def Adapter.mapping (adapter : Adapter) (sourceName : String) : Except PyException LayoutMapping := do
  match adapter.params.get? sourceName with
  | some param =>
    let module ← adapter.parameterModule sourceName
    return ⟨sourceName, directLayoutKind module param, none⟩
  | none => adapter.fusedMapping sourceName fusedSuffixMappings

/-! ## Checks -/

def validateSupportedParameter (name : String) (param : Parameter) (module : Module) : Except PyException Unit := do
  raiseIf module.hasQuantConfig ("quantized inference layout is not supported for sparse delta updates: " ++ name)
  raiseIf (module.quantMethod.any fun m => m ∉ ["UnquantizedEmbeddingMethod", "UnquantizedLinearMethod"])
    ("quantized inference layout is not supported for sparse delta updates: " ++ name)
  raiseIf (param.packedDim.isSome ∨ param.useBitsandbytes4bit)
    ("packed inference parameter is not supported for sparse delta updates: " ++ name)

def validateUpdate (update : LogicalSparseUpdate) : Except PyException Unit := do
  let indices := update.indices.data
  raiseIf (update.indices.dtype ≠ .int64) "logical sparse indices must be decoded to int64"
  raiseIf (indices.length ≠ update.values.data.length) ("logical sparse index/value length mismatch for "
    ++ update.name ++ ": " ++ toString indices.length ++ " vs " ++ toString update.values.data.length)
  raiseIf (1 < indices.length ∧ ¬ strictlyIncreasing indices)
    ("logical sparse indices must be strictly increasing for " ++ update.name)
  raiseIf (indices.head?.any (· < 0) ∨ indices.getLast?.any ((numel update.shape : Int) ≤ ·))
    ("logical sparse index out of range for " ++ update.name)

/-! ## Projections -/

/-- `t[i]` of a tuple; negative positions count from the end. -/
def tupleItem (t : List Nat) (i : Int) : Except PyException Nat :=
  let i := if i < 0 then i + t.length else i
  match if 0 ≤ i then t[i.toNat]? else none with
  | some d => .ok d
  | none => .error ⟨.indexError, "tuple index out of range"⟩

/-- The local indices of the updates inside `[sourceStart, sourceStart + sourceSize)`, and which updates these
are. Indices and sizes are not negative here, so `/` and `%` are floor division and its remainder. -/
def projectDimension (indices : List Int) (sourceShape targetShape : List Nat)
    (dimension sourceStart sourceSize targetStart : Int) : Except PyException (List Int × List Bool) := do
  raiseIf (sourceShape.length ≠ targetShape.length)
    ("source/target tensor ranks differ: " ++ tupleText sourceShape ++ " vs " ++ tupleText targetShape)
  let dimension := if dimension < 0 then dimension + sourceShape.length else dimension
  raiseIf (dimension < 0 ∨ (sourceShape.length : Int) ≤ dimension)
    ("invalid sharding dimension " ++ toString dimension ++ " for shape " ++ tupleText sourceShape)
  let axis := dimension.toNat
  raiseIf ((sourceShape.zip targetShape).zipIdx.any fun e => e.2 ≠ axis ∧ e.1.1 ≠ e.1.2)
    ("non-sharded dimensions differ: " ++ tupleText sourceShape ++ " vs " ++ tupleText targetShape)
  let sourceDim := sourceShape.getD axis 0
  let targetDim := targetShape.getD axis 0
  raiseIf (sourceStart < 0 ∨ sourceSize < 0 ∨ sourceDim < sourceStart + sourceSize)
    ("invalid source shard [" ++ toString sourceStart ++ ", " ++ toString (sourceStart + sourceSize)
      ++ ") for shape " ++ tupleText sourceShape)
  raiseIf (targetStart < 0 ∨ targetDim < targetStart + sourceSize)
    ("invalid target shard [" ++ toString targetStart ++ ", " ++ toString (targetStart + sourceSize)
      ++ ") for shape " ++ tupleText targetShape)
  let innerSize : Int := numel (sourceShape.drop (axis + 1))
  let sourceBlock := sourceDim * innerSize
  let targetBlock := targetDim * innerSize
  let coordinates := indices.map fun i => i / innerSize % sourceDim
  let mask := coordinates.map fun c => decide (sourceStart ≤ c ∧ c < sourceStart + sourceSize)
  let selected := ((indices.zip coordinates).zip mask).filter Prod.snd
  let localIndices := selected.map fun e =>
    e.1.1 / sourceBlock * targetBlock + (e.1.2 - sourceStart + targetStart) * innerSize + e.1.1 % innerSize
  return (localIndices, mask)

def projectRegular (update : LogicalSparseUpdate) (param : Parameter) (module : Module)
    (dimensionAttribute : String) (dimension : Option Int) : Except PyException (List Int × List Bool) := do
  match dimension with
  | none => raiseValueError ("inference parameter has no " ++ dimensionAttribute ++ ": " ++ update.name)
  | some dimension =>
    let (tpRank, tpSize) ← tensorParallelPosition module
    let size ← tupleItem update.shape dimension
    raiseIf ((size : Int) % tpSize ≠ 0) ("logical dimension is not divisible by TP size for " ++ update.name
      ++ ": shape=" ++ tupleText update.shape ++ ", dim=" ++ toString dimension ++ ", tp=" ++ toString tpSize)
    let shardSize := size / tpSize
    projectDimension update.indices.data update.shape param.tensor.shape dimension (tpRank * shardSize) shardSize 0

def projectVocab (update : LogicalSparseUpdate) (param : Parameter) (module : Module) :
    Except PyException (List Int × List Bool) :=
  match module.shardIndices with
  | none => raiseValueError ("vocabulary-parallel module has no shard indices: " ++ update.name)
  | some (start, stop) =>
    projectDimension update.indices.data update.shape param.tensor.shape 0 start (stop - start) 0

def projectMergedColumn (update : LogicalSparseUpdate) (param : Parameter) (module : Module) (shardId : Nat) :
    Except PyException (List Int × List Bool) := do
  let outputSizes ← module.require "output_sizes" module.outputSizes
  match outputSizes[shardId]? with
  | none => raiseValueError ("invalid merged-column shard id for " ++ update.name ++ ": " ++ toString shardId)
  | some outputSize =>
    let size ← tupleItem update.shape 0
    raiseIf (size ≠ outputSize) ("merged-column source shape mismatch for " ++ update.name ++ ": logical="
      ++ toString size ++ " expected=" ++ toString outputSize)
    let (tpRank, tpSize) ← tensorParallelPosition module
    raiseIf (outputSizes.any fun n => (n : Int) % tpSize ≠ 0)
      ("merged-column sizes are not divisible by TP size for " ++ update.name)
    let localSizes := outputSizes.map fun n => n / tpSize.toNat
    let localSize := localSizes.getD shardId 0
    projectDimension update.indices.data update.shape param.tensor.shape 0 (tpRank * localSize) localSize
      (total (localSizes.take shardId))
where
  /-- `sum`. -/
  total : List Nat → Nat
    | [] => 0
    | n :: sizes => n + total sizes

/-- The rows of the `q`, `k` and `v` parts. -/
structure QkvSizes where
  q : Nat
  k : Nat
  v : Nat

def QkvSizes.get? (sizes : QkvSizes) : ShardId → Option Nat
  | .q => some sizes.q
  | .k => some sizes.k
  | .v => some sizes.v
  | .part _ => none

def globalSizes (module : Module) : Except PyException QkvSizes := do
  let headSize ← module.require "head_size" module.headSize
  let vHeadSize := module.vHeadSize.getD headSize
  let totalNumHeads ← module.require "total_num_heads" module.totalNumHeads
  let totalNumKvHeads ← module.require "total_num_kv_heads" module.totalNumKvHeads
  return ⟨totalNumHeads * headSize, totalNumKvHeads * headSize, totalNumKvHeads * vHeadSize⟩

def localSizes (module : Module) : Except PyException QkvSizes := do
  let headSize ← module.require "head_size" module.headSize
  let vHeadSize := module.vHeadSize.getD headSize
  let numHeads ← module.require "num_heads" module.numHeads
  let numKvHeads ← module.require "num_kv_heads" module.numKvHeads
  return ⟨numHeads * headSize, numKvHeads * headSize, numKvHeads * vHeadSize⟩

def QkvSizes.item (sizes : QkvSizes) (shardId : Option ShardId) : Except PyException Nat :=
  match shardId.bind sizes.get? with
  | some n => .ok n
  | none => .error ⟨.keyError, "'" ++ (shardId.map ShardId.text).getD "None" ++ "'"⟩

/-- The rank whose part of a checkpoint tensor this rank holds; key and value heads may be replicated. -/
def sourceRank (module : Module) (tpRank : Int) (shardId : Option ShardId) : Except PyException Int :=
  match shardId with
  | some .q => .ok tpRank
  | _ =>
    let replicas := module.numKvHeadReplicas.getD 1
    if replicas = 0 then .error ⟨.zeroDivisionError, "integer division or modulo by zero"⟩ else .ok (tpRank / replicas)

/-- Where each part starts in the fused parameter. -/
def targetStarts (sizes : QkvSizes) : QkvSizes := ⟨0, sizes.q, sizes.q + sizes.k⟩

def projectQkv (update : LogicalSparseUpdate) (param : Parameter) (module : Module) (shardId : Option ShardId) :
    Except PyException (List Int × List Bool) := do
  let globals ← globalSizes module
  let locals ← localSizes module
  let size ← tupleItem update.shape 0
  let expected ← globals.item shardId
  raiseIf (size ≠ expected) ("QKV source shape mismatch for " ++ update.name ++ ": logical=" ++ toString size
    ++ " expected=" ++ toString expected)
  let (tpRank, _) ← tensorParallelPosition module
  let sourceRank ← sourceRank module tpRank shardId
  let localSize ← locals.item shardId
  let targetStart ← (targetStarts locals).item shardId
  projectDimension update.indices.data update.shape param.tensor.shape 0 (sourceRank * localSize) localSize targetStart

/-! ## The adapter -/

/-- The projection of a layout: the local indices and the mask of the updates they come from. -/
def project (mapping : LayoutMapping) (update : LogicalSparseUpdate) (param : Parameter) (module : Module) :
    Except PyException (List Int × List Bool) :=
  match mapping.kind with
  | .qkv => projectQkv update param module mapping.shardId
  | .mergedColumn =>
    match mapping.shardId with
    | some (.part n) => projectMergedColumn update param module n
    | some shardId => raiseValueError ("invalid literal for int() with base 10: '" ++ shardId.text ++ "'")
    | none => .error ⟨.typeError, "int() argument must be a string, a bytes-like object or a real number, not 'NoneType'"⟩
  | .row => projectRegular update param module "input_dim" param.inputDim
  | .column => projectRegular update param module "output_dim" param.outputDim
  | .vocab => projectVocab update param module
  | .replicated =>
    if param.tensor.shape ≠ update.shape then
      raiseValueError ("replicated parameter shape mismatch for " ++ update.name ++ ": logical="
        ++ tupleText update.shape ++ " local=" ++ tupleText param.tensor.shape)
    else .ok (update.indices.data, update.indices.data.map fun _ => true)
  | .other kind => raiseValueError ("unsupported sparse weight layout kind: " ++ kind)

def applyMask {β : Type} (values : List β) (mask : List Bool) : List β :=
  ((values.zip mask).filter Prod.snd).map Prod.fst

def selectMask (values : Flat) (mask : List Bool) : Flat := ⟨values.dtype, applyMask values.data mask⟩

/-- The layout of a checkpoint tensor on this rank: its mapping, and the parameter and module it maps to. -/
def Adapter.resolve (adapter : Adapter) (name : String) :
    Except PyException (LayoutMapping × Parameter × Module) := do
  let mapping ← adapter.mapping name
  match adapter.params.get? mapping.targetName with
  | none => .error ⟨.keyError, mapping.targetName⟩
  | some param =>
    let module ← adapter.parameterModule mapping.targetName
    return (mapping, param, module)

def Adapter.toLocal (adapter : Adapter) (update : LogicalSparseUpdate) : Except PyException LocalSparseUpdate := do
  let (mapping, param, module) ← adapter.resolve update.name
  validateSupportedParameter mapping.targetName param module
  validateUpdate update
  let (indices, mask) ← project mapping update param module
  return ⟨mapping.targetName, indices, selectMask update.values mask⟩

end AuroraRl.Layout
