import AuroraRl.Lib.NdArray
import AuroraRl.Weights.NemotronH

/-!
# GLM-MoE-DSA layers in kernel format

* `GlmMoeDsaConfig`, `DecoderLayer`, `decoderLayer` : what of a configuration shapes a layer, and its modules;
* `DecoderLayer.params`, `stateDict` : the parameters and persistent buffers of a layer, and its state dict;
* `convertTtLayerToVllmKernel` : the kernel format.
-/

namespace AuroraRl.Weights.Glm

/-! ## Modules of a layer -/

structure GlmMoeDsaConfig where
  hiddenSize : Nat
  intermediateSize : Nat
  moeIntermediateSize : Nat
  numAttentionHeads : Nat
  nSharedExperts : Nat
  nRoutedExperts : Nat
  kvLoraRank : Nat
  qLoraRank : Option Nat
  qkRopeHeadDim : Nat
  vHeadDim : Nat
  qkNopeHeadDim : Nat
  firstKDenseReplace : Nat
  attentionBias : Bool
  indexNHeads : Nat
  indexHeadDim : Nat
  useIndexCache : Bool
  indexTopkFreq : Nat
  indexTopkPattern : Option String

def indexCacheSkipTopk (config : GlmMoeDsaConfig) (layerIdx : Nat) : Except PyException Bool :=
  if ¬ config.useIndexCache then .ok false
  else match config.indexTopkPattern with
    | some pattern => .ok (decide (pattern.toList[layerIdx]? = some 'S'))
    | none =>
      if config.indexTopkFreq = 0 then .error ⟨.zeroDivisionError, "integer modulo by zero"⟩
      else .ok (decide (layerIdx % config.indexTopkFreq ≠ 0))

structure SparseMlaAttentionArgs where
  hiddenSize : Nat
  numAttentionHeads : Nat
  kvLoraRank : Nat
  qLoraRank : Nat
  qkRopeHeadDim : Nat
  qkNopeHeadDim : Nat
  qkHeadDim : Nat
  vHeadDim : Nat
  attentionBias : Bool
  indexNHeads : Nat
  indexHeadDim : Nat
  skipTopk : Bool

def sparseMlaAttentionArgs (config : GlmMoeDsaConfig) (layerIdx : Nat) : Except PyException SparseMlaAttentionArgs :=
  match config.qLoraRank with
  | none => raiseValueError "Sparse MLA attention requires q_lora_rank to be set"
  | some qLoraRank => do
    let skipTopk ← indexCacheSkipTopk config layerIdx
    return { config with
      qLoraRank := qLoraRank
      qkHeadDim := config.qkNopeHeadDim + config.qkRopeHeadDim
      skipTopk := skipTopk }

inductive FeedForward
  | mlp (hiddenSize intermediateSize : Nat)
  | moe (dim hiddenDim numExperts numSharedExperts : Nat)

/-- `GlmMoeDsaDecoderLayer`. -/
structure DecoderLayer where
  selfAttn : SparseMlaAttentionArgs
  mlp : FeedForward
  hiddenSize : Nat

def decoderLayer (config : GlmMoeDsaConfig) (layerIdx : Nat) : Except PyException DecoderLayer := do
  let args ← sparseMlaAttentionArgs config layerIdx
  let mlp := if config.firstKDenseReplace ≤ layerIdx
    then FeedForward.moe config.hiddenSize config.moeIntermediateSize config.nRoutedExperts config.nSharedExperts
    else .mlp config.hiddenSize config.intermediateSize
  return ⟨args, mlp, config.hiddenSize⟩

/-! ## Parameters -/

abbrev dot (name : Key) (part : Part) : Key := name ++ [part]

/-- Names and shapes of what a module puts into the state dict. -/
abbrev Params := List (Key × List Nat)

def linear (name : Key) (inFeatures outFeatures : Nat) (bias : Bool) : Params :=
  (dot name "weight", [outFeatures, inFeatures]) :: if bias then [(dot name "bias", [outFeatures])] else []

def rmsNorm (name : Key) (hiddenSize : Nat) : Params := [(dot name "weight", [hiddenSize])]

def layerNorm (name : Key) (dim : Nat) : Params := [(dot name "weight", [dim]), (dot name "bias", [dim])]

def indexer (args : SparseMlaAttentionArgs) (name : Key) : Params :=
  linear (dot name "wq_b") args.qLoraRank (args.indexNHeads * args.indexHeadDim) false ++
    linear (dot name "wk") args.hiddenSize args.indexHeadDim args.attentionBias ++
    layerNorm (dot name "k_norm") args.indexHeadDim ++
    linear (dot name "weights_proj") args.hiddenSize args.indexNHeads false

def attention (args : SparseMlaAttentionArgs) (name : Key) : Params :=
  linear (dot name "q_a_proj") args.hiddenSize args.qLoraRank args.attentionBias ++
    rmsNorm (dot name "q_a_layernorm") args.qLoraRank ++
    linear (dot name "q_b_proj") args.qLoraRank (args.numAttentionHeads * args.qkHeadDim) false ++
    linear (dot name "kv_a_proj_with_mqa") args.hiddenSize (args.kvLoraRank + args.qkRopeHeadDim) args.attentionBias ++
    rmsNorm (dot name "kv_a_layernorm") args.kvLoraRank ++
    linear (dot name "kv_b_proj") args.kvLoraRank (args.numAttentionHeads * (args.qkNopeHeadDim + args.vHeadDim)) false ++
    linear (dot name "o_proj") (args.numAttentionHeads * args.vHeadDim) args.hiddenSize args.attentionBias ++
    indexer args (dot name "indexer")

def mlp (hiddenSize intermediateSize : Nat) (name : Key) : Params :=
  linear (dot name "gate_proj") hiddenSize intermediateSize false ++
    linear (dot name "up_proj") hiddenSize intermediateSize false ++
    linear (dot name "down_proj") intermediateSize hiddenSize false

def groupedExperts (dim hiddenDim numExperts : Nat) (name : Key) : Params :=
  [(dot name "w1", [numExperts, hiddenDim, dim]), (dot name "w2", [numExperts, dim, hiddenDim]),
    (dot name "w3", [numExperts, hiddenDim, dim])]

def bcFeedForward (dim hiddenDim : Nat) (name : Key) : Params :=
  [(dot name "w1", [hiddenDim, dim]), (dot name "w2", [dim, hiddenDim]), (dot name "w3", [hiddenDim, dim])]

/-- `MoE`; `tokens_per_expert` is not persistent. -/
def moe (dim hiddenDim numExperts numSharedExperts : Nat) (name : Key) : Params :=
  (dot name "expert_bias", [numExperts]) :: groupedExperts dim hiddenDim numExperts (dot name "experts") ++
    linear (dot (dot name "router") "gate") dim numExperts false ++
    if 0 < numSharedExperts then bcFeedForward dim (hiddenDim * numSharedExperts) (dot name "shared_expert") else []

def FeedForward.params : FeedForward → Key → Params
  | .mlp hiddenSize intermediateSize, name => Glm.mlp hiddenSize intermediateSize name
  | .moe dim hiddenDim numExperts numSharedExperts, name => Glm.moe dim hiddenDim numExperts numSharedExperts name

namespace DecoderLayer

variable (layer : DecoderLayer)

def params : Params :=
  attention layer.selfAttn ["self_attn"] ++ layer.mlp.params ["mlp"] ++ rmsNorm ["input_layernorm"] layer.hiddenSize ++
    rmsNorm ["post_attention_layernorm"] layer.hiddenSize

/-- A layer that reuses the indices of an earlier one does not call its indexer. -/
def Reads (name : Key) : Prop := ¬ (layer.selfAttn.skipTopk = true ∧ Key.under ["self_attn", "indexer"] name = true)

end DecoderLayer

abbrev Tensors (R : Type) := Dict Key (NdArray R)

/-- The state dict of a layer with these weights. -/
def DecoderLayer.stateDict {R : Type} (layer : DecoderLayer) (layerIdx : Nat) (weights : Key → List Nat → R) : Tensors R :=
  Dict.ofList (layer.params.map fun p => (inLayer layerIdx p.1, ⟨p.2, weights (inLayer layerIdx p.1)⟩))

/-! ## Conversion -/

section Convert

variable {R : Type}

def cat (a b : NdArray R) (dim : Nat) : Except PyException (NdArray R) :=
  if NdArray.Joinable dim a b then .ok (NdArray.join dim a b)
  else .error ⟨.runtimeError, "Sizes of tensors must match except in dimension " ++ toString dim⟩

def squeeze0 (t : NdArray R) : NdArray R :=
  match t.shape with
  | 1 :: shape => ⟨shape, fun cs => t.get (0 :: cs)⟩
  | _ => t

def select (t : NdArray R) (i : Nat) : NdArray R := ⟨t.shape.tail, fun cs => t.get (i :: cs)⟩

def stack : List (NdArray R) → Except PyException (NdArray R)
  | [] => .error ⟨.runtimeError, "stack expects a non-empty TensorList"⟩
  | t :: ts => .ok ⟨(t :: ts).length :: t.shape, fun cs => ((t :: ts).getD (cs.headD 0) t).get cs.tail⟩

/-- `quantize_to_fp8_blockwise`, or none without `quantize_fp8`. -/
abbrev QuantizeFp8 (R : Type) := Option (NdArray R → NdArray R × NdArray R)

def scaleName (name : Key) : Key :=
  dot (if name.getLast? = some (.name "weight") then name.dropLast else name) "weight_scale_inv"

/-- Assignments to `out`, in their order. -/
abbrev Assignments (R : Type) := List (Key × NdArray R)

def add (name : Key) (tensor : NdArray R) : Assignments R := [(name, tensor)]

def addMaybeFp8 (quantizeFp8 : QuantizeFp8 R) (name : Key) (tensor : NdArray R) : Assignments R :=
  match quantizeFp8 with
  | some quantize =>
    if tensor.shape.length = 2 then [(name, (quantize tensor).1), (scaleName name, (quantize tensor).2)] else [(name, tensor)]
  | none => [(name, tensor)]

/-- `if source in state_dict: add(target, state_dict[source])`. -/
def copyKey (add : Key → NdArray R → Assignments R) (stateDict : Tensors R) (source target : Key) : Assignments R :=
  match stateDict.get? source with
  | some t => add target t
  | none => []

def copyKeys (add : Key → NdArray R → Assignments R) (stateDict : Tensors R) (layerIdx : Nat) (names : List Key) :
    Assignments R :=
  names.flatMap fun name => copyKey add stateDict (inLayer layerIdx name) (inLayer layerIdx name)

/-- `if first in state_dict and second in state_dict`: both as one tensor. -/
def fuseKeys (add : Key → NdArray R → Assignments R) (stateDict : Tensors R) (first second target : Key) :
    Except PyException (Assignments R) :=
  match stateDict.get? first, stateDict.get? second with
  | some a, some b => do
    let t ← cat a b 0
    return add target t
  | _, _ => .ok []

/-- The dense feed-forward; its last projection is looked for only with the first two. -/
def denseKeys (quantizeFp8 : QuantizeFp8 R) (stateDict : Tensors R) (layerIdx : Nat) : Except PyException (Assignments R) :=
  match stateDict.get? (inLayer layerIdx ["mlp", "gate_proj", "weight"]),
      stateDict.get? (inLayer layerIdx ["mlp", "up_proj", "weight"]) with
  | some gate, some up => do
    let gateUp ← cat gate up 0
    return addMaybeFp8 quantizeFp8 (inLayer layerIdx ["mlp", "gate_up_proj", "weight"]) gateUp ++
      copyKeys (addMaybeFp8 quantizeFp8) stateDict layerIdx [["mlp", "down_proj", "weight"]]
  | _, _ => .ok []

/-- Every expert is quantized on its own. -/
def quantizeExperts (quantize : NdArray R → NdArray R × NdArray R) (w : NdArray R) :
    Except PyException (NdArray R × NdArray R) := do
  let experts := (List.range (w.dim 0)).map fun i => quantize (select w i)
  let fp8 ← stack (experts.map Prod.fst)
  let scales ← stack (experts.map Prod.snd)
  return (fp8, scales)

def expertKeys (quantizeFp8 : QuantizeFp8 R) (stateDict : Tensors R) (layerIdx : Nat) : Except PyException (Assignments R) :=
  match stateDict.get? (inLayer layerIdx ["mlp", "experts", "w1"]),
      stateDict.get? (inLayer layerIdx ["mlp", "experts", "w2"]),
      stateDict.get? (inLayer layerIdx ["mlp", "experts", "w3"]) with
  | some w1, some w2, some w3 => do
    let w13 ← cat w1 w3 1
    match quantizeFp8 with
    | some quantize => do
      let (fp8, scales) ← quantizeExperts quantize w13
      let (fp8', scales') ← quantizeExperts quantize w2
      return [(inLayer layerIdx ["mlp", "experts", "w13_weight"], fp8),
        (inLayer layerIdx ["mlp", "experts", "w13_weight_scale_inv"], scales),
        (inLayer layerIdx ["mlp", "experts", "w2_weight"], fp8'),
        (inLayer layerIdx ["mlp", "experts", "w2_weight_scale_inv"], scales')]
    | none =>
      return [(inLayer layerIdx ["mlp", "experts", "w13_weight"], w13),
        (inLayer layerIdx ["mlp", "experts", "w2_weight"], w2)]
  | _, _, _ => .ok []

def sharedExpertKeys (quantizeFp8 : QuantizeFp8 R) (stateDict : Tensors R) (layerIdx : Nat) :
    Except PyException (Assignments R) :=
  match stateDict.get? (inLayer layerIdx ["mlp", "shared_expert", "w1"]),
      stateDict.get? (inLayer layerIdx ["mlp", "shared_expert", "w2"]),
      stateDict.get? (inLayer layerIdx ["mlp", "shared_expert", "w3"]) with
  | some sw1, some sw2, some sw3 => do
    let squeeze := fun t => if sw1.shape.length = 3 then squeeze0 t else t
    let gateUp ← cat (squeeze sw1) (squeeze sw3) 0
    return addMaybeFp8 quantizeFp8 (inLayer layerIdx ["mlp", "shared_experts", "gate_up_proj", "weight"]) gateUp ++
      addMaybeFp8 quantizeFp8 (inLayer layerIdx ["mlp", "shared_experts", "down_proj", "weight"]) (squeeze sw2)
  | _, _, _ => .ok []

def convertTtLayerToVllmKernel (stateDict : Tensors R) (layerIdx : Nat) (quantizeFp8 : QuantizeFp8 R) :
    Except PyException (Tensors R) := do
  let norms := copyKeys add stateDict layerIdx [["input_layernorm", "weight"], ["post_attention_layernorm", "weight"]]
  let qkvA ← fuseKeys (addMaybeFp8 quantizeFp8) stateDict (inLayer layerIdx ["self_attn", "q_a_proj", "weight"])
    (inLayer layerIdx ["self_attn", "kv_a_proj_with_mqa", "weight"])
    (inLayer layerIdx ["self_attn", "fused_qkv_a_proj", "weight"])
  let latentNorms := copyKeys add stateDict layerIdx
    [["self_attn", "q_a_layernorm", "weight"], ["self_attn", "kv_a_layernorm", "weight"]]
  let projections := copyKeys (addMaybeFp8 quantizeFp8) stateDict layerIdx [["self_attn", "q_b_proj", "weight"],
    ["self_attn", "kv_b_proj", "weight"], ["self_attn", "o_proj", "weight"]]
  let wqB := copyKeys (addMaybeFp8 quantizeFp8) stateDict layerIdx [["self_attn", "indexer", "wq_b", "weight"]]
  let wk ← fuseKeys add stateDict (inLayer layerIdx ["self_attn", "indexer", "wk", "weight"])
    (inLayer layerIdx ["self_attn", "indexer", "weights_proj", "weight"])
    (inLayer layerIdx ["self_attn", "indexer", "wk_weights_proj", "weight"])
  let kNorm := copyKeys add stateDict layerIdx
    [["self_attn", "indexer", "k_norm", "weight"], ["self_attn", "indexer", "k_norm", "bias"]]
  let dense ← denseKeys quantizeFp8 stateDict layerIdx
  let router := copyKey add stateDict (inLayer layerIdx ["mlp", "router", "gate", "weight"])
    (inLayer layerIdx ["mlp", "gate", "weight"])
  let expertBias := copyKey add stateDict (inLayer layerIdx ["mlp", "expert_bias"])
    (inLayer layerIdx ["mlp", "gate", "e_score_correction_bias"])
  let experts ← expertKeys quantizeFp8 stateDict layerIdx
  let sharedExpert ← sharedExpertKeys quantizeFp8 stateDict layerIdx
  return Dict.ofList (norms ++ qkvA ++ latentNorms ++ projections ++ wqB ++ wk ++ kNorm ++ dense ++ router ++ expertBias ++
    experts ++ sharedExpert)

end Convert

end AuroraRl.Weights.Glm
