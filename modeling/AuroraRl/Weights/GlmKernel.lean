import AuroraRl.Weights.GlmMoeDsa

/-!
# The rows of the kernel format

* `KernelRow`, `kernelRows` : the tensors of the kernel format, and what each is made of;
* `rowTensors`, `convert_rows` : the converter makes those whose sources are there;
* `paramNames`, `get?_stateDict` : the names of a layer, and what is found under them;
* `coherent_stateDict` : a layer has what the converter relies on.
-/

namespace AuroraRl.Weights.Glm

variable {R : Type}

/-! ## Kernel format -/

/-- A tensor under its new name, or two of them concatenated along an axis. -/
inductive KernelRow
  | copy (target source : Key)
  | fused (target : Key) (axis : Nat) (first second : Key)

namespace KernelRow

def target : KernelRow → Key
  | copy target _ => target
  | fused target _ _ _ => target

def sources : KernelRow → List Key
  | copy _ source => [source]
  | fused _ _ first second => [first, second]

/-- The tensor of a row, where its sources are there. -/
def tensor (stateDict : Tensors R) (layerIdx : Nat) : KernelRow → Option (NdArray R)
  | copy _ source => stateDict.get? (inLayer layerIdx source)
  | fused _ axis first second => do
    let a ← stateDict.get? (inLayer layerIdx first)
    let b ← stateDict.get? (inLayer layerIdx second)
    return NdArray.join axis a b

end KernelRow

open KernelRow in
/-- The kernel format of all layers. -/
def kernelRows : List KernelRow := [
  copy ["input_layernorm", "weight"] ["input_layernorm", "weight"],
  copy ["post_attention_layernorm", "weight"] ["post_attention_layernorm", "weight"],
  fused ["self_attn", "fused_qkv_a_proj", "weight"] 0 ["self_attn", "q_a_proj", "weight"]
    ["self_attn", "kv_a_proj_with_mqa", "weight"],
  copy ["self_attn", "q_a_layernorm", "weight"] ["self_attn", "q_a_layernorm", "weight"],
  copy ["self_attn", "kv_a_layernorm", "weight"] ["self_attn", "kv_a_layernorm", "weight"],
  copy ["self_attn", "q_b_proj", "weight"] ["self_attn", "q_b_proj", "weight"],
  copy ["self_attn", "kv_b_proj", "weight"] ["self_attn", "kv_b_proj", "weight"],
  copy ["self_attn", "o_proj", "weight"] ["self_attn", "o_proj", "weight"],
  copy ["self_attn", "indexer", "wq_b", "weight"] ["self_attn", "indexer", "wq_b", "weight"],
  fused ["self_attn", "indexer", "wk_weights_proj", "weight"] 0 ["self_attn", "indexer", "wk", "weight"]
    ["self_attn", "indexer", "weights_proj", "weight"],
  copy ["self_attn", "indexer", "k_norm", "weight"] ["self_attn", "indexer", "k_norm", "weight"],
  copy ["self_attn", "indexer", "k_norm", "bias"] ["self_attn", "indexer", "k_norm", "bias"],
  fused ["mlp", "gate_up_proj", "weight"] 0 ["mlp", "gate_proj", "weight"] ["mlp", "up_proj", "weight"],
  copy ["mlp", "down_proj", "weight"] ["mlp", "down_proj", "weight"],
  copy ["mlp", "gate", "weight"] ["mlp", "router", "gate", "weight"],
  copy ["mlp", "gate", "e_score_correction_bias"] ["mlp", "expert_bias"],
  fused ["mlp", "experts", "w13_weight"] 1 ["mlp", "experts", "w1"] ["mlp", "experts", "w3"],
  copy ["mlp", "experts", "w2_weight"] ["mlp", "experts", "w2"],
  fused ["mlp", "shared_experts", "gate_up_proj", "weight"] 0 ["mlp", "shared_expert", "w1"] ["mlp", "shared_expert", "w3"],
  copy ["mlp", "shared_experts", "down_proj", "weight"] ["mlp", "shared_expert", "w2"]]

theorem nodup_targets : (kernelRows.map KernelRow.target).Nodup := by decide

theorem nodup_sources : (kernelRows.flatMap KernelRow.sources).Nodup := by decide

/-- The rows that are there, by their new names. -/
def rowTensors (stateDict : Tensors R) (layerIdx : Nat) (rows : List KernelRow) : Assignments R :=
  rows.flatMap fun row => (row.tensor stateDict layerIdx).toList.map fun t => (inLayer layerIdx row.target, t)

/-! ## What the converter makes -/

section Rows

variable {stateDict : Tensors R} {layerIdx : Nat}

theorem rowTensors_append (rows rows' : List KernelRow) : rowTensors stateDict layerIdx (rows ++ rows') =
    rowTensors stateDict layerIdx rows ++ rowTensors stateDict layerIdx rows' := List.flatMap_append

theorem rowTensors_cons (row : KernelRow) (rows : List KernelRow) : rowTensors stateDict layerIdx (row :: rows) =
    ((row.tensor stateDict layerIdx).toList.map fun t => (inLayer layerIdx row.target, t)) ++
      rowTensors stateDict layerIdx rows := List.flatMap_cons

theorem tensor_copy (target source : Key) : (KernelRow.copy target source).tensor stateDict layerIdx =
    stateDict.get? (inLayer layerIdx source) := rfl

theorem tensor_fused (target first second : Key) (axis : Nat) :
    (KernelRow.fused target axis first second).tensor stateDict layerIdx =
      (stateDict.get? (inLayer layerIdx first)).bind fun a =>
        (stateDict.get? (inLayer layerIdx second)).bind fun b => some (NdArray.join axis a b) := rfl

theorem cat_joinable {a b : NdArray R} {axis : Nat} (h : NdArray.Joinable axis a b) :
    cat a b axis = .ok (NdArray.join axis a b) := if_pos h

theorem addMaybeFp8_none : addMaybeFp8 (none : QuantizeFp8 R) = add := rfl

theorem copyKey_rows (source target : Key) : copyKey add stateDict (inLayer layerIdx source) (inLayer layerIdx target) =
    rowTensors stateDict layerIdx [.copy target source] := by
  rw [copyKey, rowTensors_cons, tensor_copy]
  cases stateDict.get? (inLayer layerIdx source) with
  | none => rfl
  | some t => rfl

theorem copyKeys_rows (names : List Key) : copyKeys add stateDict layerIdx names =
    rowTensors stateDict layerIdx (names.map fun name => .copy name name) := by
  induction names with
  | nil => rfl
  | cons name names ih =>
      have hcons : copyKeys add stateDict layerIdx (name :: names) =
        copyKey add stateDict (inLayer layerIdx name) (inLayer layerIdx name) ++ copyKeys add stateDict layerIdx names := rfl
      rw [hcons, copyKey_rows, ih, ← rowTensors_append]
      rfl

/-- Both tensors, if they are there, can be concatenated. -/
def Fits (stateDict : Tensors R) (layerIdx axis : Nat) (first second : Key) : Prop :=
  ∀ a b, stateDict.get? (inLayer layerIdx first) = some a → stateDict.get? (inLayer layerIdx second) = some b →
    NdArray.Joinable axis a b

/-- All of them are there, or none. -/
def Together (stateDict : Tensors R) (layerIdx : Nat) (names : List Key) : Prop :=
  (∀ name ∈ names, ∃ t, stateDict.get? (inLayer layerIdx name) = some t) ∨
    ∀ name ∈ names, stateDict.get? (inLayer layerIdx name) = none

theorem fuseKeys_rows {first second : Key} (target : Key) (h : Fits stateDict layerIdx 0 first second) :
    fuseKeys add stateDict (inLayer layerIdx first) (inLayer layerIdx second) (inLayer layerIdx target) =
      .ok (rowTensors stateDict layerIdx [.fused target 0 first second]) := by
  rw [fuseKeys, rowTensors_cons, tensor_fused]
  cases ha : stateDict.get? (inLayer layerIdx first) with
  | none => rfl
  | some a =>
      cases hb : stateDict.get? (inLayer layerIdx second) with
      | none => rfl
      | some b =>
          simp only [cat_joinable (h a b ha hb)]
          rfl

theorem denseKeys_rows
    (hfits : Fits stateDict layerIdx 0 ["mlp", "gate_proj", "weight"] ["mlp", "up_proj", "weight"])
    (htogether : Together stateDict layerIdx
      [["mlp", "gate_proj", "weight"], ["mlp", "up_proj", "weight"], ["mlp", "down_proj", "weight"]]) :
    denseKeys none stateDict layerIdx = .ok (rowTensors stateDict layerIdx
      [.fused ["mlp", "gate_up_proj", "weight"] 0 ["mlp", "gate_proj", "weight"] ["mlp", "up_proj", "weight"],
        .copy ["mlp", "down_proj", "weight"] ["mlp", "down_proj", "weight"]]) := by
  rw [denseKeys, rowTensors_cons, tensor_fused]
  rcases htogether with hall | hnone
  · obtain ⟨a, ha⟩ := hall ["mlp", "gate_proj", "weight"] (by simp)
    obtain ⟨b, hb⟩ := hall ["mlp", "up_proj", "weight"] (by simp)
    rw [ha, hb, addMaybeFp8_none, copyKeys_rows]
    simp only [cat_joinable (hfits a b ha hb)]
    rfl
  · rw [hnone ["mlp", "gate_proj", "weight"] (by simp), rowTensors_cons, tensor_copy,
      hnone ["mlp", "down_proj", "weight"] (by simp)]
    rfl

theorem expertKeys_rows (hfits : Fits stateDict layerIdx 1 ["mlp", "experts", "w1"] ["mlp", "experts", "w3"])
    (htogether : Together stateDict layerIdx [["mlp", "experts", "w1"], ["mlp", "experts", "w2"], ["mlp", "experts", "w3"]]) :
    expertKeys none stateDict layerIdx = .ok (rowTensors stateDict layerIdx
      [.fused ["mlp", "experts", "w13_weight"] 1 ["mlp", "experts", "w1"] ["mlp", "experts", "w3"],
        .copy ["mlp", "experts", "w2_weight"] ["mlp", "experts", "w2"]]) := by
  rw [expertKeys, rowTensors_cons, tensor_fused, rowTensors_cons, tensor_copy]
  rcases htogether with hall | hnone
  · obtain ⟨a, ha⟩ := hall ["mlp", "experts", "w1"] (by simp)
    obtain ⟨b, hb⟩ := hall ["mlp", "experts", "w2"] (by simp)
    obtain ⟨c, hc⟩ := hall ["mlp", "experts", "w3"] (by simp)
    rw [ha, hb, hc]
    simp only [cat_joinable (hfits a c ha hc)]
    rfl
  · rw [hnone ["mlp", "experts", "w1"] (by simp), hnone ["mlp", "experts", "w2"] (by simp)]
    rfl

theorem sharedExpertKeys_rows
    (hfits : Fits stateDict layerIdx 0 ["mlp", "shared_expert", "w1"] ["mlp", "shared_expert", "w3"])
    (htogether : Together stateDict layerIdx
      [["mlp", "shared_expert", "w1"], ["mlp", "shared_expert", "w2"], ["mlp", "shared_expert", "w3"]])
    (hmatrix : ∀ t, stateDict.get? (inLayer layerIdx ["mlp", "shared_expert", "w1"]) = some t → t.shape.length ≠ 3) :
    sharedExpertKeys none stateDict layerIdx = .ok (rowTensors stateDict layerIdx
      [.fused ["mlp", "shared_experts", "gate_up_proj", "weight"] 0 ["mlp", "shared_expert", "w1"]
      ["mlp", "shared_expert", "w3"],
        .copy ["mlp", "shared_experts", "down_proj", "weight"] ["mlp", "shared_expert", "w2"]]) := by
  rw [sharedExpertKeys, rowTensors_cons, tensor_fused, rowTensors_cons, tensor_copy]
  rcases htogether with hall | hnone
  · obtain ⟨a, ha⟩ := hall ["mlp", "shared_expert", "w1"] (by simp)
    obtain ⟨b, hb⟩ := hall ["mlp", "shared_expert", "w2"] (by simp)
    obtain ⟨c, hc⟩ := hall ["mlp", "shared_expert", "w3"] (by simp)
    rw [ha, hb, hc]
    simp only [if_neg (hmatrix a ha), cat_joinable (hfits a c ha hc)]
    rfl
  · rw [hnone ["mlp", "shared_expert", "w1"] (by simp), hnone ["mlp", "shared_expert", "w2"] (by simp)]
    rfl

/-- What the converter relies on. -/
structure Coherent (stateDict : Tensors R) (layerIdx : Nat) : Prop where
  qkvA : Fits stateDict layerIdx 0 ["self_attn", "q_a_proj", "weight"] ["self_attn", "kv_a_proj_with_mqa", "weight"]
  wk : Fits stateDict layerIdx 0 ["self_attn", "indexer", "wk", "weight"] ["self_attn", "indexer", "weights_proj", "weight"]
  dense : Fits stateDict layerIdx 0 ["mlp", "gate_proj", "weight"] ["mlp", "up_proj", "weight"]
  experts : Fits stateDict layerIdx 1 ["mlp", "experts", "w1"] ["mlp", "experts", "w3"]
  sharedExpert : Fits stateDict layerIdx 0 ["mlp", "shared_expert", "w1"] ["mlp", "shared_expert", "w3"]
  denseTogether : Together stateDict layerIdx
    [["mlp", "gate_proj", "weight"], ["mlp", "up_proj", "weight"], ["mlp", "down_proj", "weight"]]
  expertsTogether : Together stateDict layerIdx [["mlp", "experts", "w1"], ["mlp", "experts", "w2"], ["mlp", "experts", "w3"]]
  sharedTogether : Together stateDict layerIdx
    [["mlp", "shared_expert", "w1"], ["mlp", "shared_expert", "w2"], ["mlp", "shared_expert", "w3"]]
  sharedMatrix : ∀ t, stateDict.get? (inLayer layerIdx ["mlp", "shared_expert", "w1"]) = some t → t.shape.length ≠ 3

/-- **The kernel format.** -/
theorem convert_rows (h : Coherent stateDict layerIdx) : convertTtLayerToVllmKernel stateDict layerIdx none =
    .ok (Dict.ofList (rowTensors stateDict layerIdx kernelRows)) := by
  rw [convertTtLayerToVllmKernel, addMaybeFp8_none, fuseKeys_rows _ h.qkvA, fuseKeys_rows _ h.wk,
    denseKeys_rows h.dense h.denseTogether, expertKeys_rows h.experts h.expertsTogether,
    sharedExpertKeys_rows h.sharedExpert h.sharedTogether h.sharedMatrix]
  simp only [ok_bind, copyKeys_rows, copyKey_rows, ← rowTensors_append]
  rfl

end Rows

/-! ## Names of a layer -/

def biasNames : List Key := [["self_attn", "q_a_proj", "bias"], ["self_attn", "kv_a_proj_with_mqa", "bias"],
  ["self_attn", "o_proj", "bias"], ["self_attn", "indexer", "wk", "bias"]]

/-- The kinds of feed-forward. -/
inductive Kind
  | dense
  | moe
  | moeShared

def FeedForward.kind : FeedForward → Kind
  | .mlp .. => .dense
  | .moe _ _ _ numSharedExperts => if 0 < numSharedExperts then .moeShared else .moe

def Kind.mlp : Kind → FeedForward
  | .dense => .mlp 0 0
  | .moe => .moe 0 0 0 0
  | .moeShared => .moe 0 0 0 1

/-- The names do not depend on the sizes. -/
def paramNames (bias : Bool) (kind : Kind) : List Key :=
  (DecoderLayer.params ⟨⟨0, 0, 0, 0, 0, 0, 0, 0, bias, 0, 0, false⟩, kind.mlp, 0⟩).map Prod.fst

theorem nodup_paramNames (bias : Bool) (kind : Kind) : (paramNames bias kind).Nodup := by
  cases bias <;> cases kind <;> decide

/-- Every name is the source of a row, or that of a bias. -/
theorem mem_paramNames {bias : Bool} {kind : Kind} {name : Key} (h : name ∈ paramNames bias kind) :
    name ∈ kernelRows.flatMap KernelRow.sources ∨ (bias = true ∧ name ∈ biasNames) := by
  revert name
  cases bias <;> cases kind <;> decide

theorem disjoint_biasNames : ∀ name ∈ biasNames, name ∉ kernelRows.flatMap KernelRow.sources := by decide

section Layer

variable {layer : DecoderLayer} {layerIdx : Nat} {weights : Key → List Nat → R}

theorem map_params (layer : DecoderLayer) : 
    layer.params.map Prod.fst = paramNames layer.selfAttn.attentionBias layer.mlp.kind := by
  obtain ⟨⟨_, _, _, _, _, _, _, _, bias, _, _, _⟩, mlp, _⟩ := layer
  cases mlp with
  | mlp _ _ => cases bias <;> rfl
  | moe dim hiddenDim numExperts numSharedExperts =>
      cases numSharedExperts with
      | zero => cases bias <;> rfl
      | succ n => cases bias <;> rfl

theorem inLayer_inj {i : Nat} {name name' : Key} (h : inLayer i name = inLayer i name') : name = name' :=
  List.append_cancel_left h

theorem getEntry_map {κ κ' ν ν' : Type} [DecidableEq κ] [DecidableEq κ'] {f : κ → κ'}
    (hf : Function.Injective f) (g : κ → ν → ν')
    (k : κ) (l : List (κ × ν)) :
    Dict.getEntry (f k) (l.map fun e => (f e.1, g e.1 e.2)) = (Dict.getEntry k l).map (g k) := by
  induction l with
  | nil => rfl
  | cons e l ih =>
      rw [List.map_cons, Dict.getEntry, Dict.getEntry, ih]
      by_cases h : e.1 = k
      · rw [if_pos h, if_pos (congrArg f h), ← h]
        rfl
      · rw [if_neg h, if_neg fun heq => h (hf heq)]

theorem entries_stateDict : (layer.stateDict layerIdx weights).entries =
    layer.params.map fun p => (inLayer layerIdx p.1, ⟨p.2, weights (inLayer layerIdx p.1)⟩) := by
  apply Dict.entries_ofList
  have hnodup := nodup_paramNames layer.selfAttn.attentionBias layer.mlp.kind
  rw [← map_params] at hnodup
  rw [List.map_map]
  have hmap := hnodup.map (f := inLayer layerIdx) fun _ _ => inLayer_inj
  rwa [List.map_map] at hmap

/-- What is found in the state dict of a layer. -/
theorem get?_stateDict (name : Key) : (layer.stateDict layerIdx weights).get? (inLayer layerIdx name) =
    (Dict.getEntry name layer.params).map fun shape => ⟨shape, weights (inLayer layerIdx name)⟩ := by
  rw [Dict.get?, entries_stateDict]
  exact getEntry_map (f := inLayer layerIdx) (fun _ _ => inLayer_inj)
    (fun name shape => NdArray.mk shape (weights (inLayer layerIdx name))) name layer.params

/-! ## Shapes of a layer -/

theorem fits_of_shapes {first second : Key} {axis : Nat} {shape shape' : List Nat}
    (hfirst : Dict.getEntry first layer.params = some shape) (hsecond : Dict.getEntry second layer.params = some shape')
    (haxis : axis < shape.length) (hset : shape.set axis 1 = shape'.set axis 1) :
    Fits (layer.stateDict layerIdx weights) layerIdx axis first second := by
  intro a b ha hb
  rw [get?_stateDict, hfirst] at ha
  rw [get?_stateDict, hsecond] at hb
  obtain rfl := Option.some.inj ha
  obtain rfl := Option.some.inj hb
  exact ⟨haxis, hset⟩

theorem fits_of_absent {first second : Key} {axis : Nat} (hfirst : Dict.getEntry first layer.params = none) :
    Fits (layer.stateDict layerIdx weights) layerIdx axis first second := by
  intro a b ha
  rw [get?_stateDict, hfirst] at ha
  exact absurd ha (by simp)

theorem together_of_shapes {names : List Key} (h : ∀ name ∈ names, ∃ shape, Dict.getEntry name layer.params = some shape) :
    Together (layer.stateDict layerIdx weights) layerIdx names := by
  left
  intro name hname
  obtain ⟨shape, hshape⟩ := h name hname
  rw [get?_stateDict, hshape]
  exact ⟨_, rfl⟩

theorem together_of_absent {names : List Key} (h : ∀ name ∈ names, Dict.getEntry name layer.params = none) :
    Together (layer.stateDict layerIdx weights) layerIdx names := by
  right
  intro name hname
  rw [get?_stateDict, h name hname]
  rfl

theorem getEntry_append {κ ν : Type} [DecidableEq κ] (k : κ) (l l' : List (κ × ν)) :
    Dict.getEntry k (l ++ l') = (Dict.getEntry k l).or (Dict.getEntry k l') := by
  induction l with
  | nil => rfl
  | cons e l ih =>
      rw [List.cons_append, Dict.getEntry, Dict.getEntry, ih]
      split <;> rfl

theorem getEntry_attention (args : SparseMlaAttentionArgs) (name : Key) :
    Dict.getEntry (.name "mlp" :: name) (attention args ["self_attn"]) = none := by
  obtain ⟨_, _, _, _, _, _, _, _, bias, _, _, _⟩ := args
  cases bias <;> rfl

theorem getEntry_mlp (name : Key) :
    Dict.getEntry (.name "mlp" :: name) layer.params = Dict.getEntry (.name "mlp" :: name) (layer.mlp.params ["mlp"]) := by
  have hnorm : Dict.getEntry (.name "mlp" :: name) (rmsNorm ["input_layernorm"] layer.hiddenSize) = none := rfl
  have hnorm' : Dict.getEntry (.name "mlp" :: name) (rmsNorm ["post_attention_layernorm"] layer.hiddenSize) = none := rfl
  rw [DecoderLayer.params, getEntry_append, getEntry_append, getEntry_append, getEntry_attention, hnorm, hnorm',
    Option.or_none,
    Option.or_none, Option.none_or]

theorem fits_attention (layer : DecoderLayer) (layerIdx : Nat) (weights : Key → List Nat → R) :
    Fits (layer.stateDict layerIdx weights) layerIdx 0 ["self_attn", "q_a_proj", "weight"]
        ["self_attn", "kv_a_proj_with_mqa", "weight"] ∧
      Fits (layer.stateDict layerIdx weights) layerIdx 0 ["self_attn", "indexer", "wk", "weight"]
        ["self_attn", "indexer", "weights_proj", "weight"] := by
  obtain ⟨⟨_, _, _, _, _, _, _, _, bias, _, _, _⟩, mlp, _⟩ := layer
  cases bias with
  | true => exact ⟨fits_of_shapes rfl rfl (by simp) rfl, fits_of_shapes rfl rfl (by simp) rfl⟩
  | false => exact ⟨fits_of_shapes rfl rfl (by simp) rfl, fits_of_shapes rfl rfl (by simp) rfl⟩

theorem together_attention (layer : DecoderLayer) (layerIdx : Nat) (weights : Key → List Nat → R) :
    Together (layer.stateDict layerIdx weights) layerIdx
        [["self_attn", "q_a_proj", "weight"], ["self_attn", "kv_a_proj_with_mqa", "weight"]] ∧
      Together (layer.stateDict layerIdx weights) layerIdx
        [["self_attn", "indexer", "wk", "weight"], ["self_attn", "indexer", "weights_proj", "weight"]] := by
  obtain ⟨⟨_, _, _, _, _, _, _, _, bias, _, _, _⟩, mlp, _⟩ := layer
  constructor
  · apply together_of_shapes
    simp only [List.forall_mem_cons, List.not_mem_nil, false_implies, implies_true, and_true]
    cases bias with
    | true => exact ⟨⟨_, rfl⟩, ⟨_, rfl⟩⟩
    | false => exact ⟨⟨_, rfl⟩, ⟨_, rfl⟩⟩
  · apply together_of_shapes
    simp only [List.forall_mem_cons, List.not_mem_nil, false_implies, implies_true, and_true]
    cases bias with
    | true => exact ⟨⟨_, rfl⟩, ⟨_, rfl⟩⟩
    | false => exact ⟨⟨_, rfl⟩, ⟨_, rfl⟩⟩

theorem forall_mem_three {α : Type} {p : α → Prop} {a b c : α} (ha : p a) (hb : p b) (hc : p c) : ∀ x ∈ [a, b, c], p x := by
  simp [ha, hb, hc]

theorem shared_matrix (mlp : FeedForward) {shape : List Nat}
    (h : Dict.getEntry [.name "mlp", .name "shared_expert", .name "w1"] (mlp.params ["mlp"]) = some shape) :
    shape.length ≠ 3 := by
  cases mlp with
  | mlp _ _ => cases h
  | moe dim hiddenDim numExperts numSharedExperts =>
      cases numSharedExperts with
      | zero => cases h
      | succ n =>
          obtain rfl := Option.some.inj h
          simp

theorem coherent_stateDict : Coherent (layer.stateDict layerIdx weights) layerIdx := by
  obtain ⟨hqkvA, hwk⟩ := fits_attention layer layerIdx weights
  have hmlp : ∀ name, Dict.getEntry (.name "mlp" :: name) layer.params =
    Dict.getEntry (.name "mlp" :: name) (layer.mlp.params ["mlp"]) := getEntry_mlp
  have hmatrix : ∀ t, (layer.stateDict layerIdx weights).get? (inLayer layerIdx ["mlp", "shared_expert", "w1"]) = some t →
      t.shape.length ≠ 3 := by
    intro t ht
    rw [get?_stateDict, hmlp] at ht
    obtain ⟨shape, hshape, rfl⟩ := Option.map_eq_some_iff.1 ht
    exact shared_matrix layer.mlp hshape
  cases hkind : layer.mlp with
  | mlp hiddenSize intermediateSize =>
      rw [hkind] at hmlp
      exact ⟨hqkvA, hwk, fits_of_shapes (hmlp _) (hmlp _) (by simp) rfl, fits_of_absent (hmlp _), fits_of_absent (hmlp _),
        together_of_shapes (forall_mem_three ⟨_, hmlp _⟩ ⟨_, hmlp _⟩ ⟨_, hmlp _⟩),
        together_of_absent (forall_mem_three (hmlp _) (hmlp _) (hmlp _)),
        together_of_absent (forall_mem_three (hmlp _) (hmlp _) (hmlp _)), hmatrix⟩
  | moe dim hiddenDim numExperts numSharedExperts =>
      rw [hkind] at hmlp
      cases numSharedExperts with
      | zero =>
          exact ⟨hqkvA, hwk, fits_of_absent (hmlp _), fits_of_shapes (hmlp _) (hmlp _) (by simp) rfl, fits_of_absent (hmlp _),
            together_of_absent (forall_mem_three (hmlp _) (hmlp _) (hmlp _)),
            together_of_shapes (forall_mem_three ⟨_, hmlp _⟩ ⟨_, hmlp _⟩ ⟨_, hmlp _⟩),
            together_of_absent (forall_mem_three (hmlp _) (hmlp _) (hmlp _)), hmatrix⟩
      | succ n =>
          exact ⟨hqkvA, hwk, fits_of_absent (hmlp _), fits_of_shapes (hmlp _) (hmlp _) (by simp) rfl,
            fits_of_shapes (hmlp _) (hmlp _) (by simp) rfl,
            together_of_absent (forall_mem_three (hmlp _) (hmlp _) (hmlp _)),
            together_of_shapes (forall_mem_three ⟨_, hmlp _⟩ ⟨_, hmlp _⟩ ⟨_, hmlp _⟩),
            together_of_shapes (forall_mem_three ⟨_, hmlp _⟩ ⟨_, hmlp _⟩ ⟨_, hmlp _⟩), hmatrix⟩

end Layer

end AuroraRl.Weights.Glm
