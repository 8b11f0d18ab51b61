import AuroraRl.Weights.NemotronH

/-!
# The weights of Qwen3-MoE and Qwen3.5-MoE

* `Qwen3Moe.convertTtLayerToHf`, `Qwen3Moe.convertHfLayerToTt` : one layer of Qwen3-MoE;
* `Qwen35Moe.convertTtLayerToHf` : one layer of Qwen3.5-MoE, with its shared expert;
* `remapLmKeys`, `Qwen35Moe.convertToHf` : the language model inside a vision model;
* `maxLayerNum`, `convertTtToHfMoe` : all layers, whose number the keys tell.
-/

namespace AuroraRl.Weights

variable {R : Type}

/-- `get_max_layer_num` of the converters. -/
def maxLayerNum (d : StateDict R) : Except PyException Nat := numLayers (d.keys.filter (·.mentions "model.layers."))

/-- `convert_tt_to_hf_moe` and `convert_hf_to_tt_moe`, by the conversion of a layer. -/
def convertAllLayers (convertLayer : Nat → StateDict R → Except PyException (StateDict R)) (d : StateDict R) :
    Except PyException (StateDict R) := do
  let n ← maxLayerNum d
  (List.range n).foldlM (fun d i => convertLayer i d) d

/-- The MoE layers in the training format. -/
def hasStackedExperts (d : StateDict R) : Bool := d.keys.any (·.mentions "mlp.experts.w1")

/-- The rows of the three stacks become the projections of the experts. -/
def splitExperts (i : Nat) (w₁ w₂ w₃ : Tensor R) (d : StateDict R) : Except PyException (StateDict R) := do
  let n ← w₁.size0
  (List.range n).foldlM (fun d j => do
    let gate ← w₁.row j
    let d ← assign (inLayer i ["mlp", "experts", .index j, "gate_proj", "weight"]) gate d
    let down ← w₂.row j
    let d ← assign (inLayer i ["mlp", "experts", .index j, "down_proj", "weight"]) down d
    let up ← w₃.row j
    assign (inLayer i ["mlp", "experts", .index j, "up_proj", "weight"]) up d) d

/-- The router and the routed experts of a layer in the training format. -/
def convertRoutedToHf (i : Nat) (d : StateDict R) : Except PyException (StateDict R) := do
  let d ← moveKey (inLayer i ["mlp", "router", "gate", "weight"]) (inLayer i ["mlp", "gate", "weight"]) d
  pop (inLayer i ["mlp", "experts", "w1"]) d fun w₁ d =>
    pop (inLayer i ["mlp", "experts", "w2"]) d fun w₂ d =>
      pop (inLayer i ["mlp", "experts", "w3"]) d fun w₃ d => splitExperts i w₁ w₂ w₃ d

section Confined

variable {P : Key → Bool} {i : Nat}

theorem confined_splitExperts (hP : ∀ p s, P (inLayer i (p :: s)) = true) (w₁ w₂ w₃ : Tensor R) :
    Confined P (splitExperts i w₁ w₂ w₃) := by
  refine confined_bind fun n => Confined.foldlM fun j _ => ?_
  refine confined_bind fun gate => (confined_assign (hP _ _) gate).bind ?_
  refine confined_bind fun down => (confined_assign (hP _ _) down).bind ?_
  exact confined_bind fun up => confined_assign (hP _ _) up

theorem confined_convertRoutedToHf (hP : ∀ p s, P (inLayer i (p :: s)) = true) :
    Confined P (convertRoutedToHf i : StateDict R → _) := by
  refine (confined_moveKey (hP _ _) (hP _ _)).bind ?_
  refine confined_pop (hP _ _) fun w₁ => confined_pop (hP _ _) fun w₂ => confined_pop (hP _ _) fun w₃ => ?_
  exact confined_splitExperts hP w₁ w₂ w₃

end Confined

namespace Qwen3Moe

def convertTtLayerToHf (i : Nat) (d : StateDict R) : Except PyException (StateDict R) :=
  if (d.get? (inLayer i ["mlp", "router", "gate", "weight"])).isSome then convertRoutedToHf i d else .ok d

theorem confined_convertTtLayerToHf {P : Key → Bool} {i : Nat} (hP : ∀ p s, P (inLayer i (p :: s)) = true) :
    Confined P (convertTtLayerToHf i : StateDict R → _) :=
  confined_ifPresent (hP _ _) (confined_convertRoutedToHf hP)

/-- One expert is copied into the stacks and removed. -/
def copyExpert (i : Nat) (dim moeDim : Nat) (s : List (Tensor R × Tensor R × Tensor R) × StateDict R) (j : Nat) :
    Except PyException (List (Tensor R × Tensor R × Tensor R) × StateDict R) :=
  let expert : String → Key := fun proj => inLayer i ["mlp", "experts", .index j, proj, "weight"]
  lookup (expert "gate_proj") s.2 fun gate => do
    let gate ← gate.copyTo [moeDim, dim]
    lookup (expert "down_proj") s.2 fun down => do
      let down ← down.copyTo [dim, moeDim]
      lookup (expert "up_proj") s.2 fun up => do
        let up ← up.copyTo [moeDim, dim]
        return (s.1 ++ [(gate, down, up)],
          ((s.2.erase (expert "gate_proj")).erase (expert "down_proj")).erase (expert "up_proj"))

def insertStacks (i : Nat) (w₁ w₂ w₃ : Tensor R) (d : StateDict R) : StateDict R :=
  ((d.insert (inLayer i ["mlp", "experts", "w1"]) w₁).insert (inLayer i ["mlp", "experts", "w2"]) w₂).insert
    (inLayer i ["mlp", "experts", "w3"]) w₃

/-- The experts of a layer in the format of one tensor for each projection of each expert. -/
def stackExperts (i : Nat) (mentioned : Nat) (d : StateDict R) : Except PyException (StateDict R) :=
  let numExperts := mentioned / 3
  if numExperts = 0 then .ok d
  else lookup (inLayer i ["mlp", "experts", .index 0, "down_proj", "weight"]) d fun down =>
    match down.shape with
    | [dim, moeDim] => do
        let (ws, d) ← (List.range numExperts).foldlM (copyExpert i dim moeDim) ([], d)
        return insertStacks i (.rows (ws.map (·.1))) (.rows (ws.map (·.2.1))) (.rows (ws.map (·.2.2))) d
    | _ => .error ⟨.valueError, "not enough values to unpack (expected 2)"⟩

/-- The experts of a layer in the format with one tensor for all experts. -/
def splitFused (i : Nat) (gateUp down : Tensor R) (d : StateDict R) : Except PyException (StateDict R) :=
  match gateUp.shape with
  | [_, fusedDim, _] =>
      let moeDim := fusedDim / 2
      .ok (insertStacks i (gateUp.sliceRows 0 moeDim) down (gateUp.sliceRows moeDim fusedDim) d)
  | _ => .error ⟨.valueError, "not enough values to unpack (expected 3)"⟩

/-- The substring test by which `convert_hf_layer_to_tt` counts the experts of a layer. -/
def mentionsExperts (i : Nat) (key : Key) : Bool := key.mentions s!"model.layers.{i}.mlp.experts"

def convertHfLayerToTt (i : Nat) (d : StateDict R) : Except PyException (StateDict R) :=
  if (d.get? (inLayer i ["mlp", "gate", "weight"])).isSome then do
    let d ← moveKey (inLayer i ["mlp", "gate", "weight"]) (inLayer i ["mlp", "router", "gate", "weight"]) d
    if (d.get? (inLayer i ["mlp", "experts", "gate_up_proj"])).isSome then
      pop (inLayer i ["mlp", "experts", "gate_up_proj"]) d fun gateUp d =>
        pop (inLayer i ["mlp", "experts", "down_proj"]) d fun down d => splitFused i gateUp down d
    else stackExperts i (d.keys.filter (mentionsExperts i)).length d
  else .ok d

def convertToHf : StateDict R → Except PyException (StateDict R) := convertAllLayers convertTtLayerToHf

def convertToPrime : StateDict R → Except PyException (StateDict R) := convertAllLayers convertHfLayerToTt

/-- `convert_layer_to_hf`; no key has the index of the weights outside the layers. -/
def convertLayerToHf (layerIdx : Option Nat) (d : StateDict R) : Except PyException (StateDict R) :=
  match layerIdx with
  | none => .ok d
  | some i => convertTtLayerToHf i d

end Qwen3Moe

namespace Qwen35Moe

/-- The shared expert of a layer, if the layer has one. -/
def convertSharedToHf (i : Nat) (d : StateDict R) : Except PyException (StateDict R) :=
  if (d.get? (inLayer i ["shared_expert", "w1", "weight"])).isSome then do
    let d ← moveKey (inLayer i ["shared_expert", "w1", "weight"])
      (inLayer i ["mlp", "shared_expert", "gate_proj", "weight"]) d
    let d ← moveKey (inLayer i ["shared_expert", "w2", "weight"])
      (inLayer i ["mlp", "shared_expert", "down_proj", "weight"]) d
    moveKey (inLayer i ["shared_expert", "w3", "weight"]) (inLayer i ["mlp", "shared_expert", "up_proj", "weight"]) d
  else .ok d

def convertTtLayerToHf (i : Nat) (d : StateDict R) : Except PyException (StateDict R) :=
  if (d.get? (inLayer i ["mlp", "router", "gate", "weight"])).isSome then do
    let d ← convertRoutedToHf i d
    let d ← convertSharedToHf i d
    moveIfPresent (inLayer i ["shared_expert_gate", "weight"]) (inLayer i ["mlp", "shared_expert_gate", "weight"]) d
  else .ok d

theorem confined_convertTtLayerToHf {P : Key → Bool} {i : Nat} (hP : ∀ p s, P (inLayer i (p :: s)) = true) :
    Confined P (convertTtLayerToHf i : StateDict R → _) := by
  refine confined_ifPresent (hP _ _) ((confined_convertRoutedToHf hP).bind (Confined.bind ?_ ?_))
  · refine confined_ifPresent (hP _ _) ((confined_moveKey (hP _ _) (hP _ _)).bind ?_)
    exact (confined_moveKey (hP _ _) (hP _ _)).bind (confined_moveKey (hP _ _) (hP _ _))
  · exact confined_moveIfPresent (hP _ _) (hP _ _)

def hasVlmKeys (d : StateDict R) : Bool := d.keys.any (Key.under ["model", "language_model"])

/-- `_remap_lm_keys(to_flat=True)`, and `to_flat=False` with the prefixes swapped. Vision keys stay. -/
def remapLmKeys (src dst : Key) (d : StateDict R) : Except PyException (StateDict R) :=
  (d.keys.filter fun k => Key.under src k && !Key.under ["model", "visual"] k).foldlM
    (fun d key => moveKey key (dst ++ key.drop src.length) d) d

/-- A conversion of the flat keys, around which the keys of a vision model are remapped. -/
def onFlatKeys (convert : StateDict R → Except PyException (StateDict R)) (d : StateDict R) :
    Except PyException (StateDict R) :=
  if hasVlmKeys d then do
    let d ← remapLmKeys ["model", "language_model"] ["model"] d
    let d ← convert d
    remapLmKeys ["model"] ["model", "language_model"] d
  else convert d

def convertToHf : StateDict R → Except PyException (StateDict R) := onFlatKeys (convertAllLayers convertTtLayerToHf)

def convertLayerToHf (layerIdx : Option Nat) : StateDict R → Except PyException (StateDict R) :=
  onFlatKeys fun d =>
    match layerIdx with
    | none => .ok d
    | some i => convertTtLayerToHf i d

end Qwen35Moe
end AuroraRl.Weights
