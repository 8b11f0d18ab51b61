import AuroraRl.Weights.StateDict
import Mathlib.Data.List.Sort

/-!
# The weights of NemotronH

* `inLayer` : the keys of one layer;
* `convertPrimeLayerToHf`, `convertHfLayerToPrime` : one layer, by its type;
* `convertPrimeToHf`, `convertHfToPrime` : all of them;
* `isPrimeStateDict`, `convertToHf`, `convertLayerToHf` : the class methods of the model;
* `confined_convertPrimeLayerToHf`, `confined_convertHfLayerToPrime` : a layer's conversion touches no other layer.
-/

namespace AuroraRl.Weights

/-- `f"model.layers.{i}."` and what follows it. -/
abbrev inLayer (i : Nat) (s : Key) : Key := [.name "model", .name "layers", .index i] ++ s

/-- The stacks of a layer, under the names of the training format. -/
abbrev stackKey (i : Nat) (w : String) : Key := inLayer i ["mlp", "experts", .name w]

theorem under_inLayer (i : Nat) (a k : Key) : Key.under (inLayer i a) (inLayer i k) = Key.under a k := by
  simp [Key.under]

/-- The weights of a layer, by what follows its index. -/
abbrev LayerWeights (R : Type) := Key → Option (Tensor R)

def StateDict.layer {R : Type} (d : StateDict R) (i : Nat) : LayerWeights R := fun s => d.get? (inLayer i s)

def layerNumber (key : Key) : Except PyException Nat :=
  match (key[2]? : Option Part) with
  | some (.index i) => .ok i
  | some (.name s) => .error ⟨.valueError, s!"invalid literal for int() with base 10: '{s}'"⟩
  | none => .error ⟨.indexError, "list index out of range"⟩

def numLayers (keys : List Key) : Except PyException Nat := do
  let nums ← keys.mapM layerNumber
  match nums.max? with
  | some m => .ok (m + 1)
  | none => .error ⟨.valueError, "max() iterable argument is empty"⟩

namespace NemotronH

inductive LayerType
  | mamba
  | moe
  | attention
  deriving DecidableEq, Repr

variable {R : Type}

/-! ## From the training format -/

def convertPrimeMoeLayerToHf (i : Nat) (d : StateDict R) : Except PyException (StateDict R) := do
  let d ← moveIfPresent (inLayer i ["mlp", "router", "gate"]) (inLayer i ["mixer", "gate", "weight"]) d
  let d ← moveIfPresent (inLayer i ["mlp", "router", "e_score_correction_bias"])
    (inLayer i ["mixer", "gate", "e_score_correction_bias"]) d
  let d ← unstackIfPresent (inLayer i ["mlp", "experts", "w1"])
    (fun j => inLayer i ["mixer", "experts", .index j, "up_proj", "weight"]) d
  let d ← unstackIfPresent (inLayer i ["mlp", "experts", "w2"])
    (fun j => inLayer i ["mixer", "experts", .index j, "down_proj", "weight"]) d
  let d ← discard (inLayer i ["mlp", "experts", "w3"]) d
  let d ← renameKeys (inLayer i ["mlp", "shared_expert"]) (inLayer i ["mixer", "shared_experts"]) d
  let d ← renameKeys (inLayer i ["mlp", "fc1_latent_proj"]) (inLayer i ["mixer", "fc1_latent_proj"]) d
  renameKeys (inLayer i ["mlp", "fc2_latent_proj"]) (inLayer i ["mixer", "fc2_latent_proj"]) d

def convertPrimeLayerToHf (i : Nat) : LayerType → StateDict R → Except PyException (StateDict R)
  | .moe => convertPrimeMoeLayerToHf i
  | .attention => renameKeys (inLayer i ["self_attn"]) (inLayer i ["mixer"])
  | .mamba => renameKeys (inLayer i ["mamba"]) (inLayer i ["mixer"])

/-- The renames of the weights outside the layers. -/
def globalToHf (d : StateDict R) : Except PyException (StateDict R) := do
  let d ← moveIfPresent ["model", "embed_tokens", "weight"] ["model", "embeddings", "weight"] d
  moveIfPresent ["model", "norm", "weight"] ["model", "norm_f", "weight"] d

def convertPrimeToHf (types : List LayerType) (d : StateDict R) : Except PyException (StateDict R) := do
  let d ← globalToHf d
  let d ← types.zipIdx.foldlM (fun d p => convertPrimeLayerToHf p.2 p.1 d) d
  renameKeys ["model"] ["backbone"] d

/-! ## To the training format -/

/-- Whether the key is of one expert, `f"{mixer}experts.{j}."`. -/
def expertIndex (i : Nat) (key : Key) : Option Nat :=
  if Key.under (inLayer i ["mixer", "experts"]) key then
    match (key[5]? : Option Part) with
    | some (.index j) => some j
    | _ => none
  else none

/-- `sorted({...})` of the expert indices among the keys. -/
def expertIndices (i : Nat) (keys : List Key) : List Nat :=
  (keys.filterMap (expertIndex i)).dedup.insertionSort (· ≤ ·)

/-- The stacking of the experts of `_convert_hf_moe_layer_to_prime`: one by one, or already fused. -/
def convertHfExpertsToPrime (i : Nat) (individualKeys : List Key) (d : StateDict R) :
    Except PyException (StateDict R) :=
  if individualKeys ≠ [] then do
    let indices := expertIndices i individualKeys
    let d ← popAll (indices.map fun j => inLayer i ["mixer", "experts", .index j, "up_proj", "weight"]) d
      fun ups d => do return d.insert (inLayer i ["mlp", "experts", "w1"]) (← Tensor.stack ups)
    popAll (indices.map fun j => inLayer i ["mixer", "experts", .index j, "down_proj", "weight"]) d
      fun downs d => do return d.insert (inLayer i ["mlp", "experts", "w2"]) (← Tensor.stack downs)
  else do
    let d ← moveIfPresent (inLayer i ["mixer", "experts", "up_proj"]) (inLayer i ["mlp", "experts", "w1"]) d
    moveIfPresent (inLayer i ["mixer", "experts", "down_proj"]) (inLayer i ["mlp", "experts", "w2"]) d

/-- The router bias, shifted so that its least element is zero. -/
def convertHfBiasToPrime [Sub R] [Min R] (i : Nat) (d : StateDict R) : Except PyException (StateDict R) :=
  if (d.get? (inLayer i ["mixer", "gate", "e_score_correction_bias"])).isSome then
    pop (inLayer i ["mixer", "gate", "e_score_correction_bias"]) d fun bias d => do
      let bias ← bias.subMin
      return d.insert (inLayer i ["mlp", "router", "e_score_correction_bias"]) bias
  else .ok d

def convertHfMoeLayerToPrime [Sub R] [Min R] (i : Nat) (d : StateDict R) : Except PyException (StateDict R) := do
  let d ← moveIfPresent (inLayer i ["mixer", "gate", "weight"]) (inLayer i ["mlp", "router", "gate"]) d
  let d ← convertHfBiasToPrime i d
  let d ← convertHfExpertsToPrime i (d.keys.filter fun k => (expertIndex i k).isSome) d
  -- the third projection is an empty tensor
  let d ← assign (inLayer i ["mlp", "experts", "w3"]) (.rows []) d
  let d ← renameKeys (inLayer i ["mixer", "shared_experts"]) (inLayer i ["mlp", "shared_expert"]) d
  let d ← renameKeys (inLayer i ["mixer", "fc1_latent_proj"]) (inLayer i ["mlp", "fc1_latent_proj"]) d
  renameKeys (inLayer i ["mixer", "fc2_latent_proj"]) (inLayer i ["mlp", "fc2_latent_proj"]) d

def convertHfLayerToPrime [Sub R] [Min R] (i : Nat) : LayerType → StateDict R → Except PyException (StateDict R)
  | .moe => convertHfMoeLayerToPrime i
  | .attention => renameKeys (inLayer i ["mixer"]) (inLayer i ["self_attn"])
  | .mamba => renameKeys (inLayer i ["mixer"]) (inLayer i ["mamba"])

def dropMtp (d : StateDict R) : Except PyException (StateDict R) :=
  (d.keys.filter (Key.under ["mtp"])).foldlM (fun d key => discard key d) d

def convertHfToPrime [Sub R] [Min R] (types : List LayerType) (d : StateDict R) : Except PyException (StateDict R) := do
  let d ← renameKeys ["backbone"] ["model"] d
  let d ← dropMtp d
  let d ← moveIfPresent ["model", "embeddings", "weight"] ["model", "embed_tokens", "weight"] d
  let d ← moveIfPresent ["model", "norm_f", "weight"] ["model", "norm", "weight"] d
  types.zipIdx.foldlM (fun d p => convertHfLayerToPrime p.2 p.1 d) d

/-! ## The class methods -/

def isPrimeStateDict (d : StateDict R) : Bool :=
  d.keys.any fun name => name.mentions "mamba." || name.mentions "mlp.experts.w1" || name.mentions "self_attn." ||
    name.mentions "model.embed_tokens." || name.mentions "model.norm."

/-- `_infer_layer_type_prime`: the first key of the layer that tells. -/
def inferLayerTypePrime (keys : List Key) (i : Nat) : LayerType :=
  (keys.findSome? fun k =>
    if Key.under (inLayer i ["mlp"]) k then some .moe
    else if Key.under (inLayer i ["self_attn"]) k then some .attention
    else if Key.under (inLayer i ["mamba"]) k then some .mamba
    else none).getD .mamba

def inferLayersBlockType (d : StateDict R) : Except PyException (List LayerType) := do
  let n ← numLayers (d.keys.filter (Key.under ["model", "layers"]))
  return (List.range n).map (inferLayerTypePrime d.keys)

def convertToHf (d : StateDict R) : Except PyException (StateDict R) := do
  let types ← inferLayersBlockType d
  convertPrimeToHf types d

/-- `convert_layer_to_hf`; the weights outside the layers come with no index. -/
def convertLayerToHf (layerIdx : Option Nat) (d : StateDict R) : Except PyException (StateDict R) :=
  match layerIdx with
  | none => do
      let d ← globalToHf d
      renameKeys ["model"] ["backbone"] d
  | some i => do
      let d ← convertPrimeLayerToHf i (inferLayerTypePrime d.keys i) d
      renameKeys ["model", "layers"] ["backbone", "layers"] d

/-! ## A layer's conversion touches the keys of the layer -/

section Confined

variable {P : Key → Bool} {i : Nat}

theorem confined_renameInLayer (hP : ∀ p s, P (inLayer i (p :: s)) = true) (a b : Key) :
    Confined P (renameKeys (inLayer i a) (inLayer i b) : StateDict R → _) := by
  have h : ∀ (a : Key) p s, P (inLayer i a ++ p :: s) = true := by
    intro a p s
    cases a <;> exact hP _ _
  exact confined_renameKeys (h a) (h b)

theorem confined_convertPrimeLayerToHf (hP : ∀ p s, P (inLayer i (p :: s)) = true) (t : LayerType) :
    Confined P (convertPrimeLayerToHf i t : StateDict R → _) := by
  cases t with
  | mamba => exact confined_renameInLayer hP _ _
  | attention => exact confined_renameInLayer hP _ _
  | moe =>
      refine (confined_moveIfPresent (hP _ _) (hP _ _)).bind ?_
      refine (confined_moveIfPresent (hP _ _) (hP _ _)).bind ?_
      refine (confined_unstackIfPresent (hP _ _) fun _ => hP _ _).bind ?_
      refine (confined_unstackIfPresent (hP _ _) fun _ => hP _ _).bind ?_
      refine (confined_discard (hP _ _)).bind ?_
      refine (confined_renameInLayer hP _ _).bind ?_
      exact (confined_renameInLayer hP _ _).bind (confined_renameInLayer hP _ _)

theorem expertIndex_eq_some {k : Key} {j : Nat} (h : expertIndex i k = some j) :
    ∃ s, k = inLayer i ("mixer" :: "experts" :: .index j :: s) := by
  unfold expertIndex at h
  split_ifs at h with hunder
  obtain ⟨p, s, rfl⟩ := Key.under_iff.1 hunder
  simp only [List.cons_append, List.nil_append] at h
  cases p with
  | name x => cases h
  | index j' =>
      cases h
      exact ⟨s, rfl⟩

theorem confined_convertHfBiasToPrime [Sub R] [Min R]
    (hhf : P (inLayer i ["mixer", "gate", "e_score_correction_bias"]) = true)
    (hprime : P (inLayer i ["mlp", "router", "e_score_correction_bias"]) = true) :
    Confined P (convertHfBiasToPrime i : StateDict R → _) :=
  confined_ifPresent hhf (confined_pop hhf fun _ => confined_bind fun bias => Confined.insert hprime bias)

theorem confined_convertHfExpertsToPrime (hmixer : ∀ p s, P (inLayer i ("mixer" :: "experts" :: p :: s)) = true)
    (hstack : ∀ w, P (stackKey i w) = true) : Confined P
      (fun d : StateDict R => convertHfExpertsToPrime i (d.keys.filter fun k => (expertIndex i k).isSome) d) := by
  refine Confined.keys (f := convertHfExpertsToPrime i) ?_ fun l _ => ?_
  · intro k hk
    obtain ⟨j, hj⟩ := Option.isSome_iff_exists.1 hk
    obtain ⟨s, rfl⟩ := expertIndex_eq_some hj
    exact hmixer _ s
  · unfold convertHfExpertsToPrime
    split_ifs
    · refine Confined.bind ?_ ?_
      · refine confined_popAll ?_ fun ts => confined_bind fun w => Confined.insert (hstack "w1") w
        intro k hk
        obtain ⟨j, -, rfl⟩ := List.mem_map.1 hk
        exact hmixer _ _
      · refine confined_popAll ?_ fun ts => confined_bind fun w => Confined.insert (hstack "w2") w
        intro k hk
        obtain ⟨j, -, rfl⟩ := List.mem_map.1 hk
        exact hmixer _ _
    · exact (confined_moveIfPresent (hmixer _ _) (hstack "w1")).bind (confined_moveIfPresent (hmixer _ _) (hstack "w2"))

theorem confined_convertHfLayerToPrime [Sub R] [Min R] (hP : ∀ p s, P (inLayer i (p :: s)) = true) (t : LayerType) :
    Confined P (convertHfLayerToPrime i t : StateDict R → _) := by
  cases t with
  | mamba => exact confined_renameInLayer hP _ _
  | attention => exact confined_renameInLayer hP _ _
  | moe =>
      refine (confined_moveIfPresent (hP _ _) (hP _ _)).bind ?_
      refine (confined_convertHfBiasToPrime (hP _ _) (hP _ _)).bind ?_
      refine (confined_convertHfExpertsToPrime (fun _ _ => hP _ _) fun _ => hP _ _).bind ?_
      refine (confined_assign (hP _ _) _).bind ?_
      refine (confined_renameInLayer hP _ _).bind ?_
      exact (confined_renameInLayer hP _ _).bind (confined_renameInLayer hP _ _)

end Confined

end NemotronH
end AuroraRl.Weights
