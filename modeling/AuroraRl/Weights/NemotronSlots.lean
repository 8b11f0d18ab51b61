import AuroraRl.Weights.NemotronH

/-!
# The slots of a MoE layer of NemotronH

* `Slot`, `slot` : the groups of keys that the conversion of a MoE layer handles apart;
* `slotToHf`, `slotToPrime` : what it does in each of them;
* `splits_convertPrimeMoeLayerToHf`, `splits_convertHfMoeLayerToPrime` : both directions slot by slot.
-/

namespace AuroraRl.Weights.NemotronH

variable {R : Type}

/-- The router, its bias, the routed experts, the shared expert and the two latent projections. -/
inductive Slot
  | gate
  | bias
  | experts
  | shared
  | fc1
  | fc2
  | other
  deriving DecidableEq, Repr

/-- The slot of a key, in either format, by what follows the index of the layer. -/
def slotOf (a b : Part) (rest : Key) : Slot :=
  if a = "mlp" then
    if b = "router" then
      if rest = [.name "gate"] then .gate else if rest = [.name "e_score_correction_bias"] then .bias else .other
    else if b = "experts" then .experts
    else if b = "shared_expert" then .shared
    else if b = "fc1_latent_proj" then .fc1
    else if b = "fc2_latent_proj" then .fc2
    else .other
  else if a = "mixer" then
    if b = "gate" then
      if rest = [.name "weight"] then .gate else if rest = [.name "e_score_correction_bias"] then .bias else .other
    else if b = "experts" then .experts
    else if b = "shared_experts" then .shared
    else if b = "fc1_latent_proj" then .fc1
    else if b = "fc2_latent_proj" then .fc2
    else .other
  else .other

def slot : Key → Slot
  | _ :: _ :: _ :: a :: b :: rest => slotOf a b rest
  | _ => .other

/-- What `_convert_prime_moe_layer_to_hf` does in a slot. -/
def slotToHf (i : Nat) : Slot → StateDict R → Except PyException (StateDict R)
  | .gate => moveIfPresent (inLayer i ["mlp", "router", "gate"]) (inLayer i ["mixer", "gate", "weight"])
  | .bias => moveIfPresent (inLayer i ["mlp", "router", "e_score_correction_bias"])
      (inLayer i ["mixer", "gate", "e_score_correction_bias"])
  | .experts => fun d => do
      let d ← unstackIfPresent (inLayer i ["mlp", "experts", "w1"])
        (fun j => inLayer i ["mixer", "experts", .index j, "up_proj", "weight"]) d
      let d ← unstackIfPresent (inLayer i ["mlp", "experts", "w2"])
        (fun j => inLayer i ["mixer", "experts", .index j, "down_proj", "weight"]) d
      discard (inLayer i ["mlp", "experts", "w3"]) d
  | .shared => renameKeys (inLayer i ["mlp", "shared_expert"]) (inLayer i ["mixer", "shared_experts"])
  | .fc1 => renameKeys (inLayer i ["mlp", "fc1_latent_proj"]) (inLayer i ["mixer", "fc1_latent_proj"])
  | .fc2 => renameKeys (inLayer i ["mlp", "fc2_latent_proj"]) (inLayer i ["mixer", "fc2_latent_proj"])
  | .other => .ok

/-- What `_convert_hf_moe_layer_to_prime` does in a slot. -/
def slotToPrime [Sub R] [Min R] (i : Nat) : Slot → StateDict R → Except PyException (StateDict R)
  | .gate => moveIfPresent (inLayer i ["mixer", "gate", "weight"]) (inLayer i ["mlp", "router", "gate"])
  | .bias => convertHfBiasToPrime i
  | .experts => fun d => do
      let d ← convertHfExpertsToPrime i (d.keys.filter fun k => (expertIndex i k).isSome) d
      assign (inLayer i ["mlp", "experts", "w3"]) (.rows []) d
  | .shared => renameKeys (inLayer i ["mixer", "shared_experts"]) (inLayer i ["mlp", "shared_expert"])
  | .fc1 => renameKeys (inLayer i ["mixer", "fc1_latent_proj"]) (inLayer i ["mlp", "fc1_latent_proj"])
  | .fc2 => renameKeys (inLayer i ["mixer", "fc2_latent_proj"]) (inLayer i ["mlp", "fc2_latent_proj"])
  | .other => .ok

theorem confined_renameInSlot {c : Slot} {i : Nat} {a b : Key} (ha : ∀ p s, slot (inLayer i a ++ p :: s) = c)
    (hb : ∀ p s, slot (inLayer i b ++ p :: s) = c) :
    Confined (fun k => slot k = c) (renameKeys (inLayer i a) (inLayer i b) : StateDict R → _) :=
  confined_renameKeys (fun p s => decide_eq_true (ha p s)) fun p s => decide_eq_true (hb p s)

/-- `_convert_prime_moe_layer_to_hf`, slot by slot. -/
theorem splits_convertPrimeMoeLayerToHf (i : Nat) :
    Splits slot (convertPrimeMoeLayerToHf i : StateDict R → _) (slotToHf i) := by
  have hgate : Confined (fun k => slot k = .gate) (slotToHf i .gate : StateDict R → _) :=
    confined_moveIfPresent rfl rfl
  have hbias : Confined (fun k => slot k = .bias) (slotToHf i .bias : StateDict R → _) :=
    confined_moveIfPresent rfl rfl
  have hw₁ : Confined (fun k => slot k = .experts) (unstackIfPresent (inLayer i ["mlp", "experts", "w1"])
      (fun j => inLayer i ["mixer", "experts", .index j, "up_proj", "weight"]) : StateDict R → _) :=
    confined_unstackIfPresent rfl fun _ => rfl
  have hw₂ : Confined (fun k => slot k = .experts) (unstackIfPresent (inLayer i ["mlp", "experts", "w2"])
      (fun j => inLayer i ["mixer", "experts", .index j, "down_proj", "weight"]) : StateDict R → _) :=
    confined_unstackIfPresent rfl fun _ => rfl
  have hw₃ : Confined (fun k => slot k = .experts)
      (discard (inLayer i ["mlp", "experts", "w3"]) : StateDict R → _) := confined_discard rfl
  have hshared : Confined (fun k => slot k = .shared) (slotToHf i .shared : StateDict R → _) :=
    confined_renameInSlot (fun _ _ => rfl) fun _ _ => rfl
  have hfc1 : Confined (fun k => slot k = .fc1) (slotToHf i .fc1 : StateDict R → _) :=
    confined_renameInSlot (fun _ _ => rfl) fun _ _ => rfl
  have hfc2 : Confined (fun k => slot k = .fc2) (slotToHf i .fc2 : StateDict R → _) :=
    confined_renameInSlot (fun _ _ => rfl) fun _ _ => rfl
  refine ((Splits.of_confined hgate).comp ((Splits.of_confined hbias).comp ((Splits.of_confined hw₁).comp
    ((Splits.of_confined hw₂).comp ((Splits.of_confined hw₃).comp ((Splits.of_confined hshared).comp
      ((Splits.of_confined hfc1).comp (Splits.of_confined hfc2)))))))).congr fun c d => ?_
  cases c <;> simp [slotToHf, ok_bind, bind_ok]

/-- `_convert_hf_moe_layer_to_prime`, slot by slot. -/
theorem splits_convertHfMoeLayerToPrime [Sub R] [Min R] (i : Nat) :
    Splits slot (convertHfMoeLayerToPrime i : StateDict R → _) (slotToPrime i) := by
  have hgate : Confined (fun k => slot k = .gate) (slotToPrime i .gate : StateDict R → _) :=
    confined_moveIfPresent rfl rfl
  have hbias : Confined (fun k => slot k = .bias) (slotToPrime i .bias : StateDict R → _) :=
    confined_convertHfBiasToPrime rfl rfl
  have hexperts : Confined (fun k => slot k = .experts)
      (fun d : StateDict R => convertHfExpertsToPrime i (d.keys.filter fun k => (expertIndex i k).isSome) d) :=
    confined_convertHfExpertsToPrime (fun _ _ => rfl) fun _ => rfl
  have hw₃ : Confined (fun k => slot k = .experts)
      (assign (inLayer i ["mlp", "experts", "w3"]) (.rows []) : StateDict R → _) := confined_assign rfl _
  have hshared : Confined (fun k => slot k = .shared) (slotToPrime i .shared : StateDict R → _) :=
    confined_renameInSlot (fun _ _ => rfl) fun _ _ => rfl
  have hfc1 : Confined (fun k => slot k = .fc1) (slotToPrime i .fc1 : StateDict R → _) :=
    confined_renameInSlot (fun _ _ => rfl) fun _ _ => rfl
  have hfc2 : Confined (fun k => slot k = .fc2) (slotToPrime i .fc2 : StateDict R → _) :=
    confined_renameInSlot (fun _ _ => rfl) fun _ _ => rfl
  refine ((Splits.of_confined hgate).comp ((Splits.of_confined hbias).comp ((Splits.of_confined hexperts).comp
    ((Splits.of_confined hw₃).comp ((Splits.of_confined hshared).comp ((Splits.of_confined hfc1).comp
      (Splits.of_confined hfc2))))))).congr fun c d => ?_
  cases c <;> simp [slotToPrime, ok_bind, bind_ok]

/-! ## The experts -/

section Experts

variable {i : Nat} {d : StateDict R} {us vs : List (Tensor R)}

abbrev upKey (i j : Nat) : Key := inLayer i ["mixer", "experts", .index j, "up_proj", "weight"]

abbrev downKey (i j : Nat) : Key := inLayer i ["mixer", "experts", .index j, "down_proj", "weight"]

/-- The stacks of a layer give way to the projections of its experts. -/
theorem slotToHf_experts (hw₁ : d.get? (inLayer i ["mlp", "experts", "w1"]) = some (.rows us))
    (hw₂ : d.get? (inLayer i ["mlp", "experts", "w2"]) = some (.rows vs))
    (hfresh : ∀ p s, inLayer i ("mixer" :: p :: s) ∉ d.keys) :
    ∃ d', slotToHf i .experts d = .ok d' ∧ (∀ j, d'.get? (upKey i j) = us[j]?) ∧
      (∀ j, d'.get? (downKey i j) = vs[j]?) ∧
      (∀ w ∈ ["w1", "w2", "w3"], d'.get? (inLayer i ["mlp", "experts", .name w]) = none) ∧
      ∀ k, (∀ j, k ≠ upKey i j) → (∀ j, k ≠ downKey i j) →
        (∀ w ∈ ["w1", "w2", "w3"], k ≠ inLayer i ["mlp", "experts", .name w]) → d'.get? k = d.get? k := by
  obtain ⟨d₁, hd₁, hup, hnone₁, hsame₁⟩ := unstackIfPresent_spec (upKey i) hw₁ (by simp) fun j => hfresh _ _
  have hfresh₁ : ∀ j, downKey i j ∉ d₁.keys := by
    intro j
    rw [← Dict.get?_eq_none_iff, hsame₁ _ (by simp) (by simp), Dict.get?_eq_none_iff]
    exact hfresh _ _
  obtain ⟨d₂, hd₂, hdown, hnone₂, hsame₂⟩ := unstackIfPresent_spec (downKey i) ((hsame₁ _ (by simp) (by simp)).trans hw₂)
    (by simp) hfresh₁
  refine ⟨d₂.erase (inLayer i ["mlp", "experts", "w3"]), ?_, fun j => ?_, fun j => ?_, fun w hw => ?_,
    fun k hku hkd hkw => ?_⟩
  · show unstackIfPresent _ (upKey i) d >>= (fun d => unstackIfPresent _ (downKey i) d >>= discard _) = _
    rw [hd₁, ok_bind, hd₂]
    rfl
  · rw [Dict.get?_erase, if_neg (by simp), hsame₂ _ (by simp) (by simp), hup]
  · rw [Dict.get?_erase, if_neg (by simp), hdown]
  · rw [Dict.get?_erase]
    split_ifs with h
    · rfl
    · simp only [List.mem_cons, List.not_mem_nil, or_false] at hw
      obtain rfl | rfl | rfl := hw
      · rw [hsame₂ _ (by simp) (by simp), hnone₁]
      · exact hnone₂
      · exact absurd rfl h
  · rw [Dict.get?_erase, if_neg (Ne.symm (hkw "w3" (by simp))), hsame₂ k (hkw "w2" (by simp)) fun j => (hkd j).symm,
      hsame₁ k (hkw "w1" (by simp)) fun j => (hku j).symm]

end Experts

end AuroraRl.Weights.NemotronH
