import AuroraRl.Weights.Qwen3Moe

/-!
# The experts of a Qwen layer

* `expertKey` : the key of one projection of one expert;
* `splitExperts_spec` : the stacks become the projections of the experts, each under its own index;
* `convertRoutedToHf_spec` : the router and the routed experts of a layer;
* `LayerConversion` : the conversion of one layer, with the weights it asks for and the keys it leaves;
* `Qwen3Moe.layerConversion`, `Qwen35Moe.layerConversion` : the two of them.
-/

namespace AuroraRl.Weights

variable {R : Type}

abbrev expertKey (i j : Nat) (proj : String) : Key := inLayer i ["mlp", "experts", .index j, .name proj, "weight"]

section Experts

variable {i : Nat} {us vs ws : List (Tensor R)}

/-- The body of the loop over the experts. -/
def splitExpert (i : Nat) (w₁ w₂ w₃ : Tensor R) (d : StateDict R) (j : Nat) : Except PyException (StateDict R) := do
  let gate ← w₁.row j
  let d ← assign (expertKey i j "gate_proj") gate d
  let down ← w₂.row j
  let d ← assign (expertKey i j "down_proj") down d
  let up ← w₃.row j
  assign (expertKey i j "up_proj") up d

theorem splitExpert_eq {j : Nat} {u v w : Tensor R} (hu : us[j]? = some u) (hv : vs[j]? = some v)
    (hw : ws[j]? = some w) (d : StateDict R) : splitExpert i (.rows us) (.rows vs) (.rows ws) d j =
    .ok (((d.insert (expertKey i j "gate_proj") u).insert (expertKey i j "down_proj") v).insert
      (expertKey i j "up_proj") w) := by
  have hu' : (Tensor.rows us).row j = .ok u := listItem_eq_ok.2 hu
  have hv' : (Tensor.rows vs).row j = .ok v := listItem_eq_ok.2 hv
  have hw' : (Tensor.rows ws).row j = .ok w := listItem_eq_ok.2 hw
  unfold splitExpert
  rw [hu', ok_bind, hv', hw']
  rfl

/-- **The stacks** become the projections of the experts, each under its own index. -/
theorem splitExperts_spec (hv : vs.length = us.length) (hw : ws.length = us.length) (d : StateDict R) :
    ∃ d', splitExperts i (.rows us) (.rows vs) (.rows ws) d = .ok d' ∧
      (∀ j, j < us.length → d'.get? (expertKey i j "gate_proj") = us[j]? ∧
        d'.get? (expertKey i j "down_proj") = vs[j]? ∧ d'.get? (expertKey i j "up_proj") = ws[j]?) ∧
      ∀ k, (∀ j, j < us.length → ∀ proj ∈ ["gate_proj", "down_proj", "up_proj"], k ≠ expertKey i j proj) →
        d'.get? k = d.get? k := by
  have hfold : ∀ n, n ≤ us.length → ∃ d',
      (List.range n).foldlM (splitExpert i (.rows us) (.rows vs) (.rows ws)) d = .ok d' ∧
      (∀ j, j < n → d'.get? (expertKey i j "gate_proj") = us[j]? ∧
        d'.get? (expertKey i j "down_proj") = vs[j]? ∧ d'.get? (expertKey i j "up_proj") = ws[j]?) ∧
      ∀ k, (∀ j, j < n → ∀ proj ∈ ["gate_proj", "down_proj", "up_proj"], k ≠ expertKey i j proj) →
        d'.get? k = d.get? k := by
    intro n
    induction n with
    | zero => exact fun _ => ⟨d, rfl, fun j hj => absurd hj (Nat.not_lt_zero j), fun _ _ => rfl⟩
    | succ n ih =>
        intro hn
        obtain ⟨d', hd', hexperts, hsame⟩ := ih (Nat.le_of_succ_le hn)
        obtain ⟨u, hu⟩ : ∃ u, us[n]? = some u := ⟨_, List.getElem?_eq_getElem hn⟩
        obtain ⟨v, hv⟩ : ∃ v, vs[n]? = some v := ⟨_, List.getElem?_eq_getElem (by omega)⟩
        obtain ⟨w, hw⟩ : ∃ w, ws[n]? = some w := ⟨_, List.getElem?_eq_getElem (by omega)⟩
        obtain ⟨d₁, hd₁⟩ : ∃ d₁ : StateDict R, d₁ = ((d'.insert (expertKey i n "gate_proj") u).insert
            (expertKey i n "down_proj") v).insert (expertKey i n "up_proj") w := ⟨_, rfl⟩
        have hbody : splitExpert i (.rows us) (.rows vs) (.rows ws) d' n = .ok d₁ :=
          (splitExpert_eq hu hv hw d').trans (congrArg Except.ok hd₁.symm)
        refine ⟨d₁, ?_, fun j hj => ?_, fun k hk => ?_⟩
        · rw [List.range_succ, List.foldlM_append, hd', ok_bind, List.foldlM_cons, hbody]
          rfl
        · simp only [hd₁, Dict.get?_insert]
          by_cases h : n = j
          · subst h
            rw [hu, hv, hw]
            simp
          · obtain ⟨hgate, hdown, hup⟩ := hexperts j (by omega)
            rw [← hgate, ← hdown, ← hup]
            simp [h]
        · simp only [hd₁, Dict.get?_insert]
          rw [if_neg (hk n (Nat.lt_succ_self n) "up_proj" (by simp)).symm,
            if_neg (hk n (Nat.lt_succ_self n) "down_proj" (by simp)).symm,
            if_neg (hk n (Nat.lt_succ_self n) "gate_proj" (by simp)).symm]
          exact hsame k fun j hj => hk j (Nat.lt_succ_of_lt hj)
  exact hfold us.length (Nat.le_refl _)

abbrev routerKey (i : Nat) : Key := inLayer i ["mlp", "router", "gate", "weight"]

/-- **The router and the routed experts** of a layer. -/
theorem convertRoutedToHf_spec {d : StateDict R} {g : Tensor R} (hg : d.get? (routerKey i) = some g)
    (hw₁ : d.get? (stackKey i "w1") = some (.rows us)) (hw₂ : d.get? (stackKey i "w2") = some (.rows vs))
    (hw₃ : d.get? (stackKey i "w3") = some (.rows ws)) (hv : vs.length = us.length) (hw : ws.length = us.length) :
    ∃ d', convertRoutedToHf i d = .ok d' ∧ d'.get? (inLayer i ["mlp", "gate", "weight"]) = some g ∧
      (∀ j, j < us.length → d'.get? (expertKey i j "gate_proj") = us[j]? ∧
        d'.get? (expertKey i j "down_proj") = vs[j]? ∧ d'.get? (expertKey i j "up_proj") = ws[j]?) ∧
      (d'.get? (routerKey i) = none ∧ ∀ w ∈ ["w1", "w2", "w3"], d'.get? (stackKey i w) = none) ∧
      ∀ k, k ≠ routerKey i → (∀ w ∈ ["w1", "w2", "w3"], k ≠ stackKey i w) → k ≠ inLayer i ["mlp", "gate", "weight"] →
        (∀ j, j < us.length → ∀ proj ∈ ["gate_proj", "down_proj", "up_proj"], k ≠ expertKey i j proj) →
        d'.get? k = d.get? k := by
  obtain ⟨d₀, hd₀⟩ : ∃ d₀ : StateDict R, d₀ = (d.erase (routerKey i)).insert (inLayer i ["mlp", "gate", "weight"]) g :=
    ⟨_, rfl⟩
  have hget₀ : ∀ k, d₀.get? k = if inLayer i ["mlp", "gate", "weight"] = k then some g
      else if routerKey i = k then none else d.get? k := by
    intro k
    rw [hd₀, Dict.get?_insert, Dict.get?_erase]
  have hstack : ∀ w : String, d₀.get? (stackKey i w) = d.get? (stackKey i w) := by
    intro w
    rw [hget₀, if_neg (by simp), if_neg (by simp)]
  obtain ⟨d', hd', hexperts, hsame⟩ := splitExperts_spec (i := i) hv hw
    (((d₀.erase (stackKey i "w1")).erase (stackKey i "w2")).erase (stackKey i "w3"))
  refine ⟨d', ?_, ?_, hexperts, ⟨?_, fun w hmem => ?_⟩, fun k hrouter hstacks hgate hk => ?_⟩
  · unfold convertRoutedToHf
    rw [moveKey_of_get? hg, ok_bind, ← hd₀]
    unfold pop
    simp only [hstack, hw₁, Dict.get?_erase]
    rw [if_neg (by simp), if_neg (by simp), if_neg (by simp), hw₂, hw₃]
    exact hd'
  · rw [hsame _ (by simp)]
    simp only [Dict.get?_erase]
    rw [if_neg (by simp), if_neg (by simp), if_neg (by simp), hget₀, if_pos rfl]
  · rw [hsame _ (by simp)]
    simp only [Dict.get?_erase]
    rw [if_neg (by simp), if_neg (by simp), if_neg (by simp), hget₀, if_neg (by simp), if_pos rfl]
  · rw [hsame _ (by simp)]
    simp only [Dict.get?_erase]
    simp only [List.mem_cons, List.not_mem_nil, or_false] at hmem
    obtain rfl | rfl | rfl := hmem <;> simp
  · rw [hsame k hk]
    simp only [Dict.get?_erase]
    rw [if_neg (hstacks "w3" (by simp)).symm, if_neg (hstacks "w2" (by simp)).symm,
      if_neg (hstacks "w1" (by simp)).symm, hget₀, if_neg hgate.symm, if_neg hrouter.symm]

end Experts

/-! ## The conversion of a layer -/

/-- The router and the three stacks of a MoE layer, one row for each expert. -/
def HasExperts (w : LayerWeights R) : Prop :=
  ∃ g us vs ws, w ["mlp", "router", "gate", "weight"] = some g ∧ w ["mlp", "experts", "w1"] = some (.rows us) ∧
    w ["mlp", "experts", "w2"] = some (.rows vs) ∧ w ["mlp", "experts", "w3"] = some (.rows ws) ∧
    vs.length = us.length ∧ ws.length = us.length

/-- The conversion of a layer: what its weights look like before, and the names they have there alone. -/
structure LayerConversion (R : Type) where
  convertLayer : Nat → StateDict R → Except PyException (StateDict R)
  training : List Key
  nil_notMem : [] ∉ training
  IsLayer : LayerWeights R → Prop
  confined : ∀ {P : Key → Bool} {i : Nat}, (∀ p s, P (inLayer i (p :: s)) = true) → Confined P (convertLayer i)
  converted : ∀ {i d}, IsLayer (d.layer i) →
    ∃ e, convertLayer i d = .ok e ∧ ∀ s ∈ training, e.get? (inLayer i s) = none
  /-- A layer without stacked experts is left as it is. -/
  dense : ∀ {i d}, IsLayer (d.layer i) → d.get? (stackKey i "w1") = none → convertLayer i d = .ok d

namespace Qwen3Moe

def training : List Key :=
  [["mlp", "router", "gate", "weight"], ["mlp", "experts", "w1"], ["mlp", "experts", "w2"], ["mlp", "experts", "w3"]]

/-- A layer is MoE or dense. -/
def IsLayer (w : LayerWeights R) : Prop := HasExperts w ∨ ∀ s ∈ training, w s = none

theorem convertTtLayerToHf_of_dense {i : Nat} {d : StateDict R} (h : d.get? (routerKey i) = none) :
    convertTtLayerToHf i d = .ok d := if_neg (Option.not_isSome_iff_eq_none.2 h)

def layerConversion : LayerConversion R where
  convertLayer := convertTtLayerToHf
  training := training
  nil_notMem := by decide
  IsLayer := IsLayer
  confined := confined_convertTtLayerToHf
  converted := by
    rintro i d (⟨g, us, vs, ws, hg, hw₁, hw₂, hw₃, hv, hw⟩ | hdense)
    · obtain ⟨e, he, -, -, ⟨hrouter, hstacks⟩, -⟩ := convertRoutedToHf_spec (i := i) hg hw₁ hw₂ hw₃ hv hw
      refine ⟨e, (if_pos (Option.isSome_of_eq_some hg)).trans he, fun s hs => ?_⟩
      simp only [training, List.mem_cons, List.not_mem_nil, or_false] at hs
      obtain rfl | rfl | rfl | rfl := hs
      · exact hrouter
      · exact hstacks "w1" (by simp)
      · exact hstacks "w2" (by simp)
      · exact hstacks "w3" (by simp)
    · exact ⟨d, convertTtLayerToHf_of_dense (hdense _ (by simp [training])), hdense⟩
  dense := by
    rintro i d (⟨g, us, vs, ws, -, hw₁, -⟩ | hdense) hnone
    · exact absurd (hw₁.symm.trans hnone) (by simp)
    · exact convertTtLayerToHf_of_dense (hdense _ (by simp [training]))

end Qwen3Moe

namespace Qwen35Moe

def training : List Key :=
  Qwen3Moe.training ++ ([["shared_expert", "w1", "weight"], ["shared_expert", "w2", "weight"],
    ["shared_expert", "w3", "weight"], ["shared_expert_gate", "weight"]] : List Key)

abbrev sharedKey (i : Nat) (w : String) : Key := inLayer i ["shared_expert", .name w, "weight"]

/-- The three projections of the shared expert are there together. -/
def SharedTogether (w : LayerWeights R) : Prop :=
  ∀ a ∈ ["w2", "w3"], (w ["shared_expert", .name a, "weight"]).isSome = (w ["shared_expert", "w1", "weight"]).isSome

/-- A layer is MoE, with a shared expert or without, or dense. -/
def IsLayer (w : LayerWeights R) : Prop := (HasExperts w ∧ SharedTogether w) ∨ ∀ s ∈ training, w s = none

/-- The shared expert of a layer loses its training names. -/
theorem convertSharedToHf_spec {i : Nat} {d : StateDict R} (h : SharedTogether (d.layer i)) :
    ∃ d', convertSharedToHf i d = .ok d' ∧ (∀ a ∈ ["w1", "w2", "w3"], d'.get? (sharedKey i a) = none) ∧
      ∀ k, (∀ a ∈ ["w1", "w2", "w3"], k ≠ sharedKey i a) →
        (∀ p s, k ≠ inLayer i ("mlp" :: "shared_expert" :: p :: s)) → d'.get? k = d.get? k := by
  have htogether : ∀ a ∈ ["w2", "w3"], (d.get? (sharedKey i a)).isSome = (d.get? (sharedKey i "w1")).isSome := h
  cases hw₁ : d.get? (sharedKey i "w1") with
  | none =>
      refine ⟨d, if_neg (Option.not_isSome_iff_eq_none.2 hw₁), fun a ha => ?_, fun _ _ _ => rfl⟩
      rw [hw₁] at htogether
      simp only [List.mem_cons, List.not_mem_nil, or_false] at ha
      obtain rfl | ha := ha
      · exact hw₁
      · simpa using htogether a (by simpa using ha)
  | some t₁ =>
      rw [hw₁] at htogether
      obtain ⟨t₂, hw₂⟩ := Option.isSome_iff_exists.1 (htogether "w2" (by simp))
      obtain ⟨t₃, hw₃⟩ := Option.isSome_iff_exists.1 (htogether "w3" (by simp))
      obtain ⟨d₁, hd₁, -, hnone₁, hsame₁⟩ := moveKey_spec (inLayer i ["mlp", "shared_expert", "gate_proj", "weight"])
        hw₁ (by simp)
      obtain ⟨d₂, hd₂, -, hnone₂, hsame₂⟩ := moveKey_spec (inLayer i ["mlp", "shared_expert", "down_proj", "weight"])
        ((hsame₁ (sharedKey i "w2") (by simp) (by simp)).trans hw₂) (by simp)
      obtain ⟨d₃, hd₃, -, hnone₃, hsame₃⟩ := moveKey_spec (inLayer i ["mlp", "shared_expert", "up_proj", "weight"])
        ((hsame₂ (sharedKey i "w3") (by simp) (by simp)).trans
          ((hsame₁ (sharedKey i "w3") (by simp) (by simp)).trans hw₃)) (by simp)
      refine ⟨d₃, ?_, fun a ha => ?_, fun k hk hk' => ?_⟩
      · refine (if_pos (Option.isSome_of_eq_some hw₁)).trans ?_
        rw [hd₁, ok_bind, hd₂, ok_bind, hd₃]
      · simp only [List.mem_cons, List.not_mem_nil, or_false] at ha
        obtain rfl | rfl | rfl := ha
        · rw [hsame₃ _ (by simp) (by simp), hsame₂ _ (by simp) (by simp), hnone₁]
        · rw [hsame₃ _ (by simp) (by simp), hnone₂]
        · exact hnone₃
      · rw [hsame₃ k (hk "w3" (by simp)) (hk' _ _), hsame₂ k (hk "w2" (by simp)) (hk' _ _),
          hsame₁ k (hk "w1" (by simp)) (hk' _ _)]

theorem convertTtLayerToHf_of_dense {i : Nat} {d : StateDict R} (h : d.get? (routerKey i) = none) :
    convertTtLayerToHf i d = .ok d := if_neg (Option.not_isSome_iff_eq_none.2 h)

def layerConversion : LayerConversion R where
  convertLayer := convertTtLayerToHf
  training := training
  nil_notMem := by decide
  IsLayer := IsLayer
  confined := confined_convertTtLayerToHf
  converted := by
    rintro i d (⟨⟨g, us, vs, ws, hg, hw₁, hw₂, hw₃, hv, hw⟩, hshared⟩ | hdense)
    · obtain ⟨d₁, hd₁, -, -, ⟨hrouter, hstacks⟩, hsame₁⟩ := convertRoutedToHf_spec (i := i) hg hw₁ hw₂ hw₃ hv hw
      have hshared₁ : ∀ a : String, d₁.get? (sharedKey i a) = d.get? (sharedKey i a) := fun a =>
        hsame₁ _ (by simp) (by simp) (by simp) (by simp)
      obtain ⟨d₂, hd₂, hnone₂, hsame₂⟩ := convertSharedToHf_spec (i := i) (d := d₁) fun a ha => by
        show (d₁.get? (sharedKey i a)).isSome = (d₁.get? (sharedKey i "w1")).isSome
        rw [hshared₁, hshared₁]
        exact hshared a ha
      have hlast : ∃ e, moveIfPresent (inLayer i ["shared_expert_gate", "weight"])
          (inLayer i ["mlp", "shared_expert_gate", "weight"]) d₂ = .ok e ∧
          e.get? (inLayer i ["shared_expert_gate", "weight"]) = none ∧
          ∀ k, k ≠ inLayer i ["shared_expert_gate", "weight"] → k ≠ inLayer i ["mlp", "shared_expert_gate", "weight"] →
            e.get? k = d₂.get? k := by
        cases hgate : d₂.get? (inLayer i ["shared_expert_gate", "weight"]) with
        | none => exact ⟨d₂, if_neg (Option.not_isSome_iff_eq_none.2 hgate), hgate, fun _ _ _ => rfl⟩
        | some t =>
            obtain ⟨e, he, -, hnone, hsame⟩ := moveKey_spec (inLayer i ["mlp", "shared_expert_gate", "weight"])
              hgate (by simp)
            exact ⟨e, (if_pos (Option.isSome_of_eq_some hgate)).trans he, hnone, hsame⟩
      obtain ⟨e, he, hgone, hsame⟩ := hlast
      refine ⟨e, ?_, fun s hs => ?_⟩
      · refine (if_pos (Option.isSome_of_eq_some hg)).trans ?_
        rw [hd₁, ok_bind, hd₂, ok_bind, he]
      · simp only [training, Qwen3Moe.training, List.cons_append, List.nil_append, List.mem_cons, List.not_mem_nil,
          or_false] at hs
        obtain rfl | rfl | rfl | rfl | rfl | rfl | rfl | rfl := hs
        · rw [hsame _ (by simp) (by simp), hsame₂ _ (by simp) (by simp), hrouter]
        · rw [hsame _ (by simp) (by simp), hsame₂ _ (by simp) (by simp), hstacks "w1" (by simp)]
        · rw [hsame _ (by simp) (by simp), hsame₂ _ (by simp) (by simp), hstacks "w2" (by simp)]
        · rw [hsame _ (by simp) (by simp), hsame₂ _ (by simp) (by simp), hstacks "w3" (by simp)]
        · rw [hsame _ (by simp) (by simp), hnone₂ "w1" (by simp)]
        · rw [hsame _ (by simp) (by simp), hnone₂ "w2" (by simp)]
        · rw [hsame _ (by simp) (by simp), hnone₂ "w3" (by simp)]
        · exact hgone
    · exact ⟨d, convertTtLayerToHf_of_dense (hdense _ (by simp [training, Qwen3Moe.training])), hdense⟩
  dense := by
    rintro i d (⟨⟨g, us, vs, ws, -, hw₁, -⟩, -⟩ | hdense) hnone
    · exact absurd (hw₁.symm.trans hnone) (by simp)
    · exact convertTtLayerToHf_of_dense (hdense _ (by simp [training, Qwen3Moe.training]))

end Qwen35Moe

end AuroraRl.Weights
