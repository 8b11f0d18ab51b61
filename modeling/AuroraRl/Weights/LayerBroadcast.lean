import AuroraRl.Weights.NemotronLayers
import AuroraRl.Weights.QwenLayouts

/-!
# The layer-wise broadcast

* `layerwise_eq_whole` : for every architecture and every number of layers, what is sent is the whole conversion;
* `noLayers_not_sent` : a model without layers has no whole conversion.
-/

namespace AuroraRl.Weights

variable {R : Type}

/-- **Main.** For NemotronH, Qwen3-MoE and both Qwen3.5-MoE models, with at least one layer, the parts that are sent
layer by layer are the disjoint union that the whole conversion gives, with no key left in the training format. -/
theorem layerwise_eq_whole (revert : StateDict R → StateDict R)
    (hrevert : ∀ e, hasStackedExperts e = false → revert e = e) :
    (∀ types d, NemotronH.TrainingDict types d → types ≠ [] →
      SentAsWhole NemotronH.modelClass revert NemotronH.IsTrainingKey d) ∧
    (∀ n d, TrainingDict textLayout Qwen3Moe.layerConversion n d → n ≠ 0 →
      SentAsWhole Qwen3Moe.modelClass revert (IsTrainingKey (R := R) textLayout Qwen3Moe.layerConversion) d) ∧
    (∀ n d, TrainingDict textLayout Qwen35Moe.layerConversion n d → n ≠ 0 → Qwen35Moe.hasVlmKeys d = false →
      SentAsWhole (Qwen35Moe.modelClass "qwen3_5_moe_text") revert
        (IsTrainingKey (R := R) textLayout Qwen35Moe.layerConversion) d) ∧
    ∀ n d, TrainingDict visionLayout Qwen35Moe.layerConversion n d → n ≠ 0 →
      SentAsWhole (Qwen35Moe.modelClass "qwen3_5_moe") revert
        (IsTrainingKey (R := R) visionLayout Qwen35Moe.layerConversion) d :=
  ⟨fun _ _ h hne => h.sentAsWhole hne revert, fun _ _ h hn => Qwen3Moe.sentAsWhole h hn hrevert,
    fun _ _ h hn htext => Qwen35Moe.sentAsWhole_text h hn htext hrevert,
    fun _ _ h hn => Qwen35Moe.sentAsWhole_vision h hn hrevert⟩

/-! ## Small models -/

def hybridTypes : List NemotronH.LayerType := [.mamba, .moe, .attention]

/-- A hybrid model of three layers, with two experts. -/
def hybridDict : StateDict Int := Dict.ofList [
  (["model", "embed_tokens", "weight"], .rows [.scalar 1]),
  (inLayer 0 ["norm", "weight"], .rows [.scalar 2]),
  (inLayer 0 ["mamba", "A_log"], .rows [.scalar 3]),
  (inLayer 1 ["mlp", "router", "gate"], .rows [.scalar 4]),
  (inLayer 1 ["mlp", "experts", "w1"], .rows [.scalar 5, .scalar 6]),
  (inLayer 1 ["mlp", "experts", "w2"], .rows [.scalar 7, .scalar 8]),
  (inLayer 2 ["self_attn", "q_proj", "weight"], .rows [.scalar 9])]

theorem trainingDict_hybridDict : NemotronH.TrainingDict hybridTypes hybridDict := by
  have hkeys : hybridDict.keys = ([["model", "embed_tokens", "weight"], inLayer 0 ["norm", "weight"],
      inLayer 0 ["mamba", "A_log"], inLayer 1 ["mlp", "router", "gate"], inLayer 1 ["mlp", "experts", "w1"],
      inLayer 1 ["mlp", "experts", "w2"], inLayer 2 ["self_attn", "q_proj", "weight"]] : List Key) := rfl
  have htypes : ∀ i t, hybridTypes[i]? = some t → (i = 0 ∧ t = .mamba) ∨ (i = 1 ∧ t = .moe) ∨ (i = 2 ∧ t = .attention) := by
    intro i t ht
    match i, ht with
    | 0, ht => exact .inl ⟨rfl, (Option.some.inj ht).symm⟩
    | 1, ht => exact .inr (.inl ⟨rfl, (Option.some.inj ht).symm⟩)
    | 2, ht => exact .inr (.inr ⟨rfl, (Option.some.inj ht).symm⟩)
  refine ⟨?_, ?_, ?_, ?_, ?_, ?_, ?_⟩
  · rw [hkeys]
    decide
  · rw [hkeys]
    decide
  · intro k hk hunder
    rw [hkeys] at hk
    simp only [List.mem_cons, List.not_mem_nil, or_false] at hk
    obtain rfl | rfl | rfl | rfl | rfl | rfl | rfl := hk
    · cases hunder
    · exact ⟨0, _, _, by decide, rfl⟩
    · exact ⟨0, _, _, by decide, rfl⟩
    · exact ⟨1, _, _, by decide, rfl⟩
    · exact ⟨1, _, _, by decide, rfl⟩
    · exact ⟨1, _, _, by decide, rfl⟩
    · exact ⟨2, _, _, by decide, rfl⟩
  · intro i p s
    rw [hkeys]
    simp
  · intro i t ht
    rw [hkeys]
    obtain ⟨rfl, rfl⟩ | ⟨rfl, rfl⟩ | ⟨rfl, rfl⟩ := htypes i t ht
    · exact ⟨"A_log", [], by decide⟩
    · exact ⟨"router", ["gate"], by decide⟩
    · exact ⟨"q_proj", ["weight"], by decide⟩
  · intro i t t' ht hne p s
    rw [hkeys]
    obtain ⟨rfl, rfl⟩ | ⟨rfl, rfl⟩ | ⟨rfl, rfl⟩ := htypes i t ht <;>
      cases t' <;> first | exact absurd rfl hne | simp [NemotronH.LayerType.module]
  · intro i ht
    obtain ⟨-, ht⟩ | ⟨rfl, -⟩ | ⟨-, ht⟩ := htypes i .moe ht
    · cases ht
    · exact ⟨_, _, rfl, rfl⟩
    · cases ht

/-- A model of one MoE layer with two experts, under the flat keys. -/
def flatDict : StateDict Int := Dict.ofList [
  (["model", "embed_tokens", "weight"], .rows [.scalar 1]),
  (inLayer 0 ["mlp", "router", "gate", "weight"], .rows [.scalar 2]),
  (inLayer 0 ["mlp", "experts", "w1"], .rows [.scalar 3, .scalar 4]),
  (inLayer 0 ["mlp", "experts", "w2"], .rows [.scalar 5, .scalar 6]),
  (inLayer 0 ["mlp", "experts", "w3"], .rows [.scalar 7, .scalar 8])]

/-- The same inside a vision model. -/
def visionDict : StateDict Int := Dict.ofList [
  (["model", "visual", "patch_embed", "weight"], .rows [.scalar 0]),
  (["model", "language_model", "embed_tokens", "weight"], .rows [.scalar 1]),
  (Vision.view (inLayer 0 ["mlp", "router", "gate", "weight"]), .rows [.scalar 2]),
  (Vision.view (inLayer 0 ["mlp", "experts", "w1"]), .rows [.scalar 3, .scalar 4]),
  (Vision.view (inLayer 0 ["mlp", "experts", "w2"]), .rows [.scalar 5, .scalar 6]),
  (Vision.view (inLayer 0 ["mlp", "experts", "w3"]), .rows [.scalar 7, .scalar 8])]

theorem hasExperts_flatDict : HasExperts (flatDict.layer 0) :=
  ⟨_, _, _, _, rfl, rfl, rfl, rfl, rfl, rfl⟩

theorem trainingDict_flatDict {f : LayerConversion Int} (h : f.IsLayer (flatDict.layer 0)) :
    TrainingDict textLayout f 1 flatDict := by
  have hkeys : flatDict.keys = ([["model", "embed_tokens", "weight"], inLayer 0 ["mlp", "router", "gate", "weight"],
      inLayer 0 ["mlp", "experts", "w1"], inLayer 0 ["mlp", "experts", "w2"],
        inLayer 0 ["mlp", "experts", "w3"]] : List Key) := rfl
  refine ⟨fun k _ => ⟨k, trivial, rfl⟩, fun k _ hk hmentions => ?_, fun i hi => ?_, fun i hi => ?_⟩
  · change k ∈ flatDict.keys at hk
    rw [hkeys] at hk
    simp only [List.mem_cons, List.not_mem_nil, or_false] at hk
    obtain rfl | rfl | rfl | rfl | rfl := hk
    · exact absurd hmentions (by decide)
    · exact ⟨0, _, _, by decide, rfl⟩
    · exact ⟨0, _, _, by decide, rfl⟩
    · exact ⟨0, _, _, by decide, rfl⟩
    · exact ⟨0, _, _, by decide, rfl⟩
  · obtain rfl : i = 0 := by omega
    refine ⟨"mlp", ["experts", "w1"], ?_⟩
    rw [hkeys]
    decide
  · obtain rfl : i = 0 := by omega
    exact h

theorem trainingDict_visionDict : TrainingDict visionLayout Qwen35Moe.layerConversion 1 visionDict := by
  have hkeys : visionDict.keys = ([["model", "visual", "patch_embed", "weight"],
      ["model", "language_model", "embed_tokens", "weight"],
      ["model", "language_model", "layers", .index 0, "mlp", "router", "gate", "weight"],
      ["model", "language_model", "layers", .index 0, "mlp", "experts", "w1"],
      ["model", "language_model", "layers", .index 0, "mlp", "experts", "w2"],
      ["model", "language_model", "layers", .index 0, "mlp", "experts", "w3"]] : List Key) := rfl
  have hflat : ∀ p s, p ≠ .name "language_model" → Vision.IsFlat (.name "model" :: p :: s) := by
    rintro p s hp p' s' heq rfl
    cases heq
    exact hp rfl
  refine ⟨fun k hk => ?_, fun k hflat' hk hmentions => ?_, fun i hi => ?_, fun i hi => ?_⟩
  · rw [hkeys] at hk
    simp only [List.mem_cons, List.not_mem_nil, or_false] at hk
    obtain rfl | rfl | rfl | rfl | rfl | rfl := hk
    · exact ⟨_, hflat "visual" ["patch_embed", "weight"] (by decide), rfl⟩
    · exact ⟨_, hflat "embed_tokens" ["weight"] (by decide), rfl⟩
    · exact ⟨_, hflat "layers" [.index 0, "mlp", "router", "gate", "weight"] (by decide), rfl⟩
    · exact ⟨_, hflat "layers" [.index 0, "mlp", "experts", "w1"] (by decide), rfl⟩
    · exact ⟨_, hflat "layers" [.index 0, "mlp", "experts", "w2"] (by decide), rfl⟩
    · exact ⟨_, hflat "layers" [.index 0, "mlp", "experts", "w3"] (by decide), rfl⟩
  · change Vision.view k ∈ visionDict.keys at hk
    rw [hkeys] at hk
    obtain ⟨p, s, rfl, hp, hvisual, heq⟩ | ⟨heq, hkey⟩ := Vision.view_cases hflat'
    · rw [heq] at hk
      simp only [List.mem_cons, List.not_mem_nil, or_false, List.cons.injEq] at hk
      obtain ⟨-, h, -⟩ | ⟨-, -, rfl, rfl⟩ | ⟨-, -, rfl, rfl⟩ | ⟨-, -, rfl, rfl⟩ | ⟨-, -, rfl, rfl⟩ |
        ⟨-, -, rfl, rfl⟩ := hk
      · exact absurd h (by decide)
      · exact absurd hmentions (by decide)
      · exact ⟨0, _, _, by decide, rfl⟩
      · exact ⟨0, _, _, by decide, rfl⟩
      · exact ⟨0, _, _, by decide, rfl⟩
      · exact ⟨0, _, _, by decide, rfl⟩
    · rw [heq] at hk
      simp only [List.mem_cons, List.not_mem_nil, or_false] at hk
      obtain rfl | rfl | rfl | rfl | rfl | rfl := hk
      · exact absurd hmentions (by decide)
      all_goals exact absurd (hkey _ _ rfl).1 (by decide)
  · obtain rfl : i = 0 := by omega
    refine ⟨"mlp", ["experts", "w1"], ?_⟩
    rw [hkeys]
    decide
  · obtain rfl : i = 0 := by omega
    refine .inl ⟨⟨_, _, _, _, rfl, rfl, rfl, rfl, rfl, rfl⟩, fun a ha => ?_⟩
    simp only [List.mem_cons, List.not_mem_nil, or_false] at ha
    obtain rfl | rfl := ha <;> rfl

/-- The small models are sent as a whole. -/
theorem layerwise_eq_whole_small : SentAsWhole NemotronH.modelClass id NemotronH.IsTrainingKey hybridDict ∧
    SentAsWhole Qwen3Moe.modelClass id (IsTrainingKey (R := Int) textLayout Qwen3Moe.layerConversion) flatDict ∧
    SentAsWhole (Qwen35Moe.modelClass "qwen3_5_moe_text") id
      (IsTrainingKey (R := Int) textLayout Qwen35Moe.layerConversion) flatDict ∧
    SentAsWhole (Qwen35Moe.modelClass "qwen3_5_moe") id
      (IsTrainingKey (R := Int) visionLayout Qwen35Moe.layerConversion) visionDict := by
  obtain ⟨hybrid, qwen3, text, vision⟩ := layerwise_eq_whole (R := Int) id fun _ _ => rfl
  refine ⟨hybrid _ _ trainingDict_hybridDict (by decide), ?_, ?_, vision 1 _ trainingDict_visionDict (by decide)⟩
  · exact qwen3 1 _ (trainingDict_flatDict (.inl hasExperts_flatDict)) (by decide)
  · refine text 1 _ (trainingDict_flatDict (.inl ⟨hasExperts_flatDict, fun a ha => ?_⟩)) (by decide) (by decide)
    simp only [List.mem_cons, List.not_mem_nil, or_false] at ha
    obtain rfl | rfl := ha <;> rfl

def noLayers : StateDict Int := Dict.ofList [(["model", "embed_tokens", "weight"], .rows [.scalar 1])]

/-- The whole conversion takes the maximum over the layers, and a model without layers has none. -/
theorem noLayers_not_sent : NemotronH.TrainingDict [] noLayers ∧
    (∃ parts, layerParts NemotronH.modelClass id noLayers = .ok parts) ∧
    ¬ SentAsWhole NemotronH.modelClass id NemotronH.IsTrainingKey noLayers := by
  have hkeys : noLayers.keys = ([["model", "embed_tokens", "weight"]] : List Key) := rfl
  refine ⟨⟨?_, ?_, ?_, ?_, ?_, ?_, ?_⟩, ⟨_, rfl⟩, ?_⟩
  · rw [hkeys]
    decide
  · rw [hkeys]
    decide
  · rw [hkeys]
    intro k hk hunder
    rw [List.mem_singleton] at hk
    subst hk
    cases hunder
  · rw [hkeys]
    simp
  · intro i t ht
    cases ht
  · intro i t t' ht
    cases ht
  · intro i ht
    cases ht
  · rintro ⟨whole, parts, hwhole, -⟩
    cases hwhole

end AuroraRl.Weights
