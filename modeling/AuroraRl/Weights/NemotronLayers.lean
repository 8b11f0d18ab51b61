import AuroraRl.Weights.Layers
import AuroraRl.Weights.NemotronSlots

/-!
# NemotronH layer by layer

* `textCell` : the layer a key is in, in either format;
* `TrainingDict` : the weights of a model with these layer types in the training format;
* `TrainingDict.layer` : the conversion of one layer;
* `splits_convertPrimeToHf` : the conversion of all weights acts on every layer by itself;
* `TrainingDict.sentAsWhole` : the parts are the whole, and nothing keeps its training key.
-/

namespace AuroraRl.Weights

variable {R : Type}

/-- The layer of a key of a text model. -/
def textCell : Key → Option Nat
  | a :: b :: .index i :: _ :: _ => if (a = "model" ∨ a = "backbone") ∧ b = "layers" then some i else none
  | _ => none

theorem textCell_eq_some {k : Key} {i : Nat} : textCell k = some i ↔
    ∃ p s, k = inLayer i (p :: s) ∨ k = .name "backbone" :: .name "layers" :: .index i :: p :: s := by
  constructor
  · intro h
    unfold textCell at h
    split at h
    · rename_i a b j p s
      split_ifs at h with hab
      cases h
      obtain ⟨rfl | rfl, rfl⟩ := hab
      · exact ⟨p, s, .inl rfl⟩
      · exact ⟨p, s, .inr rfl⟩
    · cases h
  · rintro ⟨p, s, rfl | rfl⟩ <;> rfl

theorem textCell_backbone (k : Key) : textCell (.name "backbone" :: k) = textCell (.name "model" :: k) := by
  refine Option.ext fun i => ?_
  show textCell _ = some i ↔ textCell _ = some i
  simp [textCell_eq_some]

namespace NemotronH

def modelClass : ModelClass R := ⟨"nemotron_h", isPrimeStateDict, convertToHf, convertLayerToHf⟩

/-- The attribute of a layer that holds its weights in the training format. -/
def LayerType.module : LayerType → Part
  | .mamba => "mamba"
  | .moe => "mlp"
  | .attention => "self_attn"

/-- The weights of a model whose layers have these types, in the training format. -/
structure TrainingDict (types : List LayerType) (d : StateDict R) : Prop where
  embed : ([.name "model", .name "embed_tokens", .name "weight"] : Key) ∈ d.keys
  notHf : ∀ k ∈ d.keys, Key.under ["backbone"] k = false
  inLayers : ∀ k ∈ d.keys, Key.under ["model", "layers"] k = true →
    ∃ i p s, i < types.length ∧ k = inLayer i (p :: s)
  noMixer : ∀ i p s, inLayer i ("mixer" :: p :: s) ∉ d.keys
  own : ∀ i t, types[i]? = some t → ∃ p s, inLayer i (t.module :: p :: s) ∈ d.keys
  only : ∀ i t t', types[i]? = some t → t' ≠ t → ∀ p s, inLayer i (t'.module :: p :: s) ∉ d.keys
  experts : ∀ i, types[i]? = some .moe → ∃ us vs, d.get? (inLayer i ["mlp", "experts", "w1"]) = some (.rows us) ∧
    d.get? (inLayer i ["mlp", "experts", "w2"]) = some (.rows vs)

/-! ## The type of a layer -/

theorem inferLayerTypePrime_eq {keys : List Key} {i : Nat} {t : LayerType}
    (hown : ∃ p s, inLayer i (t.module :: p :: s) ∈ keys)
    (honly : ∀ t', t' ≠ t → ∀ p s, inLayer i (t'.module :: p :: s) ∉ keys) : inferLayerTypePrime keys i = t := by
  have hnot : ∀ k ∈ keys, ∀ t', t' ≠ t → Key.under (inLayer i [t'.module]) k = false := by
    intro k hk t' ht'
    by_contra h
    obtain ⟨p, s, rfl⟩ := Key.under_iff.1 (by simpa using h)
    exact honly t' ht' p s hk
  unfold inferLayerTypePrime
  induction keys with
  | nil =>
      obtain ⟨p, s, h⟩ := hown
      cases h
  | cons k keys ih =>
      by_cases hk : Key.under (inLayer i [t.module]) k = true
      · -- the first key that tells is one of the layer's own
        have hfirst : (if Key.under (inLayer i ["mlp"]) k then some .moe
            else if Key.under (inLayer i ["self_attn"]) k then some .attention
            else if Key.under (inLayer i ["mamba"]) k then some .mamba else none) = some t := by
          have hmlp := hnot k List.mem_cons_self .moe
          have hattn := hnot k List.mem_cons_self .attention
          simp only [LayerType.module] at hmlp hattn
          cases t with
          | moe => exact if_pos hk
          | attention =>
              rw [if_neg (Bool.eq_false_iff.1 (hmlp (by decide)))]
              exact if_pos hk
          | mamba =>
              rw [if_neg (Bool.eq_false_iff.1 (hmlp (by decide))), if_neg (Bool.eq_false_iff.1 (hattn (by decide)))]
              exact if_pos hk
        rw [List.findSome?_cons, hfirst]
        rfl
      · have hnone : ∀ t' : LayerType, Key.under (inLayer i [t'.module]) k = false := by
          intro t'
          by_cases ht' : t' = t
          · subst ht'
            simpa using hk
          · exact hnot k List.mem_cons_self t' ht'
        have hmlp := hnone .moe
        have hattn := hnone .attention
        have hmamba := hnone .mamba
        simp only [LayerType.module] at hmlp hattn hmamba
        rw [List.findSome?_cons, if_neg (Bool.eq_false_iff.1 hmlp), if_neg (Bool.eq_false_iff.1 hattn),
          if_neg (Bool.eq_false_iff.1 hmamba)]
        refine ih ?_ (fun t' ht' p s h => honly t' ht' p s (List.mem_cons_of_mem k h))
          fun k' hk' => hnot k' (List.mem_cons_of_mem k hk')
        obtain ⟨p, s, h⟩ := hown
        obtain rfl | h := List.mem_cons.1 h
        · exact absurd (Key.under_append (inLayer i [t.module]) p s) hk
        · exact ⟨p, s, h⟩

namespace TrainingDict

variable {types : List LayerType} {d : StateDict R}

theorem infer (h : TrainingDict types d) {i : Nat} {t : LayerType} (ht : types[i]? = some t) :
    inferLayerTypePrime d.keys i = t := inferLayerTypePrime_eq (h.own i t ht) fun t' ht' => h.only i t t' ht ht'

theorem last (h : TrainingDict types d) (hne : types ≠ []) :
    ∃ k ∈ d.keys, ∃ i p s, i + 1 = types.length ∧ k = inLayer i (p :: s) := by
  have hlen := List.length_pos_of_ne_nil hne
  obtain ⟨p, s, hmem⟩ := h.own (types.length - 1) _ (List.getElem?_eq_getElem (by omega))
  exact ⟨_, hmem, _, _, _, by omega, rfl⟩

theorem inferLayersBlockType_eq (h : TrainingDict types d) (hne : types ≠ []) :
    inferLayersBlockType d = .ok types := by
  obtain ⟨k, hk, i, p, s, hi, rfl⟩ := h.last hne
  have hnum : numLayers (d.keys.filter (Key.under ["model", "layers"])) = .ok types.length := by
    refine numLayers_eq (fun k hk => ?_) ⟨_, List.mem_filter.2 ⟨hk, rfl⟩, i, _, hi, rfl⟩
    obtain ⟨hk, hunder⟩ := List.mem_filter.1 hk
    exact h.inLayers k hk hunder
  unfold inferLayersBlockType
  rw [hnum, ok_bind]
  refine congrArg Except.ok (List.ext_getElem (by simp) fun i hi hi' => ?_)
  rw [List.getElem_map, List.getElem_range]
  exact h.infer (List.getElem?_eq_getElem hi')

theorem getMaxLayerNum_eq (h : TrainingDict types d) (hne : types ≠ []) :
    getMaxLayerNum d ["model", "layers"] = types.length := by
  obtain ⟨k, hk, i, p, s, hi, rfl⟩ := h.last hne
  refine Weights.getMaxLayerNum_eq (fun k hk hunder => h.inLayers k hk hunder) ⟨_, hk, i, _, hi, rfl⟩

theorem part_some (h : TrainingDict types d) (i : Nat) :
    d.restrict (Key.under ([.name "model", .name "layers"] ++ [.index i] : Key)) = d.part textCell (some i) := by
  refine Dict.restrict_congr d fun k hk => ?_
  rw [Bool.eq_iff_iff, decide_eq_true_eq, textCell_eq_some, Key.under_iff]
  constructor
  · rintro ⟨p, s, rfl⟩
    exact ⟨p, s, .inl rfl⟩
  · rintro ⟨p, s, rfl | rfl⟩
    · exact ⟨p, s, rfl⟩
    · have := h.notHf _ hk
      cases this

theorem part_none (h : TrainingDict types d) :
    d.restrict (fun k => !Key.under ["model", "layers"] k) = d.part textCell none := by
  refine Dict.restrict_congr d fun k hk => ?_
  rw [Bool.eq_iff_iff, decide_eq_true_eq, Bool.not_eq_true', Option.eq_none_iff_forall_ne_some]
  constructor
  · intro hunder i hi
    obtain ⟨p, s, rfl | rfl⟩ := textCell_eq_some.1 hi
    · cases hunder
    · have := h.notHf _ hk
      cases this
  · intro hnone
    by_contra hunder
    obtain ⟨i, p, s, -, rfl⟩ := h.inLayers k hk (by simpa using hunder)
    exact hnone i rfl

end TrainingDict

/-! ## One layer -/

/-- What follows the index of a layer in the keys the conversion renames. -/
def isTrainingSuffix (s : Key) : Bool :=
  Key.under ["mamba"] s || Key.under ["self_attn"] s ||
    s ∈ ([["mlp", "router", "gate"], ["mlp", "router", "e_score_correction_bias"], ["mlp", "experts", "w1"],
      ["mlp", "experts", "w2"], ["mlp", "experts", "w3"]] : List Key) ||
    Key.under ["mlp", "shared_expert"] s || Key.under ["mlp", "fc1_latent_proj"] s ||
    Key.under ["mlp", "fc2_latent_proj"] s

section Layer

variable {i : Nat} {d : StateDict R}

/-- A MoE layer: the conversion ends, slot by slot, and leaves no key of the training format under `mlp`. -/
theorem convertPrimeMoeLayerToHf_spec {us vs : List (Tensor R)}
    (hw₁ : d.get? (inLayer i ["mlp", "experts", "w1"]) = some (.rows us))
    (hw₂ : d.get? (inLayer i ["mlp", "experts", "w2"]) = some (.rows vs))
    (hfresh : ∀ p s, inLayer i ("mixer" :: p :: s) ∉ d.keys) :
    ∃ e, convertPrimeMoeLayerToHf i d = .ok e ∧
      (∀ c, slotToHf i c (d.part slot c) = .ok (e.part slot c)) ∧
      ∀ p s, isTrainingSuffix ("mlp" :: p :: s) = true → e.get? (inLayer i ("mlp" :: p :: s)) = none := by
  have hfresh' : ∀ c p s, inLayer i ("mixer" :: p :: s) ∉ (d.part slot c).keys := by
    intro c p s h
    exact hfresh p s (Dict.mem_keys_part slot |>.1 h).2
  obtain ⟨e₁, hgate, -, hgone₁, -⟩ := moveIfPresent_spec (d := d.part slot .gate)
    (show inLayer i ["mlp", "router", "gate"] ≠ inLayer i ["mixer", "gate", "weight"] by simp)
    (hfresh' .gate "gate" ["weight"])
  obtain ⟨e₂, hbias, -, hgone₂, -⟩ := moveIfPresent_spec (d := d.part slot .bias)
    (show inLayer i ["mlp", "router", "e_score_correction_bias"] ≠
      inLayer i ["mixer", "gate", "e_score_correction_bias"] by simp) (hfresh' .bias "gate" ["e_score_correction_bias"])
  obtain ⟨e₃, hexperts, -, -, hgone₃, -⟩ := slotToHf_experts ((Dict.get?_part_self slot d _).trans hw₁)
    ((Dict.get?_part_self slot d _).trans hw₂) (hfresh' .experts)
  -- the three renamings leave nothing under their old prefix
  have hrename : ∀ c (a b : Key), (∀ p s, inLayer i b ++ p :: s ∉ (d.part slot c).keys) →
      (∀ p s, Key.under b (a ++ p :: s) = false) →
      ∃ e, renameKeys (inLayer i a) (inLayer i b) (d.part slot c) = .ok e ∧
        ∀ p s, e.get? (inLayer i a ++ p :: s) = none := by
    intro c a b hb hab
    obtain ⟨e, he, -, hgone, -⟩ := renameKeys_spec (inLayer i a) hb
    exact ⟨e, he, fun p s => hgone _ ((under_inLayer i b _).trans (hab p s)) (Key.under_append _ p s)⟩
  obtain ⟨e₄, hshared, hgone₄⟩ := hrename .shared ["mlp", "shared_expert"] ["mixer", "shared_experts"]
    (fun p s => hfresh' _ _ _) fun _ _ => rfl
  obtain ⟨e₅, hfc1, hgone₅⟩ := hrename .fc1 ["mlp", "fc1_latent_proj"] ["mixer", "fc1_latent_proj"]
    (fun p s => hfresh' _ _ _) fun _ _ => rfl
  obtain ⟨e₆, hfc2, hgone₆⟩ := hrename .fc2 ["mlp", "fc2_latent_proj"] ["mixer", "fc2_latent_proj"]
    (fun p s => hfresh' _ _ _) fun _ _ => rfl
  obtain ⟨e, he, hparts⟩ := splits_convertPrimeMoeLayerToHf i d fun c => by
    cases c with
    | gate => exact ⟨e₁, hgate⟩
    | bias => exact ⟨e₂, hbias⟩
    | experts => exact ⟨e₃, hexperts⟩
    | shared => exact ⟨e₄, hshared⟩
    | fc1 => exact ⟨e₅, hfc1⟩
    | fc2 => exact ⟨e₆, hfc2⟩
    | other => exact ⟨_, rfl⟩
  refine ⟨e, he, hparts, fun p s hs => ?_⟩
  have hpart : ∀ c e', slotToHf i c (d.part slot c) = .ok e' → ∀ k, slot k = c → e.get? k = e'.get? k := by
    intro c e' he' k hk
    have heq := (hparts c).symm.trans he'
    cases heq
    rw [Dict.get?_part, if_pos hk]
  unfold isTrainingSuffix at hs
  simp only [Bool.or_eq_true, decide_eq_true_eq, List.mem_cons, List.not_mem_nil, or_false] at hs
  obtain ((((hs | hs) | hs | hs | hs | hs | hs) | hs) | hs) | hs := hs
  · cases hs
  · cases hs
  · rw [hs]
    exact (hpart .gate e₁ hgate _ rfl).trans hgone₁
  · rw [hs]
    exact (hpart .bias e₂ hbias _ rfl).trans hgone₂
  · rw [hs]
    exact (hpart .experts e₃ hexperts _ rfl).trans (hgone₃ "w1" (by simp))
  · rw [hs]
    exact (hpart .experts e₃ hexperts _ rfl).trans (hgone₃ "w2" (by simp))
  · rw [hs]
    exact (hpart .experts e₃ hexperts _ rfl).trans (hgone₃ "w3" (by simp))
  · obtain ⟨p', s', heq⟩ := Key.under_iff.1 hs
    rw [heq]
    exact (hpart .shared e₄ hshared _ rfl).trans (hgone₄ p' s')
  · obtain ⟨p', s', heq⟩ := Key.under_iff.1 hs
    rw [heq]
    exact (hpart .fc1 e₅ hfc1 _ rfl).trans (hgone₅ p' s')
  · obtain ⟨p', s', heq⟩ := Key.under_iff.1 hs
    rw [heq]
    exact (hpart .fc2 e₆ hfc2 _ rfl).trans (hgone₆ p' s')

end Layer

theorem isTrainingSuffix_cases {s : Key} (h : isTrainingSuffix s = true) :
    ∃ (t : LayerType) (p : Part) (s' : Key), s = t.module :: p :: s' := by
  unfold isTrainingSuffix at h
  simp only [Bool.or_eq_true, decide_eq_true_eq, List.mem_cons, List.not_mem_nil, or_false] at h
  obtain ((((h | h) | h | h | h | h | h) | h) | h) | h := h
  · obtain ⟨p, s', heq⟩ := Key.under_iff.1 h
    exact ⟨.mamba, p, s', heq⟩
  · obtain ⟨p, s', heq⟩ := Key.under_iff.1 h
    exact ⟨.attention, p, s', heq⟩
  · exact ⟨.moe, _, _, h⟩
  · exact ⟨.moe, _, _, h⟩
  · exact ⟨.moe, _, _, h⟩
  · exact ⟨.moe, _, _, h⟩
  · exact ⟨.moe, _, _, h⟩
  · obtain ⟨p, s', heq⟩ := Key.under_iff.1 h
    exact ⟨.moe, _, _, heq⟩
  · obtain ⟨p, s', heq⟩ := Key.under_iff.1 h
    exact ⟨.moe, _, _, heq⟩
  · obtain ⟨p, s', heq⟩ := Key.under_iff.1 h
    exact ⟨.moe, _, _, heq⟩

namespace TrainingDict

variable {types : List LayerType} {d : StateDict R}

theorem mem_part (h : TrainingDict types d) {i : Nat} {k : Key} (hk : k ∈ (d.part textCell (some i)).keys) :
    k ∈ d.keys ∧ ∃ p s, k = inLayer i (p :: s) := by
  obtain ⟨hcell, hk⟩ := (Dict.mem_keys_part textCell).1 hk
  refine ⟨hk, ?_⟩
  obtain ⟨p, s, rfl | rfl⟩ := textCell_eq_some.1 hcell
  · exact ⟨p, s, rfl⟩
  · have := h.notHf _ hk
    cases this

/-- **One layer** of a model: its conversion ends, stays in the layer and leaves no key of the training format. -/
theorem layer (h : TrainingDict types d) {i : Nat} {t : LayerType} (ht : types[i]? = some t) :
    ∃ e, convertPrimeLayerToHf i t (d.part textCell (some i)) = .ok e ∧ (∀ k ∈ e.keys, ∃ p s, k = inLayer i (p :: s)) ∧
      ∀ s, isTrainingSuffix s = true → e.get? (inLayer i s) = none := by
  have hfresh : ∀ p s, inLayer i ("mixer" :: p :: s) ∉ (d.part textCell (some i)).keys :=
    fun p s hk => h.noMixer i p s (h.mem_part hk).1
  have hother : ∀ t', t' ≠ t → ∀ p s, (d.part textCell (some i)).get? (inLayer i (t'.module :: p :: s)) = none := by
    intro t' ht' p s
    rw [Dict.get?_eq_none_iff]
    exact fun hk => h.only i t t' ht ht' p s (h.mem_part hk).1
  have hrename : ∀ t' : LayerType, t' = t → t' ≠ .moe →
      ∃ e, renameKeys (inLayer i [t'.module]) (inLayer i ["mixer"]) (d.part textCell (some i)) = .ok e ∧
        ∀ s, isTrainingSuffix s = true → e.get? (inLayer i s) = none := by
    intro t' ht' hmoe
    subst ht'
    obtain ⟨e, he, -, hgone, hsame⟩ := renameKeys_spec (inLayer i [t'.module])
      (show ∀ p s, inLayer i ["mixer"] ++ p :: s ∉ (d.part textCell (some i)).keys from hfresh)
    refine ⟨e, he, fun s hs => ?_⟩
    obtain ⟨t'', p, s', rfl⟩ := isTrainingSuffix_cases hs
    have hmixer : Key.under (inLayer i ["mixer"]) (inLayer i (t''.module :: p :: s')) = false := by
      rw [under_inLayer]
      cases t'' <;> rfl
    by_cases ht'' : t'' = t'
    · subst ht''
      exact hgone _ hmixer (Key.under_append (inLayer i [t''.module]) p s')
    · rw [hsame _ hmixer, hother t'' ht'']
      rw [under_inLayer]
      cases t' <;> cases t'' <;> first | rfl | exact absurd rfl ht''
  have hend : ∃ e, convertPrimeLayerToHf i t (d.part textCell (some i)) = .ok e ∧
      ∀ s, isTrainingSuffix s = true → e.get? (inLayer i s) = none := by
    cases t with
    | mamba => exact hrename .mamba rfl (by decide)
    | attention => exact hrename .attention rfl (by decide)
    | moe =>
        obtain ⟨us, vs, hw₁, hw₂⟩ := h.experts i ht
        obtain ⟨e, he, hparts, hmlp⟩ := convertPrimeMoeLayerToHf_spec (d := d.part textCell (some i))
          ((Dict.get?_part_self textCell d _).trans hw₁) ((Dict.get?_part_self textCell d _).trans hw₂) hfresh
        refine ⟨e, he, fun s hs => ?_⟩
        obtain ⟨t', p, s', rfl⟩ := isTrainingSuffix_cases hs
        by_cases ht' : t' = .moe
        · subst ht'
          exact hmlp p s' hs
        · -- the keys of other types are in no slot
          have hslot : slot (inLayer i (t'.module :: p :: s')) = .other := by
            cases t' with
            | mamba => rfl
            | attention => rfl
            | moe => exact absurd rfl ht'
          have hpart : (d.part textCell (some i)).part slot .other = e.part slot .other :=
            Except.ok.inj (hparts .other)
          rw [← Dict.get?_part_self slot, hslot, ← hpart, ← hslot, Dict.get?_part_self, hother t' ht']
  obtain ⟨e, he, htraining⟩ := hend
  refine ⟨e, he, fun k hk => ?_, htraining⟩
  by_contra hout
  have hunder : Key.under (inLayer i []) k = false := by
    by_contra hin
    obtain ⟨p, s, rfl⟩ := Key.under_iff.1 (by simpa using hin)
    exact hout ⟨p, s, rfl⟩
  have hconfined := confined_convertPrimeLayerToHf (R := R) (i := i) (P := Key.under (inLayer i []))
    (fun p s => Key.under_append _ p s) t
  have hget := hconfined.get?_eq he hunder
  obtain ⟨u, hu⟩ := Dict.mem_keys_iff.1 hk
  rw [hu] at hget
  exact hout (h.mem_part (Dict.mem_keys_iff.2 ⟨u, hget.symm⟩)).2

end TrainingDict

/-! ## All layers -/

theorem filter_zipIdx {α : Type} (l : List α) (n i : Nat) :
    (l.zipIdx n).filter (fun p => some p.2 = some i) = if n ≤ i then (l[i - n]?.map (·, i)).toList else [] := by
  induction l generalizing n with
  | nil => simp
  | cons a l ih =>
      rw [List.zipIdx_cons, List.filter_cons, ih]
      by_cases hn : n = i
      · subst hn
        simp
      · by_cases hlt : n < i
        · have hsub : i - n = (i - (n + 1)) + 1 := by omega
          rw [if_neg (by simpa using hn), if_pos (by omega), if_pos (by omega), hsub, List.getElem?_cons_succ]
        · rw [if_neg (by simpa using hn), if_neg (by omega), if_neg (by omega)]

/-- What the conversion of all weights does in a cell. -/
def cellToHf (types : List LayerType) (c : Option Nat) (d : StateDict R) : Except PyException (StateDict R) :=
  (if c = none then globalToHf d else .ok d) >>= fun d =>
    (types.zipIdx.filter (some ·.2 = c)).foldlM (fun d p => convertPrimeLayerToHf p.2 p.1 d) d >>=
      renameKeys ["model"] ["backbone"]

theorem splits_convertPrimeToHf (types : List LayerType) :
    Splits textCell (convertPrimeToHf types : StateDict R → _) (cellToHf types) := by
  have hglobal : Confined (fun k => textCell k = none) (globalToHf : StateDict R → _) :=
    (confined_moveIfPresent rfl rfl).bind (confined_moveIfPresent rfl rfl)
  have hlayers : Splits textCell
      (fun d : StateDict R => types.zipIdx.foldlM (fun d p => convertPrimeLayerToHf p.2 p.1 d) d)
      fun c d => (types.zipIdx.filter (some ·.2 = c)).foldlM (fun d p => convertPrimeLayerToHf p.2 p.1 d) d :=
    Splits.foldlM fun p _ => confined_convertPrimeLayerToHf (fun _ _ => decide_eq_true rfl) p.1
  have hroot : Splits textCell (renameKeys ["model"] ["backbone"] : StateDict R → _) fun _ =>
      renameKeys ["model"] ["backbone"] := splits_renameKeys fun p s => textCell_backbone (p :: s)
  exact (Splits.of_confined hglobal).comp (hlayers.comp hroot)

/-- A key of the training format, also where the root has been renamed already. -/
def IsTrainingKey (k : Key) : Prop :=
  Key.under ["model"] k = true ∨
    ∃ i s, k = .name "backbone" :: .name "layers" :: .index i :: s ∧ isTrainingSuffix s = true

namespace TrainingDict

variable {types : List LayerType} {d : StateDict R}

/-- A cell before its root is renamed: no key of the other format, and in the layers none of the training format. -/
theorem cell (h : TrainingDict types d) (c : Option Nat) :
    ∃ x e, (if c = none then globalToHf (d.part textCell c) else .ok (d.part textCell c)) >>= (fun d =>
        (types.zipIdx.filter (some ·.2 = c)).foldlM (fun d p => convertPrimeLayerToHf p.2 p.1 d) d) = .ok x ∧
      cellToHf types c (d.part textCell c) = .ok e ∧ renameKeys ["model"] ["backbone"] x = .ok e ∧
      (∀ p s, [.name "backbone"] ++ p :: s ∉ x.keys) ∧
      ∀ i s, c = some i → isTrainingSuffix s = true → x.get? (inLayer i s) = none := by
  have hbackbone : ∀ p s, .name "backbone" :: p :: s ∉ (d.part textCell c).keys := by
    intro p s hk
    have := h.notHf _ ((Dict.mem_keys_part textCell).1 hk).2
    cases this
  have hend : ∃ x, (if c = none then globalToHf (d.part textCell c) else .ok (d.part textCell c)) >>= (fun d =>
      (types.zipIdx.filter (some ·.2 = c)).foldlM (fun d p => convertPrimeLayerToHf p.2 p.1 d) d) = .ok x ∧
      (∀ p s, [.name "backbone"] ++ p :: s ∉ x.keys) ∧
      ∀ i s, c = some i → isTrainingSuffix s = true → x.get? (inLayer i s) = none := by
    cases c with
    | none =>
        have hfilter : types.zipIdx.filter (some ·.2 = (none : Option Nat)) = [] :=
          List.filter_eq_nil_iff.2 fun p _ => by simp
        obtain ⟨d₁, h₁⟩ := moveIfPresent_ok ["model", "embed_tokens", "weight"] ["model", "embeddings", "weight"]
          (d.part textCell none)
        obtain ⟨d₂, h₂⟩ := moveIfPresent_ok ["model", "norm", "weight"] ["model", "norm_f", "weight"] d₁
        refine ⟨d₂, ?_, fun p s hk => ?_, fun i s hi => by cases hi⟩
        · rw [if_pos rfl, hfilter]
          unfold globalToHf
          rw [h₁, ok_bind, h₂]
          rfl
        · -- the moves are between keys of the model
          have hmove : ∀ a b (x x' : StateDict R), moveIfPresent ("model" :: a) ("model" :: b) x = .ok x' →
              x'.get? (.name "backbone" :: p :: s) = x.get? (.name "backbone" :: p :: s) := fun a b x x' hx =>
            (confined_moveIfPresent (P := fun k => k.head? = some (.name "model")) (decide_eq_true rfl)
              (decide_eq_true rfl)).get?_eq hx rfl
          rw [List.singleton_append, Dict.mem_keys_iff, hmove _ _ _ _ h₂, hmove _ _ _ _ h₁, ← Dict.mem_keys_iff] at hk
          exact hbackbone p s hk
    | some i =>
        have hif : (if (some i : Option Nat) = none then globalToHf (d.part textCell (some i))
            else .ok (d.part textCell (some i))) = .ok (d.part textCell (some i)) := if_neg (by simp)
        rw [hif, ok_bind, filter_zipIdx, if_pos (Nat.zero_le i), Nat.sub_zero]
        cases ht : types[i]? with
        | none =>
            refine ⟨_, rfl, hbackbone, fun j s hj hs => ?_⟩
            rw [Dict.get?_eq_none_iff]
            intro hk
            obtain ⟨hk, p, s', heq⟩ := h.mem_part hk
            obtain ⟨i', p', s'', hi', heq'⟩ := h.inLayers _ hk (heq ▸ rfl)
            cases hj
            obtain ⟨rfl, -⟩ : i = i' ∧ s = p' :: s'' := by simpa using heq'
            rw [List.getElem?_eq_getElem hi'] at ht
            cases ht
        | some t =>
            obtain ⟨e, he, hkeys, htraining⟩ := h.layer ht
            refine ⟨e, ?_, fun p s hk => ?_, fun j s hj hs => ?_⟩
            · show convertPrimeLayerToHf i t _ >>= (fun d => .ok d) = _
              rw [bind_ok, he]
            · obtain ⟨p', s', heq⟩ := hkeys _ hk
              simp at heq
            · cases hj
              exact htraining s hs
  obtain ⟨x, hx, hfresh, htraining⟩ := hend
  obtain ⟨e, he⟩ := renameKeys_ok ["model"] ["backbone"] x
  refine ⟨x, e, hx, ?_, he, hfresh, htraining⟩
  rw [← he]
  refine Eq.trans ?_ (congrArg (· >>= renameKeys ["model"] ["backbone"]) hx)
  unfold cellToHf
  cases (if c = none then globalToHf (d.part textCell c) else .ok (d.part textCell c)) <;> rfl

/-- In a layer the two roots may as well be renamed with what follows them. -/
theorem renameKeys_layers {e : StateDict R} {i : Nat} (h : ∀ k ∈ e.keys, ∃ p s, k = inLayer i (p :: s)) :
    renameKeys ["model", "layers"] ["backbone", "layers"] e = renameKeys ["model"] ["backbone"] e := by
  have hall : ∀ pre : Key, (∀ p s, Key.under pre (inLayer i (p :: s)) = true) → e.keys.filter (Key.under pre) = e.keys := by
    intro pre hpre
    rw [List.filter_eq_self]
    intro k hk
    obtain ⟨p, s, rfl⟩ := h k hk
    exact hpre p s
  unfold renameKeys
  rw [hall ["model", "layers"] fun _ _ => rfl, hall ["model"] fun _ _ => rfl]
  refine foldlM_congr fun k hk d => ?_
  obtain ⟨p, s, rfl⟩ := h k hk
  rfl

/-- The class method converts each part as the conversion of all weights does. -/
theorem preprocess_eq (h : TrainingDict types d) (revert : StateDict R → StateDict R) {c : Option Nat}
    (hc : ∀ i, c = some i → i < types.length) :
    preprocessLayerCheckpoint modelClass revert (d.part textCell c) c = cellToHf types c (d.part textCell c) := by
  have hprime : isPrimeStateDict (d.part textCell c) = true := by
    unfold isPrimeStateDict
    rw [List.any_eq_true]
    cases c with
    | none =>
        refine ⟨_, (Dict.mem_keys_part textCell).2 ⟨rfl, h.embed⟩, ?_⟩
        decide
    | some i =>
        obtain ⟨t, ht⟩ : ∃ t, types[i]? = some t := ⟨_, List.getElem?_eq_getElem (hc i rfl)⟩
        obtain ⟨p, s, hk⟩ := h.own i t ht
        have hmem : ∀ k ∈ d.keys, textCell k = some i → k ∈ (d.part textCell (some i)).keys :=
          fun k hk hcell => (Dict.mem_keys_part textCell).2 ⟨hcell, hk⟩
        cases t with
        | mamba =>
            refine ⟨_, hmem _ hk rfl, ?_⟩
            have : Key.mentions (inLayer i ("mamba" :: p :: s)) "mamba." = true :=
              Key.mentions_middle (b := [.name "mamba"]) (by simp) (by simp) (List.cons_ne_nil p s) rfl
            show (Key.mentions (inLayer i ("mamba" :: p :: s)) "mamba." || _ || _ || _ || _) = true
            rw [this]
            rfl
        | attention =>
            refine ⟨_, hmem _ hk rfl, ?_⟩
            have : Key.mentions (inLayer i ("self_attn" :: p :: s)) "self_attn." = true :=
              Key.mentions_middle (b := [.name "self_attn"]) (by simp) (by simp) (List.cons_ne_nil p s) rfl
            show (_ || _ || Key.mentions (inLayer i ("self_attn" :: p :: s)) "self_attn." || _ || _) = true
            rw [this]
            simp
        | moe =>
            obtain ⟨us, -, hw₁, -⟩ := h.experts i ht
            refine ⟨_, hmem _ (Dict.mem_keys_iff.2 ⟨_, hw₁⟩) rfl, ?_⟩
            have : Key.mentions (inLayer i ["mlp", "experts", "w1"]) "mlp.experts.w1" = true :=
              Key.mentions_end (by simp) (by simp) rfl
            rw [this]
            simp
  unfold preprocessLayerCheckpoint
  show (if isPrimeStateDict (d.part textCell c) = true then convertLayerToHf c (d.part textCell c) else _) = _
  rw [if_pos hprime]
  cases c with
  | none =>
      have hfilter : types.zipIdx.filter (some ·.2 = (none : Option Nat)) = [] :=
        List.filter_eq_nil_iff.2 fun p _ => by simp
      unfold cellToHf
      rw [hfilter]
      rfl
  | some i =>
      obtain ⟨t, ht⟩ : ∃ t, types[i]? = some t := ⟨_, List.getElem?_eq_getElem (hc i rfl)⟩
      obtain ⟨e, he, hkeys, -⟩ := h.layer ht
      have hinfer : inferLayerTypePrime (d.part textCell (some i)).keys i = t := by
        obtain ⟨p, s, hk⟩ := h.own i t ht
        refine inferLayerTypePrime_eq ⟨p, s, (Dict.mem_keys_part textCell).2 ⟨rfl, hk⟩⟩ fun t' ht' p s hk => ?_
        exact h.only i t t' ht ht' p s (h.mem_part hk).1
      unfold convertLayerToHf cellToHf
      dsimp only
      rw [hinfer, he, if_neg (by simp), filter_zipIdx, if_pos (Nat.zero_le i), Nat.sub_zero, ht, ok_bind, ok_bind]
      show _ = convertPrimeLayerToHf i t _ >>= (fun d => .ok d) >>= renameKeys ["model"] ["backbone"]
      rw [bind_ok, he, ok_bind]
      exact renameKeys_layers hkeys

/-- A renamed cell keeps no key of the training format. -/
theorem not_isTrainingKey (h : TrainingDict types d) {c : Option Nat} {e : StateDict R}
    (he : cellToHf types c (d.part textCell c) = .ok e) {k : Key} (hk : k ∈ e.keys) (hc : textCell k = c) :
    ¬ IsTrainingKey k := by
  obtain ⟨x, e', -, he', hrename, hfresh, htraining⟩ := h.cell c
  obtain rfl : e = e' := Except.ok.inj (he.symm.trans he')
  obtain ⟨e', he', hmoved, hgone, -⟩ := renameKeys_spec ["model"] hfresh
  obtain rfl : e = e' := Except.ok.inj (hrename.symm.trans he')
  obtain ⟨t, ht⟩ := Dict.mem_keys_iff.1 hk
  rintro (hmodel | ⟨i, s, rfl, hs⟩)
  · obtain ⟨p, s, rfl⟩ := Key.under_iff.1 hmodel
    rw [hgone _ rfl hmodel] at ht
    cases ht
  · obtain ⟨t', p, s', rfl⟩ := isTrainingSuffix_cases hs
    have hget := hmoved (.name "layers") (.index i :: t'.module :: p :: s')
    have hnone := htraining i (t'.module :: p :: s') hc.symm hs
    rw [List.singleton_append] at hget
    rw [hget] at ht
    exact absurd (ht.symm.trans hnone) (by simp)

/-- **Layer by layer** is all at once, for a model with layers of these types. -/
theorem sentAsWhole (h : TrainingDict types d) (hne : types ≠ []) (revert : StateDict R → StateDict R) :
    SentAsWhole modelClass revert IsTrainingKey d := by
  have hok : ∀ c, ∃ e, cellToHf types c (d.part textCell c) = .ok e := by
    intro c
    obtain ⟨x, e, -, he, -⟩ := h.cell c
    exact ⟨e, he⟩
  have hhigh : ∀ i, types.length ≤ i → ∀ e, cellToHf types (some i) (d.part textCell (some i)) = .ok e → e.keys = [] := by
    intro i hi e he
    have hempty : (d.part textCell (some i)).keys = [] := by
      refine List.eq_nil_iff_forall_not_mem.2 fun k hk => ?_
      obtain ⟨hk, p, s, rfl⟩ := h.mem_part hk
      obtain ⟨i', p', s', hi', heq⟩ := h.inLayers _ hk rfl
      obtain ⟨rfl, -⟩ : i = i' ∧ p :: s = p' :: s' := by simpa using heq
      omega
    unfold cellToHf at he
    rw [if_neg (by simp), ok_bind, filter_zipIdx, if_pos (Nat.zero_le i), Nat.sub_zero,
      List.getElem?_eq_none hi] at he
    unfold renameKeys at he
    change (List.foldlM _ _ ((d.part textCell (some i)).keys.filter _)) = _ at he
    rw [hempty] at he
    cases he
    exact hempty
  have hconv : ∀ c ∈ cells types.length, ∀ e, cellToHf types c (d.part textCell c) = .ok e →
      ∃ e', preprocessLayerCheckpoint modelClass revert (d.part textCell c) c = .ok e' ∧ ∀ k, e'.get? k = e.get? k := by
    intro c hc e he
    exact ⟨e, (h.preprocess_eq revert (mem_cells.1 hc)).trans he, fun _ => rfl⟩
  obtain ⟨whole, parts, hwhole, hparts, hunion⟩ := isUnion_of_splits
    (fun c d => preprocessLayerCheckpoint modelClass revert d c) (splits_convertPrimeToHf types) hok hhigh hconv
  refine ⟨whole, parts, ?_, ?_, hunion, fun k hk => ?_⟩
  · show inferLayersBlockType d >>= (fun types => convertPrimeToHf types d) = _
    rw [h.inferLayersBlockType_eq hne]
    exact hwhole
  · exact (layerParts_eq (h.getMaxLayerNum_eq hne) h.part_none h.part_some).trans hparts
  · obtain ⟨whole', hwhole', hcells⟩ := splits_convertPrimeToHf types d hok
    obtain rfl : whole = whole' := Except.ok.inj (hwhole.symm.trans hwhole')
    exact h.not_isTrainingKey (hcells (textCell k)) ((Dict.mem_keys_part textCell).2 ⟨rfl, hk⟩) rfl

end TrainingDict
end NemotronH
end AuroraRl.Weights
