import AuroraRl.Weights.QwenLayers

/-!
# Text models and vision models

* `textLayout` : a text model has the flat keys;
* `visionLayout` : in a vision model the language model is an attribute of its own, and the vision keys stay;
* `Qwen3Moe.sentAsWhole`, `Qwen35Moe.sentAsWhole` : what is sent layer by layer, for all three models.
-/

namespace AuroraRl.Weights

variable {R : Type}

/-- The layer of a flat key. -/
def layerOf : Key → Option Nat
  | .name "model" :: .name "layers" :: .index i :: _ :: _ => some i
  | _ => none

theorem layerOf_eq_some {k : Key} {i : Nat} : layerOf k = some i ↔ ∃ p s, k = inLayer i (p :: s) := by
  constructor
  · intro h
    unfold layerOf at h
    split at h
    · cases h
      exact ⟨_, _, rfl⟩
    · cases h
  · rintro ⟨p, s, rfl⟩
    rfl

def textLayout : KeyLayout R where
  layerPrefix := ["model", "layers"]
  IsFlat _ := True
  view k := k
  cell := layerOf
  toFlat := .ok
  fromFlat := .ok
  flat_layers _ := trivial
  view_layers _ := rfl
  cell_inLayer _ _ _ := rfl
  cell_eq_some _ := layerOf_eq_some.1
  cell_view _ := rfl
  splits_toFlat := Splits.pure
  splits_fromFlat := Splits.pure
  toFlat_spec _ := ⟨_, rfl, fun _ _ => rfl, fun _ _ => trivial⟩
  fromFlat_spec _ := ⟨_, rfl, fun _ _ => rfl, fun k _ => ⟨k, trivial, rfl⟩⟩

/-! ## Vision models -/

namespace Vision

/-- No key of the language model of a vision model. -/
def IsFlat (k : Key) : Prop := ∀ p s, k = .name "model" :: p :: s → p ≠ "language_model"

/-- The key in the vision model of a flat key; the vision keys stay. -/
def view : Key → Key
  | .name "model" :: p :: s =>
      if p = "visual" ∧ s ≠ [] then .name "model" :: p :: s else .name "model" :: .name "language_model" :: p :: s
  | k => k

/-- A key without the attribute of the language model. -/
def strip : Key → Key
  | .name "model" :: s => .name "model" :: s.dropWhile (· = .name "language_model")
  | k => k

theorem view_cases {k : Key} (h : IsFlat k) :
    (∃ p s, k = .name "model" :: p :: s ∧ p ≠ "language_model" ∧ ¬ (p = "visual" ∧ s ≠ []) ∧
      view k = .name "model" :: .name "language_model" :: p :: s) ∨
    (view k = k ∧ ∀ p s, k = .name "model" :: p :: s → p = "visual" ∧ s ≠ []) := by
  unfold view
  split
  · rename_i p s
    split_ifs with hvisual
    · refine .inr ⟨rfl, fun p' s' heq => ?_⟩
      cases heq
      exact hvisual
    · exact .inl ⟨p, s, rfl, h p s rfl, hvisual, rfl⟩
  · rename_i hother
    exact .inr ⟨rfl, fun p s heq => absurd heq (hother p s)⟩

theorem strip_of_isFlat {k : Key} (h : IsFlat k) : strip k = k := by
  unfold strip
  split
  · rename_i s
    cases s with
    | nil => rfl
    | cons p s => rw [List.dropWhile_cons_of_neg (by simpa using h p s rfl)]
  · rfl

theorem strip_language_model (s : Key) :
    strip (.name "model" :: .name "language_model" :: s) = strip (.name "model" :: s) := by
  simp [strip]

theorem strip_view {k : Key} (h : IsFlat k) : strip (view k) = strip k := by
  obtain ⟨p, s, rfl, -, -, heq⟩ | ⟨heq, -⟩ := view_cases h
  · rw [heq, strip_language_model]
  · rw [heq]

/-- The key in the vision model of a key of the language model. -/
theorem of_view_eq {k' : Key} (h : IsFlat k') {p : Part} {s : Key}
    (heq : view k' = .name "model" :: p :: s) :
    (p = "language_model" ∧ ∃ q s', s = q :: s' ∧ q ≠ "language_model" ∧ ¬ (q = "visual" ∧ s' ≠ [])) ∨
      (p = "visual" ∧ s ≠ []) := by
  obtain ⟨q, s', -, hq, hvisual, hview⟩ | ⟨hview, hkey⟩ := view_cases h
  · rw [hview] at heq
    cases heq
    exact .inl ⟨rfl, q, s', rfl, hq, hvisual⟩
  · rw [hview] at heq
    exact .inr (hkey p s heq)

section Remap

variable {d e : StateDict R}

theorem toFlat_spec (hshape : ∀ k ∈ d.keys, ∃ k', IsFlat k' ∧ k = view k') :
    ∃ e, Qwen35Moe.remapLmKeys ["model", "language_model"] ["model"] d = .ok e ∧
      (∀ k, IsFlat k → e.get? k = d.get? (view k)) ∧ ∀ k ∈ e.keys, IsFlat k := by
  have hmodel : ∀ p s, .name "model" :: p :: s ∈ d.keys →
      (p = "language_model" ∧ ∃ q s', s = q :: s' ∧ q ≠ "language_model" ∧ ¬ (q = "visual" ∧ s' ≠ [])) ∨
        (p = "visual" ∧ s ≠ []) := by
    intro p s hk
    obtain ⟨k', hflat, heq⟩ := hshape _ hk
    exact of_view_eq hflat heq.symm
  have hlisted : ∀ k, k ∈ d.keys.filter (fun k => Key.under ["model", "language_model"] k &&
      !Key.under ["model", "visual"] k) ↔ k ∈ d.keys ∧ ∃ q s, k = .name "model" :: .name "language_model" :: q :: s ∧
        q ≠ "language_model" ∧ ¬ (q = "visual" ∧ s ≠ []) := by
    intro k
    rw [List.mem_filter, Bool.and_eq_true, Bool.not_eq_true']
    constructor
    · rintro ⟨hk, hunder, -⟩
      obtain ⟨q, s, rfl⟩ := Key.under_iff.1 hunder
      obtain ⟨-, q', s', heq, hq, hvisual⟩ | ⟨heq, -⟩ := hmodel _ _ hk
      · cases heq
        exact ⟨hk, q, s, rfl, hq, hvisual⟩
      · exact absurd heq (by decide)
    · rintro ⟨hk, q, s, rfl, -⟩
      exact ⟨hk, rfl, rfl⟩
  obtain ⟨e, he, hmoved, hgone, hsame⟩ := foldlM_moveKey (d := d)
    (fun k => ([.name "model"] : Key) ++ k.drop (["model", "language_model"] : Key).length)
    (d.nodup.filter (fun k => Key.under ["model", "language_model"] k && !Key.under ["model", "visual"] k))
    (fun k hk => ((hlisted k).1 hk).1)
    (by
      intro k hk hmem
      obtain ⟨-, q, s, rfl, hq, hvisual⟩ := (hlisted k).1 hk
      obtain ⟨rfl, -⟩ | h := hmodel q s hmem
      · exact hq rfl
      · exact hvisual h)
    (by
      intro k hk k' hk' heq
      obtain ⟨-, q, s, rfl, -⟩ := (hlisted k).1 hk
      obtain ⟨-, q', s', rfl, -⟩ := (hlisted k').1 hk'
      cases heq
      rfl)
  refine ⟨e, he, fun k hflat => ?_, fun k hk p s heq => ?_⟩
  · obtain ⟨p, s, rfl, hp, hvisual, hview⟩ | ⟨hview, hkey⟩ := view_cases hflat
    · rw [hview]
      by_cases hmem : .name "model" :: .name "language_model" :: p :: s ∈ d.keys
      · exact hmoved _ ((hlisted _).2 ⟨hmem, p, s, rfl, hp, hvisual⟩)
      · rw [hsame, Dict.get?_eq_none_iff.2 hmem, Dict.get?_eq_none_iff]
        · intro hk
          obtain ⟨rfl, -⟩ | h := hmodel p s hk
          · exact hp rfl
          · exact hvisual h
        · intro hk
          obtain ⟨-, q, s', heq, -⟩ := (hlisted _).1 hk
          cases heq
          exact hp rfl
        · intro k' hk' heq
          obtain ⟨hk', q, s', rfl, -⟩ := (hlisted k').1 hk'
          cases heq
          exact hmem hk'
    · rw [hview, hsame]
      · intro hk
        obtain ⟨-, q, s, rfl, -⟩ := (hlisted k).1 hk
        exact hflat _ _ rfl rfl
      · intro k' hk' heq
        obtain ⟨-, q, s, rfl, -, hvisual⟩ := (hlisted k').1 hk'
        exact hvisual (hkey q s heq.symm)
  · rintro rfl
    subst heq
    have htarget : ∀ k' ∈ d.keys.filter (fun k => Key.under ["model", "language_model"] k &&
        !Key.under ["model", "visual"] k), ([.name "model"] : Key) ++
          k'.drop (["model", "language_model"] : Key).length ≠ .name "model" :: .name "language_model" :: s := by
      intro k' hk' heq
      obtain ⟨-, q, s', rfl, hq, -⟩ := (hlisted k').1 hk'
      cases heq
      exact hq rfl
    obtain ⟨t, ht⟩ := Dict.mem_keys_iff.1 hk
    by_cases hmem : .name "model" :: .name "language_model" :: s ∈ d.keys
    · obtain ⟨-, q, s', rfl, hq, hvisual⟩ | ⟨heq, -⟩ := hmodel _ _ hmem
      · rw [hgone _ ((hlisted _).2 ⟨hmem, q, s', rfl, hq, hvisual⟩)] at ht
        cases ht
      · exact absurd heq (by decide)
    · rw [hsame _ (fun h => hmem ((hlisted _).1 h).1) htarget, Dict.get?_eq_none_iff.2 hmem] at ht
      cases ht

theorem fromFlat_spec (hflat : ∀ k ∈ e.keys, IsFlat k) :
    ∃ d, Qwen35Moe.remapLmKeys ["model"] ["model", "language_model"] e = .ok d ∧
      (∀ k, IsFlat k → d.get? (view k) = e.get? k) ∧ ∀ k ∈ d.keys, ∃ k', IsFlat k' ∧ k = view k' := by
  have hlisted : ∀ k, k ∈ e.keys.filter (fun k => Key.under ["model"] k && !Key.under ["model", "visual"] k) ↔
      k ∈ e.keys ∧ ∃ p s, k = .name "model" :: p :: s ∧ ¬ (p = "visual" ∧ s ≠ []) := by
    intro k
    rw [List.mem_filter, Bool.and_eq_true, Bool.not_eq_true']
    constructor
    · rintro ⟨hk, hunder, hvisual⟩
      obtain ⟨p, s, rfl⟩ := Key.under_iff.1 hunder
      refine ⟨hk, p, s, rfl, ?_⟩
      rintro ⟨rfl, hs⟩
      cases s with
      | nil => exact hs rfl
      | cons q s => cases hvisual
    · rintro ⟨hk, p, s, rfl, hvisual⟩
      refine ⟨hk, rfl, ?_⟩
      by_contra hunder
      obtain ⟨q, s', heq⟩ := Key.under_iff.1 (by simpa using hunder)
      cases heq
      exact hvisual ⟨rfl, List.cons_ne_nil q s'⟩
  have hview : ∀ (k : Key) (p : Part) (s : Key), k = .name "model" :: p :: s → ¬ (p = "visual" ∧ s ≠ []) →
      ([.name "model", .name "language_model"] : Key) ++ k.drop (["model"] : Key).length = view k := by
    rintro k p s rfl hvisual
    exact (if_neg hvisual).symm
  obtain ⟨d, hd, hmoved, hgone, hsame⟩ := foldlM_moveKey (d := e)
    (fun k => ([.name "model", .name "language_model"] : Key) ++ k.drop (["model"] : Key).length)
    (e.nodup.filter (fun k => Key.under ["model"] k && !Key.under ["model", "visual"] k))
    (fun k hk => ((hlisted k).1 hk).1)
    (by
      intro k hk hmem
      exact hflat _ hmem _ _ rfl rfl)
    (by
      intro k hk k' hk' heq
      obtain ⟨-, p, s, rfl, -⟩ := (hlisted k).1 hk
      obtain ⟨-, p', s', rfl, -⟩ := (hlisted k').1 hk'
      cases heq
      rfl)
  refine ⟨d, hd, fun k hk => ?_, fun k hk => ?_⟩
  · obtain ⟨p, s, rfl, hp, hvisual, heq⟩ | ⟨heq, hkey⟩ := view_cases hk
    · by_cases hmem : .name "model" :: p :: s ∈ e.keys
      · rw [← hview _ p s rfl hvisual]
        exact hmoved _ ((hlisted _).2 ⟨hmem, p, s, rfl, hvisual⟩)
      · have hlm : .name "model" :: .name "language_model" :: p :: s ∉ e.keys := fun h => hflat _ h _ _ rfl rfl
        rw [heq, hsame, Dict.get?_eq_none_iff.2 hmem, Dict.get?_eq_none_iff.2 hlm]
        · exact fun h => hlm ((hlisted _).1 h).1
        · intro k' hk' hk''
          obtain ⟨hk', p', s', rfl, -⟩ := (hlisted k').1 hk'
          cases hk''
          exact hmem hk'
    · rw [heq, hsame]
      · intro hlist
        obtain ⟨-, p, s, hk', hvisual⟩ := (hlisted k).1 hlist
        exact hvisual (hkey p s hk')
      · rintro k' - rfl
        exact hk _ _ rfl rfl
  · by_cases hlist : ∃ k' ∈ e.keys.filter (fun k => Key.under ["model"] k && !Key.under ["model", "visual"] k),
      ([.name "model", .name "language_model"] : Key) ++ k'.drop (["model"] : Key).length = k
    · obtain ⟨k', hk', rfl⟩ := hlist
      obtain ⟨hmem, p, s, heq, hvisual⟩ := (hlisted k').1 hk'
      exact ⟨k', hflat k' hmem, hview k' p s heq hvisual⟩
    · obtain ⟨t, ht⟩ := Dict.mem_keys_iff.1 hk
      by_cases hmem : k ∈ e.keys.filter (fun k => Key.under ["model"] k && !Key.under ["model", "visual"] k)
      · rw [hgone k hmem] at ht
        cases ht
      · rw [hsame k hmem fun k' hk' heq => hlist ⟨k', hk', heq⟩] at ht
        have hk' := Dict.mem_keys_iff.2 ⟨t, ht⟩
        refine ⟨k, hflat k hk', ?_⟩
        obtain ⟨p, s, rfl, -, hvisual, -⟩ | ⟨heq, -⟩ := view_cases (hflat k hk')
        · exact absurd ((hlisted _).2 ⟨hk', p, s, rfl, hvisual⟩) hmem
        · exact heq.symm

end Remap

end Vision

def visionLayout : KeyLayout R where
  layerPrefix := ["model", "language_model", "layers"]
  IsFlat := Vision.IsFlat
  view := Vision.view
  cell k := layerOf (Vision.strip k)
  toFlat := Qwen35Moe.remapLmKeys ["model", "language_model"] ["model"]
  fromFlat := Qwen35Moe.remapLmKeys ["model"] ["model", "language_model"]
  flat_layers _ := by
    rintro p s heq rfl
    simp at heq
  view_layers s := by simp [Vision.view]
  cell_inLayer i p s := by
    rw [Vision.strip_of_isFlat]
    · rfl
    · rintro q s' heq rfl
      simp at heq
  cell_eq_some h hcell := by
    rw [Vision.strip_of_isFlat h] at hcell
    exact layerOf_eq_some.1 hcell
  cell_view h := by rw [Vision.strip_view h]
  splits_toFlat := by
    refine Splits.keys fun k hk => ?_
    rw [Bool.and_eq_true] at hk
    obtain ⟨p, s, rfl⟩ := Key.under_iff.1 hk.1
    refine confined_moveKey (decide_eq_true rfl) (decide_eq_true ?_)
    exact congrArg layerOf (Vision.strip_language_model (p :: s)).symm
  splits_fromFlat := by
    refine Splits.keys fun k hk => ?_
    rw [Bool.and_eq_true] at hk
    obtain ⟨p, s, rfl⟩ := Key.under_iff.1 hk.1
    refine confined_moveKey (decide_eq_true rfl) (decide_eq_true ?_)
    exact congrArg layerOf (Vision.strip_language_model (p :: s))
  toFlat_spec := Vision.toFlat_spec
  fromFlat_spec := Vision.fromFlat_spec

/-! ## What is sent -/

namespace Qwen3Moe

def modelClass : ModelClass R := ⟨"qwen3_moe", hasStackedExperts, convertToHf, convertLayerToHf⟩

theorem sentAsWhole {n : Nat} {d : StateDict R} (h : TrainingDict textLayout layerConversion n d) (hn : n ≠ 0)
    {revert : StateDict R → StateDict R} (hrevert : ∀ e, hasStackedExperts e = false → revert e = e) :
    SentAsWhole modelClass revert (IsTrainingKey (R := R) textLayout layerConversion) d := by
  refine h.sentAsWhole hn rfl rfl ?_ (fun c _ => .inl ?_) hrevert
  · exact bind_ok.symm
  · refine Eq.trans ?_ bind_ok.symm
    cases c <;> rfl

end Qwen3Moe

namespace Qwen35Moe

/-- The class of the text model and of the vision model, by the type of its configuration. -/
def modelClass (modelType : String) : ModelClass R := ⟨modelType, hasStackedExperts, convertToHf, convertLayerToHf⟩

theorem sentAsWhole_text {n : Nat} {d : StateDict R} (h : TrainingDict textLayout layerConversion n d) (hn : n ≠ 0)
    (htext : hasVlmKeys d = false) {revert : StateDict R → StateDict R}
    (hrevert : ∀ e, hasStackedExperts e = false → revert e = e) :
    SentAsWhole (modelClass "qwen3_5_moe_text") revert (IsTrainingKey (R := R) textLayout layerConversion) d := by
  refine h.sentAsWhole hn rfl rfl ?_ (fun c _ => .inl ?_) hrevert
  · refine (if_neg (by simp [htext])).trans bind_ok.symm
  · have hpart : hasVlmKeys (d.part layerOf c) = false := by
      unfold hasVlmKeys at htext ⊢
      rw [List.any_eq_false] at htext ⊢
      exact fun k hk => htext k ((Dict.mem_keys_part layerOf).1 hk).2
    refine (if_neg (Bool.eq_false_iff.1 hpart)).trans (Eq.trans ?_ bind_ok.symm)
    cases c <;> rfl

theorem sentAsWhole_vision {n : Nat} {d : StateDict R} (h : TrainingDict visionLayout layerConversion n d) (hn : n ≠ 0)
    {revert : StateDict R → StateDict R} (hrevert : ∀ e, hasStackedExperts e = false → revert e = e) :
    SentAsWhole (modelClass "qwen3_5_moe") revert (IsTrainingKey (R := R) visionLayout layerConversion) d := by
  have hkey : ∀ i, i < n → ∃ k ∈ d.keys, Key.under ["model", "language_model"] k = true ∧
      visionLayout.cell (R := R) k = some i := by
    intro i hi
    obtain ⟨p, s, hk⟩ := h.occupied i hi
    refine ⟨_, hk, ?_, ?_⟩
    · rw [visionLayout.view_inLayer]
      rfl
    · rw [visionLayout.cell_view (visionLayout.flat_inLayer i _), visionLayout.cell_inLayer]
  refine h.sentAsWhole hn rfl rfl ?_ (fun c hc => ?_) hrevert
  · obtain ⟨k, hk, hunder, -⟩ := hkey 0 (Nat.pos_of_ne_zero hn)
    exact if_pos (List.any_eq_true.2 ⟨k, hk, hunder⟩)
  · cases c with
    | none =>
        by_cases hvlm : hasVlmKeys (d.part (visionLayout (R := R)).cell none) = true
        · exact .inl (if_pos hvlm)
        · exact .inr ⟨rfl, if_neg hvlm⟩
    | some i =>
        obtain ⟨k, hk, hunder, hcell⟩ := hkey i (mem_cells.1 hc i rfl)
        exact .inl (if_pos (List.any_eq_true.2 ⟨k, (Dict.mem_keys_part _).2 ⟨hcell, hk⟩, hunder⟩))

end Qwen35Moe

end AuroraRl.Weights
