import AuroraRl.Weights.Layers
import AuroraRl.Weights.QwenExperts

/-!
# The Qwen models layer by layer

* `KeyLayout` : how the keys of a model stand to the flat keys the converters work on;
* `TrainingDict` : the weights of a model with `n` layers in the training format;
* `splits_convertFlat` : the conversion of all weights acts on every layer by itself;
* `TrainingDict.sentAsWhole` : the parts are the whole, and nothing keeps its training key.
-/

namespace AuroraRl.Weights

variable {R : Type}

/-- The keys of a model, and the remapping around the conversion of the flat keys. -/
structure KeyLayout (R : Type) where
  layerPrefix : Key
  IsFlat : Key → Prop
  /-- The key in the model of a flat key. -/
  view : Key → Key
  cell : Key → Option Nat
  toFlat : StateDict R → Except PyException (StateDict R)
  fromFlat : StateDict R → Except PyException (StateDict R)
  flat_layers : ∀ s, IsFlat ([.name "model", .name "layers"] ++ s)
  view_layers : ∀ s, view ([.name "model", .name "layers"] ++ s) = layerPrefix ++ s
  cell_inLayer : ∀ i p s, cell (inLayer i (p :: s)) = some i
  cell_eq_some : ∀ {k i}, IsFlat k → cell k = some i → ∃ p s, k = inLayer i (p :: s)
  cell_view : ∀ {k}, IsFlat k → cell (view k) = cell k
  splits_toFlat : Splits cell toFlat fun _ => toFlat
  splits_fromFlat : Splits cell fromFlat fun _ => fromFlat
  toFlat_spec : ∀ {d}, (∀ k ∈ d.keys, ∃ k', IsFlat k' ∧ k = view k') →
    ∃ e, toFlat d = .ok e ∧ (∀ k, IsFlat k → e.get? k = d.get? (view k)) ∧ ∀ k ∈ e.keys, IsFlat k
  fromFlat_spec : ∀ {e}, (∀ k ∈ e.keys, IsFlat k) →
    ∃ d, fromFlat e = .ok d ∧ (∀ k, IsFlat k → d.get? (view k) = e.get? k) ∧ ∀ k ∈ d.keys, ∃ k', IsFlat k' ∧ k = view k'

namespace KeyLayout

variable (l : KeyLayout R)

theorem flat_inLayer (i : Nat) (s : Key) : l.IsFlat (inLayer i s) := l.flat_layers (.index i :: s)

theorem view_inLayer (i : Nat) (s : Key) : l.view (inLayer i s) = l.layerPrefix ++ .index i :: s :=
  l.view_layers (.index i :: s)

/-- The layer of a part; the weights outside the layers have none. -/
def onLayer (f : LayerConversion R) : Option Nat → StateDict R → Except PyException (StateDict R)
  | none => .ok
  | some i => f.convertLayer i

/-- The conversion of one part of the weights. -/
def convertPart (f : LayerConversion R) (c : Option Nat) (d : StateDict R) : Except PyException (StateDict R) :=
  l.toFlat d >>= fun d => onLayer f c d >>= l.fromFlat

/-- The conversion of all weights, `n` layers of them. -/
def convertFlat (f : LayerConversion R) (n : Nat) (d : StateDict R) : Except PyException (StateDict R) :=
  l.toFlat d >>= fun d => (List.range n).foldlM (fun d i => f.convertLayer i d) d >>= l.fromFlat

/-- What it does in a cell. -/
def convertCell (f : LayerConversion R) (n : Nat) (c : Option Nat) (d : StateDict R) :
    Except PyException (StateDict R) :=
  l.toFlat d >>= fun d => ((List.range n).filter (some · = c)).foldlM (fun d i => f.convertLayer i d) d >>= l.fromFlat

theorem splits_convertFlat (f : LayerConversion R) (n : Nat) :
    Splits l.cell (l.convertFlat f n) (l.convertCell f n) := by
  have hlayers : Splits l.cell (fun d : StateDict R => (List.range n).foldlM (fun d i => f.convertLayer i d) d)
      fun c d => ((List.range n).filter (some · = c)).foldlM (fun d i => f.convertLayer i d) d :=
    Splits.foldlM fun i _ => f.confined fun p s => decide_eq_true (l.cell_inLayer i p s)
  exact l.splits_toFlat.comp (hlayers.comp l.splits_fromFlat)

end KeyLayout

theorem filter_range_some (n i : Nat) : (List.range n).filter (some · = some i) = if i < n then [i] else [] := by
  induction n with
  | zero => rfl
  | succ n ih =>
      rw [List.range_succ, List.filter_append, ih]
      by_cases hi : n = i
      · subst hi
        simp
      · by_cases hlt : i < n
        · rw [if_pos hlt, if_pos (by omega)]
          simp [hi]
        · rw [if_neg hlt, if_neg (by omega)]
          simp [hi]

theorem filter_range_none (n : Nat) : (List.range n).filter (some · = (none : Option Nat)) = [] :=
  List.filter_eq_nil_iff.2 fun i _ => by simp

theorem mentions_layers (p : Part) (s : Key) :
    Key.mentions ([.name "model", .name "layers"] ++ p :: s) "model.layers." = true := by
  refine Key.mentions_iff.2 ⟨[], Key.text (p :: s), ?_⟩
  rw [Key.text_append (List.cons_ne_nil _ _) (List.cons_ne_nil p s)]
  rfl

/-- The weights of a model with `n` layers in the training format. -/
structure TrainingDict (l : KeyLayout R) (f : LayerConversion R) (n : Nat) (d : StateDict R) : Prop where
  shape : ∀ k ∈ d.keys, ∃ k', l.IsFlat k' ∧ k = l.view k'
  inLayers : ∀ k, l.IsFlat k → l.view k ∈ d.keys → k.mentions "model.layers." = true →
    ∃ i p s, i < n ∧ k = inLayer i (p :: s)
  occupied : ∀ i, i < n → ∃ p s, l.view (inLayer i (p :: s)) ∈ d.keys
  layer : ∀ i, i < n → f.IsLayer fun s => d.get? (l.view (inLayer i s))

/-- A weight of a layer under the name it has in the training format alone. -/
def IsTrainingKey (l : KeyLayout R) (f : LayerConversion R) (k : Key) : Prop :=
  ∃ i s, s ∈ f.training ∧ k = l.view (inLayer i s)

namespace TrainingDict

variable {l : KeyLayout R} {f : LayerConversion R} {n : Nat} {d : StateDict R}

theorem of_layers (h : TrainingDict l f n d) {p : Part} {s : Key}
    (hk : l.view ([.name "model", .name "layers"] ++ p :: s) ∈ d.keys) :
    ∃ i p' s', i < n ∧ p = .index i ∧ s = p' :: s' := by
  obtain ⟨i, p', s', hi, heq⟩ := h.inLayers _ (l.flat_layers _) hk (mentions_layers p s)
  obtain ⟨rfl, rfl⟩ : p = .index i ∧ s = p' :: s' := by simpa using heq
  exact ⟨i, p', s', hi, rfl, rfl⟩

theorem lt_of_mem (h : TrainingDict l f n d) {i : Nat} {s : Key} (hk : l.view (inLayer i s) ∈ d.keys) : i < n := by
  obtain ⟨j, p, s', hj, heq, -⟩ := h.of_layers hk
  cases heq
  exact hj

theorem last (h : TrainingDict l f n d) (hn : n ≠ 0) :
    ∃ i p s, i + 1 = n ∧ l.view (inLayer i (p :: s)) ∈ d.keys := by
  obtain ⟨p, s, hmem⟩ := h.occupied (n - 1) (by omega)
  exact ⟨n - 1, p, s, by omega, hmem⟩

theorem getMaxLayerNum_eq (h : TrainingDict l f n d) (hn : n ≠ 0) : getMaxLayerNum d l.layerPrefix = n := by
  obtain ⟨i, p, s, hi, hk⟩ := h.last hn
  rw [l.view_inLayer] at hk
  refine Weights.getMaxLayerNum_eq (fun k hk hunder => ?_) ⟨_, hk, i, _, hi, rfl⟩
  obtain ⟨p, s, rfl⟩ := Key.under_iff.1 hunder
  rw [← l.view_layers] at hk
  obtain ⟨i, p', s', hi, rfl, rfl⟩ := h.of_layers hk
  exact ⟨i, p', s', hi, rfl⟩

theorem part_some (h : TrainingDict l f n d) (i : Nat) :
    d.restrict (Key.under (l.layerPrefix ++ [.index i])) = d.part l.cell (some i) := by
  refine Dict.restrict_congr d fun k hk => ?_
  rw [Bool.eq_iff_iff, decide_eq_true_eq, Key.under_iff]
  constructor
  · rintro ⟨p, s, rfl⟩
    rw [List.append_assoc, List.singleton_append, ← l.view_inLayer, l.cell_view (l.flat_inLayer i _)]
    exact l.cell_inLayer i p s
  · intro hcell
    obtain ⟨k', hflat, rfl⟩ := h.shape k hk
    rw [l.cell_view hflat] at hcell
    obtain ⟨p, s, rfl⟩ := l.cell_eq_some hflat hcell
    exact ⟨p, s, by rw [l.view_inLayer, List.append_assoc, List.singleton_append]⟩

theorem part_none (h : TrainingDict l f n d) :
    d.restrict (fun k => !Key.under l.layerPrefix k) = d.part l.cell none := by
  refine Dict.restrict_congr d fun k hk => ?_
  rw [Bool.eq_iff_iff, decide_eq_true_eq, Bool.not_eq_true', Option.eq_none_iff_forall_ne_some]
  constructor
  · intro hunder i hi
    obtain ⟨k', hflat, rfl⟩ := h.shape k hk
    rw [l.cell_view hflat] at hi
    obtain ⟨p, s, rfl⟩ := l.cell_eq_some hflat hi
    rw [l.view_inLayer, Key.under_append] at hunder
    cases hunder
  · intro hnone
    by_contra hunder
    obtain ⟨p, s, rfl⟩ := Key.under_iff.1 (by simpa using hunder)
    rw [← l.view_layers] at hk hnone
    obtain ⟨i, p', s', hi, rfl, rfl⟩ := h.of_layers hk
    refine hnone i ?_
    rw [l.cell_view (l.flat_layers _)]
    exact l.cell_inLayer i p' s'

theorem maxLayerNum_eq (h : TrainingDict l f n d) (hn : n ≠ 0) {e : StateDict R}
    (hget : ∀ k, l.IsFlat k → e.get? k = d.get? (l.view k)) (hflat : ∀ k ∈ e.keys, l.IsFlat k) :
    maxLayerNum e = .ok n := by
  have hkeys : ∀ k, l.IsFlat k → (k ∈ e.keys ↔ l.view k ∈ d.keys) := by
    intro k hk
    rw [Dict.mem_keys_iff, Dict.mem_keys_iff, hget k hk]
  obtain ⟨i, p, s, hi, hk⟩ := h.last hn
  refine numLayers_eq (fun k hk => ?_) ⟨inLayer i (p :: s), List.mem_filter.2 ⟨?_, ?_⟩, i, _, hi, rfl⟩
  · obtain ⟨hk, hmentions⟩ := List.mem_filter.1 hk
    exact h.inLayers k (hflat k hk) ((hkeys k (hflat k hk)).1 hk) hmentions
  · exact (hkeys _ (l.flat_inLayer i _)).2 hk
  · exact mentions_layers (.index i) (p :: s)

/-- **One cell**: the flat weights before and after the conversion of its layer. -/
theorem cell (h : TrainingDict l f n d) (c : Option Nat) :
    ∃ e e' d', l.toFlat (d.part l.cell c) = .ok e ∧ l.convertCell f n c (d.part l.cell c) = .ok d' ∧
      (c ∈ cells n → l.convertPart f c (d.part l.cell c) = .ok d') ∧
      (∀ k, l.IsFlat k → e.get? k = (d.part l.cell c).get? (l.view k)) ∧
      (∀ k, l.IsFlat k → d'.get? (l.view k) = e'.get? k) ∧ (∀ k ∈ d'.keys, ∃ k', l.IsFlat k' ∧ k = l.view k') ∧
      ((∀ i, c = some i → n ≤ i ∨ (d.part l.cell c).get? (l.view (stackKey i "w1")) = none) → e' = e) ∧
      ∀ i s, c = some i → s ∈ f.training → e'.get? (inLayer i s) = none := by
  obtain ⟨e, he, hget, hflat⟩ := l.toFlat_spec (d := d.part l.cell c) fun k hk =>
    h.shape k ((Dict.mem_keys_part l.cell).1 hk).2
  have hend : ∃ e', ((List.range n).filter (some · = c)).foldlM (fun d i => f.convertLayer i d) e = .ok e' ∧
      (c ∈ cells n → KeyLayout.onLayer f c e = .ok e') ∧
      (∀ k ∈ e'.keys, l.IsFlat k) ∧
      ((∀ i, c = some i → n ≤ i ∨ (d.part l.cell c).get? (l.view (stackKey i "w1")) = none) → e' = e) ∧
      ∀ i s, c = some i → s ∈ f.training → e'.get? (inLayer i s) = none := by
    cases c with
    | none =>
        rw [filter_range_none]
        exact ⟨e, rfl, fun _ => rfl, hflat, fun _ => rfl, fun i s hi => by cases hi⟩
    | some i =>
        have hlayer : ∀ s, e.get? (inLayer i s) = d.get? (l.view (inLayer i s)) := by
          intro s
          rw [hget _ (l.flat_inLayer i s), Dict.get?_part, l.cell_view (l.flat_inLayer i s)]
          split_ifs with hcell
          · rfl
          · refine (Dict.get?_eq_none_iff.2 fun hk => hcell ?_).symm
            obtain ⟨j, p, s', -, -, rfl⟩ := h.of_layers hk
            exact l.cell_inLayer i p s'
        rw [filter_range_some]
        by_cases hi : i < n
        · have hIsLayer : f.IsLayer (e.layer i) := by
            have : e.layer i = fun s => d.get? (l.view (inLayer i s)) := funext hlayer
            rw [this]
            exact h.layer i hi
          obtain ⟨e', he', htraining⟩ := f.converted hIsLayer
          rw [if_pos hi]
          refine ⟨e', ?_, fun _ => he', fun k hk => ?_, fun hnone => ?_, fun j s hj hs => ?_⟩
          · show f.convertLayer i e >>= (fun d => .ok d) = _
            rw [bind_ok, he']
          · by_contra hout
            have hunder : Key.under (inLayer i []) k = false := by
              by_contra hin
              obtain ⟨p, s, rfl⟩ := Key.under_iff.1 (by simpa using hin)
              exact hout (l.flat_inLayer i (p :: s))
            have hsame := (f.confined (P := Key.under (inLayer i [])) fun p s => Key.under_append _ p s).get?_eq he' hunder
            rw [Dict.mem_keys_iff, hsame, ← Dict.mem_keys_iff] at hk
            exact hout (hflat k hk)
          · obtain hle | hw₁ := hnone i rfl
            · omega
            · have hsame := f.dense hIsLayer ((hget _ (l.flat_inLayer i _)).trans hw₁)
              exact Except.ok.inj (he'.symm.trans hsame)
          · cases hj
            exact htraining s hs
        · rw [if_neg hi]
          refine ⟨e, rfl, fun hmem => absurd (mem_cells.1 hmem i rfl) hi, hflat, fun _ => rfl, fun j s hj _ => ?_⟩
          cases hj
          rw [hlayer, Dict.get?_eq_none_iff]
          exact fun hk => hi (h.lt_of_mem hk)
  obtain ⟨e', he', hpart, hflat', hsame, htraining⟩ := hend
  obtain ⟨d', hd', hget', hkeys'⟩ := l.fromFlat_spec hflat'
  refine ⟨e, e', d', he, ?_, fun hc => ?_, hget, hget', hkeys', hsame, htraining⟩
  · unfold KeyLayout.convertCell
    rw [he, ok_bind, he', ok_bind, hd']
  · unfold KeyLayout.convertPart
    rw [he, ok_bind, hpart hc, ok_bind, hd']

/-- The stacked experts of a layer give the training format away. -/
theorem hasStackedExperts_of_get? {i : Nat} {e : StateDict R} {t : Tensor R}
    (h : e.get? (l.view (stackKey i "w1")) = some t) : hasStackedExperts e = true := by
  unfold hasStackedExperts
  rw [List.any_eq_true]
  refine ⟨_, Dict.mem_keys_iff.2 ⟨t, h⟩, ?_⟩
  have hsplit : l.view (stackKey i "w1") =
      (l.layerPrefix ++ [.index i]) ++ ([.name "mlp", .name "experts", .name "w1"] : Key) := by
    rw [l.view_inLayer, List.append_assoc]
    rfl
  rw [hsplit]
  exact Key.mentions_end (by simp) (by simp) rfl

/-- **Layer by layer** is all at once, for a class that converts the flat weights. -/
theorem sentAsWhole (h : TrainingDict l f n d) (hn : n ≠ 0) {m : ModelClass R} {revert : StateDict R → StateDict R}
    (hlayers : getLayerPrefix m.modelType = l.layerPrefix) (hprime : m.isPrimeStateDict = hasStackedExperts)
    (hwhole : m.convertToHf d = l.toFlat d >>= fun d => convertAllLayers f.convertLayer d >>= l.fromFlat)
    (hpart : ∀ c ∈ cells n, m.convertLayerToHf c (d.part l.cell c) = l.convertPart f c (d.part l.cell c) ∨
      c = none ∧ m.convertLayerToHf c (d.part l.cell c) = .ok (d.part l.cell c))
    (hrevert : ∀ e, hasStackedExperts e = false → revert e = e) :
    SentAsWhole m revert (IsTrainingKey l f) d := by
  have hok : ∀ c, ∃ e, l.convertCell f n c (d.part l.cell c) = .ok e := by
    intro c
    obtain ⟨-, -, d', -, hd', -⟩ := h.cell c
    exact ⟨d', hd'⟩
  have hhigh : ∀ i, n ≤ i → ∀ e, l.convertCell f n (some i) (d.part l.cell (some i)) = .ok e → e.keys = [] := by
    intro i hi e₀ he₀
    obtain ⟨e, e', d', -, hd', -, hget, hget', hkeys, hsame, -⟩ := h.cell (some i)
    obtain rfl : e₀ = d' := Except.ok.inj (he₀.symm.trans hd')
    obtain rfl := hsame fun j hj => .inl (by cases hj; exact hi)
    refine List.eq_nil_iff_forall_not_mem.2 fun k hk => ?_
    obtain ⟨k', hflat, rfl⟩ := hkeys k hk
    rw [Dict.mem_keys_iff, hget' k' hflat, hget k' hflat, ← Dict.mem_keys_iff] at hk
    obtain ⟨hcell, hk⟩ := (Dict.mem_keys_part l.cell).1 hk
    rw [l.cell_view hflat] at hcell
    obtain ⟨p, s, rfl⟩ := l.cell_eq_some hflat hcell
    exact absurd (h.lt_of_mem hk) (by omega)
  have hconv : ∀ c ∈ cells n, ∀ e, l.convertCell f n c (d.part l.cell c) = .ok e →
      ∃ e', preprocessLayerCheckpoint m revert (d.part l.cell c) c = .ok e' ∧ ∀ k, e'.get? k = e.get? k := by
    intro c hc e₀ he₀
    obtain ⟨e, e', d', -, hd', hpart', hget, hget', hkeys, hsame, -⟩ := h.cell c
    obtain rfl : e₀ = d' := Except.ok.inj (he₀.symm.trans hd')
    -- a part that is sent as it is
    have hstay : (∀ i, c = some i → (d.part l.cell c).get? (l.view (stackKey i "w1")) = none) →
        ∀ k, (d.part l.cell c).get? k = e₀.get? k := by
      intro hnone k
      obtain rfl := hsame fun i hi => .inr (hnone i hi)
      by_cases hview : ∃ k', l.IsFlat k' ∧ k = l.view k'
      · obtain ⟨k', hflat, rfl⟩ := hview
        rw [hget' k' hflat, hget k' hflat]
      · rw [Dict.get?_eq_none_iff.2 fun hk => hview (hkeys k hk), Dict.get?_eq_none_iff]
        exact fun hk => hview (h.shape k ((Dict.mem_keys_part l.cell).1 hk).2)
    unfold preprocessLayerCheckpoint
    rw [hprime]
    by_cases hstacked : hasStackedExperts (d.part l.cell c) = true
    · rw [if_pos hstacked]
      obtain heq | ⟨rfl, heq⟩ := hpart c hc
      · exact ⟨e₀, heq.trans (hpart' hc), fun _ => rfl⟩
      · exact ⟨_, heq, hstay fun i hi => by cases hi⟩
    · rw [if_neg hstacked, hrevert _ (by simpa using hstacked)]
      refine ⟨_, rfl, hstay fun i _ => ?_⟩
      by_contra hw₁
      obtain ⟨t, ht⟩ := Option.ne_none_iff_exists'.1 hw₁
      exact hstacked (hasStackedExperts_of_get? ht)
  obtain ⟨whole, parts, hw, hparts, hunion⟩ := isUnion_of_splits
    (fun c d => preprocessLayerCheckpoint m revert d c) (l.splits_convertFlat f n) hok hhigh hconv
  refine ⟨whole, parts, ?_, ?_, hunion, fun k hk => ?_⟩
  · obtain ⟨e, he, hget, hflat⟩ := l.toFlat_spec h.shape
    unfold KeyLayout.convertFlat at hw
    rw [he, ok_bind] at hw
    rw [hwhole, he, ok_bind]
    unfold convertAllLayers
    rw [h.maxLayerNum_eq hn hget hflat, ok_bind]
    exact hw
  · refine (layerParts_eq ?_ ?_ fun i => ?_).trans hparts
    · rw [hlayers]
      exact h.getMaxLayerNum_eq hn
    · rw [hlayers]
      exact h.part_none
    · rw [hlayers]
      exact h.part_some i
  · rintro ⟨i, s, hs, rfl⟩
    obtain ⟨whole', hwhole', hcells⟩ := l.splits_convertFlat f n d hok
    obtain rfl : whole = whole' := Except.ok.inj (hw.symm.trans hwhole')
    obtain ⟨e, e', d', -, hd', -, -, hget', -, -, htraining⟩ := h.cell (l.cell (l.view (inLayer i s)))
    have hmem := (Dict.mem_keys_part l.cell).2 ⟨rfl, hk⟩
    rw [Except.ok.inj ((hcells _).symm.trans hd'), Dict.mem_keys_iff, hget' _ (l.flat_inLayer i s)] at hmem
    obtain ⟨t, ht⟩ := hmem
    cases s with
    | nil => exact absurd hs f.nil_notMem
    | cons p s =>
        rw [htraining i (p :: s) ((l.cell_view (l.flat_inLayer i _)).trans (l.cell_inLayer i p s)) hs] at ht
        cases ht

end TrainingDict

end AuroraRl.Weights
