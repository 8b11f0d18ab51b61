import AuroraRl.Weights.QwenFormats
import AuroraRl.Weights.QwenLayers

/-!
# Qwen3-MoE, back and forth

* `FlatDict` : the weights of a model with `n` layers, in either format;
* `convertAllLayers_spec` : a conversion of every layer, one after the other;
* `convertToHf_spec`, `convertToPrime_spec` : every layer goes to its counterpart, and nothing else changes;
* `roundTrip_prime`, `roundTrip_hf` : both round trips.
-/

namespace AuroraRl.Weights.Qwen3Moe

variable {R : Type}

/-- The weights of a model with `n` layers of one format. -/
structure FlatDict (IsLayer : LayerWeights R → Prop) (n : Nat) (d : StateDict R) : Prop where
  inLayers : ∀ k ∈ d.keys, k.mentions "model.layers." = true → ∃ i p s, i < n ∧ k = inLayer i (p :: s)
  last : ∃ i p s, i + 1 = n ∧ inLayer i (p :: s) ∈ d.keys
  mentions : ∀ i, i < n → ∀ k ∈ d.keys, mentionsExperts i k = true → ∃ s, k = inLayer i ("mlp" :: "experts" :: s)
  layers : ∀ i, i < n → IsLayer (d.layer i)

theorem FlatDict.maxLayerNum_eq {IsLayer : LayerWeights R → Prop} {n : Nat} {d : StateDict R}
    (h : FlatDict IsLayer n d) : maxLayerNum d = .ok n := by
  obtain ⟨i, p, s, hi, hk⟩ := h.last
  refine numLayers_eq (fun k hk => ?_) ⟨_, List.mem_filter.2 ⟨hk, mentions_layers (.index i) (p :: s)⟩, i, _, hi, rfl⟩
  obtain ⟨hk, hmentions⟩ := List.mem_filter.1 hk
  exact h.inLayers k hk hmentions

/-- Of the experts of a layer, the key mentions those of its own alone. -/
def MentionsOwn (s : Key) : Prop :=
  'y' ∉ Key.text s ∧ ("mlp.experts".toList <+: Key.text s → ∃ s', s = (.name "mlp" :: .name "experts" :: s' : Key))

/-- A relation between layers, along which a conversion of one layer works. -/
structure Along (conv : Nat → StateDict R → Except PyException (StateDict R)) (IsSource IsTarget : LayerWeights R → Prop)
    (Rel : LayerWeights R → LayerWeights R → Prop) : Prop where
  converts : ∀ {i d}, IsSource (d.layer i) →
    (∀ k ∈ d.keys, mentionsExperts i k = true → ∃ s, k = inLayer i ("mlp" :: "experts" :: s)) →
    ∃ e, conv i d = .ok e ∧ Rel (d.layer i) (e.layer i) ∧ ∀ k, ¬ Affected i k → e.get? k = d.get? k
  target : ∀ {w w'}, Rel w w' → IsTarget w'
  plain : ∀ {w w'}, Rel w w' → ∀ s, Affected 0 (inLayer 0 s) → w' s ≠ none → w s ≠ none ∨ MentionsOwn s
  occupied : ∀ {w w'}, Rel w w' → (∃ p s, w (p :: s) ≠ none) → ∃ p s, w' (p :: s) ≠ none

section All

variable {conv : Nat → StateDict R → Except PyException (StateDict R)} {IsSource IsTarget : LayerWeights R → Prop}
  {Rel : LayerWeights R → LayerWeights R → Prop} {n : Nat} {d : StateDict R}

/-- `m` layers are converted, and nothing else has changed. -/
structure Converted (Rel : LayerWeights R → LayerWeights R → Prop) (d : StateDict R) (m : Nat) (e : StateDict R) :
    Prop where
  rel : ∀ i, i < m → Rel (d.layer i) (e.layer i)
  same : ∀ k, (∀ i, i < m → ¬ Affected i k) → e.get? k = d.get? k

/-- A key is as it was, or in a converted layer. -/
theorem Converted.mem_or {m : Nat} {e : StateDict R} (h : Converted Rel d m e) {k : Key} (hk : k ∈ e.keys) :
    k ∈ d.keys ∨ ∃ i s, i < m ∧ k = inLayer i s ∧ Affected 0 (inLayer 0 s) ∧ e.layer i s ≠ none := by
  by_cases haff : ∃ i, i < m ∧ Affected i k
  · obtain ⟨i, hi, haff⟩ := haff
    obtain ⟨p, s, rfl⟩ := haff.eq_inLayer
    obtain ⟨t, ht⟩ := Dict.mem_keys_iff.1 hk
    refine .inr ⟨i, p :: s, hi, rfl, (affected_inLayer.1 haff).2, ?_⟩
    show e.get? (inLayer i (p :: s)) ≠ none
    rw [ht]
    simp
  · rw [Dict.mem_keys_iff, h.same k fun i hi haff' => haff ⟨i, hi, haff'⟩, ← Dict.mem_keys_iff] at hk
    exact .inl hk

theorem Converted.mentions (hconv : Along conv IsSource IsTarget Rel) (hd : FlatDict IsSource n d) {m : Nat}
    {e : StateDict R} (h : Converted Rel d m e) : ∀ i, i < n → ∀ k ∈ e.keys, mentionsExperts i k = true →
      ∃ s, k = inLayer i ("mlp" :: "experts" :: s) := by
  intro i hi k hk hmention
  obtain hk | ⟨j, s, hj, rfl, haff, hsome⟩ := h.mem_or hk
  · exact hd.mentions i hi k hk hmention
  · obtain hsome | ⟨hy, hnext⟩ := hconv.plain (h.rel j hj) s haff hsome
    · exact hd.mentions i hi _ (Dict.mem_keys_iff.2 (Option.ne_none_iff_exists'.1 hsome)) hmention
    · have hs : s ≠ [] := by
        rintro rfl
        obtain ⟨p, s', heq⟩ := haff.eq_inLayer
        simp at heq
      obtain ⟨rfl, htext⟩ := mentionsExperts_inLayer hs hy hmention
      obtain ⟨s', rfl⟩ := hnext htext
      exact ⟨s', rfl⟩

theorem Converted.step (hconv : Along conv IsSource IsTarget Rel) (hd : FlatDict IsSource n d) {m : Nat} (hm : m < n)
    {z : StateDict R} (h : Converted Rel d m z) : ∃ e, conv m z = .ok e ∧ Converted Rel d (m + 1) e := by
  have hlayer : z.layer m = d.layer m := by
    funext s
    refine h.same _ fun i hi haff => ?_
    have := (affected_inLayer.1 haff).1
    omega
  obtain ⟨e, he, hrel, hframe⟩ := hconv.converts (hlayer ▸ hd.layers m hm) (h.mentions hconv hd m hm)
  refine ⟨e, he, fun i hi => ?_, fun k hk => ?_⟩
  · by_cases him : i = m
    · subst him
      rwa [hlayer] at hrel
    · have hsame : e.layer i = z.layer i := by
        funext s
        exact hframe _ fun haff => him (affected_inLayer.1 haff).1.symm
      rw [hsame]
      exact h.rel i (by omega)
  · rw [hframe k (hk m (Nat.lt_succ_self m))]
    exact h.same k fun i hi => hk i (Nat.lt_succ_of_lt hi)

theorem convertAllLayers_spec (hconv : Along conv IsSource IsTarget Rel) (hd : FlatDict IsSource n d) :
    ∃ e, convertAllLayers conv d = .ok e ∧ FlatDict IsTarget n e ∧ Converted Rel d n e := by
  have hrun : ∀ m, m ≤ n → ∃ e, (List.range m).foldlM (fun d i => conv i d) d = .ok e ∧ Converted Rel d m e := by
    intro m
    induction m with
    | zero => exact fun _ => ⟨d, rfl, fun i hi => absurd hi (Nat.not_lt_zero i), fun _ _ => rfl⟩
    | succ m ih =>
        intro hm
        obtain ⟨z, hz, hconverted⟩ := ih (Nat.le_of_succ_le hm)
        obtain ⟨e, he, hconverted'⟩ := hconverted.step hconv hd hm
        refine ⟨e, ?_, hconverted'⟩
        rw [List.range_succ, List.foldlM_append, hz, ok_bind, List.foldlM_cons, he]
        rfl
  obtain ⟨e, he, hconverted⟩ := hrun n (Nat.le_refl n)
  refine ⟨e, ?_, ⟨fun k hk hmentions => ?_, ?_, hconverted.mentions hconv hd, fun i hi => ?_⟩, hconverted⟩
  · unfold convertAllLayers
    rw [hd.maxLayerNum_eq, ok_bind, he]
  · obtain hk | ⟨i, s, hi, rfl, haff, -⟩ := hconverted.mem_or hk
    · exact hd.inLayers k hk hmentions
    · obtain ⟨p, s', heq⟩ := haff.eq_inLayer
      obtain rfl := List.append_cancel_left heq
      exact ⟨i, p, s', hi, rfl⟩
  · obtain ⟨i, p, s, hi, hk⟩ := hd.last
    obtain ⟨p', s', hsome⟩ := hconv.occupied (hconverted.rel i (by omega))
      ⟨p, s, Option.ne_none_iff_exists'.2 (Dict.mem_keys_iff.1 hk)⟩
    exact ⟨i, p', s', hi, Dict.mem_keys_iff.2 (Option.ne_none_iff_exists'.1 hsome)⟩
  · exact hconv.target (hconverted.rel i hi)

end All

/-! ## The two directions -/

theorem layer_congr_of_not_affected {i : Nat} {d e : StateDict R} (h : ∀ k, ¬ Affected i k → e.get? k = d.get? k) (s : Key)
    (hs : ¬ Affected 0 (inLayer 0 s)) : e.layer i s = d.layer i s := h _ fun haff => hs (affected_inLayer.1 haff).2

theorem along_toHf : Along (R := R) convertTtLayerToHf IsPrimeLayer IsHfLayer fun prime hf => Corresponds hf prime where
  converts := by
    rintro i d (hdense | ⟨x, g, hmoe⟩) -
    · exact ⟨d, convertTtLayerToHf_of_dense hdense.2, .inl ⟨hdense, rfl⟩, fun _ _ => rfl⟩
    · obtain ⟨e, he, hhf, hframe⟩ := convertTtLayerToHf_spec hmoe
      exact ⟨e, he, .inr ⟨x, g, hhf, hmoe, layer_congr_of_not_affected hframe⟩, hframe⟩
  target := by
    rintro w w' (⟨hdense, -⟩ | ⟨x, g, hhf, -⟩)
    · exact .inl hdense
    · exact .inr ⟨x, g, hhf⟩
  plain := by
    rintro w w' (⟨-, rfl⟩ | ⟨x, g, hhf, -⟩) s haff hsome
    · exact .inl hsome
    · refine .inr ?_
      obtain h | h | ⟨s', h⟩ := haff
      · obtain rfl := List.append_cancel_left h
        exact ⟨by decide, fun htext => absurd htext (by decide)⟩
      · obtain rfl := List.append_cancel_left h
        exact absurd hhf.router hsome
      · obtain rfl := List.append_cancel_left h
        rw [hhf.experts] at hsome
        obtain ⟨j, -, p, hp, rfl⟩ := x.exists_oneByOne.1 (Option.ne_none_iff_exists'.1 hsome)
        refine ⟨?_, fun _ => ⟨_, rfl⟩⟩
        have hj := notMem_digits (c := 'y') (by decide) j
        simp only [projections, List.mem_cons, List.not_mem_nil, or_false] at hp
        obtain rfl | rfl | rfl := hp <;> simpa [Key.text, Part.text] using hj
  occupied := by
    rintro w w' (⟨-, rfl⟩ | ⟨x, g, hhf, -⟩) hsome
    · exact hsome
    · exact ⟨"mlp", ["gate", "weight"], by rw [hhf.gate]; simp⟩

theorem along_toPrime : Along (R := R) convertHfLayerToTt IsHfLayer IsPrimeLayer Corresponds where
  converts := by
    rintro i d (hdense | ⟨x, g, hmoe⟩) hmentions
    · exact ⟨d, if_neg (Option.not_isSome_iff_eq_none.2 hdense.1), .inl ⟨hdense, rfl⟩, fun _ _ => rfl⟩
    · obtain ⟨e, he, hprime, hframe⟩ := convertHfLayerToTt_spec hmoe.gate hmoe.experts hmentions
      exact ⟨e, he, .inr ⟨x, g, hmoe, hprime, fun s hs => (layer_congr_of_not_affected hframe s hs).symm⟩, hframe⟩
  target := by
    rintro w w' (⟨hdense, rfl⟩ | ⟨x, g, -, hprime, -⟩)
    · exact .inl hdense
    · exact .inr ⟨x, g, hprime⟩
  plain := by
    rintro w w' (⟨-, rfl⟩ | ⟨x, g, -, hprime, -⟩) s haff hsome
    · exact .inl hsome
    · refine .inr ?_
      obtain h | h | ⟨s', h⟩ := haff
      · obtain rfl := List.append_cancel_left h
        exact absurd hprime.gate hsome
      · obtain rfl := List.append_cancel_left h
        exact ⟨by decide, fun htext => absurd htext (by decide)⟩
      · obtain rfl := List.append_cancel_left h
        rw [hprime.experts] at hsome
        obtain ⟨t, ht⟩ := Option.ne_none_iff_exists'.1 hsome
        obtain ⟨a, ha, rfl⟩ := x.stacked_eq_some ht
        refine ⟨?_, fun _ => ⟨_, rfl⟩⟩
        simp only [List.mem_cons, List.not_mem_nil, or_false] at ha
        obtain rfl | rfl | rfl := ha <;> decide
  occupied := by
    rintro w w' (⟨-, rfl⟩ | ⟨x, g, -, hprime, -⟩) hsome
    · exact hsome
    · exact ⟨"mlp", ["router", "gate", "weight"], by rw [hprime.router]; simp⟩

theorem same_of_layers {n : Nat} {d e z : StateDict R} {Rel Rel' : LayerWeights R → LayerWeights R → Prop}
    (h : Converted Rel d n e) (h' : Converted Rel' e n z) (heq : ∀ i, i < n → z.layer i = d.layer i) (k : Key) :
    z.get? k = d.get? k := by
  by_cases haff : ∃ i, i < n ∧ Affected i k
  · obtain ⟨i, hi, haff⟩ := haff
    obtain ⟨p, s, rfl⟩ := haff.eq_inLayer
    exact congrFun (heq i hi) (p :: s)
  · have hnot : ∀ i, i < n → ¬ Affected i k := fun i hi haff' => haff ⟨i, hi, haff'⟩
    rw [h'.same k hnot, h.same k hnot]

/-- **Round trip** from the training format. -/
theorem roundTrip_prime {n : Nat} {d : StateDict R} (h : FlatDict IsPrimeLayer n d) :
    ∃ hf d', convertToHf d = .ok hf ∧ convertToPrime hf = .ok d' ∧ ∀ k, d'.get? k = d.get? k := by
  obtain ⟨hf, hhf, hflat, hconverted⟩ := convertAllLayers_spec along_toHf h
  obtain ⟨d', hd', -, hconverted'⟩ := convertAllLayers_spec along_toPrime hflat
  exact ⟨hf, d', hhf, hd', same_of_layers hconverted hconverted' fun i hi =>
    (hconverted'.rel i hi).prime_unique (hconverted.rel i hi)⟩

/-- **Round trip** from the other format: the experts come back one by one, each under its own index. -/
theorem roundTrip_hf {n : Nat} {d : StateDict R} (h : FlatDict IsHfLayer n d) :
    ∃ prime d', convertToPrime d = .ok prime ∧ convertToHf prime = .ok d' ∧ ∀ k, d'.get? k = d.get? k := by
  obtain ⟨prime, hprime, hflat, hconverted⟩ := convertAllLayers_spec along_toPrime h
  obtain ⟨d', hd', -, hconverted'⟩ := convertAllLayers_spec along_toHf hflat
  exact ⟨prime, d', hprime, hd', same_of_layers hconverted hconverted' fun i hi =>
    (hconverted'.rel i hi).hf_unique (hconverted.rel i hi)⟩

end AuroraRl.Weights.Qwen3Moe
