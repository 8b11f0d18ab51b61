import AuroraRl.Weights.NemotronExperts
import AuroraRl.Weights.NemotronLayers

/-!
# NemotronH, back and forth

* `PrimeDict`, `HfDict` : the weights of a model in the training format, and in the other with its experts one by one;
* `undoes_primeLayer`, `undoes_hfLayer` : one layer, in both directions;
* `PrimeDict.roundTrip`, `HfDict.roundTrip` : all weights, in both directions.
-/

namespace AuroraRl.Weights.NemotronH

variable {R : Type}

/-! ## One layer -/

section Layer

/-- A layer in the training format. -/
structure PrimeLayer (t : LayerType) (w : LayerWeights R) : Prop where
  noMixer : ∀ p s, w ("mixer" :: p :: s) = none
  experts : t = .moe → ∃ us vs, us ≠ [] ∧ vs.length = us.length ∧ Tensor.OneShape us ∧ Tensor.OneShape vs ∧
    w ["mlp", "experts", "w1"] = some (.rows us) ∧ w ["mlp", "experts", "w2"] = some (.rows vs) ∧
    w ["mlp", "experts", "w3"] = some (.rows [])
  bias : t = .moe → ∀ b, w ["mlp", "router", "e_score_correction_bias"] = some b → b.elems ≠ []

/-- A layer in the other format, with its experts one by one. -/
structure HfLayer (t : LayerType) (w : LayerWeights R) : Prop where
  noModule : ∀ (t' : LayerType) p s, w (t'.module :: p :: s) = none
  experts : t = .moe → ∃ n, n ≠ 0 ∧ ∀ s, (w ("mixer" :: "experts" :: s)).isSome ↔
    ∃ j, j < n ∧ (s = ([.index j, "up_proj", "weight"] : Key) ∨ s = ([.index j, "down_proj", "weight"] : Key))
  /-- A projection has one shape in all experts. -/
  shapes : t = .moe → ∀ (p : Part) j j' u v, w ["mixer", "experts", .index j, p, "weight"] = some u →
    w ["mixer", "experts", .index j', p, "weight"] = some v → v.shape = u.shape
  bias : t = .moe → ∀ b, w ["mixer", "gate", "e_score_correction_bias"] = some b → b.elems ≠ []

theorem PrimeLayer.congr {t : LayerType} {w w' : LayerWeights R} (h : PrimeLayer t w)
    (heq : ∀ p s, w (p :: s) = w' (p :: s)) : PrimeLayer t w' := by
  refine ⟨fun p s => ?_, fun ht => ?_, fun ht b hb => ?_⟩
  · rw [← heq]
    exact h.noMixer p s
  · rw [← heq, ← heq, ← heq]
    exact h.experts ht
  · rw [← heq] at hb
    exact h.bias ht b hb

theorem HfLayer.congr {t : LayerType} {w w' : LayerWeights R} (h : HfLayer t w)
    (heq : ∀ p s, w (p :: s) = w' (p :: s)) : HfLayer t w' := by
  refine ⟨fun t' p s => ?_, fun ht => ?_, fun ht p j j' u v hu hv => ?_, fun ht b hb => ?_⟩
  · rw [← heq]
    exact h.noModule t' p s
  · simp only [← heq]
    exact h.experts ht
  · rw [← heq] at hu hv
    exact h.shapes ht p j j' u v hu hv
  · rw [← heq] at hb
    exact h.bias ht b hb

variable {i : Nat} {t : LayerType} {d : StateDict R}

theorem notMem_part {γ : Type} [DecidableEq γ] {cell : Key → γ} {c : γ} {k : Key} (hk : k ∉ d.keys) :
    k ∉ (d.part cell c).keys := fun h => hk ((Dict.mem_keys_part cell).1 h).2

variable [Sub R] [Min R]

omit [Min R] in
/-- The weights of a layer under the name of another attribute, and back. -/
theorem undoes_renameModule {a b : Part} (hab : b ≠ a) (hfresh : ∀ p s, inLayer i (b :: p :: s) ∉ d.keys) :
    Undoes Exact UpToShift (renameKeys (inLayer i [a]) (inLayer i [b])) (renameKeys (inLayer i [b]) (inLayer i [a])) d := by
  refine (undoes_renameKeys_exact hfresh fun p s => ?_).mono fun _ _ _ => .inl
  rw [List.append_assoc, under_inLayer]
  simp [Key.under, List.isPrefixOf, hab]

theorem undoes_primeLayer (h : PrimeLayer t (d.layer i)) :
    Undoes Exact UpToShift (convertPrimeLayerToHf i t) (convertHfLayerToPrime i t) d := by
  have hfresh : ∀ p s, inLayer i ("mixer" :: p :: s) ∉ d.keys := fun p s => Dict.get?_eq_none_iff.1 (h.noMixer p s)
  cases t with
  | mamba => exact undoes_renameModule (by decide) hfresh
  | attention => exact undoes_renameModule (by decide) hfresh
  | moe =>
      obtain ⟨us, vs, hne, hlen, hushape, hvshape, hw₁, hw₂, hw₃⟩ := h.experts rfl
      refine Undoes.of_splits (splits_convertPrimeMoeLayerToHf i) (splits_convertHfMoeLayerToPrime i) (fun _ => rfl)
        fun c => ?_
      have hrename : ∀ a b : Key, Key.under ["mixer"] b = true → (∀ p s, Key.under b (a ++ p :: s) = false) →
          Undoes Exact UpToShift (renameKeys (inLayer i a) (inLayer i b)) (renameKeys (inLayer i b) (inLayer i a))
            (d.part slot c) := by
        intro a b hb hab
        obtain ⟨p, s, rfl⟩ := Key.under_iff.1 hb
        refine (undoes_renameKeys_exact (fun p' s' => notMem_part ?_) fun p' s' => ?_).mono fun _ _ _ => .inl
        · exact hfresh p (s ++ p' :: s')
        · exact (under_inLayer i _ _).trans (hab p' s')
      cases c with
      | gate => exact (undoes_moveIfPresent_exact (by simp) (notMem_part (hfresh _ _))).mono fun _ _ _ => .inl
      | bias =>
          refine undoes_primeBias (notMem_part (hfresh _ _)) fun b hb => h.bias rfl b ?_
          exact (Dict.get?_part_self slot d (primeBias i)).symm.trans hb
      | experts =>
          refine (undoes_primeExperts hne hlen ?_ ?_ ?_ hushape hvshape fun p s =>
            notMem_part (hfresh p s)).mono fun _ _ _ => .inl
          · exact (Dict.get?_part_self slot d (stackKey i "w1")).trans hw₁
          · exact (Dict.get?_part_self slot d (stackKey i "w2")).trans hw₂
          · exact (Dict.get?_part_self slot d (stackKey i "w3")).trans hw₃
      | shared => exact hrename ["mlp", "shared_expert"] ["mixer", "shared_experts"] rfl fun _ _ => rfl
      | fc1 => exact hrename ["mlp", "fc1_latent_proj"] ["mixer", "fc1_latent_proj"] rfl fun _ _ => rfl
      | fc2 => exact hrename ["mlp", "fc2_latent_proj"] ["mixer", "fc2_latent_proj"] rfl fun _ _ => rfl
      | other => exact Undoes.ok fun _ _ _ => .inl

theorem undoes_hfLayer (h : HfLayer t (d.layer i)) :
    Undoes Exact UpToShift (convertHfLayerToPrime i t) (convertPrimeLayerToHf i t) d := by
  have hmodule : ∀ (t' : LayerType) p s, inLayer i (t'.module :: p :: s) ∉ d.keys :=
    fun t' p s => Dict.get?_eq_none_iff.1 (h.noModule t' p s)
  cases t with
  | mamba => exact undoes_renameModule (by decide) (hmodule .mamba)
  | attention => exact undoes_renameModule (by decide) (hmodule .attention)
  | moe =>
      obtain ⟨n, hn, hexperts⟩ := h.experts rfl
      have hfresh : ∀ p s, inLayer i ("mlp" :: p :: s) ∉ d.keys := hmodule .moe
      refine Undoes.of_splits (splits_convertHfMoeLayerToPrime i) (splits_convertPrimeMoeLayerToHf i) (fun _ => rfl)
        fun c => ?_
      have hrename : ∀ a b : Key, Key.under ["mlp"] b = true → (∀ p s, Key.under b (a ++ p :: s) = false) →
          Undoes Exact UpToShift (renameKeys (inLayer i a) (inLayer i b)) (renameKeys (inLayer i b) (inLayer i a))
            (d.part slot c) := by
        intro a b hb hab
        obtain ⟨p, s, rfl⟩ := Key.under_iff.1 hb
        refine (undoes_renameKeys_exact (fun p' s' => notMem_part ?_) fun p' s' => ?_).mono fun _ _ _ => .inl
        · exact hfresh p (s ++ p' :: s')
        · exact (under_inLayer i _ _).trans (hab p' s')
      cases c with
      | gate => exact (undoes_moveIfPresent_exact (by simp) (notMem_part (hfresh _ _))).mono fun _ _ _ => .inl
      | bias =>
          refine undoes_hfBias (notMem_part (hfresh _ _)) fun b hb => h.bias rfl b ?_
          exact (Dict.get?_part_self slot d (hfBias i)).symm.trans hb
      | experts =>
          refine (undoes_hfExperts hn (fun k hk => ((Dict.mem_keys_part slot).1 hk).1) (fun s => ?_)
            (fun p j j' u v hu hv => h.shapes rfl p j j' u v ?_ ?_) fun p s => notMem_part (hfresh p s)).mono
              fun _ _ _ => .inl
          · rw [Dict.mem_keys_part, ← hexperts, StateDict.layer, Option.isSome_iff_exists, ← Dict.mem_keys_iff]
            exact and_iff_right rfl
          · exact (Dict.get?_part_self slot d _).symm.trans hu
          · exact (Dict.get?_part_self slot d _).symm.trans hv
      | shared => exact hrename ["mixer", "shared_experts"] ["mlp", "shared_expert"] rfl fun _ _ => rfl
      | fc1 => exact hrename ["mixer", "fc1_latent_proj"] ["mlp", "fc1_latent_proj"] rfl fun _ _ => rfl
      | fc2 => exact hrename ["mixer", "fc2_latent_proj"] ["mlp", "fc2_latent_proj"] rfl fun _ _ => rfl
      | other => exact Undoes.ok fun _ _ _ => .inl

end Layer

/-! ## One cell -/

section Inside

/-- What a conversion does in a cell, between the renamings of the root. -/
def inside (global : StateDict R → Except PyException (StateDict R))
    (layer : Nat → LayerType → StateDict R → Except PyException (StateDict R)) (types : List LayerType)
    (c : Option Nat) (d : StateDict R) : Except PyException (StateDict R) :=
  (if c = none then global d else .ok d) >>= fun d =>
    (types.zipIdx.filter (some ·.2 = c)).foldlM (fun d p => layer p.2 p.1 d) d

variable {global global' : StateDict R → Except PyException (StateDict R)}
  {layer layer' : Nat → LayerType → StateDict R → Except PyException (StateDict R)} {types : List LayerType}

theorem inside_none : inside global layer types none = global := by
  have hfilter : types.zipIdx.filter (some ·.2 = (none : Option Nat)) = [] :=
    List.filter_eq_nil_iff.2 fun p _ => by simp
  funext d
  unfold inside
  rw [if_pos rfl, hfilter]
  exact bind_ok

theorem inside_some (i : Nat) : inside global layer types (some i) = match types[i]? with
    | some t => layer i t
    | none => fun d => .ok d := by
  funext d
  unfold inside
  rw [if_neg (by simp), ok_bind, filter_zipIdx, if_pos (Nat.zero_le i), Nat.sub_zero]
  cases types[i]? with
  | none => rfl
  | some t => exact bind_ok

theorem undoes_inside {r r' : ValueRel Key (Tensor R)} {c : Option Nat} {x : StateDict R}
    (hglobal : c = none → Undoes r r' global global' x)
    (hlayer : ∀ i t, c = some i → types[i]? = some t → Undoes r r' (layer i t) (layer' i t) x)
    (hr : ∀ k a b, r k a b → r' k a b) : Undoes r r' (inside global layer types c) (inside global' layer' types c) x := by
  cases c with
  | none =>
      rw [inside_none, inside_none]
      exact hglobal rfl
  | some i =>
      rw [inside_some, inside_some]
      cases ht : types[i]? with
      | none => exact Undoes.ok hr
      | some t => exact hlayer i t rfl ht

theorem confined_inside {P : Key → Bool} (hglobal : Confined P global) (hlayer : ∀ i t, Confined P (layer i t))
    (c : Option Nat) : Confined P (inside global layer types c) := by
  cases c with
  | none =>
      rw [inside_none]
      exact hglobal
  | some i =>
      rw [inside_some]
      cases types[i]? with
      | none => exact Confined.pure
      | some t => exact hlayer i t

end Inside

/-! ## All layers -/

section All

variable [Sub R] [Min R] {types : List LayerType} {d : StateDict R} {c : Option Nat}

/-- The renames of the weights outside the layers. -/
def globalToPrime (d : StateDict R) : Except PyException (StateDict R) :=
  moveIfPresent ["model", "embeddings", "weight"] ["model", "embed_tokens", "weight"] d >>=
    moveIfPresent ["model", "norm_f", "weight"] ["model", "norm", "weight"]

/-- What the conversion of all weights to the training format does in a cell. -/
def cellToPrime (types : List LayerType) (c : Option Nat) (d : StateDict R) : Except PyException (StateDict R) :=
  renameKeys ["backbone"] ["model"] d >>= fun d => dropMtp d >>= inside globalToPrime convertHfLayerToPrime types c

theorem splits_convertHfToPrime (types : List LayerType) :
    Splits textCell (convertHfToPrime types : StateDict R → _) (cellToPrime types) := by
  have hroot : Splits textCell (renameKeys ["backbone"] ["model"] : StateDict R → _) fun _ =>
      renameKeys ["backbone"] ["model"] := splits_renameKeys fun p s => (textCell_backbone (p :: s)).symm
  have hmtp : Splits textCell (dropMtp : StateDict R → _) fun _ => dropMtp :=
    Splits.keys fun k _ => confined_discard (decide_eq_true rfl)
  have hglobal : Confined (fun k => textCell k = none) (globalToPrime : StateDict R → _) :=
    (confined_moveIfPresent rfl rfl).bind (confined_moveIfPresent rfl rfl)
  have hlayers : Splits textCell
      (fun d : StateDict R => types.zipIdx.foldlM (fun d p => convertHfLayerToPrime p.2 p.1 d) d)
      fun c d => (types.zipIdx.filter (some ·.2 = c)).foldlM (fun d p => convertHfLayerToPrime p.2 p.1 d) d :=
    Splits.foldlM fun p _ => confined_convertHfLayerToPrime (fun _ _ => decide_eq_true rfl) p.1
  have heq : (convertHfToPrime types : StateDict R → _) = fun d => renameKeys ["backbone"] ["model"] d >>= fun d =>
      dropMtp d >>= fun d => globalToPrime d >>= fun d =>
        types.zipIdx.foldlM (fun d p => convertHfLayerToPrime p.2 p.1 d) d := by
    funext d
    unfold convertHfToPrime globalToPrime
    simp only [bind_assoc]
  rw [heq]
  exact hroot.comp (hmtp.comp ((Splits.of_confined hglobal).comp hlayers))

omit [Sub R] [Min R] in
theorem cellToHf_eq (d : StateDict R) :
    cellToHf types c d = inside globalToHf convertPrimeLayerToHf types c d >>= renameKeys ["model"] ["backbone"] := by
  unfold cellToHf inside
  rw [bind_assoc]

omit [Sub R] [Min R] in
theorem dropMtp_spec (d : StateDict R) :
    ∃ d', dropMtp d = .ok d' ∧ ∀ k, d'.get? k = if Key.under ["mtp"] k = true then none else d.get? k := by
  obtain ⟨d', hd', hget⟩ := discardAll_spec (d.keys.filter (Key.under ["mtp"])) d
  refine ⟨d', hd', fun k => ?_⟩
  rw [hget]
  by_cases hk : k ∈ d.keys
  · simp [List.mem_filter, hk]
  · rw [Dict.get?_eq_none_iff.2 hk, ite_self, ite_self]

/-- The weights of a model in the training format. -/
structure PrimeDict (types : List LayerType) (d : StateDict R) : Prop where
  notHf : ∀ k ∈ d.keys, Key.under ["backbone"] k = false
  notMtp : ∀ k ∈ d.keys, Key.under ["mtp"] k = false
  noEmbeddings : ([.name "model", .name "embeddings", .name "weight"] : Key) ∉ d.keys
  noNormF : ([.name "model", .name "norm_f", .name "weight"] : Key) ∉ d.keys
  layers : ∀ i t, types[i]? = some t → PrimeLayer t (d.layer i)

/-- The weights of a model in the other format. -/
structure HfDict (types : List LayerType) (d : StateDict R) : Prop where
  notPrime : ∀ k ∈ d.keys, Key.under ["model"] k = false
  noEmbedTokens : ([.name "backbone", .name "embed_tokens", .name "weight"] : Key) ∉ d.keys
  noNorm : ([.name "backbone", .name "norm", .name "weight"] : Key) ∉ d.keys
  layers : ∀ i t, types[i]? = some t →
    HfLayer t fun s => d.get? (.name "backbone" :: .name "layers" :: .index i :: s)

omit [Sub R] [Min R] in
theorem undoes_root (hbackbone : ∀ p s, .name "backbone" :: p :: s ∉ d.keys)
    (hmtp : ∀ k ∈ d.keys, Key.under ["mtp"] k = false) : Undoes Exact Exact (renameKeys ["model"] ["backbone"])
      (fun d => renameKeys ["backbone"] ["model"] d >>= dropMtp) d := by
  have hdrop : Undoes Exact Exact (fun d => .ok d) dropMtp d := by
    refine ⟨d, rfl, fun z hz => ?_⟩
    obtain ⟨w, hw, hget⟩ := dropMtp_spec z
    refine ⟨w, hw, fun k => ?_⟩
    show w.get? k = d.get? k
    rw [hget]
    split_ifs with hk
    · refine (Dict.get?_eq_none_iff.2 fun h => ?_).symm
      rw [hmtp k h] at hk
      cases hk
    · exact hz k
  refine hdrop.comp fun x hx => ?_
  cases hx
  exact undoes_renameKeys_exact hbackbone fun _ _ => rfl

theorem PrimeDict.cell (h : PrimeDict types d) (c : Option Nat) :
    Undoes Exact UpToShift (cellToHf types c) (cellToPrime types c) (d.part textCell c) := by
  have hinside : Undoes Exact UpToShift (inside globalToHf convertPrimeLayerToHf types c)
      (inside globalToPrime convertHfLayerToPrime types c) (d.part textCell c) := by
    refine undoes_inside (fun _ => ?_) (fun i t hc ht => ?_) fun _ _ _ => .inl
    · exact (undoes_twoMoves (by decide) (notMem_part h.noEmbeddings) (notMem_part h.noNormF)).mono fun _ _ _ => .inl
    · subst hc
      refine undoes_primeLayer ((h.layers i t ht).congr fun p s => ?_)
      exact (Dict.get?_part_self textCell d (inLayer i (p :: s))).symm
  refine (hinside.comp fun x hx => undoes_root (d := x) (fun p s hk => ?_) fun k hk => ?_).congr (cellToHf_eq _).symm
    fun x z _ _ => bind_assoc ..
  all_goals
    have hconfined : Confined (fun k => k.head? = some (.name "model"))
        (inside (globalToHf : StateDict R → _) convertPrimeLayerToHf types c) :=
      confined_inside ((confined_moveIfPresent rfl rfl).bind (confined_moveIfPresent rfl rfl))
        (fun i t => confined_convertPrimeLayerToHf (fun _ _ => rfl) t) c
  · rw [Dict.mem_keys_iff, hconfined.get?_eq hx (by rfl), ← Dict.mem_keys_iff] at hk
    have := h.notHf _ ((Dict.mem_keys_part textCell).1 hk).2
    cases this
  · by_contra hunder
    obtain ⟨p, s, rfl⟩ := Key.under_iff.1 (by simpa using hunder)
    rw [Dict.mem_keys_iff, hconfined.get?_eq hx (by rfl), ← Dict.mem_keys_iff] at hk
    have := h.notMtp _ ((Dict.mem_keys_part textCell).1 hk).2
    cases this

/-- **Round trip** from the training format. -/
theorem PrimeDict.roundTrip (h : PrimeDict types d) :
    ∃ hf d', convertPrimeToHf types d = .ok hf ∧ convertHfToPrime types hf = .ok d' ∧ Agree UpToShift d d' :=
  (Undoes.of_splits (r := Exact) (splits_convertPrimeToHf types) (splits_convertHfToPrime types) (fun _ => rfl)
    h.cell).run fun _ _ => rfl

/-- The value is the same, but for a router bias, and for the dropped keys of multi-token prediction. -/
def Restored : ValueRel Key (Tensor R) := fun k a b => if Key.under ["mtp"] k = true then b = none else UpToShift k a b

omit [Min R] in
theorem Restored.eq_none {k : Key} {b : Option (Tensor R)} (h : Restored k none b) : b = none := by
  unfold Restored at h
  split_ifs at h
  · exact h
  · exact h.eq_none

omit [Min R] in
theorem restored_none (k : Key) : Restored (R := R) k none none := by
  unfold Restored
  split_ifs
  · rfl
  · exact .inl rfl

theorem HfDict.cell (h : HfDict types d) (c : Option Nat) :
    Undoes Exact Restored (cellToPrime types c) (cellToHf types c) (d.part textCell c) := by
  have hroot : Undoes Restored Restored (renameKeys ["backbone"] ["model"]) (renameKeys ["model"] ["backbone"])
      (d.part textCell c) := by
    refine undoes_renameKeys (fun p s hk => ?_) (fun _ _ => rfl) (fun _ _ => Restored.eq_none) restored_none
      (fun p s x y hxy => ?_) fun _ _ _ _ _ hxy => hxy
    · have := h.notPrime _ ((Dict.mem_keys_part textCell).1 hk).2
      cases this
    · exact hxy
  have hmtp : ∀ x : StateDict R, Undoes UpToShift Restored dropMtp (fun d => .ok d) x := by
    intro x
    obtain ⟨x', hx', hget⟩ := dropMtp_spec x
    refine ⟨x', hx', fun z hz => ⟨z, rfl, fun k => ?_⟩⟩
    have hk := hz k
    rw [hget] at hk
    unfold Restored
    split_ifs at hk ⊢
    · exact hk.eq_none
    · exact hk
  have hinside : ∀ x, renameKeys ["backbone"] ["model"] (d.part textCell c) = .ok x → ∀ x', dropMtp x = .ok x' →
      Undoes Exact UpToShift (inside globalToPrime convertHfLayerToPrime types c)
        (inside globalToHf convertPrimeLayerToHf types c) x' := by
    intro x hx x' hx'
    have hfresh : ∀ p s, [.name "model"] ++ p :: s ∉ (d.part textCell c).keys := by
      intro p s hk
      have := h.notPrime _ ((Dict.mem_keys_part textCell).1 hk).2
      cases this
    obtain ⟨x₁, hx₁, hto, -⟩ := renameKeys_spec ["backbone"] hfresh
    obtain ⟨x₂, hx₂, hget⟩ := dropMtp_spec x
    obtain rfl : x = x₁ := Except.ok.inj (hx.symm.trans hx₁)
    obtain rfl : x' = x₂ := Except.ok.inj (hx'.symm.trans hx₂)
    have hview : ∀ p s, x'.get? (.name "model" :: p :: s) = (d.part textCell c).get? (.name "backbone" :: p :: s) := by
      intro p s
      rw [hget, if_neg (by simp [Key.under, List.isPrefixOf])]
      exact hto p s
    refine undoes_inside (fun _ => ?_) (fun i t hc ht => ?_) fun _ _ _ => .inl
    · refine (undoes_twoMoves (by decide) ?_ ?_).mono fun _ _ _ => .inl
      · rw [← Dict.get?_eq_none_iff, hview, Dict.get?_eq_none_iff]
        exact notMem_part h.noEmbedTokens
      · rw [← Dict.get?_eq_none_iff, hview, Dict.get?_eq_none_iff]
        exact notMem_part h.noNorm
    · subst hc
      refine undoes_hfLayer ((h.layers i t ht).congr fun p s => ?_)
      refine Eq.trans ?_ (hview _ _).symm
      exact (Dict.get?_part_self textCell d (.name "backbone" :: .name "layers" :: .index i :: p :: s)).symm
  refine (hroot.comp fun x hx => (hmtp x).comp (hinside x hx)).congr rfl fun x z _ _ => ?_
  rw [cellToHf_eq]
  exact congrArg (· >>= renameKeys ["model"] ["backbone"]) bind_ok

/-- **Round trip** from the other format. -/
theorem HfDict.roundTrip (h : HfDict types d) :
    ∃ prime d', convertHfToPrime types d = .ok prime ∧ convertPrimeToHf types prime = .ok d' ∧ Agree Restored d d' :=
  (Undoes.of_splits (r := Exact) (splits_convertHfToPrime types) (splits_convertPrimeToHf types) (fun _ => rfl)
    h.cell).run fun _ _ => rfl

end All

end AuroraRl.Weights.NemotronH
