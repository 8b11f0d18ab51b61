import AuroraRl.Weights.Mentions
import AuroraRl.Weights.QwenExperts
import AuroraRl.Weights.Undo

/-!
# The two formats of a Qwen3-MoE layer

* `Experts` : the projections of the experts of a layer, `oneByOne` and `stacked`;
* `IsHfLayer`, `IsPrimeLayer`, `Corresponds` : a layer in either format, and which go together;
* `stackExperts_spec`, `convertHfLayerToTt_spec`, `convertTtLayerToHf_spec` : what the converters do to a layer.
-/

namespace AuroraRl.Weights.Qwen3Moe

variable {R : Type}

/-- The projections of the experts of a layer, as rectangular matrices. -/
structure Experts (R : Type) where
  gate : List (Tensor R)
  down : List (Tensor R)
  up : List (Tensor R)
  ne_nil : gate ≠ []
  down_length : down.length = gate.length
  up_length : up.length = gate.length
  dim : Nat
  moeDim : Nat
  gate_shape : ∀ t ∈ gate, t.shape = [moeDim, dim]
  down_shape : ∀ t ∈ down, t.shape = [dim, moeDim]
  up_shape : ∀ t ∈ up, t.shape = [moeDim, dim]

abbrev projections : List String := ["gate_proj", "down_proj", "up_proj"]

namespace Experts

variable (x : Experts R)

def proj (p : String) : Option (List (Tensor R)) :=
  if p = "gate_proj" then some x.gate else if p = "down_proj" then some x.down else if p = "up_proj" then some x.up
  else none

/-- One tensor for each projection of each expert. -/
def oneByOne : Key → Option (Tensor R)
  | [.index j, .name p, .name "weight"] => (x.proj p).bind (·[j]?)
  | _ => none

/-- One tensor for each projection. -/
def stacked : Key → Option (Tensor R)
  | [.name "w1"] => some (.rows x.gate)
  | [.name "w2"] => some (.rows x.down)
  | [.name "w3"] => some (.rows x.up)
  | _ => none

theorem exists_oneByOne {s : Key} : (∃ t, x.oneByOne s = some t) ↔
    ∃ j, j < x.gate.length ∧ ∃ p ∈ projections, s = [.index j, .name p, .name "weight"] := by
  have hv := x.down_length
  have hu := x.up_length
  constructor
  · rintro ⟨t, ht⟩
    unfold oneByOne at ht
    split at ht
    · rename_i j p
      obtain ⟨l, hl, ht⟩ := Option.bind_eq_some_iff.1 ht
      obtain ⟨hj, -⟩ := List.getElem?_eq_some_iff.1 ht
      unfold proj at hl
      split_ifs at hl with h₁ h₂ h₃
      · cases hl
        exact ⟨j, hj, p, by simp [h₁], rfl⟩
      · cases hl
        exact ⟨j, by omega, p, by simp [h₂], rfl⟩
      · cases hl
        exact ⟨j, by omega, p, by simp [h₃], rfl⟩
    · cases ht
  · rintro ⟨j, hj, p, hp, rfl⟩
    simp only [projections, List.mem_cons, List.not_mem_nil, or_false] at hp
    obtain rfl | rfl | rfl := hp
    · exact ⟨_, List.getElem?_eq_getElem hj⟩
    · exact ⟨_, List.getElem?_eq_getElem (by omega)⟩
    · exact ⟨_, List.getElem?_eq_getElem (by omega)⟩

theorem stacked_eq_some {s : Key} {t : Tensor R} (h : x.stacked s = some t) :
    ∃ w ∈ ["w1", "w2", "w3"], s = [.name w] := by
  unfold stacked at h
  split at h
  · exact ⟨"w1", by simp, rfl⟩
  · exact ⟨"w2", by simp, rfl⟩
  · exact ⟨"w3", by simp, rfl⟩
  · cases h

theorem stacked_congr {x y : Experts R} (h : ∀ s, x.oneByOne s = y.oneByOne s) : x.stacked = y.stacked := by
  have hgate : x.gate = y.gate := List.ext_getElem? fun j => h [.index j, "gate_proj", "weight"]
  have hdown : x.down = y.down := List.ext_getElem? fun j => h [.index j, "down_proj", "weight"]
  have hup : x.up = y.up := List.ext_getElem? fun j => h [.index j, "up_proj", "weight"]
  funext s
  unfold stacked
  rw [hgate, hdown, hup]

theorem oneByOne_congr {x y : Experts R} (h : ∀ s, x.stacked s = y.stacked s) : x.oneByOne = y.oneByOne := by
  have hrows : ∀ {l l' : List (Tensor R)}, some (Tensor.rows l) = some (.rows l') → l = l' := by
    intro l l' h
    cases h
    rfl
  have hgate : x.gate = y.gate := hrows (h ["w1"])
  have hdown : x.down = y.down := hrows (h ["w2"])
  have hup : x.up = y.up := hrows (h ["w3"])
  funext s
  unfold oneByOne proj
  rw [hgate, hdown, hup]

end Experts

/-! ## Layers -/

/-- A layer without experts. -/
def Dense (w : LayerWeights R) : Prop := w ["mlp", "gate", "weight"] = none ∧ w ["mlp", "router", "gate", "weight"] = none

/-- A MoE layer with these experts one by one. -/
structure HfMoe (x : Experts R) (g : Tensor R) (w : LayerWeights R) : Prop where
  gate : w ["mlp", "gate", "weight"] = some g
  router : w ["mlp", "router", "gate", "weight"] = none
  experts : ∀ s, w ("mlp" :: "experts" :: s) = x.oneByOne s

/-- A MoE layer with these experts stacked. -/
structure PrimeMoe (x : Experts R) (g : Tensor R) (w : LayerWeights R) : Prop where
  gate : w ["mlp", "gate", "weight"] = none
  router : w ["mlp", "router", "gate", "weight"] = some g
  experts : ∀ s, w ("mlp" :: "experts" :: s) = x.stacked s

def IsHfLayer (w : LayerWeights R) : Prop := Dense w ∨ ∃ x g, HfMoe x g w

def IsPrimeLayer (w : LayerWeights R) : Prop := Dense w ∨ ∃ x g, PrimeMoe x g w

/-- The router and the experts of layer `i`, in either format. -/
def Affected (i : Nat) (k : Key) : Prop :=
  k = inLayer i ["mlp", "gate", "weight"] ∨ k = routerKey i ∨ ∃ s, k = inLayer i ("mlp" :: "experts" :: s)

/-- A layer in one format and the same layer in the other. -/
def Corresponds (hf prime : LayerWeights R) : Prop :=
  (Dense hf ∧ hf = prime) ∨
    ∃ x g, HfMoe x g hf ∧ PrimeMoe x g prime ∧ ∀ s, ¬ Affected 0 (inLayer 0 s) → hf s = prime s

theorem affected_inLayer {i j : Nat} {s : Key} : Affected i (inLayer j s) ↔ i = j ∧ Affected 0 (inLayer 0 s) := by
  unfold Affected
  simp only [inLayer, routerKey, List.cons_append, List.nil_append, List.cons.injEq,
    true_and, Part.index.injEq]
  constructor
  · rintro (⟨rfl, h⟩ | ⟨rfl, h⟩ | ⟨s', rfl, h⟩)
    · exact ⟨rfl, .inl h⟩
    · exact ⟨rfl, .inr (.inl h)⟩
    · exact ⟨rfl, .inr (.inr ⟨s', h⟩)⟩
  · rintro ⟨rfl, h | h | ⟨s', h⟩⟩
    · exact .inl ⟨rfl, h⟩
    · exact .inr (.inl ⟨rfl, h⟩)
    · exact .inr (.inr ⟨s', rfl, h⟩)

theorem Affected.eq_inLayer {i : Nat} {k : Key} (h : Affected i k) : ∃ p s, k = inLayer i (p :: s) := by
  obtain rfl | rfl | ⟨s, rfl⟩ := h
  · exact ⟨_, _, rfl⟩
  · exact ⟨_, _, rfl⟩
  · exact ⟨_, _, rfl⟩

/-- A layer in one format has one counterpart in the other. -/
theorem Corresponds.prime_unique {hf p p' : LayerWeights R} (h : Corresponds hf p) (h' : Corresponds hf p') : p = p' := by
  obtain ⟨hdense, rfl⟩ | ⟨x, g, hx, hp, hsame⟩ := h
  · obtain ⟨-, rfl⟩ | ⟨y, g', hy, -⟩ := h'
    · rfl
    · exact absurd (hy.gate.symm.trans hdense.1) (by simp)
  · obtain ⟨hdense, -⟩ | ⟨y, g', hy, hp', hsame'⟩ := h'
    · exact absurd (hx.gate.symm.trans hdense.1) (by simp)
    · funext s
      by_cases hs : Affected 0 (inLayer 0 s)
      · obtain hs | hs | ⟨s', hs⟩ := hs
        · obtain rfl := List.append_cancel_left hs
          rw [hp.gate, hp'.gate]
        · obtain rfl := List.append_cancel_left hs
          rw [hp.router, hp'.router, ← hx.gate, ← hy.gate]
        · obtain rfl := List.append_cancel_left hs
          rw [hp.experts, hp'.experts, Experts.stacked_congr fun s => (hx.experts s).symm.trans (hy.experts s)]
      · rw [← hsame s hs, hsame' s hs]

theorem Corresponds.hf_unique {p hf hf' : LayerWeights R} (h : Corresponds hf p) (h' : Corresponds hf' p) : hf = hf' := by
  obtain ⟨hdense, rfl⟩ | ⟨x, g, hx, hp, hsame⟩ := h
  · obtain ⟨-, rfl⟩ | ⟨y, g', -, hy, -⟩ := h'
    · rfl
    · exact absurd (hy.router.symm.trans hdense.2) (by simp)
  · obtain ⟨hdense, rfl⟩ | ⟨y, g', hy, hp', hsame'⟩ := h'
    · exact absurd (hp.router.symm.trans hdense.2) (by simp)
    · funext s
      by_cases hs : Affected 0 (inLayer 0 s)
      · obtain hs | hs | ⟨s', hs⟩ := hs
        · obtain rfl := List.append_cancel_left hs
          rw [hx.gate, hy.gate, ← hp.router, ← hp'.router]
        · obtain rfl := List.append_cancel_left hs
          rw [hx.router, hy.router]
        · obtain rfl := List.append_cancel_left hs
          rw [hx.experts, hy.experts, Experts.oneByOne_congr fun s => (hp.experts s).symm.trans (hp'.experts s)]
      · rw [hsame s hs, hsame' s hs]

/-! ## Stacking the experts -/

section Stack

variable {i : Nat} {d : StateDict R} {x : Experts R}

theorem copyTo_of_shape {t : Tensor R} {size : List Nat} (h : t.shape = size) : t.copyTo size = .ok t := if_pos h

def dropExpert (i j : Nat) (d : StateDict R) : StateDict R :=
  ((d.erase (expertKey i j "gate_proj")).erase (expertKey i j "down_proj")).erase (expertKey i j "up_proj")

theorem get?_dropExpert (i j : Nat) (d : StateDict R) (k : Key) :
    (dropExpert i j d).get? k = if ∃ p ∈ projections, k = expertKey i j p then none else d.get? k := by
  unfold dropExpert
  simp only [Dict.get?_erase]
  by_cases hk : ∃ p ∈ projections, k = expertKey i j p
  · rw [if_pos hk]
    obtain ⟨p, hp, rfl⟩ := hk
    simp only [projections, List.mem_cons, List.not_mem_nil, or_false] at hp
    obtain rfl | rfl | rfl := hp <;> simp
  · have hne : ∀ p ∈ projections, expertKey i j p ≠ k := fun p hp heq => hk ⟨p, hp, heq.symm⟩
    rw [if_neg hk, if_neg (hne _ (by simp)), if_neg (hne _ (by simp)), if_neg (hne _ (by simp))]

theorem copyExpert_eq {j : Nat} {g u v : Tensor R} (ws : List (Tensor R × Tensor R × Tensor R))
    (hg : x.gate[j]? = some g) (hv : x.down[j]? = some v) (hu : x.up[j]? = some u)
    (h : ∀ p l, x.proj p = some l → d.get? (expertKey i j p) = l[j]?) :
    copyExpert i x.dim x.moeDim (ws, d) j = .ok (ws ++ [(g, v, u)], dropExpert i j d) := by
  have hgate : d.get? (expertKey i j "gate_proj") = some g := (h "gate_proj" _ rfl).trans hg
  have hdown : d.get? (expertKey i j "down_proj") = some v := (h "down_proj" _ rfl).trans hv
  have hup : d.get? (expertKey i j "up_proj") = some u := (h "up_proj" _ rfl).trans hu
  unfold copyExpert lookup
  simp only [hgate, hdown, hup, copyTo_of_shape (x.gate_shape g (List.mem_of_getElem? hg)),
    copyTo_of_shape (x.down_shape v (List.mem_of_getElem? hv)), copyTo_of_shape (x.up_shape u (List.mem_of_getElem? hu)),
    ok_bind]
  rfl

theorem foldlM_copyExpert (h : ∀ j, j < x.gate.length → ∀ p l, x.proj p = some l → d.get? (expertKey i j p) = l[j]?)
    {m : Nat} (hm : m ≤ x.gate.length) :
    ∃ ws d', (List.range m).foldlM (copyExpert i x.dim x.moeDim) ([], d) = .ok (ws, d') ∧
      ws.map (·.1) = x.gate.take m ∧ ws.map (·.2.1) = x.down.take m ∧ ws.map (·.2.2) = x.up.take m ∧
      (∀ j, j < m → ∀ p ∈ projections, d'.get? (expertKey i j p) = none) ∧
      ∀ k, (∀ j, j < m → ∀ p ∈ projections, k ≠ expertKey i j p) → d'.get? k = d.get? k := by
  induction m with
  | zero => exact ⟨[], d, rfl, rfl, rfl, rfl, fun j hj => absurd hj (Nat.not_lt_zero j), fun _ _ => rfl⟩
  | succ m ih =>
      obtain ⟨ws, d', hd', hgate, hdown, hup, hgone, hsame⟩ := ih (Nat.le_of_succ_le hm)
      have hv' := x.down_length
      have hu' := x.up_length
      obtain ⟨g, hg⟩ : ∃ g, x.gate[m]? = some g := ⟨_, List.getElem?_eq_getElem hm⟩
      obtain ⟨v, hv⟩ : ∃ v, x.down[m]? = some v := ⟨_, List.getElem?_eq_getElem (by omega)⟩
      obtain ⟨u, hu⟩ : ∃ u, x.up[m]? = some u := ⟨_, List.getElem?_eq_getElem (by omega)⟩
      have hbody := copyExpert_eq (i := i) (d := d') ws hg hv hu fun p l hp => by
        rw [hsame, h m hm p l hp]
        rintro j hj q -
        simp [hj.ne']
      refine ⟨ws ++ [(g, v, u)], dropExpert i m d', ?_, ?_, ?_, ?_, fun j hj p hp => ?_, fun k hk => ?_⟩
      · rw [List.range_succ, List.foldlM_append, hd', ok_bind, List.foldlM_cons, hbody]
        rfl
      · rw [List.map_append, hgate, List.take_add_one, hg]
        rfl
      · rw [List.map_append, hdown, List.take_add_one, hv]
        rfl
      · rw [List.map_append, hup, List.take_add_one, hu]
        rfl
      · rw [get?_dropExpert]
        split_ifs with heq
        · rfl
        · refine hgone j (lt_of_le_of_ne (Nat.le_of_lt_succ hj) fun hjm => heq ⟨p, hp, hjm ▸ rfl⟩) p hp
      · rw [get?_dropExpert, if_neg]
        · exact hsame k fun j hj => hk j (Nat.lt_succ_of_lt hj)
        · rintro ⟨p, hp, heq⟩
          exact hk m (Nat.lt_succ_self m) p hp heq

/-- **Stacking**: the experts of a layer, in the order of their indices. -/
theorem stackExperts_spec
    (h : ∀ j, j < x.gate.length → ∀ p l, x.proj p = some l → d.get? (expertKey i j p) = l[j]?) :
    ∃ d', stackExperts i (3 * x.gate.length) d = .ok d' ∧ (∀ s t, x.stacked s = some t →
        d'.get? (inLayer i ("mlp" :: "experts" :: s)) = some t) ∧
      (∀ j, j < x.gate.length → ∀ p ∈ projections, d'.get? (expertKey i j p) = none) ∧
      ∀ k, (∀ j, j < x.gate.length → ∀ p ∈ projections, k ≠ expertKey i j p) →
        (∀ w ∈ ["w1", "w2", "w3"], k ≠ stackKey i w) → d'.get? k = d.get? k := by
  have hpos : x.gate.length ≠ 0 := by simpa using x.ne_nil
  have hdiv : 3 * x.gate.length / 3 = x.gate.length := by omega
  obtain ⟨ws, d', hd', hgate, hdown, hup, hgone, hsame⟩ := foldlM_copyExpert h (Nat.le_refl _)
  rw [List.take_length] at hgate
  rw [← x.down_length, List.take_length] at hdown
  rw [← x.up_length, List.take_length] at hup
  obtain ⟨v, hv⟩ : ∃ v, x.down[0]? = some v := ⟨_, List.getElem?_eq_getElem (by rw [x.down_length]; omega)⟩
  have hfirst : d.get? (expertKey i 0 "down_proj") = some v := (h 0 (by omega) "down_proj" _ rfl).trans hv
  refine ⟨insertStacks i (.rows x.gate) (.rows x.down) (.rows x.up) d', ?_, fun s t ht => ?_, fun j hj p hp => ?_,
    fun k hk hstack => ?_⟩
  · unfold stackExperts lookup
    simp only [hdiv, if_neg hpos, hfirst, x.down_shape v (List.mem_of_getElem? hv), hd', ok_bind, hgate, hdown, hup]
    rfl
  · obtain ⟨w, hw, rfl⟩ := x.stacked_eq_some ht
    unfold insertStacks
    simp only [List.mem_cons, List.not_mem_nil, or_false] at hw
    obtain rfl | rfl | rfl := hw
    · rw [Dict.get?_insert, if_neg (by simp), Dict.get?_insert, if_neg (by simp), Dict.get?_insert, if_pos rfl]
      exact ht
    · rw [Dict.get?_insert, if_neg (by simp), Dict.get?_insert, if_pos rfl]
      exact ht
    · rw [Dict.get?_insert, if_pos rfl]
      exact ht
  · unfold insertStacks
    rw [Dict.get?_insert, if_neg (by simp), Dict.get?_insert, if_neg (by simp), Dict.get?_insert, if_neg (by simp)]
    exact hgone j hj p hp
  · unfold insertStacks
    rw [Dict.get?_insert, if_neg (hstack "w3" (by simp)).symm, Dict.get?_insert, if_neg (hstack "w2" (by simp)).symm,
      Dict.get?_insert, if_neg (hstack "w1" (by simp)).symm]
    exact hsame k hk

/-- The keys of the experts of a layer, three for each. -/
theorem length_expertKeys {keys : List Key} (hnodup : keys.Nodup)
    (hkeys : ∀ k, k ∈ keys ↔ ∃ j, j < x.gate.length ∧ ∃ p ∈ projections, k = expertKey i j p) :
    keys.length = 3 * x.gate.length := by
  have hnodup' : ((List.range x.gate.length).flatMap fun j => projections.map (expertKey i j)).Nodup := by
    rw [List.nodup_flatMap]
    constructor
    · intro j _
      simp [projections]
    · refine List.nodup_range.imp_of_mem ?_
      intro j j' _ _ hne k hk hk'
      obtain ⟨p, -, rfl⟩ := List.mem_map.1 hk
      obtain ⟨p', -, heq⟩ := List.mem_map.1 hk'
      simp at heq
      exact hne heq.1.symm
  have hperm : keys.Perm ((List.range x.gate.length).flatMap fun j => projections.map (expertKey i j)) := by
    refine (List.perm_ext_iff_of_nodup hnodup hnodup').2 fun k => ?_
    rw [hkeys, List.mem_flatMap]
    refine exists_congr fun j => ?_
    rw [List.mem_range, List.mem_map]
    refine and_congr_right fun _ => exists_congr fun p => and_congr_right fun _ => eq_comm
  rw [hperm.length_eq, List.length_flatMap]
  simp [projections, Nat.mul_comm]

/-! ## The conversion of a layer -/

theorem mem_experts_iff (hexperts : ∀ s, d.get? (inLayer i ("mlp" :: "experts" :: s)) = x.oneByOne s) (s : Key) :
    inLayer i ("mlp" :: "experts" :: s) ∈ d.keys ↔
      ∃ j, j < x.gate.length ∧ ∃ p ∈ projections, inLayer i ("mlp" :: "experts" :: s) = expertKey i j p := by
  rw [Dict.mem_keys_iff, hexperts, x.exists_oneByOne]
  simp

/-- **To the training format**: the weights of a MoE layer whose experts come one by one. -/
theorem convertHfLayerToTt_spec {g : Tensor R} (hgate : d.get? (inLayer i ["mlp", "gate", "weight"]) = some g)
    (hexperts : ∀ s, d.get? (inLayer i ("mlp" :: "experts" :: s)) = x.oneByOne s)
    (hmentions : ∀ k ∈ d.keys, mentionsExperts i k = true → ∃ s, k = inLayer i ("mlp" :: "experts" :: s)) :
    ∃ e, convertHfLayerToTt i d = .ok e ∧ PrimeMoe x g (e.layer i) ∧ ∀ k, ¬ Affected i k → e.get? k = d.get? k := by
  obtain ⟨d₁, hd₁, hrouter₁, hgate₁, hsame₁⟩ := moveKey_spec (routerKey i) hgate (by simp)
  have hexperts₁ : ∀ s, d₁.get? (inLayer i ("mlp" :: "experts" :: s)) = x.oneByOne s := fun s => by
    rw [hsame₁ _ (by simp) (by simp), hexperts]
  have hcount : (d₁.keys.filter (mentionsExperts i)).length = 3 * x.gate.length := by
    refine length_expertKeys (i := i) (d₁.nodup.filter _) fun k => ?_
    rw [List.mem_filter]
    constructor
    · rintro ⟨hk, hmention⟩
      obtain ⟨s, rfl⟩ : ∃ s, k = inLayer i ("mlp" :: "experts" :: s) := by
        by_cases hrouter : k = routerKey i
        · subst hrouter
          obtain ⟨-, htext⟩ := mentionsExperts_inLayer (List.cons_ne_nil _ _) (by decide) hmention
          exact absurd htext (by decide)
        · by_cases hgate' : k = inLayer i ["mlp", "gate", "weight"]
          · rw [hgate', Dict.mem_keys_iff, hgate₁] at hk
            obtain ⟨t, ht⟩ := hk
            cases ht
          · rw [Dict.mem_keys_iff, hsame₁ k hgate' hrouter, ← Dict.mem_keys_iff] at hk
            exact hmentions k hk hmention
      exact (mem_experts_iff hexperts₁ s).1 hk
    · rintro ⟨j, hj, p, hp, rfl⟩
      exact ⟨(mem_experts_iff hexperts₁ _).2 ⟨j, hj, p, hp, rfl⟩, mentionsExperts_experts i _ _⟩
  obtain ⟨e, he, hstacked, hgone, hsame⟩ := stackExperts_spec (i := i) (d := d₁) (x := x) fun j _ p l hl => by
    refine (hexperts₁ [.index j, .name p, .name "weight"]).trans ?_
    show (x.proj p).bind _ = _
    rw [hl]
    rfl
  have hsame' : ∀ k, (∀ s, k ≠ inLayer i ("mlp" :: "experts" :: s)) → e.get? k = d₁.get? k := fun k hk =>
    hsame k (fun _ _ _ _ => hk _) fun _ _ => hk _
  refine ⟨e, ?_, ⟨?_, ?_, fun s => ?_⟩, fun k hk => ?_⟩
  · unfold convertHfLayerToTt
    have hfused : d₁.get? (inLayer i ["mlp", "experts", "gate_up_proj"]) = none := hexperts₁ ["gate_up_proj"]
    rw [if_pos (Option.isSome_of_eq_some hgate), hd₁, ok_bind, if_neg (Option.not_isSome_iff_eq_none.2 hfused), hcount, he]
  · exact (hsame' _ (by simp)).trans hgate₁
  · exact (hsame' _ (by simp)).trans hrouter₁
  · show e.get? (inLayer i ("mlp" :: "experts" :: s)) = x.stacked s
    cases hs : x.stacked s with
    | some t => exact hstacked s t hs
    | none =>
        by_cases hkey : ∃ j, j < x.gate.length ∧ ∃ p ∈ projections, inLayer i ("mlp" :: "experts" :: s) = expertKey i j p
        · obtain ⟨j, hj, p, hp, heq⟩ := hkey
          rw [heq]
          exact hgone j hj p hp
        · rw [hsame, Dict.get?_eq_none_iff]
          · exact fun hk => hkey ((mem_experts_iff hexperts₁ s).1 hk)
          · exact fun j hj p hp heq => hkey ⟨j, hj, p, hp, heq⟩
          · intro w hw heq
            obtain rfl : s = [.name w] := by simpa using heq
            simp only [List.mem_cons, List.not_mem_nil, or_false] at hw
            obtain rfl | rfl | rfl := hw <;> cases hs
  · rw [hsame' k fun s hs => hk (.inr (.inr ⟨s, hs⟩))]
    exact hsame₁ k (fun h => hk (.inl h)) fun h => hk (.inr (.inl h))

/-- **From the training format**: the weights of a MoE layer whose experts are stacked. -/
theorem convertTtLayerToHf_spec {g : Tensor R} (h : PrimeMoe x g (d.layer i)) :
    ∃ e, convertTtLayerToHf i d = .ok e ∧ HfMoe x g (e.layer i) ∧ ∀ k, ¬ Affected i k → e.get? k = d.get? k := by
  have hrouter : d.get? (routerKey i) = some g := h.router
  obtain ⟨e, he, hgate, hexperts, ⟨hgone, hgone'⟩, hsame⟩ := convertRoutedToHf_spec hrouter (h.experts ["w1"])
    (h.experts ["w2"]) (h.experts ["w3"]) x.down_length x.up_length
  refine ⟨e, (if_pos (Option.isSome_of_eq_some hrouter)).trans he, ⟨hgate, hgone, fun s => ?_⟩, fun k hk => ?_⟩
  · show e.get? (inLayer i ("mlp" :: "experts" :: s)) = x.oneByOne s
    by_cases hkey : ∃ j, j < x.gate.length ∧ ∃ p ∈ projections, inLayer i ("mlp" :: "experts" :: s) = expertKey i j p
    · obtain ⟨j, hj, p, hp, heq⟩ := hkey
      obtain rfl : s = [.index j, .name p, .name "weight"] := by simpa using heq
      obtain ⟨hg, hv, hu⟩ := hexperts j hj
      simp only [projections, List.mem_cons, List.not_mem_nil, or_false] at hp
      obtain rfl | rfl | rfl := hp
      · exact hg
      · exact hv
      · exact hu
    · have hnone : x.oneByOne s = none := by
        by_contra hsome
        obtain ⟨j, hj, p, hp, rfl⟩ := x.exists_oneByOne.1 (Option.ne_none_iff_exists'.1 hsome)
        exact hkey ⟨j, hj, p, hp, rfl⟩
      rw [hnone]
      by_cases hstack : ∃ w ∈ ["w1", "w2", "w3"], inLayer i ("mlp" :: "experts" :: s) = stackKey i w
      · obtain ⟨w, hw, heq⟩ := hstack
        rw [heq]
        exact hgone' w hw
      · rw [hsame _ (by simp) (fun w hw heq => hstack ⟨w, hw, heq⟩) (by simp)
          fun j hj p hp heq => hkey ⟨j, hj, p, hp, heq⟩]
        refine (h.experts s).trans ?_
        by_contra hsome
        obtain ⟨t, ht⟩ := Option.ne_none_iff_exists'.1 hsome
        obtain ⟨w, hw, rfl⟩ := x.stacked_eq_some ht
        exact hstack ⟨w, hw, rfl⟩
  · refine hsame k (fun heq => hk (.inr (.inl heq))) (fun w _ heq => hk (.inr (.inr ⟨_, heq⟩))) (fun heq => hk (.inl heq))
      fun j _ p _ heq => hk (.inr (.inr ⟨_, heq⟩))

end Stack

end AuroraRl.Weights.Qwen3Moe
