import AuroraRl.Weights.NemotronSlots
import AuroraRl.Weights.Undo
import Mathlib.Data.List.Dedup

/-!
# The experts and the router bias of NemotronH, back and forth

* `slotToPrime_experts` : the projections of the experts become the stacks, in the order of their indices;
* `undoes_primeExperts`, `undoes_hfExperts` : stacking undoes unstacking, and the other way round;
* `undoes_primeBias`, `undoes_hfBias` : the router bias, up to a constant shift.
-/

namespace AuroraRl.Weights.NemotronH

variable {R : Type} {i : Nat} {d : StateDict R}

/-! ## What may differ -/

/-- The router bias of a layer, in either format, by what follows the root. -/
def isRouterBias : Key → Bool
  | [b, .index _, m, g, e] => b = "layers" && ((m = "mlp" && g = "router") || (m = "mixer" && g = "gate")) &&
      e = "e_score_correction_bias"
  | _ => false

def isBias : Key → Bool
  | a :: k => (a = "model" || a = "backbone") && isRouterBias k
  | [] => false

/-- The value is the same, but for a constant shift of a router bias. -/
def UpToShift [Sub R] : ValueRel Key (Tensor R) := fun k a b =>
  b = a ∨ isBias k = true ∧ ∃ t m, a = some t ∧ b = some (t.map (· - m))

theorem UpToShift.eq_none [Sub R] {k : Key} {b : Option (Tensor R)} (h : UpToShift k none b) : b = none := by
  obtain h | ⟨-, t, m, ht, -⟩ := h
  · exact h
  · cases ht

/-! ## The experts -/

theorem expertIndices_eq {keys : List Key} {n : Nat}
    (hlt : ∀ k ∈ keys, ∀ j, expertIndex i k = some j → j < n) (hmem : ∀ j, j < n → upKey i j ∈ keys) :
    expertIndices i keys = List.range n := by
  have hmem' : ∀ j, j ∈ (keys.filterMap (expertIndex i)).dedup ↔ j ∈ List.range n := by
    intro j
    rw [List.mem_dedup, List.mem_filterMap, List.mem_range]
    constructor
    · rintro ⟨k, hk, hj⟩
      exact hlt k hk j hj
    · intro hj
      refine ⟨_, hmem j hj, ?_⟩
      simp [expertIndex, Key.under]
  unfold expertIndices
  refine List.Perm.eq_of_pairwise' (List.pairwise_insertionSort (· ≤ ·) _) List.pairwise_le_range ?_
  refine (List.perm_insertionSort _ _).trans ?_
  exact (List.perm_ext_iff_of_nodup (List.nodup_dedup _) List.nodup_range).2 hmem'

theorem getElem?_of_map_some {α : Type} {ts : List α} {n : Nat} {f : Nat → Option α}
    (h : ts.map some = (List.range n).map f) (j : Nat) : ts[j]? = if j < n then f j else none := by
  have hlen : ts.length = n := by simpa using congrArg List.length h
  split_ifs with hj
  · have hget := congrArg (·[j]?) h
    simp only [List.getElem?_map, List.getElem?_range hj, Option.map_some] at hget
    obtain ⟨t, ht⟩ : ∃ t, ts[j]? = some t := ⟨_, List.getElem?_eq_getElem (hlen ▸ hj)⟩
    rw [ht] at hget ⊢
    exact Option.some.inj hget
  · exact List.getElem?_eq_none (by omega)

theorem eq_of_map_some {α : Type} {ts l : List α} {n : Nat} {f : Nat → Option α}
    (h : ts.map some = (List.range n).map f) (hlen : l.length = n) (hf : ∀ j, f j = l[j]?) : ts = l := by
  refine List.ext_getElem? fun j => ?_
  rw [getElem?_of_map_some h, hf]
  split_ifs with hj
  · rfl
  · exact (List.getElem?_eq_none (by omega)).symm

/-- The values at some keys, popped and stacked under a key of their own. -/
theorem stackAll_spec {n : Nat} (hn : n ≠ 0) (key : Nat → Key) (hinj : Function.Injective key) (target : Key)
    (hmem : ∀ j, j < n → key j ∈ d.keys)
    (hshape : ∀ ts : List (Tensor R), ts.map some = (List.range n).map (d.get? <| key ·) → Tensor.OneShape ts) :
    ∃ ts d', popAll ((List.range n).map key) d (fun ts d => do return d.insert target (← Tensor.stack ts)) = .ok d' ∧
      ts.map some = (List.range n).map (d.get? <| key ·) ∧
      ∀ k, d'.get? k =
        if target = k then some (.rows ts) else if k ∈ (List.range n).map key then none else d.get? k := by
  obtain ⟨ts, e, he, hts, hget⟩ := popAll_spec (d := d) ((List.range n).map key) (List.nodup_range.map hinj)
    (fun k hk => by
      obtain ⟨j, hj, rfl⟩ := List.mem_map.1 hk
      exact hmem j (List.mem_range.1 hj))
    fun ts d => do return d.insert target (← Tensor.stack ts)
  have hts' : ts.map some = (List.range n).map (d.get? <| key ·) := by
    rw [hts, List.map_map]
    rfl
  have hstack : Tensor.stack ts = .ok (.rows ts) := by
    refine Tensor.stack_of_oneShape (fun hnil => hn ?_) (hshape ts hts')
    have hlen := congrArg List.length hts'
    rw [hnil, List.length_map, List.length_map, List.length_range] at hlen
    exact hlen.symm
  refine ⟨ts, e.insert target (.rows ts), ?_, hts', fun k => ?_⟩
  · rw [he, hstack]
    rfl
  · rw [Dict.get?_insert, hget]

/-- **The experts** of a layer become its stacks, in the order of their indices. -/
theorem slotToPrime_experts [Sub R] [Min R] {n : Nat} (hn : n ≠ 0)
    (hlt : ∀ k ∈ d.keys, ∀ j, expertIndex i k = some j → j < n)
    (hup : ∀ j, j < n → upKey i j ∈ d.keys) (hdown : ∀ j, j < n → downKey i j ∈ d.keys)
    (hups : ∀ us : List (Tensor R), us.map some = (List.range n).map (d.get? <| upKey i ·) → Tensor.OneShape us)
    (hdowns : ∀ vs : List (Tensor R), vs.map some = (List.range n).map (d.get? <| downKey i ·) → Tensor.OneShape vs) :
    ∃ us vs d', slotToPrime i .experts d = .ok d' ∧ us.map some = (List.range n).map (d.get? <| upKey i ·) ∧
      vs.map some = (List.range n).map (d.get? <| downKey i ·) ∧ d'.get? (stackKey i "w1") = some (.rows us) ∧
      d'.get? (stackKey i "w2") = some (.rows vs) ∧ d'.get? (stackKey i "w3") = some (.rows []) ∧
      (∀ j, j < n → d'.get? (upKey i j) = none ∧ d'.get? (downKey i j) = none) ∧
      ∀ k, (∀ j, j < n → k ≠ upKey i j ∧ k ≠ downKey i j) → (∀ w ∈ ["w1", "w2", "w3"], k ≠ stackKey i w) →
        d'.get? k = d.get? k := by
  have hkeys : d.keys.filter (fun k => (expertIndex i k).isSome) ≠ [] := by
    refine List.ne_nil_of_mem (List.mem_filter.2 ⟨hup 0 (Nat.pos_of_ne_zero hn), ?_⟩)
    simp [expertIndex, Key.under]
  have hindices : expertIndices i (d.keys.filter fun k => (expertIndex i k).isSome) = List.range n := by
    refine expertIndices_eq (fun k hk => hlt k (List.mem_filter.1 hk).1) fun j hj => List.mem_filter.2 ⟨hup j hj, ?_⟩
    simp [expertIndex, Key.under]
  have hmem : ∀ (key : Nat → Key) k, k ∈ (List.range n).map key ↔ ∃ j, j < n ∧ key j = k := by
    intro key k
    simp
  obtain ⟨us, d₁, hd₁, hus, hget₁⟩ :=
    stackAll_spec hn (upKey i) (fun j j' h => by simpa using h) (stackKey i "w1") hup hups
  have hdown₁ : ∀ j, d₁.get? (downKey i j) = d.get? (downKey i j) := by
    intro j
    rw [hget₁, if_neg (by simp), if_neg (by simp)]
  have hread : (List.range n).map (d₁.get? <| downKey i ·) = (List.range n).map (d.get? <| downKey i ·) :=
    List.map_congr_left fun j _ => hdown₁ j
  obtain ⟨vs, d₂, hd₂, hvs, hget₂⟩ :=
    stackAll_spec hn (downKey i) (fun j j' h => by simpa using h) (stackKey i "w2")
      (fun j hj => by
        obtain ⟨t, ht⟩ := Dict.mem_keys_iff.1 (hdown j hj)
        exact Dict.mem_keys_iff.2 ⟨t, (hdown₁ j).trans ht⟩)
      fun vs hvs => hdowns vs (hvs.trans hread)
  refine ⟨us, vs, d₂.insert (stackKey i "w3") (.rows []), ?_, hus, hvs.trans hread, ?_, ?_, ?_,
    fun j hj => ⟨?_, ?_⟩, fun k hk hkstack => ?_⟩
  · show convertHfExpertsToPrime i (d.keys.filter fun k => (expertIndex i k).isSome) d >>= assign _ _ = _
    unfold convertHfExpertsToPrime
    rw [if_pos hkeys, hindices]
    change (popAll ((List.range n).map (upKey i)) d _ >>= fun d => popAll ((List.range n).map (downKey i)) d _) >>= _ = _
    rw [hd₁, ok_bind, hd₂]
    rfl
  · rw [Dict.get?_insert, if_neg (by simp), hget₂, if_neg (by simp), if_neg (by simp), hget₁, if_pos rfl]
  · rw [Dict.get?_insert, if_neg (by simp), hget₂, if_pos rfl]
  · rw [Dict.get?_insert, if_pos rfl]
  · rw [Dict.get?_insert, if_neg (by simp), hget₂, if_neg (by simp), if_neg (by simp), hget₁, if_neg (by simp),
      if_pos ((hmem _ _).2 ⟨j, hj, rfl⟩)]
  · rw [Dict.get?_insert, if_neg (by simp), hget₂, if_neg (by simp), if_pos ((hmem _ _).2 ⟨j, hj, rfl⟩)]
  · rw [Dict.get?_insert, if_neg (hkstack "w3" (by simp)).symm, hget₂, if_neg (hkstack "w2" (by simp)).symm, if_neg,
      hget₁, if_neg (hkstack "w1" (by simp)).symm, if_neg]
    · intro h
      obtain ⟨j, hj, rfl⟩ := (hmem _ k).1 h
      exact (hk j hj).1 rfl
    · intro h
      obtain ⟨j, hj, rfl⟩ := (hmem _ k).1 h
      exact (hk j hj).2 rfl

/-- Stacking undoes unstacking. -/
theorem undoes_primeExperts [Sub R] [Min R] {us vs : List (Tensor R)} (hne : us ≠ []) (hlen : vs.length = us.length)
    (hw₁ : d.get? (stackKey i "w1") = some (.rows us)) (hw₂ : d.get? (stackKey i "w2") = some (.rows vs))
    (hw₃ : d.get? (stackKey i "w3") = some (.rows [])) (hushape : Tensor.OneShape us) (hvshape : Tensor.OneShape vs)
    (hfresh : ∀ p s, inLayer i ("mixer" :: p :: s) ∉ d.keys) :
    Undoes Exact Exact (slotToHf i .experts) (slotToPrime i .experts) d := by
  obtain ⟨e, he, hup, hdown, hgone, hsame⟩ := slotToHf_experts hw₁ hw₂ hfresh
  refine ⟨e, he, fun z hz => ?_⟩
  have hmixer : ∀ p s, (∀ j, inLayer i ("mixer" :: p :: s) ≠ upKey i j) →
      (∀ j, inLayer i ("mixer" :: p :: s) ≠ downKey i j) → z.get? (inLayer i ("mixer" :: p :: s)) = none := by
    intro p s hu hd
    rw [hz _, hsame _ hu hd fun w _ => by simp, Dict.get?_eq_none_iff]
    exact hfresh p s
  have hmem : ∀ j, j < us.length → upKey i j ∈ z.keys ∧ downKey i j ∈ z.keys := by
    intro j hj
    obtain ⟨u, hu⟩ : ∃ u, us[j]? = some u := ⟨_, List.getElem?_eq_getElem hj⟩
    obtain ⟨v, hv⟩ : ∃ v, vs[j]? = some v := ⟨_, List.getElem?_eq_getElem (hlen ▸ hj)⟩
    refine ⟨Dict.mem_keys_iff.2 ⟨u, ?_⟩, Dict.mem_keys_iff.2 ⟨v, ?_⟩⟩
    · rw [hz _, hup, hu]
    · rw [hz _, hdown, hv]
  have hlt : ∀ k ∈ z.keys, ∀ j, expertIndex i k = some j → j < us.length := by
    intro k hk j hj
    obtain ⟨t, ht⟩ := Dict.mem_keys_iff.1 hk
    obtain ⟨s, rfl⟩ := expertIndex_eq_some hj
    by_contra hge
    rw [hmixer] at ht
    · cases ht
    · rintro j' heq
      obtain ⟨rfl, rfl⟩ : j = j' ∧ s = ([.name "up_proj", .name "weight"] : Key) := by simpa using heq
      rw [hz _, hup, List.getElem?_eq_none (by omega)] at ht
      cases ht
    · rintro j' heq
      obtain ⟨rfl, rfl⟩ : j = j' ∧ s = ([.name "down_proj", .name "weight"] : Key) := by simpa using heq
      rw [hz _, hdown, List.getElem?_eq_none (by omega)] at ht
      cases ht
  have hups : ∀ us' : List (Tensor R), us'.map some = (List.range us.length).map (z.get? <| upKey i ·) → us' = us :=
    fun us' hus => eq_of_map_some hus rfl fun j => (hz _).trans (hup j)
  have hdowns : ∀ vs' : List (Tensor R), vs'.map some = (List.range us.length).map (z.get? <| downKey i ·) → vs' = vs :=
    fun vs' hvs => eq_of_map_some hvs hlen fun j => (hz _).trans (hdown j)
  obtain ⟨us', vs', w, hw, hus, hvs, hw₁', hw₂', hw₃', hgone', hsame'⟩ :=
    slotToPrime_experts (by simpa using hne) hlt (fun j hj => (hmem j hj).1) (fun j hj => (hmem j hj).2)
      (fun us' hus => hups us' hus ▸ hushape) fun vs' hvs => hdowns vs' hvs ▸ hvshape
  have hus' := hups us' hus
  have hvs' := hdowns vs' hvs
  refine ⟨w, hw, fun k => ?_⟩
  by_cases hstack : ∃ a ∈ ["w1", "w2", "w3"], k = stackKey i a
  · obtain ⟨a, ha, rfl⟩ := hstack
    simp only [List.mem_cons, List.not_mem_nil, or_false] at ha
    obtain rfl | rfl | rfl := ha
    · exact hw₁'.trans (hus' ▸ hw₁.symm)
    · exact hw₂'.trans (hvs' ▸ hw₂.symm)
    · exact hw₃'.trans hw₃.symm
  · have hstack' : ∀ a ∈ ["w1", "w2", "w3"], k ≠ stackKey i a := fun a ha heq => hstack ⟨a, ha, heq⟩
    by_cases hexpert : ∃ j, k = upKey i j ∨ k = downKey i j
    · have hnone : d.get? k = none := by
        obtain ⟨j, rfl | rfl⟩ := hexpert <;> exact Dict.get?_eq_none_iff.2 (hfresh _ _)
      show w.get? k = d.get? k
      rw [hnone]
      obtain ⟨j, hk⟩ := hexpert
      by_cases hj : j < us.length
      · obtain rfl | rfl := hk
        · exact (hgone' j hj).1
        · exact (hgone' j hj).2
      · have hother : ∀ j', j' < us.length → k ≠ upKey i j' ∧ k ≠ downKey i j' := by
          rintro j' hj'
          obtain rfl | rfl := hk
          · exact ⟨fun h => hj (by simp at h; omega), by simp⟩
          · exact ⟨by simp, fun h => hj (by simp at h; omega)⟩
        rw [hsame' k hother hstack', hz k]
        obtain rfl | rfl := hk
        · rw [hup, List.getElem?_eq_none (by omega)]
        · rw [hdown, List.getElem?_eq_none (by omega)]
    · have hexpert' : ∀ j, k ≠ upKey i j ∧ k ≠ downKey i j :=
        fun j => ⟨fun h => hexpert ⟨j, .inl h⟩, fun h => hexpert ⟨j, .inr h⟩⟩
      show w.get? k = d.get? k
      rw [hsame' k (fun j _ => hexpert' j) hstack', hz k, hsame k (fun j => (hexpert' j).1) (fun j => (hexpert' j).2) hstack']

/-- Values read off keys have one shape when those at any two keys have. -/
theorem oneShape_of_map_some {ts : List (Tensor R)} {n : Nat} {f : Nat → Option (Tensor R)}
    (h : ts.map some = (List.range n).map f)
    (hshape : ∀ j j' t t', f j = some t → f j' = some t' → t'.shape = t.shape) : Tensor.OneShape ts := by
  have hread : ∀ t ∈ ts, ∃ j, f j = some t := by
    intro t ht
    obtain ⟨j, hj⟩ := List.mem_iff_getElem?.1 ht
    rw [getElem?_of_map_some h] at hj
    split_ifs at hj
    exact ⟨j, hj⟩
  intro t ht t' ht'
  obtain ⟨j, hj⟩ := hread t ht
  obtain ⟨j', hj'⟩ := hread t' ht'
  exact hshape j j' t t' hj hj'

/-- Unstacking undoes stacking. -/
theorem undoes_hfExperts [Sub R] [Min R] {n : Nat} (hn : n ≠ 0) (hslot : ∀ k ∈ d.keys, slot k = .experts)
    (hexperts : ∀ s, inLayer i ("mixer" :: "experts" :: s) ∈ d.keys ↔
      ∃ j, j < n ∧ (s = ([.index j, "up_proj", "weight"] : Key) ∨ s = ([.index j, "down_proj", "weight"] : Key)))
    (hshapes : ∀ (p : Part) j j' t t', d.get? (inLayer i ["mixer", "experts", .index j, p, "weight"]) = some t →
      d.get? (inLayer i ["mixer", "experts", .index j', p, "weight"]) = some t' → t'.shape = t.shape)
    (hfresh : ∀ p s, inLayer i ("mlp" :: p :: s) ∉ d.keys) :
    Undoes Exact Exact (slotToPrime i .experts) (slotToHf i .experts) d := by
  obtain ⟨us, vs, e, he, hus, hvs, hw₁, hw₂, hw₃, hgone, hsame⟩ := slotToPrime_experts (i := i) (d := d) hn
    (fun k hk j hj => by
      obtain ⟨s, rfl⟩ := expertIndex_eq_some hj
      obtain ⟨j', hj', h | h⟩ := (hexperts _).1 hk
      · cases h
        exact hj'
      · cases h
        exact hj')
    (fun j hj => (hexperts _).2 ⟨j, hj, .inl rfl⟩) (fun j hj => (hexperts _).2 ⟨j, hj, .inr rfl⟩)
    (fun _ hus => oneShape_of_map_some hus (hshapes "up_proj")) fun _ hvs => oneShape_of_map_some hvs (hshapes "down_proj")
  have hnone : ∀ j, ¬ j < n → d.get? (upKey i j) = none ∧ d.get? (downKey i j) = none := by
    intro j hj
    rw [Dict.get?_eq_none_iff, Dict.get?_eq_none_iff]
    constructor <;> intro hk
    · obtain ⟨j', hj', h⟩ := (hexperts _).1 hk
      obtain rfl : j = j' := by simpa using h
      exact hj hj'
    · obtain ⟨j', hj', h⟩ := (hexperts _).1 hk
      obtain rfl : j = j' := by simpa using h
      exact hj hj'
  refine ⟨e, he, fun z hz => ?_⟩
  have hfresh' : ∀ p s, inLayer i ("mixer" :: p :: s) ∉ z.keys := by
    intro p s
    rw [← Dict.get?_eq_none_iff, hz _]
    by_cases hexpert : ∃ j, j < n ∧ (inLayer i ("mixer" :: p :: s) = upKey i j ∨ inLayer i ("mixer" :: p :: s) = downKey i j)
    · obtain ⟨j, hj, h | h⟩ := hexpert
      · rw [h]
        exact (hgone j hj).1
      · rw [h]
        exact (hgone j hj).2
    · rw [hsame _ (fun j hj => ⟨fun h => hexpert ⟨j, hj, .inl h⟩, fun h => hexpert ⟨j, hj, .inr h⟩⟩) (by simp),
        Dict.get?_eq_none_iff]
      intro hk
      by_cases hp : p = "experts"
      · subst hp
        obtain ⟨j, hj, rfl | rfl⟩ := (hexperts s).1 hk
        · exact hexpert ⟨j, hj, .inl rfl⟩
        · exact hexpert ⟨j, hj, .inr rfl⟩
      · have hother := hslot _ hk
        simp only [slot, slotOf, List.cons_append, List.nil_append] at hother
        simp only [if_neg hp] at hother
        split_ifs at hother
  obtain ⟨w, hw, hup, hdown, hgone', hsame'⟩ := slotToHf_experts ((hz _).trans hw₁) ((hz _).trans hw₂) hfresh'
  refine ⟨w, hw, fun k => ?_⟩
  show w.get? k = d.get? k
  by_cases hku : ∃ j, k = upKey i j
  · obtain ⟨j, rfl⟩ := hku
    rw [hup, getElem?_of_map_some hus]
    split_ifs with hj
    · rfl
    · exact (hnone j hj).1.symm
  · by_cases hkd : ∃ j, k = downKey i j
    · obtain ⟨j, rfl⟩ := hkd
      rw [hdown, getElem?_of_map_some hvs]
      split_ifs with hj
      · rfl
      · exact (hnone j hj).2.symm
    · by_cases hstack : ∃ a ∈ ["w1", "w2", "w3"], k = stackKey i a
      · obtain ⟨a, ha, rfl⟩ := hstack
        rw [hgone' a ha]
        exact (Dict.get?_eq_none_iff.2 (hfresh _ _)).symm
      · have hstack' : ∀ a ∈ ["w1", "w2", "w3"], k ≠ stackKey i a := fun a ha heq => hstack ⟨a, ha, heq⟩
        rw [hsame' k (fun j h => hku ⟨j, h⟩) (fun j h => hkd ⟨j, h⟩) hstack', hz k,
          hsame k (fun j _ => ⟨fun h => hku ⟨j, h⟩, fun h => hkd ⟨j, h⟩⟩) hstack']

/-! ## The router bias -/

abbrev primeBias (i : Nat) : Key := inLayer i ["mlp", "router", "e_score_correction_bias"]

abbrev hfBias (i : Nat) : Key := inLayer i ["mixer", "gate", "e_score_correction_bias"]

theorem convertHfBiasToPrime_spec [Sub R] [Min R] (hfresh : primeBias i ∉ d.keys)
    (hne : ∀ t, d.get? (hfBias i) = some t → t.elems ≠ []) :
    ∃ d', convertHfBiasToPrime i d = .ok d' ∧ UpToShift (primeBias i) (d.get? (hfBias i)) (d'.get? (primeBias i)) ∧
      d'.get? (hfBias i) = none ∧ ∀ k, k ≠ hfBias i → k ≠ primeBias i → d'.get? k = d.get? k := by
  cases ht : d.get? (hfBias i) with
  | none =>
      refine ⟨d, if_neg (Option.not_isSome_iff_eq_none.2 ht), .inl ?_, ht, fun _ _ _ => rfl⟩
      exact Dict.get?_eq_none_iff.2 hfresh
  | some t =>
      obtain ⟨m, hm⟩ : ∃ m, t.elems.min? = some m := by
        cases hm : t.elems.min? with
        | none => exact absurd (List.min?_eq_none_iff.1 hm) (hne t ht)
        | some m => exact ⟨m, rfl⟩
      refine ⟨(d.erase (hfBias i)).insert (primeBias i) (t.map (· - m)), ?_, .inr ⟨rfl, t, m, rfl, ?_⟩, ?_, ?_⟩
      · unfold convertHfBiasToPrime pop Tensor.subMin
        rw [if_pos (Option.isSome_of_eq_some ht), ht]
        simp only [hm]
        rfl
      · rw [Dict.get?_insert, if_pos rfl]
      · rw [Dict.get?_insert, if_neg (by simp), Dict.get?_erase, if_pos rfl]
      · intro k hh hp
        rw [Dict.get?_insert, if_neg hp.symm, Dict.get?_erase, if_neg hh.symm]

theorem undoes_primeBias [Sub R] [Min R] (hfresh : hfBias i ∉ d.keys)
    (hne : ∀ t, d.get? (primeBias i) = some t → t.elems ≠ []) :
    Undoes Exact UpToShift (slotToHf i .bias) (slotToPrime i .bias) d := by
  obtain ⟨e, he, hto, hgone, hsame⟩ := moveIfPresent_spec (show primeBias i ≠ hfBias i by simp) hfresh
  refine ⟨e, he, fun z hz => ?_⟩
  obtain ⟨w, hw, hshift, hgone', hsame'⟩ := convertHfBiasToPrime_spec (i := i) (d := z)
    (hz.notMem (fun _ _ h => h) (Dict.get?_eq_none_iff.1 hgone)) fun t ht => hne t (by rw [← hto, ← ht, hz _])
  refine ⟨w, hw, fun k => ?_⟩
  by_cases hkp : k = primeBias i
  · subst hkp
    rwa [hz _, hto] at hshift
  · by_cases hkh : k = hfBias i
    · subst hkh
      exact .inl (hgone'.trans (Dict.get?_eq_none_iff.2 hfresh).symm)
    · exact .inl ((hsame' k hkh hkp).trans ((hz k).trans (hsame k hkp hkh)))

theorem undoes_hfBias [Sub R] [Min R] (hfresh : primeBias i ∉ d.keys)
    (hne : ∀ t, d.get? (hfBias i) = some t → t.elems ≠ []) :
    Undoes Exact UpToShift (slotToPrime i .bias) (slotToHf i .bias) d := by
  obtain ⟨e, he, hshift, hgone, hsame⟩ := convertHfBiasToPrime_spec hfresh hne
  refine ⟨e, he, fun z hz => ?_⟩
  obtain ⟨w, hw, hto, hgone', hsame'⟩ := moveIfPresent_spec (d := z) (show primeBias i ≠ hfBias i by simp)
    (hz.notMem (fun _ _ h => h) (Dict.get?_eq_none_iff.1 hgone))
  refine ⟨w, hw, fun k => ?_⟩
  by_cases hkh : k = hfBias i
  · subst hkh
    rw [hto, hz _]
    obtain h | ⟨-, t, m, ht, h⟩ := hshift
    · exact .inl h
    · exact .inr ⟨rfl, t, m, ht, h⟩
  · by_cases hkp : k = primeBias i
    · subst hkp
      exact .inl (hgone'.trans (Dict.get?_eq_none_iff.2 hfresh).symm)
    · exact .inl ((hsame' k hkp hkh).trans ((hz k).trans (hsame k hkh hkp)))

end AuroraRl.Weights.NemotronH
