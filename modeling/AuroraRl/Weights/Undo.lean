import AuroraRl.Lib.Undo
import AuroraRl.Weights.StateDict

/-!
# Undoing what the converters do

* `undoes_renameKeys`, `undoes_moveIfPresent` : a renaming to fresh keys and the renaming back;
* `popAll_spec` : the values at keys that are there, popped one after the other.
-/

namespace AuroraRl.Weights

variable {R : Type} {r r' : ValueRel Key (Tensor R)} {d : StateDict R}

/-- A renaming to a fresh prefix, and back. -/
theorem undoes_renameKeys {a b : Key} (hfresh : ∀ p s, b ++ p :: s ∉ d.keys)
    (ha : ∀ p s, Key.under b (a ++ p :: s) = false)
    (hnone : ∀ k y, r k none y → y = none) (hnone' : ∀ k, r' k none none)
    (hmoved : ∀ p s x y, r (b ++ p :: s) x y → r' (a ++ p :: s) x y)
    (hsame : ∀ k x y, Key.under a k = false → Key.under b k = false → r k x y → r' k x y) :
    Undoes r r' (renameKeys a b) (renameKeys b a) d := by
  obtain ⟨e, he, hto, hgone, hstay⟩ := renameKeys_spec a hfresh
  refine ⟨e, he, fun z hz => ?_⟩
  have hfresh' : ∀ p s, a ++ p :: s ∉ z.keys := by
    intro p s
    refine hz.notMem hnone ?_
    rw [← Dict.get?_eq_none_iff]
    exact hgone _ (ha p s) (Key.under_append a p s)
  obtain ⟨w, hw, hto', hgone', hstay'⟩ := renameKeys_spec b hfresh'
  refine ⟨w, hw, fun k => ?_⟩
  cases hka : Key.under a k with
  | true =>
      obtain ⟨p, s, rfl⟩ := Key.under_iff.1 hka
      rw [hto', ← hto]
      exact hmoved p s _ _ (hz _)
  | false =>
      cases hkb : Key.under b k with
      | true =>
          obtain ⟨p, s, rfl⟩ := Key.under_iff.1 hkb
          rw [hgone' _ hka hkb, Dict.get?_eq_none_iff.2 (hfresh p s)]
          exact hnone' _
      | false =>
          rw [hstay' k hka hkb, ← hstay k hkb hka]
          exact hsame k _ _ hka hkb (hz k)

/-- A move to a fresh key, and back. -/
theorem undoes_moveIfPresent {a b : Key} (hne : a ≠ b) (hfresh : b ∉ d.keys) (hnone : ∀ k y, r k none y → y = none)
    (hnone' : r' b none none) (hmoved : ∀ x y, r b x y → r' a x y)
    (hsame : ∀ k x y, k ≠ a → k ≠ b → r k x y → r' k x y) :
    Undoes r r' (moveIfPresent a b) (moveIfPresent b a) d := by
  obtain ⟨e, he, hto, hgone, hstay⟩ := moveIfPresent_spec hne hfresh
  refine ⟨e, he, fun z hz => ?_⟩
  obtain ⟨w, hw, hto', hgone', hstay'⟩ := moveIfPresent_spec hne.symm
    (hz.notMem hnone (Dict.get?_eq_none_iff.1 hgone))
  refine ⟨w, hw, fun k => ?_⟩
  by_cases hka : k = a
  · subst hka
    rw [hto', ← hto]
    exact hmoved _ _ (hz b)
  · by_cases hkb : k = b
    · subst hkb
      rw [hgone', Dict.get?_eq_none_iff.2 hfresh]
      exact hnone'
    · rw [hstay' k hkb hka, ← hstay k hka hkb]
      exact hsame k _ _ hka hkb (hz k)

theorem undoes_renameKeys_exact {a b : Key} (hfresh : ∀ p s, b ++ p :: s ∉ d.keys)
    (ha : ∀ p s, Key.under b (a ++ p :: s) = false) : Undoes Exact Exact (renameKeys a b) (renameKeys b a) d :=
  undoes_renameKeys hfresh ha (fun _ _ h => h) (fun _ => rfl) (fun _ _ _ _ h => h) fun _ _ _ _ _ h => h

theorem undoes_moveIfPresent_exact {a b : Key} (hne : a ≠ b) (hfresh : b ∉ d.keys) :
    Undoes Exact Exact (moveIfPresent a b) (moveIfPresent b a) d :=
  undoes_moveIfPresent hne hfresh (fun _ _ h => h) rfl (fun _ _ h => h) fun _ _ _ _ _ h => h

/-- Two moves, and back in the same order. -/
theorem undoes_twoMoves {a b a' b' : Key} (hnodup : [a, b, a', b'].Nodup) (hb : b ∉ d.keys) (hb' : b' ∉ d.keys) :
    Undoes Exact Exact (fun d => moveIfPresent a b d >>= moveIfPresent a' b')
      (fun d => moveIfPresent b a d >>= moveIfPresent b' a') d := by
  obtain ⟨cell, hcell⟩ : ∃ cell : Key → Option Bool, cell = fun k =>
      if k = a ∨ k = b then some true else if k = a' ∨ k = b' then some false else none := ⟨_, rfl⟩
  simp only [List.nodup_cons, List.mem_cons, List.not_mem_nil, or_false, not_or, not_false_eq_true, and_true,
    List.nodup_nil] at hnodup
  obtain ⟨⟨hab, haa, hab'⟩, ⟨hba, hbb⟩, hab''⟩ := hnodup
  have ha : cell a = some true := by simp [hcell]
  have hb₀ : cell b = some true := by simp [hcell]
  have ha' : cell a' = some false := by simp [hcell, Ne.symm haa, Ne.symm hba]
  have hb'₀ : cell b' = some false := by simp [hcell, Ne.symm hab', Ne.symm hbb]
  have hfresh : ∀ {k c}, k ∉ d.keys → k ∉ (d.part cell c).keys := fun hk h =>
    hk ((Dict.mem_keys_part cell).1 h).2
  refine Undoes.of_splits
    ((Splits.of_confined (confined_moveIfPresent (decide_eq_true ha) (decide_eq_true hb₀))).comp
      (Splits.of_confined (confined_moveIfPresent (decide_eq_true ha') (decide_eq_true hb'₀))))
    ((Splits.of_confined (confined_moveIfPresent (decide_eq_true hb₀) (decide_eq_true ha))).comp
      (Splits.of_confined (confined_moveIfPresent (decide_eq_true hb'₀) (decide_eq_true ha')))) (fun _ => rfl) fun c => ?_
  cases c with
  | none => exact Undoes.ok fun _ _ _ h => h
  | some c =>
      cases c with
      | true =>
          refine (undoes_moveIfPresent_exact hab (hfresh hb)).congr ?_ fun x z _ _ => ?_
          · exact bind_ok.symm
          · exact bind_ok.symm
      | false => exact undoes_moveIfPresent_exact hab'' (hfresh hb')

theorem popAll_spec {α : Type} (keys : List Key) (hnodup : keys.Nodup) (hmem : ∀ k ∈ keys, k ∈ d.keys)
    (next : List (Tensor R) → StateDict R → Except PyException α) :
    ∃ ts d', popAll keys d next = next ts d' ∧ ts.map some = keys.map d.get? ∧
      ∀ k, d'.get? k = if k ∈ keys then none else d.get? k := by
  induction keys generalizing d next with
  | nil => exact ⟨[], d, rfl, rfl, fun _ => rfl⟩
  | cons key keys ih =>
      rw [List.nodup_cons] at hnodup
      obtain ⟨t, ht⟩ := Dict.mem_keys_iff.1 (hmem key List.mem_cons_self)
      have hget : ∀ k, (d.erase key).get? k = if key = k then none else d.get? k := fun k => Dict.get?_erase ..
      obtain ⟨ts, d', hd', hts, hget'⟩ := ih (d := d.erase key) hnodup.2
        (fun k hk => by
          obtain ⟨u, hu⟩ := Dict.mem_keys_iff.1 (hmem k (List.mem_cons_of_mem key hk))
          refine Dict.mem_keys_iff.2 ⟨u, ?_⟩
          rw [hget, if_neg (fun h : key = k => hnodup.1 (h ▸ hk)), hu])
        fun ts d => next (t :: ts) d
      refine ⟨t :: ts, d', ?_, ?_, fun k => ?_⟩
      · show popAll (key :: keys) d next = _
        unfold popAll pop
        rw [ht]
        exact hd'
      · rw [List.map_cons, List.map_cons, ht, hts]
        refine congrArg _ (List.map_congr_left fun k hk => ?_)
        rw [hget, if_neg fun h : key = k => hnodup.1 (h ▸ hk)]
      · rw [hget', hget]
        by_cases hk : k = key
        · subst hk
          simp
        · simp [hk, Ne.symm hk]

theorem discardAll_spec (keys : List Key) (d : StateDict R) :
    ∃ d', keys.foldlM (fun d key => discard key d) d = .ok d' ∧
      ∀ k, d'.get? k = if k ∈ keys then none else d.get? k := by
  induction keys generalizing d with
  | nil => exact ⟨d, rfl, fun _ => rfl⟩
  | cons key keys ih =>
      obtain ⟨d', hd', hget⟩ := ih (d.erase key)
      refine ⟨d', hd', fun k => ?_⟩
      rw [hget, Dict.get?_erase]
      by_cases hk : k = key
      · subst hk
        simp
      · simp [hk, Ne.symm hk]

end AuroraRl.Weights
