import AuroraRl.Lib.Dict
import AuroraRl.Lib.Python

/-!
# Loops that may raise

* `foldlM_preserves_mem` : what every turn preserves at the element it is for;
* `foldlM_total`, `foldlM_ok` : loops whose turns succeed;
* `foldlM_insert` : a loop that fills a dictionary with new keys.
-/

/-- What every turn preserves at its element, the loop preserves. -/
theorem foldlM_preserves_mem {ε α σ : Type} {f : σ → α → Except ε σ} {P : σ → Prop} {l : List α}
    (hf : ∀ a ∈ l, ∀ s s', P s → f s a = .ok s' → P s') {s s' : σ} (h : l.foldlM f s = .ok s') (hs : P s) : P s' := by
  induction l generalizing s with
  | nil =>
      cases h
      exact hs
  | cons a l ih =>
      rw [List.foldlM_cons] at h
      obtain ⟨s₁, h₁, h⟩ := bind_eq_ok.1 h
      exact ih (fun b hb => hf b (List.mem_cons_of_mem a hb)) h (hf a List.mem_cons_self s s₁ hs h₁)

/-- A loop whose turns succeed and keep what they need. -/
theorem foldlM_total {ε α σ : Type} {f : σ → α → Except ε σ} {P : σ → Prop} {l : List α}
    (hf : ∀ a ∈ l, ∀ s, P s → ∃ s', f s a = .ok s' ∧ P s') {s : σ} (hs : P s) : ∃ s', l.foldlM f s = .ok s' ∧ P s' := by
  induction l generalizing s with
  | nil => exact ⟨s, rfl, hs⟩
  | cons a l ih =>
      obtain ⟨s₁, h₁, hs₁⟩ := hf a List.mem_cons_self s hs
      rw [List.foldlM_cons, h₁, ok_bind]
      exact ih (fun b hb => hf b (List.mem_cons_of_mem a hb)) hs₁

theorem foldlM_ok {ε α σ : Type} {f : σ → α → Except ε σ} {g : σ → α → σ} {l : List α} (h : ∀ a ∈ l, ∀ s, f s a = .ok (g s a))
    {s : σ} : l.foldlM f s = .ok (l.foldl g s) := by
  induction l generalizing s with
  | nil => rfl
  | cons a l ih =>
      rw [List.foldlM_cons, h a List.mem_cons_self, ok_bind, ih fun b hb => h b (List.mem_cons_of_mem a hb), List.foldl_cons]

/-- A loop that sets new keys gives each the value of its turn. -/
theorem foldlM_insert {ε α κ ν : Type} [DecidableEq κ] {f : κ × α → Except ε ν} {l : List (κ × α)} {d d' : Dict κ ν}
    (hnew : ∀ e ∈ l, e.1 ∉ d.keys) (hl : (l.map Prod.fst).Nodup)
    (h : l.foldlM (fun (d : Dict κ ν) e => do return d.insert e.1 (← f e)) d = .ok d') :
    d'.keys = d.keys ++ l.map Prod.fst ∧ (∀ e ∈ l, ∃ v, f e = .ok v ∧ d'.get? e.1 = some v) ∧
      ∀ k, k ∉ l.map Prod.fst → d'.get? k = d.get? k := by
  induction l generalizing d with
  | nil =>
      cases h
      exact ⟨(List.append_nil _).symm, fun _ he => (List.not_mem_nil he).elim, fun _ _ => rfl⟩
  | cons e l ih =>
      rw [List.foldlM_cons] at h
      obtain ⟨d₁, h₁, h⟩ := bind_eq_ok.1 h
      obtain ⟨v, hv, h₁⟩ := bind_eq_ok.1 h₁
      cases h₁
      rw [List.map_cons, List.nodup_cons] at hl
      have hkeys := Dict.keys_insert_new v (hnew e List.mem_cons_self)
      have hnew' : ∀ e' ∈ l, e'.1 ∉ (d.insert e.1 v).keys := by
        intro e' he'
        rw [hkeys, List.mem_append, List.mem_singleton, not_or]
        exact ⟨hnew e' (List.mem_cons_of_mem _ he'), fun heq => hl.1 (heq ▸ List.mem_map_of_mem he')⟩
      obtain ⟨hkeys', hvalues, hold⟩ := ih hnew' hl.2 h
      refine ⟨by rw [hkeys', hkeys, List.append_assoc, List.singleton_append, List.map_cons], ?_, ?_⟩
      · intro e' he'
        rcases List.mem_cons.1 he' with rfl | he'
        · exact ⟨v, hv, (hold _ hl.1).trans (Dict.get?_insert_self _ _ _)⟩
        · exact hvalues e' he'
      · intro k hk
        rw [List.map_cons, List.mem_cons, not_or] at hk
        rw [hold k hk.2, Dict.get?_insert_ne _ _ (Ne.symm hk.1)]
