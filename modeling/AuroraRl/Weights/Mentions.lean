import AuroraRl.Weights.Qwen3Moe
import Mathlib.Data.List.Basic

/-!
# Which keys mention the experts of a layer

* `digits_inj` : the numbers of layers are told apart by their digits;
* `mentionsExperts_inLayer` : a key of a layer mentions the experts of no other layer;
* `mentionsExperts_experts` : the keys of its experts do.
-/

namespace AuroraRl.Weights

/-! ## Digits -/

theorem toList_toString (i : Nat) : (toString i).toList = Nat.toDigits 10 i := Nat.toList_repr

theorem notMem_digits {c : Char} (hc : c.isDigit = false) (i : Nat) : c ∉ (toString i).toList := by
  rw [toList_toString]
  intro hmem
  rw [Nat.isDigit_of_mem_toDigits (by decide) (by decide) hmem] at hc
  cases hc

theorem digits_inj {i j : Nat} (h : (toString i).toList = (toString j).toList) : i = j := by
  rw [toList_toString, toList_toString] at h
  have hof := congrArg (Nat.ofDigitChars 10 · 0) h
  simpa [Nat.ofDigitChars_toDigits] using hof

theorem append_cons_inj {α : Type} {c : α} {x₁ x₂ z₁ z₂ : List α} (h₁ : c ∉ x₁) (h₂ : c ∉ x₂)
    (h : x₁ ++ c :: z₁ = x₂ ++ c :: z₂) : x₁ = x₂ ∧ z₁ = z₂ := by
  induction x₁ generalizing x₂ with
  | nil =>
      cases x₂ with
      | nil => exact ⟨rfl, (List.cons.inj h).2⟩
      | cons b x₂ => exact absurd (List.mem_cons.2 (.inl (List.cons.inj h).1)) h₂
  | cons a x₁ ih =>
      cases x₂ with
      | nil => exact absurd (List.mem_cons.2 (.inl (List.cons.inj h).1.symm)) h₁
      | cons b x₂ =>
          obtain ⟨hab, h⟩ := List.cons.inj h
          obtain ⟨hx, hz⟩ := ih (fun hc => h₁ (List.mem_cons_of_mem a hc)) (fun hc => h₂ (List.mem_cons_of_mem b hc)) h
          exact ⟨congrArg₂ _ hab hx, hz⟩

/-! ## Mentions -/

theorem text_inLayer (i : Nat) {s : Key} (hs : s ≠ []) : Key.text (inLayer i s) =
    "model.la".toList ++ 'y' :: ("ers.".toList ++ ((toString i).toList ++ '.' :: Key.text s)) := by
  rw [inLayer, Key.text_append (List.cons_ne_nil _ _) hs]
  show ("model".toList ++ '.' :: ("layers".toList ++ '.' :: (toString i).toList)) ++ '.' :: Key.text s = _
  simp

theorem needle_eq (i : Nat) : (s!"model.layers.{i}.mlp.experts").toList =
    "model.la".toList ++ 'y' :: ("ers.".toList ++ ((toString i).toList ++ '.' :: "mlp.experts".toList)) := by
  show ("model.layers." ++ toString i ++ ".mlp.experts").toList = _
  rw [String.toList_append, String.toList_append]
  simp

/-- A key of a layer mentions the experts of no other layer, and only if they come next in it. -/
theorem mentionsExperts_inLayer {i j : Nat} {s : Key} (hs : s ≠ []) (hy : 'y' ∉ Key.text s)
    (h : Qwen3Moe.mentionsExperts i (inLayer j s) = true) : i = j ∧ "mlp.experts".toList <+: Key.text s := by
  obtain ⟨a, b, heq⟩ := Key.mentions_iff.1 h
  rw [needle_eq, text_inLayer j hs] at heq
  have hsplit : (a ++ "model.la".toList) ++ 'y' :: (("ers.".toList ++ ((toString i).toList ++ '.' ::
      "mlp.experts".toList)) ++ b) = "model.la".toList ++ 'y' :: ("ers.".toList ++ ((toString j).toList ++ '.' ::
        Key.text s)) := by
    rw [← heq]
    simp only [List.append_assoc, List.cons_append]
  -- the text has one `y`
  have hy' : 'y' ∉ "ers.".toList ++ ((toString j).toList ++ '.' :: Key.text s) := by
    simp only [List.mem_append, List.mem_cons, not_or]
    exact ⟨by decide, notMem_digits (by decide) j, by decide, hy⟩
  obtain ⟨-, -, hrest⟩ := (List.append_cons_inj_of_notMem (by decide) hy').1 hsplit.symm
  rw [List.append_assoc, List.append_cancel_left_eq, List.append_assoc, List.cons_append] at hrest
  obtain ⟨hdigits, htext⟩ := append_cons_inj (notMem_digits (by decide) j) (notMem_digits (by decide) i) hrest
  exact ⟨digits_inj hdigits.symm, htext ▸ List.prefix_append _ b⟩

theorem mentionsExperts_experts (i : Nat) (p : Part) (s : Key) :
    Qwen3Moe.mentionsExperts i (inLayer i ("mlp" :: "experts" :: p :: s)) = true := by
  refine Key.mentions_iff.2 ⟨[], '.' :: Key.text (p :: s), ?_⟩
  have htext : Key.text ("mlp" :: "experts" :: p :: s) = "mlp.experts".toList ++ '.' :: Key.text (p :: s) :=
    Key.text_append (a := ["mlp", "experts"]) (List.cons_ne_nil _ _) (List.cons_ne_nil p s)
  rw [needle_eq, text_inLayer i (List.cons_ne_nil _ _), htext]
  simp only [List.nil_append, List.append_assoc, List.cons_append]

end AuroraRl.Weights
