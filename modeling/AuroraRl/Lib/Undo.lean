import AuroraRl.Lib.Confined

/-!
# Operations that undo one another

* `Agree` : two dictionaries agree under every key, up to a relation between the values;
* `Undoes` : one operation undoes another, also when it starts from a dictionary that merely agrees;
* `Undoes.comp`, `Undoes.of_splits` : one pair inside another, and one pair for each cell;
* `Undoes.run` : the round trip.
-/

open Dict

variable {κ ν ε γ : Type} [DecidableEq κ]

/-- How two values under a key may differ. -/
abbrev ValueRel (κ ν : Type) := κ → Option ν → Option ν → Prop

/-- The same value. -/
def Exact : ValueRel κ ν := fun _ a b => b = a

def Agree (r : ValueRel κ ν) (d d' : Dict κ ν) : Prop := ∀ k, r k (d.get? k) (d'.get? k)

theorem Agree.notMem {r : ValueRel κ ν} {d d' : Dict κ ν} (h : Agree r d d') (hr : ∀ k b, r k none b → b = none) {k : κ}
    (hk : k ∉ d.keys) : k ∉ d'.keys := by
  have hk' := h k
  rw [get?_eq_none_iff.2 hk] at hk'
  exact get?_eq_none_iff.1 (hr k _ hk')

/-- From what agrees with `f d` up to `r`, `g` gives what agrees with `d` up to `r'`. -/
def Undoes (r r' : ValueRel κ ν) (f g : Dict κ ν → Except ε (Dict κ ν)) (d : Dict κ ν) : Prop :=
  ∃ x, f d = .ok x ∧ ∀ z, Agree r x z → ∃ w, g z = .ok w ∧ Agree r' d w

namespace Undoes

variable {r r' r'' : ValueRel κ ν} {f g f' g' : Dict κ ν → Except ε (Dict κ ν)} {d : Dict κ ν}

theorem ok (h : ∀ k a b, r k a b → r' k a b) :
    Undoes r r' (fun d => (.ok d : Except ε (Dict κ ν))) (fun d => .ok d) d :=
  ⟨d, rfl, fun z hz => ⟨z, rfl, fun k => h k _ _ (hz k)⟩⟩

theorem mono (h : Undoes r r' f g d) (hr : ∀ k a b, r' k a b → r'' k a b) : Undoes r r'' f g d := by
  obtain ⟨x, hx, hback⟩ := h
  refine ⟨x, hx, fun z hz => ?_⟩
  obtain ⟨w, hw, hagree⟩ := hback z hz
  exact ⟨w, hw, fun k => hr k _ _ (hagree k)⟩

theorem comp (h : Undoes r' r'' f g d) (h' : ∀ x, f d = .ok x → Undoes r r' f' g' x) :
    Undoes r r'' (fun d => f d >>= f') (fun d => g' d >>= g) d := by
  obtain ⟨x, hx, hback⟩ := h
  obtain ⟨y, hy, hback'⟩ := h' x hx
  refine ⟨y, (congrArg (· >>= f') hx).trans hy, fun z hz => ?_⟩
  obtain ⟨x', hx', hagree⟩ := hback' z hz
  obtain ⟨w, hw, hagree'⟩ := hback x' hagree
  exact ⟨w, (congrArg (· >>= g) hx').trans hw, hagree'⟩

/-- **Cell by cell.** -/
theorem of_splits [DecidableEq γ] {cell : κ → γ} {F G : γ → Dict κ ν → Except ε (Dict κ ν)} (hf : Splits cell f F)
    (hg : Splits cell g G) (hr : ∀ k, r k none none) (h : ∀ c, Undoes r r' (F c) (G c) (d.part cell c)) :
    Undoes r r' f g d := by
  obtain ⟨x, hx, hparts⟩ := hf d fun c => by
    obtain ⟨e, he, -⟩ := h c
    exact ⟨e, he⟩
  have hcell : ∀ z, Agree r x z → ∀ c, ∃ w, G c (z.part cell c) = .ok w ∧ Agree r' (d.part cell c) w := by
    intro z hz c
    obtain ⟨e, he, hback⟩ := h c
    obtain rfl : e = x.part cell c := Except.ok.inj (he.symm.trans (hparts c))
    refine hback _ fun k => ?_
    rw [Dict.get?_part, Dict.get?_part]
    split_ifs
    · exact hz k
    · exact hr k
  refine ⟨x, hx, fun z hz => ?_⟩
  obtain ⟨w, hw, hparts'⟩ := hg z fun c => by
    obtain ⟨e, he, -⟩ := hcell z hz c
    exact ⟨e, he⟩
  refine ⟨w, hw, fun k => ?_⟩
  obtain ⟨e, he, hagree⟩ := hcell z hz (cell k)
  obtain rfl : e = w.part cell (cell k) := Except.ok.inj (he.symm.trans (hparts' (cell k)))
  have hk := hagree k
  rwa [Dict.get?_part_self, Dict.get?_part_self] at hk

theorem congr {F G : Dict κ ν → Except ε (Dict κ ν)} (h : Undoes r r' f g d) (hF : f d = F d)
    (hG : ∀ x z, f d = .ok x → Agree r x z → g z = G z) : Undoes r r' F G d := by
  obtain ⟨x, hx, hback⟩ := h
  refine ⟨x, hF ▸ hx, fun z hz => ?_⟩
  obtain ⟨w, hw, hagree⟩ := hback z hz
  exact ⟨w, (hG x z hx hz) ▸ hw, hagree⟩

theorem run (h : Undoes r r' f g d) (hr : ∀ k a, r k a a) : ∃ x w, f d = .ok x ∧ g x = .ok w ∧ Agree r' d w := by
  obtain ⟨x, hx, hback⟩ := h
  obtain ⟨w, hw, hagree⟩ := hback x fun k => hr k _
  exact ⟨x, w, hx, hw, hagree⟩

end Undoes
