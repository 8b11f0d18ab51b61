import Mathlib.Data.List.Forall2
import Mathlib.Data.List.Infix

/-!
# Decoders of a stream

* `Takes`, `Framed` : a decoder takes its bytes from the front of the stream and fails on any cut of them;
* `framed_exact`, `Framed.bind` : fields of a known length, one after the other;
* `drain` : a decoder run to the end of the stream, with what it yields and how it ends;
* `drain_cut` : what a cut of a stream yields.
-/

namespace Framing

variable {ε τ α β : Type}

/-! ## One value -/

/-- `decode` reads `a` from `used`, whatever follows, and fails on less. -/
structure Takes (decode : List τ → Except ε (α × List τ)) (used : List τ) (a : α) : Prop where
  whole : ∀ rest, decode (used ++ rest) = .ok (a, rest)
  cut : ∀ l, l <+: used → l ≠ used → ∃ e, decode l = .error e

/-- Whatever `decode` reads, it takes from the front of the stream. -/
def Framed (decode : List τ → Except ε (α × List τ)) : Prop :=
  ∀ l a rest, decode l = .ok (a, rest) → ∃ used, l = used ++ rest ∧ Takes decode used a

theorem framed_pure (a : α) : Framed fun l : List τ => (.ok (a, l) : Except ε (α × List τ)) := by
  intro l a' rest h
  cases h
  refine ⟨[], rfl, fun rest => rfl, fun l hl hne => absurd (List.prefix_nil.1 hl) hne⟩

theorem framed_error (e : ε) : Framed fun _ : List τ => (.error e : Except ε (α × List τ)) := by
  intro l a rest h
  cases h

theorem framed_exact (n : Nat) (e : ε) : Framed fun l : List τ =>
    if n ≤ l.length then .ok (l.take n, l.drop n) else .error e := by
  intro l a rest h
  dsimp only at h
  split at h
  · rename_i hn
    cases h
    refine ⟨l.take n, (List.take_append_drop n l).symm, ⟨fun rest => ?_, fun q hq hne => ?_⟩⟩
    · have hlen : (l.take n).length = n := List.length_take_of_le hn
      show (if n ≤ (l.take n ++ rest).length then _ else _) = _
      rw [if_pos (by rw [List.length_append]; omega), List.take_left' hlen, List.drop_left' hlen]
    · have hlt : q.length < n := by
        have hle := hq.length_le
        have hlen : q.length ≠ (l.take n).length := fun h => hne (hq.eq_of_length h)
        rw [List.length_take_of_le hn] at hle hlen
        omega
      exact ⟨e, if_neg (by omega)⟩
  · cases h

/-- A cut of `l ++ l'` is a cut of `l`, or `l` and a cut of `l'`. -/
theorem cut_append {l l' q : List τ} (hq : q <+: l ++ l') (hne : q ≠ l ++ l') :
    (q <+: l ∧ q ≠ l) ∨ ∃ q', q = l ++ q' ∧ q' <+: l' ∧ q' ≠ l' := by
  rcases Nat.lt_or_ge q.length l.length with hlt | hge
  · refine .inl ⟨List.prefix_of_prefix_length_le hq (List.prefix_append l l') hlt.le, ?_⟩
    intro h
    rw [h] at hlt
    exact lt_irrefl _ hlt
  · obtain ⟨q', rfl⟩ := List.prefix_of_prefix_length_le (List.prefix_append l l') hq hge
    refine .inr ⟨q', rfl, (List.prefix_append_right_inj l).1 hq, ?_⟩
    intro h
    exact hne (by rw [h])

theorem Framed.bind {decode : List τ → Except ε (α × List τ)} {next : α × List τ → Except ε (β × List τ)}
    (h : Framed decode) (hnext : ∀ a, Framed fun l => next (a, l)) : Framed fun l => decode l >>= next := by
  intro l b rest hread
  dsimp only at hread
  cases hd : decode l with
  | error e =>
      rw [hd] at hread
      cases hread
  | ok x =>
      obtain ⟨a, l'⟩ := x
      rw [hd] at hread
      obtain ⟨used, rfl, htakes⟩ := h l a l' hd
      obtain ⟨used', rfl, htakes'⟩ := hnext a l' b rest hread
      refine ⟨used ++ used', (List.append_assoc ..).symm, ⟨fun rest => ?_, fun q hq hne => ?_⟩⟩
      · show (decode (used ++ used' ++ rest) >>= next) = _
        rw [List.append_assoc, htakes.whole]
        exact htakes'.whole rest
      · show ∃ e, (decode q >>= next) = _
        rcases cut_append hq hne with ⟨hq, hne⟩ | ⟨q', rfl, hq', hne'⟩
        · obtain ⟨e, he⟩ := htakes.cut q hq hne
          rw [he]
          exact ⟨e, rfl⟩
        · rw [htakes.whole]
          exact htakes'.cut q' hq' hne'

theorem Framed.guard {check : Except ε α} {next : α → List τ → Except ε (β × List τ)} (h : ∀ a, Framed (next a)) :
    Framed fun l => check >>= fun a => next a l := by
  cases check with
  | error e => exact framed_error e
  | ok a => exact h a

/-! ## The whole stream -/

section Drain

variable {decode : List τ → Except ε (α × List τ)}
  (hdecode : ∀ {l a rest}, decode l = .ok (a, rest) → rest.length < l.length)

/-- What `decode` yields until the stream is empty or it fails, and the failure. -/
def drain (l : List τ) : List α × Option ε :=
  if l = [] then ([], none)
  else
    match h : decode l with
    | .error e => ([], some e)
    | .ok (a, rest) =>
      have : rest.length < l.length := hdecode h
      ((drain rest).map (a :: ·) id)
termination_by l.length

theorem drain_nil : drain hdecode [] = ([], none) := by
  rw [drain, if_pos rfl]

theorem drain_error {l : List τ} {e : ε} (hne : l ≠ []) (h : decode l = .error e) : drain hdecode l = ([], some e) := by
  rw [drain, if_neg hne]
  split
  · rename_i e' he
    rw [h] at he
    cases he
    rfl
  · rename_i he
    rw [h] at he
    cases he

theorem drain_ok {l rest : List τ} {a : α} (h : decode l = .ok (a, rest)) :
    drain hdecode l = (a :: (drain hdecode rest).1, (drain hdecode rest).2) := by
  have hne : l ≠ [] := by
    intro hnil
    have := hdecode h
    rw [hnil] at this
    exact Nat.not_lt_zero _ this
  rw [drain, if_neg hne]
  split
  · rename_i he
    rw [h] at he
    cases he
  · rename_i he
    rw [h] at he
    cases he
    rfl

/-- A stream made of the bytes of values yields these values. -/
theorem drain_flatten {parts : List (List τ)} {values : List α}
    (h : List.Forall₂ (fun part a => ∀ rest, decode (part ++ rest) = .ok (a, rest)) parts values) :
    drain hdecode parts.flatten = (values, none) := by
  induction h with
  | nil => exact drain_nil hdecode
  | @cons part a parts values hpart _ ih => rw [List.flatten_cons, drain_ok hdecode (hpart _), ih]

/-- A stream read to its end is made of the bytes of its values. -/
theorem exists_parts_of_drain (hframed : Framed decode) {values : List α} {l : List τ}
    (h : drain hdecode l = (values, none)) :
    ∃ parts : List (List τ), parts.flatten = l ∧ List.Forall₂ (Takes decode) parts values := by
  induction values generalizing l with
  | nil =>
      refine ⟨[], ?_, .nil⟩
      by_contra hne
      cases hd : decode l with
      | error e =>
          rw [drain_error hdecode (Ne.symm hne) hd] at h
          cases h
      | ok x =>
          rw [drain_ok hdecode hd] at h
          cases h
  | cons a values ih =>
      by_cases hnil : l = []
      · rw [hnil, drain_nil] at h
        cases h
      · cases hd : decode l with
        | error e =>
            rw [drain_error hdecode hnil hd] at h
            cases h
        | ok x =>
            obtain ⟨a', rest⟩ := x
            obtain ⟨used, rfl, htakes⟩ := hframed l a' rest hd
            rw [drain_ok hdecode hd, Prod.mk.injEq, List.cons.injEq] at h
            obtain ⟨⟨rfl, h1⟩, h2⟩ := h
            obtain ⟨parts, hflat, hall⟩ := ih (Prod.ext h1 h2)
            exact ⟨used :: parts, by rw [List.flatten_cons, hflat], .cons htakes hall⟩

theorem drain_of_cut {part : List τ} {a : α} (h : Takes decode part a) {k : Nat} (hk : k < part.length) :
    (drain hdecode (part.take k)).1 = [] ∧ ((drain hdecode (part.take k)).2 = none ↔ k = 0) := by
  rcases Nat.eq_zero_or_pos k with rfl | hpos
  · simp [drain_nil]
  · have hlen : (part.take k).length = k := List.length_take_of_le hk.le
    have hne : part.take k ≠ [] := List.ne_nil_of_length_pos (by omega)
    obtain ⟨e, he⟩ := h.cut (part.take k) (List.take_prefix k part) fun heq => by
      rw [heq] at hlen
      omega
    rw [drain_error hdecode hne he]
    refine ⟨rfl, fun h => ?_, fun h => ?_⟩
    · cases h
    · omega

/-- **A cut stream.** It yields the values whose bytes are whole in it, and fails unless it is cut between two. -/
theorem drain_cut {parts : List (List τ)} {values : List α} (h : List.Forall₂ (Takes decode) parts values) {k : Nat}
    (hk : k ≤ parts.flatten.length) :
    ∃ m ≤ parts.length, (∀ i ≤ parts.length, i ≤ m ↔ (parts.take i).flatten.length ≤ k) ∧
      (drain hdecode (parts.flatten.take k)).1 = values.take m ∧
      ((drain hdecode (parts.flatten.take k)).2 = none ↔ (parts.take m).flatten.length = k) := by
  induction h generalizing k with
  | nil =>
      have hk0 : k = 0 := Nat.le_zero.1 hk
      subst hk0
      refine ⟨0, le_rfl, fun i hi => ?_, by simp [drain_nil], by simp [drain_nil]⟩
      simpa using hi
  | @cons part a parts values hpart _ ih =>
      have hpos : 0 < part.length := by
        have := hdecode (hpart.whole [])
        simpa using this
      rcases Nat.lt_or_ge k part.length with hlt | hge
      · -- the cut is inside the first value
        obtain ⟨hvalues, hended⟩ := drain_of_cut hdecode hpart hlt
        rw [List.flatten_cons, List.take_append_of_le_length hlt.le]
        refine ⟨0, Nat.zero_le _, fun i hi => ?_, hvalues, ?_⟩
        · cases i with
          | zero => simp
          | succ i =>
              rw [List.take_succ_cons, List.flatten_cons, List.length_append]
              omega
        · rw [hended, List.take_zero, List.flatten_nil, List.length_nil]
          omega
      · -- the first value is whole
        rw [List.flatten_cons, List.length_append] at hk
        obtain ⟨m, hm, hends, hvalues, hended⟩ := ih (k := k - part.length) (by omega)
        have htake : (part :: parts).flatten.take k = part ++ parts.flatten.take (k - part.length) := by
          rw [List.flatten_cons, List.take_append, List.take_of_length_le hge]
        rw [htake, drain_ok hdecode (hpart.whole _)]
        refine ⟨m + 1, Nat.succ_le_succ hm, fun i hi => ?_, ?_, ?_⟩
        · cases i with
          | zero => simp
          | succ i =>
              rw [List.take_succ_cons, List.flatten_cons, List.length_append, Nat.succ_le_succ_iff,
                hends i (Nat.succ_le_succ_iff.1 hi)]
              omega
        · rw [List.take_succ_cons, hvalues]
        · rw [List.take_succ_cons, List.flatten_cons, List.length_append, hended]
          omega

end Drain

end Framing
