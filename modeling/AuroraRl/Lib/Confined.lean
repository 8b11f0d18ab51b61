import AuroraRl.Lib.Dict

/-!
# Operations confined to some keys

* `Dict.restrict` : the entries under some keys;
* `Confined` : an operation that reads and writes under these keys alone, with its rules;
* `Splits` : the keys fall into cells, and an operation acts on every cell by itself;
* `Splits.of_confined`, `Splits.comp`, `Splits.foldlM`, `Splits.keys` : how such operations compose.
-/

namespace Dict

variable {κ ν : Type} [DecidableEq κ]

/-- The entries whose key satisfies `P`. -/
def restrict (d : Dict κ ν) (P : κ → Bool) : Dict κ ν := d.filter fun k _ => P k

variable (d : Dict κ ν) {P : κ → Bool} {k : κ}

theorem get?_restrict (P : κ → Bool) (k : κ) : (d.restrict P).get? k = if P k then d.get? k else none := by
  rw [restrict, get?_filter]
  by_cases hk : P k = true <;> cases d.get? k <;> simp [hk]

omit [DecidableEq κ] in
theorem keys_restrict (P : κ → Bool) : (d.restrict P).keys = d.keys.filter P := by
  show (d.entries.filter fun e => P e.1).map Prod.fst = (d.entries.map Prod.fst).filter P
  rw [List.filter_map]
  rfl

theorem restrict_insert (hk : P k = true) (v : ν) : (d.insert k v).restrict P = (d.restrict P).insert k v := by
  refine ext ?_
  obtain ⟨l, hl⟩ := d
  simp only [restrict, filter, insert]
  clear hl
  induction l with
  | nil => simp [setEntry, hk]
  | cons e l ih =>
      obtain ⟨k', v'⟩ := e
      by_cases h : k' = k
      · subst h
        simp [setEntry, hk]
      · by_cases hP : P k' = true <;> simp [setEntry, h, hP, ih]

theorem restrict_insert_of_not (hk : P k = false) (v : ν) : (d.insert k v).restrict P = d.restrict P := by
  refine ext ?_
  obtain ⟨l, hl⟩ := d
  simp only [restrict, filter, insert]
  clear hl
  induction l with
  | nil => simp [setEntry, hk]
  | cons e l ih =>
      obtain ⟨k', v'⟩ := e
      by_cases h : k' = k
      · subst h
        simp [setEntry, hk]
      · simp only [setEntry, if_neg h, List.filter_cons, ih]

theorem restrict_erase (P : κ → Bool) (k : κ) : (d.erase k).restrict P = (d.restrict P).erase k := by
  refine ext ?_
  simp only [restrict, erase, filter]
  rw [List.filter_comm]

theorem restrict_erase_of_not (hk : P k = false) : (d.erase k).restrict P = d.restrict P := by
  refine ext ?_
  simp only [restrict, erase, filter, List.filter_filter]
  refine List.filter_congr fun e _ => ?_
  by_cases h : e.1 = k
  · simp [h, hk]
  · simp [h]

omit [DecidableEq κ] in
theorem restrict_congr {P Q : κ → Bool} (h : ∀ k ∈ d.keys, P k = Q k) : d.restrict P = d.restrict Q := by
  refine ext (List.filter_congr fun e he => h e.1 ?_)
  exact List.mem_map.2 ⟨e, he, rfl⟩

end Dict

/-! ## Confined operations -/

open Dict

variable {κ ν ε ι : Type} [DecidableEq κ]

/-- The operation reads and writes under the keys of `P` alone. -/
structure Confined (P : κ → Bool) (f : Dict κ ν → Except ε (Dict κ ν)) : Prop where
  inside : ∀ d, f (d.restrict P) = (f d).map (·.restrict P)
  outside : ∀ d d', f d = .ok d' → ∀ Q : κ → Bool, (∀ k, Q k = true → P k = false) → d'.restrict Q = d.restrict Q

namespace Confined

variable {P : κ → Bool}

omit [DecidableEq κ] in
theorem pure : Confined P (fun d : Dict κ ν => (.ok d : Except ε (Dict κ ν))) where
  inside _ := rfl
  outside _ _ h _ _ := by
    cases h
    rfl

omit [DecidableEq κ] in
theorem throw (e : ε) : Confined P (fun _ : Dict κ ν => (.error e : Except ε (Dict κ ν))) where
  inside _ := rfl
  outside _ _ h := by cases h

theorem insert {k : κ} (hk : P k = true) (v : ν) :
    Confined P (fun d : Dict κ ν => (.ok (d.insert k v) : Except ε (Dict κ ν))) where
  inside d := congrArg Except.ok (restrict_insert d hk v).symm
  outside d d' h Q hQ := by
    cases h
    refine restrict_insert_of_not d ?_ v
    by_contra hne
    rw [hQ k (by simpa using hne)] at hk
    cases hk

theorem erase {k : κ} (hk : P k = true) : Confined P (fun d : Dict κ ν => (.ok (d.erase k) : Except ε (Dict κ ν))) where
  inside d := congrArg Except.ok (restrict_erase d P k).symm
  outside d d' h Q hQ := by
    cases h
    refine restrict_erase_of_not d ?_
    by_contra hne
    rw [hQ k (by simpa using hne)] at hk
    cases hk

omit [DecidableEq κ] in
theorem bind {f g : Dict κ ν → Except ε (Dict κ ν)} (hf : Confined P f) (hg : Confined P g) :
    Confined P (fun d => f d >>= g) where
  inside d := by
    rw [hf.inside]
    cases f d with
    | error e => rfl
    | ok d' => exact hg.inside d'
  outside d d' h Q hQ := by
    cases hfd : f d with
    | error e =>
        rw [hfd] at h
        cases h
    | ok d₁ =>
        rw [hfd] at h
        exact (hg.outside d₁ d' h Q hQ).trans (hf.outside d d₁ hfd Q hQ)

/-- What the operation does may depend on the value at a key of `P`. -/
theorem lookup {k : κ} (hk : P k = true) {f : Option ν → Dict κ ν → Except ε (Dict κ ν)}
    (h : ∀ v, Confined P (f v)) : Confined P (fun d => f (d.get? k) d) where
  inside d := by
    rw [get?_restrict, if_pos hk]
    exact (h _).inside d
  outside d := (h (d.get? k)).outside d

omit [DecidableEq κ] in
/-- What the operation does may depend on the keys that satisfy `Q`, within `P`. -/
theorem keys {Q : κ → Bool} (hQ : ∀ k, Q k = true → P k = true) {f : List κ → Dict κ ν → Except ε (Dict κ ν)}
    (h : ∀ l, (∀ k ∈ l, Q k = true) → Confined P (f l)) : Confined P (fun d => f (d.keys.filter Q) d) where
  inside d := by
    have hkeys : (d.restrict P).keys.filter Q = d.keys.filter Q := by
      rw [keys_restrict, List.filter_filter]
      refine List.filter_congr fun k _ => ?_
      cases hk : Q k with
      | true => simp [hQ k hk]
      | false => simp
    rw [hkeys]
    exact (h _ fun k hk => (List.mem_filter.1 hk).2).inside d
  outside d := (h _ fun k hk => (List.mem_filter.1 hk).2).outside d

/-- A key outside `P` keeps its value. -/
theorem get?_eq {f : Dict κ ν → Except ε (Dict κ ν)} (h : Confined P f) {d d' : Dict κ ν} (hd : f d = .ok d') {k : κ}
    (hk : P k = false) : d'.get? k = d.get? k := by
  have hsame := h.outside d d' hd (fun k' => k' = k) fun k' hk' => by
    rw [decide_eq_true_eq] at hk'
    rw [hk', hk]
  have hget : ∀ d : Dict κ ν, (d.restrict fun k' => k' = k).get? k = d.get? k := by
    intro d
    rw [get?_restrict, if_pos (decide_eq_true rfl)]
  rw [← hget d', hsame, hget]

omit [DecidableEq κ] in
theorem foldlM {f : ι → Dict κ ν → Except ε (Dict κ ν)} {l : List ι} (h : ∀ i ∈ l, Confined P (f i)) :
    Confined P (fun d => l.foldlM (fun d i => f i d) d) := by
  induction l with
  | nil => exact pure
  | cons i l ih =>
      simp only [List.foldlM_cons]
      exact (h i List.mem_cons_self).bind (ih fun j hj => h j (List.mem_cons_of_mem i hj))

end Confined

/-! ## Cells -/

section Cells

variable {γ : Type} [DecidableEq γ] (cell : κ → γ)

/-- The entries in the cell `c`. -/
def Dict.part (d : Dict κ ν) (c : γ) : Dict κ ν := d.restrict fun k => cell k = c

theorem Dict.get?_part (d : Dict κ ν) (c : γ) (k : κ) :
    (d.part cell c).get? k = if cell k = c then d.get? k else none := by
  rw [Dict.part, Dict.get?_restrict]
  by_cases h : cell k = c <;> simp [h]

theorem Dict.get?_part_self (d : Dict κ ν) (k : κ) : (d.part cell (cell k)).get? k = d.get? k := by
  rw [Dict.get?_part, if_pos rfl]

omit [DecidableEq κ] in
theorem Dict.mem_keys_part {d : Dict κ ν} {c : γ} {k : κ} : k ∈ (d.part cell c).keys ↔ cell k = c ∧ k ∈ d.keys := by
  rw [Dict.part, Dict.keys_restrict, List.mem_filter, decide_eq_true_eq, and_comm]

/-- Where `g c` succeeds on the part in every cell `c`, `f` succeeds on the whole, and its parts are what the `g c` give. -/
def Splits (f : Dict κ ν → Except ε (Dict κ ν)) (g : γ → Dict κ ν → Except ε (Dict κ ν)) : Prop :=
  ∀ d, (∀ c, ∃ e, g c (d.part cell c) = .ok e) →
    ∃ d', f d = .ok d' ∧ ∀ c, g c (d.part cell c) = .ok (d'.part cell c)

namespace Splits

variable {cell} {f f' : Dict κ ν → Except ε (Dict κ ν)} {g g' : γ → Dict κ ν → Except ε (Dict κ ν)}

omit [DecidableEq κ] in
theorem pure : Splits cell (fun d : Dict κ ν => (.ok d : Except ε (Dict κ ν))) fun _ d => .ok d :=
  fun d _ => ⟨d, rfl, fun _ => rfl⟩

omit [DecidableEq κ] in
theorem congr {g' : γ → Dict κ ν → Except ε (Dict κ ν)} (h : Splits cell f g) (heq : ∀ c d, g c d = g' c d) :
    Splits cell f g' := by
  have : g = g' := funext fun c => funext fun d => heq c d
  rwa [← this]

omit [DecidableEq κ] in
theorem comp (h : Splits cell f g) (h' : Splits cell f' g') :
    Splits cell (fun d => f d >>= f') fun c d => g c d >>= g' c := by
  intro d hok
  dsimp only at hok ⊢
  have hfirst : ∀ c, ∃ e, g c (d.part cell c) = .ok e := by
    intro c
    obtain ⟨e, he⟩ := hok c
    cases hg : g c (d.part cell c) with
    | error x =>
        rw [hg] at he
        cases he
    | ok e₁ => exact ⟨e₁, rfl⟩
  obtain ⟨d₁, hd₁, hparts⟩ := h d hfirst
  have hsecond : ∀ c, ∃ e, g' c (d₁.part cell c) = .ok e := by
    intro c
    obtain ⟨e, he⟩ := hok c
    rw [hparts c] at he
    exact ⟨e, he⟩
  obtain ⟨d₂, hd₂, hparts'⟩ := h' d₁ hsecond
  refine ⟨d₂, ?_, fun c => ?_⟩
  · rw [hd₁]
    exact hd₂
  · rw [hparts c]
    exact hparts' c

omit [DecidableEq κ] in
/-- An operation confined to one cell leaves the others alone. -/
theorem of_confined {c₀ : γ} (h : Confined (fun k => cell k = c₀) f) :
    Splits cell f fun c d => if c = c₀ then f d else .ok d := by
  intro d hok
  dsimp only at hok ⊢
  obtain ⟨d', hd'⟩ : ∃ d', f d = .ok d' := by
    obtain ⟨e, he⟩ := hok c₀
    rw [if_pos rfl, Dict.part, h.inside] at he
    cases hfd : f d with
    | error x =>
        rw [hfd] at he
        cases he
    | ok d' => exact ⟨d', rfl⟩
  refine ⟨d', hd', fun c => ?_⟩
  split_ifs with hc
  · subst hc
    rw [Dict.part, h.inside, hd']
    rfl
  · refine congrArg Except.ok (h.outside d d' hd' _ fun k hk => ?_).symm
    rw [decide_eq_true_eq] at hk
    rw [decide_eq_false_iff_not, hk]
    exact hc

omit [DecidableEq κ] in
/-- Operations each confined to one cell, one after the other: a cell sees its own ones. -/
theorem foldlM {cellOf : ι → γ} {f : ι → Dict κ ν → Except ε (Dict κ ν)} {l : List ι}
    (h : ∀ i ∈ l, Confined (fun k => cell k = cellOf i) (f i)) :
    Splits cell (fun d => l.foldlM (fun d i => f i d) d)
      fun c d => (l.filter (cellOf · = c)).foldlM (fun d i => f i d) d := by
  induction l with
  | nil => exact pure
  | cons i l ih =>
      have hcomp := (of_confined (h i List.mem_cons_self)).comp (ih fun j hj => h j (List.mem_cons_of_mem i hj))
      simp only [List.foldlM_cons]
      refine hcomp.congr fun c d => ?_
      by_cases hc : cellOf i = c
      · rw [if_pos hc.symm, List.filter_cons_of_pos (by simpa using hc), List.foldlM_cons]
      · rw [if_neg (Ne.symm hc), List.filter_cons_of_neg (by simpa using hc)]
        rfl

omit [DecidableEq κ] in
/-- An operation on every key that satisfies `Q`, confined to the cell of the key, acts on every cell by itself. -/
theorem keys {Q : κ → Bool} {f : κ → Dict κ ν → Except ε (Dict κ ν)}
    (h : ∀ k, Q k = true → Confined (fun k' => cell k' = cell k) (f k)) :
    Splits cell (fun d => (d.keys.filter Q).foldlM (fun d k => f k d) d)
      fun _ d => (d.keys.filter Q).foldlM (fun d k => f k d) d := by
  intro d hok
  have hkeys : ∀ c, (d.part cell c).keys.filter Q = (d.keys.filter Q).filter (cell · = c) := by
    intro c
    rw [Dict.part, Dict.keys_restrict, List.filter_comm]
  simp only [hkeys] at hok ⊢
  exact foldlM (fun k hk => h k (List.mem_filter.1 hk).2) d hok

end Splits

end Cells
