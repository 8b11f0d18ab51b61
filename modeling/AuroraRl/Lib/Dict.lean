import Mathlib.Data.List.Nodup

/-!
# Insertion-ordered dictionaries

`Dict κ ν` is a list of entries with distinct keys: an assignment to a present key keeps its place, a new key
goes last, and iteration follows insertion.

* `get?`, `insert`, `erase`, `filter`, `ofList`, with their lookup lemmas;
* `mem_entries_iff` : entries are exactly what lookup finds;
* `values_insert_new`, `values_erase` : the values after a new key and without one;
* `appendAll` : values appended to the list of their key;
* `total` : the sum of a weight over the entries, and what each operation does to it.
-/

/-- An insertion-ordered dictionary. -/
structure Dict (κ ν : Type) where
  entries : List (κ × ν)
  nodup : (entries.map Prod.fst).Nodup

namespace Dict

variable {κ ν : Type} [DecidableEq κ]

omit [DecidableEq κ] in
theorem ext {d d' : Dict κ ν} (h : d.entries = d'.entries) : d = d' := by
  cases d
  cases d'
  cases h
  rfl

instance [DecidableEq ν] : DecidableEq (Dict κ ν) := fun d d' =>
  decidable_of_iff (d.entries = d'.entries) ⟨ext, fun h => h ▸ rfl⟩

def empty : Dict κ ν := ⟨[], List.nodup_nil⟩

instance : EmptyCollection (Dict κ ν) := ⟨empty⟩

instance : Inhabited (Dict κ ν) := ⟨empty⟩

def keys (d : Dict κ ν) : List κ := d.entries.map Prod.fst

def values (d : Dict κ ν) : List ν := d.entries.map Prod.snd

def getEntry (k : κ) : List (κ × ν) → Option ν
  | [] => none
  | (k', v) :: l => if k' = k then some v else getEntry k l

def get? (d : Dict κ ν) (k : κ) : Option ν := getEntry k d.entries

def contains (d : Dict κ ν) (k : κ) : Bool := (d.get? k).isSome

def setEntry (k : κ) (v : ν) : List (κ × ν) → List (κ × ν)
  | [] => [(k, v)]
  | (k', v') :: l => if k' = k then (k, v) :: l else (k', v') :: setEntry k v l

theorem setEntry_keys (k : κ) (v : ν) (l : List (κ × ν)) :
    (setEntry k v l).map Prod.fst = if k ∈ l.map Prod.fst then l.map Prod.fst else l.map Prod.fst ++ [k] := by
  induction l with
  | nil => simp [setEntry]
  | cons p l ih =>
      obtain ⟨k', v'⟩ := p
      by_cases h : k' = k
      · simp [setEntry, h]
      · by_cases hm : k ∈ l.map Prod.fst <;> simp [setEntry, h, ih, hm, Ne.symm h]

theorem setEntry_nodup (k : κ) (v : ν) (l : List (κ × ν)) (h : (l.map Prod.fst).Nodup) :
    ((setEntry k v l).map Prod.fst).Nodup := by
  rw [setEntry_keys]
  split
  · exact h
  · rename_i hk
    rw [List.nodup_append]
    exact ⟨h, List.nodup_singleton k, fun a ha b hb => by
      rw [List.mem_singleton.1 hb]
      exact fun hab => hk (hab ▸ ha)⟩

def insert (d : Dict κ ν) (k : κ) (v : ν) : Dict κ ν := ⟨setEntry k v d.entries, setEntry_nodup k v _ d.nodup⟩

def filter (d : Dict κ ν) (p : κ → ν → Bool) : Dict κ ν :=
  ⟨d.entries.filter fun e => p e.1 e.2, d.nodup.sublist (List.filter_sublist.map Prod.fst)⟩

def erase (d : Dict κ ν) (k : κ) : Dict κ ν := d.filter fun k' _ => k' ≠ k

def insertAll (d : Dict κ ν) (l : List (κ × ν)) : Dict κ ν := l.foldl (fun d e => d.insert e.1 e.2) d

def ofList (l : List (κ × ν)) : Dict κ ν := empty.insertAll l

@[simp] theorem get?_empty (k : κ) : (empty : Dict κ ν).get? k = none := rfl

@[simp] theorem get?_insert_self (d : Dict κ ν) (k : κ) (v : ν) : (d.insert k v).get? k = some v := by
  obtain ⟨l, h⟩ := d
  simp only [get?, insert]
  clear h
  induction l with
  | nil => simp [setEntry, getEntry]
  | cons p l ih => by_cases hp : p.1 = k <;> simp [setEntry, getEntry, hp, ih]

theorem get?_insert_ne (d : Dict κ ν) {k k' : κ} (v : ν) (h : k ≠ k') : (d.insert k v).get? k' = d.get? k' := by
  obtain ⟨l, hl⟩ := d
  simp only [get?, insert]
  clear hl
  induction l with
  | nil => simp [setEntry, getEntry, h]
  | cons p l ih =>
      obtain ⟨k₀, v₀⟩ := p
      by_cases hk : k₀ = k
      · subst hk
        simp [setEntry, getEntry, h]
      · simp [setEntry, getEntry, hk, ih]

theorem get?_insert (d : Dict κ ν) (k k' : κ) (v : ν) :
    (d.insert k v).get? k' = if k = k' then some v else d.get? k' := by
  split
  · rename_i h
    rw [← h, get?_insert_self]
  · rename_i h
    exact get?_insert_ne d v h

theorem insertAll_cons (d : Dict κ ν) (e : κ × ν) (l : List (κ × ν)) :
    d.insertAll (e :: l) = (d.insert e.1 e.2).insertAll l := rfl

/-- What lookup finds after insertions was inserted or there before. -/
theorem get?_insertAll_eq_some {d : Dict κ ν} {l : List (κ × ν)} {k : κ} {v : ν}
    (h : (d.insertAll l).get? k = some v) : (k, v) ∈ l ∨ d.get? k = some v := by
  induction l generalizing d with
  | nil => exact Or.inr h
  | cons e l ih =>
      rw [insertAll_cons] at h
      rcases ih h with hl | hd
      · exact Or.inl (List.mem_cons_of_mem _ hl)
      · rw [get?_insert] at hd
        split at hd
        · rename_i hk
          cases hd
          exact Or.inl (hk ▸ List.mem_cons_self)
        · exact Or.inr hd

theorem get?_insertAll_isSome {d : Dict κ ν} {l : List (κ × ν)} {k : κ}
    (h : k ∈ l.map Prod.fst ∨ (d.get? k).isSome) : ((d.insertAll l).get? k).isSome := by
  induction l generalizing d with
  | nil => simpa [insertAll] using h
  | cons e l ih =>
      rw [insertAll_cons]
      refine ih ?_
      rw [get?_insert]
      rcases h with h | h
      · rcases List.mem_cons.1 h with rfl | h
        · simp
        · exact Or.inl h
      · right
        split
        · rfl
        · exact h

theorem getEntry_eq_some {k : κ} {v : ν} {l : List (κ × ν)} (h : (l.map Prod.fst).Nodup) :
    getEntry k l = some v ↔ (k, v) ∈ l := by
  induction l with
  | nil => simp [getEntry]
  | cons p l ih =>
      obtain ⟨k', v'⟩ := p
      obtain ⟨hk', hl⟩ := List.nodup_cons.1 h
      by_cases hk : k' = k
      · subst hk
        have : (k', v) ∉ l := fun hm => hk' (List.mem_map.2 ⟨_, hm, rfl⟩)
        simp [getEntry, this, eq_comm]
      · simp [getEntry, hk, ih hl, Ne.symm hk]

theorem mem_entries_iff (d : Dict κ ν) (k : κ) (v : ν) : (k, v) ∈ d.entries ↔ d.get? k = some v :=
  (getEntry_eq_some d.nodup).symm

theorem entries_insertAll {d : Dict κ ν} {l : List (κ × ν)} (h : (d.keys ++ l.map Prod.fst).Nodup) :
    (d.insertAll l).entries = d.entries ++ l := by
  induction l generalizing d with
  | nil => exact (List.append_nil _).symm
  | cons e l ih =>
      have hfresh : e.1 ∉ d.keys := by
        rw [List.map_cons, List.nodup_append] at h
        exact fun hmem => h.2.2 e.1 hmem e.1 List.mem_cons_self rfl
      have hentries : (d.insert e.1 e.2).entries = d.entries ++ [e] := by
        have key : ∀ l : List (κ × ν), e.1 ∉ l.map Prod.fst → setEntry e.1 e.2 l = l ++ [e] := by
          intro l hl
          induction l with
          | nil => rfl
          | cons p l ih =>
              rw [List.map_cons, List.mem_cons, not_or] at hl
              obtain ⟨k, v⟩ := p
              rw [setEntry, if_neg (Ne.symm hl.1), ih hl.2]
              rfl
        exact key d.entries hfresh
      have hkeys : (d.insert e.1 e.2).keys ++ l.map Prod.fst = d.keys ++ (e :: l).map Prod.fst := by
        unfold keys
        rw [hentries, List.map_append, List.append_assoc]
        rfl
      rw [insertAll_cons, ih (by rw [hkeys]; exact h), hentries, List.append_assoc]
      rfl

theorem entries_ofList {l : List (κ × ν)} (h : (l.map Prod.fst).Nodup) : (ofList l).entries = l :=
  entries_insertAll h

theorem get?_ofList {l : List (κ × ν)} (h : (l.map Prod.fst).Nodup) {k : κ} {v : ν} :
    (ofList l).get? k = some v ↔ (k, v) ∈ l := by
  rw [← mem_entries_iff, entries_ofList h]

theorem mem_keys_iff {d : Dict κ ν} {k : κ} : k ∈ d.keys ↔ ∃ v, d.get? k = some v := by
  unfold keys
  rw [List.mem_map]
  constructor
  · rintro ⟨⟨k', v⟩, hmem, rfl⟩
    exact ⟨v, (mem_entries_iff d k' v).1 hmem⟩
  · rintro ⟨v, hv⟩
    exact ⟨(k, v), (mem_entries_iff d k v).2 hv, rfl⟩

theorem get?_eq_none_iff {d : Dict κ ν} {k : κ} : d.get? k = none ↔ k ∉ d.keys := by
  rw [mem_keys_iff, ← Option.ne_none_iff_exists', not_not]

theorem get?_filter (d : Dict κ ν) (p : κ → ν → Bool) (k : κ) :
    (d.filter p).get? k = (d.get? k).filter (p k) := by
  refine Option.ext fun v => ?_
  rw [← mem_entries_iff, Option.filter_eq_some_iff, ← mem_entries_iff]
  simp [filter]

theorem get?_erase (d : Dict κ ν) (k k' : κ) : (d.erase k).get? k' = if k = k' then none else d.get? k' := by
  rw [erase, get?_filter]
  by_cases h : k = k'
  · simp [h]
  · cases hv : d.get? k' <;> simp [h, Ne.symm h]

theorem erase_insert (d : Dict κ ν) (k : κ) (v : ν) : (d.insert k v).erase k = d.erase k := by
  refine ext ?_
  obtain ⟨l, hl⟩ := d
  simp only [erase, filter, insert]
  clear hl
  induction l with
  | nil => simp [setEntry]
  | cons e l ih =>
      obtain ⟨k', v'⟩ := e
      by_cases hk : k' = k
      · simp [setEntry, hk]
      · simp only [setEntry, if_neg hk, List.filter_cons, ih]

theorem keys_insert_new {d : Dict κ ν} {k : κ} (v : ν) (h : k ∉ d.keys) : (d.insert k v).keys = d.keys ++ [k] := by
  unfold keys at h ⊢
  rw [insert, setEntry_keys, if_neg h]

theorem keys_erase_sublist (d : Dict κ ν) (k : κ) : (d.erase k).keys.Sublist d.keys :=
  List.filter_sublist.map Prod.fst

theorem contains_iff {d : Dict κ ν} {k : κ} : d.contains k = true ↔ k ∈ d.keys := by
  rw [contains, Option.isSome_iff_exists, mem_keys_iff]

/-! ## Values -/

theorem setEntry_new {k : κ} (v : ν) {l : List (κ × ν)} (h : k ∉ l.map Prod.fst) : setEntry k v l = l ++ [(k, v)] := by
  induction l with
  | nil => rfl
  | cons e l ih =>
      rw [List.map_cons, List.mem_cons, not_or] at h
      show (if e.1 = k then _ else _) = _
      rw [if_neg (Ne.symm h.1), ih h.2, List.cons_append]

theorem values_insert_new {d : Dict κ ν} {k : κ} (v : ν) (h : k ∉ d.keys) : (d.insert k v).values = d.values ++ [v] := by
  show (setEntry k v d.entries).map Prod.snd = d.entries.map Prod.snd ++ [v]
  rw [setEntry_new v h, List.map_append, List.map_singleton]

theorem keys_insert_old {d : Dict κ ν} {k : κ} (v : ν) (h : k ∈ d.keys) : (d.insert k v).keys = d.keys := by
  unfold keys at h ⊢
  rw [insert, setEntry_keys, if_pos h]

theorem insert_of_get? {d : Dict κ ν} {k : κ} {v : ν} (h : d.get? k = some v) :
    d.insert k v = d := by
  have hset : ∀ l : List (κ × ν), getEntry k l = some v → setEntry k v l = l := by
    intro l hl
    induction l with
    | nil => cases hl
    | cons e l ih =>
        obtain ⟨k', v'⟩ := e
        by_cases hk : k' = k
        · simp only [getEntry, hk, if_true, Option.some.injEq] at hl
          simp [setEntry, hk, hl]
        · simp only [getEntry, hk, if_false] at hl
          simp [setEntry, hk, ih hl]
  exact ext (hset d.entries h)

theorem mem_values_iff {d : Dict κ ν} {v : ν} : v ∈ d.values ↔ ∃ k, d.get? k = some v := by
  simp [values, mem_entries_iff]

theorem values_erase {d : Dict κ ν} {k : κ} {v : ν} (h : d.get? k = some v) : d.values.Perm (v :: (d.erase k).values) := by
  obtain ⟨l, hd⟩ := d
  show (l.map Prod.snd).Perm (v :: (l.filter fun e => decide (e.1 ≠ k)).map Prod.snd)
  have hmem : (k, v) ∈ l := (mem_entries_iff ⟨l, hd⟩ k v).2 h
  obtain ⟨l₁, l₂, rfl⟩ := List.append_of_mem hmem
  have hkeep : ∀ e ∈ l₁ ++ l₂, e.1 ≠ k := by
    intro e he hek
    rw [List.map_append, List.map_cons, List.nodup_middle, List.nodup_cons] at hd
    exact hd.1 (by rw [← List.map_append]; exact List.mem_map.2 ⟨e, he, hek⟩)
  have hfilter : (l₁ ++ (k, v) :: l₂).filter (fun e => decide (e.1 ≠ k)) = l₁ ++ l₂ := by
    rw [List.filter_append, List.filter_cons_of_neg (by simp), ← List.filter_append, List.filter_eq_self]
    exact fun e he => by simpa using hkeep e he
  rw [hfilter, List.map_append, List.map_cons, List.map_append]
  exact List.perm_middle

/-! ## Groups -/

/-- `d.setdefault(k, []).append(v)` for every pair. -/
def appendAll (d : Dict κ (List ν)) (l : List (κ × ν)) : Dict κ (List ν) :=
  l.foldl (fun d e => d.insert e.1 ((d.get? e.1).getD [] ++ [e.2])) d

/-- What is in a group was there before or appended. -/
theorem mem_appendAll {d : Dict κ (List ν)} {l : List (κ × ν)} {k : κ} {vs : List ν}
    (h : (d.appendAll l).get? k = some vs) {v : ν} (hv : v ∈ vs) :
    (∃ vs₀, d.get? k = some vs₀ ∧ v ∈ vs₀) ∨ (k, v) ∈ l := by
  induction l generalizing d with
  | nil => exact .inl ⟨vs, h, hv⟩
  | cons e l ih =>
      rcases ih h with ⟨vs₀, hget, hv₀⟩ | hl
      · rw [get?_insert] at hget
        split_ifs at hget with hk
        · cases hget
          rcases List.mem_append.1 hv₀ with hv₀ | hv₀
          · cases hold : d.get? e.1 with
            | none =>
                rw [hold] at hv₀
                cases hv₀
            | some vs₁ =>
                rw [hold] at hv₀
                exact .inl ⟨vs₁, hk ▸ hold, hv₀⟩
          · rw [List.mem_singleton.1 hv₀, ← hk]
            exact .inr List.mem_cons_self
        · exact .inl ⟨vs₀, hget, hv₀⟩
      · exact .inr (List.mem_cons_of_mem _ hl)

theorem appendAll_ne_nil {d : Dict κ (List ν)} (hd : ∀ k vs, d.get? k = some vs → vs ≠ []) {l : List (κ × ν)} {k : κ}
    {vs : List ν} (h : (d.appendAll l).get? k = some vs) : vs ≠ [] := by
  induction l generalizing d with
  | nil => exact hd k vs h
  | cons e l ih =>
      refine ih ?_ h
      intro k' vs' hget
      rw [get?_insert] at hget
      split_ifs at hget
      · cases hget
        exact List.append_ne_nil_of_right_ne_nil _ (List.cons_ne_nil _ _)
      · exact hd k' vs' hget

/-- A group grows by the values appended at its key, in their order. -/
theorem getD_appendAll (d : Dict κ (List ν)) (l : List (κ × ν)) (k : κ) :
    ((d.appendAll l).get? k).getD [] = (d.get? k).getD [] ++ (l.filter fun e => e.1 = k).map Prod.snd := by
  induction l generalizing d with
  | nil => simp [appendAll]
  | cons e l ih =>
      show ((appendAll (d.insert e.1 _) l).get? k).getD [] = _
      rw [ih, get?_insert]
      by_cases he : e.1 = k <;> simp [he]

theorem get?_appendAll_ne_none (d : Dict κ (List ν)) (l : List (κ × ν)) (k : κ) :
    (d.appendAll l).get? k ≠ none ↔ d.get? k ≠ none ∨ ∃ e ∈ l, e.1 = k := by
  induction l generalizing d with
  | nil => simp [appendAll]
  | cons e l ih =>
      show (appendAll (d.insert e.1 _) l).get? k ≠ none ↔ _
      rw [ih, get?_insert]
      by_cases he : e.1 = k <;> simp [he]

theorem flatMap_setEntry (k : κ) (v : ν) (l : List (κ × List ν)) :
    ((setEntry k ((getEntry k l).getD [] ++ [v]) l).flatMap Prod.snd).Perm (l.flatMap Prod.snd ++ [v]) := by
  induction l with
  | nil => exact List.Perm.refl _
  | cons e l ih =>
      obtain ⟨k', vs⟩ := e
      by_cases hk : k' = k
      · simp only [setEntry, getEntry, hk, if_true, List.flatMap_cons, Option.getD_some, List.append_assoc]
        exact List.perm_append_comm.append_left vs
      · simp only [setEntry, getEntry, hk, if_false, List.flatMap_cons, List.append_assoc]
        exact ih.append_left vs

theorem flatMap_appendAll (d : Dict κ (List ν)) (l : List (κ × ν)) :
    ((d.appendAll l).entries.flatMap Prod.snd).Perm (d.entries.flatMap Prod.snd ++ l.map Prod.snd) := by
  induction l generalizing d with
  | nil => simp [appendAll]
  | cons e l ih =>
      refine (ih _).trans ?_
      rw [List.map_cons, ← List.singleton_append, ← List.append_assoc]
      exact (flatMap_setEntry e.1 e.2 d.entries).append_right _
/-! ## Weights -/

omit [DecidableEq κ] in
/-- The sum of the weights of some entries. -/
def totalOf (f : κ → ν → Nat) : List (κ × ν) → Nat
  | [] => 0
  | e :: l => f e.1 e.2 + totalOf f l

def total (f : κ → ν → Nat) (d : Dict κ ν) : Nat := totalOf f d.entries

variable {f g : κ → ν → Nat}

omit [DecidableEq κ] in
@[simp] theorem total_empty : total f (∅ : Dict κ ν) = 0 := rfl

theorem total_le {d : Dict κ ν} (h : ∀ k v, d.get? k = some v → f k v ≤ g k v) : d.total f ≤ d.total g := by
  have hle : ∀ l : List (κ × ν), (∀ e ∈ l, f e.1 e.2 ≤ g e.1 e.2) → totalOf f l ≤ totalOf g l := by
    intro l
    induction l with
    | nil => exact fun _ => Nat.le_refl 0
    | cons e l ih =>
        intro h
        exact Nat.add_le_add (h e List.mem_cons_self) (ih fun e' he' => h e' (List.mem_cons_of_mem _ he'))
  exact hle d.entries fun e he => h e.1 e.2 ((mem_entries_iff d e.1 e.2).1 he)

theorem total_congr {d : Dict κ ν} (h : ∀ k v, d.get? k = some v → f k v = g k v) : d.total f = d.total g :=
  Nat.le_antisymm (total_le fun k v hv => Nat.le_of_eq (h k v hv)) (total_le fun k v hv => Nat.le_of_eq (h k v hv).symm)

theorem total_eq_zero {d : Dict κ ν} (h : ∀ k v, d.get? k = some v → f k v = 0) : d.total f = 0 := by
  have hzero : ∀ l : List (κ × ν), totalOf (fun _ _ => 0) l = 0 := by
    intro l
    induction l with
    | nil => rfl
    | cons e l ih => rw [totalOf, ih]
  exact (total_congr h).trans (hzero d.entries)

theorem total_insert (d : Dict κ ν) (k : κ) (v : ν) :
    (d.insert k v).total f + ((d.get? k).map (f k)).getD 0 = d.total f + f k v := by
  obtain ⟨l, hl⟩ := d
  simp only [get?, insert, total]
  clear hl
  induction l with
  | nil => simp [setEntry, getEntry, totalOf]
  | cons p l ih =>
      obtain ⟨k', v'⟩ := p
      by_cases hk : k' = k
      · subst hk
        simp only [setEntry, getEntry, if_true, totalOf, Option.map_some, Option.getD_some]
        omega
      · simp only [setEntry, getEntry, if_neg hk, totalOf]
        omega

theorem total_insert_new {d : Dict κ ν} {k : κ} (v : ν) (h : d.get? k = none) :
    (d.insert k v).total f = d.total f + f k v := by
  have := total_insert (f := f) d k v
  simpa [h] using this

theorem total_insert_old {d : Dict κ ν} {k : κ} {v v' : ν} (h : d.get? k = some v) (hf : f k v' = f k v) :
    (d.insert k v').total f = d.total f := by
  have := total_insert (f := f) d k v'
  simp only [h, Option.map_some, Option.getD_some, hf] at this
  omega

omit [DecidableEq κ] in
theorem totalOf_filter (l : List (κ × ν)) (p : κ → ν → Bool) :
    totalOf f (l.filter fun e => p e.1 e.2) = totalOf (fun k v => if p k v then f k v else 0) l := by
  induction l with
  | nil => rfl
  | cons e l ih =>
      by_cases he : p e.1 e.2 = true
      · simp [he, ih, totalOf]
      · simp [he, ih, totalOf]

omit [DecidableEq κ] in
theorem total_filter (d : Dict κ ν) (p : κ → ν → Bool) :
    (d.filter p).total f = d.total fun k v => if p k v then f k v else 0 :=
  totalOf_filter d.entries p

theorem total_erase {d : Dict κ ν} {k : κ} {v : ν} (h : d.get? k = some v) :
    (d.erase k).total f + f k v = d.total f := by
  obtain ⟨l, hl⟩ := d
  simp only [get?, erase, filter, total] at h ⊢
  induction l with
  | nil => cases h
  | cons e l ih =>
      obtain ⟨k', v'⟩ := e
      obtain ⟨hfresh, hnodup⟩ := List.nodup_cons.1 hl
      by_cases hk : k' = k
      · subst hk
        have htail : l.filter (fun e => decide (e.1 ≠ k')) = l :=
          List.filter_eq_self.2 fun e he => decide_eq_true fun heq => hfresh (List.mem_map.2 ⟨e, he, heq⟩)
        simp only [getEntry, if_true, Option.some.injEq] at h
        rw [List.filter_cons_of_neg (by simp), htail, totalOf, h, Nat.add_comm]
      · rw [getEntry, if_neg hk] at h
        have := ih hnodup h
        rw [List.filter_cons_of_pos (by simpa using hk), totalOf, totalOf]
        omega

end Dict
