import AuroraRl.Lib.PyData

/-!
# Trees of objects

* `PyData.walk` : the value behind a path of keys; `Leaf` : one that is no object;
* `Distinct` : all objects inside have distinct keys;
* `PyDict.mergeInto` : one object merged over another, deeply;
* `PyDict.fillIn` : a value where there is none, with the objects on the way; `PyDict.table` : an object inside another;
* `Clear` : a tree that leaves the leaf at a path in place when it is merged over another;
* `Extends` : an object with all leaves of another.
-/

namespace PyData

def isDict : PyData → Bool
  | dict _ => true
  | _ => false

/-- The value behind a path of keys. -/
def walk : List String → PyData → Option PyData
  | [], d => some d
  | k :: path, dict entries => (PyDict.get? entries k).bind (walk path)
  | _ :: _, _ => .none

/-- `v` is behind the path, and no object. -/
def Leaf (tree : Option PyData) (path : List String) (v : PyData) : Prop :=
  tree.bind (walk path) = some v ∧ v.isDict = false

/-- No object inside has two entries of one key. -/
def Distinct (d : PyData) : Prop := ∀ path entries, d.walk path = some (dict entries) → (entries.map Prod.fst).Nodup

/-- Merged over another tree, `tree` has nothing at the path, and no other value on the way. -/
def Clear : Option PyData → List String → Prop
  | .none, _ => True
  | some (dict entries), k :: path => Clear (PyDict.get? entries k) path
  | some _, _ => False

end PyData

namespace PyDict

/-- `d.pop(key, None)`, for the object that is left. -/
def erase (d : PyDict) (key : String) : PyDict := d.filter fun e => e.1 ≠ key

mutual

/-- What a merge leaves at a key: `v` over what was there. -/
def mergeOver : PyData → Option PyData → PyData
  | .dict src, some (.dict dst) => .dict (mergeInto src dst)
  | v, _ => v

/-- `deep_merge(dst, src)`: objects are merged, any other value of `src` replaces what was there. -/
def mergeInto : List (String × PyData) → PyDict → PyDict
  | [], dst => dst
  | (k, v) :: src, dst => mergeInto src (dst.set k (mergeOver v (dst.get? k)))

end

/-- `setdefault` along the path, then the value if its key is missing; nothing where the path meets another value. -/
def fillIn : List String → PyData → PyDict → PyDict
  | [], _, node => node
  | [k], v, node => if (node.get? k).isNone then node.set k v else node
  | k :: path, v, node =>
    match node.get? k with
    | none => node.set k (.dict (fillIn path v []))
    | some (.dict sub) => node.set k (.dict (fillIn path v sub))
    | some _ => node

/-- The value at a key, if it is an object. -/
def table (d : PyDict) (key : String) : Option PyData := (d.get? key).filter PyData.isDict

/-! ## Entries -/

theorem get?_set (d : PyDict) (k k' : String) (v : PyData) :
    (d.set k v).get? k' = if k = k' then some v else d.get? k' := by
  unfold get? set
  induction d with
  | nil => simp [Dict.setEntry, Dict.getEntry]
  | cons e d ih =>
      obtain ⟨key, value⟩ := e
      by_cases hkey : key = k
      · simp only [Dict.setEntry, hkey, if_true, Dict.getEntry]
        split <;> rfl
      · simp only [Dict.setEntry, hkey, if_false, Dict.getEntry, ih]
        by_cases hk : k = k'
        · rw [if_neg (hk ▸ hkey), if_pos hk, if_pos hk]
        · rw [if_neg hk, if_neg hk]

theorem get?_filter (d : PyDict) (p : String → Bool) (k : String) :
    PyDict.get? (d.filter fun e => p e.1) k = if p k then d.get? k else none := by
  unfold get?
  induction d with
  | nil => simp [Dict.getEntry]
  | cons e d ih =>
      obtain ⟨key, value⟩ := e
      simp only [List.filter_cons, Dict.getEntry]
      by_cases hp : p key
      · rw [if_pos hp]
        simp only [Dict.getEntry, ih]
        by_cases hk : key = k
        · rw [if_pos hk, if_pos hk, if_pos (hk ▸ hp)]
        · rw [if_neg hk, if_neg hk]
      · rw [if_neg hp, ih]
        by_cases hk : key = k
        · rw [if_neg (hk ▸ hp), if_neg (hk ▸ hp)]
        · rw [if_neg hk]

theorem get?_erase (d : PyDict) (k k' : String) : (d.erase k).get? k' = if k' = k then none else d.get? k' := by
  have h := get?_filter d (fun key => key ≠ k) k'
  unfold erase
  by_cases hk : k' = k <;> simpa [hk] using h

theorem nodup_set {d : PyDict} {k : String} {v : PyData} (h : (d.map Prod.fst).Nodup) : ((d.set k v).map Prod.fst).Nodup :=
  Dict.setEntry_nodup k v d h

theorem get?_merge {d l : PyDict} (h : (l.map Prod.fst).Nodup) (k : String) :
    (d.merge l).get? k = ((l.get? k).or (d.get? k)) := by
  unfold merge
  induction l generalizing d with
  | nil => rfl
  | cons e l ih =>
      obtain ⟨key, value⟩ := e
      rw [List.map_cons, List.nodup_cons] at h
      rw [List.foldl_cons, ih h.2, get?_set]
      show _ = Option.or (if key = k then some value else get? l k) _
      by_cases hk : key = k
      · have hnone : get? l k = none := by
          cases hget : get? l k with
          | none => rfl
          | some v => exact absurd (List.mem_map_of_mem ((Dict.getEntry_eq_some h.2).1 hget)) (hk ▸ h.1)
        rw [hnone, if_pos hk, if_pos hk]
        rfl
      · rw [if_neg hk, if_neg hk]

/-! ## Deep merges -/

theorem get?_mergeInto {src dst : PyDict} (h : (src.map Prod.fst).Nodup) (k : String) :
    (mergeInto src dst).get? k = ((src.get? k).map fun v => mergeOver v (dst.get? k)).or (dst.get? k) := by
  induction src generalizing dst with
  | nil => rfl
  | cons e src ih =>
      obtain ⟨key, value⟩ := e
      rw [List.map_cons, List.nodup_cons] at h
      rw [mergeInto, ih h.2, get?_set]
      show _ = Option.or (Option.map _ (if key = k then some value else get? src k)) _
      by_cases hk : key = k
      · have hnone : get? src k = none := by
          cases hget : get? src k with
          | none => rfl
          | some v => exact absurd (List.mem_map_of_mem ((Dict.getEntry_eq_some h.2).1 hget)) (hk ▸ h.1)
        subst hk
        rw [hnone, if_pos rfl, if_pos rfl]
        rfl
      · rw [if_neg hk, if_neg hk]

theorem nodup_mergeInto {src dst : PyDict} (h : (dst.map Prod.fst).Nodup) : ((mergeInto src dst).map Prod.fst).Nodup := by
  induction src generalizing dst with
  | nil => exact h
  | cons e src ih => exact ih (nodup_set h)

/-- An object with all the leaves of `d`. -/
def Extends (d d' : PyDict) : Prop :=
  ∀ path v, PyData.Leaf (some (.dict d)) path v → PyData.Leaf (some (.dict d')) path v

theorem table_eq_dict {d e : PyDict} {k : String} (h : d.get? k = some (.dict e)) : d.table k = some (.dict e) := by
  unfold table
  rw [h]
  rfl

theorem table_eq_none {d : PyDict} {k : String} (h : ∀ v, d.get? k = some v → v.isDict = false) : d.table k = none := by
  unfold table
  cases hk : d.get? k with
  | none => rfl
  | some v => simp [h v hk]

end PyDict

/-! ## Leaves and distinct keys -/

namespace PyData

theorem leaf_cons {d : PyDict} {k : String} {path : List String} {v : PyData} :
    Leaf (some (dict d)) (k :: path) v ↔ Leaf (d.get? k) path v := Iff.rfl

theorem Leaf.exists_dict {tree : Option PyData} {k : String} {path : List String} {v : PyData}
    (h : Leaf tree (k :: path) v) : ∃ d, tree = some (dict d) ∧ Leaf (PyDict.get? d k) path v := by
  obtain ⟨hwalk, hleaf⟩ := h
  cases tree with
  | none => simp at hwalk
  | some d =>
      cases d with
      | dict d => exact ⟨d, rfl, hwalk, hleaf⟩
      | _ => simp [walk] at hwalk

theorem clear_none (path : List String) : Clear .none path := by cases path <;> trivial

theorem clear_nil {tree : Option PyData} : Clear tree [] ↔ tree = .none := by
  cases tree with
  | none => exact ⟨fun _ => rfl, fun _ => trivial⟩
  | some d => cases d <;> exact ⟨fun h => h.elim, fun h => by cases h⟩

theorem clear_table_singleton {d : PyDict} {s k : String} :
    Clear (d.table s) [k] ↔ ∀ e, d.get? s = some (dict e) → PyDict.get? e k = .none := by
  constructor
  · intro h e he
    rw [PyDict.table_eq_dict he] at h
    exact clear_nil.1 h
  · intro h
    by_cases htable : ∃ e, d.get? s = some (dict e)
    · obtain ⟨e, he⟩ := htable
      rw [PyDict.table_eq_dict he]
      exact clear_nil.2 (h e he)
    · rw [PyDict.table_eq_none fun v hv => ?_]
      · trivial
      · cases v with
        | dict e => exact (htable ⟨e, hv⟩).elim
        | _ => rfl

theorem leaf_nil {tree : Option PyData} {v : PyData} : Leaf tree [] v ↔ tree = some v ∧ v.isDict = false := by
  cases tree <;> simp [Leaf, walk]

theorem not_leaf_dict {d : PyDict} {v : PyData} : ¬ Leaf (some (dict d)) [] v := by
  rw [leaf_nil]
  rintro ⟨h, hleaf⟩
  rw [← Option.some.inj h] at hleaf
  cases hleaf

theorem not_leaf_none {path : List String} {v : PyData} : ¬ Leaf .none path v := by
  rintro ⟨h, -⟩
  cases h

/-- Behind a value that is no object there is only the value. -/
theorem Leaf.of_not_dict {d : PyData} {path : List String} {v : PyData} (h : Leaf (some d) path v)
    (hd : d.isDict = false) : path = [] ∧ d = v := by
  cases path with
  | nil => exact ⟨rfl, Option.some.inj (leaf_nil.1 h).1⟩
  | cons k path =>
      obtain ⟨e, he, -⟩ := h.exists_dict
      rw [Option.some.inj he] at hd
      cases hd

/-- A leaf below a path is a leaf of what is behind the path. -/
theorem Leaf.append {tree : Option PyData} {path rest : List String} {v : PyData} (h : Leaf tree (path ++ rest) v) :
    ∃ w, tree.bind (PyData.walk path) = some w ∧ Leaf (some w) rest v := by
  induction path generalizing tree with
  | nil =>
      cases tree with
      | none => exact (not_leaf_none h).elim
      | some w => exact ⟨w, rfl, h⟩
  | cons k path ih =>
      obtain ⟨d, rfl, hleaf⟩ := h.exists_dict
      exact ih hleaf

theorem Distinct.nodup {d : PyDict} (h : Distinct (dict d)) : (d.map Prod.fst).Nodup := h [] d rfl

theorem Distinct.walk {d v : PyData} (h : Distinct d) {path : List String} (hv : d.walk path = some v) : Distinct v := by
  induction path generalizing d with
  | nil => exact Option.some.inj hv ▸ h
  | cons k path ih =>
      cases d with
      | dict d =>
          obtain ⟨w, hw, hv⟩ := Option.bind_eq_some_iff.1 hv
          refine ih (fun path e he => h (k :: path) e ?_) hv
          show (PyDict.get? d k).bind _ = _
          rw [hw]
          exact he
      | _ => simp [PyData.walk] at hv

theorem Distinct.get {d : PyDict} {k : String} {v : PyData} (h : Distinct (dict d)) (hv : d.get? k = some v) :
    Distinct v := by
  refine h.walk (?_ : PyData.walk [k] (dict d) = some v)
  show (d.get? k).bind _ = _
  rw [hv]
  rfl

theorem distinct_of_not_dict {d : PyData} (h : d.isDict = false) : Distinct d := by
  intro path e he
  cases path with
  | nil =>
      rw [Option.some.inj he] at h
      cases h
  | cons k path => cases d <;> simp [PyData.walk, isDict] at he h

theorem distinct_dict {d : PyDict} (hnodup : (d.map Prod.fst).Nodup) (h : ∀ k v, d.get? k = some v → Distinct v) :
    Distinct (dict d) := by
  intro path e he
  cases path with
  | nil =>
      obtain rfl := dict.inj (Option.some.inj he)
      exact hnodup
  | cons k path =>
      obtain ⟨v, hv, he⟩ := Option.bind_eq_some_iff.1 he
      exact h k v hv path e he

theorem distinct_of_entries {d : PyDict} (hnodup : (d.map Prod.fst).Nodup) (h : ∀ e ∈ d, Distinct e.2) :
    Distinct (dict d) :=
  distinct_dict hnodup fun _ _ hv => h _ ((Dict.getEntry_eq_some hnodup).1 hv)

theorem distinct_single {k : String} {v : PyData} (hv : Distinct v) : Distinct (dict [(k, v)]) :=
  distinct_of_entries (List.nodup_singleton k) (List.forall_mem_singleton.2 hv)

theorem distinct_pair {k k' : String} {v v' : PyData} (hk : k ≠ k') (hv : Distinct v) (hv' : Distinct v') :
    Distinct (dict [(k, v), (k', v')]) := by
  refine distinct_of_entries (by simp [hk]) ?_
  rw [List.forall_mem_cons, List.forall_mem_singleton]
  exact ⟨hv, hv'⟩

theorem Distinct.set {d : PyDict} {k : String} {v : PyData} (h : Distinct (dict d)) (hv : Distinct v) :
    Distinct (dict (d.set k v)) := by
  refine distinct_dict (PyDict.nodup_set h.nodup) fun k' v' hget => ?_
  rw [PyDict.get?_set] at hget
  split at hget
  · exact Option.some.inj hget ▸ hv
  · exact h.get hget

theorem Distinct.erase {d : PyDict} (h : Distinct (dict d)) (k : String) : Distinct (dict (d.erase k)) := by
  refine distinct_dict (h.nodup.sublist ((List.filter_sublist).map Prod.fst)) fun k' v hget => ?_
  rw [PyDict.get?_erase] at hget
  split at hget
  · cases hget
  · exact h.get hget

theorem distinct_empty : Distinct (dict []) :=
  distinct_dict List.nodup_nil fun _ _ h => by cases h

/-! ## What a merge keeps -/

theorem Distinct.mergeInto {src dst : PyDict} (hsrc : Distinct (dict src)) (hdst : Distinct (dict dst)) :
    Distinct (dict (PyDict.mergeInto src dst)) := by
  intro path entries hwalk
  induction path generalizing src dst with
  | nil =>
      obtain rfl := dict.inj (Option.some.inj hwalk)
      exact PyDict.nodup_mergeInto hdst.nodup
  | cons k path ih =>
      obtain ⟨v, hv, hwalk⟩ := Option.bind_eq_some_iff.1 hwalk
      rw [PyDict.get?_mergeInto hsrc.nodup] at hv
      cases hk : PyDict.get? src k with
      | none =>
          rw [hk] at hv
          exact hdst.get hv path entries hwalk
      | some w =>
          rw [hk] at hv
          obtain rfl : PyDict.mergeOver w (PyDict.get? dst k) = v := Option.some.inj hv
          unfold PyDict.mergeOver at hwalk
          split at hwalk
          · rename_i hdict
            exact ih (hsrc.get hk) (hdst.get hdict) hwalk
          · exact hsrc.get hk path entries hwalk

/-- A leaf stays where the tree that is merged over it leaves it in place. -/
theorem Leaf.mergeInto_of_clear {src dst : PyDict} {path : List String} {v : PyData} (h : Leaf (some (dict dst)) path v)
    (hd : Distinct (dict src)) (hclear : Clear (some (dict src)) path) :
    Leaf (some (dict (PyDict.mergeInto src dst))) path v := by
  induction path generalizing src dst with
  | nil => exact (not_leaf_dict h).elim
  | cons k path ih =>
      rw [leaf_cons, PyDict.get?_mergeInto hd.nodup]
      rw [leaf_cons] at h
      change Clear (PyDict.get? src k) path at hclear
      cases hk : PyDict.get? src k with
      | none => exact h
      | some w =>
          rw [hk] at hclear
          cases path with
          | nil => cases w <;> exact hclear.elim
          | cons k' path =>
              cases w with
              | dict e =>
                  obtain ⟨d, hdst, hleaf⟩ := h.exists_dict
                  rw [hdst]
                  have hinner : Leaf (some (dict d)) (k' :: path) v := leaf_cons.2 hleaf
                  exact ih hinner (hd.get hk) hclear
              | _ => exact hclear.elim

/-- A leaf of the tree that is merged over another one is in the result. -/
theorem Leaf.mergeInto {src dst : PyDict} {path : List String} {v : PyData} (h : Leaf (some (dict src)) path v)
    (hd : Distinct (dict src)) : Leaf (some (dict (PyDict.mergeInto src dst))) path v := by
  induction path generalizing src dst with
  | nil => exact (not_leaf_dict h).elim
  | cons k path ih =>
      rw [leaf_cons, PyDict.get?_mergeInto hd.nodup]
      rw [leaf_cons] at h
      cases hk : PyDict.get? src k with
      | none => exact (not_leaf_none (hk ▸ h)).elim
      | some w =>
          rw [hk] at h
          show Leaf (some (PyDict.mergeOver w (PyDict.get? dst k))) path v
          unfold PyDict.mergeOver
          split
          · rename_i e d
            exact ih h (hd.get hk)
          · exact h

end PyData

/-! ## Filling in -/

namespace PyDict

open PyData (Leaf Distinct leaf_cons not_leaf_none)

theorem Extends.refl (d : PyDict) : Extends d d := fun _ _ h => h

theorem Extends.trans {d d₁ d' : PyDict} (h : Extends d d₁) (h' : Extends d₁ d') : Extends d d' :=
  fun path v hleaf => h' path v (h path v hleaf)

theorem extends_set {d : PyDict} {k : String} {v : PyData}
    (h : ∀ path w, Leaf (d.get? k) path w → Leaf (some v) path w) : Extends d (d.set k v) := by
  intro path w hleaf
  cases path with
  | nil => exact (PyData.not_leaf_dict hleaf).elim
  | cons k' path =>
      rw [leaf_cons] at hleaf ⊢
      rw [get?_set]
      split
      · rename_i hk
        exact h path w (hk ▸ hleaf)
      · exact hleaf

theorem extends_fillIn (path : List String) (v : PyData) (d : PyDict) : Extends d (fillIn path v d) := by
  induction path generalizing d with
  | nil => exact Extends.refl d
  | cons k path ih =>
      cases path with
      | nil =>
          unfold fillIn
          split
          · rename_i hnone
            apply extends_set
            intro path w hleaf
            rw [Option.isNone_iff_eq_none.1 hnone] at hleaf
            exact (not_leaf_none hleaf).elim
          · exact Extends.refl d
      | cons k' path =>
          unfold fillIn
          split
          · rename_i hnone
            apply extends_set
            intro path w hleaf
            rw [hnone] at hleaf
            exact (not_leaf_none hleaf).elim
          · rename_i sub hsub
            apply extends_set
            intro path' w hleaf
            rw [hsub] at hleaf
            exact ih sub path' w hleaf
          · exact Extends.refl d

theorem distinct_fillIn {path : List String} {v : PyData} {d : PyDict} (hd : Distinct (.dict d)) (hv : Distinct v) :
    Distinct (.dict (fillIn path v d)) := by
  induction path generalizing d with
  | nil => exact hd
  | cons k path ih =>
      cases path with
      | nil =>
          unfold fillIn
          split
          · exact hd.set hv
          · exact hd
      | cons k' path =>
          unfold fillIn
          split
          · refine hd.set (ih (d := []) ?_)
            exact PyData.distinct_dict List.nodup_nil fun k v h => by cases h
          · rename_i sub hsub
            exact hd.set (ih (hd.get hsub))
          · exact hd

theorem get?_fillIn_of_ne {path : List String} {v : PyData} {d : PyDict} {k k' : String} (h : k' ≠ k) :
    (fillIn (k :: path) v d).get? k' = d.get? k' := by
  have hset (w : PyData) : (d.set k w).get? k' = d.get? k' := by rw [get?_set, if_neg (Ne.symm h)]
  cases path with
  | nil =>
      unfold fillIn
      split
      · exact hset v
      · rfl
  | cons k₁ path =>
      unfold fillIn
      split
      · exact hset _
      · exact hset _
      · rfl

/-- One level down, only the key that is filled in changes. -/
theorem clear_table_fillIn {d : PyDict} {s k k' : String} {path : List String} {v : PyData} (hk : k' ≠ k)
    (h : PyData.Clear (d.table s) (k' :: path)) : PyData.Clear ((fillIn [s, k] v d).table s) (k' :: path) := by
  unfold fillIn
  split
  · rename_i hnone
    rw [table_eq_dict ((get?_set _ _ _ _).trans (if_pos rfl))]
    show PyData.Clear ((fillIn [k] v []).get? k') path
    rw [get?_fillIn_of_ne hk]
    exact PyData.clear_none path
  · rename_i sub hsub
    rw [table_eq_dict hsub] at h
    rw [table_eq_dict ((get?_set _ _ _ _).trans (if_pos rfl))]
    show PyData.Clear ((fillIn [k] v sub).get? k') path
    rw [get?_fillIn_of_ne hk]
    exact h
  · exact h

end PyDict
