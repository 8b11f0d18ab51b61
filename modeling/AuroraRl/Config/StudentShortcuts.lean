import AuroraRl.Config.SharedFields

/-!
# Student shortcuts

* `foldStudentShortcuts` : `[orchestrator.client]` and `[orchestrator.model]` into `[orchestrator.student]`, by
  `foldClient`, `foldModel` and `foldFlat`;
* `propagateAndFold` : a document before its sub-configs are built;
* `place` : where a field that is spelled through a shortcut belongs;
* `SetOnce` : nothing else in the document sets a field;
* `propagateAndFold_keeps` : all such fields are as the user set them.
-/

namespace AuroraRl.Config

open PyData (Distinct Clear Leaf leaf_cons not_leaf_none)

def modelFields : List String := ["name", "trust_remote_code", "vlm", "lora"]

/-- `deep_merge(dst, src)`, for a `dst` of any type. -/
def deepMerge : PyData → PyDict → Except PyException PyData
  | .dict dst, src => .ok (.dict (PyDict.mergeInto src dst))
  | dst, [] => .ok dst
  | dst, (_, .dict _) :: _ => .error ⟨.attributeError, "'" ++ dst.typeName ++ "' object has no attribute 'get'"⟩
  | .list _, _ :: _ => .error ⟨.typeError, "list indices must be integers or slices, not str"⟩
  | dst, _ :: _ => .error ⟨.typeError, "'" ++ dst.typeName ++ "' object does not support item assignment"⟩

/-- The client shortcut, merged over `student.client`. -/
def mergeClient (student legacyClient : PyDict) : Except PyException PyDict := do
  let client ← deepMerge ((student.get? "client").getD (.dict [])) legacyClient
  return student.set "client" client

def foldClient (data : PyDict) : Except PyException PyDict :=
  match data.get? "client" with
  | some (.dict legacyClient) =>
    match ((data.erase "client").get? "student").getD (.dict []) with
    | .dict student => do
      let student ← mergeClient student legacyClient
      return (data.erase "client").set "student" (.dict student)
    -- mismatched types: back where it was
    | _ => .ok ((data.erase "client").set "client" (.dict legacyClient))
  | _ => .ok (data.erase "client")

/-- The model shortcut, merged over `student`. -/
def foldModel (data : PyDict) : PyDict :=
  match data.get? "model" with
  | none | some .none => data.erase "model"
  | some legacyModel =>
    match (data.erase "model").get? "student", legacyModel with
    | none, _ | some .none, _ => (data.erase "model").set "student" legacyModel
    | some (.dict existing), .dict legacyModel =>
      (data.erase "model").set "student" (.dict (PyDict.mergeInto legacyModel existing))
    | _, _ => (data.erase "model").set "model" legacyModel

/-- Flat model fields, under `model`. -/
def nestModelFields (student : PyDict) : Except PyException PyDict :=
  let flat := student.filter fun e => e.1 ∈ modelFields
  let student : PyDict := student.filter fun e => e.1 ∉ modelFields
  if flat.isEmpty then .ok student
  else match (student.get? "model").getD (.dict []) with
    | .dict model => .ok (student.set "model" (.dict (PyDict.merge model flat)))
    | model => .error ⟨.attributeError, "'" ++ model.typeName ++ "' object has no attribute 'update'"⟩

def foldFlat (data : PyDict) : Except PyException PyDict :=
  match data.get? "student" with
  | some (.dict student) => do
    let student ← nestModelFields student
    return data.set "student" (.dict student)
  | _ => .ok data

def foldStudentShortcuts : PyData → Except PyException PyData
  | .dict data => do
    let data ← foldClient data
    let data ← foldFlat (foldModel data)
    return .dict data
  | data => .ok data

/-- The orchestrator's table is folded when the sub-config is built. -/
def foldOrchestrator : PyData → Except PyException PyData
  | .dict data =>
    match PyDict.get? data "orchestrator" with
    | none => .ok (.dict data)
    | some orchestrator => do
      let orchestrator ← foldStudentShortcuts orchestrator
      return .dict (PyDict.set data "orchestrator" orchestrator)
  | data => .ok data

def propagateAndFold [PyText] (data : PyData) : Except PyException PyData := do
  let data ← propagateSharedFields data
  foldOrchestrator data

/-! ## Where a field belongs -/

/-- In the student's table, a model field is one of `model`. -/
def nest : List String → List String
  | k :: path => if k ∈ modelFields then "model" :: k :: path else k :: path
  | [] => []

/-- The place of a field of the orchestrator's table. -/
def placeInTable : List String → List String
  | "client" :: path => "student" :: "client" :: path
  | "model" :: path => "student" :: nest path
  | "student" :: path => "student" :: nest path
  | path => path

def place : List String → List String
  | "orchestrator" :: path => "orchestrator" :: placeInTable path
  | path => path

/-! ## The client shortcut -/

section DeepMerge

variable {dst merged v : PyData} {src : PyDict} {path : List String}

theorem deepMerge_eq_ok (h : deepMerge dst src = .ok merged) :
    (∃ d, dst = .dict d ∧ merged = .dict (PyDict.mergeInto src d)) ∨ src = [] ∧ merged = dst := by
  unfold deepMerge at h
  split at h
  · rename_i d
    exact .inl ⟨d, rfl, (Except.ok.inj h).symm⟩
  · exact .inr ⟨rfl, (Except.ok.inj h).symm⟩
  · cases h
  · cases h
  · cases h

theorem leaf_deepMerge_src (h : deepMerge dst src = .ok merged) (hsrc : Distinct (.dict src)) {k : String}
    (hleaf : Leaf (src.get? k) path v) : Leaf (some merged) (k :: path) v := by
  rcases deepMerge_eq_ok h with ⟨d, rfl, rfl⟩ | ⟨rfl, -⟩
  · exact Leaf.mergeInto (leaf_cons.2 hleaf) hsrc
  · exact (not_leaf_none hleaf).elim

theorem leaf_deepMerge_dst (h : deepMerge dst src = .ok merged) (hsrc : Distinct (.dict src))
    (hleaf : Leaf (some dst) path v) (hclear : Clear (some (.dict src)) path) : Leaf (some merged) path v := by
  rcases deepMerge_eq_ok h with ⟨d, rfl, rfl⟩ | ⟨-, rfl⟩
  · exact hleaf.mergeInto_of_clear hsrc hclear
  · exact hleaf

theorem distinct_deepMerge (h : deepMerge dst src = .ok merged) (hsrc : Distinct (.dict src)) (hdst : Distinct dst) :
    Distinct merged := by
  rcases deepMerge_eq_ok h with ⟨d, rfl, rfl⟩ | ⟨-, rfl⟩
  · exact hsrc.mergeInto hdst
  · exact hdst

end DeepMerge

theorem distinct_getD {d : PyDict} {k : String} (hd : Distinct (.dict d)) : Distinct ((d.get? k).getD (.dict [])) := by
  cases hk : d.get? k with
  | none => exact PyData.distinct_empty
  | some w => exact hd.get hk

section MergeClient

variable {student student' client : PyDict} {v : PyData} {path : List String}

theorem get?_mergeClient (h : mergeClient student client = .ok student') {k : String} (hk : k ≠ "client") :
    student'.get? k = student.get? k := by
  obtain ⟨merged, -, heq⟩ := bind_eq_ok.1 h
  rw [← Except.ok.inj heq, PyDict.get?_set, if_neg (Ne.symm hk)]

theorem leaf_mergeClient_client (h : mergeClient student client = .ok student') (hd : Distinct (.dict client))
    {k : String} (hleaf : Leaf (client.get? k) path v) : Leaf (student'.get? "client") (k :: path) v := by
  obtain ⟨merged, hmerge, heq⟩ := bind_eq_ok.1 h
  rw [← Except.ok.inj heq, PyDict.get?_set, if_pos rfl]
  exact leaf_deepMerge_src hmerge hd hleaf

theorem leaf_mergeClient_student (h : mergeClient student client = .ok student') (hd : Distinct (.dict client))
    {k : String} (hleaf : Leaf (student.get? k) path v) (hclear : k = "client" → Clear (some (.dict client)) path) :
    Leaf (student'.get? k) path v := by
  by_cases hk : k = "client"
  · subst hk
    obtain ⟨merged, hmerge, heq⟩ := bind_eq_ok.1 h
    rw [← Except.ok.inj heq, PyDict.get?_set, if_pos rfl]
    cases hclient : student.get? "client" with
    | none => exact (not_leaf_none (hclient ▸ hleaf)).elim
    | some w =>
        rw [hclient] at hleaf hmerge
        exact leaf_deepMerge_dst hmerge hd hleaf (hclear rfl)
  · rwa [get?_mergeClient h hk]

theorem distinct_mergeClient (h : mergeClient student client = .ok student') (hd : Distinct (.dict client))
    (hstudent : Distinct (.dict student)) : Distinct (.dict student') := by
  obtain ⟨merged, hmerge, heq⟩ := bind_eq_ok.1 h
  rw [← Except.ok.inj heq]
  exact hstudent.set (distinct_deepMerge hmerge hd (distinct_getD hstudent))

end MergeClient

section FoldClient

variable {o o' : PyDict} {v : PyData} {path : List String}

/-- What the first step does: no shortcut, a merge, or a student that is no table. -/
theorem foldClient_cases (h : foldClient o = .ok o') :
    (o.table "client" = none ∧ o' = o.erase "client") ∨
    ∃ client, o.get? "client" = some (.dict client) ∧
      ((∃ student student', (o.get? "student").getD (.dict []) = .dict student ∧
          mergeClient student client = .ok student' ∧ o' = (o.erase "client").set "student" (.dict student')) ∨
        o.table "student" = none ∧ o' = (o.erase "client").set "client" (.dict client)) := by
  have herase : (o.erase "client").get? "student" = o.get? "student" := by
    rw [PyDict.get?_erase, if_neg (by decide)]
  unfold foldClient at h
  rw [herase] at h
  split at h
  · rename_i client hclient
    refine .inr ⟨client, hclient, ?_⟩
    split at h
    · rename_i student hstudent
      obtain ⟨student', hmerge, heq⟩ := bind_eq_ok.1 h
      exact .inl ⟨student, student', hstudent, hmerge, (Except.ok.inj heq).symm⟩
    · rename_i hne
      refine .inr ⟨PyDict.table_eq_none fun w hw => ?_, (Except.ok.inj h).symm⟩
      cases w with
      | dict e => exact (hne e (by rw [hw]; rfl)).elim
      | _ => rfl
  · rename_i hne
    refine .inl ⟨PyDict.table_eq_none fun w hw => ?_, (Except.ok.inj h).symm⟩
    cases w with
    | dict e => exact (hne e hw).elim
    | _ => rfl

theorem get?_foldClient (h : foldClient o = .ok o') {k : String} (hclient : k ≠ "client") (hstudent : k ≠ "student") :
    o'.get? k = o.get? k := by
  rcases foldClient_cases h with ⟨-, rfl⟩ | ⟨client, -, ⟨student, student', -, -, rfl⟩ | ⟨-, rfl⟩⟩ <;>
    simp [PyDict.get?_set, PyDict.get?_erase, hclient, Ne.symm hclient, Ne.symm hstudent]

theorem distinct_foldClient (h : foldClient o = .ok o') (hd : Distinct (.dict o)) : Distinct (.dict o') := by
  rcases foldClient_cases h with ⟨-, rfl⟩ | ⟨client, hclient, ⟨student, student', hstudent, hmerge, rfl⟩ | ⟨-, rfl⟩⟩
  · exact hd.erase "client"
  · refine (hd.erase "client").set (distinct_mergeClient hmerge (hd.get hclient) ?_)
    rw [← hstudent]
    exact distinct_getD hd
  · exact (hd.erase "client").set (hd.get hclient)

theorem leaf_foldClient_client (h : foldClient o = .ok o') (hd : Distinct (.dict o)) {k : String}
    (hleaf : Leaf (o.get? "client") (k :: path) v) :
    Leaf (o'.get? "student") ("client" :: k :: path) v ∨ Leaf (o'.get? "client") (k :: path) v := by
  obtain ⟨e, he, hk⟩ := hleaf.exists_dict
  rcases foldClient_cases h with ⟨hnone, -⟩ | ⟨client, hclient, ⟨student, student', -, hmerge, rfl⟩ | ⟨-, rfl⟩⟩
  · rw [PyDict.table_eq_dict he] at hnone
    cases hnone
  · obtain rfl : client = e := PyData.dict.inj (Option.some.inj (hclient.symm.trans he))
    refine .inl ?_
    rw [PyDict.get?_set, if_pos rfl, leaf_cons]
    exact leaf_mergeClient_client hmerge (hd.get hclient) hk
  · refine .inr ?_
    rwa [PyDict.get?_set, if_pos rfl, ← hclient]

theorem leaf_foldClient_student (h : foldClient o = .ok o') (hd : Distinct (.dict o))
    (hleaf : Leaf (o.get? "student") path v)
    (hclear : ∀ rest, path = "client" :: rest → Clear (o.table "client") rest) : Leaf (o'.get? "student") path v := by
  rcases foldClient_cases h with ⟨-, rfl⟩ | ⟨client, hclient, ⟨student, student', hstudent, hmerge, rfl⟩ | ⟨-, rfl⟩⟩
  · rwa [PyDict.get?_erase, if_neg (by decide)]
  · cases hraw : o.get? "student" with
    | none => exact (not_leaf_none (hraw ▸ hleaf)).elim
    | some w =>
        rw [hraw] at hleaf hstudent
        obtain rfl : w = .dict student := hstudent
        rw [PyDict.get?_set, if_pos rfl]
        cases path with
        | nil => exact (PyData.not_leaf_dict hleaf).elim
        | cons k path =>
            rw [leaf_cons] at hleaf ⊢
            refine leaf_mergeClient_student hmerge (hd.get hclient) hleaf fun hk => ?_
            rw [← PyDict.table_eq_dict hclient]
            exact hclear path (by rw [hk])
  · simpa [PyDict.get?_set, PyDict.get?_erase] using hleaf

theorem clear_foldClient (h : foldClient o = .ok o') {k : String} (hk : k ≠ "client")
    (hclear : Clear (o.table "student") (k :: path)) : Clear (o'.table "student") (k :: path) := by
  rcases foldClient_cases h with ⟨-, rfl⟩ | ⟨client, -, ⟨student, student', hstudent, hmerge, rfl⟩ | ⟨-, rfl⟩⟩
  · simpa [PyDict.table, PyDict.get?_erase] using hclear
  · rw [PyDict.table_eq_dict ((PyDict.get?_set _ _ _ _).trans (if_pos rfl))]
    show Clear (student'.get? k) path
    rw [get?_mergeClient hmerge hk]
    cases hraw : o.get? "student" with
    | none =>
        rw [hraw] at hstudent
        obtain rfl : [] = student := PyData.dict.inj hstudent
        exact PyData.clear_none path
    | some w =>
        rw [hraw] at hstudent
        obtain rfl : w = .dict student := hstudent
        rwa [PyDict.table_eq_dict hraw] at hclear
  · simpa [PyDict.table, PyDict.get?_set, PyDict.get?_erase] using hclear

end FoldClient

/-! ## The model shortcut -/

section FoldModel

variable {o : PyDict} {v : PyData} {path : List String}

/-- What the second step does: no shortcut, a student that is nothing but the shortcut, a merge, or mismatched types. -/
theorem foldModel_cases (o : PyDict) :
    (PyData.isNone (o.get? "model") ∧ foldModel o = o.erase "model") ∨
    ∃ model, o.get? "model" = some model ∧
      ((PyData.isNone (o.get? "student") ∧ foldModel o = (o.erase "model").set "student" model) ∨
        (∃ student src, o.get? "student" = some (.dict student) ∧ model = .dict src ∧
          foldModel o = (o.erase "model").set "student" (.dict (PyDict.mergeInto src student))) ∨
        foldModel o = (o.erase "model").set "model" model) := by
  have herase : (o.erase "model").get? "student" = o.get? "student" := by
    rw [PyDict.get?_erase, if_neg (by decide)]
  unfold foldModel
  rw [herase]
  split
  · rename_i hmodel
    exact .inl ⟨by rw [hmodel]; rfl, rfl⟩
  · rename_i hmodel
    exact .inl ⟨by rw [hmodel]; rfl, rfl⟩
  · rename_i model hne hmodel
    refine .inr ⟨model, hmodel, ?_⟩
    split
    · rename_i hstudent
      exact .inl ⟨by rw [hstudent]; rfl, rfl⟩
    · rename_i hstudent
      exact .inl ⟨by rw [hstudent]; rfl, rfl⟩
    · rename_i student src hstudent
      exact .inr (.inl ⟨student, src, hstudent, rfl, rfl⟩)
    · exact .inr (.inr rfl)

theorem get?_foldModel {k : String} (hmodel : k ≠ "model") (hstudent : k ≠ "student") :
    (foldModel o).get? k = o.get? k := by
  rcases foldModel_cases o with ⟨-, heq⟩ | ⟨model, -, ⟨-, heq⟩ | ⟨student, src, -, -, heq⟩ | heq⟩ <;>
    simp [heq, PyDict.get?_set, PyDict.get?_erase, hmodel, Ne.symm hmodel, Ne.symm hstudent]

theorem distinct_foldModel (hd : Distinct (.dict o)) : Distinct (.dict (foldModel o)) := by
  rcases foldModel_cases o with ⟨-, heq⟩ | ⟨model, hmodel, ⟨-, heq⟩ | ⟨student, src, hstudent, rfl, heq⟩ | heq⟩ <;> rw [heq]
  · exact hd.erase "model"
  · exact (hd.erase "model").set (hd.get hmodel)
  · exact (hd.erase "model").set ((hd.get hmodel).mergeInto (hd.get hstudent))
  · exact (hd.erase "model").set (hd.get hmodel)

theorem isNone_of_leaf {tree : Option PyData} (h : Leaf tree path v) (hnone : PyData.isNone tree) :
    path = [] ∧ v = .none := by
  cases tree with
  | none => exact (not_leaf_none h).elim
  | some w =>
      cases w with
      | none =>
          obtain ⟨hpath, hv⟩ := h.of_not_dict rfl
          exact ⟨hpath, hv.symm⟩
      | _ => cases hnone

/-- The shortcut wins. -/
theorem leaf_foldModel_model (hd : Distinct (.dict o)) (hleaf : Leaf (o.get? "model") path v)
    (hv : v = .none → path ≠ []) :
    Leaf ((foldModel o).get? "student") path v ∨ Leaf ((foldModel o).get? "model") path v := by
  rcases foldModel_cases o with ⟨hnone, -⟩ | ⟨model, hmodel, ⟨-, heq⟩ | ⟨student, src, -, rfl, heq⟩ | heq⟩
  · obtain ⟨hpath, hvalue⟩ := isNone_of_leaf hleaf hnone
    exact (hv hvalue hpath).elim
  · refine .inl ?_
    rwa [heq, PyDict.get?_set, if_pos rfl, ← hmodel]
  · refine .inl ?_
    rw [heq, PyDict.get?_set, if_pos rfl]
    rw [hmodel] at hleaf
    exact hleaf.mergeInto (hd.get hmodel)
  · refine .inr ?_
    rwa [heq, PyDict.get?_set, if_pos rfl, ← hmodel]

theorem leaf_foldModel_student (hd : Distinct (.dict o)) (hleaf : Leaf (o.get? "student") path v)
    (hv : v = .none → path ≠ []) (hclear : path ≠ [] → Clear (o.table "model") path) :
    Leaf ((foldModel o).get? "student") path v := by
  rcases foldModel_cases o with ⟨-, heq⟩ | ⟨model, hmodel, ⟨hnone, -⟩ | ⟨student, src, hstudent, rfl, heq⟩ | heq⟩
  · rwa [heq, PyDict.get?_erase, if_neg (by decide)]
  · obtain ⟨hpath, hvalue⟩ := isNone_of_leaf hleaf hnone
    exact (hv hvalue hpath).elim
  · rw [heq, PyDict.get?_set, if_pos rfl]
    rw [hstudent] at hleaf
    cases path with
    | nil => exact (PyData.not_leaf_dict hleaf).elim
    | cons k path =>
        refine hleaf.mergeInto_of_clear (hd.get hmodel) ?_
        rw [← PyDict.table_eq_dict hmodel]
        exact hclear (List.cons_ne_nil k path)
  · simpa [heq, PyDict.get?_set, PyDict.get?_erase] using hleaf

/-- A key that neither spelling has is not in the student afterwards. -/
theorem clear_foldModel (hd : Distinct (.dict o)) {k : String} (hstudent : Clear (o.table "student") [k])
    (hmodel : Clear (o.table "model") [k]) : Clear ((foldModel o).table "student") [k] := by
  rw [PyData.clear_table_singleton] at hstudent hmodel ⊢
  intro e he
  rcases foldModel_cases o with ⟨-, heq⟩ | ⟨model, hget, ⟨-, heq⟩ | ⟨student, src, hget', rfl, heq⟩ | heq⟩ <;>
    rw [heq] at he
  · rw [PyDict.get?_erase, if_neg (by decide)] at he
    exact hstudent e he
  · rw [PyDict.get?_set, if_pos rfl] at he
    exact hmodel e (hget.trans he)
  · rw [PyDict.get?_set, if_pos rfl] at he
    rw [← PyData.dict.inj (Option.some.inj he), PyDict.get?_mergeInto (hd.get hget).nodup, hmodel src hget,
      hstudent student hget']
    rfl
  · rw [PyDict.get?_set, if_neg (by decide), PyDict.get?_erase, if_neg (by decide)] at he
    exact hstudent e he

end FoldModel

/-! ## Flat model fields -/

section FoldFlat

variable {student student' o o' : PyDict} {v : PyData} {path : List String}

theorem leaf_nestModelFields (h : nestModelFields student = .ok student') (hd : Distinct (.dict student))
    (hleaf : Leaf (some (.dict student)) path v)
    (hflat : ∀ k ∈ modelFields, ∀ rest, path = "model" :: k :: rest → student.get? k = none) :
    Leaf (some (.dict student')) (nest path) v := by
  have hget (k : String) : PyDict.get? (student.filter fun e => e.1 ∈ modelFields) k =
      if k ∈ modelFields then student.get? k else none := by
    simpa using PyDict.get?_filter student (fun k => k ∈ modelFields) k
  have hget' (k : String) : PyDict.get? (student.filter fun e => e.1 ∉ modelFields) k =
      if k ∈ modelFields then none else student.get? k := by
    simpa using PyDict.get?_filter student (fun k => k ∉ modelFields) k
  cases path with
  | nil => exact (PyData.not_leaf_dict hleaf).elim
  | cons k path =>
      rw [leaf_cons] at hleaf
      obtain ⟨w, hw⟩ : ∃ w, student.get? k = some w := by
        cases hw : student.get? k with
        | none => exact (not_leaf_none (hw ▸ hleaf)).elim
        | some w => exact ⟨w, rfl⟩
      rw [hw] at hleaf
      simp only [nestModelFields] at h
      split at h
      · -- no flat field
        rename_i hempty
        have hk : k ∉ modelFields := by
          intro hk
          have hnone := hget k
          rw [List.isEmpty_iff.1 hempty, if_pos hk, hw] at hnone
          cases hnone
        rwa [nest, if_neg hk, ← Except.ok.inj h, leaf_cons, hget', if_neg hk, hw]
      · split at h
        · rename_i model hmodel
          have hmerge (k : String) := PyDict.get?_merge (d := model)
            (hd.nodup.sublist ((List.filter_sublist (p := fun e => e.1 ∈ modelFields)).map Prod.fst)) k
          rw [← Except.ok.inj h]
          by_cases hk : k ∈ modelFields
          · rw [nest, if_pos hk, leaf_cons, PyDict.get?_set, if_pos rfl, leaf_cons, hmerge, hget, if_pos hk]
            rw [hw]
            exact hleaf
          · rw [nest, if_neg hk, leaf_cons, PyDict.get?_set]
            split
            · rename_i hname
              subst hname
              rw [hget', if_neg hk, hw] at hmodel
              obtain rfl : w = .dict model := hmodel
              cases path with
              | nil => exact (PyData.not_leaf_dict hleaf).elim
              | cons k' path =>
                  have hnone : PyDict.get? (student.filter fun e => e.1 ∈ modelFields) k' = none := by
                    rw [hget]
                    split
                    · rename_i hk'
                      exact hflat k' hk' path rfl
                    · rfl
                  rw [leaf_cons, hmerge, hnone]
                  exact hleaf
            · rwa [hget', if_neg hk, hw]
        · cases h

theorem leaf_foldFlat (h : foldFlat o = .ok o') (hd : Distinct (.dict o)) (hleaf : Leaf (o.get? "student") path v)
    (hflat : ∀ k ∈ modelFields, ∀ rest, path = "model" :: k :: rest → Clear (o.table "student") [k]) :
    Leaf (o'.get? "student") (nest path) v := by
  unfold foldFlat at h
  split at h
  · rename_i student hstudent
    obtain ⟨student', hnest, heq⟩ := bind_eq_ok.1 h
    rw [hstudent] at hleaf
    rw [← Except.ok.inj heq, PyDict.get?_set, if_pos rfl]
    refine leaf_nestModelFields hnest (hd.get hstudent) hleaf fun k hk rest hpath => ?_
    exact PyData.clear_table_singleton.1 (hflat k hk rest hpath) student hstudent
  · rename_i hne
    rw [← Except.ok.inj h]
    cases hw : o.get? "student" with
    | none => exact (not_leaf_none (hw ▸ hleaf)).elim
    | some w =>
        have hdict : w.isDict = false := by
          cases w with
          | dict e => exact (hne e hw).elim
          | _ => rfl
        rw [hw] at hleaf
        obtain rfl := (hleaf.of_not_dict hdict).1
        exact hleaf

theorem get?_foldFlat (h : foldFlat o = .ok o') {k : String} (hk : k ≠ "student") : o'.get? k = o.get? k := by
  unfold foldFlat at h
  split at h
  · obtain ⟨student', -, heq⟩ := bind_eq_ok.1 h
    rw [← Except.ok.inj heq, PyDict.get?_set, if_neg (Ne.symm hk)]
  · rw [← Except.ok.inj h]

end FoldFlat

/-! ## Fields that are set once -/

/-- A document of the user: the keys of a table are distinct. -/
structure RawConfig where
  data : PyDict
  distinct : Distinct (.dict data)

/-- Nothing else in the orchestrator's table sets the field: no shortcut is merged over it, no flat model field replaces
it, and none of the `shared` model fields is filled in beside it. -/
structure SetOnce (shared : List String) (o : PyDict) (path : List String) (v : PyData) : Prop where
  /-- Fields of a table, not something in place of it. -/
  client_table : path ≠ ["client"]
  table : v = .none → path ≠ ["model"] ∧ path ≠ ["student"]
  /-- `[orchestrator.client]` wins over `student.client`. -/
  client : ∀ rest, path = "student" :: "client" :: rest → Clear (o.table "client") rest
  /-- `[orchestrator.model]` wins over the student and over `[orchestrator.client]`. -/
  model : ∀ k rest, path = "student" :: k :: rest → Clear (o.table "model") (k :: rest)
  model_client : ∀ rest, path = "client" :: rest → Clear (o.table "model") ("client" :: rest)
  /-- A model field is spelled inside `model` or beside it, not both. -/
  flat : ∀ k ∈ modelFields, ∀ rest, path = "student" :: "model" :: k :: rest ∨ path = "model" :: "model" :: k :: rest →
    Clear (o.table "student") [k] ∧ Clear (o.table "model") [k]
  /-- A shared model field meets `orchestrator.model.<k>`, or a conflict with `student.model.<k>`. -/
  shared : ∀ k ∈ shared, ∀ rest, path ≠ "student" :: k :: rest ∧ path ≠ "model" :: "model" :: k :: rest ∧
    (v = .none → path ≠ ["student", "model", k])

section Folded

variable {o o' : PyDict} {v : PyData} {path : List String}

/-- **Shortcuts.** A field of the orchestrator's table that is set once is kept, where it is or where it belongs. -/
theorem leaf_foldStudentShortcuts {final : PyData} (h : foldStudentShortcuts (.dict o) = .ok final)
    (hd : Distinct (.dict o)) (hleaf : Leaf (some (.dict o)) path v) (hset : SetOnce [] o path v) :
    Leaf (some final) path v ∨ Leaf (some final) (placeInTable path) v := by
  obtain ⟨o₁, hclient, h⟩ := bind_eq_ok.1 h
  obtain ⟨o', hflat, h⟩ := bind_eq_ok.1 h
  have hd₁ := distinct_foldClient hclient hd
  have hd₂ := distinct_foldModel hd₁
  have htable : o₁.table "model" = o.table "model" := by
    unfold PyDict.table
    rw [get?_foldClient hclient (by decide) (by decide)]
  have hclear (k : String) (hk : k ∈ modelFields)
      (h : Clear (o.table "student") [k] ∧ Clear (o.table "model") [k]) :
      Clear ((foldModel o₁).table "student") [k] := by
    refine clear_foldModel hd₁ (clear_foldClient hclient ?_ h.1) (htable ▸ h.2)
    rintro rfl
    simp [modelFields] at hk
  rw [← Except.ok.inj h]
  cases path with
  | nil => exact (PyData.not_leaf_dict hleaf).elim
  | cons top path =>
      rw [leaf_cons] at hleaf
      by_cases htop : top = "client"
      · subst htop
        cases path with
        | nil => exact (hset.client_table rfl).elim
        | cons k path =>
            rcases leaf_foldClient_client hclient hd hleaf with hleaf | hleaf
            · have hmerged := leaf_foldModel_student hd₁ hleaf (fun _ => List.cons_ne_nil _ _) fun _ => by
                rw [htable]
                exact hset.model_client _ rfl
              have hnested := leaf_foldFlat hflat hd₂ hmerged (by simp)
              exact .inr hnested
            · refine .inl ?_
              rwa [leaf_cons, get?_foldFlat hflat (by decide), get?_foldModel (by decide) (by decide)]
      by_cases hmodel : top = "model"
      · subst hmodel
        rw [← get?_foldClient hclient (by decide) (by decide)] at hleaf
        have hv : v = .none → path ≠ [] := by
          rintro rfl rfl
          exact (hset.table rfl).1 rfl
        rcases leaf_foldModel_model hd₁ hleaf hv with hleaf | hleaf
        · refine .inr (leaf_foldFlat hflat hd₂ hleaf fun k hk rest hpath => hclear k hk ?_)
          exact hset.flat k hk rest (.inr (by rw [hpath]))
        · refine .inl ?_
          rwa [leaf_cons, get?_foldFlat hflat (by decide)]
      by_cases hstudent : top = "student"
      · subst hstudent
        have hv : v = .none → path ≠ [] := by
          rintro rfl rfl
          exact (hset.table rfl).2 rfl
        have hmerged := leaf_foldClient_student hclient hd hleaf fun rest hpath => hset.client rest (by rw [hpath])
        have hfolded : Leaf ((foldModel o₁).get? "student") path v := by
          refine leaf_foldModel_student hd₁ hmerged hv fun hne => ?_
          obtain ⟨k, rest, rfl⟩ := List.exists_cons_of_ne_nil hne
          rw [htable]
          exact hset.model k rest rfl
        refine .inr (leaf_foldFlat hflat hd₂ hfolded fun k hk rest hpath => hclear k hk ?_)
        exact hset.flat k hk rest (.inl (by rw [hpath]))
      · refine .inl ?_
        rwa [leaf_cons, get?_foldFlat hflat hstudent, get?_foldModel hmodel hstudent, get?_foldClient hclient htop hstudent]

/-- What the run over the shared fields leaves of the condition. -/
theorem SetOnce.filled {shared : List String} (hset : SetOnce shared o path v) (hfill : Filled shared o o')
    (hshared : ∀ k ∈ shared, k ∈ ["name", "vlm"])
    (hconflict : ∀ k ∈ shared, ∀ rest, path = "student" :: "model" :: k :: rest → rest = [] ∧ v = .none) :
    SetOnce [] o' path v := by
  have hstudent : o'.table "student" = o.table "student" := by
    unfold PyDict.table
    rw [hfill.student]
  have hclient : o'.table "client" = o.table "client" := by
    unfold PyDict.table
    rw [hfill.client]
  refine ⟨hset.client_table, hset.table, ?_, ?_, ?_, ?_, by simp⟩
  · intro rest hpath
    rw [hclient]
    exact hset.client rest hpath
  · intro k rest hpath
    refine hfill.model k rest (fun hk => ?_) (hset.model k rest hpath)
    exact (hset.shared k hk rest).1 hpath
  · intro rest hpath
    refine hfill.model "client" rest (fun hk => ?_) (hset.model_client rest hpath)
    simpa using hshared _ hk
  · intro k hk rest hpath
    obtain ⟨hclear, hclear'⟩ := hset.flat k hk rest hpath
    rw [hstudent]
    refine ⟨hclear, hfill.model k [] (fun hshare => ?_) hclear'⟩
    obtain ⟨-, hmodel, hvalue⟩ := hset.shared k hshare rest
    rcases hpath with hpath | hpath
    · obtain ⟨rfl, hnone⟩ := hconflict k hshare rest hpath
      exact hvalue hnone hpath
    · exact hmodel hpath

end Folded

/-! ## The document -/

section Document

variable [PyText] {raw : RawConfig} {final v : PyData} {path : List String}

/-- Nothing else in the document sets the field. Outside the orchestrator's table this always holds. -/
def RawConfig.SetsOnce (raw : RawConfig) (path : List String) (v : PyData) : Prop :=
  ∀ o rest, raw.data.get? "orchestrator" = some (.dict o) → path = "orchestrator" :: rest →
    SetOnce (sharedKeys raw.data) o rest v

omit [PyText] in
/-- A field below one that is unset is the unset field itself. -/
theorem eq_none_of_get {data : PyDict} {field rest : List String} (hget : (Propagation.mk data []).get field = none)
    (hleaf : Leaf (some (.dict data)) (field ++ rest) v) : rest = [] ∧ v = .none := by
  obtain ⟨w, hwalk, hw⟩ := hleaf.append
  have hnone : w = .none := by
    change (PyData.dict data).walk field = some w at hwalk
    unfold Propagation.get at hget
    rw [hwalk] at hget
    cases w with
    | none => rfl
    | _ => cases hget
  subst hnone
  obtain ⟨hrest, hv⟩ := hw.of_not_dict rfl
  exact ⟨hrest, hv.symm⟩

end Document

/-- A shared name, a client that is spelled through its shortcut, and a student with a flat model field. -/
def taughtData : PyDict :=
  [("model", .dict [("name", .str "base")]),
    ("orchestrator", .dict
      [("client", .dict [("timeout", .int 3)]), ("student", .dict [("lora", .dict [("rank", .int 8)])])])]

def taught : RawConfig where
  data := taughtData
  distinct := by
    have hleaf (d : PyData) (h : d.isDict = false) : Distinct d := PyData.distinct_of_not_dict h
    have hclient := PyData.distinct_single (k := "timeout") (hleaf (.int 3) rfl)
    have hstudent := PyData.distinct_single (k := "lora") (PyData.distinct_single (k := "rank") (hleaf (.int 8) rfl))
    have hmodel := PyData.distinct_single (k := "name") (hleaf (.str "base") rfl)
    exact PyData.distinct_pair (by decide) hmodel (PyData.distinct_pair (by decide) hclient hstudent)

/-- The name of a student, in its own table and through the shortcut. -/
def namedTwice : PyDict :=
  [("orchestrator", .dict
    [("student", .dict [("model", .dict [("name", .str "inner")])]), ("model", .dict [("name", .str "outer")])])]

end AuroraRl.Config
