import AuroraRl.Layout.Adapter

/-!
# What changed between two state dicts

* `StateDict` : tensors by name;
* `validatedModelKeys` : the names both states share, a head tied in both left out;
* `extractChangedValues` : the changed elements of one tensor and the values that lead to the target;
* `extractUpdate_ok` : these values lead to a tensor equal to the target.
-/

namespace AuroraRl.Delta
open Python RowMajor Torch Layout

/-- A state dict; no tensor has more elements than an `int64` can count. -/
structure StateDict where
  tensors : Dict String Tensor
  numel_lt : ∀ {name t}, tensors.get? name = some t → t.data.length < 2 ^ 63

variable [FloatOps]

/-- `torch.equal`: equal shapes, and equal elements in the promoted type. -/
def torchEqual (t t' : Tensor) : Bool :=
  t.shape = t'.shape ∧ (t.data.zip t'.data).all fun p =>
    eq (t.dtype.promoteTypes t'.dtype) (cast t.dtype _ p.1) (cast t'.dtype _ p.2)

/-! ## Names -/

def embeddingName : String := "model.embed_tokens.weight"

def lmHeadName : String := "lm_head.weight"

def collectTiedLmHeadSkipKeys (state : Dict String Tensor) : List String :=
  match state.get? embeddingName, state.get? lmHeadName with
  | some embedding, some lmHead =>
    if embedding.shape = lmHead.shape ∧ torchEqual embedding lmHead then [lmHeadName] else []
  | _, _ => []

/-- The keys that are left out: they are tied in both states. -/
def skipKeys (base target : Dict String Tensor) : List String :=
  (collectTiedLmHeadSkipKeys base).filter (· ∈ collectTiedLmHeadSkipKeys target)

def validatedModelKeys (base target : Dict String Tensor) (includeBias : Bool) : Except PyException (List String) := do
  let kept name := decide (name ∉ skipKeys base target) && (includeBias || ! endswith name ".bias")
  let baseKeys := base.keys.filter kept
  let targetKeys := target.keys.filter kept
  let baseOnly := baseKeys.filter (· ∉ targetKeys)
  let targetOnly := targetKeys.filter (· ∉ baseKeys)
  raiseIf (baseOnly ≠ [] ∨ targetOnly ≠ [])
    ("keys mismatch: base-only=" ++ setText baseOnly ++ ", target-only=" ++ setText targetOnly)
  return baseKeys

/-! ## Values -/

/-- `_validate_tensor_pair`; gives the data of the target in the type of the base. -/
def validateTensorPair (name : String) (base target : Tensor) : Except PyException (List (Elem base.dtype)) := do
  raiseIf (base.shape ≠ target.shape)
    ("shape mismatch for " ++ name ++ ": " ++ tupleText base.shape ++ " vs " ++ tupleText target.shape)
  if h : target.dtype = base.dtype then return h ▸ target.data
  else raiseValueError ("dtype mismatch for " ++ name ++ ": " ++ base.dtype.text ++ " vs " ++ target.dtype.text)

/-- `torch.equal` of flat data. -/
def equalData (d : DType) (l l' : List (Elem d)) : Bool := l.length = l'.length ∧ (l.zip l').all fun p => eq d p.1 p.2

/-- Whether an element counts as changed; the threshold `none` is `0.0`. -/
def isChanged (d : DType) (threshold : Option (Elem .float64)) (x y : Elem d) : Bool :=
  match threshold with
  | none => ! eq d y x
  | some threshold => FloatOps.exceeds d threshold (sub d y x)

def changedIndices (d : DType) (threshold : Option (Elem .float64)) (base target : List (Elem d)) : List Nat :=
  ((base.zip target).zipIdx.filter fun e => isChanged d threshold e.1.1 e.1.2).map Prod.snd

/-- The type of the values when the type of the tensor loses bits of the target. -/
def widerType (d : DType) : DType := if d = .float16 ∨ d = .bfloat16 then .float32 else .float64

def extractChangedValues (d : DType) (base target : List (Elem d)) (threshold : Option (Elem .float64)) :
    Except PyException (List Nat × Flat) := do
  let indices := changedIndices d threshold base target
  let selectedBase := indexSelect base indices
  let selectedTarget := indexSelect target indices
  let values := List.zipWith (sub d) selectedTarget selectedBase
  if equalData d (List.zipWith (add d) selectedBase values) selectedTarget then return (indices, ⟨d, values⟩)
  else
    let wide := widerType d
    let values := List.zipWith (sub wide) (selectedTarget.map (cast d wide)) (selectedBase.map (cast d wide))
    let reconstructed := (List.zipWith (add wide) (selectedBase.map (cast d wide)) values).map (cast wide d)
    raiseIf (¬ equalData d reconstructed selectedTarget)
      "weight update cannot be represented exactly as an additive sparse delta"
    return (indices, ⟨wide, values⟩)

/-- The change of one tensor, which both writers compute in their loops. -/
def extractUpdate (base target : Dict String Tensor) (threshold : Option (Elem .float64)) (name : String) :
    Except PyException LogicalSparseUpdate :=
  match base.get? name, target.get? name with
  | some baseTensor, some targetTensor => do
    let targetData ← validateTensorPair name baseTensor targetTensor
    let (indices, values) ← extractChangedValues baseTensor.dtype baseTensor.data targetData threshold
    return ⟨name, baseTensor.shape, ⟨.int64, indices.map Int.ofNat⟩, values⟩
  | _, _ => .error ⟨.keyError, name⟩

/-! ## What the keys are -/

section Keys

variable {base target : Dict String Tensor}

/-- The head holds what the embedding holds. -/
def Tied (state : Dict String Tensor) : Prop :=
  ∃ embedding lmHead, state.get? embeddingName = some embedding ∧ state.get? lmHeadName = some lmHead ∧
    torchEqual embedding lmHead = true

theorem mem_collectTied {state : Dict String Tensor} {name : String} :
    name ∈ collectTiedLmHeadSkipKeys state ↔ name = lmHeadName ∧ Tied state := by
  unfold collectTiedLmHeadSkipKeys Tied
  constructor
  · intro h
    split at h
    · rename_i embedding lmHead he hl
      split at h
      · rename_i heq
        exact ⟨List.mem_singleton.1 h, embedding, lmHead, he, hl, heq.2⟩
      · cases h
    · cases h
  · rintro ⟨rfl, embedding, lmHead, he, hl, heq⟩
    have hshape := (of_decide_eq_true heq).1
    rw [he, hl]
    dsimp only
    rw [if_pos ⟨hshape, heq⟩]
    exact List.mem_singleton_self _

theorem mem_skipKeys {name : String} : name ∈ skipKeys base target ↔ name = lmHeadName ∧ Tied base ∧ Tied target := by
  unfold skipKeys
  rw [List.mem_filter, decide_eq_true_eq, mem_collectTied, mem_collectTied]
  constructor
  · rintro ⟨⟨rfl, hb⟩, -, ht⟩
    exact ⟨rfl, hb, ht⟩
  · rintro ⟨rfl, hb, ht⟩
    exact ⟨⟨rfl, hb⟩, rfl, ht⟩

theorem embeddingName_not_skipped : embeddingName ∉ skipKeys base target := by
  rw [mem_skipKeys]
  rintro ⟨h, -⟩
  revert h
  decide

theorem validatedModelKeys_ok {keys : List String} (h : validatedModelKeys base target true = .ok keys) :
    keys.Nodup ∧ (∀ name, name ∈ keys ↔ name ∈ base.keys ∧ name ∉ skipKeys base target) ∧
      ∀ name, name ∈ keys ↔ name ∈ target.keys ∧ name ∉ skipKeys base target := by
  unfold validatedModelKeys at h
  simp only [bind_eq_ok, raiseIf_eq_ok, not_or, not_not, Bool.true_or, Bool.and_true] at h
  obtain ⟨-, ⟨hbase, htarget⟩, hkeys⟩ := h
  cases hkeys
  have hmem : ∀ {d : Dict String Tensor} {name : String},
      name ∈ d.keys.filter (fun name => decide (name ∉ skipKeys base target)) ↔
        name ∈ d.keys ∧ name ∉ skipKeys base target := by
    intro d name
    rw [List.mem_filter, decide_eq_true_eq]
  refine ⟨base.nodup.filter _, fun name => hmem, fun name => ?_⟩
  rw [← hmem]
  constructor
  · intro hname
    by_contra hnot
    have := List.filter_eq_nil_iff.1 hbase name hname
    exact this (decide_eq_true hnot)
  · intro hname
    by_contra hnot
    have := List.filter_eq_nil_iff.1 htarget name hname
    exact this (decide_eq_true hnot)

end Keys

/-! ## What the values do -/

section Values

variable {d : DType} {base target : List (Elem d)}

omit [FloatOps] in
theorem lookup_zip_map {β : Type} (f : Nat → β) (indices : List Nat) (j : Nat) :
    (indices.zip (indices.map f)).lookup j = if j ∈ indices then some (f j) else none := by
  induction indices with
  | nil => rfl
  | cons i indices ih =>
      rw [List.map_cons, List.zip_cons_cons, List.lookup_cons, ih]
      by_cases hij : j = i
      · subst hij
        rw [beq_self_eq_true, if_pos List.mem_cons_self]
      · rw [beq_eq_false_iff_ne.2 hij]
        simp only [List.mem_cons, hij, false_or]

theorem changedIndices_increasing (threshold : Option (Elem .float64)) :
    (changedIndices d threshold base target).Pairwise (· < ·) := by
  unfold changedIndices
  rw [List.pairwise_map]
  refine List.Pairwise.filter _ ?_
  rw [← List.pairwise_map (f := Prod.snd), List.zipIdx_map_snd]
  exact List.pairwise_lt_range' ..

theorem mem_changedIndices {threshold : Option (Elem .float64)} {j : Nat} :
    j ∈ changedIndices d threshold base target ↔
      ∃ x y, base[j]? = some x ∧ target[j]? = some y ∧ isChanged d threshold x y = true := by
  unfold changedIndices
  rw [List.mem_map]
  constructor
  · rintro ⟨⟨⟨x, y⟩, i⟩, hmem, rfl⟩
    rw [List.mem_filter, List.mem_zipIdx_iff_getElem?, List.getElem?_zip_eq_some] at hmem
    exact ⟨x, y, hmem.1.1, hmem.1.2, hmem.2⟩
  · rintro ⟨x, y, hx, hy, hchanged⟩
    refine ⟨((x, y), j), ?_, rfl⟩
    rw [List.mem_filter, List.mem_zipIdx_iff_getElem?, List.getElem?_zip_eq_some]
    exact ⟨⟨hx, hy⟩, hchanged⟩

theorem equalData_map {indices : List Nat} {f g : Nat → Elem d} (h : equalData d (indices.map f) (indices.map g) = true) :
    ∀ i ∈ indices, eq d (f i) (g i) = true := by
  intro i hi
  have hall := (of_decide_eq_true h).2
  rw [List.zip_map', List.all_map, List.all_eq_true] at hall
  exact hall i hi

omit [FloatOps] in
theorem promoteTypes_widerType (d : DType) : d.promoteTypes (widerType d) = widerType d := by
  cases d <;> decide

/-- The values as a function of the index, each leading from the base to the target. -/
theorem extractChangedValues_values {indices : List Nat} {values : Flat}
    (h : extractChangedValues d base target none = .ok (indices, values)) :
    indices = changedIndices d none base target ∧ ∃ f : Nat → Elem values.dtype, values.data = indices.map f ∧
      ∀ i ∈ indices, eq d (combine d values.dtype (base.getD i 0) (f i)) (target.getD i 0) = true := by
  unfold extractChangedValues at h
  dsimp only at h
  unfold indexSelect at h
  simp only [List.zipWith_map, List.zipWith_self, List.map_map] at h
  split at h
  · rename_i hequal
    cases h
    refine ⟨rfl, _, rfl, fun i hi => ?_⟩
    rw [combine_self]
    exact equalData_map hequal i hi
  · simp only [bind_eq_ok, raiseIf_eq_ok, not_not] at h
    obtain ⟨-, hequal, hres⟩ := h
    cases hres
    refine ⟨rfl, _, rfl, fun i hi => ?_⟩
    rw [combine_wider (promoteTypes_widerType d)]
    exact equalData_map hequal i hi

/-- **The extracted values reproduce the target.** -/
theorem extractChangedValues_ok {indices : List Nat} {values : Flat}
    (h : extractChangedValues d base target none = .ok (indices, values)) :
    indices.Pairwise (· < ·) ∧ (∀ i ∈ indices, i < base.length) ∧ indices.length = values.data.length ∧
      ∀ j x y, base[j]? = some x → target[j]? = some y → eq d (updateElem (indices.zip values.data) j x) y = true := by
  obtain ⟨hindices, f, hvalues, hequal⟩ := extractChangedValues_values h
  refine ⟨?_, ?_, ?_, ?_⟩
  · rw [hindices]
    exact changedIndices_increasing none
  · intro i hi
    rw [hindices, mem_changedIndices] at hi
    obtain ⟨x, -, hx, -⟩ := hi
    exact (List.getElem?_eq_some_iff.1 hx).1
  · rw [hvalues, List.length_map]
  · intro j x y hx hy
    unfold updateElem
    rw [hvalues, lookup_zip_map]
    by_cases hj : j ∈ indices
    · rw [if_pos hj]
      have := hequal j hj
      rwa [List.getD_eq_getElem?_getD, List.getD_eq_getElem?_getD, hx, hy] at this
    · rw [if_neg hj]
      rw [hindices, mem_changedIndices] at hj
      by_contra hne
      refine hj ⟨x, y, hx, hy, ?_⟩
      unfold isChanged
      rw [Bool.not_eq_true', ← Bool.not_eq_true]
      exact fun hyx => hne (eq_symm hyx)

end Values

/-! ## The change of a tensor -/

theorem torchEqual_withData {t t' : Tensor} {data : List (Elem t.dtype)} (hlen : data.length = t.data.length)
    (hshape : t.shape = t'.shape) (hdtype : t'.dtype = t.dtype)
    (h : ∀ (j : Nat) (x y : Elem t.dtype), data[j]? = some x →
      (hdtype ▸ t'.data : List (Elem t.dtype))[j]? = some y → eq t.dtype x y = true) :
    torchEqual (t.withData data hlen) t' = true := by
  obtain ⟨shape, d, data₀, hlen₀⟩ := t
  obtain ⟨shape', d', data', hlen'⟩ := t'
  cases hdtype
  refine decide_eq_true ⟨hshape, List.all_eq_true.2 fun p hp => ?_⟩
  obtain ⟨j, hj⟩ := List.mem_iff_getElem?.1 hp
  rw [List.getElem?_zip_eq_some] at hj
  exact (eq_promote_self d p.1 p.2).trans (h j _ _ hj.1 hj.2)

theorem torchEqual_trans {t t' t'' : Tensor} (hdtype : t.dtype = t'.dtype) (h : torchEqual t t' = true)
    (h' : torchEqual t' t'' = true) : torchEqual t t'' = true := by
  obtain ⟨shape, d, data, hlen⟩ := t
  obtain ⟨shape', d', data', hlen'⟩ := t'
  obtain ⟨shape'', d'', data'', hlen''⟩ := t''
  cases hdtype
  obtain ⟨hshape, hall⟩ := of_decide_eq_true h
  obtain ⟨hshape', hall'⟩ := of_decide_eq_true h'
  cases hshape
  refine decide_eq_true ⟨hshape', List.all_eq_true.2 fun p hp => ?_⟩
  obtain ⟨j, hj⟩ := List.mem_iff_getElem?.1 hp
  obtain ⟨hx, hz⟩ := List.getElem?_zip_eq_some.1 hj
  have hj' : j < data'.length := by
    rw [hlen', ← hlen]
    exact (List.getElem?_eq_some_iff.1 hx).1
  have hy : data'[j]? = some data'[j] := List.getElem?_eq_getElem hj'
  have hxy := List.all_eq_true.1 hall (p.1, data'[j])
    (List.mem_iff_getElem?.2 ⟨j, List.getElem?_zip_eq_some.2 ⟨hx, hy⟩⟩)
  have hyz := List.all_eq_true.1 hall' (data'[j], p.2)
    (List.mem_iff_getElem?.2 ⟨j, List.getElem?_zip_eq_some.2 ⟨hy, hz⟩⟩)
  refine eq_cast_trans (fun hfloat => DType.isFloat_promoteTypes hfloat) ?_ hyz
  exact (eq_promote_self d p.1 data'[j]).symm.trans hxy

omit [FloatOps] in
theorem map_toNat_ofNat (l : List Nat) : (l.map Int.ofNat).map Int.toNat = l := by
  rw [List.map_map]
  exact List.map_id l

/-- An update that leads from the tensor `t` to one that equals `t'`. -/
structure Reproduces (update : LogicalSparseUpdate) (t t' : Tensor) : Prop where
  shape_eq : update.shape = t.shape
  int64 : update.indices.dtype = .int64
  valid : ValidIndices update.indices.data t.data.length
  length_eq : update.indices.data.length = update.values.data.length
  dtype_eq : t.dtype = t'.dtype
  equal : torchEqual (sparseUpdate t (update.indices.data.map Int.toNat) update.values) t' = true

/-- **The extracted update reproduces the target.** -/
theorem extractUpdate_ok {base target : Dict String Tensor} {name : String} {update : LogicalSparseUpdate}
    (h : extractUpdate base target none name = .ok update) :
    update.name = name ∧ ∃ t t', base.get? name = some t ∧ target.get? name = some t' ∧ Reproduces update t t' := by
  unfold extractUpdate at h
  split at h
  · rename_i t t' ht ht'
    unfold validateTensorPair at h
    simp only [bind_eq_ok, raiseIf_eq_ok, not_not] at h
    obtain ⟨data, ⟨-, hshape, hdata⟩, ⟨indices, values⟩, hvalues, hupdate⟩ := h
    cases hupdate
    split at hdata
    · rename_i hdtype
      cases hdata
      obtain ⟨hinc, hlt, hlength, hequal⟩ := extractChangedValues_ok hvalues
      have hvalid : ValidIndices (indices.map Int.ofNat) t.data.length := by
        refine ⟨List.pairwise_map.2 (hinc.imp fun hab => Int.ofNat_lt.2 hab), fun i hi => ?_⟩
        obtain ⟨n, hn, rfl⟩ := List.mem_map.1 hi
        exact ⟨Int.natCast_nonneg n, Int.ofNat_lt.2 (hlt n hn)⟩
      refine ⟨rfl, t, t', ht, ht', rfl, rfl, hvalid, ?_, hdtype.symm, torchEqual_withData _ hshape hdtype ?_⟩
      · rw [List.length_map]
        exact hlength
      · intro j x y hx hy
        dsimp only at hx
        rw [map_toNat_ofNat, List.getElem?_mapIdx, Option.map_eq_some_iff] at hx
        obtain ⟨x₀, hx₀, rfl⟩ := hx
        exact hequal j x₀ y hx₀ hy
    · cases hdata
  · cases h

end AuroraRl.Delta
