import AuroraRl.Delta.Load

/-!
# A delta reproduces the target

* `load_stream`, `load_safetensors` : loading a written artifact applies its updates one after the other;
* `delta_roundTrip` : extraction followed by application gives every tensor of the target.
-/

namespace AuroraRl.Delta
open Bytes Python RowMajor Torch Layout

section RoundTrip

variable [FloatOps]

/-! ## Decoding an artifact -/

/-- An update the writers store and the readers give back. -/
structure Storable (update : LogicalSparseUpdate) : Prop where
  int64 : update.indices.dtype = .int64
  length_eq : update.indices.data.length = update.values.data.length
  valid : ∃ n ≤ 2 ^ 63, ValidIndices update.indices.data n

section Decode

variable {update : LogicalSparseUpdate} {updates : List LogicalSparseUpdate} {encoding : String} {model loaded : Adapter}

omit [FloatOps] in
theorem Storable.decode (h : Storable update) {encodedIndices : Flat}
    (hencoded : encodeSparseIndices update.indices.data encoding = .ok encodedIndices) :
    decodeSparseIndices encodedIndices update.values.data.length = .ok update.indices := by
  obtain ⟨n, hn, hvalid⟩ := h.valid
  rw [← h.length_eq, (decode_encode hvalid hn hencoded).1]
  have hint := h.int64
  obtain ⟨name, shape, ⟨d, data⟩, values⟩ := update
  cases hint
  rfl

/-- What the loop over the records does with one update. -/
def loadUpdate (s : List String × Adapter) (update : LogicalSparseUpdate) : Except PyException (List String × Adapter) := do
  raiseIf (update.name ∈ s.1) ("duplicate sparse delta tensor: " ++ update.name)
  let model ← applySparseUpdate none s.2 update
  return (update.name :: s.1, model)

theorem handles_loadRecord (h : Storable update) : Handles encoding (loadRecord none) loadUpdate update := by
  intro s encodedIndices hencoded
  unfold loadRecord loadUpdate recordOf
  dsimp only
  rw [if_pos rfl, h.decode hencoded]
  rfl

theorem foldlM_loadUpdate {seen : List String} (hfresh : ∀ update ∈ updates, update.name ∉ seen)
    (hnodup : (updates.map LogicalSparseUpdate.name).Nodup) :
    (updates.foldlM loadUpdate (seen, model)).map Prod.snd = updates.foldlM (applySparseUpdate none) model := by
  induction updates generalizing seen model with
  | nil => rfl
  | cons update updates ih =>
      rw [List.map_cons, List.nodup_cons] at hnodup
      rw [List.foldlM_cons, List.foldlM_cons]
      unfold loadUpdate
      rw [raiseIf_of_not (hfresh update List.mem_cons_self), ok_bind]
      cases hstep : applySparseUpdate none model update with
      | error e => rfl
      | ok model' =>
          refine ih (fun u hu hmem => ?_) hnodup.2
          rcases List.mem_cons.1 hmem with heq | hmem
          · exact hnodup.1 (heq ▸ List.mem_map_of_mem hu)
          · exact hfresh u (List.mem_cons_of_mem update hu) hmem

theorem load_stream {records : List Byte} (hwritten : Written encoding updates records)
    (hstorable : ∀ update ∈ updates, Storable update) (hnodup : (updates.map LogicalSparseUpdate.name).Nodup) :
    loadSparseDeltaWeights model none (.bytes (streamHeader ++ records)) = updates.foldlM (applySparseUpdate none) model := by
  have hstream : isStreamingDeltaFile (streamHeader ++ records) = true := rfl
  unfold loadSparseDeltaWeights
  dsimp only
  rw [if_pos hstream, iterStreamingDeltaRecords_written hwritten fun u hu => handles_loadRecord (hstorable u hu)]
  exact foldlM_loadUpdate (fun _ _ => List.not_mem_nil) hnodup

end Decode

/-! ## The safetensors file -/

section Safetensors

variable {updates : List LogicalSparseUpdate} {encoding : String} {entries : List (String × Flat)} {model : Adapter}

omit [FloatOps] in
theorem namesWith_stored (h : Stored encoding updates entries) :
    namesWith deltaIndexSuffix (entries.map Prod.fst) = updates.map LogicalSparseUpdate.name ∧
      namesWith deltaValueSuffix (entries.map Prod.fst) = updates.map LogicalSparseUpdate.name := by
  induction h with
  | nil => exact ⟨rfl, rfl⟩
  | @cons update updates encodedIndices entries _ _ ih =>
      have hidx : endswith (update.name ++ deltaValueSuffix) deltaIndexSuffix = false :=
        endswith_append_of_ne _ (by decide) (by decide)
      have hval : endswith (update.name ++ deltaIndexSuffix) deltaValueSuffix = false :=
        endswith_append_of_ne _ (by decide) (by decide)
      refine ⟨?_, ?_⟩
      · rw [List.map_cons, List.map_cons, List.map_cons, ← ih.1]
        unfold namesWith
        rw [List.filter_cons, List.filter_cons, hidx, endswith_append, if_pos rfl, if_neg Bool.false_ne_true,
          List.map_cons, removesuffix_append]
      · rw [List.map_cons, List.map_cons, List.map_cons, ← ih.2]
        unfold namesWith
        rw [List.filter_cons, List.filter_cons, hval, endswith_append, if_pos rfl, if_neg Bool.false_ne_true,
          List.map_cons, removesuffix_append]

omit [FloatOps] in
theorem stored_keys_mem (h : Stored encoding updates entries) {key : String} (hkey : key ∈ entries.map Prod.fst) :
    ∃ update ∈ updates, key = update.name ++ deltaIndexSuffix ∨ key = update.name ++ deltaValueSuffix := by
  induction h with
  | nil => cases hkey
  | @cons update updates encodedIndices entries _ _ ih =>
      rw [List.map_cons, List.map_cons, List.mem_cons, List.mem_cons] at hkey
      rcases hkey with rfl | rfl | hkey
      · exact ⟨update, List.mem_cons_self, Or.inl rfl⟩
      · exact ⟨update, List.mem_cons_self, Or.inr rfl⟩
      · obtain ⟨u, hu, h⟩ := ih hkey
        exact ⟨u, List.mem_cons_of_mem update hu, h⟩

omit [FloatOps] in
theorem suffix_ne (name name' : String) : name ++ deltaIndexSuffix ≠ name' ++ deltaValueSuffix := by
  intro h
  have hidx : endswith (name' ++ deltaValueSuffix) deltaIndexSuffix = false :=
    endswith_append_of_ne _ (by decide) (by decide)
  rw [← h, endswith_append] at hidx
  cases hidx

omit [FloatOps] in
theorem append_suffix_inj {name name' suffix : String} (h : name ++ suffix = name' ++ suffix) : name = name' := by
  rw [← removesuffix_append name, h, removesuffix_append]

omit [FloatOps] in
/-- No two tensors of the file share a key, whatever the names are. -/
theorem stored_nodup (h : Stored encoding updates entries) (hnodup : (updates.map LogicalSparseUpdate.name).Nodup) :
    (entries.map Prod.fst).Nodup := by
  induction h with
  | nil => exact List.nodup_nil
  | @cons update updates encodedIndices entries _ hstored ih =>
      rw [List.map_cons, List.nodup_cons] at hnodup
      rw [List.map_cons, List.map_cons, List.nodup_cons, List.nodup_cons, List.mem_cons, not_or]
      refine ⟨⟨suffix_ne _ _, fun hmem => ?_⟩, fun hmem => ?_, ih hnodup.2⟩
      · obtain ⟨u, hu, heq | heq⟩ := stored_keys_mem hstored hmem
        · exact hnodup.1 (append_suffix_inj heq ▸ List.mem_map_of_mem hu)
        · exact suffix_ne _ _ heq
      · obtain ⟨u, hu, heq | heq⟩ := stored_keys_mem hstored hmem
        · exact suffix_ne _ _ heq.symm
        · exact hnodup.1 (append_suffix_inj heq ▸ List.mem_map_of_mem hu)

omit [FloatOps] in
theorem stored_mem (h : Stored encoding updates entries) {update : LogicalSparseUpdate} (hu : update ∈ updates) :
    ∃ encodedIndices, encodeSparseIndices update.indices.data encoding = .ok encodedIndices ∧
      (update.name ++ deltaIndexSuffix, encodedIndices) ∈ entries ∧
      (update.name ++ deltaValueSuffix, update.values) ∈ entries := by
  induction h with
  | nil => cases hu
  | @cons update' updates encodedIndices entries hencoded _ ih =>
      rcases List.mem_cons.1 hu with rfl | hu
      · exact ⟨encodedIndices, hencoded, List.mem_cons_self, List.mem_cons_of_mem _ List.mem_cons_self⟩
      · obtain ⟨e, he, h₁, h₂⟩ := ih hu
        exact ⟨e, he, List.mem_cons_of_mem _ (List.mem_cons_of_mem _ h₁), List.mem_cons_of_mem _ (List.mem_cons_of_mem _ h₂)⟩

omit [FloatOps] in
theorem dims?_list (shape : List Nat) : (Json.list (shape.map fun dim : Nat => Json.int dim)).dims? =
    some (shape.map Int.ofNat) := by
  unfold Json.dims?
  dsimp only
  induction shape with
  | nil => rfl
  | cons dim shape ih =>
      rw [List.map_cons, List.mapM_cons, ih]
      rfl

omit [FloatOps] in
theorem readShapes_dumped (l : List (String × List Nat)) (shapes : Dict String (List Nat)) :
    readShapes (l.map fun e => (e.1, .list (e.2.map fun dim : Nat => Json.int dim))) shapes = .ok (shapes.insertAll l) := by
  induction l generalizing shapes with
  | nil => rfl
  | cons e l ih =>
      have hnonneg : ¬ (e.2.map Int.ofNat).any (· < 0) = true := by
        rw [Bool.not_eq_true, List.any_eq_false]
        intro i hi
        obtain ⟨n, -, rfl⟩ := List.mem_map.1 hi
        rw [decide_eq_true_eq]
        exact Int.not_lt.2 (Int.natCast_nonneg n)
      rw [List.map_cons, readShapes, dims?_list]
      dsimp only
      rw [raiseIf_of_not hnonneg, ok_bind, map_toNat_ofNat, ih]
      rfl

omit [FloatOps] in
theorem sparseDeltaShapes_logical (shapes : Dict String (List Nat)) :
    ∃ shapes', sparseDeltaShapes (logicalDeltaMetadata shapes) = .ok shapes' ∧
      ∀ name, shapes'.get? name = shapes.get? name := by
  have hdumped := readShapes_dumped ((sortedNames shapes.keys).map fun name => (name, (shapes.get? name).getD [])) .empty
  rw [List.map_map] at hdumped
  refine ⟨_, hdumped, fun name => ?_⟩
  have hperm : (sortedNames shapes.keys).Perm shapes.keys := List.perm_insertionSort _ _
  have hnodup : (((sortedNames shapes.keys).map fun name => (name, (shapes.get? name).getD [])).map Prod.fst).Nodup := by
    rw [List.map_map]
    have hid : (sortedNames shapes.keys).map (Prod.fst ∘ fun name => (name, (shapes.get? name).getD [])) =
        sortedNames shapes.keys := List.map_id _
    rw [hid]
    exact hperm.nodup_iff.2 shapes.nodup
  refine Option.ext fun shape => ?_
  have hget := Dict.get?_ofList hnodup (k := name) (v := shape)
  refine hget.trans ?_
  rw [List.mem_map]
  constructor
  · rintro ⟨name', hmem, heq⟩
    cases heq
    obtain ⟨shape, hshape⟩ := Dict.mem_keys_iff.1 (hperm.mem_iff.1 hmem)
    rw [hshape]
    rfl
  · intro hshape
    refine ⟨name, hperm.mem_iff.2 (Dict.mem_keys_iff.2 ⟨shape, hshape⟩), ?_⟩
    rw [hshape]
    rfl

omit [FloatOps] in
theorem foldlM_map_congr {α β σ : Type} {f : σ → β → Except PyException σ} {g : σ → α → Except PyException σ} {n : α → β}
    {l : List α} (h : ∀ a ∈ l, ∀ s, f s (n a) = g s a) (s : σ) : (l.map n).foldlM f s = l.foldlM g s := by
  induction l generalizing s with
  | nil => rfl
  | cons a l ih =>
      rw [List.map_cons, List.foldlM_cons, List.foldlM_cons, h a List.mem_cons_self]
      refine congrArg _ (funext fun s' => ?_)
      exact ih (fun b hb => h b (List.mem_cons_of_mem a hb)) s'

omit [FloatOps] in
theorem sameNames_of {l l' : List String} (h : ∀ name, name ∈ l ↔ name ∈ l') : sameNames l l' = true := by
  unfold sameNames
  rw [Bool.and_eq_true, List.all_eq_true, List.all_eq_true]
  exact ⟨fun name hname => decide_eq_true ((h name).1 hname), fun name hname => decide_eq_true ((h name).2 hname)⟩

omit [FloatOps] in
theorem fst_name_shape (updates : List LogicalSparseUpdate) :
    (updates.map fun update => (update.name, update.shape)).map Prod.fst = updates.map LogicalSparseUpdate.name := by
  rw [List.map_map]
  rfl

theorem load_safetensors (hstored : Stored encoding updates entries) (hstorable : ∀ update ∈ updates, Storable update)
    (hnodup : (updates.map LogicalSparseUpdate.name).Nodup)
    (hsorted : (updates.map LogicalSparseUpdate.name).Pairwise (· ≤ ·)) :
    loadSparseDeltaWeights model none (.safetensors ⟨.ofList entries, logicalDeltaMetadata
      (.ofList (updates.map fun update => (update.name, update.shape)))⟩) =
      updates.foldlM (applySparseUpdate none) model := by
  have hkeys : (Dict.ofList entries).keys = entries.map Prod.fst := by
    unfold Dict.keys
    rw [Dict.entries_ofList (stored_nodup hstored hnodup)]
  obtain ⟨hidx, hval⟩ := namesWith_stored hstored
  have hfst := fst_name_shape updates
  obtain ⟨shapes, hshapes, hget⟩ := sparseDeltaShapes_logical
    (.ofList (updates.map fun update => (update.name, update.shape)))
  have hformat : (logicalDeltaMetadata (.ofList (updates.map fun update => (update.name, update.shape)))).format =
      some deltaMetadataFormatV2 := rfl
  unfold loadSparseDeltaWeights loadSafetensors
  dsimp only
  rw [hkeys, hidx, hval, raiseIf_of_not (by unfold logicalDeltaMetadata; simp), ok_bind,
    raiseIf_of_not (by unfold logicalDeltaMetadata; simp), ok_bind]
  by_cases hempty : updates = []
  · subst hempty
    cases hstored
    rw [if_pos ⟨rfl, rfl⟩]
    rfl
  · have hne : ¬ (updates.map LogicalSparseUpdate.name = [] ∧ updates.map LogicalSparseUpdate.name = []) :=
      fun h => hempty (List.map_eq_nil_iff.1 h.1)
    have hsame : sameNames shapes.keys (updates.map LogicalSparseUpdate.name) = true := by
      refine sameNames_of fun name => ?_
      rw [Dict.mem_keys_iff, ← hfst]
      simp only [hget, Dict.get?_ofList (hfst ▸ hnodup), List.mem_map, Prod.exists, exists_and_right, exists_eq_right]
    rw [if_neg hne, raiseIf_of_not (by rw [sameNames_of fun _ => Iff.rfl]; exact not_not_intro rfl), ok_bind, if_pos hformat,
      hshapes, ok_bind, raiseIf_of_not (by rw [hsame]; exact not_not_intro rfl), ok_bind]
    unfold sortedNames
    rw [hsorted.insertionSort_eq]
    refine foldlM_map_congr (fun update hu s => ?_) model
    obtain ⟨encodedIndices, hencoded, hidxMem, hvalMem⟩ := stored_mem hstored hu
    have hnodupEntries := stored_nodup hstored hnodup
    have hshape : shapes.get? update.name = some update.shape := by
      rw [hget, Dict.get?_ofList (hfst ▸ hnodup)]
      exact List.mem_map.2 ⟨update, hu, rfl⟩
    unfold loadLogicalTensor getTensor
    rw [(Dict.get?_ofList hnodupEntries).2 hvalMem, (Dict.get?_ofList hnodupEntries).2 hidxMem]
    dsimp only
    rw [ok_bind, ok_bind, (hstorable update hu).decode hencoded, ok_bind, hshape]

end Safetensors

/-! ## The round trip -/

/-- A delta that extraction wrote. -/
inductive Extracts [Unicode] (base target : StateDict) (encoding : String) : DeltaFile → Prop
  | stream {groupSize : Int} {content : List Byte} :
      extractSparseDeltaStreaming base.tensors target.tensors encoding groupSize = .ok content →
      Extracts base target encoding (.bytes content)
  | safetensors {file : SafetensorsFile} : extractSparseDelta base.tensors target.tensors encoding = .ok file →
      Extracts base target encoding (.safetensors file)

/-- The tensors that a delta mentions. -/
def deltaNames : DeltaFile → Except PyException (List String)
  | .bytes content => iterStreamingDeltaRecords content (fun names record => .ok (names ++ [record.name])) []
  | .safetensors file => .ok (namesWith deltaIndexSuffix file.tensors.keys)

/-- The model holds the tensors of the base as plain parameters; a head tied in both states need not be one. -/
def HoldsState (model : Adapter) (base target : StateDict) : Prop :=
  ∀ name t, base.tensors.get? name = some t → name ∉ skipKeys base.tensors target.tensors →
    ∃ param module, param.tensor = t ∧ HoldsTensor model name param module

/-- The parameter that holds a tensor: a head that is left out is tied to the embedding. -/
def heldBy (base target : StateDict) (name : String) : String :=
  if name ∈ skipKeys base.tensors target.tensors then embeddingName else name

section Main

variable [Unicode] {base target : StateDict} {encoding : String} {names : List String}
  {updates : List LogicalSparseUpdate} {model : Adapter} {file : DeltaFile}

/-- An artifact holds the updates of the changed tensors, in some order, and loading it applies them. -/
theorem Extracts.exists_updates (h : Extracts base target encoding file) :
    ∃ names updates, names.Nodup ∧
      (∀ name, name ∈ names ↔ name ∈ target.tensors.keys ∧ name ∉ skipKeys base.tensors target.tensors) ∧
      Extracted base.tensors target.tensors names updates ∧
      deltaNames file = .ok (updates.map LogicalSparseUpdate.name) ∧
      ((∀ update ∈ updates, Storable update) → ∀ model,
        loadSparseDeltaWeights model none file = updates.foldlM (applySparseUpdate none) model) := by
  cases h with
  | @stream groupSize content h =>
      unfold extractSparseDeltaStreaming at h
      simp only [bind_eq_ok] at h
      obtain ⟨-, -, keys, hkeys, names, hnames, records, hrecords, hcontent⟩ := h
      cases hcontent
      obtain ⟨hnodup, -, hmem⟩ := validatedModelKeys_ok hkeys
      have hperm := sortedRecordNames_perm hnames
      obtain ⟨updates, hextracted, hwritten⟩ := writeRecords_ok hrecords
      have hnamesNodup := hperm.nodup_iff.2 hnodup
      refine ⟨names, updates, hnamesNodup, fun name => hperm.mem_iff.trans (hmem name), hextracted, ?_,
        fun hstorable model => load_stream hwritten hstorable (hextracted.sublist.nodup hnamesNodup)⟩
      refine (iterStreamingDeltaRecords_written hwritten
        (g := fun names update => .ok (names ++ [update.name])) (fun _ _ _ _ _ => rfl) []).trans ?_
      exact foldlM_collect LogicalSparseUpdate.name updates []
  | @safetensors file h =>
      unfold extractSparseDelta extractSparseDeltaFromStores at h
      simp only [bind_eq_ok] at h
      obtain ⟨keys, hkeys, ⟨deltaTensors, shapes⟩, hadd, hfile⟩ := h
      cases hfile
      obtain ⟨hnodup, -, hmem⟩ := validatedModelKeys_ok hkeys
      have hperm : (sortedNames keys).Perm keys := List.perm_insertionSort _ _
      obtain ⟨updates, entries, hextracted, hstored, rfl, rfl⟩ := addSparseTensors_ok hadd
      have hnamesNodup := hperm.nodup_iff.2 hnodup
      have hupdatesNodup := hextracted.sublist.nodup hnamesNodup
      have hsorted : (sortedNames keys).Pairwise (· ≤ ·) := List.pairwise_insertionSort _ _
      refine ⟨sortedNames keys, updates, hnamesNodup, fun name => hperm.mem_iff.trans (hmem name), hextracted, ?_,
        fun hstorable model => load_safetensors hstored hstorable hupdatesNodup (hsorted.sublist hextracted.sublist)⟩
      have hentries : (Dict.ofList entries).keys = entries.map Prod.fst := by
        unfold Dict.keys
        rw [Dict.entries_ofList (stored_nodup hstored hupdatesNodup)]
      show Except.ok (namesWith deltaIndexSuffix (Dict.ofList entries).keys) = _
      rw [hentries, (namesWith_stored hstored).1]

omit [Unicode] in
theorem Extracted.storable (h : Extracted base.tensors target.tensors names updates) {update : LogicalSparseUpdate}
    (hu : update ∈ updates) : Storable update := by
  obtain ⟨-, t, t', ht, -, hreproduces⟩ := extractUpdate_ok (h.mem hu).2
  exact ⟨hreproduces.int64, hreproduces.length_eq, _, Nat.le_of_lt (base.numel_lt ht), hreproduces.valid⟩

omit [Unicode] in
theorem torchEqual_of_unchanged {name : String} {update : LogicalSparseUpdate}
    (h : extractUpdate base.tensors target.tensors none name = .ok update) (hnil : update.indices.data = []) :
    ∃ t t', base.tensors.get? name = some t ∧ target.tensors.get? name = some t' ∧ t.dtype = t'.dtype ∧
      torchEqual t t' = true := by
  obtain ⟨-, t, t', ht, ht', hreproduces⟩ := extractUpdate_ok h
  have hequal := hreproduces.equal
  rw [hnil, List.map_nil, sparseUpdate_nil] at hequal
  exact ⟨t, t', ht, ht', hreproduces.dtype_eq, hequal⟩

/-- **Round trip of a delta.** If extraction accepts the base and the target, then loading the artifact into a model
that holds the base succeeds, and afterwards every tensor of the target is equal to the parameter that holds it; a
tensor the artifact does not mention is unchanged, and was equal already unless it is a head left out; and a head is
left out only when it is tied in both states. -/
theorem delta_roundTrip (h : Extracts base target encoding file) (hmodel : HoldsState model base target) :
    ∃ loaded mentioned, loadSparseDeltaWeights model none file = .ok loaded ∧ deltaNames file = .ok mentioned ∧
      (∀ name t', target.tensors.get? name = some t' → ∃ param,
        loaded.params.get? (heldBy base target name) = some param ∧ torchEqual param.tensor t' = true ∧
          (name ∉ skipKeys base.tensors target.tensors → param.tensor.dtype = t'.dtype)) ∧
      (∀ name, name ∉ mentioned → loaded.params.get? name = model.params.get? name ∧
        ∀ t t', base.tensors.get? name = some t → target.tensors.get? name = some t' →
          name ∉ skipKeys base.tensors target.tensors → torchEqual t t' = true) ∧
      ∀ name ∈ skipKeys base.tensors target.tensors,
        name = lmHeadName ∧ Tied base.tensors ∧ Tied target.tensors := by
  obtain ⟨names, updates, hnodup, hmem, hextracted, hmentioned, hload⟩ := h.exists_updates
  obtain ⟨loaded, hloaded, hother, hnamed⟩ := applyAll_ok model target.tensors
    (hextracted.sublist.nodup hnodup) fun update hu => by
      obtain ⟨hname, hextract⟩ := hextracted.mem hu
      obtain ⟨-, t, t', ht, ht', hreproduces⟩ := extractUpdate_ok hextract
      obtain ⟨param, module, hparam, hholds⟩ := hmodel update.name t ht ((hmem _).1 hname).2
      exact ⟨t, t', param, module, ht', hparam, hholds, hreproduces⟩
  have hkept : ∀ name t', target.tensors.get? name = some t' → name ∉ skipKeys base.tensors target.tensors →
      ∃ param, loaded.params.get? name = some param ∧ torchEqual param.tensor t' = true ∧
        param.tensor.dtype = t'.dtype := by
    intro name t' ht' hskip
    have hname : name ∈ names := (hmem name).2 ⟨Dict.mem_keys_iff.2 ⟨t', ht'⟩, hskip⟩
    by_cases hupdate : name ∈ updates.map LogicalSparseUpdate.name
    · obtain ⟨update, hu, rfl⟩ := List.mem_map.1 hupdate
      obtain ⟨param, t'', hparam, ht'', hdtype, hequal⟩ := hnamed update hu
      rw [ht'] at ht''
      cases ht''
      exact ⟨param, hparam, hequal, hdtype⟩
    · obtain ⟨update, hextract, hnil⟩ := hextracted.unchanged_of_not_mem hname hupdate
      obtain ⟨t, t'', ht, ht'', hdtype, hequal⟩ := torchEqual_of_unchanged hextract hnil
      rw [ht'] at ht''
      cases ht''
      obtain ⟨param, module, rfl, hholds⟩ := hmodel name t ht hskip
      exact ⟨param, (hother name hupdate).trans hholds.param_eq, hequal, hdtype⟩
  refine ⟨loaded, _, (hload (fun u hu => hextracted.storable hu) model).trans hloaded, hmentioned, ?_, ?_,
    fun name hname => mem_skipKeys.1 hname⟩
  · intro name t' ht'
    unfold heldBy
    by_cases hskip : name ∈ skipKeys base.tensors target.tensors
    · rw [if_pos hskip]
      obtain ⟨rfl, -, embedding, lmHead, hembedding, hlmHead, htied⟩ := mem_skipKeys.1 hskip
      rw [ht'] at hlmHead
      cases hlmHead
      obtain ⟨param, hparam, hequal, hdtype⟩ := hkept _ _ hembedding embeddingName_not_skipped
      exact ⟨param, hparam, torchEqual_trans hdtype hequal htied, fun hnot => absurd hskip hnot⟩
    · rw [if_neg hskip]
      obtain ⟨param, hparam, hequal, hdtype⟩ := hkept name t' ht' hskip
      exact ⟨param, hparam, hequal, fun _ => hdtype⟩
  · intro name hname
    refine ⟨hother name hname, fun t t' ht ht' hskip => ?_⟩
    obtain ⟨update, hextract, hnil⟩ := hextracted.unchanged_of_not_mem
      ((hmem name).2 ⟨Dict.mem_keys_iff.2 ⟨t', ht'⟩, hskip⟩) hname
    obtain ⟨t₁, t₁', ht₁, ht₁', -, hequal⟩ := torchEqual_of_unchanged hextract hnil
    rw [ht] at ht₁
    rw [ht'] at ht₁'
    cases ht₁
    cases ht₁'
    exact hequal

end Main

end RoundTrip

/-! ### A tied head -/

section Example

attribute [local instance] bitOps

attribute [local instance] asciiUnicode

/-- A tensor of bytes. -/
def byteTensor (data : List (Elem .uint8)) : Tensor := ⟨[data.length], .uint8, data, (Nat.mul_one _).symm⟩

/-- An embedding, the head tied to it, and a bias. -/
def tiedState (embedding bias : List (Elem .uint8)) : Dict String Tensor :=
  .ofList [(embeddingName, byteTensor embedding), (lmHeadName, byteTensor embedding), ("b", byteTensor bias)]

theorem tiedState_numel_lt {embedding bias : List (Elem .uint8)} (he : embedding.length < 2 ^ 63)
    (hb : bias.length < 2 ^ 63) {name : String} {t : Tensor} (h : (tiedState embedding bias).get? name = some t) :
    t.data.length < 2 ^ 63 := by
  have hnodup : ([(embeddingName, byteTensor embedding), (lmHeadName, byteTensor embedding),
      ("b", byteTensor bias)].map Prod.fst).Nodup := by
    show [embeddingName, lmHeadName, "b"].Nodup
    decide
  have hmem := (Dict.get?_ofList hnodup).1 h
  simp only [List.mem_cons, Prod.mk.injEq, List.not_mem_nil, or_false] at hmem
  rcases hmem with ⟨-, rfl⟩ | ⟨-, rfl⟩ | ⟨-, rfl⟩
  · exact he
  · exact he
  · exact hb

def tiedBase : StateDict := ⟨tiedState [1, 2] [7], tiedState_numel_lt (by decide) (by decide)⟩

def tiedTarget : StateDict := ⟨tiedState [1, 5] [7], tiedState_numel_lt (by decide) (by decide)⟩

/-- The model shares one parameter between the embedding and the head. -/
def tiedModel : Adapter where
  params := .ofList [(embeddingName, ⟨byteTensor [1, 2], true, none, none, none, false⟩),
    ("b", ⟨byteTensor [7], true, none, none, none, false⟩)]
  modules := .ofList [("model.embed_tokens", plainModule), ("", plainModule)]
where
  plainModule : Module :=
    { className := "Module", hasQuantConfig := false, quantMethod := none, primeRlShardKind := none,
      shardIndices := none, hasNumEmbeddingsPerPartition := false, tpRank := none, tpSize := none,
      outputSizes := none, headSize := none, vHeadSize := none, totalNumHeads := none,
      totalNumKvHeads := none, numHeads := none, numKvHeads := none, numKvHeadReplicas := none }

theorem holds_tiedModel : HoldsState tiedModel tiedBase tiedTarget := by
  intro name t ht hskip
  have hnodup : ([(embeddingName, byteTensor [1, 2]), (lmHeadName, byteTensor [1, 2]),
      ("b", byteTensor [7])].map Prod.fst).Nodup := by
    show [embeddingName, lmHeadName, "b"].Nodup
    decide
  have hmem := (Dict.get?_ofList hnodup).1 ht
  simp only [List.mem_cons, Prod.mk.injEq, List.not_mem_nil, or_false] at hmem
  rcases hmem with ⟨rfl, rfl⟩ | ⟨rfl, rfl⟩ | ⟨rfl, rfl⟩
  · exact ⟨_, _, rfl, rfl, rfl, rfl, rfl, rfl⟩
  · have hleft : skipKeys tiedBase.tensors tiedTarget.tensors = [lmHeadName] := rfl
    rw [hleft] at hskip
    exact absurd (List.mem_singleton_self _) hskip
  · exact ⟨_, _, rfl, rfl, rfl, rfl, rfl, rfl⟩

theorem tied_accepts : ∃ file, extractSparseDelta tiedBase.tensors tiedTarget.tensors "naive" = .ok file := ⟨_, rfl⟩

theorem delta_roundTrip_tied : ∃ file loaded param,
    extractSparseDelta tiedBase.tensors tiedTarget.tensors "naive" = .ok file ∧
      loadSparseDeltaWeights tiedModel none (.safetensors file) = .ok loaded ∧
      loaded.params.get? embeddingName = some param ∧ torchEqual param.tensor (byteTensor [1, 5]) = true := by
  obtain ⟨file, hfile⟩ := tied_accepts
  obtain ⟨loaded, -, hloaded, -, hequal, -⟩ := delta_roundTrip (.safetensors hfile) holds_tiedModel
  obtain ⟨param, hparam, htorch, -⟩ := hequal lmHeadName (byteTensor [1, 5]) rfl
  exact ⟨file, loaded, param, hfile, hloaded, hparam, htorch⟩

end Example

end AuroraRl.Delta
