import AuroraRl.Delta.RoundTrip

/-!
# The two artifacts of a delta

* `streamingDeltaTensorStore` : a stream opened as a tensor store, with the metadata of a safetensors file;
* `readUpdates` : the updates that the worker decodes, from either artifact;
* `streamingCounts`, `safetensorsCounts` : the counters of the two writers, `countSparseDeltaValues`;
* `artifactFormats_agree` : both artifacts expose the same tensors, metadata, updates and counts.
-/

namespace AuroraRl.Delta
open Bytes Python Torch Layout

/-! ## Readers -/

/-- One turn of the loop of `StreamingDeltaTensorStore.__init__`. -/
def storeRecord (s : Dict String Flat × Dict String (List Nat)) (record : StreamingDeltaRecord) :
    Except PyException (Dict String Flat × Dict String (List Nat)) := do
  raiseIf (s.1.contains (record.name ++ deltaIndexSuffix)) ("duplicate streaming delta record: " ++ record.name)
  let tensors := (s.1.insert (record.name ++ deltaIndexSuffix) record.encodedIndices).insert
    (record.name ++ deltaValueSuffix) record.values
  match record.shape with
  | none => return (tensors, s.2)
  | some shape => return (tensors, s.2.insert record.name shape)

/-- `StreamingDeltaTensorStore`: its tensors and what `metadata()` gives. -/
def streamingDeltaTensorStore (content : List Byte) : Except PyException SafetensorsFile := do
  let (version, _) ← readStreamHeader content
  let (tensors, shapes) ← iterStreamingDeltaRecords content storeRecord (.empty, .empty)
  if version = 1 then return ⟨tensors, ⟨some deltaMetadataFormatV1, none, none⟩⟩
  else return ⟨tensors, logicalDeltaMetadata shapes⟩

/-- The update that the worker makes of a record. -/
def recordUpdate (record : StreamingDeltaRecord) : Except PyException LogicalSparseUpdate := do
  match record.shape with
  | none => raiseValueError ("logical streaming delta has no shape for " ++ record.name)
  | some shape =>
    let indices ← decodeSparseIndices record.encodedIndices record.values.data.length
    return ⟨record.name, shape, indices, record.values⟩

/-- The update that the worker makes of two tensors of a safetensors file. -/
def storedUpdate (file : SafetensorsFile) (shapes : Dict String (List Nat)) (name : String) :
    Except PyException LogicalSparseUpdate := do
  let values ← getTensor file (name ++ deltaValueSuffix)
  let encodedIndices ← getTensor file (name ++ deltaIndexSuffix)
  let indices ← decodeSparseIndices encodedIndices values.data.length
  match shapes.get? name with
  | none => .error ⟨.keyError, name⟩
  | some shape => return ⟨name, shape, indices, values⟩

/-- The updates of a logical delta, in the order in which the worker applies them. -/
def readUpdates : DeltaFile → Except PyException (List LogicalSparseUpdate)
  | .bytes content =>
    iterStreamingDeltaRecords content (fun updates record => do return updates ++ [← recordUpdate record]) []
  | .safetensors file => do
    let shapes ← sparseDeltaShapes file.metadata
    (sortedNames (namesWith deltaIndexSuffix file.tensors.keys)).mapM (storedUpdate file shapes)

/-- One turn of the loop of `count_sparse_delta_values` over the keys of a safetensors file. -/
def countKey (file : SafetensorsFile) (total : Nat) (key : String) : Except PyException Nat :=
  if endswith key deltaValueSuffix then do
    let values ← getTensor file key
    return total + values.data.length
  else .ok total

def countSparseDeltaValues : DeltaFile → Except PyException Nat
  | .bytes content =>
    if isStreamingDeltaFile content then
      iterStreamingDeltaRecords content (fun total record => .ok (total + record.values.data.length)) 0
    else .error ⟨.safetensorError, "Error while deserializing header"⟩
  | .safetensors file => file.tensors.keys.foldlM (countKey file) 0

/-! ## Counters -/

/-- What the writers count for `DeltaStats`. -/
structure DeltaCounts where
  totalParams : Nat
  totalBytes : Nat
  changedParams : Nat

section Counters

variable [FloatOps] (base target : Dict String Tensor)

/-- What one turn of either writer adds to its counters. -/
def countTensor (counts : DeltaCounts) (name : String) : Except PyException DeltaCounts := do
  let update ← extractUpdate base target none name
  match base.get? name with
  | none => .error ⟨.keyError, name⟩
  | some baseTensor => return {
      totalParams := counts.totalParams + baseTensor.data.length
      totalBytes := counts.totalBytes + baseTensor.data.length * baseTensor.dtype.size
      changedParams := counts.changedParams + update.indices.data.length }

/-- The counters of `_extract_sparse_delta_from_stores`. -/
def safetensorsCounts : Except PyException DeltaCounts := do
  let keys ← validatedModelKeys base target true
  (sortedNames keys).foldlM (countTensor base target) ⟨0, 0, 0⟩

/-- The counters of `_extract_sparse_delta_streaming_from_stores`. -/
def streamingCounts [Unicode] : Except PyException DeltaCounts := do
  let keys ← validatedModelKeys base target true
  let recordNames ← sortedRecordNames keys
  recordNames.foldlM (countTensor base target) ⟨0, 0, 0⟩

end Counters

/-! ## Orders -/

section Orders

variable [FloatOps] {base target : Dict String Tensor} {names names' : List String}
  {updates updates' : List LogicalSparseUpdate}

def changedUpdate (base target : Dict String Tensor) (name : String) : Option LogicalSparseUpdate :=
  match extractUpdate base target none name with
  | .ok update => if update.indices.data = [] then none else some update
  | .error _ => none

theorem Extracted.eq_filterMap (h : Extracted base target names updates) :
    updates = names.filterMap (changedUpdate base target) := by
  induction h with
  | nil => rfl
  | unchanged hupdate hnil _ ih =>
      rw [List.filterMap_cons_none, ← ih]
      simp only [changedUpdate, hupdate, hnil, if_true]
  | changed hupdate hne _ ih =>
      rw [List.filterMap_cons_some, ← ih]
      simp only [changedUpdate, hupdate, hne, if_false]

/-- The order of the names only decides the order of the updates. -/
theorem Extracted.perm (h : Extracted base target names updates) (h' : Extracted base target names' updates')
    (hperm : names.Perm names') : updates.Perm updates' := by
  rw [h.eq_filterMap, h'.eq_filterMap]
  exact hperm.filterMap _

/-- The elements of a tensor of the base, and a weight of each. -/
def weigh (base : Dict String Tensor) (weight : Tensor → Nat) (name : String) : Nat :=
  ((base.get? name).map weight).getD 0

theorem Extracted.foldlM_countTensor (h : Extracted base target names updates) (counts : DeltaCounts) :
    names.foldlM (countTensor base target) counts = .ok {
      totalParams := counts.totalParams + (names.map (weigh base fun t => t.data.length)).sum
      totalBytes := counts.totalBytes + (names.map (weigh base fun t => t.data.length * t.dtype.size)).sum
      changedParams := counts.changedParams + (updates.map fun update => update.indices.data.length).sum } := by
  induction h generalizing counts with
  | nil => rfl
  | unchanged hupdate hnil _ ih =>
      obtain ⟨-, t, t', ht, -⟩ := extractUpdate_ok hupdate
      simp only [List.foldlM_cons, countTensor, hupdate, ht, ok_bind, weigh, List.map_cons, List.sum_cons, hnil]
      refine (ih _).trans ?_
      simp [Nat.add_assoc]
  | changed hupdate _ _ ih =>
      obtain ⟨-, t, t', ht, -⟩ := extractUpdate_ok hupdate
      simp only [List.foldlM_cons, countTensor, hupdate, ht, ok_bind, weigh, List.map_cons, List.sum_cons]
      refine (ih _).trans ?_
      simp [Nat.add_assoc]

/-- The writers count alike in any order of the tensors. -/
theorem Extracted.counts_perm (h : Extracted base target names updates) (h' : Extracted base target names' updates')
    (hperm : names.Perm names') (counts : DeltaCounts) :
    names.foldlM (countTensor base target) counts = names'.foldlM (countTensor base target) counts := by
  rw [h.foldlM_countTensor, h'.foldlM_countTensor]
  simp only [(hperm.map _).sum_nat, ((h.perm h' hperm).map _).sum_nat]

end Orders

/-! ## The tensors of a file -/

section Files

variable {updates updates' : List LogicalSparseUpdate} {encoding : String} {entries entries' : List (String × Flat)}
  {content : List Byte}

theorem Written.stored (h : Written encoding updates content) : ∃ entries, Stored encoding updates entries := by
  induction h with
  | nil => exact ⟨[], .nil⟩
  | cons hrecord _ ih =>
      obtain ⟨entries, hstored⟩ := ih
      obtain ⟨encodedIndices, hencoded, -⟩ := readRecord_writeRecord hrecord
      exact ⟨_, .cons hencoded hstored⟩

/-- The entries of a file, one update at a time. -/
theorem Stored.mem_iff (h : Stored encoding updates entries) {key : String} {t : Flat} :
    (key, t) ∈ entries ↔ ∃ update ∈ updates,
      (key = update.name ++ deltaIndexSuffix ∧ encodeSparseIndices update.indices.data encoding = .ok t) ∨
      (key = update.name ++ deltaValueSuffix ∧ t = update.values) := by
  induction h with
  | nil => simp
  | @cons update updates encodedIndices entries hencoded _ ih =>
      have hindices : encodeSparseIndices update.indices.data encoding = .ok t ↔ t = encodedIndices := by
        rw [hencoded]
        constructor
        · rintro ⟨⟩
          rfl
        · rintro rfl
          rfl
      simp only [List.mem_cons, Prod.mk.injEq, ih, exists_eq_or_imp, hindices, or_assoc]

theorem Stored.get?_perm (h : Stored encoding updates entries) (h' : Stored encoding updates' entries')
    (hnodup : (updates.map LogicalSparseUpdate.name).Nodup) (hperm : updates.Perm updates') (key : String) :
    (Dict.ofList entries).get? key = (Dict.ofList entries').get? key := by
  have hnodup' : (updates'.map LogicalSparseUpdate.name).Nodup := (hperm.map _).nodup_iff.1 hnodup
  apply Option.ext
  intro t
  rw [Dict.get?_ofList (stored_nodup h hnodup), Dict.get?_ofList (stored_nodup h' hnodup'), h.mem_iff, h'.mem_iff]
  simp only [hperm.mem_iff]

/-- The metadata of a delta depends on the shapes, not on their order. -/
theorem logicalDeltaMetadata_congr {shapes shapes' : Dict String (List Nat)}
    (h : ∀ name, shapes.get? name = shapes'.get? name) : logicalDeltaMetadata shapes = logicalDeltaMetadata shapes' := by
  have hkeys : shapes.keys.Perm shapes'.keys := by
    apply (List.perm_ext_iff_of_nodup shapes.nodup shapes'.nodup).2
    intro name
    show name ∈ shapes.keys ↔ name ∈ shapes'.keys
    simp only [Dict.mem_keys_iff, h]
  have hsorted : sortedNames shapes.keys = sortedNames shapes'.keys := by
    apply ((List.perm_insertionSort _ _).trans (hkeys.trans (List.perm_insertionSort _ _).symm)).eq_of_pairwise
    · exact fun a b _ _ hab hba => le_antisymm hab hba
    · exact List.pairwise_insertionSort _ _
    · exact List.pairwise_insertionSort _ _
  unfold logicalDeltaMetadata
  simp only [hsorted, h]

theorem shapes_perm (hnodup : (updates.map LogicalSparseUpdate.name).Nodup) (hperm : updates.Perm updates') :
    logicalDeltaMetadata (.ofList (updates.map fun update => (update.name, update.shape))) =
      logicalDeltaMetadata (.ofList (updates'.map fun update => (update.name, update.shape))) := by
  have hnodup' : (updates'.map LogicalSparseUpdate.name).Nodup := (hperm.map _).nodup_iff.1 hnodup
  apply logicalDeltaMetadata_congr
  intro name
  apply Option.ext
  intro shape
  rw [Dict.get?_ofList (fst_name_shape updates ▸ hnodup),
    Dict.get?_ofList (fst_name_shape updates' ▸ hnodup')]
  exact (hperm.map _).mem_iff

end Files

/-! ## Reading a written delta -/

section Reading

variable {updates : List LogicalSparseUpdate} {encoding : String} {entries : List (String × Flat)} {content : List Byte}

theorem foldlM_storeRecord (h : Stored encoding updates entries) (hnodup : (updates.map LogicalSparseUpdate.name).Nodup)
    {tensors : Dict String Flat} {shapes : Dict String (List Nat)}
    (hfresh : ∀ update ∈ updates, update.name ++ deltaIndexSuffix ∉ tensors.keys) :
    updates.foldlM (fun s update => encodeSparseIndices update.indices.data encoding >>= fun encodedIndices =>
        storeRecord s (recordOf update encodedIndices)) (tensors, shapes) =
      .ok (tensors.insertAll entries, shapes.insertAll (updates.map fun update => (update.name, update.shape))) := by
  induction h generalizing tensors shapes with
  | nil => rfl
  | @cons update updates encodedIndices entries hencoded _ ih =>
      rw [List.map_cons, List.nodup_cons] at hnodup
      have hnew : ¬ (tensors, shapes).1.contains ((recordOf update encodedIndices).name ++ deltaIndexSuffix) = true := by
        rw [Dict.contains_iff]
        exact hfresh update List.mem_cons_self
      have hstep : storeRecord (tensors, shapes) (recordOf update encodedIndices) =
          .ok ((tensors.insert (update.name ++ deltaIndexSuffix) encodedIndices).insert
            (update.name ++ deltaValueSuffix) update.values, shapes.insert update.name update.shape) := by
        unfold storeRecord
        rw [raiseIf_of_not hnew]
        rfl
      rw [List.foldlM_cons, hencoded, ok_bind, hstep, ok_bind]
      apply ih hnodup.2
      intro u hu hmem
      have hname : u.name ≠ update.name := fun heq => hnodup.1 (heq ▸ List.mem_map_of_mem hu)
      rw [Dict.mem_keys_iff] at hmem
      obtain ⟨t, ht⟩ := hmem
      rw [Dict.get?_insert_ne _ _ (suffix_ne _ _).symm,
        Dict.get?_insert_ne _ _ fun heq => hname (append_suffix_inj heq).symm] at ht
      exact hfresh u (List.mem_cons_of_mem _ hu) (Dict.mem_keys_iff.2 ⟨t, ht⟩)

theorem streamingDeltaTensorStore_written (h : Written encoding updates content) (hstored : Stored encoding updates entries)
    (hnodup : (updates.map LogicalSparseUpdate.name).Nodup) :
    streamingDeltaTensorStore (streamHeader ++ content) = .ok ⟨.ofList entries,
      logicalDeltaMetadata (.ofList (updates.map fun update => (update.name, update.shape)))⟩ := by
  have hloop : iterStreamingDeltaRecords (streamHeader ++ content) storeRecord (.empty, .empty) =
      .ok (.ofList entries, .ofList (updates.map fun update => (update.name, update.shape))) := by
    rw [iterStreamingDeltaRecords_written h (g := fun s update =>
      encodeSparseIndices update.indices.data encoding >>= fun encodedIndices =>
        storeRecord s (recordOf update encodedIndices))]
    · exact foldlM_storeRecord hstored hnodup fun _ _ => List.not_mem_nil
    · intro update _ s encodedIndices hencoded
      dsimp only
      rw [hencoded, ok_bind]
  unfold streamingDeltaTensorStore
  rw [readStreamHeader_header, ok_bind]
  dsimp only
  rw [hloop, ok_bind]
  rfl

theorem readUpdates_stream (h : Written encoding updates content) (hstorable : ∀ update ∈ updates, Storable update) :
    readUpdates (.bytes (streamHeader ++ content)) = .ok updates := by
  unfold readUpdates
  dsimp only
  rw [iterStreamingDeltaRecords_written h (g := fun seen update => .ok (seen ++ [update]))]
  · rw [foldlM_collect fun update => update, List.map_id', List.nil_append]
  · intro update hu seen encodedIndices hencoded
    unfold recordUpdate
    dsimp only [recordOf]
    rw [(hstorable update hu).decode hencoded]
    rfl

theorem countSparseDeltaValues_stream (h : Written encoding updates content) :
    countSparseDeltaValues (.bytes (streamHeader ++ content)) =
      .ok (updates.map fun update => update.values.data.length).sum := by
  have hstream : isStreamingDeltaFile (streamHeader ++ content) = true := rfl
  have hloop : ∀ total : Nat,
      updates.foldlM (fun total update => (.ok (total + update.values.data.length) : Except PyException _)) total =
        .ok (total + (updates.map fun update => update.values.data.length).sum) := by
    clear h hstream
    induction updates with
    | nil => exact fun total => rfl
    | cons update updates ih =>
        intro total
        rw [List.foldlM_cons, ok_bind, ih, List.map_cons, List.sum_cons, Nat.add_assoc]
  unfold countSparseDeltaValues
  dsimp only
  rw [if_pos hstream, iterStreamingDeltaRecords_written h (g := fun total update =>
    .ok (total + update.values.data.length)) fun _ _ _ _ _ => rfl, hloop, Nat.zero_add]

theorem keys_ofList (hnodup : (entries.map Prod.fst).Nodup) : (Dict.ofList entries).keys = entries.map Prod.fst := by
  unfold Dict.keys
  rw [Dict.entries_ofList hnodup]

theorem foldlM_countKey (h : Stored encoding updates entries) {file : SafetensorsFile}
    (hfile : ∀ e ∈ entries, getTensor file e.1 = .ok e.2) (total : Nat) :
    (entries.map Prod.fst).foldlM (countKey file) total =
      .ok (total + (updates.map fun update => update.values.data.length).sum) := by
  induction h generalizing total with
  | nil => rfl
  | @cons update updates encodedIndices entries _ _ ih =>
      have hidx : endswith (update.name ++ deltaIndexSuffix) deltaValueSuffix = false :=
        endswith_append_of_ne _ (by decide) (by decide)
      have hskip : countKey file total (update.name ++ deltaIndexSuffix) = .ok total := by
        unfold countKey
        rw [hidx, if_neg Bool.false_ne_true]
      have hcount : countKey file total (update.name ++ deltaValueSuffix) = .ok (total + update.values.data.length) := by
        have hvalues : getTensor file (update.name ++ deltaValueSuffix) = .ok update.values :=
          hfile _ (List.mem_cons_of_mem _ List.mem_cons_self)
        unfold countKey
        rw [endswith_append, if_pos rfl, hvalues]
        rfl
      have htail := ih (fun e he => hfile e (List.mem_cons_of_mem _ (List.mem_cons_of_mem _ he)))
        (total + update.values.data.length)
      rw [List.map_cons, List.map_cons, List.foldlM_cons, hskip, ok_bind, List.foldlM_cons, hcount, ok_bind, htail,
        List.map_cons, List.sum_cons, Nat.add_assoc]

theorem countSparseDeltaValues_safetensors (h : Stored encoding updates entries)
    (hnodup : (updates.map LogicalSparseUpdate.name).Nodup) (metadata : DeltaMetadata) :
    countSparseDeltaValues (.safetensors ⟨.ofList entries, metadata⟩) =
      .ok (updates.map fun update => update.values.data.length).sum := by
  unfold countSparseDeltaValues
  dsimp only
  rw [keys_ofList (stored_nodup h hnodup), foldlM_countKey h, Nat.zero_add]
  intro e he
  unfold getTensor
  dsimp only
  rw [(Dict.get?_ofList (stored_nodup h hnodup)).2 he]

theorem mapM_eq_ok {α β : Type} {f : β → Except PyException α} {n : α → β} {l : List α} (h : ∀ a ∈ l, f (n a) = .ok a) :
    (l.map n).mapM f = .ok l := by
  induction l with
  | nil => rfl
  | cons a l ih =>
      rw [List.map_cons, List.mapM_cons, h a List.mem_cons_self, ok_bind, ih fun b hb => h b (List.mem_cons_of_mem a hb)]
      rfl

theorem readUpdates_safetensors (h : Stored encoding updates entries) (hstorable : ∀ update ∈ updates, Storable update)
    (hnodup : (updates.map LogicalSparseUpdate.name).Nodup)
    (hsorted : (updates.map LogicalSparseUpdate.name).Pairwise (· ≤ ·)) :
    readUpdates (.safetensors ⟨.ofList entries, logicalDeltaMetadata
      (.ofList (updates.map fun update => (update.name, update.shape)))⟩) = .ok updates := by
  obtain ⟨shapes, hshapes, hget⟩ := sparseDeltaShapes_logical
    (.ofList (updates.map fun update => (update.name, update.shape)))
  have hentries := stored_nodup h hnodup
  unfold readUpdates
  dsimp only
  rw [hshapes, ok_bind, keys_ofList hentries, (namesWith_stored h).1]
  unfold sortedNames
  rw [hsorted.insertionSort_eq]
  apply mapM_eq_ok
  intro update hu
  obtain ⟨encodedIndices, hencoded, hidx, hval⟩ := stored_mem h hu
  have hshape : shapes.get? update.name = some update.shape := by
    rw [hget, Dict.get?_ofList (fst_name_shape updates ▸ hnodup)]
    exact List.mem_map.2 ⟨update, hu, rfl⟩
  unfold storedUpdate getTensor
  dsimp only
  rw [(Dict.get?_ofList hentries).2 hval, (Dict.get?_ofList hentries).2 hidx]
  dsimp only
  rw [ok_bind, ok_bind, (hstorable update hu).decode hencoded, ok_bind, hshape]
  rfl

end Reading

/-! ## Both artifacts -/

section Main

variable [FloatOps] [Unicode] {base target : StateDict} {encoding : String} {groupSize : Int} {content : List Byte}
  {file : SafetensorsFile}

theorem exists_updates_of_both
    (hstream : extractSparseDeltaStreaming base.tensors target.tensors encoding groupSize = .ok content)
    (hfile : extractSparseDelta base.tensors target.tensors encoding = .ok file) :
    ∃ keys names updates updates' records entries, validatedModelKeys base.tensors target.tensors true = .ok keys ∧
      sortedRecordNames keys = .ok names ∧ names.Perm (sortedNames keys) ∧ names.Nodup ∧
      Extracted base.tensors target.tensors names updates ∧
      Extracted base.tensors target.tensors (sortedNames keys) updates' ∧
      Written encoding updates records ∧ content = streamHeader ++ records ∧ Stored encoding updates' entries ∧
      file = ⟨.ofList entries, logicalDeltaMetadata (.ofList (updates'.map fun update => (update.name, update.shape)))⟩ := by
  unfold extractSparseDeltaStreaming at hstream
  simp only [bind_eq_ok] at hstream
  obtain ⟨-, -, keys, hkeys, names, hnames, records, hrecords, hcontent⟩ := hstream
  unfold extractSparseDelta extractSparseDeltaFromStores at hfile
  rw [hkeys, ok_bind, bind_eq_ok] at hfile
  obtain ⟨⟨deltaTensors, shapes⟩, hadd, hfile⟩ := hfile
  cases hcontent
  cases hfile
  have hperm := sortedRecordNames_perm hnames
  have hsorted : (sortedNames keys).Perm keys := List.perm_insertionSort _ _
  obtain ⟨updates, hextracted, hwritten⟩ := writeRecords_ok hrecords
  obtain ⟨updates', entries, hextracted', hstored, rfl, rfl⟩ := addSparseTensors_ok hadd
  exact ⟨keys, names, updates, updates', records, entries, hkeys, hnames, hperm.trans hsorted.symm,
    hperm.nodup_iff.2 (validatedModelKeys_ok hkeys).1, hextracted, hextracted', hwritten, rfl, hstored, rfl⟩

/-- **Main.** The two artifacts of a base and a target hold the same tensors under the same keys and the same metadata;
the worker decodes the same updates from them, each tensor once, and applies these; and the writers and the readers
count the same. -/
theorem artifactFormats_agree
    (hstream : extractSparseDeltaStreaming base.tensors target.tensors encoding groupSize = .ok content)
    (hfile : extractSparseDelta base.tensors target.tensors encoding = .ok file) :
    (∃ store, streamingDeltaTensorStore content = .ok store ∧
      (∀ key, store.tensors.get? key = file.tensors.get? key) ∧ store.metadata = file.metadata) ∧
    (∃ updates updates', readUpdates (.bytes content) = .ok updates ∧ readUpdates (.safetensors file) = .ok updates' ∧
      updates.Perm updates' ∧ (updates.map LogicalSparseUpdate.name).Nodup ∧
      ∀ model, loadSparseDeltaWeights model none (.bytes content) = updates.foldlM (applySparseUpdate none) model ∧
        loadSparseDeltaWeights model none (.safetensors file) = updates'.foldlM (applySparseUpdate none) model) ∧
    ∃ counts, streamingCounts base.tensors target.tensors = .ok counts ∧
      safetensorsCounts base.tensors target.tensors = .ok counts ∧
      countSparseDeltaValues (.bytes content) = .ok counts.changedParams ∧
      countSparseDeltaValues (.safetensors file) = .ok counts.changedParams := by
  obtain ⟨keys, names, updates, updates', records, entries', hkeys, hnames, hperm, hnamesNodup, hextracted, hextracted',
    hwritten, rfl, hstored', rfl⟩ := exists_updates_of_both hstream hfile
  obtain ⟨entries, hstored⟩ := hwritten.stored
  have hupdates : updates.Perm updates' := hextracted.perm hextracted' hperm
  have hnodup : (updates.map LogicalSparseUpdate.name).Nodup := hextracted.sublist.nodup hnamesNodup
  have hnodup' : (updates'.map LogicalSparseUpdate.name).Nodup := (hupdates.map _).nodup_iff.1 hnodup
  have hstorable : ∀ update ∈ updates, Storable update := fun update hu => hextracted.storable hu
  have hstorable' : ∀ update ∈ updates', Storable update := fun update hu => hextracted'.storable hu
  have hsorted : (updates'.map LogicalSparseUpdate.name).Pairwise (· ≤ ·) :=
    (List.pairwise_insertionSort _ _).sublist hextracted'.sublist
  obtain ⟨counts, hcounts, hchanged⟩ : ∃ counts, names.foldlM (countTensor base.tensors target.tensors) ⟨0, 0, 0⟩ =
      .ok counts ∧ counts.changedParams = (updates.map fun update => update.values.data.length).sum := by
    refine ⟨_, hextracted.foldlM_countTensor _, ?_⟩
    rw [List.map_congr_left fun update hu => ((hstorable update hu).length_eq).symm]
    exact Nat.zero_add _
  refine ⟨⟨_, streamingDeltaTensorStore_written hwritten hstored hnodup, ?_, ?_⟩,
    ⟨updates, updates', readUpdates_stream hwritten hstorable,
      readUpdates_safetensors hstored' hstorable' hnodup' hsorted, hupdates, hnodup, fun model => ⟨?_, ?_⟩⟩,
    ⟨counts, ?_, ?_, ?_, ?_⟩⟩
  · exact fun key => hstored.get?_perm hstored' hnodup hupdates key
  · exact shapes_perm hnodup hupdates
  · exact load_stream hwritten hstorable hnodup
  · exact load_safetensors hstored' hstorable' hnodup' hsorted
  · unfold streamingCounts
    rw [hkeys, ok_bind, hnames, ok_bind, hcounts]
  · unfold safetensorsCounts
    rw [hkeys, ok_bind, ← hextracted.counts_perm hextracted' hperm, hcounts]
  · rw [countSparseDeltaValues_stream hwritten, hchanged]
  · rw [countSparseDeltaValues_safetensors hstored' hnodup', ← (hupdates.map _).sum_nat, hchanged]

end Main

section Example

attribute [local instance] bitOps

attribute [local instance] asciiUnicode

theorem artifactFormats_agree_tied : ∃ content file store updates,
    extractSparseDeltaStreaming tiedBase.tensors tiedTarget.tensors "naive" 4 = .ok content ∧
      extractSparseDelta tiedBase.tensors tiedTarget.tensors "naive" = .ok file ∧
      streamingDeltaTensorStore content = .ok store ∧ store.metadata = file.metadata ∧
      readUpdates (.bytes content) = .ok updates := by
  have hstream : ∃ content, extractSparseDeltaStreaming tiedBase.tensors tiedTarget.tensors "naive" 4 = .ok content :=
    ⟨_, rfl⟩
  obtain ⟨content, hcontent⟩ := hstream
  obtain ⟨file, hfile⟩ := tied_accepts
  obtain ⟨⟨store, hstore, -, hmetadata⟩, ⟨updates, _, hupdates, -⟩, -⟩ := artifactFormats_agree hcontent hfile
  exact ⟨content, file, store, updates, hcontent, hfile, hstore, hmetadata, hupdates⟩

end Example

end AuroraRl.Delta
