import AuroraRl.Layout.Shard

/-!
# Projecting an update commutes with sharding

* `Projected` : what a projection returns, in terms of a window of one axis (`projectDimension_ok`);
* `Projected.commutes` : updating a stack of pieces through the window updates the tensor the window is cut from;
* `project_ok` : every layout's projection is of that kind, or copies the update;
* `toLocal_commutes` : the result for the adapter.
-/

namespace AuroraRl.Layout
open Python RowMajor Torch

/-! ## One dimension -/

/-- The local indices and the mask are those of a window of `source` along `axis`. -/
structure Projected (w : Window) (axis : Nat) (source target : List Nat) (indices : List Int)
    (result : List Int × List Bool) : Prop where
  along : w.Along source axis
  target_eq : target = source.set axis w.size'
  mask : result.2 = (indices.map Int.toNat).map fun n => decide (w.Selects n)
  indices : result.1 = ((indices.map Int.toNat).filter fun n => w.Selects n).map fun n => (w.move n : Int)

theorem map_toNat_of_valid {indices : List Int} {n : Nat} (h : ValidIndices indices n) :
    (indices.map Int.toNat).map (fun n : Nat => (n : Int)) = indices := by
  rw [List.map_map]
  conv_rhs => rw [← List.map_id indices]
  refine List.map_congr_left fun i hi => ?_
  exact Int.toNat_of_nonneg (h.range i hi).1

theorem zip_map_filter {α β γ : Type} (l : List α) (f : α → β) (g : α → γ) (p : α → Bool) :
    (((l.map f).zip (l.map g)).zip (l.map p)).filter Prod.snd = (l.filter p).map fun a => ((f a, g a), true) := by
  induction l with
  | nil => rfl
  | cons a l ih =>
      rw [List.map_cons, List.map_cons, List.map_cons, List.zip_cons_cons, List.zip_cons_cons]
      by_cases hp : p a = true
      · rw [List.filter_cons_of_pos (by simpa using hp), List.filter_cons_of_pos hp, List.map_cons, ih, hp]
      · rw [List.filter_cons_of_neg (by simpa using hp), List.filter_cons_of_neg hp, ih]

theorem eq_set_of_zipIdx {source target : List Nat} {axis : Nat} (hlen : source.length = target.length)
    (h : ¬ ((source.zip target).zipIdx.any fun e => decide (e.2 ≠ axis ∧ e.1.1 ≠ e.1.2)) = true)
    (haxis : axis < source.length) : target = source.set axis (target.getD axis 0) := by
  refine List.ext_getElem? fun j => ?_
  rw [List.getElem?_set']
  by_cases hj : axis = j
  · subst hj
    rw [if_pos rfl, List.getElem?_eq_getElem haxis, List.getD_eq_getElem?_getD,
      List.getElem?_eq_getElem (hlen ▸ haxis)]
    rfl
  · rw [if_neg hj]
    by_cases hlt : j < source.length
    · have hlt' : j < target.length := hlen ▸ hlt
      rw [List.getElem?_eq_getElem hlt, List.getElem?_eq_getElem hlt']
      by_contra hne
      refine h (List.any_eq_true.2 ⟨((source[j], target[j]), j), ?_, ?_⟩)
      · rw [List.mem_zipIdx_iff_getElem?, List.getElem?_zip_eq_some]
        exact ⟨List.getElem?_eq_getElem hlt, List.getElem?_eq_getElem hlt'⟩
      · rw [decide_eq_true_eq]
        exact ⟨Ne.symm hj, fun heq => hne (congrArg some heq.symm)⟩
    · rw [List.getElem?_eq_none (by omega), List.getElem?_eq_none (by omega)]

variable {indices : List Int} {source target : List Nat}

theorem projectDimension_ok {dimension sourceStart sourceSize targetStart : Int} {result : List Int × List Bool}
    (hvalid : ValidIndices indices (numel source))
    (h : projectDimension indices source target dimension sourceStart sourceSize targetStart = .ok result) :
    ∃ w : Window, Projected w (if dimension < 0 then dimension + source.length else dimension).toNat source target
        indices result ∧ sourceStart = w.start ∧ sourceSize = w.width ∧ targetStart = w.target := by
  unfold projectDimension at h
  simp only [bind_eq_ok, raiseIf_eq_ok, exists_const] at h
  generalize (if dimension < 0 then dimension + ↑source.length else dimension) = dim at h ⊢
  obtain ⟨hlen, hdim, hshape, hsource, htarget, hresult⟩ := h
  have haxis : dim.toNat < source.length := by omega
  obtain ⟨start, rfl⟩ := Int.eq_ofNat_of_zero_le (show 0 ≤ sourceStart by omega)
  obtain ⟨width, rfl⟩ := Int.eq_ofNat_of_zero_le (show 0 ≤ sourceSize by omega)
  obtain ⟨first, rfl⟩ := Int.eq_ofNat_of_zero_le (show 0 ≤ targetStart by omega)
  have hsize : source[dim.toNat]? = some (source.getD dim.toNat 0) := by
    rw [List.getD_eq_getElem?_getD, List.getElem?_eq_getElem haxis]
    rfl
  let w : Window :=
    { size := source.getD dim.toNat 0, size' := target.getD dim.toNat 0, stride := stride source dim.toNat,
      start := start, width := width, target := first, start_le := by omega, target_le := by omega }
  have hcoordinate : ∀ n : Nat, (n : Int) / (numel (source.drop (dim.toNat + 1)) : Int) % (source.getD dim.toNat 0 : Int) =
      (w.coordinate n : Int) := by
    intro n
    unfold Window.coordinate
    push_cast
    rfl
  have hselects : ∀ n : Nat, decide ((start : Int) ≤ (w.coordinate n : Int) ∧ (w.coordinate n : Int) < start + width) =
      decide (w.Selects n) := by
    intro n
    refine decide_eq_decide.2 ?_
    show _ ↔ start ≤ w.coordinate n ∧ w.coordinate n < start + width
    omega
  have hidx := map_toNat_of_valid hvalid
  cases hresult
  refine ⟨w, ⟨⟨haxis, hsize, rfl⟩, eq_set_of_zipIdx (by omega) hshape haxis, ?_, ?_⟩, rfl, rfl, rfl⟩
  · generalize indices.map Int.toNat = ns at hidx ⊢
    subst hidx
    simp only [List.map_map, Function.comp_def, hcoordinate, hselects]
  · generalize indices.map Int.toNat = ns at hidx ⊢
    subst hidx
    simp only [List.map_map, Function.comp_def, hcoordinate, hselects]
    rw [zip_map_filter, List.map_map]
    refine List.map_congr_left fun n hn => ?_
    obtain ⟨hlo, -⟩ : start ≤ w.coordinate n ∧ _ := of_decide_eq_true (List.mem_filter.1 hn).2
    have hsub : ((w.coordinate n - w.start : Nat) : Int) = (w.coordinate n : Int) - (start : Int) := by
      show ((w.coordinate n - start : Nat) : Int) = _
      omega
    unfold Window.move relocate
    push_cast [hsub]
    rfl

section Projected

variable {w : Window} {axis : Nat} {result : List Int × List Bool}

/-- **The local indices** are strictly increasing and inside the local shard. -/
theorem Projected.valid (h : Projected w axis source target indices result)
    (hvalid : ValidIndices indices (numel source)) : ValidIndices result.1 (numel target) := by
  rw [h.indices, h.target_eq]
  have hmem : ∀ n ∈ (indices.map Int.toNat).filter (fun n => w.Selects n), n < numel source ∧ w.Selects n := by
    intro n hn
    obtain ⟨hn, hsel⟩ := List.mem_filter.1 hn
    exact ⟨hvalid.toNat_lt hn, of_decide_eq_true hsel⟩
  constructor
  · rw [List.pairwise_map]
    refine (hvalid.toNat_increasing.filter _).imp_of_mem fun {a b} ha hb hlt => ?_
    obtain ⟨hstride, hsize⟩ := h.along.pos (inBounds_unravel (hmem a ha).1)
    have := Window.move_lt hstride hsize (hmem a ha).2 (hmem b hb).2 hlt
    omega
  · intro i hi
    rw [List.mem_map] at hi
    obtain ⟨n, hn, rfl⟩ := hi
    have := h.along.move_lt_numel (hmem n hn).1 (hmem n hn).2
    omega

theorem Projected.pairs (h : Projected w axis source target indices result) {β : Type} (values : List β) :
    (result.1.map Int.toNat).zip (applyMask values result.2) =
      movePairs w ((indices.map Int.toNat).zip values) := by
  rw [h.indices, h.mask, List.map_map]
  unfold applyMask movePairs
  induction indices.map Int.toNat generalizing values with
  | nil => simp
  | cons n ns ih =>
      cases values with
      | nil => simp
      | cons v values =>
          rw [List.map_cons, List.zip_cons_cons, List.zip_cons_cons]
          by_cases hn : w.Selects n
          · rw [List.filter_cons_of_pos (by simpa using hn), List.filter_cons_of_pos (by simpa using hn),
              List.filter_cons_of_pos (by simpa using hn), List.map_cons, List.map_cons, List.map_cons,
              List.zip_cons_cons, ih]
            rfl
          · rw [List.filter_cons_of_neg (by simpa using hn), List.filter_cons_of_neg (by simpa using hn),
              List.filter_cons_of_neg (by simpa using hn), ih]

theorem Projected.length_eq (h : Projected w axis source target indices result) {β : Type} {values : List β}
    (hlen : indices.length = values.length) : result.1.length = (applyMask values result.2).length := by
  rw [h.indices, h.mask]
  unfold applyMask
  rw [List.length_map, List.length_map]
  rw [← List.length_map (f := Int.toNat)] at hlen
  generalize indices.map Int.toNat = ns at hlen ⊢
  induction ns generalizing values with
  | nil => simp
  | cons n ns ih =>
      cases values with
      | nil => cases hlen
      | cons v values =>
          have htail := ih (Nat.succ.inj hlen)
          rw [List.map_cons, List.zip_cons_cons]
          by_cases hn : w.Selects n
          · rw [List.filter_cons_of_pos (by simpa using hn), List.filter_cons_of_pos (by simpa using hn),
              List.length_cons, List.length_cons, htail]
          · rw [List.filter_cons_of_neg (by simpa using hn), List.filter_cons_of_neg (by simpa using hn), htail]

end Projected

/-! ## Stacks of pieces -/

section Stack

variable {κ α : Type} [DecidableEq κ] {dim : Nat} {logical : κ → List Nat → α} {padding : List Nat → α} {cs : List Nat}

def totalSize : List (Piece κ) → Nat
  | [] => 0
  | p :: pieces => p.size + totalSize pieces

omit [DecidableEq κ] in
theorem stackElem_cons (p : Piece κ) (pieces : List (Piece κ)) (c : Nat) :
    stackElem dim logical padding cs (p :: pieces) c =
      if c < p.size then logical p.source (cs.set dim (p.start + c))
      else stackElem dim logical padding cs pieces (c - p.size) := rfl

omit [DecidableEq κ] in
theorem stackElem_inside {before after : List (Piece κ)} {p : Piece κ} {c : Nat} (hlo : totalSize before ≤ c)
    (hhi : c < totalSize before + p.size) :
    stackElem dim logical padding cs (before ++ p :: after) c =
      logical p.source (cs.set dim (p.start + (c - totalSize before))) := by
  induction before generalizing c with
  | nil =>
      rw [List.nil_append, stackElem_cons, if_pos (by simpa [totalSize] using hhi)]
      rfl
  | cons q before ih =>
      unfold totalSize at hlo hhi ⊢
      rw [List.cons_append, stackElem_cons, if_neg (by omega), ih (by omega) (by omega), Nat.sub_sub]

theorem stackElem_congr {pieces : List (Piece κ)} {key : κ} {f : List Nat → α} {c : Nat}
    (h : ∀ q ∈ pieces, q.source ≠ key) :
    stackElem dim (Function.update logical key f) padding cs pieces c = stackElem dim logical padding cs pieces c := by
  induction pieces generalizing c with
  | nil => rfl
  | cons q pieces ih =>
      unfold stackElem
      rw [ih fun r hr => h r (List.mem_cons_of_mem q hr), Function.update_of_ne (h q List.mem_cons_self)]

theorem stackElem_outside {before after : List (Piece κ)} {p : Piece κ} {f : List Nat → α} {c : Nat}
    (hout : c < totalSize before ∨ totalSize before + p.size ≤ c) (h : ∀ q ∈ before ++ after, q.source ≠ p.source) :
    stackElem dim (Function.update logical p.source f) padding cs (before ++ p :: after) c =
      stackElem dim logical padding cs (before ++ p :: after) c := by
  induction before generalizing c with
  | nil =>
      have hc : ¬ c < p.size := by
        unfold totalSize at hout
        omega
      rw [List.nil_append] at h ⊢
      rw [stackElem_cons, stackElem_cons, if_neg hc, if_neg hc, stackElem_congr h]
  | cons q before ih =>
      unfold totalSize at hout
      rw [List.cons_append, stackElem_cons, stackElem_cons]
      split
      · rw [Function.update_of_ne (h q List.mem_cons_self)]
      · exact ih (by omega) fun r hr => h r (List.mem_cons_of_mem q hr)

end Stack

section Update

variable [FloatOps] {κ : Type} [DecidableEq κ] {d d' : DType} {w : Window} {shape : List Nat} {axis : Nat}

/-- The elements of a tensor after the updates `pairs` of its flat data. -/
def updated (shape : List Nat) (pairs : List (Nat × Elem d')) (f : List Nat → Elem d) (cs : List Nat) : Elem d :=
  updateElem pairs (ravel shape cs) (f cs)

/-- Updating one of the stacked tensors through its window updates that tensor. -/
theorem shard_updated (hw : w.Along shape axis) {before after : List (Piece κ)} {p : Piece κ}
    (hstart : w.start = p.start) (hwidth : w.width = p.size) (htarget : w.target = totalSize before)
    (hne : ∀ q ∈ before ++ after, q.source ≠ p.source) {pairs : List (Nat × Elem d')}
    (hpairs : ∀ e ∈ pairs, e.1 < numel shape) (logical : κ → List Nat → Elem d) (padding : List Nat → Elem d)
    {cs : List Nat} (hcs : InBounds (shape.set axis w.size') cs) :
    updated (shape.set axis w.size') (movePairs w pairs)
        ((ShardLayout.stacked axis (before ++ p :: after)).shard logical padding) cs =
      (ShardLayout.stacked axis (before ++ p :: after)).shard
        (Function.update logical p.source (updated shape pairs (logical p.source))) padding cs := by
  obtain ⟨c, hc, -⟩ := hcs.getElem?_lt (d := w.size') (by
    rw [List.getElem?_set_self', hw.size_eq]
    rfl)
  have hgetD : cs.getD axis 0 = c := by rw [List.getD_eq_getElem?_getD, hc]; rfl
  unfold updated ShardLayout.shard updateElem
  dsimp only
  rw [hgetD]
  by_cases hin : w.target ≤ c ∧ c < w.target + w.width
  · obtain ⟨hlo, hhi⟩ := hin
    rw [lookup_inside hw hcs hc hlo hhi, stackElem_inside (by omega) (by omega), stackElem_inside (by omega) (by omega),
      Function.update_self, hstart, htarget]
  · rw [lookup_outside hw hcs hc (by omega) hpairs, stackElem_outside (by omega) hne]

end Update

/-! ## Every layout -/

/-- The window cuts the piece of `key` out of its tensor, to its place in the stack. -/
def Cuts {κ : Type} (w : Window) (axis : Nat) (layout : ShardLayout κ) (key : κ) : Prop :=
  ∃ before p after, layout = .stacked axis (before ++ p :: after) ∧ p.source = key ∧ w.start = p.start ∧
    w.width = p.size ∧ w.target = totalSize before ∧ ∀ q ∈ before ++ after, q.source ≠ key

theorem require_ok {α : Type} {module : Module} {name : String} {value : Option α} {a : α}
    (h : module.require name value = .ok a) : value = some a := by
  unfold Module.require at h
  split at h
  · cases h
    rfl
  · cases h

theorem tensorParallelPosition_ok {module : Module} {position : Int × Int}
    (h : tensorParallelPosition module = .ok position) :
    position.1 = ((module.tpRank.getD 0).toNat : Int) ∧ position.2 = ((module.tpSize.getD 1).toNat : Int) ∧
      0 < (module.tpSize.getD 1).toNat := by
  unfold tensorParallelPosition at h
  simp only [bind_eq_ok, raiseIf_eq_ok, exists_const] at h
  obtain ⟨hpos, hres⟩ := h
  cases hres
  omega

theorem tupleItem_ok {t : List Nat} {i : Int} {n : Nat} (h : tupleItem t i = .ok n) :
    t.getD (dimension (some i) t.length) 0 = n := by
  unfold tupleItem at h
  unfold dimension
  dsimp only at h ⊢
  generalize (if i < 0 then i + ↑t.length else i) = j at h ⊢
  split at h
  · rename_i d hd
    cases h
    split at hd
    · rw [List.getD_eq_getElem?_getD, hd]
      rfl
    · cases hd
  · cases h

variable {update : LogicalSparseUpdate} {param : Parameter} {module : Module} {result : List Int × List Bool}

/-- What every sharded layout's projection comes to. -/
def ProjectsWindow (mapping : LayoutMapping) (update : LogicalSparseUpdate) (param : Parameter) (module : Module)
    (result : List Int × List Bool) : Prop :=
  ∃ w axis, Projected w axis update.shape param.tensor.shape update.indices.data result ∧
    Cuts w axis (shardLayout mapping update.shape param module) mapping.shardId

theorem projectRegular_ok {name : String} {attr : Option Int}
    (hvalid : ValidIndices update.indices.data (numel update.shape))
    (h : projectRegular update param module name attr = .ok result) :
    ∃ w : Window, Projected w (dimension attr update.shape.length) update.shape param.tensor.shape
        update.indices.data result ∧ w.target = 0 ∧
      w.start = (module.tpRank.getD 0).toNat *
        (update.shape.getD (dimension attr update.shape.length) 0 / (module.tpSize.getD 1).toNat) ∧
      w.width = update.shape.getD (dimension attr update.shape.length) 0 / (module.tpSize.getD 1).toNat := by
  unfold projectRegular at h
  cases attr with
  | none => cases h
  | some dim =>
      simp only [bind_eq_ok, raiseIf_eq_ok, exists_const] at h
      obtain ⟨⟨tpRank, tpSize⟩, hpos, size, hsize, -, hproject⟩ := h
      obtain ⟨hrank, htp, -⟩ := tensorParallelPosition_ok hpos
      dsimp only at hrank htp hproject
      subst hrank htp
      rw [tupleItem_ok hsize]
      obtain ⟨w, hprojected, hstart, hwidth, htarget⟩ := projectDimension_ok hvalid hproject
      refine ⟨w, hprojected, by omega, ?_, ?_⟩
      · have := hstart.symm
        exact_mod_cast this
      · have := hwidth.symm
        exact_mod_cast this

theorem cuts_single {κ : Type} {w : Window} {axis : Nat} {p : Piece κ} (hstart : w.start = p.start)
    (hwidth : w.width = p.size) (htarget : w.target = 0) : Cuts w axis (.stacked axis [p]) p.source :=
  ⟨[], p, [], rfl, rfl, hstart, hwidth, htarget, nofun⟩

theorem projectVocab_ok {mapping : LayoutMapping} (hkind : mapping.kind = .vocab)
    (hvalid : ValidIndices update.indices.data (numel update.shape))
    (h : projectVocab update param module = .ok result) : ProjectsWindow mapping update param module result := by
  unfold projectVocab at h
  cases hrange : module.shardIndices with
  | none =>
      rw [hrange] at h
      cases h
  | some range =>
      obtain ⟨start, stop⟩ := range
      rw [hrange] at h
      obtain ⟨w, hprojected, hstart, hwidth, htarget⟩ := projectDimension_ok hvalid h
      refine ⟨w, 0, hprojected, ?_⟩
      unfold shardLayout
      rw [hkind, hrange]
      refine cuts_single ?_ ?_ (by omega)
      · show w.start = start.toNat
        omega
      · show w.width = (stop - start).toNat
        omega

theorem totalSize_mapIdx_take {κ : Type} (f : Nat → κ) (rank size : Nat) (sizes : List Nat) (n : Nat) :
    totalSize ((sizes.mapIdx fun j m => equalPart (f j) rank size m).take n) =
      projectMergedColumn.total ((sizes.map fun m => m / size).take n) := by
  induction sizes generalizing f n with
  | nil => simp [totalSize, projectMergedColumn.total]
  | cons m sizes ih =>
      cases n with
      | zero => rfl
      | succ n =>
          rw [List.mapIdx_cons, List.map_cons, List.take_succ_cons, List.take_succ_cons]
          exact congrArg (m / size + ·) (ih (fun j => f (j + 1)) n)

/-- The pieces of a merged parameter are told apart by their position. -/
theorem cuts_mapIdx {w : Window} {axis rank size n outputSize : Nat} {sizes : List Nat} (hn : sizes[n]? = some outputSize)
    (hstart : w.start = rank * (outputSize / size)) (hwidth : w.width = outputSize / size)
    (htarget : w.target = projectMergedColumn.total ((sizes.map fun m => m / size).take n)) :
    Cuts w axis (.stacked axis (sizes.mapIdx fun j m => equalPart (some (ShardId.part j)) rank size m))
      (some (.part n)) := by
  have hsource : ∀ (j : Nat) (q : Piece (Option ShardId)),
      (sizes.mapIdx fun j m => equalPart (some (ShardId.part j)) rank size m)[j]? = some q →
      q.source = some (.part j) := by
    intro j q hq
    rw [List.getElem?_mapIdx, Option.map_eq_some_iff] at hq
    obtain ⟨m, -, rfl⟩ := hq
    rfl
  have hget : (sizes.mapIdx fun j m => equalPart (some (ShardId.part j)) rank size m)[n]? =
      some (equalPart (some (.part n)) rank size outputSize) := by
    rw [List.getElem?_mapIdx, hn]
    rfl
  rw [← totalSize_mapIdx_take (fun j => some (ShardId.part j)) rank] at htarget
  generalize (sizes.mapIdx fun j m => equalPart (some (ShardId.part j)) rank size m) = pieces at hsource hget htarget ⊢
  obtain ⟨hlt, hpiece⟩ := List.getElem?_eq_some_iff.1 hget
  refine ⟨pieces.take n, equalPart (some (.part n)) rank size outputSize, pieces.drop (n + 1), ?_, rfl, hstart,
    hwidth, htarget, fun q hq heq => ?_⟩
  · rw [← hpiece, ← List.drop_eq_getElem_cons hlt, List.take_append_drop]
  · rcases List.mem_append.1 hq with hq | hq
    · obtain ⟨j, hj, rfl⟩ := List.mem_take_iff_getElem.1 hq
      have := hsource j _ (List.getElem?_eq_getElem (by omega))
      rw [heq, Option.some.injEq, ShardId.part.injEq] at this
      omega
    · obtain ⟨j, hj, rfl⟩ := List.mem_drop_iff_getElem.1 hq
      have := hsource (n + 1 + j) _ (List.getElem?_eq_getElem (by omega))
      rw [heq, Option.some.injEq, ShardId.part.injEq] at this
      omega

theorem projectMergedColumn_ok {mapping : LayoutMapping} {n : Nat} (hkind : mapping.kind = .mergedColumn)
    (hid : mapping.shardId = some (.part n)) (hvalid : ValidIndices update.indices.data (numel update.shape))
    (h : projectMergedColumn update param module n = .ok result) :
    ProjectsWindow mapping update param module result := by
  unfold projectMergedColumn at h
  obtain ⟨outputSizes, hsizes, h⟩ := bind_eq_ok.1 h
  have hsizes := require_ok hsizes
  cases hn : outputSizes[n]? with
  | none =>
      rw [hn] at h
      cases h
  | some outputSize =>
      rw [hn] at h
      simp only [bind_eq_ok, raiseIf_eq_ok, exists_const] at h
      obtain ⟨_, _, -, ⟨tpRank, tpSize⟩, hpos, -, hproject⟩ := h
      obtain ⟨hrank, htp, -⟩ := tensorParallelPosition_ok hpos
      dsimp only at hrank htp hproject
      subst hrank htp
      obtain ⟨w, hprojected, hstart, hwidth, htarget⟩ := projectDimension_ok hvalid hproject
      refine ⟨w, 0, hprojected, ?_⟩
      unfold shardLayout
      rw [hkind, hid, hsizes]
      have hlocal : (outputSizes.map fun m => m / (module.tpSize.getD 1).toNat).getD n 0 =
          outputSize / (module.tpSize.getD 1).toNat := by
        rw [List.getD_eq_getElem?_getD, List.getElem?_map, hn]
        rfl
      rw [Int.toNat_natCast, hlocal] at hstart hwidth
      rw [Int.toNat_natCast] at htarget
      exact cuts_mapIdx hn (by exact_mod_cast hstart.symm) (by exact_mod_cast hwidth.symm)
        (by exact_mod_cast htarget.symm)

theorem sourceRank_ok {shardId : ShardId} {tpRank : Nat} {rank : Int} (hne : shardId ≠ .q)
    (h : sourceRank module tpRank (some shardId) = .ok rank) :
    rank = (tpRank / module.numKvHeadReplicas.getD 1 : Nat) := by
  unfold sourceRank at h
  split at h
  · rename_i heq
    exact absurd (Option.some.inj heq) hne
  · dsimp only at h
    split at h
    · cases h
    · cases h
      push_cast
      rfl

theorem projectQkv_ok {mapping : LayoutMapping} (hkind : mapping.kind = .qkv)
    (hvalid : ValidIndices update.indices.data (numel update.shape))
    (h : projectQkv update param module mapping.shardId = .ok result) :
    ProjectsWindow mapping update param module result := by
  unfold projectQkv at h
  simp only [bind_eq_ok, raiseIf_eq_ok, exists_const] at h
  obtain ⟨_, -, locals, hlocals, _, -, _, -, -, ⟨tpRank, tpSize⟩, hpos, rank, hrank, localSize, hsize, targetStart,
    htarget, hproject⟩ := h
  obtain ⟨htp, -, -⟩ := tensorParallelPosition_ok hpos
  dsimp only at htp hrank
  subst htp
  unfold localSizes at hlocals
  simp only [bind_eq_ok] at hlocals
  obtain ⟨headSize, hhead, numHeads, hheads, numKvHeads, hkv, hres⟩ := hlocals
  cases hres
  obtain ⟨w, hprojected, hstart, hwidth, htarget'⟩ := projectDimension_ok hvalid hproject
  refine ⟨w, 0, hprojected, ?_⟩
  unfold shardLayout
  rw [hkind, require_ok hhead, require_ok hheads, require_ok hkv]
  dsimp only [Option.getD_some]
  cases hid : mapping.shardId with
  | none =>
      rw [hid] at hsize
      cases hsize
  | some id =>
      rw [hid] at hsize htarget hrank
      cases id with
      | q =>
          cases hrank
          cases hsize
          cases htarget
          refine ⟨[], _, _, rfl, rfl, by exact_mod_cast hstart.symm, by exact_mod_cast hwidth.symm,
            by exact_mod_cast htarget'.symm, ?_⟩
          simp
      | k =>
          have hrank := sourceRank_ok (by decide) hrank
          subst hrank
          cases hsize
          cases htarget
          refine ⟨[_], _, _, rfl, rfl, by exact_mod_cast hstart.symm, by exact_mod_cast hwidth.symm,
            by exact_mod_cast htarget'.symm, ?_⟩
          simp
      | v =>
          have hrank := sourceRank_ok (by decide) hrank
          subst hrank
          cases hsize
          cases htarget
          refine ⟨[_, _], _, _, rfl, rfl, by exact_mod_cast hstart.symm, by exact_mod_cast hwidth.symm,
            by exact_mod_cast htarget'.symm, ?_⟩
          simp
      | part n => cases hsize

/-! ## The adapter -/

theorem validateUpdate_ok (h : validateUpdate update = .ok ()) :
    update.indices.data.length = update.values.data.length ∧
      ValidIndices update.indices.data (numel update.shape) := by
  unfold validateUpdate at h
  simp only [bind_eq_ok, raiseIf_eq_ok, exists_const] at h
  obtain ⟨-, hlen, hinc, hends⟩ := h
  refine ⟨by omega, validIndices_of_ends ?_ (fun i hi => ?_) fun i hi => ?_⟩
  · by_cases hlong : 1 < update.indices.data.length
    · exact strictlyIncreasing_iff.1 (by simpa [hlong] using hinc)
    · match hdata : update.indices.data with
      | [] => exact .nil
      | [a] => exact List.pairwise_singleton ..
      | a :: b :: l =>
          rw [hdata] at hlong
          exact absurd (by simp) hlong
  · rw [hi] at hends
    simp only [Option.any_some, decide_eq_true_eq] at hends
    omega
  · rw [hi] at hends
    simp only [Option.any_some, decide_eq_true_eq] at hends
    omega

theorem project_ok {mapping : LayoutMapping} (hvalid : ValidIndices update.indices.data (numel update.shape))
    (h : project mapping update param module = .ok result) :
    ProjectsWindow mapping update param module result ∨
      (param.tensor.shape = update.shape ∧ shardLayout mapping update.shape param module = .replicated mapping.shardId ∧
        result = (update.indices.data, update.indices.data.map fun _ => true)) := by
  unfold project at h
  split at h
  · rename_i hkind
    exact Or.inl (projectQkv_ok hkind hvalid h)
  · rename_i hkind
    left
    split at h
    · rename_i n hid
      exact projectMergedColumn_ok hkind hid hvalid h
    · cases h
    · cases h
  · rename_i hkind
    left
    obtain ⟨w, hprojected, htarget, hstart, hwidth⟩ := projectRegular_ok hvalid h
    refine ⟨w, _, hprojected, ?_⟩
    unfold shardLayout
    rw [hkind]
    exact cuts_single hstart hwidth htarget
  · rename_i hkind
    left
    obtain ⟨w, hprojected, htarget, hstart, hwidth⟩ := projectRegular_ok hvalid h
    refine ⟨w, _, hprojected, ?_⟩
    unfold shardLayout
    rw [hkind]
    exact cuts_single hstart hwidth htarget
  · rename_i hkind
    exact Or.inl (projectVocab_ok hkind hvalid h)
  · rename_i hkind
    right
    split at h
    · cases h
    · rename_i hshape
      cases h
      refine ⟨not_not.1 hshape, ?_, rfl⟩
      unfold shardLayout
      rw [hkind]
  · cases h

theorem ofFn_congr {shape : List Nat} {d : DType} {f g : List Nat → Elem d}
    (h : ∀ cs, InBounds shape cs → f cs = g cs) : Tensor.ofFn shape d f = Tensor.ofFn shape d g := by
  unfold Tensor.ofFn
  congr 1
  refine List.map_congr_left fun i hi => ?_
  exact h _ (inBounds_unravel (List.mem_range.1 hi))

theorem sparseUpdate_ofFn [FloatOps] (shape : List Nat) (d : DType) (f : List Nat → Elem d) (indices : List Nat)
    (values : Flat) : sparseUpdate (Tensor.ofFn shape d f) indices values =
      Tensor.ofFn shape d (updated shape (indices.zip values.data) f) := by
  unfold sparseUpdate Tensor.ofFn Tensor.withData updated
  congr 1
  refine List.ext_getElem? fun j => ?_
  rw [List.getElem?_mapIdx, List.getElem?_map, List.getElem?_map]
  by_cases hj : j < numel shape
  · rw [List.getElem?_range hj, Option.map_some, Option.map_some, Option.map_some, ravel_unravel hj]
  · rw [List.getElem?_eq_none (by rw [List.length_range]; omega)]
    rfl

section Commutes

variable [FloatOps]

/-- A contiguous parameter that holds `t`. -/
def holding (t : Tensor) : Parameter := ⟨t, true, none, none, none, false⟩

theorem applyDecoded_ofFn {shape : List Nat} {d : DType} (f : List Nat → Elem d) (name : String) {indices : List Int}
    {values : Flat} (scaleFactor : Option (Elem .float64)) (hlen : indices.length = values.data.length)
    (hvalid : ValidIndices indices (numel shape)) :
    ∃ full, applyDecodedSparseDeltaTensor (holding (Tensor.ofFn shape d f)) name indices values scaleFactor =
      .ok (Tensor.ofFn shape d
        (updated shape ((indices.map Int.toNat).zip (scaleValues scaleFactor values).data) f), full) := by
  have hnumel : (Tensor.ofFn shape d f).data.length = numel shape := (Tensor.ofFn shape d f).length_data
  rw [← hnumel] at hvalid
  rw [← sparseUpdate_ofFn]
  exact applyDecoded_ok rfl hlen hvalid

omit [FloatOps] in
theorem applyMask_map {β γ : Type} (f : β → γ) (values : List β) (mask : List Bool) :
    applyMask (values.map f) mask = (applyMask values mask).map f := by
  unfold applyMask
  induction values generalizing mask with
  | nil => rfl
  | cons v values ih =>
      cases mask with
      | nil => rfl
      | cons b mask =>
          cases b with
          | true => exact congrArg (f v :: ·) (ih mask)
          | false => exact ih mask

omit [FloatOps] in
theorem selectMask_true {values : Flat} {indices : List Int} (hlen : indices.length = values.data.length) :
    selectMask values (indices.map fun _ => true) = values := by
  obtain ⟨d, data⟩ := values
  have hdata : applyMask data (indices.map fun _ => true) = data := by
    unfold applyMask
    rw [List.filter_eq_self.2, List.map_fst_zip (by rw [List.length_map]; exact hlen.ge)]
    intro e he
    obtain ⟨-, hmask⟩ := List.of_mem_zip he
    rw [List.mem_map] at hmask
    obtain ⟨_, -, htrue⟩ := hmask
    exact htrue.symm
  unfold selectMask
  rw [hdata]

theorem scaleValues_selectMask (scaleFactor : Option (Elem .float64)) (values : Flat) (mask : List Bool) :
    scaleValues scaleFactor (selectMask values mask) = selectMask (scaleValues scaleFactor values) mask := by
  cases scaleFactor with
  | none => rfl
  | some s =>
      unfold scaleValues selectMask
      rw [applyMask_map]

/-- **Tensor-parallel commutation.** When the adapter accepts an update, its local indices are strictly increasing
and inside the parameter, and the update of the rank's shard of any tensors is the shard of the tensors after the
update of the one it names. -/
theorem toLocal_commutes {adapter : Adapter} {update : LogicalSparseUpdate} {localUpdate : LocalSparseUpdate}
    (h : adapter.toLocal update = .ok localUpdate) :
    ∃ mapping param module, adapter.resolve update.name = .ok (mapping, param, module) ∧
      localUpdate.name = mapping.targetName ∧ ValidIndices localUpdate.indices (numel param.tensor.shape) ∧
      ∀ (d : DType) (logical : Option ShardId → List Nat → Elem d) (padding : List Nat → Elem d)
        (scaleFactor : Option (Elem .float64)), ∃ target full localFull,
        applyDecodedSparseDeltaTensor (holding (Tensor.ofFn update.shape d (logical mapping.shardId))) update.name
            update.indices.data update.values scaleFactor = .ok (Tensor.ofFn update.shape d target, full) ∧
          applyDecodedSparseDeltaTensor
              (holding (Tensor.ofFn param.tensor.shape d
                ((shardLayout mapping update.shape param module).shard logical padding)))
              localUpdate.name localUpdate.indices localUpdate.values scaleFactor =
            .ok (Tensor.ofFn param.tensor.shape d ((shardLayout mapping update.shape param module).shard
              (Function.update logical mapping.shardId target) padding), localFull) := by
  unfold Adapter.toLocal at h
  simp only [bind_eq_ok] at h
  obtain ⟨⟨mapping, param, module⟩, hresolve, _, -, _, hvalidate, ⟨indices, mask⟩, hproject, hres⟩ := h
  cases hres
  obtain ⟨hlen, hvalid⟩ := validateUpdate_ok hvalidate
  refine ⟨mapping, param, module, hresolve, rfl, ?_⟩
  rcases project_ok hvalid hproject with ⟨w, axis, hprojected, hcuts⟩ | ⟨hshape, hlayout, hresult⟩
  · refine ⟨hprojected.valid hvalid, fun d logical padding scaleFactor => ?_⟩
    obtain ⟨before, p, after, hlayout, hkey, hstart, hwidth, htarget, hne⟩ := hcuts
    have hlocalLen : indices.length = (selectMask update.values mask).data.length := hprojected.length_eq hlen
    obtain ⟨full, hfull⟩ := applyDecoded_ofFn (logical mapping.shardId) update.name scaleFactor hlen hvalid
    obtain ⟨localFull, hlocal⟩ := applyDecoded_ofFn ((shardLayout mapping update.shape param module).shard logical padding)
      mapping.targetName scaleFactor hlocalLen (hprojected.valid hvalid)
    refine ⟨_, full, localFull, hfull, hlocal.trans ?_⟩
    have hpairs : ∀ e ∈ (update.indices.data.map Int.toNat).zip (scaleValues scaleFactor update.values).data,
        e.1 < numel update.shape := fun e he => hvalid.toNat_lt (List.of_mem_zip he).1
    rw [scaleValues_selectMask, hlayout, hprojected.target_eq]
    have hmoved : (indices.map Int.toNat).zip (selectMask (scaleValues scaleFactor update.values) mask).data =
        movePairs w ((update.indices.data.map Int.toNat).zip (scaleValues scaleFactor update.values).data) :=
      hprojected.pairs _
    rw [hmoved, ← hkey]
    rw [← hkey] at hne
    refine congrArg (fun t => Except.ok (t, localFull)) (ofFn_congr fun cs hcs => ?_)
    exact shard_updated hprojected.along hstart hwidth htarget hne hpairs logical padding hcs
  · cases hresult
    rw [selectMask_true hlen]
    refine ⟨hshape ▸ hvalid, fun d logical padding scaleFactor => ?_⟩
    obtain ⟨full, hfull⟩ := applyDecoded_ofFn (logical mapping.shardId) update.name scaleFactor hlen hvalid
    obtain ⟨localFull, hlocal⟩ := applyDecoded_ofFn (logical mapping.shardId) mapping.targetName scaleFactor hlen hvalid
    refine ⟨_, full, localFull, hfull, ?_⟩
    rw [hlayout, hshape]
    have hshard : (ShardLayout.replicated mapping.shardId).shard
        (Function.update logical mapping.shardId (updated update.shape
          ((update.indices.data.map Int.toNat).zip (scaleValues scaleFactor update.values).data)
          (logical mapping.shardId))) padding = updated update.shape
          ((update.indices.data.map Int.toNat).zip (scaleValues scaleFactor update.values).data)
          (logical mapping.shardId) := by
      funext cs
      unfold ShardLayout.shard
      dsimp only
      rw [Function.update_self]
    rw [hshard]
    exact hlocal

end Commutes

/-! ### Replicated key heads -/

section Example

attribute [local instance] bitOps

/-- The fused parameter of the last of four ranks that share two key and value heads. -/
def gqaAdapter : Adapter where
  params := .ofList [("l.self_attn.qkv_proj.weight",
    ⟨.ofFn [6, 2] .int64 fun _ => 0, true, none, none, none, false⟩)]
  modules := .ofList [("l.self_attn.qkv_proj",
    { className := "QKVParallelLinear", hasQuantConfig := false, quantMethod := none, primeRlShardKind := none,
      shardIndices := none, hasNumEmbeddingsPerPartition := false, tpRank := some 3, tpSize := some 4,
      outputSizes := none, headSize := some 2, vHeadSize := none, totalNumHeads := some 4,
      totalNumKvHeads := some 2, numHeads := some 1, numKvHeads := some 1, numKvHeadReplicas := some 2 })]

def gqaUpdate : LogicalSparseUpdate :=
  ⟨"l.self_attn.k_proj.weight", [4, 2], ⟨.int64, [1, 5, 6]⟩, ⟨.int64, [10, 20, 30]⟩⟩

theorem toLocal_gqa : gqaAdapter.toLocal gqaUpdate =
    .ok ⟨"l.self_attn.qkv_proj.weight", [5, 6], ⟨.int64, [20, 30]⟩⟩ := rfl

theorem toLocal_commutes_gqa : ∃ mapping param module,
    gqaAdapter.resolve gqaUpdate.name = .ok (mapping, param, module) ∧
      ValidIndices [5, 6] (numel param.tensor.shape) := by
  obtain ⟨mapping, param, module, hresolve, -, hvalid, -⟩ := toLocal_commutes toLocal_gqa
  exact ⟨mapping, param, module, hresolve, hvalid⟩

end Example

end AuroraRl.Layout
