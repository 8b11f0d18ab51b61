import Mathlib.Order.Interval.Finset.Nat
import AuroraRl.Layout.Commutes

/-!
# Where the ranks of a group hold each element

* `Ranks` : what the inference engine promises of a parameter on the ranks of a tensor-parallel group;
* `Share` : the part of a dimension that a rank holds, on `copies` ranks (`card_holders`);
* `Projected.mem_iff` : the elements of the local shard that a projection reaches;
* `tensorParallelCoverage` : how many ranks hold an element, and which component a local element belongs to.
-/

namespace AuroraRl.Layout
open Python RowMajor Torch

/-! ## Equal parts -/

theorem filter_div_eq {size copies j : Nat} (hcopies : 0 < copies) (hj : (j + 1) * copies ≤ size) :
    (Finset.range size).filter (fun r => r / copies = j) = Finset.Ico (j * copies) ((j + 1) * copies) := by
  ext r
  simp only [Finset.mem_filter, Finset.mem_range, Finset.mem_Ico, Nat.div_eq_iff hcopies]
  rw [Nat.add_mul, Nat.one_mul] at *
  omega

/-- Each of `size / copies` parts is held by `copies` ranks. -/
theorem card_holders {size copies part c : Nat} (hcopies : 0 < copies) (hdvd : copies ∣ size)
    (hc : c < size / copies * part) :
    ((Finset.range size).filter fun r => r / copies * part ≤ c ∧ c < r / copies * part + part).card = copies := by
  have hpart : 0 < part := by
    rcases Nat.eq_zero_or_pos part with rfl | hpart
    · omega
    · exact hpart
  have hblock : ∀ r, (r / copies * part ≤ c ∧ c < r / copies * part + part) ↔ r / copies = c / part := by
    intro r
    rw [eq_comm, Nat.div_eq_iff hpart]
    omega
  have hj : (c / part + 1) * copies ≤ size := by
    have hlt : c / part < size / copies := Nat.div_lt_of_lt_mul (by rwa [Nat.mul_comm])
    calc (c / part + 1) * copies ≤ size / copies * copies := Nat.mul_le_mul_right copies hlt
      _ = size := Nat.div_mul_cancel hdvd
  simp only [hblock]
  rw [filter_div_eq hcopies hj, Nat.card_Ico, ← Nat.sub_mul, Nat.add_sub_cancel_left, Nat.one_mul]

/-- Parts of `rows` rows, cut off at `total`, hold each row below `total` once. -/
theorem card_cutParts {size rows total c : Nat} (htotal : total ≤ size * rows) :
    ((Finset.range size).filter fun r => min (r * rows) total ≤ c ∧ c < min ((r + 1) * rows) total).card =
      if c < total then 1 else 0 := by
  split
  · rename_i hc
    have hparts : ∀ r, (min (r * rows) total ≤ c ∧ c < min ((r + 1) * rows) total) ↔
        r / 1 * rows ≤ c ∧ c < r / 1 * rows + rows := by
      intro r
      rw [Nat.div_one, Nat.add_mul, Nat.one_mul]
      omega
    simp only [hparts]
    exact card_holders Nat.one_pos (Nat.one_dvd size) (by rw [Nat.div_one]; omega)
  · rw [Finset.card_eq_zero, Finset.filter_eq_empty_iff]
    intro r _
    omega

/-! ## The ranks of a group -/

/-- What the inference engine promises of one parameter on the `size` ranks of a group: the modules differ in the rank
and the vocabulary range only; the ranges are equal parts of the padded vocabulary; the query heads are divided among
the ranks, the key and value heads among the groups of `kvReplicas` ranks. -/
structure Ranks (size orgVocabSize kvReplicas : Nat) (param : Nat → Parameter) (module : Nat → Module) : Prop where
  tpRank : ∀ r < size, (module r).tpRank.getD 0 = r
  tpSize : ∀ r < size, (module r).tpSize.getD 1 = size
  alike : ∀ r < size, module r =
    { module 0 with tpRank := (module r).tpRank, shardIndices := (module r).shardIndices }
  dims : ∀ r < size, (param r).inputDim = (param 0).inputDim ∧ (param r).outputDim = (param 0).outputDim
  vocab : ∃ rows, orgVocabSize ≤ size * rows ∧ ∀ r < size, ∀ range, (module r).shardIndices = some range →
    range = (((min (r * rows) orgVocabSize : Nat) : Int), ((min ((r + 1) * rows) orgVocabSize : Nat) : Int))
  heads : (module 0).totalNumHeads = (module 0).numHeads.map (· * size)
  kvHeads : (module 0).totalNumKvHeads = (module 0).numKvHeads.map (· * (size / kvReplicas))
  replicas : (module 0).numKvHeadReplicas.getD 1 = kvReplicas
  dvd : kvReplicas ∣ size

/-- The number of ranks that hold an element of a parameter. -/
def copies (mapping : LayoutMapping) (size kvReplicas : Nat) : Nat :=
  match mapping.kind, mapping.shardId with
  | .replicated, _ => size
  | .qkv, some .k => kvReplicas
  | .qkv, some .v => kvReplicas
  | _, _ => 1

/-- The dimension along which a parameter is divided. -/
def shardAxis (kind : LayoutKind) (shape : List Nat) (param : Parameter) : Nat :=
  match kind with
  | .row => dimension param.inputDim shape.length
  | .column => dimension param.outputDim shape.length
  | _ => 0

/-- The window is the rank's part of its dimension, which `copies` ranks hold. -/
structure Share (w : Window) (rank size copies : Nat) : Prop where
  dvd : copies ∣ size
  size_dvd : size / copies ∣ w.size
  start_eq : w.start = rank / copies * (w.size / (size / copies))
  width_eq : w.width = w.size / (size / copies)

theorem Share.of_mul {w : Window} {rank size copies part : Nat} (hsize : 0 < size) (hdvd : copies ∣ size)
    (hpart : w.size = size / copies * part) (hstart : w.start = rank / copies * part) (hwidth : w.width = part) :
    Share w rank size copies := by
  have hpos : 0 < size / copies := Nat.div_pos (Nat.le_of_dvd hsize hdvd) (Nat.pos_of_dvd_of_pos hdvd hsize)
  have hdiv : w.size / (size / copies) = part := by rw [hpart, Nat.mul_div_cancel_left _ hpos]
  exact ⟨hdvd, ⟨part, hpart⟩, by rw [hdiv, hstart], by rw [hdiv, hwidth]⟩

section Rank

variable {size orgVocabSize kvReplicas r : Nat} {param : Nat → Parameter} {module : Nat → Module}
  {mapping : LayoutMapping} {update : LogicalSparseUpdate} {result : List Int × List Bool}

/-- The part of the checkpoint tensor that is cut out is one of the pieces of the layout. -/
theorem Cuts.exists_piece {κ : Type} {w : Window} {axis : Nat} {dim : Nat} {pieces : List (Piece κ)} {key : κ}
    (h : Cuts w axis (.stacked dim pieces) key) :
    axis = dim ∧ ∃ p ∈ pieces, p.source = key ∧ w.start = p.start ∧ w.width = p.size := by
  obtain ⟨before, p, after, hlayout, hkey, hstart, hwidth, -, -⟩ := h
  cases hlayout
  exact ⟨rfl, p, by simp, hkey, hstart, hwidth⟩

theorem projectRegular_dvd {module : Module} {param : Parameter} {name : String} {attr : Option Int}
    (h : projectRegular update param module name attr = .ok result) :
    (module.tpSize.getD 1).toNat ∣ update.shape.getD (dimension attr update.shape.length) 0 := by
  unfold projectRegular at h
  cases attr with
  | none => cases h
  | some dim =>
      simp only [bind_eq_ok, raiseIf_eq_ok, exists_const] at h
      obtain ⟨⟨tpRank, tpSize⟩, hpos, n, hn, hdvd, -⟩ := h
      obtain ⟨-, htp, -⟩ := tensorParallelPosition_ok hpos
      dsimp only at htp hdvd
      rw [tupleItem_ok hn]
      rw [not_not, htp] at hdvd
      exact Int.natCast_dvd_natCast.1 (Int.dvd_of_emod_eq_zero hdvd)

theorem share_regular (hranks : Ranks size orgVocabSize kvReplicas param module) (hr : r < size) {name : String}
    {attr : Option Int} (hvalid : ValidIndices update.indices.data (numel update.shape))
    (h : projectRegular update (param r) (module r) name attr = .ok result) :
    ∃ w, Projected w (dimension attr update.shape.length) update.shape (param r).tensor.shape update.indices.data
      result ∧ Share w r size 1 := by
  obtain ⟨w, hprojected, -, hstart, hwidth⟩ := projectRegular_ok hvalid h
  have hdvd := projectRegular_dvd h
  rw [hranks.tpSize r hr, Int.toNat_natCast] at hstart hwidth hdvd
  rw [hranks.tpRank r hr, Int.toNat_natCast] at hstart
  rw [hprojected.along.getD_eq] at hstart hwidth hdvd
  exact ⟨w, hprojected, Nat.one_dvd size, by rwa [Nat.div_one], by rwa [Nat.div_one, Nat.div_one],
    by rwa [Nat.div_one]⟩

theorem projectMergedColumn_size {module : Module} {param : Parameter} {n : Nat}
    (h : projectMergedColumn update param module n = .ok result) :
    ∃ sizes outputSize, module.outputSizes = some sizes ∧ sizes[n]? = some outputSize ∧
      update.shape.getD 0 0 = outputSize ∧ (module.tpSize.getD 1).toNat ∣ outputSize := by
  unfold projectMergedColumn at h
  obtain ⟨sizes, hsizes, h⟩ := bind_eq_ok.1 h
  cases hn : sizes[n]? with
  | none =>
      rw [hn] at h
      cases h
  | some outputSize =>
      rw [hn] at h
      simp only [bind_eq_ok, raiseIf_eq_ok, exists_const] at h
      obtain ⟨rows, hrows, hsame, ⟨tpRank, tpSize⟩, hpos, hdvd, -⟩ := h
      obtain ⟨-, htp, -⟩ := tensorParallelPosition_ok hpos
      dsimp only at htp hdvd
      refine ⟨sizes, outputSize, require_ok hsizes, hn, ?_, ?_⟩
      · rw [← not_not.1 hsame]
        exact tupleItem_ok hrows
      · by_contra hne
        refine hdvd (List.any_eq_true.2 ⟨outputSize, List.mem_of_getElem? hn, decide_eq_true fun hmod => hne ?_⟩)
        rw [htp] at hmod
        exact Int.natCast_dvd_natCast.1 (Int.dvd_of_emod_eq_zero hmod)

theorem share_mergedColumn (hranks : Ranks size orgVocabSize kvReplicas param module) (hr : r < size) {n : Nat}
    (hkind : mapping.kind = .mergedColumn) (hid : mapping.shardId = some (.part n))
    (hvalid : ValidIndices update.indices.data (numel update.shape))
    (h : projectMergedColumn update (param r) (module r) n = .ok result) :
    ∃ w, Projected w 0 update.shape (param r).tensor.shape update.indices.data result ∧ Share w r size 1 := by
  obtain ⟨sizes, outputSize, hsizes, hn, hrows, hdvd⟩ := projectMergedColumn_size h
  obtain ⟨w, axis, hprojected, hcuts⟩ := projectMergedColumn_ok hkind hid hvalid h
  unfold shardLayout at hcuts
  rw [hkind, hid, hsizes, hranks.tpRank r hr, hranks.tpSize r hr, Int.toNat_natCast, Int.toNat_natCast] at hcuts
  obtain ⟨rfl, p, hp, hsource, hstart, hwidth⟩ := hcuts.exists_piece
  obtain ⟨j, m, hj, rfl⟩ : ∃ j m, sizes[j]? = some m ∧ equalPart (some (ShardId.part j)) r size m = p := by
    rw [List.mem_iff_getElem?] at hp
    obtain ⟨j, hj⟩ := hp
    rw [Option.getD_some, List.getElem?_mapIdx, Option.map_eq_some_iff] at hj
    obtain ⟨m, hm, hp⟩ := hj
    exact ⟨j, m, hm, hp⟩
  obtain rfl : j = n := by simpa [equalPart] using hsource
  obtain rfl := Option.some.inj (hj.symm.trans hn)
  rw [hranks.tpSize r hr, Int.toNat_natCast] at hdvd
  rw [hprojected.along.getD_eq] at hrows
  refine ⟨w, hprojected, Nat.one_dvd size, ?_, ?_, ?_⟩
  · rwa [Nat.div_one, hrows]
  · rw [Nat.div_one, Nat.div_one, hrows]
    exact hstart
  · rw [Nat.div_one, hrows]
    exact hwidth

/-- The rows of the checkpoint tensor that the fused attention layout checked. -/
theorem projectQkv_size {module : Module} {param : Parameter} {shardId : Option ShardId}
    (h : projectQkv update param module shardId = .ok result) :
    ∃ globals, globalSizes module = .ok globals ∧ globals.item shardId = .ok (update.shape.getD 0 0) := by
  unfold projectQkv at h
  simp only [bind_eq_ok, raiseIf_eq_ok, exists_const] at h
  obtain ⟨globals, hglobals, _, -, rows, hrows, expected, hexpected, hsame, -⟩ := h
  have htuple : update.shape.getD 0 0 = rows := tupleItem_ok hrows
  exact ⟨globals, hglobals, by rw [htuple, not_not.1 hsame]; exact hexpected⟩

theorem share_qkv (hranks : Ranks size orgVocabSize kvReplicas param module) (hr : r < size)
    (hkind : mapping.kind = .qkv) (hvalid : ValidIndices update.indices.data (numel update.shape))
    (h : projectQkv update (param r) (module r) mapping.shardId = .ok result) :
    ∃ w, Projected w 0 update.shape (param r).tensor.shape update.indices.data result ∧
      Share w r size (copies mapping size kvReplicas) := by
  obtain ⟨globals, hglobals, hrows⟩ := projectQkv_size h
  obtain ⟨w, axis, hprojected, hcuts⟩ := projectQkv_ok hkind hvalid h
  have hsize : 0 < size := Nat.zero_lt_of_lt hr
  have halike := hranks.alike r hr
  unfold globalSizes at hglobals
  simp only [bind_eq_ok] at hglobals
  obtain ⟨headSize, hhead, totalHeads, htotal, totalKv, hkv, hres⟩ := hglobals
  cases hres
  have hhead := require_ok hhead
  have htotal : (module 0).totalNumHeads = some totalHeads := by
    have := require_ok htotal
    rwa [halike] at this
  have hkv : (module 0).totalNumKvHeads = some totalKv := by
    have := require_ok hkv
    rwa [halike] at this
  rw [hranks.heads, Option.map_eq_some_iff] at htotal
  obtain ⟨numHeads, hheads, rfl⟩ := htotal
  rw [hranks.kvHeads, Option.map_eq_some_iff] at hkv
  obtain ⟨numKvHeads, hkvHeads, rfl⟩ := hkv
  have hheads' : (module r).numHeads = some numHeads := by rwa [halike]
  have hkvHeads' : (module r).numKvHeads = some numKvHeads := by rwa [halike]
  have hreplicas : (module r).numKvHeadReplicas.getD 1 = kvReplicas := by
    rw [halike]
    exact hranks.replicas
  unfold shardLayout at hcuts
  rw [hkind, hranks.tpRank r hr, Int.toNat_natCast, hhead, hheads', hkvHeads', hreplicas] at hcuts
  obtain ⟨rfl, p, hp, hsource, hstart, hwidth⟩ := hcuts.exists_piece
  rw [hprojected.along.getD_eq] at hrows
  simp only [List.mem_cons, List.not_mem_nil, or_false, Option.getD_some] at hp
  refine ⟨w, hprojected, ?_⟩
  unfold copies
  rw [hkind, ← hsource]
  rw [← hsource] at hrows
  obtain rfl | rfl | rfl := hp
  · refine .of_mul hsize (Nat.one_dvd size) ?_ (by rw [Nat.div_one]; exact hstart) hwidth
    rw [Nat.div_one, Nat.mul_left_comm, ← Nat.mul_assoc]
    exact (Except.ok.inj hrows).symm
  · refine .of_mul hsize hranks.dvd ?_ hstart hwidth
    rw [Nat.mul_left_comm, ← Nat.mul_assoc]
    exact (Except.ok.inj hrows).symm
  · refine .of_mul hsize hranks.dvd ?_ hstart hwidth
    rw [Nat.mul_left_comm, ← Nat.mul_assoc]
    exact (Except.ok.inj hrows).symm

/-- **One rank.** What is projected is the rank's share, or its range of the vocabulary, or everything. -/
theorem project_cases (hranks : Ranks size orgVocabSize kvReplicas param module) (hr : r < size)
    (hvalid : ValidIndices update.indices.data (numel update.shape))
    (h : project mapping update (param r) (module r) = .ok result) :
    (mapping.kind ≠ .replicated ∧ mapping.kind ≠ .vocab ∧
      ∃ w, Projected w (shardAxis mapping.kind update.shape (param 0)) update.shape (param r).tensor.shape
        update.indices.data result ∧ Share w r size (copies mapping size kvReplicas)) ∨
    (mapping.kind = .vocab ∧ ∃ (w : Window) (range : Int × Int), (module r).shardIndices = some range ∧
      Projected w 0 update.shape (param r).tensor.shape update.indices.data result ∧ range.1 = w.start ∧
      range.2 = w.start + w.width) ∨
    (mapping.kind = .replicated ∧ result.2 = update.indices.data.map fun _ => true) := by
  unfold project at h
  split at h
  · rename_i hkind
    obtain ⟨w, hprojected, hshare⟩ := share_qkv hranks hr hkind hvalid h
    refine .inl ⟨by rw [hkind]; decide, by rw [hkind]; decide, w, ?_, hshare⟩
    rw [hkind]
    exact hprojected
  · rename_i hkind
    split at h
    · rename_i n hid
      obtain ⟨w, hprojected, hshare⟩ := share_mergedColumn hranks hr hkind hid hvalid h
      refine .inl ⟨by rw [hkind]; decide, by rw [hkind]; decide, w, ?_, ?_⟩
      · rw [hkind]
        exact hprojected
      · unfold copies
        rw [hkind]
        exact hshare
    · cases h
    · cases h
  · rename_i hkind
    rw [(hranks.dims r hr).1] at h
    obtain ⟨w, hprojected, hshare⟩ := share_regular hranks hr hvalid h
    refine .inl ⟨by rw [hkind]; decide, by rw [hkind]; decide, w, ?_, ?_⟩
    · rw [hkind]
      exact hprojected
    · unfold copies
      rw [hkind]
      exact hshare
  · rename_i hkind
    rw [(hranks.dims r hr).2] at h
    obtain ⟨w, hprojected, hshare⟩ := share_regular hranks hr hvalid h
    refine .inl ⟨by rw [hkind]; decide, by rw [hkind]; decide, w, ?_, ?_⟩
    · rw [hkind]
      exact hprojected
    · unfold copies
      rw [hkind]
      exact hshare
  · rename_i hkind
    unfold projectVocab at h
    cases hrange : (module r).shardIndices with
    | none =>
        rw [hrange] at h
        cases h
    | some range =>
        rw [hrange] at h
        obtain ⟨w, hprojected, hstart, hwidth, -⟩ := projectDimension_ok hvalid h
        exact .inr (.inl ⟨hkind, w, range, rfl, hprojected, hstart, by omega⟩)
  · rename_i hkind
    split at h
    · cases h
    · cases h
      exact .inr (.inr ⟨hkind, rfl⟩)
  · cases h

end Rank

/-! ## How many ranks hold an element -/

theorem Projected.mask_iff {w : Window} {axis : Nat} {source target : List Nat} {indices : List Int}
    {result : List Int × List Bool} (h : Projected w axis source target indices result) {p : Nat} {i : Int}
    (hp : indices[p]? = some i) : result.2[p]? = some true ↔ w.Selects i.toNat := by
  rw [h.mask, List.getElem?_map, List.getElem?_map, hp]
  simp

section Group

variable {size orgVocabSize kvReplicas : Nat} {param : Nat → Parameter} {module : Nat → Module}
  {mapping : LayoutMapping} {update : LogicalSparseUpdate} {results : Nat → List Int × List Bool}

/-- The number of ranks that an element of an accepted update is selected on. -/
theorem card_selected (hranks : Ranks size orgVocabSize kvReplicas param module) (hsize : 0 < size)
    (hvalid : ValidIndices update.indices.data (numel update.shape))
    (h : ∀ r < size, project mapping update (param r) (module r) = .ok (results r)) {p : Nat} {i : Int}
    (hp : update.indices.data[p]? = some i) :
    ((Finset.range size).filter fun r => (results r).2[p]? = some true).card =
      if mapping.kind = .vocab then if row update.shape i.toNat < orgVocabSize then 1 else 0
      else copies mapping size kvReplicas := by
  have hi := hvalid.range i (List.mem_of_getElem? hp)
  have hnumel : i.toNat < numel update.shape := by omega
  have hcases := fun r hr => project_cases hranks hr hvalid (h r hr)
  obtain ⟨hreplicated, hvocab, -⟩ | ⟨hkind, -⟩ | ⟨hkind, -⟩ := hcases 0 hsize
  · rw [if_neg hvocab]
    have hshare : ∀ r < size, ∃ w, Projected w (shardAxis mapping.kind update.shape (param 0)) update.shape
        (param r).tensor.shape update.indices.data (results r) ∧ Share w r size (copies mapping size kvReplicas) := by
      intro r hr
      obtain ⟨-, -, hw⟩ | ⟨hkind, -⟩ | ⟨hkind, -⟩ := hcases r hr
      · exact hw
      · exact absurd hkind hvocab
      · exact absurd hkind hreplicated
    generalize shardAxis mapping.kind update.shape (param 0) = axis at hshare
    generalize copies mapping size kvReplicas = n at hshare ⊢
    obtain ⟨w₀, hprojected₀, hshare₀⟩ := hshare 0 hsize
    have hn : 0 < n := Nat.pos_of_dvd_of_pos hshare₀.dvd hsize
    have hselected : ∀ r < size, (results r).2[p]? = some true ↔
        r / n * (w₀.size / (size / n)) ≤ w₀.coordinate i.toNat ∧
          w₀.coordinate i.toNat < r / n * (w₀.size / (size / n)) + w₀.size / (size / n) := by
      intro r hr
      obtain ⟨w, hprojected, hshare⟩ := hshare r hr
      have hsame : w.size = w₀.size := Option.some.inj (hprojected.along.size_eq.symm.trans hprojected₀.along.size_eq)
      have hstride : w.stride = w₀.stride := hprojected.along.stride_eq.trans hprojected₀.along.stride_eq.symm
      rw [hprojected.mask_iff hp]
      unfold Window.Selects Window.coordinate
      rw [hshare.start_eq, hshare.width_eq, hsame, hstride]
    have hc : w₀.coordinate i.toNat < w₀.size :=
      Nat.mod_lt _ (hprojected₀.along.pos (inBounds_unravel hnumel)).2
    rw [Finset.filter_congr fun r hr => hselected r (Finset.mem_range.1 hr)]
    exact card_holders hn hshare₀.dvd (by rwa [Nat.mul_div_cancel' hshare₀.size_dvd])
  · rw [if_pos hkind]
    obtain ⟨rows, htotal, hrange⟩ := hranks.vocab
    have hselected : ∀ r < size, (results r).2[p]? = some true ↔
        min (r * rows) orgVocabSize ≤ row update.shape i.toNat ∧
          row update.shape i.toNat < min ((r + 1) * rows) orgVocabSize := by
      intro r hr
      obtain ⟨-, hvocab, -⟩ | ⟨-, w, range, hrange', hprojected, hstart, hstop⟩ | ⟨hkind', -⟩ := hcases r hr
      · exact absurd hkind hvocab
      · obtain rfl := hrange r hr range hrange'
        dsimp only at hstart hstop
        rw [hprojected.mask_iff hp, ← hprojected.along.coordinate_eq_row hnumel]
        unfold Window.Selects
        omega
      · rw [hkind] at hkind'
        cases hkind'
    rw [Finset.filter_congr fun r hr => hselected r (Finset.mem_range.1 hr)]
    exact card_cutParts htotal
  · rw [hkind, if_neg (by decide)]
    have hselected : ∀ r < size, (results r).2[p]? = some true := by
      intro r hr
      obtain ⟨hreplicated, -⟩ | ⟨hkind', -⟩ | ⟨-, hmask⟩ := hcases r hr
      · exact absurd hkind hreplicated
      · rw [hkind] at hkind'
        cases hkind'
      · rw [hmask, List.getElem?_map, hp]
        rfl
    rw [Finset.filter_true_of_mem fun r hr => hselected r (Finset.mem_range.1 hr), Finset.card_range]
    unfold copies
    rw [hkind]

end Group

/-! ## The components of a fused parameter -/

def components (kind : LayoutKind) (module : Module) : List (Option ShardId) :=
  match kind with
  | .qkv => [some .q, some .k, some .v]
  | .mergedColumn => (List.range (module.outputSizes.getD []).length).map fun n => some (.part n)
  | _ => []

/-- The rows that the inference engine allocates for a fused parameter on a rank. -/
def fusedRows (kind : LayoutKind) (module : Module) : Nat :=
  match kind with
  | .qkv =>
    let headSize := module.headSize.getD 0
    let kvHeads := module.numKvHeads.getD 0
    module.numHeads.getD 0 * headSize + kvHeads * headSize + kvHeads * module.vHeadSize.getD headSize
  | .mergedColumn =>
    projectMergedColumn.total ((module.outputSizes.getD []).map fun n => n / (module.tpSize.getD 1).toNat)
  | _ => 0

section Reach

variable {w : Window} {axis : Nat} {source target : List Nat} {indices : List Int} {result : List Int × List Bool}

/-- When every element is updated, the projection reaches the window of the local shard. -/
theorem Projected.mem_iff (h : Projected w axis source target indices result)
    (hall : ∀ n < numel source, (n : Int) ∈ indices) (hvalid : ValidIndices indices (numel source)) {cs : List Nat}
    {c : Nat} (hcs : InBounds target cs) (hc : cs[axis]? = some c) :
    (ravel target cs : Int) ∈ result.1 ↔ w.target ≤ c ∧ c < w.target + w.width := by
  have htarget := h.target_eq
  subst htarget
  rw [h.indices, List.mem_map]
  constructor
  · intro hmem
    obtain ⟨n, hn, heq⟩ := hmem
    obtain ⟨hn, hselects⟩ := List.mem_filter.1 hn
    obtain ⟨cs', c', hcs', hc', hlo, hhi, hmove⟩ := h.along.exists_moved (hvalid.toNat_lt hn) (by simpa using hselects)
    have hravel : ravel (source.set axis w.size') cs' = ravel (source.set axis w.size') cs := by omega
    obtain rfl := ravel_inj hcs' hcs hravel
    obtain rfl := Option.some.inj (hc.symm.trans hc')
    exact ⟨hlo, hhi⟩
  · rintro ⟨hlo, hhi⟩
    have hstart := w.start_le
    have hbounds : InBounds source (cs.set axis (w.start + (c - w.target))) := by
      have hlt : w.start + (c - w.target) < w.size := by omega
      have hset : InBounds ((source.set axis w.size').set axis w.size) (cs.set axis (w.start + (c - w.target))) := hcs.set hlt
      rwa [List.set_set, set_getElem? h.along.size_eq] at hset
    have hget : (cs.set axis (w.start + (c - w.target)))[axis]? = some (w.start + (c - w.target)) := by
      rw [List.getElem?_set_self', hc]
      rfl
    obtain ⟨hcoordinate, hmove⟩ := h.along.move_ravel hbounds hget
    have hback : w.start + (c - w.target) - w.start + w.target = c := by omega
    rw [hback, List.set_set, set_getElem? hc] at hmove
    refine ⟨ravel source (cs.set axis (w.start + (c - w.target))), List.mem_filter.2 ⟨?_, ?_⟩, by rw [hmove]⟩
    · rw [List.mem_map]
      exact ⟨_, hall _ (ravel_lt hbounds), Int.toNat_natCast _⟩
    · rw [decide_eq_true_eq]
      unfold Window.Selects
      omega

/-- A row of a stack of pieces is in one of them. -/
theorem exists_piece_of_lt {κ : Type} (pieces : List (Piece κ)) {c : Nat} (hc : c < totalSize pieces) :
    ∃ before p after, pieces = before ++ p :: after ∧ totalSize before ≤ c ∧ c < totalSize before + p.size := by
  induction pieces generalizing c with
  | nil => cases hc
  | cons q pieces ih =>
      by_cases hq : c < q.size
      · exact ⟨[], q, pieces, rfl, Nat.zero_le _, by simpa [totalSize] using hq⟩
      · obtain ⟨before, p, after, rfl, hlo, hhi⟩ := ih (c := c - q.size) (by unfold totalSize at hc; omega)
        refine ⟨q :: before, p, after, rfl, ?_, ?_⟩
        · unfold totalSize
          omega
        · unfold totalSize
          omega

theorem piece_unique {κ : Type} {before before' after after' : List (Piece κ)} {p p' : Piece κ} {c : Nat}
    (h : before ++ p :: after = before' ++ p' :: after') (hlo : totalSize before ≤ c)
    (hhi : c < totalSize before + p.size) (hlo' : totalSize before' ≤ c) (hhi' : c < totalSize before' + p'.size) :
    p = p' := by
  induction before generalizing before' c with
  | nil =>
      cases before' with
      | nil => exact (List.cons.inj h).1
      | cons q before' =>
          obtain ⟨rfl, -⟩ := List.cons.inj h
          simp only [totalSize] at hhi hlo'
          omega
  | cons q before ih =>
      cases before' with
      | nil =>
          obtain ⟨rfl, -⟩ := List.cons.inj h
          simp only [totalSize] at hlo hhi'
          omega
      | cons q' before' =>
          obtain ⟨rfl, htail⟩ := List.cons.inj h
          simp only [totalSize] at hlo hhi hlo' hhi'
          exact ih (c := c - q.size) htail (by omega) (by omega) (by omega) (by omega)

theorem before_unique {κ : Type} {before before' after after' : List (Piece κ)} {p p' : Piece κ}
    (h : before ++ p :: after = before' ++ p' :: after') (hsource : p.source = p'.source)
    (hne : ∀ q ∈ before' ++ after', q.source ≠ p'.source) : before = before' ∧ p = p' := by
  induction before generalizing before' with
  | nil =>
      cases before' with
      | nil => exact ⟨rfl, (List.cons.inj h).1⟩
      | cons q before' =>
          obtain ⟨rfl, -⟩ := List.cons.inj h
          exact absurd hsource (hne p List.mem_cons_self)
  | cons q before ih =>
      cases before' with
      | nil =>
          obtain ⟨rfl, rfl⟩ := List.cons.inj h
          exact absurd hsource (hne p (by simp))
      | cons q' before' =>
          obtain ⟨rfl, htail⟩ := List.cons.inj h
          obtain ⟨rfl, rfl⟩ := ih htail fun q'' hq => hne q'' (List.mem_cons_of_mem q hq)
          exact ⟨rfl, rfl⟩

end Reach

section Fused

variable {mapping : LayoutMapping} {shape : List Nat} {param : Parameter} {module : Module}

/-- The layout of a fused parameter stacks its components. -/
theorem fused_layout {kind : LayoutKind} (hkind : kind = .qkv ∨ kind = .mergedColumn) (param : Parameter)
    (module : Module) : ∃ pieces : List (Piece (Option ShardId)),
      (∀ targetName id shape, shardLayout ⟨targetName, kind, id⟩ shape param module = .stacked 0 pieces) ∧
      pieces.map Piece.source = components kind module ∧ totalSize pieces = fusedRows kind module := by
  obtain rfl | rfl := hkind
  · exact ⟨_, fun _ _ _ => rfl, rfl, by simp only [totalSize, fusedRows]; omega⟩
  · refine ⟨_, fun _ _ _ => rfl, ?_, ?_⟩
    · refine List.ext_getElem? fun n => ?_
      unfold components
      simp only [List.getElem?_map, List.getElem?_mapIdx]
      by_cases hn : n < (module.outputSizes.getD []).length
      · simp [List.getElem?_range hn, List.getElem?_eq_getElem hn, equalPart]
      · simp [hn]
    · have htotal := totalSize_mapIdx_take (fun n => some (ShardId.part n)) (module.tpRank.getD 0).toNat
        (module.tpSize.getD 1).toNat (module.outputSizes.getD []) (module.outputSizes.getD []).length
      rwa [List.take_of_length_le (by simp), List.take_of_length_le (by simp)] at htotal

/-- **One fused parameter.** Each element of the local shard belongs to one component. -/
theorem existsUnique_component {kind : LayoutKind} (hkind : kind = .qkv ∨ kind = .mergedColumn) {targetName : String}
    (hrows : param.tensor.shape[0]? = some (fusedRows kind module)) {updates : Option ShardId → LogicalSparseUpdate}
    {results : Option ShardId → List Int × List Bool}
    (hvalid : ∀ id ∈ components kind module, ValidIndices (updates id).indices.data (numel (updates id).shape))
    (hall : ∀ id ∈ components kind module, ∀ n < numel (updates id).shape, (n : Int) ∈ (updates id).indices.data)
    (h : ∀ id ∈ components kind module, project ⟨targetName, kind, id⟩ (updates id) param module = .ok (results id))
    {l : Nat} (hl : l < numel param.tensor.shape) :
    ∃! id, id ∈ components kind module ∧ (l : Int) ∈ (results id).1 := by
  obtain ⟨pieces, hlayout, hsources, htotal⟩ := fused_layout hkind param module
  -- what a component reaches, by the row of the element
  have hreach : ∀ id ∈ components kind module, ∃ w, ∃ before p after, pieces = before ++ p :: after ∧ p.source = id ∧
      (∀ q ∈ before ++ after, q.source ≠ id) ∧ Projected w 0 (updates id).shape param.tensor.shape
        (updates id).indices.data (results id) ∧ w.target = totalSize before ∧ w.width = p.size := by
    intro id hid
    obtain ⟨w, axis, hprojected, hcuts⟩ | ⟨-, hreplicated, -⟩ := project_ok (hvalid id hid) (h id hid)
    · obtain ⟨before, p, after, heq, hsource, -, hwidth, htarget, hne⟩ := hcuts
      rw [hlayout] at heq
      cases heq
      exact ⟨w, before, p, after, rfl, hsource, hne, hprojected, htarget, hwidth⟩
    · rw [hlayout] at hreplicated
      cases hreplicated
  have hcs := inBounds_unravel hl
  obtain ⟨c, hc, hlt⟩ := hcs.getElem?_lt hrows
  have hmem : ∀ id ∈ components kind module, ∃ before p after, pieces = before ++ p :: after ∧ p.source = id ∧
      (∀ q ∈ before ++ after, q.source ≠ id) ∧
      ((l : Int) ∈ (results id).1 ↔ totalSize before ≤ c ∧ c < totalSize before + p.size) := by
    intro id hid
    obtain ⟨w, before, p, after, hpieces, hsource, hne, hprojected, htarget, hwidth⟩ := hreach id hid
    have hiff := hprojected.mem_iff (hall id hid) (hvalid id hid) hcs hc
    rw [ravel_unravel hl, htarget, hwidth] at hiff
    exact ⟨before, p, after, hpieces, hsource, hne, hiff⟩
  obtain ⟨before, p, after, hpieces, hlo, hhi⟩ := exists_piece_of_lt pieces (htotal ▸ hlt)
  have hp : p.source ∈ components kind module := by
    rw [← hsources, hpieces]
    simp
  refine ⟨p.source, ⟨hp, ?_⟩, fun id hid => ?_⟩
  · obtain ⟨before', p', after', hpieces', hsource, hne, hiff⟩ := hmem p.source hp
    obtain ⟨rfl, rfl⟩ := before_unique (hpieces.symm.trans hpieces') hsource.symm (hsource ▸ hne)
    exact hiff.2 ⟨hlo, hhi⟩
  · obtain ⟨before', p', after', hpieces', hsource, -, hiff⟩ := hmem id hid.1
    obtain ⟨hlo', hhi'⟩ := hiff.1 hid.2
    obtain rfl := piece_unique (hpieces.symm.trans hpieces') hlo hhi hlo' hhi'
    exact hsource.symm

end Fused

/-! ## Coverage -/

/-- **Main.** An element of an accepted update is selected on as many ranks as the layout asks for, unless the layout is
vocabulary-parallel and the row is outside the vocabulary of the module; each element of the local shard of a fused
parameter belongs to one component. -/
theorem tensorParallelCoverage {size orgVocabSize kvReplicas : Nat} {param : Nat → Parameter} {module : Nat → Module}
    (hranks : Ranks size orgVocabSize kvReplicas param module) (hsize : 0 < size) :
    (∀ (mapping : LayoutMapping) (update : LogicalSparseUpdate) (results : Nat → List Int × List Bool),
      validateUpdate update = .ok () →
      (∀ r < size, project mapping update (param r) (module r) = .ok (results r)) →
      ∀ (p : Nat) (i : Int), update.indices.data[p]? = some i →
        (((Finset.range size).filter fun r => (results r).2[p]? = some true).card = copies mapping size kvReplicas ↔
          (mapping.kind = .vocab → row update.shape i.toNat < orgVocabSize))) ∧
    ∀ (kind : LayoutKind) (targetName : String), kind = .qkv ∨ kind = .mergedColumn → ∀ r < size,
      (param r).tensor.shape[0]? = some (fusedRows kind (module r)) →
      ∀ (updates : Option ShardId → LogicalSparseUpdate) (results : Option ShardId → List Int × List Bool),
        (∀ id ∈ components kind (module r), validateUpdate (updates id) = .ok () ∧
          (∀ n < numel (updates id).shape, (n : Int) ∈ (updates id).indices.data) ∧
          project ⟨targetName, kind, id⟩ (updates id) (param r) (module r) = .ok (results id)) →
        ∀ l < numel (param r).tensor.shape, ∃! id, id ∈ components kind (module r) ∧ (l : Int) ∈ (results id).1 := by
  refine ⟨fun mapping update results hvalidate h p i hp => ?_,
    fun kind targetName hkind r _ hrows updates results h l hl => ?_⟩
  · rw [card_selected hranks hsize (validateUpdate_ok hvalidate).2 h hp]
    by_cases hkind : mapping.kind = .vocab
    · have hcopies : copies mapping size kvReplicas = 1 := by
        unfold copies
        rw [hkind]
      rw [if_pos hkind, hcopies]
      simp [hkind]
    · simp [hkind]
  · exact existsUnique_component hkind hrows (fun id hid => (validateUpdate_ok (h id hid).1).2)
      (fun id hid => (h id hid).2.1) (fun id hid => (h id hid).2.2) hl

/-! ### Four ranks that share two key heads -/

def gqaModule (r : Nat) : Module where
  className := "QKVParallelLinear"
  hasQuantConfig := false
  quantMethod := none
  primeRlShardKind := none
  shardIndices := none
  hasNumEmbeddingsPerPartition := false
  tpRank := some r
  tpSize := some 4
  outputSizes := none
  headSize := some 2
  vHeadSize := none
  totalNumHeads := some 4
  totalNumKvHeads := some 2
  numHeads := some 1
  numKvHeads := some 1
  numKvHeadReplicas := some 2

def gqaParam (_ : Nat) : Parameter := ⟨.ofFn [6, 2] .int64 fun _ => 0, true, none, none, none, false⟩

def gqaResults (r : Nat) : List Int × List Bool :=
  if r < 2 then ([5], [true, false, false]) else ([5, 6], [false, true, true])

theorem ranks_gqa : Ranks 4 0 2 gqaParam gqaModule where
  tpRank _ _ := rfl
  tpSize _ _ := rfl
  alike _ _ := rfl
  dims _ _ := ⟨rfl, rfl⟩
  vocab := ⟨0, Nat.zero_le _, fun _ _ _ h => by cases h⟩
  heads := rfl
  kvHeads := rfl
  replicas := rfl
  dvd := by decide

/-- A row of the second key head is on the two ranks that hold it. -/
theorem tensorParallelCoverage_gqa :
    ((Finset.range 4).filter fun r => (gqaResults r).2[1]? = some true).card = 2 := by
  refine ((tensorParallelCoverage ranks_gqa (by decide)).1 ⟨"l.self_attn.qkv_proj.weight", .qkv, some .k⟩ gqaUpdate
    gqaResults rfl (fun r hr => ?_) 1 5 rfl).2 nofun
  match r, hr with
  | 0, _ => rfl
  | 1, _ => rfl
  | 2, _ => rfl
  | 3, _ => rfl

/-! ### More rows than the vocabulary -/

/-- The embedding of a vocabulary of four on two ranks. -/
def vocabModule (r : Nat) : Module where
  className := "VocabParallelEmbedding"
  hasQuantConfig := false
  quantMethod := none
  primeRlShardKind := none
  shardIndices := some ((min (r * 2) 4 : Nat), (min ((r + 1) * 2) 4 : Nat))
  hasNumEmbeddingsPerPartition := true
  tpRank := some r
  tpSize := some 2
  outputSizes := none
  headSize := none
  vHeadSize := none
  totalNumHeads := none
  totalNumKvHeads := none
  numHeads := none
  numKvHeads := none
  numKvHeadReplicas := none

def vocabParam (_ : Nat) : Parameter := ⟨.ofFn [2, 1] .int64 fun _ => 0, true, none, none, none, false⟩

/-- An update of a checkpoint embedding of six rows, in the last. -/
def vocabUpdate : LogicalSparseUpdate := ⟨"embed_tokens.weight", [6, 1], ⟨.int64, [5]⟩, ⟨.int64, [7]⟩⟩

/-- Both ranks accept the update, and neither selects it. -/
theorem vocab_row_dropped : Ranks 2 4 1 vocabParam vocabModule ∧ validateUpdate vocabUpdate = .ok () ∧
    (∀ r < 2, project ⟨"embed_tokens.weight", .vocab, none⟩ vocabUpdate (vocabParam r) (vocabModule r) =
      .ok ([], [false])) ∧ copies ⟨"embed_tokens.weight", .vocab, none⟩ 2 1 = 1 := by
  refine ⟨⟨fun _ _ => rfl, fun _ _ => rfl, fun _ _ => rfl, fun _ _ => ⟨rfl, rfl⟩, ⟨2, by decide, fun r _ range h => ?_⟩,
    rfl, rfl, rfl, by decide⟩, rfl, fun r hr => ?_, rfl⟩
  · exact (Option.some.inj h).symm
  · match r, hr with
    | 0, _ => rfl
    | 1, _ => rfl

end AuroraRl.Layout
