import AuroraRl.Lib.Labels
import AuroraRl.Lib.Python
import Mathlib

/-!
# The layers of many adapters

* `shardForCp`, `splitLoraNumTokens` : the tokens of a context-parallel rank, and how many of them each adapter has;
* `MultiLoraLinear.forward` : a linear layer with the adapter of every row, `forward_spec`;
* `MultiLoraGroupedExperts.forward` : the experts with the one adapter that has most rows, `forward_eq_iff`.

`groupedMm` is `torch._grouped_mm`; that it multiplies the rows up to each offset with the weights of their group is
`GroupedMm.ByOffsets`.
-/

namespace AuroraRl.Trainer
open Segments

/-! ## Context parallelism -/

section

variable {α : Type}

/-- `torch.chunk`: pieces of one size, but for the last. -/
def chunkTensor (t : List α) (chunks : Nat) : List (List α) :=
  let size := (t.length + chunks - 1) / chunks
  if size = 0 then List.replicate chunks []
  else (List.range ((t.length + size - 1) / size)).map fun i => (t.drop (i * size)).take size

def shardForCp (t : List α) (cpRank cpWorldSize : Nat) : Except PyException (List α) :=
  listItem (chunkTensor t cpWorldSize) cpRank

/-- The counts of the adapters in the chunk of a rank. -/
def splitLoraNumTokens (loraNumTokens : List Nat) (chunkSize cpRank : Nat) : List Nat :=
  let cuOffsets := ends 0 loraNumTokens
  -- the difference of naturals stops at zero, as the clip does
  let adjustedCu := cuOffsets.map fun cu => min (cu - chunkSize * cpRank) chunkSize
  diffs 0 adjustedCu

theorem shardForCp_of_dvd {t : List α} {cpSize cpRank : Nat} (hdvd : cpSize ∣ t.length) (hrank : cpRank < cpSize) :
    shardForCp t cpRank cpSize = .ok ((t.drop (t.length / cpSize * cpRank)).take (t.length / cpSize)) := by
  obtain ⟨c, hc⟩ := hdvd
  have hpos : 0 < cpSize := by omega
  have hsize : (t.length + cpSize - 1) / cpSize = c := by
    rw [hc, Nat.add_sub_assoc hpos, Nat.mul_add_div hpos, Nat.div_eq_of_lt (by omega), Nat.add_zero]
  have hdiv : t.length / cpSize = c := by
    rw [hc, Nat.mul_div_cancel_left c hpos]
  unfold shardForCp chunkTensor
  rw [listItem_eq_ok, hsize, hdiv]
  dsimp only
  split_ifs with hzero
  · rw [List.getElem?_replicate, if_pos hrank, hzero, List.take_zero]
  · have hcount : (t.length + c - 1) / c = cpSize := by
      rw [hc, Nat.add_sub_assoc (by omega), Nat.mul_comm, Nat.mul_add_div (by omega), Nat.div_eq_of_lt (by omega),
        Nat.add_zero]
    rw [hcount, List.getElem?_map, List.getElem?_range hrank, Option.map_some, Nat.mul_comm]

theorem splitLoraNumTokens_length (loraNumTokens : List Nat) (chunkSize cpRank : Nat) :
    (splitLoraNumTokens loraNumTokens chunkSize cpRank).length = loraNumTokens.length := by
  simp [splitLoraNumTokens]

/-- The counts of a rank are those of its chunk of the labels. -/
theorem labelled_splitLoraNumTokens (labels : List α) (loraNumTokens : List Nat) (chunkSize cpRank : Nat) :
    labelled labels (splitLoraNumTokens loraNumTokens chunkSize cpRank) =
      ((labelled labels loraNumTokens).drop (chunkSize * cpRank)).take chunkSize :=
  (window_labelled labels loraNumTokens (chunkSize * cpRank) chunkSize).symm

end

/-! ## `MultiLoRALinear` -/

section

variable {R : Type} [NonUnitalNonAssocSemiring R] {rank inFeatures outFeatures : Nat}

/-- The rows of `x @ w.T`. -/
def matmul {m n : Nat} (x : List (Fin n → R)) (w : Matrix (Fin m) (Fin n) R) : List (Fin m → R) := x.map w.mulVec

/-- `_run_lora_for_loop`, from the slice that starts at `start`. -/
def runLoraForLoop (x : List (Fin inFeatures → R)) : Nat → List Nat → List (Matrix (Fin rank) (Fin inFeatures) R) →
    List (Matrix (Fin outFeatures) (Fin rank) R) → Except PyException (List (Fin outFeatures → R))
  | _, [], _, _ => .ok []
  | start, stop :: offsets, a :: loraA, b :: loraB => do
      let aOut := matmul ((x.take stop).drop start) a
      let loraOut := matmul aOut b
      return loraOut ++ (← runLoraForLoop x stop offsets loraA loraB)
  | _, _ :: _, _, _ => .error ⟨.indexError, "index out of range"⟩

/-- The type of `torch._grouped_mm`, with the transposes of the weights left out. -/
abbrev GroupedMm (R : Type) : Type :=
  ∀ m n : Nat, List (Fin n → R) → List (Matrix (Fin m) (Fin n) R) → List Nat → List (Fin m → R)

def runLoraGroupedMm (groupedMm : GroupedMm R) (x : List (Fin inFeatures → R))
    (loraA : List (Matrix (Fin rank) (Fin inFeatures) R)) (loraB : List (Matrix (Fin outFeatures) (Fin rank) R))
    (offsets : List Nat) : List (Fin outFeatures → R) :=
  let aOut := groupedMm rank inFeatures x loraA offsets
  groupedMm outFeatures rank aOut loraB offsets

/-- `MultiLoRALinear`: its weights, and what it does to the rows apart from the adapters. -/
structure MultiLoraLinear (R : Type) (rank inFeatures outFeatures : Nat) where
  baseLayer : (Fin inFeatures → R) → Fin outFeatures → R
  loraA : List (Matrix (Fin rank) (Fin inFeatures) R)
  loraB : List (Matrix (Fin outFeatures) (Fin rank) R)
  scalingFactors : List R
  loraDropout : List (Fin inFeatures → R) → List (Fin inFeatures → R)
  useGroupedMm : Bool

/-- The rows through the adapters, in groups or in a loop. -/
def MultiLoraLinear.loraOut (groupedMm : GroupedMm R) (layer : MultiLoraLinear R rank inFeatures outFeatures)
    (loraX : List (Fin inFeatures → R)) (offsets : List Nat) : Except PyException (List (Fin outFeatures → R)) :=
  if layer.useGroupedMm then .ok (runLoraGroupedMm groupedMm loraX layer.loraA layer.loraB offsets)
  else runLoraForLoop loraX 0 offsets layer.loraA layer.loraB

def MultiLoraLinear.forward (groupedMm : GroupedMm R) (layer : MultiLoraLinear R rank inFeatures outFeatures)
    (loraNumTokens : List Nat) (x : List (Fin inFeatures → R)) : Except PyException (List (Fin outFeatures → R)) := do
  let offsets := ends 0 loraNumTokens
  pyAssert (offsets.getLast? = some x.length) s!"offsets: {offsets}, x.shape: {x.length}"
  let baseOut := x.map layer.baseLayer
  let loraOut ← layer.loraOut groupedMm (layer.loraDropout x) offsets
  let perTokenScaling := labelled layer.scalingFactors loraNumTokens
  return List.zipWith (· + ·) baseOut (List.zipWith (· • ·) perTokenScaling loraOut)

/-- The rows up to each offset are multiplied with the weights of their group. -/
def GroupedMm.ByOffsets (groupedMm : GroupedMm R) : Prop :=
  ∀ (m n : Nat) (x : List (Fin n → R)) (weights : List (Matrix (Fin m) (Fin n) R)) (counts : List Nat),
    weights.length = counts.length → counts.sum = x.length →
      groupedMm m n x weights (ends 0 counts) = List.zipWith Matrix.mulVec (labelled weights counts) x

theorem matmul_eq_zipWith {m n : Nat} (x : List (Fin n → R)) (w : Matrix (Fin m) (Fin n) R) :
    matmul x w = List.zipWith Matrix.mulVec (List.replicate x.length w) x := by
  induction x with
  | nil => rfl
  | cons row x ih => exact congrArg (w.mulVec row :: ·) ih

theorem runLoraForLoop_eq {x : List (Fin inFeatures → R)} {counts : List Nat} {start : Nat}
    {loraA : List (Matrix (Fin rank) (Fin inFeatures) R)} {loraB : List (Matrix (Fin outFeatures) (Fin rank) R)}
    (hA : loraA.length = counts.length) (hB : loraB.length = counts.length) (hx : start + counts.sum ≤ x.length) :
    runLoraForLoop x start (ends start counts) loraA loraB =
      .ok (List.zipWith Matrix.mulVec (labelled loraB counts)
        (List.zipWith Matrix.mulVec (labelled loraA counts) (x.drop start))) := by
  induction counts generalizing start loraA loraB with
  | nil =>
      have hnil : loraA = [] := by simpa using hA
      simp [hnil, ends, runLoraForLoop, labelled]
  | cons n counts ih =>
      cases loraA with
      | nil => simp at hA
      | cons a loraA =>
          cases loraB with
          | nil => simp at hB
          | cons b loraB =>
              rw [List.sum_cons] at hx
              have hrest := @ih (start + n) loraA loraB (by simpa using hA) (by simpa using hB) (by omega)
              have hslice : (x.take (start + n)).drop start = (x.drop start).take n := by
                rw [List.drop_take, Nat.add_sub_cancel_left]
              have hsplit : x.drop start = (x.drop start).take n ++ x.drop (start + n) := by
                rw [← List.drop_drop, List.take_append_drop]
              have hlen : ((x.drop start).take n).length = n := by
                rw [List.length_take, List.length_drop]
                omega
              rw [ends, runLoraForLoop, hrest, ok_bind, hslice]
              conv_rhs => rw [hsplit]
              rw [labelled, labelled, List.zipWith_append (by simp [hlen]), List.zipWith_append (by simp [hlen]),
                matmul_eq_zipWith, matmul_eq_zipWith, List.length_zipWith, List.length_replicate, Nat.min_self, hlen]
              rfl

theorem getLast?_ends {counts : List Nat} (h : counts ≠ []) (start : Nat) :
    (ends start counts).getLast? = some (start + counts.sum) := by
  obtain ⟨n, counts, rfl⟩ := List.exists_cons_of_ne_nil h
  rw [ends_eq, List.getLast?_concat]

/-- Both ways give each row the product with the matrices of its label. -/
theorem MultiLoraLinear.loraOut_eq {groupedMm : GroupedMm R} (hgrouped : groupedMm.ByOffsets)
    (layer : MultiLoraLinear R rank inFeatures outFeatures) {x : List (Fin inFeatures → R)} {counts : List Nat}
    (hA : layer.loraA.length = counts.length) (hB : layer.loraB.length = counts.length) (hx : counts.sum = x.length) :
    layer.loraOut groupedMm x (ends 0 counts) = .ok (List.zipWith Matrix.mulVec (labelled layer.loraB counts)
      (List.zipWith Matrix.mulVec (labelled layer.loraA counts) x)) := by
  unfold MultiLoraLinear.loraOut
  split
  · have hmid : (List.zipWith Matrix.mulVec (labelled layer.loraA counts) x).length = x.length := by
      rw [List.length_zipWith, labelled_length hA, hx, Nat.min_self]
    unfold runLoraGroupedMm
    rw [hgrouped _ _ x layer.loraA counts hA hx, hgrouped _ _ _ layer.loraB counts hB (hx.trans hmid.symm)]
  · have hle : 0 + counts.sum ≤ x.length := by omega
    rw [runLoraForLoop_eq hA hB hle, List.drop_zero]

/-- The label of a position picks from any list of the adapters. -/
theorem labelled_getElem? {α : Type*} {l : List α} {counts : List Nat} (h : l.length = counts.length) (p : Nat) :
    (labelled l counts)[p]? = (labelled (List.range counts.length) counts)[p]?.bind (l[·]?) := by
  have hl : l.map some = (List.range counts.length).map (l[·]?) := by
    apply List.ext_getElem
    · simp [h]
    · intro i hi _
      simp
  have hmap := congrArg (fun m => (labelled m counts)[p]?) hl
  simp only [labelled_map, List.getElem?_map] at hmap
  cases hp : (labelled (List.range counts.length) counts)[p]? with
  | none => simpa [hp] using hmap
  | some r =>
      rw [hp] at hmap
      obtain ⟨a, ha, hr⟩ := Option.map_eq_some_iff.1 hmap
      rw [ha, Option.bind_some]
      exact hr

/-- Each row goes through the adapter of its label. -/
theorem MultiLoraLinear.forward_spec {groupedMm : GroupedMm R} (hgrouped : groupedMm.ByOffsets)
    (layer : MultiLoraLinear R rank inFeatures outFeatures) {counts : List Nat} (hne : counts ≠ [])
    (hA : layer.loraA.length = counts.length) (hB : layer.loraB.length = counts.length)
    (hscaling : layer.scalingFactors.length = counts.length) {x : List (Fin inFeatures → R)} (hx : counts.sum = x.length)
    (hdropout : (layer.loraDropout x).length = x.length) :
    ∃ out, layer.forward groupedMm counts x = .ok out ∧ out.length = x.length ∧
      ∀ (p r : Nat) (row loraRow : Fin inFeatures → R), (labelled (List.range counts.length) counts)[p]? = some r →
        x[p]? = some row → (layer.loraDropout x)[p]? = some loraRow →
          ∃ a b s, layer.loraA[r]? = some a ∧ layer.loraB[r]? = some b ∧ layer.scalingFactors[r]? = some s ∧
            out[p]? = some (layer.baseLayer row + s • b.mulVec (a.mulVec loraRow)) := by
  have hassert : ∀ message, pyAssert ((ends 0 counts).getLast? = some x.length) message = .ok () := by
    intro message
    apply pyAssert_eq_ok.2
    rw [getLast?_ends hne, Nat.zero_add, hx]
  refine ⟨_, bind_eq_ok.2 ⟨(), hassert _, bind_eq_ok.2 ⟨_, layer.loraOut_eq hgrouped hA hB (hx.trans hdropout.symm), rfl⟩⟩,
    ?_, ?_⟩
  · simp only [List.length_zipWith, List.length_map, labelled_length hA, labelled_length hB, labelled_length hscaling,
      hx, hdropout, Nat.min_self]
  · intro p r row loraRow hr hrow hlora
    have hpick : ∀ {α : Type} {l : List α}, l.length = counts.length → ∃ a, l[r]? = some a ∧
        (labelled l counts)[p]? = some a := by
      intro α l hl
      have hlt : r < l.length := by
        rw [hl]
        exact List.mem_range.1 (mem_labelled (List.mem_of_getElem? hr))
      refine ⟨l[r], List.getElem?_eq_getElem hlt, ?_⟩
      rw [labelled_getElem? hl, hr, Option.bind_some, List.getElem?_eq_getElem hlt]
    obtain ⟨a, ha, hap⟩ := hpick hA
    obtain ⟨b, hb, hbp⟩ := hpick hB
    obtain ⟨s, hs, hsp⟩ := hpick hscaling
    refine ⟨a, b, s, ha, hb, hs, ?_⟩
    simp [List.getElem?_zipWith, hrow, hlora, hap, hbp, hsp]

end

/-! ## `MultiLoRAGroupedExperts` -/

/-- `torch.argmax`: the first place of the maximum. -/
def argmax (l : List Nat) : Except PyException Nat :=
  match l.max? with
  | none => .error ⟨.runtimeError, "argmax(): Expected reduction dim to be specified for input.numel() == 0."⟩
  | some m => .ok (l.idxOf m)

/-- `MultiLoRAGroupedExperts`: the matrices of each adapter, and what the layer computes with those of one. -/
structure MultiLoraGroupedExperts (W S X Y : Type) where
  adapters : List W
  scalingFactors : List S
  experts : W → S → X → Y

def MultiLoraGroupedExperts.forward {W S X Y : Type} (layer : MultiLoraGroupedExperts W S X Y) (loraNumTokens : List Nat)
    (x : X) : Except PyException Y := do
  let adapterIdx ← argmax loraNumTokens
  let adapter ← listItem layer.adapters adapterIdx
  let scaling ← listItem layer.scalingFactors adapterIdx
  return layer.experts adapter scaling x

theorem argmax_eq_ok_iff {l : List Nat} {r : Nat} :
    argmax l = .ok r ↔ ∃ m, l[r]? = some m ∧ (∀ n ∈ l, n ≤ m) ∧ ∀ j < r, l[j]? ≠ some m := by
  have hfirst : ∀ {m : Nat} (hr : r < l.length), l.idxOf m = r ↔ l[r] = m ∧ ∀ j < r, l[j]? ≠ some m := by
    intro m hr
    rw [List.idxOf, List.findIdx_eq hr, beq_iff_eq]
    refine and_congr_right fun _ => forall_congr' fun j => forall_congr' fun hj => ?_
    rw [List.getElem?_eq_getElem (hj.trans hr)]
    simp
  constructor
  · intro h
    unfold argmax at h
    split at h
    · cases h
    · rename_i m hmax
      obtain ⟨hmem, hle⟩ := List.max?_eq_some_iff.1 hmax
      obtain rfl := Except.ok.inj h
      have hlt := List.idxOf_lt_length_of_mem hmem
      obtain ⟨hget, hbefore⟩ := (hfirst hlt).1 rfl
      exact ⟨m, List.getElem?_eq_some_iff.2 ⟨hlt, hget⟩, hle, hbefore⟩
  · rintro ⟨m, hget, hle, hbefore⟩
    obtain ⟨hlt, hm⟩ := List.getElem?_eq_some_iff.1 hget
    have hmax : l.max? = some m := List.max?_eq_some_iff.2 ⟨List.mem_of_getElem? hget, hle⟩
    unfold argmax
    rw [hmax]
    exact congrArg Except.ok ((hfirst hlt).2 ⟨hm, hbefore⟩)

/-- The experts of every layer compute with the matrices and the scaling of one adapter. -/
def UsesAdapter (loraNumTokens : List Nat) (adapterIdx : Nat) : Prop :=
  ∀ {W S X Y : Type} (layer : MultiLoraGroupedExperts W S X Y) (x : X), layer.adapters.length = loraNumTokens.length →
    layer.scalingFactors.length = loraNumTokens.length → ∃ adapter scaling, layer.adapters[adapterIdx]? = some adapter ∧
      layer.scalingFactors[adapterIdx]? = some scaling ∧
      layer.forward loraNumTokens x = .ok (layer.experts adapter scaling x)

theorem usesAdapter_iff {loraNumTokens : List Nat} {adapterIdx : Nat} :
    UsesAdapter loraNumTokens adapterIdx ↔ argmax loraNumTokens = .ok adapterIdx := by
  constructor
  · intro h
    -- a layer that returns the index of its adapter
    obtain ⟨adapter, _, hadapter, -, hforward⟩ :=
      h ⟨List.range loraNumTokens.length, List.range loraNumTokens.length, fun w (_ : Nat) (_ : Unit) => w⟩ ()
        (by simp) (by simp)
    obtain ⟨i, hi, hforward⟩ := bind_eq_ok.1 hforward
    obtain ⟨w, hw, hforward⟩ := bind_eq_ok.1 hforward
    obtain ⟨_, -, hforward⟩ := bind_eq_ok.1 hforward
    cases hforward
    rw [listItem_eq_ok, List.getElem?_eq_some_iff] at hw
    rw [List.getElem?_eq_some_iff] at hadapter
    obtain ⟨_, rfl⟩ := hw
    obtain ⟨_, hsame⟩ := hadapter
    simp only [List.getElem_range] at hsame
    rw [hi, hsame]
  · intro h W S X Y layer x hadapters hscaling
    obtain ⟨m, hget, -⟩ := argmax_eq_ok_iff.1 h
    obtain ⟨hlt, -⟩ := List.getElem?_eq_some_iff.1 hget
    have hadapter := List.getElem?_eq_getElem (hadapters ▸ hlt : adapterIdx < layer.adapters.length)
    have hscale := List.getElem?_eq_getElem (hscaling ▸ hlt : adapterIdx < layer.scalingFactors.length)
    refine ⟨_, _, hadapter, hscale, ?_⟩
    rw [MultiLoraGroupedExperts.forward, h, ok_bind, listItem_eq_ok.2 hadapter, ok_bind, listItem_eq_ok.2 hscale]
    rfl

end AuroraRl.Trainer
