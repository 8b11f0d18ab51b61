import AuroraRl.Lib.Segments
import AuroraRl.Trainer.MicroBatchLoss
import AuroraRl.Trainer.Validation
import Mathlib.Data.List.Range

/-!
# Sequence boundaries from position ids

* `getCuSeqlensFromPositionIds` : the boundaries for the attention: every zero starts a sequence;
* `getResponseLengths_restarts` : the trainer's lengths, where a boundary counts only between two samples of two tokens;
* `getCuSeqlens_restarts` : the attention finds every sample and the padding;
* `sequenceBoundaries` : when the trainer finds them in the micro batches of `prepare_batch`.
-/

namespace AuroraRl.Trainer
open Segments

/-! ## The boundaries for the attention -/

def uniqueConsecutive : List Nat → List Nat
  | [] => []
  | [a] => [a]
  | a :: b :: l => if a = b then uniqueConsecutive (b :: l) else a :: uniqueConsecutive (b :: l)

/-- `get_cu_seqlens_from_position_ids`: the cumulative lengths and the longest one. -/
def getCuSeqlensFromPositionIds (positionIds : List Nat) : Except PyException (List Nat × Nat) := do
  let totalTokens := positionIds.length
  pyAssert (0 < totalTokens) "Cannot build cu_seqlens for an empty position_ids tensor"
  let zeroStarts := (List.range totalTokens).filter fun i => positionIds[i]? = some 0
  let starts := uniqueConsecutive (0 :: zeroStarts)
  let ends := starts.tail ++ [totalTokens]
  let seqlens := List.zipWith (· - ·) ends starts
  return (0 :: Segments.ends 0 seqlens, seqlens.foldl max 0)

/-! ## Positions of consecutive samples -/

section

variable {n m i : Nat} {lengths : List Nat}

theorem restarts_getElem?_left (h : i < n) : (restarts (n :: lengths))[i]? = some i := by
  rw [restarts_cons, List.getElem?_append_left (by simpa using h)]
  simp [h]

theorem restarts_getElem?_right (i : Nat) : (restarts (n :: lengths))[n + i]? = (restarts lengths)[i]? := by
  rw [restarts_cons, List.getElem?_append_right (by simp)]
  simp

/-- In a sample no sequence starts but at its first token. -/
theorem isBoundary_inside (hpos : 0 < i) (h : i < n) : isBoundary (restarts (n :: lengths)) i = false := by
  unfold isBoundary
  rw [restarts_getElem?_left h]
  simp [Nat.pos_iff_ne_zero.1 hpos]

theorem filter_inside (n : Nat) (lengths : List Nat) :
    (List.range' 1 (n - 1)).filter (isBoundary (restarts (n :: lengths))) = [] := by
  rw [List.filter_eq_nil_iff]
  intro i hi
  have hi' := List.mem_range'_1.1 hi
  rw [isBoundary_inside (by omega) (by omega)]
  exact Bool.false_ne_true

/-- Where one sample follows another, the trainer sees it if both have at least two tokens. -/
theorem isBoundary_between (hn : 0 < n) (hm : 0 < m) (hlengths : ∀ k ∈ lengths, 0 < k) :
    isBoundary (restarts (n :: m :: lengths)) n = decide (2 ≤ n ∧ 2 ≤ m) := by
  have hhere : (restarts (n :: m :: lengths))[n]? = some 0 := by
    have hright := @restarts_getElem?_right n (m :: lengths) 0
    rw [Nat.add_zero] at hright
    rw [hright, restarts_getElem?_left hm]
  have hbefore : (restarts (n :: m :: lengths))[n - 1]? = some (n - 1) := restarts_getElem?_left (by omega)
  have hnext : (restarts (n :: m :: lengths))[n + 1]? = some 1 ↔ 2 ≤ m := by
    rw [restarts_getElem?_right]
    by_cases h : 2 ≤ m
    · simp [restarts_getElem?_left (show 1 < m by omega), h]
    · obtain rfl : m = 1 := by omega
      have hright := @restarts_getElem?_right 1 lengths 0
      rw [Nat.add_zero] at hright
      rw [hright]
      cases lengths with
      | nil => simp [restarts]
      | cons k lengths =>
          have hk : 0 < k := hlengths k (by simp)
          simp [restarts_getElem?_left hk]
  unfold isBoundary
  rw [hhere, hbefore, decide_eq_decide, hnext]
  simp only [true_and, ne_eq, Option.some.injEq]
  constructor
  · rintro ⟨hne, hm⟩
    exact ⟨by omega, hm⟩
  · rintro ⟨hn, hm⟩
    exact ⟨by omega, hm⟩

/-- Past the first token of a sample nothing depends on what came before it. -/
theorem isBoundary_after (hpos : 0 < i) :
    isBoundary (restarts (n :: lengths)) (n + i) = isBoundary (restarts lengths) i := by
  have hbefore : n + i - 1 = n + (i - 1) := by omega
  unfold isBoundary
  rw [Nat.add_assoc, hbefore, restarts_getElem?_right, restarts_getElem?_right, restarts_getElem?_right]

end

/-! ## The trainer's lengths -/

theorem lengthsOf_map_add (k : Nat) (boundaries : List Nat) (n : Nat) :
    lengthsOf (boundaries.map (k + ·)) (k + n) = lengthsOf boundaries n := by
  induction boundaries with
  | nil => rfl
  | cons start rest ih =>
      cases rest with
      | nil => simp [lengthsOf, Nat.add_sub_add_left]
      | cons next rest =>
          rw [List.map_cons] at ih ⊢
          simp only [List.map_cons, lengthsOf, Nat.add_sub_add_left] at ih ⊢
          rw [ih]

theorem lengthsOf_joinHead (k : Nat) (boundaries : List Nat) (n : Nat) :
    lengthsOf (0 :: boundaries.map (k + ·)) (k + n) = joinHead k (lengthsOf (0 :: boundaries) n) := by
  cases boundaries with
  | nil => simp [lengthsOf, joinHead]
  | cons next rest =>
      have hrest := lengthsOf_map_add k (next :: rest) n
      rw [List.map_cons] at hrest ⊢
      simp only [lengthsOf, joinHead, Nat.sub_zero, hrest]

theorem getResponseLengths_cons {n m : Nat} {lengths : List Nat} (hn : 0 < n) (hm : 0 < m) (hlengths : ∀ k ∈ lengths, 0 < k) :
    getResponseLengths (restarts (n :: m :: lengths)) =
      if 2 ≤ n ∧ 2 ≤ m then n :: getResponseLengths (restarts (m :: lengths))
      else joinHead n (getResponseLengths (restarts (m :: lengths))) := by
  obtain ⟨rest, hrest⟩ : ∃ rest, (m :: lengths).sum = 1 + rest := ⟨m - 1 + lengths.sum, by rw [List.sum_cons]; omega⟩
  -- the places inside the first sample, its end, and the places after it
  have hplaces : List.range' 1 ((n :: m :: lengths).sum - 1) =
      List.range' 1 (n - 1) ++ n :: (List.range' 1 ((m :: lengths).sum - 1)).map (n + ·) := by
    have hlen : (n :: m :: lengths).sum - 1 = n - 1 + (1 + rest) := by
      rw [List.sum_cons, hrest]
      omega
    have hlast : 1 + 1 * (n - 1) = n := by omega
    rw [hlen, hrest, ← List.range'_append, hlast, Nat.add_comm 1 rest, List.range'_succ, Nat.add_sub_cancel,
      List.map_add_range']
  have hafter : ((List.range' 1 ((m :: lengths).sum - 1)).map (n + ·)).filter (isBoundary (restarts (n :: m :: lengths))) =
      ((List.range' 1 ((m :: lengths).sum - 1)).filter (isBoundary (restarts (m :: lengths)))).map (n + ·) := by
    rw [List.filter_map]
    congr 1
    apply List.filter_congr
    intro i hi
    have hi' := List.mem_range'_1.1 hi
    exact isBoundary_after (by omega)
  have hsum : (n :: m :: lengths).sum = n + (m :: lengths).sum := List.sum_cons
  unfold getResponseLengths
  simp only [restarts_length]
  rw [hplaces, List.filter_append, filter_inside, List.nil_append, List.filter_cons,
    isBoundary_between hn hm hlengths, hafter,
    hsum]
  split
  · rename_i hnm
    rw [if_pos (of_decide_eq_true hnm)]
    have hshift := lengthsOf_map_add n
      (0 :: (List.range' 1 ((m :: lengths).sum - 1)).filter (isBoundary (restarts (m :: lengths)))) (m :: lengths).sum
    rw [List.map_cons, Nat.add_zero] at hshift
    simp only [lengthsOf, Nat.sub_zero]
    rw [hshift]
  · rename_i hnm
    rw [if_neg fun h => hnm (decide_eq_true h)]
    exact lengthsOf_joinHead _ _ _

theorem getResponseLengths_restarts {lengths : List Nat} (hne : lengths ≠ []) (hpos : ∀ n ∈ lengths, 0 < n) :
    getResponseLengths (restarts lengths) = merged lengths := by
  induction lengths with
  | nil => exact absurd rfl hne
  | cons n lengths ih =>
      obtain ⟨hn, hlengths⟩ := List.forall_mem_cons.1 hpos
      cases lengths with
      | nil =>
          unfold getResponseLengths
          simp only [restarts_length, List.sum_singleton]
          rw [filter_inside]
          rfl
      | cons m lengths =>
          obtain ⟨hm, hrest⟩ := List.forall_mem_cons.1 hlengths
          rw [getResponseLengths_cons hn hm hrest, ih (List.cons_ne_nil _ _) hlengths, merged]

/-! ## The lengths of the attention -/

theorem filter_zero_restarts {lengths : List Nat} (hpos : ∀ n ∈ lengths, 0 < n) :
    (List.range lengths.sum).filter (fun i => (restarts lengths)[i]? = some 0) = starts 0 lengths := by
  induction lengths with
  | nil => rfl
  | cons n lengths ih =>
      obtain ⟨hn, hlengths⟩ := List.forall_mem_cons.1 hpos
      obtain ⟨k, rfl⟩ : ∃ k, n = k + 1 := ⟨n - 1, by omega⟩
      have hplaces : List.range ((k + 1) :: lengths).sum =
          0 :: (List.range' 1 k ++ (List.range lengths.sum).map (k + 1 + ·)) := by
        rw [List.sum_cons, List.range_add, List.range_eq_range', List.range'_succ, List.cons_append]
      have hinside : (List.range' 1 k).filter (fun i => (restarts ((k + 1) :: lengths))[i]? = some 0) = [] := by
        rw [List.filter_eq_nil_iff]
        intro i hi
        have hi' := List.mem_range'_1.1 hi
        rw [restarts_getElem?_left (by omega)]
        simp
        omega
      have hafter : ((List.range lengths.sum).map (k + 1 + ·)).filter
          (fun i => (restarts ((k + 1) :: lengths))[i]? = some 0) = (starts 0 lengths).map (· + (k + 1)) := by
        rw [List.filter_map, ← ih hlengths]
        simp only [Function.comp_def, restarts_getElem?_right]
        apply List.map_congr_left
        intro i _
        exact Nat.add_comm _ _
      have hfirst : (restarts ((k + 1) :: lengths))[0]? = some 0 := restarts_getElem?_left hn
      rw [hplaces, List.filter_cons, if_pos (decide_eq_true hfirst), List.filter_append, hinside, hafter, List.nil_append,
        starts_map_add]
      rfl

theorem uniqueConsecutive_starts {start : Nat} {lengths : List Nat} (hpos : ∀ n ∈ lengths, 0 < n) :
    uniqueConsecutive (starts start lengths) = starts start lengths := by
  induction lengths generalizing start with
  | nil => rfl
  | cons n lengths ih =>
      obtain ⟨hn, hlengths⟩ := List.forall_mem_cons.1 hpos
      have htail := @ih (start + n) hlengths
      cases lengths with
      | nil => rfl
      | cons m lengths =>
          simp only [starts, uniqueConsecutive] at htail ⊢
          rw [if_neg (by omega), htail]

theorem zipWith_ends_starts (start : Nat) (lengths : List Nat) :
    List.zipWith (· - ·) (ends start lengths) (starts start lengths) = lengths := by
  induction lengths generalizing start with
  | nil => rfl
  | cons n lengths ih => simp [ends, starts, ih]

/-- Every sample starts with a zero, and only there is one. -/
theorem getCuSeqlens_restarts {lengths : List Nat} (hne : lengths ≠ []) (hpos : ∀ n ∈ lengths, 0 < n) :
    getCuSeqlensFromPositionIds (restarts lengths) = .ok (0 :: ends 0 lengths, lengths.foldl max 0) := by
  obtain ⟨n, rest, rfl⟩ := List.exists_cons_of_ne_nil hne
  have hn := hpos n List.mem_cons_self
  have hstarts : uniqueConsecutive (0 :: starts 0 (n :: rest)) = starts 0 (n :: rest) := by
    rw [show 0 :: starts 0 (n :: rest) = 0 :: 0 :: starts (0 + n) rest from rfl, uniqueConsecutive, if_pos rfl]
    exact uniqueConsecutive_starts hpos
  have hends : (starts 0 (n :: rest)).tail ++ [(n :: rest).sum] = ends 0 (n :: rest) := by
    rw [ends_eq, Nat.zero_add]
  have htotal : 0 < (n :: rest).sum := by
    rw [List.sum_cons]
    omega
  unfold getCuSeqlensFromPositionIds
  simp only [restarts_length]
  rw [(pyAssert_eq_ok (u := ())).2 htotal, ok_bind, filter_zero_restarts hpos, hstarts, hends, zipWith_ends_starts]
  rfl

/-! ## Samples and padding -/

/-- Padding as a segment of its own. -/
def paddingSegment (k : Nat) : List Nat := if k = 0 then [] else [k]

theorem restarts_padding (lengths : List Nat) (k : Nat) :
    restarts (lengths ++ paddingSegment k) = restarts lengths ++ List.range k := by
  unfold paddingSegment restarts
  split
  · rename_i hk
    simp [hk]
  · simp

theorem pos_of_mem_segments {lengths : List Nat} (hpos : ∀ n ∈ lengths, 0 < n) (k : Nat) :
    ∀ n ∈ lengths ++ paddingSegment k, 0 < n := by
  intro n hn
  rcases List.mem_append.1 hn with hn | hn
  · exact hpos n hn
  · unfold paddingSegment at hn
    split at hn
    · cases hn
    · rw [List.mem_singleton.1 hn]
      omega

/-- Both recoveries find the samples of the given lengths; padding counts as its own segment or with the last one, for
the trainer's lengths. -/
structure SequenceBoundaries (lengths : List Nat) (k : Nat) (positionIds : List Nat) : Prop where
  samples : getResponseLengths positionIds = lengths ++ paddingSegment k ∨
    getResponseLengths positionIds = withTrailing lengths k
  sum : (getResponseLengths positionIds).sum = positionIds.length
  /-- The boundaries are the same but for the start of the padding. -/
  agree : ∃ cuSeqlens maxSeqlen, getCuSeqlensFromPositionIds positionIds = .ok (cuSeqlens, maxSeqlen) ∧
    (cuSeqlens = 0 :: ends 0 (getResponseLengths positionIds) ∨
      0 < k ∧ cuSeqlens.eraseIdx lengths.length = 0 :: ends 0 (getResponseLengths positionIds))

theorem merged_segments_iff {lengths : List Nat} (hne : lengths ≠ []) (hpos : ∀ n ∈ lengths, 0 < n) (k : Nat) :
    (merged (lengths ++ paddingSegment k) = lengths ++ paddingSegment k ∨
      merged (lengths ++ paddingSegment k) = withTrailing lengths k) ↔ lengths.length = 1 ∨ ∀ n ∈ lengths, 2 ≤ n := by
  unfold paddingSegment
  split
  · rename_i hk
    rw [List.append_nil, hk, withTrailing_zero hne, or_self, merged_eq_self_iff hne]
  · exact merged_append_iff hne hpos k

section

variable {lengths : List Nat} (hne : lengths ≠ []) (hpos : ∀ n ∈ lengths, 0 < n) (k : Nat)

include hne hpos

/-- Of samples and padding one after the other. -/
theorem sequenceBoundaries_iff : SequenceBoundaries lengths k (restarts lengths ++ List.range k) ↔
    lengths.length = 1 ∨ ∀ n ∈ lengths, 2 ≤ n := by
  have hne' : lengths ++ paddingSegment k ≠ [] := List.append_ne_nil_of_left_ne_nil hne _
  have hpos' := pos_of_mem_segments hpos k
  rw [← restarts_padding, ← merged_segments_iff hne hpos k]
  constructor
  · intro h
    rw [← getResponseLengths_restarts hne' hpos']
    exact h.samples
  · intro h
    rw [← getResponseLengths_restarts hne' hpos'] at h
    refine ⟨h, getResponseLengths_sum _, _, _, getCuSeqlens_restarts hne' hpos', ?_⟩
    rcases h with h | h
    · exact Or.inl (by rw [h])
    · rw [h]
      unfold paddingSegment
      split
      · rename_i hk
        rw [List.append_nil, hk, withTrailing_zero hne]
        exact Or.inl rfl
      · rename_i hk
        exact Or.inr ⟨by omega, eraseIdx_ends hne 0 k⟩

/-- The two agree on the start of the padding too iff it is no single token after other tokens. -/
theorem cuSeqlens_eq_iff : (∃ maxSeqlen, getCuSeqlensFromPositionIds (restarts lengths ++ List.range k) =
    .ok (0 :: ends 0 (getResponseLengths (restarts lengths ++ List.range k)), maxSeqlen)) ↔
      lengths.length = 1 ∧ k = 0 ∨ (∀ n ∈ lengths, 2 ≤ n) ∧ k ≠ 1 := by
  have hne' : lengths ++ paddingSegment k ≠ [] := List.append_ne_nil_of_left_ne_nil hne _
  have hpos' := pos_of_mem_segments hpos k
  have hlen := List.length_pos_iff.2 hne
  have hsegments : ((lengths ++ paddingSegment k).length = 1 ∨ ∀ n ∈ lengths ++ paddingSegment k, 2 ≤ n) ↔
      lengths.length = 1 ∧ k = 0 ∨ (∀ n ∈ lengths, 2 ≤ n) ∧ k ≠ 1 := by
    rw [List.length_append, List.forall_mem_append]
    unfold paddingSegment
    split
    · rename_i hk
      simp [hk]
    · rename_i hk
      rw [List.forall_mem_singleton, List.length_singleton]
      constructor
      · rintro (hone | ⟨hall, htwo⟩)
        · omega
        · exact Or.inr ⟨hall, by omega⟩
      · rintro (⟨-, hzero⟩ | ⟨hall, hone⟩)
        · exact absurd hzero hk
        · exact Or.inr ⟨hall, by omega⟩
  rw [← restarts_padding, getCuSeqlens_restarts hne' hpos', getResponseLengths_restarts hne' hpos', ← hsegments,
    ← merged_eq_self_iff hne']
  constructor
  · rintro ⟨maxSeqlen, h⟩
    have hends := congrArg (diffs 0) (List.cons.inj (Prod.ext_iff.1 (Except.ok.inj h)).1).2
    rw [diffs_ends, diffs_ends] at hends
    exact hends.symm
  · intro h
    rw [h]
    exact ⟨_, rfl⟩

end

/-! ## Micro batches -/

variable {R : Type} [Zero R] [One R] {samples : List (Nat × TrainingSample R)} {seqLen numLoras padToMultipleOf : Nat}
  {bin : List (Nat × TrainingSample R)} {b mb : MicroBatch R}

theorem positionIds_of_fills (hprep : ∀ p ∈ bin, p.2.Prepares seqLen) (hb : Fills numLoras (bin.map (packedItem seqLen)) b)
    (hmb : padMicroBatch b padToMultipleOf = .ok mb) :
    ∃ k, mb.inputIds = bin.flatMap (·.2.tokens seqLen) ++ List.replicate k 1 ∧
      mb.positionIds = restarts (bin.map fun p => (p.2.tokens seqLen).length) ++ List.range k := by
  obtain ⟨-, -, hpad⟩ := padMicroBatch_padded hmb
  have hm := merged_packed hprep hb
  refine ⟨paddingSize padToMultipleOf b.inputIds.length, ?_, ?_⟩
  · rw [hpad.inputIds, hm.inputIds, List.flatMap_map]
    rfl
  · rw [hpad.positionIds, hm.positionIds, List.flatMap_map, restarts, List.flatMap_map]
    congr 1
    apply List.flatMap_congr
    intro p hp
    show p.2.cut seqLen (List.range p.2.length) = _
    rw [p.2.tokens_length]
    unfold TrainingSample.cut
    split
    · rename_i hlt
      rw [List.take_range, Nat.min_comm]
    · rename_i hle
      rw [Nat.min_eq_left (Nat.le_of_not_lt hle)]

/-- **Main.** The trainer's lengths are those of the packed samples and the padding iff there is one sample or each has at
least two tokens; they are those of the attention iff this holds of the samples and the padding together. -/
theorem sequenceBoundaries {w : Nat} {grid : List (List (MicroBatch R))}
    (hgrid : prepareBatch (samples.map Prod.snd) seqLen w (samples.map Prod.fst) numLoras padToMultipleOf = .ok grid)
    (hpos : ∀ p ∈ samples, 0 < (p.2.tokens seqLen).length) {row : List (MicroBatch R)} (hrow : row ∈ grid)
    (hmb : mb ∈ row) : ∃ bin ∈ assignment seqLen samples, ∃ k,
      mb.inputIds = bin.flatMap (·.2.tokens seqLen) ++ List.replicate k 1 ∧
      (SequenceBoundaries (bin.map fun p => (p.2.tokens seqLen).length) k mb.positionIds ↔
        bin.length = 1 ∨ ∀ p ∈ bin, 2 ≤ (p.2.tokens seqLen).length) ∧
      ((∃ maxSeqlen, getCuSeqlensFromPositionIds mb.positionIds =
          .ok (0 :: ends 0 (getResponseLengths mb.positionIds), maxSeqlen)) ↔
        bin.length = 1 ∧ k = 0 ∨ (∀ p ∈ bin, 2 ≤ (p.2.tokens seqLen).length) ∧ k ≠ 1) := by
  obtain ⟨bin, hbin, hmem, b, source, hb, hpad, hkind⟩ := exists_source_of_prepareBatch hgrid hrow hmb
  obtain ⟨k, hids, hpositions⟩ := positionIds_of_fills (fun p hp => (hmem p hp).2) hb hpad
  have hne : bin ≠ [] := mt List.map_eq_nil_iff.2 hb.ne_nil
  have hlengths : bin.map (fun p => (p.2.tokens seqLen).length) ≠ [] := mt List.map_eq_nil_iff.1 hne
  have hpos' : ∀ n ∈ bin.map (fun p => (p.2.tokens seqLen).length), 0 < n :=
    List.forall_mem_map.2 fun p hp => hpos p (hmem p hp).1
  -- a dummy has the tokens and the position ids of its source
  have hsame : mb.inputIds = source.inputIds ∧ mb.positionIds = source.positionIds := by
    rcases hkind with rfl | rfl
    · exact ⟨rfl, rfl⟩
    · exact ⟨rfl, rfl⟩
  refine ⟨bin, hbin, k, hsame.1.trans hids, ?_, ?_⟩
  · rw [hsame.2, hpositions, sequenceBoundaries_iff hlengths hpos' k, List.length_map, List.forall_mem_map]
  · rw [hsame.2, hpositions, cuSeqlens_eq_iff hlengths hpos' k, List.length_map, List.forall_mem_map]

/-- A sample that is all prompt. -/
def prompted (promptIds : List Int) : TrainingSample Int :=
  { oneToken none with promptIds := promptIds, promptMask := promptIds.map fun _ => false }

/-- Two packed samples of three and two tokens, and three tokens of padding. -/
theorem sequenceBoundaries_padded : ∃ mb, prepareBatch [prompted [7, 8], prompted [4, 5, 6]] 8 1 [0, 0] 1 8 = .ok [[mb]] ∧
    mb.positionIds = [0, 1, 2, 0, 1, 0, 1, 2] ∧ SequenceBoundaries [3, 2] 3 mb.positionIds := by
  obtain ⟨mb, hrun, hids, hpositions⟩ : ∃ mb, prepareBatch [prompted [7, 8], prompted [4, 5, 6]] 8 1 [0, 0] 1 8 = .ok [[mb]] ∧
      mb.inputIds = [4, 5, 6, 7, 8, 1, 1, 1] ∧ mb.positionIds = [0, 1, 2, 0, 1, 0, 1, 2] := ⟨_, rfl, rfl, rfl⟩
  have hassign : assignment 8 [(0, prompted [7, 8]), (0, prompted [4, 5, 6])] =
      [[(0, prompted [4, 5, 6]), (0, prompted [7, 8])]] := rfl
  have hgrid : prepareBatch ([(0, prompted [7, 8]), (0, prompted [4, 5, 6])].map Prod.snd) 8 1
      ([(0, prompted [7, 8]), (0, prompted [4, 5, 6])].map Prod.fst) 1 8 = .ok [[mb]] := hrun
  obtain ⟨bin, hbin, k, htokens, hiff, -⟩ := sequenceBoundaries hgrid (by decide) (List.mem_singleton_self _)
    (List.mem_singleton_self _)
  rw [hassign, List.mem_singleton] at hbin
  subst hbin
  have hk : k = 3 := by
    have hlen := congrArg List.length htokens
    rw [hids, List.length_append, List.length_replicate] at hlen
    exact (Nat.add_left_cancel hlen).symm
  subst hk
  exact ⟨mb, hrun, hpositions, hiff.2 (Or.inr (by decide))⟩

/-- Two accepted samples of one token each: the attention keeps them apart, the trainer takes them for one. -/
theorem sequenceBoundaries_twoTokens :
    (∀ p ∈ [(0, oneToken (R := Int) none), (0, oneToken none)], validateSample 2 p.2 = none) ∧
      ∃ mb, prepareBatch [oneToken (R := Int) none, oneToken none] 2 1 [0, 0] 1 1 = .ok [[mb]] ∧
        getCuSeqlensFromPositionIds mb.positionIds = .ok ([0, 1, 2], 1) ∧ getResponseLengths mb.positionIds = [2] ∧
        ¬ SequenceBoundaries [1, 1] 0 mb.positionIds := by
  refine ⟨by decide, ?_⟩
  obtain ⟨mb, hrun, hpositions⟩ : ∃ mb, prepareBatch [oneToken (R := Int) none, oneToken none] 2 1 [0, 0] 1 1 = .ok [[mb]] ∧
      mb.positionIds = [0, 0] := ⟨_, rfl, rfl⟩
  refine ⟨mb, hrun, ?_, ?_, ?_⟩
  · rw [hpositions]
    rfl
  · rw [hpositions]
    rfl
  · rw [hpositions]
    intro h
    have hlengths : getResponseLengths [0, 0] = [2] := rfl
    have hsamples := h.samples
    rw [hlengths] at hsamples
    revert hsamples
    decide

end AuroraRl.Trainer
