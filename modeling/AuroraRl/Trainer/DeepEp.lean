import AuroraRl.Trainer.Moe
import Mathlib

/-!
# Dispatch by DeepEP

The ranks of a group make a call of `deep_ep` together; rank `d` has the experts from `d * numLocal` on.

* `Buffer` : the calls of `deep_ep`;
* `Delivers`, `Buffer.Documented` : every token reaches the ranks of its experts, and the returned rows are summed;
* `permuteTokens`, `finalizeDispatchTokens`, `combineTokens` : what the trainer does around the calls;
* `runPendingChunk_eq` : together they give every token its mixture.
-/

namespace AuroraRl.Trainer
open Grouped Indexing

namespace DeepEp

variable {R X : Type} {ranks : Nat}

/-! ## `deep_ep` -/

/-- What a rank hands over: `-1` stands for no expert. -/
structure DispatchInput (R X : Type) where
  hiddenStates : List X
  selectedExpertsIndices : List (List Int)
  topScores : List (List R)

/-- What a rank gets. -/
structure Received (R X Handle : Type) where
  hiddenStates : List X
  dispatchedIndices : List (List Int)
  dispatchedScores : List (List R)
  numTokensPerExpert : List Nat
  handle : Handle

/-- `get_dispatch_layout`, `dispatch` and `combine` of all ranks. -/
structure Buffer (R X : Type) (ranks : Nat) where
  Handle : Type
  dispatch : Nat → (Fin ranks → DispatchInput R X) → Fin ranks → Received R X Handle
  combine : (Fin ranks → List X × Handle) → Fin ranks → List X

/-- The number of an expert on rank `d`. -/
def localIndex (numLocal d : Nat) (e : Int) : Int :=
  if d * numLocal ≤ e ∧ e < (d + 1) * numLocal then e - d * numLocal else -1

section

variable [Zero R] [AddCommGroup X]

/-- The scores and local experts of token `p.2` of rank `p.1`, as rank `d` gets them. -/
def localIndices (numLocal : Nat) (inputs : Fin ranks → DispatchInput R X) (d : Fin ranks) (p : Fin ranks × Nat) : List Int :=
  ((inputs p.1).selectedExpertsIndices.getD p.2 []).map (localIndex numLocal d)

def localScores (numLocal : Nat) (inputs : Fin ranks → DispatchInput R X) (d : Fin ranks) (p : Fin ranks × Nat) : List R :=
  List.zipWith (fun e score => if e = -1 then 0 else score) (localIndices numLocal inputs d p)
    ((inputs p.1).topScores.getD p.2 [])

/-- One call of `dispatch` and the `combine` for it: rank `d` gets the tokens `src d`. -/
structure Delivers (buffer : Buffer R X ranks) (numExperts numLocal : Nat) (inputs : Fin ranks → DispatchInput R X)
    (src : Fin ranks → List (Fin ranks × Nat)) : Prop where
  nodup : ∀ d, (src d).Nodup
  mem_iff : ∀ d s t, (s, t) ∈ src d ↔ t < (inputs s).hiddenStates.length ∧ ∃ e ∈ localIndices numLocal inputs d (s, t), e ≠ -1
  hiddenStates : ∀ d, (buffer.dispatch numExperts inputs d).hiddenStates = (src d).map fun p =>
    (inputs p.1).hiddenStates.getD p.2 0
  dispatchedIndices : ∀ d, (buffer.dispatch numExperts inputs d).dispatchedIndices =
    (src d).map (localIndices numLocal inputs d)
  dispatchedScores : ∀ d, (buffer.dispatch numExperts inputs d).dispatchedScores = (src d).map (localScores numLocal inputs d)
  numTokensPerExpert : ∀ d, (buffer.dispatch numExperts inputs d).numTokensPerExpert =
    (List.range numLocal).map fun e : Nat => (src d).countP fun p => decide ((e : Int) ∈ localIndices numLocal inputs d p)
  combine : ∀ y : Fin ranks → List X, (∀ d, (y d).length = (src d).length) → ∀ s,
    buffer.combine (fun d => (y d, (buffer.dispatch numExperts inputs d).handle)) s =
      (List.range (inputs s).hiddenStates.length).map fun t =>
        ∑ d, ((((src d).zip (y d)).filter fun e => e.1 = (s, t)).map Prod.snd).sum

/-- The same number of slots for all tokens, with different experts. -/
structure DispatchInput.Valid (input : DispatchInput R X) (numExperts topK : Nat) : Prop where
  selected_length : input.selectedExpertsIndices.length = input.hiddenStates.length
  topScores_length : input.topScores.length = input.hiddenStates.length
  selected_row : ∀ row ∈ input.selectedExpertsIndices, row.length = topK ∧ (row.filter (· ≠ -1)).Nodup ∧
    ∀ e ∈ row, -1 ≤ e ∧ e < numExperts
  topScores_row : ∀ row ∈ input.topScores, row.length = topK

/-- `dispatch` and `combine` do what is documented when the experts divide among the ranks. -/
def Buffer.Documented (buffer : Buffer R X ranks) : Prop :=
  ∀ (numLocal topK : Nat) (inputs : Fin ranks → DispatchInput R X), (∀ s, (inputs s).Valid (ranks * numLocal) topK) →
    ∃ src, Delivers buffer (ranks * numLocal) numLocal inputs src

end

/-! ## The functions of the trainer -/

section

variable [CommRing R] [DecidableEq R] [AddCommGroup X] [Module R X]

omit [CommRing R] [DecidableEq R] [AddCommGroup X] [Module R X] in
def permuteTokens (hiddenStates : List X) (dispatchedIndices : List (List Int)) (dispatchedScores : List (List R)) :
    List X × List R × List Nat :=
  let validExpertIds := dispatchedIndices.flatten.filter (· ≠ -1)
  let validScores := ((dispatchedIndices.flatten.zip dispatchedScores.flatten).filter (·.1 ≠ -1)).map Prod.snd
  let sortOrder := argsort validExpertIds
  let permutedIndices :=
    pick (repeatInterleave (List.range hiddenStates.length) (dispatchedIndices.map fun row => row.countP (· ≠ -1)))
    sortOrder
  (pick hiddenStates permutedIndices, pick validScores sortOrder, permutedIndices)

omit [CommRing R] [DecidableEq R] [Module R X] in
def unpermuteTokens (permutedHiddenStates : List X) (permutedIndices : List Nat) (numTokens : Nat) : List X :=
  scatterAdd (List.replicate numTokens 0) permutedIndices permutedHiddenStates

structure DispatchState (R Handle : Type) where
  handle : Handle
  permutedIndices : List Nat
  numRecvTokens : Nat
  permutedScores : Option (List R)

structure PendingDispatchState (R X Handle : Type) where
  received : Received R X Handle
  scoreBeforeExperts : Bool

def maskedFill (selectedExpertsIndices : List (List Nat)) (topScores : List (List R)) : List (List Int) :=
  List.zipWith (List.zipWith fun (e : Nat) score => if score = 0 then (-1 : Int) else e) selectedExpertsIndices topScores

/-- `dispatch_tokens_async` on all ranks. -/
def dispatchTokensAsync (buffer : Buffer R X ranks) (numExperts : Nat) (scoreBeforeExperts : Bool)
    (hiddenStates : Fin ranks → List X)
    (selectedExpertsIndices : Fin ranks → List (List Nat)) (topScores : Fin ranks → List (List R)) (rank : Fin ranks) :
    PendingDispatchState R X buffer.Handle :=
  ⟨buffer.dispatch numExperts
    (fun r => ⟨hiddenStates r, maskedFill (selectedExpertsIndices r) (topScores r), topScores r⟩) rank, scoreBeforeExperts⟩

omit [DecidableEq R] in
def finalizeDispatchTokens {Handle : Type} (pendingState : PendingDispatchState R X Handle) :
    List X × List Nat × DispatchState R Handle :=
  let received := pendingState.received
  let (hiddenStates, permutedScores, permutedIndices) :=
    permuteTokens received.hiddenStates received.dispatchedIndices received.dispatchedScores
  let state permutedScores := ⟨received.handle, permutedIndices, received.hiddenStates.length, permutedScores⟩
  if pendingState.scoreBeforeExperts then
    (List.zipWith (fun row score => score • row) hiddenStates permutedScores, received.numTokensPerExpert, state none)
  else (hiddenStates, received.numTokensPerExpert, state (some permutedScores))

omit [DecidableEq R] in
/-- What a rank hands to `combine` in `combine_tokens`. -/
def combineInput {Handle : Type} (hiddenStates : List X) (state : DispatchState R Handle) : List X × Handle :=
  let hiddenStates := match state.permutedScores with
    | some permutedScores => List.zipWith (fun row score => score • row) hiddenStates permutedScores
    | none => hiddenStates
  (unpermuteTokens hiddenStates state.permutedIndices state.numRecvTokens, state.handle)

omit [DecidableEq R] in
/-- `combine_tokens` on all ranks. -/
def combineTokens (buffer : Buffer R X ranks) (hiddenStates : Fin ranks → List X)
    (state : Fin ranks → DispatchState R buffer.Handle) :
    Fin ranks → List X :=
  buffer.combine fun rank => combineInput (hiddenStates rank) (state rank)

end

end DeepEp

/-- The experts of a rank. -/
def GroupedExperts.toLocal {X : Type} (experts : GroupedExperts X) (ranks rank : Nat) : GroupedExperts X :=
  let numLocal := experts.numExperts / ranks
  { experts with
    numExperts := numLocal
    expert := fun e => experts.expert (rank * numLocal + e) }

namespace DeepEp

variable {R X : Type} {ranks : Nat} [CommRing R] [AddCommGroup X] [Module R X]

/-- `run_pending_chunk` on all ranks; `_forward_deepep` runs the experts of the rank. -/
def runPendingChunk (buffer : Buffer R X ranks) (kernels : ExpertKernels X) (experts : GroupedExperts X)
    (pendingState : Fin ranks → PendingDispatchState R X buffer.Handle) : Fin ranks → List X :=
  let finalized rank := finalizeDispatchTokens (pendingState rank)
  combineTokens buffer
    (fun rank => (experts.toLocal ranks rank).runExperts kernels (finalized rank).1 (finalized rank).2.1)
    fun rank => (finalized rank).2.2

/-! ## Slots of a received token -/

/-- The slots with an expert, as scores and experts. -/
def validSlots (indices : List Int) (scores : List R) : List (R × Nat) :=
  ((indices.zip scores).filter (·.1 ≠ -1)).map fun e => (e.2, e.1.toNat)

omit [CommRing R] in
theorem validSlots_cons (i : Int) (score : R) (indices : List Int) (scores : List R) :
    validSlots (i :: indices) (score :: scores) = if i = -1 then validSlots indices scores
      else (score, i.toNat) :: validSlots indices scores := by
  unfold validSlots
  by_cases hi : i = -1 <;> simp [hi]

omit [CommRing R] in
theorem validSlots_eq_nil {indices : List Int} (scores : List R) (h : ∀ i ∈ indices, i = -1) :
    validSlots indices scores = [] := by
  unfold validSlots
  rw [List.map_eq_nil_iff, List.filter_eq_nil_iff]
  intro e he
  simpa using h e.1 (List.of_mem_zip he).1

omit [CommRing R] in
theorem validSlots_length {indices : List Int} {scores : List R} (h : indices.length = scores.length) :
    (validSlots indices scores).length = indices.countP (· ≠ -1) := by
  unfold validSlots
  have hfst : (indices.zip scores).map Prod.fst = indices := List.map_fst_zip h.le
  conv_rhs => rw [← hfst, List.countP_map]
  rw [List.length_map, List.countP_eq_length_filter]
  rfl

omit [CommRing R] in
theorem validSlots_flatten {indices : List (List Int)} {scores : List (List R)}
    (h : List.Forall₂ (fun is ss => is.length = ss.length) indices scores) :
    (List.zipWith validSlots indices scores).flatten = validSlots indices.flatten scores.flatten := by
  induction h with
  | nil => rfl
  | cons hrow _ ih =>
      rw [List.zipWith_cons_cons, List.flatten_cons, List.flatten_cons, List.flatten_cons, ih]
      unfold validSlots
      rw [List.zip_append hrow, List.filter_append, List.map_append]

omit [CommRing R] in
theorem validSlots_experts {indices : List Int} {scores : List R} (h : indices.length = scores.length)
    (hmin : ∀ i ∈ indices, -1 ≤ i) :
    (validSlots indices scores).map (fun slot => (slot.2 : Int)) = indices.filter (· ≠ -1) := by
  have hfst : (indices.zip scores).map Prod.fst = indices := List.map_fst_zip h.le
  unfold validSlots
  conv_rhs => rw [← hfst, List.filter_map]
  rw [List.map_map]
  apply List.map_congr_left
  intro e he
  have hmem := List.mem_filter.1 he
  have hle := hmin e.1 (List.of_mem_zip hmem.1).1
  have hne : e.1 ≠ -1 := by simpa using hmem.2
  show ((e.1.toNat : Nat) : Int) = e.1
  omega

omit [CommRing R] in
theorem validSlots_scores (indices : List Int) (scores : List R) :
    (validSlots indices scores).map Prod.fst = ((indices.zip scores).filter (·.1 ≠ -1)).map Prod.snd := by
  unfold validSlots
  rw [List.map_map]
  rfl

omit [CommRing R] in
theorem validSlots_lt {indices : List Int} {scores : List R} {n : Nat} (h : ∀ i ∈ indices, -1 ≤ i ∧ i < n) {slot : R × Nat}
    (hslot : slot ∈ validSlots indices scores) : slot.2 < n := by
  obtain ⟨e, he, rfl⟩ := List.mem_map.1 hslot
  have hmem := List.mem_filter.1 he
  have hne : e.1 ≠ -1 := by simpa using hmem.2
  have hbounds := h e.1 (List.of_mem_zip hmem.1).1
  show e.1.toNat < n
  omega

omit [CommRing R] in
theorem flatten_length {indices : List (List Int)} {scores : List (List R)}
    (h : List.Forall₂ (fun is ss => is.length = ss.length) indices scores) :
    indices.flatten.length = scores.flatten.length := by
  induction h with
  | nil => rfl
  | cons hrow _ ih => rw [List.flatten_cons, List.flatten_cons, List.length_append, List.length_append, hrow, ih]

omit [CommRing R] [AddCommGroup X] [Module R X] in
/-- `_permute_tokens` sorts the slots of the received tokens by expert. -/
theorem permuteTokens_eq (hiddenStates : List X) {indices : List (List Int)} {scores : List (List R)}
    (h : List.Forall₂ (fun is ss => is.length = ss.length) indices scores) (hlength : hiddenStates.length = indices.length)
    (hmin : ∀ row ∈ indices, ∀ i ∈ row, -1 ≤ i) : ∃ sorted : List (Nat × R × Nat),
      sorted.Perm (tagged (List.zipWith validSlots indices scores)) ∧ (sorted.Pairwise fun a b => a.2.2 ≤ b.2.2) ∧
        permuteTokens hiddenStates indices scores =
          (pick hiddenStates (sorted.map Prod.fst), sorted.map fun s => s.2.1, sorted.map Prod.fst) := by
  let rows := List.zipWith validSlots indices scores
  have hflatten : rows.flatten = validSlots indices.flatten scores.flatten := validSlots_flatten h
  have hflat := flatten_length h
  have hexperts : indices.flatten.filter (· ≠ -1) = (tagged rows).map fun s => (s.2.2 : Int) := by
    have hmin' : ∀ i ∈ indices.flatten, -1 ≤ i := by
      intro i hi
      obtain ⟨row, hrow, hi⟩ := List.mem_flatten.1 hi
      exact hmin row hrow i hi
    rw [← validSlots_experts hflat hmin', ← hflatten, ← map_snd_tagged, List.map_map]
    rfl
  have hscores : ((indices.flatten.zip scores.flatten).filter (·.1 ≠ -1)).map Prod.snd = (tagged rows).map
      fun s => s.2.1 := by
    rw [← validSlots_scores, ← hflatten, ← map_snd_tagged, List.map_map]
    rfl
  have htokens : repeatInterleave (List.range hiddenStates.length)
      (indices.map fun row => row.countP (· ≠ -1)) = (tagged rows).map Prod.fst := by
    have hcounts : rows.map List.length = indices.map fun row => row.countP (· ≠ -1) := by
      apply List.ext_getElem
      · simp [rows, h.length_eq]
      · intro i hi hi'
        have hlt : i < indices.length := by simpa using hi'
        have hlt' : i < scores.length := h.length_eq ▸ hlt
        simp only [rows, List.getElem_map, List.getElem_zipWith]
        exact validSlots_length (h.get hlt hlt')
    have hrows : rows.length = hiddenStates.length := by
      simp [rows, ← h.length_eq, hlength]
    rw [map_fst_tagged, hcounts, hrows]
  have horder : (argsort ((tagged rows).map fun s => (s.2.2 : Int))).Perm (List.range (tagged rows).length) := by
    simpa using argsort_perm ((tagged rows).map fun s => (s.2.2 : Int))
  refine ⟨pick (tagged rows) (argsort ((tagged rows).map fun s => (s.2.2 : Int))), pick_perm horder, ?_, ?_⟩
  · exact (pairwise_pick_argsort fun s : Nat × R × Nat => (s.2.2 : Int)).imp fun hle => by omega
  · unfold permuteTokens
    dsimp only
    rw [hexperts, hscores, htokens, pick_map, pick_map]

/-! ## Local experts -/

theorem localIndex_natCast (numLocal d e : Nat) : localIndex numLocal d e =
    if d * numLocal ≤ e ∧ e < (d + 1) * numLocal then ((e - d * numLocal : Nat) : Int) else -1 := by
  unfold localIndex
  by_cases h : d * numLocal ≤ e ∧ e < (d + 1) * numLocal
  · rw [if_pos h, if_pos (by exact_mod_cast h), Nat.cast_sub h.1, Nat.cast_mul]
  · rw [if_neg h, if_neg (by exact_mod_cast h)]

theorem localIndex_neg (numLocal d : Nat) : localIndex numLocal d (-1) = -1 := by
  have hnonneg : (0 : Int) ≤ d * numLocal := by positivity
  unfold localIndex
  rw [if_neg]
  omega

theorem localIndex_bounds (numLocal d : Nat) (e : Int) :
    -1 ≤ localIndex numLocal d e ∧ localIndex numLocal d e < numLocal := by
  unfold localIndex
  split
  · have hmul : ((d + 1 : Int)) * numLocal = d * numLocal + numLocal := by ring
    omega
  · omega

theorem localIndex_inj {numLocal d : Nat} {e e' : Int} (h : localIndex numLocal d e ≠ -1)
    (heq : localIndex numLocal d e = localIndex numLocal d e') :
    e = e' := by
  unfold localIndex at h heq
  split at heq
  · split at heq
    · omega
    · omega
  · next hnot => exact absurd (if_neg hnot) h

theorem nodup_localIndex {row : List Int} (h : (row.filter (· ≠ -1)).Nodup) (numLocal d : Nat) :
    ((row.map (localIndex numLocal d)).filter (· ≠ -1)).Nodup := by
  rw [List.filter_map]
  apply List.Nodup.map_on
  · intro e he e' _ heq
    have hne := (List.mem_filter.1 he).2
    exact localIndex_inj (by simpa using hne) heq
  · have hsub : (row.filter ((fun i => decide (i ≠ -1)) ∘ localIndex numLocal d)).Sublist (row.filter (· ≠ -1)) := by
      have himp : row.filter ((fun i => decide (i ≠ -1)) ∘ localIndex numLocal d) =
          (row.filter (· ≠ -1)).filter ((fun i => decide (i ≠ -1)) ∘ localIndex numLocal d) := by
        rw [List.filter_filter]
        apply List.filter_congr
        intro e _
        by_cases he : e = -1
        · simp [he, localIndex_neg]
        · simp [he]
      rw [himp]
      exact List.filter_sublist
    exact hsub.nodup h

omit [CommRing R] in
theorem count_validSlots {indices : List Int} {scores : List R} (hlength : indices.length = scores.length)
    (hmin : ∀ i ∈ indices, -1 ≤ i)
    (hnodup : (indices.filter (· ≠ -1)).Nodup) (e : Nat) :
    ((validSlots indices scores).map Prod.snd).count e = if decide ((e : Int) ∈ indices) then 1 else 0 := by
  have hcast : ((validSlots indices scores).map Prod.snd).count e = (indices.filter (· ≠ -1)).count (e : Int) := by
    rw [← validSlots_experts hlength hmin, ← List.count_map_of_injective _ (fun n : Nat => (n : Int))
      Nat.cast_injective, List.map_map]
    rfl
  have hmem : (e : Int) ∈ indices.filter (· ≠ -1) ↔ (e : Int) ∈ indices := by
    rw [List.mem_filter]
    simp
  rw [hcast, hnodup.count]
  simp only [hmem, decide_eq_true_eq]

theorem count_flatten_map {ι : Type} {l : List ι} {f : ι → List Nat} {p : ι → Bool} {e : Nat}
    (h : ∀ a ∈ l, (f a).count e = if p a then 1 else 0) : (l.map f).flatten.count e = l.countP p := by
  induction l with
  | nil => rfl
  | cons a l ih =>
      rw [List.forall_mem_cons] at h
      rw [List.map_cons, List.flatten_cons, List.count_append, ih h.2, h.1, List.countP_cons, Nat.add_comm]

/-! ## One call -/

section

variable {buffer : Buffer R X ranks} {numLocal topK : Nat} {inputs : Fin ranks → DispatchInput R X}
    {src : Fin ranks → List (Fin ranks × Nat)}

omit [Module R X] in
theorem Delivers.lt (h : Delivers buffer (ranks * numLocal) numLocal inputs src) {d : Fin ranks}
    {p : Fin ranks × Nat} (hp : p ∈ src d) :
    p.2 < (inputs p.1).hiddenStates.length := ((h.mem_iff d p.1 p.2).1 hp).1

omit [CommRing R] [AddCommGroup X] [Module R X] in
theorem localIndices_valid (hvalid : ∀ s, (inputs s).Valid (ranks * numLocal) topK) (d : Fin ranks) {p : Fin ranks × Nat}
    (hp : p.2 < (inputs p.1).hiddenStates.length) : (localIndices numLocal inputs d p).length = topK ∧
      ((localIndices numLocal inputs d p).filter (· ≠ -1)).Nodup ∧
        ∀ i ∈ localIndices numLocal inputs d p, -1 ≤ i ∧ i < numLocal := by
  have hlt : p.2 < (inputs p.1).selectedExpertsIndices.length := (hvalid p.1).selected_length ▸ hp
  have hrow := (hvalid p.1).selected_row _ (List.getElem_mem hlt)
  unfold localIndices
  rw [List.getD_eq_getElem _ _ hlt, List.length_map]
  refine ⟨hrow.1, nodup_localIndex hrow.2.1 numLocal d, ?_⟩
  intro i hi
  obtain ⟨e, -, rfl⟩ := List.mem_map.1 hi
  exact localIndex_bounds numLocal d e

omit [AddCommGroup X] [Module R X] in
theorem localScores_length (hvalid : ∀ s, (inputs s).Valid (ranks * numLocal) topK) (d : Fin ranks) {p : Fin ranks × Nat}
    (hp : p.2 < (inputs p.1).hiddenStates.length) : (localScores numLocal inputs d p).length = topK := by
  have hlt : p.2 < (inputs p.1).topScores.length := (hvalid p.1).topScores_length ▸ hp
  unfold localScores
  rw [List.length_zipWith, (localIndices_valid hvalid d hp).1, List.getD_eq_getElem _ _ hlt,
    (hvalid p.1).topScores_row _ (List.getElem_mem hlt), Nat.min_self]

/-- The slots of a received token. -/
def localSlots (numLocal : Nat) (inputs : Fin ranks → DispatchInput R X) (d : Fin ranks) (p : Fin ranks × Nat) :
    List (R × Nat) :=
  validSlots (localIndices numLocal inputs d p) (localScores numLocal inputs d p)

omit [AddCommGroup X] [Module R X] in
theorem localRows_length (hvalid : ∀ s, (inputs s).Valid (ranks * numLocal) topK) (d : Fin ranks)
    {l : List (Fin ranks × Nat)} (h : ∀ p ∈ l, p.2 < (inputs p.1).hiddenStates.length) :
    List.Forall₂ (fun is ss => is.length = ss.length) (l.map (localIndices numLocal inputs d))
      (l.map (localScores numLocal inputs d)) := by
  rw [List.forall₂_map_left_iff, List.forall₂_map_right_iff, List.forall₂_same]
  intro p hp
  rw [(localIndices_valid hvalid d (h p hp)).1, localScores_length hvalid d (h p hp)]

section

variable {sorted : List (Nat × R × Nat)} {d : Fin ranks}

omit [Module R X] in
theorem Delivers.expert_lt (hvalid : ∀ s, (inputs s).Valid (ranks * numLocal) topK)
    (hdelivers : Delivers buffer (ranks * numLocal) numLocal inputs src)
    (hperm : sorted.Perm (tagged ((src d).map (localSlots numLocal inputs d)))) : ∀ s ∈ sorted, s.2.2 < numLocal := by
  intro s hs
  obtain ⟨row, hrow, hmem⟩ := mem_tagged_snd (hperm.mem_iff.1 hs)
  obtain ⟨p, hp, rfl⟩ := List.mem_map.1 hrow
  exact validSlots_lt (localIndices_valid hvalid d (hdelivers.lt hp)).2.2 hmem

omit [Module R X] in
/-- The buffer counts the slots of each local expert. -/
theorem Delivers.numTokensPerExpert_eq (hvalid : ∀ s, (inputs s).Valid (ranks * numLocal) topK)
    (hdelivers : Delivers buffer (ranks * numLocal) numLocal inputs src)
    (hperm : sorted.Perm (tagged ((src d).map (localSlots numLocal inputs d)))) :
    (buffer.dispatch (ranks * numLocal) inputs d).numTokensPerExpert = histc numLocal (sorted.map fun s => s.2.2) := by
  rw [hdelivers.numTokensPerExpert]
  apply List.map_congr_left
  intro e _
  rw [(hperm.map _).count_eq, map_tagged Prod.snd, List.map_map]
  symm
  apply count_flatten_map
  intro p hp
  have hlocal := localIndices_valid hvalid d (hdelivers.lt hp)
  apply count_validSlots _ (fun i hi => (hlocal.2.2 i hi).1) hlocal.2.1
  rw [hlocal.1, localScores_length hvalid d (hdelivers.lt hp)]

omit [Module R X] in
/-- What a rank received, its slots sorted by expert. -/
theorem Delivers.permuteTokens_eq (hvalid : ∀ s, (inputs s).Valid (ranks * numLocal) topK)
    (hdelivers : Delivers buffer (ranks * numLocal) numLocal inputs src) (d : Fin ranks) :
    ∃ sorted : List (Nat × R × Nat), sorted.Perm (tagged ((src d).map (localSlots numLocal inputs d))) ∧
      (sorted.Pairwise fun a b => a.2.2 ≤ b.2.2) ∧
      permuteTokens (buffer.dispatch (ranks * numLocal) inputs d).hiddenStates
        (buffer.dispatch (ranks * numLocal) inputs d).dispatchedIndices
        (buffer.dispatch (ranks * numLocal) inputs d).dispatchedScores =
          (sorted.map fun s => ((src d).map fun p => (inputs p.1).hiddenStates.getD p.2 0).getD s.1 0,
            sorted.map fun s => s.2.1, sorted.map Prod.fst) := by
  have hmin : ∀ row ∈ (src d).map (localIndices numLocal inputs d), ∀ i ∈ row, -1 ≤ i := by
    intro row hrow i hi
    obtain ⟨p, hp, rfl⟩ := List.mem_map.1 hrow
    exact ((localIndices_valid hvalid d (hdelivers.lt hp)).2.2 i hi).1
  have hslots : List.zipWith validSlots ((src d).map (localIndices numLocal inputs d))
      ((src d).map (localScores numLocal inputs d)) = (src d).map (localSlots numLocal inputs d) := by
    rw [List.zipWith_map, List.zipWith_self]
    rfl
  obtain ⟨sorted, hperm, hsorted, hpermute⟩ := DeepEp.permuteTokens_eq
    ((src d).map fun p => (inputs p.1).hiddenStates.getD p.2 0)
    (localRows_length hvalid d fun p hp => hdelivers.lt hp) (by simp) hmin
  rw [hslots] at hperm
  refine ⟨sorted, hperm, hsorted, ?_⟩
  rw [hdelivers.hiddenStates, hdelivers.dispatchedIndices, hdelivers.dispatchedScores, hpermute,
    pick_tagged hperm (by simp) 0]

end

/-- A rank hands back the mixture of its experts for every received token. -/
theorem combineInput_eq (hvalid : ∀ s, (inputs s).Valid (ranks * numLocal) topK)
    (hdelivers : Delivers buffer (ranks * numLocal) numLocal inputs src) {kernels : ExpertKernels X}
    (hkernels : kernels.Documented)
    (experts : GroupedExperts X) (hexperts : experts.numExperts = numLocal) (scoreBeforeExperts : Bool) (d : Fin ranks) :
    let finalized := finalizeDispatchTokens ⟨buffer.dispatch (ranks * numLocal) inputs d, scoreBeforeExperts⟩
    combineInput (experts.runExperts kernels finalized.1 finalized.2.1) finalized.2.2 =
      ((src d).map fun p => mixture experts.expert scoreBeforeExperts ((inputs p.1).hiddenStates.getD p.2 0)
        (localSlots numLocal inputs d p),
        (buffer.dispatch (ranks * numLocal) inputs d).handle) := by
  obtain ⟨sorted, hperm, hsorted, hpermute⟩ := hdelivers.permuteTokens_eq hvalid d
  have hcounts : (buffer.dispatch (ranks * numLocal) inputs d).numTokensPerExpert =
      histc experts.numExperts (sorted.map fun s => s.2.2) := by
    rw [hexperts]
    exact hdelivers.numTokensPerExpert_eq hvalid hperm
  have hexpert : ∀ s ∈ sorted, s.2.2 < experts.numExperts := by
    rw [hexperts]
    exact hdelivers.expert_lt hvalid hperm
  have hrun := fun row => experts.runExperts_sorted hkernels hsorted hexpert row
  have hscatter : ∀ c : Nat × R × Nat → X, unpermuteTokens (sorted.map c) (sorted.map Prod.fst) (src d).length =
      (((src d).map (localSlots numLocal inputs d)).zipIdx.map fun row => (row.1.map fun slot => c (row.2, slot)).sum) := by
    intro c
    have hadd := scatterAdd_tagged hperm c
    rwa [List.length_map] at hadd
  have hmixture : (((src d).map (localSlots numLocal inputs d)).zipIdx.map fun row =>
      mixture experts.expert scoreBeforeExperts
      (((src d).map fun p => (inputs p.1).hiddenStates.getD p.2 0).getD row.2 0) row.1) =
      (src d).map fun p => mixture experts.expert scoreBeforeExperts ((inputs p.1).hiddenStates.getD p.2 0)
        (localSlots numLocal inputs d p) := by
    apply List.ext_getElem
    · simp
    · intro i hi hi'
      have hlt : i < (src d).length := by simpa using hi'
      simp [hlt]
  have hlength : (buffer.dispatch (ranks * numLocal) inputs d).hiddenStates.length = (src d).length := by
    rw [hdelivers.hiddenStates, List.length_map]
  rw [← hmixture]
  unfold finalizeDispatchTokens
  dsimp only
  rw [hpermute, hcounts, hlength]
  cases scoreBeforeExperts with
  | true =>
      simp only [if_true, List.zipWith_map, List.zipWith_self, hrun]
      unfold combineInput
      dsimp only
      rw [hscatter]
      rfl
  | false =>
      simp only [Bool.false_eq_true, if_false, hrun]
      unfold combineInput
      dsimp only
      rw [List.zipWith_map, List.zipWith_self, hscatter]
      rfl

omit [CommRing R] [Module R X] in
theorem sum_filter_zip {ι : Type} [DecidableEq ι] {l : List ι} (hnodup : l.Nodup) (g : ι → X) (q : ι) :
    (((l.zip (l.map g)).filter fun e => e.1 = q).map Prod.snd).sum = if q ∈ l then g q else 0 := by
  have hzip : l.zip (l.map g) = l.map fun a => (a, g a) := by
    simpa using List.zip_map' (f := id) (g := g) (l := l)
  have hfilter : (((l.map fun a => (a, g a)).filter fun e => e.1 = q).map Prod.snd) = (l.filter (· = q)).map g := by
    rw [List.filter_map, List.map_map]
    rfl
  rw [hzip, hfilter, List.filter_eq, List.map_replicate, List.sum_replicate, hnodup.count]
  split
  · exact one_nsmul _
  · exact zero_nsmul _

/-- What the ranks got for a token, given the row of its experts. -/
def rankSlots (numLocal : Nat) (row : List Int) (scores : List R) (d : Nat) : List (R × Nat) :=
  validSlots (row.map (localIndex numLocal d))
    (List.zipWith (fun e score => if e = -1 then 0 else score) (row.map (localIndex numLocal d)) scores)

theorem mixture_cons (expert : Nat → X → X) (scoreBeforeExperts : Bool) (x : X) (slot : R × Nat) (slots : List (R × Nat)) :
    mixture expert scoreBeforeExperts x (slot :: slots) = mixture expert scoreBeforeExperts x [slot] +
      mixture expert scoreBeforeExperts x slots := by
  simp [mixture]

theorem rankSlots_cons (numLocal : Nat) (i : Int) (row : List Int) (score : R) (scores : List R) (d : Nat) :
    rankSlots numLocal (i :: row) (score :: scores) d = if localIndex numLocal d i = -1 then rankSlots numLocal row scores d
      else (score, (localIndex numLocal d i).toNat) :: rankSlots numLocal row scores d := by
  unfold rankSlots
  rw [List.map_cons, List.zipWith_cons_cons, validSlots_cons]
  split
  · rfl
  · rfl

/-- One slot is computed by the rank of its expert only. -/
theorem sum_ranks_slot (expert : Nat → X → X) (scoreBeforeExperts : Bool) (x : X) {e : Nat}
    (he : e < ranks * numLocal) (score : R) :
    ∑ d : Fin ranks, (if localIndex numLocal d e = -1 then 0
      else mixture (fun i => expert (d * numLocal + i)) scoreBeforeExperts x [(score, (localIndex numLocal d e).toNat)]) =
        mixture expert scoreBeforeExperts x [(score, e)] := by
  have hpos : 0 < numLocal := by
    rcases Nat.eq_zero_or_pos numLocal with rfl | hpos
    · omega
    · exact hpos
  have hrank : e / numLocal < ranks := Nat.div_lt_of_lt_mul (by rwa [Nat.mul_comm])
  have hin : e / numLocal * numLocal ≤ e ∧ e < (e / numLocal + 1) * numLocal :=
    ⟨Nat.div_mul_le_self e numLocal, by rw [Nat.mul_comm]; exact Nat.lt_mul_div_succ e hpos⟩
  rw [Finset.sum_eq_single (⟨e / numLocal, hrank⟩ : Fin ranks)]
  · dsimp only
    rw [localIndex_natCast, if_pos hin, if_neg (by omega), Int.toNat_natCast]
    unfold mixture
    simp only [List.map_cons, List.map_nil]
    rw [Nat.add_sub_cancel' hin.1]
  · intro d _ hne
    have hother : localIndex numLocal d e = -1 := by
      rw [localIndex_natCast, if_neg]
      rintro ⟨hle, hlt⟩
      apply hne
      apply Fin.ext
      exact (Nat.div_eq_of_lt_le hle hlt).symm
    rw [if_pos hother]
  · intro hnot
    exact absurd (Finset.mem_univ _) hnot

/-- The ranks together compute all slots of a token; slots without a score add nothing. -/
theorem sum_ranks_mixture [DecidableEq R] (expert : Nat → X → X) (scoreBeforeExperts : Bool)
    (hzero : scoreBeforeExperts = true → ∀ e, expert e 0 = 0) (x : X) {selected : List Nat} {scores : List R}
    (hlength : selected.length = scores.length) (he : ∀ e ∈ selected, e < ranks * numLocal) :
    ∑ d : Fin ranks, mixture (fun i => expert (d * numLocal + i)) scoreBeforeExperts x
      (rankSlots numLocal (List.zipWith (fun (e : Nat) score => if score = 0 then (-1 : Int) else e) selected
        scores) scores d) =
        mixture expert scoreBeforeExperts x (scores.zip selected) := by
  induction selected generalizing scores with
  | nil =>
      obtain rfl := List.length_eq_zero_iff.1 hlength.symm
      simp [rankSlots, validSlots, mixture]
  | cons e selected ih =>
      cases scores with
      | nil => cases hlength
      | cons score scores =>
          rw [List.forall_mem_cons] at he
          have hrest := ih (Nat.succ.inj hlength) he.2
          rw [List.zip_cons_cons, mixture_cons, ← hrest]
          simp only [List.zipWith_cons_cons, rankSlots_cons]
          by_cases hscore : score = 0
          · have hnone : mixture expert scoreBeforeExperts x [(score, e)] = 0 := by
              unfold mixture
              cases scoreBeforeExperts with
              | true => simp [hscore, hzero]
              | false => simp [hscore]
            rw [hnone, zero_add]
            simp only [hscore, if_true, localIndex_neg]
          · simp only [if_neg hscore]
            rw [← sum_ranks_slot expert scoreBeforeExperts x he.1 score, ← Finset.sum_add_distrib]
            apply Finset.sum_congr rfl
            intro d _
            by_cases hlocal : localIndex numLocal d e = -1
            · rw [if_pos hlocal, if_pos hlocal, zero_add]
            · rw [if_neg hlocal, if_neg hlocal]
              exact mixture_cons ..

/-- `top_k` different experts and as many scores for each of the tokens. -/
structure Routed (x : List X) (selectedExpertsIndices : List (List Nat)) (topScores : List (List R))
    (numExperts topK : Nat) : Prop where
  selected_length : selectedExpertsIndices.length = x.length
  topScores_length : topScores.length = x.length
  selected_row : ∀ row ∈ selectedExpertsIndices, row.length = topK ∧ row.Nodup ∧ ∀ e ∈ row, e < numExperts
  topScores_row : ∀ row ∈ topScores, row.length = topK

theorem mem_maskedRow [DecidableEq R] {selected : List Nat} {scores : List R} {i : Int}
    (hi : i ∈ List.zipWith (fun (e : Nat) score => if score = 0 then (-1 : Int) else e) selected scores) :
    i = -1 ∨ ∃ e ∈ selected, i = e := by
  induction selected generalizing scores with
  | nil => cases hi
  | cons e selected ih =>
      cases scores with
      | nil => cases hi
      | cons score scores =>
          rw [List.zipWith_cons_cons, List.mem_cons] at hi
          rcases hi with rfl | hi
          · split
            · exact Or.inl rfl
            · exact Or.inr ⟨e, List.mem_cons_self, rfl⟩
          · rcases ih hi with hnone | ⟨e', he', rfl⟩
            · exact Or.inl hnone
            · exact Or.inr ⟨e', List.mem_cons_of_mem e he', rfl⟩

theorem nodup_maskedRow [DecidableEq R] {selected : List Nat} {scores : List R} (h : selected.Nodup) :
    ((List.zipWith (fun (e : Nat) score => if score = 0 then (-1 : Int) else e) selected scores).filter (· ≠ -1)).Nodup := by
  induction selected generalizing scores with
  | nil => simp
  | cons e selected ih =>
      cases scores with
      | nil => simp
      | cons score scores =>
          rw [List.nodup_cons] at h
          rw [List.zipWith_cons_cons]
          split
          · rw [List.filter_cons_of_neg (by simp)]
            exact ih h.2
          · rw [List.filter_cons_of_pos (by simp), List.nodup_cons]
            refine ⟨?_, ih h.2⟩
            intro hmem
            rcases mem_maskedRow (List.mem_filter.1 hmem).1 with hnone | ⟨e', he', heq⟩
            · omega
            · rw [Int.natCast_inj.1 heq] at h
              exact h.1 he'

omit [AddCommGroup X] [Module R X] in
theorem Routed.valid [DecidableEq R] {x : List X} {selectedExpertsIndices : List (List Nat)}
    {topScores : List (List R)} {numExperts : Nat}
    (h : Routed x selectedExpertsIndices topScores numExperts topK) :
    (⟨x, maskedFill selectedExpertsIndices topScores, topScores⟩ : DispatchInput R X).Valid numExperts topK where
  selected_length := by
    unfold maskedFill
    rw [List.length_zipWith, h.selected_length, h.topScores_length, Nat.min_self]
  topScores_length := h.topScores_length
  selected_row := by
    intro row hrow
    unfold maskedFill at hrow
    obtain ⟨i, hi, rfl⟩ := List.getElem_of_mem hrow
    rw [List.getElem_zipWith]
    obtain ⟨hlength, hnodup, hlt⟩ :=
      h.selected_row _ (List.getElem_mem (by simp at hi; omega : i < selectedExpertsIndices.length))
    refine ⟨?_, nodup_maskedRow hnodup, ?_⟩
    · rw [List.length_zipWith, hlength, h.topScores_row _ (List.getElem_mem _), Nat.min_self]
    · intro e he
      rcases mem_maskedRow he with rfl | ⟨e', he', rfl⟩
      · omega
      · have hlt' := hlt e' he'
        omega
  topScores_row := h.topScores_row

/-- One call gives every token of every rank its mixture. -/
theorem runPendingChunk_eq [DecidableEq R] (hbuffer : buffer.Documented) {kernels : ExpertKernels X}
    (hkernels : kernels.Documented)
    {experts : GroupedExperts X} (hexperts : experts.numExperts = ranks * numLocal) (scoreBeforeExperts : Bool)
    (hzero : scoreBeforeExperts = true → ∀ e, experts.expert e 0 = 0) {x : Fin ranks → List X}
    {selectedExpertsIndices : Fin ranks → List (List Nat)} {topScores : Fin ranks → List (List R)}
    (h : ∀ r, Routed (x r) (selectedExpertsIndices r) (topScores r) experts.numExperts topK) (r : Fin ranks) :
    runPendingChunk buffer kernels experts
      (dispatchTokensAsync buffer experts.numExperts scoreBeforeExperts x selectedExpertsIndices topScores) r =
        List.zipWith (mixture experts.expert scoreBeforeExperts) (x r)
          (List.zipWith List.zip (topScores r) (selectedExpertsIndices r)) := by
  have hranks : 0 < ranks := Nat.zero_lt_of_lt r.isLt
  have hlocal : experts.numExperts / ranks = numLocal := by
    rw [hexperts, Nat.mul_div_cancel_left _ hranks]
  rw [hexperts] at h
  obtain ⟨src, hdelivers⟩ := hbuffer numLocal topK _ fun s => (h s).valid
  have hinput := fun d : Fin ranks => combineInput_eq (fun s => (h s).valid) hdelivers hkernels
      (experts.toLocal ranks d) hlocal
    scoreBeforeExperts d
  dsimp only at hinput
  unfold runPendingChunk combineTokens dispatchTokensAsync
  dsimp only
  rw [hexperts]
  simp only [hinput]
  rw [hdelivers.combine _ fun d => List.length_map _]
  simp only [sum_filter_zip (hdelivers.nodup _)]
  apply List.ext_getElem
  · simp [(h r).selected_length, (h r).topScores_length]
  · intro t ht ht'
    have hx : t < (x r).length := by simpa using ht
    have hselected : t < (selectedExpertsIndices r).length := (h r).selected_length ▸ hx
    have hscores : t < (topScores r).length := (h r).topScores_length ▸ hx
    obtain ⟨hrow, -, hlt⟩ := (h r).selected_row _ (List.getElem_mem hselected)
    have hlength : (selectedExpertsIndices r)[t].length = (topScores r)[t].length := by
      rw [hrow, (h r).topScores_row _ (List.getElem_mem hscores)]
    rw [List.getElem_map, List.getElem_range, List.getElem_zipWith, List.getElem_zipWith,
      ← sum_ranks_mixture experts.expert scoreBeforeExperts hzero (x r)[t] hlength hlt]
    apply Finset.sum_congr rfl
    intro d _
    have hindices : localIndices numLocal (fun s =>
        ⟨x s, maskedFill (selectedExpertsIndices s) (topScores s), topScores s⟩) d (r, t) =
        (List.zipWith (fun (e : Nat) score => if score = 0 then (-1 : Int) else e) (selectedExpertsIndices r)[t]
            (topScores r)[t]).map
          (localIndex numLocal d) := by
      simp [localIndices, maskedFill, hselected, hscores]
    have hslots : localSlots numLocal (fun s =>
        ⟨x s, maskedFill (selectedExpertsIndices s) (topScores s), topScores s⟩) d (r, t) =
        rankSlots numLocal (List.zipWith (fun (e : Nat) score => if score = 0 then (-1 : Int) else e)
          (selectedExpertsIndices r)[t]
          (topScores r)[t]) (topScores r)[t] d := by
      unfold localSlots localScores rankSlots
      rw [hindices]
      simp [hscores]
    have hexpert : (experts.toLocal ranks d).expert = fun e => experts.expert (d * numLocal + e) := by
      funext e
      show experts.expert (d * (experts.numExperts / ranks) + e) = _
      rw [hlocal]
    rw [hslots, hexpert, List.getD_eq_getElem _ _ hx]
    split
    · rfl
    · next hnot =>
        rw [hdelivers.mem_iff, not_and, hindices] at hnot
        have hnone : rankSlots numLocal (List.zipWith (fun (e : Nat) score => if score = 0 then (-1 : Int) else e)
            (selectedExpertsIndices r)[t] (topScores r)[t]) (topScores r)[t] d = [] := by
          apply validSlots_eq_nil
          intro i hi
          by_contra hne
          exact hnot hx ⟨i, hi, hne⟩
        rw [hnone]
        rfl

end

end DeepEp

end AuroraRl.Trainer
