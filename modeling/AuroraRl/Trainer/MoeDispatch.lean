import AuroraRl.Trainer.DeepEp
import Mathlib

/-!
# Mixtures of experts over DeepEP

The ranks of a group run the same layer on their own tokens.

* `groupCalls`, `Completes` : the calls of `deep_ep` a rank makes, and when the group lets it through all of them;
* `dispatchChunk`, `loopTurn`, `routedOutput` : the loop over the chunks, a chunk in flight;
* `MoE.forwardDeepep`, `LatentMoE.forwardDeepep` : the layers over DeepEP;
* `forward_isMixture` : without DeepEP every token gets the mixture of its experts, and over DeepEP exactly when all ranks
  make as many calls.
-/

namespace AuroraRl.Trainer
open DeepEp

variable {R X Z : Type} {ranks : Nat}

/-! ## Chunks -/

namespace DeepEp

def slice {α : Type} (l : List α) (lo hi : Nat) : List α := (l.drop lo).take (hi - lo)

def deepepChunkSize (tokenChunkSize : Option Nat) (numTokens : Nat) : Nat :=
  min (if tokenChunkSize.getD 0 = 0 then numTokens else tokenChunkSize.getD 0) numTokens

def chunkStarts (numTokens chunkSize : Nat) : List Nat :=
  (List.range ((numTokens - chunkSize + chunkSize - 1) / chunkSize)).map fun i => chunkSize + i * chunkSize

/-- The calls of `dispatch` that a rank makes. -/
def numCalls (tokenChunkSize : Option Nat) (numTokens : Nat) : Nat :=
  if numTokens = 0 then 0 else (chunkStarts numTokens (deepepChunkSize tokenChunkSize numTokens)).length + 1

/-- A collective call of `deep_ep`. -/
inductive GroupCall
  | dispatch
  | combine
  deriving DecidableEq

/-- The calls that follow the first `dispatch`, with `n` chunks to come. -/
def pendingCalls : Nat → List GroupCall
  | 0 => [.combine]
  | n + 1 => .dispatch :: .combine :: pendingCalls n

/-- The calls of a rank with a number of chunks: one chunk is in flight. -/
def groupCalls : Nat → List GroupCall
  | 0 => []
  | n + 1 => .dispatch :: pendingCalls n

/-- Every rank makes the calls of this one; otherwise it waits for a rank that does not. -/
def Completes (numCalls : Fin ranks → Nat) (r : Fin ranks) : Prop :=
  ∀ r', groupCalls (numCalls r) <+: groupCalls (numCalls r')

instance (numCalls : Fin ranks → Nat) (r : Fin ranks) : Decidable (Completes numCalls r) :=
  inferInstanceAs (Decidable (∀ r', groupCalls (numCalls r) <+: groupCalls (numCalls r')))

section

variable [CommRing R] [DecidableEq R] [AddCommGroup X] [Module R X]
  (buffer : Buffer R X ranks) (kernels : ExpertKernels X) (experts : GroupedExperts X) (scoreBeforeExperts : Bool)
  (tokenChunkSize : Option Nat) (x : Fin ranks → List X) (selectedExpertsIndices : Fin ranks → List (List Nat))
  (topScores : Fin ranks → List (List R))

/-- `dispatch_chunk` on all ranks. -/
def dispatchChunk (start stop : Fin ranks → Nat) : Fin ranks → PendingDispatchState R X buffer.Handle :=
  dispatchTokensAsync buffer experts.numExperts scoreBeforeExperts (fun r => slice (x r) (start r) (stop r))
    (fun r => slice (selectedExpertsIndices r) (start r) (stop r)) fun r => slice (topScores r) (start r) (stop r)

variable (R X ranks) in
structure LoopState (Handle : Type) where
  pendingState : Fin ranks → PendingDispatchState R X Handle
  routedOutputs : Fin ranks → List (List X)

/-- One turn of the loop on all ranks: the next chunk is sent off before the pending one is run. -/
def loopTurn (state : LoopState R X ranks buffer.Handle) (i : Nat) : LoopState R X ranks buffer.Handle :=
  let chunkSize r := deepepChunkSize tokenChunkSize (x r).length
  let chunkStart r := (chunkStarts (x r).length (chunkSize r)).getD i (x r).length
  let nextPendingState :=
    dispatchChunk buffer experts scoreBeforeExperts x selectedExpertsIndices topScores chunkStart fun r =>
      min (chunkStart r + chunkSize r) (x r).length
  ⟨nextPendingState, fun r => state.routedOutputs r ++ [runPendingChunk buffer kernels experts state.pendingState r]⟩

/-- The rows of all chunks, put together, if the rank gets through its calls; then all ranks have as many chunks. -/
def routedOutput (r : Fin ranks) : Option (List X) :=
  if Completes (fun r => numCalls tokenChunkSize (x r).length) r then
    let chunkSize r := deepepChunkSize tokenChunkSize (x r).length
    let turns := (chunkStarts (x r).length (chunkSize r)).length
    let pendingState := dispatchChunk buffer experts scoreBeforeExperts x selectedExpertsIndices topScores
      (fun _ => 0) chunkSize
    let state := (List.range turns).foldl
      (loopTurn buffer kernels experts scoreBeforeExperts tokenChunkSize x selectedExpertsIndices topScores)
      ⟨pendingState, fun _ => []⟩
    some (state.routedOutputs r ++ [runPendingChunk buffer kernels experts state.pendingState r]).flatten
  else none

end

end DeepEp

/-! ## The layers -/

section

variable [CommRing R] [DecidableEq R] [AddCommGroup X] [Module R X] [AddCommGroup Z] [Module R Z]

namespace MoE

variable (m : MoE R X) (kernels : ExpertKernels X) (buffer : Buffer R X ranks)

/-- `_run_deepep_routed_experts` on all ranks. -/
def runDeepepRoutedExperts (x : Fin ranks → List X) (selectedExpertsIndices : Fin ranks → List (List Nat))
    (topScores : Fin ranks → List (List R)) (r : Fin ranks) : Option (List X) :=
  if (x r).length = 0 then some ((m.sharedExpert.map fun sharedExpert => (x r).map sharedExpert).getD [])
  else do
    let routedOutput ← routedOutput buffer kernels m.experts m.scoreBeforeExperts m.deepepTokenChunkSize x
        selectedExpertsIndices
      topScores r
    return (m.sharedExpert.map fun sharedExpert =>
      List.zipWith (· + ·) ((x r).map sharedExpert) routedOutput).getD routedOutput

/-- The output of `forward` on all ranks, `none` on those that do not return. -/
def forwardDeepep (x : Fin ranks → List X) (routedExperts : Fin ranks → Option (List (List Nat))) :
    Fin ranks → Option (List X) :=
  m.runDeepepRoutedExperts kernels buffer x (fun r => (m.router (x r) (routedExperts r)).selectedExpertsIndices)
    fun r => (m.router (x r) (routedExperts r)).topScores

end MoE

namespace LatentMoE

variable (m : LatentMoE R X Z) (kernels : ExpertKernels Z) (buffer : Buffer R Z ranks)

def runDeepepRoutedExperts (x : Fin ranks → List X) (selectedExpertsIndices : Fin ranks → List (List Nat))
    (topScores : Fin ranks → List (List R)) (r : Fin ranks) : Option (List X) :=
  if (x r).length = 0 then some ((x r).map m.sharedExpert)
  else do
    let latentX r := (x r).map m.fc1LatentProj
    let routedOutput ← routedOutput buffer kernels m.experts false m.deepepTokenChunkSize latentX
      selectedExpertsIndices topScores r
    let routedOutput := (routedOutput.map (m.routedScalingFactor • ·)).map m.fc2LatentProj
    return List.zipWith (· + ·) ((x r).map m.sharedExpert) routedOutput

/-- The output of `forward` on all ranks, `none` on those that do not return. -/
def forwardDeepep (x : Fin ranks → List X) : Fin ranks → Option (List X) :=
  m.runDeepepRoutedExperts kernels buffer x (fun r => (m.router (x r)).selectedExpertsIndices) fun r =>
    (m.router (x r)).topScores

end LatentMoE

end

/-! ## The loop over the chunks -/

namespace DeepEp

theorem pendingCalls_prefix_iff {n n' : Nat} : pendingCalls n <+: pendingCalls n' ↔ n = n' := by
  induction n generalizing n' with
  | zero =>
      cases n' with
      | zero => exact ⟨fun _ => rfl, fun _ => List.prefix_rfl⟩
      | succ n' => simp [pendingCalls, List.cons_prefix_cons]
  | succ n ih =>
      cases n' with
      | zero => simp [pendingCalls, List.cons_prefix_cons]
      | succ n' => simp [pendingCalls, List.cons_prefix_cons, ih]

/-- A rank with tokens gets through its calls exactly when all ranks make as many. -/
theorem completes_iff {numCalls : Fin ranks → Nat} {r : Fin ranks} (hr : numCalls r ≠ 0) :
    Completes numCalls r ↔ ∀ r', numCalls r' = numCalls r := by
  refine forall_congr' fun r' => ?_
  obtain ⟨n, hn⟩ := Nat.exists_eq_succ_of_ne_zero hr
  rw [hn]
  cases hn' : numCalls r' with
  | zero => simp [groupCalls]
  | succ n' =>
      rw [groupCalls, groupCalls, List.cons_prefix_cons, pendingCalls_prefix_iff, and_iff_right rfl, Nat.succ_inj]
      exact eq_comm

theorem numCalls_ne_zero {tokenChunkSize : Option Nat} {numTokens : Nat} :
    numCalls tokenChunkSize numTokens ≠ 0 ↔ numTokens ≠ 0 := by
  unfold numCalls
  split
  · simp [*]
  · simp [*]

theorem slice_zipWith {α β γ : Type} (f : α → β → γ) (as : List α) (bs : List β) (lo hi : Nat) :
    slice (List.zipWith f as bs) lo hi = List.zipWith f (slice as lo hi) (slice bs lo hi) := by
  unfold slice
  rw [List.drop_zipWith, List.take_zipWith]

theorem mem_of_mem_slice {α : Type} {l : List α} {lo hi : Nat} {a : α} (h : a ∈ slice l lo hi) : a ∈ l :=
  List.mem_of_mem_drop (List.mem_of_mem_take h)

theorem take_append_slice {α : Type} (l : List α) {lo hi : Nat} (h : lo ≤ hi) : l.take lo ++ slice l lo hi = l.take hi := by
  obtain ⟨k, rfl⟩ := Nat.exists_eq_add_of_le h
  unfold slice
  rw [Nat.add_sub_cancel_left, ← List.take_add]

theorem length_slice {α β : Type} {as : List α} {bs : List β} (h : as.length = bs.length) (lo hi : Nat) :
    (slice as lo hi).length = (slice bs lo hi).length := by
  unfold slice
  simp [h]

theorem deepepChunkSize_bounds (tokenChunkSize : Option Nat) {numTokens : Nat} (h : 0 < numTokens) :
    0 < deepepChunkSize tokenChunkSize numTokens ∧ deepepChunkSize tokenChunkSize numTokens ≤ numTokens := by
  unfold deepepChunkSize
  split <;> omega

theorem getD_chunkStarts {numTokens chunkSize i : Nat} (h : i < (chunkStarts numTokens chunkSize).length) (d : Nat) :
    (chunkStarts numTokens chunkSize).getD i d = (i + 1) * chunkSize := by
  unfold chunkStarts at h ⊢
  rw [List.length_map, List.length_range] at h
  rw [List.getD_eq_getElem?_getD, List.getElem?_map, List.getElem?_range h, Option.map_some, Option.getD_some,
    Nat.succ_mul, Nat.add_comm]

theorem chunkStarts_length {numTokens chunkSize : Nat} (hpos : 0 < chunkSize) (hle : chunkSize ≤ numTokens) :
    (chunkStarts numTokens chunkSize).length * chunkSize < numTokens ∧
      numTokens ≤ (chunkStarts numTokens chunkSize).length * chunkSize + chunkSize := by
  have hlength : (chunkStarts numTokens chunkSize).length = (numTokens - 1) / chunkSize := by
    unfold chunkStarts
    rw [List.length_map, List.length_range]
    congr 1
    omega
  have hle' := Nat.div_mul_le_self (numTokens - 1) chunkSize
  have hlt := Nat.lt_div_mul_add hpos (a := numTokens - 1)
  rw [hlength]
  omega

section

variable [CommRing R] [DecidableEq R] [AddCommGroup X] [Module R X]
  {buffer : Buffer R X ranks} {kernels : ExpertKernels X} {experts : GroupedExperts X} {scoreBeforeExperts : Bool}
  {tokenChunkSize : Option Nat} {x : Fin ranks → List X} {selectedExpertsIndices : Fin ranks → List (List Nat)}
  {topScores : Fin ranks → List (List R)} {topK numLocal : Nat}

omit [CommRing R] [DecidableEq R] [AddCommGroup X] [Module R X] in
theorem Routed.slice {x : List X} {selectedExpertsIndices : List (List Nat)} {topScores : List (List R)} {numExperts : Nat}
    (h : Routed x selectedExpertsIndices topScores numExperts topK) (lo hi : Nat) :
    Routed (slice x lo hi) (DeepEp.slice selectedExpertsIndices lo hi) (DeepEp.slice topScores lo hi) numExperts topK where
  selected_length := length_slice h.selected_length lo hi
  topScores_length := length_slice h.topScores_length lo hi
  selected_row row hrow := h.selected_row row (mem_of_mem_slice hrow)
  topScores_row row hrow := h.topScores_row row (mem_of_mem_slice hrow)

def mixtures (experts : GroupedExperts X) (scoreBeforeExperts : Bool) (x : List X) (selectedExpertsIndices : List (List Nat))
    (topScores : List (List R)) : List X :=
  List.zipWith (mixture experts.expert scoreBeforeExperts) x (List.zipWith List.zip topScores selectedExpertsIndices)

/-- What every chunk needs. -/
structure Ready (buffer : Buffer R X ranks) (kernels : ExpertKernels X) (experts : GroupedExperts X)
    (scoreBeforeExperts : Bool)
    (x : Fin ranks → List X) (selectedExpertsIndices : Fin ranks → List (List Nat)) (topScores : Fin ranks → List (List R))
    (topK numLocal : Nat) : Prop where
  buffer : buffer.Documented
  kernels : kernels.Documented
  numExperts : experts.numExperts = ranks * numLocal
  zero : scoreBeforeExperts = true → ∀ e, experts.expert e 0 = 0
  routed : ∀ r, Routed (x r) (selectedExpertsIndices r) (topScores r) experts.numExperts topK

theorem runPendingChunk_slice (h : Ready buffer kernels experts scoreBeforeExperts x selectedExpertsIndices
    topScores topK numLocal)
    (start stop : Fin ranks → Nat) (r : Fin ranks) :
    runPendingChunk buffer kernels experts (dispatchChunk buffer experts scoreBeforeExperts x
      selectedExpertsIndices topScores start stop) r =
      slice (mixtures experts scoreBeforeExperts (x r) (selectedExpertsIndices r) (topScores r)) (start r) (stop r) := by
  unfold dispatchChunk mixtures
  rw [slice_zipWith, slice_zipWith]
  exact runPendingChunk_eq h.buffer h.kernels h.numExperts scoreBeforeExperts h.zero
    (fun r => (h.routed r).slice (start r) (stop r)) r

/-- After `k` turns chunk `k` is pending and the chunks before it are done. -/
structure LoopInvariant (buffer : Buffer R X ranks) (experts : GroupedExperts X) (scoreBeforeExperts : Bool)
    (tokenChunkSize : Option Nat)
    (x : Fin ranks → List X) (selectedExpertsIndices : Fin ranks → List (List Nat))
    (topScores : Fin ranks → List (List R)) (k : Nat)
    (state : LoopState R X ranks buffer.Handle) : Prop where
  pendingState : state.pendingState = dispatchChunk buffer experts scoreBeforeExperts x selectedExpertsIndices topScores
    (fun r => k * deepepChunkSize tokenChunkSize (x r).length)
    fun r => min (k * deepepChunkSize tokenChunkSize (x r).length + deepepChunkSize tokenChunkSize (x r).length) (x r).length
  routedOutputs : ∀ r, (state.routedOutputs r).flatten =
    (mixtures experts scoreBeforeExperts (x r) (selectedExpertsIndices r) (topScores r)).take
      (k * deepepChunkSize tokenChunkSize (x r).length)

omit [DecidableEq R] in
theorem mixtures_length {experts : GroupedExperts X} {x : List X} {selectedExpertsIndices : List (List Nat)}
    {topScores : List (List R)}
    {numExperts : Nat} (h : Routed x selectedExpertsIndices topScores numExperts topK) (scoreBeforeExperts : Bool) :
    (mixtures experts scoreBeforeExperts x selectedExpertsIndices topScores).length = x.length := by
  unfold mixtures
  simp [h.selected_length, h.topScores_length]

/-- With the pending chunk, `k + 1` chunks are done. -/
theorem LoopInvariant.append (h : Ready buffer kernels experts scoreBeforeExperts x selectedExpertsIndices
    topScores topK numLocal) {k : Nat}
    {state : LoopState R X ranks buffer.Handle}
    (hinv : LoopInvariant buffer experts scoreBeforeExperts tokenChunkSize x selectedExpertsIndices topScores k
      state) {r : Fin ranks}
    (hk : k * deepepChunkSize tokenChunkSize (x r).length ≤ (x r).length) :
    (state.routedOutputs r ++ [runPendingChunk buffer kernels experts state.pendingState r]).flatten =
      (mixtures experts scoreBeforeExperts (x r) (selectedExpertsIndices r) (topScores r)).take
        ((k + 1) * deepepChunkSize tokenChunkSize (x r).length) := by
  have hlength : (mixtures experts scoreBeforeExperts (x r) (selectedExpertsIndices r) (topScores r)).length = (x r).length :=
    mixtures_length (h.routed r) scoreBeforeExperts
  rw [List.flatten_append, List.flatten_singleton, hinv.routedOutputs, hinv.pendingState, runPendingChunk_slice h,
    take_append_slice _ (by omega), List.take_eq_take_iff, hlength, Nat.succ_mul]
  omega

theorem LoopInvariant.turn (h : Ready buffer kernels experts scoreBeforeExperts x selectedExpertsIndices
    topScores topK numLocal) {k : Nat}
    {state : LoopState R X ranks buffer.Handle}
    (hinv : LoopInvariant buffer experts scoreBeforeExperts tokenChunkSize x selectedExpertsIndices topScores k state)
    (hk : ∀ r, k < (chunkStarts (x r).length (deepepChunkSize tokenChunkSize (x r).length)).length)
    (hpos : ∀ r, 0 < (x r).length) :
    LoopInvariant buffer experts scoreBeforeExperts tokenChunkSize x selectedExpertsIndices topScores (k + 1)
      (loopTurn buffer kernels experts scoreBeforeExperts tokenChunkSize x selectedExpertsIndices topScores state k) := by
  have hstart : ∀ r, (chunkStarts (x r).length (deepepChunkSize tokenChunkSize (x r).length)).getD k (x r).length =
      (k + 1) * deepepChunkSize tokenChunkSize (x r).length := by
    intro r
    exact getD_chunkStarts (hk r) _
  constructor
  · unfold loopTurn
    simp only [hstart]
  · intro r
    apply hinv.append h
    have hbounds := deepepChunkSize_bounds tokenChunkSize (hpos r)
    have hlast := (chunkStarts_length hbounds.1 hbounds.2).1
    have hmul := Nat.mul_le_mul_right (deepepChunkSize tokenChunkSize (x r).length) (hk r).le
    omega

theorem LoopInvariant.foldl (h : Ready buffer kernels experts scoreBeforeExperts x selectedExpertsIndices
    topScores topK numLocal)
    (hpos : ∀ r, 0 < (x r).length) {turns : Nat}
    (hturns : ∀ r, turns ≤ (chunkStarts (x r).length (deepepChunkSize tokenChunkSize (x r).length)).length) :
    LoopInvariant buffer experts scoreBeforeExperts tokenChunkSize x selectedExpertsIndices topScores turns
      ((List.range turns).foldl (loopTurn buffer kernels experts scoreBeforeExperts tokenChunkSize x
        selectedExpertsIndices topScores)
        ⟨dispatchChunk buffer experts scoreBeforeExperts x selectedExpertsIndices topScores (fun _ => 0) fun r =>
          deepepChunkSize tokenChunkSize (x r).length, fun _ => []⟩) := by
  induction turns with
  | zero =>
      constructor
      · have hmin : ∀ r, min (deepepChunkSize tokenChunkSize (x r).length) (x r).length =
            deepepChunkSize tokenChunkSize (x r).length :=
          fun r => min_eq_left (deepepChunkSize_bounds tokenChunkSize (hpos r)).2
        simp only [Nat.zero_mul, Nat.zero_add, hmin]
        rfl
      · intro r
        simp
  | succ k ih =>
      rw [List.range_succ, List.foldl_append]
      exact (ih fun r => (Nat.le_succ k).trans (hturns r)).turn h hturns hpos

/-- The chunks together are all tokens, if the ranks make as many calls. -/
theorem routedOutput_eq (h : Ready buffer kernels experts scoreBeforeExperts x selectedExpertsIndices topScores topK numLocal)
    {r : Fin ranks} (hr : (x r).length ≠ 0) :
    routedOutput buffer kernels experts scoreBeforeExperts tokenChunkSize x selectedExpertsIndices topScores r =
      if ∀ r', numCalls tokenChunkSize (x r').length = numCalls tokenChunkSize (x r).length then
        some (mixtures experts scoreBeforeExperts (x r) (selectedExpertsIndices r) (topScores r))
      else none := by
  have hcompletes : Completes (fun r => numCalls tokenChunkSize (x r).length) r ↔
      ∀ r', numCalls tokenChunkSize (x r').length = numCalls tokenChunkSize (x r).length :=
    completes_iff (numCalls_ne_zero.2 hr)
  unfold routedOutput
  dsimp only
  by_cases hcalls : ∀ r', numCalls tokenChunkSize (x r').length = numCalls tokenChunkSize (x r).length
  · rw [if_pos (hcompletes.2 hcalls), if_pos hcalls]
    have hpos : ∀ r', 0 < (x r').length := fun r' =>
      Nat.pos_of_ne_zero (numCalls_ne_zero.1 (hcalls r' ▸ numCalls_ne_zero.2 hr))
    have hturns : ∀ r', (chunkStarts (x r).length (deepepChunkSize tokenChunkSize (x r).length)).length ≤
        (chunkStarts (x r').length (deepepChunkSize tokenChunkSize (x r').length)).length := by
      intro r'
      have hcall := hcalls r'
      unfold numCalls at hcall
      rw [if_neg hr, if_neg (hpos r').ne'] at hcall
      omega
    have hinv : LoopInvariant buffer experts scoreBeforeExperts tokenChunkSize x selectedExpertsIndices topScores _ _ :=
      LoopInvariant.foldl h hpos hturns
    have hbounds := deepepChunkSize_bounds tokenChunkSize (hpos r)
    have hlast := chunkStarts_length hbounds.1 hbounds.2
    rw [hinv.append h hlast.1.le, List.take_of_length_le]
    rw [mixtures_length (h.routed r), Nat.succ_mul]
    exact hlast.2
  · rw [if_neg (mt hcompletes.1 hcalls), if_neg hcalls]

end

end DeepEp

/-! ## The layers over DeepEP -/

section

variable [CommRing R] [DecidableEq R] [AddCommGroup X] [Module R X] [AddCommGroup Z] [Module R Z]

omit [CommRing R] [DecidableEq R] [AddCommGroup X] [Module R X] in
theorem Routing.Routes.routed {routing : Routing R} {n numExperts topK : Nat} (h : routing.Routes n numExperts topK)
    (hdistinct : ∀ row ∈ routing.selectedExpertsIndices, row.Nodup) {x : List X} (hx : x.length = n) :
    Routed x routing.selectedExpertsIndices routing.topScores numExperts topK where
  selected_length := h.selected_length.trans hx.symm
  topScores_length := h.topScores_length.trans hx.symm
  selected_row row hrow := ⟨(h.selected_row row hrow).1, hdistinct row hrow, (h.selected_row row hrow).2⟩
  topScores_row := h.topScores_row

theorem zipWith_zipWith_self {α β γ δ : Type} (f : α → γ → δ) (g : α → β → γ) (as : List α) (bs : List β) :
    List.zipWith f as (List.zipWith g as bs) = List.zipWith (fun a b => f a (g a b)) as bs := by
  induction as generalizing bs with
  | nil => rfl
  | cons a as ih =>
      cases bs with
      | nil => rfl
      | cons b bs => simp [ih]

/-- What the ranks need of the routings of their tokens: different experts for a token. -/
structure GroupRouted (numExperts topK : Nat) (numTokens : Fin ranks → Nat) (routing : Fin ranks → Routing R) : Prop where
  routes : ∀ r, (routing r).Routes (numTokens r) numExperts topK
  distinct : ∀ r, ∀ row ∈ (routing r).selectedExpertsIndices, row.Nodup

/-- All ranks make as many calls. -/
def SameCalls (tokenChunkSize : Option Nat) (x : Fin ranks → List X) : Prop :=
  ∀ r r', numCalls tokenChunkSize (x r').length = numCalls tokenChunkSize (x r).length

omit [CommRing R] [DecidableEq R] [AddCommGroup X] [Module R X] in
/-- Every rank returns its rows exactly when all make as many calls, as one without tokens makes none and returns. -/
theorem sameCalls_iff {tokenChunkSize : Option Nat} {x : Fin ranks → List X} {α : Type} {forward : Fin ranks → Option α}
    {rows : Fin ranks → α} (hempty : ∀ r, (x r).length = 0 → forward r = some (rows r))
    (hsome : ∀ r, (x r).length ≠ 0 → forward r =
      if ∀ r', numCalls tokenChunkSize (x r').length = numCalls tokenChunkSize (x r).length then some (rows r) else none) :
    (∀ r, forward r = some (rows r)) ↔ SameCalls tokenChunkSize x := by
  constructor
  · intro h
    have hcalls : ∀ r, (x r).length ≠ 0 → ∀ r', 
        numCalls tokenChunkSize (x r').length = numCalls tokenChunkSize (x r).length := by
      intro r hr
      by_contra hnot
      have hr' := (h r).symm.trans (hsome r hr)
      rw [if_neg hnot] at hr'
      cases hr'
    intro r r'
    by_cases hr : (x r).length = 0
    · by_cases hr' : (x r').length = 0
      · rw [hr, hr']
      · exact (hcalls r' hr' r).symm
    · exact hcalls r hr r'
  · intro h r
    by_cases hr : (x r).length = 0
    · exact hempty r hr
    · rw [hsome r hr, if_pos (h r)]

theorem MoE.forwardDeepep_iff {m : MoE R X} {kernels : ExpertKernels X} {buffer : Buffer R X ranks}
    (hkernels : kernels.Documented)
    (hbuffer : buffer.Documented) (hranks : ranks ∣ m.experts.numExperts)
    (hzero : m.scoreBeforeExperts = true → ∀ e, m.experts.expert e 0 = 0) {x : Fin ranks → List X}
    {routedExperts : Fin ranks → Option (List (List Nat))} (h : GroupRouted m.experts.numExperts m.topK
      (fun r => (x r).length) fun r => m.router (x r) (routedExperts r)) :
    (∀ r, m.forwardDeepep kernels buffer x routedExperts r = some (m.naive (x r) (m.router (x r) (routedExperts r)))) ↔
      SameCalls m.deepepTokenChunkSize x := by
  obtain ⟨numLocal, hlocal⟩ := hranks
  have hready : Ready buffer kernels m.experts m.scoreBeforeExperts x
      (fun r => (m.router (x r) (routedExperts r)).selectedExpertsIndices)
      (fun r => (m.router (x r) (routedExperts r)).topScores) m.topK numLocal :=
    ⟨hbuffer, hkernels, hlocal, hzero, fun r => (h.routes r).routed (h.distinct r) rfl⟩
  unfold forwardDeepep runDeepepRoutedExperts naive
  refine sameCalls_iff (fun r hr => ?_) fun r hr => ?_
  · rw [if_pos hr, List.length_eq_zero_iff.1 hr]
    cases m.sharedExpert <;> rfl
  · rw [if_neg hr, routedOutput_eq hready hr]
    split_ifs
    · unfold mixtures shared
      cases m.sharedExpert with
      | none => simp [Routing.slots]
      | some sharedExpert =>
          simp only [Option.map_some, Option.getD_some]
          show some (List.zipWith (· + ·) ((x r).map sharedExpert) _) = _
          rw [List.zipWith_map_left, zipWith_zipWith_self]
          rfl
    · rfl

theorem LatentMoE.forwardDeepep_iff {m : LatentMoE R X Z} {kernels : ExpertKernels Z} {buffer : Buffer R Z ranks}
    (hkernels : kernels.Documented) (hbuffer : buffer.Documented) (hranks : ranks ∣ m.experts.numExperts)
    {x : Fin ranks → List X}
    (h : GroupRouted m.experts.numExperts m.topK (fun r => (x r).length) fun r => m.router (x r)) :
    (∀ r, m.forwardDeepep kernels buffer x r = some (m.naive (x r) (m.router (x r)))) ↔
    SameCalls m.deepepTokenChunkSize x := by
  obtain ⟨numLocal, hlocal⟩ := hranks
  have hready : Ready buffer kernels m.experts false (fun r => (x r).map m.fc1LatentProj)
      (fun r => (m.router (x r)).selectedExpertsIndices) (fun r => (m.router (x r)).topScores) m.topK numLocal :=
    ⟨hbuffer, hkernels, hlocal, fun hfalse => Bool.noConfusion hfalse,
      fun r => (h.routes r).routed (h.distinct r) (List.length_map _)⟩
  unfold forwardDeepep runDeepepRoutedExperts naive
  refine sameCalls_iff (fun r hr => ?_) fun r hr => ?_
  · rw [if_pos hr, List.length_eq_zero_iff.1 hr]
    rfl
  · have hcalls : ∀ r, ((x r).map m.fc1LatentProj).length = (x r).length := fun r => List.length_map _
    rw [if_neg hr]
    dsimp only
    rw [routedOutput_eq hready ((hcalls r).trans_ne hr)]
    simp only [hcalls]
    split_ifs
    · unfold mixtures
      show some _ = some _
      rw [List.map_map, List.map_zipWith, List.zipWith_map_left, List.zipWith_map_left, zipWith_zipWith_self]
      rfl
    · rfl

/-- **Main.** Without DeepEP for every routing, both layers give every token the mixture of its experts; over DeepEP, for
different experts, all ranks return these rows exactly when they make as many calls. -/
theorem forward_isMixture {kernels : ExpertKernels X} (hkernels : kernels.Documented) {latentKernels : ExpertKernels Z}
    (hlatent : latentKernels.Documented) (m : MoE R X) (l : LatentMoE R X Z) :
    (∀ x routedExperts, (m.router x routedExperts).Routes x.length m.experts.numExperts m.topK →
      (m.forward kernels x routedExperts).1 = m.naive x (m.router x routedExperts)) ∧
    (∀ x, (l.router x).Routes x.length l.experts.numExperts l.topK → (l.forward latentKernels x).1 = l.naive x (l.router x)) ∧
    (∀ buffer : Buffer R X ranks, buffer.Documented → ranks ∣ m.experts.numExperts →
      (m.scoreBeforeExperts = true → ∀ e, m.experts.expert e 0 = 0) → ∀ (x : Fin ranks → List X) routedExperts,
      GroupRouted m.experts.numExperts m.topK (fun r => (x r).length) (fun r => m.router (x r) (routedExperts r)) →
      ((∀ r, m.forwardDeepep kernels buffer x routedExperts r = some (m.naive (x r) (m.router (x r) (routedExperts r)))) ↔
        SameCalls m.deepepTokenChunkSize x)) ∧
    ∀ buffer : Buffer R Z ranks, buffer.Documented → ranks ∣ l.experts.numExperts → ∀ x : Fin ranks → List X,
      GroupRouted l.experts.numExperts l.topK (fun r => (x r).length) (fun r => l.router (x r)) →
      ((∀ r, l.forwardDeepep latentKernels buffer x r = some (l.naive (x r) (l.router (x r)))) ↔
        SameCalls l.deepepTokenChunkSize x) := by
  refine ⟨?_, ?_, ?_, ?_⟩
  · intro x routedExperts h
    rw [MoE.forward_eq hkernels m h]
  · intro x h
    rw [LatentMoE.forward_eq hlatent l h]
  · intro buffer hbuffer hranks hzero x routedExperts h
    exact MoE.forwardDeepep_iff hkernels hbuffer hranks hzero h
  · intro buffer hbuffer hranks x h
    exact LatentMoE.forwardDeepep_iff hlatent hbuffer hranks h

/-! ## A buffer in memory -/

/-- The tokens with an expert of rank `d`, rank by rank. -/
def sources (numLocal : Nat) (inputs : Fin ranks → DispatchInput R X) (d : Fin ranks) : List (Fin ranks × Nat) :=
  (List.finRange ranks).flatMap fun s =>
    ((List.range (inputs s).hiddenStates.length).filter fun t => (localIndices numLocal inputs d (s, t)).any
      (· ≠ -1)).map (s, ·)

/-- A buffer whose handles are the tokens a rank got, and the number of tokens of all ranks. -/
def memoryBuffer (R X : Type) [CommRing R] [AddCommGroup X] (ranks : Nat) : Buffer R X ranks where
  Handle := List (Fin ranks × Nat) × (Fin ranks → Nat)
  dispatch numExperts inputs d :=
    let src := sources (numExperts / ranks) inputs d
    { hiddenStates := src.map fun p => (inputs p.1).hiddenStates.getD p.2 0
      dispatchedIndices := src.map (localIndices (numExperts / ranks) inputs d)
      dispatchedScores := src.map (localScores (numExperts / ranks) inputs d)
      numTokensPerExpert := (List.range (numExperts / ranks)).map fun e : Nat =>
        src.countP fun p => decide ((e : Int) ∈ localIndices (numExperts / ranks) inputs d p)
      handle := (src, fun s => (inputs s).hiddenStates.length) }
  combine y s := (List.range ((y s).2.2 s)).map fun t =>
    ∑ d, ((((y d).2.1.zip (y d).1).filter fun e => e.1 = (s, t)).map Prod.snd).sum

omit [DecidableEq R] [Module R X] in
theorem memoryBuffer_documented : (memoryBuffer R X ranks).Documented := by
  intro numLocal topK inputs _
  have hlocal : ∀ _ : Fin ranks, ranks * numLocal / ranks = numLocal :=
    fun d => Nat.mul_div_cancel_left _ (Nat.zero_lt_of_lt d.isLt)
  refine ⟨sources numLocal inputs, ?_⟩
  constructor
  · intro d
    apply List.nodup_flatMap.2
    refine ⟨?_, ?_⟩
    · intro s _
      apply List.Nodup.map
      · intro t t' heq
        exact (Prod.mk.inj heq).2
      · exact List.nodup_range.filter _
    · apply (List.nodup_finRange ranks).imp
      intro s s' hne p hp hp'
      obtain ⟨t, -, rfl⟩ := List.mem_map.1 hp
      obtain ⟨t', -, heq⟩ := List.mem_map.1 hp'
      exact hne (Prod.mk.inj heq).1.symm
  · intro d s t
    unfold sources
    simp
  · intro d
    simp only [memoryBuffer, hlocal d]
  · intro d
    simp only [memoryBuffer, hlocal d]
  · intro d
    simp only [memoryBuffer, hlocal d]
  · intro d
    simp only [memoryBuffer, hlocal d]
  · intro y _ s
    simp only [memoryBuffer, hlocal s]

/-- The grouped products as a loop over the groups, and a decorator that adds nothing. -/
def loopKernels (X : Type) : ExpertKernels X := ⟨fun expert x sizes => Grouped.mapGroups expert sizes x, id⟩

omit [DecidableEq R] in
theorem loopKernels_documented : (loopKernels X).Documented := ⟨fun _ _ _ _ => rfl, fun _ _ _ _ => rfl⟩

end

/-- Two experts for every token, a score of zero among them. -/
def slotPairs (numTokens : Nat) : Routing ℚ :=
  ⟨List.replicate numTokens [2, 0], List.replicate numTokens [1, 0], [numTokens, numTokens], 1⟩

theorem slotPairs_routes (numTokens : Nat) : (slotPairs numTokens).Routes numTokens 2 2 := by
  constructor <;> simp [slotPairs]

theorem slotPairs_groupRouted (numTokens : Fin 2 → Nat) : GroupRouted 2 2 numTokens fun r => slotPairs (numTokens r) := by
  refine ⟨fun r => slotPairs_routes _, fun r row hrow => ?_⟩
  rw [List.eq_of_mem_replicate hrow]
  decide

abbrev NumberRow := Fin 1 → ℚ

/-- Expert `e` computes `(e + 1) * x ^ 2`. -/
def twoExperts (scoreBeforeExperts : Bool) : MoE ℚ NumberRow where
  experts := ⟨2, fun e => gatedExpert (fun x => x) (1 : Matrix (Fin 1) (Fin 1) ℚ) ((e + 1 : ℚ) • 1) 1, true⟩
  topK := 2
  router x _ := slotPairs x.length
  sharedExpert := some fun x => x + 1
  scoreBeforeExperts := scoreBeforeExperts
  deepepTokenChunkSize := some 1
  tokensPerExpert := [0, 0]
  routingConfidenceSum := 0

def twoLatentExperts : LatentMoE ℚ NumberRow NumberRow where
  experts := ⟨2, fun e => nonGatedExpert (1 : Matrix (Fin 1) (Fin 1) ℚ) ((e + 1 : ℚ) • 1), false⟩
  topK := 2
  router x := slotPairs x.length
  sharedExpert x := x + 1
  fc1LatentProj := 2 • LinearMap.id
  fc2LatentProj := 3 • LinearMap.id
  routedScalingFactor := 5 / 2
  deepepTokenChunkSize := none
  tokensPerExpert := [0, 0]
  routingConfidenceSum := 0

theorem twoExperts_zero (scoreBeforeExperts : Bool) (e : Nat) : (twoExperts scoreBeforeExperts).experts.expert e 0 = 0 :=
  gatedExpert_zero (fun x => x) (1 : Matrix (Fin 1) (Fin 1) ℚ) ((e + 1 : ℚ) • 1) 1

theorem forward_isMixture_example :
    ((twoExperts false).forward (loopKernels NumberRow) [1, 2] (some [[0, 1], [1, 0]])).1 =
      (twoExperts false).naive [1, 2] (slotPairs 2) ∧
    (twoLatentExperts.forward (loopKernels NumberRow) [1, 2]).1 = twoLatentExperts.naive [1, 2] (slotPairs 2) ∧
    (twoExperts true).forwardDeepep (loopKernels NumberRow) (memoryBuffer ℚ NumberRow 2) ![[1, 2], [3, 4]] (fun _ => none) 0 =
      some ((twoExperts true).naive [1, 2] (slotPairs 2)) ∧
    twoLatentExperts.forwardDeepep (loopKernels NumberRow) (memoryBuffer ℚ NumberRow 2) ![[1, 2], [3]] 1 =
      some (twoLatentExperts.naive [3] (slotPairs 1)) := by
  have hafter := @forward_isMixture ℚ NumberRow NumberRow 2 _ _ _ _ _ _ _ loopKernels_documented _ loopKernels_documented
    (twoExperts false) twoLatentExperts
  have hbefore := @forward_isMixture ℚ NumberRow NumberRow 2 _ _ _ _ _ _ _ loopKernels_documented _ loopKernels_documented
    (twoExperts true) twoLatentExperts
  refine ⟨?_, ?_, ?_, ?_⟩
  · exact hafter.1 [1, 2] (some [[0, 1], [1, 0]]) (slotPairs_routes 2)
  · exact hafter.2.1 [1, 2] (slotPairs_routes 2)
  · refine (hbefore.2.2.1 _ memoryBuffer_documented (Nat.dvd_refl 2) (fun _ => twoExperts_zero true) ![[1, 2], [3, 4]]
      (fun _ => none) (slotPairs_groupRouted _)).2 (fun r r' => ?_) 0
    fin_cases r <;> fin_cases r' <;> rfl
  · refine (hafter.2.2.2 _ memoryBuffer_documented (Nat.dvd_refl 2) ![[1, 2], [3]] (slotPairs_groupRouted _)).2
      (fun r r' => ?_) 1
    fin_cases r <;> fin_cases r' <;> rfl

/-- With chunks of one token, a rank with two tokens waits for a rank with one. -/
theorem forward_isMixture_waits : (memoryBuffer ℚ NumberRow 2).Documented ∧ (loopKernels NumberRow).Documented ∧
    (∀ e, (twoExperts true).experts.expert e 0 = 0) ∧
    GroupRouted 2 2 (fun r => (![[1, 2], [3]] r : List NumberRow).length)
      (fun r => (twoExperts true).router (![[1, 2], [3]] r) none) ∧
    (twoExperts true).forwardDeepep (loopKernels NumberRow) (memoryBuffer ℚ NumberRow 2) ![[1, 2], [3]]
    (fun _ => none) 0 = none := by
  refine ⟨memoryBuffer_documented, loopKernels_documented, twoExperts_zero true, slotPairs_groupRouted _, ?_⟩
  have hwaits : ¬ Completes (fun r => numCalls (some 1) (![[1, 2], [3]] r : List NumberRow).length) 0 := by decide
  unfold MoE.forwardDeepep MoE.runDeepepRoutedExperts
  rw [if_neg (by decide), routedOutput]
  exact congrArg (Option.bind · _) (if_neg hwaits)

end AuroraRl.Trainer
