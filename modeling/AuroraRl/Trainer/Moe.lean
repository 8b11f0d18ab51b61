import AuroraRl.Lib.Grouped
import AuroraRl.Trainer.Router
import Mathlib

/-!
# Mixtures of experts

The tokens are those of all sequences, one after the other; `R` stands for the numbers and `X` for the rows.

* `GroupedExperts` : the rows of every expert through the expert, in a loop or by `torch._grouped_mm`;
* `TokenReorderer` : the slots of all tokens in the order of their experts;
* `MoE.forward`, `LatentMoE.forward` : the paths without DeepEP;
* `mixture` : what a token gets, slot by slot;
* `MoE.forward_eq`, `LatentMoE.forward_eq` : the paths are the mixture.
-/

namespace AuroraRl.Trainer
open Grouped Indexing

variable {R X Z : Type}

/-! ## Experts -/

section

variable {dim hiddenDim : Nat} [CommRing R]

/-- An expert of `GroupedExperts` on a row. -/
def gatedExpert (silu : R → R) (w1 : Matrix (Fin hiddenDim) (Fin dim) R) (w2 : Matrix (Fin dim) (Fin hiddenDim) R)
    (w3 : Matrix (Fin hiddenDim) (Fin dim) R) (x : Fin dim → R) : Fin dim → R :=
  w2.mulVec fun i => silu (w1.mulVec x i) * w3.mulVec x i

theorem gatedExpert_zero (silu : R → R) (w1 : Matrix (Fin hiddenDim) (Fin dim) R) (w2 : Matrix (Fin dim) (Fin hiddenDim) R)
    (w3 : Matrix (Fin hiddenDim) (Fin dim) R) : gatedExpert silu w1 w2 w3 0 = 0 := by
  unfold gatedExpert
  have hzero : (fun i => silu (w1.mulVec 0 i) * w3.mulVec 0 i) = 0 := by
    funext i
    simp
  rw [hzero, Matrix.mulVec_zero]

def relu2 [LinearOrder R] (x : R) : R := max x 0 ^ 2

/-- An expert of `NonGatedGroupedExperts` on a row. -/
def nonGatedExpert [LinearOrder R] (w1 : Matrix (Fin hiddenDim) (Fin dim) R) (w2 : Matrix (Fin dim) (Fin hiddenDim) R)
    (x : Fin dim → R) : Fin dim → R :=
  w2.mulVec fun i => relu2 (w1.mulVec x i)

end

/-- `_run_experts_for_loop_impl` and its siblings. -/
def runExpertsForLoopImpl [Zero X] (expert : Nat → X → X) (x : List X) (numTokensPerExpert : List Nat) : List X :=
  let numPadding := x.length - numTokensPerExpert.sum
  mapGroups expert numTokensPerExpert (x.take numTokensPerExpert.sum) ++ List.replicate numPadding 0

/-- What the experts take from `torch` and `torchtitan`: the grouped products, as one run of all
experts, and the decorator. -/
structure ExpertKernels (X : Type) where
  groupedMm : (Nat → X → X) → List X → List Nat → List X
  expertParallel : (List X → List Nat → List X) → List X → List Nat → List X

structure GroupedExperts (X : Type) where
  numExperts : Nat
  expert : Nat → X → X
  useGroupedMm : Bool

namespace GroupedExperts

variable [Zero X] (kernels : ExpertKernels X) (experts : GroupedExperts X)

/-- The function that `forward` picks. -/
def runExperts : List X → List Nat → List X :=
  if experts.useGroupedMm then kernels.groupedMm experts.expert else runExpertsForLoopImpl experts.expert

/-- `forward`, without DeepEP. -/
def forward (x : List X) (numTokensPerExpert : List Nat) : List X :=
  kernels.expertParallel (experts.runExperts kernels) x numTokensPerExpert

end GroupedExperts

/-- The grouped products do group by group what the loop does, and the decorator changes no result. -/
structure ExpertKernels.Documented [Zero X] (kernels : ExpertKernels X) : Prop where
  groupedMm : ∀ expert x sizes, sizes.sum = x.length → kernels.groupedMm expert x sizes = mapGroups expert sizes x
  expertParallel : ∀ (experts : GroupedExperts X) x sizes, sizes.sum = x.length →
    kernels.expertParallel (experts.runExperts kernels) x sizes = experts.runExperts kernels x sizes

theorem runExpertsForLoopImpl_eq [Zero X] (expert : Nat → X → X) {x : List X} {sizes : List Nat} (h : sizes.sum = x.length) :
    runExpertsForLoopImpl expert x sizes = mapGroups expert sizes x := by
  unfold runExpertsForLoopImpl
  simp [h]

theorem GroupedExperts.runExperts_eq [Zero X] {kernels : ExpertKernels X} (hkernels : kernels.Documented)
    (experts : GroupedExperts X)
    {x : List X} {sizes : List Nat} (h : sizes.sum = x.length) :
    experts.runExperts kernels x sizes = mapGroups experts.expert sizes x := by
  unfold runExperts
  split
  · exact hkernels.groupedMm _ x sizes h
  · exact runExpertsForLoopImpl_eq _ h

/-! ## `TokenReorderer` -/

/-- What `forward` of the reorderer returns. -/
structure Reordered (R : Type) where
  topScoresExpertsSorted : List R
  tokenIndicesExpertsSorted : List Nat
  numTokensPerExpert : List Nat

structure TokenReorderer where
  numExperts : Nat
  topK : Nat

def TokenReorderer.forward (reorderer : TokenReorderer) (topScores : List (List R))
    (selectedExpertsIndices : List (List Nat)) : Reordered R :=
  let selectedExpertsIndices := selectedExpertsIndices.flatten
  let numTokensPerExpert := histc reorderer.numExperts selectedExpertsIndices
  let tokenIndicesExpertsSorted := argsort (selectedExpertsIndices.map (↑))
  let topScoresExpertsSorted := pick topScores.flatten tokenIndicesExpertsSorted
  ⟨topScoresExpertsSorted, tokenIndicesExpertsSorted.map (· / reorderer.topK), numTokensPerExpert⟩

/-! ## `MoE` and `LatentMoE` -/

structure MoE (R X : Type) where
  experts : GroupedExperts X
  topK : Nat
  router : List X → Option (List (List Nat)) → Routing R
  sharedExpert : Option (X → X)
  scoreBeforeExperts : Bool
  deepepTokenChunkSize : Option Nat
  tokensPerExpert : List Nat
  routingConfidenceSum : R

section

variable [CommRing R] [AddCommGroup X] [Module R X] [AddCommGroup Z] [Module R Z]

namespace MoE

variable (m : MoE R X) (kernels : ExpertKernels X)

def reorderer : TokenReorderer := ⟨m.experts.numExperts, m.topK⟩

/-- The load statistics of a routing, added up. -/
def track (routing : Routing R) : MoE R X :=
  { m with
    tokensPerExpert := List.zipWith (· + ·) m.tokensPerExpert routing.numTokensPerExpert
    routingConfidenceSum := m.routingConfidenceSum + routing.routingConfidenceSum }

def runRoutedExperts (x : List X) (tokenIndicesExpertsSorted numTokensPerExpert : List Nat)
    (topScoresExpertsSorted : List R) : List X :=
  let routedInput := pick x tokenIndicesExpertsSorted
  let routedInput :=
    if m.scoreBeforeExperts then List.zipWith (fun row score => score • row) routedInput topScoresExpertsSorted
    else routedInput
  let routedOutput := m.experts.forward kernels routedInput numTokensPerExpert
  if m.scoreBeforeExperts then routedOutput
  else List.zipWith (fun row score => score • row) routedOutput topScoresExpertsSorted

/-- The output of the shared expert, or zeros. -/
def shared (x : X) : X := (m.sharedExpert.map (· x)).getD 0

/-- `forward`, without DeepEP. -/
def forward (x : List X) (routedExperts : Option (List (List Nat))) : List X × MoE R X :=
  let routing := m.router x routedExperts
  let reordered := m.reorderer.forward routing.topScores routing.selectedExpertsIndices
  let routedOutput := m.runRoutedExperts kernels x reordered.tokenIndicesExpertsSorted reordered.numTokensPerExpert
    reordered.topScoresExpertsSorted
  (scatterAdd (x.map m.shared) reordered.tokenIndicesExpertsSorted routedOutput, m.track routing)

end MoE

variable (R X Z) in
/-- `fc1_latent_proj` and `fc2_latent_proj` have no bias, or are the identity. -/
structure LatentMoE where
  experts : GroupedExperts Z
  topK : Nat
  router : List X → Routing R
  sharedExpert : X → X
  fc1LatentProj : X →ₗ[R] Z
  fc2LatentProj : Z →ₗ[R] X
  routedScalingFactor : R
  deepepTokenChunkSize : Option Nat
  tokensPerExpert : List Nat
  routingConfidenceSum : R

namespace LatentMoE

variable (m : LatentMoE R X Z) (kernels : ExpertKernels Z)

def reorderer : TokenReorderer := ⟨m.experts.numExperts, m.topK⟩

def track (routing : Routing R) : LatentMoE R X Z :=
  { m with
    tokensPerExpert := List.zipWith (· + ·) m.tokensPerExpert routing.numTokensPerExpert
    routingConfidenceSum := m.routingConfidenceSum + routing.routingConfidenceSum }

def runRoutedExperts (x : List X) (tokenIndicesExpertsSorted numTokensPerExpert : List Nat)
    (topScoresExpertsSorted : List R) : List X :=
  let routedInput := (pick x tokenIndicesExpertsSorted).map m.fc1LatentProj
  let routedOutput := m.experts.forward kernels routedInput numTokensPerExpert
  let routedOutput := List.zipWith (fun row score => score • row) routedOutput topScoresExpertsSorted
  let routedOutput := routedOutput.map (m.routedScalingFactor • ·)
  routedOutput.map m.fc2LatentProj

/-- `forward`, without DeepEP. -/
def forward (x : List X) : List X × LatentMoE R X Z :=
  let routing := m.router x
  let reordered := m.reorderer.forward routing.topScores routing.selectedExpertsIndices
  let routedOutput := m.runRoutedExperts kernels x reordered.tokenIndicesExpertsSorted reordered.numTokensPerExpert
    reordered.topScoresExpertsSorted
  (scatterAdd (x.map m.sharedExpert) reordered.tokenIndicesExpertsSorted routedOutput, m.track routing)

end LatentMoE

/-! ## The mixture -/

/-- What the slots of a token add up to. -/
def mixture (expert : Nat → X → X) (scoreBeforeExperts : Bool) (x : X) (slots : List (R × Nat)) : X :=
  (slots.map fun slot => if scoreBeforeExperts then expert slot.2 (slot.1 • x) else slot.1 • expert slot.2 x).sum

def Routing.slots (routing : Routing R) : List (List (R × Nat)) :=
  List.zipWith List.zip routing.topScores routing.selectedExpertsIndices

/-- `top_k` scores and experts for each of `n` tokens. -/
structure Routing.Routes (routing : Routing R) (n numExperts topK : Nat) : Prop where
  topScores_length : routing.topScores.length = n
  selected_length : routing.selectedExpertsIndices.length = n
  topScores_row : ∀ row ∈ routing.topScores, row.length = topK
  selected_row : ∀ row ∈ routing.selectedExpertsIndices, row.length = topK ∧ ∀ e ∈ row, e < numExperts

/-- Every token with the shared expert and its mixture. -/
def MoE.naive (m : MoE R X) (x : List X) (routing : Routing R) : List X :=
  List.zipWith (fun x slots => m.shared x + mixture m.experts.expert m.scoreBeforeExperts x slots) x routing.slots

/-- Every token with the shared expert and its mixture, projected and scaled. -/
def LatentMoE.naive (m : LatentMoE R X Z) (x : List X) (routing : Routing R) : List X :=
  List.zipWith (fun x slots => m.sharedExpert x +
    m.fc2LatentProj (m.routedScalingFactor • mixture m.experts.expert false (m.fc1LatentProj x) slots)) x routing.slots

end

/-! ## The slots in the order of their experts -/

section

variable {routing : Routing R} {n numExperts topK : Nat}

theorem zip_flatten {α β : Type} {as : List (List α)} {bs : List (List β)} {k : Nat} (ha : ∀ row ∈ as, row.length = k)
    (hb : ∀ row ∈ bs, row.length = k) : (List.zipWith List.zip as bs).flatten = as.flatten.zip bs.flatten := by
  induction as generalizing bs with
  | nil => simp
  | cons a as ih =>
      cases bs with
      | nil => simp
      | cons b bs =>
          rw [List.forall_mem_cons] at ha hb
          rw [List.zipWith_cons_cons, List.flatten_cons, List.flatten_cons, List.flatten_cons, ih ha.2 hb.2, List.zip_append]
          rw [ha.1, hb.1]

theorem length_flatten_of_row {α : Type} {rows : List (List α)} {k : Nat} (h : ∀ row ∈ rows, row.length = k) :
    rows.flatten.length = rows.length * k := by
  rw [List.length_flatten, List.eq_replicate_of_mem (a := k) (l := rows.map List.length)]
  · simp
  · simpa using h

namespace Routing.Routes

theorem slots_length (h : routing.Routes n numExperts topK) : routing.slots.length = n := by
  unfold Routing.slots
  rw [List.length_zipWith, h.topScores_length, h.selected_length, Nat.min_self]

theorem slots_row (h : routing.Routes n numExperts topK) : ∀ row ∈ routing.slots, row.length = topK := by
  intro row hrow
  unfold Routing.slots at hrow
  obtain ⟨i, hi, rfl⟩ := List.getElem_of_mem hrow
  rw [List.getElem_zipWith, List.length_zip, h.topScores_row _ (List.getElem_mem _),
    (h.selected_row _ (List.getElem_mem _)).1, Nat.min_self]

theorem flatten_length (h : routing.Routes n numExperts topK) :
    routing.topScores.flatten.length = routing.selectedExpertsIndices.flatten.length := by
  rw [length_flatten_of_row h.topScores_row, length_flatten_of_row fun row hrow => (h.selected_row row hrow).1,
    h.topScores_length,
    h.selected_length]

theorem slots_flatten (h : routing.Routes n numExperts topK) :
    routing.slots.flatten = routing.topScores.flatten.zip routing.selectedExpertsIndices.flatten :=
  zip_flatten h.topScores_row fun row hrow => (h.selected_row row hrow).1

theorem topScores_flatten (h : routing.Routes n numExperts topK) :
    routing.topScores.flatten = (tagged routing.slots).map fun s => s.2.1 := by
  have hfst : routing.slots.flatten.map Prod.fst = routing.topScores.flatten := by
    rw [h.slots_flatten, List.map_fst_zip h.flatten_length.le]
  rw [← hfst, ← map_snd_tagged, List.map_map]
  rfl

theorem selected_flatten (h : routing.Routes n numExperts topK) :
    routing.selectedExpertsIndices.flatten = (tagged routing.slots).map fun s => s.2.2 := by
  have hsnd : routing.slots.flatten.map Prod.snd = routing.selectedExpertsIndices.flatten := by
    rw [h.slots_flatten, List.map_snd_zip h.flatten_length.ge]
  rw [← hsnd, ← map_snd_tagged, List.map_map]
  rfl

/-- Position `i` is a slot of token `i / top_k`. -/
theorem tokens (h : routing.Routes n numExperts topK) :
    (tagged routing.slots).map Prod.fst = (List.range (tagged routing.slots).length).map (· / topK) := by
  have hlength : (tagged routing.slots).length = n * topK := by
    rw [← List.length_map (f := Prod.snd), map_snd_tagged, length_flatten_of_row h.slots_row, h.slots_length]
  have hrows : routing.slots.map List.length = List.replicate n topK := by
    rw [List.eq_replicate_iff]
    exact ⟨by simpa using h.slots_length, by simpa using h.slots_row⟩
  rw [hlength, map_fst_tagged, hrows, h.slots_length, repeatInterleave_replicate]

theorem expert_lt (h : routing.Routes n numExperts topK) : ∀ s ∈ tagged routing.slots, s.2.2 < numExperts := by
  intro s hs
  have hmem : s.2.2 ∈ routing.selectedExpertsIndices.flatten := by
    rw [h.selected_flatten]
    exact List.mem_map_of_mem (f := fun s : Nat × R × Nat => s.2.2) hs
  obtain ⟨row, hrow, he⟩ := List.mem_flatten.1 hmem
  exact (h.selected_row row hrow).2 _ he

end Routing.Routes

/-- The reorderer sorts the slots by expert and counts them. -/
theorem TokenReorderer.forward_eq (h : routing.Routes n numExperts topK) : ∃ sorted : List (Nat × R × Nat),
    sorted.Perm (tagged routing.slots) ∧ (sorted.Pairwise fun a b => a.2.2 ≤ b.2.2) ∧
      (⟨numExperts, topK⟩ : TokenReorderer).forward routing.topScores routing.selectedExpertsIndices =
        ⟨sorted.map fun s => s.2.1, sorted.map Prod.fst, histc numExperts (sorted.map fun s => s.2.2)⟩ := by
  let order := argsort ((tagged routing.slots).map fun s => (s.2.2 : Int))
  have horder : order.Perm (List.range (tagged routing.slots).length) := by
    simpa using argsort_perm ((tagged routing.slots).map fun s => (s.2.2 : Int))
  have hperm : (pick (tagged routing.slots) order).Perm (tagged routing.slots) := pick_perm horder
  refine ⟨pick (tagged routing.slots) order, hperm, ?_, ?_⟩
  · exact (pairwise_pick_argsort fun s : Nat × R × Nat => (s.2.2 : Int)).imp fun hle => by omega
  · have hkeys : argsort (routing.selectedExpertsIndices.flatten.map (↑)) = order := by
      rw [h.selected_flatten, List.map_map]
      rfl
    have htokens : (pick (tagged routing.slots) order).map Prod.fst = order.map (· / topK) := by
      rw [← pick_map, h.tokens, pick_map, pick_range_of_lt fun i hi => List.mem_range.1 (horder.mem_iff.1 hi)]
    have hscores : pick routing.topScores.flatten order = (pick (tagged routing.slots) order).map fun s => s.2.1 := by
      rw [h.topScores_flatten, pick_map]
    have hcounts : histc numExperts routing.selectedExpertsIndices.flatten =
        histc numExperts ((pick (tagged routing.slots) order).map fun s => s.2.2) := by
      rw [h.selected_flatten]
      exact histc_perm (hperm.map _).symm
    unfold TokenReorderer.forward
    dsimp only
    rw [hkeys, hscores, hcounts, htokens]

end

/-! ## The paths without DeepEP -/

section

variable {routing : Routing R} {n numExperts topK : Nat} [CommRing R] [AddCommGroup X] [Module R X]
    [AddCommGroup Z] [Module R Z]

omit [CommRing R] [AddCommGroup X] [Module R X] in
theorem sum_histc_sorted {sorted : List (Nat × R × Nat)} (hexpert : ∀ s ∈ sorted, s.2.2 < numExperts) :
    (histc numExperts (sorted.map fun s => s.2.2)).sum = sorted.length := by
  rw [sum_histc, List.length_map]
  intro e he
  obtain ⟨s, hs, rfl⟩ := List.mem_map.1 he
  exact hexpert s hs

omit [CommRing R] [Module R X] in
/-- The experts on the rows of the slots. -/
theorem GroupedExperts.runExperts_sorted {kernels : ExpertKernels X} (hkernels : kernels.Documented)
    (experts : GroupedExperts X) {sorted : List (Nat × R × Nat)} (hsorted : sorted.Pairwise fun a b => a.2.2 ≤ b.2.2)
    (hexpert : ∀ s ∈ sorted, s.2.2 < experts.numExperts) (row : Nat × R × Nat → X) :
    experts.runExperts kernels (sorted.map row) (histc experts.numExperts (sorted.map fun s => s.2.2)) =
      sorted.map fun s => experts.expert s.2.2 (row s) := by
  rw [experts.runExperts_eq hkernels ((sum_histc_sorted hexpert).trans (List.length_map row).symm),
    mapGroups_sorted row experts.expert hsorted hexpert]

omit [CommRing R] [Module R X] in
theorem GroupedExperts.forward_sorted {kernels : ExpertKernels X} (hkernels : kernels.Documented) (experts : GroupedExperts X)
    {sorted : List (Nat × R × Nat)} (hsorted : sorted.Pairwise fun a b => a.2.2 ≤ b.2.2)
    (hexpert : ∀ s ∈ sorted, s.2.2 < experts.numExperts) (row : Nat × R × Nat → X) :
    experts.forward kernels (sorted.map row) (histc experts.numExperts (sorted.map fun s => s.2.2)) =
      sorted.map fun s => experts.expert s.2.2 (row s) := by
  unfold GroupedExperts.forward
  rw [hkernels.expertParallel experts _ _ ((sum_histc_sorted hexpert).trans (List.length_map row).symm),
    experts.runExperts_sorted hkernels hsorted hexpert]

omit [CommRing R] [Module R X] in
/-- Added back, every token gets the sum over its slots. -/
theorem scatterAdd_slots {out : List X} {sorted : List (Nat × R × Nat)} (hperm : sorted.Perm (tagged routing.slots))
    (c : Nat × R × Nat → X) (t : Nat) : (scatterAdd out (sorted.map Prod.fst) (sorted.map c))[t]? =
      out[t]?.map (· + ((routing.slots.getD t []).map fun slot => c (t, slot)).sum) := by
  rw [scatterAdd_sorted hperm, filter_tagged, List.map_map]
  rfl

omit [CommRing R] [Module R X] in
theorem pick_tokens (h : routing.Routes n numExperts topK) {sorted : List (Nat × R × Nat)}
    (hperm : sorted.Perm (tagged routing.slots))
    {x : List X} (hx : x.length = n) : pick x (sorted.map Prod.fst) = sorted.map fun s => x.getD s.1 0 :=
  pick_tagged hperm (hx.trans h.slots_length.symm) 0

/-- `forward` is the mixture, for every routing. -/
theorem MoE.forward_eq {kernels : ExpertKernels X} (hkernels : kernels.Documented) (m : MoE R X) {x : List X}
    {routedExperts : Option (List (List Nat))} (h : (m.router x routedExperts).Routes x.length m.experts.numExperts m.topK) :
    m.forward kernels x routedExperts = (m.naive x (m.router x routedExperts), m.track (m.router x routedExperts)) := by
  obtain ⟨sorted, hperm, hsorted, hreorder⟩ := TokenReorderer.forward_eq h
  have hexpert : ∀ s ∈ sorted, s.2.2 < m.experts.numExperts := fun s hs => h.expert_lt s (hperm.mem_iff.1 hs)
  have hrouted : m.runRoutedExperts kernels x (sorted.map Prod.fst) (histc m.experts.numExperts (sorted.map fun s => s.2.2))
      (sorted.map fun s => s.2.1) = sorted.map fun s =>
          if m.scoreBeforeExperts then m.experts.expert s.2.2 (s.2.1 • x.getD s.1 0)
        else s.2.1 • m.experts.expert s.2.2 (x.getD s.1 0) := by
    unfold runRoutedExperts
    rw [pick_tokens h hperm rfl]
    cases m.scoreBeforeExperts with
    | true =>
        simp only [if_true, List.zipWith_map, List.zipWith_self]
        exact GroupedExperts.forward_sorted hkernels m.experts hsorted hexpert fun s => s.2.1 • x.getD s.1 0
    | false =>
        simp only [Bool.false_eq_true, if_false]
        rw [GroupedExperts.forward_sorted hkernels m.experts hsorted hexpert fun s => x.getD s.1 0,
          List.zipWith_map, List.zipWith_self]
  unfold forward
  dsimp only
  congr 1
  show scatterAdd (x.map m.shared) (m.reorderer.forward _ _).tokenIndicesExpertsSorted
    (m.runRoutedExperts kernels x _ _ _) = _
  unfold reorderer
  rw [hreorder]
  dsimp only
  rw [hrouted]
  apply List.ext_getElem?
  intro t
  rw [scatterAdd_slots hperm]
  unfold naive mixture
  rw [List.getElem?_zipWith, List.getElem?_map]
  rcases Nat.lt_or_ge t x.length with hlt | hge
  · have hslots : t < (m.router x routedExperts).slots.length := hlt.trans_eq h.slots_length.symm
    simp [List.getElem?_eq_getElem hlt, List.getElem?_eq_getElem hslots]
  · simp [List.getElem?_eq_none hge]

/-- `forward` is the mixture of the projected token, for every routing. -/
theorem LatentMoE.forward_eq {kernels : ExpertKernels Z} (hkernels : kernels.Documented) (m : LatentMoE R X Z) {x : List X}
    (h : (m.router x).Routes x.length m.experts.numExperts m.topK) :
    m.forward kernels x = (m.naive x (m.router x), m.track (m.router x)) := by
  obtain ⟨sorted, hperm, hsorted, hreorder⟩ := TokenReorderer.forward_eq h
  have hexpert : ∀ s ∈ sorted, s.2.2 < m.experts.numExperts := fun s hs => h.expert_lt s (hperm.mem_iff.1 hs)
  have hrouted : m.runRoutedExperts kernels x (sorted.map Prod.fst) (histc m.experts.numExperts (sorted.map fun s => s.2.2))
      (sorted.map fun s => s.2.1) = sorted.map fun s => m.fc2LatentProj (m.routedScalingFactor •
        s.2.1 • m.experts.expert s.2.2 (m.fc1LatentProj (x.getD s.1 0))) := by
    unfold runRoutedExperts
    dsimp only
    rw [pick_tokens h hperm rfl, List.map_map]
    have hexperts := GroupedExperts.forward_sorted hkernels m.experts hsorted hexpert fun s => m.fc1LatentProj (x.getD s.1 0)
    simp only [Function.comp_def, hexperts, List.zipWith_map, List.zipWith_self, List.map_map]
  unfold forward
  dsimp only
  congr 1
  show scatterAdd (x.map m.sharedExpert) (m.reorderer.forward _ _).tokenIndicesExpertsSorted
    (m.runRoutedExperts kernels x _ _ _) = _
  unfold reorderer
  rw [hreorder]
  dsimp only
  rw [hrouted]
  apply List.ext_getElem?
  intro t
  rw [scatterAdd_slots hperm]
  unfold naive mixture
  rw [List.getElem?_zipWith, List.getElem?_map]
  rcases Nat.lt_or_ge t x.length with hlt | hge
  · have hslots : t < (m.router x).slots.length := hlt.trans_eq h.slots_length.symm
    simp [List.getElem?_eq_getElem hlt, List.getElem?_eq_getElem hslots, List.smul_sum, map_list_sum, Function.comp_def]
  · simp [List.getElem?_eq_none hge]

end

end AuroraRl.Trainer
