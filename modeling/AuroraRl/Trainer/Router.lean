import AuroraRl.Lib.Python
import AuroraRl.Lib.TopK

/-!
# The router of NemotronH

* `NemotronHRouter`, `forward` : the experts of every token, for a given `torch.topk`;
* `IsGroupLimited` : the selected experts are the best of the best groups;
* `EnoughPositive` : the best groups are all groups, or have `top_k` experts with a positive biased score;
* `forward_groupLimited` : the two are the same.
-/

namespace AuroraRl.Trainer

/-- `NemotronHRouter`, whose experts divide into its groups. -/
structure NemotronHRouter (R : Type) where
  numExperts : Nat
  topK : Nat
  nGroup : Nat
  topkGroup : Nat
  normTopkProb : Bool
  eScoreCorrectionBias : List R
  groups_dvd : nGroup ∣ numExperts

/-- What `forward` returns. -/
structure Routing (R : Type) where
  topScores : List (List R)
  selectedExpertsIndices : List (List Nat)
  numTokensPerExpert : List Nat
  routingConfidenceSum : R

namespace NemotronHRouter

section Forward

variable {R : Type} [Field R] [LinearOrder R] (router : NemotronHRouter R) (topk : TopK R)

def groupSize : Nat := router.numExperts / router.nGroup

/-- The scores that the selection compares. -/
def scoresForChoice (scores : List R) (expertBias : Option (List R)) : List R :=
  let scoresForChoice := List.zipWith (· + ·) scores router.eScoreCorrectionBias
  match expertBias with
  | none => scoresForChoice
  | some expertBias => List.zipWith (· + ·) scoresForChoice expertBias

def group (xs : List R) (g : Nat) : List R := (xs.drop (g * router.groupSize)).take router.groupSize

def groupScores (xs : List R) : List R :=
  (List.range router.nGroup).map fun g =>
    ((topk.indices 2 (router.group xs g)).map ((router.group xs g).getD · 0)).sum

def groupIdx (xs : List R) : List Nat := topk.indices router.topkGroup (router.groupScores topk xs)

def scoreMask (groupIdx : List Nat) : List Bool :=
  (List.range router.nGroup).flatMap fun g => List.replicate router.groupSize (decide (g ∈ groupIdx))

def maskedFill (xs : List R) (scoreMask : List Bool) : List R :=
  List.zipWith (fun x (keep : Bool) => if keep then x else 0) xs scoreMask

def selectedExperts (scores : List R) (expertBias : Option (List R)) : List Nat :=
  let xs := router.scoresForChoice scores expertBias
  topk.indices router.topK
    (if 1 < router.nGroup then maskedFill xs (router.scoreMask (router.groupIdx topk xs)) else xs)

/-- `k` is out of range for some `torch.topk`. -/
def OutOfRange : Prop :=
  (1 < router.nGroup ∧ (router.groupSize < 2 ∨ router.nGroup < router.topkGroup)) ∨ router.numExperts < router.topK

instance : Decidable router.OutOfRange := inferInstanceAs (Decidable (_ ∨ _))

/-- `forward`, from the scores of the tokens. -/
def forward (scores : List (List R)) (expertBias : Option (List R)) : Except PyException (Routing R) :=
  if router.OutOfRange then .error ⟨.runtimeError, "selected index k out of range"⟩
  else
    let selected := scores.map fun row => router.selectedExperts topk row expertBias
    let topScores := List.zipWith (fun row experts => experts.map (row.getD · 0)) scores selected
    let selectedMass := List.zipWith (fun row top => top.map (· / (row.sum + 1 / 10 ^ 20))) scores topScores
    .ok {
      topScores :=
        if router.normTopkProb then topScores.map fun top => top.map (· / (top.sum + 1 / 10 ^ 20)) else topScores
      selectedExpertsIndices := selected
      numTokensPerExpert := (List.range router.numExperts).map fun e => selected.flatten.count e
      routingConfidenceSum := (selectedMass.map List.sum).sum }

end Forward

section GroupLimited

variable {R : Type} [Field R] [LinearOrder R] (router : NemotronHRouter R)

/-- The sum of the two best scores of a group. -/
def twoBest (xs : List R) (g : Nat) : R := (((router.group xs g).insertionSort (· ≥ ·)).take 2).sum

/-- `groups` are groups with the largest sums of two best scores. -/
def BestGroups (xs : List R) (groups : List Nat) : Prop :=
  IsTopK router.topkGroup ((List.range router.nGroup).map (router.twoBest xs)) groups

/-- The experts are `top_k` distinct ones of the groups, none worse than another expert of the groups. -/
structure IsBestOf (xs : List R) (groups selected : List Nat) : Prop where
  nodup : selected.Nodup
  length_eq : selected.length = router.topK
  inGroups : ∀ e ∈ selected, e < router.numExperts ∧ e / router.groupSize ∈ groups
  best : ∀ e ∈ selected, ∀ e' < router.numExperts, e' / router.groupSize ∈ groups → e' ∉ selected →
    xs.getD e' 0 ≤ xs.getD e 0

/-- The chosen groups are best groups, and the experts are the best of them. -/
def IsGroupLimited (topk : TopK R) (expertBias : Option (List R)) (scores : List R) (selected : List Nat) : Prop :=
  router.BestGroups (router.scoresForChoice scores expertBias)
      (router.groupIdx topk (router.scoresForChoice scores expertBias)) ∧
    router.IsBestOf (router.scoresForChoice scores expertBias)
      (router.groupIdx topk (router.scoresForChoice scores expertBias)) selected

/-- The groups are all groups, or have `top_k` experts with a positive score. -/
def EnoughPositive (xs : List R) (groups : List Nat) : Prop :=
  router.topkGroup = router.nGroup ∨
    router.topK ≤ (List.range router.numExperts).countP fun e => e / router.groupSize ∈ groups ∧ 0 < xs.getD e 0

/-- Several groups of at least two experts, enough of them for the groups and the experts to be chosen. -/
structure Grouped : Prop where
  one_lt_nGroup : 1 < router.nGroup
  two_le_groupSize : 2 ≤ router.groupSize
  topkGroup_le : router.topkGroup ≤ router.nGroup
  topK_le : router.topK ≤ router.topkGroup * router.groupSize
  length_bias : router.eScoreCorrectionBias.length = router.numExperts

/-- The tokens have a score for every expert, and so has the bias that is given. -/
structure Sized (scores : List (List R)) (expertBias : Option (List R)) : Prop where
  length_scores : ∀ row ∈ scores, row.length = router.numExperts
  length_bias : ∀ bias, expertBias = some bias → bias.length = router.numExperts

end GroupLimited

/-! ## Groups and masks -/

theorem flatMap_replicate_range {β : Type} (f : Nat → β) (n size : Nat) :
    (List.range n).flatMap (fun g => List.replicate size (f g)) = (List.range (n * size)).map fun e => f (e / size) := by
  induction n with
  | zero => simp
  | succ n ih =>
      rw [List.range_succ, List.flatMap_append, ih, Nat.succ_mul, List.range_add, List.map_append, List.map_map]
      congr 1
      rw [List.flatMap_singleton]
      apply List.ext_getElem
      · simp
      · intro i h₁ h₂
        have hi : i < size := by simpa using h₁
        have hdiv : (n * size + i) / size = n := by
          rw [Nat.mul_comm, Nat.mul_add_div (by omega), Nat.div_eq_of_lt hi, Nat.add_zero]
        simp [hdiv]

section Choice

variable {R : Type} [Field R] [LinearOrder R] {router : NemotronHRouter R}

omit [Field R] [LinearOrder R] in
theorem nGroup_mul_groupSize (router : NemotronHRouter R) : router.nGroup * router.groupSize = router.numExperts :=
  Nat.mul_div_cancel' router.groups_dvd

omit [Field R] [LinearOrder R] in
theorem length_group {xs : List R} (hxs : xs.length = router.numExperts) {g : Nat} (hg : g < router.nGroup) :
    (router.group xs g).length = router.groupSize := by
  have hle : (g + 1) * router.groupSize ≤ router.nGroup * router.groupSize := Nat.mul_le_mul_right _ hg
  rw [nGroup_mul_groupSize, Nat.succ_mul] at hle
  unfold group
  rw [List.length_take, List.length_drop, hxs]
  omega

/-- The group scores do not depend on which of equal scores are selected. -/
theorem groupScores_eq (h : router.Grouped) {xs : List R} (hxs : xs.length = router.numExperts) (topk : TopK R) :
    router.groupScores topk xs = (List.range router.nGroup).map (router.twoBest xs) := by
  unfold groupScores
  apply List.map_congr_left
  intro g hg
  have hlength : 2 ≤ (router.group xs g).length := by
    rw [length_group hxs (List.mem_range.1 hg)]
    exact h.two_le_groupSize
  exact ((topk.isTopK 2 _ hlength).map_perm_take hlength).sum_eq

theorem bestGroups_groupIdx (h : router.Grouped) {xs : List R} (hxs : xs.length = router.numExperts) (topk : TopK R) :
    router.BestGroups xs (router.groupIdx topk xs) := by
  unfold BestGroups groupIdx
  rw [groupScores_eq h hxs]
  exact topk.isTopK _ _ (by simpa using h.topkGroup_le)

omit [Field R] [LinearOrder R] in
theorem scoreMask_eq (groups : List Nat) :
    router.scoreMask groups = (List.range router.numExperts).map fun e => decide (e / router.groupSize ∈ groups) := by
  unfold scoreMask
  rw [flatMap_replicate_range fun g => decide (g ∈ groups), nGroup_mul_groupSize]

omit [LinearOrder R] in
theorem length_maskedFill {xs : List R} (hxs : xs.length = router.numExperts) (groups : List Nat) :
    (maskedFill xs (router.scoreMask groups)).length = router.numExperts := by
  rw [scoreMask_eq]
  simp [maskedFill, hxs]

omit [LinearOrder R] in
theorem getD_maskedFill {xs : List R} (hxs : xs.length = router.numExperts) (groups : List Nat) {e : Nat}
    (he : e < router.numExperts) :
    (maskedFill xs (router.scoreMask groups)).getD e 0 =
      if e / router.groupSize ∈ groups then xs.getD e 0 else 0 := by
  rw [scoreMask_eq]
  simp [maskedFill, List.getElem?_zipWith, List.getElem?_range he, List.getElem?_eq_getElem (hxs.symm ▸ he)]

/-! ## The selection -/

theorem BestGroups.mem_of_all {xs : List R} {groups : List Nat} (h : router.BestGroups xs groups)
    (hall : router.topkGroup = router.nGroup) {g : Nat} (hg : g < router.nGroup) : g ∈ groups := by
  have hsub : groups.Subperm (List.range router.nGroup) :=
    List.subperm_of_subset h.nodup fun g hg => by simpa using h.lt_length g hg
  have hperm := hsub.perm_of_length_le (by rw [List.length_range, h.length_eq, hall])
  exact hperm.mem_iff.2 (List.mem_range.2 hg)

theorem BestGroups.exists_not_mem {xs : List R} {groups : List Nat} (h : router.BestGroups xs groups)
    (hlt : router.topkGroup < router.nGroup) : ∃ g < router.nGroup, g ∉ groups := by
  by_contra hall
  push Not at hall
  have hsub : (List.range router.nGroup).Subperm groups :=
    List.subperm_of_subset List.nodup_range fun g hg => hall g (List.mem_range.1 hg)
  have hle := hsub.length_le
  rw [List.length_range, h.length_eq] at hle
  omega

/-- Enough positive scores keep the experts of other groups, which count as zero, out of the selection. -/
theorem isBestOf_of_isTopK {xs : List R} (hxs : xs.length = router.numExperts) {groups selected : List Nat}
    (hgroups : router.BestGroups xs groups) (henough : router.EnoughPositive xs groups)
    (h : IsTopK router.topK (maskedFill xs (router.scoreMask groups)) selected) :
    router.IsBestOf xs groups selected := by
  have hlength := length_maskedFill hxs groups
  have hlt : ∀ e ∈ selected, e < router.numExperts := fun e he => hlength ▸ h.lt_length e he
  have hin : ∀ e ∈ selected, e / router.groupSize ∈ groups := by
    intro e he
    rcases henough with hall | hcount
    · apply hgroups.mem_of_all hall
      apply Nat.div_lt_of_lt_mul
      rw [Nat.mul_comm, nGroup_mul_groupSize]
      exact hlt e he
    · by_contra hout
      obtain ⟨p, hp, hnot⟩ : ∃ p ∈ (List.range router.numExperts).filter
          (fun e => e / router.groupSize ∈ groups ∧ 0 < xs.getD e 0), p ∉ selected := by
        by_contra hsub
        push Not at hsub
        have hnodup : (e :: (List.range router.numExperts).filter
            fun e => e / router.groupSize ∈ groups ∧ 0 < xs.getD e 0).Nodup := by
          rw [List.nodup_cons, List.mem_filter]
          exact ⟨fun hmem => hout (of_decide_eq_true hmem.2).1, List.nodup_range.filter _⟩
        have hle := (List.subperm_of_subset hnodup (List.cons_subset.2 ⟨he, hsub⟩)).length_le
        rw [List.length_cons, ← List.countP_eq_length_filter, h.length_eq] at hle
        omega
      simp only [List.mem_filter, List.mem_range, decide_eq_true_eq] at hp
      have hle := h.le_of_not_mem e he p (hlength.symm ▸ hp.1) hnot
      rw [getD_maskedFill hxs groups hp.1, getD_maskedFill hxs groups (hlt e he), if_pos hp.2.1, if_neg hout] at hle
      exact absurd hp.2.2 (not_lt.2 hle)
  refine ⟨h.nodup, h.length_eq, fun e he => ⟨hlt e he, hin e he⟩, fun e he e' he' hin' hnot => ?_⟩
  have hle := h.le_of_not_mem e he e' (hlength.symm ▸ he') hnot
  rwa [getD_maskedFill hxs groups he', getD_maskedFill hxs groups (hlt e he), if_pos hin', if_pos (hin e he)] at hle

/-- With too few positive scores an expert of another group is in some selection. -/
theorem exists_selection_outside (h : router.Grouped) {xs : List R} (hxs : xs.length = router.numExperts)
    {groups : List Nat} (hgroups : router.BestGroups xs groups) (hfew : ¬ router.EnoughPositive xs groups) :
    ∃ selected, IsTopK router.topK (maskedFill xs (router.scoreMask groups)) selected ∧
      ¬ router.IsBestOf xs groups selected := by
  unfold EnoughPositive at hfew
  rw [not_or, not_le] at hfew
  obtain ⟨g, hg, hout⟩ := hgroups.exists_not_mem (lt_of_le_of_ne h.topkGroup_le hfew.1)
  have hsize := h.two_le_groupSize
  have hx : g * router.groupSize < router.numExperts := by
    rw [← nGroup_mul_groupSize]
    exact Nat.mul_lt_mul_of_pos_right hg (by omega)
  have hdiv : g * router.groupSize / router.groupSize = g := Nat.mul_div_cancel _ (by omega)
  have hlength := length_maskedFill hxs groups
  have hk : router.topK ≤ (maskedFill xs (router.scoreMask groups)).length := by
    rw [hlength, ← nGroup_mul_groupSize]
    exact h.topK_le.trans (Nat.mul_le_mul_right _ h.topkGroup_le)
  have hcount : (List.range (maskedFill xs (router.scoreMask groups)).length).countP (fun j =>
      (maskedFill xs (router.scoreMask groups)).getD (g * router.groupSize) 0 <
        (maskedFill xs (router.scoreMask groups)).getD j 0) < router.topK := by
    rw [hlength, getD_maskedFill hxs groups hx, hdiv, if_neg hout]
    apply lt_of_le_of_lt _ hfew.2
    apply List.countP_mono_left
    intro e he
    rw [getD_maskedFill hxs groups (List.mem_range.1 he)]
    simp only [decide_eq_true_eq]
    split
    · exact fun hpos => ⟨‹_›, hpos⟩
    · exact fun hpos => absurd hpos (lt_irrefl _)
  obtain ⟨selected, hselected, hmem⟩ := exists_isTopK_mem hk (hlength.symm ▸ hx) hcount
  refine ⟨selected, hselected, fun hbest => hout ?_⟩
  exact hdiv ▸ (hbest.inGroups _ hmem).2

omit [LinearOrder R] in
theorem length_scoresForChoice (h : router.Grouped) {scores : List (List R)} {expertBias : Option (List R)}
    (hsized : router.Sized scores expertBias) {row : List R} (hrow : row ∈ scores) :
    (router.scoresForChoice row expertBias).length = router.numExperts := by
  unfold scoresForChoice
  cases hbias : expertBias with
  | none => simp [hsized.length_scores row hrow, h.length_bias]
  | some bias => simp [hsized.length_scores row hrow, h.length_bias, hsized.length_bias bias hbias]

omit [Field R] [LinearOrder R] in
theorem topK_le_numExperts (h : router.Grouped) : router.topK ≤ router.numExperts := by
  rw [← nGroup_mul_groupSize]
  exact h.topK_le.trans (Nat.mul_le_mul_right _ h.topkGroup_le)

theorem forward_eq (h : router.Grouped) (topk : TopK R) (scores : List (List R)) (expertBias : Option (List R)) :
    ∃ out, router.forward topk scores expertBias = .ok out ∧
      out.selectedExpertsIndices = scores.map fun row => router.selectedExperts topk row expertBias := by
  have hrange : ¬ router.OutOfRange := by
    have h₁ := h.two_le_groupSize
    have h₂ := h.topkGroup_le
    have h₃ := topK_le_numExperts h
    unfold OutOfRange
    omega
  unfold forward
  rw [if_neg hrange]
  exact ⟨_, rfl, rfl⟩

theorem selectedExperts_eq (h : router.Grouped) (topk : TopK R) (row : List R) (expertBias : Option (List R)) :
    router.selectedExperts topk row expertBias = topk.indices router.topK
      (maskedFill (router.scoresForChoice row expertBias)
        (router.scoreMask (router.groupIdx topk (router.scoresForChoice row expertBias)))) :=
  congrArg (topk.indices router.topK) (if_pos h.one_lt_nGroup)

/-- **The routing.** Whichever of equal scores are selected, every token goes to the best experts of its best groups iff
for every choice of best groups these are all groups, or have `top_k` experts whose biased score is positive. -/
theorem forward_groupLimited (h : router.Grouped) {scores : List (List R)} {expertBias : Option (List R)}
    (hsized : router.Sized scores expertBias) :
    (∀ topk : TopK R, ∃ out, router.forward topk scores expertBias = .ok out ∧
      List.Forall₂ (router.IsGroupLimited topk expertBias) scores out.selectedExpertsIndices) ↔
    ∀ row ∈ scores, ∀ groups, router.BestGroups (router.scoresForChoice row expertBias) groups →
      router.EnoughPositive (router.scoresForChoice row expertBias) groups := by
  constructor
  · intro hall row hrow groups hgroups
    by_contra hfew
    have hxs := length_scoresForChoice h hsized hrow
    obtain ⟨selected, hselected, hnot⟩ := exists_selection_outside h hxs hgroups hfew
    -- a `torch.topk` that takes these groups and these experts
    have hne : (List.range router.nGroup).map (router.twoBest (router.scoresForChoice row expertBias)) ≠
        maskedFill (router.scoresForChoice row expertBias) (router.scoreMask groups) := by
      intro heq
      have hlen := congrArg List.length heq
      rw [length_maskedFill hxs, List.length_map, List.length_range, ← nGroup_mul_groupSize] at hlen
      have h₁ := h.one_lt_nGroup
      have h₂ := Nat.mul_le_mul_left router.nGroup h.two_le_groupSize
      omega
    obtain ⟨topk, htopk⟩ : ∃ topk, topk = (TopK.sort.update _ _ _ hgroups).update _ _ _ hselected := ⟨_, rfl⟩
    have hidx : router.groupIdx topk (router.scoresForChoice row expertBias) = groups := by
      unfold groupIdx
      rw [groupScores_eq h hxs, htopk, TopK.update_of_ne _ _ hne]
      exact TopK.update_self _ _
    have hexperts : router.selectedExperts topk row expertBias = selected := by
      rw [selectedExperts_eq h, hidx, htopk, TopK.update_self]
    obtain ⟨out, hout, hlimited⟩ := hall topk
    obtain ⟨out', hout', hsel⟩ := forward_eq h topk scores expertBias
    rw [hout] at hout'
    cases hout'
    rw [hsel, List.forall₂_map_right_iff, List.forall₂_same] at hlimited
    have hbest := (hlimited row hrow).2
    rw [hidx, hexperts] at hbest
    exact hnot hbest
  · intro henough topk
    obtain ⟨out, hout, hsel⟩ := forward_eq h topk scores expertBias
    refine ⟨out, hout, ?_⟩
    rw [hsel, List.forall₂_map_right_iff, List.forall₂_same]
    intro row hrow
    have hxs := length_scoresForChoice h hsized hrow
    have hgroups := bestGroups_groupIdx h hxs topk
    refine ⟨hgroups, ?_⟩
    rw [selectedExperts_eq h]
    apply isBestOf_of_isTopK hxs hgroups (henough row hrow _ hgroups)
    apply topk.isTopK
    rw [length_maskedFill hxs]
    exact topK_le_numExperts h

end Choice

/-! ## Two groups of two experts -/

/-- Two of four experts in two groups, of which one is chosen. -/
def twoOfFour (bias : List ℚ) : NemotronHRouter ℚ where
  numExperts := 4
  topK := 2
  nGroup := 2
  topkGroup := 1
  normTopkProb := true
  eScoreCorrectionBias := bias
  groups_dvd := ⟨2, rfl⟩

theorem twoOfFour_grouped {bias : List ℚ} (h : bias.length = 4) : (twoOfFour bias).Grouped :=
  ⟨by simp [twoOfFour], by simp [twoOfFour, groupSize], by simp [twoOfFour], by simp [twoOfFour, groupSize], h⟩

/-- With positive scores every group has enough of them. -/
theorem forward_groupLimited_positive :
    (twoOfFour [0, 0, 0, 0]).Grouped ∧
      ∃ out, (twoOfFour [0, 0, 0, 0]).forward TopK.sort [[1 / 2, 1 / 3, 1 / 4, 1 / 5]] none = .ok out ∧
        List.Forall₂ ((twoOfFour [0, 0, 0, 0]).IsGroupLimited TopK.sort none) [[1 / 2, 1 / 3, 1 / 4, 1 / 5]]
          out.selectedExpertsIndices := by
  have hgrouped : (twoOfFour [0, 0, 0, 0]).Grouped := twoOfFour_grouped rfl
  refine ⟨hgrouped, (forward_groupLimited hgrouped ⟨by decide, fun _ h => (by cases h)⟩).2 ?_ TopK.sort⟩
  intro row hrow groups hgroups
  rw [List.mem_singleton.1 hrow]
  right
  obtain ⟨g, rfl⟩ := List.length_eq_one_iff.1 hgroups.length_eq
  have hg : g < 2 := by simpa [twoOfFour] using hgroups.lt_length g (List.mem_singleton_self g)
  interval_cases g <;> decide +kernel

/-- With negative scores the experts of the other group come first. -/
theorem forward_negative :
    (twoOfFour [-1, -1, -1, -1]).Grouped ∧ (∀ score ∈ ([1 / 2, 1 / 3, 1 / 4, 1 / 5] : List ℚ), 0 < score ∧ score < 1) ∧
      ¬ ∃ out, (twoOfFour [-1, -1, -1, -1]).forward TopK.sort [[1 / 2, 1 / 3, 1 / 4, 1 / 5]] none = .ok out ∧
        List.Forall₂ ((twoOfFour [-1, -1, -1, -1]).IsGroupLimited TopK.sort none) [[1 / 2, 1 / 3, 1 / 4, 1 / 5]]
          out.selectedExpertsIndices := by
  have hgrouped : (twoOfFour [-1, -1, -1, -1]).Grouped := twoOfFour_grouped rfl
  refine ⟨hgrouped, by decide +kernel, ?_⟩
  rintro ⟨out, hout, hlimited⟩
  obtain ⟨out', hout', hsel⟩ := forward_eq hgrouped TopK.sort [[1 / 2, 1 / 3, 1 / 4, 1 / 5]] none
  rw [hout] at hout'
  cases hout'
  rw [hsel, List.forall₂_map_right_iff, List.forall₂_same] at hlimited
  have hin := (hlimited _ (List.mem_singleton_self _)).2.inGroups 2 (by decide +kernel)
  exact absurd hin.2 (by decide +kernel)

end NemotronHRouter

end AuroraRl.Trainer
