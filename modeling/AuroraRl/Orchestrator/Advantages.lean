import AuroraRl.Lib.Dict
import AuroraRl.Lib.Python
import Mathlib

/-!
# Advantages

* `divide`, `mean`, `centred` : exact arithmetic in which a division by zero has no result;
* `efficiencyShaping` : `_efficiency_shaping`; `shapedRewards` : the rewards whose mean it subtracts;
* `defaultAdvantageFn`, `computeAdvantages` : the advantages of a group and of a batch;
* `shapedRewards_spec` : correct rollouts gain a share of their reward that does not grow with the cost;
* `efficiencyAdvantages` : what holds of the advantages of every group.
-/

namespace AuroraRl.Orchestrator

section Shaping

variable {R : Type} [Field R] [LinearOrder R]

/-- `x / y` for a divisor that is not zero. -/
def divide (x y : R) : Option R := if y = 0 then none else some (x / y)

def mean (xs : List R) : Option R := divide xs.sum xs.length

def centred (xs : List R) : Option (List R) := (mean xs).map fun m => xs.map (· - m)

def clamp01 (x : R) : R := min (max x 0) 1

def amplify (rewards bonus : List R) (correctMask : List Bool) : List R :=
  List.zipWith (fun reward gain => reward * (1 + gain)) rewards
    (List.zipWith (fun b (correct : Bool) => b * if correct then 1 else 0) bonus correctMask)

def meanCorrectCost (costs : List R) (correctMask : List Bool) : Option R :=
  divide (List.zipWith (fun c (correct : Bool) => c * if correct then 1 else 0) costs correctMask).sum
    (max (correctMask.countP id) 1 : Nat)

def efficiencyShaping (rewards costs : List R) : Option (List R) := do
  let maxReward ← rewards.max?
  let correctMask := rewards.map fun reward => decide (maxReward ≤ reward)
  if maxReward ≤ 0 then centred rewards
  else
    let cost ← meanCorrectCost costs correctMask
    if cost ≤ 0 then centred rewards
    else
      let ratios ← costs.mapM fun c => divide c cost
      let bonus := ratios.map fun ratio => clamp01 (1 - ratio)
      centred (amplify rewards bonus correctMask)

/-- The rewards whose mean `efficiencyShaping` subtracts. -/
def shapedRewards (rewards costs : List R) : Option (List R) := do
  let maxReward ← rewards.max?
  let correctMask := rewards.map fun reward => decide (maxReward ≤ reward)
  if maxReward ≤ 0 then some rewards
  else
    let cost ← meanCorrectCost costs correctMask
    if cost ≤ 0 then some rewards
    else
      let ratios ← costs.mapM fun c => divide c cost
      let bonus := ratios.map fun ratio => clamp01 (1 - ratio)
      some (amplify rewards bonus correctMask)

end Shaping

/-! ## Groups of a batch -/

/-- What the advantages need of a rollout: the completion tokens of the steps that have any, and `int(value)` of the
metrics that are numbers. -/
structure GradedRollout (R : Type) where
  envName : String
  exampleId : Int
  reward : R
  trajectory : List (Option (List Int))
  metrics : List (String × Option Int)
  advantage : Option R

namespace GradedRollout

variable {R : Type}

def modelCompletionLen (x : GradedRollout R) : Nat :=
  (x.trajectory.map fun completionIds => (completionIds.map List.length).getD 0).sum

def numTurns (x : GradedRollout R) : Nat := x.trajectory.length

def toolResponseLen (x : GradedRollout R) : Int :=
  ((x.metrics.filter fun e => Python.endswith e.1 "total_tool_response_tokens").findSome? Prod.snd).getD 0

def key (x : GradedRollout R) : String × Int := (x.envName, x.exampleId)

def setAdvantage (x : GradedRollout R) (a : R) : GradedRollout R := { x with advantage := some a }

@[simp] theorem key_setAdvantage (x : GradedRollout R) (a : R) : (x.setAdvantage a).key = x.key := rfl

end GradedRollout

/-- `LengthPenaltyConfig`. -/
inductive LengthPenalty (R : Type)
  | tokens (completionWeight toolResponseWeight : R)
  | turns

/-- `AdvantageConfig`; a custom function is given itself. -/
inductive AdvantageConfig (R : Type)
  | default (lengthPenalty : Option (LengthPenalty R))
  | custom (fn : List (GradedRollout R) → Option (List R))

section Batch

variable {R : Type} [Field R] [LinearOrder R]

def LengthPenalty.cost : LengthPenalty R → GradedRollout R → R
  | tokens completionWeight toolResponseWeight, x =>
    completionWeight * (x.modelCompletionLen : R) + toolResponseWeight * (x.toolResponseLen : R)
  | turns, x => (x.numTurns : R)

def defaultAdvantageFn (group : List (GradedRollout R)) : Option (LengthPenalty R) → Option (List R)
  | some lengthPenalty => efficiencyShaping (group.map (·.reward)) (group.map lengthPenalty.cost)
  | none => centred (group.map (·.reward))

def advantageFn : AdvantageConfig R → List (GradedRollout R) → Option (List R)
  | .default lengthPenalty, group => defaultAdvantageFn group lengthPenalty
  | .custom fn, group => fn group

/-- The rollouts of a group get their advantages, in order. -/
def assign (key : String × Int) : List (GradedRollout R) → List R → List (GradedRollout R)
  | [], _ => []
  | x :: rollouts, [] => x :: rollouts
  | x :: rollouts, a :: advantages =>
    if x.key = key then x.setAdvantage a :: assign key rollouts advantages
    else x :: assign key rollouts (a :: advantages)

def groupsByExample (rollouts : List (GradedRollout R)) : Dict (String × Int) (List (GradedRollout R)) :=
  (∅ : Dict (String × Int) (List (GradedRollout R))).appendAll (rollouts.map fun x => (x.key, x))

def computeAdvantages (rollouts : List (GradedRollout R)) : Option (AdvantageConfig R) → Option (List (GradedRollout R))
  | none => some (rollouts.map fun x => x.setAdvantage x.reward)
  | some config =>
    (groupsByExample rollouts).entries.foldlM (fun rollouts (key, group) => do
      let advantages ← advantageFn config group
      return assign key rollouts advantages) rollouts

end Batch

/-! ## The shaped rewards -/

section Spec

variable {R : Type} [Field R] [LinearOrder R] {rewards costs : List R} {group : List (R × R)}

theorem divide_of_ne {x y : R} (h : y ≠ 0) : divide x y = some (x / y) := if_neg h

theorem efficiencyShaping_eq (rewards costs : List R) :
    efficiencyShaping rewards costs = shapedRewards rewards costs >>= centred := by
  unfold efficiencyShaping shapedRewards
  cases rewards.max? with
  | none => rfl
  | some maxReward =>
      dsimp only [Option.bind_eq_bind, Option.bind_some]
      split
      · rfl
      · cases meanCorrectCost costs (rewards.map fun reward => decide (maxReward ≤ reward)) with
        | none => rfl
        | some cost =>
            dsimp only [Option.bind_some]
            split
            · rfl
            · cases costs.mapM fun c => divide c cost <;> rfl

/-- What a correct rollout with a given cost gains of its reward. -/
structure Gain (maxReward : R) (gain : R → R) : Prop where
  nonneg : ∀ c, 0 ≤ gain c
  le_one : ∀ c, gain c ≤ 1
  antitone : ∀ {c c'}, c ≤ c' → gain c' ≤ gain c
  none : maxReward ≤ 0 → ∀ c, gain c = 0

def shapedReward (maxReward : R) (gain : R → R) (x : R × R) : R :=
  if maxReward ≤ x.1 then x.1 * (1 + gain x.2) else x.1

variable [IsStrictOrderedRing R]

theorem Gain.zero (maxReward : R) : Gain maxReward fun _ => 0 :=
  ⟨fun _ => le_rfl, fun _ => zero_le_one, fun _ => le_rfl, fun _ _ => rfl⟩

theorem Gain.clamp {maxReward cost : R} (hmax : 0 < maxReward) (hcost : 0 < cost) :
    Gain maxReward fun c => clamp01 (1 - c / cost) where
  nonneg c := le_min (le_max_right _ _) zero_le_one
  le_one c := min_le_right _ _
  antitone {c c'} h := by
    have hdiv : c / cost ≤ c' / cost := div_le_div_of_nonneg_right h hcost.le
    exact min_le_min_right _ (max_le_max_right _ (sub_le_sub_left hdiv 1))
  none h := absurd hmax (not_lt.2 h)

omit [IsStrictOrderedRing R] in
theorem mapM_divide {cost : R} (h : cost ≠ 0) (costs : List R) :
    costs.mapM (fun c => divide c cost) = some (costs.map (· / cost)) := by
  induction costs with
  | nil => rfl
  | cons c costs ih =>
      rw [List.mapM_cons, divide_of_ne h, ih]
      rfl

omit [IsStrictOrderedRing R] in
theorem amplify_eq (maxReward cost : R) (group : List (R × R)) :
    amplify (group.map Prod.fst) ((group.map Prod.snd).map fun c => clamp01 (1 - c / cost))
      ((group.map Prod.fst).map fun reward => decide (maxReward ≤ reward)) =
        group.map (shapedReward maxReward fun c => clamp01 (1 - c / cost)) := by
  unfold amplify
  induction group with
  | nil => rfl
  | cons x group ih =>
      simp only [List.map_cons, List.zipWith_cons_cons] at ih ⊢
      rw [ih, shapedReward]
      by_cases h : maxReward ≤ x.1 <;> simp [h]

omit [IsStrictOrderedRing R] in
theorem map_shapedReward_zero (maxReward : R) (group : List (R × R)) :
    group.map (shapedReward maxReward fun _ => 0) = group.map Prod.fst := by
  apply List.map_congr_left
  intro x _
  simp [shapedReward]

/-- The number of correct rollouts is not zero, or taken to be one. -/
theorem meanCorrectCost_eq (costs : List R) (correctMask : List Bool) :
    ∃ cost, meanCorrectCost costs correctMask = some cost := by
  have hone : 1 ≤ max (correctMask.countP id) 1 := le_max_right _ _
  have hcount : ((max (correctMask.countP id) 1 : Nat) : R) ≠ 0 := Nat.cast_ne_zero.2 (by omega)
  exact ⟨_, divide_of_ne hcount⟩

/-- No division by zero: correct rollouts gain a share of their reward that does not grow with the cost. -/
theorem shapedRewards_spec (hne : group ≠ []) : ∃ maxReward gain, (group.map Prod.fst).max? = some maxReward ∧
    Gain maxReward gain ∧
    shapedRewards (group.map Prod.fst) (group.map Prod.snd) = some (group.map (shapedReward maxReward gain)) := by
  obtain ⟨maxReward, hmax⟩ : ∃ maxReward, (group.map Prod.fst).max? = some maxReward := by
    rw [← Option.ne_none_iff_exists']
    simpa using hne
  have hfallback := map_shapedReward_zero maxReward group
  unfold shapedRewards
  rw [hmax]
  dsimp only [Option.bind_eq_bind, Option.bind_some]
  by_cases hmin : maxReward ≤ 0
  · exact ⟨maxReward, _, rfl, .zero maxReward, by rw [if_pos hmin, hfallback]⟩
  · rw [if_neg hmin]
    have hpos : 0 < maxReward := lt_of_not_ge hmin
    obtain ⟨cost, hmean⟩ := meanCorrectCost_eq (group.map Prod.snd)
      ((group.map Prod.fst).map fun reward => decide (maxReward ≤ reward))
    rw [hmean, Option.bind_some]
    by_cases hfree : cost ≤ 0
    · exact ⟨maxReward, _, rfl, .zero maxReward, by rw [if_pos hfree, hfallback]⟩
    · have hcost : 0 < cost := lt_of_not_ge hfree
      have hbonus : ((group.map Prod.snd).map (· / cost)).map (fun ratio => clamp01 (1 - ratio)) =
          (group.map Prod.snd).map fun c => clamp01 (1 - c / cost) := List.map_map
      rw [if_neg hfree, mapM_divide (ne_of_gt hcost), Option.bind_some, hbonus, amplify_eq]
      exact ⟨maxReward, _, rfl, .clamp hpos hcost, rfl⟩

/-! ## The advantages of a group -/

/-- The advantages of a group of rewards and costs, and the rewards they were shaped to. -/
structure Shaped (group : List (R × R)) (shaped advantages : List R) : Prop where
  length : advantages.length = group.length
  sum : advantages.sum = 0
  reward_mono : ∀ (i j : Nat) (x y : R × R) (a b : R), group[i]? = some x → group[j]? = some y → advantages[i]? = some a →
    advantages[j]? = some b → x.1 < y.1 → a ≤ b
  cost_anti : ∀ (i j : Nat) (x y : R × R) (a b : R), group[i]? = some x → group[j]? = some y → advantages[i]? = some a →
    advantages[j]? = some b → (∀ z ∈ group, z.1 ≤ x.1) → y.1 = x.1 → x.2 ≤ y.2 → b ≤ a
  bounded : ∀ (i : Nat) (x : R × R) (s : R), group[i]? = some x → shaped[i]? = some s → (∀ z ∈ group, z.1 ≤ x.1) → 0 < x.1 →
    x.1 ≤ s ∧ s ≤ 2 * x.1

section Order

variable {maxReward : R} {gain : R → R} (hgain : Gain maxReward gain) {x y : R × R}

include hgain

theorem le_shapedReward (hx : x.1 ≤ maxReward) : x.1 ≤ shapedReward maxReward gain x := by
  unfold shapedReward
  split
  · rename_i hmax
    have heq : x.1 = maxReward := le_antisymm hx hmax
    by_cases hpos : maxReward ≤ 0
    · rw [hgain.none hpos, add_zero, mul_one]
    · have hreward : 0 ≤ x.1 := heq ▸ (lt_of_not_ge hpos).le
      exact le_mul_of_one_le_right hreward (le_add_of_nonneg_right (hgain.nonneg x.2))
  · exact le_rfl

theorem shapedReward_mono (hy : y.1 ≤ maxReward) (h : x.1 < y.1) :
    shapedReward maxReward gain x ≤ shapedReward maxReward gain y := by
  have hx : ¬ maxReward ≤ x.1 := not_le_of_gt (h.trans_le hy)
  calc shapedReward maxReward gain x = x.1 := if_neg hx
    _ ≤ y.1 := h.le
    _ ≤ shapedReward maxReward gain y := le_shapedReward hgain hy

theorem shapedReward_anti (hx : x.1 = maxReward) (hy : y.1 = maxReward) (h : x.2 ≤ y.2) :
    shapedReward maxReward gain y ≤ shapedReward maxReward gain x := by
  unfold shapedReward
  rw [hx, hy, if_pos le_rfl, if_pos le_rfl]
  by_cases hpos : maxReward ≤ 0
  · rw [hgain.none hpos, hgain.none hpos]
  · have hreward : 0 ≤ maxReward := (lt_of_not_ge hpos).le
    have hless := hgain.antitone h
    gcongr

theorem shapedReward_le (hx : x.1 = maxReward) (hpos : 0 < maxReward) : shapedReward maxReward gain x ≤ 2 * x.1 := by
  unfold shapedReward
  rw [hx, if_pos le_rfl]
  have hone := hgain.le_one x.2
  nlinarith

end Order

theorem centred_spec {xs : List R} (hne : xs ≠ []) : ∃ m, centred xs = some (xs.map (· - m)) ∧ (xs.map (· - m)).sum = 0 := by
  have hlen : (xs.length : R) ≠ 0 := Nat.cast_ne_zero.2 (List.length_pos_iff.2 hne).ne'
  refine ⟨xs.sum / xs.length, ?_, ?_⟩
  · unfold centred mean
    rw [divide_of_ne hlen]
    rfl
  · have hsum : ∀ (m : R) (l : List R), (l.map (· - m)).sum = l.sum - l.length * m := by
      intro m l
      induction l with
      | nil => simp
      | cons x l ih =>
          rw [List.map_cons, List.sum_cons, List.sum_cons, ih, List.length_cons]
          push_cast
          ring
    rw [hsum, mul_div_cancel₀ _ hlen, sub_self]

/-- **One group.** -/
theorem efficiencyShaping_spec (hne : group ≠ []) : ∃ shaped advantages,
    shapedRewards (group.map Prod.fst) (group.map Prod.snd) = some shaped ∧ centred shaped = some advantages ∧
      efficiencyShaping (group.map Prod.fst) (group.map Prod.snd) = some advantages ∧ Shaped group shaped advantages := by
  obtain ⟨maxReward, gain, hmax, hgain, hshaped⟩ := shapedRewards_spec hne
  have hshapedNe : group.map (shapedReward maxReward gain) ≠ [] := by simpa using hne
  obtain ⟨m, hcentred, hsum⟩ := centred_spec hshapedNe
  obtain ⟨hmem, hle⟩ := List.max?_eq_some_iff.1 hmax
  have hle : ∀ z ∈ group, z.1 ≤ maxReward := fun z hz => hle z.1 (List.mem_map_of_mem hz)
  have htop : ∀ {x : R × R}, x ∈ group → (∀ z ∈ group, z.1 ≤ x.1) → x.1 = maxReward := by
    intro x hx hall
    obtain ⟨z, hz, hzmax⟩ := List.mem_map.1 hmem
    exact le_antisymm (hle x hx) (hzmax ▸ hall z hz)
  have hadvantage : ∀ {i : Nat} {x : R × R} {a : R}, group[i]? = some x →
      ((group.map (shapedReward maxReward gain)).map (· - m))[i]? = some a → a = shapedReward maxReward gain x - m := by
    intro i x a hx ha
    rw [List.getElem?_map, List.getElem?_map, hx] at ha
    exact (Option.some.inj ha).symm
  refine ⟨_, _, hshaped, hcentred, ?_, ?_, hsum, ?_, ?_, ?_⟩
  · rw [efficiencyShaping_eq, hshaped]
    exact hcentred
  · simp
  · intro i j x y a b hx hy ha hb hlt
    rw [hadvantage hx ha, hadvantage hy hb]
    exact sub_le_sub_right (shapedReward_mono hgain (hle y (List.mem_of_getElem? hy)) hlt) m
  · intro i j x y a b hx hy ha hb hall heq hcost
    have hxmax := htop (List.mem_of_getElem? hx) hall
    rw [hadvantage hx ha, hadvantage hy hb]
    exact sub_le_sub_right (shapedReward_anti hgain hxmax (heq.trans hxmax) hcost) m
  · intro i x s hx hs hall hpos
    have hxmax := htop (List.mem_of_getElem? hx) hall
    rw [List.getElem?_map, hx] at hs
    obtain rfl := Option.some.inj hs
    exact ⟨le_shapedReward hgain hxmax.le, shapedReward_le hgain hxmax (hxmax ▸ hpos)⟩

end Spec

/-! ## The advantages of a batch -/

section Assign

variable {R : Type} {rollouts : List (GradedRollout R)} {advantages : List R} {key key' : String × Int}

/-- A rollout without its advantage. -/
def GradedRollout.ungraded (x : GradedRollout R) : GradedRollout R := { x with advantage := none }

def groupOf (key : String × Int) (rollouts : List (GradedRollout R)) : List (GradedRollout R) :=
  rollouts.filter fun x => x.key = key

theorem ungraded_assign (key : String × Int) (rollouts : List (GradedRollout R)) (advantages : List R) :
    (assign key rollouts advantages).map (·.ungraded) = rollouts.map (·.ungraded) := by
  induction rollouts generalizing advantages with
  | nil => rfl
  | cons x rollouts ih =>
      cases advantages with
      | nil => rfl
      | cons a advantages =>
          unfold assign
          split <;> exact congrArg₂ List.cons rfl (ih _)

theorem groupOf_cons (x : GradedRollout R) (rollouts : List (GradedRollout R)) :
    groupOf key (x :: rollouts) = if x.key = key then x :: groupOf key rollouts else groupOf key rollouts := by
  unfold groupOf
  rw [List.filter_cons]
  simp

theorem groupOf_assign_ne (h : key ≠ key') : groupOf key' (assign key rollouts advantages) = groupOf key' rollouts := by
  induction rollouts generalizing advantages with
  | nil => rfl
  | cons x rollouts ih =>
      cases advantages with
      | nil => rfl
      | cons a advantages =>
          unfold assign
          split
          · rename_i hx
            simp [groupOf_cons, ih, hx, h]
          · simp [groupOf_cons, ih]

theorem groupOf_assign (h : advantages.length = (groupOf key rollouts).length) :
    (groupOf key (assign key rollouts advantages)).map (·.advantage) = advantages.map some := by
  induction rollouts generalizing advantages with
  | nil =>
      have hnil : advantages = [] := List.length_eq_zero_iff.1 h
      rw [hnil]
      rfl
  | cons x rollouts ih =>
      cases advantages with
      | nil =>
          rw [assign, List.length_eq_zero_iff.1 h.symm]
          rfl
      | cons a advantages =>
          rw [groupOf_cons] at h
          unfold assign
          split
          · rename_i hx
            rw [if_pos hx] at h
            rw [groupOf_cons, GradedRollout.key_setAdvantage, if_pos hx, List.map_cons, List.map_cons, ih (Nat.succ.inj h)]
            rfl
          · rename_i hx
            rw [if_neg hx] at h
            rw [groupOf_cons, if_neg hx, ih h]

theorem length_groupOf_assign : (groupOf key' (assign key rollouts advantages)).length = (groupOf key' rollouts).length := by
  have hmap := congrArg (fun l => (l.filter fun x : GradedRollout R => x.key = key').length)
    (ungraded_assign key rollouts advantages)
  simp only [List.filter_map, List.length_map] at hmap
  exact hmap

/-- Each group gets its own advantages; the groups have different keys. -/
theorem foldlM_assign {fn : List (GradedRollout R) → Option (List R)}
    {groups : List ((String × Int) × List (GradedRollout R))} (rollouts : List (GradedRollout R))
    (hnodup : (groups.map Prod.fst).Nodup)
    (hfn : ∀ e ∈ groups, ∃ advantages, fn e.2 = some advantages ∧ advantages.length = (groupOf e.1 rollouts).length) :
    ∃ out, groups.foldlM (fun rollouts e => (fn e.2).map fun advantages => assign e.1 rollouts advantages) rollouts =
        some out ∧ out.map (·.ungraded) = rollouts.map (·.ungraded) ∧
      (∀ key ∉ groups.map Prod.fst, groupOf key out = groupOf key rollouts) ∧
      ∀ e ∈ groups, ∃ advantages, fn e.2 = some advantages ∧ (groupOf e.1 out).map (·.advantage) = advantages.map some := by
  induction groups generalizing rollouts with
  | nil => exact ⟨rollouts, rfl, rfl, fun _ _ => rfl, fun e he => absurd he List.not_mem_nil⟩
  | cons e groups ih =>
      obtain ⟨hnew, hnodup⟩ := List.nodup_cons.1 hnodup
      obtain ⟨advantages, hadvantages, hlen⟩ := hfn e List.mem_cons_self
      obtain ⟨out, hout, hungraded, hothers, hgroups⟩ := ih (assign e.1 rollouts advantages) hnodup fun e' he' => by
        rw [length_groupOf_assign]
        exact hfn e' (List.mem_cons_of_mem e he')
      refine ⟨out, ?_, hungraded.trans (ungraded_assign _ _ _), ?_, ?_⟩
      · rw [List.foldlM_cons, hadvantages]
        exact hout
      · intro key hkey
        rw [List.map_cons, List.mem_cons, not_or] at hkey
        rw [hothers key hkey.2, groupOf_assign_ne fun h => hkey.1 h.symm]
      · intro e' he'
        rcases List.mem_cons.1 he' with rfl | he'
        · refine ⟨advantages, hadvantages, ?_⟩
          rw [hothers _ hnew]
          exact groupOf_assign hlen
        · exact hgroups e' he'

theorem getD_groupsByExample (key : String × Int) (rollouts : List (GradedRollout R)) :
    ((groupsByExample rollouts).get? key).getD [] = groupOf key rollouts := by
  unfold groupsByExample groupOf
  rw [Dict.getD_appendAll, List.filter_map, List.map_map]
  exact List.map_id _

end Assign

variable {R : Type} [Field R] [LinearOrder R] [IsStrictOrderedRing R]

def LengthPenalty.rated (penalty : LengthPenalty R) (group : List (GradedRollout R)) : List (R × R) :=
  group.map fun x => (x.reward, penalty.cost x)

/-- **Main.** Every group of rewards and costs gets shaped advantages, and a batch gives those of its groups to its
rollouts. -/
theorem efficiencyAdvantages (rollouts : List (GradedRollout R)) (penalty : LengthPenalty R) :
    (∀ group : List (R × R), group ≠ [] → ∃ shaped advantages,
      shapedRewards (group.map Prod.fst) (group.map Prod.snd) = some shaped ∧ centred shaped = some advantages ∧
        efficiencyShaping (group.map Prod.fst) (group.map Prod.snd) = some advantages ∧ Shaped group shaped advantages) ∧
    ∃ out, computeAdvantages rollouts (some (.default (some penalty))) = some out ∧
      out.map (·.ungraded) = rollouts.map (·.ungraded) ∧ ∀ x ∈ rollouts, ∃ shaped advantages,
        centred shaped = some advantages ∧ (groupOf x.key out).map (·.advantage) = advantages.map some ∧
          Shaped (penalty.rated (groupOf x.key rollouts)) shaped advantages := by
  refine ⟨fun group hne => efficiencyShaping_spec hne, ?_⟩
  have hentry : ∀ e ∈ (groupsByExample rollouts).entries, e.2 = groupOf e.1 rollouts ∧ e.2 ≠ [] := by
    intro e he
    have hget := (Dict.mem_entries_iff _ _ _).1 he
    refine ⟨?_, Dict.appendAll_ne_nil (fun _ _ h => by cases h) hget⟩
    rw [← getD_groupsByExample, hget, Option.getD_some]
  have hrated : ∀ group : List (GradedRollout R), group ≠ [] → ∃ shaped advantages, centred shaped = some advantages ∧
      advantageFn (.default (some penalty)) group = some advantages ∧ Shaped (penalty.rated group) shaped advantages := by
    intro group hne
    obtain ⟨shaped, advantages, -, hcentred, hadvantages, hshaped⟩ :=
      efficiencyShaping_spec (show penalty.rated group ≠ [] by simpa [LengthPenalty.rated] using hne)
    refine ⟨shaped, advantages, hcentred, ?_, hshaped⟩
    simpa [LengthPenalty.rated, advantageFn, defaultAdvantageFn, Function.comp_def] using hadvantages
  have hlengths : ∀ e ∈ (groupsByExample rollouts).entries, ∃ advantages,
      advantageFn (.default (some penalty)) e.2 = some advantages ∧
        advantages.length = (groupOf e.1 rollouts).length := by
    intro e he
    obtain ⟨hgroup, hne⟩ := hentry e he
    obtain ⟨_, advantages, -, hadvantages, hshaped⟩ := hrated e.2 hne
    refine ⟨advantages, hadvantages, ?_⟩
    rw [hshaped.length, LengthPenalty.rated, List.length_map, hgroup]
  obtain ⟨out, hout, hungraded, -, hgroups⟩ := foldlM_assign rollouts (groupsByExample rollouts).nodup hlengths
  refine ⟨out, ?_, hungraded, fun x hx => ?_⟩
  · refine Eq.trans ?_ hout
    unfold computeAdvantages
    dsimp only
    congr 1
    funext rollouts e
    cases advantageFn (.default (some penalty)) e.2 <;> rfl
  · have hkey : (groupsByExample rollouts).get? x.key ≠ none :=
      (Dict.get?_appendAll_ne_none _ _ _).2 (.inr ⟨_, List.mem_map_of_mem hx, rfl⟩)
    obtain ⟨group, hget⟩ := Option.ne_none_iff_exists'.1 hkey
    have he : (x.key, group) ∈ (groupsByExample rollouts).entries := (Dict.mem_entries_iff _ _ _).2 hget
    obtain ⟨hgroup, hne⟩ := hentry _ he
    obtain ⟨advantages, hadvantages, hassigned⟩ := hgroups _ he
    obtain ⟨shaped, advantages', hcentred, hadvantages', hshaped⟩ := hrated group hne
    obtain rfl := Option.some.inj (hadvantages.symm.trans hadvantages')
    exact ⟨shaped, advantages, hcentred, hassigned, hgroup ▸ hshaped⟩

/-- Two correct rollouts of one example, of one turn and of two, and one of another example. -/
def gradedBatch : List (GradedRollout ℚ) :=
  [⟨"env", 0, 1, [none], [], none⟩, ⟨"env", 0, 1, [none, none], [], none⟩, ⟨"env", 1, -1, [], [], none⟩]

theorem efficiencyAdvantages_gradedBatch : ∃ out,
    computeAdvantages gradedBatch (some (.default (some .turns))) = some out ∧
      out.map (·.ungraded) = gradedBatch.map (·.ungraded) ∧ ∀ x ∈ gradedBatch, ∃ shaped advantages,
        centred shaped = some advantages ∧ (groupOf x.key out).map (·.advantage) = advantages.map some ∧
          Shaped (LengthPenalty.turns.rated (groupOf x.key gradedBatch)) shaped advantages :=
  (efficiencyAdvantages gradedBatch .turns).2

end AuroraRl.Orchestrator
