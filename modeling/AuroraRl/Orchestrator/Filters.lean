import AuroraRl.Lib.Dict
import AuroraRl.Lib.Streak
import Mathlib.Data.List.Count
import Mathlib.Data.Nat.Find

/-!
# Filters for degenerate rollouts

* `RolloutFilter` : a name, whether it enforces, and its check;
* `gibberishFilter`, `repetitionFilter`, `zeroAdvantageFilter`, `setupFilters` : the filters of a configuration;
* `applyFilters` : the flags of every rollout, and what is counted;
* `repetition_check` : where a repetition is detected;
* `apply_filters_accounting` : what the flags say, and that the counts agree with them.

`F` stands for the floats; nothing is assumed about their order.
-/

namespace AuroraRl.Filters
open Streak

/-- The tokens of a step that the filters read. -/
structure StepTokens (F : Type) where
  completionIds : List Nat
  completionLogprobs : List F

/-- What the filters read of a rollout; a step may have no tokens. -/
structure Rollout (F : Type) where
  trajectory : List (Option (StepTokens F))
  advantage : Option F

structure FilterResult where
  detected : Bool
  detectionIndex : Option Nat
  deriving DecidableEq

structure RolloutFilter (F : Type) where
  name : String
  enforce : Bool
  check : Rollout F → FilterResult

variable {F : Type}

/-- The result of a loop that stops at the index it detects. -/
def resultOf {σ : Type} : Except Nat σ → FilterResult
  | .error idx => ⟨true, some idx⟩
  | .ok _ => ⟨false, none⟩

/-! ## The filters -/

section Checks

variable [LT F] [DecidableLT F]

def gibberishCheck (tokenIdThreshold : Nat) (logprobThreshold : F) (rollout : Rollout F) : FilterResult :=
  resultOf <| rollout.trajectory.foldlM (fun globalIdx step => match step with
    | none => .ok globalIdx
    | some tokens => (tokens.completionIds.zip tokens.completionLogprobs).foldlM
        (firstTurn fun token => tokenIdThreshold < token.1 ∧ token.2 < logprobThreshold) globalIdx) 0

def repetitionCheck (window : Nat) (logprobThreshold : F) (rollout : Rollout F) : FilterResult :=
  resultOf <| rollout.trajectory.foldlM (fun s step => match step with
    | none => .ok s
    | some tokens => tokens.completionLogprobs.foldlM
        (streakTurn (fun logprob => logprobThreshold < logprob) window) s) (0, 0)

end Checks

def zeroAdvantageCheck [Zero F] [DecidableEq F] (rollout : Rollout F) : FilterResult :=
  match rollout.advantage with
  | some advantage => ⟨advantage = 0, none⟩
  | none => ⟨false, none⟩

/-- `FilterConfig`; the window is at least 1. -/
inductive FilterConfig (F : Type)
  | gibberish (enforce : Bool) (tokenIdThreshold : Nat) (logprobOffset : F)
  | repetition (enforce : Bool) (window : Nat) (probThreshold : F)
  | zeroAdvantage (enforce : Bool)

section Setup

variable [LT F] [DecidableLT F] [Zero F] [DecidableEq F] [Neg F] [Sub F]

/-- `setup_filter`, with `math.log` as an argument. -/
def setupFilter (log : F → F) (vocabSize : F) : FilterConfig F → RolloutFilter F
  | .gibberish enforce tokenIdThreshold logprobOffset =>
      ⟨"gibberish", enforce, gibberishCheck tokenIdThreshold (-log vocabSize - logprobOffset)⟩
  | .repetition enforce window probThreshold => ⟨"repetition", enforce, repetitionCheck window (log probThreshold)⟩
  | .zeroAdvantage enforce => ⟨"zero_advantage", enforce, zeroAdvantageCheck⟩

def setupFilters (log : F → F) (vocabSize : F) (configs : List (FilterConfig F)) : List (RolloutFilter F) :=
  configs.map (setupFilter log vocabSize)

end Setup

/-! ## Applying them -/

/-- A rollout with its `filters` and `is_filtered`. -/
structure FlaggedRollout (F : Type) where
  rollout : Rollout F
  filters : Dict String Bool
  isFiltered : Bool

/-- What `apply_filters` counts. -/
structure Totals where
  counts : Dict String Nat
  totalDetected : Nat
  totalEnforced : Nat

/-- The loop over the filters for one rollout; it stops at the first that detects. -/
def checkFilters : List (RolloutFilter F) → FlaggedRollout F → Totals → FlaggedRollout F × Totals
  | [], rollout, totals => (rollout, totals)
  | filt :: filters, rollout, totals =>
      if (filt.check rollout.rollout).detected then
        (⟨rollout.rollout, rollout.filters.insert filt.name true, rollout.isFiltered || filt.enforce⟩,
          ⟨totals.counts.insert filt.name ((totals.counts.get? filt.name).getD 0 + 1), totals.totalDetected + 1,
            if filt.enforce then totals.totalEnforced + 1 else totals.totalEnforced⟩)
      else checkFilters filters rollout totals

/-- The second loop of `apply_filters`. -/
def checkRollouts (filters : List (RolloutFilter F)) : List (FlaggedRollout F) → Totals → List (FlaggedRollout F) × Totals
  | [], totals => ([], totals)
  | rollout :: rollouts, totals =>
      let (rollout, totals) := checkFilters filters rollout totals
      let (rollouts, totals) := checkRollouts filters rollouts totals
      (rollout :: rollouts, totals)

def applyFilters (filters : List (RolloutFilter F)) (rollouts : List (Rollout F)) : List (FlaggedRollout F) × Totals :=
  let flagged := rollouts.map fun rollout => ⟨rollout, Dict.ofList (filters.map fun filt => (filt.name, false)), false⟩
  if filters = [] then (flagged, ⟨∅, 0, 0⟩)
  else checkRollouts filters flagged ⟨Dict.ofList (filters.map fun filt => (filt.name, 0)), 0, 0⟩

/-! ## Where the filters detect -/

/-- The logprobs of the completion tokens of all steps. -/
def Rollout.logprobs (rollout : Rollout F) : List F :=
  rollout.trajectory.flatMap fun step => (step.map StepTokens.completionLogprobs).getD []

section Detection

variable [LT F] [DecidableLT F]

theorem repetitionCheck_eq (window : Nat) (logprobThreshold : F) (rollout : Rollout F) :
    repetitionCheck window logprobThreshold rollout =
      resultOf (rollout.logprobs.foldlM (streakTurn (fun logprob => logprobThreshold < logprob) window) (0, 0)) := by
  unfold repetitionCheck Rollout.logprobs
  rw [foldlM_flatMap]
  congr 2
  funext s step
  cases step with
  | none => rfl
  | some tokens => rfl

omit [LT F] [DecidableLT F] in
theorem detectionIndex_resultOf {σ : Type} {x : Except Nat σ} {i : Nat} :
    (resultOf x).detectionIndex = some i ↔ x = .error i := by
  cases x <;> simp [resultOf]

omit [LT F] [DecidableLT F] in
theorem detected_resultOf {σ : Type} {x : Except Nat σ} : (resultOf x).detected = true ↔ ∃ i, x = .error i := by
  cases x <;> simp [resultOf]

/-- A confident streak of the window's length that ends at token `i`, counted over all steps. -/
def StreakAt (window : Nat) (logprobThreshold : F) (rollout : Rollout F) (i : Nat) : Prop :=
  i < rollout.logprobs.length ∧ window ≤ i + 1 ∧
    ∀ j logprob, rollout.logprobs[j]? = some logprob → j ≤ i → i < j + window → logprobThreshold < logprob

/-- **Main.** The repetition filter reports the first token that ends a streak of confident tokens, across the steps of
the rollout, and detects nothing when there is no such streak. -/
theorem repetition_check (window : Nat) (logprobThreshold : F) (rollout : Rollout F) :
    (∀ i, (repetitionCheck window logprobThreshold rollout).detectionIndex = some i ↔
      IsLeast {i | StreakAt window logprobThreshold rollout i} i) ∧
    ((repetitionCheck window logprobThreshold rollout).detected = true ↔
    ∃ i, StreakAt window logprobThreshold rollout i) := by
  classical
  have herror : ∀ i, rollout.logprobs.foldlM (streakTurn (fun logprob => logprobThreshold < logprob) window)
      (0, 0) = .error i ↔
      IsLeast {i | StreakAt window logprobThreshold rollout i} i := by
    intro i
    rw [streakScan_error_iff]
    simp only [StreakAt, decide_eq_true_eq]
  rw [repetitionCheck_eq]
  refine ⟨fun i => detectionIndex_resultOf.trans (herror i), detected_resultOf.trans ?_⟩
  constructor
  · rintro ⟨i, hi⟩
    exact ⟨i, ((herror i).1 hi).1⟩
  · intro h
    exact ⟨Nat.find h, (herror _).2 ⟨Nat.find_spec h, fun m hm => Nat.find_min' h hm⟩⟩

end Detection

/-! ## What the flags and the counts say -/

/-- The first filter that detects, in the order of the configuration. -/
def firstDetection (filters : List (RolloutFilter F)) (rollout : Rollout F) : Option (RolloutFilter F) :=
  filters.find? fun filt => (filt.check rollout).detected

/-- A rollout flagged by the filter that detects it. -/
def flag (filters : List (RolloutFilter F)) (rollout : FlaggedRollout F) : FlaggedRollout F :=
  match firstDetection filters rollout.rollout with
  | none => rollout
  | some filt => ⟨rollout.rollout, rollout.filters.insert filt.name true, rollout.isFiltered || filt.enforce⟩

def count (filters : List (RolloutFilter F)) (rollout : Rollout F) (totals : Totals) : Totals :=
  match firstDetection filters rollout with
  | none => totals
  | some filt => ⟨totals.counts.insert filt.name ((totals.counts.get? filt.name).getD 0 + 1), totals.totalDetected + 1,
      if filt.enforce then totals.totalEnforced + 1 else totals.totalEnforced⟩

theorem checkFilters_eq (filters : List (RolloutFilter F)) (rollout : FlaggedRollout F) (totals : Totals) :
    checkFilters filters rollout totals = (flag filters rollout, count filters rollout.rollout totals) := by
  induction filters with
  | nil => rfl
  | cons filt filters ih =>
      unfold checkFilters flag count firstDetection
      rw [List.find?_cons]
      cases h : (filt.check rollout.rollout).detected with
      | true => rfl
      | false => exact ih

theorem checkRollouts_eq (filters : List (RolloutFilter F)) (rollouts : List (FlaggedRollout F)) (totals : Totals) :
    checkRollouts filters rollouts totals =
      (rollouts.map (flag filters), rollouts.foldl (fun totals rollout => count filters rollout.rollout totals) totals) := by
  induction rollouts generalizing totals with
  | nil => rfl
  | cons rollout rollouts ih =>
      unfold checkRollouts
      rw [checkFilters_eq]
      dsimp only
      rw [ih]
      rfl

theorem applyFilters_eq (filters : List (RolloutFilter F)) (rollouts : List (Rollout F)) :
    applyFilters filters rollouts =
      (rollouts.map fun rollout => flag filters ⟨rollout, Dict.ofList (filters.map fun filt => (filt.name, false)), false⟩,
        rollouts.foldl (fun totals rollout => count filters rollout totals)
          ⟨Dict.ofList (filters.map fun filt => (filt.name, 0)), 0, 0⟩) := by
  unfold applyFilters
  split_ifs with hnone
  · subst hnone
    have hcount : ∀ totals : Totals, rollouts.foldl (fun totals rollout => count [] rollout totals) totals = totals := by
      intro totals
      induction rollouts generalizing totals with
      | nil => rfl
      | cons rollout rollouts ih => exact ih totals
    rw [hcount]
    rfl
  · rw [checkRollouts_eq, List.map_map, List.foldl_map]
    rfl

/-- The flags and counts agree with the first detections. -/
structure Accounts (filters : List (RolloutFilter F)) (rollouts : List (Rollout F)) (flagged : List (FlaggedRollout F))
    (totals : Totals) : Prop where
  rollouts : flagged.map FlaggedRollout.rollout = rollouts
  filtered : ∀ r ∈ flagged, r.isFiltered = true ↔ ∃ filt, firstDetection filters r.rollout = some filt ∧ filt.enforce = true
  flags : ∀ r ∈ flagged, ∀ filt ∈ filters, r.filters.get? filt.name =
    some (decide ((firstDetection filters r.rollout).map RolloutFilter.name = some filt.name))
  counts : ∀ filt ∈ filters, totals.counts.get? filt.name =
    some (flagged.countP fun r => r.filters.get? filt.name = some true)
  detected : totals.totalDetected = flagged.countP fun r => (firstDetection filters r.rollout).isSome
  enforced : totals.totalEnforced = flagged.countP FlaggedRollout.isFiltered

theorem get?_ofList_const {ν : Type} {filters : List (RolloutFilter F)} {filt : RolloutFilter F}
    (h : filt ∈ filters) (v : ν) :
    (Dict.ofList (filters.map fun filt => (filt.name, v))).get? filt.name = some v := by
  have hsome : ((Dict.ofList (filters.map fun filt => (filt.name, v))).get? filt.name).isSome = true :=
    Dict.get?_insertAll_isSome (.inl (List.mem_map.2 ⟨_, List.mem_map_of_mem h, rfl⟩))
  obtain ⟨w, hw⟩ := Option.isSome_iff_exists.1 hsome
  rcases Dict.get?_insertAll_eq_some hw with hmem | hold
  · obtain ⟨filt', -, heq⟩ := List.mem_map.1 hmem
    exact hw.trans (congrArg some (Prod.ext_iff.1 heq).2.symm)
  · cases hold

theorem get?_flag {filters : List (RolloutFilter F)} {filt : RolloutFilter F} (h : filt ∈ filters) (rollout : Rollout F) :
    (flag filters ⟨rollout, Dict.ofList (filters.map fun filt => (filt.name, false)), false⟩).filters.get? filt.name =
      some (decide ((firstDetection filters rollout).map RolloutFilter.name = some filt.name)) := by
  unfold flag
  cases hfirst : firstDetection filters rollout with
  | none => simpa [hfirst] using get?_ofList_const h false
  | some filt' =>
      simp only [Dict.get?_insert, Option.map_some, Option.some.injEq]
      by_cases hname : filt'.name = filt.name
      · simp [hname]
      · simpa [hname] using get?_ofList_const h false

theorem flag_rollout (filters : List (RolloutFilter F)) (r : FlaggedRollout F) : (flag filters r).rollout = r.rollout := by
  unfold flag
  cases firstDetection filters r.rollout <;> rfl

theorem flag_isFiltered (filters : List (RolloutFilter F)) (rollout : Rollout F) (flags : Dict String Bool) :
    (flag filters ⟨rollout, flags, false⟩).isFiltered = (firstDetection filters rollout).any RolloutFilter.enforce := by
  unfold flag
  cases firstDetection filters rollout <;> rfl

theorem foldl_count (filters : List (RolloutFilter F)) (rollouts : List (Rollout F)) (totals : Totals) :
    (∀ name c, totals.counts.get? name = some c →
      (rollouts.foldl (fun totals rollout => count filters rollout totals) totals).counts.get? name =
        some (c + rollouts.countP fun r => (firstDetection filters r).map RolloutFilter.name = some name)) ∧
    (rollouts.foldl (fun totals rollout => count filters rollout totals) totals).totalDetected =
      totals.totalDetected + rollouts.countP (fun r => (firstDetection filters r).isSome) ∧
    (rollouts.foldl (fun totals rollout => count filters rollout totals) totals).totalEnforced =
      totals.totalEnforced + rollouts.countP (fun r => (firstDetection filters r).any RolloutFilter.enforce) := by
  induction rollouts generalizing totals with
  | nil => exact ⟨fun _ _ h => h, rfl, rfl⟩
  | cons r rollouts ih =>
      obtain ⟨hcounts, hdetected, henforced⟩ := ih (count filters r totals)
      rw [List.foldl_cons, List.countP_cons, List.countP_cons]
      refine ⟨fun name c hc => ?_, ?_, ?_⟩
      · rw [List.countP_cons]
        cases hfirst : firstDetection filters r with
        | none => simpa [hfirst] using hcounts name c (by simpa [count, hfirst] using hc)
        | some filt =>
            by_cases hname : filt.name = name
            · have hget : (count filters r totals).counts.get? name = some (c + 1) := by
                simp [count, hfirst, ← hname, hname ▸ hc]
              rw [hcounts name (c + 1) hget]
              simp [hname]
              omega
            · have hget : (count filters r totals).counts.get? name = some c := by
                simp only [count, hfirst]
                rw [Dict.get?_insert_ne _ _ hname]
                exact hc
              rw [hcounts name c hget]
              simp [hname]
      · rw [hdetected]
        cases hfirst : firstDetection filters r with
        | none => simp [count, hfirst]
        | some filt => simp [count, hfirst]; omega
      · rw [henforced]
        cases hfirst : firstDetection filters r with
        | none => simp [count, hfirst]
        | some filt => cases henf : filt.enforce <;> simp [count, hfirst, henf]; omega

/-- **Main.** Every rollout is kept, with the flag of the first filter that detects it; it is filtered when that filter
enforces, and the totals count the flags. -/
theorem apply_filters_accounting (filters : List (RolloutFilter F)) (rollouts : List (Rollout F)) :
    Accounts filters rollouts (applyFilters filters rollouts).1 (applyFilters filters rollouts).2 := by
  rw [applyFilters_eq]
  obtain ⟨hcounts, hdetected, henforced⟩ :=
    foldl_count filters rollouts ⟨Dict.ofList (filters.map fun filt => (filt.name, 0)), 0, 0⟩
  refine ⟨?_, ?_, ?_, ?_, ?_, ?_⟩
  · rw [List.map_map]
    exact (List.map_congr_left fun rollout _ => flag_rollout _ _).trans (List.map_id _)
  · intro r hr
    obtain ⟨rollout, -, rfl⟩ := List.mem_map.1 hr
    rw [flag_isFiltered, flag_rollout, Option.any_eq_true]
  · intro r hr filt hfilt
    obtain ⟨rollout, -, rfl⟩ := List.mem_map.1 hr
    rw [get?_flag hfilt, flag_rollout]
  · intro filt hfilt
    rw [hcounts filt.name 0 (get?_ofList_const hfilt 0), Nat.zero_add, List.countP_map]
    refine congrArg some (List.countP_congr fun rollout _ => ?_)
    simp [get?_flag hfilt]
  · rw [hdetected, Nat.zero_add, List.countP_map]
    refine List.countP_congr fun rollout _ => ?_
    simp [flag_rollout]
  · rw [henforced, Nat.zero_add, List.countP_map]
    refine List.countP_congr fun rollout _ => ?_
    simp [flag_isFiltered]

end AuroraRl.Filters
