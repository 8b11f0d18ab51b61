import Mathlib.Logic.Relation
import Mathlib.Data.List.Basic

/-!
# Barriers of a group of processes

`w r` lists the barriers the program of process `r` still executes, each under the name of its call site.

* `Barrier.Pass` : every process has reached its next barrier, so all of them go on;
* `Barrier.Aligned` : all processes execute one sequence of barriers;
* `Barrier.Hangs` : a process waits at a barrier that another one never reaches;
* `hangs_iff` : somebody hangs iff two sequences differ in length;
* `append_round_inj` : logs that end their rounds with a mark agree iff they agree round by round.
-/

namespace Barrier

open Relation

variable {ρ β : Type}

/-- A barrier lets the group through once every process has reached one. -/
inductive Pass (w : ρ → List β) : (ρ → List β) → Prop
  | pass (h : ∀ r, w r ≠ []) : Pass w fun r => (w r).tail

def Passes : (ρ → List β) → (ρ → List β) → Prop := ReflTransGen Pass

def Aligned (w : ρ → List β) : Prop := ∀ r r', w r = w r'

/-- Some process waits at a barrier while another has none left. -/
def Stuck (w : ρ → List β) : Prop := ∃ r r', w r ≠ [] ∧ w r' = []

def Hangs (w : ρ → List β) : Prop := ∃ later, Passes w later ∧ Stuck later

theorem Pass.tail {w later : ρ → List β} (h : Pass w later) : later = fun r => (w r).tail := by
  obtain ⟨h⟩ := h
  rfl

theorem Aligned.pass {w later : ρ → List β} (ha : Aligned w) (h : Pass w later) : Aligned later := by
  intro r r'
  rw [h.tail]
  exact congrArg List.tail (ha r r')

theorem Aligned.passes {w later : ρ → List β} (ha : Aligned w) (h : Passes w later) : Aligned later := by
  induction h with
  | refl => exact ha
  | tail _ hpass ih => exact ih.pass hpass

theorem Aligned.not_stuck {w : ρ → List β} (ha : Aligned w) : ¬ Stuck w := by
  rintro ⟨r, r', hr, hr'⟩
  exact hr ((ha r r').trans hr')

theorem Aligned.not_hangs {w : ρ → List β} (ha : Aligned w) : ¬ Hangs w := by
  rintro ⟨later, hl, hs⟩
  exact (ha.passes hl).not_stuck hs

/-- A process hangs iff some process has more barriers w than another. -/
theorem hangs_iff {w : ρ → List β} : Hangs w ↔ ∃ r r', (w r).length ≠ (w r').length := by
  constructor
  · rintro ⟨later, hl, r, r', hr, hr'⟩
    refine ⟨r, r', ?_⟩
    -- what has been passed is as long for everybody
    have hlen : ∃ n, ∀ k, (w k).length = n + (later k).length := by
      clear hr hr'
      induction hl with
      | refl => exact ⟨0, fun k => (Nat.zero_add _).symm⟩
      | tail _ hpass ih =>
          obtain ⟨n, hn⟩ := ih
          obtain ⟨hne⟩ := hpass
          refine ⟨n + 1, fun k => ?_⟩
          have hpos := List.length_pos_iff.2 (hne k)
          rw [hn k, List.length_tail]
          omega
    obtain ⟨n, hn⟩ := hlen
    have hpos := List.length_pos_iff.2 hr
    rw [hn r, hn r', hr', List.length_nil]
    omega
  · rintro ⟨r, r', hne⟩
    induction hs : w r generalizing w with
    | nil =>
        refine ⟨w, .refl, r', r, fun h => hne ?_, hs⟩
        rw [hs, h]
    | cons b l ih =>
        by_cases hall : ∀ k, w k ≠ []
        · have hpass : Pass w fun k => (w k).tail := .pass hall
          have hpos := List.length_pos_iff.2 (hall r')
          have hlen : (w r).tail.length ≠ (w r').tail.length := by
            rw [hs] at hne
            simp only [List.length_cons] at hne
            rw [hs, List.tail_cons, List.length_tail]
            omega
          obtain ⟨later, hl, hstuck⟩ := ih (w := fun k => (w k).tail) hlen (by simp only [hs, List.tail_cons])
          exact ⟨later, .head hpass hl, hstuck⟩
        · rw [not_forall] at hall
          obtain ⟨k, hk⟩ := hall
          exact ⟨w, .refl, r, k, hs ▸ List.cons_ne_nil b l, not_not.1 hk⟩

/-! ## Rounds

A round ends with a mark that stands nowhere else in it, so a log of whole rounds splits in one way. -/

/-- A log of whole rounds. -/
def Closed (mark : β) (log : List β) : Prop := log = [] ∨ log.getLast? = some mark

theorem Closed.append (mark : β) (log x : List β) : Closed mark (log ++ (x ++ [mark])) := by
  refine .inr ?_
  rw [← List.append_assoc, List.getLast?_concat]

theorem Closed.eq_of_append {mark : β} {log log' a x : List β} (h' : Closed mark log') (hx : mark ∉ x)
    (ha : log' = log ++ a) (hax : a <+: x) : a = [] := by
  by_contra hne
  refine hx (hax.subset (List.mem_of_getLast? ?_))
  rcases h' with h' | h'
  · exact absurd (List.append_eq_nil_iff.1 (ha ▸ h')).2 hne
  · rwa [ha, List.getLast?_append_of_ne_nil _ hne] at h'

theorem append_round_inj {mark : β} {log log' x x' : List β} (h : Closed mark log) (h' : Closed mark log')
    (hx : mark ∉ x) (hx' : mark ∉ x') :
    log ++ (x ++ [mark]) = log' ++ (x' ++ [mark]) ↔ log = log' ∧ x = x' := by
  constructor
  · intro he
    rw [← List.append_assoc, ← List.append_assoc] at he
    rcases List.append_eq_append_iff.1 (List.append_cancel_right he) with ⟨a, ha, hxa⟩ | ⟨a, ha, hxa⟩
    · have hnil := h'.eq_of_append hx ha ⟨x', hxa.symm⟩
      rw [hnil, List.append_nil] at ha
      rw [hnil, List.nil_append] at hxa
      exact ⟨ha.symm, hxa⟩
    · have hnil := h.eq_of_append hx' ha ⟨x, hxa.symm⟩
      rw [hnil, List.append_nil] at ha
      rw [hnil, List.nil_append] at hxa
      exact ⟨ha, hxa.symm⟩
  · rintro ⟨rfl, rfl⟩
    rfl

end Barrier
