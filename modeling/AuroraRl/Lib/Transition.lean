import Mathlib.Data.List.Basic

/-!
# Labelled transition systems

* `System σ α` : initial states and labelled steps; `System.Run` : a finite run with its labels, newest
  last; `System.Reachable` : the end of a run from an initial state;
* `System.Run.preserves` / `System.Reachable.invariant` : what every step preserves holds along every run;
* `System.restrict`, `System.ensure` : the runs all of whose steps meet a condition on their start or their end.
-/

namespace Transition

universe u v

/-- A labelled transition system. -/
structure System (σ : Type u) (α : Type v) where
  init : σ → Prop
  step : σ → α → σ → Prop

namespace System

variable {σ : Type u} {α : Type v} (M : System σ α)

/-- `M.Run s ls t`: the labels `ls`, in order, lead from `s` to `t`. -/
inductive Run (s : σ) : List α → σ → Prop
  | nil : Run s [] s
  | snoc {ls : List α} {t u : σ} {l : α} : Run s ls t → M.step t l u → Run s (ls ++ [l]) u

/-- A state some run from an initial state ends in. -/
def Reachable (t : σ) : Prop := ∃ s ls, M.init s ∧ M.Run s ls t

variable {M}

namespace Run

theorem single {s t : σ} {l : α} (h : M.step s l t) : M.Run s [l] t := snoc nil h

theorem append {s t u : σ} {ls ls' : List α} (h : M.Run s ls t) (h' : M.Run t ls' u) :
    M.Run s (ls ++ ls') u := by
  induction h' with
  | nil => simpa using h
  | snoc _ hstep ih =>
      rw [← List.append_assoc]
      exact ih.snoc hstep

theorem cons {s t u : σ} {l : α} {ls : List α} (h : M.step s l t) (h' : M.Run t ls u) :
    M.Run s (l :: ls) u := (single h).append h'

/-- What every step preserves, every run preserves. -/
theorem preserves {I : σ → Prop} (hstep : ∀ s l t, I s → M.step s l t → I t) {s t : σ} {ls : List α}
    (h : M.Run s ls t) (hs : I s) : I t := by
  induction h with
  | nil => exact hs
  | snoc _ hst ih => exact hstep _ _ _ ih hst

end Run

namespace Reachable

theorem of_init {s : σ} (h : M.init s) : M.Reachable s := ⟨s, [], h, .nil⟩

theorem step {s t : σ} {l : α} (h : M.Reachable s) (hst : M.step s l t) : M.Reachable t := by
  obtain ⟨s₀, ls, h₀, hr⟩ := h
  exact ⟨s₀, ls ++ [l], h₀, hr.snoc hst⟩

theorem run {s t : σ} {ls : List α} (h : M.Reachable s) (hr : M.Run s ls t) : M.Reachable t := by
  obtain ⟨s₀, ls₀, h₀, hr₀⟩ := h
  exact ⟨s₀, ls₀ ++ ls, h₀, hr₀.append hr⟩

/-- An inductive invariant holds in every reachable state. -/
theorem invariant {I : σ → Prop} (hinit : ∀ s, M.init s → I s)
    (hstep : ∀ s l t, I s → M.step s l t → I t) {t : σ} (h : M.Reachable t) : I t := by
  obtain ⟨s, ls, h₀, hr⟩ := h
  exact hr.preserves hstep (hinit s h₀)

end Reachable

/-! ## Runs under a condition -/

variable (M)

/-- The system cut down to the steps that meet `C`. -/
def restrict (C : σ → α → Prop) : System σ α where
  init := M.init
  step s l t := C s l ∧ M.step s l t

variable {M}

theorem Run.of_restrict {C : σ → α → Prop} {s t : σ} {ls : List α} (h : (M.restrict C).Run s ls t) :
    M.Run s ls t := by
  induction h with
  | nil => exact .nil
  | snoc _ hst ih => exact ih.snoc hst.2

theorem Reachable.of_restrict {C : σ → α → Prop} {t : σ} (h : (M.restrict C).Reachable t) : M.Reachable t := by
  obtain ⟨s, ls, h₀, hr⟩ := h
  exact ⟨s, ls, h₀, hr.of_restrict⟩

variable (M)

/-- The system cut down to the steps that end as `P` says. -/
def ensure (P : α → σ → Prop) : System σ α where
  init := M.init
  step s l t := M.step s l t ∧ P l t

variable {M}

theorem Run.congr {M' : System σ α} (h : ∀ s l t, M.step s l t ↔ M'.step s l t) {s t : σ} {ls : List α} :
    M.Run s ls t ↔ M'.Run s ls t := by
  constructor
  · intro hrun
    induction hrun with
    | nil => exact .nil
    | snoc _ hst ih => exact ih.snoc ((h _ _ _).1 hst)
  · intro hrun
    induction hrun with
    | nil => exact .nil
    | snoc _ hst ih => exact ih.snoc ((h _ _ _).2 hst)

end System

end Transition
