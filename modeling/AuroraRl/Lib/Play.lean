import AuroraRl.Lib.Protocol

/-!
# Scripted runs

* `Cue` : what happens next: a request arrives, or the task at a place in the list is answered;
* `Director` : an executable account of what may happen;
* `Director.play` : the configuration a script leads to; `run_of_play` : it is the end of a run.
-/

namespace Coroutine
open Transition

variable {σ ε : Type} {α : ε → Type} {χ ρ θ : Type}

inductive Cue (ε : Type) (α : ε → Type) (θ : Type)
  | arrive (q : θ)
  | answer (place : Nat) (e : ε) (a : α e)

/-- A decision procedure for the answers of the world and for what is assumed of a step. -/
structure Director (pool : Pool σ ε α χ ρ θ) (assumes : Action ε α θ → σ → Prop) where
  allows : Action ε α θ → σ → Bool
  answer : σ → (e : ε) → α e → Option σ
  admits_of_allows : ∀ {q s}, allows (.arrive q) s = true → pool.admits q
  assumes_of_allows : ∀ {a s}, allows a s = true → assumes a s
  world_of_answer : ∀ {s e a s'}, answer s e a = some s' → pool.world s e a s'

namespace Director

variable [DecidableEq ε] {pool : Pool σ ε α χ ρ θ} {assumes : Action ε α θ → σ → Prop} (d : Director pool assumes)

/-- The answer `a` to the task at a place. -/
def answerTask (c : Config σ ε α χ ρ θ) (place : Nat) (e : ε) (a : α e) : Task σ ε α χ ρ θ → Option (Config σ ε α χ ρ θ)
  | ⟨q, held, .await e' k⟩ =>
    if h : e = e' then
      if d.allows (.answer q e a) c.shared then
        (d.answer c.shared e a).map fun s' =>
          .settle (c.tasks.take place) (c.tasks.drop (place + 1)) q ((k (h ▸ a)).run held s')
      else none
    else none
  | _ => none

def cue (c : Config σ ε α χ ρ θ) : Cue ε α θ → Option (Config σ ε α χ ρ θ)
  | .arrive q =>
    if d.allows (.arrive q) c.shared then some (.settle c.tasks [] q ((pool.program q).run false c.shared)) else none
  | .answer place e a => c.tasks[place]?.bind (d.answerTask c place e a)

def play (cues : List (Cue ε α θ)) (c : Config σ ε α χ ρ θ) : Option (Config σ ε α χ ρ θ) := cues.foldlM d.cue c

variable {d}

theorem step_of_answerTask {c c' : Config σ ε α χ ρ θ} {place : Nat} {e : ε} {a : α e} {t : Task σ ε α χ ρ θ}
    (ht : c.tasks[place]? = some t) (h : d.answerTask c place e a t = some c') :
    ∃ l, (pool.assuming assumes).step c l c' := by
  obtain ⟨q, held, code⟩ := t
  cases code with
  | await e' k =>
      simp only [answerTask] at h
      split at h
      · rename_i he
        subst he
        split at h
        · rename_i hallows
          obtain ⟨s', hanswer, rfl⟩ := Option.map_eq_some_iff.1 h
          have htasks : c.tasks = c.tasks.take place ++ ⟨q, held, .await e k⟩ :: c.tasks.drop (place + 1) := by
            obtain ⟨hlt, hget⟩ := List.getElem?_eq_some_iff.1 ht
            rw [← hget, List.getElem_cons_drop, List.take_append_drop]
          obtain ⟨s, tasks⟩ := c
          refine ⟨⟨.answer q e a, ((k a).run held s').result?⟩, d.assumes_of_allows hallows, ?_⟩
          dsimp only at htasks ⊢
          have hstep : pool.Step ⟨s, tasks.take place ++ ⟨q, held, .await e k⟩ :: tasks.drop (place + 1)⟩
              ⟨.answer q e a, ((k a).run held s').result?⟩ _ := .answer (d.world_of_answer hanswer) rfl
          rw [← htasks] at hstep
          exact hstep
        · cases h
      · cases h
  | _ => simp [answerTask] at h

theorem step_of_cue {c c' : Config σ ε α χ ρ θ} {cue : Cue ε α θ} (h : d.cue c cue = some c') :
    ∃ l, (pool.assuming assumes).step c l c' := by
  cases cue with
  | arrive q =>
      simp only [Director.cue] at h
      split at h
      · rename_i hallows
        cases h
        exact ⟨_, d.assumes_of_allows hallows, .arrive (d.admits_of_allows hallows) rfl⟩
      · cases h
  | answer place e a =>
      obtain ⟨t, ht, h⟩ := Option.bind_eq_some_iff.1 h
      exact step_of_answerTask ht h

/-- What is played is a run. -/
theorem run_of_play {cues : List (Cue ε α θ)} {c c' : Config σ ε α χ ρ θ} (h : d.play cues c = some c') :
    ∃ ls, (pool.assuming assumes).Run c ls c' := by
  induction cues generalizing c with
  | nil =>
      cases h
      exact ⟨[], .nil⟩
  | cons cue cues ih =>
      obtain ⟨c₁, hcue, h⟩ := Option.bind_eq_some_iff.1 h
      obtain ⟨l, hstep⟩ := step_of_cue hcue
      obtain ⟨ls, hrun⟩ := ih h
      exact ⟨l :: ls, .cons hstep hrun⟩

end Director

end Coroutine
