import AuroraRl.Lib.Transition

/-!
# Cooperative coroutines over a shared state, with one mutex

Code runs without interruption from one suspension to the next; only there may other tasks run and may the
world answer what is awaited.

* `Coro` : the syntax: state access, `await`, `lock`, `unlock`, `raise`; a monad;
* `Coro.run` : one uninterrupted segment;
* `Config`, `Pool.Step` : a pool of suspended tasks, at most one of which holds the lock;
* `Discipline` : the part of the state the lock guards, what holds of it while the lock is free, what holds at
  every suspension, and how any code may change the state; `Discipline.wp` is the weakest precondition under it;
* `Pool.reachable_ok` : if every program meets its `wp`, every reachable configuration keeps the discipline.
-/

namespace Coroutine
open Transition

/-- A coroutine over states `σ`, awaiting events `ε` answered in `α`, raising `χ` and returning `ρ`. -/
inductive Coro (σ ε : Type) (α : ε → Type) (χ ρ : Type) : Type
  | ret (r : ρ)
  | raise (x : χ)
  | get (k : σ → Coro σ ε α χ ρ)
  | set (s : σ) (c : Coro σ ε α χ ρ)
  | await (e : ε) (k : α e → Coro σ ε α χ ρ)
  | lock (c : Coro σ ε α χ ρ)
  | unlock (c : Coro σ ε α χ ρ)

namespace Coro

variable {σ ε : Type} {α : ε → Type} {χ ρ τ : Type}

protected def bind : Coro σ ε α χ ρ → (ρ → Coro σ ε α χ τ) → Coro σ ε α χ τ
  | ret r, f => f r
  | raise x, _ => raise x
  | get k, f => get fun s => (k s).bind f
  | set s c, f => set s (c.bind f)
  | await e k, f => await e fun a => (k a).bind f
  | lock c, f => lock (c.bind f)
  | unlock c, f => unlock (c.bind f)

instance : Monad (Coro σ ε α χ) where
  pure := ret
  bind := Coro.bind

instance : MonadExceptOf χ (Coro σ ε α χ) where
  throw := raise
  tryCatch c h := go h c
where
  go {ρ : Type} (h : χ → Coro σ ε α χ ρ) : Coro σ ε α χ ρ → Coro σ ε α χ ρ
    | ret r => ret r
    | raise x => h x
    | get k => get fun s => go h (k s)
    | set s c => set s (go h c)
    | await e k => await e fun a => go h (k a)
    | lock c => lock (go h c)
    | unlock c => unlock (go h c)

def getState : Coro σ ε α χ σ := get ret

def setState (s : σ) : Coro σ ε α χ Unit := set s (ret ())

def modify (f : σ → σ) : Coro σ ε α χ Unit := get fun s => set (f s) (ret ())

def perform (e : ε) : Coro σ ε α χ (α e) := await e ret

/-- The exception of a failed computation becomes a value. -/
def attempt : Coro σ ε α χ ρ → Coro σ ε α χ (Except χ ρ)
  | ret r => ret (.ok r)
  | raise x => ret (.error x)
  | get k => get fun s => (k s).attempt
  | set s c => set s c.attempt
  | await e k => await e fun a => (k a).attempt
  | lock c => lock c.attempt
  | unlock c => unlock c.attempt

def ofExcept : Except χ ρ → Coro σ ε α χ ρ
  | .ok r => ret r
  | .error x => raise x

/-- A loop of at most so many turns, each of which goes on with a new value or ends the loop; then `exhausted`. -/
def iterate {β : Type} (exhausted : Coro σ ε α χ ρ) (body : β → Coro σ ε α χ (β ⊕ ρ)) : Nat → β → Coro σ ε α χ ρ
  | 0, _ => exhausted
  | n + 1, b => (body b).bind fun
    | .inl b => iterate exhausted body n b
    | .inr r => ret r

/-- The lock is given back whether the body returns or raises. -/
def withLock (body : Coro σ ε α χ ρ) : Coro σ ε α χ ρ :=
  lock (body.attempt.bind fun r => unlock (ofExcept r))

/-- What one segment leaves behind: whether the lock is held, the state, and the rest or the result. -/
structure Outcome (σ ε : Type) (α : ε → Type) (χ ρ : Type) where
  held : Bool
  state : σ
  rest : Coro σ ε α χ ρ ⊕ Except χ ρ

/-- Run to the next suspension. -/
def run (held : Bool) : Coro σ ε α χ ρ → σ → Outcome σ ε α χ ρ
  | ret r, s => ⟨held, s, .inr (.ok r)⟩
  | raise x, s => ⟨held, s, .inr (.error x)⟩
  | get k, s => (k s).run held s
  | set s c, _ => c.run held s
  | await e k, s => ⟨held, s, .inl (await e k)⟩
  | lock c, s => ⟨held, s, .inl (lock c)⟩
  | unlock c, s => c.run false s

/-- Run a coroutine alone from the state `s`, with `w` answering its awaits; `none` if it misuses the lock. -/
def exec (w : σ → (e : ε) → α e × σ) (held : Bool) : Coro σ ε α χ ρ → σ → Option (σ × Except χ ρ)
  | .ret r, s => if held then none else some (s, .ok r)
  | .raise x, s => if held then none else some (s, .error x)
  | .get k, s => (k s).exec w held s
  | .set s' c, _ => c.exec w held s'
  | .await e k, s => (k (w s e).1).exec w held (w s e).2
  | .lock c, s => if held then none else c.exec w true s
  | .unlock c, s => c.exec w false s

end Coro

/-! ## Pools of tasks -/

/-- A suspended task, with the request it serves. -/
structure Task (σ ε : Type) (α : ε → Type) (χ ρ θ : Type) where
  request : θ
  held : Bool
  code : Coro σ ε α χ ρ

structure Config (σ ε : Type) (α : ε → Type) (χ ρ θ : Type) where
  shared : σ
  tasks : List (Task σ ε α χ ρ θ)

namespace Config

variable {σ ε : Type} {α : ε → Type} {χ ρ θ : Type}

/-- No task holds the lock. -/
def LockFree (c : Config σ ε α χ ρ θ) : Prop := ∀ t ∈ c.tasks, t.held = false

/-- The configuration after a segment of the task between `l` and `r`. -/
def settle (l r : List (Task σ ε α χ ρ θ)) (q : θ) (o : Coro.Outcome σ ε α χ ρ) : Config σ ε α χ ρ θ :=
  match o.rest with
  | .inl code => ⟨o.state, l ++ ⟨q, o.held, code⟩ :: r⟩
  | .inr _ => ⟨o.state, l ++ r⟩

end Config

/-- What happened in a step. -/
inductive Action (ε : Type) (α : ε → Type) (θ : Type)
  | arrive (q : θ)
  | answer (q : θ) (e : ε) (a : α e)
  | acquire (q : θ)

namespace Action

variable {ε : Type} {α : ε → Type} {θ : Type}

def request : Action ε α θ → θ
  | arrive q => q
  | answer q _ _ => q
  | acquire q => q

end Action

/-- An action, with the result if the task finished in that segment. -/
structure Label (ε : Type) (α : ε → Type) (χ ρ θ : Type) where
  action : Action ε α θ
  result : Option (Except χ ρ)

def Coro.Outcome.result? {σ ε : Type} {α : ε → Type} {χ ρ : Type} (o : Outcome σ ε α χ ρ) :
    Option (Except χ ρ) :=
  o.rest.getRight?

/-- The programs that serve requests, the requests that may arrive, and how the world answers. -/
structure Pool (σ ε : Type) (α : ε → Type) (χ ρ θ : Type) where
  init : σ → Prop
  admits : θ → Prop
  program : θ → Coro σ ε α χ ρ
  world : σ → (e : ε) → α e → σ → Prop

namespace Pool

variable {σ ε : Type} {α : ε → Type} {χ ρ θ : Type} (P : Pool σ ε α χ ρ θ)

inductive Step : Config σ ε α χ ρ θ → Label ε α χ ρ θ → Config σ ε α χ ρ θ → Prop
  | arrive {c : Config σ ε α χ ρ θ} {q : θ} {o : Coro.Outcome σ ε α χ ρ} (hq : P.admits q)
      (ho : (P.program q).run false c.shared = o) :
      Step c ⟨.arrive q, o.result?⟩ (.settle c.tasks [] q o)
  | answer {s s' : σ} {l r : List (Task σ ε α χ ρ θ)} {q : θ} {held : Bool} {e : ε} {a : α e}
      {k : α e → Coro σ ε α χ ρ} {o : Coro.Outcome σ ε α χ ρ} (hw : P.world s e a s')
      (ho : (k a).run held s' = o) :
      Step ⟨s, l ++ ⟨q, held, .await e k⟩ :: r⟩ ⟨.answer q e a, o.result?⟩ (.settle l r q o)
  | acquire {s : σ} {l r : List (Task σ ε α χ ρ θ)} {q : θ} {k : Coro σ ε α χ ρ}
      {o : Coro.Outcome σ ε α χ ρ} (hl : ∀ t ∈ l, t.held = false) (hr : ∀ t ∈ r, t.held = false)
      (ho : k.run true s = o) :
      Step ⟨s, l ++ ⟨q, false, .lock k⟩ :: r⟩ ⟨.acquire q, o.result?⟩ (.settle l r q o)

def system : System (Config σ ε α χ ρ θ) (Label ε α χ ρ θ) where
  init c := P.init c.shared ∧ c.tasks = []
  step := P.Step

variable {P}

/-! ### The requests of a run -/

/-- The pool that serves only the requests with a property. -/
def restrict (P : Pool σ ε α χ ρ θ) (p : θ → Prop) : Pool σ ε α χ ρ θ :=
  { P with admits := fun q => P.admits q ∧ p q }

variable {c c' : Config σ ε α χ ρ θ} {l : Label ε α χ ρ θ} {ls : List (Label ε α χ ρ θ)} {p : θ → Prop}

theorem Step.of_restrict (h : (P.restrict p).Step c l c') : P.Step c l c' := by
  cases h with
  | arrive hq ho => exact .arrive hq.1 ho
  | answer hw ho => exact .answer hw ho
  | acquire hl hr ho => exact .acquire hl hr ho

theorem run_of_restrict (h : (P.restrict p).system.Run c ls c') : P.system.Run c ls c' := by
  induction h with
  | nil => exact .nil
  | snoc _ hst ih => exact ih.snoc hst.of_restrict

theorem settle_requests {l r : List (Task σ ε α χ ρ θ)} {q : θ} {o : Coro.Outcome σ ε α χ ρ} (hq : p q)
    (hothers : ∀ t ∈ l ++ r, p t.request) : ∀ t ∈ (Config.settle l r q o).tasks, p t.request := by
  intro t ht
  unfold Config.settle at ht
  split at ht
  · simp only [List.mem_append, List.mem_cons] at ht hothers
    rcases ht with ht | rfl | ht
    · exact hothers t (Or.inl ht)
    · exact hq
    · exact hothers t (Or.inr ht)
  · exact hothers t ht

/-- Only admitted requests are under way, and each step serves one. -/
theorem Step.admitted (h : P.Step c l c') (hc : ∀ t ∈ c.tasks, P.admits t.request) :
    (∀ t ∈ c'.tasks, P.admits t.request) ∧ P.admits l.action.request := by
  cases h with
  | arrive hq ho =>
      refine ⟨settle_requests hq ?_, hq⟩
      rw [List.append_nil]
      exact hc
  | @answer _ _ l r q held e a k o hw ho =>
      have hq : P.admits q := hc _ (List.mem_append_right l List.mem_cons_self)
      refine ⟨settle_requests hq fun t ht => hc t ?_, hq⟩
      rcases List.mem_append.1 ht with ht | ht
      · exact List.mem_append_left _ ht
      · exact List.mem_append_right _ (List.mem_cons_of_mem _ ht)
  | @acquire _ l r q k o hl hr ho =>
      have hq : P.admits q := hc _ (List.mem_append_right l List.mem_cons_self)
      refine ⟨settle_requests hq fun t ht => hc t ?_, hq⟩
      rcases List.mem_append.1 ht with ht | ht
      · exact List.mem_append_left _ ht
      · exact List.mem_append_right _ (List.mem_cons_of_mem _ ht)

theorem run_admitted (hc : ∀ t ∈ c.tasks, P.admits t.request) (h : P.system.Run c ls c') :
    (∀ t ∈ c'.tasks, P.admits t.request) ∧ ∀ l ∈ ls, P.admits l.action.request := by
  induction h with
  | nil => exact ⟨hc, nofun⟩
  | snoc _ hst ih =>
      obtain ⟨hc', hq⟩ := hst.admitted ih.1
      refine ⟨hc', fun l hl => ?_⟩
      rcases List.mem_append.1 hl with hl | hl
      · exact ih.2 l hl
      · rw [List.mem_singleton.1 hl]
        exact hq

/-! ### One request served alone -/


theorem Step.answer_alone {c : Config σ ε α χ ρ θ} {o : Coro.Outcome σ ε α χ ρ} {q : θ} {e : ε} {a : α e}
    {k : α e → Coro σ ε α χ ρ} {s' : σ} (hc : c = .settle [] [] q o) (ho : o.rest = .inl (.await e k))
    (hw : P.world o.state e a s') :
    P.Step c ⟨.answer q e a, ((k a).run o.held s').result?⟩ (.settle [] [] q ((k a).run o.held s')) := by
  rw [hc, Config.settle, ho]
  exact .answer (l := []) (r := []) hw rfl

theorem Step.acquire_alone {c : Config σ ε α χ ρ θ} {o : Coro.Outcome σ ε α χ ρ} {q : θ} {k : Coro σ ε α χ ρ}
    (hc : c = .settle [] [] q o) (ho : o.rest = .inl (.lock k)) (hheld : o.held = false) :
    P.Step c ⟨.acquire q, (k.run true o.state).result?⟩ (.settle [] [] q (k.run true o.state)) := by
  rw [hc, Config.settle, ho, hheld]
  exact .acquire (l := []) (r := []) nofun nofun rfl

/-- A segment of a coroutine run alone is followed by steps whose last one yields the result. -/
theorem run_of_exec {w : σ → (e : ε) → α e × σ} (hw : ∀ s e, P.world s e (w s e).1 (w s e).2) {q : θ}
    {c : Coro σ ε α χ ρ} {held : Bool} {s s' : σ} {r : Except χ ρ} {c₀ : Config σ ε α χ ρ θ} {a : Action ε α θ}
    (h : c.exec w held s = some (s', r))
    (hstep : P.Step c₀ ⟨a, (c.run held s).result?⟩ (.settle [] [] q (c.run held s))) (ha : a.request = q) :
    ∃ ls c' a', P.system.Run c₀ ls c' ∧ P.Step c' ⟨a', some r⟩ ⟨s', []⟩ ∧ a'.request = q := by
  induction c generalizing held s c₀ a with
  | ret r =>
      cases held with
      | true => cases h
      | false => cases h; exact ⟨[], c₀, a, .nil, hstep, ha⟩
  | raise x =>
      cases held with
      | true => cases h
      | false => cases h; exact ⟨[], c₀, a, .nil, hstep, ha⟩
  | get k ih => exact ih s h hstep ha
  | set s' c ih => exact ih h hstep ha
  | await e k ih =>
      obtain ⟨ls, c', a', hrun, hlast⟩ := ih _ h
        (Step.answer_alone (c := .settle [] [] q ((Coro.await e k).run held s)) rfl rfl (hw s e)) rfl
      exact ⟨_, c', a', .cons hstep hrun, hlast⟩
  | lock c ih =>
      cases held with
      | true => cases h
      | false =>
          obtain ⟨ls, c', a', hrun, hlast⟩ := ih h
            (Step.acquire_alone (c := .settle [] [] q ((Coro.lock c).run false s)) rfl rfl rfl) rfl
          exact ⟨_, c', a', .cons hstep hrun, hlast⟩
  | unlock c ih => exact ih h hstep ha

/-- A request served alone is a run of the pool whose last step answers it. -/
theorem serve_run {w : σ → (e : ε) → α e × σ} (hw : ∀ s e, P.world s e (w s e).1 (w s e).2) {q : θ}
    (hq : P.admits q) {s s' : σ} {r : Except χ ρ} (h : (P.program q).exec w false s = some (s', r)) :
    ∃ ls c a, P.system.Run ⟨s, []⟩ ls c ∧ P.Step c ⟨a, some r⟩ ⟨s', []⟩ ∧ a.request = q :=
  run_of_exec hw h (Step.arrive hq rfl) rfl

end Pool

/-! ## Weakest preconditions under a lock discipline -/

/-- What the lock guards (`core`), what holds of it while the lock is free (`free`), what holds at every
suspension (`always`), and how the state may change from one moment to a later one (`guar`). -/
structure Discipline (σ κ : Type) where
  core : σ → κ
  free : κ → Prop
  always : σ → Prop
  guar : σ → σ → Prop
  guar_refl : ∀ s, guar s s
  guar_trans : ∀ {s t u}, guar s t → guar t u → guar s u

namespace Discipline

variable {σ κ ε : Type} {α : ε → Type} {χ ρ τ θ : Type} (D : Discipline σ κ)
  (w : σ → (e : ε) → α e → σ → Prop)

/-- Without the lock a coroutine leaves the core alone and may find anything in it after a suspension; with
the lock it finds the core as it left it, and gives it back in order. -/
def wp (held : Bool) : Coro σ ε α χ ρ → σ → (Bool → Except χ ρ → σ → Prop) → Prop
  | .ret r, s, Q => Q held (.ok r) s
  | .raise x, s, Q => Q held (.error x) s
  | .get k, s, Q => wp held (k s) s Q
  | .set s' c, s, Q => (held = false → D.core s' = D.core s) ∧ D.guar s s' ∧ wp held c s' Q
  | .await e k, s, Q => D.always s ∧ ∀ s₁ a s₂, D.always s₁ → D.guar s s₁ →
      (held = true → D.core s₁ = D.core s) → w s₁ e a s₂ →
      (held = false → D.core s₂ = D.core s₁) ∧ D.guar s₁ s₂ ∧ wp held (k a) s₂ Q
  | .lock c, s, Q => held = false ∧ D.always s ∧
      ∀ s₁, D.always s₁ → D.guar s s₁ → D.free (D.core s₁) → wp true c s₁ Q
  | .unlock c, s, Q => held = true ∧ D.free (D.core s) ∧ wp false c s Q

variable {D w}

theorem wp_mono {c : Coro σ ε α χ ρ} {held : Bool} {s : σ} {Q Q' : Bool → Except χ ρ → σ → Prop}
    (h : D.wp w held c s Q) (hQ : ∀ b r s, Q b r s → Q' b r s) : D.wp w held c s Q' := by
  induction c generalizing held s with
  | ret r => exact hQ _ _ _ h
  | raise x => exact hQ _ _ _ h
  | get k ih => exact ih _ h
  | set s' c ih => exact ⟨h.1, h.2.1, ih h.2.2⟩
  | await e k ih =>
      refine ⟨h.1, fun s₁ a s₂ ha hg hc hw => ?_⟩
      obtain ⟨hcore, hguar, hwp⟩ := h.2 s₁ a s₂ ha hg hc hw
      exact ⟨hcore, hguar, ih a hwp⟩
  | lock c ih => exact ⟨h.1, h.2.1, fun s₁ ha hg hf => ih (h.2.2 s₁ ha hg hf)⟩
  | unlock c ih => exact ⟨h.1, h.2.1, ih h.2.2⟩

theorem wp_bind {c : Coro σ ε α χ ρ} {f : ρ → Coro σ ε α χ τ} {held : Bool} {s : σ}
    {Q : Bool → Except χ τ → σ → Prop} :
    D.wp w held (c >>= f) s Q ↔ D.wp w held c s fun b r s' =>
      match r with
      | .ok a => D.wp w b (f a) s' Q
      | .error x => Q b (.error x) s' := by
  change D.wp w held (c.bind f) s Q ↔ _
  induction c generalizing held s with
  | ret r => rfl
  | raise x => rfl
  | get k ih => exact ih s
  | set s' c ih => simp only [Coro.bind, wp, ih]
  | await e k ih => simp only [Coro.bind, wp, ih]
  | lock c ih => simp only [Coro.bind, wp, ih]
  | unlock c ih => simp only [Coro.bind, wp, ih]

theorem wp_attempt {c : Coro σ ε α χ ρ} {held : Bool} {s : σ}
    {Q : Bool → Except χ (Except χ ρ) → σ → Prop} :
    D.wp w held c.attempt s Q ↔ D.wp w held c s fun b r s' => Q b (.ok r) s' := by
  induction c generalizing held s with
  | ret r => rfl
  | raise x => rfl
  | get k ih => exact ih s
  | set s' c ih => simp only [Coro.attempt, wp, ih]
  | await e k ih => simp only [Coro.attempt, wp, ih]
  | lock c ih => simp only [Coro.attempt, wp, ih]
  | unlock c ih => simp only [Coro.attempt, wp, ih]

theorem wp_ofExcept {r : Except χ ρ} {held : Bool} {s : σ} {Q : Bool → Except χ ρ → σ → Prop} :
    D.wp w held (Coro.ofExcept r : Coro σ ε α χ ρ) s Q ↔ Q held r s := by
  cases r <;> rfl

variable {held : Bool} {s : σ} {Q : Bool → Except χ ρ → σ → Prop}

@[simp] theorem wp_pure {r : ρ} : D.wp w held (pure r : Coro σ ε α χ ρ) s Q ↔ Q held (.ok r) s := Iff.rfl

@[simp] theorem wp_throw {x : χ} : D.wp w held (throw x : Coro σ ε α χ ρ) s Q ↔ Q held (.error x) s := Iff.rfl

@[simp] theorem wp_getState {Q : Bool → Except χ σ → σ → Prop} :
    D.wp w held (Coro.getState : Coro σ ε α χ σ) s Q ↔ Q held (.ok s) s := Iff.rfl

@[simp] theorem wp_setState {s' : σ} {Q : Bool → Except χ Unit → σ → Prop} :
    D.wp w held (Coro.setState s' : Coro σ ε α χ Unit) s Q ↔
      (held = false → D.core s' = D.core s) ∧ D.guar s s' ∧ Q held (.ok ()) s' := Iff.rfl

@[simp] theorem wp_modify {f : σ → σ} {Q : Bool → Except χ Unit → σ → Prop} :
    D.wp w held (Coro.modify f : Coro σ ε α χ Unit) s Q ↔
      (held = false → D.core (f s) = D.core s) ∧ D.guar s (f s) ∧ Q held (.ok ()) (f s) := Iff.rfl

@[simp] theorem wp_perform {e : ε} {Q : Bool → Except χ (α e) → σ → Prop} :
    D.wp w held (Coro.perform e : Coro σ ε α χ (α e)) s Q ↔ D.always s ∧ ∀ s₁ a s₂, D.always s₁ →
      D.guar s s₁ → (held = true → D.core s₁ = D.core s) → w s₁ e a s₂ →
      (held = false → D.core s₂ = D.core s₁) ∧ D.guar s₁ s₂ ∧ Q held (.ok a) s₂ := Iff.rfl

/-- Code that holds the lock owes nothing to those who do not. -/
theorem of_held {p : Prop} (h : true = false) : p := absurd h (by decide)

/-- The body of a critical section starts from any free core and must leave a free core. -/
theorem wp_withLock {c : Coro σ ε α χ ρ} (hs : D.always s)
    (h : ∀ s₁, D.always s₁ → D.guar s s₁ → D.free (D.core s₁) →
      D.wp w true c s₁ fun b r s' => b = true ∧ D.free (D.core s') ∧ Q false r s') :
    D.wp w false (Coro.withLock c) s Q := by
  refine ⟨rfl, hs, fun s₁ ha hg hf => ?_⟩
  change D.wp w true (c.attempt >>= fun r => Coro.unlock (Coro.ofExcept r)) s₁ Q
  rw [wp_bind, wp_attempt]
  refine wp_mono (h s₁ ha hg hf) fun b r s' hr => ?_
  exact ⟨hr.1, hr.2.1, wp_ofExcept.2 hr.2.2⟩

/-! ### Code that leaves the core as it is -/

/-- In either lock mode `c` leaves the lock as it was and its results satisfy `R`; with the lock it also leaves
the core as it was. -/
def Keeps (D : Discipline σ κ) (w : σ → (e : ε) → α e → σ → Prop) (held : Bool) (c : Coro σ ε α χ ρ) (s : σ)
    (R : ρ → σ → Prop) : Prop :=
  D.wp w held c s fun b r s' => b = held ∧ D.always s' ∧ D.guar s s' ∧ (held = true → D.core s' = D.core s) ∧
    ∀ a, r = .ok a → R a s'

variable {R : ρ → σ → Prop}

theorem Keeps.wp {c : Coro σ ε α χ ρ} (h : D.Keeps w held c s R)
    (hQ : ∀ r s', D.always s' → D.guar s s' → (held = true → D.core s' = D.core s) →
      (∀ a, r = .ok a → R a s') → Q held r s') : D.wp w held c s Q := by
  refine wp_mono h fun b r s' hr => ?_
  obtain ⟨rfl, ha, hg, hc, hR⟩ := hr
  exact hQ r s' ha hg hc hR

theorem Keeps.mono {c : Coro σ ε α χ ρ} {R' : ρ → σ → Prop} (h : D.Keeps w held c s R)
    (hR : ∀ a s', R a s' → R' a s') : D.Keeps w held c s R' :=
  wp_mono h fun _ _ _ hr => ⟨hr.1, hr.2.1, hr.2.2.1, hr.2.2.2.1, fun a ha => hR _ _ (hr.2.2.2.2 a ha)⟩

theorem keeps_pure {a : ρ} (hs : D.always s) (hR : R a s) : D.Keeps w held (pure a : Coro σ ε α χ ρ) s R :=
  ⟨rfl, hs, D.guar_refl s, fun _ => rfl, fun _ h => by cases h; exact hR⟩

theorem keeps_throw {x : χ} (hs : D.always s) : D.Keeps w held (throw x : Coro σ ε α χ ρ) s R :=
  ⟨rfl, hs, D.guar_refl s, fun _ => rfl, nofun⟩

theorem keeps_ofExcept {r : Except χ ρ} (hs : D.always s) (hR : ∀ a, r = .ok a → R a s) :
    D.Keeps w held (Coro.ofExcept r : Coro σ ε α χ ρ) s R :=
  wp_ofExcept.2 ⟨rfl, hs, D.guar_refl s, fun _ => rfl, hR⟩

theorem keeps_bind {c : Coro σ ε α χ ρ} {f : ρ → Coro σ ε α χ τ} {R' : τ → σ → Prop} (h : D.Keeps w held c s R)
    (hf : ∀ a s', D.always s' → D.guar s s' → (held = true → D.core s' = D.core s) → R a s' →
      D.Keeps w held (f a) s' R') : D.Keeps w held (c >>= f) s R' := by
  refine wp_bind.2 (h.wp fun r s' ha hg hc hR => ?_)
  cases r with
  | error x => exact ⟨rfl, ha, hg, hc, nofun⟩
  | ok a =>
      refine (hf a s' ha hg hc (hR a rfl)).wp fun r s'' ha' hg' hc' hR' => ?_
      exact ⟨rfl, ha', D.guar_trans hg hg', fun hh => (hc' hh).trans (hc hh), hR'⟩

theorem keeps_getState_bind {f : σ → Coro σ ε α χ ρ} (h : D.Keeps w held (f s) s R) :
    D.Keeps w held (Coro.getState >>= f) s R := h

theorem keeps_setState {s' : σ} {R : Unit → σ → Prop} (hs : D.always s') (hcore : D.core s' = D.core s)
    (hg : D.guar s s') (hR : R () s') : D.Keeps w held (Coro.setState s' : Coro σ ε α χ Unit) s R :=
  ⟨fun _ => hcore, hg, rfl, hs, hg, fun _ => hcore, fun _ h => by cases h; exact hR⟩

/-- An await whose answers stay clear of the core. -/
theorem keeps_perform {e : ε} {R : α e → σ → Prop} (hs : D.always s)
    (hw : ∀ s₁ a s₂, D.always s₁ → D.guar s s₁ → w s₁ e a s₂ →
      D.core s₂ = D.core s₁ ∧ D.guar s₁ s₂ ∧ D.always s₂ ∧ R a s₂) :
    D.Keeps w held (Coro.perform e : Coro σ ε α χ (α e)) s R := by
  refine ⟨hs, fun s₁ a s₂ ha hg hc hw' => ?_⟩
  obtain ⟨hcore, hguar, halways, hR⟩ := hw s₁ a s₂ ha hg hw'
  exact ⟨fun _ => hcore, hguar, rfl, halways, D.guar_trans hg hguar, fun hh => hcore.trans (hc hh),
    fun a ha => by cases ha; exact hR⟩

/-! ## Adequacy -/

/-- What a segment that meets its `wp` leaves behind. -/
structure Settled (D : Discipline σ κ) (w : σ → (e : ε) → α e → σ → Prop) (held : Bool) (s : σ)
    (o : Coro.Outcome σ ε α χ ρ) (Q : Bool → Except χ ρ → σ → Prop) : Prop where
  guar : D.guar s o.state
  frame : held = false → o.held = false ∧ D.core o.state = D.core s
  release : held = true → o.held = false → D.free (D.core o.state)
  suspended : ∀ c, o.rest = .inl c → D.always o.state ∧ D.wp w o.held c o.state Q
  finished : ∀ r, o.rest = .inr r → Q o.held r o.state

theorem settled_of_wp {c : Coro σ ε α χ ρ} (h : D.wp w held c s Q) :
    Settled D w held s (c.run held s) Q := by
  induction c generalizing held s with
  | ret r => exact ⟨D.guar_refl s, fun hh => ⟨hh, rfl⟩, fun hh hf => absurd hf (by simp [Coro.run, hh]), nofun,
      fun r' hr => by cases hr; exact h⟩
  | raise x => exact ⟨D.guar_refl s, fun hh => ⟨hh, rfl⟩, fun hh hf => absurd hf (by simp [Coro.run, hh]), nofun,
      fun r' hr => by cases hr; exact h⟩
  | get k ih => exact ih s h
  | set s' c ih =>
      have hc := ih h.2.2
      exact ⟨D.guar_trans h.2.1 hc.guar, fun hh => ⟨(hc.frame hh).1, (hc.frame hh).2.trans (h.1 hh)⟩, hc.release,
        hc.suspended, hc.finished⟩
  | await e k ih => exact ⟨D.guar_refl s, fun hh => ⟨hh, rfl⟩, fun hh hf => absurd hf (by simp [Coro.run, hh]),
      fun c hc => by cases hc; exact ⟨h.1, h⟩, nofun⟩
  | lock c ih => exact ⟨D.guar_refl s, fun hh => ⟨hh, rfl⟩, fun hh hf => absurd hf (by simp [Coro.run, hh]),
      fun c hc => by cases hc; exact ⟨h.2.1, h⟩, nofun⟩
  | unlock c ih =>
      have hc := ih h.2.2
      refine ⟨hc.guar, fun hh => absurd h.1 (by simp [hh]), fun _ _ => ?_, hc.suspended, hc.finished⟩
      rw [show D.core ((Coro.unlock c).run held s).state = D.core s from (hc.frame rfl).2]
      exact h.2.1

end Discipline

namespace Pool

variable {σ κ ε : Type} {α : ε → Type} {χ ρ θ : Type}

/-- A program's obligation at its end: no lock, the invariant, and what its result promises. -/
def Post (D : Discipline σ κ) (post : θ → Except χ ρ → σ → Prop) (q : θ) (b : Bool) (r : Except χ ρ) (s : σ) :
    Prop :=
  b = false ∧ D.always s ∧ post q r s

/-- The invariant of a pool whose programs keep the discipline. -/
structure Ok (D : Discipline σ κ) (w : σ → (e : ε) → α e → σ → Prop) (post : θ → Except χ ρ → σ → Prop)
    (c : Config σ ε α χ ρ θ) : Prop where
  always : D.always c.shared
  tasks : ∀ t ∈ c.tasks, ∃ s, D.guar s c.shared ∧ (t.held = true → D.core s = D.core c.shared) ∧
    D.wp w t.held t.code s (Post D post t.request)
  exclusive : c.tasks.countP (·.held) ≤ 1
  free : c.LockFree → D.free (D.core c.shared)

/-- Every program that may arrive meets its `wp` from every state. -/
def Meets (P : Pool σ ε α χ ρ θ) (D : Discipline σ κ) (post : θ → Except χ ρ → σ → Prop) : Prop :=
  ∀ q, P.admits q → ∀ s, D.always s → D.wp P.world false (P.program q) s (Post D post q)

variable {P : Pool σ ε α χ ρ θ} {D : Discipline σ κ} {post : θ → Except χ ρ → σ → Prop}

theorem forall_mem_middle {τ : Type} {l r : List τ} {x : τ} {p : τ → Prop} :
    (∀ t ∈ l ++ x :: r, p t) ↔ p x ∧ ∀ t ∈ l ++ r, p t := by
  simp only [List.forall_mem_append, List.forall_mem_cons]
  tauto

theorem countP_middle {τ : Type} (l r : List τ) (x : τ) (p : τ → Bool) :
    (l ++ x :: r).countP p = (l ++ r).countP p + (p x).toNat := by
  simp only [List.countP_append, List.countP_cons]
  cases p x <;> simp
  omega

/-- Settling a segment that met its `wp` keeps the invariant: the other tasks are free of the lock whenever
the segment may have touched the core. -/
theorem Ok.settle {s s' : σ} {l r : List (Task σ ε α χ ρ θ)} {q : θ} (held : Bool)
    {o : Coro.Outcome σ ε α χ ρ}
    (hothers : ∀ t ∈ l ++ r, ∃ s₀, D.guar s₀ s ∧ (t.held = true → D.core s₀ = D.core s) ∧
      D.wp P.world t.held t.code s₀ (Post D post t.request))
    (hcount : (l ++ r).countP (·.held) + held.toNat ≤ 1)
    (hfree : (∀ t ∈ l ++ r, t.held = false) → held = false → D.free (D.core s))
    (hguar : D.guar s s') (hcore : held = false → D.core s' = D.core s)
    (ho : Discipline.Settled D P.world held s' o (Post D post q)) :
    Ok D P.world post (.settle l r q o) ∧ D.guar s (Config.settle l r q o).shared ∧
      ∀ res, o.rest = .inr res → post q res (Config.settle l r q o).shared := by
  have hguar' : D.guar s o.state := D.guar_trans hguar ho.guar
  have hkeep : ∀ t ∈ l ++ r, ∃ s₀, D.guar s₀ o.state ∧ (t.held = true → D.core s₀ = D.core o.state) ∧
      D.wp P.world t.held t.code s₀ (Post D post t.request) := by
    intro t ht
    obtain ⟨s₀, hg, hs₀, hwp⟩ := hothers t ht
    refine ⟨s₀, D.guar_trans hg hguar', fun hh => ?_, hwp⟩
    have hpos : 0 < (l ++ r).countP (·.held) := List.countP_pos_iff.2 ⟨t, ht, hh⟩
    have hheld : held = false := by
      cases held with
      | false => rfl
      | true => simp only [Bool.toNat_true] at hcount; omega
    rw [hs₀ hh, (ho.frame hheld).2, hcore hheld]
  have hrelease : (∀ t ∈ l ++ r, t.held = false) → o.held = false → D.free (D.core o.state) := by
    intro hl hf
    cases hheld : held with
    | false => rw [(ho.frame hheld).2, hcore hheld]; exact hfree hl hheld
    | true => exact ho.release hheld hf
  have hle : o.held.toNat ≤ held.toNat := by
    cases hheld : held with
    | false => simp [(ho.frame hheld).1]
    | true => exact Bool.toNat_le _
  cases hrest : o.rest with
  | inl code =>
      obtain ⟨halways, hwp⟩ := ho.suspended code hrest
      simp only [Config.settle, hrest]
      refine ⟨⟨halways, forall_mem_middle.2 ⟨⟨o.state, D.guar_refl _, fun _ => rfl, hwp⟩, hkeep⟩, ?_, fun hl => ?_⟩,
        hguar', nofun⟩
      · rw [countP_middle]
        exact Nat.le_trans (Nat.add_le_add_left hle _) hcount
      · obtain ⟨hself, hl⟩ := forall_mem_middle.1 hl
        exact hrelease hl hself
  | inr res =>
      obtain ⟨hb, halways, hpost⟩ := ho.finished res hrest
      simp only [Config.settle, hrest]
      refine ⟨⟨halways, hkeep, ?_, fun hl => hrelease hl hb⟩, hguar', fun res' hres => by cases hres; exact hpost⟩
      change (l ++ r).countP (·.held) ≤ 1
      omega

/-- **One step.** It keeps the invariant and the guarantee, and a task that finishes keeps its promise. -/
theorem Ok.step (hP : P.Meets D post) {c c' : Config σ ε α χ ρ θ} {a : Label ε α χ ρ θ}
    (h : Ok D P.world post c) (hstep : P.Step c a c') :
    Ok D P.world post c' ∧ D.guar c.shared c'.shared ∧
      ∀ res, a.result = some res → post a.action.request res c'.shared := by
  cases hstep with
  | @arrive _ q o hq ho =>
      subst ho
      have hset := Discipline.settled_of_wp (hP q hq c.shared h.always)
      obtain ⟨hok, hguar, hres⟩ := Ok.settle (s := c.shared) (l := c.tasks) (r := []) false (by simpa using h.tasks)
        (by simpa using h.exclusive) (fun hl _ => h.free fun t ht => hl t (by simpa using ht)) (D.guar_refl _)
        (fun _ => rfl) hset
      exact ⟨hok, hguar, fun res hr => hres res (Sum.getRight?_eq_some_iff.1 hr)⟩
  | @answer s s' l r q held e a k o hw ho =>
      subst ho
      obtain ⟨⟨s₀, hg, hs₀, hwp⟩, hothers⟩ := forall_mem_middle.1 h.tasks
      obtain ⟨hcore, hguar, hwp⟩ := hwp.2 s a s' h.always hg (fun hh => (hs₀ hh).symm) hw
      have hcount := h.exclusive
      rw [countP_middle] at hcount
      obtain ⟨hok, hguar, hres⟩ := Ok.settle held hothers hcount
        (fun hl hh => h.free (forall_mem_middle.2 ⟨hh, hl⟩)) hguar hcore (Discipline.settled_of_wp hwp)
      exact ⟨hok, hguar, fun res hr => hres res (Sum.getRight?_eq_some_iff.1 hr)⟩
  | @acquire s l r q k o hl hr ho =>
      subst ho
      obtain ⟨⟨s₀, hg, -, hwp⟩, hothers⟩ := forall_mem_middle.1 h.tasks
      have hlr : ∀ t ∈ l ++ r, t.held = false := fun t ht => (List.mem_append.1 ht).elim (hl t) (hr t)
      have hfree : D.free (D.core s) := h.free (forall_mem_middle.2 ⟨rfl, hlr⟩)
      have hzero : (l ++ r).countP (·.held) = 0 := List.countP_eq_zero.2 fun t ht => by simp [hlr t ht]
      obtain ⟨hok, hguar, hres⟩ := Ok.settle true hothers (by simp [hzero]) (fun _ hh => nomatch hh)
        (D.guar_refl _) (fun hh => nomatch hh) (Discipline.settled_of_wp (hwp.2.2 s h.always hg hfree))
      exact ⟨hok, hguar, fun res hr => hres res (Sum.getRight?_eq_some_iff.1 hr)⟩

theorem Ok.start {s : σ} (halways : D.always s) (hfree : D.free (D.core s)) :
    Ok D P.world post (⟨s, []⟩ : Config σ ε α χ ρ θ) :=
  ⟨halways, nofun, by simp, fun _ => hfree⟩

/-- **Adequacy.** Programs that meet their `wp` keep the discipline in every reachable configuration. -/
theorem reachable_ok (hP : P.Meets D post) (hinit : ∀ s, P.init s → D.always s ∧ D.free (D.core s))
    {c : Config σ ε α χ ρ θ} (h : P.system.Reachable c) : Ok D P.world post c := by
  refine System.Reachable.invariant (fun c hc => ?_) (fun c a c' hok hst => (hok.step hP hst).1) h
  obtain ⟨s, tasks⟩ := c
  obtain ⟨hs, rfl⟩ := hc
  exact Ok.start (hinit s hs).1 (hinit s hs).2

end Pool

end Coroutine
