import AuroraRl.Lib.Coroutine

/-!
# Suspended tasks that own resources

Where the invariant of a pool must say what each suspended task still holds (a file it is about to register, a
request it is about to answer), a task owns a resource from one suspension to the next, and code is judged one
uninterrupted segment at a time.

* `Protocol` : the invariant over the owned resources and the state, what is assumed of a step, and what a segment
  may do to the state, given the action that started it;
* `Protocol.wp` : the weakest precondition of a coroutine under a protocol;
* `Pool.Kept` : the invariant of a pool whose programs follow a protocol, `Kept.step` its step lemma, `Kept.run`
  its run lemma.
-/

namespace Coroutine
open Transition

/-- The rules that the tasks of a pool follow. `inv` is about all suspended tasks: whether each holds the lock, and
what it owns. -/
structure Protocol (σ ε : Type) (α : ε → Type) (θ R : Type) where
  inv : List (Bool × R) → σ → Prop
  inv_perm : ∀ {rs rs' : List (Bool × R)} {s : σ}, rs.Perm rs' → inv rs s → inv rs' s
  assumes : Action ε α θ → σ → Prop
  guar : Action ε α θ → σ → σ → Prop

/-- A point in a segment: the action that started it and the state it started in, whether the task holds the lock,
and the other tasks. -/
structure Moment (σ ε : Type) (α : ε → Type) (θ R : Type) where
  action : Action ε α θ
  start : σ
  held : Bool
  rest : List (Bool × R)

/-- A task that holds the lock is the only one. -/
def Exclusive {R : Type} (held : Bool) (rest : List (Bool × R)) : Prop := held = true → ∀ x ∈ rest, x.1 = false

namespace Protocol

variable {σ ε : Type} {α : ε → Type} {χ ρ τ θ R : Type} (P : Protocol σ ε α θ R) (w : σ → (e : ε) → α e → σ → Prop)
  (q : θ)

/-- The segment may end here, with the task owning `r`. -/
def Suspends (m : Moment σ ε α θ R) (r : R) (s : σ) : Prop :=
  P.inv ((m.held, r) :: m.rest) s ∧ P.guar m.action m.start s

def wp : Coro σ ε α χ ρ → Moment σ ε α θ R → σ → (Moment σ ε α θ R → Except χ ρ → σ → Prop) → Prop
  | .ret a, m, s, Q => Q m (.ok a) s
  | .raise x, m, s, Q => Q m (.error x) s
  | .get k, m, s, Q => wp (k s) m s Q
  | .set s' c, m, _, Q => wp c m s' Q
  | .await e k, m, s, Q => ∃ r, P.Suspends m r s ∧ ∀ s₁ a s₂ rest, Exclusive m.held rest →
      P.inv ((m.held, r) :: rest) s₁ → w s₁ e a s₂ → P.assumes (.answer q e a) s₁ →
      wp (k a) ⟨.answer q e a, s₁, m.held, rest⟩ s₂ Q
  | .lock c, m, s, Q => m.held = false ∧ ∃ r, P.Suspends m r s ∧ ∀ s₁ rest, Exclusive true rest →
      P.inv ((false, r) :: rest) s₁ → P.assumes (.acquire q) s₁ → wp c ⟨.acquire q, s₁, true, rest⟩ s₁ Q
  | .unlock c, m, s, Q => m.held = true ∧ wp c { m with held := false } s Q

variable {P w q}

theorem wp_mono {c : Coro σ ε α χ ρ} {m : Moment σ ε α θ R} {s : σ}
    {Q Q' : Moment σ ε α θ R → Except χ ρ → σ → Prop} (h : P.wp w q c m s Q) (hQ : ∀ m r s, Q m r s → Q' m r s) :
    P.wp w q c m s Q' := by
  induction c generalizing m s with
  | ret a => exact hQ _ _ _ h
  | raise x => exact hQ _ _ _ h
  | get k ih => exact ih _ h
  | set s' c ih => exact ih h
  | await e k ih =>
      obtain ⟨r, hr, hk⟩ := h
      exact ⟨r, hr, fun s₁ a s₂ rest hx hi hw ha => ih a (hk s₁ a s₂ rest hx hi hw ha)⟩
  | lock c ih =>
      obtain ⟨hheld, r, hr, hk⟩ := h
      exact ⟨hheld, r, hr, fun s₁ rest hx hi ha => ih (hk s₁ rest hx hi ha)⟩
  | unlock c ih => exact ⟨h.1, ih h.2⟩

theorem wp_bind {c : Coro σ ε α χ ρ} {f : ρ → Coro σ ε α χ τ} {m : Moment σ ε α θ R} {s : σ}
    {Q : Moment σ ε α θ R → Except χ τ → σ → Prop} :
    P.wp w q (c >>= f) m s Q ↔ P.wp w q c m s fun m' r s' =>
      match r with
      | .ok a => P.wp w q (f a) m' s' Q
      | .error x => Q m' (.error x) s' := by
  change P.wp w q (c.bind f) m s Q ↔ _
  induction c generalizing m s with
  | ret a => rfl
  | raise x => rfl
  | get k ih => exact ih s
  | set s' c ih => exact ih
  | await e k ih => simp only [Coro.bind, wp, ih]
  | lock c ih => simp only [Coro.bind, wp, ih]
  | unlock c ih => simp only [Coro.bind, wp, ih]

theorem wp_attempt {c : Coro σ ε α χ ρ} {m : Moment σ ε α θ R} {s : σ}
    {Q : Moment σ ε α θ R → Except χ (Except χ ρ) → σ → Prop} :
    P.wp w q c.attempt m s Q ↔ P.wp w q c m s fun m' r s' => Q m' (.ok r) s' := by
  induction c generalizing m s with
  | ret a => rfl
  | raise x => rfl
  | get k ih => exact ih s
  | set s' c ih => exact ih
  | await e k ih => simp only [Coro.attempt, wp, ih]
  | lock c ih => simp only [Coro.attempt, wp, ih]
  | unlock c ih => simp only [Coro.attempt, wp, ih]

variable {m : Moment σ ε α θ R} {s : σ} {Q : Moment σ ε α θ R → Except χ ρ → σ → Prop}

theorem wp_ofExcept {r : Except χ ρ} : P.wp w q (Coro.ofExcept r : Coro σ ε α χ ρ) m s Q ↔ Q m r s := by
  cases r <;> rfl

@[simp] theorem wp_pure {a : ρ} : P.wp w q (pure a : Coro σ ε α χ ρ) m s Q ↔ Q m (.ok a) s := Iff.rfl

@[simp] theorem wp_throw {x : χ} : P.wp w q (throw x : Coro σ ε α χ ρ) m s Q ↔ Q m (.error x) s := Iff.rfl

theorem wp_getState_bind {f : σ → Coro σ ε α χ ρ} : P.wp w q (Coro.getState >>= f) m s Q ↔ P.wp w q (f s) m s Q :=
  Iff.rfl

theorem wp_setState_bind {s' : σ} {f : Unit → Coro σ ε α χ ρ} :
    P.wp w q (Coro.setState s' >>= f) m s Q ↔ P.wp w q (f ()) m s' Q := Iff.rfl

theorem wp_modify_bind {g : σ → σ} {f : Unit → Coro σ ε α χ ρ} :
    P.wp w q (Coro.modify g >>= f) m s Q ↔ P.wp w q (f ()) m (g s) Q := Iff.rfl

theorem wp_perform {e : ε} {Q : Moment σ ε α θ R → Except χ (α e) → σ → Prop} {r : R} (hs : P.Suspends m r s)
    (h : ∀ s₁ a s₂ rest, Exclusive m.held rest → P.inv ((m.held, r) :: rest) s₁ → w s₁ e a s₂ →
      P.assumes (.answer q e a) s₁ → Q ⟨.answer q e a, s₁, m.held, rest⟩ (.ok a) s₂) :
    P.wp w q (Coro.perform e : Coro σ ε α χ (α e)) m s Q := ⟨r, hs, h⟩

/-- What a turn of a loop leaves: the invariant for the next one, or what the loop promises. -/
def Turn {β : Type} (I : β → Moment σ ε α θ R → σ → Prop) (Q : Moment σ ε α θ R → Except χ ρ → σ → Prop) :
    Moment σ ε α θ R → Except χ (β ⊕ ρ) → σ → Prop
  | m, .ok (.inl b), s => I b m s
  | m, .ok (.inr a), s => Q m (.ok a) s
  | m, .error x, s => Q m (.error x) s

theorem wp_iterate {β : Type} {exhausted : Coro σ ε α χ ρ} {body : β → Coro σ ε α χ (β ⊕ ρ)} {n : Nat} {b : β}
    (I : β → Moment σ ε α θ R → σ → Prop)
    (hbody : ∀ b m s, I b m s → P.wp w q (body b) m s (Turn I Q))
    (hexhausted : ∀ b m s, I b m s → P.wp w q exhausted m s Q) (h : I b m s) :
    P.wp w q (Coro.iterate exhausted body n b) m s Q := by
  induction n generalizing b m s with
  | zero => exact hexhausted b m s h
  | succ n ih =>
      refine wp_bind.2 (wp_mono (hbody b m s h) fun m' r s' hr => ?_)
      cases r with
      | error x => exact hr
      | ok r =>
          cases r with
          | inl b' => exact ih hr
          | inr a => exact hr

theorem wp_withLock {c : Coro σ ε α χ ρ} {r : R} (hheld : m.held = false) (hs : P.Suspends m r s)
    (h : ∀ s₁ rest, Exclusive true rest → P.inv ((false, r) :: rest) s₁ → P.assumes (.acquire q) s₁ →
      P.wp w q c ⟨.acquire q, s₁, true, rest⟩ s₁ fun m' r s' => m'.held = true ∧ Q { m' with held := false } r s') :
    P.wp w q (Coro.withLock c) m s Q := by
  refine ⟨hheld, r, hs, fun s₁ rest hx hi ha => ?_⟩
  change P.wp w q (c.attempt >>= fun r => Coro.unlock (Coro.ofExcept r)) _ s₁ Q
  rw [wp_bind, wp_attempt]
  refine wp_mono (h s₁ rest hx hi ha) fun m' r s' hr => ⟨hr.1, ?_⟩
  rw [wp_ofExcept]
  exact hr.2

end Protocol

/-! ## Adequacy -/

namespace Pool

variable {σ ε : Type} {α : ε → Type} {χ ρ θ R : Type}

/-- A request has been served: the lock is free, and the result keeps its promise. -/
def Served (P : Protocol σ ε α θ R) (post : θ → Except χ ρ → σ → Prop) (q : θ) (m : Moment σ ε α θ R)
    (r : Except χ ρ) (s : σ) : Prop :=
  m.held = false ∧ P.inv m.rest s ∧ P.guar m.action m.start s ∧ post q r s

/-- Every program that may arrive follows the protocol. -/
def Follows (pool : Pool σ ε α χ ρ θ) (P : Protocol σ ε α θ R) (post : θ → Except χ ρ → σ → Prop) : Prop :=
  ∀ q, pool.admits q → ∀ s rest, P.inv rest s → P.assumes (.arrive q) s →
    P.wp pool.world q (pool.program q) ⟨.arrive q, s, false, rest⟩ s (Served P post q)

/-- A suspended task that owns `r` goes on as the protocol says. -/
def Ready (P : Protocol σ ε α θ R) (w : σ → (e : ε) → α e → σ → Prop) (post : θ → Except χ ρ → σ → Prop)
    (t : Task σ ε α χ ρ θ) (r : R) : Prop :=
  match t.code with
  | .await e k => ∀ s₁ a s₂ rest, Exclusive t.held rest → P.inv ((t.held, r) :: rest) s₁ → w s₁ e a s₂ →
      P.assumes (.answer t.request e a) s₁ →
      P.wp w t.request (k a) ⟨.answer t.request e a, s₁, t.held, rest⟩ s₂ (Served P post t.request)
  | .lock c => t.held = false ∧ ∀ s₁ rest, Exclusive true rest → P.inv ((false, r) :: rest) s₁ →
      P.assumes (.acquire t.request) s₁ →
      P.wp w t.request c ⟨.acquire t.request, s₁, true, rest⟩ s₁ (Served P post t.request)
  | _ => False

theorem outcome_of_wp {P : Protocol σ ε α θ R} {w : σ → (e : ε) → α e → σ → Prop}
    {post : θ → Except χ ρ → σ → Prop} {q : θ} {c : Coro σ ε α χ ρ} {m : Moment σ ε α θ R} {s : σ}
    (h : P.wp w q c m s (Served P post q)) :
    ((c.run m.held s).held = true → m.held = true) ∧
      P.guar m.action m.start (c.run m.held s).state ∧
      (∀ code, (c.run m.held s).rest = .inl code → ∃ r,
        P.inv (((c.run m.held s).held, r) :: m.rest) (c.run m.held s).state ∧
          Ready P w post ⟨q, (c.run m.held s).held, code⟩ r) ∧
      ∀ res, (c.run m.held s).rest = .inr res → (c.run m.held s).held = false ∧
        P.inv m.rest (c.run m.held s).state ∧ post q res (c.run m.held s).state := by
  induction c generalizing m s with
  | ret a =>
      obtain ⟨hheld, hinv, hguar, hpost⟩ := h
      exact ⟨id, hguar, nofun, fun res hres => by cases hres; exact ⟨hheld, hinv, hpost⟩⟩
  | raise x =>
      obtain ⟨hheld, hinv, hguar, hpost⟩ := h
      exact ⟨id, hguar, nofun, fun res hres => by cases hres; exact ⟨hheld, hinv, hpost⟩⟩
  | get k ih => exact ih s h
  | set s' c ih => exact ih h
  | await e k _ =>
      obtain ⟨r, hs, hk⟩ := h
      exact ⟨id, hs.2, fun code hcode => by cases hcode; exact ⟨r, hs.1, hk⟩, nofun⟩
  | lock c _ =>
      obtain ⟨hheld, r, hs, hk⟩ := h
      refine ⟨id, hs.2, fun code hcode => ?_, nofun⟩
      cases hcode
      exact ⟨r, hs.1, hheld, hk⟩
  | unlock c ih =>
      obtain ⟨hheld, h⟩ := h
      obtain ⟨-, hrest⟩ := ih h
      exact ⟨fun _ => hheld, hrest⟩

/-- The tasks as the protocol sees them. -/
def owned (l : List (Task σ ε α χ ρ θ × R)) : List (Bool × R) := l.map fun x => (x.1.held, x.2)

/-- The invariant of a pool whose programs follow a protocol. -/
structure Kept (P : Protocol σ ε α θ R) (w : σ → (e : ε) → α e → σ → Prop) (post : θ → Except χ ρ → σ → Prop)
    (c : Config σ ε α χ ρ θ) : Prop where
  owners : ∃ l : List (Task σ ε α χ ρ θ × R), l.map Prod.fst = c.tasks ∧ P.inv (owned l) c.shared ∧
    ∀ x ∈ l, Ready P w post x.1 x.2
  exclusive : c.tasks.countP (·.held) ≤ 1

variable {pool : Pool σ ε α χ ρ θ} {P : Protocol σ ε α θ R} {post : θ → Except χ ρ → σ → Prop}

theorem exclusive_owned {l r : List (Task σ ε α χ ρ θ × R)} {held : Bool}
    (hcount : ((l ++ r).map Prod.fst).countP (·.held) + held.toNat ≤ 1) : Exclusive held (owned (l ++ r)) := by
  intro hheld x hx
  obtain ⟨y, hy, rfl⟩ := List.mem_map.1 hx
  rw [hheld, Bool.toNat_true] at hcount
  have hzero : ((l ++ r).map Prod.fst).countP (·.held) = 0 := by omega
  have := List.countP_eq_zero.1 hzero y.1 (List.mem_map_of_mem hy)
  rwa [Bool.not_eq_true] at this

theorem owned_middle (l r : List (Task σ ε α χ ρ θ × R)) (x : Task σ ε α χ ρ θ × R) :
    (owned (l ++ x :: r)).Perm ((x.1.held, x.2) :: owned (l ++ r)) := by
  unfold owned
  rw [List.map_append, List.map_cons, List.map_append]
  exact List.perm_middle

/-- Settling a segment that met its `wp` keeps the invariant. -/
theorem Kept.settle {w : σ → (e : ε) → α e → σ → Prop} {l r : List (Task σ ε α χ ρ θ × R)} {q : θ}
    {a : Action ε α θ} {s s' : σ} {held : Bool}
    {c : Coro σ ε α χ ρ} (hothers : ∀ x ∈ l ++ r, Ready P w post x.1 x.2)
    (hcount : ((l ++ r).map Prod.fst).countP (·.held) + held.toNat ≤ 1)
    (h : P.wp w q c ⟨a, s, held, owned (l ++ r)⟩ s' (Served P post q)) :
    Kept P w post (.settle (l.map Prod.fst) (r.map Prod.fst) q (c.run held s')) ∧
      P.guar a s (Config.settle (l.map Prod.fst) (r.map Prod.fst) q (c.run held s')).shared ∧
      ∀ res, (c.run held s').rest = .inr res →
        post q res (Config.settle (l.map Prod.fst) (r.map Prod.fst) q (c.run held s')).shared := by
  obtain ⟨hheld, hguar, hsuspended, hfinished⟩ := outcome_of_wp h
  dsimp only at hheld hguar hsuspended hfinished
  have hle : (c.run held s').held.toNat ≤ held.toNat := by
    cases hrun : (c.run held s').held with
    | false => exact Nat.zero_le _
    | true => exact Nat.le_of_eq (by rw [hheld hrun])
  rw [List.map_append] at hcount
  cases hrest : (c.run held s').rest with
  | inl code =>
      obtain ⟨res, hinv, hready⟩ := hsuspended code hrest
      simp only [Config.settle, hrest]
      refine ⟨⟨⟨l ++ (⟨q, (c.run held s').held, code⟩, res) :: r, ?_, ?_, ?_⟩, ?_⟩, hguar, fun _ h => by cases h⟩
      · rw [List.map_append, List.map_cons]
      · exact P.inv_perm (owned_middle l r _).symm hinv
      · exact forall_mem_middle.2 ⟨hready, hothers⟩
      · rw [countP_middle]
        exact Nat.le_trans (Nat.add_le_add_left hle _) hcount
  | inr res =>
      obtain ⟨hfree, hinv, hpost⟩ := hfinished res hrest
      simp only [Config.settle, hrest]
      refine ⟨⟨⟨l ++ r, List.map_append, hinv, hothers⟩, ?_⟩, hguar, fun res' hres' => by cases hres'; exact hpost⟩
      change (l.map Prod.fst ++ r.map Prod.fst).countP (·.held) ≤ 1
      omega

/-- **One step.** It keeps the invariant, changes the state as its action may, and a task that finishes keeps its
promise. -/
theorem Kept.step (hpool : pool.Follows P post) {c c' : Config σ ε α χ ρ θ} {a : Label ε α χ ρ θ}
    (h : Kept P pool.world post c) (hassumes : P.assumes a.action c.shared) (hstep : pool.Step c a c') :
    Kept P pool.world post c' ∧ P.guar a.action c.shared c'.shared ∧
      ∀ res, a.result = some res → post a.action.request res c'.shared := by
  obtain ⟨⟨l₀, hl₀, hinv, hready⟩, hcount⟩ := h
  cases hstep with
  | @arrive _ q o hq ho =>
      subst ho
      have hwp := hpool q hq c.shared _ hinv hassumes
      rw [← List.append_nil l₀] at hwp hready
      have hset := Kept.settle (r := []) hready
        (by rw [List.append_nil, hl₀]; exact hcount) hwp
      rw [hl₀, List.map_nil] at hset
      exact ⟨hset.1, hset.2.1, fun res hr => hset.2.2 res (Sum.getRight?_eq_some_iff.1 hr)⟩
  | @answer s s' l r q held e a k o hw ho =>
      subst ho
      obtain ⟨l₁, r₀, rfl, rfl, hr₀⟩ := List.map_eq_append_iff.1 hl₀
      obtain ⟨x, r₁, rfl, hx, rfl⟩ := List.map_eq_cons_iff.1 hr₀
      obtain ⟨hself, hothers⟩ := forall_mem_middle.1 hready
      rw [countP_middle] at hcount
      have hperm := owned_middle l₁ r₁ x
      rw [hx] at hself hperm
      have hcount' : ((l₁ ++ r₁).map Prod.fst).countP (·.held) + held.toNat ≤ 1 := by
        rw [List.map_append]
        exact hcount
      have hset := Kept.settle hothers hcount'
        (hself s a s' _ (exclusive_owned hcount') (P.inv_perm hperm hinv) hw hassumes)
      exact ⟨hset.1, hset.2.1, fun res hr => hset.2.2 res (Sum.getRight?_eq_some_iff.1 hr)⟩
  | @acquire s l r q k o hl hr ho =>
      subst ho
      obtain ⟨l₁, r₀, rfl, rfl, hr₀⟩ := List.map_eq_append_iff.1 hl₀
      obtain ⟨x, r₁, rfl, hx, rfl⟩ := List.map_eq_cons_iff.1 hr₀
      obtain ⟨hself, hothers⟩ := forall_mem_middle.1 hready
      have hfree : ∀ t ∈ l₁.map Prod.fst ++ r₁.map Prod.fst, t.held = false := fun t ht =>
        (List.mem_append.1 ht).elim (hl t) (hr t)
      have hzero : ((l₁ ++ r₁).map Prod.fst).countP (·.held) = 0 := by
        rw [List.map_append]
        exact List.countP_eq_zero.2 fun t ht => by rw [hfree t ht]; exact Bool.false_ne_true
      have hperm := owned_middle l₁ r₁ x
      rw [hx] at hself hperm
      have hcount' : ((l₁ ++ r₁).map Prod.fst).countP (·.held) + true.toNat ≤ 1 := by
        rw [hzero]
        exact Nat.le_refl 1
      have hset := Kept.settle hothers hcount'
        (hself.2 s _ (exclusive_owned hcount') (P.inv_perm hperm hinv) hassumes)
      exact ⟨hset.1, hset.2.1, fun res hr => hset.2.2 res (Sum.getRight?_eq_some_iff.1 hr)⟩

theorem Kept.start {w : σ → (e : ε) → α e → σ → Prop} {s : σ} (hinv : P.inv [] s) :
    Kept P w post (⟨s, []⟩ : Config σ ε α χ ρ θ) :=
  ⟨⟨[], rfl, hinv, nofun⟩, Nat.zero_le _⟩

/-- The steps of a pool before which `assumes` holds. -/
def assuming (pool : Pool σ ε α χ ρ θ) (assumes : Action ε α θ → σ → Prop) :
    System (Config σ ε α χ ρ θ) (Label ε α χ ρ θ) where
  init := pool.system.init
  step c a c' := assumes a.action c.shared ∧ pool.Step c a c'

/-- **A run.** It keeps the invariant. -/
theorem Kept.run (hpool : pool.Follows P post) {c c' : Config σ ε α χ ρ θ} {ls : List (Label ε α χ ρ θ)}
    (h : Kept P pool.world post c) (hrun : (pool.assuming P.assumes).Run c ls c') : Kept P pool.world post c' := by
  induction hrun with
  | nil => exact h
  | snoc _ hstep ih => exact (ih.step hpool hstep.1 hstep.2).1

theorem Kept.inv {w : σ → (e : ε) → α e → σ → Prop} {c : Config σ ε α χ ρ θ} (h : Kept P w post c) :
    ∃ l : List (Task σ ε α χ ρ θ × R), l.map Prod.fst = c.tasks ∧ P.inv (owned l) c.shared := by
  obtain ⟨l, hl, hinv, -⟩ := h.owners
  exact ⟨l, hl, hinv⟩

end Pool

end Coroutine
