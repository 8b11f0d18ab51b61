import AuroraRl.Lib.Transition
import Mathlib.Data.Finset.Card
import Mathlib.Data.Finset.Range
import Mathlib.Data.Fintype.Card

/-!
# Micro batches over ZeroMQ: the start-up barrier

* `World` : the trainer processes and the data rank of each;
* `Startup`, `startupSystem` : the constructors of the receivers, the subscriptions and READY messages on their way,
  `_wait_for_ready` and `send` of the one sender;
* `Startup.Heard` : who has announced readiness;
* `startupBarrier` : no process misses a grid iff every data rank has one process and no READY overtakes the
  subscription of its own process.
-/

namespace AuroraRl.Transport
open Transition

/-- The processes of the trainer; the data mesh divides them. -/
structure World where
  worldSize : Nat
  dpWorldSize : Nat
  world_pos : 0 < worldSize
  dvd : dpWorldSize ∣ worldSize

namespace World

variable (w : World)

/-- `non_dp_world_size` of `DataLoader`: the context-parallel processes of one data rank. -/
def nonDpWorldSize : Nat := w.worldSize / w.dpWorldSize

/-- `dp_rank` of `DataLoader`. -/
def dpRank (rank : Fin w.worldSize) : Nat := rank / w.nonDpWorldSize

theorem dp_mul_nonDp : w.dpWorldSize * w.nonDpWorldSize = w.worldSize := Nat.mul_div_cancel' w.dvd

theorem dp_pos : 0 < w.dpWorldSize := Nat.pos_of_dvd_of_pos w.dvd w.world_pos

theorem nonDp_pos : 0 < w.nonDpWorldSize := Nat.div_pos (Nat.le_of_dvd w.world_pos w.dvd) w.dp_pos

theorem dpRank_lt (rank : Fin w.worldSize) : w.dpRank rank < w.dpWorldSize :=
  (Nat.div_lt_iff_lt_mul w.nonDp_pos).2 (rank.isLt.trans_eq w.dp_mul_nonDp.symm)

/-- The first process of a data rank. -/
def leader (r : Nat) (h : r < w.dpWorldSize) : Fin w.worldSize :=
  ⟨r * w.nonDpWorldSize, (Nat.mul_lt_mul_of_pos_right h w.nonDp_pos).trans_eq w.dp_mul_nonDp⟩

@[simp] theorem dpRank_leader {r : Nat} (h : r < w.dpWorldSize) : w.dpRank (w.leader r h) = r :=
  Nat.mul_div_cancel r w.nonDp_pos

end World

/-- How far the constructor of a receiver has come. -/
inductive Phase
  | connecting
  | subscribed
  | announced
  deriving DecidableEq, Repr

/-- The receivers, what of theirs has reached the sender's sockets, and the sender. -/
structure Startup (w : World) where
  phase : Fin w.worldSize → Phase
  subscriptions : Fin w.worldSize → Bool
  heard : Fin w.worldSize → Bool
  readyRanks : Finset Nat
  published : Nat
  received : Fin w.worldSize → List Nat

inductive StartupAction (w : World)
  | subscribe (rank : Fin w.worldSize)
  | announce (rank : Fin w.worldSize)
  | subscriptionArrives (rank : Fin w.worldSize)
  | readyArrives (rank : Fin w.worldSize)
  | send

namespace Startup

variable {w : World}

def init (w : World) : Startup w := ⟨fun _ => .connecting, fun _ => false, fun _ => false, ∅, 0, fun _ => []⟩

/-- The loop of `_wait_for_ready` is over. -/
def Ready (s : Startup w) : Prop := w.dpWorldSize ≤ s.readyRanks.card

/-- One step. `ordered` says that a READY is not delivered before the subscription of its process. -/
inductive Step (ordered : Bool) : Startup w → StartupAction w → Startup w → Prop
  | subscribe {s : Startup w} {rank : Fin w.worldSize} (h : s.phase rank = .connecting) :
      Step ordered s (.subscribe rank) { s with phase := Function.update s.phase rank .subscribed }
  | announce {s : Startup w} {rank : Fin w.worldSize} (h : s.phase rank = .subscribed) :
      Step ordered s (.announce rank) { s with phase := Function.update s.phase rank .announced }
  | subscriptionArrives {s : Startup w} {rank : Fin w.worldSize} (h : s.phase rank ≠ .connecting) :
      Step ordered s (.subscriptionArrives rank)
        { s with subscriptions := Function.update s.subscriptions rank true }
  | readyArrives {s : Startup w} {rank : Fin w.worldSize} (h : s.phase rank = .announced) (hheard : s.heard rank = false)
      (hwait : ¬ s.Ready) (horder : ordered = true → s.subscriptions rank = true) :
      Step ordered s (.readyArrives rank)
        { s with
          heard := Function.update s.heard rank true
          readyRanks := insert (w.dpRank rank) s.readyRanks }
  | send {s : Startup w} (h : s.Ready) :
      Step ordered s .send
        { s with
          published := s.published + 1
          received := fun rank =>
            if s.subscriptions rank then s.received rank ++ [s.published] else s.received rank }

/-- Once the sender publishes, every process is subscribed, and each has been sent every grid. -/
def NobodyMisses (s : Startup w) : Prop :=
  (s.Ready → ∀ rank, s.subscriptions rank = true) ∧ ∀ rank, s.received rank = List.range s.published

end Startup

def startupSystem (w : World) (ordered : Bool) : System (Startup w) (StartupAction w) where
  init s := s = .init w
  step := Startup.Step ordered

/-! ## One process for each data rank -/

namespace Startup

variable {w : World}

/-- What holds while no READY overtakes a subscription. -/
structure Orderly (s : Startup w) : Prop where
  ready_lt : ∀ r ∈ s.readyRanks, r < w.dpWorldSize
  subscribed : ∀ r ∈ s.readyRanks, ∃ rank, w.dpRank rank = r ∧ s.subscriptions rank = true
  ready : s.published ≠ 0 → s.Ready
  received : ∀ rank, s.received rank = List.range s.published

theorem Orderly.subscribed_of_ready {s : Startup w} (h : s.Orderly) (hone : w.nonDpWorldSize = 1) (hready : s.Ready)
    (rank : Fin w.worldSize) : s.subscriptions rank = true := by
  have hsub : s.readyRanks ⊆ Finset.range w.dpWorldSize := fun r hr => Finset.mem_range.2 (h.ready_lt r hr)
  have hall : s.readyRanks = Finset.range w.dpWorldSize :=
    Finset.eq_of_subset_of_card_le hsub ((Finset.card_range _).trans_le hready)
  have hmem : w.dpRank rank ∈ s.readyRanks := hall ▸ Finset.mem_range.2 (w.dpRank_lt rank)
  obtain ⟨rank', hrank, hs⟩ := h.subscribed _ hmem
  -- the data rank of a process is its own number
  unfold World.dpRank at hrank
  rw [hone, Nat.div_one, Nat.div_one] at hrank
  rwa [← Fin.ext hrank]

theorem Orderly.step {s s' : Startup w} {a : StartupAction w} (hone : w.nonDpWorldSize = 1) (h : s.Orderly)
    (hs : Step true s a s') : s'.Orderly := by
  have hgrow : ∀ (rank : Fin w.worldSize) {t : Fin w.worldSize → Bool} {j}, t j = true →
      Function.update t rank true j = true := by
    intro rank t j hj
    by_cases hr : j = rank
    · rw [hr, Function.update_self]
    · rwa [Function.update_of_ne hr]
  obtain ⟨hlt, hsub, hready, hrec⟩ := h
  cases hs with
  | subscribe => exact ⟨hlt, hsub, hready, hrec⟩
  | announce => exact ⟨hlt, hsub, hready, hrec⟩
  | @subscriptionArrives rank _ =>
      refine ⟨hlt, fun r hr => ?_, hready, hrec⟩
      obtain ⟨rank', hrank, hs⟩ := hsub r hr
      exact ⟨rank', hrank, hgrow rank hs⟩
  | @readyArrives rank _ _ hwait horder =>
      refine ⟨fun r hr => ?_, fun r hr => ?_, fun hp => absurd (hready hp) hwait, hrec⟩
      · rcases Finset.mem_insert.1 hr with rfl | hr
        · exact w.dpRank_lt rank
        · exact hlt r hr
      · rcases Finset.mem_insert.1 hr with rfl | hr
        · exact ⟨rank, rfl, horder rfl⟩
        · exact hsub r hr
  | send hr =>
      refine ⟨hlt, hsub, fun _ => hr, fun rank => ?_⟩
      have hsubscribed := Orderly.subscribed_of_ready ⟨hlt, hsub, hready, hrec⟩ hone hr rank
      show (if s.subscriptions rank = true then _ else _) = List.range (s.published + 1)
      rw [if_pos hsubscribed, hrec rank, List.range_succ]

/-! ## Several processes for a data rank, or READY before a subscription -/

/-- The first `r` data ranks were announced by their first processes alone; with `ordered`, those are subscribed. -/
structure Early (ordered : Bool) (r : Nat) (s : Startup w) : Prop where
  readyRanks : s.readyRanks = Finset.range r
  later : ∀ r' (h : r' < w.dpWorldSize), r ≤ r' →
    s.phase (w.leader r' h) = .connecting ∧ s.heard (w.leader r' h) = false
  subscriptions : ∀ rank, s.subscriptions rank = true → ordered = true ∧ ∃ r' h, rank = w.leader r' h

theorem leader_ne {r r' : Nat} {h : r < w.dpWorldSize} {h' : r' < w.dpWorldSize} (hne : r ≠ r') :
    w.leader r h ≠ w.leader r' h' := by
  intro he
  apply hne
  rw [← w.dpRank_leader h, ← w.dpRank_leader h', he]

/-- A receiver starts and is heard while the sender waits; its subscription arrives only if it has to. -/
theorem starts {ordered : Bool} {s : Startup w} {rank : Fin w.worldSize} (hs : (startupSystem w ordered).Reachable s)
    (hphase : s.phase rank = .connecting) (hheard : s.heard rank = false) (hwait : ¬ s.Ready) :
    (startupSystem w ordered).Reachable
      { s with
        phase := Function.update s.phase rank .announced
        subscriptions := if ordered then Function.update s.subscriptions rank true else s.subscriptions
        heard := Function.update s.heard rank true
        readyRanks := insert (w.dpRank rank) s.readyRanks } := by
  have hsubscribed : (startupSystem w ordered).Reachable { s with phase := Function.update s.phase rank .subscribed } :=
    hs.step (l := .subscribe rank) (.subscribe hphase)
  have harrived : (startupSystem w ordered).Reachable
      { s with
        phase := Function.update s.phase rank .subscribed
        subscriptions := if ordered then Function.update s.subscriptions rank true else s.subscriptions } := by
    cases ordered with
    | false => exact hsubscribed
    | true => exact hsubscribed.step (l := .subscriptionArrives rank) (.subscriptionArrives (by simp))
  have hannounced : (startupSystem w ordered).Reachable
      { s with
        phase := Function.update s.phase rank .announced
        subscriptions := if ordered then Function.update s.subscriptions rank true else s.subscriptions } := by
    have h : (startupSystem w ordered).Reachable
        { s with
          phase := Function.update (Function.update s.phase rank .subscribed) rank .announced
          subscriptions := if ordered then Function.update s.subscriptions rank true else s.subscriptions } :=
      harrived.step (l := .announce rank) (.announce (Function.update_self ..))
    rwa [Function.update_idem] at h
  refine hannounced.step (l := .readyArrives rank) (.readyArrives (by simp) hheard hwait fun h => ?_)
  subst h
  exact Function.update_self ..

theorem early_reachable (ordered : Bool) {r : Nat} (hr : r ≤ w.dpWorldSize) :
    ∃ s, (startupSystem w ordered).Reachable s ∧ s.Early ordered r := by
  induction r with
  | zero =>
      refine ⟨.init w, .of_init rfl, rfl, fun _ _ _ => ⟨rfl, rfl⟩, fun _ h => ?_⟩
      cases h
  | succ r ih =>
      obtain ⟨s, hs, hready, hlater, hsub⟩ := ih (Nat.le_of_succ_le hr)
      obtain ⟨hphase, hheard⟩ := hlater r hr le_rfl
      have hwait : ¬ s.Ready := by
        unfold Ready
        rw [hready, Finset.card_range]
        exact Nat.not_le.2 hr
      refine ⟨_, starts hs hphase hheard hwait, ?_, fun r' h hle => ?_, fun rank hrank => ?_⟩
      · show insert (w.dpRank (w.leader r hr)) s.readyRanks = _
        rw [w.dpRank_leader, hready, Finset.range_add_one]
      · have hne : w.leader r' h ≠ w.leader r hr := leader_ne (Nat.ne_of_gt hle)
        obtain ⟨hphase', hheard'⟩ := hlater r' h (Nat.le_of_succ_le hle)
        exact ⟨(Function.update_of_ne hne ..).trans hphase', (Function.update_of_ne hne ..).trans hheard'⟩
      · dsimp only at hrank
        split at hrank
        · rename_i hord
          by_cases he : rank = w.leader r hr
          · exact ⟨hord, r, hr, he⟩
          · rw [Function.update_of_ne he] at hrank
            exact hsub rank hrank
        · exact hsub rank hrank

/-- If readiness covers not all processes, or not their subscriptions, the sender publishes to nobody listening. -/
theorem misses {ordered : Bool} (h : ordered = false ∨ w.nonDpWorldSize ≠ 1) :
    ∃ s, (startupSystem w ordered).Reachable s ∧ ¬ s.NobodyMisses := by
  obtain ⟨s, hs, hready, -, hsub⟩ := early_reachable (w := w) ordered le_rfl
  refine ⟨s, hs, fun hall => ?_⟩
  have hsubscribed := hall.1 (by unfold Ready; rw [hready, Finset.card_range])
  rcases h with rfl | hne
  · have hfalse := (hsub ⟨0, w.world_pos⟩ (hsubscribed _)).1
    cases hfalse
  · -- the second process of the first data rank
    have hpos := w.nonDp_pos
    have hone : 1 < w.worldSize := calc
      1 < w.nonDpWorldSize := by omega
      _ ≤ w.dpWorldSize * w.nonDpWorldSize := Nat.le_mul_of_pos_left _ w.dp_pos
      _ = w.worldSize := w.dp_mul_nonDp
    obtain ⟨-, r, hr, he⟩ := hsub ⟨1, hone⟩ (hsubscribed _)
    have hval : 1 = r * w.nonDpWorldSize := congrArg Fin.val he
    exact hne (Nat.eq_one_of_mul_eq_one_left hval.symm)

end Startup

/-- **Main.** In every order of connections and announcements nobody misses a grid iff each data rank has one process
and no READY is delivered before the subscription of its process. -/
theorem startupBarrier (w : World) (ordered : Bool) :
    (∀ s, (startupSystem w ordered).Reachable s → s.NobodyMisses) ↔ ordered = true ∧ w.nonDpWorldSize = 1 := by
  constructor
  · intro h
    by_contra hne
    rw [not_and_or, Bool.not_eq_true] at hne
    obtain ⟨s, hs, hmiss⟩ := Startup.misses hne
    exact hmiss (h s hs)
  · rintro ⟨rfl, hone⟩ s hs
    have hord : s.Orderly := by
      refine hs.invariant (I := Startup.Orderly) ?_ fun _ _ _ hi hstep => hi.step hone hstep
      rintro _ rfl
      refine ⟨fun _ h => ?_, fun _ h => ?_, fun h => absurd rfl h, fun _ => rfl⟩ <;> simp [Startup.init] at h
    exact ⟨hord.subscribed_of_ready hone, hord.received⟩

/-- Two processes that share the one data rank. -/
def contextParallel : World := ⟨2, 1, Nat.two_pos, Nat.one_dvd 2⟩

/-- The first process is ready, the sender publishes, and the second one has missed the grid. -/
theorem startupBarrier_contextParallel :
    ∃ s, (startupSystem contextParallel true).Reachable s ∧ s.published = 1 ∧
      s.received (0 : Fin 2) = [0] ∧ s.received (1 : Fin 2) = [] ∧ s.subscriptions (1 : Fin 2) = false := by
  have hwait : ¬ (Startup.init contextParallel).Ready := by
    unfold Startup.Ready
    decide
  have hstarted := @Startup.starts contextParallel true (.init contextParallel) (0 : Fin 2) (.of_init rfl) rfl rfl hwait
  refine ⟨_, hstarted.step (l := .send) (.send ?_), rfl, by decide, by decide, by decide⟩
  unfold Startup.Ready
  decide

end AuroraRl.Transport
