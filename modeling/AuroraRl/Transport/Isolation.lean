import AuroraRl.Transport.TrainingBatches

/-!
# A run id used again

* `ZmqState.Clean` : an id is created again when nothing of its earlier runs is on the way, and they send nothing
  afterwards;
* `FileState.Clean` : what earlier runs of an id have left or still send lies behind the receiver;
* `ZmqState.line` : the steps of one run between its orchestrator and the packer, in order;
* `recreationIsolation` : in clean runs no receiver hands out a batch of an earlier run, and the check for duplicate
  steps does not fail.
-/

namespace AuroraRl.Transport
open Transition

variable {ι α : Type} [DecidableEq ι]

/-! ## What `receive` does to the pending batches -/

namespace ZmqReceiver

def pendingSteps (pending : Pending ι α) (r : ι) : List Nat := ((pending.get? r).getD ∅).keys

/-- The steps of a run in a list of messages. -/
def stepsOf (r : ι) (messages : List (ι × TrainingBatch α)) : List Nat :=
  (messages.filter (·.1 = r)).map (·.2.step)

/-- Every pending batch satisfies `P`. -/
def All (P : ι → TrainingBatch α → Prop) (pending : Pending ι α) : Prop :=
  ∀ r perId, pending.get? r = some perId → ∀ step batch, perId.get? step = some batch → P r batch

variable {P : ι → TrainingBatch α → Prop} {pending pending' : Pending ι α}

theorem All.getD (h : All P pending) {r : ι} {step : Nat} {batch : TrainingBatch α}
    (hb : ((pending.get? r).getD ∅).get? step = some batch) : P r batch := by
  cases hr : pending.get? r with
  | none =>
      rw [hr, Option.getD_none] at hb
      cases hb
  | some perId =>
      rw [hr, Option.getD_some] at hb
      exact h r perId hr step batch hb

theorem All.insert (h : All P pending) {r : ι} {perId : Dict Nat (TrainingBatch α)}
    (hp : ∀ step batch, perId.get? step = some batch → P r batch) : All P (pending.insert r perId) := by
  intro r' perId' hr' step batch hb
  rw [Dict.get?_insert] at hr'
  split at hr'
  · rename_i he
    cases hr'
    exact he ▸ hp step batch hb
  · exact h r' perId' hr' step batch hb

theorem All.erase (h : All P pending) (r : ι) : All P (pending.erase r) := by
  intro r' perId' hr' step batch hb
  rw [Dict.get?_erase] at hr'
  split at hr'
  · cases hr'
  · exact h r' perId' hr' step batch hb

theorem pendingSteps_insert (pending : Pending ι α) (r r' : ι) (perId : Dict Nat (TrainingBatch α)) :
    pendingSteps (pending.insert r perId) r' = if r = r' then perId.keys else pendingSteps pending r' := by
  unfold pendingSteps
  rw [Dict.get?_insert]
  split_ifs <;> rfl

/-- Draining moves the messages behind the pending steps of their runs, as long as these ascend. -/
theorem drain_spec {socket : List (ι × TrainingBatch α)} (hall : All P pending) (hsocket : ∀ m ∈ socket, P m.1 m.2)
    (hasc : ∀ r, (pendingSteps pending r ++ stepsOf r socket).Pairwise (· < ·)) :
    ∃ pending', drain socket pending = .ok pending' ∧ All P pending' ∧
      ∀ r, pendingSteps pending' r = pendingSteps pending r ++ stepsOf r socket := by
  induction socket generalizing pending with
  | nil => exact ⟨pending, rfl, hall, fun r => (List.append_nil _).symm⟩
  | cons m socket ih =>
      obtain ⟨r, batch⟩ := m
      have hnew : batch.step ∉ ((pending.get? r).getD ∅).keys := by
        have hr := hasc r
        intro hmem
        have hlt := (List.pairwise_append.1 hr).2.2 _ hmem batch.step (by simp [stepsOf])
        exact absurd hlt (lt_irrefl _)
      have hone : drainOne pending (r, batch) =
          .ok (pending.insert r (((pending.get? r).getD ∅).insert batch.step batch)) := by
        unfold drainOne
        exact if_neg fun h => hnew (Dict.contains_iff.1 h)
      have hsteps : ∀ r', pendingSteps (pending.insert r (((pending.get? r).getD ∅).insert batch.step batch)) r' ++
          stepsOf r' socket = pendingSteps pending r' ++ stepsOf r' ((r, batch) :: socket) := by
        intro r'
        rw [pendingSteps_insert]
        by_cases he : r = r'
        · subst he
          rw [if_pos rfl, Dict.keys_insert_new _ hnew]
          simp [stepsOf, pendingSteps]
        · rw [if_neg he]
          simp [stepsOf, he]
      obtain ⟨pending', hdrain, hall', hsteps'⟩ := ih
        (hall.insert fun step b hb => by
          rw [Dict.get?_insert] at hb
          split at hb
          · cases hb
            exact hsocket _ List.mem_cons_self
          · exact hall.getD hb)
        (fun m hm => hsocket m (List.mem_cons_of_mem _ hm)) (fun r' => by rw [hsteps]; exact hasc r')
      refine ⟨pending', ?_, hall', fun r' => (hsteps' r').trans (hsteps r')⟩
      show (drainOne pending (r, batch) >>= drain socket) = _
      rw [hone]
      exact hdrain

theorem oldest_some {perId : Dict Nat (TrainingBatch α)} {step : Nat} {batch : TrainingBatch α}
    (h : oldest perId = some (step, batch)) : perId.get? step = some batch := by
  obtain ⟨k, -, hk⟩ := Option.bind_eq_some_iff.1 h
  obtain ⟨b, hb, he⟩ := Option.map_eq_some_iff.1 hk
  cases he
  exact hb

/-- One turn of the loop does nothing, or hands out one pending batch of the run at the index. -/
theorem receiveRun_cases (m : Runs ι) (acc : List (TrainingBatch α) × Pending ι α) (idx : Nat) :
    receiveRun m acc idx = acc ∨
      ∃ r step batch, m.occupant idx = some r ∧ ((acc.2.get? r).getD ∅).get? step = some batch ∧
        receiveRun m acc idx = (acc.1 ++ [{ batch with runIdx := some idx }],
          if (((acc.2.get? r).getD ∅).erase step).keys = [] then acc.2.erase r
          else acc.2.insert r (((acc.2.get? r).getD ∅).erase step)) := by
  unfold receiveRun
  cases m.occupant idx with
  | none => exact .inl rfl
  | some r =>
      dsimp only
      split_ifs with hready
      · exact .inl rfl
      · cases hold : oldest ((acc.2.get? r).getD ∅) with
        | none => exact .inl rfl
        | some found => exact .inr ⟨r, found.1, found.2, rfl, oldest_some hold, rfl⟩

/-- What one turn hands out satisfied `P`, and it only takes batches away. -/
theorem receiveRun_spec (m : Runs ι) {acc : List (TrainingBatch α) × Pending ι α} (idx : Nat)
    (hall : All P acc.2) :
    All P (receiveRun m acc idx).2 ∧ (∀ r, (pendingSteps (receiveRun m acc idx).2 r).Sublist (pendingSteps acc.2 r)) ∧
      ∀ b ∈ (receiveRun m acc idx).1, b ∈ acc.1 ∨
        ∃ r batch, m.occupant idx = some r ∧ P r batch ∧ b = { batch with runIdx := some idx } := by
  rcases receiveRun_cases m acc idx with h | ⟨r, step, batch, hr, hbatch, h⟩
  · rw [h]
    exact ⟨hall, fun _ => .refl _, fun b hb => .inl hb⟩
  · rw [h]
    refine ⟨?_, fun r' => ?_, fun b hb => ?_⟩
    · dsimp only
      split_ifs
      · exact hall.erase r
      · refine hall.insert fun k b hb => ?_
        rw [Dict.get?_erase] at hb
        split at hb
        · cases hb
        · exact hall.getD hb
    · dsimp only
      split_ifs
      · unfold pendingSteps
        rw [Dict.get?_erase]
        split_ifs
        · exact List.nil_sublist _
        · exact .refl _
      · rw [pendingSteps_insert]
        split_ifs with he
        · exact he ▸ Dict.keys_erase_sublist _ step
        · exact .refl _
    · rcases List.mem_append.1 hb with hb | hb
      · exact .inl hb
      · exact .inr ⟨r, batch, hr, hall.getD hbatch, List.mem_singleton.1 hb⟩

theorem receiveRuns_spec (m : Runs ι) (idxs : List Nat) (acc : List (TrainingBatch α) × Pending ι α)
    (hall : All P acc.2) :
    All P (idxs.foldl (receiveRun m) acc).2 ∧
      (∀ r, (pendingSteps (idxs.foldl (receiveRun m) acc).2 r).Sublist (pendingSteps acc.2 r)) ∧
      ∀ b ∈ (idxs.foldl (receiveRun m) acc).1, b ∈ acc.1 ∨
        ∃ idx r batch, m.occupant idx = some r ∧ P r batch ∧ b = { batch with runIdx := some idx } := by
  induction idxs generalizing acc with
  | nil => exact ⟨hall, fun _ => .refl _, fun b hb => .inl hb⟩
  | cons idx idxs ih =>
      obtain ⟨hone, hsub, hout⟩ := receiveRun_spec m idx hall
      obtain ⟨hone', hsub', hout'⟩ := ih _ hone
      refine ⟨hone', fun r => (hsub' r).trans (hsub r), fun b hb => ?_⟩
      rcases hout' b hb with hb | hb
      · rcases hout b hb with hb | ⟨r, batch, h⟩
        · exact .inl hb
        · exact .inr ⟨idx, r, batch, h⟩
      · exact .inr hb

end ZmqReceiver

/-! ## Clean runs over ZeroMQ -/

namespace Runs

variable {m m' : Runs ι}

theorem act_create {r : ι} (h : m.act (.create r) = some m') :
    m'.incarnation = Function.update m.incarnation r (m.incarnation r + 1) := by
  simp only [act] at h
  split_ifs at h
  cases h
  rfl

theorem act_incarnation {a : RunsAction ι} (h : m.act a = some m') (ha : ∀ r, a ≠ .create r) :
    m'.incarnation = m.incarnation := by
  cases a with
  | create r => exact absurd rfl (ha r)
  | remove r wipe =>
      simp only [act] at h
      split_ifs at h
      cases h
      rfl
  | forget idx =>
      simp only [act] at h
      split at h
      · cases h
      · split_ifs at h
        cases h
        rfl
  | adopt idx r start =>
      simp only [act] at h
      split_ifs at h
      cases h
      rfl
  | work progress readyToUpdate =>
      cases h
      rfl

end Runs

namespace ZmqState

/-- The batches `receive` hands out were sent by the present runs of their ids, and it raises nothing. -/
def Isolated (s : ZmqState ι α) : Prop :=
  ∃ out, s.receive = .ok out ∧ ∀ b ∈ out.1, ∃ idx r, b.runIdx = some idx ∧ s.runs.occupant idx = some r ∧
    b.sentBy = s.runs.incarnation r

/-- An id is created when nothing of it is pending or on the way, and only its last run sends. -/
def Clean (s : ZmqState ι α) : ZmqAction ι α → Prop
  | .runs (.create r) =>
      ZmqReceiver.pendingSteps s.pending r = [] ∧ ZmqReceiver.stepsOf r s.socket = [] ∧ ∀ e, s.sending r e = []
  | .send r e _ _ => e = s.runs.incarnation r
  | _ => True

/-- The steps of a run between its orchestrator and the packer, in order. -/
def line (s : ZmqState ι α) (r : ι) : List Nat :=
  ZmqReceiver.pendingSteps s.pending r ++ ZmqReceiver.stepsOf r s.socket ++
    (s.sending r (s.runs.incarnation r)).map (·.step)

/-- A batch of the present run of an id. -/
def Present (s : ZmqState ι α) (r : ι) (batch : TrainingBatch α) : Prop := batch.sentBy = s.runs.incarnation r

structure Fresh (s : ZmqState ι α) : Prop where
  pending : ZmqReceiver.All s.Present s.pending
  socket : ∀ m ∈ s.socket, s.Present m.1 m.2
  sending : ∀ r e, ∀ batch ∈ s.sending r e, s.Present r batch
  old : ∀ r e, s.sending r e ≠ [] → e = s.runs.incarnation r
  ascending : ∀ r, (s.line r).Pairwise (· < ·)
  sent : ∀ r, ∀ step ∈ s.line r, step < s.nextStep r (s.runs.incarnation r)

variable {s s' : ZmqState ι α}

theorem Fresh.isolated (h : s.Fresh) : s.Isolated := by
  obtain ⟨pending, hdrain, hall, -⟩ := ZmqReceiver.drain_spec h.pending h.socket
    fun r => (List.pairwise_append.1 (h.ascending r)).1
  obtain ⟨-, -, hout⟩ := ZmqReceiver.receiveRuns_spec s.runs s.runs.usedIdxs ([], pending) hall
  refine ⟨s.runs.usedIdxs.foldl (ZmqReceiver.receiveRun s.runs) ([], pending), ?_, fun b hb => ?_⟩
  · show ZmqReceiver.drain s.socket s.pending >>= _ = _
    rw [hdrain]
    rfl
  · rcases hout b hb with hb | ⟨idx, r, batch, hr, hpresent, rfl⟩
    · exact absurd hb List.not_mem_nil
    · exact ⟨idx, r, rfl, hr, hpresent⟩

/-- What is known of the batches depends on the creations only. -/
theorem Fresh.congr (h : s.Fresh) {m : Runs ι} (hm : m.incarnation = s.runs.incarnation) :
    ({ s with runs := m } : ZmqState ι α).Fresh := by
  have hpresent : ({ s with runs := m } : ZmqState ι α).Present = s.Present := by
    funext r batch
    show (batch.sentBy = m.incarnation r) = (batch.sentBy = s.runs.incarnation r)
    rw [hm]
  have hline : ({ s with runs := m } : ZmqState ι α).line = s.line := by
    funext r
    unfold line
    rw [hm]
  refine ⟨hpresent ▸ h.pending, hpresent ▸ h.socket, hpresent ▸ h.sending, ?_, hline ▸ h.ascending, ?_⟩
  · show ∀ r e, s.sending r e ≠ [] → e = m.incarnation r
    rw [hm]
    exact h.old
  · show ∀ r, ∀ step ∈ ({ s with runs := m } : ZmqState ι α).line r, step < s.nextStep r (m.incarnation r)
    rw [hline, hm]
    exact h.sent

theorem Fresh.create (h : s.Fresh) {r : ι} {m : Runs ι}
    (hm : m.incarnation = Function.update s.runs.incarnation r (s.runs.incarnation r + 1))
    (hclean : s.Clean (.runs (.create r))) : ({ s with runs := m } : ZmqState ι α).Fresh := by
  obtain ⟨hpending, hsocket, hsending⟩ := hclean
  have hother : ∀ {r'}, r' ≠ r → m.incarnation r' = s.runs.incarnation r' := by
    intro r' hr'
    rw [hm, Function.update_of_ne hr']
  have hline : ({ s with runs := m } : ZmqState ι α).line r = [] := by
    unfold line
    rw [hpending, hsocket, hsending]
    rfl
  have hline' : ∀ {r'}, r' ≠ r → ({ s with runs := m } : ZmqState ι α).line r' = s.line r' := by
    intro r' hr'
    unfold line
    rw [hother hr']
  refine ⟨?_, ?_, ?_, ?_, ?_, ?_⟩
  · intro r' perId hperId step batch hbatch
    have hne : r' ≠ r := by
      rintro rfl
      have hmem : step ∈ ZmqReceiver.pendingSteps s.pending r' := by
        unfold ZmqReceiver.pendingSteps
        rw [hperId]
        exact Dict.mem_keys_iff.2 ⟨batch, hbatch⟩
      rw [hpending] at hmem
      exact List.not_mem_nil hmem
    exact (h.pending r' perId hperId step batch hbatch).trans (hother hne).symm
  · intro p hp
    have hne : p.1 ≠ r := by
      rintro rfl
      have hmem : p.2.step ∈ ZmqReceiver.stepsOf p.1 s.socket :=
        List.mem_map_of_mem (List.mem_filter.2 ⟨hp, decide_eq_true rfl⟩)
      rw [hsocket] at hmem
      exact List.not_mem_nil hmem
    exact (h.socket p hp).trans (hother hne).symm
  · intro r' e batch hbatch
    have hne : r' ≠ r := by
      rintro rfl
      rw [hsending] at hbatch
      exact List.not_mem_nil hbatch
    exact (h.sending r' e batch hbatch).trans (hother hne).symm
  · intro r' e hne'
    have hne : r' ≠ r := by
      rintro rfl
      exact hne' (hsending e)
    exact (h.old r' e hne').trans (hother hne).symm
  · intro r'
    by_cases hr' : r' = r
    · rw [hr', hline]
      exact .nil
    · rw [hline' hr']
      exact h.ascending r'
  · intro r' step hstep
    by_cases hr' : r' = r
    · rw [hr', hline] at hstep
      exact absurd hstep List.not_mem_nil
    · rw [hline' hr'] at hstep
      show step < s.nextStep r' (m.incarnation r')
      rw [hother hr']
      exact h.sent r' step hstep

theorem Fresh.send (h : s.Fresh) {r : ι} {step : Nat} (examples : List α)
    (hstep : s.nextStep r (s.runs.incarnation r) ≤ step) :
    ({ s with
        nextStep := Function.update s.nextStep r
          (Function.update (s.nextStep r) (s.runs.incarnation r) (step + 1))
        sending := Function.update s.sending r (Function.update (s.sending r) (s.runs.incarnation r)
          (s.sending r (s.runs.incarnation r) ++ [⟨examples, step, none, s.runs.incarnation r⟩])) } :
      ZmqState ι α).Fresh := by
  refine ⟨h.pending, h.socket, fun r' e b hb => ?_, fun r' e hne => ?_, fun r' => ?_, fun r' k hk => ?_⟩
  · by_cases hr : r' = r
    · subst hr
      simp only [Function.update_self] at hb
      by_cases he : e = s.runs.incarnation r'
      · subst he
        rw [Function.update_self] at hb
        rcases List.mem_append.1 hb with hb | hb
        · exact h.sending r' _ b hb
        · rw [List.mem_singleton.1 hb]
          rfl
      · rw [Function.update_of_ne he] at hb
        exact h.sending r' e b hb
    · simp only [Function.update_of_ne hr] at hb
      exact h.sending r' e b hb
  · by_cases hr : r' = r
    · subst hr
      by_contra he
      simp only [Function.update_self, Function.update_of_ne he] at hne
      exact he (h.old r' e hne)
    · simp only [Function.update_of_ne hr] at hne
      exact h.old r' e hne
  · by_cases hr : r' = r
    · subst hr
      have hline : (s.line r' ++ [step]).Pairwise (· < ·) := by
        refine List.pairwise_append.2 ⟨h.ascending r', List.pairwise_singleton _ _, fun k hk j hj => ?_⟩
        rw [List.mem_singleton.1 hj]
        exact (h.sent r' k hk).trans_le hstep
      simpa [line] using hline
    · simpa [line, Function.update_of_ne hr] using h.ascending r'
  · by_cases hr : r' = r
    · subst hr
      have hmem : k ∈ s.line r' ∨ k = step := by simpa [line, or_assoc] using hk
      simp only [Function.update_self]
      rcases hmem with hk | rfl
      · exact Nat.lt_succ_of_lt ((h.sent r' k hk).trans_le hstep)
      · exact Nat.lt_succ_self k
    · have hmem : k ∈ s.line r' := by simpa [line, Function.update_of_ne hr] using hk
      simp only [Function.update_of_ne hr]
      exact h.sent r' k hmem

theorem Fresh.arrive (h : s.Fresh) {r : ι} {e : Nat} {batch : TrainingBatch α} {rest : List (TrainingBatch α)}
    (he : s.sending r e = batch :: rest) :
    ({ s with
        sending := Function.update s.sending r (Function.update (s.sending r) e rest)
        socket := s.socket ++ [(r, batch)] } : ZmqState ι α).Fresh := by
  have hcur : e = s.runs.incarnation r := h.old r e (he ▸ List.cons_ne_nil _ _)
  have hpart : ∀ r' e', (Function.update s.sending r (Function.update (s.sending r) e rest) r' e').Sublist
      (s.sending r' e') := by
    intro r' e'
    by_cases hr : r' = r
    · subst hr
      rw [Function.update_self]
      by_cases he' : e' = e
      · rw [he', Function.update_self, he]
        exact List.sublist_cons_self ..
      · rw [Function.update_of_ne he']
    · rw [Function.update_of_ne hr]
  have hline : ∀ r', ({ s with
        sending := Function.update s.sending r (Function.update (s.sending r) e rest)
        socket := s.socket ++ [(r, batch)] } : ZmqState ι α).line r' = s.line r' := by
    intro r'
    unfold line ZmqReceiver.stepsOf
    by_cases hr : r' = r
    · subst hr
      subst hcur
      simp [he]
    · simp [Function.update_of_ne hr, Ne.symm hr]
  refine ⟨h.pending, fun p hp => ?_, fun r' e' b hb => ?_, fun r' e' hne => ?_, fun r' => ?_, fun r' k hk => ?_⟩
  · rcases List.mem_append.1 hp with hp | hp
    · exact h.socket p hp
    · rw [List.mem_singleton.1 hp]
      exact h.sending r e batch (he ▸ List.mem_cons_self)
  · exact h.sending r' e' b ((hpart r' e').subset hb)
  · exact h.old r' e' fun hnil => hne (List.sublist_nil.1 (hnil ▸ hpart r' e'))
  · rw [hline]
    exact h.ascending r'
  · rw [hline] at hk
    exact h.sent r' k hk

theorem Fresh.receive (h : s.Fresh) {out : List (TrainingBatch α) × Pending ι α} (hout : s.receive = .ok out) :
    ({ s with socket := [], pending := out.2 } : ZmqState ι α).Fresh := by
  obtain ⟨pending, hdrain, hall, hsteps⟩ := ZmqReceiver.drain_spec h.pending h.socket
    fun r => (List.pairwise_append.1 (h.ascending r)).1
  obtain ⟨hall', hsub, -⟩ := ZmqReceiver.receiveRuns_spec s.runs s.runs.usedIdxs ([], pending) hall
  have hrest : out = s.runs.usedIdxs.foldl (ZmqReceiver.receiveRun s.runs) ([], pending) := by
    change ZmqReceiver.drain s.socket s.pending >>= _ = _ at hout
    rw [hdrain] at hout
    cases hout
    rfl
  have hline : ∀ r, (({ s with socket := [], pending := out.2 } : ZmqState ι α).line r).Sublist (s.line r) := by
    intro r
    unfold line
    have hnil : ZmqReceiver.stepsOf r ([] : List (ι × TrainingBatch α)) = [] := rfl
    rw [hrest, ← hsteps, hnil, List.append_nil]
    exact (hsub r).append_right _
  refine ⟨hrest ▸ hall', fun p hp => absurd hp List.not_mem_nil, h.sending, h.old, fun r => ?_, fun r k hk => ?_⟩
  · exact (h.ascending r).sublist (hline r)
  · exact h.sent r k ((hline r).subset hk)

theorem Fresh.step (h : s.Fresh) {a : ZmqAction ι α} (hclean : s.Clean a) (hs : s.act a = some s') : s'.Fresh := by
  cases a with
  | runs a =>
      obtain ⟨m, hm, rfl⟩ := Option.map_eq_some_iff.1 hs
      cases a with
      | create r => exact h.create (Runs.act_create hm) hclean
      | remove r wipe => exact h.congr (Runs.act_incarnation hm fun _ h => (by cases h))
      | forget idx => exact h.congr (Runs.act_incarnation hm fun _ h => (by cases h))
      | adopt idx r start => exact h.congr (Runs.act_incarnation hm fun _ h => (by cases h))
      | work progress readyToUpdate => exact h.congr (Runs.act_incarnation hm fun _ h => (by cases h))
  | send r e step examples =>
      cases hclean
      simp only [act] at hs
      split_ifs at hs with hok
      cases hs
      exact h.send examples hok.2.2
  | arrive r e =>
      simp only [act] at hs
      split at hs
      · cases hs
      · rename_i batch rest he
        cases hs
        exact h.arrive he
  | receive =>
      simp only [act] at hs
      split at hs
      · cases hs
      · rename_i out hout
        cases hs
        exact h.receive hout

end ZmqState

/-! ## What `receive` does to the counters -/

namespace FileReceiver

omit [DecidableEq ι] in
/-- The counter of an index never goes back. -/
theorem getReceivedStep_le_receiveRun (m : Runs ι) (files : ι → Nat → Option (TrainingBatch α))
    (acc : List (TrainingBatch α) × (Nat → Option Nat)) (idx i : Nat) :
    getReceivedStep m acc.2 i ≤ getReceivedStep m (receiveRun m files acc idx).2 i := by
  unfold receiveRun
  cases m.occupant idx with
  | none => exact le_rfl
  | some r =>
      dsimp only
      by_cases hi : i = idx
      · subst hi
        split_ifs
        · simp [getReceivedStep]
        · split <;> simp [getReceivedStep]
      · split_ifs
        · simp [getReceivedStep, Function.update_of_ne hi]
        · split <;> simp [getReceivedStep, Function.update_of_ne hi]

omit [DecidableEq ι] in
theorem getReceivedStep_le_receiveRuns (m : Runs ι) (files : ι → Nat → Option (TrainingBatch α)) (idxs : List Nat)
    (acc : List (TrainingBatch α) × (Nat → Option Nat)) (i : Nat) :
    getReceivedStep m acc.2 i ≤ getReceivedStep m (idxs.foldl (receiveRun m files) acc).2 i := by
  induction idxs generalizing acc with
  | nil => exact le_rfl
  | cons idx idxs ih => exact (getReceivedStep_le_receiveRun m files acc idx i).trans (ih _)

omit [DecidableEq ι] in
/-- One turn hands out the file at the counter of its index, if anything. -/
theorem mem_receiveRun {m : Runs ι} {files : ι → Nat → Option (TrainingBatch α)}
    {acc : List (TrainingBatch α) × (Nat → Option Nat)} {idx : Nat} {b : TrainingBatch α}
    (hb : b ∈ (receiveRun m files acc idx).1) :
    b ∈ acc.1 ∨ ∃ r batch, m.occupant idx = some r ∧ files r (getReceivedStep m acc.2 idx) = some batch ∧
      b = { batch with runIdx := some idx } := by
  unfold receiveRun at hb
  cases hr : m.occupant idx with
  | none =>
      rw [hr] at hb
      exact .inl hb
  | some r =>
      simp only [hr] at hb
      split at hb
      · exact .inl hb
      · split at hb
        · exact .inl hb
        · rename_i batch hbatch
          rcases List.mem_append.1 hb with hb | hb
          · exact .inl hb
          · exact .inr ⟨r, batch, rfl, hbatch, List.mem_singleton.1 hb⟩

omit [DecidableEq ι] in
/-- What is handed out for an index is the file of its run at a step that its counter had not passed. -/
theorem mem_receiveRuns {m : Runs ι} {files : ι → Nat → Option (TrainingBatch α)} {idxs : List Nat}
    {acc : List (TrainingBatch α) × (Nat → Option Nat)} {b : TrainingBatch α}
    (hb : b ∈ (idxs.foldl (receiveRun m files) acc).1) :
    b ∈ acc.1 ∨ ∃ idx r step batch, m.occupant idx = some r ∧ files r step = some batch ∧
      getReceivedStep m acc.2 idx ≤ step ∧ b = { batch with runIdx := some idx } := by
  induction idxs generalizing acc with
  | nil => exact .inl hb
  | cons idx idxs ih =>
      rcases ih hb with hb | ⟨i, r, step, batch, hr, hbatch, hle, rfl⟩
      · rcases mem_receiveRun hb with hb | ⟨r, batch, hr, hbatch, rfl⟩
        · exact .inl hb
        · exact .inr ⟨idx, r, _, batch, hr, hbatch, le_rfl, rfl⟩
      · exact .inr ⟨i, r, step, batch, hr, hbatch, (getReceivedStep_le_receiveRun m files acc idx i).trans hle, rfl⟩

end FileReceiver

/-! ## Clean runs over files -/

namespace FileState

/-- The batches `receive` hands out were sent by the present runs of their ids. -/
def Isolated (s : FileState ι α) : Prop :=
  ∀ b ∈ s.receive.1, ∃ idx r, b.runIdx = some idx ∧ s.runs.occupant idx = some r ∧ b.sentBy = s.runs.incarnation r

/-- The step the receiver reads next for an index. -/
def position (s : FileState ι α) (idx : Nat) : Nat := FileReceiver.getReceivedStep s.runs s.receivedSteps idx

/-- What other runs of the id than its `e`-th have written, or are writing, is for steps below `step`. -/
structure LeftBelow (s : FileState ι α) (r : ι) (e step : Nat) : Prop where
  files : ∀ k batch, s.files r k = some batch → batch.sentBy ≠ e → k < step
  writing : ∀ e' batch, s.writing r e' = some batch → batch.sentBy ≠ e → batch.step < step

/-- The receiver never starts at a step that an earlier run of the id has left a file for, and no such run sends one
later. An id that is created again while it still has an index is read on from where the receiver is. -/
def Clean (s : FileState ι α) : FileAction ι α → Prop
  | .runs (.create r) =>
      ∀ idx, s.runs.occupant idx = some r → s.LeftBelow r (s.runs.incarnation r + 1) (s.position idx)
  | .runs (.adopt idx r start) => s.LeftBelow r (s.runs.incarnation r) ((s.receivedSteps idx).getD start)
  | .runs (.work progress _) =>
      ∀ idx r, s.runs.occupant idx = some r →
        s.LeftBelow r (s.runs.incarnation r) ((s.receivedSteps idx).getD (progress idx))
  | .beginSend r e step _ => e = s.runs.incarnation r ∨ ∀ idx, s.runs.occupant idx = some r → step < s.position idx
  | _ => True

/-- What earlier runs have left for the run at an index lies behind the receiver. -/
def Fresh (s : FileState ι α) : Prop :=
  ∀ idx r, s.runs.occupant idx = some r → s.LeftBelow r (s.runs.incarnation r) (s.position idx)

variable {s s' : FileState ι α}

omit [DecidableEq ι] in
theorem Fresh.isolated (h : s.Fresh) : s.Isolated := by
  intro b hb
  rcases FileReceiver.mem_receiveRuns hb with hb | ⟨idx, r, step, batch, hr, hbatch, hle, rfl⟩
  · exact absurd hb List.not_mem_nil
  · refine ⟨idx, r, rfl, hr, ?_⟩
    by_contra hne
    exact absurd ((h idx r hr).files step batch hbatch hne) (not_lt.2 hle)

omit [DecidableEq ι] in
/-- A later counter, and no other batches than before. -/
theorem LeftBelow.mono {r : ι} {e step step' : Nat} (h : s.LeftBelow r e step) (hle : step ≤ step')
    (hfiles : ∀ k batch, s'.files r k = some batch →
      s.files r k = some batch ∨ ∃ e', s.writing r e' = some batch ∧ batch.step = k)
    (hwriting : ∀ e' batch, s'.writing r e' = some batch → s.writing r e' = some batch) : s'.LeftBelow r e step' := by
  refine ⟨fun k batch hb hne => ?_, fun e' batch hb hne => ?_⟩
  · rcases hfiles k batch hb with hfile | ⟨e', hwrite, rfl⟩
    · exact (h.files k batch hfile hne).trans_le hle
    · exact (h.writing e' batch hwrite hne).trans_le hle
  · exact (h.writing e' batch (hwriting e' batch hb) hne).trans_le hle

omit [DecidableEq ι] in
/-- The same directories read with other tables of the run manager. -/
theorem LeftBelow.congr {r : ι} {e step : Nat} (h : s.LeftBelow r e step) (hfiles : s'.files = s.files)
    (hwriting : s'.writing = s.writing) : s'.LeftBelow r e step :=
  h.mono le_rfl (fun _ _ hb => .inl (hfiles ▸ hb)) fun _ _ hb => hwriting ▸ hb

theorem Fresh.create (h : s.Fresh) {r : ι} (hclean : s.Clean (.runs (.create r)))
    (hs : s.act (.runs (.create r)) = some s') : s'.Fresh := by
  obtain ⟨m, hm, rfl⟩ := Option.map_eq_some_iff.1 hs
  simp only [Runs.act] at hm
  split_ifs at hm
  cases hm
  intro idx r' hr'
  by_cases hr : r' = r
  · subst hr
    change FileState.LeftBelow _ r' (Function.update s.runs.incarnation r' (s.runs.incarnation r' + 1) r') _
    rw [Function.update_self]
    exact (hclean idx hr').congr rfl rfl
  · change FileState.LeftBelow _ r' (Function.update s.runs.incarnation r (s.runs.incarnation r + 1) r') _
    rw [Function.update_of_ne hr]
    exact (h idx r' hr').congr rfl rfl

theorem Fresh.remove (h : s.Fresh) {r : ι} {wipe : Bool} (hs : s.act (.runs (.remove r wipe)) = some s') :
    s'.Fresh := by
  obtain ⟨m, hm, rfl⟩ := Option.map_eq_some_iff.1 hs
  simp only [Runs.act] at hm
  split_ifs at hm
  cases hm
  intro idx r' hr'
  cases wipe with
  | false => exact (h idx r' hr').congr rfl rfl
  | true =>
      refine (h idx r' hr').mono le_rfl (fun k batch hb => .inl ?_) fun _ _ hb => hb
      -- the directory of `r` is gone, the others are as before
      change Function.update s.files r (fun _ => none) r' k = some batch at hb
      by_cases hr : r' = r
      · rw [hr, Function.update_self] at hb
        cases hb
      · rwa [Function.update_of_ne hr] at hb

theorem Fresh.forget (h : s.Fresh) {i : Nat} (hs : s.act (.runs (.forget i)) = some s') : s'.Fresh := by
  obtain ⟨m, hm, rfl⟩ := Option.map_eq_some_iff.1 hs
  simp only [Runs.act] at hm
  split at hm
  · cases hm
  · split_ifs at hm
    cases hm
    intro idx r hr
    change Function.update s.runs.occupant i none idx = some r at hr
    by_cases hi : idx = i
    · rw [hi, Function.update_self] at hr
      cases hr
    · rw [Function.update_of_ne hi] at hr
      refine (h idx r hr).mono (le_of_eq ?_) (fun _ _ hb => .inl hb) fun _ _ hb => hb
      unfold position FileReceiver.getReceivedStep FileReceiver.resetRun
      dsimp only
      split_ifs
      · rw [Function.update_of_ne hi]
      · rfl

theorem Fresh.adopt (h : s.Fresh) {i start : Nat} {r : ι} (hclean : s.Clean (.runs (.adopt i r start)))
    (hs : s.act (.runs (.adopt i r start)) = some s') : s'.Fresh := by
  obtain ⟨m, hm, rfl⟩ := Option.map_eq_some_iff.1 hs
  simp only [Runs.act] at hm
  split_ifs at hm
  cases hm
  intro idx r' hr'
  change Function.update s.runs.occupant i (some r) idx = some r' at hr'
  by_cases hi : idx = i
  · subst hi
    rw [Function.update_self] at hr'
    cases hr'
    refine hclean.mono (le_of_eq ?_) (fun _ _ hb => .inl hb) fun _ _ hb => hb
    show (s.receivedSteps idx).getD start = (s.receivedSteps idx).getD (Function.update s.runs.progress idx start idx)
    rw [Function.update_self]
  · rw [Function.update_of_ne hi] at hr'
    refine (h idx r' hr').mono (le_of_eq ?_) (fun _ _ hb => .inl hb) fun _ _ hb => hb
    show (s.receivedSteps idx).getD (s.runs.progress idx) =
      (s.receivedSteps idx).getD (Function.update s.runs.progress i start idx)
    rw [Function.update_of_ne hi]

theorem Fresh.beginSend (h : s.Fresh) {r : ι} {e step : Nat} {examples : List α}
    (hclean : s.Clean (.beginSend r e step examples)) (hs : s.act (.beginSend r e step examples) = some s') :
    s'.Fresh := by
  simp only [act] at hs
  split_ifs at hs
  cases hs
  intro idx r' hr'
  refine ⟨(h idx r' hr').files, fun e' batch hb hne => ?_⟩
  change Function.update s.writing r
    (Function.update (s.writing r) e (some ⟨examples, step, none, e⟩)) r' e' = some batch at hb
  by_cases hr : r' = r
  · subst hr
    rw [Function.update_self] at hb
    by_cases he : e' = e
    · subst he
      rw [Function.update_self] at hb
      cases hb
      exact (hclean.resolve_left hne) idx hr'
    · rw [Function.update_of_ne he] at hb
      exact (h idx r' hr').writing e' batch hb hne
  · rw [Function.update_of_ne hr] at hb
    exact (h idx r' hr').writing e' batch hb hne

theorem Fresh.endSend (h : s.Fresh) {r : ι} {e : Nat} (hs : s.act (.endSend r e) = some s') : s'.Fresh := by
  obtain ⟨batch, hb, rfl⟩ := Option.map_eq_some_iff.1 hs
  intro idx r' hr'
  refine (h idx r' hr').mono le_rfl (fun k b hfile => ?_) fun e' b hwrite => ?_
  · dsimp only at hfile
    split at hfile
    · by_cases hr : r' = r
      · subst hr
        rw [Function.update_self] at hfile
        by_cases hstep : k = batch.step
        · rw [hstep, Function.update_self] at hfile
          cases hfile
          exact .inr ⟨e, hb, hstep.symm⟩
        · rw [Function.update_of_ne hstep] at hfile
          exact .inl hfile
      · rw [Function.update_of_ne hr] at hfile
        exact .inl hfile
    · exact .inl hfile
  · dsimp only at hwrite
    by_cases hr : r' = r
    · subst hr
      rw [Function.update_self] at hwrite
      by_cases he : e' = e
      · rw [he, Function.update_self] at hwrite
        cases hwrite
      · rwa [Function.update_of_ne he] at hwrite
    · rwa [Function.update_of_ne hr] at hwrite

omit [DecidableEq ι] in
theorem Fresh.receive (h : s.Fresh) : ({ s with receivedSteps := s.receive.2 } : FileState ι α).Fresh := by
  intro idx r hr
  refine (h idx r hr).mono ?_ (fun _ _ hb => .inl hb) fun _ _ hb => hb
  exact FileReceiver.getReceivedStep_le_receiveRuns s.runs s.files s.runs.usedIdxs ([], s.receivedSteps) idx

theorem Fresh.step (h : s.Fresh) {a : FileAction ι α} (hclean : s.Clean a) (hs : s.act a = some s') : s'.Fresh := by
  cases a with
  | runs a =>
      cases a with
      | create r => exact h.create hclean hs
      | remove r wipe => exact h.remove hs
      | forget idx => exact h.forget hs
      | adopt idx r start => exact h.adopt hclean hs
      | work progress readyToUpdate =>
          cases hs
          exact fun idx r hr => (hclean idx r hr).congr rfl rfl
  | beginSend r e step examples => exact h.beginSend hclean hs
  | endSend r e => exact h.endSend hs
  | receive =>
      cases hs
      exact h.receive

end FileState

/-- **Main.** In clean runs neither receiver hands out a batch of an earlier run of an id, and the check of the pending
steps does not fail. -/
theorem recreationIsolation (ι α : Type) [DecidableEq ι] (maxRuns : Nat) :
    (∀ s, ((zmqSystem ι α maxRuns).restrict ZmqState.Clean).Reachable s → s.Isolated) ∧
      ∀ s, ((fileSystem ι α maxRuns).restrict FileState.Clean).Reachable s → s.Isolated := by
  constructor
  · intro s hs
    have hstep : ∀ (s : ZmqState ι α) a s', s.Fresh → ((zmqSystem ι α maxRuns).restrict ZmqState.Clean).step s a s' →
        s'.Fresh := fun _ _ _ hi hs => hi.step hs.1 hs.2
    refine (hs.invariant ?_ hstep).isolated
    rintro _ rfl
    refine ⟨fun _ _ h => ?_, fun _ h => ?_, fun _ _ _ h => ?_, fun _ _ h => absurd rfl h, fun _ => .nil, fun _ _ h => ?_⟩
    · cases h
    · cases h
    · cases h
    · cases h
  · intro s hs
    have hstep : ∀ (s : FileState ι α) a s', s.Fresh →
        ((fileSystem ι α maxRuns).restrict FileState.Clean).step s a s' → s'.Fresh := fun _ _ _ hi hs => hi.step hs.1 hs.2
    refine (hs.invariant ?_ hstep).isolated
    rintro _ rfl
    exact fun _ _ h => by cases h

section

/-- What a list of actions leads to. -/
def ZmqState.acts (s : ZmqState ι α) (l : List (ZmqAction ι α)) : Option (ZmqState ι α) := l.foldlM ZmqState.act s

theorem ZmqState.run_of_acts {maxRuns : Nat} {s s' : ZmqState ι α} {l : List (ZmqAction ι α)} (h : s.acts l = some s') :
    (zmqSystem ι α maxRuns).Run s l s' := by
  induction l generalizing s with
  | nil =>
      cases h
      exact .nil
  | cons a l ih =>
      obtain ⟨t, ht, hl⟩ := Option.bind_eq_some_iff.1 ((List.foldlM_cons ..).symm.trans h)
      exact (ih hl).cons ht

theorem ZmqState.reachable_act {maxRuns : Nat} {s s' : ZmqState ι α}
    (h : ((zmqSystem ι α maxRuns).restrict ZmqState.Clean).Reachable s) (a : ZmqAction ι α) (hclean : s.Clean a)
    (ha : s.act a = some s') : ((zmqSystem ι α maxRuns).restrict ZmqState.Clean).Reachable s' :=
  h.step ⟨hclean, ha⟩

theorem FileState.reachable_act {maxRuns : Nat} {s s' : FileState ι α}
    (h : ((fileSystem ι α maxRuns).restrict FileState.Clean).Reachable s) (a : FileAction ι α) (hclean : s.Clean a)
    (ha : s.act a = some s') : ((fileSystem ι α maxRuns).restrict FileState.Clean).Reachable s' :=
  h.step ⟨hclean, ha⟩

/-- Over either transport a run is removed after its first batch was received, and the batch of the next run of its id is
handed out: over files that run is resumed behind the file that its predecessor has left. -/
theorem recreationIsolation_resumed :
    (∃ s : ZmqState String Nat, s.Isolated ∧ s.receive.map Prod.fst = .ok [⟨[8], 0, some 0, 2⟩]) ∧
      ∃ s : FileState String Nat, s.Isolated ∧ s.files "run_a" 0 = some ⟨[5], 0, none, 1⟩ ∧
        s.receive.1 = [⟨[8], 1, some 0, 2⟩] := by
  constructor
  · have hinit : ((zmqSystem String Nat 2).restrict ZmqState.Clean).Reachable _ := .of_init rfl
    have hcreate := ZmqState.reachable_act hinit (.runs (.create "run_a")) ⟨rfl, rfl, fun _ => rfl⟩ rfl
    have hadopt := ZmqState.reachable_act hcreate (.runs (.adopt 0 "run_a" 0)) trivial rfl
    have hsend := ZmqState.reachable_act hadopt (.send "run_a" 1 0 [5]) rfl rfl
    have harrive := ZmqState.reachable_act hsend (.arrive "run_a" 1) trivial rfl
    have hreceive := ZmqState.reachable_act harrive .receive trivial rfl
    have hremove := ZmqState.reachable_act hreceive (.runs (.remove "run_a" true)) trivial rfl
    have hforget := ZmqState.reachable_act hremove (.runs (.forget 0)) trivial rfl
    have hagain := ZmqState.reachable_act hforget (.runs (.create "run_a"))
      ⟨rfl, rfl, fun e => by by_cases he : e = 1 <;> simp [he]⟩ rfl
    have hadopt' := ZmqState.reachable_act hagain (.runs (.adopt 0 "run_a" 0)) trivial rfl
    have hsend' := ZmqState.reachable_act hadopt' (.send "run_a" 2 0 [8]) rfl rfl
    have harrive' := ZmqState.reachable_act hsend' (.arrive "run_a" 2) trivial rfl
    exact ⟨_, (recreationIsolation String Nat 2).1 _ harrive', rfl⟩
  · have hinit : ((fileSystem String Nat 2).restrict FileState.Clean).Reachable _ := .of_init rfl
    have hcreate := FileState.reachable_act hinit (.runs (.create "run_a")) (fun _ h => by cases h) rfl
    have hadopt := FileState.reachable_act hcreate (.runs (.adopt 0 "run_a" 0))
      ⟨fun _ _ h => (by cases h), fun _ _ h => (by cases h)⟩ rfl
    have hbegin := FileState.reachable_act hadopt (.beginSend "run_a" 1 0 [5]) (.inl rfl) rfl
    have hend := FileState.reachable_act hbegin (.endSend "run_a" 1) trivial rfl
    have hreceive := FileState.reachable_act hend .receive trivial rfl
    have hremove := FileState.reachable_act hreceive (.runs (.remove "run_a" false)) trivial rfl
    have hforget := FileState.reachable_act hremove (.runs (.forget 0)) trivial rfl
    have hagain := FileState.reachable_act hforget (.runs (.create "run_a"))
      (fun idx h => by
        change Function.update (Function.update (fun _ => none) 0 (some "run_a")) 0 none idx = some "run_a" at h
        by_cases hi : idx = 0 <;> simp [hi] at h) rfl
    have hadopt' := FileState.reachable_act hagain (.runs (.adopt 0 "run_a" 1))
      ⟨fun k _ h _ => by
          show k < 1
          by_contra hk
          simp [show k ≠ 0 by omega] at h,
        fun e _ h => by by_cases he : e = 1 <;> simp [he] at h⟩ rfl
    have hbegin' := FileState.reachable_act hadopt' (.beginSend "run_a" 2 1 [8]) (.inl rfl) rfl
    have hend' := FileState.reachable_act hbegin' (.endSend "run_a" 2) trivial rfl
    exact ⟨_, (recreationIsolation String Nat 2).2 _ hend', rfl, rfl⟩

/-- An orchestrator sends two batches, its run is deleted after the first was received, and created again. -/
def usedAgain : List (ZmqAction String Nat) :=
  [.runs (.create "run_a"), .runs (.adopt 0 "run_a" 0), .send "run_a" 1 0 [5], .send "run_a" 1 1 [7],
    .arrive "run_a" 1, .arrive "run_a" 1, .receive, .runs (.remove "run_a" true), .runs (.forget 0),
    .runs (.create "run_a"), .runs (.adopt 0 "run_a" 0)]

/-- The new orchestrator sends its own two batches. -/
def sendsAgain : List (ZmqAction String Nat) :=
  [.send "run_a" 2 0 [8], .send "run_a" 2 1 [9], .arrive "run_a" 2, .arrive "run_a" 2]

/-- The second run of the id gets the second batch of the first, and its own second batch fails the check. -/
theorem recreationIsolation_usedAgain :
    (∃ s, (zmqSystem String Nat 2).Reachable s ∧ s.runs.incarnation "run_a" = 2 ∧
      s.receive.map Prod.fst = .ok [⟨[7], 1, some 0, 1⟩]) ∧
      ∃ s, (zmqSystem String Nat 2).Reachable s ∧ s.receive.map Prod.fst = .error .assertionError := by
  refine ⟨⟨_, ⟨_, usedAgain, rfl, ZmqState.run_of_acts rfl⟩, rfl, rfl⟩, ?_⟩
  exact ⟨_, ⟨_, usedAgain ++ sendsAgain, rfl, ZmqState.run_of_acts rfl⟩, rfl⟩

end

end AuroraRl.Transport
