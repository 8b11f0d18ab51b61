import AuroraRl.Orchestrator.Versions

/-!
# The trainer and the orchestrator over the broadcast directory

* `maybeClean` : the broadcast the trainer removes after its own;
* `lastBroadcast`, `StableAt` : how far the trainer has come, and which broadcasts are complete;
* `InTurn` : the trainer broadcasts a version once it has the batch before it, and the orchestrator goes step by step;
* `Handshake` : neither runs away, and no broadcast is removed before the orchestrator has moved past it;
* `handshake_preserved`, `broadcastHandshake` : it holds in every state of every run.
-/

namespace AuroraRl.Orchestrator
open Coroutine Transition

variable {R : Type}

/-! ## The trainer -/

/-- `maybe_clean`: the step whose directory is removed, if any. -/
def maybeClean (step : Nat) (intervalToKeep : Option Nat) : Option Nat :=
  let candidateStep := step - 2
  match intervalToKeep with
  | some interval => if interval ≠ 0 ∧ candidateStep % interval = 0 then none else some candidateStep
  | none => some candidateStep

theorem eq_of_maybeClean {step candidate : Nat} {intervalToKeep : Option Nat}
    (h : maybeClean step intervalToKeep = some candidate) : candidate = step - 2 := by
  unfold maybeClean at h
  dsimp only at h
  split at h
  · split_ifs at h
    exact (Option.some.inj h).symm
  · exact (Option.some.inj h).symm

/-- The version the trainer broadcast last, `start` if it has not gone on from there. -/
def lastBroadcast (start : Nat) (s : SchedulerState R) : Nat := s.broadcasts.keys.foldl max start

/-- The broadcast of a version is complete. -/
def StableAt (s : SchedulerState R) (version : Nat) : Prop :=
  ∃ dir, s.broadcasts.get? version = some dir ∧ dir.stable = true

section

variable {start version n : Nat} {s s' : SchedulerState R}

theorem foldl_max_le_iff {l : List Nat} {init n : Nat} : l.foldl max init ≤ n ↔ init ≤ n ∧ ∀ k ∈ l, k ≤ n := by
  induction l generalizing init with
  | nil => simp
  | cons k l ih =>
      rw [List.foldl_cons, ih, List.forall_mem_cons, Nat.max_le]
      exact and_assoc

theorem lastBroadcast_le_iff : lastBroadcast start s ≤ n ↔ start ≤ n ∧ ∀ k ∈ s.broadcasts.keys, k ≤ n := foldl_max_le_iff

theorem start_le_lastBroadcast : start ≤ lastBroadcast start s := (lastBroadcast_le_iff.1 (Nat.le_refl _)).1

theorem le_lastBroadcast {dir : BroadcastDir} (h : s.broadcasts.get? version = some dir) : version ≤ lastBroadcast start s :=
  (lastBroadcast_le_iff.1 (Nat.le_refl _)).2 _ (Dict.mem_keys_iff.2 ⟨dir, h⟩)

theorem mem_keys_lastBroadcast (h : start < lastBroadcast start s) : lastBroadcast start s ∈ s.broadcasts.keys := by
  by_contra hnot
  have hle : lastBroadcast start s ≤ lastBroadcast start s - 1 := by
    refine lastBroadcast_le_iff.2 ⟨by omega, fun k hk => ?_⟩
    have hk' := (lastBroadcast_le_iff.1 (Nat.le_refl (lastBroadcast start s))).2 k hk
    have hne : k ≠ lastBroadcast start s := fun heq => hnot (heq ▸ hk)
    omega
  omega

theorem lastBroadcast_congr (hbroadcasts : s'.broadcasts = s.broadcasts) :
    lastBroadcast start s' = lastBroadcast start s := by
  unfold lastBroadcast
  rw [hbroadcasts]

theorem lastBroadcast_insert (dir : BroadcastDir) :
    lastBroadcast start { s with broadcasts := s.broadcasts.insert version dir } = max (lastBroadcast start s) version := by
  refine eq_of_forall_ge_iff fun n => ?_
  rw [Nat.max_le, lastBroadcast_le_iff, lastBroadcast_le_iff, and_assoc]
  refine and_congr_right fun _ => ?_
  simp only [Dict.mem_keys_iff, Dict.get?_insert]
  constructor
  · intro h
    refine ⟨fun k hk => h k ?_, h version ⟨dir, if_pos rfl⟩⟩
    split_ifs
    · exact ⟨dir, rfl⟩
    · exact hk
  · rintro ⟨hkeys, hle⟩ k ⟨dir', hdir'⟩
    split_ifs at hdir' with heq
    · exact heq ▸ hle
    · exact hkeys k ⟨dir', hdir'⟩

theorem lastBroadcast_erase (h : version < lastBroadcast start s) :
    lastBroadcast start { s with broadcasts := s.broadcasts.erase version } = lastBroadcast start s := by
  refine Nat.le_antisymm ?_ ?_
  · refine lastBroadcast_le_iff.2 ⟨start_le_lastBroadcast, fun k hk => ?_⟩
    exact (lastBroadcast_le_iff.1 (Nat.le_refl _)).2 k ((Dict.keys_erase_sublist _ _).subset hk)
  · by_contra hlt
    rw [Nat.not_le] at hlt
    have hlast : start < lastBroadcast start s := Nat.lt_of_le_of_lt start_le_lastBroadcast hlt
    obtain ⟨dir, hdir⟩ := Dict.mem_keys_iff.1 (mem_keys_lastBroadcast hlast)
    have hkept : (s.broadcasts.erase version).get? (lastBroadcast start s) = some dir := by
      rw [Dict.get?_erase, if_neg (Nat.ne_of_lt h), hdir]
    have hle : lastBroadcast start s ≤ lastBroadcast start { s with broadcasts := s.broadcasts.erase version } :=
      le_lastBroadcast hkept
    exact absurd hle (Nat.not_le.2 hlt)

end

/-- The trainer broadcasts its version, again or for the first time, and the next one when it is complete and the batch of
its step has been generated; then it may remove an older one. The orchestrator repeats a step or goes on to the next. -/
def InTurn [RolloutOutput R] (start : Nat) (action : SchedulerAction R) (s : SchedulerState R) : Prop :=
  EventLoop action s ∧
  match action with
  | .arrive (.generateBatch _ step) => step = s.step ∨ (s.step ≤ start ∧ step = start) ∨
      (step = s.step + 1 ∧ ∃ version, .passedBarrier s.step version ∈ s.events)
  | .arrive (.broadcast step dir) =>
      (step = lastBroadcast start s ∧ (StableAt s step → dir.stable = true)) ∨
      (step = lastBroadcast start s + 1 ∧ (start < lastBroadcast start s → StableAt s (lastBroadcast start s)) ∧
        ∃ version, .passedBarrier (lastBroadcast start s) version ∈ s.events)
  | .arrive (.cleanBroadcast step) => 0 < lastBroadcast start s ∧
      ∃ intervalToKeep, maybeClean (lastBroadcast start s) intervalToKeep = some step
  | _ => True

/-! ## Between the two -/

/-- Neither runs away from the other, and what the orchestrator may still move to is there. -/
structure Handshake (start : Nat) (s : SchedulerState R) : Prop where
  broadcastFirst : s.ckptStep ≤ lastBroadcast start s
  trainerAhead : lastBroadcast start s ≤ s.ckptStep + 2
  kept : ∀ version, s.ckptStep < version → version ≤ lastBroadcast start s →
    s.broadcasts.contains version = true ∧ (version < lastBroadcast start s → StableAt s version)
  complete : start < s.ckptStep → s.ckptStep = lastBroadcast start s → StableAt s s.ckptStep
  batchFirst : lastBroadcast start s ≤ max s.step start + 1
  orchestratorAhead : s.step ≤ s.ckptStep + 2
  passed : ∀ step version, .passedBarrier step version ∈ s.events → step ≤ s.step

/-- An update under way waits for its version or finds it complete. -/
def Duty.Finds (s : SchedulerState R) : Duty R → Prop
  | .running _ (.apply step) => step = s.step - 1 ∨ StableAt s step
  | .applying _ step _ phase => phase = .waiting ∨ StableAt s step
  | _ => True

section

variable {config : SchedulerConfig} {start version step : Nat} {dir : BroadcastDir} {d : Duty R} {s s' : SchedulerState R}

theorem StableAt.same (h : StableAt s version) (hbroadcasts : s'.broadcasts = s.broadcasts) : StableAt s' version := by
  obtain ⟨dir, hdir, hstable⟩ := h
  exact ⟨dir, hbroadcasts ▸ hdir, hstable⟩

theorem StableAt.insert (h : StableAt s version) (hkeep : step = version → dir.stable = true) :
    StableAt { s with broadcasts := s.broadcasts.insert step dir } version := by
  obtain ⟨old, hold, hstable⟩ := h
  by_cases heq : step = version
  · exact ⟨dir, by rw [Dict.get?_insert, if_pos heq], hkeep heq⟩
  · exact ⟨old, by rw [Dict.get?_insert, if_neg heq, hold], hstable⟩

theorem StableAt.erase (h : StableAt s version) (hne : step ≠ version) :
    StableAt { s with broadcasts := s.broadcasts.erase step } version := by
  obtain ⟨old, hold, hstable⟩ := h
  exact ⟨old, by rw [Dict.get?_erase, if_neg hne, hold], hstable⟩

theorem StableAt.le (h : StableAt s version) : version ≤ lastBroadcast start s := by
  obtain ⟨dir, hdir, -⟩ := h
  exact le_lastBroadcast hdir

theorem stableAt_latestCkptStep (h : s.latestCkptStep = some version) : StableAt s version := by
  obtain ⟨e, he, rfl⟩ := List.mem_map.1 (List.max?_mem h)
  obtain ⟨hmem, hstable⟩ := List.mem_filter.1 he
  exact ⟨e.2, (Dict.mem_entries_iff _ _ _).1 hmem, hstable⟩

theorem Duty.Finds.same (h : d.Finds s) (hstep : s'.step = s.step)
    (hbroadcasts : s'.broadcasts = s.broadcasts) : d.Finds s' := by
  cases d with
  | running self task =>
      cases task with
      | apply step => exact h.imp (fun heq => hstep ▸ heq) fun hstable => hstable.same hbroadcasts
      | _ => trivial
  | applying self step cleared phase => exact h.imp_right fun hstable => hstable.same hbroadcasts
  | _ => trivial

theorem Handshake.same (h : Handshake start s) (hstep : s'.step = s.step) (hckpt : s'.ckptStep = s.ckptStep)
    (hbroadcasts : s'.broadcasts = s.broadcasts)
    (hpassed : ∀ step version, .passedBarrier step version ∈ s'.events → step ≤ s.step) : Handshake start s' := by
  have hlast : lastBroadcast start s' = lastBroadcast start s := lastBroadcast_congr hbroadcasts
  refine ⟨?_, ?_, ?_, ?_, ?_, ?_, ?_⟩
  · rw [hckpt, hlast]
    exact h.broadcastFirst
  · rw [hckpt, hlast]
    exact h.trainerAhead
  · rw [hckpt, hlast, hbroadcasts]
    exact fun version hlt hle => (h.kept version hlt hle).imp_right fun hstable hlt => (hstable hlt).same hbroadcasts
  · rw [hckpt, hlast]
    exact fun hlt heq => (h.complete hlt heq).same hbroadcasts
  · rw [hstep, hlast]
    exact h.batchFirst
  · rw [hstep, hckpt]
    exact h.orchestratorAhead
  · rw [hstep]
    exact hpassed

theorem Handshake.quiet (h : Handshake start s) (hsame : SamePolicy s s') : Handshake start s' :=
  h.same hsame.step hsame.ckptStep hsame.broadcasts fun step version hpassed =>
    h.passed step version ((mem_policyEvents rfl).1 (hsame.events ▸ (mem_policyEvents rfl).2 hpassed))

/-- The version the scheduler would move to is there, or is the one it will wait for. -/
theorem Handshake.finds (h : Handshake start s) (hahead : s.ckptStep < computeNextCkptStep config s) :
    computeNextCkptStep config s = s.step - 1 ∨ StableAt s (computeNextCkptStep config s) := by
  have hlatest : 0 < s.latestCkptStep.getD 0 → StableAt s (s.latestCkptStep.getD 0) := by
    intro hpos
    cases hstep : s.latestCkptStep with
    | none =>
        rw [hstep] at hpos
        cases hpos
    | some version => exact stableAt_latestCkptStep hstep
  have hstepAhead := h.orchestratorAhead
  unfold computeNextCkptStep at hahead ⊢
  dsimp only at hahead ⊢
  generalize hgen : s.latestCkptStep.getD 0 = latest at hahead hlatest ⊢
  split_ifs at hahead ⊢ with hdelta
  · by_cases hle : s.ckptStep + 1 ≤ latest
    · have hstable := hlatest (by omega)
      have hnext : min (max (s.step - 1) latest) (s.ckptStep + 1) = s.ckptStep + 1 := by omega
      rw [hnext]
      have hlast : latest ≤ lastBroadcast start s := hstable.le
      rcases Nat.lt_or_ge (s.ckptStep + 1) (lastBroadcast start s) with hlt | hge
      · exact .inr ((h.kept _ (Nat.lt_succ_self _) (Nat.le_of_lt hlt)).2 hlt)
      · obtain rfl : latest = s.ckptStep + 1 := by omega
        exact .inr hstable
    · exact .inl (by omega)
  · rcases Nat.le_total latest (s.step - 1) with hle | hle
    · exact .inl (Nat.max_eq_left hle)
    · rw [Nat.max_eq_right hle] at hahead ⊢
      exact .inr (hlatest (by omega))

theorem Handshake.broadcast [RolloutOutput R] (h : Handshake start s) (hstart : start ≤ s.ckptStep)
    (hbarrier : ∀ step version, .passedBarrier step version ∈ s.events → step ≤ s.ckptStep + 1)
    (hturn : InTurn start (.arrive (.broadcast step dir)) s) :
    Handshake start { s with broadcasts := s.broadcasts.insert step dir } := by
  have hlast : lastBroadcast start { s with broadcasts := s.broadcasts.insert step dir } = max (lastBroadcast start s) step :=
    lastBroadcast_insert dir
  have hcontains : ∀ version, s.broadcasts.contains version = true ∨ version = step →
      (s.broadcasts.insert step dir).contains version = true := by
    intro version hversion
    rw [Dict.contains_iff, Dict.mem_keys_iff, Dict.get?_insert]
    split_ifs with heq
    · exact ⟨dir, rfl⟩
    · exact Dict.mem_keys_iff.1 (Dict.contains_iff.1 (hversion.resolve_right fun h => heq h.symm))
  obtain ⟨hfirst, hahead, hkept, hcomplete, hbatch, hstep, hpassed⟩ := h
  rcases hturn.2 with ⟨heq, hstable⟩ | ⟨heq, hprevious, version, hversion⟩
  · -- the same version, again or complete now
    have hlast' : lastBroadcast start { s with broadcasts := s.broadcasts.insert step dir } = lastBroadcast start s := by
      rw [hlast, heq, Nat.max_self]
    refine ⟨?_, ?_, ?_, ?_, ?_, hstep, hpassed⟩
    · rw [hlast']
      exact hfirst
    · rw [hlast']
      exact hahead
    · rw [hlast']
      intro version hlt hle
      obtain ⟨hthere, hstableAt⟩ := hkept version hlt hle
      exact ⟨hcontains version (.inl hthere), fun hlt' => (hstableAt hlt').insert fun h => hstable (h ▸ hstableAt hlt')⟩
    · rw [hlast']
      intro hlt hckpt
      have hold := hcomplete hlt hckpt
      exact hold.insert fun h => hstable (h ▸ hold)
    · rw [hlast']
      exact hbatch
  · -- the next version, once the one before is complete
    have hlast' : lastBroadcast start { s with broadcasts := s.broadcasts.insert step dir } = step := by
      rw [hlast, heq]
      exact Nat.max_eq_right (Nat.le_succ _)
    have hfresh : ∀ version, StableAt s version → step = version → dir.stable = true := by
      intro version hold h
      have hle : version ≤ lastBroadcast start s := hold.le
      omega
    have hle := hbarrier _ _ hversion
    have hbatch' := hpassed _ _ hversion
    refine ⟨?_, ?_, ?_, ?_, ?_, hstep, hpassed⟩
    · rw [hlast', heq]
      exact Nat.le_succ_of_le hfirst
    · rw [hlast', heq]
      exact Nat.succ_le_succ hle
    · rw [hlast']
      intro v hlt hlev
      rcases Nat.lt_or_eq_of_le hlev with hltv | rfl
      · have hlev' : v ≤ lastBroadcast start s := by omega
        obtain ⟨hthere, hstableAt⟩ := hkept v hlt hlev'
        refine ⟨hcontains v (.inl hthere), fun _ => ?_⟩
        have hold : StableAt s v := by
          rcases Nat.lt_or_eq_of_le hlev' with hlt' | rfl
          · exact hstableAt hlt'
          · exact hprevious (Nat.lt_of_le_of_lt hstart hlt)
        exact hold.insert (hfresh v hold)
      · exact ⟨hcontains v (.inr rfl), fun hlt' => absurd hlt' (Nat.lt_irrefl _)⟩
    · rw [hlast', heq]
      intro _ hckpt
      exact absurd hfirst (Nat.not_le.2 (Nat.lt_of_lt_of_eq (Nat.lt_succ_self _) hckpt.symm))
    · rw [hlast', heq]
      exact Nat.succ_le_succ (Nat.le_trans hbatch' (Nat.le_max_left _ _))

theorem Handshake.cleanBroadcast [RolloutOutput R] (h : Handshake start s)
    (hturn : InTurn start (.arrive (.cleanBroadcast step)) s) :
    Handshake start { s with broadcasts := s.broadcasts.erase step } ∧ step ≤ s.ckptStep := by
  obtain ⟨hpos, intervalToKeep, hclean⟩ := hturn.2
  have hstep := eq_of_maybeClean hclean
  have hlt : step < lastBroadcast start s := by omega
  have hlast := lastBroadcast_erase hlt
  have hle : step ≤ s.ckptStep := by
    have hahead := h.trainerAhead
    omega
  obtain ⟨hfirst, hahead, hkept, hcomplete, hbatch, horchestrator, hpassed⟩ := h
  refine ⟨⟨?_, ?_, ?_, ?_, ?_, horchestrator, hpassed⟩, hle⟩
  · rw [hlast]
    exact hfirst
  · rw [hlast]
    exact hahead
  · rw [hlast]
    intro version hltv hlev
    obtain ⟨hthere, hstable⟩ := hkept version hltv hlev
    have hne : step ≠ version := Nat.ne_of_lt (Nat.lt_of_le_of_lt hle hltv)
    refine ⟨?_, fun hlt' => (hstable hlt').erase hne⟩
    rw [Dict.contains_iff, Dict.mem_keys_iff] at hthere ⊢
    rw [Dict.get?_erase, if_neg hne]
    exact hthere
  · rw [hlast]
    intro hckpt heq
    exact (hcomplete hckpt heq).erase (Nat.ne_of_lt (Nat.lt_of_lt_of_eq hlt heq.symm))
  · rw [hlast]
    exact hbatch

theorem Handshake.update (h : Handshake start s) (hahead : s.ckptStep < version) (hstable : StableAt s version)
    (hstep : s'.step = s.step) (hckpt : s'.ckptStep = version) (hbroadcasts : s'.broadcasts = s.broadcasts)
    (hpassed : ∀ step version, .passedBarrier step version ∈ s'.events → step ≤ s.step) : Handshake start s' := by
  have hlast : lastBroadcast start s' = lastBroadcast start s := lastBroadcast_congr hbroadcasts
  have hle : version ≤ lastBroadcast start s := hstable.le
  have htrainer := h.trainerAhead
  have horchestrator := h.orchestratorAhead
  refine ⟨?_, ?_, ?_, ?_, ?_, ?_, ?_⟩
  · rw [hckpt, hlast]
    exact hle
  · rw [hckpt, hlast]
    omega
  · rw [hckpt, hlast, hbroadcasts]
    intro v hlt hlev
    exact (h.kept v (Nat.lt_trans hahead hlt) hlev).imp_right fun hstableAt hlt' => (hstableAt hlt').same hbroadcasts
  · rw [hckpt]
    exact fun _ _ => hstable.same hbroadcasts
  · rw [hstep, hlast]
    exact h.batchFirst
  · rw [hstep, hckpt]
    omega
  · rw [hstep]
    exact hpassed

end

/-! ## Every operation -/

variable [RolloutOutput R] {config : SchedulerConfig}

/-- The accounts, the tasks and the version order. -/
abbrev Versioned (config : SchedulerConfig) (start : Nat) : List (Duty R) → SchedulerState R → Prop :=
  With (Kept config) (VersionOrder config start) (Duty.Ahead config)

/-- The handshake, and what the updates under way find. -/
abbrev Shaken (start : Nat) : List (Duty R) → SchedulerState R → Prop := DutyWise (Handshake start) Duty.Finds

omit [RolloutOutput R] in
theorem Shaken.keep {start : Nat} {ds : List (Duty R)} {s s' : SchedulerState R} (h : Shaken start ds s)
    (hglob : Handshake start s') (hstep : s'.step = s.step) (hbroadcasts : s'.broadcasts = s.broadcasts)
    (hcreated : s'.created = s.created) : Shaken start ds s' :=
  h.change (fun _ he => hcreated ▸ he) hglob fun _ hd => hd.same hstep hbroadcasts

omit [RolloutOutput R] in
/-- What the updates under way find stays, as they are ahead of the scheduler. -/
theorem Shaken.carry {start : Nat} {ds : List (Duty R)} {s s' : SchedulerState R} (h : Shaken start ds s)
    (hordered : Ordered config start ds s) (hglob : Handshake start s') (hcreated : s'.created = s.created)
    (hcarry : ∀ d : Duty R, d.Ahead config s → d.Finds s → d.Finds s') : Shaken start ds s' :=
  ⟨hglob, fun e he => hcarry _ (hordered.created e (hcreated ▸ he)) (h.created e (hcreated ▸ he)),
    fun d hd => hcarry d (hordered.duties d hd) (h.duties d hd)⟩

omit [RolloutOutput R] in
theorem Duty.Finds.carry {d : Duty R} {s s' : SchedulerState R} (h : d.Finds s) (hahead : d.Ahead config s)
    (hstable : ∀ version, s.ckptStep < version → StableAt s version → StableAt s' version)
    (hwaits : ∀ version, s.ckptStep < version → version = s.step - 1 → version = s'.step - 1 ∨ StableAt s' version) :
    d.Finds s' := by
  cases d with
  | running self task =>
      cases task with
      | apply step => exact h.elim (hwaits step hahead.ahead) fun h => .inr (hstable step hahead.ahead h)
      | _ => trivial
  | applying self step cleared phase => exact h.imp_right (hstable step hahead.1.ahead)
  | _ => trivial

omit [RolloutOutput R] in
theorem VersionOrder.start_le {start : Nat} {s : SchedulerState R} (h : VersionOrder config start s) : start ≤ s.ckptStep :=
  h.upTo start List.mem_cons_self

omit [RolloutOutput R] in
theorem VersionOrder.step_le {start step version : Nat} {s : SchedulerState R} (h : VersionOrder config start s)
    (hpassed : .passedBarrier step version ∈ s.events) : step ≤ s.ckptStep + 1 := by
  obtain ⟨hle, hmem⟩ := h.barrier step version hpassed
  exact Nat.le_trans hle (Nat.succ_le_succ (h.upTo version hmem))

theorem shaken_preserved (hforeground : config.usesBackgroundStage = false) (start : Nat) : PolicyPreserved (R := R) config
    (InTurn start) (Versioned config start) (Handshake start) Duty.Finds where
  quiet hsame h := h.quiet hsame
  quietLoc hsame h := h.same hsame.step hsame.broadcasts
  batching {s d d'} _ hd' _ := by
    cases d' with
    | running self task => cases hd'
    | applying self step cleared phase => cases hd'
    | _ => trivial
  ages _ := trivial
  aged _ := trivial
  broadcast {ds s step dir} hw hturn := by
    have hglob := hw.wise.glob.broadcast hw.known.wise.glob.start_le (fun _ _ h => hw.known.wise.glob.step_le h) hturn
    refine Shaken.carry hw.wise hw.known.wise hglob rfl fun d hahead hfinds =>
      hfinds.carry hahead ?_ fun version _ hwaits => .inl hwaits
    intro version _ hstable
    refine hstable.insert fun heq => ?_
    rcases hturn.2 with ⟨-, hcomplete⟩ | ⟨hnext, -⟩
    · exact hcomplete (heq ▸ hstable)
    · have hle : version ≤ lastBroadcast start s := hstable.le
      omega
  cleanBroadcast {ds s step} hw hturn := by
    obtain ⟨hglob, hle⟩ := hw.wise.glob.cleanBroadcast hturn
    refine Shaken.carry hw.wise hw.known.wise hglob rfl fun d hahead hfinds =>
      hfinds.carry hahead ?_ fun version _ hwaits => .inl hwaits
    exact fun version hlt hstable => hstable.erase (Nat.ne_of_lt (Nat.lt_of_le_of_lt hle hlt))
  beginGenerate {ds s fuel step} hw hturn := by
    have hstart := hw.known.wise.glob.start_le
    have hturn' : step = s.step ∨ (s.step ≤ start ∧ step = start) ∨ (step = s.step + 1 ∧ s.step ≤ s.ckptStep + 1) :=
      hturn.2.imp_right fun h => h.imp_right fun ⟨hnext, version, hpassed⟩ => ⟨hnext, hw.known.wise.glob.step_le hpassed⟩
    have hle : s.step ≤ step := by omega
    have hglob : Handshake start { s with calling := true, step := step } := by
      obtain ⟨hfirst, hahead, hkept, hcomplete, hbatch, horchestrator, hpassed⟩ := hw.wise.glob
      refine ⟨hfirst, hahead, hkept, hcomplete, ?_, ?_, fun k version h => Nat.le_trans (hpassed k version h) hle⟩
      · show lastBroadcast start s ≤ max step start + 1
        omega
      · show step ≤ s.ckptStep + 2
        omega
    refine (Shaken.carry hw.wise hw.known.wise hglob rfl fun d hahead hfinds => hfinds.carry hahead ?_ ?_).cons trivial
    · exact fun version _ hstable => hstable
    · -- an update that waits is for the step before this one
      intro version hahead hwaits
      refine .inl ?_
      show version = step - 1
      omega
  passBarrier {ds s} hw hnext := by
    have hglob : Handshake start s.passBarrier := by
      refine hw.wise.glob.same rfl rfl rfl fun step version hpassed => ?_
      rcases List.mem_append.1 hpassed with hpassed | hpassed
      · exact hw.wise.glob.passed step version hpassed
      · cases List.mem_singleton.1 hpassed
        exact Nat.le_refl _
    exact hw.wise.passBarrier hglob (fun _ hd => hd.same rfl rfl) trivial trivial
  beginEvaluate {ds s cancel} hw _ := by
    have hglob : Handshake start ({ s with calling := true }.clearReady.record .evalStarted) := by
      refine hw.wise.glob.same rfl rfl rfl fun step version hpassed => ?_
      exact hw.wise.glob.passed step version (passed_append hpassed nofun)
    exact (Shaken.keep hw.wise hglob rfl rfl rfl).cons trivial
  evaluated {ds s} hw := by
    have hglob : Handshake start (s.setReady.record .evalEnded) := by
      refine hw.wise.glob.same rfl rfl rfl fun step version hpassed => ?_
      exact hw.wise.glob.passed step version (passed_append hpassed nofun)
    exact Shaken.keep hw.wise hglob rfl rfl rfl
  startStage _ huses _ := by
    rw [hforeground] at huses
    cases huses
  startApply hw _ hbehind := hw.wise.glob.finds hbehind
  beginCommit _ huses := by
    rw [hforeground] at huses
    cases huses
  joinedStage _ _ := trivial
  committedStage hw := (hw.known.known.tasked.foreground rfl hforeground).elim
  abortCommit hw := (hw.known.known.tasked.foreground rfl hforeground).elim
  abortCommitReady _ := trivial
  agedCommit _ := trivial
  beginApply hw hstep := .inr (hw.wise.head.resolve_left hstep)
  beginWait {ds s self step} hw := by
    have hcleared : Shaken start (.running self (.apply step) :: ds) s.clearReady :=
      Shaken.keep hw.wise { hw.wise.glob with } rfl rfl rfl
    exact hcleared.move (.inl rfl)
  foundStable hw hdir hstable := .inr ⟨_, hdir, hstable⟩
  stagedApply h _ := .inr (h.resolve_left nofun)
  committedApply {ds s self step cleared} hw := by
    have hstable := hw.wise.head.resolve_left nofun
    have hglob : Handshake start ((s.record (.committed (toString step))).beginAgeing config step) :=
      hw.wise.glob.update hw.known.wise.head.1.ahead hstable rfl rfl rfl fun k version hpassed =>
        hw.wise.glob.passed k version (passed_append (passed_beginAgeing hpassed) nofun)
    exact (Shaken.keep hw.wise hglob rfl rfl rfl).move trivial
  updatedApply {ds s self step cleared} hw _ := by
    have hstable := hw.wise.head.resolve_left nofun
    have hglob : Handshake start (s.beginAgeing config step) :=
      hw.wise.glob.update hw.known.wise.head.1.ahead hstable rfl rfl rfl fun k version hpassed =>
        hw.wise.glob.passed k version (passed_beginAgeing hpassed)
    exact (Shaken.keep hw.wise hglob rfl rfl rfl).move trivial
  failApply {ds s self step cleared phase} hw := by
    have hready : Shaken start (.applying self step cleared phase :: ds) s.setReady :=
      Shaken.keep hw.wise { hw.wise.glob with } rfl rfl rfl
    exact ⟨trivial, hready.move trivial⟩
  foundFile _ := trivial
  stagedFile _ := trivial

omit [RolloutOutput R] in
/-- Nothing was broadcast after the version to start from. -/
theorem handshake_of_idle {start : Nat} {s : SchedulerState R} (h : Idle s) (hckpt : s.ckptStep = start)
    (hstep : s.step ≤ start)
    (hbroadcasts : ∀ version ∈ s.broadcasts.keys, version ≤ start) : Handshake start s := by
  have hlast : lastBroadcast start s = start :=
    Nat.le_antisymm (lastBroadcast_le_iff.2 ⟨Nat.le_refl _, hbroadcasts⟩) start_le_lastBroadcast
  refine ⟨?_, ?_, ?_, ?_, ?_, ?_, ?_⟩
  · rw [hlast, hckpt]
  · rw [hlast, hckpt]
    exact Nat.le_add_right _ _
  · rw [hlast, hckpt]
    exact fun version hlt hle => absurd hle (Nat.not_le.2 hlt)
  · rw [hckpt]
    exact fun hlt => absurd hlt (Nat.lt_irrefl _)
  · rw [hlast]
    exact Nat.le_succ_of_le (Nat.le_max_right _ _)
  · rw [hckpt]
    exact Nat.le_add_right_of_le hstep
  · intro step version hpassed
    rw [h.events] at hpassed
    cases hpassed

/-- **Main.** Without background staging, however the broadcasts, their removal, the updates and the batches of a run from
`start` interleave: the trainer is at most two versions ahead of the inference pool, every version the pool may still move to
is in the directory and complete once there is a later one, and the trainer removes none of them. -/
theorem broadcastHandshake (hforeground : config.usesBackgroundStage = false) {start : Nat} {c₀ c : SchedulerConfiguration R}
    {ls : List (SchedulerLabel R)} (hidle : Idle c₀.shared) (htasks : c₀.tasks = []) (hckpt : c₀.shared.ckptStep = start)
    (hstep : c₀.shared.step ≤ start) (hbroadcasts : ∀ version ∈ c₀.shared.broadcasts.keys, version ≤ start)
    (hrun : ((scheduler config).assuming (InTurn start)).Run c₀ ls c) :
    Handshake start c.shared ∧
      ∀ step, InTurn start (.arrive (.cleanBroadcast step)) c.shared → step ≤ c.shared.ckptStep := by
  have hloop : ∀ (a : SchedulerAction R) s, InTurn start a s → EventLoop a s := fun _ _ h => h.1
  have hordered := ordered_preserved (R := R) hforeground start
  have hversioned := (hordered.preserved (kept_preserved config) fun _ _ h => h).of_admits hloop
  have hshaken := (shaken_preserved (R := R) hforeground start).preserved hversioned hloop
  have hinit : Shaken start [] c₀.shared := DutyWise.of_idle hidle (handshake_of_idle hidle hckpt hstep hbroadcasts)
  obtain ⟨ds, -, hfinal⟩ := hshaken.run hrun htasks ⟨⟨kept_of_idle hidle, hckpt ▸ ordered_of_idle hidle⟩, hinit⟩
  exact ⟨hfinal.glob, fun step hturn => (hfinal.glob.cleanBroadcast hturn).2⟩

/-! ### The first version -/

section Example

def isStableAt (s : SchedulerState R) (version : Nat) : Bool := (s.broadcasts.get? version).any BroadcastDir.stable

omit [RolloutOutput R] in
theorem stableAt_iff {s : SchedulerState R} {version : Nat} : isStableAt s version = true ↔ StableAt s version := by
  unfold isStableAt StableAt
  rw [Option.any_eq_true]

def hasPassed (s : SchedulerState R) (step : Nat) : Bool :=
  s.events.any fun event =>
    match event with
    | .passedBarrier step' _ => step' = step
    | _ => false

omit [RolloutOutput R] in
theorem exists_passed {s : SchedulerState R} {step : Nat} (h : hasPassed s step = true) :
    ∃ version, .passedBarrier step version ∈ s.events := by
  obtain ⟨event, hevent, hpassed⟩ := List.any_eq_true.1 h
  cases event with
  | passedBarrier step' version =>
      obtain rfl : step' = step := of_decide_eq_true hpassed
      exact ⟨version, hevent⟩
  | _ => cases hpassed

/-- `InTurn`, decided; an older broadcast is always removed. -/
def takesTurn (start : Nat) (s : SchedulerState R) (action : SchedulerAction R) : Bool :=
  allows s action &&
    match action with
    | .arrive (.generateBatch _ step) =>
        step = s.step || (s.step ≤ start && step = start) || (step = s.step + 1 && hasPassed s s.step)
    | .arrive (.broadcast step dir) =>
        (step = lastBroadcast start s && (!isStableAt s step || dir.stable)) ||
          (step = lastBroadcast start s + 1 && (lastBroadcast start s ≤ start || isStableAt s (lastBroadcast start s)) &&
            hasPassed s (lastBroadcast start s))
    | .arrive (.cleanBroadcast step) => 0 < lastBroadcast start s && maybeClean (lastBroadcast start s) none = some step
    | _ => true

theorem inTurn_of_takesTurn {start : Nat} {s : SchedulerState R} {action : SchedulerAction R}
    (h : takesTurn start s action = true) : InTurn start action s := by
  obtain ⟨hallows, hturn⟩ := Bool.and_eq_true_iff.1 h
  refine ⟨eventLoop_of_allows hallows, ?_⟩
  cases action with
  | arrive q =>
      cases q with
      | generateBatch fuel step =>
          simp only [Bool.or_eq_true, Bool.and_eq_true, decide_eq_true_eq] at hturn
          rcases hturn with (hsame | hfirst) | ⟨hnext, hpassed⟩
          · exact .inl hsame
          · exact .inr (.inl hfirst)
          · exact .inr (.inr ⟨hnext, exists_passed hpassed⟩)
      | broadcast step dir =>
          simp only [Bool.or_eq_true, Bool.and_eq_true, Bool.not_eq_true', decide_eq_true_eq] at hturn
          rcases hturn with ⟨hsame, hstable⟩ | ⟨⟨hnext, hcomplete⟩, hpassed⟩
          · refine .inl ⟨hsame, fun hold => hstable.resolve_left fun hnot => ?_⟩
            rw [stableAt_iff.2 hold] at hnot
            cases hnot
          · exact .inr ⟨hnext, fun hlt => stableAt_iff.1 (hcomplete.resolve_left (Nat.not_le.2 hlt)), exists_passed hpassed⟩
      | cleanBroadcast step =>
          simp only [Bool.and_eq_true, decide_eq_true_eq] at hturn
          exact ⟨hturn.1, none, hturn.2⟩
      | _ => trivial
  | answer q e a => trivial
  | acquire q => trivial

def turnDirector (config : SchedulerConfig) (start : Nat) : Director (scheduler (R := R) config) (InTurn start) where
  allows action s := takesTurn start s action
  answer := answers
  admits_of_allows _ := trivial
  assumes_of_allows := inTurn_of_takesTurn
  world_of_answer := world_of_answers

/-- The first version is committed, the trainer removes the directory of the base, and the next batch begins. -/
def firstVersion : List (Cue Await Answer (Job TaggedRollout)) := commitOnce ++ [.arrive (.cleanBroadcast 0)]

theorem broadcastHandshake_firstVersion : ∃ c : SchedulerConfiguration TaggedRollout,
    c.shared.ckptStep = 1 ∧ lastBroadcast 0 c.shared = 1 ∧ Handshake 0 c.shared := by
  have hplay : ((turnDirector deltaOptions 0).play firstVersion ⟨idleState, []⟩).map
      (fun c => (c.shared.ckptStep, lastBroadcast 0 c.shared)) = some (1, 1) := rfl
  obtain ⟨c, hc, hversions⟩ := Option.map_eq_some_iff.1 hplay
  obtain ⟨ls, hrun⟩ := Director.run_of_play hc
  have hkeys : ∀ version ∈ idleState.broadcasts.keys, version ≤ 0 := List.forall_mem_nil _
  have hstep : idleState.step ≤ 0 := Nat.le_refl _
  have hckpt : idleState.ckptStep = 0 := rfl
  have hshake := broadcastHandshake rfl idle_idleState rfl hckpt hstep hkeys hrun
  exact ⟨c, congrArg Prod.fst hversions, congrArg Prod.snd hversions, hshake.1⟩

end Example

end AuroraRl.Orchestrator
