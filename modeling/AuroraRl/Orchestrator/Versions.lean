import AuroraRl.Orchestrator.Policy

/-!
# The versions the scheduler moves to

* `updates`, `commits` : the versions the scheduler moved to and those whose commit the inference pool acknowledged;
* `VersionOrder` : what is to hold of them when updates are not staged in the background;
* `Duty.Ahead` : an update under way is ahead of the version the scheduler is on;
* `ordered_preserved`, `versionOrder` : it holds in every state of every run.
-/

namespace AuroraRl.Orchestrator
open Coroutine Transition

variable {R : Type}

/-! ## Versions -/

def SchedulerEvent.updated? : SchedulerEvent R → Option Nat
  | .updated step => some step
  | _ => none

def SchedulerEvent.committed? : SchedulerEvent R → Option String
  | .committed version => some version
  | _ => none

/-- The versions the scheduler moved to, oldest first. -/
def updates (events : List (SchedulerEvent R)) : List Nat := events.filterMap SchedulerEvent.updated?

/-- The versions whose commit the inference pool acknowledged, oldest first. -/
def commits (events : List (SchedulerEvent R)) : List String := events.filterMap SchedulerEvent.committed?

theorem updates_append (events : List (SchedulerEvent R)) (event : SchedulerEvent R) :
    updates (events ++ [event]) = updates events ++ event.updated?.toList := by
  unfold updates
  rw [List.filterMap_append]
  cases h : event.updated? <;> simp [h]

theorem commits_append (events : List (SchedulerEvent R)) (event : SchedulerEvent R) :
    commits (events ++ [event]) = commits events ++ event.committed?.toList := by
  unfold commits
  rw [List.filterMap_append]
  cases h : event.committed? <;> simp [h]

theorem updates_policyEvents (events : List (SchedulerEvent R)) : updates (policyEvents events) = updates events :=
  filterMap_policyEvents (fun event h => by cases event <;> first | rfl | cases h) events

theorem commits_policyEvents (events : List (SchedulerEvent R)) : commits (policyEvents events) = commits events :=
  filterMap_policyEvents (fun event h => by cases event <;> first | rfl | cases h) events

/-- The scheduler started on version `start`, only moves on, one version at a time in delta mode, and exactly to the
versions whose commit was acknowledged; past a barrier it was at most one version behind. -/
structure VersionOrder (config : SchedulerConfig) (start : Nat) (s : SchedulerState R) : Prop where
  increasing : (start :: updates s.events).Pairwise (· < ·)
  last : (start :: updates s.events).getLast? = some s.ckptStep
  upTo : ∀ version ∈ start :: updates s.events, version ≤ s.ckptStep
  consecutive : config.mode = .delta → updates s.events = List.range' (start + 1) (s.ckptStep - start)
  committed : commits s.events = if config.stageCommit then (updates s.events).map toString else []
  barrier : ∀ step version, .passedBarrier step version ∈ s.events →
    step ≤ version + 1 ∧ version ∈ start :: updates s.events

/-! ## Updates under way -/

/-- A version to move to next. -/
structure AheadOf (config : SchedulerConfig) (s : SchedulerState R) (version : Nat) : Prop where
  ahead : s.ckptStep < version
  next : config.mode = .delta → version = s.ckptStep + 1

/-- An update under way is to a next version. -/
def Duty.Ahead (config : SchedulerConfig) (s : SchedulerState R) : Duty R → Prop
  | .running _ (.apply step) => AheadOf config s step
  | .applying _ step _ phase => AheadOf config s step ∧ (phase = .staged → config.stageCommit = true)
  | _ => True

section

variable {config : SchedulerConfig} {start : Nat} {ds : List (Duty R)} {d : Duty R} {s s' : SchedulerState R} {self : TaskId}

theorem Tasked.not_applies (h : Tasked config (d :: ds) s) (hd : d.role = .applies self) (self' : TaskId) :
    .applies self' ∉ roles ds s := by
  intro hmem
  have hself := (h.updating self (Tasked.mem_roles_cons.2 (Or.inl hd.symm))).1
  have hself' := (h.updating self' (Tasked.mem_roles_cons.2 (Or.inr hmem))).1
  obtain rfl : self = self' := Option.some.inj (hself.symm.trans hself')
  have hperm := Tasked.selves_cons_perm d ds s
  rw [hd] at hperm
  have hnot := (List.nodup_cons.1 (hperm.nodup_iff.1 h.apart)).1
  exact hnot (List.mem_filterMap.2 ⟨_, hmem, rfl⟩)

theorem Duty.ahead_of_role (h : ∀ self, d.role ≠ .applies self) : d.Ahead config s := by
  cases d with
  | running self task =>
      cases task with
      | apply step => exact absurd rfl (h self)
      | _ => trivial
  | applying self step cleared phase => exact absurd rfl (h self)
  | _ => trivial

/-- What the other tasks do does not depend on the version. -/
theorem Tasked.ahead_others (h : Tasked config (d :: ds) s) (hd : d.role = .applies self) (s' : SchedulerState R) :
    (∀ e ∈ s.created, (Duty.running e.1 e.2 : Duty R).Ahead config s') ∧ ∀ d' ∈ ds, d'.Ahead config s' := by
  refine ⟨fun e he => Duty.ahead_of_role fun self' hrole => ?_, fun d' hd' => Duty.ahead_of_role fun self' hrole => ?_⟩
  · rw [Duty.role_running] at hrole
    exact h.not_applies hd self' (List.mem_append_left _ (List.mem_map.2 ⟨e, he, hrole⟩))
  · exact h.not_applies hd self' (List.mem_append_right _ (List.mem_map.2 ⟨d', hd', hrole⟩))

theorem aheadOf_computeNextCkptStep (h : s.ckptStep < computeNextCkptStep config s) :
    AheadOf config s (computeNextCkptStep config s) := by
  refine ⟨h, fun hdelta => ?_⟩
  unfold computeNextCkptStep at h ⊢
  simp only [hdelta, if_true] at h ⊢
  omega

/-- Past the barrier the scheduler is at most one version behind. -/
theorem step_le_of_computeNextCkptStep (h : computeNextCkptStep config s ≤ s.ckptStep) : s.step ≤ s.ckptStep + 1 := by
  unfold computeNextCkptStep at h
  dsimp only at h
  split_ifs at h <;> omega

theorem Duty.Ahead.same (h : d.Ahead config s) (hckpt : s'.ckptStep = s.ckptStep) : d.Ahead config s' := by
  have haheadOf : ∀ step, AheadOf config s step → AheadOf config s' step := fun step h =>
    ⟨hckpt ▸ h.ahead, hckpt ▸ h.next⟩
  cases d with
  | running self task =>
      cases task with
      | apply step => exact haheadOf step h
      | _ => trivial
  | applying self step cleared phase => exact ⟨haheadOf step h.1, h.2⟩
  | _ => trivial

theorem VersionOrder.same (h : VersionOrder config start s) (hckpt : s'.ckptStep = s.ckptStep)
    (hupdates : updates s'.events = updates s.events) (hcommits : commits s'.events = commits s.events)
    (hbarriers : ∀ step version, .passedBarrier step version ∈ s'.events → .passedBarrier step version ∈ s.events) :
    VersionOrder config start s' := by
  obtain ⟨hincreasing, hlast, hupTo, hconsecutive, hcommitted, hbarrier⟩ := h
  refine ⟨hupdates ▸ hincreasing, ?_, ?_, ?_, ?_, fun step version hpassed => ?_⟩
  · rw [hupdates, hckpt]
    exact hlast
  · rw [hupdates, hckpt]
    exact hupTo
  · rw [hupdates, hckpt]
    exact hconsecutive
  · rw [hcommits, hupdates]
    exact hcommitted
  · rw [hupdates]
    exact hbarrier step version (hbarriers step version hpassed)

theorem VersionOrder.quiet (h : VersionOrder config start s) (hsame : SamePolicy s s') : VersionOrder config start s' := by
  refine h.same hsame.ckptStep ?_ ?_ fun step version hpassed => ?_
  · rw [← updates_policyEvents, hsame.events, updates_policyEvents]
  · rw [← commits_policyEvents, hsame.events, commits_policyEvents]
  · exact (mem_policyEvents rfl).1 (hsame.events ▸ (mem_policyEvents rfl).2 hpassed)

theorem passed_append {events : List (SchedulerEvent R)} {event : SchedulerEvent R} {step version : Nat}
    (h : .passedBarrier step version ∈ events ++ [event]) (hne : ∀ step version, event ≠ .passedBarrier step version) :
    .passedBarrier step version ∈ events := by
  rcases List.mem_append.1 h with h | h
  · exact h
  · exact absurd (List.mem_singleton.1 h).symm (hne step version)

theorem VersionOrder.record (h : VersionOrder config start s) (event : SchedulerEvent R) (hupdated : event.updated? = none)
    (hcommitted : event.committed? = none) (hpassed : ∀ step version, event ≠ .passedBarrier step version) :
    VersionOrder config start (s.record event) := by
  refine h.same rfl ?_ ?_ fun step version hmem => ?_
  · refine (updates_append _ _).trans ?_
    rw [hupdated]
    exact List.append_nil _
  · refine (commits_append _ _).trans ?_
    rw [hcommitted]
    exact List.append_nil _
  · exact passed_append hmem hpassed

theorem VersionOrder.update {version : Nat} (h : VersionOrder config start s) (hahead : AheadOf config s version)
    (hckpt : s'.ckptStep = version) (hupdates : updates s'.events = updates s.events ++ [version])
    (hcommits : commits s'.events = commits s.events ++ if config.stageCommit then [toString version] else [])
    (hbarriers : ∀ step version, .passedBarrier step version ∈ s'.events → .passedBarrier step version ∈ s.events) :
    VersionOrder config start s' := by
  have hlist : start :: updates s'.events = (start :: updates s.events) ++ [version] := by rw [hupdates]; rfl
  have hstart := h.upTo start List.mem_cons_self
  refine ⟨?_, ?_, ?_, ?_, ?_, ?_⟩
  · rw [hlist]
    refine List.pairwise_append.2 ⟨h.increasing, List.pairwise_singleton _ _, fun a ha b hb => ?_⟩
    cases List.mem_singleton.1 hb
    exact Nat.lt_of_le_of_lt (h.upTo a ha) hahead.ahead
  · rw [hlist, List.getLast?_concat, hckpt]
  · rw [hlist, hckpt]
    intro a ha
    rcases List.mem_append.1 ha with ha | ha
    · exact Nat.le_of_lt (Nat.lt_of_le_of_lt (h.upTo a ha) hahead.ahead)
    · cases List.mem_singleton.1 ha
      exact Nat.le_refl _
  · intro hdelta
    have hnext := hahead.next hdelta
    have hcount : s'.ckptStep - start = (s.ckptStep - start) + 1 := by omega
    rw [hupdates, h.consecutive hdelta, hcount, List.range'_1_concat]
    congr 2
    omega
  · rw [hcommits, h.committed, hupdates, List.map_append]
    split_ifs <;> rfl
  · intro step v hpassed
    obtain ⟨hle, hmem⟩ := h.barrier step v (hbarriers step v hpassed)
    rw [hlist]
    exact ⟨hle, List.mem_append_left _ hmem⟩

theorem VersionOrder.passBarrier (h : VersionOrder config start s) (hnext : computeNextCkptStep config s ≤ s.ckptStep) :
    VersionOrder config start s.passBarrier := by
  have hupdates : updates s.passBarrier.events = updates s.events := by
    show updates (s.events ++ [.passedBarrier s.step s.ckptStep]) = _
    rw [updates_append]
    exact List.append_nil _
  have hcommits : commits s.passBarrier.events = commits s.events := by
    show commits (s.events ++ [.passedBarrier s.step s.ckptStep]) = _
    rw [commits_append]
    exact List.append_nil _
  obtain ⟨hincreasing, hlast, hupTo, hconsecutive, hcommitted, hbarrier⟩ := h
  refine ⟨hupdates ▸ hincreasing, hupdates ▸ hlast, hupdates ▸ hupTo, hupdates ▸ hconsecutive, ?_,
    fun step version hpassed => ?_⟩
  · rw [hcommits, hupdates]
    exact hcommitted
  · rw [hupdates]
    rcases List.mem_append.1 hpassed with hpassed | hpassed
    · exact hbarrier step version hpassed
    · cases List.mem_singleton.1 hpassed
      exact ⟨step_le_of_computeNextCkptStep hnext, List.mem_of_getLast? hlast⟩

section Updates

variable {events : List (SchedulerEvent R)} {version : Nat} {requests : List (TaskId × InflightRequest)}

theorem updates_beginAgeing : updates (events ++ [.updated version] ++ [.ageing requests]) = updates events ++ [version] := by
  rw [updates_append, updates_append]
  exact List.append_nil _

theorem commits_beginAgeing : commits (events ++ [.updated version] ++ [.ageing requests]) = commits events := by
  rw [commits_append, commits_append]
  exact (List.append_nil _).trans (List.append_nil _)

theorem passed_beginAgeing {step version' : Nat}
    (h : .passedBarrier step version' ∈ events ++ [.updated version] ++ [.ageing requests]) :
    .passedBarrier step version' ∈ events := by
  simpa using h

end Updates

/-- The version of an update is committed and moved to. -/
theorem VersionOrder.commit {version : Nat} (h : VersionOrder config start s) (hahead : AheadOf config s version)
    (hstage : config.stageCommit = true) :
    VersionOrder config start ((s.record (.committed (toString version))).beginAgeing config version) := by
  refine h.update hahead rfl ?_ ?_ fun step v hpassed => ?_
  · refine updates_beginAgeing.trans ?_
    show updates (s.events ++ [.committed (toString version)]) ++ [version] = _
    rw [updates_append]
    exact congrArg (· ++ [version]) (List.append_nil _)
  · refine commits_beginAgeing.trans ?_
    show commits (s.events ++ [.committed (toString version)]) = _
    rw [commits_append, if_pos hstage]
    rfl
  · exact passed_append (passed_beginAgeing hpassed) nofun

theorem VersionOrder.direct {version : Nat} (h : VersionOrder config start s) (hahead : AheadOf config s version)
    (hdirect : config.stageCommit = false) : VersionOrder config start (s.beginAgeing config version) := by
  refine h.update hahead rfl updates_beginAgeing ?_ fun step v hpassed => passed_beginAgeing hpassed
  refine commits_beginAgeing.trans ?_
  rw [hdirect]
  exact (List.append_nil _).symm

theorem Tasked.foreground (h : Tasked config (d :: ds) s) (hd : d.role = .commits)
    (hforeground : config.usesBackgroundStage = false) : False := by
  have hbackground := h.committing (Tasked.mem_roles_cons.2 (Or.inl hd.symm))
  rw [hforeground] at hbackground
  cases hbackground

end

/-! ## Every operation -/

variable [RolloutOutput R] {config : SchedulerConfig}

/-- The version order, and the updates under way. -/
abbrev Ordered (config : SchedulerConfig) (start : Nat) : List (Duty R) → SchedulerState R → Prop :=
  DutyWise (VersionOrder config start) (Duty.Ahead config)

omit [RolloutOutput R] in
theorem Ordered.keep {start : Nat} {ds : List (Duty R)} {s s' : SchedulerState R} (h : Ordered config start ds s)
    (hglob : VersionOrder config start s') (hckpt : s'.ckptStep = s.ckptStep) (hcreated : s'.created = s.created) :
    Ordered config start ds s' :=
  h.change (fun _ he => hcreated ▸ he) hglob fun _ hd => hd.same hckpt

theorem ordered_preserved (hforeground : config.usesBackgroundStage = false) (start : Nat) : PolicyPreserved (R := R) config
    EventLoop (Kept config) (VersionOrder config start) (Duty.Ahead config) where
  quiet hsame h := h.quiet hsame
  quietLoc hsame h := h.same hsame.ckptStep
  batching {s d d'} _ hd' _ := by
    cases d' with
    | running self task => cases hd'
    | applying self step cleared phase => cases hd'
    | _ => trivial
  ages _ := trivial
  aged _ := trivial
  broadcast hw _ := Ordered.keep hw.wise { hw.wise.glob with } rfl rfl
  cleanBroadcast hw _ := Ordered.keep hw.wise { hw.wise.glob with } rfl rfl
  beginGenerate {ds s fuel step} hw _ := by
    have hcalling : Ordered config start ds { s with calling := true, step := step } :=
      Ordered.keep hw.wise { hw.wise.glob with } rfl rfl
    exact hcalling.cons trivial
  passBarrier hw hnext := hw.wise.passBarrier (hw.wise.glob.passBarrier hnext) (fun _ hd => hd.same rfl) trivial trivial
  beginEvaluate {ds s cancel} hw _ := by
    have hcalling : VersionOrder config start { s with calling := true }.clearReady := { hw.wise.glob with }
    have hstarted := hcalling.record .evalStarted rfl rfl nofun
    exact (Ordered.keep hw.wise hstarted rfl rfl).cons trivial
  evaluated {ds s} hw := by
    have hready : VersionOrder config start s.setReady := { hw.wise.glob with }
    have hended := hready.record .evalEnded rfl rfl nofun
    exact Ordered.keep hw.wise hended rfl rfl
  startStage _ huses _ := by
    rw [hforeground] at huses
    cases huses
  startApply _ _ hbehind := aheadOf_computeNextCkptStep hbehind
  beginCommit _ huses := by
    rw [hforeground] at huses
    cases huses
  joinedStage _ _ := trivial
  committedStage hw := (hw.known.tasked.foreground rfl hforeground).elim
  abortCommit hw := (hw.known.tasked.foreground rfl hforeground).elim
  abortCommitReady _ := trivial
  agedCommit _ := trivial
  beginApply hw _ := ⟨hw.wise.head, nofun⟩
  beginWait {ds s self step} hw := by
    have hcleared : Ordered config start (.running self (.apply step) :: ds) s.clearReady :=
      Ordered.keep hw.wise { hw.wise.glob with } rfl rfl
    exact hcleared.move ⟨hcleared.head, nofun⟩
  foundStable hw _ _ := ⟨hw.wise.head.1, nofun⟩
  stagedApply h hstage := ⟨h.1, fun _ => hstage⟩
  committedApply {ds s self step cleared} hw := by
    obtain ⟨hahead, hstage⟩ := hw.wise.head
    obtain ⟨hcreated, hothers⟩ := hw.known.tasked.ahead_others rfl
      ((s.record (.committed (toString step))).beginAgeing config step)
    exact ⟨hw.wise.glob.commit hahead (hstage rfl), hcreated, List.forall_mem_cons.2 ⟨trivial, hothers⟩⟩
  updatedApply {ds s self step cleared} hw hdirect := by
    obtain ⟨hcreated, hothers⟩ := hw.known.tasked.ahead_others rfl (s.beginAgeing config step)
    exact ⟨hw.wise.glob.direct hw.wise.head.1 hdirect, hcreated, List.forall_mem_cons.2 ⟨trivial, hothers⟩⟩
  failApply {ds s self step cleared phase} hw := by
    have hready : Ordered config start (.applying self step cleared phase :: ds) s.setReady :=
      Ordered.keep hw.wise { hw.wise.glob with } rfl rfl
    exact ⟨trivial, hready.move trivial⟩
  foundFile _ := trivial
  stagedFile _ := trivial

omit [RolloutOutput R] in
theorem versionOrder_of_idle {s : SchedulerState R} (h : Idle s) : VersionOrder config s.ckptStep s := by
  have hupdates : updates s.events = [] := by rw [h.events]; rfl
  refine ⟨?_, ?_, ?_, fun _ => ?_, ?_, fun step version hpassed => ?_⟩
  · rw [hupdates]
    exact List.pairwise_singleton _ _
  · rw [hupdates]
    rfl
  · rw [hupdates]
    intro version hversion
    cases List.mem_singleton.1 hversion
    exact Nat.le_refl _
  · rw [hupdates, Nat.sub_self]
    rfl
  · rw [hupdates, h.events]
    exact (ite_self _).symm
  · rw [h.events] at hpassed
    cases hpassed

omit [RolloutOutput R] in
theorem ordered_of_idle {s : SchedulerState R} (h : Idle s) : Ordered config s.ckptStep [] s :=
  DutyWise.of_idle h (versionOrder_of_idle h)

/-- **Main.** Without background staging, whatever the update loop, its cancellation, the batches and the evaluations do in
whatever order: the scheduler only moves to later versions, one at a time in delta mode, exactly those had their commits
acknowledged, and it was at most one version behind at every barrier it passed. -/
theorem versionOrder (hforeground : config.usesBackgroundStage = false) {c₀ c : SchedulerConfiguration R}
    {ls : List (SchedulerLabel R)} (hidle : Idle c₀.shared) (htasks : c₀.tasks = [])
    (hrun : (schedulerSystem config).Run c₀ ls c) : VersionOrder config c₀.shared.ckptStep c.shared := by
  have hordered := ordered_preserved (R := R) hforeground c₀.shared.ckptStep
  have hpreserved := hordered.preserved (kept_preserved config) fun _ _ h => h
  obtain ⟨ds, -, hordered⟩ := hpreserved.run hrun htasks ⟨kept_of_idle hidle, ordered_of_idle hidle⟩
  exact hordered.glob

/-! ### A delta is staged and committed -/

section Example

/-- Deltas, staged and committed in one go. -/
def deltaOptions : SchedulerConfig := { exampleOptions with mode := .delta, stageCommit := true }

/-- The update loop finds the first version while a batch is gathered. -/
def commitOnce : List (Cue Await Answer (Job TaggedRollout)) :=
  beginBatch ++ [.arrive (.broadcast 1 ⟨true, false⟩), .arrive (.policyTask 4 0 .updateLoop),
    .arrive (.policyTask 4 3 (.apply 1)), .answer 2 (.stageWeights 1 "1" .delta (some "0") ⟨false, none, false⟩) (.ok ()),
    .answer 2 (.commitWeights "1" .delta) (.ok ())]

theorem versionOrder_commitOnce : ∃ c : SchedulerConfiguration TaggedRollout,
    updates c.shared.events = [1] ∧ commits c.shared.events = ["1"] ∧ VersionOrder deltaOptions 0 c.shared := by
  have hplay : ((director deltaOptions).play commitOnce ⟨idleState, []⟩).map
      (fun c => (updates c.shared.events, commits c.shared.events)) = some ([1], ["1"]) := rfl
  obtain ⟨c, hc, hversions⟩ := Option.map_eq_some_iff.1 hplay
  obtain ⟨ls, hrun⟩ := Director.run_of_play hc
  exact ⟨c, congrArg Prod.fst hversions, congrArg Prod.snd hversions, versionOrder rfl idle_idleState rfl hrun⟩

end Example

end AuroraRl.Orchestrator
