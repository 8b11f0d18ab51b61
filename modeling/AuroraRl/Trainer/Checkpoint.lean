import AuroraRl.Lib.Barrier
import AuroraRl.Lib.Python
import AuroraRl.Lib.Transition
import Mathlib.Data.List.Infix
import Mathlib.Data.List.Sort
import Mathlib.Logic.Function.Basic

/-!
# Saving the checkpoints of all runs

* `SaveOp` : what may raise inside the `try` block of `save`, and in which order;
* `CheckpointConfig.maybeClean`, `shouldSave` : the bookkeeping of one run on one rank;
* `Rank.save` : `MultiCheckpointManager.save` on one rank, with the barriers it executes;
* `Fleet`, `fleetSystem` : all ranks through training, deletions, creations, saves and cleanings;
* `Fleet.Even` : the ranks save the same runs, and of each they fail before its inner barrier together or not at all;
* `checkpointBarriers` : the ranks execute one sequence of barriers iff every save meets an even fleet.
-/

namespace AuroraRl.Trainer
open Transition Barrier

/-! ## One run on one rank -/

/-- The `ckpt` section of a run's configuration. -/
structure CheckpointConfig where
  interval : Option Nat
  keepLast : Option Nat
  keepInterval : Option Nat

def shouldSave (ckpt : Option CheckpointConfig) (ckptSteps : List Nat) (step : Nat) : Bool :=
  match ckpt.bind (·.interval) with
  | none => false
  | some interval => if step ≤ 0 ∨ step % interval ≠ 0 then false else step ∉ ckptSteps

namespace CheckpointConfig

variable (config : CheckpointConfig)

/-- The steps `maybe_clean` keeps. -/
def stepsToKeep (ckptSteps : List Nat) : List Nat :=
  (match config.keepLast with
    | some k => ckptSteps.drop (ckptSteps.length - k)
    | none => []) ++
  match config.keepInterval with
  | some k => ckptSteps.filter (· % k = 0)
  | none => []

/-- `CheckpointManager.maybe_clean`: what is left of the list of saved steps. -/
def maybeClean (ckptSteps : List Nat) : Except PyException (List Nat) :=
  if config.keepLast = none ∧ config.keepInterval = none then .ok ckptSteps
  else if ¬ ckptSteps.Pairwise (· ≤ ·) then .error ⟨.assertionError, ""⟩
  else .ok (ckptSteps.filter (· ∈ config.stepsToKeep ckptSteps))

end CheckpointConfig

/-! ## `save` on one rank -/

/-- The operations of the `try` block that may raise; `cloneParameters` is all that comes before the directory is
made. The master alone copies the broadcast folder and writes `STABLE`. -/
inductive SaveOp
  | cloneParameters
  | makeDirectory
  | saveState
  | copyBroadcast
  | markStable
  deriving DecidableEq, Repr

/-- What the operations raise on one rank for one run. -/
abbrev Faults := SaveOp → Option PyException

/-- The call sites of `dist.barrier()`. -/
inductive BarrierSite
  | written (idx : Nat)
  | attempted (idx : Nat)
  | finished
  deriving DecidableEq, Repr

/-- The tables of the run manager that `save` reads; every rank holds the same after a synchronisation. -/
structure RunTables where
  usedIdxs : List Nat
  nodup : usedIdxs.Nodup
  ckpt : Nat → Option CheckpointConfig
  step : Nat → Nat

/-- One rank: the barriers it has executed, and the list of saved steps of each of its managers. -/
structure Rank where
  executed : List BarrierSite
  ckptSteps : Nat → List Nat

namespace Rank

abbrev M := StateM Rank

def barrier (site : BarrierSite) : M Unit := modify fun k => { k with executed := k.executed ++ [site] }

/-- An operation of the `try` block. -/
def perform (fault : Option PyException) : ExceptT PyException M Unit :=
  match fault with
  | some e => throw e
  | none => pure ()

def appendStep (idx step : Nat) : M Unit :=
  modify fun k => { k with ckptSteps := Function.update k.ckptSteps idx (k.ckptSteps idx ++ [step]) }

/-- The files of the checkpoint. The master copies the broadcast folder too: a missing one is only logged. -/
def writeFiles (isMaster : Bool) (faults : Faults) : ExceptT PyException M Unit := do
  perform (faults .cloneParameters)
  perform (faults .makeDirectory)
  perform (faults .saveState)
  if isMaster then
    tryCatch (perform (faults .copyBroadcast)) fun e => if e.kind = .fileNotFoundError then pure () else throw e

/-- The `try` block of `save`. -/
def trySave (isMaster : Bool) (faults : Faults) (idx step : Nat) : ExceptT PyException M Unit := do
  writeFiles isMaster faults
  barrier (.written idx)
  if isMaster then
    perform (faults .markStable)
  appendStep idx step

/-- One turn of the loop of `save`: both `except` clauses log and go on. -/
def saveRun (isMaster : Bool) (faults : Faults) (ckpt : Option CheckpointConfig) (step idx : Nat) : M Unit := do
  if shouldSave ckpt ((← get).ckptSteps idx) step then
    let _ ← (trySave isMaster faults idx step).run
    barrier (.attempted idx)

def save (isMaster : Bool) (faults : Nat → Faults) (tables : RunTables) : M Unit := do
  tables.usedIdxs.forM fun idx => saveRun isMaster (faults idx) (tables.ckpt idx) (tables.step idx) idx
  barrier .finished

/-! ## What one `save` executes -/

/-- What the copy of the broadcast folder lets through. -/
def copyFault (faults : Faults) : Option PyException :=
  (faults .copyBroadcast).filter (·.kind ≠ .fileNotFoundError)

/-- Some operation before the inner barrier raises out of the `try` block. -/
def raisesEarly (isMaster : Bool) (faults : Faults) : Bool :=
  (faults .cloneParameters).isSome || (faults .makeDirectory).isSome || (faults .saveState).isSome ||
    isMaster && (copyFault faults).isSome

/-- The barriers of the `try` block. -/
def tryBarriers (isMaster : Bool) (faults : Faults) (idx : Nat) : List BarrierSite :=
  if raisesEarly isMaster faults then [] else [.written idx]

/-- An exception ends the block where it is raised; what was done before it stays. -/
theorem bind_run {α β : Type} (x : ExceptT PyException M α) (f : α → ExceptT PyException M β) (k : Rank) :
    (x >>= f).run k =
      match x.run k with
      | (.ok a, k') => (f a).run k'
      | (.error e, k') => (.error e, k') := by
  show (match x.run k with
    | (y, k') => ExceptT.bindCont f y k') = _
  obtain ⟨y, k'⟩ := x.run k
  cases y <;> rfl

theorem perform_run (fault : Option PyException) (k : Rank) :
    (perform fault).run k = (fault.elim (.ok ()) .error, k) := by
  cases fault <;> rfl

theorem copyBroadcast_eq (faults : Faults) :
    (tryCatch (perform (faults .copyBroadcast)) fun e =>
      if e.kind = .fileNotFoundError then pure () else throw e) = perform (copyFault faults) := by
  unfold copyFault
  cases faults .copyBroadcast with
  | none => rfl
  | some e =>
      funext k
      by_cases h : e.kind = .fileNotFoundError
      · rw [Option.filter_some, if_neg (by simp [h])]
        show (if e.kind = .fileNotFoundError then _ else _ : ExceptT PyException M Unit).run k = _
        rw [if_pos h]
        rfl
      · rw [Option.filter_some, if_pos (by simp [h])]
        show (if e.kind = .fileNotFoundError then _ else _ : ExceptT PyException M Unit).run k = _
        rw [if_neg h]
        rfl

/-- The files fail iff an early operation raises, and touch no barrier and no list. -/
theorem writeFiles_run (isMaster : Bool) (faults : Faults) (k : Rank) :
    ∃ x, (writeFiles isMaster faults).run k = (x, k) ∧ x.isOk = !raisesEarly isMaster faults := by
  unfold writeFiles raisesEarly
  rw [copyBroadcast_eq]
  simp only [bind_run, perform_run]
  cases faults .cloneParameters with
  | some e => exact ⟨_, rfl, rfl⟩
  | none =>
      cases faults .makeDirectory with
      | some e => exact ⟨_, rfl, rfl⟩
      | none =>
          cases faults .saveState with
          | some e => exact ⟨_, rfl, rfl⟩
          | none =>
              cases isMaster
              · exact ⟨_, rfl, rfl⟩
              · refine ⟨_, perform_run (copyFault faults) k, ?_⟩
                cases copyFault faults <;> rfl

theorem trySave_executed (isMaster : Bool) (faults : Faults) (idx step : Nat) (k : Rank) :
    ((trySave isMaster faults idx step).run k).2.executed = k.executed ++ tryBarriers isMaster faults idx := by
  obtain ⟨x, hx, hok⟩ := writeFiles_run isMaster faults k
  unfold trySave tryBarriers
  rw [bind_run, hx]
  cases x with
  | error e =>
      have hearly : raisesEarly isMaster faults = true := by simpa [Except.isOk, Except.toBool] using hok
      rw [if_pos hearly, List.append_nil]
  | ok u =>
      have hearly : raisesEarly isMaster faults = false := by simpa [Except.isOk, Except.toBool] using hok
      rw [hearly]
      cases isMaster
      · rfl
      · show ((perform (faults .markStable) >>= fun _ => (liftM (appendStep idx step) : ExceptT PyException M Unit)).run
          { k with executed := k.executed ++ [.written idx] }).2.executed = _
        rw [bind_run, perform_run]
        cases faults .markStable <;> rfl


/-- The lists of the other runs stay as they are. -/
theorem trySave_ckptSteps (isMaster : Bool) (faults : Faults) (idx step : Nat) (k : Rank) {j : Nat} (hj : j ≠ idx) :
    ((trySave isMaster faults idx step).run k).2.ckptSteps j = k.ckptSteps j := by
  have happend : ∀ k' : Rank, ((appendStep idx step).run k').2.ckptSteps j = k'.ckptSteps j := by
    intro k'
    exact Function.update_of_ne hj ..
  obtain ⟨x, hx, -⟩ := writeFiles_run isMaster faults k
  unfold trySave
  rw [bind_run, hx]
  cases x with
  | error e => rfl
  | ok u =>
      cases isMaster
      · exact happend { k with executed := k.executed ++ [.written idx] }
      · show ((perform (faults .markStable) >>= fun _ => (liftM (appendStep idx step) : ExceptT PyException M Unit)).run
          { k with executed := k.executed ++ [.written idx] }).2.ckptSteps j = _
        rw [bind_run, perform_run]
        cases faults .markStable with
        | some e => rfl
        | none => exact happend { k with executed := k.executed ++ [.written idx] }

/-- The barriers of one turn of the loop. -/
def runBarriers (isMaster : Bool) (faults : Faults) (ckpt : Option CheckpointConfig) (step idx : Nat)
    (ckptSteps : List Nat) : List BarrierSite :=
  if shouldSave ckpt ckptSteps step then tryBarriers isMaster faults idx ++ [.attempted idx] else []

section

variable (isMaster : Bool) (faults : Faults) (ckpt : Option CheckpointConfig) (step idx : Nat) (k : Rank)

theorem saveRun_run : (saveRun isMaster faults ckpt step idx).run k =
    if shouldSave ckpt (k.ckptSteps idx) step then
      ((), { ((trySave isMaster faults idx step).run k).2 with
        executed := ((trySave isMaster faults idx step).run k).2.executed ++ [.attempted idx] })
    else ((), k) := by
  show (if shouldSave ckpt (k.ckptSteps idx) step = true then _ else _ : M Unit).run k = _
  split_ifs <;> rfl

theorem saveRun_executed : ((saveRun isMaster faults ckpt step idx).run k).2.executed =
    k.executed ++ runBarriers isMaster faults ckpt step idx (k.ckptSteps idx) := by
  rw [saveRun_run]
  unfold runBarriers
  split_ifs
  · rw [trySave_executed, List.append_assoc]
  · exact (List.append_nil _).symm

theorem saveRun_ckptSteps {j : Nat} (hj : j ≠ idx) :
    ((saveRun isMaster faults ckpt step idx).run k).2.ckptSteps j = k.ckptSteps j := by
  rw [saveRun_run]
  split_ifs
  · exact trySave_ckptSteps isMaster faults idx step k hj
  · rfl

end

section

variable (isMaster : Bool) (faults : Nat → Faults) (tables : RunTables)

/-- The barriers one `save` executes on a rank, but the last. -/
def loopBarriers (ckptSteps : Nat → List Nat) : List BarrierSite :=
  tables.usedIdxs.flatMap fun idx =>
    runBarriers isMaster (faults idx) (tables.ckpt idx) (tables.step idx) idx (ckptSteps idx)

theorem save_executed (k : Rank) : ((save isMaster faults tables).run k).2.executed =
    k.executed ++ (loopBarriers isMaster faults tables k.ckptSteps ++ [.finished]) := by
  -- the turns of the runs still ahead read lists no earlier turn has touched
  have hloop : ∀ (l : List Nat) (k : Rank), l.Nodup →
      ((l.forM fun idx => saveRun isMaster (faults idx) (tables.ckpt idx) (tables.step idx) idx).run k).2.executed =
        k.executed ++ l.flatMap fun idx =>
          runBarriers isMaster (faults idx) (tables.ckpt idx) (tables.step idx) idx (k.ckptSteps idx) := by
    intro l
    induction l with
    | nil =>
        intro k _
        exact (List.append_nil _).symm
    | cons i l ih =>
        intro k hnodup
        rw [List.nodup_cons] at hnodup
        have htail := ih ((saveRun isMaster (faults i) (tables.ckpt i) (tables.step i) i).run k).2 hnodup.2
        rw [saveRun_executed, List.append_assoc] at htail
        refine htail.trans ?_
        rw [List.flatMap_cons]
        congr 2
        refine List.flatMap_congr fun j hj => ?_
        rw [saveRun_ckptSteps]
        rintro rfl
        exact hnodup.1 hj
  unfold loopBarriers
  rw [← List.append_assoc, ← hloop tables.usedIdxs k tables.nodup]
  rfl

end

end Rank

/-! ## All ranks -/

/-- The ranks of the trainer; rank 0 is the master. -/
structure Fleet (n : Nat) where
  tables : RunTables
  ranks : Fin n → Rank

/-- What happens between two steps of the trainer, and the faults of a save on each rank for each run. -/
inductive FleetAction (n : Nat)
  | created (idx : Nat)
  | deleted (idx : Nat)
  | trained
  | save (faults : Fin n → Nat → Faults)
  | clean

def RunTables.create (t : RunTables) (idx : Nat) (ckpt : Option CheckpointConfig) (step : Nat) (h : idx ∉ t.usedIdxs) :
    RunTables where
  usedIdxs := t.usedIdxs.orderedInsert (· ≤ ·) idx
  nodup := (List.perm_orderedInsert _ idx t.usedIdxs).nodup_iff.2 (List.nodup_cons.2 ⟨h, t.nodup⟩)
  ckpt := Function.update t.ckpt idx ckpt
  step := Function.update t.step idx step

def RunTables.delete (t : RunTables) (idx : Nat) : RunTables where
  usedIdxs := t.usedIdxs.erase idx
  nodup := t.nodup.erase idx
  ckpt := t.ckpt
  step := t.step

/-- `MultiCheckpointManager.maybe_clean` on the master. -/
def Rank.maybeClean (tables : RunTables) (k : Rank) : Except PyException Rank :=
  tables.usedIdxs.foldlM (fun k idx =>
    match tables.ckpt idx with
    | none => .ok k
    | some config => do
        let kept ← config.maybeClean (k.ckptSteps idx)
        return { k with ckptSteps := Function.update k.ckptSteps idx kept }) k

namespace Fleet

variable {n : Nat}

/-- No run, nothing executed. -/
def init (n : Nat) : Fleet n where
  tables := ⟨[], List.nodup_nil, fun _ => none, fun _ => 0⟩
  ranks := fun _ => ⟨[], fun _ => []⟩

/-- The barriers every rank has executed. -/
def executed (fleet : Fleet n) : Fin n → List BarrierSite := fun r => (fleet.ranks r).executed

def isMaster (r : Fin n) : Bool := r.val = 0

def save (fleet : Fleet n) (faults : Fin n → Nat → Faults) : Fleet n :=
  { fleet with ranks := fun r => ((Rank.save (isMaster r) (faults r) fleet.tables).run (fleet.ranks r)).2 }

/-- One action. A creation hook lists the steps found on disk; a rank whose cleaning raises ends the trainer. -/
inductive Step : Fleet n → FleetAction n → Fleet n → Prop
  | created {fleet : Fleet n} {idx : Nat} (ckpt : Option CheckpointConfig) (step : Nat) (found : Fin n → List Nat)
      (h : idx ∉ fleet.tables.usedIdxs) :
      Step fleet (.created idx)
        { tables := fleet.tables.create idx ckpt step h
          ranks := fun r => { fleet.ranks r with
            ckptSteps := Function.update (fleet.ranks r).ckptSteps idx (found r) } }
  | deleted {fleet : Fleet n} {idx : Nat} : Step fleet (.deleted idx) { fleet with tables := fleet.tables.delete idx }
  | trained {fleet : Fleet n} (step : Nat → Nat) :
      Step fleet .trained { fleet with tables := { fleet.tables with step := step } }
  | save {fleet : Fleet n} {faults : Fin n → Nat → Faults} : Step fleet (.save faults) (fleet.save faults)
  | clean {fleet fleet' : Fleet n} (htables : fleet'.tables = fleet.tables)
      (hmaster : ∀ r, isMaster r = true → (fleet.ranks r).maybeClean fleet.tables = .ok (fleet'.ranks r))
      (hothers : ∀ r, isMaster r = false → fleet'.ranks r = fleet.ranks r) : Step fleet .clean fleet'

/-- `_should_save` on rank `r`. -/
def shouldSave (fleet : Fleet n) (r : Fin n) (idx : Nat) : Bool :=
  Trainer.shouldSave (fleet.tables.ckpt idx) ((fleet.ranks r).ckptSteps idx) (fleet.tables.step idx)

/-- The ranks are about to save the same runs, and of each run either all of them fail before its inner barrier or none. -/
def Even (fleet : Fleet n) (faults : Fin n → Nat → Faults) : Prop :=
  ∀ idx ∈ fleet.tables.usedIdxs, ∀ r r', fleet.shouldSave r idx = fleet.shouldSave r' idx ∧
    (fleet.shouldSave r idx = true →
      Rank.raisesEarly (isMaster r) (faults r idx) = Rank.raisesEarly (isMaster r') (faults r' idx))

/-- The condition on an action: a save meets an even fleet. -/
def MeetsEven (fleet : Fleet n) : FleetAction n → Prop
  | .save faults => fleet.Even faults
  | _ => True

end Fleet

def fleetSystem (n : Nat) : System (Fleet n) (FleetAction n) where
  init fleet := fleet = .init n
  step := Fleet.Step

/-! ## When the ranks agree -/

namespace Rank

variable {isMaster : Bool} {faults : Nat → Faults} {tables : RunTables} {ckptSteps : Nat → List Nat} {idx : Nat}

theorem mem_runBarriers {b : BarrierSite} {faults : Faults} {ckpt : Option CheckpointConfig} {step : Nat}
    {steps : List Nat} : b ∈ runBarriers isMaster faults ckpt step idx steps ↔
      Trainer.shouldSave ckpt steps step = true ∧
        (b = .attempted idx ∨ b = .written idx ∧ raisesEarly isMaster faults = false) := by
  unfold runBarriers tryBarriers
  cases Trainer.shouldSave ckpt steps step <;> cases raisesEarly isMaster faults <;> simp [or_comm]

theorem attempted_mem : .attempted idx ∈ loopBarriers isMaster faults tables ckptSteps ↔
    idx ∈ tables.usedIdxs ∧ Trainer.shouldSave (tables.ckpt idx) (ckptSteps idx) (tables.step idx) = true := by
  simp only [loopBarriers, List.mem_flatMap, mem_runBarriers, BarrierSite.attempted.injEq, reduceCtorEq, false_and,
    or_false]
  constructor
  · rintro ⟨j, hj, hdue, rfl⟩
    exact ⟨hj, hdue⟩
  · rintro ⟨hj, hdue⟩
    exact ⟨idx, hj, hdue, rfl⟩

theorem written_mem : .written idx ∈ loopBarriers isMaster faults tables ckptSteps ↔
    idx ∈ tables.usedIdxs ∧ Trainer.shouldSave (tables.ckpt idx) (ckptSteps idx) (tables.step idx) = true ∧
      raisesEarly isMaster (faults idx) = false := by
  simp only [loopBarriers, List.mem_flatMap, mem_runBarriers, BarrierSite.written.injEq, reduceCtorEq, false_or]
  constructor
  · rintro ⟨j, hj, hdue, rfl, hearly⟩
    exact ⟨hj, hdue, hearly⟩
  · rintro ⟨hj, hdue, hearly⟩
    exact ⟨idx, hj, hdue, rfl, hearly⟩

theorem finished_notMem : BarrierSite.finished ∉ loopBarriers isMaster faults tables ckptSteps := by
  simp only [loopBarriers, List.mem_flatMap, mem_runBarriers, reduceCtorEq, false_and, or_false, and_false, exists_false,
    not_false_eq_true]

end Rank

namespace Fleet

variable {n : Nat}

/-- The barriers a save executes before the last one, rank by rank. -/
def loopBarriers (fleet : Fleet n) (faults : Fin n → Nat → Faults) : Fin n → List BarrierSite := fun r =>
  Rank.loopBarriers (isMaster r) (faults r) fleet.tables (fleet.ranks r).ckptSteps

theorem save_executed (fleet : Fleet n) (faults : Fin n → Nat → Faults) (r : Fin n) :
    (fleet.save faults).executed r = fleet.executed r ++ (fleet.loopBarriers faults r ++ [.finished]) :=
  Rank.save_executed (isMaster r) (faults r) fleet.tables (fleet.ranks r)

theorem loopBarriers_aligned_iff {fleet : Fleet n} {faults : Fin n → Nat → Faults} :
    Aligned (fleet.loopBarriers faults) ↔ fleet.Even faults := by
  constructor
  · intro h idx hidx r r'
    have hdue : fleet.shouldSave r idx = true ↔ fleet.shouldSave r' idx = true := by
      have hmem : .attempted idx ∈ fleet.loopBarriers faults r ↔ .attempted idx ∈ fleet.loopBarriers faults r' := by
        rw [h r r']
      simpa only [loopBarriers, shouldSave, Rank.attempted_mem, hidx, true_and] using hmem
    refine ⟨Bool.eq_iff_iff.2 hdue, fun hr => ?_⟩
    have hearly : Rank.raisesEarly (isMaster r) (faults r idx) = false ↔
        Rank.raisesEarly (isMaster r') (faults r' idx) = false := by
      have hmem : .written idx ∈ fleet.loopBarriers faults r ↔ .written idx ∈ fleet.loopBarriers faults r' := by
        rw [h r r']
      have hr' := hdue.1 hr
      unfold shouldSave at hr hr'
      simpa only [loopBarriers, Rank.written_mem, hidx, hr, hr', true_and] using hmem
    cases hb : Rank.raisesEarly (isMaster r) (faults r idx) with
    | false => exact (hearly.1 hb).symm
    | true =>
        rw [hb] at hearly
        simpa using hearly
  · intro h r r'
    refine List.flatMap_congr fun idx hidx => ?_
    obtain ⟨hdue, hearly⟩ := h idx hidx r r'
    unfold Rank.runBarriers Rank.tryBarriers
    show (if fleet.shouldSave r idx = true then _ else _) = if fleet.shouldSave r' idx = true then _ else _
    rw [← hdue]
    by_cases hr : fleet.shouldSave r idx = true
    · rw [hearly hr]
    · rw [if_neg hr, if_neg hr]

end Fleet

/-! ## Whole runs -/

theorem Rank.maybeClean_executed {tables : RunTables} {k k' : Rank} (h : k.maybeClean tables = .ok k') :
    k'.executed = k.executed := by
  refine foldlM_preserves (P := fun j => j.executed = k.executed) (fun j idx j' hj hstep => ?_) h rfl
  rw [← hj]
  split at hstep
  · cases hstep
    rfl
  · obtain ⟨kept, -, hkept⟩ := bind_eq_ok.1 hstep
    cases hkept
    rfl

namespace Fleet

variable {n : Nat} {fleet fleet' : Fleet n} {a : FleetAction n}

/-- A rank has executed whole saves. -/
def Whole (fleet : Fleet n) : Prop := ∀ r, Closed .finished (fleet.executed r)

theorem Step.executed (h : Step fleet a fleet') :
    (∃ faults, a = .save faults ∧ fleet' = fleet.save faults) ∨
      (∀ faults, a ≠ .save faults) ∧ fleet'.executed = fleet.executed := by
  cases h with
  | created ckpt step found hidx => exact .inr ⟨fun _ h => (by cases h), rfl⟩
  | deleted => exact .inr ⟨fun _ h => (by cases h), rfl⟩
  | trained step => exact .inr ⟨fun _ h => (by cases h), rfl⟩
  | save => exact .inl ⟨_, rfl, rfl⟩
  | clean htables hmaster hothers =>
      refine .inr ⟨fun _ h => (by cases h), funext fun r => ?_⟩
      cases hr : isMaster r with
      | true => exact Rank.maybeClean_executed (hmaster r hr)
      | false => exact congrArg Rank.executed (hothers r hr)

theorem Step.whole (hw : fleet.Whole) (h : Step fleet a fleet') : fleet'.Whole := by
  intro r
  rcases h.executed with ⟨faults, -, rfl⟩ | ⟨-, he⟩
  · rw [save_executed]
    exact .append ..
  · rw [he]
    exact hw r

/-- After a save the ranks agree iff they agreed before it and the fleet was even. -/
theorem save_aligned_iff (hw : fleet.Whole) (faults : Fin n → Nat → Faults) :
    Aligned (fleet.save faults).executed ↔ Aligned fleet.executed ∧ fleet.Even faults := by
  rw [← loopBarriers_aligned_iff]
  have hround : ∀ r r', (fleet.save faults).executed r = (fleet.save faults).executed r' ↔
      fleet.executed r = fleet.executed r' ∧ fleet.loopBarriers faults r = fleet.loopBarriers faults r' := by
    intro r r'
    rw [save_executed, save_executed]
    exact append_round_inj (hw r) (hw r') Rank.finished_notMem Rank.finished_notMem
  simp only [Aligned, hround, forall_and]

end Fleet

/-- **Main.** After any run the ranks have executed one sequence of barriers, and nobody waits for a barrier that
others never reach, iff every save of the run met an even fleet. -/
theorem checkpointBarriers {n : Nat} {ls : List (FleetAction n)} {fleet : Fleet n}
    (h : (fleetSystem n).Run (.init n) ls fleet) :
    (Aligned fleet.executed ∧ ¬ Hangs fleet.executed) ↔
      ((fleetSystem n).restrict Fleet.MeetsEven).Run (.init n) ls fleet := by
  have hwhole : ∀ {ls : List (FleetAction n)} {fleet : Fleet n}, (fleetSystem n).Run (.init n) ls fleet →
      fleet.Whole := fun h =>
    have hinit : (Fleet.init n).Whole := fun _ => .inl rfl
    h.preserves (I := Fleet.Whole) (fun _ _ _ hw hs => Fleet.Step.whole hw hs) hinit
  constructor
  · rintro ⟨hal, -⟩
    induction h with
    | nil => exact .nil
    | snoc hrun hstep ih =>
        rcases Fleet.Step.executed hstep with ⟨faults, rfl, rfl⟩ | ⟨hne, he⟩
        · rw [Fleet.save_aligned_iff (hwhole hrun)] at hal
          exact (ih hal.1).snoc ⟨hal.2, hstep⟩
        · rw [he] at hal
          refine (ih hal).snoc ⟨?_, hstep⟩
          unfold Fleet.MeetsEven
          split
          · exact absurd rfl (hne _)
          · trivial
  · intro hr
    clear h
    have hal : Aligned fleet.executed := by
      induction hr with
      | nil => exact fun _ _ => rfl
      | snoc hrun hstep ih =>
          obtain ⟨heven, hstep⟩ := hstep
          rcases Fleet.Step.executed hstep with ⟨faults, rfl, rfl⟩ | ⟨-, he⟩
          · exact (Fleet.save_aligned_iff (hwhole hrun.of_restrict) faults).2 ⟨ih, heven⟩
          · rw [he]
            exact ih
    exact ⟨hal, hal.not_hangs⟩

section

/-- One run that saves every step, at step 1. -/
def exampleFleet (n : Nat) : Fleet n where
  tables := (Fleet.init n).tables.create 0 (some ⟨some 1, none, none⟩) 1 List.not_mem_nil
  ranks := fun r => { (Fleet.init n).ranks r with
    ckptSteps := Function.update ((Fleet.init n).ranks r).ckptSteps 0 [] }

theorem exampleFleet_run (n : Nat) : ((fleetSystem n).restrict Fleet.MeetsEven).Run (.init n) [.created 0] (exampleFleet n) :=
  .single ⟨trivial, .created _ _ (fun _ => []) _⟩

/-- Three ranks save one run and nothing raises. -/
theorem checkpointBarriers_allSave :
    Aligned ((exampleFleet 3).save fun _ _ _ => none).executed ∧
    ¬ Hangs ((exampleFleet 3).save fun _ _ _ => none).executed := by
  have hrun : ((fleetSystem 3).restrict Fleet.MeetsEven).Run (.init 3) ([.created 0] ++ [.save fun _ _ _ => none])
      ((exampleFleet 3).save fun _ _ _ => none) :=
    (exampleFleet_run 3).snoc ⟨by unfold Fleet.MeetsEven Fleet.Even; decide, .save⟩
  exact (checkpointBarriers hrun.of_restrict).2 hrun

/-- The disk of rank 1 is full. -/
def diskFull : Fin 2 → Nat → Faults
  | 1, _, .saveState => some ⟨.runtimeError, "PytorchStreamWriter failed writing file"⟩
  | _, _, _ => none

/-- Of two ranks one fails to write its file: the other waits at the inner barrier, and in the end for a third one. -/
theorem checkpointBarriers_diskFull :
    (fleetSystem 2).Run (.init 2) ([.created 0] ++ [.save diskFull]) ((exampleFleet 2).save diskFull) ∧
      ((exampleFleet 2).save diskFull).executed 0 = [.written 0, .attempted 0, .finished] ∧
      ((exampleFleet 2).save diskFull).executed 1 = [.attempted 0, .finished] ∧
      Hangs ((exampleFleet 2).save diskFull).executed := by
  refine ⟨(exampleFleet_run 2).of_restrict.snoc .save, by decide, by decide, ?_⟩
  exact hangs_iff.2 ⟨0, 1, by decide⟩

end

end AuroraRl.Trainer
