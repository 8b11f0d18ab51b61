import AuroraRl.Lib.Dict
import AuroraRl.Lib.Python
import AuroraRl.Lib.Transition
import Mathlib.Logic.Function.Basic
import Mathlib.Data.List.MinMax

/-!
# Training batches from the orchestrators to the packer

* `TrainingBatch`, `Runs` : what is sent, and the part of the run manager the receivers read;
* `ZmqReceiver.receive`, `ZmqSystem` : one socket, batches kept per run id, nothing reset with a run;
* `FileReceiver.receive`, `FileSystem` : one file for each step, read counters kept per run index, which `MultiPacker`
  resets with it;
* `zmqSystem`, `fileSystem` : senders, deliveries, deletions and recreations in any order.
-/

namespace AuroraRl.Transport
open Transition

variable {ι α : Type} [DecidableEq ι]

/-- A batch. `sentBy` is no field of the message: it counts which run of that id sent it. -/
structure TrainingBatch (α : Type) where
  examples : List α
  step : Nat
  runIdx : Option Nat
  sentBy : Nat
  deriving DecidableEq, Repr

/-! ## Runs -/

/-- The runs on disk, each with the number of times its id was created, and the tables of the run manager. -/
structure Runs (ι : Type) where
  maxRuns : Nat
  incarnation : ι → Nat
  live : ι → Bool
  occupant : Nat → Option ι
  progress : Nat → Nat
  readyToUpdate : Nat → Bool

inductive RunsAction (ι : Type)
  /-- The directory of a run appears with a valid configuration. -/
  | create (r : ι)
  /-- It is deleted, or with `wipe = false` evicted: then its files stay. -/
  | remove (r : ι) (wipe : Bool)
  /-- `discover_runs` drops a run that is gone. -/
  | forget (idx : Nat)
  /-- `discover_runs` gives a run an index and a first step. -/
  | adopt (idx : Nat) (r : ι) (start : Nat)
  /-- Packing and training go on. -/
  | work (progress : Nat → Nat) (readyToUpdate : Nat → Bool)

namespace Runs

def init (ι : Type) (maxRuns : Nat) : Runs ι :=
  ⟨maxRuns, fun _ => 0, fun _ => false, fun _ => none, fun _ => 0, fun _ => false⟩

variable (m : Runs ι)

omit [DecidableEq ι] in
def usedIdxs : List Nat := (List.range m.maxRuns).filter fun idx => (m.occupant idx).isSome

def act : RunsAction ι → Option (Runs ι)
  | .create r =>
      if m.live r then none
      else some { m with
        live := Function.update m.live r true
        incarnation := Function.update m.incarnation r (m.incarnation r + 1) }
  | .remove r _ => if m.live r then some { m with live := Function.update m.live r false } else none
  | .forget idx =>
      match m.occupant idx with
      | none => none
      | some r => if m.live r then none else some { m with occupant := Function.update m.occupant idx none }
  | .adopt idx r start =>
      if idx < m.maxRuns ∧ m.occupant idx = none ∧ m.live r = true ∧
          (List.range m.maxRuns).all (fun i => m.occupant i ≠ some r) then
        some { m with
          occupant := Function.update m.occupant idx (some r)
          progress := Function.update m.progress idx start }
      else none
  | .work progress readyToUpdate => some { m with progress := progress, readyToUpdate := readyToUpdate }

end Runs

/-! ## ZeroMQ -/

/-- `_pending`: for each sender id the batches by step. -/
abbrev Pending (ι α : Type) := Dict ι (Dict Nat (TrainingBatch α))

namespace ZmqReceiver

/-- One message of `_drain_into_pending`. -/
def drainOne (pending : Pending ι α) (message : ι × TrainingBatch α) : Except PyError (Pending ι α) :=
  let perIdBatches := (pending.get? message.1).getD ∅
  if perIdBatches.contains message.2.step then .error .assertionError
  else .ok (pending.insert message.1 (perIdBatches.insert message.2.step message.2))

/-- `_drain_into_pending`, with the messages the socket holds. -/
def drain (socket : List (ι × TrainingBatch α)) (pending : Pending ι α) : Except PyError (Pending ι α) :=
  socket.foldlM drainOne pending

omit [DecidableEq ι] in
/-- The oldest of the batches of one run. -/
def oldest (perIdBatches : Dict Nat (TrainingBatch α)) : Option (Nat × TrainingBatch α) :=
  perIdBatches.keys.min?.bind fun step => (perIdBatches.get? step).map (step, ·)

/-- One turn of the loop of `receive`. -/
def receiveRun (m : Runs ι) (acc : List (TrainingBatch α) × Pending ι α) (idx : Nat) :
    List (TrainingBatch α) × Pending ι α :=
  match m.occupant idx with
  | none => acc
  | some r =>
      if m.readyToUpdate idx then acc
      else
        let perIdBatches := (acc.2.get? r).getD ∅
        match oldest perIdBatches with
        | none => acc
        | some (step, batch) =>
            let rest := perIdBatches.erase step
            (acc.1 ++ [{ batch with runIdx := some idx }],
              if rest.keys = [] then acc.2.erase r else acc.2.insert r rest)

def receive (m : Runs ι) (socket : List (ι × TrainingBatch α)) (pending : Pending ι α) :
    Except PyError (List (TrainingBatch α) × Pending ι α) := do
  let pending ← drain socket pending
  return m.usedIdxs.foldl (receiveRun m) ([], pending)

end ZmqReceiver

/-- The orchestrators (by run id and by the count of its creations), their connections, and the receiver. -/
structure ZmqState (ι α : Type) where
  runs : Runs ι
  nextStep : ι → Nat → Nat
  sending : ι → Nat → List (TrainingBatch α)
  socket : List (ι × TrainingBatch α)
  pending : Pending ι α

inductive ZmqAction (ι α : Type)
  | runs (a : RunsAction ι)
  | send (r : ι) (sentBy step : Nat) (examples : List α)
  | arrive (r : ι) (sentBy : Nat)
  | receive

namespace ZmqState

variable (s : ZmqState ι α)

/-- What the next `receive` returns and leaves. -/
def receive : Except PyError (List (TrainingBatch α) × Pending ι α) :=
  ZmqReceiver.receive s.runs s.socket s.pending

/-- One step; an orchestrator sends its steps in order, and the messages of one connection arrive in order. -/
def act : ZmqAction ι α → Option (ZmqState ι α)
  | .runs a => (s.runs.act a).map fun m => { s with runs := m }
  | .send r e step examples =>
      if 1 ≤ e ∧ e ≤ s.runs.incarnation r ∧ s.nextStep r e ≤ step then
        some { s with
          nextStep := Function.update s.nextStep r (Function.update (s.nextStep r) e (step + 1))
          sending := Function.update s.sending r
            (Function.update (s.sending r) e (s.sending r e ++ [⟨examples, step, none, e⟩])) }
      else none
  | .arrive r e =>
      match s.sending r e with
      | [] => none
      | batch :: rest =>
          some { s with
            sending := Function.update s.sending r (Function.update (s.sending r) e rest)
            socket := s.socket ++ [(r, batch)] }
  | .receive =>
      match s.receive with
      | .error _ => none
      | .ok out => some { s with socket := [], pending := out.2 }

end ZmqState

def zmqSystem (ι α : Type) [DecidableEq ι] (maxRuns : Nat) : System (ZmqState ι α) (ZmqAction ι α) where
  init s := s = ⟨.init ι maxRuns, fun _ _ => 0, fun _ _ => [], [], ∅⟩
  step s a s' := s.act a = some s'

/-! ## Files -/

namespace FileReceiver

def getReceivedStep (m : Runs ι) (receivedSteps : Nat → Option Nat) (idx : Nat) : Nat :=
  (receivedSteps idx).getD (m.progress idx)

/-- One turn of the loop of `receive`. -/
def receiveRun (m : Runs ι) (files : ι → Nat → Option (TrainingBatch α))
    (acc : List (TrainingBatch α) × (Nat → Option Nat)) (idx : Nat) :
    List (TrainingBatch α) × (Nat → Option Nat) :=
  match m.occupant idx with
  | none => acc
  | some r =>
      let step := getReceivedStep m acc.2 idx
      -- the path of every run has been asked for, if only to log it
      let receivedSteps := Function.update acc.2 idx (some step)
      if m.readyToUpdate idx then (acc.1, receivedSteps)
      else
        match files r step with
        | none => (acc.1, receivedSteps)
        | some batch =>
            (acc.1 ++ [{ batch with runIdx := some idx }], Function.update acc.2 idx (some (step + 1)))

def receive (m : Runs ι) (files : ι → Nat → Option (TrainingBatch α)) (receivedSteps : Nat → Option Nat) :
    List (TrainingBatch α) × (Nat → Option Nat) :=
  m.usedIdxs.foldl (receiveRun m files) ([], receivedSteps)

def resetRun (receivedSteps : Nat → Option Nat) (idx : Nat) : Nat → Option Nat :=
  Function.update receivedSteps idx none

end FileReceiver

/-- The orchestrators with the batch each is writing, the run directories, and the receiver. -/
structure FileState (ι α : Type) where
  runs : Runs ι
  nextStep : ι → Nat → Nat
  writing : ι → Nat → Option (TrainingBatch α)
  stepDirs : ι → Nat → Bool
  files : ι → Nat → Option (TrainingBatch α)
  receivedSteps : Nat → Option Nat

inductive FileAction (ι α : Type)
  | runs (a : RunsAction ι)
  /-- `send` makes the directory of the step, `run_*` and all. -/
  | beginSend (r : ι) (sentBy step : Nat) (examples : List α)
  /-- The file is written and renamed; without its directory that raises. -/
  | endSend (r : ι) (sentBy : Nat)
  | receive

namespace FileState

variable (s : FileState ι α)

/-- What the next `receive` returns and leaves. -/
def receive : List (TrainingBatch α) × (Nat → Option Nat) :=
  FileReceiver.receive s.runs s.files s.receivedSteps

def act : FileAction ι α → Option (FileState ι α)
  | .runs (.remove r wipe) =>
      (s.runs.act (.remove r wipe)).map fun m =>
        if wipe then
          { s with
            runs := m
            stepDirs := Function.update s.stepDirs r fun _ => false
            files := Function.update s.files r fun _ => none }
        else { s with runs := m }
  | .runs (.forget idx) =>
      (s.runs.act (.forget idx)).map fun m =>
        -- a `SinglePacker` registers no forgotten hook
        { s with
          runs := m
          receivedSteps :=
            if 1 < s.runs.maxRuns then FileReceiver.resetRun s.receivedSteps idx else s.receivedSteps }
  | .runs a => (s.runs.act a).map fun m => { s with runs := m }
  | .beginSend r e step examples =>
      if 1 ≤ e ∧ e ≤ s.runs.incarnation r ∧ s.nextStep r e ≤ step ∧ s.writing r e = none then
        some { s with
          nextStep := Function.update s.nextStep r (Function.update (s.nextStep r) e (step + 1))
          stepDirs := Function.update s.stepDirs r (Function.update (s.stepDirs r) step true)
          writing := Function.update s.writing r
            (Function.update (s.writing r) e (some ⟨examples, step, none, e⟩)) }
      else none
  | .endSend r e =>
      (s.writing r e).map fun batch =>
        { s with
          writing := Function.update s.writing r (Function.update (s.writing r) e none)
          files :=
            if s.stepDirs r batch.step then
              Function.update s.files r (Function.update (s.files r) batch.step (some batch))
            else s.files }
  | .receive => some { s with receivedSteps := s.receive.2 }

end FileState

def fileSystem (ι α : Type) [DecidableEq ι] (maxRuns : Nat) : System (FileState ι α) (FileAction ι α) where
  init s := s = ⟨.init ι maxRuns, fun _ _ => 0, fun _ _ => none, fun _ _ => false, fun _ _ => none, fun _ => none⟩
  step s a s' := s.act a = some s'

end AuroraRl.Transport
