import AuroraRl.Orchestrator.Checkpoints
import AuroraRl.Orchestrator.State
import Mathlib

/-!
# The loop of the orchestrator, with its checkpoints and restarts

* `generate` : batches until one has a trainable rollout, three attempts at most;
* `Process.start`, `beginTurn`, `endTurn`, `finish` : a process up to its loop, the two halves of a turn, and what follows
  the loop;
* `Cluster`, `clusterSystem` : the output directory and the process working in it, which may stop anywhere, also within a
  save, and start again from any checkpoint with another configuration; the trainer may evict the run at any time;
* `Accounted` : the batches a progress stands for; `consistent_of_reachable`.

Evals, metrics and teacher logprobs are left out.
-/

namespace AuroraRl.Orchestrate
open Orchestrator Difficulty Transition

/-- `weight_broadcast`. -/
inductive WeightBroadcast
  | filesystem (mode : WeightUpdateMode)
  | nccl
  deriving DecidableEq

/-- What the loop reads of the configuration. `grade` is `compute_advantages` and `apply_filters`: the rollouts with their
advantages, and whether each is filtered; `interleave` is `interleave_rollout`, and `mark` copies a rollout's advantage,
reward and environment to a sample. -/
structure Config (R S : Type) where
  maxSteps : Option Nat
  ckpt : Option CheckpointConfig
  weightBroadcast : WeightBroadcast
  buffer : BufferConfig
  grade : List R → List (R × Bool)
  interleave : R → Option (List S)
  mark : R → S → S

structure TrainingBatch (S : Type) where
  step : Nat
  examples : List S

/-- A batch that was sent, with the configuration of its sender and the rollouts it was made of. -/
structure Sent (R S : Type) where
  batch : TrainingBatch S
  config : Config R S
  trainRollouts : List (R × Bool)

/-- The output directory: checkpoints by step, batches sent, oldest first, and the text of `control/evicted.txt`. -/
structure OutputDir (V R S : Type) where
  checkpoints : CheckpointManager.Checkpoints V R
  sent : List (Sent R S)
  evicted : Option String

/-- Where a process is: at the check of `evicted.txt`, past it, or past the loop. -/
inductive Phase
  | top
  | turn
  | finishing
  deriving DecidableEq

/-- The variables of `orchestrate`. -/
structure Process (V R S : Type) where
  config : Config R S
  progress : Progress
  buffer : Buffer V R
  isFirstStep : Bool
  phase : Phase

/-- What a process is started with. `resumeStep` is the resolved one; `weightDir` says for which steps `get_weight_dir` finds
a directory in time; `updateWeights` is what the inference servers answer. -/
structure Boot (R S : Type) where
  config : Config R S
  resumeStep : Option Nat
  draws : String → Pool → Nat → Nat
  weightDir : Nat → Bool
  updateWeights : Except PyException Unit

variable {V R S : Type}

/-! ## A step -/

def maxEmptyBatchAttempts : Nat := 3

/-- What a call of `generate_batch` did to the buffer, and what it returned. -/
structure Generated (V R : Type) where
  ops : List (BufferOp V R)
  rollouts : List R

/-- The operations of the scheduler. -/
def OfScheduler : BufferOp V R → Prop
  | .sampleExamples _ => True
  | .update _ => True
  | .sampleRollouts _ => True
  | .save => False
  | .load _ _ => False

/-- How the attempts ended. -/
inductive Outcome (V R : Type)
  | trained (buffer : Buffer V R) (trainRollouts : List (R × Bool))
  | allFiltered (numRollouts : Nat)

section Step

variable [DecidableEq V] [JsonValues V] [RewardedRollout R]

/-- The loop over the attempts, from the one `n` before the last. -/
def generate (config : Config R S) (attempts : Nat → Generated V R) :
    Nat → Nat → Buffer V R → Except PyException (Outcome V R)
  | 0, numRollouts, _ => .ok (.allFiltered numRollouts)
  | n + 1, _, buffer => do
      let generated := attempts (maxEmptyBatchAttempts - (n + 1))
      let buffer ← generated.ops.foldlM (fun buffer op => op.run config.buffer buffer) buffer
      let trainRollouts := config.grade generated.rollouts
      if 0 < trainRollouts.countP (fun r => !r.2) then return .trained buffer trainRollouts
      else generate config attempts n generated.rollouts.length buffer

/-- The samples of the rollouts that are not filtered. -/
def trainExamples (config : Config R S) (trainRollouts : List (R × Bool)) : List S :=
  trainRollouts.flatMap fun r => if r.2 then [] else ((config.interleave r.1).getD []).map (config.mark r.1)

/-- The totals after a batch. -/
def Progress.advance (progress : Progress) (trainRollouts : List (R × Bool)) : Progress where
  step := progress.step + 1
  totalTokens := progress.totalTokens + (trainRollouts.map fun r => RolloutOutput.seqLen r.1).sum
  totalSamples := progress.totalSamples + trainRollouts.length
  totalProblems := progress.totalProblems + (trainRollouts.map fun r => RolloutOutput.exampleKey r.1).dedup.length

namespace Process

/-- A checkpoint is saved at the start of this turn. -/
def saves (process : Process V R S) : Bool :=
  match process.config.ckpt.bind CheckpointConfig.interval with
  | some interval => interval ≠ 0 ∧ ¬ (process.isFirstStep ∨ process.config.maxSteps = some (process.progress.step + 1)) ∧
      process.progress.step % interval = 0
  | none => false

/-- The loop ends here. -/
def done (process : Process V R S) : Bool :=
  match process.config.maxSteps with
  | some maxSteps => maxSteps ≠ 0 ∧ maxSteps ≤ process.progress.step
  | none => false

def save (process : Process V R S) (dir : OutputDir V R S) : OutputDir V R S :=
  { dir with checkpoints := CheckpointManager.save process.progress process.buffer dir.checkpoints }

def saveCut (process : Process V R S) (n : Nat) (dir : OutputDir V R S) : OutputDir V R S :=
  { dir with checkpoints := CheckpointManager.saveCut n process.progress process.buffer dir.checkpoints }

/-- The check for an eviction, the checkpoint, and the end of the loop. -/
def beginTurn (process : Process V R S) (dir : OutputDir V R S) : Except PyException (Process V R S × OutputDir V R S) :=
  match dir.evicted with
  | some reason => .error ⟨.runtimeError, s!"Run evicted by trainer: {reason}"⟩
  | none => .ok ({ process with phase := if process.done then .finishing else .turn },
      if process.saves then process.save dir else dir)

/-- The process and the directory once a batch is sent. -/
def send (process : Process V R S) (buffer : Buffer V R) (trainRollouts : List (R × Bool)) (dir : OutputDir V R S) :
    Process V R S × OutputDir V R S :=
  ({ process with
      progress := process.progress.advance trainRollouts
      buffer := buffer
      isFirstStep := false
      phase := .top },
    { dir with sent := dir.sent ++
        [⟨⟨process.progress.step, trainExamples process.config trainRollouts⟩, process.config, trainRollouts⟩] })

/-- The batch of a turn: it is sent, or the process evicts itself and raises. -/
def endTurn (process : Process V R S) (attempts : Nat → Generated V R) (dir : OutputDir V R S) :
    Except PyException (Option (Process V R S) × OutputDir V R S) := do
  match ← generate process.config attempts maxEmptyBatchAttempts 0 process.buffer with
  | .allFiltered numRollouts =>
      let reason := s!"All {numRollouts} rollouts were filtered out on {maxEmptyBatchAttempts} consecutive attempts " ++
        s!"at step {process.progress.step}"
      return (none, { dir with evicted := some reason })
  | .trained buffer trainRollouts =>
      let (process, dir) := process.send buffer trainRollouts dir
      return (some process, dir)

/-- The final checkpoint. -/
def finish (process : Process V R S) (dir : OutputDir V R S) : OutputDir V R S :=
  if process.config.ckpt.isSome then process.save dir else dir

/-- The process is about to save a checkpoint. -/
def Saving (process : Process V R S) (dir : OutputDir V R S) : Prop :=
  match process.phase with
  | .top => dir.evicted = none ∧ process.saves = true
  | .turn => False
  | .finishing => process.config.ckpt.isSome = true

/-- The weights of a checkpoint are sent to the inference servers. -/
def syncWeights (boot : Boot R S) (step : Nat) : Except PyException Unit :=
  if boot.config.weightBroadcast ≠ .nccl ∧ boot.weightDir step = false then
    .error ⟨.fileNotFoundError, s!"No weight directory found for checkpoint step {step}"⟩
  else boot.updateWeights

/-- The progress and the buffer of a checkpoint. -/
def resume (boot : Boot R S) (ckpt : CheckpointConfig) (step : Nat) (buffer : Buffer V R) (dir : OutputDir V R S) :
    Except PyException (Progress × Buffer V R) := do
  raiseIf (boot.config.weightBroadcast = .filesystem .delta)
    "delta weight updates cannot resume without a synchronized full checkpoint; use mode='full'"
  match dir.checkpoints.get? step with
  | none => .error ⟨.fileNotFoundError, s!"Checkpoint not found at {step}"⟩
  | some checkpoint =>
      let (progress, buffer) ← CheckpointManager.load ckpt boot.config.buffer boot.draws checkpoint Progress.init buffer
      syncWeights boot progress.step
      return (progress, buffer)

/-- `orchestrate` up to its loop. -/
def start (envs : Dict String (Dataset V)) (boot : Boot R S) (dir : OutputDir V R S) :
    Except PyException (Process V R S) := do
  let buffer ← Buffer.init envs
  match boot.resumeStep, boot.config.ckpt with
  | some step, some ckpt =>
      let (progress, buffer) ← resume boot ckpt step buffer dir
      return ⟨boot.config, progress, buffer, true, .top⟩
  | _, _ => return ⟨boot.config, Progress.init, buffer, true, .top⟩

end Process

end Step

/-! ## The cluster -/

/-- An output directory and the process that works in it, if any. -/
structure Cluster (V R S : Type) where
  dir : OutputDir V R S
  process : Option (Process V R S)

inductive ClusterStep (V R S : Type)
  | boot (boot : Boot R S)
  | beginTurn
  | endTurn (attempts : Nat → Generated V R)
  | finish
  | crash
  | crashSaving (n : Nat)
  | evict (reason : String)

section System

variable [DecidableEq V] [JsonValues V] [RewardedRollout R]

/-- A process starts when none works in the directory; it may stop anywhere, by an exception or killed, and leave a save
half done; the trainer may evict the run. -/
inductive Cluster.Step (envs : Dict String (Dataset V)) : Cluster V R S → ClusterStep V R S → Cluster V R S → Prop
  | boot {dir boot process} : Process.start envs boot dir = .ok process →
      Step envs ⟨dir, none⟩ (.boot boot) ⟨dir, some process⟩
  | beginTurn {dir dir' process process'} : process.phase = .top → process.beginTurn dir = .ok (process', dir') →
      Step envs ⟨dir, some process⟩ .beginTurn ⟨dir', some process'⟩
  | endTurn {dir dir' process process' attempts} : process.phase = .turn → (∀ n, ∀ op ∈ (attempts n).ops, OfScheduler op) →
      process.endTurn attempts dir = .ok (process', dir') → Step envs ⟨dir, some process⟩ (.endTurn attempts) ⟨dir', process'⟩
  | finish {dir process} : process.phase = .finishing → Step envs ⟨dir, some process⟩ .finish ⟨process.finish dir, none⟩
  | crash {dir process} : Step envs ⟨dir, some process⟩ .crash ⟨dir, none⟩
  | crashSaving {dir process n} : process.Saving dir →
      Step envs ⟨dir, some process⟩ (.crashSaving n) ⟨process.saveCut n dir, none⟩
  | evict {dir process reason} : Step envs ⟨dir, process⟩ (.evict reason) ⟨{ dir with evicted := some reason }, process⟩

def clusterSystem (envs : Dict String (Dataset V)) : System (Cluster V R S) (ClusterStep V R S) where
  init cluster := cluster = ⟨⟨∅, [], none⟩, none⟩
  step := Cluster.Step envs

end System

/-! ## What a progress stands for -/

section Accounts

variable [RewardedRollout R]

/-- The batches of the steps so far, one for each step in order, and their totals. -/
structure Accounted (sent : List (Sent R S)) (progress : Progress) : Prop where
  steps : sent.map (fun s => s.batch.step) = List.range progress.step
  tokens : (sent.map fun s => (s.trainRollouts.map fun r => RolloutOutput.seqLen r.1).sum).sum = progress.totalTokens
  samples : (sent.map fun s => s.trainRollouts.length).sum = progress.totalSamples
  problems : (sent.map fun s => (s.trainRollouts.map fun r => RolloutOutput.exampleKey r.1).dedup.length).sum =
    progress.totalProblems

/-- The progress is that of batches in the directory. -/
def OutputDir.Accounts (dir : OutputDir V R S) (progress : Progress) : Prop :=
  ∃ sent, sent.Sublist dir.sent ∧ Accounted sent progress

/-- The samples are those of the rollouts its sender did not filter, of which there is one at least. -/
structure Sent.Trainable (s : Sent R S) : Prop where
  graded : ∃ rollouts, s.trainRollouts = s.config.grade rollouts
  trainable : 0 < s.trainRollouts.countP (fun r => !r.2)
  examples : s.batch.examples = trainExamples s.config s.trainRollouts

/-- The files of a checkpoint of this step: a progress that can be read is accounted for, and a save that was completed has
the partition of the datasets. -/
structure OutputDir.Keeps (dir : OutputDir V R S) (envs : Dict String (Dataset V)) (step : Nat)
    (checkpoint : Checkpoint V R) :
    Prop where
  progress : ∀ progress, checkpoint.progress = .whole progress → progress.step = step ∧ dir.Accounts progress
  saved : ∀ progress buffer, checkpoint.saved = some (progress, buffer) → checkpoint.Saved progress buffer ∧ buffer.Holds envs

/-- Every process and every checkpoint accounts for one batch a step, and keeps the partition of the datasets. -/
structure Cluster.Consistent (envs : Dict String (Dataset V)) (cluster : Cluster V R S) : Prop where
  process : ∀ process, cluster.process = some process → cluster.dir.Accounts process.progress ∧ process.buffer.Holds envs
  checkpoints : ∀ step checkpoint, cluster.dir.checkpoints.get? step = some checkpoint →
    cluster.dir.Keeps envs step checkpoint
  sent : ∀ s ∈ cluster.dir.sent, s.Trainable

theorem Accounted.init : Accounted ([] : List (Sent R S)) Progress.init := ⟨rfl, rfl, rfl, rfl⟩

theorem Accounted.advance {sent : List (Sent R S)} {progress : Progress} (h : Accounted sent progress) (s : Sent R S)
    (hstep : s.batch.step = progress.step) : Accounted (sent ++ [s]) (progress.advance s.trainRollouts) where
  steps := by
    rw [List.map_append, h.steps, List.map_singleton, hstep]
    exact List.range_succ.symm
  tokens := by simp [Progress.advance, h.tokens]
  samples := by simp [Progress.advance, h.samples]
  problems := by simp [Progress.advance, h.problems]

theorem OutputDir.Accounts.append {dir dir' : OutputDir V R S} {progress : Progress} (h : dir.Accounts progress)
    {l : List (Sent R S)} (hsent : dir'.sent = dir.sent ++ l) : dir'.Accounts progress := by
  obtain ⟨sent, hsub, haccounted⟩ := h
  exact ⟨sent, hsent ▸ hsub.trans (List.sublist_append_left _ _), haccounted⟩

end Accounts

/-! ## Turns -/

section Turns

theorem Process.beginTurn_eq_ok {process process' : Process V R S} {dir dir' : OutputDir V R S} :
    process.beginTurn dir = .ok (process', dir') ↔ dir.evicted = none ∧
      process' = { process with phase := if process.done then .finishing else .turn } ∧
      dir' = if process.saves then process.save dir else dir := by
  unfold Process.beginTurn
  cases dir.evicted with
  | none =>
      constructor
      · intro h
        cases h
        exact ⟨rfl, rfl, rfl⟩
      · rintro ⟨-, rfl, rfl⟩
        rfl
  | some reason =>
      constructor
      · intro h
        cases h
      · rintro ⟨h, -⟩
        cases h

/-- The weights are there when the trainer broadcasts them, or has written them. -/
theorem Process.syncWeights_ok {boot : Boot R S} {step : Nat}
    (h : boot.config.weightBroadcast = .nccl ∨ boot.weightDir step = true) (hupdate : boot.updateWeights = .ok ()) :
    Process.syncWeights boot step = .ok () := by
  unfold Process.syncWeights
  rw [if_neg]
  · exact hupdate
  · rintro ⟨hnccl, hdir⟩
    rcases h with h | h
    · exact hnccl h
    · exact Bool.noConfusion (h.symm.trans hdir)

variable [DecidableEq V] [JsonValues V] [RewardedRollout R]

/-- A turn ends with a batch, or with the eviction. -/
theorem Process.endTurn_cases {process : Process V R S} {process' : Option (Process V R S)} {attempts : Nat → Generated V R}
    {dir dir' : OutputDir V R S} (h : process.endTurn attempts dir = .ok (process', dir')) :
    (∃ buffer trainRollouts,
      generate process.config attempts maxEmptyBatchAttempts 0 process.buffer = .ok (.trained buffer trainRollouts) ∧
      process' = some (process.send buffer trainRollouts dir).1 ∧ dir' = (process.send buffer trainRollouts dir).2) ∨
    ∃ reason, process' = none ∧ dir' = { dir with evicted := some reason } := by
  obtain ⟨outcome, hgenerate, h⟩ := bind_eq_ok.1 h
  cases outcome with
  | trained buffer trainRollouts =>
      cases h
      exact .inl ⟨buffer, trainRollouts, hgenerate, rfl, rfl⟩
  | allFiltered numRollouts =>
      cases h
      exact .inr ⟨_, rfl, rfl⟩

/-- A turn whose batch has a trainable rollout sends it. -/
theorem Process.endTurn_trained {process : Process V R S} {attempts : Nat → Generated V R} {buffer : Buffer V R}
    {trainRollouts : List (R × Bool)}
    (h : generate process.config attempts maxEmptyBatchAttempts 0 process.buffer = .ok (.trained buffer trainRollouts))
    (dir : OutputDir V R S) : process.endTurn attempts dir =
      .ok (some (process.send buffer trainRollouts dir).1, (process.send buffer trainRollouts dir).2) := by
  unfold Process.endTurn
  rw [h, ok_bind]
  rfl

/-- The first attempt with a trainable rollout is the batch. -/
theorem generate_first {config : Config R S} {attempts : Nat → Generated V R} {buffer buffer' : Buffer V R}
    (hops : (attempts 0).ops.foldlM (fun buffer op => op.run config.buffer buffer) buffer = .ok buffer')
    (htrainable : 0 < (config.grade (attempts 0).rollouts).countP (fun r => !r.2)) :
    generate config attempts maxEmptyBatchAttempts 0 buffer =
      .ok (.trained buffer' (config.grade (attempts 0).rollouts)) := by
  show (_ >>= _) = _
  refine bind_eq_ok.2 ⟨buffer', hops, ?_⟩
  exact if_pos htrainable

/-- A trained batch has a rollout that is not filtered, and the buffer still holds its examples. -/
theorem generate_trained {envs : Dict String (Dataset V)} (hids : IdsDistinct envs) {config : Config R S}
    {attempts : Nat → Generated V R} {n numRollouts : Nat} {buffer buffer' : Buffer V R} {trainRollouts : List (R × Bool)}
    (hold : buffer.Holds envs) (h : generate config attempts n numRollouts buffer = .ok (.trained buffer' trainRollouts)) :
    buffer'.Holds envs ∧ (∃ rollouts, trainRollouts = config.grade rollouts) ∧ 0 < trainRollouts.countP (fun r => !r.2) := by
  induction n generalizing buffer numRollouts with
  | zero => cases h
  | succ n ih =>
      obtain ⟨buffer₁, hops, h⟩ := bind_eq_ok.1 h
      have hold₁ : buffer₁.Holds envs :=
        foldlM_preserves (P := Buffer.Holds envs) (fun s op s' hs hstep => by
          have hrun : op.run config.buffer s = .ok s' := hstep
          exact hs.step hids hrun) hops hold
      dsimp only at h
      split_ifs at h with hcount
      · cases h
        exact ⟨hold₁, ⟨_, rfl⟩, hcount⟩
      · exact ih hold₁ h

/-- What is resumed was in the checkpoint, or is as it was. -/
theorem Process.resume_cases {boot : Boot R S} {ckpt : CheckpointConfig} {step : Nat} {new buffer : Buffer V R}
    {dir : OutputDir V R S} {progress : Progress} (h : Process.resume boot ckpt step new dir = .ok (progress, buffer)) :
    (progress = Progress.init ∨ ∃ checkpoint, dir.checkpoints.get? step = some checkpoint ∧
    checkpoint.progress = .whole progress) ∧
      (buffer = new ∨ ∃ saved, new.load boot.config.buffer boot.draws saved = .ok buffer) := by
  obtain ⟨-, -, h⟩ := bind_eq_ok.1 h
  split at h
  · cases h
  · rename_i checkpoint hget
    obtain ⟨⟨progress₁, buffer₁⟩, hload, h⟩ := bind_eq_ok.1 h
    obtain ⟨-, -, h⟩ := bind_eq_ok.1 h
    cases h
    obtain ⟨hprogress, hbuffer⟩ := CheckpointManager.load_eq_ok hload
    exact ⟨hprogress.imp_right fun hwhole => ⟨checkpoint, hget, hwhole⟩, hbuffer⟩

/-- Resuming a checkpoint whose save was completed, with all of it. -/
theorem Process.resume_saved {boot : Boot R S} {step : Nat} {dir : OutputDir V R S} {checkpoint : Checkpoint V R}
    {ckpt : CheckpointConfig} {progress : Progress} {saved new loaded : Buffer V R}
    (hmode : boot.config.weightBroadcast ≠ .filesystem .delta) (hget : dir.checkpoints.get? step = some checkpoint)
    (hskip : ckpt.skipProgress = false ∧ ckpt.skipBuffer = false) (hsaved : checkpoint.Saved progress saved)
    (hload : new.load boot.config.buffer boot.draws saved.save = .ok loaded)
    (hsync : Process.syncWeights boot progress.step = .ok ()) :
    Process.resume boot ckpt step new dir = .ok (progress, loaded) := by
  unfold Process.resume
  rw [raiseIf_of_not hmode, ok_bind, hget]
  dsimp only
  rw [CheckpointManager.load_saved hskip hsaved hload, ok_bind]
  dsimp only
  rw [hsync, ok_bind]
  rfl

/-- A process starts with new values, or with those of its checkpoint. -/
theorem Process.start_cases {envs : Dict String (Dataset V)} {boot : Boot R S} {dir : OutputDir V R S}
    {process : Process V R S}
    (h : Process.start envs boot dir = .ok process) : process.phase = .top ∧ ∃ new, Buffer.init envs = .ok new ∧
      (process.progress = Progress.init ∨ ∃ step checkpoint, dir.checkpoints.get? step = some checkpoint ∧
        checkpoint.progress = .whole process.progress) ∧
      (process.buffer = new ∨ ∃ saved, new.load boot.config.buffer boot.draws saved = .ok process.buffer) := by
  obtain ⟨new, hinit, h⟩ := bind_eq_ok.1 h
  split at h
  · rename_i step ckpt _ _
    obtain ⟨⟨progress, buffer⟩, hresume, h⟩ := bind_eq_ok.1 h
    cases h
    obtain ⟨hprogress, hbuffer⟩ := Process.resume_cases hresume
    exact ⟨rfl, new, hinit, hprogress.imp_right fun hwhole => ⟨step, hwhole⟩, hbuffer⟩
  · cases h
    exact ⟨rfl, new, hinit, .inl rfl, .inl rfl⟩

theorem Process.start_resume {envs : Dict String (Dataset V)} {boot : Boot R S} {step : Nat} {dir : OutputDir V R S}
    {ckpt : CheckpointConfig} {progress : Progress} {new loaded : Buffer V R} (hstep : boot.resumeStep = some step)
    (hckpt : boot.config.ckpt = some ckpt) (hinit : Buffer.init envs = .ok new)
    (hresume : Process.resume boot ckpt step new dir = .ok (progress, loaded)) :
    Process.start envs boot dir = .ok ⟨boot.config, progress, loaded, true, .top⟩ := by
  unfold Process.start
  rw [hinit, ok_bind, hstep, hckpt]
  dsimp only
  rw [hresume, ok_bind]
  rfl

end Turns

/-! ## Runs -/

section Runs

variable {envs : Dict String (Dataset V)} [RewardedRollout R]

namespace OutputDir.Keeps

theorem append {dir dir' : OutputDir V R S} {step : Nat} {checkpoint : Checkpoint V R} (h : dir.Keeps envs step checkpoint)
    {l : List (Sent R S)} (hsent : dir'.sent = dir.sent ++ l) : dir'.Keeps envs step checkpoint where
  progress progress hprogress := by
    obtain ⟨hstep, haccounts⟩ := h.progress progress hprogress
    exact ⟨hstep, haccounts.append hsent⟩
  saved := h.saved

end OutputDir.Keeps

namespace Cluster.Consistent

theorem phase {dir : OutputDir V R S} {process : Process V R S}
    (h : Cluster.Consistent envs ⟨dir, some process⟩) (phase : Phase) :
    Cluster.Consistent envs ⟨dir, some { process with phase := phase }⟩ where
  process process' hprocess := by
    cases hprocess
    exact h.process process rfl
  checkpoints := h.checkpoints
  sent := h.sent

/-- The checkpoint of a completed save is the process's. -/
theorem save {dir : OutputDir V R S} {process : Process V R S} (h : Cluster.Consistent envs ⟨dir, some process⟩) :
    Cluster.Consistent envs ⟨process.save dir, some process⟩ where
  process := h.process
  checkpoints step checkpoint hget := by
    obtain ⟨haccounts, hold⟩ := h.process process rfl
    rcases CheckpointManager.get?_save hget with ⟨hstep, hsaved, hfiles⟩ | hget
    · refine ⟨fun progress hprogress => ?_, fun progress buffer hcompleted => ?_⟩
      · have heq := hfiles.progress.symm.trans hprogress
        cases heq
        exact ⟨hstep, haccounts⟩
      · have heq := hsaved.symm.trans hcompleted
        cases heq
        exact ⟨hfiles, hold⟩
    · exact (h.checkpoints step checkpoint hget).append (List.append_nil _).symm
  sent := h.sent

/-- A save that stopped leaves the old progress, the new one, or none. -/
theorem saveCut {dir : OutputDir V R S} {process : Process V R S}
    (h : Cluster.Consistent envs ⟨dir, some process⟩) (n : Nat) :
    Cluster.Consistent envs ⟨process.saveCut n dir, some process⟩ where
  process := h.process
  checkpoints step checkpoint hget := by
    rcases CheckpointManager.get?_saveCut hget with ⟨hstep, hsaved, hfiles⟩ | hget
    · refine ⟨fun progress hprogress => ?_, fun progress buffer hcompleted => ?_⟩
      · rcases hfiles progress hprogress with rfl | ⟨old, hold, hwhole⟩
        · exact ⟨hstep, (h.process process rfl).1⟩
        · exact (h.checkpoints step old hold).progress progress hwhole
      · cases hsaved.symm.trans hcompleted
    · exact (h.checkpoints step checkpoint hget).append (List.append_nil _).symm
  sent := h.sent

theorem stop {dir : OutputDir V R S} {process : Option (Process V R S)} (h : Cluster.Consistent envs ⟨dir, process⟩) :
    Cluster.Consistent envs ⟨dir, none⟩ where
  process _ hprocess := by cases hprocess
  checkpoints := h.checkpoints
  sent := h.sent

theorem evict {dir : OutputDir V R S} {process : Option (Process V R S)} (h : Cluster.Consistent envs ⟨dir, process⟩)
    (reason : Option String) : Cluster.Consistent envs ⟨{ dir with evicted := reason }, process⟩ where
  process := h.process
  checkpoints step checkpoint hget := (h.checkpoints step checkpoint hget).append (List.append_nil _).symm
  sent := h.sent

theorem send {dir : OutputDir V R S} {process : Process V R S} {buffer : Buffer V R} {trainRollouts : List (R × Bool)}
    (h : Cluster.Consistent envs ⟨dir, some process⟩) (hold : buffer.Holds envs)
    (hgraded : ∃ rollouts, trainRollouts = process.config.grade rollouts)
    (htrainable : 0 < trainRollouts.countP fun r => !r.2) :
    Cluster.Consistent envs
      ⟨(process.send buffer trainRollouts dir).2, some (process.send buffer trainRollouts dir).1⟩ where
  process process' hprocess := by
    cases hprocess
    obtain ⟨⟨sent, hsub, haccounted⟩, -⟩ := h.process process rfl
    exact ⟨⟨_, hsub.append (List.Sublist.refl _), haccounted.advance ⟨⟨_, _⟩, _, _⟩ rfl⟩, hold⟩
  checkpoints step checkpoint hget := (h.checkpoints step checkpoint hget).append rfl
  sent s hs := by
    rcases List.mem_append.1 hs with hs | hs
    · exact h.sent s hs
    · cases List.mem_singleton.1 hs
      exact ⟨hgraded, htrainable, rfl⟩

variable [DecidableEq V] [JsonValues V]

/-- A process starts anew or from a checkpoint, whose files may be of two saves. -/
theorem boot (hids : IdsDistinct envs) {dir : OutputDir V R S} {boot : Boot R S} {process : Process V R S}
    (h : Cluster.Consistent envs ⟨dir, none⟩) (hstart : Process.start envs boot dir = .ok process) :
    Cluster.Consistent envs ⟨dir, some process⟩ where
  process process' hprocess := by
    cases hprocess
    obtain ⟨-, new, hinit, hprogress, hbuffer⟩ := Process.start_cases hstart
    have hnew : new.Holds envs := Buffer.Holds.init hids hinit
    refine ⟨?_, ?_⟩
    · rcases hprogress with hprogress | ⟨step, checkpoint, hget, hwhole⟩
      · rw [hprogress]
        exact ⟨[], List.nil_sublist _, Accounted.init⟩
      · exact ((h.checkpoints step checkpoint hget).progress _ hwhole).2
    · rcases hbuffer with hbuffer | ⟨saved, hload⟩
      · rw [hbuffer]
        exact hnew
      · exact hnew.load hids hload
  checkpoints := h.checkpoints
  sent := h.sent

end Cluster.Consistent

variable [DecidableEq V] [JsonValues V]

/-- Every step keeps the accounts. -/
theorem Cluster.Consistent.step (hids : IdsDistinct envs) {cluster cluster' : Cluster V R S} {label : ClusterStep V R S}
    (h : cluster.Consistent envs) (hstep : Cluster.Step envs cluster label cluster') : cluster'.Consistent envs := by
  cases hstep with
  | boot hstart => exact h.boot hids hstart
  | beginTurn _ hbegin =>
      obtain ⟨-, rfl, rfl⟩ := Process.beginTurn_eq_ok.1 hbegin
      split_ifs
      · exact h.save.phase _
      · exact h.save.phase _
      · exact h.phase _
      · exact h.phase _
  | endTurn _ hops hend =>
      rcases Process.endTurn_cases hend with ⟨buffer, trainRollouts, hgenerate, rfl, rfl⟩ | ⟨reason, rfl, rfl⟩
      · obtain ⟨hold, hgraded, htrainable⟩ := generate_trained hids (h.process _ rfl).2 hgenerate
        exact h.send hold hgraded htrainable
      · exact (h.evict (some reason)).stop
  | finish _ =>
      unfold Process.finish
      split_ifs
      · exact h.save.stop
      · exact h.stop
  | crash => exact h.stop
  | crashSaving _ => exact (h.saveCut _).stop
  | evict => exact h.evict _

theorem Cluster.consistent_of_reachable (hids : IdsDistinct envs) {cluster : Cluster V R S}
    (h : (clusterSystem envs).Reachable cluster) : cluster.Consistent envs := by
  refine h.invariant (I := Cluster.Consistent envs) ?_ fun _ _ _ hconsistent hstep => hconsistent.step hids hstep
  rintro _ rfl
  refine ⟨fun process hprocess => ?_, fun step checkpoint hget => ?_, fun s hs => ?_⟩
  · cases hprocess
  · cases hget
  · cases hs

/-- **Main.** In every run, with crashes, evictions and restarts from any checkpoint, what a process or a checkpoint counts
is one batch a step, and every batch sent is the samples of trainable rollouts; the difficulty pools partition the
datasets. -/
theorem orchestrate_consistent (hown : OwnIdsDistinct envs) {cluster : Cluster V R S}
    (h : (clusterSystem envs).Reachable cluster) :
    cluster.Consistent envs ∧ ∀ process, cluster.process = some process → Partitioned envs process.buffer := by
  have hconsistent := Cluster.consistent_of_reachable hown.ids h
  exact ⟨hconsistent, fun process hprocess => (hconsistent.process process hprocess).2.partitioned hown.ids⟩

/-- **Main.** A process that resumes a completed save, with all of it, no fraction to convert and the weights at hand, has
its progress, its pools and its pending rollouts. -/
theorem resume_restores (hown : OwnIdsDistinct envs) {cluster : Cluster V R S} (h : (clusterSystem envs).Reachable cluster)
    {step : Nat} {checkpoint : Checkpoint V R} (hget : cluster.dir.checkpoints.get? step = some checkpoint)
    {progress : Progress}
    {saved : Buffer V R} (hsaved : checkpoint.saved = some (progress, saved)) {boot : Boot R S}
    (hresume : boot.resumeStep = some step) {ckpt : CheckpointConfig} (hckpt : boot.config.ckpt = some ckpt)
    (hskip : ckpt.skipProgress = false ∧ ckpt.skipBuffer = false)
    (hmode : boot.config.weightBroadcast ≠ .filesystem .delta)
    (hweights : boot.config.weightBroadcast = .nccl ∨ boot.weightDir step = true) (hupdate : boot.updateWeights = .ok ())
    (hash : HashesDistinct boot.config.buffer envs)
    (hzero : boot.config.buffer.easyFraction = 0 ∧ boot.config.buffer.hardFraction = 0) {new : Buffer V R}
    (hinit : Buffer.init envs = .ok new) :
    progress.step = step ∧ Partitioned envs saved ∧
      ∃ process, Process.start envs boot cluster.dir = .ok process ∧ process.progress = progress ∧
        Buffer.Restores saved process.buffer := by
  have hkeeps := (Cluster.consistent_of_reachable hown.ids h).checkpoints step checkpoint hget
  obtain ⟨hfiles, hold⟩ := hkeeps.saved progress saved hsaved
  obtain ⟨hstep, -⟩ := hkeeps.progress progress hfiles.progress
  obtain ⟨loaded, hload, hrestores⟩ := Buffer.load_save hown.ids hash hold hinit hzero.1 hzero.2 boot.draws
  have hsync : Process.syncWeights boot progress.step = .ok () := Process.syncWeights_ok (by rwa [hstep]) hupdate
  exact ⟨hstep, hold.partitioned hown.ids, ⟨boot.config, progress, loaded, true, .top⟩,
    Process.start_resume hresume hckpt hinit (Process.resume_saved hmode hget hskip hfiles hload hsync), rfl, hrestores⟩

/-- This process is past the check for an eviction, with its batch to send. -/
def Cluster.InTurn (cluster : Cluster V R S) (process : Process V R S) : Prop :=
  cluster.process = some process ∧ process.phase = .turn

/-- What was sent since a cluster: nothing, or the batch of the process that was in a turn there, which is no longer in it. -/
def Cluster.SentSince (old cluster : Cluster V R S) : Prop :=
  (cluster.dir.sent = old.dir.sent ∧ ∀ process, cluster.InTurn process → old.InTurn process) ∨
    ((∀ process, ¬ cluster.InTurn process) ∧ ∃ process s, old.InTurn process ∧ s.batch.step = process.progress.step ∧
      cluster.dir.sent = old.dir.sent ++ [s])

/-- An evicted run begins no turn. -/
theorem Cluster.SentSince.step {old cluster cluster' : Cluster V R S} {label : ClusterStep V R S} (h : old.SentSince cluster)
    (hevicted : cluster.dir.evicted ≠ none) (hstep : Cluster.Step envs cluster label cluster') :
    cluster'.dir.evicted ≠ none ∧ old.SentSince cluster' := by
  have hstopped : ∀ dir : OutputDir V R S, dir.sent = cluster.dir.sent → old.SentSince ⟨dir, none⟩ := by
    intro dir hsent
    have hnone : ∀ process, ¬ Cluster.InTurn ⟨dir, none⟩ process := fun process hturn => by cases hturn.1
    rcases h with ⟨hsame, -⟩ | ⟨-, process, s, hturn, hs, hone⟩
    · exact .inl ⟨hsent.trans hsame, fun process hturn => absurd hturn (hnone process)⟩
    · exact .inr ⟨hnone, process, s, hturn, hs, hsent.trans hone⟩
  cases hstep with
  | @boot dir boot process hstart =>
      refine ⟨hevicted, ?_⟩
      have htop : ∀ process', ¬ Cluster.InTurn ⟨dir, some process⟩ process' := by
        rintro process' ⟨hprocess, hphase⟩
        cases hprocess
        cases (Process.start_cases hstart).1.symm.trans hphase
      rcases h with ⟨hsame, -⟩ | ⟨-, hone⟩
      · exact .inl ⟨hsame, fun process' hturn => absurd hturn (htop process')⟩
      · exact .inr ⟨htop, hone⟩
  | beginTurn _ hbegin => exact absurd (Process.beginTurn_eq_ok.1 hbegin).1 hevicted
  | @endTurn dir dir' process process' attempts hphase hops hend =>
      rcases Process.endTurn_cases hend with ⟨buffer, trainRollouts, -, rfl, rfl⟩ | ⟨reason, rfl, rfl⟩
      · refine ⟨hevicted, .inr ⟨?_, ?_⟩⟩
        · rintro process' ⟨hprocess, htop⟩
          cases hprocess
          cases htop
        · rcases h with ⟨hsame, hold⟩ | ⟨hnone, -⟩
          · exact ⟨process, _, hold process ⟨rfl, hphase⟩, rfl, congrArg (· ++ [_]) hsame⟩
          · exact absurd ⟨rfl, hphase⟩ (hnone process)
      · exact ⟨Option.some_ne_none _, hstopped _ rfl⟩
  | @finish dir process hphase =>
      unfold Process.finish
      split_ifs
      · exact ⟨hevicted, hstopped _ rfl⟩
      · exact ⟨hevicted, hstopped _ rfl⟩
  | crash => exact ⟨hevicted, hstopped _ rfl⟩
  | crashSaving _ => exact ⟨hevicted, hstopped _ rfl⟩
  | evict => exact ⟨Option.some_ne_none _, h⟩

/-- **Main.** Once the run is evicted, by the trainer or because every attempt was filtered, no batch is sent but that of a
turn in progress, whatever is started. -/
theorem evicted_stops {cluster cluster' : Cluster V R S} {labels : List (ClusterStep V R S)}
    (hevicted : cluster.dir.evicted ≠ none)
    (h : (clusterSystem envs).Run cluster labels cluster') :
    cluster'.dir.evicted ≠ none ∧ (cluster'.dir.sent = cluster.dir.sent ∨
      ∃ process s, cluster.InTurn process ∧ s.batch.step = process.progress.step ∧
        cluster'.dir.sent = cluster.dir.sent ++ [s]) := by
  have hsince : cluster'.dir.evicted ≠ none ∧ cluster.SentSince cluster' :=
    h.preserves (I := fun c => c.dir.evicted ≠ none ∧ cluster.SentSince c)
      (fun _ _ _ hc hstep => hc.2.step hc.1 hstep) ⟨hevicted, .inl ⟨rfl, fun _ hturn => hturn⟩⟩
  exact ⟨hsince.1, hsince.2.imp And.left And.right⟩

end Runs

/-! ### Two steps, a crash and a restart -/

/-- A checkpoint every step; nothing is filtered. -/
def mathConfig : Config ScoredRollout Nat where
  maxSteps := none
  ckpt := some ⟨some 1, false, false⟩
  weightBroadcast := .filesystem .full
  buffer := promptConfig
  grade rollouts := rollouts.map fun r => (r, false)
  interleave r := some [r.exampleId]
  mark _ s := s

def mathBoot (resumeStep : Option Nat) : Boot ScoredRollout Nat :=
  ⟨mathConfig, resumeStep, fun _ _ _ => 0, fun _ => true, .ok ()⟩

/-- The first example is solved, then the second is not. -/
def mathAttempts (solved : Bool) : Nat → Generated String ScoredRollout := fun _ =>
  if solved then ⟨[.update [⟨"math", 0, 1⟩]], [⟨"math", 0, 1⟩]⟩ else ⟨[], [⟨"math", 1, 0⟩]⟩

def mathProcess (progress : Progress) (buffer : Buffer String ScoredRollout) (isFirstStep : Bool) (phase : Phase) :
    Process String ScoredRollout Nat := ⟨mathConfig, progress, buffer, isFirstStep, phase⟩

def mathDir (checkpoints : CheckpointManager.Checkpoints String ScoredRollout) (sent : List (Sent ScoredRollout Nat)) :
    OutputDir String ScoredRollout Nat := ⟨checkpoints, sent, none⟩

def firstSent : Sent ScoredRollout Nat := ⟨⟨0, [0]⟩, mathConfig, [(⟨"math", 0, 1⟩, false)]⟩

def secondSent : Sent ScoredRollout Nat := ⟨⟨1, [1]⟩, mathConfig, [(⟨"math", 1, 0⟩, false)]⟩

def firstCheckpoint : Checkpoint String ScoredRollout where
  progress := .whole ⟨1, 1, 1, 1⟩
  easyExamples := .whole solvedBuffer.save.easyExamples
  hardExamples := .whole solvedBuffer.save.hardExamples
  rolloutBuffer := .whole solvedBuffer.save.rolloutBuffer
  saved := some (⟨1, 1, 1, 1⟩, solvedBuffer)

theorem mathAttempts_ofScheduler (solved : Bool) (n : Nat) : ∀ op ∈ (mathAttempts solved n).ops, OfScheduler op := by
  intro op hop
  cases solved with
  | true =>
      cases List.mem_singleton.1 hop
      trivial
  | false => cases hop

theorem mathAttempts_trainable (solved : Bool) :
    0 < (mathConfig.grade (mathAttempts solved 0).rollouts).countP (fun r => !r.2) := by
  cases solved with
  | true => exact Nat.zero_lt_one
  | false => exact Nat.zero_lt_one

theorem endTurn_solved : (mathProcess Progress.init unsolvedBuffer true .turn).endTurn (mathAttempts true) (mathDir ∅ []) =
    .ok (some (mathProcess ⟨1, 1, 1, 1⟩ solvedBuffer false .top), mathDir ∅ [firstSent]) := by
  have hops : (mathAttempts true 0).ops.foldlM (fun buffer op => op.run mathConfig.buffer buffer) unsolvedBuffer =
      (.ok solvedBuffer : Except PyException (Buffer String ScoredRollout)) := by
    show (unsolvedBuffer.update promptConfig [⟨"math", 0, 1⟩] >>= pure) = _
    rw [solvedBuffer_update]
    rfl
  exact (Process.endTurn_trained (generate_first hops (mathAttempts_trainable true)) _).trans rfl

theorem beginTurn_solved : (mathProcess ⟨1, 1, 1, 1⟩ solvedBuffer false .top).beginTurn (mathDir ∅ [firstSent]) =
    .ok (mathProcess ⟨1, 1, 1, 1⟩ solvedBuffer false .turn, mathDir ((∅ : Dict Nat _).insert 1 firstCheckpoint)
      [firstSent]) := by
  have hsaves : (mathProcess ⟨1, 1, 1, 1⟩ solvedBuffer false .top).saves = true := rfl
  refine Process.beginTurn_eq_ok.2 ⟨rfl, rfl, ?_⟩
  rw [if_pos hsaves]
  unfold Process.save CheckpointManager.save
  rw [perform_saveWrites]
  rfl

theorem endTurn_unsolved (dir : OutputDir String ScoredRollout Nat) :
    (mathProcess ⟨1, 1, 1, 1⟩ solvedBuffer false .turn).endTurn (mathAttempts false) dir =
      .ok (some (mathProcess ⟨2, 2, 2, 2⟩ solvedBuffer false .top), { dir with sent := dir.sent ++ [secondSent] }) := by
  have hops : (mathAttempts false 0).ops.foldlM (fun buffer op => op.run mathConfig.buffer buffer) solvedBuffer =
      (.ok solvedBuffer : Except PyException (Buffer String ScoredRollout)) := rfl
  exact (Process.endTurn_trained (generate_first hops (mathAttempts_trainable false)) _).trans rfl

/-- What the first process leaves: a checkpoint and two batches. -/
def crashedDir : OutputDir String ScoredRollout Nat :=
  mathDir ((∅ : Dict Nat _).insert 1 firstCheckpoint) [firstSent, secondSent]

theorem crashed_reachable : (clusterSystem (mathEnvs (0, 1))).Reachable ⟨crashedDir, none⟩ := by
  have hboot : Process.start (mathEnvs (0, 1)) (mathBoot none) (mathDir ∅ []) =
      .ok (mathProcess Progress.init unsolvedBuffer true .top) := rfl
  have hinit : (clusterSystem (mathEnvs (0, 1))).Reachable ⟨mathDir ∅ [], none⟩ := System.Reachable.of_init rfl
  have hstarted := hinit.step (Cluster.Step.boot hboot)
  have hbegun := hstarted.step (Cluster.Step.beginTurn rfl (Process.beginTurn_eq_ok.2 ⟨rfl, rfl, rfl⟩))
  have hfirst := hbegun.step (Cluster.Step.endTurn rfl (mathAttempts_ofScheduler true) endTurn_solved)
  have hsaved := hfirst.step (Cluster.Step.beginTurn rfl beginTurn_solved)
  have hsecond := hsaved.step (Cluster.Step.endTurn rfl (mathAttempts_ofScheduler false) (endTurn_unsolved _))
  exact hsecond.step Cluster.Step.crash

theorem resume_first : ∃ loaded : Buffer String ScoredRollout,
    Process.start (mathEnvs (0, 1)) (mathBoot (some 1)) crashedDir = .ok (mathProcess ⟨1, 1, 1, 1⟩ loaded true .top) := by
  have hold := Buffer.holds_of_reachable mathEnvs_ownIds.ids solvedBuffer_reachable
  obtain ⟨loaded, hload, -⟩ :=
    Buffer.load_save mathEnvs_ownIds.ids (mathEnvs_hashesDistinct _) hold unsolvedBuffer_init rfl rfl
    (fun _ _ _ => 0)
  have hmode : (mathBoot (some 1)).config.weightBroadcast ≠ .filesystem .delta := by decide
  exact ⟨loaded, Process.start_resume rfl rfl unsolvedBuffer_init
    (Process.resume_saved hmode rfl ⟨rfl, rfl⟩ ⟨rfl, rfl⟩ hload rfl)⟩

/-- The second batch will be sent again after the restart: the progress counts it once. -/
theorem orchestrate_consistent_example : ∃ loaded : Buffer String ScoredRollout,
    Process.start (mathEnvs (0, 1)) (mathBoot (some 1)) crashedDir = .ok (mathProcess ⟨1, 1, 1, 1⟩ loaded true .top) ∧
    crashedDir.Accounts ⟨1, 1, 1, 1⟩ ∧ Partitioned (mathEnvs (0, 1)) loaded := by
  obtain ⟨loaded, hboot⟩ := resume_first
  obtain ⟨hconsistent, hpartitioned⟩ :=
    orchestrate_consistent mathEnvs_ownIds (crashed_reachable.step (Cluster.Step.boot hboot))
  exact ⟨loaded, hboot, (hconsistent.process _ rfl).1, hpartitioned _ rfl⟩

theorem resume_restores_example : ∃ process : Process String ScoredRollout Nat,
    Process.start (mathEnvs (0, 1)) (mathBoot (some 1)) crashedDir = .ok process ∧ process.progress = ⟨1, 1, 1, 1⟩ ∧
      Buffer.Restores solvedBuffer process.buffer := by
  have hget : crashedDir.checkpoints.get? 1 = some firstCheckpoint := rfl
  have hmode : (mathBoot (some 1)).config.weightBroadcast ≠ .filesystem .delta := by decide
  have hskip : (⟨some 1, false, false⟩ : CheckpointConfig).skipProgress = false ∧
      (⟨some 1, false, false⟩ : CheckpointConfig).skipBuffer = false := ⟨rfl, rfl⟩
  obtain ⟨-, -, hstart⟩ := resume_restores mathEnvs_ownIds crashed_reachable hget rfl rfl rfl hskip hmode (.inr rfl) rfl
    (mathEnvs_hashesDistinct _) ⟨rfl, rfl⟩ unsolvedBuffer_init
  exact hstart

/-- A run that is evicted during its second turn. -/
def evictedCluster : Cluster String ScoredRollout Nat :=
  ⟨⟨∅, [firstSent], some "stopped"⟩, some (mathProcess ⟨1, 1, 1, 1⟩ solvedBuffer false .turn)⟩

theorem evicted_stops_example : ∃ cluster : Cluster String ScoredRollout Nat,
    (clusterSystem (mathEnvs (0, 1))).Run evictedCluster
    [.endTurn (mathAttempts false), .crash, .boot (mathBoot none)] cluster ∧ cluster.dir.evicted ≠ none ∧
      ∃ s, cluster.dir.sent = [firstSent, s] := by
  have hsent : (clusterSystem (mathEnvs (0, 1))).Run evictedCluster [.endTurn (mathAttempts false)] _ :=
    System.Run.single (Cluster.Step.endTurn rfl (mathAttempts_ofScheduler false) (endTurn_unsolved _))
  have hboot : Process.start (mathEnvs (0, 1)) (mathBoot none) ⟨∅, [firstSent, secondSent], some "stopped"⟩ =
      .ok (mathProcess Progress.init unsolvedBuffer true .top) := rfl
  have hrun : (clusterSystem (mathEnvs (0, 1))).Run evictedCluster
      [.endTurn (mathAttempts false), .crash, .boot (mathBoot none)] _ :=
    (hsent.snoc Cluster.Step.crash).snoc (Cluster.Step.boot hboot)
  obtain ⟨hstays, hsame | ⟨process, s, -, -, hone⟩⟩ := evicted_stops (Option.some_ne_none _) hrun
  · cases hsame
  · exact ⟨_, hrun, hstays, s, hone⟩

end AuroraRl.Orchestrate
