import AuroraRl.Orchestrator.BufferResume

/-!
# The checkpoints of the orchestrator

* `SavedFile`, `Checkpoint` : the files of a checkpoint directory, any of which may be missing or cut off;
* `writeLines`, `saveWrites` : what `save` does to them, in order;
* `CheckpointManager.save`, `saveCut`, `load` : a save, one that stops on the way, and reading a checkpoint;
* `get?_save`, `get?_saveCut` : the checkpoints after a save, and after one that stopped.
-/

namespace AuroraRl.Orchestrate
open Orchestrator Difficulty

variable {V R : Type}

/-! ## Files -/

/-- `Progress`. -/
structure Progress where
  step : Nat
  totalTokens : Nat
  totalSamples : Nat
  totalProblems : Nat
  deriving DecidableEq

def Progress.init : Progress := ⟨0, 0, 0, 0⟩

/-- A file; a `torn` one ends within an object. -/
inductive SavedFile (α : Type)
  | missing
  | torn
  | whole (a : α)

namespace SavedFile

variable {α : Type}

/-- Reading a file raises when it is missing or torn. -/
def read (kind : PyError) (name : String) : SavedFile α → Except PyException α
  | missing => .error ⟨.fileNotFoundError, name⟩
  | torn => .error ⟨kind, name⟩
  | whole a => .ok a

theorem read_eq_ok {kind : PyError} {name : String} {file : SavedFile α} {a : α} :
    file.read kind name = .ok a ↔ file = whole a := by
  cases file <;> simp [read]

end SavedFile

/-- The directory of a checkpoint. `saved` is no file: it is what the last save had that was completed, `none` once another
was begun and not completed. -/
structure Checkpoint (V R : Type) where
  progress : SavedFile Progress
  easyExamples : SavedFile (List (Example V))
  hardExamples : SavedFile (List (Example V))
  rolloutBuffer : SavedFile (List R)
  saved : Option (Progress × Buffer V R)

/-- The directory when it is made. -/
def Checkpoint.empty : Checkpoint V R := ⟨.missing, .missing, .missing, .missing, none⟩

/-- `Buffer.load` reads its files one after the other. -/
def Checkpoint.buffer (checkpoint : Checkpoint V R) : Except PyException (BufferCheckpoint V R) := do
  let easyExamples ← checkpoint.easyExamples.read .valueError "easy_examples.jsonl"
  let hardExamples ← checkpoint.hardExamples.read .valueError "hard_examples.jsonl"
  let rolloutBuffer ← checkpoint.rolloutBuffer.read .valueError "rollout_buffer.jsonl"
  return ⟨easyExamples, hardExamples, rolloutBuffer⟩

/-- A change of the directory. -/
abbrev Write (V R : Type) := Checkpoint V R → Checkpoint V R

/-- `write_jsonl`: the file is emptied, then each of its lines is begun and ended. -/
def writeLines {α : Type} (set : SavedFile (List α) → Write V R) (l : List α) : List (Write V R) :=
  set (.whole []) :: (List.range l.length).flatMap fun i => [set .torn, set (.whole (l.take (i + 1)))]

/-- `save_to_path`. -/
def saveWrites (progress : Progress) (checkpoint : BufferCheckpoint V R) : List (Write V R) :=
  [fun c => { c with progress := .torn }, fun c => { c with progress := .whole progress }] ++
    writeLines (fun file c => { c with easyExamples := file }) checkpoint.easyExamples ++
    writeLines (fun file c => { c with hardExamples := file }) checkpoint.hardExamples ++
    writeLines (fun file c => { c with rolloutBuffer := file }) checkpoint.rolloutBuffer

def perform (writes : List (Write V R)) (checkpoint : Checkpoint V R) : Checkpoint V R :=
  writes.foldl (fun checkpoint write => write checkpoint) checkpoint

/-- `CheckpointConfig`. -/
structure CheckpointConfig where
  interval : Option Nat
  skipProgress : Bool
  skipBuffer : Bool

namespace CheckpointManager

abbrev Checkpoints (V R : Type) := Dict Nat (Checkpoint V R)

/-- `save`, in the directory of the step. -/
def save (progress : Progress) (buffer : Buffer V R) (checkpoints : Checkpoints V R) : Checkpoints V R :=
  checkpoints.insert progress.step
    { perform (saveWrites progress buffer.save) ((checkpoints.get? progress.step).getD .empty) with
      saved := some (progress, buffer) }

def saveCut (n : Nat) (progress : Progress) (buffer : Buffer V R) (checkpoints : Checkpoints V R) : Checkpoints V R :=
  checkpoints.insert progress.step
    { perform ((saveWrites progress buffer.save).take n) ((checkpoints.get? progress.step).getD .empty) with
      saved := none }

def load [DecidableEq V] [JsonValues V] [RolloutOutput R] (ckpt : CheckpointConfig) (config : BufferConfig)
    (draws : String → Pool → Nat → Nat) (checkpoint : Checkpoint V R) (progress : Progress) (buffer : Buffer V R) :
    Except PyException (Progress × Buffer V R) := do
  let progress ← (if ckpt.skipProgress then .ok progress else checkpoint.progress.read .runtimeError "progress.pt")
  let buffer ← (if ckpt.skipBuffer then .ok buffer else checkpoint.buffer >>= fun saved => buffer.load config draws saved)
  return (progress, buffer)

theorem load_eq_ok [DecidableEq V] [JsonValues V] [RolloutOutput R] {ckpt : CheckpointConfig} {config : BufferConfig}
    {draws : String → Pool → Nat → Nat} {checkpoint : Checkpoint V R} {progress progress' : Progress}
    {buffer buffer' : Buffer V R} (h : load ckpt config draws checkpoint progress buffer = .ok (progress', buffer')) :
    (progress' = progress ∨ checkpoint.progress = .whole progress') ∧
      (buffer' = buffer ∨ ∃ saved, buffer.load config draws saved = .ok buffer') := by
  obtain ⟨progress₁, hprogress, h⟩ := bind_eq_ok.1 h
  have hread : progress₁ = progress ∨ checkpoint.progress = .whole progress₁ := by
    split_ifs at hprogress
    · cases hprogress
      exact .inl rfl
    · exact .inr (SavedFile.read_eq_ok.1 hprogress)
  obtain ⟨buffer₁, hbuffer, h⟩ := bind_eq_ok.1 h
  cases h
  refine ⟨hread, ?_⟩
  split_ifs at hbuffer
  · cases hbuffer
    exact .inl rfl
  · obtain ⟨saved, -, hload⟩ := bind_eq_ok.1 hbuffer
    exact .inr ⟨saved, hload⟩

end CheckpointManager

/-! ## Writes -/

section Writes

variable {α : Type} {checkpoint : Checkpoint V R} {progress : Progress} {buffer : BufferCheckpoint V R}

theorem perform_append (l l' : List (Write V R)) (checkpoint : Checkpoint V R) :
    perform (l ++ l') checkpoint = perform l' (perform l checkpoint) := List.foldl_append ..

theorem perform_induct {P : Checkpoint V R → Prop} {writes : List (Write V R)}
    (hwrites : ∀ write ∈ writes, ∀ c, P c → P (write c)) (h : P checkpoint) : P (perform writes checkpoint) := by
  induction writes generalizing checkpoint with
  | nil => exact h
  | cons write writes ih =>
      exact ih (fun w hw => hwrites w (List.mem_cons_of_mem _ hw)) (hwrites write List.mem_cons_self _ h)

theorem mem_writeLines {set : SavedFile (List α) → Write V R} {l : List α} {write : Write V R}
    (h : write ∈ writeLines set l) : ∃ file, write = set file := by
  rcases List.mem_cons.1 h with rfl | h
  · exact ⟨_, rfl⟩
  · obtain ⟨i, -, h⟩ := List.mem_flatMap.1 h
    rcases List.mem_cons.1 h with rfl | h
    · exact ⟨_, rfl⟩
    · exact ⟨_, List.mem_singleton.1 h⟩

/-- All lines are in the file in the end, whatever was there. -/
theorem perform_writeLines {set : SavedFile (List α) → Write V R}
    (hset : ∀ file file' c, set file (set file' c) = set file c) (l : List α) (checkpoint : Checkpoint V R) :
    perform (writeLines set l) checkpoint = set (.whole l) checkpoint := by
  have hlines : ∀ n ≤ l.length, perform ((List.range n).flatMap fun i => [set .torn, set (.whole (l.take (i + 1)))])
      (set (.whole []) checkpoint) = set (.whole (l.take n)) checkpoint := by
    intro n
    induction n with
    | zero => exact fun _ => rfl
    | succ n ih =>
        intro hn
        rw [List.range_succ, List.flatMap_append, perform_append, ih (Nat.le_of_succ_le hn)]
        show set _ (set _ (set _ checkpoint)) = _
        rw [hset, hset]
  have hall := hlines l.length le_rfl
  rw [List.take_length] at hall
  exact hall

/-- What is written in whole or in part: `progress.pt` is as before, torn, or the new one. -/
theorem progress_perform (checkpoint : Checkpoint V R) {writes : List (Write V R)}
    (h : ∀ write ∈ writes, write ∈ saveWrites progress buffer) :
    (perform writes checkpoint).progress = checkpoint.progress ∨ (perform writes checkpoint).progress = .torn ∨
      (perform writes checkpoint).progress = .whole progress := by
  refine perform_induct (P := fun c => c.progress = checkpoint.progress ∨ c.progress = .torn ∨ c.progress = .whole progress)
    (fun write hwrite c hc => ?_) (.inl rfl)
  have hmem := h write hwrite
  unfold saveWrites at hmem
  simp only [List.mem_append, List.mem_cons, List.not_mem_nil, or_false] at hmem
  rcases hmem with (((rfl | rfl) | hmem) | hmem) | hmem
  · exact .inr (.inl rfl)
  · exact .inr (.inr rfl)
  all_goals
    obtain ⟨file, rfl⟩ := mem_writeLines hmem
    exact hc

/-- A completed save leaves nothing of what was there. -/
theorem perform_saveWrites : perform (saveWrites progress buffer) checkpoint =
    { checkpoint with
      progress := .whole progress
      easyExamples := .whole buffer.easyExamples
      hardExamples := .whole buffer.hardExamples
      rolloutBuffer := .whole buffer.rolloutBuffer } := by
  unfold saveWrites
  rw [perform_append, perform_append, perform_append, perform_writeLines, perform_writeLines, perform_writeLines]
  · rfl
  all_goals exact fun _ _ _ => rfl

end Writes

/-- The files of a save that was completed. -/
structure Checkpoint.Saved (checkpoint : Checkpoint V R) (progress : Progress) (buffer : Buffer V R) : Prop where
  progress : checkpoint.progress = .whole progress
  buffer : checkpoint.buffer = .ok buffer.save

namespace CheckpointManager

variable {checkpoints : Checkpoints V R} {progress : Progress} {buffer : Buffer V R} {step : Nat}
    {checkpoint : Checkpoint V R}

/-- A completed save is read back. -/
theorem load_saved [DecidableEq V] [JsonValues V] [RolloutOutput R] {ckpt : CheckpointConfig} {config : BufferConfig}
    {draws : String → Pool → Nat → Nat} {new loaded : Buffer V R}
    (hskip : ckpt.skipProgress = false ∧ ckpt.skipBuffer = false)
    (hsaved : checkpoint.Saved progress buffer) (hload : new.load config draws buffer.save = .ok loaded) (old : Progress) :
    load ckpt config draws checkpoint old new = .ok (progress, loaded) := by
  unfold load
  rw [hskip.1, hskip.2, hsaved.progress, hsaved.buffer]
  simp only [Bool.false_eq_true, if_false, SavedFile.read, ok_bind, hload]
  rfl

theorem get?_save (h : (save progress buffer checkpoints).get? step = some checkpoint) :
    (progress.step = step ∧ checkpoint.saved = some (progress, buffer) ∧ checkpoint.Saved progress buffer) ∨
      checkpoints.get? step = some checkpoint := by
  unfold save at h
  rw [Dict.get?_insert] at h
  split_ifs at h with hstep
  · cases h
    rw [perform_saveWrites]
    exact .inl ⟨hstep, rfl, rfl, rfl⟩
  · exact .inr h

theorem get?_saveCut {n : Nat} (h : (saveCut n progress buffer checkpoints).get? step = some checkpoint) :
    (progress.step = step ∧ checkpoint.saved = none ∧ ∀ p, checkpoint.progress = .whole p →
      p = progress ∨ ∃ old, checkpoints.get? step = some old ∧ old.progress = .whole p) ∨
      checkpoints.get? step = some checkpoint := by
  unfold saveCut at h
  rw [Dict.get?_insert] at h
  split_ifs at h with hstep
  · subst hstep
    cases h
    refine .inl ⟨rfl, rfl, fun p hp => ?_⟩
    dsimp only at hp
    rcases progress_perform ((checkpoints.get? progress.step).getD .empty) fun write hwrite =>
      List.mem_of_mem_take hwrite with hold | htorn | hnew
    · refine .inr ?_
      rw [hold] at hp
      cases hget : checkpoints.get? progress.step with
      | none =>
          rw [hget] at hp
          cases hp
      | some old =>
          rw [hget] at hp
          exact ⟨old, rfl, hp⟩
    · rw [htorn] at hp
      cases hp
    · rw [hnew] at hp
      cases hp
      exact .inl rfl
  · exact .inr h

end CheckpointManager

end AuroraRl.Orchestrate
