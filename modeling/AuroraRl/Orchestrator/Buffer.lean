import AuroraRl.Lib.Loops
import AuroraRl.Lib.Transition
import AuroraRl.Orchestrator.Rollouts
import Mathlib

/-!
# The difficulty buffer

* `EnvBuffer` : the normal examples of an environment by their id, the easy and the hard ones;
* `Buffer.init`, `sampleExamples`, `update`, `save`, `load` : the operations, and what a checkpoint has;
* `bufferSystem` : the runs of a buffer over given environments;
* `EnvBuffer.Holds`, `Buffer.Holds` : every example of the datasets is in one pool, kept by every operation.

`V` stands for the JSON values, `R` for the rollouts; rewards are exact rationals, and a list of draws stands for
the random numbers.
-/

namespace AuroraRl.Difficulty
open Orchestrator Transition

/-- JSON values; `digest` is `hashlib.sha256(json.dumps(values).encode()).hexdigest()`. -/
class JsonValues (V : Type) where
  int : Nat → V
  str : String → V
  digest : List V → String

/-- Rollouts with a reward; `avgReward` is the mean of their rewards. -/
class RewardedRollout (R : Type) extends RolloutOutput R where
  avgReward : List R → ℚ
  extremeReward_iff : ∀ rollouts, extremeReward rollouts = true ↔ avgReward rollouts = 0 ∨ avgReward rollouts = 1

/-- `BufferConfig`. -/
structure BufferConfig where
  easyThreshold : Option ℚ
  hardThreshold : Option ℚ
  easyFraction : ℚ
  hardFraction : ℚ
  onlineDifficultyFiltering : Bool
  hashKeys : List String
  easyFraction_bounds : 0 ≤ easyFraction ∧ easyFraction ≤ 1
  hardFraction_bounds : 0 ≤ hardFraction ∧ hardFraction ≤ 1

/-- An example: `example_id`, `env_name` and the other columns. -/
structure Example (V : Type) where
  exampleId : Nat
  envName : String
  columns : Dict String V
  deriving DecidableEq

/-- A dataset; its rows have ids of their own when `example_id` is one of its columns. -/
structure Dataset (V : Type) where
  columnNames : List String
  rows : List (Nat × Dict String V)

variable {V R : Type}

def Example.get? [JsonValues V] (ex : Example V) (key : String) : Option V :=
  if key = "example_id" then some (JsonValues.int ex.exampleId)
  else if key = "env_name" then some (JsonValues.str ex.envName)
  else ex.columns.get? key

def getExampleHash [JsonValues V] (config : BufferConfig) (ex : Example V) : Except PyException String := do
  let hashKeys := config.hashKeys.filter fun key => (ex.get? key).isSome
  pyAssert (hashKeys ≠ []) "No hashable keys found in example."
  return JsonValues.digest (hashKeys.filterMap ex.get?)

/-- `random.choice` at a draw. -/
def randomChoice {α : Type} (draw : Nat) (l : List α) : Except PyException α :=
  match l[draw % l.length]? with
  | some a => .ok a
  | none => .error ⟨.indexError, "Cannot choose from an empty sequence"⟩

/-- `round`: half to even. -/
def pyRound (q : ℚ) : Int :=
  if q - ⌊q⌋ < 1 / 2 then ⌊q⌋
  else if 1 / 2 < q - ⌊q⌋ then ⌊q⌋ + 1
  else if ⌊q⌋ % 2 = 0 then ⌊q⌋ else ⌊q⌋ + 1

inductive Pool
  | easy
  | normal
  | hard
  deriving DecidableEq

/-! ## One environment -/

/-- `_EnvBuffer`. -/
structure EnvBuffer (V : Type) where
  examples : Dict Nat (Example V)
  easyExamples : List (Example V)
  hardExamples : List (Example V)

/-- The examples of an environment with their ids. -/
def Dataset.examples (envName : String) (dataset : Dataset V) : List (Example V) :=
  dataset.rows.zipIdx.map fun row =>
    ⟨if "example_id" ∈ dataset.columnNames then row.1.1 else row.2, envName, row.1.2⟩

theorem Dataset.envName_of_mem {name : String} {dataset : Dataset V} {ex : Example V} (h : ex ∈ dataset.examples name) :
    ex.envName = name := by
  obtain ⟨row, -, rfl⟩ := List.mem_map.1 h
  rfl

namespace EnvBuffer

def init (envName : String) (dataset : Dataset V) : Except PyException (EnvBuffer V) := do
  pyAssert (dataset.rows ≠ []) s!"Dataset for {envName} must contain at least one example."
  pyAssert ("prompt" ∈ dataset.columnNames) s!"Dataset for {envName} must contain a `prompt` column."
  return ⟨Dict.ofList ((dataset.examples envName).map fun ex => (ex.exampleId, ex)), [], []⟩

def sampleExample (draw : Nat) (eb : EnvBuffer V) : Except PyException (Example V) := randomChoice draw eb.examples.values

/-- The list of a pool that is not the normal one. -/
def target (pool : Pool) (eb : EnvBuffer V) : List (Example V) :=
  if pool = .easy then eb.easyExamples else eb.hardExamples

def setTarget (pool : Pool) (exs : List (Example V)) (eb : EnvBuffer V) : EnvBuffer V :=
  if pool = .easy then { eb with easyExamples := exs } else { eb with hardExamples := exs }

/-- `target.append(examples.pop(example_id))`, for an id that is there. -/
def evict (pool : Pool) (exampleId : Nat) (eb : EnvBuffer V) : Option (EnvBuffer V) :=
  (eb.examples.get? exampleId).map fun ex =>
    { eb.setTarget pool (eb.target pool ++ [ex]) with examples := eb.examples.erase exampleId }

def poolOf (config : BufferConfig) (avgReward : ℚ) : Pool :=
  if config.easyThreshold.any fun threshold => threshold ≤ avgReward then .easy
  else if config.hardThreshold.any fun threshold => avgReward ≤ threshold then .hard
  else .normal

def updatePools (config : BufferConfig) (exampleId : Nat) (avgReward : ℚ) (eb : EnvBuffer V) : EnvBuffer V :=
  if poolOf config avgReward = .normal then eb else (eb.evict (poolOf config avgReward) exampleId).getD eb

/-- A turn of the loop of `convert_to_normal`. -/
def convertOne [DecidableEq V] (pool : Pool) (eb : EnvBuffer V) (draw : Nat) : Except PyException (EnvBuffer V) := do
  let ex ← randomChoice draw (eb.target pool)
  return { eb.setTarget pool ((eb.target pool).erase ex) with examples := eb.examples.insert ex.exampleId ex }

def convertToNormal [DecidableEq V] (pool : Pool) (fraction : ℚ) (draws : Nat → Nat) (eb : EnvBuffer V) :
    Except PyException (EnvBuffer V) :=
  if fraction ≤ 0 ∨ eb.target pool = [] then .ok eb
  else
    let numToMove := pyRound ((eb.target pool).length * fraction)
    if numToMove ≤ 0 then .ok eb
    else ((List.range numToMove.toNat).map draws).foldlM (convertOne pool) eb

end EnvBuffer

/-! ## All environments -/

/-- `Buffer`. -/
structure Buffer (V R : Type) where
  envBuffers : Dict String (EnvBuffer V)
  rolloutBuffer : List R

/-- What `save` writes. -/
structure BufferCheckpoint (V R : Type) where
  easyExamples : List (Example V)
  hardExamples : List (Example V)
  rolloutBuffer : List R

namespace Buffer

def init (envs : Dict String (Dataset V)) : Except PyException (Buffer V R) := do
  let envBuffers ← envs.entries.foldlM (fun (envBuffers : Dict String (EnvBuffer V)) env => do
    return envBuffers.insert env.1 (← EnvBuffer.init env.1 env.2)) ∅
  return ⟨envBuffers, []⟩

def setEnv (name : String) (eb : EnvBuffer V) (buffer : Buffer V R) : Buffer V R :=
  { buffer with envBuffers := buffer.envBuffers.insert name eb }

/-- The environment of a draw, and its example. -/
def drawExample (nonEmpty : List (String × EnvBuffer V)) (draw : Nat × Nat) : Except PyException (Example V) := do
  let env ← randomChoice draw.1 nonEmpty
  env.2.sampleExample draw.2

/-- `sample_examples`, one example a draw. -/
def sampleExamples (draws : List (Nat × Nat)) (buffer : Buffer V R) : Except PyException (List (Example V)) := do
  let nonEmpty := buffer.envBuffers.entries.filter fun env => env.2.examples.entries ≠ []
  raiseIf (nonEmpty = []) "No environments left with examples."
  draws.mapM (drawExample nonEmpty)

section Update

variable [RewardedRollout R]

/-- The turn of the loop of `update` for the rollouts of one example. -/
def updateGroup (config : BufferConfig) (buffer : Buffer V R) (group : (String × Nat) × List R) :
    Except PyException (Buffer V R) :=
  match buffer.envBuffers.get? group.1.1 with
  | none => .error ⟨.keyError, group.1.1⟩
  | some eb =>
      let avgReward := RewardedRollout.avgReward group.2
      let buffer := buffer.setEnv group.1.1 (eb.updatePools config group.1.2 avgReward)
      if config.onlineDifficultyFiltering ∧ (avgReward = 0 ∨ avgReward = 1) then .ok buffer
      else .ok { buffer with rolloutBuffer := buffer.rolloutBuffer ++ group.2 }

def update (config : BufferConfig) (rollouts : List R) (buffer : Buffer V R) : Except PyException (Buffer V R) :=
  (rolloutsByExample rollouts).entries.foldlM (updateGroup config) buffer

end Update

/-- `sample_rollouts`: the rollouts and the buffer without them. -/
def sampleRollouts (n : Nat) (buffer : Buffer V R) : List R × Buffer V R :=
  ((Orchestrator.sampleRollouts buffer.rolloutBuffer n).1,
    { buffer with rolloutBuffer := (Orchestrator.sampleRollouts buffer.rolloutBuffer n).2 })

def save (buffer : Buffer V R) : BufferCheckpoint V R where
  easyExamples := buffer.envBuffers.values.flatMap EnvBuffer.easyExamples
  hardExamples := buffer.envBuffers.values.flatMap EnvBuffer.hardExamples
  rolloutBuffer := buffer.rolloutBuffer

section Load

variable [JsonValues V]

/-- The ids of the normal examples of an environment by their hashes. -/
def envHashes (config : BufferConfig) (eb : EnvBuffer V) : Except PyException (Dict String Nat) :=
  eb.examples.entries.foldlM (fun (hashes : Dict String Nat) ex => do
    return hashes.insert (← getExampleHash config ex.2) ex.1) ∅

/-- `hash_lookup`: environments without a normal example are not in it. -/
def hashLookup (config : BufferConfig) (buffer : Buffer V R) : Except PyException (Dict String (Dict String Nat)) :=
  buffer.envBuffers.entries.foldlM (fun (lookup : Dict String (Dict String Nat)) env => do
    let hashes ← envHashes config env.2
    return if hashes.entries = [] then lookup else lookup.insert env.1 hashes) ∅

omit [JsonValues V] in
/-- The first environment that knows the hash and still has its example as a normal one moves it to the pool. -/
def moveExample (pool : Pool) (hash : String) : List (String × Dict String Nat) → Buffer V R → Buffer V R
  | [], buffer => buffer
  | (envName, envHashes) :: rest, buffer =>
      match envHashes.get? hash, buffer.envBuffers.get? envName with
      | some exampleId, some eb =>
          match eb.evict pool exampleId with
          | some eb' => buffer.setEnv envName eb'
          | none => moveExample pool hash rest buffer
      | _, _ => moveExample pool hash rest buffer

/-- A turn of the loop of `move_saved_pool`; it needs a first environment. -/
def moveSaved (config : BufferConfig) (lookup : Dict String (Dict String Nat)) (pool : Pool) (buffer : Buffer V R)
    (ex : Example V) : Except PyException (Buffer V R) := do
  if buffer.envBuffers.entries = [] then .error ⟨.runtimeError, "StopIteration"⟩
  else return moveExample pool (← getExampleHash config ex) lookup.entries buffer

def moveSavedPool (config : BufferConfig) (lookup : Dict String (Dict String Nat)) (pool : Pool)
    (savedExamples : List (Example V)) (buffer : Buffer V R) : Except PyException (Buffer V R) :=
  savedExamples.foldlM (moveSaved config lookup pool) buffer

omit [JsonValues V] in
/-- A turn of the last loop of `load`. -/
def convertEnv [DecidableEq V] (config : BufferConfig) (draws : String → Pool → Nat → Nat) (buffer : Buffer V R)
    (env : String × EnvBuffer V) : Except PyException (Buffer V R) := do
  let eb ← env.2.convertToNormal .easy config.easyFraction (draws env.1 .easy)
  let eb ← eb.convertToNormal .hard config.hardFraction (draws env.1 .hard)
  return buffer.setEnv env.1 eb

def load [DecidableEq V] [RolloutOutput R] (config : BufferConfig) (draws : String → Pool → Nat → Nat)
    (checkpoint : BufferCheckpoint V R) (buffer : Buffer V R) : Except PyException (Buffer V R) := do
  if checkpoint.easyExamples = [] ∧ checkpoint.hardExamples = [] ∧ checkpoint.rolloutBuffer = [] then return buffer
  let lookup ← hashLookup config buffer
  let buffer ← moveSavedPool config lookup .easy checkpoint.easyExamples buffer
  let buffer ← moveSavedPool config lookup .hard checkpoint.hardExamples buffer
  let valid := checkpoint.rolloutBuffer.filter fun r => (RolloutOutput.exampleKey r).1 ∈ buffer.envBuffers.keys
  let buffer := { buffer with rolloutBuffer := buffer.rolloutBuffer ++ valid }
  buffer.envBuffers.entries.foldlM (convertEnv config draws) buffer

end Load

end Buffer

/-- What is done with a buffer. -/
inductive BufferOp (V R : Type)
  | sampleExamples (draws : List (Nat × Nat))
  | update (rollouts : List R)
  | sampleRollouts (n : Nat)
  | save
  | load (draws : String → Pool → Nat → Nat) (checkpoint : BufferCheckpoint V R)

def BufferOp.run [DecidableEq V] [JsonValues V] [RewardedRollout R] (config : BufferConfig) (buffer : Buffer V R) :
    BufferOp V R → Except PyException (Buffer V R)
  | .sampleExamples draws => do
      let _ ← buffer.sampleExamples draws
      return buffer
  | .update rollouts => buffer.update config rollouts
  | .sampleRollouts n => .ok (buffer.sampleRollouts n).2
  | .save => .ok buffer
  | .load draws checkpoint => buffer.load config draws checkpoint

/-- The runs of a buffer over some environments; an exception ends a run. -/
def bufferSystem [DecidableEq V] [JsonValues V] [RewardedRollout R] (config : BufferConfig) (envs : Dict String (Dataset V)) :
    System (Buffer V R) (BufferOp V R) where
  init buffer := Buffer.init envs = .ok buffer
  step buffer op buffer' := op.run config buffer = .ok buffer'

/-! ## The pools of an environment -/

namespace EnvBuffer

def pool (eb : EnvBuffer V) : Pool → List (Example V)
  | .easy => eb.easyExamples
  | .normal => eb.examples.values
  | .hard => eb.hardExamples

/-- The examples of all pools. -/
def members (eb : EnvBuffer V) : List (Example V) := eb.examples.values ++ eb.easyExamples ++ eb.hardExamples

/-- The pools have the examples `exs`, each once, and the normal ones are under their ids. -/
structure Holds (exs : List (Example V)) (eb : EnvBuffer V) : Prop where
  members_perm : eb.members.Perm exs
  keyed : ∀ id ex, eb.examples.get? id = some ex → ex.exampleId = id

variable {eb eb' : EnvBuffer V} {exs : List (Example V)} {pool : Pool} {exampleId : Nat} {ex : Example V}

theorem evict_eq_some (h : eb.evict pool exampleId = some eb') : ∃ ex, eb.examples.get? exampleId = some ex ∧
    eb' = { eb.setTarget pool (eb.target pool ++ [ex]) with examples := eb.examples.erase exampleId } := by
  obtain ⟨ex, hget, heb'⟩ := Option.map_eq_some_iff.1 h
  exact ⟨ex, hget, heb'.symm⟩

/-- What moves between a pool and the normal examples leaves the members. -/
theorem members_setTarget {examples : Dict Nat (Example V)} {l : List (Example V)}
    (h : (examples.values ++ l).Perm (eb.examples.values ++ eb.target pool)) :
    members { eb.setTarget pool l with examples := examples } |>.Perm eb.members := by
  classical
  rw [List.perm_iff_count] at h ⊢
  intro a
  have ha := h a
  unfold target at ha
  unfold members setTarget
  split_ifs with hp
  · simp only [hp, if_true, List.count_append] at ha ⊢
    omega
  · simp only [hp, if_false, List.count_append] at ha ⊢
    omega

theorem Holds.evict (hold : eb.Holds exs) (h : eb.evict pool exampleId = some eb') : eb'.Holds exs := by
  obtain ⟨ex, hget, rfl⟩ := evict_eq_some h
  refine ⟨(members_setTarget ?_).trans hold.members_perm, ?_⟩
  · have hvalues := Dict.values_erase hget
    rw [← List.append_assoc]
    refine List.perm_append_comm.trans ?_
    exact (hvalues.append_right (eb.target pool)).symm
  · intro id ex' hid
    rw [Dict.get?_erase] at hid
    split_ifs at hid
    exact hold.keyed id ex' hid

theorem Holds.updatePools {config : BufferConfig} {avgReward : ℚ} (hold : eb.Holds exs) :
    (eb.updatePools config exampleId avgReward).Holds exs := by
  unfold EnvBuffer.updatePools
  split_ifs
  · exact hold
  · cases hevict : eb.evict (poolOf config avgReward) exampleId with
    | none => exact hold
    | some eb' => exact hold.evict hevict

theorem randomChoice_mem {α : Type} {draw : Nat} {l : List α} {a : α} (h : randomChoice draw l = .ok a) : a ∈ l := by
  unfold randomChoice at h
  split at h
  · rename_i a' ha'
    cases h
    exact List.mem_of_getElem? ha'
  · cases h

/-- The id of an example outside the normal pool is no key of it. -/
theorem Holds.not_mem_keys (pool : Pool) (hold : eb.Holds exs) (hids : (exs.map Example.exampleId).Nodup)
    (hex : ex ∈ eb.target pool) :
    ex.exampleId ∉ eb.examples.keys := by
  intro hkey
  obtain ⟨ex', hget⟩ := Dict.mem_keys_iff.1 hkey
  have hnodup : (eb.members.map Example.exampleId).Nodup := (hold.members_perm.map _).nodup_iff.2 hids
  have hrest : ex ∈ eb.easyExamples ++ eb.hardExamples := by
    unfold target at hex
    split_ifs at hex
    · exact List.mem_append_left _ hex
    · exact List.mem_append_right _ hex
  rw [members, List.append_assoc, List.map_append, List.nodup_append] at hnodup
  exact hnodup.2.2 _ (List.mem_map_of_mem (Dict.mem_values_iff.2 ⟨_, hget⟩)) _ (List.mem_map_of_mem hrest)
    (hold.keyed _ _ hget)

theorem Holds.convertOne [DecidableEq V] (hids : (exs.map Example.exampleId).Nodup) {draw : Nat} (hold : eb.Holds exs)
    (h : eb.convertOne pool draw = .ok eb') : eb'.Holds exs := by
  obtain ⟨ex, hchoice, heb'⟩ := bind_eq_ok.1 h
  cases heb'
  have hex := randomChoice_mem hchoice
  refine ⟨(members_setTarget ?_).trans hold.members_perm, ?_⟩
  · rw [Dict.values_insert_new ex (hold.not_mem_keys pool hids hex), List.append_assoc]
    exact (List.perm_cons_erase hex).symm.append_left _
  · intro id ex' hid
    rw [Dict.get?_insert] at hid
    split_ifs at hid with heq
    · cases hid
      exact heq
    · exact hold.keyed id ex' hid

theorem Holds.convertToNormal [DecidableEq V] (hids : (exs.map Example.exampleId).Nodup) {fraction : ℚ} {draws : Nat → Nat}
    (hold : eb.Holds exs) (h : eb.convertToNormal pool fraction draws = .ok eb') : eb'.Holds exs := by
  unfold EnvBuffer.convertToNormal at h
  split_ifs at h
  · cases h
    exact hold
  · dsimp only at h
    split_ifs at h
    · cases h
      exact hold
    · exact foldlM_preserves (fun _ _ _ hs hstep => hs.convertOne hids hstep) h hold

/-- A new environment has all its examples as normal ones, when their ids differ. -/
theorem Holds.init {name : String} {dataset : Dataset V} (hids : ((dataset.examples name).map Example.exampleId).Nodup)
    (h : EnvBuffer.init name dataset = .ok eb) : eb.Holds (dataset.examples name) := by
  obtain ⟨_, -, h⟩ := bind_eq_ok.1 h
  obtain ⟨_, -, h⟩ := bind_eq_ok.1 h
  cases h
  have hentries := Dict.entries_ofList (l := (dataset.examples name).map fun ex => (ex.exampleId, ex))
    (by simpa [Function.comp_def] using hids)
  refine ⟨?_, ?_⟩
  · simp [members, Dict.values, hentries, Function.comp_def]
  · intro id ex hget
    rw [← Dict.mem_entries_iff, hentries] at hget
    obtain ⟨ex', -, heq⟩ := List.mem_map.1 hget
    cases heq
    rfl

/-- Every example is in exactly one pool. -/
theorem Holds.existsUnique_pool (hold : eb.Holds exs) (hids : (exs.map Example.exampleId).Nodup) (hex : ex ∈ exs) :
    ∃! pool, ex ∈ eb.pool pool := by
  have hnodup : eb.members.Nodup := hold.members_perm.nodup_iff.2 hids.of_map
  have hmem : ex ∈ eb.members := hold.members_perm.mem_iff.2 hex
  unfold members at hnodup hmem
  rw [List.nodup_append] at hnodup
  obtain ⟨hleft, -, hhard⟩ := hnodup
  obtain ⟨-, -, heasy⟩ := List.nodup_append.1 hleft
  rw [List.mem_append, List.mem_append] at hmem
  rcases hmem with (hnormal | hside) | hside
  · refine ⟨.normal, hnormal, fun p hp => ?_⟩
    cases p with
    | easy => exact absurd rfl (heasy _ hnormal _ hp)
    | normal => rfl
    | hard => exact absurd rfl (hhard _ (List.mem_append_left _ hnormal) _ hp)
  · refine ⟨.easy, hside, fun p hp => ?_⟩
    cases p with
    | easy => rfl
    | normal => exact absurd rfl (heasy _ hp _ hside)
    | hard => exact absurd rfl (hhard _ (List.mem_append_right _ hside) _ hp)
  · refine ⟨.hard, hside, fun p hp => ?_⟩
    cases p with
    | easy => exact absurd rfl (hhard _ (List.mem_append_right _ hp) _ hside)
    | normal => exact absurd rfl (hhard _ (List.mem_append_left _ hp) _ hside)
    | hard => rfl

end EnvBuffer

/-! ## The pools of a buffer -/

/-- The ids of the examples of every environment differ. -/
def IdsDistinct (envs : Dict String (Dataset V)) : Prop :=
  ∀ name dataset, envs.get? name = some dataset → ((dataset.examples name).map Example.exampleId).Nodup

/-- Rollouts of the groups have the key of their group. -/
theorem key_of_mem_rolloutsByExample [RolloutOutput R] {rollouts : List R} {key : String × Nat} {group : List R}
    (h : (rolloutsByExample rollouts).get? key = some group) {r : R} (hr : r ∈ group) : RolloutOutput.exampleKey r = key := by
  have happend : rolloutsByExample rollouts = Dict.appendAll ∅ (rollouts.map fun r => (RolloutOutput.exampleKey r, r)) := by
    unfold rolloutsByExample Dict.appendAll
    rw [List.foldl_map]
  rw [happend] at h
  rcases Dict.mem_appendAll h hr with ⟨_, hempty, -⟩ | hmem
  · cases hempty
  · obtain ⟨r', -, heq⟩ := List.mem_map.1 hmem
    cases heq
    rfl

namespace Buffer

/-- The environments of the buffer hold their examples, and its rollouts are theirs. -/
structure Holds [RolloutOutput R] (envs : Dict String (Dataset V)) (buffer : Buffer V R) : Prop where
  keys : buffer.envBuffers.keys = envs.keys
  pools : ∀ name dataset eb, envs.get? name = some dataset → buffer.envBuffers.get? name = some eb →
    eb.Holds (dataset.examples name)
  rollouts : ∀ r ∈ buffer.rolloutBuffer, (RolloutOutput.exampleKey r).1 ∈ envs.keys

variable {envs : Dict String (Dataset V)} {buffer buffer' : Buffer V R} {config : BufferConfig}

section

variable [RolloutOutput R]

theorem Holds.setEnv {name : String} {eb eb' : EnvBuffer V} (hold : buffer.Holds envs)
    (hget : buffer.envBuffers.get? name = some eb)
    (heb : ∀ dataset, envs.get? name = some dataset → eb.Holds (dataset.examples name) → eb'.Holds (dataset.examples name)) :
    (buffer.setEnv name eb').Holds envs where
  keys := (Dict.keys_insert_old eb' (Dict.mem_keys_iff.2 ⟨eb, hget⟩)).trans hold.keys
  pools name' dataset eb'' hdataset hget' := by
    rw [Buffer.setEnv, Dict.get?_insert] at hget'
    split_ifs at hget' with hname
    · cases hget'
      subst hname
      exact heb dataset hdataset (hold.pools _ _ _ hdataset hget)
    · exact hold.pools _ _ _ hdataset hget'
  rollouts := hold.rollouts

theorem Holds.append {rollouts : List R} (hold : buffer.Holds envs)
    (h : ∀ r ∈ rollouts, (RolloutOutput.exampleKey r).1 ∈ envs.keys) :
    Holds envs { buffer with rolloutBuffer := buffer.rolloutBuffer ++ rollouts } where
  keys := hold.keys
  pools := hold.pools
  rollouts r hr := (List.mem_append.1 hr).elim (hold.rollouts r) (h r)

theorem init_env {envBuffers : Dict String (EnvBuffer V)}
    (h : envs.entries.foldlM (fun (envBuffers : Dict String (EnvBuffer V)) env => do
    return envBuffers.insert env.1 (← EnvBuffer.init env.1 env.2)) ∅ = (.ok envBuffers : Except PyException _)) :
    envBuffers.keys = envs.keys ∧ ∀ name dataset, envs.get? name = some dataset →
      ∃ eb, EnvBuffer.init name dataset = .ok eb ∧ envBuffers.get? name = some eb := by
  obtain ⟨hkeys, hget, -⟩ := foldlM_insert (d := ∅) (f := fun env : String × Dataset V => EnvBuffer.init env.1 env.2)
    (fun _ _ hk => nomatch hk) envs.nodup h
  refine ⟨hkeys, fun name dataset hdataset => ?_⟩
  exact hget (name, dataset) ((Dict.mem_entries_iff _ _ _).2 hdataset)

theorem Holds.init (hids : IdsDistinct envs) (h : Buffer.init envs = .ok buffer) : buffer.Holds envs := by
  obtain ⟨envBuffers, hinit, h⟩ := bind_eq_ok.1 h
  cases h
  obtain ⟨hkeys, hget⟩ := init_env hinit
  refine ⟨hkeys, ?_, fun r hr => by cases hr⟩
  intro name dataset eb hdataset heb
  obtain ⟨eb', hinit', heb'⟩ := hget name dataset hdataset
  cases heb.symm.trans heb'
  exact EnvBuffer.Holds.init (hids name dataset hdataset) hinit'

theorem Holds.sampleRollouts (hold : buffer.Holds envs) (n : Nat) : (buffer.sampleRollouts n).2.Holds envs where
  keys := hold.keys
  pools := hold.pools
  rollouts r hr := by
    refine hold.rollouts r ?_
    unfold Buffer.sampleRollouts Orchestrator.sampleRollouts at hr
    dsimp only at hr
    split_ifs at hr
    · cases hr
    · exact List.mem_of_mem_take hr

theorem Holds.moveExample {pool : Pool} {hash : String} {lookup : List (String × Dict String Nat)}
    (hold : buffer.Holds envs) :
    (moveExample pool hash lookup buffer).Holds envs := by
  induction lookup with
  | nil => exact hold
  | cons env rest ih =>
      unfold Buffer.moveExample
      split
      · rename_i exampleId eb _ hget
        split
        · rename_i eb' hevict
          exact hold.setEnv hget fun _ _ heb => heb.evict hevict
        · exact ih
      · exact ih

theorem Holds.moveSavedPool [JsonValues V] {lookup : Dict String (Dict String Nat)} {pool : Pool} {saved : List (Example V)}
    (hold : buffer.Holds envs) (h : moveSavedPool config lookup pool saved buffer = .ok buffer') : buffer'.Holds envs := by
  refine foldlM_preserves (P := Holds envs) ?_ h hold
  intro s ex s' hs hstep
  unfold moveSaved at hstep
  split_ifs at hstep
  obtain ⟨hash, -, hstep⟩ := bind_eq_ok.1 hstep
  cases hstep
  exact hs.moveExample

/-- The last loop of `load` goes over environments it has not changed yet. -/
theorem Holds.convertEnvs [DecidableEq V] (hids : IdsDistinct envs) {draws : String → Pool → Nat → Nat}
    {l : List (String × EnvBuffer V)} (hl : (l.map Prod.fst).Nodup)
    (hget : ∀ env ∈ l, buffer.envBuffers.get? env.1 = some env.2)
    (hold : buffer.Holds envs) (h : l.foldlM (convertEnv config draws) buffer = .ok buffer') : buffer'.Holds envs := by
  induction l generalizing buffer with
  | nil =>
      cases h
      exact hold
  | cons env l ih =>
      rw [List.foldlM_cons] at h
      obtain ⟨next, hconvert, h⟩ := bind_eq_ok.1 h
      obtain ⟨eb₁, heasy, hconvert⟩ := bind_eq_ok.1 hconvert
      obtain ⟨eb₂, hhard, hconvert⟩ := bind_eq_ok.1 hconvert
      cases hconvert
      rw [List.map_cons, List.nodup_cons] at hl
      refine ih hl.2 ?_ ?_ h
      · intro env' henv'
        have hne : env.1 ≠ env'.1 := fun heq => hl.1 (heq ▸ List.mem_map_of_mem henv')
        rw [Buffer.setEnv, Dict.get?_insert_ne _ _ hne]
        exact hget env' (List.mem_cons_of_mem _ henv')
      · refine hold.setEnv (hget env List.mem_cons_self) fun dataset hdataset heb => ?_
        exact (heb.convertToNormal (hids _ _ hdataset) heasy).convertToNormal (hids _ _ hdataset) hhard

theorem Holds.load [DecidableEq V] [JsonValues V] (hids : IdsDistinct envs) {draws : String → Pool → Nat → Nat}
    {checkpoint : BufferCheckpoint V R} (hold : buffer.Holds envs) (h : buffer.load config draws checkpoint = .ok buffer') :
    buffer'.Holds envs := by
  unfold Buffer.load at h
  split_ifs at h
  · cases h
    exact hold
  · obtain ⟨lookup, -, h⟩ := bind_eq_ok.1 h
    obtain ⟨buffer₁, heasy, h⟩ := bind_eq_ok.1 h
    obtain ⟨buffer₂, hhard, h⟩ := bind_eq_ok.1 h
    have hold₂ := (hold.moveSavedPool heasy).moveSavedPool hhard
    refine Holds.convertEnvs hids buffer₂.envBuffers.nodup (fun env henv => ?_) (hold₂.append fun r hr => ?_) h
    · exact (Dict.mem_entries_iff _ _ _).1 henv
    · have hkey := of_decide_eq_true (List.mem_filter.1 hr).2
      exact hold₂.keys ▸ hkey

end

theorem Holds.update [RewardedRollout R] {rollouts : List R} (hold : buffer.Holds envs)
    (h : buffer.update config rollouts = .ok buffer') : buffer'.Holds envs := by
  refine foldlM_preserves_mem (P := Holds envs) ?_ h hold
  intro group hgroup s s' hs hstep
  unfold updateGroup at hstep
  split at hstep
  · cases hstep
  · rename_i eb hget
    have hset : (s.setEnv group.1.1 (eb.updatePools config group.1.2 (RewardedRollout.avgReward group.2))).Holds envs :=
      hs.setEnv hget fun _ _ heb => heb.updatePools
    dsimp only at hstep
    split_ifs at hstep
    · cases hstep
      exact hset
    · cases hstep
      refine hset.append fun r hr => ?_
      rw [key_of_mem_rolloutsByExample ((Dict.mem_entries_iff _ _ _).1 hgroup) hr, ← hs.keys]
      exact Dict.mem_keys_iff.2 ⟨eb, hget⟩

/-- What `update` adds to the pending rollouts is what the scheduler's buffer gets. -/
theorem update_rolloutBuffer [RewardedRollout R] {options : SchedulerConfig} {rollouts : List R}
    (hfilter : options.onlineDifficultyFiltering = config.onlineDifficultyFiltering)
    (h : buffer.update config rollouts = .ok buffer') :
    buffer'.rolloutBuffer = updateBuffer options buffer.rolloutBuffer rollouts := by
  unfold Buffer.update at h
  unfold updateBuffer Dict.values
  rw [List.foldl_map]
  generalize (rolloutsByExample rollouts).entries = groups at h
  induction groups generalizing buffer with
  | nil =>
      cases h
      rfl
  | cons group groups ih =>
      rw [List.foldlM_cons] at h
      obtain ⟨next, hstep, h⟩ := bind_eq_ok.1 h
      rw [ih h, List.foldl_cons]
      congr 1
      unfold updateGroup at hstep
      split at hstep
      · cases hstep
      · simp only [hfilter, RewardedRollout.extremeReward_iff]
        dsimp only at hstep
        split_ifs at hstep ⊢
        · cases hstep
          rfl
        · cases hstep
          rfl

/-- Every operation keeps what a buffer holds. -/
theorem Holds.step [DecidableEq V] [JsonValues V] [RewardedRollout R] (hids : IdsDistinct envs) {op : BufferOp V R}
    (hold : buffer.Holds envs) (h : op.run config buffer = .ok buffer') : buffer'.Holds envs := by
  cases op with
  | sampleExamples draws =>
      obtain ⟨_, -, h⟩ := bind_eq_ok.1 h
      cases h
      exact hold
  | update rollouts => exact hold.update h
  | sampleRollouts n =>
      cases h
      exact hold.sampleRollouts n
  | save =>
      cases h
      exact hold
  | load draws checkpoint => exact hold.load hids h

/-- Every buffer of a run holds the examples of its environments. -/
theorem holds_of_reachable [DecidableEq V] [JsonValues V] [RewardedRollout R] (hids : IdsDistinct envs)
    (h : (bufferSystem config envs).Reachable buffer) : buffer.Holds envs :=
  h.invariant (I := Holds envs) (fun _ hinit => Holds.init hids hinit) fun _ _ _ hold hstep => Holds.step hids hold hstep

end Buffer

/-! ## Sampling -/

theorem randomChoice_ok {α : Type} (draw : Nat) {l : List α} (h : l ≠ []) : ∃ a, randomChoice draw l = .ok a := by
  have hlt : draw % l.length < l.length := Nat.mod_lt _ (List.length_pos_iff.2 h)
  exact ⟨_, by rw [randomChoice, List.getElem?_eq_getElem hlt]⟩

namespace Buffer

variable [RolloutOutput R] {envs : Dict String (Dataset V)} {buffer : Buffer V R}

/-- The buffer has the example as a normal one of its environment, in no other pool. -/
def Normal (envs : Dict String (Dataset V)) (buffer : Buffer V R) (ex : Example V) : Prop :=
  ∃ dataset eb, envs.get? ex.envName = some dataset ∧ ex ∈ dataset.examples ex.envName ∧
    buffer.envBuffers.get? ex.envName = some eb ∧ eb.examples.get? ex.exampleId = some ex ∧
    ex ∉ eb.easyExamples ∧ ex ∉ eb.hardExamples

theorem Holds.normal {name : String} {eb : EnvBuffer V} {ex : Example V} (hids : IdsDistinct envs) (hold : buffer.Holds envs)
    (heb : buffer.envBuffers.get? name = some eb) (hex : ex ∈ eb.examples.values) : Normal envs buffer ex := by
  obtain ⟨dataset, hdataset⟩ := Dict.mem_keys_iff.1 (hold.keys ▸ Dict.mem_keys_iff.2 ⟨eb, heb⟩)
  have hpools := hold.pools name dataset eb hdataset heb
  have hmem : ex ∈ dataset.examples name :=
    hpools.members_perm.mem_iff.1 (List.mem_append_left _ (List.mem_append_left _ hex))
  obtain rfl := Dataset.envName_of_mem hmem
  obtain ⟨id, hget⟩ := Dict.mem_values_iff.1 hex
  obtain rfl := hpools.keyed id ex hget
  have hkey := Dict.mem_keys_iff.2 ⟨ex, hget⟩
  refine ⟨dataset, eb, hdataset, hmem, heb, hget, fun heasy => ?_, fun hhard => ?_⟩
  · exact hpools.not_mem_keys .easy (hids _ _ hdataset) heasy hkey
  · exact hpools.not_mem_keys .hard (hids _ _ hdataset) hhard hkey

/-- A draw gives a normal example when some environment has one. -/
theorem sampleExample_ok {nonEmpty : List (String × EnvBuffer V)} (hne : nonEmpty ≠ [])
    (hsub : ∀ env ∈ nonEmpty, env.2.examples.entries ≠ []) (draw : Nat × Nat) :
    ∃ env ∈ nonEmpty, ∃ ex ∈ env.2.examples.values, drawExample nonEmpty draw = .ok ex := by
  obtain ⟨env, henv⟩ := randomChoice_ok draw.1 hne
  have hmem := EnvBuffer.randomChoice_mem henv
  have hvalues : env.2.examples.values ≠ [] := by
    unfold Dict.values
    simpa using hsub env hmem
  obtain ⟨ex, hex⟩ := randomChoice_ok draw.2 hvalues
  refine ⟨env, hmem, ex, EnvBuffer.randomChoice_mem hex, ?_⟩
  rw [drawExample, henv, ok_bind]
  exact hex

/-- Sampling fails exactly when no environment has a normal example; it gives one normal example a draw. -/
theorem sampleExamples_spec (hids : IdsDistinct envs) (hold : buffer.Holds envs) (draws : List (Nat × Nat)) :
    ((∀ name eb, buffer.envBuffers.get? name = some eb → eb.examples.entries = []) ∧
      buffer.sampleExamples draws = .error ⟨.valueError, "No environments left with examples."⟩) ∨
    ((∃ name eb, buffer.envBuffers.get? name = some eb ∧ eb.examples.entries ≠ []) ∧
      ∃ exs, buffer.sampleExamples draws = .ok exs ∧ exs.length = draws.length ∧ ∀ ex ∈ exs, Normal envs buffer ex) := by
  unfold Buffer.sampleExamples
  dsimp only
  by_cases hempty : (buffer.envBuffers.entries.filter fun env => env.2.examples.entries ≠ []) = []
  · refine .inl ⟨fun name eb heb => ?_, by rw [raiseIf, if_pos hempty]; rfl⟩
    have := (List.filter_eq_nil_iff.1 hempty) (name, eb) ((Dict.mem_entries_iff _ _ _).2 heb)
    simpa using this
  · refine .inr ⟨?_, ?_⟩
    · obtain ⟨env, henv⟩ := List.exists_mem_of_ne_nil _ hempty
      obtain ⟨hmem, hne⟩ := List.mem_filter.1 henv
      exact ⟨env.1, env.2, (Dict.mem_entries_iff _ _ _).1 hmem, of_decide_eq_true hne⟩
    · have hdraw : ∀ draw, ∃ ex, Normal envs buffer ex ∧
          drawExample (buffer.envBuffers.entries.filter fun env => env.2.examples.entries ≠ []) draw = .ok ex := by
        intro draw
        obtain ⟨env, henv, ex, hex, hok⟩ := sampleExample_ok hempty
          (fun env henv => of_decide_eq_true (List.mem_filter.1 henv).2) draw
        exact ⟨ex, hold.normal hids ((Dict.mem_entries_iff _ _ _).1 (List.mem_filter.1 henv).1) hex, hok⟩
      choose f hnormal hok using hdraw
      refine ⟨draws.map f, ?_, List.length_map .., fun ex hex => ?_⟩
      · rw [raiseIf_of_not hempty, ok_bind, mapM_eq_ok_iff, List.forall₂_map_right_iff, List.forall₂_same]
        exact fun draw _ => hok draw
      · obtain ⟨draw, -, rfl⟩ := List.mem_map.1 hex
        exact hnormal draw

end Buffer

end AuroraRl.Difficulty
