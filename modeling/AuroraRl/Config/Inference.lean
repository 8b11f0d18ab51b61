import AuroraRl.Lib.Validators

/-!
# The inference config

* `InferenceConfig` : the fields that a validator of it or of the run config reads, and which of them were set;
* `InferenceConfig.resolve` : the constraints of the fields, then the validators in the order they are declared;
* `InferenceConfig.resolve_spec` : what is left of the parallel layout, and the data-parallel size it ends with.

What is left out (ports, memory, parsers, relay) no validator reads.
-/

namespace AuroraRl.Config

open Validators

/-- What resolution takes from the installation: `repr` of a text and `find_package_resource("templates")`. -/
class Installation where
  reprStr : String → String
  templatesDir : Option PurePath

/-- An installation with no templates. -/
@[reducible] def bareInstallation : Installation where
  reprStr s := "'" ++ s ++ "'"
  templatesDir := none

def fieldGe (bound value : Int) : Except PyException Unit :=
  raiseIf (value < bound) ("Input should be greater than or equal to " ++ toString bound)

def fieldGt (bound value : Int) : Except PyException Unit :=
  raiseIf (value ≤ bound) ("Input should be greater than " ++ toString bound)

/-- A constraint of a field that may be `None`. -/
def optional (constraint : Int → Except PyException Unit) : Option Int → Except PyException Unit
  | none => .ok ()
  | some value => constraint value

/-! ## Fields -/

structure ParallelConfig where
  tp : Int := 1
  dp : Int := 1
  deriving DecidableEq, Repr

inductive BroadcastType
  | nccl
  | filesystem
  deriving DecidableEq, Repr

def BroadcastType.text : BroadcastType → String
  | nccl => "nccl"
  | filesystem => "filesystem"

structure KVCacheOffloadConfig where
  cpuBytes : Int := 1000000000
  deriving DecidableEq, Repr

structure SlurmConfig where
  templatePath : Option PurePath := none
  deriving DecidableEq, Repr

structure SingleNodeInferenceDeploymentConfig where
  gpusPerNode : Int := 8
  deriving DecidableEq, Repr

structure MultiNodeInferenceDeploymentConfig where
  gpusPerNode : Int := 8
  numNodes : Int := 2
  deriving DecidableEq, Repr

structure DisaggregatedInferenceDeploymentConfig where
  gpusPerNode : Int := 8
  numPrefillNodes : Int := 1
  numDecodeNodes : Int := 1
  numPrefillReplicas : Int := 1
  numDecodeReplicas : Int := 1
  deriving DecidableEq, Repr

inductive InferenceDeploymentConfig
  | singleNode (config : SingleNodeInferenceDeploymentConfig)
  | multiNode (config : MultiNodeInferenceDeploymentConfig)
  | disaggregated (config : DisaggregatedInferenceDeploymentConfig)
  deriving DecidableEq, Repr

def InferenceDeploymentConfig.isMultiNode : InferenceDeploymentConfig → Bool
  | multiNode _ => true
  | _ => false

def InferenceDeploymentConfig.isDisaggregated : InferenceDeploymentConfig → Bool
  | disaggregated _ => true
  | _ => false

structure InferenceServerConfig where
  host : Option String := none
  port : Int := 8000
  deriving DecidableEq, Repr

structure InferenceModelConfig where
  name : String := "Qwen/Qwen3-0.6B"
  chatTemplate : Option String := none
  deriving DecidableEq, Repr

/-- `headless` is the truth of `vllm_extra.get("headless", False)`; `modelFieldsSet` has the names that were given. -/
structure InferenceConfig where
  server : InferenceServerConfig := {}
  model : InferenceModelConfig := {}
  parallel : ParallelConfig := {}
  enableLora : Bool := false
  maxLoraRank : Option Int := none
  enablePrefixCaching : Option Bool := none
  apiServerCount : Int := 1
  dataParallelSizeLocal : Option Int := none
  enableExpertParallel : Bool := false
  enableEplb : Bool := false
  weightBroadcast : BroadcastType := .filesystem
  kvCacheOffload : Option KVCacheOffloadConfig := none
  enableReturnRoutedExperts : Bool := false
  headless : Bool := false
  deployment : InferenceDeploymentConfig := .singleNode {}
  slurm : Option SlurmConfig := none
  modelFieldsSet : List String := []
  deriving DecidableEq, Repr

/-! ## Constraints -/

/-- `validate_replicas_divide_nodes`, after the constraints of the fields. -/
def DisaggregatedInferenceDeploymentConfig.validate (d : DisaggregatedInferenceDeploymentConfig) :
    Except PyException Unit := do
  fieldGe 1 d.numPrefillNodes
  fieldGe 1 d.numDecodeNodes
  fieldGe 1 d.numPrefillReplicas
  fieldGe 1 d.numDecodeReplicas
  let prefillRest ← floorMod d.numPrefillNodes d.numPrefillReplicas
  raiseIf (prefillRest ≠ 0) ("num_prefill_replicas (" ++ toString d.numPrefillReplicas ++
    ") must evenly divide num_prefill_nodes (" ++ toString d.numPrefillNodes ++ ")")
  let decodeRest ← floorMod d.numDecodeNodes d.numDecodeReplicas
  raiseIf (decodeRest ≠ 0) ("num_decode_replicas (" ++ toString d.numDecodeReplicas ++
    ") must evenly divide num_decode_nodes (" ++ toString d.numDecodeNodes ++ ")")

def InferenceDeploymentConfig.validate : InferenceDeploymentConfig → Except PyException Unit
  | singleNode _ => .ok ()
  | multiNode d => fieldGe 1 d.numNodes
  | disaggregated d => d.validate

namespace InferenceConfig

/-- The constraints of the fields. All that fail are reported at once there; here the first stands for them. -/
def validateFields (c : InferenceConfig) : Except PyException Unit := do
  fieldGe 1 c.parallel.dp
  fieldGe 0 c.apiServerCount
  optional (fieldGe 1) c.dataParallelSizeLocal
  optional (fieldGt 0) (c.kvCacheOffload.map KVCacheOffloadConfig.cpuBytes)
  c.deployment.validate

/-! ## Validators -/

def validateMultiNodeRequiresSlurm (c : InferenceConfig) : Except PyException Unit :=
  raiseIf (c.deployment.isMultiNode ∧ c.slurm = none) "Must use SLURM for multi-node deployment."

def autoSetupKvCacheOffload (c : InferenceConfig) : Except PyException InferenceConfig :=
  match c.kvCacheOffload with
  | none => .ok c
  | some _ => do
    raiseIf (c.enablePrefixCaching = some false) "KV cache offloading requires inference.enable_prefix_caching to be true."
    return if "enable_prefix_caching" ∈ c.modelFieldsSet then c else { c with enablePrefixCaching := some true }

/-- What disaggregated inference fills in; a field it assigns counts as set from then on. -/
def fillDisaggregated (c : InferenceConfig) (dpPerNode : Int) : InferenceConfig where
  __ := c
  enableExpertParallel := if "enable_expert_parallel" ∈ c.modelFieldsSet then c.enableExpertParallel else true
  enableEplb := if "enable_eplb" ∈ c.modelFieldsSet then c.enableEplb else false
  dataParallelSizeLocal := some (c.dataParallelSizeLocal.getD dpPerNode)
  parallel := { c.parallel with dp := if c.parallel.dp = 1 then dpPerNode else c.parallel.dp }
  apiServerCount := if c.apiServerCount = 1 then dpPerNode else c.apiServerCount
  modelFieldsSet := if c.apiServerCount = 1 then "api_server_count" :: c.modelFieldsSet else c.modelFieldsSet

def autoSetupDisaggregated (c : InferenceConfig) : Except PyException InferenceConfig :=
  match c.deployment with
  | .disaggregated d => (floorDiv d.gpusPerNode c.parallel.tp).map c.fillDisaggregated
  | _ => .ok c

def autoSetupSlurmTemplate [Installation] (c : InferenceConfig) : Except PyException InferenceConfig :=
  match c.slurm, Installation.templatesDir with
  | some ⟨none⟩, some dir => .ok { c with slurm := some ⟨some (dir.join "inference.sbatch.j2")⟩ }
  | _, _ => .ok c

def validVllmLoraRanks : List Int := [8, 16, 32, 64, 128, 256, 320, 512]

def autoSetupMaxLoraRank (c : InferenceConfig) : Except PyException InferenceConfig :=
  match c.maxLoraRank with
  | none => .ok c
  | some rank =>
    match validVllmLoraRanks.find? fun valid => rank ≤ valid with
    | some valid => .ok { c with maxLoraRank := some valid }
    | none => raiseValueError ("max_lora_rank=" ++ toString rank ++ " exceeds vLLM maximum of 512")

/-- `value or default` of an integer that may be `None`. -/
def orElse (value : Option Int) (default : Int) : Int :=
  match value with
  | none => default
  | some n => if n = 0 then default else n

/-- At least as many API servers as data-parallel ranks on the node, but one with LoRA and none when headless. -/
def autoSetupApiServerCount (c : InferenceConfig) : Except PyException InferenceConfig :=
  let minApiServerCount := orElse c.dataParallelSizeLocal c.parallel.dp
  let raised := if "api_server_count" ∉ c.modelFieldsSet ∧ c.apiServerCount < minApiServerCount then minApiServerCount
    else c.apiServerCount
  .ok { c with apiServerCount := if c.headless then 0 else if c.enableLora then 1 else raised }

def afterValidators [Installation] : List (InferenceConfig → Except PyException InferenceConfig) :=
  [checking validateMultiNodeRequiresSlurm, autoSetupKvCacheOffload, autoSetupDisaggregated, autoSetupSlurmTemplate,
    autoSetupMaxLoraRank, autoSetupApiServerCount]

/-- The config from the fields that were given. -/
def resolve [Installation] (c : InferenceConfig) : Except PyException InferenceConfig := do
  c.validateFields
  run afterValidators c

/-! ## What resolution leaves -/

/-- The data-parallel size after the validators: a disaggregated deployment with `dp = 1` takes that of a node. -/
def dataParallel (c : InferenceConfig) : Int :=
  match c.deployment with
  | .disaggregated d => if c.parallel.dp = 1 then d.gpusPerNode.fdiv c.parallel.tp else c.parallel.dp
  | _ => c.parallel.dp

/-- What the validators leave of the layout that was given. -/
structure LaidOut (c c' : InferenceConfig) : Prop where
  tp : c'.parallel.tp = c.parallel.tp
  dp : c'.parallel.dp = c.dataParallel
  enableLora : c'.enableLora = c.enableLora
  deployment : c'.deployment = c.deployment
  enableExpertParallel : c.deployment.isDisaggregated = false → c'.enableExpertParallel = c.enableExpertParallel

/-- The fields that decide the layout. -/
def layout (c : InferenceConfig) : ParallelConfig × Bool × InferenceDeploymentConfig × Bool :=
  (c.parallel, c.enableLora, c.deployment, c.enableExpertParallel)

theorem keeps_autoSetupKvCacheOffload : Keeps layout autoSetupKvCacheOffload := by
  intro c c' h
  unfold autoSetupKvCacheOffload at h
  split at h
  · rw [Except.ok.inj h]
  · obtain ⟨_, _, h⟩ := bind_eq_ok.1 h
    rw [← Except.ok.inj h]
    split <;> rfl

theorem keeps_autoSetupSlurmTemplate [Installation] : Keeps layout autoSetupSlurmTemplate := by
  intro c c' h
  unfold autoSetupSlurmTemplate at h
  split at h
  · rw [← Except.ok.inj h]
    rfl
  · rw [Except.ok.inj h]

theorem keeps_autoSetupMaxLoraRank : Keeps layout autoSetupMaxLoraRank := by
  intro c c' h
  unfold autoSetupMaxLoraRank at h
  split at h
  · rw [Except.ok.inj h]
  · split at h
    · rw [← Except.ok.inj h]
      rfl
    · simp [raiseValueError] at h

theorem keeps_autoSetupApiServerCount : Keeps layout autoSetupApiServerCount := by
  intro c c' h
  rw [← Except.ok.inj h]
  rfl

theorem autoSetupDisaggregated_spec {c c' : InferenceConfig} (h : c.autoSetupDisaggregated = .ok c') : LaidOut c c' := by
  unfold autoSetupDisaggregated at h
  split at h
  · rename_i d hd
    obtain ⟨dpPerNode, hdiv, rfl⟩ := map_eq_ok.1 h
    obtain ⟨-, rfl⟩ := floorDiv_eq_ok.1 hdiv
    refine ⟨rfl, ?_, rfl, rfl, fun hnot => ?_⟩
    · simp [fillDisaggregated, dataParallel, hd]
    · simp [InferenceDeploymentConfig.isDisaggregated, hd] at hnot
  · rename_i hnot
    obtain rfl := Except.ok.inj h
    refine ⟨rfl, ?_, rfl, rfl, fun _ => rfl⟩
    unfold dataParallel
    split
    · exact absurd ‹_› (hnot _)
    · rfl

theorem LaidOut.of_layout {c c₁ c' : InferenceConfig} (h : LaidOut c c₁) (hkeep : c'.layout = c₁.layout) : LaidOut c c' := by
  simp only [layout, Prod.mk.injEq] at hkeep
  obtain ⟨hparallel, hlora, hdeployment, hep⟩ := hkeep
  exact ⟨hparallel ▸ h.tp, hparallel ▸ h.dp, hlora.trans h.enableLora, hdeployment.trans h.deployment, fun hnot =>
    hep.trans (h.enableExpertParallel hnot)⟩

theorem LaidOut.of_layout_left {c c₁ c' : InferenceConfig} (h : LaidOut c₁ c') (hkeep : c₁.layout = c.layout) :
    LaidOut c c' := by
  simp only [layout, Prod.mk.injEq] at hkeep
  obtain ⟨hparallel, hlora, hdeployment, hep⟩ := hkeep
  have hdp : c₁.dataParallel = c.dataParallel := by simp only [dataParallel, hparallel, hdeployment]
  exact ⟨hparallel ▸ h.tp, hdp ▸ h.dp, h.enableLora.trans hlora, h.deployment.trans hdeployment, fun hnot =>
    (h.enableExpertParallel (hdeployment ▸ hnot)).trans hep⟩

/-- Only a disaggregated deployment changes the layout. -/
theorem resolve_spec [Installation] {c c' : InferenceConfig} (h : c.resolve = .ok c') : LaidOut c c' := by
  obtain ⟨_, _, hrun⟩ := bind_eq_ok.1 h
  have hsplit : (afterValidators : List (InferenceConfig → _)) =
      [checking validateMultiNodeRequiresSlurm, autoSetupKvCacheOffload] ++ (autoSetupDisaggregated ::
        [autoSetupSlurmTemplate, autoSetupMaxLoraRank, autoSetupApiServerCount]) := rfl
  rw [hsplit, run_append_eq_ok] at hrun
  obtain ⟨c₁, hbefore, hrun⟩ := hrun
  obtain ⟨c₂, hdisaggregated, hafter⟩ := run_cons_eq_ok.1 hrun
  have hkeep₁ : c₁.layout = c.layout := by
    refine Keeps.run ?_ _ _ hbefore
    simp [Keeps.checking, keeps_autoSetupKvCacheOffload]
  have hkeep₂ : c'.layout = c₂.layout := by
    refine Keeps.run ?_ _ _ hafter
    simp [keeps_autoSetupSlurmTemplate, keeps_autoSetupMaxLoraRank, keeps_autoSetupApiServerCount]
  exact ((autoSetupDisaggregated_spec hdisaggregated).of_layout hkeep₂).of_layout_left hkeep₁

end InferenceConfig

end AuroraRl.Config
