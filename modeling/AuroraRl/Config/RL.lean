import AuroraRl.Config.Inference

/-!
# The run config

* `TrainerConfig`, `OrchestratorConfig` : the fields a validator of the run config reads, as their own validators leave them;
* `RLConfig` : the run config, its sub-configs filled from the shared fields;
* `RLConfig.resolve` : the constraints, the inference config, then the validators in the order they are declared.

Assignments are not validated again. Warnings are left out.
-/

namespace AuroraRl.Config

open Validators

/-! ## Weight broadcast -/

inductive BroadcastMode
  | full
  | delta
  deriving DecidableEq, Repr

inductive UpdateProtocol
  | direct
  | stageCommit
  deriving DecidableEq, Repr

inductive StageTransport
  | sharedFs
  | httpUpload
  | chunkedUpload
  | streamingUpload
  deriving DecidableEq, Repr

structure TrainerFileSystemWeightBroadcastConfig where
  mode : BroadcastMode := .full
  deltaStreamingEnabled : Bool := false
  deltaStreamGroupSize : Int := 4
  retainAllDeltas : Bool := false
  deriving DecidableEq, Repr

structure OrchestratorFileSystemWeightBroadcastConfig where
  mode : BroadcastMode := .full
  updateProtocol : UpdateProtocol := .direct
  stageTransport : StageTransport := .sharedFs
  backgroundStage : Bool := false
  deriving DecidableEq, Repr

structure NCCLWeightBroadcastConfig where
  host : String := "localhost"
  port : Int := 29501
  timeout : Int := 1200
  inferenceWorldSize : Int := 1
  quantizeInWeightTransfer : Bool := false
  deriving DecidableEq, Repr

inductive TrainerWeightBroadcastConfig
  | filesystem (config : TrainerFileSystemWeightBroadcastConfig)
  | nccl (config : NCCLWeightBroadcastConfig)
  deriving DecidableEq, Repr

namespace TrainerWeightBroadcastConfig

def type : TrainerWeightBroadcastConfig → BroadcastType
  | filesystem _ => .filesystem
  | nccl _ => .nccl

/-- `validate_delta_options`, after the constraints of the fields. -/
def validate : TrainerWeightBroadcastConfig → Except PyException Unit
  | filesystem b => do
    fieldGe 0 b.deltaStreamGroupSize
    raiseIf (b.retainAllDeltas ∧ b.mode ≠ .delta) "retain_all_deltas requires mode='delta'."
    raiseIf (b.deltaStreamingEnabled ∧ b.mode ≠ .delta) "delta_streaming_enabled requires mode='delta'."
  | nccl _ => .ok ()

end TrainerWeightBroadcastConfig

inductive OrchestratorWeightBroadcastConfig
  | filesystem (config : OrchestratorFileSystemWeightBroadcastConfig)
  | nccl (config : NCCLWeightBroadcastConfig)
  deriving DecidableEq, Repr

namespace OrchestratorWeightBroadcastConfig

def type : OrchestratorWeightBroadcastConfig → BroadcastType
  | filesystem _ => .filesystem
  | nccl _ => .nccl

/-- `validate_stage_protocol`, after the constraints of the fields. -/
def validate : OrchestratorWeightBroadcastConfig → Except PyException Unit
  | filesystem b => do
    raiseIf (b.backgroundStage ∧ b.updateProtocol ≠ .stageCommit)
      "background_stage requires update_protocol='stage_commit'."
    raiseIf (b.updateProtocol = .stageCommit ∧ b.stageTransport ≠ .sharedFs ∧ b.mode ≠ .delta)
      "HTTP stage transports currently require mode='delta'."
  | nccl b => fieldGe 1 b.inferenceWorldSize

end OrchestratorWeightBroadcastConfig

structure SharedWeightBroadcastConfig where
  type : BroadcastType := .filesystem
  mode : BroadcastMode := .full
  updateProtocol : UpdateProtocol := .direct
  stageTransport : StageTransport := .sharedFs
  backgroundStage : Bool := false
  retainAllDeltas : Bool := false
  deltaStreamGroupSize : Int := 4
  port : Int := 29501
  timeout : Int := 1200
  quantizeInWeightTransfer : Bool := false
  deriving DecidableEq, Repr

/-- `validate_filesystem_options`, after the constraints of the fields. -/
def SharedWeightBroadcastConfig.validate (w : SharedWeightBroadcastConfig) : Except PyException Unit := do
  fieldGe 0 w.deltaStreamGroupSize
  raiseIf (w.type = .filesystem ∧ w.backgroundStage ∧ w.updateProtocol ≠ .stageCommit)
    "background_stage requires update_protocol='stage_commit'."
  raiseIf (w.type = .filesystem ∧ w.updateProtocol = .stageCommit ∧ w.stageTransport ≠ .sharedFs ∧ w.mode ≠ .delta)
    "HTTP stage transports currently require weight_broadcast.mode='delta'."
  raiseIf (w.type = .filesystem ∧ w.retainAllDeltas ∧ w.mode ≠ .delta)
    "retain_all_deltas requires weight_broadcast.mode='delta'."

/-! ## The trainer and the orchestrator -/

structure TokenizerConfig where
  chatTemplate : Option String := none
  deriving DecidableEq, Repr

structure CheckpointConfig where
  interval : Option Int := none
  resumeStep : Option Int := none
  deriving DecidableEq, Repr

structure WandbConfig where
  project : String := "prime-rl"
  deriving DecidableEq, Repr

inductive ModelImpl
  | hf
  | custom
  | auto
  deriving DecidableEq, Repr

/-- `alpha` is the text of a float. -/
structure TrainerLoRAConfig where
  rank : Int := 16
  alpha : String := "32.0"
  deriving DecidableEq, Repr

structure TrainerModelConfig where
  name : String := "Qwen/Qwen3-0.6B"
  seqLen : Int := 2048
  cp : Int := 1
  dpReplicate : Int := 1
  impl : ModelImpl := .auto
  lora : Option TrainerLoRAConfig := none
  deriving DecidableEq, Repr

structure FakeDataLoaderConfig where
  batchSize : Int := 2
  deriving DecidableEq, Repr

structure DataLoaderConfig where
  fake : Option FakeDataLoaderConfig := none
  deriving DecidableEq, Repr

structure BenchConfig where
  outputJson : Option PurePath := none
  deriving DecidableEq, Repr

structure TrainerConfig where
  model : TrainerModelConfig := {}
  tokenizer : TokenizerConfig := {}
  data : DataLoaderConfig := {}
  ckpt : Option CheckpointConfig := none
  weightBroadcast : TrainerWeightBroadcastConfig := .filesystem {}
  wandb : Option WandbConfig := none
  outputDir : PurePath := ⟨"", ["outputs"]⟩
  maxSteps : Option Int := none
  enableRouterReplay : Bool := false
  bench : Option BenchConfig := none
  deriving DecidableEq, Repr

/-- The LoRA config of the student; `alpha` is the text of a float. -/
structure LoRAConfig where
  name : Option String := none
  rank : Option Int := none
  alpha : Option String := none
  deriving DecidableEq, Repr

structure StudentModelConfig where
  name : String := "Qwen/Qwen3-0.6B"
  lora : Option LoRAConfig := none
  deriving DecidableEq, Repr

/-- `isElastic` : whether `elastic` is set. -/
structure ClientConfig where
  baseUrl : List String := ["http://localhost:8000/v1"]
  dpRankCount : Int := 1
  leaseRecoveryEnabled : Bool := false
  isElastic : Bool := false
  modelFieldsSet : List String := []
  deriving DecidableEq, Repr

structure StudentConfig where
  model : StudentModelConfig := {}
  client : ClientConfig := {}
  deriving DecidableEq, Repr

inductive TrainingMode
  | rl
  | opd
  | sft
  deriving DecidableEq, Repr

inductive InferenceRole
  | prefill
  | decode
  deriving DecidableEq, Repr

structure OrchestratorConfig where
  student : StudentConfig := {}
  tokenizer : TokenizerConfig := {}
  trainingMode : TrainingMode := .rl
  inferenceMetricsRoles : Option (List InferenceRole) := none
  ckpt : Option CheckpointConfig := none
  weightBroadcast : OrchestratorWeightBroadcastConfig := .filesystem {}
  wandb : Option WandbConfig := none
  outputDir : PurePath := ⟨"", ["outputs", "run_default"]⟩
  batchSize : Option Int := none
  seqLen : Int := 2048
  numTrainWorkers : Int := 1
  maxSteps : Option Int := none
  bench : Bool := false
  modelFieldsSet : List String := []
  deriving DecidableEq, Repr

/-! ## The deployment -/

structure SingleNodeDeploymentConfig where
  gpusPerNode : Int := 8
  numTrainGpus : Int := 1
  numInferGpus : Int := 1
  deriving DecidableEq, Repr

structure MultiNodeDeploymentConfig where
  gpusPerNode : Int := 8
  numTrainNodes : Int
  numInferNodes : Int
  numInferReplicas : Int := 1
  nodesPerFsdpGroup : Option Int := none
  deriving DecidableEq, Repr

def MultiNodeDeploymentConfig.totalInferNodes (d : MultiNodeDeploymentConfig) : Int :=
  d.numInferNodes * d.numInferReplicas

inductive DeploymentConfig
  | singleNode (config : SingleNodeDeploymentConfig)
  | multiNode (config : MultiNodeDeploymentConfig)
  deriving DecidableEq, Repr

/-- `validate_gpu_count`, and the constraints of the fields. -/
def DeploymentConfig.validate : DeploymentConfig → Except PyException Unit
  | singleNode d =>
    raiseIf (d.gpusPerNode < d.numTrainGpus + d.numInferGpus) ("Total GPU count (" ++
      toString (d.numTrainGpus + d.numInferGpus) ++ " = " ++ toString d.numTrainGpus ++ " train + " ++
      toString d.numInferGpus ++ " infer) exceeds gpus_per_node (" ++ toString d.gpusPerNode ++ ").")
  | multiNode d => do
    fieldGe 0 d.numInferNodes
    fieldGe 1 d.numInferReplicas

structure RLConfig where
  trainer : TrainerConfig := {}
  orchestrator : OrchestratorConfig := {}
  inference : Option InferenceConfig := none
  weightBroadcast : Option SharedWeightBroadcastConfig := none
  bench : Bool := false
  deployment : DeploymentConfig := .singleNode {}
  slurm : Option SlurmConfig := none
  deriving DecidableEq, Repr

end AuroraRl.Config
