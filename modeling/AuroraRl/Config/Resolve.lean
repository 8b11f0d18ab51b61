import AuroraRl.Config.RL

/-!
# Resolving a run config

* the validators of the run config, each under the name it has there;
* `RLConfig.afterValidators` : the order they are declared in;
* `RLConfig.resolve` : the config that the fields that were given end in.
-/

namespace AuroraRl.Config

open Validators

/-- `str(value)` of an integer that may be `None`. -/
def intText : Option Int → String
  | none => "None"
  | some n => toString n

def boolText (b : Bool) : String := if b then "True" else "False"

/-- `repr` of a text that may be `None`. -/
def reprText [Installation] : Option String → String
  | none => "None"
  | some s => Installation.reprStr s

def BenchConfig.text : Option BenchConfig → String
  | none => "None"
  | some ⟨none⟩ => "output_json=None"
  | some ⟨some path⟩ => "output_json=PosixPath('" ++ path.asPosix ++ "')"

namespace RLConfig

/-! ## Checks of what was given -/

def validateDeployment (c : RLConfig) : Except PyException Unit :=
  match c.deployment with
  | .singleNode _ => .ok ()
  | .multiNode d => do
    raiseIf c.slurm.isNone "Must use SLURM for multi-node deployment."
    raiseIf (0 < d.numInferNodes ∧ c.inference.isNone)
      "Must configure inference when using multi-node deployment with inference nodes."
    raiseIf (d.numInferNodes = 0 ∧ c.inference.isSome)
      ("Cannot configure inference with num_infer_nodes = 0. " ++
        "Either set num_infer_nodes > 0 or remove the inference config.")
    raiseIf (d.numInferNodes = 0 ∧ c.trainer.data.fake.isNone ∧ c.bench = false)
      ("Must use fake data (trainer.data.fake or bench = true) when num_infer_nodes = 0, " ++
        "since no orchestrator or inference server will be running.")

def validateEnoughDevicesForNccl (c : RLConfig) : Except PyException Unit :=
  match c.deployment with
  | .singleNode d => raiseIf (c.trainer.weightBroadcast.type = .nccl ∧ d.numTrainGpus + d.numInferGpus < 2)
      "NCCL weight broadcast requires at least 2 GPUs to build the broadcast process group."
  | .multiNode _ => .ok ()

def validateQuantizeInWeightTransfer (c : RLConfig) : Except PyException Unit :=
  match c.weightBroadcast with
  | none => .ok ()
  | some w => if w.quantizeInWeightTransfer then do
      raiseIf (w.type ≠ .nccl) "weight_broadcast.quantize_in_weight_transfer requires weight_broadcast.type = 'nccl'."
      raiseIf c.inference.isNone "weight_broadcast.quantize_in_weight_transfer requires an inference config."
      raiseIf (c.trainer.model.impl ≠ .custom)
        "weight_broadcast.quantize_in_weight_transfer requires trainer.model.impl = 'custom'."
    else .ok ()

/-! ## Checks of the shared fields -/

def validateSharedOutputDir (c : RLConfig) : Except PyException Unit :=
  raiseIf (c.trainer.outputDir ≠ c.orchestrator.outputDir.parent)
    ("Trainer outputs directory (" ++ c.trainer.outputDir.asPosix ++ ") and orchestrator outputs directory parent (" ++
      c.orchestrator.outputDir.parent.asPosix ++
      ") are not the same. Please specify the same outputs directory for both.")

def validateSharedModelName (c : RLConfig) : Except PyException Unit :=
  match c.inference with
  | some inference => raiseIf (inference.model.name ≠ c.orchestrator.student.model.name)
      ("Inference model name (" ++ inference.model.name ++ ") and orchestrator model name (" ++
        c.orchestrator.student.model.name ++ ") are not the same. " ++
        "The orchestrator queries the inference server and must use the same model name.")
  | none => raiseIf (¬ "Jackmin108/".toList <+: c.trainer.model.name.toList ∧
        c.trainer.model.name ≠ c.orchestrator.student.model.name)
      ("Trainer model name (" ++ c.trainer.model.name ++ ") and orchestrator model name (" ++
        c.orchestrator.student.model.name ++ ") are not the same. Please specify the same model name for both.")

def validateSharedTokenizer [Installation] (c : RLConfig) : Except PyException Unit := do
  raiseIf (c.trainer.tokenizer.chatTemplate ≠ c.orchestrator.tokenizer.chatTemplate)
    ("Trainer chat_template (" ++ reprText c.trainer.tokenizer.chatTemplate ++ ") and orchestrator chat_template (" ++
      reprText c.orchestrator.tokenizer.chatTemplate ++
      ") do not match. Use the shared [tokenizer] config to set chat_template for both.")
  match c.inference with
  | none => .ok ()
  | some inference =>
    raiseIf (c.trainer.tokenizer.chatTemplate ≠ inference.model.chatTemplate)
      ("Inference chat_template (" ++ reprText inference.model.chatTemplate ++
        ") does not match the shared tokenizer chat_template (" ++ reprText c.trainer.tokenizer.chatTemplate ++
        "). Use the shared [tokenizer] config to set chat_template for all components.")

def validateSharedMaxSteps (c : RLConfig) : Except PyException Unit :=
  raiseIf (c.trainer.maxSteps ≠ c.orchestrator.maxSteps)
    ("Trainer max steps (" ++ intText c.trainer.maxSteps ++ ") and orchestrator max steps (" ++
      intText c.orchestrator.maxSteps ++ ") are not the same. Please specify the same max steps for both.")

def validateSharedSeqLen (c : RLConfig) : Except PyException Unit :=
  raiseIf (c.trainer.model.seqLen < c.orchestrator.seqLen)
    ("Trainer model seq_len (" ++ toString c.trainer.model.seqLen ++ ") must be >= orchestrator seq_len (" ++
      toString c.orchestrator.seqLen ++ "). The trainer needs to be able to handle sequences at least as long as " ++
      "those produced by the orchestrator.")

def validateSharedCkptConfig (c : RLConfig) : Except PyException Unit :=
  match c.trainer.ckpt, c.orchestrator.ckpt with
  | none, none => .ok ()
  | some _, none => raiseValueError ("Trainer checkpoint config is specified, but orchestrator checkpoint config is " ++
      "not. Please setup checkpointing on both for checkpointing to work properly.")
  | none, some _ => raiseValueError ("Orchestrator checkpoint config is specified, but trainer checkpoint config is " ++
      "not. Please setup checkpointing on both for checkpointing to work properly.")
  | some t, some o => do
    raiseIf (t.interval ≠ o.interval) ("Trainer checkpoint interval (" ++ intText t.interval ++
      ") and orchestrator checkpoint interval (" ++ intText o.interval ++
      ") are not the same. Please specify the same checkpoint interval for both.")
    raiseIf (t.resumeStep ≠ o.resumeStep) ("Trainer checkpoint resume step (" ++ intText t.resumeStep ++
      ") and orchestrator checkpoint resume step (" ++ intText o.resumeStep ++
      ") are not the same. Please specify the same checkpoint resume step for both.")

def validateSharedWandbConfig (c : RLConfig) : Except PyException Unit :=
  match c.trainer.wandb, c.orchestrator.wandb with
  | none, none => .ok ()
  | some _, none => raiseValueError ("Trainer W&B config is specified, but orchestrator W&B config is not. " ++
      "This means only trainer metrics will be logged. Please specify [orchestrator.wandb] to log orchestrator " ++
      "metrics as well, or use [wandb] to configure both at once.")
  | none, some _ => raiseValueError ("Orchestrator W&B config is specified, but trainer W&B config is not. " ++
      "This means only orchestrator metrics will be logged. Please specify [trainer.wandb] to log trainer " ++
      "metrics as well, or use [wandb] to configure both at once.")
  | some t, some o => raiseIf (t.project ≠ o.project) ("Trainer W&B project (" ++ t.project ++
      ") and orchestrator W&B project (" ++ o.project ++
      ") are not the same. Please specify the same W&B project for both.")

def validateSharedConfigs [Installation] (c : RLConfig) : Except PyException Unit := do
  c.validateSharedOutputDir
  c.validateSharedModelName
  c.validateSharedTokenizer
  c.validateSharedMaxSteps
  c.validateSharedSeqLen
  c.validateSharedCkptConfig
  c.validateSharedWandbConfig

/-! ## Weight broadcast -/

/-- The workers there are before the deployment is looked at. -/
def initialWorldSize (c : RLConfig) : Int :=
  match c.inference with
  | some inference => inference.parallel.dp * inference.parallel.tp
  | none => 1

/-- The NCCL config that the trainer and the orchestrator are given. -/
def sharedNccl (c : RLConfig) (w : SharedWeightBroadcastConfig) : NCCLWeightBroadcastConfig where
  port := w.port
  timeout := w.timeout
  inferenceWorldSize := c.initialWorldSize
  quantizeInWeightTransfer := w.quantizeInWeightTransfer

def trainerBroadcast (c : RLConfig) (w : SharedWeightBroadcastConfig) : TrainerWeightBroadcastConfig :=
  match w.type with
  | .nccl => .nccl (c.sharedNccl w)
  | .filesystem => .filesystem
      { mode := w.mode, retainAllDeltas := w.retainAllDeltas,
        deltaStreamingEnabled := w.stageTransport = .streamingUpload, deltaStreamGroupSize := w.deltaStreamGroupSize }

def orchestratorBroadcast (c : RLConfig) (w : SharedWeightBroadcastConfig) : OrchestratorWeightBroadcastConfig :=
  match w.type with
  | .nccl => .nccl (c.sharedNccl w)
  | .filesystem => .filesystem
      { mode := w.mode, updateProtocol := w.updateProtocol, stageTransport := w.stageTransport,
        backgroundStage := w.backgroundStage }

/-- The sub-configs of the shared weight broadcast, checked as they are built. -/
def shareWeightBroadcast (c : RLConfig) (w : SharedWeightBroadcastConfig) : Except PyException RLConfig := do
  (c.trainerBroadcast w).validate
  (c.orchestratorBroadcast w).validate
  return { c with
    trainer := { c.trainer with weightBroadcast := c.trainerBroadcast w }
    orchestrator := { c.orchestrator with weightBroadcast := c.orchestratorBroadcast w }
    inference := c.inference.map fun inference => { inference with weightBroadcast := w.type } }

def shareSetWeightBroadcast (c : RLConfig) : Except PyException RLConfig :=
  match c.weightBroadcast with
  | none => .ok c
  | some w => c.shareWeightBroadcast w

/-- The case of `validate_shared_weight_broadcast` with an inference config. -/
def validateInferenceBroadcast (c : RLConfig) : Except PyException Unit :=
  let orchestrator := c.orchestrator.weightBroadcast.type
  match c.inference with
  | none => .ok ()
  | some inference =>
    raiseIf (c.trainer.weightBroadcast.type ≠ orchestrator ∧ orchestrator ≠ inference.weightBroadcast)
      ("Inference weight broadcast type (" ++ inference.weightBroadcast.text ++
        ") and orchestrator weight broadcast type (" ++ orchestrator.text ++
        ") are not the same. Please specify the same weight broadcast type for both.")

def validateSharedWeightBroadcast (c : RLConfig) : Except PyException Unit := do
  c.validateInferenceBroadcast
  raiseIf (c.trainer.weightBroadcast.type ≠ c.orchestrator.weightBroadcast.type)
    ("Trainer weight broadcast type (" ++ c.trainer.weightBroadcast.type.text ++
      ") and orchestrator weight broadcast type (" ++ c.orchestrator.weightBroadcast.type.text ++
      ") are not the same. Please specify the same weight broadcast type for both.")

def autoSetupWeightBroadcast (c : RLConfig) : Except PyException RLConfig :=
  c.shareSetWeightBroadcast >>= checking validateSharedWeightBroadcast

def resumes (ckpt : Option CheckpointConfig) : Bool := (ckpt.bind CheckpointConfig.resumeStep).isSome

def sendsDeltas (c : RLConfig) : Bool :=
  match c.trainer.weightBroadcast with
  | .filesystem b => b.mode = .delta
  | .nccl _ => false

def stagesCommits (c : RLConfig) : Bool :=
  match c.orchestrator.weightBroadcast with
  | .filesystem b => b.updateProtocol = .stageCommit
  | .nccl _ => false

def validateSparseDeltaRuntime (c : RLConfig) : Except PyException Unit :=
  if c.sendsDeltas then do
    raiseIf c.trainer.model.lora.isSome "filesystem delta weight updates do not support LoRA."
    raiseIf (resumes c.trainer.ckpt ∨ resumes c.orchestrator.ckpt)
      "delta weight updates cannot resume without a synchronized full checkpoint; use mode='full'."
    match c.inference with
    | none => .ok ()
    | some inference =>
      raiseIf (c.stagesCommits ∧ inference.apiServerCount ≠ 1)
        "stage_commit requires a single inference API server to own the version state."
  else .ok ()

def validateLeaseRecovery (c : RLConfig) : Except PyException Unit :=
  if c.orchestrator.student.client.leaseRecoveryEnabled then
    match c.trainer.weightBroadcast, c.orchestrator.weightBroadcast with
    | .filesystem t, .filesystem o => do
      raiseIf (t.mode ≠ .delta ∨ o.mode ≠ .delta) "lease recovery requires weight_broadcast.mode='delta'."
      raiseIf (o.updateProtocol ≠ .stageCommit)
        "lease recovery requires weight_broadcast.update_protocol='stage_commit'."
      raiseIf (o.stageTransport = .sharedFs) "lease recovery requires HTTP stage transport."
      raiseIf (t.retainAllDeltas = false) "lease recovery requires weight_broadcast.retain_all_deltas=true."
      raiseIf (c.trainer.ckpt.bind CheckpointConfig.resumeStep ∉ [none, some 0])
        "lease recovery only supports training from the base model (resume_step must be None or 0)."
    | _, _ => raiseValueError "lease recovery requires filesystem weight broadcast."
  else .ok ()

def validateStaticStageCommit (c : RLConfig) : Except PyException Unit :=
  raiseIf (c.orchestrator.student.client.isElastic ∧ c.stagesCommits)
    "filesystem stage_commit weight updates require the static inference pool."

def quantizesTransfer (c : RLConfig) : Bool :=
  match c.trainer.weightBroadcast with
  | .filesystem _ => false
  | .nccl b => b.quantizeInWeightTransfer

def validateEplbRequiresQuantizedWeightTransfer (c : RLConfig) : Except PyException Unit :=
  match c.inference with
  | none => .ok ()
  | some inference => raiseIf (inference.enableEplb ∧ ¬ c.quantizesTransfer)
      ("inference.enable_eplb requires weight_broadcast.type = 'nccl' and " ++
        "weight_broadcast.quantize_in_weight_transfer = true.")

/-! ## Benchmarks, LoRA, router replay -/

def enableBench (c : RLConfig) : Except PyException RLConfig :=
  if c.bench then do
    let batchSize := InferenceConfig.orElse c.orchestrator.batchSize 32
    fieldGe 1 batchSize
    return { c with
      trainer := { c.trainer with bench := some {}, data := { c.trainer.data with fake := some { batchSize } } }
      orchestrator := { c.orchestrator with bench := true } }
  else .ok c

def validateBench (c : RLConfig) : Except PyException Unit :=
  raiseIf (c.trainer.bench.isSome ≠ c.orchestrator.bench)
    ("Trainer benchmark mode (" ++ BenchConfig.text c.trainer.bench ++ ") and orchestrator benchmark mode (" ++
      boolText c.orchestrator.bench ++ ") must match. Use the top-level bench = true to set both.")

def autoSetupBench (c : RLConfig) : Except PyException RLConfig := c.enableBench >>= checking validateBench

/-- A LoRA field of the student that was set to something else. -/
def conflictText (field student trainer : String) : String :=
  "orchestrator.student.model.lora." ++ field ++ " (" ++ student ++ ") conflicts with trainer.model.lora." ++ field ++
    " (" ++ trainer ++ "). Remove orchestrator.student.model.lora." ++ field ++
    " to inherit from trainer, or update trainer.model.lora." ++ field ++ " to match."

/-- The student's LoRA config with what it leaves open taken from the trainer's. -/
def inheritLora (lora : TrainerLoRAConfig) (student : LoRAConfig) : LoRAConfig :=
  let rank := student.rank.getD lora.rank
  let alpha := student.alpha.getD lora.alpha
  { rank := some rank, alpha := some alpha, name := some (student.name.getD ("r" ++ toString rank ++ "-a" ++ alpha)) }

def autoSetupLora (c : RLConfig) : Except PyException RLConfig :=
  match c.trainer.model.lora with
  | none => .ok c
  | some lora => do
    raiseIf (c.trainer.weightBroadcast.type = .nccl) "NCCL weight broadcast does not support LoRA yet."
    let student := c.orchestrator.student.model.lora.getD {}
    raiseIf (student.rank ∉ [none, some lora.rank])
      (conflictText "rank" (intText student.rank) (toString lora.rank))
    raiseIf (student.alpha ∉ [none, some lora.alpha])
      (conflictText "alpha" (student.alpha.getD "None") lora.alpha)
    let model := { c.orchestrator.student.model with lora := some (inheritLora lora student) }
    return { c with
      orchestrator := { c.orchestrator with student := { c.orchestrator.student with model } }
      inference := c.inference.map fun inference =>
        { inference with enableLora := true, maxLoraRank := some lora.rank } }

def autoSetupRouterReplay (c : RLConfig) : Except PyException RLConfig :=
  if c.trainer.enableRouterReplay then
    .ok { c with inference := c.inference.map fun inference => { inference with enableReturnRoutedExperts := true } }
  else .ok c

def validateRouterReplayWithoutKvOffload (c : RLConfig) : Except PyException Unit :=
  raiseIf (c.trainer.enableRouterReplay ∧ (c.inference.bind InferenceConfig.kvCacheOffload).isSome)
    ("Router replay with inference.kv_cache_offload is not supported. " ++
      "External KV cache hits do not carry routed-expert decisions.")

/-! ## The deployment -/

/-- One worker for each data replica of the trainer. -/
def setTrainWorkers (c : RLConfig) (d : SingleNodeDeploymentConfig) : Except PyException RLConfig :=
  if 1 < d.numTrainGpus then
    (floorDiv d.numTrainGpus c.trainer.model.cp).map fun workers =>
      { c with orchestrator := { c.orchestrator with numTrainWorkers := workers } }
  else .ok c

/-- As many data-parallel ranks as the GPUs have room for. -/
def fillDataParallel (numInferGpus : Int) (inference : InferenceConfig) : Except PyException InferenceConfig :=
  if numInferGpus = inference.parallel.dp * inference.parallel.tp then .ok inference
  else do
    let rest ← floorMod numInferGpus inference.parallel.tp
    pyAssert (rest = 0) "Number of inference GPUs must be divisible by the tensor parallel size"
    let dp ← floorDiv numInferGpus inference.parallel.tp
    return { inference with parallel := { inference.parallel with dp } }

/-- An API server for each data-parallel rank, unless LoRA allows one only. -/
def matchServers (inference : InferenceConfig) : InferenceConfig :=
  if inference.apiServerCount < inference.parallel.dp ∧ inference.enableLora = false then
    { inference with apiServerCount := inference.parallel.dp }
  else inference

/-- What `f` makes of the inference config, if there is one. -/
def mapInference (c : RLConfig) (f : InferenceConfig → Except PyException InferenceConfig) : Except PyException RLConfig :=
  match c.inference with
  | none => .ok c
  | some inference => (f inference).map fun inference => { c with inference := some inference }

def setupSingleNode (d : SingleNodeDeploymentConfig) (c : RLConfig) : Except PyException RLConfig := do
  let c ← c.setTrainWorkers d
  c.mapInference fun inference => (fillDataParallel d.numInferGpus inference).map matchServers

def groupFsdp (d : MultiNodeDeploymentConfig) (c : RLConfig) : Except PyException RLConfig :=
  match d.nodesPerFsdpGroup with
  | none => .ok c
  | some nodes => do
    let rest ← floorMod d.numTrainNodes nodes
    raiseIf (rest ≠ 0) ("deployment.num_train_nodes (" ++ toString d.numTrainNodes ++
      ") must be divisible by deployment.nodes_per_fsdp_group (" ++ toString nodes ++ ")")
    let replicas ← floorDiv d.numTrainNodes nodes
    return { c with trainer := { c.trainer with model := { c.trainer.model with dpReplicate := replicas } } }

/-- Expert-parallel inference over the nodes, unless it is disaggregated. -/
def fillExpertParallel (d : MultiNodeDeploymentConfig) (inference : InferenceConfig) :
    Except PyException InferenceConfig :=
  if inference.enableExpertParallel ∧ inference.deployment.isDisaggregated = false then do
    let tp := inference.parallel.tp
    let rest ← floorMod d.gpusPerNode tp
    raiseIf (rest ≠ 0) ("deployment.gpus_per_node must be divisible by inference.parallel.tp " ++
      "when inference.enable_expert_parallel is enabled in multi-node deployment.")
    let inferredDpLocal ← floorDiv d.gpusPerNode tp
    let totalInferGpus := d.numInferNodes * d.gpusPerNode
    let expected := inference.parallel.dp * tp
    raiseIf (expected ≠ totalInferGpus) ("For multi-node expert parallel inference, inference.parallel.dp * " ++
      "inference.parallel.tp must match total inference GPUs (" ++ toString totalInferGpus ++ "), got " ++
      toString expected ++ ".")
    raiseIf (inference.dataParallelSizeLocal ∉ [none, some inferredDpLocal])
      ("inference.data_parallel_size_local must equal deployment.gpus_per_node / inference.parallel.tp (" ++
        toString inferredDpLocal ++ ") when inference.enable_expert_parallel is enabled in multi-node deployment.")
    return { inference with
      dataParallelSizeLocal := some inferredDpLocal
      apiServerCount :=
        if inference.enableLora = false ∧ inference.apiServerCount = inference.parallel.dp then inferredDpLocal
        else inference.apiServerCount }
  else .ok inference

/-- Standard inference on each node, unless it is disaggregated. -/
def fillNodes (d : MultiNodeDeploymentConfig) (inference : InferenceConfig) : Except PyException InferenceConfig :=
  if inference.enableExpertParallel = false ∧ inference.deployment.isDisaggregated = false then do
    let dpPerNode ← floorDiv d.gpusPerNode inference.parallel.tp
    if 1 < dpPerNode then
      return { inference with
        parallel := { inference.parallel with dp := if inference.parallel.dp = 1 then dpPerNode else inference.parallel.dp }
        dataParallelSizeLocal := some (inference.dataParallelSizeLocal.getD dpPerNode)
        apiServerCount := if inference.apiServerCount = 1 then dpPerNode else inference.apiServerCount }
    else return inference
  else .ok inference

/-- The world size a shared NCCL broadcast is given, at the host if there is one. -/
def assignWorldSize (host : Option String) (worldSize : Int) (c : RLConfig) : Except PyException RLConfig :=
  match c.trainer.weightBroadcast, c.orchestrator.weightBroadcast with
  | .nccl t, .nccl o => .ok { c with
      trainer := { c.trainer with
        weightBroadcast := .nccl { t with host := host.getD t.host, inferenceWorldSize := worldSize } }
      orchestrator := { c.orchestrator with weightBroadcast := .nccl { o with inferenceWorldSize := worldSize } } }
  | _, _ => .error ⟨.assertionError, ""⟩

def sharesNccl (c : RLConfig) : Bool := c.weightBroadcast.any fun w => w.type = .nccl

/-- Each API server runs `tp` workers that take part. -/
def assignNodesWorldSize (d : MultiNodeDeploymentConfig) (c : RLConfig) : Except PyException RLConfig :=
  if c.sharesNccl then
    let apiServerCount := (c.inference.map InferenceConfig.apiServerCount).getD 1
    let tp := (c.inference.map fun inference => inference.parallel.tp).getD 1
    c.assignWorldSize (some "0.0.0.0") (d.totalInferNodes * apiServerCount * tp)
  else .ok c

def setupMultiNode (d : MultiNodeDeploymentConfig) (c : RLConfig) : Except PyException RLConfig := do
  let c ← groupFsdp d { c with orchestrator :=
    { c.orchestrator with numTrainWorkers := d.numTrainNodes * d.gpusPerNode } }
  let c ← c.mapInference fun inference => fillExpertParallel d inference >>= fillNodes d
  assignNodesWorldSize d c

def autoSetupDeployment (c : RLConfig) : Except PyException RLConfig :=
  match c.deployment with
  | .singleNode d => setupSingleNode d c
  | .multiNode d => setupMultiNode d c

/-- The role of every admin client, over all replicas. -/
def setMetricsRoles (d : MultiNodeDeploymentConfig) (i : DisaggregatedInferenceDeploymentConfig) (c : RLConfig) : RLConfig :=
  let roleOrder := List.replicate i.numPrefillNodes.toNat InferenceRole.prefill ++
    List.replicate i.numDecodeNodes.toNat InferenceRole.decode
  if "inference_metrics_roles" ∈ c.orchestrator.modelFieldsSet then c
  else { c with orchestrator := { c.orchestrator with
    inferenceMetricsRoles := some (List.replicate d.numInferReplicas.toNat roleOrder).flatten } }

def setupDisaggregated (d : MultiNodeDeploymentConfig) (i : DisaggregatedInferenceDeploymentConfig) (c : RLConfig) :
    Except PyException RLConfig := do
  let expected := i.numPrefillNodes + i.numDecodeNodes
  raiseIf (d.numInferNodes ≠ expected) ("deployment.num_infer_nodes (" ++ toString d.numInferNodes ++
    ") must equal inference.deployment.num_prefill_nodes (" ++ toString i.numPrefillNodes ++
    ") + inference.deployment.num_decode_nodes (" ++ toString i.numDecodeNodes ++ ") = " ++ toString expected)
  if c.sharesNccl then (setMetricsRoles d i c).assignWorldSize none (d.totalInferNodes * d.gpusPerNode)
  else .ok (setMetricsRoles d i c)

def autoSetupDisaggregatedInference (c : RLConfig) : Except PyException RLConfig :=
  match c.inference.map InferenceConfig.deployment, c.deployment with
  | some (.disaggregated i), .multiNode d => setupDisaggregated d i c
  | _, _ => .ok c

def hostText : Option String → String
  | none => "localhost"
  | some host => if host = "" then "localhost" else host

def setupClient (c : RLConfig) (inference : InferenceConfig) (client : ClientConfig) : ClientConfig where
  __ := client
  dpRankCount :=
    if "dp_rank_count" ∈ client.modelFieldsSet then client.dpRankCount
    else InferenceConfig.orElse inference.dataParallelSizeLocal inference.parallel.dp
  baseUrl :=
    if c.orchestrator.trainingMode = .sft ∧ "base_url" ∉ client.modelFieldsSet then
      ["http://" ++ hostText inference.server.host ++ ":" ++ toString inference.server.port ++ "/v1"]
    else client.baseUrl

def autoSetupInferenceClient (c : RLConfig) : Except PyException RLConfig :=
  match c.inference with
  | none => .ok c
  | some inference =>
    let student := { c.orchestrator.student with client := c.setupClient inference c.orchestrator.student.client }
    .ok { c with orchestrator := { c.orchestrator with student } }

def templateName : DeploymentConfig → String
  | .singleNode _ => "single_node_rl.sbatch.j2"
  | .multiNode _ => "multi_node_rl.sbatch.j2"

def autoSetupSlurmTemplate [Installation] (c : RLConfig) : Except PyException RLConfig :=
  match c.slurm, Installation.templatesDir with
  | some ⟨none⟩, some dir => .ok { c with slurm := some ⟨some (dir.join (templateName c.deployment))⟩ }
  | _, _ => .ok c

/-! ## The whole config -/

/-- What runs up to the check of the API servers. -/
def setupBroadcast [Installation] : List (RLConfig → Except PyException RLConfig) :=
  [checking validateDeployment, checking validateEnoughDevicesForNccl, checking validateQuantizeInWeightTransfer,
    checking validateSharedConfigs, autoSetupWeightBroadcast]

/-- What runs between the check of the API servers and the deployment. -/
def setupRuntime : List (RLConfig → Except PyException RLConfig) :=
  [checking validateLeaseRecovery, checking validateStaticStageCommit,
    checking validateEplbRequiresQuantizedWeightTransfer, autoSetupBench, autoSetupLora, autoSetupRouterReplay,
    checking validateRouterReplayWithoutKvOffload]

/-- What runs after the deployment. -/
def setupClients [Installation] : List (RLConfig → Except PyException RLConfig) :=
  [autoSetupDisaggregatedInference, autoSetupInferenceClient, autoSetupSlurmTemplate]

/-- The validators in the order they are declared. -/
def afterValidators [Installation] : List (RLConfig → Except PyException RLConfig) :=
  setupBroadcast ++ checking validateSparseDeltaRuntime :: (setupRuntime ++ autoSetupDeployment :: setupClients)

def resolveInference [Installation] (inference : Option InferenceConfig) : Except PyException (Option InferenceConfig) :=
  match inference with
  | none => .ok none
  | some inference => inference.resolve.map some

/-- The config from the fields that were given, each sub-config checked before the whole. -/
def resolve [Installation] (c : RLConfig) : Except PyException RLConfig := do
  c.trainer.weightBroadcast.validate
  c.orchestrator.weightBroadcast.validate
  let inference ← resolveInference c.inference
  (c.weightBroadcast.elim (.ok ()) SharedWeightBroadcastConfig.validate)
  c.deployment.validate
  run afterValidators { c with inference }

end RLConfig

end AuroraRl.Config
