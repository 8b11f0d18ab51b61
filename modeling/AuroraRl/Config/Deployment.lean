import AuroraRl.Config.Phases

/-!
# What the deployment leaves of the checks before it

* `OneServer` : the deployment keeps the one API server that `stage_commit` was accepted with;
* `stageCommit_apiServerCount` : an accepted run with deltas and `stage_commit` has one API server iff it does;
* `GivenWorldSize` : the world size that is shared out is that of the GPUs;
* `nccl_worldSizes` : on a single node all who join an NCCL broadcast expect the same iff it is.
-/

namespace AuroraRl.Config

open Validators

/-- The data-parallel ranks that the GPUs have room for. -/
def InferenceConfig.ranksOn (i : InferenceConfig) (gpus : Int) : Int :=
  if i.parallel.tp = 0 then i.dataParallel else gpus.fdiv i.parallel.tp

/-- The deployment adds no API server: LoRA allows one only, or one rank has all the GPUs of the node; over several nodes
the inference is disaggregated or expert-parallel, or each node has one rank. -/
def OneServer (i : InferenceConfig) : DeploymentConfig → Prop
  | .singleNode d => i.enableLora = true ∨ i.ranksOn d.numInferGpus ≤ 1
  | .multiNode d => i.deployment.isDisaggregated = true ∨ i.enableExpertParallel = true ∨
      d.gpusPerNode.fdiv i.parallel.tp ≤ 1

/-- The trainer, the orchestrator and the workers that join expect one world size. -/
def WorldSizesAgree (c : RLConfig) : Prop :=
  ∃ t o, c.broadcasts = (.nccl t, .nccl o) ∧ t.inferenceWorldSize = o.inferenceWorldSize ∧
    ∀ i ∈ c.inference, t.inferenceWorldSize = i.parallel.dp * i.parallel.tp

/-- The layout that is given has the GPUs of the node; or the sub-configs have them, if nothing is shared. -/
def GivenWorldSize (r : RLConfig) (d : SingleNodeDeploymentConfig) : Prop :=
  match r.weightBroadcast with
  | some _ => ∀ i ∈ r.inference, i.dataParallel * i.parallel.tp = d.numInferGpus
  | none => ∃ t o, r.broadcasts = (.nccl t, .nccl o) ∧ t.inferenceWorldSize = o.inferenceWorldSize ∧
      (r.inference.isSome → t.inferenceWorldSize = d.numInferGpus)

namespace RLConfig

theorem setupSingleNode_spec {d : SingleNodeDeploymentConfig} {c c' : RLConfig} (h : setupSingleNode d c = .ok c') :
    c'.broadcasts = c.broadcasts ∧ c'.deployment = c.deployment ∧ (c.inference = none ∧ c'.inference = none ∨
      ∃ i i', c.inference = some i ∧ fillDataParallel d.numInferGpus i = .ok i' ∧
        c'.inference = some (matchServers i')) := by
  obtain ⟨c₁, hworkers, hmap⟩ := bind_eq_ok.1 h
  have hkeep := keeps_setTrainWorkers d _ _ hworkers
  simp only [deployed, Prod.mk.injEq] at hkeep
  obtain ⟨hinference, hdeployment, hbroadcasts⟩ := hkeep
  rw [← hbroadcasts, ← hinference, ← hdeployment]
  rcases mapInference_eq_ok.1 hmap with ⟨hnone, rfl⟩ | ⟨i, i', hsome, hfill, rfl⟩
  · exact ⟨rfl, rfl, .inl ⟨hnone, hnone⟩⟩
  · obtain ⟨i₁, hranks, rfl⟩ := map_eq_ok.1 hfill
    exact ⟨rfl, rfl, .inr ⟨i, i₁, hsome, hranks, rfl⟩⟩

theorem setupMultiNode_spec {d : MultiNodeDeploymentConfig} {c c' : RLConfig} (h : setupMultiNode d c = .ok c') :
    (c'.broadcasts = c.broadcasts ∨ c'.trainer.weightBroadcast.type = .nccl) ∧
      (c.inference = none ∧ c'.inference = none ∨
        ∃ i i₁ i', c.inference = some i ∧ fillExpertParallel d i = .ok i₁ ∧ fillNodes d i₁ = .ok i' ∧
          c'.inference = some i') := by
  simp only [setupMultiNode, bind_eq_ok] at h
  obtain ⟨c₁, hgroup, c₂, hmap, hassign⟩ := h
  have hkeep := keeps_groupFsdp d _ _ hgroup
  simp only [deployed, Prod.mk.injEq] at hkeep
  obtain ⟨hinference, -, hbroadcasts⟩ := hkeep
  have hassigned : c'.inference = c₂.inference ∧
      (c'.broadcasts = c₂.broadcasts ∨ c'.trainer.weightBroadcast.type = .nccl) := by
    unfold assignNodesWorldSize at hassign
    split at hassign
    · obtain ⟨hinference, _, hnccl⟩ := assignWorldSize_spec hassign
      exact ⟨hinference, .inr hnccl⟩
    · rw [Except.ok.inj hassign]
      exact ⟨rfl, .inl rfl⟩
  replace hbroadcasts : c₁.broadcasts = c.broadcasts := hbroadcasts
  replace hinference : c₁.inference = c.inference := hinference
  rw [← hbroadcasts, ← hinference, hassigned.1]
  rcases mapInference_eq_ok.1 hmap with ⟨hnone, rfl⟩ | ⟨i, i', hsome, hfill, rfl⟩
  · exact ⟨hassigned.2, .inl ⟨hnone, hnone⟩⟩
  · obtain ⟨i₁, hexpert, hnodes⟩ := bind_eq_ok.1 hfill
    exact ⟨hassigned.2, .inr ⟨i, i₁, i', hsome, hexpert, hnodes, rfl⟩⟩

/-- Two inference configs that the deployment treats alike. -/
structure ServesAs (lora : Option TrainerLoRAConfig) (i i' : InferenceConfig) : Prop where
  parallel : i'.parallel = i.parallel
  apiServerCount : i'.apiServerCount = i.apiServerCount
  enableExpertParallel : i'.enableExpertParallel = i.enableExpertParallel
  deployment : i'.deployment = i.deployment
  enableLora : lora = none → i'.enableLora = i.enableLora

theorem ServesAs.laidOut {lora lora' : Option TrainerLoRAConfig} {i i₀ i₁ i₂ : InferenceConfig} (h : ServesAs lora i₀ i₁)
    (h' : ServesAs lora' i₁ i₂) (hlaid : InferenceConfig.LaidOut i i₀) (hnone : lora = none) (hnone' : lora' = none) :
    InferenceConfig.LaidOut i i₂ where
  tp := by rw [h'.parallel, h.parallel, hlaid.tp]
  dp := by rw [h'.parallel, h.parallel, hlaid.dp]
  enableLora := by rw [h'.enableLora hnone', h.enableLora hnone, hlaid.enableLora]
  deployment := by rw [h'.deployment, h.deployment, hlaid.deployment]
  enableExpertParallel hnot := by rw [h'.enableExpertParallel, h.enableExpertParallel, hlaid.enableExpertParallel hnot]

theorem inference_of_layout {c c' : RLConfig} (h : c'.layout = c.layout) :
    c.inference = none ∧ c'.inference = none ∨
      ∃ i i', c.inference = some i ∧ c'.inference = some i' ∧ ServesAs c.trainer.model.lora i i' := by
  simp only [layout, Prod.mk.injEq] at h
  obtain ⟨-, -, hlora, hmap⟩ := h
  cases hi : c.inference with
  | none => exact .inl ⟨rfl, by simpa [hi] using hmap⟩
  | some i =>
      rw [hi, Option.map_some, Option.map_eq_some_iff] at hmap
      obtain ⟨i', hi', hserving⟩ := hmap
      simp only [inferenceServing, hlora, Prod.mk.injEq] at hserving
      obtain ⟨hparallel, hcount, hexpert, hdeployment, henable⟩ := hserving
      exact .inr ⟨i, i', rfl, hi', hparallel, hcount, hexpert, hdeployment, fun hnone => by simpa [hnone] using henable⟩

namespace Phases

variable [Installation] {r c₀ c₁ c₂ c₃ c : RLConfig}

/-- The inference config that is given, the one that was checked, and the one the deployment starts from. -/
theorem inference_cases (h : Phases r c₀ c₁ c₂ c₃ c) :
    r.inference = none ∧ c₀.inference = none ∧ c₁.inference = none ∧ c₂.inference = none ∨
      ∃ i i₀ i₁ i₂, r.inference = some i ∧ c₀.inference = some i₀ ∧ c₁.inference = some i₁ ∧ c₂.inference = some i₂ ∧
        InferenceConfig.LaidOut i i₀ ∧ ServesAs c₀.trainer.model.lora i₀ i₁ ∧ ServesAs c₁.trainer.model.lora i₁ i₂ := by
  obtain ⟨i, hi, rfl⟩ := h.inference
  have hlayout := (autoSetupWeightBroadcast_spec h.broadcast).1
  have hruntime : c₂.layout = c₁.layout := congrArg Prod.fst h.runtime
  rcases inference_of_layout hlayout with ⟨h₀, h₁⟩ | ⟨i₀, i₁, h₀, h₁, hserves⟩
  · rcases inference_of_layout hruntime with ⟨-, h₂⟩ | ⟨_, _, h₁', _⟩
    · refine .inl ⟨?_, h₀, h₁, h₂⟩
      cases hr : r.inference with
      | none => rfl
      | some _ =>
          rw [hr, resolveInference, map_eq_ok] at hi
          obtain ⟨_, _, rfl⟩ := hi
          simp at h₀
    · simp [h₁] at h₁'
  · rcases inference_of_layout hruntime with ⟨h₁', _⟩ | ⟨_, i₂, h₁', h₂, hserves'⟩
    · simp [h₁] at h₁'
    · obtain rfl : i₁ = _ := Option.some.inj (h₁.symm.trans h₁')
      cases hr : r.inference with
      | none =>
          rw [hr] at hi
          obtain rfl := Except.ok.inj hi
          simp at h₀
      | some given =>
          rw [hr, resolveInference, map_eq_ok] at hi
          obtain ⟨resolved, hresolve, rfl⟩ := hi
          obtain rfl := Option.some.inj h₀
          exact .inr ⟨given, _, i₁, i₂, rfl, rfl, h₁, h₂, InferenceConfig.resolve_spec hresolve, hserves, hserves'⟩

theorem deployment_eq (h : Phases r c₀ c₁ c₂ c₃ c) : c₀.deployment = r.deployment ∧ c₂.deployment = r.deployment := by
  obtain ⟨i, _, rfl⟩ := h.inference
  have hlayout := (autoSetupWeightBroadcast_spec h.broadcast).1
  have hruntime : c₂.layout = c₁.layout := congrArg Prod.fst h.runtime
  simp only [layout, Prod.mk.injEq] at hlayout hruntime
  exact ⟨rfl, hruntime.1.trans hlayout.1⟩

/-- A config that sends deltas had its broadcasts when the API servers were checked. -/
theorem broadcasts_eq (h : Phases r c₀ c₁ c₂ c₃ c) (hdelta : c.sendsDeltas = true) : c.broadcasts = c₁.broadcasts := by
  have hfiles {c' : RLConfig} (hsends : c'.sendsDeltas = true) : c'.trainer.weightBroadcast.type ≠ .nccl := by
    unfold sendsDeltas at hsends
    cases hb : c'.trainer.weightBroadcast with
    | filesystem b => simp [TrainerWeightBroadcastConfig.type]
    | nccl b => simp [hb] at hsends
  have hruntime : c₂.broadcasts = c₁.broadcasts := congrArg Prod.snd h.runtime
  have hsettled : c.broadcasts = c₃.broadcasts := h.settled.broadcasts.resolve_right fun hnccl => hfiles hdelta hnccl.1
  rw [hsettled, ← hruntime]
  have hdelta₃ : c₃.sendsDeltas = true := by
    have htrainer : c.trainer.weightBroadcast = c₃.trainer.weightBroadcast := congrArg Prod.fst hsettled
    rw [← hdelta, sendsDeltas, sendsDeltas, htrainer]
  have hsetup := h.setup
  unfold autoSetupDeployment at hsetup
  split at hsetup
  · exact (setupSingleNode_spec hsetup).1
  · exact (setupMultiNode_spec hsetup).1.resolve_right (hfiles hdelta₃)

end Phases

/-- With deltas and `stage_commit` the check found one API server, and no LoRA on the trainer. -/
theorem validateSparseDeltaRuntime_spec {c : RLConfig} (h : c.validateSparseDeltaRuntime = .ok ())
    (hdelta : c.sendsDeltas = true) (hstage : c.stagesCommits = true) :
    c.trainer.model.lora = none ∧ ∀ i ∈ c.inference, i.apiServerCount = 1 := by
  simp only [validateSparseDeltaRuntime, hdelta, if_true, bind_eq_ok, raiseIf_eq_ok] at h
  obtain ⟨_, hlora, _, -, hservers⟩ := h
  refine ⟨by simpa using hlora, fun i hi => ?_⟩
  rw [Option.mem_def.1 hi] at hservers
  simpa [hstage] using raiseIf_eq_ok.1 hservers

section OneServer

variable {i i₂ i' i₃ : InferenceConfig} (hlaid : InferenceConfig.LaidOut i i₂) (hone : i₂.apiServerCount = 1)
include hlaid hone

theorem oneServer_singleNode {d : SingleNodeDeploymentConfig} (h : fillDataParallel d.numInferGpus i₂ = .ok i') :
    (matchServers i').apiServerCount = 1 ↔ OneServer i (.singleNode d) := by
  obtain ⟨-, -, hdp, hcount, hlora⟩ := fillDataParallel_spec h
  rw [matchServers_apiServerCount (hcount.trans hone), hlora, hlaid.enableLora, hdp, hlaid.tp, hlaid.dp]
  rfl

theorem oneServer_multiNode {d : MultiNodeDeploymentConfig} (hnodes : 0 < d.numInferNodes)
    (hexpert : fillExpertParallel d i₂ = .ok i') (h : fillNodes d i' = .ok i₃) :
    i₃.apiServerCount = 1 ↔ OneServer i (.multiNode d) := by
  obtain ⟨hep, hdeployment, hparallel, hcount⟩ := fillExpertParallel_spec hexpert hnodes
  rw [fillNodes_spec h (hcount hone), hep, hdeployment, hparallel, hlaid.deployment, hlaid.tp]
  show _ ↔ i.deployment.isDisaggregated = true ∨ _
  cases hdis : i.deployment.isDisaggregated with
  | true => simp
  | false => rw [hlaid.enableExpertParallel hdis]

end OneServer

theorem Phases.numInferNodes_pos [Installation] {r c₀ c₁ c₂ c₃ c : RLConfig} (h : Phases r c₀ c₁ c₂ c₃ c)
    {d : MultiNodeDeploymentConfig} (hd : r.deployment = .multiNode d) {i : InferenceConfig} (hi : c₀.inference = some i) :
    0 < d.numInferNodes := by
  have hfield := h.field
  have hchecked := h.deployment
  rw [hd] at hfield
  obtain ⟨_, hnonneg, -⟩ := bind_eq_ok.1 hfield
  have hge : ¬ d.numInferNodes < 0 := raiseIf_eq_ok.1 hnonneg
  unfold validateDeployment at hchecked
  rw [h.deployment_eq.1, hd] at hchecked
  simp only [bind_eq_ok, raiseIf_eq_ok, hi] at hchecked
  obtain ⟨_, -, _, -, _, hzero, -⟩ := hchecked
  simp only [Option.isSome_some, and_true] at hzero
  omega

/-- **Main.** A run that is accepted with filesystem deltas and `stage_commit` has one API server at the end iff the
deployment adds none to the one that was checked. -/
theorem stageCommit_apiServerCount [Installation] {r c : RLConfig} (h : r.resolve = .ok c)
    (hdelta : c.sendsDeltas = true) (hstage : c.stagesCommits = true) :
    (∀ i ∈ c.inference, i.apiServerCount = 1) ↔ ∀ i ∈ r.inference, OneServer i r.deployment := by
  obtain ⟨c₀, c₁, c₂, c₃, hphases⟩ := resolve_phases h
  have hbroadcasts := hphases.broadcasts_eq hdelta
  simp only [broadcasts, Prod.mk.injEq] at hbroadcasts
  obtain ⟨hlora, hone⟩ := validateSparseDeltaRuntime_spec hphases.servers
    (by rw [← hdelta, sendsDeltas, sendsDeltas, hbroadcasts.1])
    (by rw [← hstage, stagesCommits, stagesCommits, hbroadcasts.2])
  obtain ⟨hdeployment₀, hdeployment⟩ := hphases.deployment_eq
  have hsetup := hphases.setup
  rw [hphases.settled.inference]
  unfold autoSetupDeployment at hsetup
  rw [hdeployment] at hsetup
  rcases hphases.inference_cases with ⟨hr, -, -, h₂⟩ | ⟨i, i₀, i₁, i₂, hr, h₀, h₁, h₂, hlaid, hserves₁, hserves₂⟩
  · have h₃ : c₃.inference = none := by
      split at hsetup
      · rcases (setupSingleNode_spec hsetup).2.2 with ⟨-, h₃⟩ | ⟨_, _, hsome, _⟩
        · exact h₃
        · simp [h₂] at hsome
      · rcases (setupMultiNode_spec hsetup).2 with ⟨-, h₃⟩ | ⟨_, _, _, hsome, _⟩
        · exact h₃
        · simp [h₂] at hsome
    simp [hr, h₃]
  · have hone₂ : i₂.apiServerCount = 1 := hserves₂.apiServerCount.trans (hone i₁ h₁)
    have hlora₀ : c₀.trainer.model.lora = none := by
      have hlayout := (autoSetupWeightBroadcast_spec hphases.broadcast).1
      simp only [layout, Prod.mk.injEq] at hlayout
      rw [← hlayout.2.2.1, hlora]
    have hlaid₂ := hserves₁.laidOut hserves₂ hlaid hlora₀ hlora
    rw [hr]
    split at hsetup
    · rename_i d hd
      rcases (setupSingleNode_spec hsetup).2.2 with ⟨hnone, -⟩ | ⟨_, i', hsome, hfill, h₃⟩
      · simp [h₂] at hnone
      · obtain rfl := Option.some.inj (h₂.symm.trans hsome)
        simpa [h₃, hd] using oneServer_singleNode hlaid₂ hone₂ hfill
    · rename_i d hd
      rcases (setupMultiNode_spec hsetup).2 with ⟨hnone, -⟩ | ⟨_, i', i₃, hsome, hexpert, hnodes, h₃⟩
      · simp [h₂] at hnone
      · obtain rfl := Option.some.inj (h₂.symm.trans hsome)
        simpa [h₃, hd] using
          oneServer_multiNode hlaid₂ hone₂ (hphases.numInferNodes_pos hd h₀) hexpert hnodes

/-- A node with two GPUs for inference, all else by default. -/
def twoGpus (parallel : ParallelConfig) (weightBroadcast : SharedWeightBroadcastConfig) : RLConfig where
  inference := some { parallel }
  weightBroadcast := some weightBroadcast
  deployment := .singleNode { numInferGpus := 2 }

/-- Deltas over files, staged and committed. -/
def stagedDeltas : SharedWeightBroadcastConfig := { mode := .delta, updateProtocol := .stageCommit }

theorem stageCommit_apiServerCount_tensorParallel :
    ∃ c : RLConfig, @resolve bareInstallation (twoGpus { tp := 2 } stagedDeltas) = .ok c ∧
      ∀ i ∈ c.inference, i.apiServerCount = 1 := by
  obtain ⟨c, hc, hdelta, hstage⟩ : ∃ c : RLConfig, @resolve bareInstallation (twoGpus { tp := 2 } stagedDeltas) = .ok c ∧
      c.sendsDeltas = true ∧ c.stagesCommits = true := ⟨_, rfl, rfl, rfl⟩
  refine ⟨c, hc, (@stageCommit_apiServerCount bareInstallation _ c hc hdelta hstage).2 fun i hi => ?_⟩
  obtain rfl := Option.some.inj hi
  exact .inr (by decide)

/-- With the default layout the one server that was checked becomes two. -/
theorem stageCommit_twoServers : ∃ c : RLConfig, @resolve bareInstallation (twoGpus {} stagedDeltas) = .ok c ∧
    c.sendsDeltas = true ∧ c.stagesCommits = true ∧ ¬ ∀ i ∈ c.inference, i.apiServerCount = 1 := by
  obtain ⟨c, hc, hdelta, hstage, hservers⟩ : ∃ c : RLConfig, @resolve bareInstallation (twoGpus {} stagedDeltas) = .ok c ∧
      c.sendsDeltas = true ∧ c.stagesCommits = true ∧ c.inference.map InferenceConfig.apiServerCount = some 2 :=
    ⟨_, rfl, rfl, rfl, rfl⟩
  refine ⟨c, hc, hdelta, hstage, fun hone => ?_⟩
  obtain ⟨i, hi, htwo⟩ := Option.map_eq_some_iff.1 hservers
  rw [hone i hi] at htwo
  omega

theorem matchServers_workers {gpus : Int} {i i' : InferenceConfig} (h : fillDataParallel gpus i = .ok i') :
    (matchServers i').parallel.dp * (matchServers i').parallel.tp = gpus := by
  obtain ⟨htp, hworkers, -⟩ := fillDataParallel_spec h
  rw [matchServers_parallel, htp, hworkers]

/-- On a single node the broadcasts stay as they were shared out, and the workers that join are the GPUs. -/
theorem Phases.singleNode [Installation] {r c₀ c₁ c₂ c₃ c : RLConfig} (h : Phases r c₀ c₁ c₂ c₃ c)
    {d : SingleNodeDeploymentConfig} (hd : r.deployment = .singleNode d) : c.broadcasts = c₁.broadcasts ∧
      (c₂.inference = none ∧ c.inference = none ∨
        ∃ i i', c₂.inference = some i ∧ c.inference = some i' ∧ i'.parallel.dp * i'.parallel.tp = d.numInferGpus) := by
  have hsetup := h.setup
  unfold autoSetupDeployment at hsetup
  rw [h.deployment_eq.2, hd] at hsetup
  obtain ⟨hbroadcasts, hdeployment, hinference⟩ := setupSingleNode_spec hsetup
  have hruntime : c₂.broadcasts = c₁.broadcasts := congrArg Prod.snd h.runtime
  refine ⟨?_, ?_⟩
  · rw [← hruntime, ← hbroadcasts]
    refine h.settled.broadcasts.resolve_right fun ⟨_, d', hmulti⟩ => ?_
    rw [hdeployment, h.deployment_eq.2, hd] at hmulti
    cases hmulti
  · rw [h.settled.inference]
    rcases hinference with hnone | ⟨i, i', h₂, hfill, h₃⟩
    · exact .inl hnone
    · exact .inr ⟨i, _, h₂, h₃, matchServers_workers hfill⟩

/-- **Main.** On a single node the trainer, the orchestrator and the workers of an accepted run with NCCL broadcast expect
one world size iff the layout that is given, or the sizes the sub-configs give, are those of the GPUs. -/
theorem nccl_worldSizes [Installation] {r c : RLConfig} {d : SingleNodeDeploymentConfig} (h : r.resolve = .ok c)
    (hd : r.deployment = .singleNode d) (hnccl : c.trainer.weightBroadcast.type = .nccl) :
    WorldSizesAgree c ↔ GivenWorldSize r d := by
  obtain ⟨c₀, c₁, c₂, c₃, hphases⟩ := resolve_phases h
  obtain ⟨hbroadcasts, hinference⟩ := hphases.singleNode hd
  have hnccl₁ : c₁.trainer.weightBroadcast.type = .nccl := by
    have htrainer : c.trainer.weightBroadcast = c₁.trainer.weightBroadcast := congrArg Prod.fst hbroadcasts
    rw [← htrainer, hnccl]
  have hshared := (autoSetupWeightBroadcast_spec hphases.broadcast).2 hnccl₁
  obtain ⟨given, hgiven, hc₀⟩ := hphases.inference
  have hc₀shared : c₀.weightBroadcast = r.weightBroadcast := by rw [hc₀]
  have hc₀broadcasts : c₀.broadcasts = r.broadcasts := by rw [hc₀]; rfl
  rw [hc₀shared, hc₀broadcasts] at hshared
  unfold WorldSizesAgree GivenWorldSize
  rw [hbroadcasts]
  rcases hphases.inference_cases with ⟨hr, h₀, -, h₂⟩ | ⟨i, i₀, _, i₂, hr, h₀, -, h₂, hlaid, -⟩
  · have hnone : c.inference = none := by
      rcases hinference with ⟨-, hnone⟩ | ⟨_, _, hsome, _⟩
      · exact hnone
      · simp [h₂] at hsome
    rw [hnone, hr]
    rcases hshared with ⟨hw, hb⟩ | ⟨w, b, hw, -, hb⟩
    · simp [hw, hb]
    · simp [hw, hb]
  · obtain ⟨i', hi', hworkers⟩ : ∃ i', c.inference = some i' ∧ i'.parallel.dp * i'.parallel.tp = d.numInferGpus := by
      rcases hinference with ⟨hnone, -⟩ | ⟨_, i', -, hi', hworkers⟩
      · simp [h₂] at hnone
      · exact ⟨i', hi', hworkers⟩
    rw [hi', hr]
    rcases hshared with ⟨hw, hb⟩ | ⟨w, b, hw, hsize, hb⟩
    · simp [hw, hb, hworkers]
    · rw [initialWorldSize, h₀] at hsize
      simp only [hlaid.dp, hlaid.tp] at hsize
      simp [hw, hb, hsize, hworkers]

theorem nccl_worldSizes_explicit :
    ∃ c : RLConfig, @resolve bareInstallation (twoGpus { dp := 2 } { type := .nccl }) = .ok c ∧ WorldSizesAgree c := by
  obtain ⟨c, hc, hnccl⟩ : ∃ c : RLConfig, @resolve bareInstallation (twoGpus { dp := 2 } { type := .nccl }) = .ok c ∧
      c.trainer.weightBroadcast.type = .nccl := ⟨_, rfl, rfl⟩
  refine ⟨c, hc, (@nccl_worldSizes bareInstallation _ c _ hc rfl hnccl).2 fun i hi => ?_⟩
  obtain rfl := Option.some.inj hi
  rfl

/-- With the default layout a world of one inference worker is shared out, and two join. -/
theorem nccl_twoWorkers : ∃ c : RLConfig, @resolve bareInstallation (twoGpus {} { type := .nccl }) = .ok c ∧
    c.trainer.weightBroadcast.type = .nccl ∧ ¬ WorldSizesAgree c := by
  obtain ⟨c, t, hc, htrainer, hsize, hranks⟩ : ∃ (c : RLConfig) (t : NCCLWeightBroadcastConfig),
      @resolve bareInstallation (twoGpus {} { type := .nccl }) = .ok c ∧ c.trainer.weightBroadcast = .nccl t ∧
        t.inferenceWorldSize = 1 ∧ c.inference.map InferenceConfig.parallel = some ⟨1, 2⟩ := ⟨_, _, rfl, rfl, rfl, rfl⟩
  refine ⟨c, hc, by rw [htrainer]; rfl, ?_⟩
  rintro ⟨t', o, hbroadcasts, -, hworkers⟩
  obtain rfl := TrainerWeightBroadcastConfig.nccl.inj (htrainer.symm.trans (congrArg Prod.fst hbroadcasts))
  obtain ⟨i, hi, hparallel⟩ := Option.map_eq_some_iff.1 hranks
  have htwo := hworkers i hi
  rw [hsize, hparallel] at htwo
  exact absurd htwo (by decide)

end RLConfig

end AuroraRl.Config
