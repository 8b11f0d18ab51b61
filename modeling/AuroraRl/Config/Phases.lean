import AuroraRl.Config.Resolve

/-!
# The phases of resolution

* `RLConfig.serving` : the fields the deployment is set up from;
* `resolve_phases` : the configs at the check of the API servers, before and after the deployment, and what stays;
* `autoSetupWeightBroadcast_spec` : where the weight broadcast of the sub-configs comes from;
* `fillDataParallel_spec`, `fillExpertParallel_spec`, `fillNodes_spec` : what the deployment makes of the inference config.
-/

namespace AuroraRl.Config

open Validators

namespace RLConfig

/-- The inference fields the deployment is set up from. LoRA that the trainer turns on is not counted. -/
def inferenceServing (c : RLConfig) (i : InferenceConfig) :
    ParallelConfig × Int × Bool × InferenceDeploymentConfig × Bool :=
  (i.parallel, i.apiServerCount, i.enableExpertParallel, i.deployment,
    if c.trainer.model.lora.isSome then true else i.enableLora)

/-- What the deployment is set up from, the weight broadcast of the sub-configs apart. -/
def layout (c : RLConfig) :=
  (c.deployment, c.weightBroadcast, c.trainer.model.lora, c.inference.map c.inferenceServing)

def broadcasts (c : RLConfig) := (c.trainer.weightBroadcast, c.orchestrator.weightBroadcast)

def serving (c : RLConfig) := (c.layout, c.broadcasts)

/-- What the deployment is about. -/
def deployed (c : RLConfig) := (c.inference, c.deployment, c.broadcasts)

/-! ## What each validator keeps -/

theorem keeps_autoSetupBench : Keeps serving autoSetupBench := by
  intro c c' h
  obtain ⟨c₁, henable, hcheck⟩ := bind_eq_ok.1 h
  rw [(checking_eq_ok.1 hcheck).2]
  unfold enableBench at henable
  split at henable
  · obtain ⟨_, _, henable⟩ := bind_eq_ok.1 henable
    rw [← Except.ok.inj henable]
    rfl
  · rw [Except.ok.inj henable]

theorem keeps_autoSetupLora : Keeps serving autoSetupLora := by
  intro c c' h
  unfold autoSetupLora at h
  split at h
  · rw [Except.ok.inj h]
  · rename_i lora hlora
    simp only [bind_eq_ok] at h
    obtain ⟨_, _, _, _, _, _, h⟩ := h
    rw [← Except.ok.inj h]
    cases hi : c.inference <;> simp [serving, layout, broadcasts, inferenceServing, hlora, hi]

theorem keeps_autoSetupRouterReplay : Keeps serving autoSetupRouterReplay := by
  intro c c' h
  unfold autoSetupRouterReplay at h
  split at h
  · rw [← Except.ok.inj h]
    cases hi : c.inference <;> simp [serving, layout, broadcasts, inferenceServing, hi]
  · rw [Except.ok.inj h]

theorem keeps_setupRuntime : Keeps serving (run setupRuntime) := by
  apply Keeps.run
  simp [setupRuntime, Keeps.checking, keeps_autoSetupBench, keeps_autoSetupLora, keeps_autoSetupRouterReplay]

theorem shareWeightBroadcast_spec {c c' : RLConfig} {w : SharedWeightBroadcastConfig}
    (h : c.shareWeightBroadcast w = .ok c') : c'.layout = c.layout ∧
      c'.broadcasts = (c.trainerBroadcast w, c.orchestratorBroadcast w) := by
  simp only [shareWeightBroadcast, bind_eq_ok] at h
  obtain ⟨_, _, _, _, h⟩ := h
  rw [← Except.ok.inj h]
  refine ⟨?_, rfl⟩
  cases hi : c.inference <;> simp [layout, inferenceServing, hi]

theorem autoSetupWeightBroadcast_spec {c c' : RLConfig} (h : c.autoSetupWeightBroadcast = .ok c') : c'.layout = c.layout ∧
    (c'.trainer.weightBroadcast.type = .nccl →
      c.weightBroadcast = none ∧ c'.broadcasts = c.broadcasts ∨
        ∃ w b, c.weightBroadcast = some w ∧ b.inferenceWorldSize = c.initialWorldSize ∧
          c'.broadcasts = (.nccl b, .nccl b)) := by
  obtain ⟨c₁, hshare, hcheck⟩ := bind_eq_ok.1 h
  rw [(checking_eq_ok.1 hcheck).2]
  unfold shareSetWeightBroadcast at hshare
  split at hshare
  · rename_i hnone
    rw [← Except.ok.inj hshare]
    exact ⟨rfl, fun _ => .inl ⟨hnone, rfl⟩⟩
  · rename_i w hsome
    obtain ⟨hlayout, hbroadcasts⟩ := shareWeightBroadcast_spec hshare
    refine ⟨hlayout, fun hnccl => .inr ?_⟩
    have htrainer : c₁.trainer.weightBroadcast = c.trainerBroadcast w := congrArg Prod.fst hbroadcasts
    cases hw : w.type with
    | nccl => exact ⟨w, c.sharedNccl w, hsome, rfl, by rw [hbroadcasts, trainerBroadcast, orchestratorBroadcast, hw]⟩
    | filesystem => simp [htrainer, trainerBroadcast, hw, TrainerWeightBroadcastConfig.type] at hnccl

theorem autoSetupWeightBroadcast_type {c c' : RLConfig} (h : c.autoSetupWeightBroadcast = .ok c') :
    c'.trainer.weightBroadcast.type = c'.orchestrator.weightBroadcast.type := by
  obtain ⟨c₁, _, hcheck⟩ := bind_eq_ok.1 h
  obtain ⟨hvalid, rfl⟩ := checking_eq_ok.1 hcheck
  obtain ⟨_, _, hsame⟩ := bind_eq_ok.1 hvalid
  exact not_not.1 (raiseIf_eq_ok.1 hsame)

/-! ## The deployment -/

theorem mapInference_eq_ok {c c' : RLConfig} {f : InferenceConfig → Except PyException InferenceConfig} :
    c.mapInference f = .ok c' ↔ c.inference = none ∧ c' = c ∨
      ∃ i i', c.inference = some i ∧ f i = .ok i' ∧ c' = { c with inference := some i' } := by
  unfold mapInference
  split
  · rename_i hnone
    simp [hnone, eq_comm]
  · rename_i i hsome
    rw [map_eq_ok]
    simp [hsome, eq_comm]

theorem fillDataParallel_spec {gpus : Int} {i i' : InferenceConfig} (h : fillDataParallel gpus i = .ok i') :
    i'.parallel.tp = i.parallel.tp ∧ i'.parallel.dp * i.parallel.tp = gpus ∧
      i'.parallel.dp = (if i.parallel.tp = 0 then i.parallel.dp else gpus.fdiv i.parallel.tp) ∧
      i'.apiServerCount = i.apiServerCount ∧ i'.enableLora = i.enableLora := by
  unfold fillDataParallel at h
  split at h
  · rename_i heq
    obtain rfl := Except.ok.inj h
    refine ⟨rfl, heq.symm, ?_, rfl, rfl⟩
    split
    · rfl
    · rename_i htp
      rw [heq, Int.mul_fdiv_cancel _ htp]
  · simp only [bind_eq_ok, floorMod_eq_ok, floorDiv_eq_ok] at h
    obtain ⟨rest, ⟨htp, hmod⟩, _, hrest, dp, ⟨-, hdiv⟩, h⟩ := h
    rw [pyAssert_eq_ok] at hrest
    obtain rfl := Except.ok.inj h
    refine ⟨rfl, ?_, by rw [if_neg htp]; exact hdiv.symm, rfl, rfl⟩
    show dp * i.parallel.tp = gpus
    rw [← hdiv]
    exact fdiv_mul_of_fmod (hmod.trans hrest)

theorem matchServers_parallel (i : InferenceConfig) : (matchServers i).parallel = i.parallel := by
  unfold matchServers
  split <;> rfl

theorem matchServers_apiServerCount {i : InferenceConfig} (hone : i.apiServerCount = 1) :
    (matchServers i).apiServerCount = 1 ↔ i.enableLora = true ∨ i.parallel.dp ≤ 1 := by
  unfold matchServers
  rw [hone]
  split
  · rename_i hraise
    show i.parallel.dp = 1 ↔ _
    rw [hraise.2]
    have := hraise.1
    simp only [Bool.false_eq_true, false_or]
    omega
  · rename_i hkeep
    rw [hone]
    by_cases hlora : i.enableLora = true
    · simp [hlora]
    · have hle : i.parallel.dp ≤ 1 := by
        rcases Int.lt_or_le 1 i.parallel.dp with hlt | hle
        · exact absurd ⟨hlt, Bool.eq_false_iff.2 hlora⟩ hkeep
        · exact hle
      simp [hle]

/-- With one data-parallel rank over all the nodes, the node that expert parallelism allows has one too. -/
theorem fdiv_eq_one {gpus nodes tp : Int} (htp : tp ≠ 0) (hnodes : 0 < nodes) (hworld : tp = nodes * gpus)
    (hmod : gpus.fmod tp = 0) : gpus.fdiv tp = 1 := by
  have hgpus : gpus ≠ 0 := by
    rintro rfl
    exact htp (by rw [hworld, Int.mul_zero])
  have hmul : gpus.fdiv tp * nodes * gpus = 1 * gpus := by
    rw [Int.mul_assoc, ← hworld, fdiv_mul_of_fmod hmod, Int.one_mul]
  have hone := Int.eq_of_mul_eq_mul_right hgpus hmul
  have hdvd : nodes ∣ 1 := ⟨gpus.fdiv tp, by rw [← hone, Int.mul_comm]⟩
  rw [Int.eq_one_of_dvd_one (Int.le_of_lt hnodes) hdvd, Int.mul_one] at hone
  exact hone

theorem fillExpertParallel_spec {d : MultiNodeDeploymentConfig} {i i' : InferenceConfig}
    (h : fillExpertParallel d i = .ok i') (hnodes : 0 < d.numInferNodes) :
    i'.enableExpertParallel = i.enableExpertParallel ∧ i'.deployment = i.deployment ∧ i'.parallel = i.parallel ∧
      (i.apiServerCount = 1 → i'.apiServerCount = 1) := by
  unfold fillExpertParallel at h
  split at h
  · simp only [bind_eq_ok, floorMod_eq_ok, floorDiv_eq_ok, raiseIf_eq_ok, not_not] at h
    obtain ⟨rest, ⟨htp, hmod⟩, _, hrest, dp, ⟨-, hdiv⟩, _, hworld, _, -, h⟩ := h
    obtain rfl := Except.ok.inj h
    refine ⟨rfl, rfl, rfl, fun hone => ?_⟩
    show (if _ then dp else i.apiServerCount) = 1
    split
    · rename_i hcount
      rw [← hcount.2, hone, Int.one_mul] at hworld
      rw [← hdiv]
      exact fdiv_eq_one htp hnodes hworld (hmod.trans hrest)
    · exact hone
  · obtain rfl := Except.ok.inj h
    exact ⟨rfl, rfl, rfl, id⟩

theorem fillNodes_spec {d : MultiNodeDeploymentConfig} {i i' : InferenceConfig} (h : fillNodes d i = .ok i')
    (hone : i.apiServerCount = 1) : i'.apiServerCount = 1 ↔
      i.deployment.isDisaggregated = true ∨ i.enableExpertParallel = true ∨ d.gpusPerNode.fdiv i.parallel.tp ≤ 1 := by
  unfold fillNodes at h
  split at h
  · rename_i hplain
    obtain ⟨dp, hdiv, h⟩ := bind_eq_ok.1 h
    rw [(floorDiv_eq_ok.1 hdiv).2]
    rw [hplain.1, hplain.2]
    split at h
    · rename_i hlt
      obtain rfl := Except.ok.inj h
      simp only [Bool.false_eq_true, false_or]
      show dp = 1 ↔ _
      omega
    · rename_i hle
      obtain rfl := Except.ok.inj h
      simp only [hone, Bool.false_eq_true, false_or, true_iff]
      omega
  · rename_i hother
    obtain rfl := Except.ok.inj h
    by_cases hep : i.enableExpertParallel = true
    · simp [hone, hep]
    · simp only [hep, true_and, Bool.not_eq_false] at hother
      simp [hone, hother]

theorem keeps_setTrainWorkers (d : SingleNodeDeploymentConfig) : Keeps deployed (setTrainWorkers · d) := by
  intro c c' h
  simp only [setTrainWorkers] at h
  split at h
  · obtain ⟨workers, _, rfl⟩ := map_eq_ok.1 h
    rfl
  · rw [Except.ok.inj h]

theorem keeps_groupFsdp (d : MultiNodeDeploymentConfig) : Keeps deployed (groupFsdp d) := by
  intro c c' h
  unfold groupFsdp at h
  split at h
  · rw [Except.ok.inj h]
  · simp only [bind_eq_ok] at h
    obtain ⟨_, _, _, _, _, _, h⟩ := h
    rw [← Except.ok.inj h]
    rfl

/-- A world size is assigned to NCCL broadcasts only. -/
theorem assignWorldSize_spec {host : Option String} {n : Int} {c c' : RLConfig} (h : c.assignWorldSize host n = .ok c') :
    c'.inference = c.inference ∧ c'.deployment = c.deployment ∧ c'.trainer.weightBroadcast.type = .nccl := by
  unfold assignWorldSize at h
  split at h
  · obtain rfl := Except.ok.inj h
    exact ⟨rfl, rfl, rfl⟩
  · cases h

/-! ## After the deployment -/

/-- The inference config stays; what the broadcasts are stays as well, unless they use NCCL over nodes. -/
structure Settled (c c' : RLConfig) : Prop where
  inference : c'.inference = c.inference
  deployment : c'.deployment = c.deployment
  broadcasts : c'.broadcasts = c.broadcasts ∨ c'.trainer.weightBroadcast.type = .nccl ∧ ∃ d, c.deployment = .multiNode d

theorem Settled.trans {c c₁ c' : RLConfig} (h : Settled c c₁) (h' : Settled c₁ c')
    (hkeep : c'.broadcasts = c₁.broadcasts) : Settled c c' := by
  refine ⟨h'.inference.trans h.inference, h'.deployment.trans h.deployment, ?_⟩
  have htrainer : c'.trainer.weightBroadcast = c₁.trainer.weightBroadcast := congrArg Prod.fst hkeep
  rw [hkeep, htrainer]
  exact h.broadcasts

theorem setMetricsRoles_kept (d : MultiNodeDeploymentConfig) (i : DisaggregatedInferenceDeploymentConfig) (c : RLConfig) :
    (setMetricsRoles d i c).inference = c.inference ∧ (setMetricsRoles d i c).deployment = c.deployment ∧
      (setMetricsRoles d i c).broadcasts = c.broadcasts := by
  unfold setMetricsRoles
  dsimp only
  split <;> exact ⟨rfl, rfl, rfl⟩

theorem autoSetupDisaggregatedInference_spec {c c' : RLConfig} (h : c.autoSetupDisaggregatedInference = .ok c') :
    Settled c c' := by
  unfold autoSetupDisaggregatedInference at h
  split at h
  · rename_i i d _ hdeployment
    obtain ⟨hinference, hdep, hbroadcasts⟩ := setMetricsRoles_kept d i c
    obtain ⟨_, _, h⟩ := bind_eq_ok.1 h
    split at h
    · obtain ⟨hi, hd, hnccl⟩ := assignWorldSize_spec h
      exact ⟨hi.trans hinference, hd.trans hdep, .inr ⟨hnccl, d, hdeployment⟩⟩
    · obtain rfl := Except.ok.inj h
      exact ⟨hinference, hdep, .inl hbroadcasts⟩
  · obtain rfl := Except.ok.inj h
    exact ⟨rfl, rfl, .inl rfl⟩

theorem keeps_autoSetupInferenceClient : Keeps deployed autoSetupInferenceClient := by
  intro c c' h
  unfold autoSetupInferenceClient at h
  split at h <;> rw [← Except.ok.inj h]
  rfl

theorem keeps_autoSetupSlurmTemplate [Installation] : Keeps deployed autoSetupSlurmTemplate := by
  intro c c' h
  unfold autoSetupSlurmTemplate at h
  split at h
  · rw [← Except.ok.inj h]
    rfl
  · rw [Except.ok.inj h]

theorem setupClients_spec [Installation] {c c' : RLConfig} (h : run setupClients c = .ok c') : Settled c c' := by
  obtain ⟨c₁, hdisaggregated, hrest⟩ := run_cons_eq_ok.1 h
  have hkeep : c'.deployed = c₁.deployed := by
    refine Keeps.run ?_ _ _ hrest
    simp [keeps_autoSetupInferenceClient, keeps_autoSetupSlurmTemplate]
  simp only [deployed, Prod.mk.injEq] at hkeep
  obtain ⟨hinference, hdeployment, hbroadcasts⟩ := hkeep
  exact (autoSetupDisaggregatedInference_spec hdisaggregated).trans ⟨hinference, hdeployment, .inl hbroadcasts⟩ hbroadcasts

/-! ## The phases -/

/-- The configs of an accepted resolution: given, with broadcasts, before and after the deployment, and at the end. -/
structure Phases [Installation] (r c₀ c₁ c₂ c₃ c : RLConfig) : Prop where
  inference : ∃ i, resolveInference r.inference = .ok i ∧ c₀ = { r with inference := i }
  field : r.deployment.validate = .ok ()
  deployment : c₀.validateDeployment = .ok ()
  broadcast : c₀.autoSetupWeightBroadcast = .ok c₁
  servers : c₁.validateSparseDeltaRuntime = .ok ()
  runtime : c₂.serving = c₁.serving
  setup : c₂.autoSetupDeployment = .ok c₃
  settled : Settled c₃ c

theorem resolve_phases [Installation] {r c : RLConfig} (h : r.resolve = .ok c) :
    ∃ c₀ c₁ c₂ c₃, Phases r c₀ c₁ c₂ c₃ c := by
  unfold resolve at h
  simp only [bind_eq_ok] at h
  obtain ⟨_, _, _, _, i, hi, _, _, _, hfield, hrun⟩ := h
  rw [afterValidators, run_append_eq_ok] at hrun
  obtain ⟨c₁, hbroadcast, hrun⟩ := hrun
  obtain ⟨_, hcheck, hlater⟩ := run_cons_eq_ok.1 hrun
  obtain ⟨hservers, rfl⟩ := checking_eq_ok.1 hcheck
  obtain ⟨c₂, hruntime, hlater⟩ := run_append_eq_ok.1 hlater
  obtain ⟨c₃, hsetup, hclients⟩ := run_cons_eq_ok.1 hlater
  simp only [setupBroadcast, run_cons_eq_ok, run_nil_eq_ok, checking_eq_ok] at hbroadcast
  obtain ⟨_, ⟨hdeployment, rfl⟩, _, ⟨-, rfl⟩, _, ⟨-, rfl⟩, _, ⟨-, rfl⟩, _, hbroadcast, rfl⟩ := hbroadcast
  exact ⟨_, _, c₂, c₃, ⟨i, hi, rfl⟩, hfield, hdeployment, hbroadcast, hservers, keeps_setupRuntime _ _ hruntime, hsetup,
    setupClients_spec hclients⟩

end RLConfig

end AuroraRl.Config
