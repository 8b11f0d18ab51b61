import AuroraRl.Config.Deployment
import AuroraRl.Config.Inference
import AuroraRl.Config.Phases
import AuroraRl.Config.RL
import AuroraRl.Config.Resolve
import AuroraRl.Config.SharedFields
import AuroraRl.Config.StudentShortcuts
import AuroraRl.Delta.Artifacts
import AuroraRl.Delta.Container
import AuroraRl.Delta.Encoder
import AuroraRl.Delta.Extract
import AuroraRl.Delta.Indices
import AuroraRl.Delta.Load
import AuroraRl.Delta.Overflow
import AuroraRl.Delta.RoundTrip
import AuroraRl.Delta.Stream
import AuroraRl.Delta.Varint
import AuroraRl.Delta.Writers
import AuroraRl.Elastic.Pool
import AuroraRl.Elastic.Readiness
import AuroraRl.Layout.Adapter
import AuroraRl.Layout.Commutes
import AuroraRl.Layout.Coverage
import AuroraRl.Layout.Shard
import AuroraRl.Lib.Barrier
import AuroraRl.Lib.Blocks
import AuroraRl.Lib.Bytes
import AuroraRl.Lib.Chunks
import AuroraRl.Lib.Collective
import AuroraRl.Lib.Confined
import AuroraRl.Lib.Coroutine
import AuroraRl.Lib.Dict
import AuroraRl.Lib.FirstFit
import AuroraRl.Lib.Framing
import AuroraRl.Lib.Generator
import AuroraRl.Lib.Grouped
import AuroraRl.Lib.Growth
import AuroraRl.Lib.Indexing
import AuroraRl.Lib.Labels
import AuroraRl.Lib.LogSumExp
import AuroraRl.Lib.Loops
import AuroraRl.Lib.NdArray
import AuroraRl.Lib.Play
import AuroraRl.Lib.ProcessMesh
import AuroraRl.Lib.Protocol
import AuroraRl.Lib.PyData
import AuroraRl.Lib.PyTree
import AuroraRl.Lib.Python
import AuroraRl.Lib.Replicas
import AuroraRl.Lib.RowMajor
import AuroraRl.Lib.Segments
import AuroraRl.Lib.Serial
import AuroraRl.Lib.Splice
import AuroraRl.Lib.Streak
import AuroraRl.Lib.TopK
import AuroraRl.Lib.Transition
import AuroraRl.Lib.Undo
import AuroraRl.Lib.Validators
import AuroraRl.Orchestrator.Advantages
import AuroraRl.Orchestrator.Ageing
import AuroraRl.Orchestrator.Buffer
import AuroraRl.Orchestrator.BufferResume
import AuroraRl.Orchestrator.Checkpoints
import AuroraRl.Orchestrator.Counts
import AuroraRl.Orchestrator.Discipline
import AuroraRl.Orchestrator.Duties
import AuroraRl.Orchestrator.Engine
import AuroraRl.Orchestrator.Experts
import AuroraRl.Orchestrator.Filters
import AuroraRl.Orchestrator.Groups
import AuroraRl.Orchestrator.Handshake
import AuroraRl.Orchestrator.Interleave
import AuroraRl.Orchestrator.Orchestrate
import AuroraRl.Orchestrator.Pause
import AuroraRl.Orchestrator.Play
import AuroraRl.Orchestrator.Policy
import AuroraRl.Orchestrator.PolicyUpdate
import AuroraRl.Orchestrator.Rollouts
import AuroraRl.Orchestrator.State
import AuroraRl.Orchestrator.Tasks
import AuroraRl.Orchestrator.Trajectories
import AuroraRl.Orchestrator.Versions
import AuroraRl.Runs.Agreement
import AuroraRl.Runs.Discovery
import AuroraRl.Runs.Fleet
import AuroraRl.Runs.Manager
import AuroraRl.Runs.Scaling
import AuroraRl.Server.Effects
import AuroraRl.Server.Engine
import AuroraRl.Server.Frame
import AuroraRl.Server.Handlers
import AuroraRl.Server.Ranges
import AuroraRl.Server.Relay
import AuroraRl.Server.RelayCommit
import AuroraRl.Server.RelayStaging
import AuroraRl.Server.Staging
import AuroraRl.Server.State
import AuroraRl.Server.StreamUpload
import AuroraRl.Server.TailingUpload
import AuroraRl.Server.VersionDiscipline
import AuroraRl.Server.VersionSafety
import AuroraRl.Sft.Buckets
import AuroraRl.Sft.ChatTemplate
import AuroraRl.Sft.Conservation
import AuroraRl.Sft.Process
import AuroraRl.Sft.Resume
import AuroraRl.Sft.Sharding
import AuroraRl.Sft.Stack
import AuroraRl.Torch.DType
import AuroraRl.Torch.Sparse
import AuroraRl.Trainer.AdapterRouting
import AuroraRl.Trainer.Batch
import AuroraRl.Trainer.Boundaries
import AuroraRl.Trainer.Checkpoint
import AuroraRl.Trainer.Conservation
import AuroraRl.Trainer.DeepEp
import AuroraRl.Trainer.Delivery
import AuroraRl.Trainer.GradientScale
import AuroraRl.Trainer.LmHead
import AuroraRl.Trainer.LmHeadBackward
import AuroraRl.Trainer.LmHeadForward
import AuroraRl.Trainer.Lora
import AuroraRl.Trainer.Loss
import AuroraRl.Trainer.LossInvariance
import AuroraRl.Trainer.MambaCp
import AuroraRl.Trainer.MicroBatchLoss
import AuroraRl.Trainer.Moe
import AuroraRl.Trainer.MoeDispatch
import AuroraRl.Trainer.NextToken
import AuroraRl.Trainer.Packer
import AuroraRl.Trainer.Packing
import AuroraRl.Trainer.ParallelDims
import AuroraRl.Trainer.Prepare
import AuroraRl.Trainer.Retention
import AuroraRl.Trainer.RingAttention
import AuroraRl.Trainer.RingBackward
import AuroraRl.Trainer.RingForward
import AuroraRl.Trainer.RoundRobin
import AuroraRl.Trainer.Router
import AuroraRl.Trainer.SlidingWindow
import AuroraRl.Trainer.Ulysses
import AuroraRl.Trainer.Validation
import AuroraRl.Trainer.Workers
import AuroraRl.Transport.Isolation
import AuroraRl.Transport.MicroBatchStartup
import AuroraRl.Transport.Nccl
import AuroraRl.Transport.TrainingBatches
import AuroraRl.Weights.GlmKernel
import AuroraRl.Weights.GlmMoeDsa
import AuroraRl.Weights.GlmPlaces
import AuroraRl.Weights.LayerBroadcast
import AuroraRl.Weights.Layers
import AuroraRl.Weights.Mentions
import AuroraRl.Weights.NemotronExperts
import AuroraRl.Weights.NemotronH
import AuroraRl.Weights.NemotronLayers
import AuroraRl.Weights.NemotronRoundTrip
import AuroraRl.Weights.NemotronSlots
import AuroraRl.Weights.Qwen3Moe
import AuroraRl.Weights.QwenExperts
import AuroraRl.Weights.QwenFormats
import AuroraRl.Weights.QwenLayers
import AuroraRl.Weights.QwenLayouts
import AuroraRl.Weights.QwenRoundTrip
import AuroraRl.Weights.RoundTrip
import AuroraRl.Weights.StateDict
import AuroraRl.Weights.Undo
import AuroraRl.Worker.ExpertMap
import AuroraRl.Worker.KernelTransfer
