import AuroraRl.Lib.Dict
import AuroraRl.Lib.FirstFit
import AuroraRl.Lib.Python
import Mathlib.Data.List.Sort

/-!
# From training samples to micro batches

* `TrainingSample`, `MicroBatch` : what the packer receives and what it sends to the trainer;
* `validateSample` : the check of the packer;
* `prepareSample`, `packedSamplesIntoMicroBs`, `padMicroBatch` : one sample, first-fit packing, padding;
* `prepareBatch` : the micro batches of every worker.

Floats are only copied here: `R` is any type with the constants of the source, and `none` among the rewards is its `nan`.
-/

namespace AuroraRl.Trainer
open FirstFit

variable {R : Type} [Zero R] [One R]

/-! ## Data -/

inductive TrainingMode
  | rl
  | opd
  | sft
  deriving DecidableEq, Repr

/-- Raw bytes with their shape `[seq_len, layers, topk]`. -/
structure RoutedExperts where
  data : List UInt8
  shape : List Nat
  dtype : String
  deriving DecidableEq, Repr

structure EncodedTensor where
  dtype : String
  shape : List Nat
  data : List UInt8
  deriving DecidableEq, Repr

structure TrainingSample (R : Type) where
  promptIds : List Int
  promptMask : List Bool
  completionIds : List Int
  completionMask : List Bool
  completionLogprobs : List R
  completionTemperatures : List R
  envName : String
  teacherLogprobs : Option (List R)
  advantage : Option R
  reward : Option R
  mmKwargs : Option (Dict String EncodedTensor)
  routedExperts : Option RoutedExperts
  mmTokenTypeIds : Option (List Int)
  trainingMode : TrainingMode

structure MicroBatch (R : Type) where
  inputIds : List Int
  lossMask : List Bool
  advantages : List (Option R)
  inferenceLogprobs : List R
  positionIds : List Nat
  temperatures : List R
  envNames : List String
  teacherLogprobs : Option (List R)
  loraNumTokens : Option (List Nat)
  routedExperts : Option RoutedExperts
  mmKwargs : Option (Dict String EncodedTensor)
  mmTokenTypeIds : Option (List Int)
  trainingMode : TrainingMode
  rewards : Option (List (Option R))

/-! ## The check of the packer -/

omit [Zero R] [One R] in
def TrainingSample.length (s : TrainingSample R) : Nat := s.promptIds.length + s.completionIds.length

/-- `_validate_sample`: the reason a sample is refused for. -/
def validateSample (seqLen : Nat) (s : TrainingSample R) : Option String :=
  if s.promptMask.length ≠ s.promptIds.length then
    some (s!"Run wrote a sample with prompt mask length != prompt ids length " ++
      s!"({s.promptMask.length} != {s.promptIds.length})")
  else if s.completionMask.length ≠ s.completionIds.length then
    some (s!"Run wrote a sample with completion mask length != completion ids length " ++
      s!"({s.completionMask.length} != {s.completionIds.length})")
  else if s.completionLogprobs.length ≠ s.completionIds.length then
    some (s!"Run wrote a sample with completion logprobs length != completion ids length " ++
      s!"({s.completionLogprobs.length} != {s.completionIds.length})")
  else if s.completionTemperatures.length ≠ s.completionIds.length then
    some (s!"Run wrote a sample with completion temperatures length != completion ids length " ++
      s!"({s.completionTemperatures.length} != {s.completionIds.length})")
  else if s.length = 0 then some "Run wrote a sample with no tokens"
  else if seqLen < s.length then
    some s!"Run wrote a sample with length {s.length} which exceeds max sequence length {seqLen}"
  else
    match s.teacherLogprobs with
    | none => none
    | some teacher =>
      if teacher.length ≠ s.length then
        some s!"Run wrote a sample with teacher logprobs length != sample length ({teacher.length} != {s.length})"
      else none

/-! ## Routed experts -/

def routedExpertsItemsize : Dict String Nat := .ofList [("uint8", 1), ("int16", 2), ("int32", 4)]

namespace RoutedExperts

def rowSize (r : RoutedExperts) : Except PyException Nat := do
  let layers ← listItem r.shape 1
  let topk ← listItem r.shape 2
  match routedExpertsItemsize.get? r.dtype with
  | some itemsize => return layers * topk * itemsize
  | none => .error ⟨.keyError, s!"'{r.dtype}'"⟩

def slice (r : RoutedExperts) (seqLen : Nat) : Except PyException RoutedExperts := do
  let rowSize ← r.rowSize
  return ⟨r.data.take (seqLen * rowSize), [seqLen, ← listItem r.shape 1, ← listItem r.shape 2], r.dtype⟩

def addRows (r : RoutedExperts) (n : Nat) : Except PyException RoutedExperts := do
  let rows ← listItem r.shape 0
  return { r with shape := r.shape.set 0 (rows + n) }

def append (dst src : RoutedExperts) : Except PyException RoutedExperts := do
  pyAssert (dst.dtype = src.dtype) ""
  pyAssert (dst.shape.drop 1 = src.shape.drop 1) ""
  { dst with data := dst.data ++ src.data }.addRows (← listItem src.shape 0)

def pad (r : RoutedExperts) (paddingSize : Nat) : Except PyException RoutedExperts := do
  let rowSize ← r.rowSize
  { r with data := r.data ++ List.replicate (paddingSize * rowSize) 0 }.addRows paddingSize

end RoutedExperts

/-! ## One sample -/

namespace TrainingSample

variable (s : TrainingSample R)

omit [Zero R] [One R] in
/-- A list cut to `seq_len` when the sample is longer than that. -/
def cut {α : Type} (seqLen : Nat) (l : List α) : List α := if seqLen < s.length then l.take seqLen else l

/-- The lists of a sample over its prompt and completion; the routed experts are cut apart. -/
def prepared (seqLen : Nat) (routedExperts : Option RoutedExperts) : MicroBatch R :=
  let promptTemp := s.completionTemperatures.head?.getD 1
  { inputIds := s.cut seqLen (s.promptIds ++ s.completionIds)
    lossMask := s.cut seqLen (s.promptMask ++ s.completionMask)
    advantages := s.cut seqLen (List.replicate s.length s.advantage)
    inferenceLogprobs := s.cut seqLen (List.replicate s.promptIds.length 0 ++ s.completionLogprobs)
    positionIds := s.cut seqLen (List.range s.length)
    temperatures := s.cut seqLen (List.replicate s.promptIds.length promptTemp ++ s.completionTemperatures)
    envNames := s.cut seqLen (List.replicate s.length s.envName)
    teacherLogprobs := s.teacherLogprobs.map (s.cut seqLen)
    loraNumTokens := none
    routedExperts := routedExperts
    mmKwargs := s.mmKwargs
    mmTokenTypeIds := s.mmTokenTypeIds.map (s.cut seqLen)
    trainingMode := s.trainingMode
    rewards := some (s.cut seqLen (List.replicate s.length s.reward)) }

omit [Zero R] [One R] in
/-- The routed experts of a sample, cut with the rest. -/
def preparedExperts (seqLen : Nat) : Except PyException (Option RoutedExperts) :=
  match s.routedExperts with
  | none => .ok none
  | some routed => if seqLen < s.length then (routed.slice seqLen).map some else .ok (some routed)

end TrainingSample

/-- `if l is not None: assert len(l) == n`. -/
def checkOptional {α : Type} (l : Option (List α)) (n : Nat) (message : Nat → String) : Except PyException Unit :=
  match l with
  | none => .ok ()
  | some l => pyAssert (l.length = n) (message l.length)

def checkRoutedExperts (routedExperts : Option RoutedExperts) (n : Nat) : Except PyException Unit :=
  match routedExperts with
  | none => .ok ()
  | some routed => do
      let rows ← listItem routed.shape 0
      pyAssert (rows = n) s!"routed_experts: {routed.shape}, input_ids: {n}"
      let rowSize ← routed.rowSize
      pyAssert (routed.data.length = n * rowSize) ""

omit [Zero R] [One R] in
/-- The assertions of `prepare_sample` about the lengths of the lists. -/
def checkLengths (mb : MicroBatch R) : Except PyException Unit := do
  let n := mb.inputIds.length
  let rewards := mb.rewards.getD []
  pyAssert (n = mb.advantages.length ∧ n = mb.lossMask.length ∧ n = mb.positionIds.length ∧
      n = mb.inferenceLogprobs.length ∧ n = rewards.length ∧ n = mb.temperatures.length)
    (s!"input_ids: {n}, advantages: {mb.advantages.length}, loss_mask: {mb.lossMask.length}, " ++
      s!"position_ids: {mb.positionIds.length}, inference_logprobs: {mb.inferenceLogprobs.length}, " ++
      s!"rewards: {rewards.length}, temperatures: {mb.temperatures.length}")
  checkOptional mb.teacherLogprobs n fun k => s!"teacher_logprobs: {k}"
  checkRoutedExperts mb.routedExperts n
  checkOptional mb.mmTokenTypeIds n fun k => s!"mm_token_type_ids: {k}, input_ids: {n}"
  pyAssert (mb.envNames.length = n) s!"env_names: {mb.envNames.length}, input_ids: {n}"

def prepareSample (s : TrainingSample R) (seqLen : Nat) : Except PyException (MicroBatch R) := do
  pyAssert (s.envName ≠ "all") "env_name='all' is reserved for aggregate metric keys"
  let mb := s.prepared seqLen (← s.preparedExperts seqLen)
  checkLengths mb
  return mb

/-! ## Packing -/

namespace MicroBatch

omit [Zero R] [One R] in
def isMultimodal (mb : MicroBatch R) : Bool := mb.mmKwargs.isSome

omit [Zero R] [One R] in
def addLoraTokens (mb : MicroBatch R) (idx n : Nat) : Except PyException (MicroBatch R) :=
  match mb.loraNumTokens with
  | none => .error ⟨.typeError, "'NoneType' object is not subscriptable"⟩
  | some counts =>
      match counts[idx]? with
      | none => .error ⟨.indexError, "list index out of range"⟩
      | some c => .ok { mb with loraNumTokens := some (counts.set idx (c + n)) }

omit [Zero R] [One R] in
/-- A micro batch of one sample. -/
def opened (numLoras : Nat) (x : Nat × MicroBatch R) : Except PyException (MicroBatch R) :=
  if x.1 < numLoras then
    .ok { x.2 with loraNumTokens := some ((List.replicate numLoras 0).set x.1 x.2.inputIds.length) }
  else .error ⟨.indexError, "list assignment index out of range"⟩

omit [Zero R] [One R] in
/-- The test before a sample goes into a bin. -/
def fits (maxSeqLen : Nat) (bin : MicroBatch R) (x : Nat × MicroBatch R) : Bool :=
  !bin.isMultimodal && decide (bin.inputIds.length + x.2.inputIds.length ≤ maxSeqLen) &&
    decide (bin.trainingMode = x.2.trainingMode)

/-- An optional list of the bin with the one of the sample: a missing list of the bin starts out empty. -/
def extendOptional {α : Type} (bin sample : Option (List α)) : Option (List α) :=
  match sample with
  | none => bin
  | some l => some (bin.getD [] ++ l)

omit [Zero R] [One R] in
/-- The rewards: what is missing on one side is filled with `nan`. -/
def extendRewards (bin sample : MicroBatch R) : Option (List (Option R)) :=
  match sample.rewards, bin.rewards with
  | some l, none => some (List.replicate bin.inputIds.length none ++ l)
  | some l, some r => some (r ++ l)
  | none, some r => some (r ++ List.replicate sample.inputIds.length none)
  | none, none => none

def extendRoutedExperts (bin sample : Option RoutedExperts) : Except PyException (Option RoutedExperts) := do
  pyAssert (bin.isNone = sample.isNone) ""
  match sample, bin with
  | some src, some dst => return some (← dst.append src)
  | some src, none => return some src
  | none, _ => return bin

omit [Zero R] [One R] in
def add (bin : MicroBatch R) (x : Nat × MicroBatch R) : Except PyException (MicroBatch R) := do
  let sample := x.2
  let routedExperts ← extendRoutedExperts bin.routedExperts sample.routedExperts
  let extended : MicroBatch R :=
    { bin with
      inputIds := bin.inputIds ++ sample.inputIds
      lossMask := bin.lossMask ++ sample.lossMask
      advantages := bin.advantages ++ sample.advantages
      rewards := extendRewards bin sample
      inferenceLogprobs := bin.inferenceLogprobs ++ sample.inferenceLogprobs
      temperatures := bin.temperatures ++ sample.temperatures
      teacherLogprobs := extendOptional bin.teacherLogprobs sample.teacherLogprobs
      routedExperts := routedExperts
      mmTokenTypeIds := extendOptional bin.mmTokenTypeIds sample.mmTokenTypeIds
      envNames := bin.envNames ++ sample.envNames
      positionIds := bin.positionIds ++ sample.positionIds }
  extended.addLoraTokens x.1 sample.inputIds.length

end MicroBatch

omit [Zero R] [One R] in
/-- The order of the sort: by `(lora_idx, -length)`. -/
def packingOrder (a b : Nat × MicroBatch R) : Prop :=
  a.1 < b.1 ∨ a.1 = b.1 ∧ b.2.inputIds.length ≤ a.2.inputIds.length

instance : DecidableRel (packingOrder (R := R)) := fun _ _ => inferInstanceAs (Decidable (_ ∨ _))

omit [Zero R] [One R] in
/-- One turn of the loop of `packed_samples_into_micro_bs`. -/
def packOne (maxSeqLen numLoras : Nat) (microBatches : List (MicroBatch R)) (x : Nat × MicroBatch R) :
    Except PyException (List (MicroBatch R)) :=
  if x.2.isMultimodal then do return microBatches ++ [← MicroBatch.opened numLoras x]
  else placeM (MicroBatch.opened numLoras) MicroBatch.add (MicroBatch.fits maxSeqLen) x microBatches

omit [Zero R] [One R] in
def packedSamplesIntoMicroBs (samples : List (Nat × MicroBatch R)) (maxSeqLen numLoras : Nat) :
    Except PyException (List (MicroBatch R)) :=
  (samples.insertionSort packingOrder).foldlM (packOne maxSeqLen numLoras) []

/-- The tokens missing to the next multiple. -/
def paddingSize (padToMultipleOf n : Nat) : Nat := (padToMultipleOf - n % padToMultipleOf) % padToMultipleOf

/-- A micro batch with its padding appended, but for the routed experts and the adapter counts. -/
def MicroBatch.withPadding (mb : MicroBatch R) (paddingSize : Nat) : MicroBatch R :=
  { mb with
    inputIds := mb.inputIds ++ List.replicate paddingSize 1
    advantages := mb.advantages ++ List.replicate paddingSize (some 0)
    rewards := mb.rewards.map (· ++ List.replicate paddingSize none)
    lossMask := mb.lossMask ++ List.replicate paddingSize false
    positionIds := mb.positionIds ++ List.range paddingSize
    inferenceLogprobs := mb.inferenceLogprobs ++ List.replicate paddingSize 0
    temperatures := mb.temperatures ++ List.replicate paddingSize 1
    teacherLogprobs := mb.teacherLogprobs.map (· ++ List.replicate paddingSize 0)
    mmTokenTypeIds := mb.mmTokenTypeIds.map (· ++ List.replicate paddingSize 0)
    envNames := mb.envNames ++ List.replicate paddingSize "" }

omit [Zero R] [One R] in
def padOptionalExperts (routedExperts : Option RoutedExperts) (paddingSize : Nat) :
    Except PyException (Option RoutedExperts) :=
  match routedExperts with
  | none => .ok none
  | some routed => (routed.pad paddingSize).map some

/-- `pad_micro_batch`; the padding is counted for the last adapter. -/
def padMicroBatch (mb : MicroBatch R) (padToMultipleOf : Nat) : Except PyException (MicroBatch R) :=
  let k := paddingSize padToMultipleOf mb.inputIds.length
  if padToMultipleOf = 0 then .error ⟨.zeroDivisionError, "integer modulo by zero"⟩
  else if mb.envNames.length ≠ mb.inputIds.length then
    raiseValueError
      (s!"MicroBatch.env_names must match input_ids length before padding: " ++
        s!"env_names={mb.envNames.length}, input_ids={mb.inputIds.length}")
  else if ¬ (1 < padToMultipleOf ∧ 0 < k) then .ok mb
  else do
    let padded ← (mb.withPadding k).addLoraTokens ((mb.loraNumTokens.getD []).length - 1) k
    return { padded with routedExperts := ← padOptionalExperts mb.routedExperts k }

/-! ## Distribution -/

omit [One R] in
def makeDummyBatch (source : MicroBatch R) : MicroBatch R :=
  { source with
    advantages := List.replicate source.inputIds.length (some 0)
    lossMask := List.replicate source.inputIds.length false }

omit [One R] in
def padGroupForDistribution (group : List (MicroBatch R)) (numTrainWorkers : Nat) : List (MicroBatch R) :=
  let numPadding := (numTrainWorkers - group.length % numTrainWorkers) % numTrainWorkers
  match group with
  | [] => []
  | first :: _ => group ++ List.replicate numPadding (makeDummyBatch first)

/-- `batches_per_gpu[i % num_train_workers].append(batch)` for every batch. -/
def distribute {α : Type} (numTrainWorkers : Nat) (ordered : List α) : List (List α) :=
  ordered.zipIdx.foldl (fun grid x => grid.modify (x.2 % numTrainWorkers) (· ++ [x.1]))
    (List.replicate numTrainWorkers [])

/-- The end of `prepare_batch`: the micro batches by modality, filled up and handed out. -/
def distributeBatches (microBatches : List (MicroBatch R)) (numTrainWorkers : Nat) :
    Except PyException (List (List (MicroBatch R))) :=
  if numTrainWorkers = 0 then .error ⟨.zeroDivisionError, "integer modulo by zero"⟩
  else do
    let mmBatches := padGroupForDistribution (microBatches.filter (·.isMultimodal)) numTrainWorkers
    let textBatches := padGroupForDistribution (microBatches.filter (!·.isMultimodal)) numTrainWorkers
    let ordered := mmBatches ++ textBatches
    pyAssert (ordered.length % numTrainWorkers = 0) "Number of micro batches is not divisible by number of data ranks"
    return distribute numTrainWorkers ordered

def prepareBatch (rollouts : List (TrainingSample R)) (seqLen numTrainWorkers : Nat) (idxs : List Nat) (numLoras : Nat)
    (padToMultipleOf : Nat) : Except PyException (List (List (MicroBatch R))) := do
  let allSamples ← (idxs.zip rollouts).mapM fun x => do return (x.1, ← prepareSample x.2 seqLen)
  let packed ← packedSamplesIntoMicroBs allSamples seqLen numLoras
  let microBatches ← packed.mapM (padMicroBatch · padToMultipleOf)
  distributeBatches microBatches numTrainWorkers

end AuroraRl.Trainer
