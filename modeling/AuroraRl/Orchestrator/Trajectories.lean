import AuroraRl.Trainer.Batch
import Mathlib

/-!
# From rollouts to training samples

* `StepTokens`, `Rollout` : the token lists of a trajectory step, and a rollout;
* `makeSample`, `extendSample` : a sample from a step, and what a later step adds to it;
* `mergeStep` : a step goes into the first sample whose tokens its prompt extends, or starts one;
* `alignRoutedExperts`, `attachImages` : the end of `interleave_rollout`;
* `interleaveRollout`.

The routed experts of a step are decoded here; `π` are the tensor payloads of the renderer, and `concat` joins those of one
keyword.
-/

namespace AuroraRl.Orchestrator
open AuroraRl.Trainer

variable {R π : Type}

/-! ## Data -/

/-- An array of bytes: its rows, and the shape of a row. -/
structure ByteArray2 where
  rows : List (List UInt8)
  rowShape : List Nat
  rows_length : ∀ row ∈ rows, row.length = rowShape.foldr (· * ·) 1

/-- `mm_items`: for every modality the keyword arguments of each item. -/
abbrev MmItems (π : Type) := Dict String (List (Dict String π))

structure StepTokens (R π : Type) where
  promptIds : List Int
  promptMask : List Bool
  completionIds : List Int
  completionMask : List Bool
  completionLogprobs : List R
  routedExperts : Option ByteArray2
  mmItems : Option (MmItems π)

/-- What `interleave_rollout` reads of a rollout. -/
structure Rollout (R π : Type) where
  trajectory : List (Option (StepTokens R π))
  error : Option String
  temperature : R
  envName : String

def Rollout.hasError (output : Rollout R π) : Bool := output.error.isSome

def StepTokens.ids (tokens : StepTokens R π) : List Int := tokens.promptIds ++ tokens.completionIds

/-- A sample being built, with the tokens a step has to extend, the steps in it, and its chunks of routed experts. -/
structure Active (R : Type) where
  prefixTokens : List Int
  sample : TrainingSample R
  stepIndices : List Nat
  chunks : Option (List ByteArray2)

/-! ## Routed experts -/

namespace ByteArray2

/-- The rows from `start` to `stop`. -/
def slice (a : ByteArray2) (start stop : Nat) : ByteArray2 :=
  ⟨(a.rows.take stop).drop start, a.rowShape, fun row h =>
    a.rows_length row (List.mem_of_mem_take (List.mem_of_mem_drop h))⟩

def append (a b : ByteArray2) (h : a.rowShape = b.rowShape) : ByteArray2 :=
  ⟨a.rows ++ b.rows, a.rowShape, fun row hrow => (List.mem_append.1 hrow).elim (a.rows_length row) fun hb =>
    (b.rows_length row hb).trans (by rw [h])⟩

def concatenate₂ (a b : ByteArray2) : Except PyException ByteArray2 :=
  if h : a.rowShape = b.rowShape then .ok (a.append b h)
  else raiseValueError "all the input array dimensions except for the concatenation axis must match exactly"

def concatenate : List ByteArray2 → Except PyException ByteArray2
  | [] => raiseValueError "need at least one array to concatenate"
  | a :: chunks => chunks.foldlM concatenate₂ a

def zeros (n : Nat) (rowShape : List Nat) : ByteArray2 :=
  ⟨List.replicate n (List.replicate (rowShape.foldr (· * ·) 1) 0), rowShape, fun row h => by
    rw [List.eq_of_mem_replicate h, List.length_replicate]⟩

/-- `RoutedExperts(data=a.tobytes(), shape=list(a.shape), dtype=str(a.dtype))`. -/
def encode (a : ByteArray2) : RoutedExperts := ⟨a.rows.flatten, a.rows.length :: a.rowShape, "uint8"⟩

end ByteArray2

def alignRoutedExperts (routedExperts : ByteArray2) (expectedLen : Nat) : Except PyException ByteArray2 := do
  pyAssert (routedExperts.rowShape.length = 2) ""
  if expectedLen < routedExperts.rows.length then return routedExperts.slice 0 expectedLen
  else if expectedLen - routedExperts.rows.length = 0 then return routedExperts
  else routedExperts.concatenate₂ (.zeros (expectedLen - routedExperts.rows.length) routedExperts.rowShape)

/-! ## Samples -/

section

variable [Zero R] (output : Rollout R π)

/-- The completion mask of a step: nothing is trained on after an error. -/
def Rollout.maskOf (tokens : StepTokens R π) : List Bool :=
  if output.hasError then List.replicate tokens.completionMask.length false else tokens.completionMask

def makeSample (x : Nat × StepTokens R π) : Active R where
  prefixTokens := x.2.ids
  sample :=
    { promptIds := x.2.promptIds
      promptMask := x.2.promptMask
      completionIds := x.2.completionIds
      completionMask := output.maskOf x.2
      completionLogprobs := x.2.completionLogprobs
      completionTemperatures := List.replicate x.2.completionIds.length output.temperature
      envName := output.envName
      teacherLogprobs := none
      advantage := none
      reward := none
      mmKwargs := none
      routedExperts := none
      mmTokenTypeIds := none
      trainingMode := .rl }
  stepIndices := [x.1]
  chunks := x.2.routedExperts.map ([·])

/-- The chunks a later step adds: the entry its predecessor left out at the boundary, and those of its new tokens. -/
def newChunks (routedExperts : ByteArray2) (prefixLen : Nat) : List ByteArray2 :=
  if 0 < prefixLen ∧ prefixLen ≤ routedExperts.rows.length then
    [routedExperts.slice (prefixLen - 1) prefixLen, routedExperts.slice prefixLen routedExperts.rows.length]
  else [routedExperts.slice prefixLen routedExperts.rows.length]

def extendSample (a : Active R) (x : Nat × StepTokens R π) : Active R :=
  let prefixLen := a.prefixTokens.length
  let newPromptIds := x.2.promptIds.drop prefixLen
  let n := newPromptIds.length
  { prefixTokens := x.2.ids
    sample := { a.sample with
      completionIds := a.sample.completionIds ++ newPromptIds ++ x.2.completionIds
      completionMask := a.sample.completionMask ++ List.replicate n false ++ output.maskOf x.2
      completionLogprobs := a.sample.completionLogprobs ++ List.replicate n 0 ++ x.2.completionLogprobs
      completionTemperatures := a.sample.completionTemperatures ++ List.replicate n output.temperature ++
        List.replicate x.2.completionIds.length output.temperature }
    stepIndices := a.stepIndices ++ [x.1]
    chunks := match x.2.routedExperts, a.chunks with
      | some routedExperts, some chunks => some (chunks ++ newChunks routedExperts prefixLen)
      | _, chunks => chunks }

omit [Zero R] in
/-- The prompt of a step starts with the tokens of a sample. -/
def extendsPrefix (a : Active R) (x : Nat × StepTokens R π) : Bool :=
  decide (x.2.promptIds.take a.prefixTokens.length = a.prefixTokens)

/-- One turn of the loop: the first sample that matches is extended, else one is started. -/
def mergeStep (activeSamples : List (Active R)) (x : Nat × StepTokens R π) : List (Active R) :=
  match activeSamples.findIdx? (extendsPrefix · x) with
  | some matchedIdx => activeSamples.modify matchedIdx (extendSample output · x)
  | none => activeSamples ++ [makeSample output x]

end

/-! ## The end of `interleave_rollout` -/

/-- The chunks of a sample as its routed experts. -/
def finalizeRoutedExperts (a : Active R) : Except PyException (Active R) :=
  match a.chunks with
  | none => .ok a
  | some [] => .ok a
  | some chunks => do
      let combined ← ByteArray2.concatenate chunks
      let aligned ← alignRoutedExperts combined (a.sample.promptIds.length + a.sample.completionIds.length)
      return { a with sample := { a.sample with routedExperts := some aligned.encode } }

/-- `_union_step_mm_data`: the items of every modality over the steps of a sample. -/
def unionStepMmData (preparedSteps : List (StepTokens R π)) (stepIndices : List Nat) : Option (MmItems π) :=
  let items := stepIndices.flatMap fun i =>
    match preparedSteps[i]? with
    | none => []
    | some tokens => (tokens.mmItems.getD ∅).entries.flatMap fun e => e.2.map fun item => (e.1, item)
  if items = [] then none
  else some (Dict.appendAll ∅ items)

def packMmKwargsFromRenderer (concat : List π → Except PyException EncodedTensor) (mmData : MmItems π) :
    Except PyException (Option (Dict String EncodedTensor)) :=
  let payloads := mmData.values.flatten.flatMap (·.entries)
  match (Dict.appendAll ∅ payloads).entries with
  | [] => .ok none
  | entries => do
      let out ← entries.mapM fun e => do return (e.1, ← concat e.2)
      return some (.ofList out)

/-- The images of the steps of a sample. -/
def attachImages (concat : List π → Except PyException EncodedTensor) (mmTokenTypeIdsMapping : Option (Dict Int Int))
    (preparedSteps : List (StepTokens R π)) (a : Active R) : Except PyException (Active R) :=
  match unionStepMmData preparedSteps a.stepIndices with
  | none => .ok a
  | some rendererMm => do
      match ← packMmKwargsFromRenderer concat rendererMm with
      | none => return a
      | some mmKwargs =>
          let types := mmTokenTypeIdsMapping.map fun mapping =>
            (a.sample.promptIds ++ a.sample.completionIds).map fun t => (mapping.get? t).getD 0
          return { a with sample := { a.sample with
            mmKwargs := some mmKwargs
            mmTokenTypeIds := types.orElse fun _ => a.sample.mmTokenTypeIds } }

def interleaveRollout [Zero R] (concat : List π → Except PyException EncodedTensor)
    (mmTokenTypeIdsMapping : Option (Dict Int Int)) (output : Rollout R π) :
    Except PyException (Option (List (TrainingSample R))) :=
  match output.trajectory.mapM id with
  | none => .ok none
  | some [] => .ok none
  | some (first :: rest) => do
      let activeSamples := (rest.zipIdx 1).foldl (fun l x => mergeStep output l x.swap) [makeSample output (0, first)]
      let activeSamples ← activeSamples.mapM finalizeRoutedExperts
      let activeSamples ← activeSamples.mapM (attachImages concat mmTokenTypeIdsMapping (first :: rest))
      return some (activeSamples.map (·.sample))

end AuroraRl.Orchestrator
