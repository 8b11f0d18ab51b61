import Mathlib.Data.List.Perm.Basic
import Mathlib.Logic.Function.Basic

/-!
# The stacking dataset

* `Sample`, `Batch` : an example, and the rows of a batch;
* `bucketSizes`, `findBucketIdx` : the widths of the buckets, and the bucket of an example;
* `StackDataset` : the checkpoint state, `mergeUp` and `fill` : what a timeout does to a bucket;
* `feed`, `resume` : the body of the loop up to its `yield`, and what follows it;
* `iterate` : the loop over the underlying dataset, `stateDict`, `loadStateDict`.
-/

namespace AuroraRl.Sft

def bucketTimeout : Nat := 10

/-- An example. No list of it is longer than its tokens. -/
structure Sample where
  inputIds : List Int
  positionIds : List Int
  lossMask : List Bool
  targetIds : List Int
  positionIds_le : positionIds.length ≤ inputIds.length
  lossMask_le : lossMask.length ≤ inputIds.length
  targetIds_le : targetIds.length ≤ inputIds.length

/-- The rows of `packed_samples`. -/
structure Batch where
  inputIds : List (List Int)
  positionIds : List (List Int)
  lossMask : List (List Bool)
  targetIds : List (List Int)
deriving DecidableEq

namespace Sample

/-- `sample[key] = sample[key][: max_area]` for every key. -/
def truncate (x : Sample) (maxArea : Nat) : Sample where
  inputIds := x.inputIds.take maxArea
  positionIds := x.positionIds.take maxArea
  lossMask := x.lossMask.take maxArea
  targetIds := x.targetIds.take maxArea
  positionIds_le := by
    have := x.positionIds_le
    simp only [List.length_take]
    omega
  lossMask_le := by
    have := x.lossMask_le
    simp only [List.length_take]
    omega
  targetIds_le := by
    have := x.targetIds_le
    simp only [List.length_take]
    omega

/-- An example no longer than the area. -/
def fit (x : Sample) (maxArea : Nat) : Sample := if maxArea < x.inputIds.length then x.truncate maxArea else x

def dummy : Sample := ⟨[0], [0], [false], [0], Nat.le_refl _, Nat.le_refl _, Nat.le_refl _⟩

theorem length_fit (x : Sample) (maxArea : Nat) : (x.fit maxArea).inputIds.length ≤ maxArea := by
  unfold fit
  split
  · exact List.length_take_le _ _
  · omega

end Sample

/-! ## Buckets -/

/-- `while max_area % 256 == 0`, with fuel. -/
def bucketSizesLoop : Nat → Nat → List Nat → List Nat
  | 0, _, sizes => sizes
  | fuel + 1, area, sizes => if area % 256 = 0 then bucketSizesLoop fuel (area / 2) (area :: sizes) else sizes

/-- `self.bucket_sizes`, for a positive area. -/
def bucketSizes (maxArea : Nat) : List Nat := bucketSizesLoop maxArea maxArea []

def findBucketIdx : List Nat → Nat → Nat
  | size :: next :: sizes, len => if size < len then findBucketIdx (next :: sizes) len + 1 else 0
  | _, _ => 0

/-- What `state_dict` saves besides the state of the underlying dataset. -/
structure StackDataset where
  step : Nat
  buckets : Nat → List Sample
  bucketTimers : Nat → Option Nat

namespace StackDataset

def init : StackDataset := ⟨0, fun _ => [], fun _ => none⟩

def setBucket (s : StackDataset) (i : Nat) (items : List Sample) : StackDataset :=
  { s with buckets := Function.update s.buckets i items }

def setTimer (s : StackDataset) (i : Nat) (timer : Option Nat) : StackDataset :=
  { s with bucketTimers := Function.update s.bucketTimers i timer }

def append (s : StackDataset) (i : Nat) (x : Sample) : StackDataset := s.setBucket i (s.buckets i ++ [x])

@[simp] theorem setBucket_step (s : StackDataset) (i : Nat) (l : List Sample) : (s.setBucket i l).step = s.step := rfl

@[simp] theorem setBucket_bucketTimers (s : StackDataset) (i : Nat) (l : List Sample) :
    (s.setBucket i l).bucketTimers = s.bucketTimers := rfl

@[simp] theorem setBucket_buckets_self (s : StackDataset) (i : Nat) (l : List Sample) :
    (s.setBucket i l).buckets i = l := Function.update_self ..

@[simp] theorem setBucket_buckets_of_ne (s : StackDataset) {i j : Nat} (h : j ≠ i) (l : List Sample) :
    (s.setBucket i l).buckets j = s.buckets j := Function.update_of_ne h ..

@[simp] theorem setTimer_step (s : StackDataset) (i : Nat) (timer : Option Nat) : (s.setTimer i timer).step = s.step :=
  rfl

@[simp] theorem setTimer_buckets (s : StackDataset) (i : Nat) (timer : Option Nat) :
    (s.setTimer i timer).buckets = s.buckets := rfl

@[simp] theorem setTimer_bucketTimers_self (s : StackDataset) (i : Nat) (timer : Option Nat) :
    (s.setTimer i timer).bucketTimers i = timer := Function.update_self ..

@[simp] theorem setTimer_bucketTimers_of_ne (s : StackDataset) {i j : Nat} (h : j ≠ i) (timer : Option Nat) :
    (s.setTimer i timer).bucketTimers j = s.bucketTimers j := Function.update_of_ne h ..

@[simp] theorem append_step (s : StackDataset) (i : Nat) (x : Sample) : (s.append i x).step = s.step := rfl

@[simp] theorem append_bucketTimers (s : StackDataset) (i : Nat) (x : Sample) :
    (s.append i x).bucketTimers = s.bucketTimers := rfl

@[simp] theorem append_buckets_self (s : StackDataset) (i : Nat) (x : Sample) :
    (s.append i x).buckets i = s.buckets i ++ [x] := Function.update_self ..

@[simp] theorem append_buckets_of_ne (s : StackDataset) {i j : Nat} (h : j ≠ i) (x : Sample) :
    (s.append i x).buckets j = s.buckets j := Function.update_of_ne h ..

def hitTimeout (s : StackDataset) (i : Nat) : Bool :=
  match s.bucketTimers i with
  | none => false
  | some timer => decide (timer + bucketTimeout < s.step)

section Config

variable (maxArea : Nat)

def size (i : Nat) : Nat := (bucketSizes maxArea).getD i 0

def isFull (s : StackDataset) (i : Nat) : Bool := decide (maxArea ≤ size maxArea i * (s.buckets i).length)

/-- The loop that moves a timed out bucket into the next one; at most `k` buckets are left above it. -/
def mergeUp : Nat → StackDataset → Nat → StackDataset × Nat
  | 0, s, i => (s, i)
  | k + 1, s, i =>
    if size maxArea (i + 1) * ((s.buckets i).length + (s.buckets (i + 1)).length) < maxArea then
      mergeUp k (((s.setBucket (i + 1) (s.buckets (i + 1) ++ s.buckets i)).setBucket i []).setTimer i none) (i + 1)
    else (s, i)

/-- The loop that appends dummies to a bucket, with fuel. -/
def fill (width : Nat) : Nat → List Sample → List Sample
  | 0, items => items
  | fuel + 1, items => if width * items.length < maxArea then fill width fuel (items ++ [Sample.dummy]) else items

end Config

end StackDataset

/-! ## The loop -/

def pad {α : Type} (width : Nat) (d : α) (l : List α) : List α := l ++ List.replicate (width - l.length) d

/-- `packed_samples` of a bucket. -/
def pack (width : Nat) (items : List Sample) : Batch where
  inputIds := items.map fun x => pad width 0 x.inputIds
  positionIds := items.map fun x => pad width 0 x.positionIds
  lossMask := items.map fun x => pad width false x.lossMask
  targetIds := items.map fun x => pad width 0 x.targetIds

namespace StackDataset

variable (maxArea : Nat)

/-- The bucket of an example. -/
def bucketOf (x : Sample) : Nat := findBucketIdx (bucketSizes maxArea) (x.fit maxArea).inputIds.length

/-- What a timeout makes of the bucket `i`: it is moved up and filled. -/
def expire (s : StackDataset) (i : Nat) : StackDataset × Nat :=
  let (s, i) := mergeUp maxArea ((bucketSizes maxArea).length - 1 - i) s i
  (s.setBucket i (fill maxArea (size maxArea i) maxArea (s.buckets i)), i)

/-- The body of the loop until it yields, with the bucket that it yields, or to its end. -/
def feed (s : StackDataset) (x : Sample) : StackDataset × Option Nat :=
  let i := bucketOf maxArea x
  let s := s.append i (x.fit maxArea)
  let hit := s.hitTimeout i
  if isFull maxArea s i || hit then
    let (s, i) := if hit then expire maxArea s i else (s, i)
    (s, some i)
  else if s.bucketTimers i = none then (s.setTimer i (some s.step), none)
  else (s, none)

/-- The batch that is yielded from bucket `i`. -/
def batch (s : StackDataset) (i : Nat) : Batch := pack (size maxArea i) (s.buckets i)

/-- What follows the `yield`. -/
def resume (s : StackDataset) (i : Nat) : StackDataset :=
  (({ s with step := s.step + 1 } : StackDataset).setBucket i []).setTimer i none

@[simp] theorem resume_step (s : StackDataset) (i : Nat) : (s.resume i).step = s.step + 1 := rfl

@[simp] theorem resume_buckets_self (s : StackDataset) (i : Nat) : (s.resume i).buckets i = [] :=
  Function.update_self ..

@[simp] theorem resume_buckets_of_ne (s : StackDataset) {i j : Nat} (h : j ≠ i) :
    (s.resume i).buckets j = s.buckets j := Function.update_of_ne h ..

@[simp] theorem resume_bucketTimers_self (s : StackDataset) (i : Nat) : (s.resume i).bucketTimers i = none :=
  Function.update_self ..

@[simp] theorem resume_bucketTimers_of_ne (s : StackDataset) {i j : Nat} (h : j ≠ i) :
    (s.resume i).bucketTimers j = s.bucketTimers j := Function.update_of_ne h ..

/-- One turn of the loop. -/
def turn (s : StackDataset) (x : Sample) : StackDataset × Option Batch :=
  match feed maxArea s x with
  | (s, none) => (s, none)
  | (s, some i) => (s.resume i, some (s.batch maxArea i))

/-- The batches yielded while `n` examples of the underlying dataset are read from a position, and the dataset after
them. -/
def iterate (stream : Nat → Option Sample) : Nat → Nat → StackDataset → List Batch × Nat × StackDataset
  | 0, position, s => ([], position, s)
  | n + 1, position, s =>
    match stream position with
    | none => ([], position, s)
    | some x =>
      let (s, yielded) := s.turn maxArea x
      let (batches, rest) := iterate stream n (position + 1) s
      (yielded.toList ++ batches, rest)

end StackDataset

/-- `state_dict`; the state of the underlying dataset is its position. -/
structure StateDict where
  dataset : Nat
  step : Nat
  buckets : Nat → List Sample
  bucketTimers : Nat → Option Nat

def StackDataset.stateDict (position : Nat) (s : StackDataset) : StateDict :=
  ⟨position, s.step, s.buckets, s.bucketTimers⟩

/-- `load_state_dict`, with the position of the underlying dataset. -/
def StackDataset.loadStateDict (state : StateDict) : Nat × StackDataset :=
  (state.dataset, ⟨state.step, state.buckets, state.bucketTimers⟩)

end AuroraRl.Sft
