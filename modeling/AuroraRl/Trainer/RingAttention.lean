import AuroraRl.Lib.Blocks
import AuroraRl.Lib.Python
import Mathlib.Algebra.BigOperators.Group.List.Basic

/-!
# Ring attention

* `Tensor` : heads of head vectors, one column of positions a head;
* `HeadKernel`, `varlenForward`, `varlenBackward` : a kernel on one query head, and on the heads of a call;
* `Gather`, `wait`, `swap`, `prefetch` : the two buffers that gather the next heads while the last ones are used;
* `forwardLoop`, `backwardLoop` : the loops over blocks of heads;
* `ringFA3VarlenForward`, `ringFA4VarlenForward`, `ringFA3VarlenBackward`, `ringFA4VarlenBackward` : with their kernels.
-/

namespace AuroraRl.Trainer.Ring

open Blocks

/-- Columns of positions, one a head. The elements are vectors of the head dimension. -/
abbrev Tensor (E : Type) := List (List E)

variable {E L : Type}

def headSlice (lo hi : Nat) (t : Tensor E) : Tensor E := slice lo hi t

def rowSlice (lo hi : Nat) (t : Tensor E) : Tensor E := t.map (slice lo hi)

/-- `torch.cat(ts, dim=1)`; of log-sum-exps, whose heads come first, `torch.cat(ts, dim=-2)`. -/
def catHeads (ts : List (Tensor E)) : Except PyException (Tensor E) :=
  if ts = [] then .error ⟨.runtimeError, "torch.cat(): expected a non-empty list of Tensors"⟩ else .ok ts.flatten

def emptyTensor (garbage : E) (heads rows : Nat) : Tensor E := List.replicate heads (List.replicate rows garbage)

def emptyLike (garbage : E) (t : Tensor E) : Tensor E := t.map fun column => column.map fun _ => garbage

/-! ## Kernels -/

/-- A kernel on a query head and its kv head: `out` and `lse`, and `dq`, `dk` and `dv`. -/
structure HeadKernel (E L : Type) where
  forward : (q k v : List E) → List E × List L
  backward : (dout q k v out : List E) → (lse : List L) → List E × List E × List E

/-- The kv head of a query head of the call. -/
def kvHead (q k : Tensor E) (h : Nat) : Nat := h / (q.length / k.length)

def varlenForward (kernel : HeadKernel E L) (q k v : Tensor E) : Tensor E × Tensor L :=
  let heads := (List.range q.length).map fun h =>
    kernel.forward (q.getD h []) (k.getD (kvHead q k h) []) (v.getD (kvHead q k h) [])
  (heads.map Prod.fst, heads.map Prod.snd)

section Backward

variable [AddCommMonoid E]

/-- What the query heads of a group add to the gradients of their kv head. -/
def addColumns (rows : Nat) (columns : List (List E)) : List E :=
  (List.range rows).map fun p => (columns.map fun column => column.getD p 0).sum

def varlenBackward (kernel : HeadKernel E L) (dout q k v out : Tensor E) (lse : Tensor L) : Tensor E × Tensor E × Tensor E :=
  let heads := (List.range q.length).map fun h => kernel.backward (dout.getD h []) (q.getD h []) (k.getD (kvHead q k h) [])
    (v.getD (kvHead q k h) []) (out.getD h []) (lse.getD h [])
  let group := q.length / k.length
  let gradient := fun (f : List E × List E × List E → List E) (t : Tensor E) => (List.range k.length).map fun j =>
    addColumns (t.getD j []).length ((slice (j * group) ((j + 1) * group) heads).map f)
  (heads.map Prod.fst, gradient (fun head => head.2.1) k, gradient (fun head => head.2.2) v)

end Backward

/-- The scalars of a call. -/
structure VarlenArgs (Window : Type) where
  cuSeqlensQ : List Int
  cuSeqlensK : List Int
  maxSeqlenQ : Nat
  maxSeqlenK : Nat
  headDim : Nat
  causal : Bool
  window : Window

abbrev Fa3 (E L : Type) := VarlenArgs (Int × Int) → HeadKernel E L

abbrev Fa4 (E L : Type) := VarlenArgs (Option Int × Option Int) → HeadKernel E L

/-- `_fa4_varlen_forward` and `_fa4_varlen_backward` leave out a window of -1. -/
def fa4Window (args : VarlenArgs (Int × Int)) : VarlenArgs (Option Int × Option Int) :=
  { args with window := (if args.window.1 ≠ -1 then some args.window.1 else none,
      if args.window.2 ≠ -1 then some args.window.2 else none) }

/-! ## Gathering -/

/-- What a rank calls with. -/
structure RankInput (E : Type) where
  q : Tensor E
  k : Tensor E
  v : Tensor E
  localKSliceStart : Nat
  localKSliceStop : Nat

/-- `comm.all_gather`: the positions of all ranks, in their order. -/
def allGather (worldSize heads : Nat) (chunk : Nat → Tensor E) : Tensor E :=
  (List.range heads).map fun h => (List.range worldSize).flatMap fun rank => (chunk rank).getD h []

/-- `kv_buffer`, `kv_buffer_copy` and what is being gathered into the latter. -/
structure Gather (E : Type) where
  kvBuffer : Tensor E × Tensor E
  kvBufferCopy : Tensor E × Tensor E
  pending : Option (Tensor E × Tensor E)

namespace Gather

def wait (g : Gather E) : Gather E := { g with kvBufferCopy := g.pending.getD g.kvBufferCopy, pending := none }

def swap (g : Gather E) : Gather E := { g with kvBuffer := g.kvBufferCopy, kvBufferCopy := g.kvBuffer }

end Gather

section Loops

variable (worldSize nheadsK headsKStride totalK : Nat) (input : Nat → RankInput E) (garbage : E)

/-- `comm.all_gather` of the heads from `left` on, of keys and of values. -/
def gatherHeads (left : Nat) : Tensor E × Tensor E :=
  (allGather worldSize headsKStride fun rank => headSlice left (left + headsKStride) (input rank).k,
    allGather worldSize headsKStride fun rank => headSlice left (left + headsKStride) (input rank).v)

/-- Two fresh buffers, with the first heads on their way. -/
def startGather : Gather E where
  kvBuffer := (emptyTensor garbage headsKStride (totalK * worldSize), emptyTensor garbage headsKStride (totalK * worldSize))
  kvBufferCopy :=
    (emptyTensor garbage headsKStride (totalK * worldSize), emptyTensor garbage headsKStride (totalK * worldSize))
  pending := some (gatherHeads worldSize headsKStride input 0)

/-- `wait`, the buffers swapped, and the next heads requested unless these are the last. -/
def advance (i : Nat) (g : Gather E) : Gather E :=
  let g := g.wait.swap
  if i + headsKStride < nheadsK then
    { g with pending := some (gatherHeads worldSize headsKStride input (i + headsKStride)) }
  else g

def blockStarts : List Nat := (List.range ((nheadsK + headsKStride - 1) / headsKStride)).map (· * headsKStride)

/-! ## Forward -/

/-- The loop's state: the buffers, `out_list` and `lse_list`. -/
structure Forward (E L : Type) where
  gather : Gather E
  outs : List (Tensor E)
  lses : List (Tensor L)

def forwardStep (kernel : HeadKernel E L) (rank : Nat) (s : Forward E L) (i : Nat) : Forward E L :=
  let q := (input rank).q
  let gather := advance worldSize nheadsK headsKStride input i s.gather
  let q_i := headSlice (i * q.length / nheadsK) ((i + headsKStride) * q.length / nheadsK) q
  let k_i := rowSlice (input rank).localKSliceStart (input rank).localKSliceStop gather.kvBuffer.1
  let v_i := rowSlice (input rank).localKSliceStart (input rank).localKSliceStop gather.kvBuffer.2
  let (out_i, lse_i) := varlenForward kernel q_i k_i v_i
  ⟨gather, s.outs ++ [out_i], s.lses ++ [lse_i]⟩

/-- `forward`: the output and the log-sum-exps that are saved with it. -/
def forwardLoop (kernel : HeadKernel E L) (rank : Nat) : Except PyException (Tensor E × Tensor L) := do
  let s := (blockStarts nheadsK headsKStride).foldl (forwardStep worldSize nheadsK headsKStride input kernel rank)
    ⟨startGather worldSize headsKStride totalK input garbage, [], []⟩
  let out ← catHeads s.outs
  let lse ← catHeads s.lses
  return (out, lse)

/-! ## Backward -/

section Backward

variable [AddCommMonoid E] (dout out : Nat → Tensor E) (lse : Nat → Tensor L)

/-- The loop's state on a rank. -/
structure Backward (E : Type) where
  gather : Gather E
  dq : Tensor E
  dk : Tensor E
  dv : Tensor E

/-- `dkv_buffer[..][local_k_slice]`, zeroed and then written by the kernel. -/
def bufferRows (kStart kStop rows : Nat) (column : List E) : List E :=
  (List.range rows).map fun p => if kStart ≤ p ∧ p < kStop then column.getD (p - kStart) 0 else 0

/-- A rank's part of the loop body: `dq`, and its buffers for the reduction. -/
def backwardLocal (kernel : HeadKernel E L) (i : Nat) (rank : Nat) (s : Backward E) : Backward E × Tensor E × Tensor E :=
  let q := (input rank).q
  let kStart := (input rank).localKSliceStart
  let kStop := (input rank).localKSliceStop
  let lo := i * q.length / nheadsK
  let hi := (i + headsKStride) * q.length / nheadsK
  let gather := advance worldSize nheadsK headsKStride input i s.gather
  let (dq_i, dk_i, dv_i) := varlenBackward kernel (headSlice lo hi (dout rank)) (headSlice lo hi q)
    (rowSlice kStart kStop gather.kvBuffer.1) (rowSlice kStart kStop gather.kvBuffer.2) (headSlice lo hi (out rank))
    (headSlice lo hi (lse rank))
  ({ s with gather := gather, dq := write lo dq_i s.dq }, dk_i.map (bufferRows kStart kStop (totalK * worldSize)),
    dv_i.map (bufferRows kStart kStop (totalK * worldSize)))

/-- `dist.reduce_scatter_tensor`: the sum over the ranks, and of it the positions of a rank. -/
def reduceScatter (heads : Nat) (buffer : Nat → Tensor E) (rank : Nat) : Tensor E :=
  (List.range heads).map fun h => (List.range totalK).map fun p =>
    ((List.range worldSize).map fun r => ((buffer r).getD h []).getD (rank * totalK + p) 0).sum

/-- The loop body on all ranks. -/
def backwardStep (kernel : HeadKernel E L) (s : Nat → Backward E) (i : Nat) : Nat → Backward E :=
  let locals := fun rank => backwardLocal worldSize nheadsK headsKStride totalK input dout out lse kernel i rank (s rank)
  fun rank =>
    let s := (locals rank).1
    let dk_i := reduceScatter worldSize totalK headsKStride (fun r => (locals r).2.1) rank
    let dv_i := reduceScatter worldSize totalK headsKStride (fun r => (locals r).2.2) rank
    if headsKStride ≠ nheadsK then { s with dk := write i dk_i s.dk, dv := write i dv_i s.dv }
    else { s with dk := dk_i, dv := dv_i }

/-- `backward` on all ranks: `dq`, `dk` and `dv`. -/
def backwardLoop (kernel : HeadKernel E L) (rank : Nat) : Tensor E × Tensor E × Tensor E :=
  let s := (blockStarts nheadsK headsKStride).foldl
    (backwardStep worldSize nheadsK headsKStride totalK input dout out lse kernel)
    (fun rank => ⟨startGather worldSize headsKStride totalK input garbage, emptyLike garbage (input rank).q,
      emptyLike garbage (input rank).k, emptyLike garbage (input rank).v⟩)
  ((s rank).dq, (s rank).dk, (s rank).dv)

end Backward

/-! ## Both kernels -/

section Kernels

variable (args : VarlenArgs (Int × Int))

def ringFA3VarlenForward (kernel : Fa3 E L) (rank : Nat) : Except PyException (Tensor E × Tensor L) :=
  forwardLoop worldSize nheadsK headsKStride totalK input garbage (kernel args) rank

def ringFA4VarlenForward (kernel : Fa4 E L) (rank : Nat) : Except PyException (Tensor E × Tensor L) :=
  forwardLoop worldSize nheadsK headsKStride totalK input garbage (kernel (fa4Window args)) rank

variable [AddCommMonoid E] (dout out : Nat → Tensor E) (lse : Nat → Tensor L)

def ringFA3VarlenBackward (kernel : Fa3 E L) (rank : Nat) : Tensor E × Tensor E × Tensor E :=
  backwardLoop worldSize nheadsK headsKStride totalK input garbage dout out lse (kernel args) rank

def ringFA4VarlenBackward (kernel : Fa4 E L) (rank : Nat) : Tensor E × Tensor E × Tensor E :=
  backwardLoop worldSize nheadsK headsKStride totalK input garbage dout out lse (kernel (fa4Window args)) rank

end Kernels

end Loops

end AuroraRl.Trainer.Ring
