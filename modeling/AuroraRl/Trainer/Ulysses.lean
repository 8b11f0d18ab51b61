import AuroraRl.Lib.Python
import Mathlib

/-!
# Attention under Ulysses

A sharded tensor has a row of heads for every rank and local position; its last axis is in the type of the entries.

* `allToAllSeqToHead`, `allToAllHeadToSeq` : the two exchanges;
* `flashAttnVarlen` : the attention of every query over the keys it sees, grouped heads included;
* `ulyssesFlashAttnVarlenFunc_eq` : every rank gets its shard of the attention over the full sequence;
* `groupedHeads`, `ulyssesHeadByHead_eq` : the same for any operator in its place that acts head by head.
-/

namespace AuroraRl.Trainer

/-! ## The exchanges -/

/-- An entry for every rank, local position and head. -/
abbrev Sharded (α : Type) := Nat → Nat → Nat → α

/-- `all_to_all_single`: chunk `i` on a rank is that rank's chunk on rank `i`. -/
def allToAllSingle {β : Type} (chunks : Nat → Nat → β) : Nat → Nat → β := fun rank i => chunks i rank

/-- `_all_to_all_seq_to_head`, on all ranks. -/
def allToAllSeqToHead {α : Type} (cpSize sLocal h : Nat) (t : Sharded α) : Except PyException (Sharded α) := do
  pyAssert (h % cpSize = 0)
    ("num_heads (" ++ toString h ++ ") must be divisible by cp_size (" ++ toString cpSize ++ ")")
  let hLocal := h / cpSize
  let chunks := fun rank chunk s x => t rank s (chunk * hLocal + x)
  let out := allToAllSingle chunks
  .ok fun rank p x => out rank (p / sLocal) (p % sLocal) x

/-- `_all_to_all_head_to_seq`, on all ranks. -/
def allToAllHeadToSeq {α : Type} (cpSize sGlobal hLocal : Nat) (t : Sharded α) : Except PyException (Sharded α) := do
  pyAssert (sGlobal % cpSize = 0) ""
  let sLocal := sGlobal / cpSize
  let chunks := fun rank chunk s x => t rank (chunk * sLocal + s) x
  let out := allToAllSingle chunks
  .ok fun rank s y => out rank (y / hLocal) s (y % hLocal)

/-- The entry of a full sequence at a position and head. -/
def unsharded {α : Type} (sLocal : Nat) (t : Sharded α) (p y : Nat) : α := t (p / sLocal) (p % sLocal) y

theorem unsharded_apply {α : Type} {sLocal s : Nat} (hs : s < sLocal) (t : Sharded α) (rank y : Nat) :
    unsharded sLocal t (rank * sLocal + s) y = t rank s y := by
  have hdiv : (rank * sLocal + s) / sLocal = rank := by
    rw [Nat.mul_comm, Nat.mul_add_div (by omega), Nat.div_eq_of_lt hs, Nat.add_zero]
  have hmod : (rank * sLocal + s) % sLocal = s := by
    rw [Nat.mul_comm, Nat.mul_add_mod, Nat.mod_eq_of_lt hs]
  unfold unsharded
  rw [hdiv, hmod]

/-- After the first exchange a rank has the full sequence for its heads. -/
theorem allToAllSeqToHead_eq {α : Type} {cpSize h : Nat} (hdvd : cpSize ∣ h) (sLocal : Nat) (t : Sharded α) :
    allToAllSeqToHead cpSize sLocal h t = .ok fun rank p x => unsharded sLocal t p (rank * (h / cpSize) + x) := by
  unfold allToAllSeqToHead
  rw [pyAssert_eq_ok (u := ()).2 (Nat.mod_eq_zero_of_dvd hdvd)]
  rfl

/-- The second exchange gives a rank its positions for all heads. -/
theorem allToAllHeadToSeq_eq {α : Type} {cpSize : Nat} (hpos : 0 < cpSize) (sLocal hLocal : Nat) (t : Sharded α) :
    allToAllHeadToSeq cpSize (cpSize * sLocal) hLocal t =
      .ok fun rank s y => t (y / hLocal) (rank * sLocal + s) (y % hLocal) := by
  unfold allToAllHeadToSeq
  rw [pyAssert_eq_ok (u := ()).2 (Nat.mul_mod_right cpSize sLocal), ok_bind, Nat.mul_div_cancel_left _ hpos]
  rfl

/-! ## The attention -/

/-- The sizes of a sharded attention. -/
structure AttentionShape where
  cpSize : Nat
  sLocal : Nat
  numHeads : Nat
  numKeyValueHeads : Nat

/-- Every rank has heads, and every key head is shared by as many query heads. -/
structure AttentionShape.Valid (shape : AttentionShape) : Prop where
  cpSize_pos : 0 < shape.cpSize
  cpSize_dvd : shape.cpSize ∣ shape.numKeyValueHeads
  grouped : shape.numKeyValueHeads ∣ shape.numHeads
  numHeads_pos : 0 < shape.numHeads

/-- What a kernel is called with beside the tensors. -/
structure FlashCall where
  cuSeqlens : List Nat
  maxSeqlen : Nat
  causal : Bool
  windowSize : Int × Int

/-- The key at `j` is visible to the query at `i`: they are in one sequence, the key is not later, and it is in the
window. -/
def FlashCall.visible (call : FlashCall) (i j : Nat) : Bool :=
  (call.cuSeqlens.zip call.cuSeqlens.tail).any (fun e => e.1 ≤ i ∧ i < e.2 ∧ e.1 ≤ j ∧ j < e.2) ∧
    (call.causal → j ≤ i) ∧
    (call.windowSize ≠ (-1, -1) → (i : Int) - call.windowSize.1 ≤ j ∧ (j : Int) ≤ i + call.windowSize.2)

/-- The key head of a query head, counted from the first of the rank, is that of the full sequence. -/
theorem keyHead_eq_of_dvd {cpSize numHeads numKeyValueHeads : Nat} (hcp : 0 < cpSize) (hdvd : cpSize ∣ numKeyValueHeads)
    (hgrouped : numKeyValueHeads ∣ numHeads) (y : Nat) :
    y / (numHeads / cpSize) * (numKeyValueHeads / cpSize) +
        y % (numHeads / cpSize) / (numHeads / cpSize / (numKeyValueHeads / cpSize)) =
      y / (numHeads / numKeyValueHeads) := by
  rcases Nat.eq_zero_or_pos numHeads with rfl | hpos
  · simp
  obtain ⟨m, hm⟩ := hdvd
  obtain ⟨g, hg⟩ := hgrouped
  rw [hg, hm] at hpos
  have hmpos : 0 < m := Nat.pos_of_mul_pos_left (Nat.pos_of_mul_pos_right hpos)
  have hgpos : 0 < g := Nat.pos_of_mul_pos_left hpos
  have hheads : numHeads / cpSize = m * g := by
    rw [hg, hm, Nat.mul_assoc, Nat.mul_div_cancel_left _ hcp]
  rw [hheads, hg, hm, Nat.mul_div_cancel_left _ hcp, Nat.mul_div_cancel_left _ hmpos,
    Nat.mul_div_cancel_left _ (Nat.mul_pos hcp hmpos)]
  conv_rhs => rw [← Nat.div_add_mod y (m * g), Nat.mul_assoc, Nat.mul_left_comm, Nat.mul_add_div hgpos]
  rw [Nat.mul_comm]

theorem keyHead_eq {shape : AttentionShape} (h : shape.Valid) (y : Nat) :
    y / (shape.numHeads / shape.cpSize) * (shape.numKeyValueHeads / shape.cpSize) +
        y % (shape.numHeads / shape.cpSize) /
          (shape.numHeads / shape.cpSize / (shape.numKeyValueHeads / shape.cpSize)) =
      y / (shape.numHeads / shape.numKeyValueHeads) := keyHead_eq_of_dvd h.cpSize_pos h.cpSize_dvd h.grouped y

section Attention

variable {Q K V O : Type}

/-- A flash attention kernel on full sequences: `attend` is what it computes for one query and its visible keys. -/
def flashAttnVarlen (attend : Q → List (K × V) → O) (call : FlashCall) (sequence numHeads numKeyValueHeads : Nat)
    (q : Nat → Nat → Q) (k : Nat → Nat → K) (v : Nat → Nat → V) (i y : Nat) : O :=
  let kvHead := y / (numHeads / numKeyValueHeads)
  attend (q i y) (((List.range sequence).filter (call.visible i)).map fun j => (k j kvHead, v j kvHead))

/-- `ulysses_flash_attn_varlen_func`, on all ranks. -/
def ulyssesFlashAttnVarlenFunc (attend : Q → List (K × V) → O) (call : FlashCall) (shape : AttentionShape)
    (q : Sharded Q) (k : Sharded K) (v : Sharded V) : Except PyException (Sharded O) := do
  let q ← allToAllSeqToHead shape.cpSize shape.sLocal shape.numHeads q
  let k ← allToAllSeqToHead shape.cpSize shape.sLocal shape.numKeyValueHeads k
  let v ← allToAllSeqToHead shape.cpSize shape.sLocal shape.numKeyValueHeads v
  let sGlobal := shape.cpSize * shape.sLocal
  let out := fun rank => flashAttnVarlen attend call sGlobal (shape.numHeads / shape.cpSize)
    (shape.numKeyValueHeads / shape.cpSize) (q rank) (k rank) (v rank)
  allToAllHeadToSeq shape.cpSize sGlobal (shape.numHeads / shape.cpSize) out

/-- **Ulysses.** Every rank gets its positions of the attention over the full sequence. -/
theorem ulyssesFlashAttnVarlenFunc_eq {shape : AttentionShape} (h : shape.Valid) (attend : Q → List (K × V) → O)
    (call : FlashCall) (q : Sharded Q) (k : Sharded K) (v : Sharded V) :
    ulyssesFlashAttnVarlenFunc attend call shape q k v = .ok fun rank s y =>
      flashAttnVarlen attend call (shape.cpSize * shape.sLocal) shape.numHeads shape.numKeyValueHeads
        (unsharded shape.sLocal q) (unsharded shape.sLocal k) (unsharded shape.sLocal v) (rank * shape.sLocal + s) y := by
  have hheads : shape.cpSize ∣ shape.numHeads := h.cpSize_dvd.trans h.grouped
  unfold ulyssesFlashAttnVarlenFunc
  rw [allToAllSeqToHead_eq hheads, ok_bind, allToAllSeqToHead_eq h.cpSize_dvd, ok_bind,
    allToAllSeqToHead_eq h.cpSize_dvd, ok_bind]
  dsimp only
  rw [allToAllHeadToSeq_eq h.cpSize_pos]
  congr 1
  funext rank s y
  unfold flashAttnVarlen
  dsimp only
  rw [keyHead_eq h, Nat.div_add_mod']

/-- An operator on full sequences that acts head by head; a query head meets the key head of its group. -/
def groupedHeads (op : List Q → List K → List V → Nat → O) (sequence numHeads numKeyValueHeads : Nat)
    (q : Nat → Nat → Q) (k : Nat → Nat → K) (v : Nat → Nat → V) (i y : Nat) : O :=
  let kvHead := y / (numHeads / numKeyValueHeads)
  op ((List.range sequence).map fun p => q p y) ((List.range sequence).map fun p => k p kvHead)
    ((List.range sequence).map fun p => v p kvHead) i

/-- `ulysses_flash_attn_varlen_func` on all ranks, with such an operator as its `flash_fn`. -/
def ulyssesHeadByHead (op : List Q → List K → List V → Nat → O) (shape : AttentionShape)
    (q : Sharded Q) (k : Sharded K) (v : Sharded V) : Except PyException (Sharded O) := do
  let q ← allToAllSeqToHead shape.cpSize shape.sLocal shape.numHeads q
  let k ← allToAllSeqToHead shape.cpSize shape.sLocal shape.numKeyValueHeads k
  let v ← allToAllSeqToHead shape.cpSize shape.sLocal shape.numKeyValueHeads v
  let sGlobal := shape.cpSize * shape.sLocal
  let out := fun rank => groupedHeads op sGlobal (shape.numHeads / shape.cpSize) (shape.numKeyValueHeads / shape.cpSize)
    (q rank) (k rank) (v rank)
  allToAllHeadToSeq shape.cpSize sGlobal (shape.numHeads / shape.cpSize) out

/-- **Head by head.** Every rank gets its positions of the operator over the full sequence. -/
theorem ulyssesHeadByHead_eq {shape : AttentionShape} (hpos : 0 < shape.cpSize) (hdvd : shape.cpSize ∣ shape.numKeyValueHeads)
    (hgrouped : shape.numKeyValueHeads ∣ shape.numHeads) (op : List Q → List K → List V → Nat → O)
    (q : Sharded Q) (k : Sharded K) (v : Sharded V) :
    ulyssesHeadByHead op shape q k v = .ok fun rank s y =>
      groupedHeads op (shape.cpSize * shape.sLocal) shape.numHeads shape.numKeyValueHeads
        (unsharded shape.sLocal q) (unsharded shape.sLocal k) (unsharded shape.sLocal v) (rank * shape.sLocal + s) y := by
  unfold ulyssesHeadByHead
  rw [allToAllSeqToHead_eq (hdvd.trans hgrouped), ok_bind, allToAllSeqToHead_eq hdvd, ok_bind,
    allToAllSeqToHead_eq hdvd, ok_bind]
  dsimp only
  rw [allToAllHeadToSeq_eq hpos]
  congr 1
  funext rank s y
  unfold groupedHeads
  dsimp only
  rw [keyHead_eq_of_dvd hpos hdvd hgrouped, Nat.div_add_mod']

end Attention

end AuroraRl.Trainer
