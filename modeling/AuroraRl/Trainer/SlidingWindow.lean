import AuroraRl.Trainer.Boundaries
import AuroraRl.Trainer.Ulysses

/-!
# Sliding windows under Ulysses

* `UlyssesPatch.attention` : the two patches, each with its own window;
* `SeesWindow` : every query sees the keys of its document at most `w - 1` positions before it;
* `custom_seesWindow` : the patch of the custom layers does;
* `ulysses_seesWindow` : both do iff no document is longer than the window.
-/

namespace AuroraRl.Trainer
open Segments

/-! ## The patches -/

/-- The window of `FlashAttention`, with and without Ulysses. -/
def flashWindow (slidingWindow : Option Nat) : Int × Int :=
  match slidingWindow with
  | none => (-1, -1)
  | some w => ((w : Int) - 1, 0)

/-- The window of the HF patch, from the number of keys it is called with. -/
def hfWindow (slidingWindow : Option Nat) (keyLength : Nat) : Int × Int :=
  match slidingWindow with
  | none => (-1, -1)
  | some w => if w < keyLength then ((w : Int), (w : Int)) else (-1, -1)

section Patches

variable {Q K V O : Type}

/-- `_ulysses_compute_attention`, after `setup_cp_params` of the full position ids. -/
def ulyssesComputeAttention (attend : Q → List (K × V) → O) (positionIds : List Nat) (slidingWindow : Option Nat)
    (shape : AttentionShape) (q : Sharded Q) (k : Sharded K) (v : Sharded V) : Except PyException (Sharded O) := do
  let (cuSeqlens, maxSeqlen) ← getCuSeqlensFromPositionIds positionIds
  ulyssesFlashAttnVarlenFunc attend ⟨cuSeqlens, maxSeqlen, true, flashWindow slidingWindow⟩ shape q k v

/-- `_ulysses_flash_attention_forward`, after `setup_cp_params` of the full position ids; the keys have the local
length. -/
def ulyssesFlashAttentionForward {C : Type} (attend : Q → List (K × V) → O) (positionIds : List Nat)
    (slidingWindow : Option Nat) (isCausal : Bool) (softcap : Option C) (batchSize : Nat) (shape : AttentionShape)
    (q : Sharded Q) (k : Sharded K) (v : Sharded V) : Except PyException (Sharded O) := do
  let (cuSeqlens, maxSeqlen) ← getCuSeqlensFromPositionIds positionIds
  pyAssert isCausal "ulysses CP only supports causal attention"
  pyAssert softcap.isNone "ulysses CP path does not support softcap"
  pyAssert (batchSize = 1) "varlen data should be processed with batch=1"
  ulyssesFlashAttnVarlenFunc attend ⟨cuSeqlens, maxSeqlen, true, hfWindow slidingWindow shape.sLocal⟩ shape q k v

end Patches

/-- The patch of the custom layers and the one of the HF models. -/
inductive UlyssesPatch
  | custom
  | hf

/-- The attention under a patch: causal, without softcap, a batch of one. -/
def UlyssesPatch.attention {Q K V O : Type} (patch : UlyssesPatch) (attend : Q → List (K × V) → O)
    (positionIds : List Nat) (slidingWindow : Option Nat) (shape : AttentionShape) (q : Sharded Q) (k : Sharded K)
    (v : Sharded V) : Except PyException (Sharded O) :=
  match patch with
  | .custom => ulyssesComputeAttention attend positionIds slidingWindow shape q k v
  | .hf => ulyssesFlashAttentionForward attend positionIds slidingWindow true (none : Option Nat) 1 shape q k v

/-- The window of a patch for a window `w` and keys of the local length. -/
def UlyssesPatch.window (patch : UlyssesPatch) (w keyLength : Nat) : Int × Int :=
  match patch with
  | .custom => flashWindow (some w)
  | .hf => hfWindow (some w) keyLength

/-! ## The window -/

/-- The key at `j` is in the document of the query at `i`, not later, and less than `w` positions before it. -/
def InWindow (lengths : List Nat) (w i j : Nat) : Prop := Together lengths i j ∧ j ≤ i ∧ i - j < w

/-- Whatever the attention computes for a query and its keys, the keys that it gets are those in the window. -/
def UlyssesPatch.SeesWindow (patch : UlyssesPatch) (lengths : List Nat) (w : Nat) (shape : AttentionShape) : Prop :=
  ∀ (Q K V O : Type) (attend : Q → List (K × V) → O) (q : Sharded Q) (k : Sharded K) (v : Sharded V),
    ∃ out, patch.attention attend (restarts lengths) (some w) shape q k v = .ok out ∧
      ∀ rank < shape.cpSize, ∀ s < shape.sLocal, ∀ y < shape.numHeads, ∃ keys : List Nat,
        keys.Pairwise (· < ·) ∧ (∀ j, j ∈ keys ↔ InWindow lengths w (rank * shape.sLocal + s) j) ∧
          out rank s y = attend (q rank s y) (keys.map fun j =>
            (unsharded shape.sLocal k j (y / (shape.numHeads / shape.numKeyValueHeads)),
              unsharded shape.sLocal v j (y / (shape.numHeads / shape.numKeyValueHeads))))

section Window

variable {lengths : List Nat} {w : Nat} {shape : AttentionShape}

/-- What is visible to a query under a causal call with the boundaries of the documents. -/
theorem visible_iff {maxSeqlen : Nat} {window : Int × Int} {i j : Nat} :
    (FlashCall.mk (0 :: ends 0 lengths) maxSeqlen true window).visible i j = true ↔
      Together lengths i j ∧ j ≤ i ∧ (window ≠ (-1, -1) → (i : Int) - window.1 ≤ j ∧ (j : Int) ≤ i + window.2) := by
  unfold FlashCall.visible
  simp only [List.tail_cons, decide_eq_true_eq]
  rw [any_zip_ends]
  simp

theorem visible_flashWindow {maxSeqlen : Nat} {i j : Nat} :
    (FlashCall.mk (0 :: ends 0 lengths) maxSeqlen true (flashWindow (some w))).visible i j = true ↔
      InWindow lengths w i j := by
  rw [visible_iff]
  unfold InWindow
  refine and_congr_right fun _ => and_congr_right fun hle => ?_
  have hne : flashWindow (some w) ≠ (-1, -1) := fun h => by simp [flashWindow] at h
  simp only [hne, ne_eq, not_false_eq_true, true_implies]
  simp only [flashWindow]
  omega

/-- With no document longer than the window nothing is cut off. -/
theorem visible_hfWindow (hshort : ∀ n ∈ lengths, n ≤ w) {maxSeqlen keyLength : Nat} {i j : Nat} :
    (FlashCall.mk (0 :: ends 0 lengths) maxSeqlen true (hfWindow (some w) keyLength)).visible i j = true ↔
      InWindow lengths w i j := by
  rw [visible_iff]
  unfold InWindow
  refine and_congr_right fun htogether => and_congr_right fun hle => ?_
  obtain ⟨before, n, after, rfl, hin⟩ := htogether
  have hn := hshort n (by simp)
  refine iff_of_true (fun hwindow => ?_) (by omega)
  unfold hfWindow at hwindow ⊢
  dsimp only at hwindow ⊢
  split
  · dsimp only
    omega
  · next hlong =>
      rw [if_neg hlong] at hwindow
      exact absurd rfl hwindow

/-- In a document longer than the window the key before the first of the window is visible too. -/
theorem visible_first {before after : List Nat} {n : Nat} (hlong : w < n) {maxSeqlen keyLength : Nat} :
    (FlashCall.mk (0 :: ends 0 (before ++ n :: after)) maxSeqlen true (hfWindow (some w) keyLength)).visible
      (before.sum + w) before.sum = true := by
  rw [visible_iff]
  refine ⟨⟨before, n, after, rfl, by omega, by omega, by omega, by omega⟩, by omega, fun hwindow => ?_⟩
  unfold hfWindow at hwindow ⊢
  dsimp only at hwindow ⊢
  split
  · dsimp only
    omega
  · next hshort =>
      rw [if_neg hshort] at hwindow
      exact absurd rfl hwindow

/-! ## The keys of a query -/

/-- A patch is the attention over the full sequence with its window. -/
theorem attention_eq (hne : lengths ≠ []) (hpos : ∀ n ∈ lengths, 0 < n) (h : shape.Valid) (patch : UlyssesPatch)
    {Q K V O : Type} (attend : Q → List (K × V) → O) (q : Sharded Q) (k : Sharded K) (v : Sharded V) :
    patch.attention attend (restarts lengths) (some w) shape q k v = .ok fun rank s y =>
      flashAttnVarlen attend ⟨0 :: ends 0 lengths, lengths.foldl max 0, true, patch.window w shape.sLocal⟩
        (shape.cpSize * shape.sLocal) shape.numHeads shape.numKeyValueHeads (unsharded shape.sLocal q)
        (unsharded shape.sLocal k) (unsharded shape.sLocal v) (rank * shape.sLocal + s) y := by
  cases patch with
  | custom =>
      show ulyssesComputeAttention attend _ _ shape q k v = _
      unfold ulyssesComputeAttention
      rw [getCuSeqlens_restarts hne hpos]
      exact ulyssesFlashAttnVarlenFunc_eq h attend _ q k v
  | hf =>
      show ulyssesFlashAttentionForward attend _ _ true none 1 shape q k v = _
      unfold ulyssesFlashAttentionForward
      rw [getCuSeqlens_restarts hne hpos]
      exact ulyssesFlashAttnVarlenFunc_eq h attend _ q k v

theorem InWindow.lt_sum {i j : Nat} (h : InWindow lengths w i j) : j < lengths.sum := by
  obtain ⟨⟨before, n, after, rfl, hin⟩, _⟩ := h
  rw [List.sum_append, List.sum_cons]
  omega

/-- A patch that makes the keys in the window visible hands them to the attention. -/
theorem seesWindow_of_visible (hne : lengths ≠ []) (hpos : ∀ n ∈ lengths, 0 < n) (h : shape.Valid)
    (hsum : lengths.sum = shape.cpSize * shape.sLocal) {patch : UlyssesPatch}
    (hvisible : ∀ i j, (FlashCall.mk (0 :: ends 0 lengths) (lengths.foldl max 0) true
      (patch.window w shape.sLocal)).visible i j = true ↔ InWindow lengths w i j) :
    patch.SeesWindow lengths w shape := by
  intro Q K V O attend q k v
  refine ⟨_, attention_eq hne hpos h patch attend q k v, fun rank _ s hs y _ => ?_⟩
  refine ⟨(List.range (shape.cpSize * shape.sLocal)).filter ((FlashCall.mk (0 :: ends 0 lengths) (lengths.foldl max 0) true
    (patch.window w shape.sLocal)).visible (rank * shape.sLocal + s)), List.pairwise_lt_range.filter _, fun j => ?_, ?_⟩
  · rw [List.mem_filter, hvisible, List.mem_range, ← hsum]
    exact ⟨fun hj => hj.2, fun hj => ⟨hj.lt_sum, hj⟩⟩
  · unfold flashAttnVarlen
    rw [unsharded_apply hs]

/-- The patch of the custom layers has the window of the layers without context parallelism. -/
theorem custom_seesWindow (hne : lengths ≠ []) (hpos : ∀ n ∈ lengths, 0 < n) (h : shape.Valid)
    (hsum : lengths.sum = shape.cpSize * shape.sLocal) : UlyssesPatch.custom.SeesWindow lengths w shape :=
  seesWindow_of_visible hne hpos h hsum fun _ _ => visible_flashWindow

/-- A document longer than the window has a query that gets a key too many from the HF patch. -/
theorem le_of_hf_seesWindow (hne : lengths ≠ []) (hpos : ∀ n ∈ lengths, 0 < n) (h : shape.Valid)
    (hsum : lengths.sum = shape.cpSize * shape.sLocal) (hsees : UlyssesPatch.hf.SeesWindow lengths w shape) :
    ∀ n ∈ lengths, n ≤ w := by
  intro n hn
  by_contra hlong
  obtain ⟨before, after, rfl⟩ := List.append_of_mem hn
  have hsplit := hsum
  rw [List.sum_append, List.sum_cons] at hsplit
  have hlt : before.sum + w < shape.cpSize * shape.sLocal := by omega
  have hlocal : 0 < shape.sLocal := Nat.pos_of_mul_pos_left (Nat.lt_of_le_of_lt (Nat.zero_le _) hlt)
  -- an attention that returns the positions of its keys
  obtain ⟨out, hout, hkeys⟩ := hsees Unit Nat Unit (List Nat) (fun _ keys => keys.map Prod.fst) (fun _ _ _ => ())
    (fun rank s _ => rank * shape.sLocal + s) (fun _ _ _ => ())
  have hposition : ∀ j y, unsharded shape.sLocal (fun rank s _ => rank * shape.sLocal + s) j y = j :=
    fun j _ => Nat.div_add_mod' j shape.sLocal
  obtain ⟨keys, _, hmem, heq⟩ := hkeys ((before.sum + w) / shape.sLocal)
    (Nat.div_lt_of_lt_mul (by rwa [Nat.mul_comm])) ((before.sum + w) % shape.sLocal) (Nat.mod_lt _ hlocal) 0
    h.numHeads_pos
  rw [attention_eq hne hpos h] at hout
  cases hout
  unfold flashAttnVarlen at heq
  simp only [List.map_map, Function.comp_def, hposition, List.map_id'] at heq
  have hfirst : before.sum ∈ keys := by
    rw [← heq, List.mem_filter, List.mem_range, Nat.div_add_mod']
    exact ⟨by omega, visible_first (by omega)⟩
  have hwindow := ((hmem _).1 hfirst).2.2
  rw [Nat.div_add_mod'] at hwindow
  omega

/-- **Sliding windows.** Under both patches every query sees exactly the keys of its window iff no document is longer
than the window. -/
theorem ulysses_seesWindow (hne : lengths ≠ []) (hpos : ∀ n ∈ lengths, 0 < n) (h : shape.Valid)
    (hsum : lengths.sum = shape.cpSize * shape.sLocal) :
    (∀ patch : UlyssesPatch, patch.SeesWindow lengths w shape) ↔ ∀ n ∈ lengths, n ≤ w := by
  constructor
  · intro hsees
    exact le_of_hf_seesWindow hne hpos h hsum (hsees .hf)
  · intro hshort patch
    cases patch with
    | custom => exact custom_seesWindow hne hpos h hsum
    | hf => exact seesWindow_of_visible hne hpos h hsum fun _ _ => visible_hfWindow hshort

end Window

/-- Two ranks with two positions of a head each. -/
def twoRanks : AttentionShape := ⟨2, 2, 2, 2⟩

theorem twoRanks_valid : twoRanks.Valid := ⟨by decide, by decide, by decide, by decide⟩

/-- Two documents of two positions, and a window of two. -/
theorem ulysses_seesWindow_short :
    UlyssesPatch.custom.SeesWindow [2, 2] 2 twoRanks ∧ UlyssesPatch.hf.SeesWindow [2, 2] 2 twoRanks := by
  have hsees := (ulysses_seesWindow (by decide) (by decide) twoRanks_valid rfl).2 (by decide : ∀ n ∈ [2, 2], n ≤ 2)
  exact ⟨hsees .custom, hsees .hf⟩

/-- One document of four positions, and a window of two. -/
theorem ulysses_long : ¬ ∀ patch : UlyssesPatch, patch.SeesWindow [4] 2 twoRanks := by
  intro hsees
  have hle := le_of_hf_seesWindow (by decide) (by decide) twoRanks_valid rfl (hsees .hf) 4 (by decide)
  omega

end AuroraRl.Trainer
