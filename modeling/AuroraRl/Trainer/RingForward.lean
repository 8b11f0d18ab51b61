import AuroraRl.Trainer.RingAttention

/-!
# The forward pass of ring attention

* `Uniform` : what the ranks agree on;
* `gatheredHead`, `localHead` : a kv head gathered from all ranks, and a rank's slice of it;
* `headForward` : the kernel on a query head and its own kv head;
* `advance_spec`, `forwardStep_spec` : one step of the loop;
* `forwardLoop_eq` : the loop gives every query head its kernel result.
-/

namespace AuroraRl.Trainer.Ring

open Blocks

variable {E L : Type}

/-- Shapes: `group` query heads a kv head, `totalK` positions of every rank. -/
structure Uniform (worldSize nheadsK headsKStride totalK group : Nat) (input : Nat → RankInput E) : Prop where
  pos : 0 < nheadsK
  divides : headsKStride ∣ nheadsK
  q : ∀ rank < worldSize, (input rank).q.length = group * nheadsK
  k : ∀ rank < worldSize, (input rank).k.length = nheadsK
  v : ∀ rank < worldSize, (input rank).v.length = nheadsK
  kRows : ∀ rank < worldSize, ∀ column ∈ (input rank).k, column.length = totalK
  vRows : ∀ rank < worldSize, ∀ column ∈ (input rank).v, column.length = totalK

/-! ## Attention head by head -/

/-- A kv head, gathered from all ranks. -/
def gatheredHead (worldSize : Nat) (t : Nat → Tensor E) (j : Nat) : List E :=
  (List.range worldSize).flatMap fun rank => (t rank).getD j []

/-- The slice of a gathered head that a rank attends to. -/
def localHead (worldSize : Nat) (input : Nat → RankInput E) (t : RankInput E → Tensor E) (rank j : Nat) : List E :=
  slice (input rank).localKSliceStart (input rank).localKSliceStop (gatheredHead worldSize (fun r => t (input r)) j)

/-- The kernel on a query head and its own kv head. -/
def headForward (kernel : HeadKernel E L) (worldSize group : Nat) (input : Nat → RankInput E) (rank h : Nat) :
    List E × List L :=
  kernel.forward ((input rank).q.getD h []) (localHead worldSize input RankInput.k rank (h / group))
    (localHead worldSize input RankInput.v rank (h / group))

/-! ## Blocks of heads -/

section Loop

variable {worldSize nheadsK headsKStride totalK group : Nat} {input : Nat → RankInput E} {garbage : E}

theorem Uniform.headsKStride_pos (h : Uniform worldSize nheadsK headsKStride totalK group input) : 0 < headsKStride :=
  Nat.pos_of_dvd_of_pos h.divides h.pos

theorem blockStarts_eq (hpos : 0 < headsKStride) (n : Nat) :
    blockStarts (n * headsKStride) headsKStride = (List.range n).map (· * headsKStride) := by
  have hcount : (n * headsKStride + headsKStride - 1) / headsKStride = n := by
    rw [Nat.add_sub_assoc hpos, Nat.mul_comm, Nat.mul_add_div hpos, Nat.div_eq_of_lt (by omega), Nat.add_zero]
  rw [blockStarts, hcount]

/-- **One turn of the buffers.** What was on its way is used, and the next heads are on their way. -/
theorem advance_spec (worldSize nheadsK headsKStride : Nat) (input : Nat → RankInput E) {g : Gather E}
    {heads : Tensor E × Tensor E} (h : g.pending = some heads) (i : Nat) :
    (advance worldSize nheadsK headsKStride input i g).kvBuffer = heads ∧ (i + headsKStride < nheadsK →
      (advance worldSize nheadsK headsKStride input i g).pending =
        some (gatherHeads worldSize headsKStride input (i + headsKStride))) := by
  have hwait : (g.wait.swap).kvBuffer = heads := by simp [Gather.wait, Gather.swap, h]
  unfold advance
  split
  · exact ⟨hwait, fun _ => rfl⟩
  · rename_i hlast
    exact ⟨hwait, fun hlt => absurd hlt hlast⟩

theorem Uniform.qSlice (h : Uniform worldSize nheadsK headsKStride totalK group input) {rank : Nat} (hrank : rank < worldSize)
    (i : Nat) : i * (input rank).q.length / nheadsK = i * group := by
  rw [h.q rank hrank, ← Nat.mul_assoc, Nat.mul_div_cancel _ h.pos]

/-- The gathered heads of a block, sliced by a rank. -/
theorem getD_allGather (t : RankInput E → Tensor E) {rank left i : Nat} (hi : i < headsKStride) :
    (rowSlice (input rank).localKSliceStart (input rank).localKSliceStop
      (allGather worldSize headsKStride fun r => headSlice left (left + headsKStride) (t (input r)))).getD i [] =
      localHead worldSize input t rank (left + i) := by
  rw [rowSlice, allGather, List.map_map, List.getD_eq_getElem?_getD, List.getElem?_map, List.getElem?_range hi]
  simp only [Option.map_some, Option.getD_some, Function.comp_apply, localHead, gatheredHead, headSlice]
  congr 1
  apply List.flatMap_congr
  intro r _
  exact getD_slice (by omega) _ _

theorem length_gathered (t : RankInput E → Tensor E) (rank left : Nat) :
    (rowSlice (input rank).localKSliceStart (input rank).localKSliceStop
      (allGather worldSize headsKStride fun r => headSlice left (left + headsKStride) (t (input r)))).length =
        headsKStride := by
  simp [rowSlice, allGather]

def headsForward (kernel : HeadKernel E L) (worldSize nheadsK group : Nat) (input : Nat → RankInput E) (rank : Nat) :
    List (List E × List L) :=
  (List.range (group * nheadsK)).map (headForward kernel worldSize group input rank)

/-- The block of query heads that belongs to a block of kv heads. -/
theorem Uniform.qBlock (h : Uniform worldSize nheadsK headsKStride totalK group input) {rank : Nat} (hrank : rank < worldSize)
    (i : Nat) : headSlice (i * (input rank).q.length / nheadsK) ((i + headsKStride) * (input rank).q.length / nheadsK)
      (input rank).q = slice (i * group) (i * group + headsKStride * group) (input rank).q := by
  rw [h.qSlice hrank, h.qSlice hrank, Nat.add_mul]
  rfl

/-- **A block of heads.** The kernel treats each of them with its own kv head. -/
theorem Uniform.varlenForward_block (h : Uniform worldSize nheadsK headsKStride totalK group input) (kernel : HeadKernel E L)
    {rank i : Nat} (hrank : rank < worldSize) (hi : i + headsKStride ≤ nheadsK) :
    varlenForward kernel (slice (i * group) (i * group + headsKStride * group) (input rank).q)
        (rowSlice (input rank).localKSliceStart (input rank).localKSliceStop (gatherHeads worldSize headsKStride input i).1)
        (rowSlice (input rank).localKSliceStart (input rank).localKSliceStop (gatherHeads worldSize headsKStride input i).2) =
      (slice (i * group) (i * group + headsKStride * group)
          ((headsForward kernel worldSize nheadsK group input rank).map Prod.fst),
        slice (i * group) (i * group + headsKStride * group)
          ((headsForward kernel worldSize nheadsK group input rank).map Prod.snd)) := by
  have hpos := h.headsKStride_pos
  have hfits : i * group + headsKStride * group ≤ group * nheadsK := by
    rw [← Nat.add_mul, Nat.mul_comm]
    exact Nat.mul_le_mul_left group hi
  have hlength : (slice (i * group) (i * group + headsKStride * group) (input rank).q).length = headsKStride * group := by
    rw [length_slice, h.q rank hrank]
    omega
  have hheads : slice (i * group) (i * group + headsKStride * group)
      (headsForward kernel worldSize nheadsK group input rank) =
      (List.range (headsKStride * group)).map fun m =>
        kernel.forward ((slice (i * group) (i * group + headsKStride * group) (input rank).q).getD m [])
          ((rowSlice (input rank).localKSliceStart (input rank).localKSliceStop
            (gatherHeads worldSize headsKStride input i).1).getD (m / group) [])
          ((rowSlice (input rank).localKSliceStart (input rank).localKSliceStop
            (gatherHeads worldSize headsKStride input i).2).getD (m / group) []) := by
    rw [headsForward, slice_range _ hfits]
    apply List.map_congr_left
    intro m hm
    have hlt : m < headsKStride * group := List.mem_range.1 hm
    have hgroup : 0 < group := Nat.pos_of_mul_pos_left (Nat.zero_lt_of_lt hlt)
    have hquot : m / group < headsKStride := Nat.div_lt_of_lt_mul (by rwa [Nat.mul_comm])
    rw [headForward, getD_slice (by omega), gatherHeads, getD_allGather _ hquot, getD_allGather _ hquot,
      Nat.add_comm (i * group),
      Nat.add_mul_div_right _ _ hgroup, Nat.add_comm (m / group)]
  have hkv : ∀ m, kvHead (slice (i * group) (i * group + headsKStride * group) (input rank).q)
      (rowSlice (input rank).localKSliceStart (input rank).localKSliceStop (gatherHeads worldSize headsKStride input i).1) m =
        m / group := by
    intro m
    rw [kvHead, hlength, gatherHeads, length_gathered, Nat.mul_div_cancel_left _ hpos]
  rw [slice_map, slice_map, hheads, varlenForward]
  simp only [hkv, hlength]

/-- What the loop has when it comes to a block. -/
structure ForwardInvariant (kernel : HeadKernel E L) (worldSize nheadsK headsKStride group : Nat) (input : Nat → RankInput E)
    (rank j : Nat) (s : Forward E L) : Prop where
  pending : j * headsKStride < nheadsK → s.gather.pending = some (gatherHeads worldSize headsKStride input (j * headsKStride))
  outs : s.outs = (List.range j).map fun m => slice (m * (headsKStride * group)) ((m + 1) * (headsKStride * group))
    ((headsForward kernel worldSize nheadsK group input rank).map Prod.fst)
  lses : s.lses = (List.range j).map fun m => slice (m * (headsKStride * group)) ((m + 1) * (headsKStride * group))
    ((headsForward kernel worldSize nheadsK group input rank).map Prod.snd)

theorem Uniform.forwardStep_spec (h : Uniform worldSize nheadsK headsKStride totalK group input) {kernel : HeadKernel E L}
    {rank j : Nat} (hrank : rank < worldSize) (hj : j * headsKStride + headsKStride ≤ nheadsK) {s : Forward E L}
    (hs : ForwardInvariant kernel worldSize nheadsK headsKStride group input rank j s) :
    ForwardInvariant kernel worldSize nheadsK headsKStride group input rank (j + 1)
      (forwardStep worldSize nheadsK headsKStride input kernel rank s (j * headsKStride)) := by
  have hpos := h.headsKStride_pos
  obtain ⟨hbuffer, hnext⟩ := advance_spec worldSize nheadsK headsKStride input (hs.pending (by omega)) (j * headsKStride)
  have hblock := h.varlenForward_block kernel hrank hj
  rw [← hbuffer, ← h.qBlock hrank] at hblock
  have hlo : j * headsKStride * group = j * (headsKStride * group) := Nat.mul_assoc ..
  have hhi : j * headsKStride * group + headsKStride * group = (j + 1) * (headsKStride * group) := by ring
  rw [hhi, hlo] at hblock
  refine ⟨?_, ?_, ?_⟩
  · intro hlt
    rw [Nat.succ_mul] at hlt ⊢
    exact hnext hlt
  · show s.outs ++ [(varlenForward kernel _ _ _).1] = _
    rw [hblock, hs.outs, List.range_succ, List.map_append]
    rfl
  · show s.lses ++ [(varlenForward kernel _ _ _).2] = _
    rw [hblock, hs.lses, List.range_succ, List.map_append]
    rfl

theorem Uniform.forwardLoop_spec (h : Uniform worldSize nheadsK headsKStride totalK group input) (kernel : HeadKernel E L)
    (garbage : E) {rank : Nat} (hrank : rank < worldSize) {n : Nat} (hn : n * headsKStride ≤ nheadsK) :
    ForwardInvariant kernel worldSize nheadsK headsKStride group input rank n
      (((List.range n).map (· * headsKStride)).foldl (forwardStep worldSize nheadsK headsKStride input kernel rank)
        ⟨startGather worldSize headsKStride totalK input garbage, [], []⟩) := by
  induction n with
  | zero =>
      refine ⟨?_, rfl, rfl⟩
      intro _
      rw [Nat.zero_mul]
      rfl
  | succ n ih =>
      rw [Nat.succ_mul] at hn
      rw [List.range_succ, List.map_append, List.foldl_append]
      exact h.forwardStep_spec hrank hn (ih (by omega))

theorem catHeads_blocks {n w : Nat} (hn : 0 < n) {t : Tensor E} (hlength : t.length = n * w) :
    catHeads ((List.range n).map fun m => slice (m * w) ((m + 1) * w) t) = .ok t := by
  have hne : (List.range n).map (fun m => slice (m * w) ((m + 1) * w) t) ≠ [] := by
    simp only [ne_eq, List.map_eq_nil_iff, List.range_eq_nil]
    omega
  rw [catHeads, if_neg hne, ← List.flatMap_def, flatMap_slices, List.take_of_length_le (by omega)]

/-- **Forward.** Every query head gets the kernel's result on it and its own kv head. -/
theorem Uniform.forwardLoop_eq (h : Uniform worldSize nheadsK headsKStride totalK group input) (kernel : HeadKernel E L)
    {rank : Nat} (hrank : rank < worldSize) :
    forwardLoop worldSize nheadsK headsKStride totalK input garbage kernel rank =
      .ok ((headsForward kernel worldSize nheadsK group input rank).map Prod.fst,
        (headsForward kernel worldSize nheadsK group input rank).map Prod.snd) := by
  have hpos := h.headsKStride_pos
  obtain ⟨n, hn⟩ := h.divides
  rw [Nat.mul_comm] at hn
  have hblocks : 0 < n := by
    apply Nat.pos_of_ne_zero
    rintro rfl
    have hposK := h.pos
    omega
  have hlength : (headsForward kernel worldSize nheadsK group input rank).length = n * (headsKStride * group) := by
    rw [headsForward, List.length_map, List.length_range, hn, Nat.mul_comm group, Nat.mul_assoc]
  have hspec := h.forwardLoop_spec kernel garbage hrank (n := n) (by omega)
  have hstarts : blockStarts nheadsK headsKStride = (List.range n).map (· * headsKStride) := by
    rw [hn]
    exact blockStarts_eq hpos n
  rw [forwardLoop, hstarts, hspec.outs, hspec.lses, catHeads_blocks hblocks (by rw [List.length_map, hlength]),
    catHeads_blocks hblocks (by rw [List.length_map, hlength])]
  rfl

end Loop

end AuroraRl.Trainer.Ring
