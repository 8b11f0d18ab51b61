import AuroraRl.Trainer.RingForward

/-!
# The backward pass of ring attention

* `headBackward` : the kernel on a query head, its own kv head, and what was saved for it;
* `placed`, `gradientRows` : where its gradients count, and their sum over all ranks and the query heads of a group;
* `backwardStep_spec` : one step of the loop on all ranks;
* `backwardLoop_eq` : every rank gets its `dq`, and the sums for its own positions.
-/

namespace AuroraRl.Trainer.Ring

open Blocks

variable {E L : Type} [AddCommMonoid E]

/-! ## Gradients head by head -/

/-- The kernel on a query head and its own kv head, with the log-sum-exp that was saved for it. -/
def headBackward (kernel : HeadKernel E L) (worldSize group : Nat) (input : Nat → RankInput E) (dout out : Nat → Tensor E)
    (lse : Nat → Tensor L) (rank h : Nat) : List E × List E × List E :=
  kernel.backward ((dout rank).getD h []) ((input rank).q.getD h []) (localHead worldSize input RankInput.k rank (h / group))
    (localHead worldSize input RankInput.v rank (h / group)) ((out rank).getD h []) ((lse rank).getD h [])

/-- What a column for the slice of a rank says about a gathered position. -/
def placed (x : RankInput E) (column : List E) (p : Nat) : E :=
  if x.localKSliceStart ≤ p ∧ p < x.localKSliceStop then column.getD (p - x.localKSliceStart) 0 else 0

/-- All contributions to the positions of a rank, kv head by kv head. -/
def gradientRows (worldSize nheadsK totalK group : Nat) (input : Nat → RankInput E) (column : Nat → Nat → List E)
    (rank : Nat) : Tensor E :=
  (List.range nheadsK).map fun j => (List.range totalK).map fun p => ((List.range worldSize).map fun r =>
    ((List.range group).map fun m => placed (input r) (column r (j * group + m)) (rank * totalK + p)).sum).sum

section Loop

variable {worldSize nheadsK headsKStride totalK group : Nat} {input : Nat → RankInput E} {garbage : E}
  {dout out : Nat → Tensor E} {lse : Nat → Tensor L} {kernel : HeadKernel E L}

omit [AddCommMonoid E] in
theorem length_gatheredHead {t : Nat → Tensor E} {j : Nat} (hj : ∀ rank < worldSize, j < (t rank).length)
    (hrows : ∀ rank < worldSize, ∀ column ∈ t rank, column.length = totalK) :
    (gatheredHead worldSize t j).length = totalK * worldSize := by
  have hconst : ∀ rank ∈ List.range worldSize, ((t rank).getD j []).length = totalK := by
    intro rank hrank
    have hrank := List.mem_range.1 hrank
    rw [List.getD_eq_getElem?_getD, List.getElem?_eq_getElem (hj rank hrank)]
    exact hrows rank hrank _ (List.getElem_mem _)
  rw [gatheredHead, List.length_flatMap, List.map_congr_left hconst]
  simp [Nat.mul_comm]

theorem getD_map_range {α : Type} (f : Nat → α) {n i : Nat} (hi : i < n) (d : α) : ((List.range n).map f).getD i d = f i := by
  rw [List.getD_eq_getElem?_getD, List.getElem?_map, List.getElem?_range hi]
  rfl

theorem sum_ite (c : Prop) [Decidable c] (f : Nat → E) (n : Nat) :
    (if c then ((List.range n).map f).sum else 0) = ((List.range n).map fun m => if c then f m else 0).sum := by
  split
  · rfl
  · simp

/-- **A buffer.** At a gathered position it has what the query heads of the group say about it. -/
theorem getD_bufferRows {x : RankInput E} {head : List E} {columns : Nat → List E} {p rows : Nat} (hp : p < rows)
    (hrows : head.length = rows) :
    (bufferRows x.localKSliceStart x.localKSliceStop rows
      (addColumns (slice x.localKSliceStart x.localKSliceStop head).length ((List.range group).map columns))).getD p 0 =
      ((List.range group).map fun m => placed x (columns m) p).sum := by
  rw [bufferRows, getD_map_range _ hp]
  have hinner : ∀ q, q < (slice x.localKSliceStart x.localKSliceStop head).length →
      (addColumns (slice x.localKSliceStart x.localKSliceStop head).length ((List.range group).map columns)).getD q 0 =
        ((List.range group).map fun m => (columns m).getD q 0).sum := by
    intro q hq
    rw [addColumns, getD_map_range _ hq, List.map_map]
    rfl
  unfold placed
  rw [← sum_ite]
  split
  · rename_i hinside
    apply hinner
    rw [length_slice, hrows]
    omega
  · rfl

/-! ## A block of heads -/

/-- A call of the kernel, by what it does to every query head. -/
theorem varlenBackward_heads {doutI q k v outI : Tensor E} {lseI : Tensor L} {heads : Nat → List E × List E × List E}
    (hpos : 0 < headsKStride) (hq : q.length = headsKStride * group) (hk : k.length = headsKStride)
    (hheads : ∀ m < headsKStride * group, kernel.backward (doutI.getD m []) (q.getD m []) (k.getD (m / group) [])
      (v.getD (m / group) []) (outI.getD m []) (lseI.getD m []) = heads m) :
    varlenBackward kernel doutI q k v outI lseI = ((List.range (headsKStride * group)).map fun m => (heads m).1,
      (List.range headsKStride).map fun j =>
        addColumns (k.getD j []).length ((List.range group).map fun m => (heads (j * group + m)).2.1),
      (List.range headsKStride).map fun j =>
        addColumns (v.getD j []).length ((List.range group).map fun m => (heads (j * group + m)).2.2)) := by
  have hgroup : q.length / k.length = group := by rw [hq, hk, Nat.mul_div_cancel_left _ hpos]
  have hall : ((List.range q.length).map fun h => kernel.backward (doutI.getD h []) (q.getD h []) (k.getD (kvHead q k h) [])
      (v.getD (kvHead q k h) []) (outI.getD h []) (lseI.getD h [])) = (List.range (headsKStride * group)).map heads := by
    rw [hq]
    apply List.map_congr_left
    intro m hm
    rw [kvHead, hgroup]
    exact hheads m (List.mem_range.1 hm)
  have hblock : ∀ j ∈ List.range headsKStride, slice (j * group) ((j + 1) * group)
      ((List.range (headsKStride * group)).map heads) = (List.range group).map fun m => heads (j * group + m) := by
    intro j hj
    have hle : (j + 1) * group ≤ headsKStride * group := Nat.mul_le_mul_right group (List.mem_range.1 hj)
    rw [Nat.succ_mul] at hle ⊢
    exact slice_range heads hle
  rw [varlenBackward, hall, hgroup, hk]
  refine Prod.ext ?_ (Prod.ext ?_ ?_)
  · exact List.map_map
  · apply List.map_congr_left
    intro j hj
    rw [hblock j hj, List.map_map]
    rfl
  · apply List.map_congr_left
    intro j hj
    rw [hblock j hj, List.map_map]
    rfl

/-- What a block of query heads adds to the gradients of its kv heads. -/
def blockGradient (worldSize group headsKStride i : Nat) (input : Nat → RankInput E) (t : RankInput E → Tensor E)
    (column : Nat → Nat → List E) (rank : Nat) : Tensor E :=
  (List.range headsKStride).map fun j => addColumns (localHead worldSize input t rank (i + j)).length
    ((List.range group).map fun m => column rank ((i + j) * group + m))

/-- **A block of heads.** The kernel treats each of them with its own kv head. -/
theorem Uniform.varlenBackward_block (h : Uniform worldSize nheadsK headsKStride totalK group input) (kernel : HeadKernel E L)
    (dout out : Nat → Tensor E) (lse : Nat → Tensor L) {rank i : Nat}
    (hrank : rank < worldSize) (hi : i + headsKStride ≤ nheadsK) :
    varlenBackward kernel (slice (i * group) (i * group + headsKStride * group) (dout rank))
        (slice (i * group) (i * group + headsKStride * group) (input rank).q)
        (rowSlice (input rank).localKSliceStart (input rank).localKSliceStop (gatherHeads worldSize headsKStride input i).1)
        (rowSlice (input rank).localKSliceStart (input rank).localKSliceStop (gatherHeads worldSize headsKStride input i).2)
        (slice (i * group) (i * group + headsKStride * group) (out rank))
        (slice (i * group) (i * group + headsKStride * group) (lse rank)) =
      ((List.range (headsKStride * group)).map fun m =>
          (headBackward kernel worldSize group input dout out lse rank (i * group + m)).1,
        blockGradient worldSize group headsKStride i input RankInput.k
          (fun r m => (headBackward kernel worldSize group input dout out lse r m).2.1) rank,
        blockGradient worldSize group headsKStride i input RankInput.v
          (fun r m => (headBackward kernel worldSize group input dout out lse r m).2.2) rank) := by
  have hfits : i * group + headsKStride * group ≤ group * nheadsK := by
    rw [← Nat.add_mul, Nat.mul_comm]
    exact Nat.mul_le_mul_left group hi
  have hlength : (slice (i * group) (i * group + headsKStride * group) (input rank).q).length = headsKStride * group := by
    rw [length_slice, h.q rank hrank]
    omega
  have hk : (rowSlice (input rank).localKSliceStart (input rank).localKSliceStop
      (gatherHeads worldSize headsKStride input i).1).length = headsKStride := length_gathered RankInput.k rank i
  have hkey : ∀ j < headsKStride, (rowSlice (input rank).localKSliceStart (input rank).localKSliceStop
      (gatherHeads worldSize headsKStride input i).1).getD j [] = localHead worldSize input RankInput.k rank (i + j) :=
    fun j hj => getD_allGather RankInput.k hj
  have hvalue : ∀ j < headsKStride, (rowSlice (input rank).localKSliceStart (input rank).localKSliceStop
      (gatherHeads worldSize headsKStride input i).2).getD j [] = localHead worldSize input RankInput.v rank (i + j) :=
    fun j hj => getD_allGather RankInput.v hj
  rw [varlenBackward_heads h.headsKStride_pos hlength hk fun m hm => ?_]
  · refine Prod.ext rfl (Prod.ext ?_ ?_)
    · apply List.map_congr_left
      intro j hj
      rw [hkey j (List.mem_range.1 hj), Nat.add_mul]
      simp only [Nat.add_assoc]
    · apply List.map_congr_left
      intro j hj
      rw [hvalue j (List.mem_range.1 hj), Nat.add_mul]
      simp only [Nat.add_assoc]
  · have hgroup : 0 < group := Nat.pos_of_mul_pos_left (Nat.zero_lt_of_lt hm)
    have hquot : m / group < headsKStride := Nat.div_lt_of_lt_mul (by rwa [Nat.mul_comm])
    have hsplit : (i * group + m) / group = i + m / group := by
      rw [Nat.add_comm, Nat.add_mul_div_right _ _ hgroup, Nat.add_comm]
    rw [getD_slice (by omega), getD_slice (by omega), getD_slice (by omega), getD_slice (by omega),
      hkey _ hquot, hvalue _ hquot,
      ← hsplit]
    rfl

/-- **The reduction.** The sum of the buffers has every contribution to the positions of a rank. -/
theorem reduceScatter_block (group : Nat) {t : RankInput E → Tensor E} (column : Nat → Nat → List E) {rank i : Nat}
    (hlength : ∀ r < worldSize, (t (input r)).length = nheadsK)
    (hrows : ∀ r < worldSize, ∀ c ∈ t (input r), c.length = totalK) (hrank : rank < worldSize)
    (hi : i + headsKStride ≤ nheadsK) :
    reduceScatter worldSize totalK headsKStride (fun r => (blockGradient worldSize group headsKStride i input t column r).map
        (bufferRows (input r).localKSliceStart (input r).localKSliceStop (totalK * worldSize))) rank =
      slice i (i + headsKStride) (gradientRows worldSize nheadsK totalK group input column rank) := by
  rw [gradientRows, slice_range _ hi, reduceScatter]
  apply List.map_congr_left
  intro j hj
  have hj := List.mem_range.1 hj
  apply List.map_congr_left
  intro p hp
  have hp := List.mem_range.1 hp
  have hposition : rank * totalK + p < totalK * worldSize := by
    have hle : (rank + 1) * totalK ≤ worldSize * totalK := Nat.mul_le_mul_right totalK hrank
    rw [Nat.succ_mul] at hle
    rw [Nat.mul_comm totalK]
    omega
  congr 1
  apply List.map_congr_left
  intro r _
  have hhead : (gatheredHead worldSize (fun r => t (input r)) (i + j)).length = totalK * worldSize := by
    apply length_gatheredHead _ hrows
    intro r hr
    rw [hlength r hr]
    omega
  rw [blockGradient, List.map_map, getD_map_range _ hj]
  exact getD_bufferRows hposition hhead

/-! ## The loop -/

/-- What a rank has when the loop comes to a block. -/
structure BackwardInvariant (kernel : HeadKernel E L) (worldSize nheadsK headsKStride totalK group : Nat)
    (input : Nat → RankInput E) (dout out : Nat → Tensor E) (lse : Nat → Tensor L) (rank j : Nat)
    (s : Backward E) : Prop where
  pending : j * headsKStride < nheadsK → s.gather.pending = some (gatherHeads worldSize headsKStride input (j * headsKStride))
  lengthDq : s.dq.length = group * nheadsK
  lengthDk : s.dk.length = nheadsK
  lengthDv : s.dv.length = nheadsK
  dq : s.dq.take (j * headsKStride * group) = ((List.range (group * nheadsK)).map fun h =>
    (headBackward kernel worldSize group input dout out lse rank h).1).take (j * headsKStride * group)
  dk : s.dk.take (j * headsKStride) = (gradientRows worldSize nheadsK totalK group input
    (fun r h => (headBackward kernel worldSize group input dout out lse r h).2.1) rank).take (j * headsKStride)
  dv : s.dv.take (j * headsKStride) = (gradientRows worldSize nheadsK totalK group input
    (fun r h => (headBackward kernel worldSize group input dout out lse r h).2.2) rank).take (j * headsKStride)

theorem Uniform.backwardLocal_spec (h : Uniform worldSize nheadsK headsKStride totalK group input) (kernel : HeadKernel E L)
    (dout out : Nat → Tensor E) (lse : Nat → Tensor L) {rank i : Nat} (hrank : rank < worldSize)
    (hi : i + headsKStride ≤ nheadsK) {s : Backward E}
    (hpending : s.gather.pending = some (gatherHeads worldSize headsKStride input i)) :
    backwardLocal worldSize nheadsK headsKStride totalK input dout out lse kernel i rank s =
      ({ s with
          gather := advance worldSize nheadsK headsKStride input i s.gather
          dq := write (i * group) (slice (i * group) (i * group + headsKStride * group)
            ((List.range (group * nheadsK)).map fun h =>
            (headBackward kernel worldSize group input dout out lse rank h).1)) s.dq },
        (blockGradient worldSize group headsKStride i input RankInput.k
          (fun r m => (headBackward kernel worldSize group input dout out lse r m).2.1) rank).map
            (bufferRows (input rank).localKSliceStart (input rank).localKSliceStop (totalK * worldSize)),
        (blockGradient worldSize group headsKStride i input RankInput.v
          (fun r m => (headBackward kernel worldSize group input dout out lse r m).2.2) rank).map
            (bufferRows (input rank).localKSliceStart (input rank).localKSliceStop (totalK * worldSize))) := by
  have hfits : i * group + headsKStride * group ≤ group * nheadsK := by
    rw [← Nat.add_mul, Nat.mul_comm]
    exact Nat.mul_le_mul_left group hi
  obtain ⟨hbuffer, -⟩ := advance_spec worldSize nheadsK headsKStride input hpending i
  have hlo : i * (input rank).q.length / nheadsK = i * group := h.qSlice hrank i
  have hhi : (i + headsKStride) * (input rank).q.length / nheadsK = i * group + headsKStride * group := by
    rw [h.qSlice hrank, Nat.add_mul]
  have hblock := h.varlenBackward_block kernel dout out lse hrank hi
  rw [slice_range _ hfits]
  simp only [backwardLocal, headSlice, hlo, hhi, hbuffer, hblock]

theorem reduceScatter_congr {heads rank : Nat} {buffer buffer' : Nat → Tensor E}
    (h : ∀ r < worldSize, buffer r = buffer' r) :
    reduceScatter worldSize totalK heads buffer rank = reduceScatter worldSize totalK heads buffer' rank := by
  unfold reduceScatter
  apply List.map_congr_left
  intro j _
  apply List.map_congr_left
  intro p _
  congr 1
  apply List.map_congr_left
  intro r hr
  rw [h r (List.mem_range.1 hr)]

omit [AddCommMonoid E] in
/-- The heads of a block, copied into place; all heads at once take the place of the whole. -/
theorem setHeads_spec {lo : Nat} {block t target : Tensor E} (htarget : target.length = nheadsK)
    (hblock : block = slice lo (lo + headsKStride) target) (ht : t.length = nheadsK) (htake : t.take lo = target.take lo)
    (hfits : lo + headsKStride ≤ nheadsK) :
    (if headsKStride ≠ nheadsK then write lo block t else block).length = nheadsK ∧
      (if headsKStride ≠ nheadsK then write lo block t else block).take (lo + headsKStride) =
        target.take (lo + headsKStride) := by
  have hlength : block.length = headsKStride := by
    rw [hblock, length_slice]
    omega
  split
  · refine ⟨?_, take_write htake hblock (by omega) (by omega)⟩
    rw [length_write (by omega), ht]
  · rename_i hall
    have hall : headsKStride = nheadsK := not_not.1 hall
    have hlo : lo = 0 := by omega
    rw [hlo, Nat.zero_add] at hblock
    rw [hlo, Nat.zero_add, hblock, slice, List.drop_zero, List.take_take, Nat.min_self, List.length_take, htarget, hall,
      Nat.min_self]
    exact ⟨rfl, rfl⟩

theorem backwardStep_eq (s : Nat → Backward E) (i rank : Nat) :
    backwardStep worldSize nheadsK headsKStride totalK input dout out lse kernel s i rank =
      let locals := fun r => backwardLocal worldSize nheadsK headsKStride totalK input dout out lse kernel i r (s r)
      let dkI := reduceScatter worldSize totalK headsKStride (fun r => (locals r).2.1) rank
      let dvI := reduceScatter worldSize totalK headsKStride (fun r => (locals r).2.2) rank
      ⟨(locals rank).1.gather, (locals rank).1.dq, if headsKStride ≠ nheadsK then write i dkI (locals rank).1.dk else dkI,
        if headsKStride ≠ nheadsK then write i dvI (locals rank).1.dv else dvI⟩ := by
  unfold backwardStep
  split <;> simp [*]

theorem Uniform.backwardStep_spec (h : Uniform worldSize nheadsK headsKStride totalK group input) {j : Nat}
    (hj : j * headsKStride + headsKStride ≤ nheadsK) {s : Nat → Backward E} (hs : ∀ rank < worldSize,
      BackwardInvariant kernel worldSize nheadsK headsKStride totalK group input dout out lse rank j (s rank)) :
    ∀ rank < worldSize, BackwardInvariant kernel worldSize nheadsK headsKStride totalK group input dout out lse rank (j + 1)
      (backwardStep worldSize nheadsK headsKStride totalK input dout out lse kernel s (j * headsKStride) rank) := by
  intro rank hrank
  have hpos := h.headsKStride_pos
  have hlocal := fun r hr => h.backwardLocal_spec kernel dout out lse hr hj ((hs r hr).pending (by omega))
  have hnext := (advance_spec worldSize nheadsK headsKStride input ((hs rank hrank).pending (by omega)) (j * headsKStride)).2
  have hdk := reduceScatter_block group (fun r m => (headBackward kernel worldSize group input dout out lse r m).2.1)
    h.k h.kRows hrank hj
  have hdv := reduceScatter_block group (fun r m => (headBackward kernel worldSize group input dout out lse r m).2.2)
    h.v h.vRows hrank hj
  rw [← reduceScatter_congr fun r hr => congrArg (fun x => x.2.1) (hlocal r hr)] at hdk
  rw [← reduceScatter_congr fun r hr => congrArg (fun x => x.2.2) (hlocal r hr)] at hdv
  have hfits : j * headsKStride * group + headsKStride * group ≤ group * nheadsK := by
    rw [← Nat.add_mul, Nat.mul_comm]
    exact Nat.mul_le_mul_left group hj
  have hlengthDq : ((List.range (group * nheadsK)).map fun h =>
      (headBackward kernel worldSize group input dout out lse rank h).1).length = group * nheadsK := by
    rw [List.length_map, List.length_range]
  have hinvariant := hs rank hrank
  obtain ⟨hlengthDk, htakeDk⟩ := setHeads_spec (by simp [gradientRows]) hdk hinvariant.lengthDk hinvariant.dk hj
  obtain ⟨hlengthDv, htakeDv⟩ := setHeads_spec (by simp [gradientRows]) hdv hinvariant.lengthDv hinvariant.dv hj
  have hwidth : (j + 1) * headsKStride * group = j * headsKStride * group + headsKStride * group := by ring
  rw [backwardStep_eq]
  simp only [hlocal rank hrank]
  refine ⟨?_, ?_, hlengthDk, hlengthDv, ?_, ?_, ?_⟩
  · intro hlt
    rw [Nat.succ_mul] at hlt ⊢
    exact hnext hlt
  · rw [length_write, hinvariant.lengthDq]
    rw [length_slice, hlengthDq, hinvariant.lengthDq]
    omega
  · rw [hwidth]
    exact take_write hinvariant.dq rfl (by omega) (by rw [hinvariant.lengthDq, hlengthDq])
  · rw [Nat.succ_mul]
    exact htakeDk
  · rw [Nat.succ_mul]
    exact htakeDv

theorem Uniform.backwardLoop_spec (h : Uniform worldSize nheadsK headsKStride totalK group input) (kernel : HeadKernel E L)
    (dout out : Nat → Tensor E) (lse : Nat → Tensor L) (garbage : E) {n : Nat} (hn : n * headsKStride ≤ nheadsK) :
    ∀ rank < worldSize, BackwardInvariant kernel worldSize nheadsK headsKStride totalK group input dout out lse rank n
      (((List.range n).map (· * headsKStride)).foldl
        (backwardStep worldSize nheadsK headsKStride totalK input dout out lse kernel)
        (fun rank => ⟨startGather worldSize headsKStride totalK input garbage, emptyLike garbage (input rank).q,
          emptyLike garbage (input rank).k, emptyLike garbage (input rank).v⟩) rank) := by
  induction n with
  | zero =>
      intro rank hrank
      refine ⟨?_, ?_, ?_, ?_, ?_, ?_, ?_⟩
      · intro _
        rw [Nat.zero_mul]
        rfl
      · simpa [emptyLike] using h.q rank hrank
      · simpa [emptyLike] using h.k rank hrank
      · simpa [emptyLike] using h.v rank hrank
      · simp
      · simp
      · simp
  | succ n ih =>
      rw [Nat.succ_mul] at hn
      rw [List.range_succ, List.map_append, List.foldl_append]
      exact h.backwardStep_spec hn (ih (by omega))

/-- **Backward.** A rank gets the kernel's `dq`, and for its own positions all contributions to their gradients. -/
theorem Uniform.backwardLoop_eq (h : Uniform worldSize nheadsK headsKStride totalK group input) (kernel : HeadKernel E L)
    (dout out : Nat → Tensor E) (lse : Nat → Tensor L) (garbage : E) {rank : Nat} (hrank : rank < worldSize) :
    backwardLoop worldSize nheadsK headsKStride totalK input garbage dout out lse kernel rank =
      ((List.range (group * nheadsK)).map fun h => (headBackward kernel worldSize group input dout out lse rank h).1,
        gradientRows worldSize nheadsK totalK group input
          (fun r h => (headBackward kernel worldSize group input dout out lse r h).2.1) rank,
        gradientRows worldSize nheadsK totalK group input
          (fun r h => (headBackward kernel worldSize group input dout out lse r h).2.2) rank) := by
  obtain ⟨n, hn⟩ := h.divides
  rw [Nat.mul_comm] at hn
  have hstarts : blockStarts nheadsK headsKStride = (List.range n).map (· * headsKStride) := by
    rw [hn]
    exact blockStarts_eq h.headsKStride_pos n
  have hspec := h.backwardLoop_spec kernel dout out lse garbage (n := n) (by omega) rank hrank
  have hdq := hspec.dq
  have hdk := hspec.dk
  have hdv := hspec.dv
  rw [← hn] at hdq hdk hdv
  rw [List.take_of_length_le (by rw [hspec.lengthDq, Nat.mul_comm]), List.take_of_length_le (by simp [Nat.mul_comm])] at hdq
  rw [List.take_of_length_le (by rw [hspec.lengthDk]), List.take_of_length_le (by simp [gradientRows])] at hdk
  rw [List.take_of_length_le (by rw [hspec.lengthDv]), List.take_of_length_le (by simp [gradientRows])] at hdv
  rw [backwardLoop, hstarts]
  exact Prod.ext hdq (Prod.ext hdk hdv)

/-! ## Both passes -/

/-- The kernel's gradients for a query head, with what its own forward pass gave. -/
def headGradients (kernel : HeadKernel E L) (worldSize group : Nat) (input : Nat → RankInput E) (dout : Nat → Tensor E)
    (rank h : Nat) : List E × List E × List E :=
  kernel.backward ((dout rank).getD h []) ((input rank).q.getD h []) (localHead worldSize input RankInput.k rank (h / group))
    (localHead worldSize input RankInput.v rank (h / group)) (headForward kernel worldSize group input rank h).1
    (headForward kernel worldSize group input rank h).2

/-- Attention of every query head to its own kv head, on all ranks. -/
structure FullAttention (kernel : HeadKernel E L) (worldSize nheadsK totalK group : Nat) (input : Nat → RankInput E)
    (forward : Nat → Except PyException (Tensor E × Tensor L))
    (backward : (dout out : Nat → Tensor E) → (lse : Nat → Tensor L) → Nat → Tensor E × Tensor E × Tensor E) : Prop where
  out : ∀ rank < worldSize, forward rank =
    .ok ((List.range (group * nheadsK)).map fun h => (headForward kernel worldSize group input rank h).1,
      (List.range (group * nheadsK)).map fun h => (headForward kernel worldSize group input rank h).2)
  gradients : ∀ dout out lse, (∀ rank < worldSize, forward rank = .ok (out rank, lse rank)) → ∀ rank < worldSize,
    backward dout out lse rank =
      ((List.range (group * nheadsK)).map fun h => (headGradients kernel worldSize group input dout rank h).1,
        gradientRows worldSize nheadsK totalK group input
          (fun r h => (headGradients kernel worldSize group input dout r h).2.1) rank,
        gradientRows worldSize nheadsK totalK group input
          (fun r h => (headGradients kernel worldSize group input dout r h).2.2) rank)

theorem gradientRows_congr {column column' : Nat → Nat → List E} {rank : Nat}
    (h : ∀ r < worldSize, ∀ m < group * nheadsK, column r m = column' r m) :
    gradientRows worldSize nheadsK totalK group input column rank =
      gradientRows worldSize nheadsK totalK group input column' rank := by
  unfold gradientRows
  apply List.map_congr_left
  intro j hj
  apply List.map_congr_left
  intro p _
  congr 1
  apply List.map_congr_left
  intro r hr
  congr 1
  apply List.map_congr_left
  intro m hm
  have hle : (j + 1) * group ≤ nheadsK * group := Nat.mul_le_mul_right group (List.mem_range.1 hj)
  have hlt := List.mem_range.1 hm
  rw [Nat.succ_mul] at hle
  rw [h r (List.mem_range.1 hr) _ (by rw [Nat.mul_comm group]; omega)]

/-- The loops compute attention head by head. -/
theorem Uniform.fullAttention (h : Uniform worldSize nheadsK headsKStride totalK group input) (kernel : HeadKernel E L)
    (garbage garbage' : E) : FullAttention kernel worldSize nheadsK totalK group input
      (forwardLoop worldSize nheadsK headsKStride totalK input garbage kernel)
      (fun dout out lse => backwardLoop worldSize nheadsK headsKStride totalK input garbage' dout out lse kernel) := by
  have hforward : ∀ rank < worldSize, forwardLoop worldSize nheadsK headsKStride totalK input garbage kernel rank =
      .ok ((List.range (group * nheadsK)).map fun h => (headForward kernel worldSize group input rank h).1,
        (List.range (group * nheadsK)).map fun h => (headForward kernel worldSize group input rank h).2) := by
    intro rank hrank
    rw [h.forwardLoop_eq kernel hrank, headsForward, List.map_map, List.map_map]
    rfl
  refine ⟨hforward, ?_⟩
  intro dout out lse hsaved rank hrank
  have hheads : ∀ r < worldSize, ∀ m < group * nheadsK, headBackward kernel worldSize group input dout out lse r m =
      headGradients kernel worldSize group input dout r m := by
    intro r hr m hm
    obtain ⟨hout, hlse⟩ := Prod.mk.inj (Except.ok.inj ((hsaved r hr).symm.trans (hforward r hr)))
    rw [headBackward, headGradients, hout, hlse, getD_map_range _ hm, getD_map_range _ hm]
  have hdq : (List.range (group * nheadsK)).map (fun h => (headBackward kernel worldSize group input dout out lse rank h).1) =
      (List.range (group * nheadsK)).map fun h => (headGradients kernel worldSize group input dout rank h).1 := by
    apply List.map_congr_left
    intro m hm
    rw [hheads rank hrank m (List.mem_range.1 hm)]
  have hgradient : ∀ f : List E × List E × List E → List E, gradientRows worldSize nheadsK totalK group input
      (fun r h => f (headBackward kernel worldSize group input dout out lse r h)) rank = gradientRows worldSize nheadsK totalK
        group input (fun r h => f (headGradients kernel worldSize group input dout r h)) rank := by
    intro f
    apply gradientRows_congr
    intro r hr m hm
    rw [hheads r hr m hm]
  rw [h.backwardLoop_eq kernel dout out lse garbage' hrank, hdq, hgradient fun x => x.2.1, hgradient fun x => x.2.2]

end Loop

/-- **Main.** With either kernel, ring attention is attention head by head, forward and backward. -/
theorem Uniform.ringVarlen_fullAttention {worldSize nheadsK headsKStride totalK group : Nat} {input : Nat → RankInput E}
    (h : Uniform worldSize nheadsK headsKStride totalK group input) (args : VarlenArgs (Int × Int)) (garbage garbage' : E)
    (fa3 : Fa3 E L) (fa4 : Fa4 E L) :
    FullAttention (fa3 args) worldSize nheadsK totalK group input
        (ringFA3VarlenForward worldSize nheadsK headsKStride totalK input garbage args fa3)
        (fun dout out lse => ringFA3VarlenBackward worldSize nheadsK headsKStride totalK input garbage' args
          dout out lse fa3) ∧
      FullAttention (fa4 (fa4Window args)) worldSize nheadsK totalK group input
        (ringFA4VarlenForward worldSize nheadsK headsKStride totalK input garbage args fa4)
        (fun dout out lse => ringFA4VarlenBackward worldSize nheadsK headsKStride totalK input garbage' args
          dout out lse fa4) :=
  ⟨h.fullAttention (fa3 args) garbage garbage', h.fullAttention (fa4 (fa4Window args)) garbage garbage'⟩

/-- Two ranks with two kv heads of two query heads each, one position a rank. -/
def twoRanks (rank : Nat) : RankInput Int where
  q := [[1], [2], [3], [4]]
  k := [[rank], [5]]
  v := [[6], [rank]]
  localKSliceStart := 0
  localKSliceStop := rank + 1

theorem uniform_twoRanks : Uniform 2 2 1 1 2 twoRanks where
  pos := by decide
  divides := by decide
  q := by decide
  k := by decide
  v := by decide
  kRows := by decide
  vRows := by decide

def linearKernel : HeadKernel Int Int where
  forward q k v := (q.map (· * (k.sum + v.sum)), q)
  backward dout q k v _ _ := (dout.map (· * (k.sum + v.sum)), k.map fun _ => (dout.zipWith (· * ·) q).sum,
    v.map fun _ => (dout.zipWith (· * ·) q).sum)

theorem ringVarlen_twoRanks : FullAttention linearKernel 2 2 1 2 twoRanks
      (ringFA3VarlenForward 2 2 1 1 twoRanks 7 ⟨[0, 1], [0, 1], 1, 1, 1, true, (-1, -1)⟩ fun _ => linearKernel)
      (fun dout out lse => ringFA3VarlenBackward 2 2 1 1 twoRanks 7 ⟨[0, 1], [0, 1], 1, 1, 1, true, (-1, -1)⟩ dout out lse
        fun _ => linearKernel) :=
  (uniform_twoRanks.ringVarlen_fullAttention ⟨[0, 1], [0, 1], 1, 1, 1, true, (-1, -1)⟩ 7 7 (fun _ => linearKernel)
    fun _ => linearKernel).1

end AuroraRl.Trainer.Ring
