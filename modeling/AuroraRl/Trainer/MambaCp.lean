import AuroraRl.Trainer.Ulysses
import Mathlib

/-!
# Mamba under context parallelism

* `allToAllSeqToHead`, `allToAllHeadToSeq` : the two exchanges, with their batch dimension;
* `Mixer`, `Kernels`, `ssmOperator` : convolution, scan and gated norm over a full sequence, head by head;
* `localParams`, `convIndices` : the parameters of the heads of a rank;
* `mambaCpForward`, `mambaForward` : with and without context parallelism;
* `mambaCpForward_eq` : every rank gets its positions of the layer over the full sequence;
* `contextParallel_eq` : so it is for both, attention and Mamba.
-/

namespace AuroraRl.Trainer.Mamba

/-! ## The exchanges -/

/-- An entry for every rank, batch element, position and channel. -/
abbrev Sharded (α : Type) := Nat → Nat → Nat → Nat → α

/-- `x.reshape(shape)`, or `view`, of a tensor with `numel` elements. -/
def checkReshape (shape : List Nat) (numel : Nat) : Except PyException Unit :=
  if shape.prod = numel then .ok ()
  else .error ⟨.runtimeError, "shape '" ++ toString shape ++ "' is invalid for input of size " ++ toString numel⟩

/-- `_all_to_all_seq_to_head`, on all ranks. -/
def allToAllSeqToHead {α : Type} (cpSize batch sLocal d : Nat) (x : Sharded α) : Except PyException (Sharded α) := do
  let dLocal := d / cpSize
  checkReshape [batch, sLocal, cpSize, dLocal] (batch * sLocal * d)
  let chunks := fun rank chunk b s y => x rank b s (chunk * dLocal + y)
  let output := allToAllSingle chunks
  .ok fun rank b p y => output rank (p / sLocal) b (p % sLocal) y

/-- `_all_to_all_head_to_seq`, on all ranks. -/
def allToAllHeadToSeq {α : Type} (cpSize batch sGlobal dLocal : Nat) (x : Sharded α) : Except PyException (Sharded α) := do
  let sLocal := sGlobal / cpSize
  checkReshape [batch, cpSize, sLocal, dLocal] (batch * sGlobal * dLocal)
  let chunks := fun rank chunk b s y => x rank b (chunk * sLocal + s) y
  let output := allToAllSingle chunks
  .ok fun rank b s y => output rank (y / dLocal) b s (y % dLocal)

theorem checkReshape_eq_ok {shape : List Nat} {numel : Nat} (h : shape.prod = numel) :
    checkReshape shape numel = .ok () := if_pos h

/-- After the first exchange a rank has the full sequence for its channels. -/
theorem allToAllSeqToHead_eq {α : Type} {cpSize d : Nat} (hdvd : cpSize ∣ d) (batch sLocal : Nat) (x : Sharded α) :
    allToAllSeqToHead cpSize batch sLocal d x = .ok fun rank b p y =>
      x (p / sLocal) b (p % sLocal) (rank * (d / cpSize) + y) := by
  have hprod : [batch, sLocal, cpSize, d / cpSize].prod = batch * sLocal * d := by
    simp only [List.prod_cons, List.prod_nil, mul_one]
    rw [Nat.mul_div_cancel' hdvd, Nat.mul_assoc]
  unfold allToAllSeqToHead
  dsimp only
  rw [checkReshape_eq_ok hprod]
  rfl

/-- The second exchange gives a rank its positions for all channels. -/
theorem allToAllHeadToSeq_eq {α : Type} {cpSize : Nat} (hpos : 0 < cpSize) (batch sLocal dLocal : Nat) (x : Sharded α) :
    allToAllHeadToSeq cpSize batch (cpSize * sLocal) dLocal x =
      .ok fun rank b s y => x (y / dLocal) b (rank * sLocal + s) (y % dLocal) := by
  have hprod : [batch, cpSize, sLocal, dLocal].prod = batch * (cpSize * sLocal) * dLocal := by
    simp only [List.prod_cons, List.prod_nil, mul_one]
    ring
  unfold allToAllHeadToSeq
  dsimp only
  rw [Nat.mul_div_cancel_left _ hpos, checkReshape_eq_ok hprod]
  rfl

/-! ## The layer -/

section

variable {R X Y : Type} [Field R]

/-- What the scan of one head reads: its own channels, time steps and parameters, and the states of its group. -/
structure HeadInput (R : Type) (s headDim stateSize : Nat) where
  x : Fin s → Fin headDim → R
  dt : Fin s → R
  a : R
  b : Fin s → Fin stateSize → R
  c : Fin s → Fin stateSize → R
  d : R
  dtBias : R

/-- The functions of the layer; `scan` is what `mamba_chunk_scan_combined` computes for one head. -/
structure Kernels (R : Type) where
  exp : R → R
  silu : R → R
  rsqrt : R → R
  scan : {s headDim stateSize : Nat} → HeadInput R s headDim stateSize → Fin s → Fin headDim → R

/-- The mixer of a layer. -/
structure Mixer (R X Y : Type) where
  numHeads : Nat
  headDim : Nat
  nGroups : Nat
  ssmStateSize : Nat
  convKernel : Nat
  inProj : X → Nat → R
  outProj : (Fin (numHeads * headDim) → R) → Y
  aLog : Nat → R
  d : Nat → R
  dtBias : Nat → R
  convWeight : Nat → Nat → R
  convBias : Option (Nat → R)
  normWeight : Nat → R
  varianceEpsilon : R
  groupSize : Nat

namespace Mixer

variable (m : Mixer R X Y)

def intermediateSize : Nat := m.numHeads * m.headDim

def groupsTimeStateSize : Nat := m.nGroups * m.ssmStateSize

def convDim : Nat := m.intermediateSize + 2 * m.groupsTimeStateSize

end Mixer

/-- The parameters of the heads that are computed. -/
structure SsmParams (R : Type) where
  numHeads : Nat
  nGroups : Nat
  a : Nat → R
  d : Nat → R
  dtBias : Nat → R
  convWeight : Nat → Nat → R
  convBias : Option (Nat → R)
  normWeight : Nat → R

variable (kernels : Kernels R) (m : Mixer R X Y)

/-- `conv1d` on one channel, padded by `kernel - 1` and cut to the sequence. -/
def conv1d (kernel : Nat) (weight : Nat → R) (bias : Option R) (x : Nat → R) (p : Nat) : R :=
  (∑ k ∈ Finset.range kernel, weight k * if kernel - 1 ≤ p + k then x (p + k - (kernel - 1)) else 0) + bias.getD 0

/-- `mamba_chunk_scan_combined`: head `h` has the states of group `h // (nheads // ngroups)`. -/
def mambaChunkScanCombined (s numHeads headDim nGroups stateSize : Nat) (x dt : Nat → Nat → R) (a : Nat → R)
    (b c : Nat → Nat → R) (d dtBias : Nat → R) (p ch : Nat) : R :=
  let h := ch / headDim
  let g := h / (numHeads / nGroups)
  if hp : p < s then
    if hd : 0 < headDim then
      @Kernels.scan R kernels s headDim stateSize
        ⟨fun p i => x p (h * headDim + i), fun p => dt p h, a h, fun p i => b p (g * stateSize + i),
          fun p i => c p (g * stateSize + i), d h, dtBias h⟩ ⟨p, hp⟩ ⟨ch % headDim, Nat.mod_lt _ hd⟩
    else 0
  else 0

/-- `_gated_rms_norm`, without its `view`. -/
def gatedRmsNorm (x gate : Nat → Nat → R) (weight : Nat → R) (eps : R) (groupSize p ch : Nat) : R :=
  let x := fun ch => x p ch * kernels.silu (gate p ch)
  let variance := fun g => (∑ i ∈ Finset.range groupSize, x (g * groupSize + i) ^ 2) / (groupSize : R)
  weight ch * (x ch * kernels.rsqrt (variance (ch / groupSize) + eps))

/-- The convolution, channel by channel. -/
def convolve (params : SsmParams R) (hiddenStatesBC : Nat → Nat → R) (p ch : Nat) : R :=
  kernels.silu (conv1d m.convKernel (params.convWeight ch) (params.convBias.map (· ch)) (fun p => hiddenStatesBC p ch) p)

/-- Convolution, scan and norm over a full sequence, for the heads of the parameters. -/
def ssmOperator (params : SsmParams R) (s : Nat) (gate timeStep hiddenStatesBC : Nat → Nat → R) : Nat → Nat → R :=
  let intermediateSize := params.numHeads * m.headDim
  let groupsTimeStateSize := params.nGroups * m.ssmStateSize
  let convolved := convolve kernels m params hiddenStatesBC
  let b := fun p ch => convolved p (intermediateSize + ch)
  let c := fun p ch => convolved p (intermediateSize + groupsTimeStateSize + ch)
  let scanOutput := mambaChunkScanCombined kernels s params.numHeads m.headDim params.nGroups m.ssmStateSize
    convolved timeStep params.a b c params.d params.dtBias
  gatedRmsNorm kernels scanOutput gate params.normWeight m.varianceEpsilon m.groupSize

def fullParams : SsmParams R where
  numHeads := m.numHeads
  nGroups := m.nGroups
  a := fun h => -kernels.exp (m.aLog h)
  d := m.d
  dtBias := m.dtBias
  convWeight := m.convWeight
  convBias := m.convBias
  normWeight := m.normWeight

/-- The layer over a full sequence. -/
def mambaForward (batch s : Nat) (hiddenStates : Nat → Nat → X) : Except PyException (Nat → Nat → Y) := do
  let projected := fun b p => m.inProj (hiddenStates b p)
  let gate := fun b p ch => projected b p ch
  let hiddenStatesBC := fun b p ch => projected b p (m.intermediateSize + ch)
  let timeStep := fun b p ch => projected b p (m.intermediateSize + m.convDim + ch)
  checkReshape [batch, s, m.intermediateSize / m.groupSize, m.groupSize] (batch * s * m.intermediateSize)
  .ok fun b p => m.outProj fun ch => ssmOperator kernels m (fullParams kernels m) s (gate b) (timeStep b)
    (hiddenStatesBC b) p ch

variable (cpSize : Nat)

/-- `torch.cat([x_part, B_part, C_part], dim=-1)`. -/
def cat3 {α : Type} (first second : Nat) (x b c : Nat → α) (ch : Nat) : α :=
  if ch < first then x ch else if ch < first + second then b (ch - first) else c (ch - first - second)

def localNumHeads : Nat := m.numHeads / cpSize

def localNGroups : Nat := m.nGroups / cpSize

def localIntermediateSize : Nat := localNumHeads m cpSize * m.headDim

def convIndices (rank : Nat) : Nat → Nat :=
  let localStates := localNGroups m cpSize * m.ssmStateSize
  cat3 (localIntermediateSize m cpSize) localStates
    (fun ch => rank * localIntermediateSize m cpSize + ch)
    (fun ch => m.intermediateSize + rank * localNGroups m cpSize * m.ssmStateSize + ch)
    (fun ch => m.intermediateSize + m.groupsTimeStateSize + rank * localNGroups m cpSize * m.ssmStateSize + ch)

def localParams (rank : Nat) : SsmParams R :=
  let headStart := rank * localNumHeads m cpSize
  { numHeads := localNumHeads m cpSize
    nGroups := localNGroups m cpSize
    a := fun h => -kernels.exp (m.aLog (headStart + h))
    d := fun h => m.d (headStart + h)
    dtBias := fun h => m.dtBias (headStart + h)
    convWeight := fun ch => m.convWeight (convIndices m cpSize rank ch)
    convBias := m.convBias.map fun bias ch => bias (convIndices m cpSize rank ch)
    normWeight := fun ch => m.normWeight (rank * localIntermediateSize m cpSize + ch) }

/-- `mamba_cp_forward`, on all ranks. -/
def mambaCpForward (batch sLocal : Nat) (hiddenStates : Nat → Nat → Nat → X) : Except PyException (Nat → Nat → Nat → Y) := do
  let projected := fun rank b s => m.inProj (hiddenStates rank b s)
  let gate := fun rank b s ch => projected rank b s ch
  let hiddenStatesBC := fun rank b s ch => projected rank b s (m.intermediateSize + ch)
  let timeStep := fun rank b s ch => projected rank b s (m.intermediateSize + m.convDim + ch)
  let gate ← allToAllSeqToHead cpSize batch sLocal m.intermediateSize gate
  let timeStep ← allToAllSeqToHead cpSize batch sLocal m.numHeads timeStep
  let xPart := fun rank b s ch => hiddenStatesBC rank b s ch
  let bPart := fun rank b s ch => hiddenStatesBC rank b s (m.intermediateSize + ch)
  let cPart := fun rank b s ch => hiddenStatesBC rank b s (m.intermediateSize + m.groupsTimeStateSize + ch)
  let xPart ← allToAllSeqToHead cpSize batch sLocal m.intermediateSize xPart
  let bPart ← allToAllSeqToHead cpSize batch sLocal m.groupsTimeStateSize bPart
  let cPart ← allToAllSeqToHead cpSize batch sLocal m.groupsTimeStateSize cPart
  let fullSeqLen := cpSize * sLocal
  let hiddenStatesBC := fun rank b p => cat3 (m.intermediateSize / cpSize) (m.groupsTimeStateSize / cpSize)
    (xPart rank b p) (bPart rank b p) (cPart rank b p)
  let localSize := localIntermediateSize m cpSize
  checkReshape [batch, fullSeqLen, localSize / m.groupSize, m.groupSize] (batch * fullSeqLen * localSize)
  let scanOutput := fun rank b => ssmOperator kernels m (localParams kernels m cpSize rank) fullSeqLen
    (gate rank b) (timeStep rank b) (hiddenStatesBC rank b)
  let scanOutput ← allToAllHeadToSeq cpSize batch fullSeqLen localSize scanOutput
  .ok fun rank b s => m.outProj fun ch => scanOutput rank b s ch

/-! ## The heads of a rank -/

/-- Every rank has the same number of state groups and of norm groups, and every state group as many heads. -/
structure Splits {R X Y : Type} (m : Mixer R X Y) (cpSize : Nat) : Prop where
  cpSize_pos : 0 < cpSize
  nGroups : cpSize ∣ m.nGroups
  numHeads : m.nGroups ∣ m.numHeads
  normGroups : cpSize * m.groupSize ∣ m.intermediateSize

variable {kernels m cpSize}

/-- The scan of a head of a rank is that of the head in the full layer, with its group and its parameters. -/
theorem mambaChunkScanCombined_local {s nh ng lh lg q headDim stateSize rank n : Nat} (hn : 0 < n)
    (hnh : nh = n * lh) (hng : ng = n * lg)
    (hheads : lh = lg * q)
    {x x' dt dt' b b' c c' : Nat → Nat → R} {a a' d d' bias bias' : Nat → R}
    (hx : ∀ p ch, ch < lh * headDim → x' p ch = x p (rank * (lh * headDim) + ch))
    (hdt : ∀ p h, dt' p h = dt p (rank * lh + h))
    (ha : ∀ h, a' h = a (rank * lh + h)) (hd : ∀ h, d' h = d (rank * lh + h)) (hbias : ∀ h, bias' h = bias (rank * lh + h))
    (hb : ∀ p ch, ch < lg * stateSize → b' p ch = b p (rank * (lg * stateSize) + ch))
    (hc : ∀ p ch, ch < lg * stateSize → c' p ch = c p (rank * (lg * stateSize) + ch)) {p ch : Nat} (hch : ch < lh * headDim) :
    mambaChunkScanCombined kernels s lh headDim lg stateSize x' dt' a' b' c' d' bias' p ch =
      mambaChunkScanCombined kernels s nh headDim ng stateSize x dt a b c d bias p (rank * (lh * headDim) + ch) := by
  have hpos : 0 < headDim := Nat.pos_of_mul_pos_left (Nat.zero_lt_of_lt hch)
  have hlt : ch / headDim < lh := (Nat.div_lt_iff_lt_mul hpos).2 hch
  have hq : 0 < q := by
    rw [hheads] at hlt
    exact Nat.pos_of_mul_pos_left (Nat.zero_lt_of_lt hlt)
  have hlg : 0 < lg := by
    rw [hheads] at hlt
    exact Nat.pos_of_mul_pos_right (Nat.zero_lt_of_lt hlt)
  have hsplit : rank * (lh * headDim) + ch = headDim * (rank * lh) + ch := by ring
  have hhead : (rank * (lh * headDim) + ch) / headDim = rank * lh + ch / headDim := by rw [hsplit, Nat.mul_add_div hpos]
  have hchannel : (rank * (lh * headDim) + ch) % headDim = ch % headDim := by rw [hsplit, Nat.mul_add_mod]
  have hratio : lh / lg = q := by rw [hheads, Nat.mul_div_cancel_left _ hlg]
  have hratioFull : nh / ng = q := by rw [hnh, hng, Nat.mul_div_mul_left _ _ hn, hratio]
  have hgroup : (rank * lh + ch / headDim) / q = rank * lg + ch / headDim / q := by
    have hregroup : rank * lh + ch / headDim = q * (rank * lg) + ch / headDim := by
      rw [hheads]
      ring
    rw [hregroup, Nat.mul_add_div hq]
  have hgroupLt : ch / headDim / q < lg := by
    rw [Nat.div_lt_iff_lt_mul hq, ← hheads]
    exact hlt
  have hin : ∀ {k size i total : Nat}, k < total → i < size → k * size + i < total * size := by
    intro k size i total hk hi
    calc k * size + i < k * size + size := by omega
      _ = (k + 1) * size := by ring
      _ ≤ total * size := Nat.mul_le_mul_right _ hk
  simp only [mambaChunkScanCombined, hhead, hchannel, hratio, hratioFull, hgroup, dif_pos hpos]
  by_cases hp : p < s
  · rw [dif_pos hp, dif_pos hp]
    congr 1
    congr 1
    · funext p i
      rw [hx _ _ (hin hlt i.isLt)]
      congr 1
      ring
    · funext p
      exact hdt _ _
    · exact ha _
    · funext p i
      rw [hb _ _ (hin hgroupLt i.isLt)]
      congr 1
      ring
    · funext p i
      rw [hc _ _ (hin hgroupLt i.isLt)]
      congr 1
      ring
    · exact hd _
    · exact hbias _
  · rw [dif_neg hp, dif_neg hp]

/-- The norm groups of a rank are norm groups of the full layer. -/
theorem gatedRmsNorm_local {size base : Nat} {x x' gate gate' : Nat → Nat → R} {weight weight' : Nat → R} {groupSize : Nat}
    (hsize : groupSize ∣ size) (hbase : groupSize ∣ base) (hx : ∀ p ch, ch < size → x' p ch = x p (base + ch))
    (hgate : ∀ p ch, gate' p ch = gate p (base + ch)) (hweight : ∀ ch, weight' ch = weight (base + ch)) (eps : R) {p ch : Nat}
    (hch : ch < size) :
    gatedRmsNorm kernels x' gate' weight' eps groupSize p ch = gatedRmsNorm kernels x gate weight eps groupSize
      p (base + ch) := by
  obtain ⟨k, rfl⟩ := hsize
  obtain ⟨l, rfl⟩ := hbase
  have hpos : 0 < groupSize := Nat.pos_of_mul_pos_right (Nat.zero_lt_of_lt hch)
  have hgroup : (groupSize * l + ch) / groupSize = l + ch / groupSize := Nat.mul_add_div hpos l ch
  have hlt : ch / groupSize < k := by
    rw [Nat.div_lt_iff_lt_mul hpos, Nat.mul_comm]
    exact hch
  have hsum : ∀ i ∈ Finset.range groupSize, (x' p (ch / groupSize * groupSize + i) * kernels.silu
      (gate' p (ch / groupSize * groupSize + i))) ^ 2 =
      (x p ((l + ch / groupSize) * groupSize + i) * kernels.silu (gate p ((l + ch / groupSize) * groupSize + i))) ^ 2 := by
    intro i hi
    have hi := Finset.mem_range.1 hi
    have hin : ch / groupSize * groupSize + i < groupSize * k := by
      calc ch / groupSize * groupSize + i < ch / groupSize * groupSize + groupSize := by omega
        _ = (ch / groupSize + 1) * groupSize := by ring
        _ ≤ k * groupSize := Nat.mul_le_mul_right _ hlt
        _ = groupSize * k := Nat.mul_comm _ _
    have hindex : groupSize * l + (ch / groupSize * groupSize + i) = (l + ch / groupSize) * groupSize + i := by ring
    rw [hx p _ hin, hgate, hindex]
  simp only [gatedRmsNorm]
  rw [Finset.sum_congr rfl hsum, hgroup, hx p ch hch, hgate, hweight]

theorem apply_cat3 {α β : Type} (f : α → β) (first second : Nat) (x b c : Nat → α) (ch : Nat) :
    f (cat3 first second x b c ch) = cat3 first second (fun ch => f (x ch)) (fun ch => f (b ch)) (fun ch => f (c ch)) ch := by
  unfold cat3
  split
  · rfl
  · split <;> rfl

omit [Field R] in
/-- The heads of a rank, their groups and their channels add up. -/
theorem Splits.numHeads_eq (h : Splits m cpSize) : m.numHeads = cpSize * localNumHeads m cpSize :=
  (Nat.mul_div_cancel' (h.nGroups.trans h.numHeads)).symm

omit [Field R] in
theorem Splits.nGroups_eq (h : Splits m cpSize) : m.nGroups = cpSize * localNGroups m cpSize :=
  (Nat.mul_div_cancel' h.nGroups).symm

omit [Field R] in
theorem Splits.intermediateSize_eq (h : Splits m cpSize) : m.intermediateSize = cpSize * localIntermediateSize m cpSize := by
  rw [Mixer.intermediateSize, localIntermediateSize, h.numHeads_eq, Nat.mul_assoc]

omit [Field R] in
theorem Splits.localNumHeads_eq (h : Splits m cpSize) :
    localNumHeads m cpSize = localNGroups m cpSize * (m.numHeads / m.nGroups) := by
  obtain ⟨q, hq⟩ := h.numHeads
  obtain ⟨l, hl⟩ := h.nGroups
  rw [localNumHeads, localNGroups, hq, hl, Nat.mul_assoc, Nat.mul_div_cancel_left _ h.cpSize_pos,
    Nat.mul_div_cancel_left _ h.cpSize_pos]
  rcases Nat.eq_zero_or_pos l with rfl | hpos
  · simp
  · rw [← Nat.mul_assoc, Nat.mul_div_cancel_left _ (Nat.mul_pos h.cpSize_pos hpos)]

omit [Field R] in
theorem Splits.groupSize_dvd (h : Splits m cpSize) : m.groupSize ∣ localIntermediateSize m cpSize := by
  have hnorm := h.normGroups
  rw [h.intermediateSize_eq] at hnorm
  exact Nat.dvd_of_mul_dvd_mul_left h.cpSize_pos hnorm

/-- A channel of a rank has the weights of its channel in the full layer. -/
theorem convolve_local (rank : Nat) (hiddenStatesBC : Nat → Nat → R) (p ch : Nat) :
    convolve kernels m (localParams kernels m cpSize rank)
      (fun p ch => hiddenStatesBC p (convIndices m cpSize rank ch)) p ch =
      convolve kernels m (fullParams kernels m) hiddenStatesBC p (convIndices m cpSize rank ch) := by
  have hbias : (m.convBias.map fun bias ch => bias (convIndices m cpSize rank ch)).map (· ch) =
      m.convBias.map (· (convIndices m cpSize rank ch)) := by
    rw [Option.map_map]
    rfl
  simp only [convolve, localParams, fullParams, hbias]

theorem ssmOperator_congr {params : SsmParams R} {s : Nat} {gate gate' timeStep x x' : Nat → Nat → R}
    (hgate : ∀ p ch, gate p ch = gate' p ch) (hx : ∀ p, x p = x' p) (p ch : Nat) :
    ssmOperator kernels m params s gate timeStep x p ch = ssmOperator kernels m params s gate' timeStep x' p ch := by
  rw [funext₂ hgate, funext hx]

/-- **One rank.** The operator on the heads of a rank gives the channels of these heads. -/
theorem ssmOperator_local (h : Splits m cpSize) (rank s : Nat) (gate timeStep hiddenStatesBC : Nat → Nat → R) {p ch : Nat}
    (hch : ch < localIntermediateSize m cpSize) :
    ssmOperator kernels m (localParams kernels m cpSize rank) s
      (fun p ch => gate p (rank * localIntermediateSize m cpSize + ch))
      (fun p head => timeStep p (rank * localNumHeads m cpSize + head))
      (fun p ch => hiddenStatesBC p (convIndices m cpSize rank ch)) p ch =
    ssmOperator kernels m (fullParams kernels m) s gate timeStep hiddenStatesBC p
      (rank * localIntermediateSize m cpSize + ch) := by
  apply gatedRmsNorm_local h.groupSize_dvd (dvd_mul_of_dvd_right h.groupSize_dvd rank) _ (fun _ _ => rfl) (fun _ => rfl) _ hch
  intro p ch hch
  refine mambaChunkScanCombined_local h.cpSize_pos h.numHeads_eq h.nGroups_eq h.localNumHeads_eq ?_ ?_ ?_ ?_ ?_ ?_ ?_ hch
  · intro p ch hlt
    have hin : ch < localIntermediateSize m cpSize := hlt
    rw [convolve_local, convIndices, cat3, if_pos hin]
    rfl
  · exact fun _ _ => rfl
  · exact fun _ => rfl
  · exact fun _ => rfl
  · exact fun _ => rfl
  · intro p ch hlt
    have hin : localIntermediateSize m cpSize + ch <
        localIntermediateSize m cpSize + localNGroups m cpSize * m.ssmStateSize := by omega
    show convolve kernels m _ _ p (localIntermediateSize m cpSize + ch) = _
    rw [convolve_local, convIndices, cat3, if_neg (by omega), if_pos hin, Nat.add_sub_cancel_left,
      Nat.mul_assoc, Nat.add_assoc]
    rfl
  · intro p ch hlt
    show convolve kernels m _ _ p (localIntermediateSize m cpSize + localNGroups m cpSize * m.ssmStateSize + ch) = _
    rw [convolve_local, convIndices, cat3, if_neg (by omega), if_neg (by omega)]
    have hsub : localIntermediateSize m cpSize + localNGroups m cpSize * m.ssmStateSize + ch -
        localIntermediateSize m cpSize -
        localNGroups m cpSize * m.ssmStateSize = ch := by omega
    rw [hsub, Nat.mul_assoc, Nat.add_assoc (m.intermediateSize + _)]
    rfl

omit [Field R] in
theorem Splits.intermediateSize_div (h : Splits m cpSize) : m.intermediateSize / cpSize = localIntermediateSize m cpSize := by
  rw [h.intermediateSize_eq, Nat.mul_div_cancel_left _ h.cpSize_pos]

omit [Field R] in
theorem Splits.groupsTimeStateSize_div (h : Splits m cpSize) :
    m.groupsTimeStateSize / cpSize = localNGroups m cpSize * m.ssmStateSize := by
  rw [Mixer.groupsTimeStateSize, h.nGroups_eq, Nat.mul_assoc, Nat.mul_div_cancel_left _ h.cpSize_pos]

theorem prod_view {groupSize size : Nat} (hdvd : groupSize ∣ size) (batch s : Nat) :
    [batch, s, size / groupSize, groupSize].prod = batch * s * size := by
  simp only [List.prod_cons, List.prod_nil, mul_one]
  rw [Nat.div_mul_cancel hdvd, Nat.mul_assoc]

omit [Field R] in
/-- The three parts that a rank puts together are its channels of the full layer. -/
theorem cat3_local (h : Splits m cpSize) (rank : Nat) (f : Nat → R) :
    cat3 (m.intermediateSize / cpSize) (m.groupsTimeStateSize / cpSize)
      (fun ch => f (rank * (m.intermediateSize / cpSize) + ch))
      (fun ch => f (m.intermediateSize + (rank * (m.groupsTimeStateSize / cpSize) + ch)))
      (fun ch => f (m.intermediateSize + m.groupsTimeStateSize + (rank * (m.groupsTimeStateSize / cpSize) + ch))) =
    fun ch => f (convIndices m cpSize rank ch) := by
  funext ch
  rw [convIndices, apply_cat3 f, h.intermediateSize_div, h.groupsTimeStateSize_div]
  simp only [Nat.mul_assoc, Nat.add_assoc]

/-- **Mamba.** Every rank gets its positions of the layer over the full sequence. -/
theorem mambaCpForward_eq (h : Splits m cpSize) (batch sLocal : Nat) (hiddenStates : Nat → Nat → Nat → X) :
    ∃ full, mambaForward kernels m batch (cpSize * sLocal) (fun b p => hiddenStates (p / sLocal) b (p % sLocal)) = .ok full ∧
      mambaCpForward kernels m cpSize batch sLocal hiddenStates = .ok fun rank b s => full b (rank * sLocal + s) := by
  have hintermediate : cpSize ∣ m.intermediateSize := ⟨_, h.intermediateSize_eq⟩
  have hstates : cpSize ∣ m.groupsTimeStateSize := h.nGroups.mul_right m.ssmStateSize
  have hdvd : m.groupSize ∣ m.intermediateSize := h.intermediateSize_eq ▸ h.groupSize_dvd.mul_left cpSize
  refine ⟨fun b p => m.outProj fun ch => ssmOperator kernels m (fullParams kernels m) (cpSize * sLocal)
    (fun p ch => m.inProj (hiddenStates (p / sLocal) b (p % sLocal)) ch)
    (fun p ch => m.inProj (hiddenStates (p / sLocal) b (p % sLocal)) (m.intermediateSize + m.convDim + ch))
    (fun p ch => m.inProj (hiddenStates (p / sLocal) b (p % sLocal)) (m.intermediateSize + ch)) p ch, ?_, ?_⟩
  · unfold mambaForward
    dsimp only
    rw [checkReshape_eq_ok (prod_view hdvd _ _), ok_bind]
  · unfold mambaCpForward
    dsimp only
    rw [allToAllSeqToHead_eq hintermediate, ok_bind, allToAllSeqToHead_eq (h.nGroups.trans h.numHeads), ok_bind,
      allToAllSeqToHead_eq hintermediate, ok_bind, allToAllSeqToHead_eq hstates, ok_bind,
        allToAllSeqToHead_eq hstates, ok_bind,
      checkReshape_eq_ok (prod_view h.groupSize_dvd _ _), ok_bind, allToAllHeadToSeq_eq h.cpSize_pos, ok_bind]
    congr 1
    funext rank b s
    congr 1
    funext ch
    have hpos : 0 < localIntermediateSize m cpSize := by
      have hlt := Nat.zero_lt_of_lt ch.isLt
      have heq : m.numHeads * m.headDim = _ := h.intermediateSize_eq
      rw [heq] at hlt
      exact Nat.pos_of_mul_pos_left hlt
    have hlocal := @ssmOperator_local R X Y _ kernels m cpSize h (ch / localIntermediateSize m cpSize) (cpSize * sLocal)
      (fun p ch => m.inProj (hiddenStates (p / sLocal) b (p % sLocal)) ch)
      (fun p ch => m.inProj (hiddenStates (p / sLocal) b (p % sLocal)) (m.intermediateSize + m.convDim + ch))
      (fun p ch => m.inProj (hiddenStates (p / sLocal) b (p % sLocal)) (m.intermediateSize + ch))
      (rank * sLocal + s) _ (Nat.mod_lt ch hpos)
    rw [Nat.div_add_mod'] at hlocal
    refine (ssmOperator_congr (fun p y => ?_) (fun p => ?_) _ _).trans hlocal
    · rw [h.intermediateSize_div]
    · exact cat3_local h _ fun y => m.inProj (hiddenStates (p / sLocal) b (p % sLocal)) (m.intermediateSize + y)

variable (kernels) in
/-- **Main.** Attention, or any operator that acts head by head, and Mamba, under context parallelism. -/
theorem contextParallel_eq (shape : AttentionShape) {Q K V O : Type} (hpos : 0 < shape.cpSize)
    (hdvd : shape.cpSize ∣ shape.numKeyValueHeads) (hgrouped : shape.numKeyValueHeads ∣ shape.numHeads)
    (h : Splits m cpSize) :
    (∀ (op : List Q → List K → List V → Nat → O) (q : Trainer.Sharded Q) (k : Trainer.Sharded K) (v : Trainer.Sharded V),
      ulyssesHeadByHead op shape q k v = .ok fun rank s y =>
        groupedHeads op (shape.cpSize * shape.sLocal) shape.numHeads shape.numKeyValueHeads
          (unsharded shape.sLocal q) (unsharded shape.sLocal k) (unsharded shape.sLocal v) (rank * shape.sLocal + s) y) ∧
    ∀ batch sLocal (hiddenStates : Nat → Nat → Nat → X),
      ∃ full, mambaForward kernels m batch (cpSize * sLocal)
        (fun b p => hiddenStates (p / sLocal) b (p % sLocal)) = .ok full ∧
        mambaCpForward kernels m cpSize batch sLocal hiddenStates = .ok fun rank b s => full b (rank * sLocal + s) :=
  ⟨ulyssesHeadByHead_eq hpos hdvd hgrouped, mambaCpForward_eq h⟩

end

/-- Two heads with a group and a norm group each. -/
def exampleMixer : Mixer Rat (Nat → Rat) (List Rat) where
  numHeads := 2
  headDim := 1
  nGroups := 2
  ssmStateSize := 1
  convKernel := 2
  inProj := fun x => x
  outProj := List.ofFn
  aLog := fun h => h
  d := fun h => h + 1
  dtBias := fun _ => 0
  convWeight := fun ch _ => ch + 1
  convBias := none
  normWeight := fun ch => ch + 1
  varianceEpsilon := 1
  groupSize := 1

/-- A scan that sums up what it reads. -/
def exampleKernels : Kernels Rat where
  exp := fun x => x
  silu := fun x => x
  rsqrt := fun x => x
  scan := fun input p i => (∑ j with j ≤ p, input.x j i * input.dt j) + input.a + input.d

theorem contextParallel_eq_example :
    (∀ (op : List Nat → List Nat → List Nat → Nat → Nat) (q k v : Trainer.Sharded Nat),
      ulyssesHeadByHead op ⟨2, 3, 4, 2⟩ q k v = .ok fun rank s y =>
        groupedHeads op (2 * 3) 4 2 (unsharded 3 q) (unsharded 3 k) (unsharded 3 v) (rank * 3 + s) y) ∧
    ∀ batch sLocal (hiddenStates : Nat → Nat → Nat → Nat → Rat),
      ∃ full, mambaForward exampleKernels exampleMixer batch (2 * sLocal)
        (fun b p => hiddenStates (p / sLocal) b (p % sLocal)) = .ok full ∧
        mambaCpForward exampleKernels exampleMixer 2 batch sLocal hiddenStates = .ok fun rank b s =>
          full b (rank * sLocal + s) :=
  contextParallel_eq exampleKernels ⟨2, 3, 4, 2⟩ (by decide) (by decide) (by decide)
    ⟨by decide, by decide, by decide, by decide⟩

end AuroraRl.Trainer.Mamba
