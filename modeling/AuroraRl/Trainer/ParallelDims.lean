import AuroraRl.Lib.ProcessMesh
import AuroraRl.Sft.Sharding
import AuroraRl.Weights.Mentions

/-!
# Parallel dimensions

* `ParallelDims.init` : the degrees that are accepted, `dp_shard` worked out from the others;
* `buildMeshWithEp`, `buildMeshWithoutEp` : the mesh of the ranks, and its flattened submeshes;
* `dataLoaderRank` : the data rank a data loader works out; `microBatchFile`, `microBatchTopic` : where it reads from;
* `MeshArithmetic` : sizes of the groups of a rank, its place in them, and who reads the same data;
* `buildMesh_arithmetic` : it holds for all degrees and all ranks.
-/

namespace AuroraRl.Trainer

open ProcessMesh

inductive MeshDim
  | pp
  | dpReplicate
  | dpShard
  | dpShardModEp
  | dpShardInEp
  | cp
  deriving DecidableEq

structure ParallelDims where
  dpReplicate : Nat
  dpShard : Nat
  cp : Nat
  pp : Nat
  ep : Nat
  worldSize : Nat

/-- The part of the mesh along some of its dimensions. -/
structure Submesh where
  mesh : Mesh MeshDim
  names : List MeshDim

/-- The mesh and its flattened submeshes. -/
structure Meshes where
  mesh : Mesh MeshDim
  dp : Submesh
  dpShardCp : Submesh
  dpCp : Submesh
  ep : Option Submesh

namespace ParallelDims

def init (dpReplicate dpShard cp pp ep : Int) (worldSize : Nat) : Except PyException ParallelDims := do
  pyAssert (∀ d ∈ [dpReplicate, cp, pp, ep], 1 ≤ d) "Parallelism degree should be >= 1, except for dp_shard"
  pyAssert (dpShard = -1 ∨ 1 ≤ dpShard) " dp_shard must -1 or >=1."
  let dpShard := if dpShard < 0 then worldSize / (dpReplicate * cp * pp) else dpShard
  pyAssert (1 ≤ dpShard) ""
  pyAssert (dpReplicate * dpShard * cp * pp = worldSize)
    ("Invalid parallel dims: dp_replicate(" ++ toString dpReplicate ++ ") * dp_shard(" ++ toString dpShard ++ ") * cp(" ++
      toString cp ++ ") * pp(" ++ toString pp ++ ") != WORLD_SIZE(" ++ toString worldSize ++ ")")
  pyAssert (1 < ep → ep % cp = 0 ∧ dpShard * cp % ep = 0) ""
  return ⟨dpReplicate.toNat, dpShard.toNat, cp.toNat, pp.toNat, ep.toNat, worldSize⟩

/-- The dimensions that are kept: those above one, and one in any case. -/
def meshDims (always : MeshDim) (dims : List (MeshDim × Nat)) : Mesh MeshDim :=
  dims.filter fun e => 1 < e.2 ∨ e.1 = always

/-- `mesh[names]`, to be flattened. -/
def submesh (mesh : Mesh MeshDim) (names : List MeshDim) : Except PyException Submesh :=
  if names ≠ [] ∧ ∀ name ∈ names, name ∈ mesh.map Prod.fst then .ok ⟨mesh, names⟩
  else .error ⟨.keyError, "Invalid mesh_dim_names"⟩

def enabled (degree : Nat) (name : MeshDim) : List MeshDim := if 1 < degree then [name] else []

variable (p : ParallelDims)

def buildMeshWithEp : Except PyException Meshes := do
  let dpShardModEp := p.dpShard * p.cp / p.ep
  let dpShardInEp := p.ep / p.cp
  let mesh := meshDims .dpShardModEp [(.pp, p.pp), (.dpReplicate, p.dpReplicate), (.dpShardModEp, dpShardModEp),
    (.dpShardInEp, dpShardInEp), (.cp, p.cp)]
  let inEp : List MeshDim := if .dpShardInEp ∈ mesh.map Prod.fst then [.dpShardInEp] else []
  let dp ← submesh mesh (enabled p.dpReplicate .dpReplicate ++ .dpShardModEp :: inEp)
  let dpShardCp ← submesh mesh (.dpShardModEp :: inEp ++ enabled p.cp .cp)
  let dpCp ← submesh mesh (enabled p.dpReplicate .dpReplicate ++ .dpShardModEp :: inEp ++ enabled p.cp .cp)
  let ep ← submesh mesh (inEp ++ enabled p.cp .cp)
  return ⟨mesh, dp, dpShardCp, dpCp, some ep⟩

def buildMeshWithoutEp : Except PyException Meshes := do
  let mesh := meshDims .dpShard [(.pp, p.pp), (.dpReplicate, p.dpReplicate), (.dpShard, p.dpShard), (.cp, p.cp)]
  let dp ← submesh mesh (enabled p.dpReplicate .dpReplicate ++ [.dpShard])
  let dpShardCp ← submesh mesh (.dpShard :: enabled p.cp .cp)
  let dpCp ← submesh mesh (enabled p.dpReplicate .dpReplicate ++ .dpShard :: enabled p.cp .cp)
  return ⟨mesh, dp, dpShardCp, dpCp, none⟩

def buildMesh : Except PyException Meshes := if 1 < p.ep then p.buildMeshWithEp else p.buildMeshWithoutEp

end ParallelDims

/-- The ranks of the flattened submesh through a rank. -/
def Submesh.group (s : Submesh) (rank : Nat) : List Nat := ProcessMesh.group (fun name => name ∈ s.names) s.mesh rank

def Submesh.size (s : Submesh) : Nat := ProcessMesh.size (s.mesh.filter fun e => e.1 ∈ s.names)

/-- The group of context parallelism; without it a rank is on its own. -/
def Meshes.cpGroup (m : Meshes) (rank : Nat) : List Nat :=
  if .cp ∈ m.mesh.map Prod.fst then ProcessMesh.group (fun name => name = .cp) m.mesh rank else [rank]

/-- The data rank of a rank, from the size of the data-parallel group. -/
def dataLoaderRank (worldSize dpWorldSize rank : Nat) : Nat := rank / (worldSize / dpWorldSize)

/-- The file of a data rank in the directory of a step. -/
def microBatchFile (dataRank : Nat) : String := "rank_" ++ toString dataRank ++ ".bin"

def microBatchTopic (dataRank : Nat) : String := "data_rank|" ++ toString dataRank ++ "|"

/-- A subscription takes all topics it is a prefix of. -/
def takesTopic (subscribed topic : String) : Prop := subscribed.toList <+: topic.toList

/-- What the groups of a rank are like, and which data it reads. -/
structure MeshArithmetic (p : ParallelDims) (m : Meshes) (rank : Nat) : Prop where
  dp : (m.dp.group rank).length = p.dpReplicate * p.dpShard
  dpCp : (m.dpCp.group rank).length = p.worldSize
  dpShardCp : (m.dpShardCp.group rank).length = p.dpShard * p.cp
  ep : ∀ s ∈ m.ep, (s.group rank).length = p.ep
  dataLoader : (m.dp.group rank).idxOf rank = dataLoaderRank p.worldSize m.dp.size rank
  divides : p.worldSize % p.cp = 0
  sftDataset : ∀ numWorkers workerId, Sft.dataRank rank p.cp numWorkers workerId =
    (m.dp.group rank).idxOf rank * numWorkers + workerId
  sameFile : ∀ rank' < p.worldSize, microBatchFile (dataLoaderRank p.worldSize m.dp.size rank') =
    microBatchFile (dataLoaderRank p.worldSize m.dp.size rank) ↔ rank' ∈ m.cpGroup rank
  sameTopic : ∀ rank' < p.worldSize, takesTopic (microBatchTopic (dataLoaderRank p.worldSize m.dp.size rank))
    (microBatchTopic (dataLoaderRank p.worldSize m.dp.size rank')) ↔ rank' ∈ m.cpGroup rank

/-! ## Degrees -/

/-- The degrees that `init` accepts, without pipeline parallelism. -/
structure ParallelDims.Valid (p : ParallelDims) : Prop where
  dpReplicate : 0 < p.dpReplicate
  dpShard : 0 < p.dpShard
  cp : 0 < p.cp
  pp : p.pp = 1
  worldSize : p.dpReplicate * p.dpShard * p.cp = p.worldSize
  ep : 1 < p.ep → p.cp ∣ p.ep ∧ p.ep ∣ p.dpShard * p.cp

theorem ParallelDims.init_valid {dpReplicate cp ep : Int} {worldSize : Nat} {p : ParallelDims}
    (h : ParallelDims.init dpReplicate (-1) cp 1 ep worldSize = .ok p) :
    p.Valid ∧ p.worldSize = worldSize ∧ dpReplicate = p.dpReplicate ∧ cp = p.cp ∧ ep = p.ep := by
  obtain ⟨_, hdegrees, h⟩ := bind_eq_ok.1 h
  obtain ⟨_, -, h⟩ := bind_eq_ok.1 h
  obtain ⟨_, hshard, h⟩ := bind_eq_ok.1 h
  obtain ⟨_, hproduct, h⟩ := bind_eq_ok.1 h
  obtain ⟨_, hep, h⟩ := bind_eq_ok.1 h
  rw [pyAssert_eq_ok] at hdegrees hshard hproduct hep
  simp only [List.mem_cons, List.not_mem_nil, or_false, forall_eq_or_imp, forall_eq] at hdegrees
  obtain ⟨hreplicate, hcp, -, hep'⟩ := hdegrees
  rw [← Except.ok.inj h]
  lift dpReplicate to Nat using by omega
  lift cp to Nat using by omega
  lift ep to Nat using by omega
  generalize hquot : (if (-1 : Int) < 0 then (worldSize : Int) / (dpReplicate * cp * 1) else -1) = dpShard at *
  lift dpShard to Nat using by omega
  rw [Nat.one_le_cast] at hreplicate hcp hshard
  refine ⟨⟨hreplicate, hshard, hcp, rfl, ?_, ?_⟩, rfl, by simp, by simp, by simp⟩
  · simp only [Int.toNat_natCast]
    rw [Int.mul_one] at hproduct
    exact_mod_cast hproduct
  · intro hlt
    simp only [Int.toNat_natCast] at hlt ⊢
    obtain ⟨hmod, hmod'⟩ := hep (by exact_mod_cast hlt)
    exact ⟨by exact_mod_cast Int.dvd_of_emod_eq_zero hmod, by exact_mod_cast Int.dvd_of_emod_eq_zero hmod'⟩

/-! ## Where the data comes from -/

theorem microBatchFile_inj {i j : Nat} : microBatchFile i = microBatchFile j ↔ i = j := by
  constructor
  · intro h
    have hlist := congrArg String.toList h
    simp only [microBatchFile, String.toList_append, List.append_assoc] at hlist
    exact Weights.digits_inj (List.append_cancel_right (List.append_cancel_left hlist))
  · intro h
    rw [h]

theorem takesTopic_iff {i j : Nat} : takesTopic (microBatchTopic i) (microBatchTopic j) ↔ i = j := by
  constructor
  · rintro ⟨rest, hrest⟩
    simp only [microBatchTopic, String.toList_append, List.append_assoc] at hrest
    have htail := List.append_cancel_left hrest
    have hbar : ∀ n : Nat, '|' ∉ (toString n).toList := Weights.notMem_digits (by decide)
    exact Weights.digits_inj (Weights.append_cons_inj (hbar i) (hbar j) htail).1
  · intro h
    rw [h]
    exact List.prefix_rfl

/-! ## Layouts -/

theorem size_meshDims {always : MeshDim} {dims : List (MeshDim × Nat)} (h : ∀ e ∈ dims, 0 < e.2) :
    size (ParallelDims.meshDims always dims) = size dims := by
  induction dims with
  | nil => rfl
  | cons e dims ih =>
      have hrest := ih fun e he => h e (List.mem_cons_of_mem _ he)
      have hpos := h e List.mem_cons_self
      rw [size_cons, ← hrest]
      rw [ParallelDims.meshDims, List.filter_cons]
      split
      · rfl
      · rename_i hdropped
        have hone : e.2 = 1 := by
          simp only [decide_eq_true_eq, not_or, Nat.not_lt] at hdropped
          omega
        rw [hone, Nat.one_mul]
        rfl

/-- The mesh of a rank's groups: outer dimensions, the sharded ones, and context parallelism innermost. -/
structure Layout (p : ParallelDims) (m : Meshes) (outer shard : Mesh MeshDim) : Prop where
  mesh : m.mesh = outer ++ shard ++ ParallelDims.meshDims .dpShard [(.cp, p.cp)]
  sizeOuter : size outer = p.dpReplicate
  sizeShard : size shard = p.dpShard
  notCp : ∀ e ∈ outer ++ shard, e.1 ≠ .cp
  dp : m.dp.mesh = m.mesh ∧ (∀ e ∈ outer ++ shard, e.1 ∈ m.dp.names) ∧ .cp ∉ m.dp.names
  dpShardCp : m.dpShardCp.mesh = m.mesh ∧ (∀ e ∈ outer, e.1 ∉ m.dpShardCp.names) ∧
    (∀ e ∈ shard, e.1 ∈ m.dpShardCp.names) ∧ (1 < p.cp → .cp ∈ m.dpShardCp.names)
  dpCp : m.dpCp.mesh = m.mesh ∧ (∀ e ∈ outer ++ shard, e.1 ∈ m.dpCp.names) ∧ (1 < p.cp → .cp ∈ m.dpCp.names)

section Layout

variable {p : ParallelDims} {m : Meshes} {outer shard : Mesh MeshDim} {rank : Nat}

theorem size_cpMesh (h : 0 < p.cp) : size (ParallelDims.meshDims .dpShard [(.cp, p.cp)]) = p.cp := by
  rw [size_meshDims (by simpa using h)]
  exact Nat.mul_one p.cp

theorem mem_cpMesh {e : MeshDim × Nat} (h : e ∈ ParallelDims.meshDims .dpShard [(.cp, p.cp)]) : e.1 = .cp ∧ 1 < p.cp := by
  simp only [ParallelDims.meshDims, List.mem_filter, List.mem_singleton, decide_eq_true_eq] at h
  obtain ⟨rfl, hlt | hname⟩ := h
  · exact ⟨rfl, hlt⟩
  · exact absurd hname (by simp)

theorem Layout.size_mesh (h : Layout p m outer shard) (hp : p.Valid) : size m.mesh = p.worldSize := by
  rw [h.mesh, size_append, size_append, h.sizeOuter, h.sizeShard, size_cpMesh hp.cp, hp.worldSize]

/-- Data-parallel ranks step over the ranks of context parallelism. -/
theorem Layout.dp_group (h : Layout p m outer shard) (hp : p.Valid) (hrank : rank < p.worldSize) :
    m.dp.group rank = (List.range (p.dpReplicate * p.dpShard)).map fun i => i * p.cp + rank % p.cp := by
  obtain ⟨hmesh, hin, hout⟩ := h.dp
  rw [← h.size_mesh hp, h.mesh] at hrank
  rw [Submesh.group, hmesh, h.mesh, group_leading _ _ _ hrank, size_append, h.sizeOuter, h.sizeShard, size_cpMesh hp.cp]
  · simpa using hin
  · intro e he
    simpa [(mem_cpMesh he).1] using hout

theorem Layout.dp_size (h : Layout p m outer shard) : m.dp.size = p.dpReplicate * p.dpShard := by
  obtain ⟨hmesh, hin, hout⟩ := h.dp
  have hkept : m.dp.mesh.filter (fun e => e.1 ∈ m.dp.names) = outer ++ shard := by
    rw [hmesh, h.mesh, List.filter_append, List.filter_eq_self.2 (by simpa using hin), List.filter_eq_nil_iff.2,
      List.append_nil]
    intro e he
    simpa [(mem_cpMesh he).1] using hout
  rw [Submesh.size, hkept, size_append, h.sizeOuter, h.sizeShard]

theorem Layout.dpShardCp_group (h : Layout p m outer shard) (hp : p.Valid) (hrank : rank < p.worldSize) :
    (m.dpShardCp.group rank).length = p.dpShard * p.cp := by
  obtain ⟨hmesh, hout, hin, hcp⟩ := h.dpShardCp
  rw [← h.size_mesh hp, h.mesh, List.append_assoc] at hrank
  rw [Submesh.group, hmesh, h.mesh, List.append_assoc, group_trailing _ _ _ _ hrank, List.length_map, List.length_range,
    size_append, h.sizeShard, size_cpMesh hp.cp]
  · simpa using hout
  · intro e he
    rcases List.mem_append.1 he with he | he
    · simpa using hin e he
    · simpa [(mem_cpMesh he).1] using hcp (mem_cpMesh he).2

theorem Layout.dpCp_group (h : Layout p m outer shard) (hp : p.Valid) : (m.dpCp.group rank).length = p.worldSize := by
  obtain ⟨hmesh, hin, hcp⟩ := h.dpCp
  rw [Submesh.group, hmesh, group_all, List.length_range, h.size_mesh hp]
  intro e he
  rw [h.mesh] at he
  rcases List.mem_append.1 he with he | he
  · simpa using hin e he
  · simpa [(mem_cpMesh he).1] using hcp (mem_cpMesh he).2

theorem Layout.cpGroup (h : Layout p m outer shard) (hp : p.Valid) (hrank : rank < p.worldSize) :
    m.cpGroup rank = (List.range p.cp).map (rank / p.cp * p.cp + ·) := by
  have hnotCp : ∀ e ∈ outer ++ shard, decide (e.1 = MeshDim.cp) = false := by simpa using h.notCp
  rw [← h.size_mesh hp, h.mesh] at hrank
  have htrailing := group_trailing (fun name => name = MeshDim.cp) hnotCp (fun e he => by simp [(mem_cpMesh he).1])
    rank hrank
  rw [size_cpMesh hp.cp] at htrailing
  rw [Meshes.cpGroup, h.mesh, htrailing]
  split
  · rfl
  · rename_i habsent
    have hone : p.cp = 1 := by
      by_contra hne
      have hlt : 1 < p.cp := Nat.lt_of_le_of_ne hp.cp (Ne.symm hne)
      simp [ParallelDims.meshDims, hlt] at habsent
    simp [hone]

theorem dataLoaderRank_eq (hp : p.Valid) : dataLoaderRank p.worldSize (p.dpReplicate * p.dpShard) rank = rank / p.cp := by
  rw [dataLoaderRank, ← hp.worldSize, Nat.mul_div_cancel_left _ (Nat.mul_pos hp.dpReplicate hp.dpShard)]

theorem Layout.idxOf_dp (h : Layout p m outer shard) (hp : p.Valid) (hrank : rank < p.worldSize) :
    (m.dp.group rank).idxOf rank = rank / p.cp := by
  have hlt : rank / p.cp < p.dpReplicate * p.dpShard := by
    rw [Nat.div_lt_iff_lt_mul hp.cp, hp.worldSize]
    exact hrank
  have hnodup : (m.dp.group rank).Nodup := by
    rw [h.dp_group hp hrank]
    apply List.nodup_range.map
    intro i j hij
    exact Nat.eq_of_mul_eq_mul_right hp.cp (Nat.add_right_cancel hij)
  have hlength : rank / p.cp < (m.dp.group rank).length := by
    rw [h.dp_group hp hrank]
    simpa using hlt
  have hget : (m.dp.group rank)[rank / p.cp] = rank := by
    simp only [h.dp_group hp hrank, List.getElem_map, List.getElem_range]
    exact Nat.div_add_mod' rank p.cp
  rw [← hnodup.idxOf_getElem (rank / p.cp) hlength, hget]

theorem mem_block {a b n : Nat} (hn : 0 < n) : b ∈ (List.range n).map (a * n + ·) ↔ b / n = a := by
  rw [List.mem_map]
  constructor
  · rintro ⟨i, hi, rfl⟩
    rw [Nat.add_comm, Nat.add_mul_div_right _ _ hn, Nat.div_eq_of_lt (List.mem_range.1 hi), Nat.zero_add]
  · intro heq
    exact ⟨b % n, List.mem_range.2 (Nat.mod_lt b hn), by rw [← heq]; exact Nat.div_add_mod' b n⟩

/-- A layout gives the arithmetic, once the group of expert parallelism has its size. -/
theorem Layout.meshArithmetic (h : Layout p m outer shard) (hp : p.Valid) (hrank : rank < p.worldSize)
    (hep : ∀ s ∈ m.ep, (s.group rank).length = p.ep) : MeshArithmetic p m rank := by
  have hdivides : p.worldSize % p.cp = 0 := by
    rw [← hp.worldSize]
    exact Nat.mul_mod_left _ _
  have hsame : ∀ rank', dataLoaderRank p.worldSize m.dp.size rank' = dataLoaderRank p.worldSize m.dp.size rank ↔
      rank' ∈ m.cpGroup rank := by
    intro rank'
    rw [h.dp_size, dataLoaderRank_eq hp, dataLoaderRank_eq hp, h.cpGroup hp hrank, mem_block hp.cp]
  refine ⟨?_, h.dpCp_group hp, h.dpShardCp_group hp hrank, hep, ?_, hdivides, ?_, ?_, ?_⟩
  · rw [h.dp_group hp hrank, List.length_map, List.length_range]
  · rw [h.idxOf_dp hp hrank, h.dp_size, dataLoaderRank_eq hp]
  · intro numWorkers workerId
    rw [h.idxOf_dp hp hrank]
    rfl
  · intro rank' _
    rw [microBatchFile_inj, hsame]
  · intro rank' _
    rw [takesTopic_iff, eq_comm, hsame]

end Layout

/-! ## Both meshes -/

theorem submesh_eq_ok {mesh : Mesh MeshDim} {names : List MeshDim} (hnonempty : names ≠ [])
    (hmem : ∀ name ∈ names, name ∈ mesh.map Prod.fst) : ParallelDims.submesh mesh names = .ok ⟨mesh, names⟩ :=
  if_pos ⟨hnonempty, hmem⟩

theorem mem_meshDims {always name : MeshDim} {dims : List (MeshDim × Nat)} {d : Nat} (hmem : (name, d) ∈ dims)
    (hkept : 1 < d ∨ name = always) : name ∈ (ParallelDims.meshDims always dims).map Prod.fst := by
  apply List.mem_map.2
  exact ⟨(name, d), List.mem_filter.2 ⟨hmem, decide_eq_true hkept⟩, rfl⟩

theorem mem_enabled {degree : Nat} {name name' : MeshDim} : name' ∈ ParallelDims.enabled degree name ↔
    1 < degree ∧ name' = name := by
  rw [ParallelDims.enabled]
  split <;> simp_all

section BothMeshes

variable {p : ParallelDims}

theorem meshDims_append (always : MeshDim) (dims dims' : List (MeshDim × Nat)) :
    ParallelDims.meshDims always (dims ++ dims') = ParallelDims.meshDims always dims ++ ParallelDims.meshDims always dims' :=
  List.filter_append ..

theorem mem_outer {always : MeshDim} (hp : p.Valid) (halways : always ≠ .pp ∧ always ≠ .dpReplicate) {e : MeshDim × Nat}
    (he : e ∈ ParallelDims.meshDims always [(.pp, p.pp), (.dpReplicate, p.dpReplicate)]) :
    e.1 = .dpReplicate ∧ 1 < p.dpReplicate := by
  simp only [ParallelDims.meshDims, List.mem_filter, List.mem_cons, List.not_mem_nil, or_false, decide_eq_true_eq] at he
  obtain ⟨rfl | rfl, hlt | hname⟩ := he
  · rw [hp.pp] at hlt
    omega
  · exact absurd hname.symm halways.1
  · exact ⟨rfl, hlt⟩
  · exact absurd hname.symm halways.2

theorem size_outer {always : MeshDim} (hp : p.Valid) :
    size (ParallelDims.meshDims always [(.pp, p.pp), (.dpReplicate, p.dpReplicate)]) = p.dpReplicate := by
  rw [size_meshDims (by simp [hp.pp, hp.dpReplicate]), hp.pp]
  simp [size, shape, RowMajor.numel]

theorem enabled_subset (always name : MeshDim) {dims : List (MeshDim × Nat)} {d : Nat} (hmem : (name, d) ∈ dims) :
    ∀ name' ∈ ParallelDims.enabled d name, name' ∈ (ParallelDims.meshDims always dims).map Prod.fst := by
  intro name' hname'
  obtain ⟨hlt, rfl⟩ := mem_enabled.1 hname'
  exact mem_meshDims hmem (.inl hlt)

/-- The submeshes over the dimensions that `dp_shard` is split into. -/
def meshesOf (p : ParallelDims) (mesh : Mesh MeshDim) (shardNames : List MeshDim) (ep : Option Submesh) : Meshes :=
  ⟨mesh, ⟨mesh, ParallelDims.enabled p.dpReplicate .dpReplicate ++ shardNames⟩,
    ⟨mesh, shardNames ++ ParallelDims.enabled p.cp .cp⟩,
    ⟨mesh, ParallelDims.enabled p.dpReplicate .dpReplicate ++ shardNames ++ ParallelDims.enabled p.cp .cp⟩, ep⟩

theorem layout_meshesOf (always : MeshDim) {shard : Mesh MeshDim} (ep : Option Submesh) (hp : p.Valid)
    (halways : always ≠ .pp ∧ always ≠ .dpReplicate) (hsize : size shard = p.dpShard)
    (hnames : ∀ e ∈ shard, e.1 ≠ .cp ∧ e.1 ≠ .dpReplicate) :
    Layout p (meshesOf p (ParallelDims.meshDims always [(.pp, p.pp), (.dpReplicate, p.dpReplicate)] ++ shard ++
        ParallelDims.meshDims .dpShard [(.cp, p.cp)]) (shard.map Prod.fst) ep)
      (ParallelDims.meshDims always [(.pp, p.pp), (.dpReplicate, p.dpReplicate)]) shard := by
  have hreplicate : MeshDim.dpReplicate ∉ shard.map Prod.fst := by
    rw [List.mem_map]
    rintro ⟨e, he, hname⟩
    exact (hnames e he).2 hname
  have hcp : MeshDim.cp ∉ shard.map Prod.fst := by
    rw [List.mem_map]
    rintro ⟨e, he, hname⟩
    exact (hnames e he).1 hname
  refine ⟨rfl, size_outer hp, hsize, ?_, ⟨rfl, ?_, ?_⟩, ⟨rfl, ?_, ?_, ?_⟩, ⟨rfl, ?_, ?_⟩⟩
  · intro e he
    rcases List.mem_append.1 he with he | he
    · simp [(mem_outer hp halways he).1]
    · exact (hnames e he).1
  · intro e he
    rcases List.mem_append.1 he with he | he
    · simp [meshesOf, mem_enabled, mem_outer hp halways he]
    · exact List.mem_append_right _ (List.mem_map_of_mem he)
  · simp [meshesOf, mem_enabled, hcp]
  · intro e he
    simp [meshesOf, mem_enabled, (mem_outer hp halways he).1, hreplicate]
  · intro e he
    exact List.mem_append_left _ (List.mem_map_of_mem he)
  · intro hlt
    simp [meshesOf, mem_enabled, hlt]
  · intro e he
    rcases List.mem_append.1 he with he | he
    · simp [meshesOf, mem_enabled, mem_outer hp halways he]
    · exact List.mem_append_left _ (List.mem_append_right _ (List.mem_map_of_mem he))
  · intro hlt
    simp [meshesOf, mem_enabled, hlt]

theorem submeshes_eq_ok (mesh : Mesh MeshDim) {shardNames outerNames cpNames : List MeshDim} (hnonempty : shardNames ≠ [])
    (houter : ∀ name ∈ outerNames, name ∈ mesh.map Prod.fst) (hshard : ∀ name ∈ shardNames, name ∈ mesh.map Prod.fst)
    (hcp : ∀ name ∈ cpNames, name ∈ mesh.map Prod.fst) :
    ParallelDims.submesh mesh (outerNames ++ shardNames) = .ok ⟨mesh, outerNames ++ shardNames⟩ ∧
      ParallelDims.submesh mesh (shardNames ++ cpNames) = .ok ⟨mesh, shardNames ++ cpNames⟩ ∧
      ParallelDims.submesh mesh (outerNames ++ shardNames ++ cpNames) = .ok ⟨mesh, outerNames ++ shardNames ++ cpNames⟩ := by
  have hdp := List.forall_mem_append.2 ⟨houter, hshard⟩
  refine ⟨submesh_eq_ok ?_ hdp, submesh_eq_ok ?_ (List.forall_mem_append.2 ⟨hshard, hcp⟩),
    submesh_eq_ok ?_ (List.forall_mem_append.2 ⟨hdp, hcp⟩)⟩
  · simp [hnonempty]
  · simp [hnonempty]
  · simp [hnonempty]

theorem ParallelDims.Valid.withoutEp (hp : p.Valid) : ∃ m, p.buildMeshWithoutEp = .ok m ∧ m.ep = none ∧
    ∃ outer shard, Layout p m outer shard := by
  let dims := [(MeshDim.pp, p.pp), (.dpReplicate, p.dpReplicate), (.dpShard, p.dpShard), (.cp, p.cp)]
  have hmesh : meshDims .dpShard dims = meshDims .dpShard [(.pp, p.pp), (.dpReplicate, p.dpReplicate)] ++
      [(.dpShard, p.dpShard)] ++ meshDims .dpShard [(.cp, p.cp)] := by
    have hshardDim : meshDims .dpShard [(.dpShard, p.dpShard)] = [(.dpShard, p.dpShard)] := by simp [meshDims]
    rw [← hshardDim, ← meshDims_append, ← meshDims_append]
    rfl
  obtain ⟨hdp, hdpShardCp, hdpCp⟩ := submeshes_eq_ok (meshDims .dpShard dims) (List.cons_ne_nil .dpShard [])
    (enabled_subset .dpShard .dpReplicate (d := p.dpReplicate) (by simp [dims]))
    (List.forall_mem_singleton.2 (mem_meshDims (d := p.dpShard) (by simp [dims]) (.inr rfl)))
    (enabled_subset .dpShard .cp (d := p.cp) (by simp [dims]))
  rw [List.append_assoc] at hdpCp
  have hbuild : p.buildMeshWithoutEp = .ok (meshesOf p (meshDims .dpShard dims) [.dpShard] none) := by
    rw [meshesOf, List.append_assoc]
    exact bind_eq_ok.2 ⟨_, hdp, bind_eq_ok.2 ⟨_, hdpShardCp, bind_eq_ok.2 ⟨_, hdpCp, rfl⟩⟩⟩
  rw [hmesh] at hbuild
  refine ⟨_, hbuild, rfl, _, _, layout_meshesOf _ none hp (by simp) ?_ ?_⟩
  · exact Nat.mul_one p.dpShard
  · simp

theorem ParallelDims.Valid.split (hp : p.Valid) (hep : 1 < p.ep) : p.dpShard * p.cp / p.ep * (p.ep / p.cp) = p.dpShard ∧
    p.ep / p.cp * p.cp = p.ep ∧ 0 < p.dpShard * p.cp / p.ep ∧ 0 < p.ep / p.cp := by
  obtain ⟨hcp, hshard⟩ := hp.ep hep
  have hproduct : p.dpShard * p.cp / p.ep * (p.ep / p.cp) = p.dpShard := by
    apply Nat.eq_of_mul_eq_mul_right hp.cp
    rw [Nat.mul_assoc, Nat.div_mul_cancel hcp, Nat.div_mul_cancel hshard]
  have hpos := hp.dpShard
  rw [← hproduct] at hpos
  exact ⟨hproduct, Nat.div_mul_cancel hcp, Nat.pos_of_mul_pos_right hpos, Nat.pos_of_mul_pos_left hpos⟩

/-- The group of expert parallelism borrows context parallelism and the inner part of `dp_shard`. -/
theorem ep_group {always : MeshDim} {outer : Mesh MeshDim} {inEp rank : Nat} (hpos : 0 < inEp)
    (hcp : 0 < p.cp) (halways : always ≠ .dpShardInEp)
    (houter : ∀ e ∈ outer, e.1 ≠ .dpShardInEp ∧ e.1 ≠ .cp)
    (hrank : rank < size (outer ++ (ParallelDims.meshDims always [(.dpShardInEp, inEp)] ++
      ParallelDims.meshDims .dpShard [(.cp, p.cp)]))) :
    (Submesh.group ⟨outer ++ (ParallelDims.meshDims always [(.dpShardInEp, inEp)] ++
      ParallelDims.meshDims .dpShard [(.cp, p.cp)]),
        ParallelDims.enabled inEp .dpShardInEp ++ ParallelDims.enabled p.cp .cp⟩ rank).length = inEp * p.cp := by
  rw [Submesh.group, group_trailing _ _ _ _ hrank, List.length_map, List.length_range, size_append, size_cpMesh hcp,
    size_meshDims (by simpa using hpos)]
  · simp [size, shape, RowMajor.numel]
  · intro e he
    simp [mem_enabled, houter e he]
  · intro e he
    rcases List.mem_append.1 he with he | he
    · simp only [ParallelDims.meshDims, List.mem_filter, List.mem_singleton, decide_eq_true_eq] at he
      obtain ⟨rfl, hlt | hname⟩ := he
      · simp [mem_enabled, hlt]
      · exact absurd hname.symm halways
    · simp [mem_enabled, mem_cpMesh he]

theorem mem_inEpMesh {inEp : Nat} {e : MeshDim × Nat}
    (he : e ∈ ParallelDims.meshDims .dpShardModEp [(.dpShardInEp, inEp)]) : e.1 = .dpShardInEp ∧ 1 < inEp := by
  simp only [ParallelDims.meshDims, List.mem_filter, List.mem_singleton, decide_eq_true_eq] at he
  obtain ⟨rfl, hlt | hname⟩ := he
  · exact ⟨rfl, hlt⟩
  · exact absurd hname (by simp)

theorem map_inEpMesh (inEp : Nat) : (ParallelDims.meshDims .dpShardModEp [(.dpShardInEp, inEp)]).map Prod.fst =
    ParallelDims.enabled inEp .dpShardInEp := by
  by_cases hlt : 1 < inEp
  · simp [ParallelDims.meshDims, ParallelDims.enabled, hlt]
  · simp [ParallelDims.meshDims, ParallelDims.enabled, hlt]

theorem mesh_withEp (modEp inEp : Nat) : ParallelDims.meshDims .dpShardModEp [(.pp, p.pp), (.dpReplicate, p.dpReplicate),
      (.dpShardModEp, modEp), (.dpShardInEp, inEp), (.cp, p.cp)] =
    ParallelDims.meshDims .dpShardModEp [(.pp, p.pp), (.dpReplicate, p.dpReplicate)] ++
      ((.dpShardModEp, modEp) :: ParallelDims.meshDims .dpShardModEp [(.dpShardInEp, inEp)]) ++
      ParallelDims.meshDims .dpShard [(.cp, p.cp)] := by
  have hmod : (MeshDim.dpShardModEp, modEp) :: ParallelDims.meshDims .dpShardModEp [(.dpShardInEp, inEp)] =
      ParallelDims.meshDims .dpShardModEp [(.dpShardModEp, modEp), (.dpShardInEp, inEp)] := by simp [ParallelDims.meshDims]
  have hcp : ParallelDims.meshDims .dpShard [(.cp, p.cp)] = ParallelDims.meshDims .dpShardModEp [(.cp, p.cp)] := by
    by_cases hlt : 1 < p.cp
    · simp [ParallelDims.meshDims, hlt]
    · simp [ParallelDims.meshDims, hlt]
  rw [hmod, hcp, ← meshDims_append, ← meshDims_append]
  rfl

theorem ParallelDims.Valid.withEp (hp : p.Valid) (hep : 1 < p.ep) : ∃ m, p.buildMeshWithEp = .ok m ∧ m.ep.isSome ∧
    (∀ rank < p.worldSize, ∀ s ∈ m.ep, (s.group rank).length = p.ep) ∧ ∃ outer shard, Layout p m outer shard := by
  obtain ⟨hproduct, hinner, hmodPos, hinPos⟩ := hp.split hep
  generalize hmodEp : p.dpShard * p.cp / p.ep = modEp at hproduct hmodPos
  generalize hinEp : p.ep / p.cp = inEp at hproduct hinner hinPos
  obtain ⟨dims, hdims⟩ : ∃ dims, dims = [(MeshDim.pp, p.pp), (.dpReplicate, p.dpReplicate), (.dpShardModEp, modEp),
    (.dpShardInEp, inEp), (.cp, p.cp)] := ⟨_, rfl⟩
  have hmem : .dpShardInEp ∈ (meshDims .dpShardModEp dims).map Prod.fst ↔ 1 < inEp := by
    rw [hdims, mesh_withEp, List.map_append, List.map_append, List.map_cons, map_inEpMesh]
    simp [mem_enabled, meshDims]
  have hinEpNames := enabled_subset .dpShardModEp .dpShardInEp (by simp [hdims] : (.dpShardInEp, inEp) ∈ dims)
  have hcpNames := enabled_subset .dpShardModEp .cp (by simp [hdims] : (.cp, p.cp) ∈ dims)
  obtain ⟨hdp, hdpShardCp, hdpCp⟩ := submeshes_eq_ok (meshDims .dpShardModEp dims)
    (List.cons_ne_nil .dpShardModEp (enabled inEp .dpShardInEp))
    (enabled_subset .dpShardModEp .dpReplicate (d := p.dpReplicate) (by simp [hdims]))
    (List.forall_mem_cons.2 ⟨mem_meshDims (d := modEp) (by simp [hdims]) (.inr rfl), hinEpNames⟩) hcpNames
  have hborrowed : submesh (meshDims .dpShardModEp dims) (enabled inEp .dpShardInEp ++ enabled p.cp .cp) =
      .ok ⟨meshDims .dpShardModEp dims, enabled inEp .dpShardInEp ++ enabled p.cp .cp⟩ := by
    apply submesh_eq_ok _ (List.forall_mem_append.2 ⟨hinEpNames, hcpNames⟩)
    intro hempty
    obtain ⟨hin, hcp⟩ := List.append_eq_nil_iff.1 hempty
    have hinOne : inEp = 1 := by
      simp only [enabled, ite_eq_right_iff, List.cons_ne_nil, imp_false, not_lt] at hin
      omega
    have hcpOne : p.cp = 1 := by
      have hpos := hp.cp
      simp only [enabled, ite_eq_right_iff, List.cons_ne_nil, imp_false, not_lt] at hcp
      omega
    rw [hinOne, hcpOne] at hinner
    omega
  have hbuild : p.buildMeshWithEp = .ok (meshesOf p (meshDims .dpShardModEp dims) (.dpShardModEp :: enabled inEp .dpShardInEp)
      (some ⟨meshDims .dpShardModEp dims, enabled inEp .dpShardInEp ++ enabled p.cp .cp⟩)) := by
    rw [buildMeshWithEp, hmodEp, hinEp, ← hdims]
    simp only [hmem]
    exact bind_eq_ok.2 ⟨_, hdp, bind_eq_ok.2 ⟨_, hdpShardCp, bind_eq_ok.2 ⟨_, hdpCp, bind_eq_ok.2 ⟨_, hborrowed, rfl⟩⟩⟩⟩
  rw [hdims, mesh_withEp] at hbuild
  have hshard : ∀ e ∈ (.dpShardModEp, modEp) :: meshDims .dpShardModEp [(.dpShardInEp, inEp)],
      e.1 = .dpShardModEp ∨ e.1 = .dpShardInEp := by
    intro e he
    rcases List.mem_cons.1 he with rfl | he
    · exact .inl rfl
    · exact .inr (mem_inEpMesh he).1
  have hsize : ProcessMesh.size ((MeshDim.dpShardModEp, modEp) :: meshDims .dpShardModEp
      [(.dpShardInEp, inEp)]) = p.dpShard := by
    rw [size_cons, size_meshDims (by simpa using hinPos), ← hproduct]
    exact congrArg (modEp * ·) (Nat.mul_one inEp)
  have hlayout := fun ep => layout_meshesOf .dpShardModEp ep hp (by simp) hsize fun e he => by
    rcases hshard e he with h | h <;> simp [h]
  simp only [List.map_cons, map_inEpMesh] at hlayout
  refine ⟨_, hbuild, rfl, ?_, _, _, hlayout _⟩
  intro rank hrank s hs
  obtain rfl := Option.mem_some_iff.1 hs
  rw [← (hlayout none).size_mesh hp] at hrank
  have hassoc : meshDims .dpShardModEp [(.pp, p.pp), (.dpReplicate, p.dpReplicate)] ++
      (.dpShardModEp, modEp) :: meshDims .dpShardModEp [(.dpShardInEp, inEp)] ++ meshDims .dpShard [(.cp, p.cp)] =
      (meshDims .dpShardModEp [(.pp, p.pp), (.dpReplicate, p.dpReplicate)] ++ [(.dpShardModEp, modEp)]) ++
        (meshDims .dpShardModEp [(.dpShardInEp, inEp)] ++ meshDims .dpShard [(.cp, p.cp)]) := by
    simp
  rw [meshesOf, hassoc] at hrank
  rw [hassoc, ep_group hinPos hp.cp (by simp) _ hrank, hinner]
  intro e he
  rcases List.mem_append.1 he with he | he
  · simp [mem_outer hp (by simp) he]
  · simp [List.mem_singleton.1 he]

end BothMeshes

/-- **Main.** With or without expert parallelism, the mesh covers the ranks, its groups have the accepted degrees, and the
ranks of a context-parallel group read the same data. -/
theorem ParallelDims.buildMesh_arithmetic {dpReplicate cp ep : Int} {worldSize : Nat} {p : ParallelDims}
    (h : ParallelDims.init dpReplicate (-1) cp 1 ep worldSize = .ok p) : ∃ m, p.buildMesh = .ok m ∧
      size m.mesh = worldSize ∧ p.worldSize = worldSize ∧ dpReplicate = p.dpReplicate ∧ cp = p.cp ∧ ep = p.ep ∧
      (m.ep.isSome ↔ 1 < p.ep) ∧ ∀ rank < worldSize, MeshArithmetic p m rank := by
  obtain ⟨hp, rfl, hreplicate, hcp, hep⟩ := init_valid h
  by_cases hlt : 1 < p.ep
  · obtain ⟨m, hbuild, hsome, hgroup, outer, shard, hlayout⟩ := hp.withEp hlt
    refine ⟨m, by rw [buildMesh, if_pos hlt, hbuild], hlayout.size_mesh hp, rfl, hreplicate, hcp,
      hep, by simp [hsome, hlt], ?_⟩
    intro rank hrank
    exact hlayout.meshArithmetic hp hrank (hgroup rank hrank)
  · obtain ⟨m, hbuild, hnone, outer, shard, hlayout⟩ := hp.withoutEp
    refine ⟨m, by rw [buildMesh, if_neg hlt, hbuild], hlayout.size_mesh hp, rfl, hreplicate, hcp,
      hep, by simp [hnone, hlt], ?_⟩
    intro rank hrank
    exact hlayout.meshArithmetic hp hrank (by simp [hnone])

theorem ParallelDims.buildMesh_arithmetic_ep : ∃ m, ParallelDims.buildMesh ⟨2, 2, 2, 1, 4, 8⟩ = .ok m ∧
    size m.mesh = 8 ∧ MeshArithmetic ⟨2, 2, 2, 1, 4, 8⟩ m 5 := by
  obtain ⟨m, hbuild, hsize, -, -, -, -, -, hall⟩ :=
    @ParallelDims.buildMesh_arithmetic 2 2 4 8 _ rfl
  exact ⟨m, hbuild, hsize, hall 5 (by decide)⟩

end AuroraRl.Trainer
