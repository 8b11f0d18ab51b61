import AuroraRl.Trainer.Conservation
import AuroraRl.Trainer.Lora
import Mathlib

/-!
# The adapters of a micro batch

* `positionRuns` : the run of every position of a micro batch, the last adapter for the padding;
* `Sent` : a micro batch of `prepare_batch` and the samples in it;
* `sent_counts` : its adapter counts are those of the runs of its positions, which ascend;
* `AdapterRouted` : every rank sends each position through the adapter of its run;
* `Balanced` : on no rank does the padding outnumber the tokens of a lone run;
* `adapterRouting` : every micro batch is routed iff every bin is balanced.
-/

namespace AuroraRl.Trainer
open FirstFit Segments

variable {R : Type}

/-! ## The runs of the positions -/

def tokenRuns (seqLen : Nat) (bin : List (Nat × TrainingSample R)) : List Nat :=
  bin.flatMap fun p => List.replicate (p.2.tokens seqLen).length p.1

/-- The run of every position of a micro batch of `n` positions. -/
def positionRuns (seqLen numLoras : Nat) (bin : List (Nat × TrainingSample R)) (n : Nat) : List Nat :=
  tokenRuns seqLen bin ++ List.replicate (n - (tokenRuns seqLen bin).length) (numLoras - 1)

section

variable {seqLen numLoras : Nat} {bin : List (Nat × TrainingSample R)}

theorem tokenRuns_length (seqLen : Nat) (bin : List (Nat × TrainingSample R)) :
    (tokenRuns seqLen bin).length = (bin.flatMap (·.2.tokens seqLen)).length := by
  simp [tokenRuns, List.length_flatMap]

theorem mem_tokenRuns {a : Nat} (h : a ∈ tokenRuns seqLen bin) : ∃ p ∈ bin, p.1 = a := by
  obtain ⟨p, hp, ha⟩ := List.mem_flatMap.1 h
  exact ⟨p, hp, (List.eq_of_mem_replicate ha).symm⟩

theorem tokenRuns_of_one {run : Nat} (h : ∀ p ∈ bin, p.1 = run) :
    tokenRuns seqLen bin = List.replicate (tokenRuns seqLen bin).length run := by
  apply List.eq_replicate_iff.2
  refine ⟨rfl, fun a ha => ?_⟩
  obtain ⟨p, hp, rfl⟩ := mem_tokenRuns ha
  exact h p hp

theorem sampleOrder_total (seqLen : Nat) (p q : Nat × TrainingSample R) :
    sampleOrder seqLen p q ∨ sampleOrder seqLen q p := by
  unfold sampleOrder
  omega

theorem sampleOrder_trans {p q r : Nat × TrainingSample R} (h : sampleOrder seqLen p q) (h' : sampleOrder seqLen q r) :
    sampleOrder seqLen p r := by
  unfold sampleOrder at *
  omega

theorem assignment_sorted {samples : List (Nat × TrainingSample R)} (hbin : bin ∈ assignment seqLen samples) :
    bin.Pairwise fun p q => p.1 ≤ q.1 := by
  have htotal : Std.Total (sampleOrder (R := R) seqLen) := ⟨sampleOrder_total seqLen⟩
  have htrans : IsTrans _ (sampleOrder (R := R) seqLen) := ⟨fun _ _ _ => sampleOrder_trans⟩
  refine ((List.pairwise_insertionSort (sampleOrder seqLen) samples).sublist (firstFit_sublist bin hbin)).imp ?_
  intro p q h
  rcases h with h | ⟨h, -⟩
  · exact h.le
  · exact h.le

theorem positionRuns_sorted {samples : List (Nat × TrainingSample R)} (hbin : bin ∈ assignment seqLen samples)
    (hidx : ∀ p ∈ bin, p.1 < numLoras) (n : Nat) : (positionRuns seqLen numLoras bin n).Pairwise (· ≤ ·) := by
  refine List.pairwise_append.2 ⟨?_, ?_, fun a ha b hb => ?_⟩
  · refine List.pairwise_flatMap.2 ⟨fun p _ => by simp [List.pairwise_replicate], ?_⟩
    refine (assignment_sorted hbin).imp fun {p q} h a ha b hb => ?_
    rwa [List.eq_of_mem_replicate ha, List.eq_of_mem_replicate hb]
  · simp [List.pairwise_replicate]
  · obtain ⟨p, hp, rfl⟩ := mem_tokenRuns ha
    rw [List.eq_of_mem_replicate hb]
    exact Nat.le_sub_one_of_lt (hidx p hp)

end

/-! ## The counts of a micro batch -/

section

variable [Zero R] [One R] {seqLen numLoras padToMultipleOf : Nat} {bin : List (Nat × TrainingSample R)}

omit [Zero R] [One R] in
/-- The counts of a filled bin are those of the runs of its tokens. -/
theorem fills_counts {bin : List (Nat × MicroBatch R)} {b : MicroBatch R} (h : Fills numLoras bin b) :
    b.loraNumTokens = some ((List.range numLoras).map
      (bin.flatMap fun x => List.replicate x.2.inputIds.length x.1).count) ∧ ∀ x ∈ bin, x.1 < numLoras := by
  induction h with
  | @opened x b h =>
      unfold MicroBatch.opened at h
      split_ifs at h with hidx
      cases h
      have hzero : List.replicate numLoras 0 = (List.range numLoras).map ([] : List Nat).count := by
        simp [List.map_const']
      have hget : ((List.range numLoras).map ([] : List Nat).count)[x.1]? = some 0 := by simp [hidx]
      refine ⟨?_, by simpa using hidx⟩
      have hset := set_count (m := x.2.inputIds.length) hget
      rw [Nat.zero_add, ← hzero] at hset
      simpa using hset
  | @added bin x b b' hb h ih =>
      obtain ⟨e, -, h⟩ := bind_eq_ok.1 h
      obtain ⟨counts, k, hcounts, hk, rfl⟩ := addLoraTokens_eq_ok_iff.1 h
      rw [show b.loraNumTokens = some counts from hcounts, Option.some.injEq] at ih
      obtain ⟨rfl, hidx⟩ := ih
      refine ⟨?_, ?_⟩
      · show some _ = some _
        rw [set_count hk, List.flatMap_append]
        simp
      · intro y hy
        rcases List.mem_append.1 hy with hy | hy
        · exact hidx y hy
        · rw [List.mem_singleton.1 hy]
          simpa using (List.getElem?_eq_some_iff.1 hk).1

theorem padMicroBatch_counts {b mb : MicroBatch R} {l : List Nat}
    (hcounts : b.loraNumTokens = some ((List.range numLoras).map l.count))
    (h : padMicroBatch b padToMultipleOf = .ok mb) : mb.loraNumTokens = some ((List.range numLoras).map
      (l ++ List.replicate (paddingSize padToMultipleOf b.inputIds.length) (numLoras - 1)).count) := by
  have hlen : (b.loraNumTokens.getD []).length = numLoras := by simp [hcounts]
  unfold padMicroBatch at h
  dsimp only at h
  rw [hlen] at h
  split_ifs at h with hzero henv hpad
  · cases h
  · obtain ⟨padded, hpadded, h⟩ := bind_eq_ok.1 h
    obtain ⟨routed, -, h⟩ := bind_eq_ok.1 h
    cases h
    obtain ⟨counts, k, hsame, hk, rfl⟩ := addLoraTokens_eq_ok_iff.1 hpadded
    obtain rfl : counts = (List.range numLoras).map l.count := Option.some.inj (hsame.symm.trans hcounts)
    exact congrArg some (set_count hk)
  · cases h
    have hnone : paddingSize padToMultipleOf b.inputIds.length = 0 := by
      have hlt : paddingSize padToMultipleOf b.inputIds.length < padToMultipleOf := Nat.mod_lt _ (Nat.pos_of_ne_zero hzero)
      omega
    rw [hcounts, hnone, List.replicate_zero, List.append_nil]

/-- A micro batch that `prepare_batch` makes of the samples of a bin, or a copy of it without loss. -/
def Sent (seqLen numLoras padToMultipleOf : Nat) (bin : List (Nat × TrainingSample R)) (mb : MicroBatch R) : Prop :=
  ∃ b source, Fills numLoras (bin.map (packedItem seqLen)) b ∧ padMicroBatch b padToMultipleOf = .ok source ∧
    (mb = source ∨ mb = makeDummyBatch source)

theorem sent_counts {mb : MicroBatch R} (h : Sent seqLen numLoras padToMultipleOf bin mb) :
    0 < padToMultipleOf ∧ (∀ p ∈ bin, p.1 < numLoras) ∧
      mb.inputIds = bin.flatMap (·.2.tokens seqLen) ++
        List.replicate (paddingSize padToMultipleOf (bin.flatMap (·.2.tokens seqLen)).length) 1 ∧
      mb.loraNumTokens = some ((List.range numLoras).map (positionRuns seqLen numLoras bin mb.inputIds.length).count) := by
  obtain ⟨b, source, hb, hsource, hmb⟩ := h
  obtain ⟨hcounts, hidx⟩ := fills_counts hb
  obtain ⟨hpos, -, hpadded⟩ := padMicroBatch_padded hsource
  have hids : b.inputIds = bin.flatMap (·.2.tokens seqLen) := by
    rw [hb.head.1, List.flatMap_map]
    rfl
  have hruns : (bin.map (packedItem seqLen)).flatMap (fun x => List.replicate x.2.inputIds.length x.1) =
      tokenRuns seqLen bin := by
    rw [List.flatMap_map]
    rfl
  have hpad := padMicroBatch_counts hcounts hsource
  have htokens := hpadded.inputIds
  rw [hids] at htokens hpad
  rw [hruns] at hpad
  have hlen : source.inputIds.length - (tokenRuns seqLen bin).length =
      paddingSize padToMultipleOf (bin.flatMap (·.2.tokens seqLen)).length := by
    rw [htokens, tokenRuns_length, List.length_append, List.length_replicate, Nat.add_sub_cancel_left]
  have hsame : mb.inputIds = source.inputIds ∧ mb.loraNumTokens = source.loraNumTokens := by
    rcases hmb with rfl | rfl
    · exact ⟨rfl, rfl⟩
    · exact ⟨rfl, rfl⟩
  refine ⟨hpos, fun p hp => hidx _ (List.mem_map_of_mem hp), hsame.1.trans htokens, ?_⟩
  rw [hsame.1, hsame.2, hpad, positionRuns, hlen]

end

/-! ## The ranks -/

/-- Images; an empty dict is none. -/
def hasImages (mmKwargs : Option (Dict String EncodedTensor)) : Bool := mmKwargs.any fun kwargs => !kwargs.entries.isEmpty

/-- The counts of a micro batch as a tensor: without them all tokens are of the first adapter. -/
def MicroBatch.loraTensor (mb : MicroBatch R) (maxRuns : Nat) : List Nat :=
  mb.loraNumTokens.getD ((List.replicate maxRuns 0).set 0 mb.inputIds.length)

/-- What a rank sets as `lora_num_tokens` before the forward pass. -/
def rankLoraNumTokens (maxRuns : Nat) (mb : MicroBatch R) (cpSize cpRank : Nat) : Except PyException (List Nat) :=
  if 1 < cpSize then
    if hasImages mb.mmKwargs then
      .error ⟨.notImplementedError, "Context parallelism is not supported with VLM/multimodal training"⟩
    else do
      let inputIds ← shardForCp mb.inputIds cpRank cpSize
      return splitLoraNumTokens (mb.loraTensor maxRuns) inputIds.length cpRank
  else return mb.loraTensor maxRuns

/-- How many of the first `n` positions are on a rank. -/
def tokensOnRank (n chunkSize cpRank : Nat) : Nat := min (n - chunkSize * cpRank) chunkSize

/-- What a rank does with its positions, of the runs `shard`, and its counts. -/
structure RankRouted {S : Type} [NonUnitalNonAssocSemiring S] (groupedMm : GroupedMm S) (rank inFeatures outFeatures : Nat)
    (numLoras : Nat) (shard rankCounts : List Nat) : Prop where
  counts : ∀ r < numLoras, rankCounts[r]? = some (shard.count r)
  linear : ∀ (layer : MultiLoraLinear S rank inFeatures outFeatures) (x : List (Fin inFeatures → S)),
    layer.loraA.length = numLoras → layer.loraB.length = numLoras → layer.scalingFactors.length = numLoras →
    x.length = shard.length → (layer.loraDropout x).length = x.length →
      ∃ out, layer.forward groupedMm rankCounts x = .ok out ∧ out.length = x.length ∧
        ∀ (p r : Nat) (row loraRow : Fin inFeatures → S), shard[p]? = some r → x[p]? = some row →
          (layer.loraDropout x)[p]? = some loraRow → ∃ a b s, layer.loraA[r]? = some a ∧ layer.loraB[r]? = some b ∧
            layer.scalingFactors[r]? = some s ∧ out[p]? = some (layer.baseLayer row + s • b.mulVec (a.mulVec loraRow))

/-- A micro batch whose positions go through the adapters of their runs on every rank: those of a linear layer each through
its own, and the experts compute with the adapter of the run when there is one run. -/
structure AdapterRouted {S : Type} [NonUnitalNonAssocSemiring S] (groupedMm : GroupedMm S) (rank inFeatures outFeatures : Nat)
    (seqLen numLoras cpSize : Nat) (bin : List (Nat × TrainingSample R)) (mb : MicroBatch R) (counts : List Nat) : Prop where
  loraNumTokens : mb.loraNumTokens = some counts
  length : counts.length = numLoras
  sum : counts.sum = mb.inputIds.length
  tokens : ∃ k, mb.inputIds = bin.flatMap (·.2.tokens seqLen) ++ List.replicate k 1
  ascending : labelled (List.range numLoras) counts = positionRuns seqLen numLoras bin mb.inputIds.length
  ranks : (1 < cpSize → hasImages mb.mmKwargs = false) → ∀ cpRank < cpSize, ∃ shard rankCounts,
    shardForCp (positionRuns seqLen numLoras bin mb.inputIds.length) cpRank cpSize = .ok shard ∧
    rankLoraNumTokens numLoras mb cpSize cpRank = .ok rankCounts ∧
    RankRouted groupedMm rank inFeatures outFeatures numLoras shard rankCounts ∧
    ∀ run, (∀ p ∈ bin, p.1 = run) →
      0 < tokensOnRank (bin.flatMap (·.2.tokens seqLen)).length (mb.inputIds.length / cpSize) cpRank →
        UsesAdapter rankCounts run

/-- On each rank with tokens of a bin of one run, but for the last, at least half of the positions are tokens; a bin with
images is not split. -/
def Balanced (seqLen numLoras padToMultipleOf cpSize : Nat) (bin : List (Nat × TrainingSample R)) : Prop :=
  let n := (bin.flatMap (·.2.tokens seqLen)).length
  let chunkSize := (n + paddingSize padToMultipleOf n) / cpSize
  (1 < cpSize → ∀ p ∈ bin, hasImages p.2.mmKwargs = false) → ∀ run, (∀ p ∈ bin, p.1 = run) → run + 1 < numLoras →
    ∀ cpRank < cpSize, 0 < tokensOnRank n chunkSize cpRank → chunkSize ≤ 2 * tokensOnRank n chunkSize cpRank

/-- The counts of a rank are those of the runs of its positions. -/
theorem rankLoraNumTokens_spec {mb : MicroBatch R} {counts runs : List Nat} {numLoras cpSize cpRank : Nat}
    (hsome : mb.loraNumTokens = some counts) (hcounts : counts.length = numLoras)
    (hruns : labelled (List.range numLoras) counts = runs) (hlen : runs.length = mb.inputIds.length)
    (hdvd : cpSize ∣ mb.inputIds.length) (himages : 1 < cpSize → hasImages mb.mmKwargs = false) (hrank : cpRank < cpSize) :
    ∃ rankCounts, rankLoraNumTokens numLoras mb cpSize cpRank = .ok rankCounts ∧ rankCounts.length = numLoras ∧
      labelled (List.range numLoras) rankCounts =
        (runs.drop (mb.inputIds.length / cpSize * cpRank)).take (mb.inputIds.length / cpSize) := by
  have htensor : mb.loraTensor numLoras = counts := by
    unfold MicroBatch.loraTensor
    rw [hsome, Option.getD_some]
  unfold rankLoraNumTokens
  rw [htensor]
  split
  · rename_i hcp
    rw [himages hcp, if_neg Bool.false_ne_true]
    have hshard := shardForCp_of_dvd hdvd hrank
    have hchunk : ((mb.inputIds.drop (mb.inputIds.length / cpSize * cpRank)).take (mb.inputIds.length / cpSize)).length =
        mb.inputIds.length / cpSize := by
      obtain ⟨m, hm⟩ := hdvd
      have hpos : 0 < cpSize := by omega
      rw [hm, Nat.mul_div_cancel_left m hpos, List.length_take, List.length_drop, hm]
      have hle : m * (cpRank + 1) ≤ m * cpSize := Nat.mul_le_mul_left m hrank
      rw [Nat.mul_succ, Nat.mul_comm m cpSize] at hle
      omega
    refine ⟨_, bind_eq_ok.2 ⟨_, hshard, rfl⟩, ?_, ?_⟩
    · rw [splitLoraNumTokens_length, hcounts]
    · rw [hchunk, labelled_splitLoraNumTokens, hruns]
  · obtain rfl : cpSize = 1 := by omega
    obtain rfl : cpRank = 0 := by omega
    refine ⟨counts, rfl, hcounts, ?_⟩
    rw [hruns, Nat.mul_zero, List.drop_zero, Nat.div_one, ← hlen, List.take_length]

theorem rankRouted {S : Type} [NonUnitalNonAssocSemiring S] {groupedMm : GroupedMm S} (hgrouped : groupedMm.ByOffsets)
    (rank inFeatures outFeatures : Nat) {numLoras : Nat} {shard rankCounts : List Nat} (hpos : 0 < numLoras)
    (hlen : rankCounts.length = numLoras) (hshard : labelled (List.range numLoras) rankCounts = shard) :
    RankRouted groupedMm rank inFeatures outFeatures numLoras shard rankCounts where
  counts := by
    intro r hr
    subst hlen
    rw [count_labelled hr, hshard]
  linear := by
    intro layer x hA hB hscaling hx hdropout
    subst hlen
    have hsum : rankCounts.sum = x.length := by
      rw [hx, ← hshard, labelled_length List.length_range]
    obtain ⟨out, hforward, hout, hrows⟩ :=
      layer.forward_spec hgrouped (List.ne_nil_of_length_pos hpos) hA hB hscaling hsum hdropout
    rw [hshard] at hrows
    exact ⟨out, hforward, hout, hrows⟩

/-- The argmax of the counts of `a` positions of a run and `b` of the last adapter. -/
theorem argmax_of_one_run {counts : List Nat} {numLoras run a b : Nat} (hlen : counts.length = numLoras)
    (hcounts : ∀ r < numLoras, counts[r]? = some ((List.replicate a run ++ List.replicate b (numLoras - 1)).count r))
    (hrun : run < numLoras) (ha : 0 < a) :
    argmax counts = .ok run ↔ (run + 1 < numLoras → b ≤ a) := by
  have hcount : ∀ r, (List.replicate a run ++ List.replicate b (numLoras - 1)).count r =
      (if run = r then a else 0) + (if numLoras - 1 = r then b else 0) := by
    intro r
    simp [List.count_replicate]
  simp only [hcount] at hcounts
  rw [argmax_eq_ok_iff]
  constructor
  · rintro ⟨m, hm, hle, -⟩ hlast
    rw [hcounts run hrun, Option.some.injEq] at hm
    have hb := hle _ (List.mem_of_getElem? (hcounts (numLoras - 1) (by omega)))
    rw [← hm] at hb
    split_ifs at hb <;> omega
  · intro h
    refine ⟨_, hcounts run hrun, fun n hn => ?_, fun j hj => ?_⟩
    · obtain ⟨r, hr⟩ := List.getElem?_of_mem hn
      have hlt : r < numLoras := by
        rw [← hlen]
        exact (List.getElem?_eq_some_iff.1 hr).1
      rw [hcounts r hlt, Option.some.injEq] at hr
      rw [← hr]
      split_ifs <;> omega
    · rw [hcounts j (hj.trans hrun)]
      have hne : run ≠ j := by omega
      have hne' : numLoras - 1 ≠ j := by omega
      simp only [hne, hne', if_false, if_true, Nat.add_zero, ne_eq, Option.some.injEq]
      omega

/-- A window of the positions of one run and the padding. -/
theorem window_of_one_run {run last n m c lo : Nat} (hle : lo + c ≤ n + m) :
    ((List.replicate n run ++ List.replicate m last).drop lo).take c =
      List.replicate (min (n - lo) c) run ++ List.replicate (c - min (n - lo) c) last := by
  rw [List.drop_append, List.take_append, List.drop_replicate, List.drop_replicate, List.take_replicate, List.take_replicate,
    List.length_replicate, List.length_replicate]
  congr 2 <;> omega

section

variable [Zero R] [One R] {seqLen numLoras padToMultipleOf cpSize : Nat} {samples bin : List (Nat × TrainingSample R)}
  {mb : MicroBatch R} (hbin : bin ∈ assignment seqLen samples) (h : Sent seqLen numLoras padToMultipleOf bin mb)

include hbin h

/-- The counts of a micro batch label its positions with their runs, on every rank. -/
theorem sent_ranks (hdvd : cpSize ∣ padToMultipleOf) :
    ∃ counts, mb.loraNumTokens = some counts ∧ counts.length = numLoras ∧
      labelled (List.range numLoras) counts = positionRuns seqLen numLoras bin mb.inputIds.length ∧
      ((1 < cpSize → hasImages mb.mmKwargs = false) → ∀ cpRank < cpSize, ∃ shard rankCounts,
        shardForCp (positionRuns seqLen numLoras bin mb.inputIds.length) cpRank cpSize = .ok shard ∧
        rankLoraNumTokens numLoras mb cpSize cpRank = .ok rankCounts ∧ rankCounts.length = numLoras ∧
        labelled (List.range numLoras) rankCounts = shard ∧
        ∀ run, (∀ p ∈ bin, p.1 = run) →
          let chunkSize := mb.inputIds.length / cpSize
          let tokens := tokensOnRank (bin.flatMap (·.2.tokens seqLen)).length chunkSize cpRank
          0 < tokens → (UsesAdapter rankCounts run ↔ (run + 1 < numLoras → chunkSize ≤ 2 * tokens))) := by
  obtain ⟨hpos, hidx, hids, hcounts⟩ := sent_counts h
  have hlen : mb.inputIds.length = (tokenRuns seqLen bin).length +
      paddingSize padToMultipleOf (bin.flatMap (·.2.tokens seqLen)).length := by
    rw [hids, List.length_append, List.length_replicate, tokenRuns_length]
  have hruns : (positionRuns seqLen numLoras bin mb.inputIds.length).length = mb.inputIds.length := by
    rw [positionRuns, List.length_append, List.length_replicate]
    omega
  have hcp : cpSize ∣ mb.inputIds.length := by
    rw [hlen, tokenRuns_length]
    exact hdvd.trans (dvd_add_paddingSize hpos _)
  have hlabels : labelled (List.range numLoras) ((List.range numLoras).map
      (positionRuns seqLen numLoras bin mb.inputIds.length).count) = positionRuns seqLen numLoras bin mb.inputIds.length := by
    refine labelled_count (positionRuns_sorted hbin hidx _) fun r hr => ?_
    obtain ⟨p, hp⟩ := List.exists_mem_of_ne_nil bin (firstFit_ne_nil bin hbin)
    have hlast := hidx p hp
    rcases List.mem_append.1 hr with hr | hr
    · obtain ⟨q, hq, rfl⟩ := mem_tokenRuns hr
      exact hidx q hq
    · rw [List.eq_of_mem_replicate hr]
      omega
  refine ⟨_, hcounts, by simp, hlabels, fun himages cpRank hrank => ?_⟩
  obtain ⟨rankCounts, hrankCounts, hranklen, hshard⟩ :=
    rankLoraNumTokens_spec hcounts (by simp) hlabels hruns hcp himages hrank
  have hruns' := shardForCp_of_dvd (hruns.symm ▸ hcp) hrank
  rw [hruns] at hruns'
  refine ⟨_, rankCounts, hruns', hrankCounts, hranklen, hshard, fun run hone => ?_⟩
  dsimp only
  intro htokens
  have hrun : run < numLoras := by
    obtain ⟨p, hp⟩ := List.exists_mem_of_ne_nil bin (firstFit_ne_nil bin hbin)
    rw [← hone p hp]
    exact hidx p hp
  have hle : mb.inputIds.length / cpSize * cpRank + mb.inputIds.length / cpSize ≤ mb.inputIds.length := by
    rw [← Nat.mul_succ]
    exact (Nat.mul_le_mul_left _ hrank).trans (Nat.div_mul_le_self _ _)
  have hwindow : labelled (List.range numLoras) rankCounts =
      List.replicate (tokensOnRank (bin.flatMap (·.2.tokens seqLen)).length (mb.inputIds.length / cpSize) cpRank) run ++
        List.replicate (mb.inputIds.length / cpSize -
          tokensOnRank (bin.flatMap (·.2.tokens seqLen)).length (mb.inputIds.length / cpSize) cpRank) (numLoras - 1) := by
    rw [hshard, positionRuns, tokenRuns_of_one hone, List.length_replicate, tokensOnRank, tokenRuns_length,
      window_of_one_run (by rw [← tokenRuns_length]; omega)]
  have hcounted : ∀ r < numLoras, rankCounts[r]? = some ((labelled (List.range numLoras) rankCounts).count r) := by
    intro r hr
    subst hranklen
    exact count_labelled hr
  simp only [hwindow] at hcounted
  rw [usesAdapter_iff, argmax_of_one_run hranklen hcounted hrun htokens]
  refine imp_congr_right fun _ => ?_
  have htotal : tokensOnRank (bin.flatMap (·.2.tokens seqLen)).length (mb.inputIds.length / cpSize) cpRank ≤
      mb.inputIds.length / cpSize := Nat.min_le_right ..
  omega

theorem sent_hasImages : (1 < cpSize → hasImages mb.mmKwargs = false) ↔
    (1 < cpSize → ∀ p ∈ bin, hasImages p.2.mmKwargs = false) := by
  refine imp_congr_right fun _ => ?_
  obtain ⟨b, source, hb, hsource, hmb⟩ := h
  obtain ⟨-, x, hx, hmm, -⟩ := hb.head
  have hsame : mb.mmKwargs = x.2.mmKwargs := by
    have hpadded := (padMicroBatch_padded hsource).2.2.mmKwargs
    rcases hmb with rfl | rfl
    · exact hpadded.trans hmm
    · exact hpadded.trans hmm
  obtain ⟨p, l, rfl⟩ := List.exists_cons_of_ne_nil (firstFit_ne_nil bin hbin)
  obtain rfl : packedItem seqLen p = x := by simpa using hx
  rw [hsame]
  show hasImages p.2.mmKwargs = false ↔ _
  rcases (assignment_bins seqLen _ hbin).2.2 with hnone | ⟨q, hq⟩
  · have hall : ∀ q ∈ p :: l, hasImages q.2.mmKwargs = false := by
      intro q hq
      rw [Option.isNone_iff_eq_none.1 (hnone q hq)]
      rfl
    exact ⟨fun _ => hall, fun _ => hall p List.mem_cons_self⟩
  · obtain ⟨rfl, rfl⟩ := List.cons.inj hq
    simp

/-- A micro batch is routed iff the samples in it are balanced. -/
theorem adapterRouted_iff {S : Type} [NonUnitalNonAssocSemiring S] {groupedMm : GroupedMm S} (hgrouped : groupedMm.ByOffsets)
    (rank inFeatures outFeatures : Nat) (hdvd : cpSize ∣ padToMultipleOf) :
    (∃ counts, AdapterRouted groupedMm rank inFeatures outFeatures seqLen numLoras cpSize bin mb counts) ↔
      Balanced seqLen numLoras padToMultipleOf cpSize bin := by
  obtain ⟨-, hidx, hids, -⟩ := sent_counts h
  obtain ⟨counts, hcounts, hlen, hlabels, hranks⟩ := sent_ranks hbin h hdvd
  have hsize : mb.inputIds.length = (bin.flatMap (·.2.tokens seqLen)).length +
      paddingSize padToMultipleOf (bin.flatMap (·.2.tokens seqLen)).length := by
    rw [hids, List.length_append, List.length_replicate]
  constructor
  · rintro ⟨counts', hrouted⟩ himages run hone hrun cpRank hrank htokens
    have himages' := (sent_hasImages hbin h).2 himages
    have hsame := hrouted.loraNumTokens
    rw [hcounts] at hsame
    cases hsame
    obtain ⟨shard, rankCounts, -, hrankCounts, -, -, hexperts⟩ := hranks himages' cpRank hrank
    obtain ⟨shard', rankCounts', -, hrankCounts', -, huses⟩ := hrouted.ranks himages' cpRank hrank
    rw [hrankCounts] at hrankCounts'
    cases hrankCounts'
    rw [← hsize] at htokens ⊢
    exact (hexperts run hone htokens).1 (huses run hone htokens) hrun
  · intro hbalanced
    have hpos : 0 < numLoras := by
      obtain ⟨p, hp⟩ := List.exists_mem_of_ne_nil bin (firstFit_ne_nil bin hbin)
      exact Nat.zero_lt_of_lt (hidx p hp)
    have hsum : counts.sum = mb.inputIds.length := by
      have hrange : (List.range numLoras).length = counts.length := by simp [hlen]
      rw [← labelled_length hrange, hlabels, positionRuns, List.length_append, List.length_replicate, tokenRuns_length]
      omega
    refine ⟨counts, hcounts, hlen, hsum, ⟨_, hids⟩, hlabels, fun himages cpRank hrank => ?_⟩
    obtain ⟨shard, rankCounts, hshard, hrankCounts, hranklen, hranklabels, hexperts⟩ := hranks himages cpRank hrank
    refine ⟨shard, rankCounts, hshard, hrankCounts, rankRouted hgrouped rank inFeatures outFeatures hpos hranklen hranklabels,
      fun run hone htokens => (hexperts run hone htokens).2 fun hrun => ?_⟩
    rw [hsize] at htokens ⊢
    exact hbalanced ((sent_hasImages hbin h).1 himages) run hone hrun cpRank hrank htokens

end

/-- Every bin is sent, and what is sent is a bin. -/
theorem sent_of_prepareBatch [Zero R] [One R] {samples : List (Nat × TrainingSample R)}
    {seqLen w numLoras padToMultipleOf : Nat} {grid : List (List (MicroBatch R))}
    (hgrid : prepareBatch (samples.map Prod.snd) seqLen w (samples.map Prod.fst) numLoras padToMultipleOf = .ok grid) :
    (∀ row ∈ grid, ∀ mb ∈ row, ∃ bin ∈ assignment seqLen samples, Sent seqLen numLoras padToMultipleOf bin mb) ∧
      ∀ bin ∈ assignment seqLen samples, ∃ row ∈ grid, ∃ mb ∈ row, Sent seqLen numLoras padToMultipleOf bin mb := by
  refine ⟨fun row hrow mb hmb => ?_, fun bin hbin => ?_⟩
  · obtain ⟨bin, hbin, -, b, source, hb, hsource, hkind⟩ := exists_source_of_prepareBatch hgrid hrow hmb
    exact ⟨bin, hbin, b, source, hb, hsource, hkind⟩
  · obtain ⟨hw, -, mbs, hmbs, rfl⟩ := prepareBatch_eq_ok_iff.1 hgrid
    obtain ⟨dummies, q, m, -, hperm, -⟩ := distributeBatches_rows hw mbs
    obtain ⟨mb, hmb, b, hb, hpad⟩ := exists_of_mem_forall₂ (List.Forall₂.flip hmbs) hbin
    obtain ⟨row, hrow, hin⟩ := List.mem_flatten.1 (hperm.symm.subset (List.mem_append_left dummies hmb))
    exact ⟨row, hrow, mb, hin, b, mb, hb, hpad, Or.inl rfl⟩

/-- **Main.** Every micro batch is a bin of the samples, and all of them are routed iff every bin is balanced. -/
theorem adapterRouting [Zero R] [One R] {S : Type} [NonUnitalNonAssocSemiring S] {groupedMm : GroupedMm S}
    (hgrouped : groupedMm.ByOffsets) (rank inFeatures outFeatures : Nat) {samples : List (Nat × TrainingSample R)}
    {seqLen w numLoras padToMultipleOf cpSize : Nat} {grid : List (List (MicroBatch R))}
    (hgrid : prepareBatch (samples.map Prod.snd) seqLen w (samples.map Prod.fst) numLoras padToMultipleOf = .ok grid)
    (hdvd : cpSize ∣ padToMultipleOf) :
    (∀ row ∈ grid, ∀ mb ∈ row, ∃ bin ∈ assignment seqLen samples, Sent seqLen numLoras padToMultipleOf bin mb) ∧
    ((∀ row ∈ grid, ∀ mb ∈ row, ∀ bin ∈ assignment seqLen samples, Sent seqLen numLoras padToMultipleOf bin mb →
        ∃ counts, AdapterRouted groupedMm rank inFeatures outFeatures seqLen numLoras cpSize bin mb counts) ↔
      ∀ bin ∈ assignment seqLen samples, Balanced seqLen numLoras padToMultipleOf cpSize bin) := by
  obtain ⟨hsent, hbins⟩ := sent_of_prepareBatch hgrid
  refine ⟨hsent, fun h bin hbin => ?_, fun h row _ mb _ bin hbin hmb => ?_⟩
  · obtain ⟨row, hrow, mb, hmb, hs⟩ := hbins bin hbin
    exact (adapterRouted_iff hbin hs hgrouped rank inFeatures outFeatures hdvd).1 (h row hrow mb hmb bin hbin hs)
  · exact (adapterRouted_iff hbin hmb hgrouped rank inFeatures outFeatures hdvd).2 (h bin hbin)

/-! ## Examples -/

/-- Grouped products as products of slices. -/
def slicedMm (m n : Nat) (x : List (Fin n → Int)) (weights : List (Matrix (Fin m) (Fin n) Int)) (offsets : List Nat) :
    List (Fin m → Int) :=
  List.zipWith Matrix.mulVec (labelled weights (diffs 0 offsets)) x

theorem slicedMm_byOffsets : GroupedMm.ByOffsets slicedMm := by
  intro m n x weights counts _ _
  rw [slicedMm, diffs_ends]

def tokensOf (n : Nat) : TrainingSample Int where
  promptIds := []
  promptMask := []
  completionIds := List.replicate n 5
  completionMask := List.replicate n true
  completionLogprobs := List.replicate n (-1)
  completionTemperatures := List.replicate n 1
  envName := "env"
  teacherLogprobs := none
  advantage := none
  reward := none
  mmKwargs := none
  routedExperts := none
  mmTokenTypeIds := none
  trainingMode := .rl

/-- Three tokens of the first of two runs on two ranks. -/
theorem adapterRouting_threeTokens : ∃ grid, prepareBatch [tokensOf 3] 8 1 [0] 2 2 = .ok grid ∧
    ∀ row ∈ grid, ∀ mb ∈ row, ∀ bin ∈ assignment 8 [(0, tokensOf 3)], Sent 8 2 2 bin mb →
      ∃ counts, AdapterRouted slicedMm 1 1 1 8 2 2 bin mb counts := by
  obtain ⟨grid, hgrid⟩ : ∃ grid, prepareBatch ([(0, tokensOf 3)].map Prod.snd) 8 1 ([(0, tokensOf 3)].map Prod.fst) 2 2 =
    .ok grid := ⟨_, rfl⟩
  refine ⟨grid, hgrid, (adapterRouting slicedMm_byOffsets 1 1 1 hgrid (dvd_refl 2)).2.2 fun bin hbin => ?_⟩
  have hone : assignment 8 [(0, tokensOf 3)] = [[(0, tokensOf 3)]] := rfl
  rw [hone, List.mem_singleton] at hbin
  subst hbin
  intro _ run _ _ cpRank hrank _
  obtain rfl | rfl : cpRank = 0 ∨ cpRank = 1 := by omega
  · decide
  · decide

/-- Seven tokens of the first of two runs on three ranks: the last one has a token and two positions of padding. -/
theorem adapterRouting_sevenTokens : ∃ mb, prepareBatch [tokensOf 7] 8 1 [0] 2 3 = .ok [[mb]] ∧
    Sent 8 2 3 [(0, tokensOf 7)] mb ∧ ¬ ∃ counts, AdapterRouted slicedMm 1 1 1 8 2 3 [(0, tokensOf 7)] mb counts := by
  obtain ⟨mb, hgrid, himages, hcounts, hids, hsent⟩ : ∃ mb, prepareBatch [tokensOf 7] 8 1 [0] 2 3 = .ok [[mb]] ∧
      hasImages mb.mmKwargs = false ∧ rankLoraNumTokens 2 mb 3 2 = .ok [1, 2] ∧ mb.inputIds.length = 9 ∧
        Sent 8 2 3 [(0, tokensOf 7)] mb :=
    ⟨_, rfl, rfl, rfl, rfl, _, _, .opened rfl, rfl, Or.inl rfl⟩
  refine ⟨mb, hgrid, hsent, ?_⟩
  rintro ⟨counts, hrouted⟩
  obtain ⟨shard, rankCounts, -, hrank, -, huses⟩ := hrouted.ranks (fun _ => himages) 2 (by decide)
  rw [hcounts] at hrank
  cases hrank
  rw [hids] at huses
  have hargmax := usesAdapter_iff.1 (huses 0 (by simp) (by decide))
  cases hargmax

end AuroraRl.Trainer
