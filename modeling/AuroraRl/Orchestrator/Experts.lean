import AuroraRl.Lib.Splice
import AuroraRl.Orchestrator.Interleave
import Mathlib

/-!
# The routed experts of interleaved samples

* `stepRows`, `mergedRows` : the entries a step reports, and what a sample takes of those of its steps;
* `Finished` : the tokens and routed experts of a returned sample, for every rollout (`interleaveRollout_spec`);
* `SampleAligned` : each entry is the one reported for its token;
* `Rollout.withEntries` : the same steps with other entries;
* `routedExpertAlignment` : the entries are aligned, whatever was reported, iff no sample has a gap in its reports.
-/

namespace AuroraRl.Orchestrator
open AuroraRl.Trainer FirstFit Splice

variable {R π : Type}

/-! ## The entries of a sample -/

/-- The entries a step reports. -/
def stepRows (x : Nat × StepTokens R π) : List (List UInt8) := (x.2.routedExperts.map (·.rows)).getD []

/-- The tokens a step can report an entry for: all but the last. -/
def stepSize (x : Nat × StepTokens R π) : Nat := x.2.ids.length - 1

/-- The entries of the chunks of a sample. -/
def mergedRows (bin : List (Nat × StepTokens R π)) : List (List UInt8) := spliced stepRows stepSize 0 bin

/-- The groups of steps that become samples. -/
def mergedSteps (output : Rollout R π) : List (List (Nat × StepTokens R π)) :=
  firstFit stepExtends (numbered output.trajectory.reduceOption)

/-- The routed experts of a sample whose first step carries some. -/
def carried (bin : List (Nat × StepTokens R π)) : Option ByteArray2 := bin.head?.bind (·.2.routedExperts)

def sampleIds (sample : TrainingSample R) : List Int := sample.promptIds ++ sample.completionIds

theorem newChunks_rows (r : ByteArray2) (n : Nat) : (newChunks r n).flatMap (·.rows) = r.rows.drop (n - 1) := by
  unfold newChunks ByteArray2.slice
  split_ifs with h
  · obtain ⟨n, rfl⟩ := Nat.exists_eq_add_of_lt h.1
    have hn : 0 + n + 1 - 1 = n := by omega
    have htake : r.rows.take (0 + n + 1) = r.rows.take n ++ (r.rows.drop n).take 1 := by
      rw [← List.take_add, Nat.zero_add]
    simp only [List.flatMap_cons, List.flatMap_nil, List.append_nil, List.take_length, hn]
    rw [htake, List.drop_append_of_le_length (by simp; omega), List.drop_of_length_le (by simp), List.nil_append,
      show 0 + n + 1 = n + 1 by omega, ← List.drop_drop, List.take_append_drop]
  · simp only [List.flatMap_cons, List.flatMap_nil, List.append_nil, List.take_length]
    rcases Nat.eq_zero_or_pos n with rfl | hpos
    · rfl
    · rw [List.drop_of_length_le (by omega), List.drop_of_length_le (by omega)]

/-- The chunks of a sample while it is built. -/
structure Chunked (bin : List (Nat × StepTokens R π)) (a : Active R) : Prop where
  rows : a.chunks.map (·.flatMap (·.rows)) = (carried bin).map fun _ => mergedRows bin
  nonempty : ∀ chunks, a.chunks = some chunks → chunks ≠ []

section

variable [Zero R] {output : Rollout R π} {bin : List (Nat × StepTokens R π)} {a : Active R} {x : Nat × StepTokens R π}

omit [Zero R] in
theorem chunked_makeSample (output : Rollout R π) (x : Nat × StepTokens R π) : Chunked [x] (makeSample output x) := by
  cases hr : x.2.routedExperts with
  | none => exact ⟨by simp [makeSample, carried, hr], by simp [makeSample, hr]⟩
  | some r => exact ⟨by simp [makeSample, carried, hr, mergedRows, spliced, stepRows], by simp [makeSample, hr]⟩

theorem chunked_extendSample (hne : bin ≠ []) (hids : ∀ y ∈ bin.getLast?, a.prefixTokens = y.2.ids) (ha : Chunked bin a) :
    Chunked (bin ++ [x]) (extendSample output a x) := by
  have hcarried : carried (bin ++ [x]) = carried bin := by
    unfold carried
    rw [List.head?_append_of_ne_nil _ hne]
  have hlast : lastSize stepSize 0 bin = a.prefixTokens.length - 1 := by
    obtain ⟨l, w, rfl⟩ := (List.eq_nil_or_concat' bin).resolve_left hne
    rw [lastSize_concat, hids w (by simp), stepSize]
  have hmerged : mergedRows (bin ++ [x]) = mergedRows bin ++ (stepRows x).drop (a.prefixTokens.length - 1) := by
    rw [mergedRows, spliced_concat, hlast, mergedRows]
  have hrows := ha.rows
  rcases hc : a.chunks with _ | chunks
  · have hnone : carried bin = none := by simpa [hc] using hrows
    refine ⟨?_, ?_⟩
    · rw [hcarried, hnone]
      cases hr : x.2.routedExperts <;> simp [extendSample, hr, hc]
    · cases hr : x.2.routedExperts <;> simp [extendSample, hr, hc]
  · rw [hc, Option.map_some] at hrows
    obtain ⟨r₀, hsome, heq⟩ := Option.map_eq_some_iff.1 hrows.symm
    have hmap : (carried (bin ++ [x])).map (fun _ => mergedRows (bin ++ [x])) =
        some (chunks.flatMap (·.rows) ++ (stepRows x).drop (a.prefixTokens.length - 1)) := by
      rw [hcarried, hsome, Option.map_some, hmerged, heq]
    have hold := ha.nonempty chunks hc
    cases hr : x.2.routedExperts with
    | none => exact ⟨by simp [hmap, extendSample, hr, hc, stepRows], by simp [extendSample, hr, hc, hold]⟩
    | some r => exact ⟨by simp [hmap, extendSample, hr, hc, stepRows, newChunks_rows], by simp [extendSample, hr, hc, hold]⟩

theorem chunked_of_grown (h : Grown output bin a) : Chunked bin a := by
  induction h with
  | opened h =>
      cases h
      exact chunked_makeSample output _
  | added hgrown h ih =>
      cases h
      exact chunked_extendSample hgrown.ne_nil (Grown.prefixTokens hgrown) ih

end

/-! ## The returned samples -/

/-- The tokens and the routed experts of a returned sample. -/
structure Finished (layers topk : Nat) (bin : List (Nat × StepTokens R π)) (sample : TrainingSample R) : Prop where
  ids : ∀ x ∈ bin.getLast?, sampleIds sample = x.2.ids
  routedExperts : sample.routedExperts = (carried bin).map fun _ =>
    ⟨(alignedRows (layers * topk) (sampleIds sample).length (mergedRows bin)).flatten,
      [(sampleIds sample).length, layers, topk], "uint8"⟩

theorem finalizeRoutedExperts_routedExperts {a a' : Active R} {bin : List (Nat × StepTokens R π)} {layers topk : Nat}
    (ha : Chunked bin a) (hnone : a.sample.routedExperts = none)
    (hchunks : ∀ chunks, a.chunks = some chunks → ∀ c ∈ chunks, c.rowShape = [layers, topk])
    (h : finalizeRoutedExperts a = .ok a') : a'.sample.routedExperts = (carried bin).map fun _ =>
      ⟨(alignedRows (layers * topk) (sampleIds a.sample).length (mergedRows bin)).flatten,
        [(sampleIds a.sample).length, layers, topk], "uint8"⟩ := by
  have hrows := ha.rows
  unfold finalizeRoutedExperts at h
  rcases hc : a.chunks with _ | _ | ⟨c, chunks⟩
  · have hcarried : carried bin = none := by simpa [hc] using hrows
    rw [hc] at h
    cases h
    rw [hcarried, hnone, Option.map_none]
  · exact absurd rfl (ha.nonempty _ hc)
  · rw [hc, Option.map_some] at hrows
    obtain ⟨r₀, hsome, hmerged⟩ := Option.map_eq_some_iff.1 hrows.symm
    obtain ⟨r, hr, hrrows, hshape⟩ := ByteArray2.concatenate_spec (List.cons_ne_nil c chunks) (hchunks _ hc)
    obtain ⟨r', hr', hr'rows, hshape'⟩ := alignRoutedExperts_spec (a := r) (by rw [hshape]; rfl)
      (a.sample.promptIds.length + a.sample.completionIds.length)
    simp only [hc, hr, hr', ok_bind] at h
    cases h
    have hsize : (r.rowShape.foldr (· * ·) 1) = layers * topk := by simp [hshape]
    rw [hsome, Option.map_some, hmerged, ← hrrows, ← hsize, sampleIds, List.length_append]
    simp [ByteArray2.encode, hr'rows, hshape', hshape]

theorem attachImages_keeps {concat : List π → Except PyException EncodedTensor} {mapping : Option (Dict Int Int)}
    {steps : List (StepTokens R π)} {a a' : Active R} (h : attachImages concat mapping steps a = .ok a') :
    a'.sample.routedExperts = a.sample.routedExperts := by
  unfold attachImages at h
  split at h
  · cases h
    rfl
  · obtain ⟨mmKwargs, -, h⟩ := bind_eq_ok.1 h
    cases mmKwargs <;> cases h <;> rfl

/-- What a step reports, as the inference engine does: an entry for every token but the last. -/
def Rollout.Reports (layers topk : Nat) (output : Rollout R π) : Prop :=
  ∀ tokens, some tokens ∈ output.trajectory → ∀ r, tokens.routedExperts = some r →
    r.rowShape = [layers, topk] ∧ r.rows.length = tokens.ids.length - 1

theorem reduceOption_map_some {α : Type} (l : List α) : (l.map some).reduceOption = l := by
  simp [List.reduceOption]

/-- The samples of a rollout, one for each group of steps. -/
theorem interleaveRollout_spec [Zero R] {output : Rollout R π} {concat : List π → Except PyException EncodedTensor}
    {layers topk : Nat} (hwf : output.WellFormed concat) (hreports : output.Reports layers topk)
    (mapping : Option (Dict Int Int)) (hne : output.trajectory ≠ []) :
    ∃ samples, interleaveRollout concat mapping output = .ok (some samples) ∧
      List.Forall₂ (Finished layers topk) (mergedSteps output) samples := by
  obtain ⟨steps, htraj, hstepWf, hconcat⟩ := hwf.exists_steps
  have hbins : mergedSteps output = firstFit stepExtends (numbered steps) := by
    rw [mergedSteps, htraj, reduceOption_map_some]
  have hnil : steps ≠ [] := by
    rintro rfl
    exact hne htraj
  have hparts : List.Forall₂ (fun bin a => ∃ a' a'' cells, finalizeRoutedExperts a = .ok a' ∧
      attachImages concat mapping steps a' = .ok a'' ∧
        Finished layers topk (⟨bin, cells, a''.sample⟩ : Part R π).steps (⟨bin, cells, a''.sample⟩ : Part R π).sample)
      (firstFit stepExtends (numbered steps)) ((numbered steps).foldl (mergeStep output) []) := by
    refine ((List.forall₂_and_left _ _).2 ⟨fun bin h => h, foldl_mergeStep (numbered steps)⟩).imp ?_
    rintro bin a ⟨hbin, hgrown⟩
    obtain ⟨cells, ha⟩ := interleaved_of_grown hstepWf bin hbin a hgrown
    have hchunks : ∀ chunks, a.chunks = some chunks → ∀ c ∈ chunks, c.rowShape = [layers, topk] := by
      intro chunks hc c hmem
      obtain ⟨x, hx, r, hr, heq⟩ := ha.chunks chunks hc c hmem
      have hin : some x.2 ∈ output.trajectory := by
        rw [htraj]
        exact List.mem_map_of_mem (List.mem_of_getElem? (mem_numbered.1 (mem_of_firstFit hbin hx)))
      exact heq.trans (hreports x.2 hin r hr).1
    obtain ⟨a', hfinal, hatt⟩ := finalizeRoutedExperts_spec ha.optional.2.1 ha.optional.2.2 hchunks
    obtain ⟨a'', hattach, hatt'⟩ := attachImages_spec hconcat mapping hatt
    have hids : sampleIds a''.sample = sampleIds a.sample :=
      hatt'.field sampleIds fun _ => rfl
    refine ⟨a', a'', cells, hfinal, hattach, ?_, ?_⟩
    · intro x hx
      exact hids.trans (ha.last x hx).2
    · show a''.sample.routedExperts = _
      rw [hids, attachImages_keeps hattach]
      exact finalizeRoutedExperts_routedExperts (chunked_of_grown hgrown) ha.optional.2.1 hchunks hfinal
  obtain ⟨l, l', parts, hl, hl', hsamples, hsteps, hall⟩ :=
    exists_parts (P := fun p => Finished layers topk p.steps p.sample) hparts
  refine ⟨parts.map Part.sample, ?_, ?_⟩
  · rw [interleaveRollout_eq htraj hnil, hl, ok_bind, hl', ok_bind, hsamples]
    rfl
  · rw [hbins, ← hsteps, List.forall₂_map_left_iff, List.forall₂_map_right_iff, List.forall₂_same]
    exact hall

/-! ## The steps of a sample -/

section

variable {output : Rollout R π} {bin : List (Nat × StepTokens R π)} {layers topk : Nat} {x : Nat × StepTokens R π}

theorem mem_trajectory (hbin : bin ∈ mergedSteps output) (hx : x ∈ bin) : some x.2 ∈ output.trajectory := by
  apply List.reduceOption_mem_iff.1
  exact List.mem_of_getElem? (mem_numbered.1 (mem_of_firstFit hbin hx))

/-- Each step of a sample has the tokens of those before it first. -/
theorem mergedSteps_pairwise (hbin : bin ∈ mergedSteps output) : bin.Pairwise fun w x => w.2.ids <+: x.2.ids := by
  refine firstFit_bins (fun x _ => List.pairwise_singleton _ x) ?_ bin hbin
  intro bin x _ hpair htakes
  refine List.pairwise_append.2 ⟨hpair, List.pairwise_singleton _ x, fun y hy z hz => ?_⟩
  rw [List.mem_singleton.1 hz]
  obtain ⟨l, w, rfl⟩ := (List.eq_nil_or_concat' bin).resolve_left (List.ne_nil_of_mem hy)
  have hlast : w.2.ids <+: x.2.ids := by
    have htake : x.2.promptIds.take w.2.ids.length = w.2.ids := by simpa [stepExtends] using htakes
    rw [← htake]
    exact (List.take_prefix _ _).trans (List.prefix_append _ _)
  rcases List.mem_append.1 hy with hy | hy
  · exact ((List.pairwise_append.1 hpair).2.2 y hy w (List.mem_singleton_self w)).trans hlast
  · rwa [List.mem_singleton.1 hy]

theorem stepRows_eq (hreports : output.Reports layers topk) (hx : some x.2 ∈ output.trajectory) :
    (stepRows x ≠ [] → (stepRows x).length = stepSize x) ∧ ∀ row ∈ stepRows x, row.length = layers * topk := by
  cases hr : x.2.routedExperts with
  | none => simp [stepRows, hr]
  | some r =>
      obtain ⟨hshape, hlen⟩ := hreports x.2 hx r hr
      refine ⟨fun _ => by simpa [stepRows, hr, stepSize] using hlen, fun row hrow => ?_⟩
      have hmem : row ∈ r.rows := by simpa [stepRows, hr] using hrow
      simpa [hshape] using r.rows_length row hmem

theorem reporting_of_mem (hreports : output.Reports layers topk) (hbin : bin ∈ mergedSteps output) :
    Reporting stepRows stepSize bin := by
  refine ⟨fun x hx => (stepRows_eq hreports (mem_trajectory hbin hx)).1, ?_⟩
  exact (mergedSteps_pairwise hbin).imp fun h => Nat.sub_le_sub_right h.length_le 1

/-- A step of a sample has the tokens of the sample. -/
theorem ids_getElem? (hbin : bin ∈ mergedSteps output) {sample : TrainingSample R}
    (hlast : ∀ x ∈ bin.getLast?, sampleIds sample = x.2.ids) (hx : x ∈ bin) {k : Nat} (hk : k < x.2.ids.length) :
    x.2.ids[k]? = (sampleIds sample)[k]? := by
  obtain ⟨l, w, rfl⟩ := (List.eq_nil_or_concat' bin).resolve_left (List.ne_nil_of_mem hx)
  have hle : x.2.ids <+: w.2.ids := by
    rcases List.mem_append.1 hx with hx | hx
    · exact (List.pairwise_append.1 (mergedSteps_pairwise hbin)).2.2 x hx w (List.mem_singleton_self w)
    · rw [List.mem_singleton.1 hx]
  obtain ⟨t, ht⟩ := hle
  rw [hlast w (by simp), ← ht, List.getElem?_append_left hk]

end

/-! ## Alignment -/

/-- The entry of a token in the routed experts of a sample. -/
def entryAt (experts : RoutedExperts) (size k : Nat) : List UInt8 := (experts.data.drop (k * size)).take size

/-- The routed experts of a sample have an entry for each token: the one that a step of the sample reported for it, or
zeros where none did. -/
def SampleAligned (layers topk : Nat) (bin : List (Nat × StepTokens R π)) (sample : TrainingSample R) : Prop :=
  ∀ experts, sample.routedExperts = some experts →
    experts.shape = [(sampleIds sample).length, layers, topk] ∧
    experts.data.length = (sampleIds sample).length * (layers * topk) ∧
    ∀ k < (sampleIds sample).length,
      (∃ x ∈ bin, (stepRows x)[k]? = some (entryAt experts (layers * topk) k) ∧ x.2.ids[k]? = (sampleIds sample)[k]?) ∨
      ((∀ x ∈ bin, (stepRows x).length ≤ k) ∧ entryAt experts (layers * topk) k = List.replicate (layers * topk) 0)

/-- So it is in each sample of a rollout. -/
def ExpertsAligned [Zero R] (concat : List π → Except PyException EncodedTensor) (mapping : Option (Dict Int Int))
    (layers topk : Nat) (output : Rollout R π) : Prop :=
  ∃ result, interleaveRollout concat mapping output = .ok result ∧
    ∀ samples, result = some samples → List.Forall₂ (SampleAligned layers topk) (mergedSteps output) samples

theorem length_flatten_of_uniform {rows : List (List UInt8)} {size : Nat} (h : ∀ row ∈ rows, row.length = size) :
    rows.flatten.length = rows.length * size := by
  rw [List.length_flatten, List.eq_replicate_of_mem (fun n hn => ?_ : ∀ n ∈ rows.map List.length, n = size)]
  · simp
  · obtain ⟨row, hrow, rfl⟩ := List.mem_map.1 hn
    exact h row hrow

theorem flatten_slice {rows : List (List UInt8)} {size k : Nat} {row : List UInt8} (h : ∀ row ∈ rows, row.length = size)
    (hk : rows[k]? = some row) : (rows.flatten.drop (k * size)).take size = row := by
  induction rows generalizing k with
  | nil => simp at hk
  | cons r rows ih =>
      obtain ⟨hr, hrows⟩ := List.forall_mem_cons.1 h
      cases k with
      | zero =>
          obtain rfl : r = row := by simpa using hk
          simp [← hr]
      | succ k =>
          rw [List.getElem?_cons_succ] at hk
          rw [List.flatten_cons, Nat.succ_mul, Nat.add_comm, ← List.drop_drop, ← hr, List.drop_left, hr]
          exact ih hrows hk

theorem alignedRows_getElem? {rowSize n k : Nat} {rows : List (List UInt8)} (hk : k < n) :
    (alignedRows rowSize n rows)[k]? = some (rows[k]?.getD (List.replicate rowSize 0)) := by
  unfold alignedRows
  rw [List.getElem?_append, List.length_take]
  split_ifs with hlt
  · rw [List.getElem?_take_of_lt hk, List.getElem?_eq_getElem (by omega), Option.getD_some]
  · rw [List.getElem?_replicate, if_pos (by omega), List.getElem?_eq_none (by omega), Option.getD_none]

theorem alignedRows_uniform {rowSize n : Nat} {rows : List (List UInt8)} (h : ∀ row ∈ rows, row.length = rowSize) :
    ∀ row ∈ alignedRows rowSize n rows, row.length = rowSize := by
  intro row hrow
  rcases List.mem_append.1 hrow with hrow | hrow
  · exact h row (List.mem_of_mem_take hrow)
  · rw [List.eq_of_mem_replicate hrow, List.length_replicate]

section

variable {output : Rollout R π} {bin : List (Nat × StepTokens R π)} {layers topk : Nat} {sample : TrainingSample R}

theorem mergedRows_uniform (hreports : output.Reports layers topk) (hbin : bin ∈ mergedSteps output) :
    ∀ row ∈ mergedRows bin, row.length = layers * topk := by
  intro row hrow
  have hrep := reporting_of_mem hreports hbin
  obtain ⟨x, hx, j, -, hj⟩ := mem_spliced (fun _ _ => Nat.zero_le _) hrep.sorted hrow
  exact (stepRows_eq hreports (mem_trajectory hbin hx)).2 row (List.mem_of_getElem? hj)

theorem Finished.entryAt_eq (hreports : output.Reports layers topk) (hbin : bin ∈ mergedSteps output)
    (h : Finished layers topk bin sample) {experts : RoutedExperts} (hexperts : sample.routedExperts = some experts) {k : Nat}
    (hk : k < (sampleIds sample).length) :
    entryAt experts (layers * topk) k = (mergedRows bin)[k]?.getD (List.replicate (layers * topk) 0) := by
  rw [h.routedExperts] at hexperts
  obtain ⟨_, -, rfl⟩ := Option.map_eq_some_iff.1 hexperts
  exact flatten_slice (alignedRows_uniform (mergedRows_uniform hreports hbin)) (alignedRows_getElem? hk)

theorem Finished.aligned (hreports : output.Reports layers topk) (hbin : bin ∈ mergedSteps output)
    (hgap : (carried bin).isSome → Gapless stepRows stepSize bin) (h : Finished layers topk bin sample) :
    SampleAligned layers topk bin sample := by
  intro experts hexperts
  have hentry := fun k => h.entryAt_eq hreports hbin hexperts (k := k)
  have huniform := alignedRows_uniform (n := (sampleIds sample).length) (mergedRows_uniform hreports hbin)
  rw [h.routedExperts] at hexperts
  obtain ⟨_, hcarried, rfl⟩ := Option.map_eq_some_iff.1 hexperts
  have hrep := reporting_of_mem hreports hbin
  obtain ⟨hlen, hrows⟩ := spliced_of_gapless hrep (hgap (by simp [hcarried]))
  refine ⟨rfl, (length_flatten_of_uniform huniform).trans (by rw [alignedRows_length]), fun k hk => ?_⟩
  rw [hentry k hk]
  cases hrow : (mergedRows bin)[k]? with
  | some row =>
      left
      obtain ⟨x, hx, hget⟩ := hrows k row hrow
      refine ⟨x, hx, hget, ids_getElem? hbin h.ids hx ?_⟩
      have hlt := (List.getElem?_eq_some_iff.1 hget).1
      exact hlt.trans_le ((hrep.length_le hx).trans (Nat.sub_le _ _))
  | none =>
      right
      refine ⟨fun x hx => ?_, rfl⟩
      have hle : (mergedRows bin).length ≤ k := List.getElem?_eq_none_iff.1 hrow
      exact (length_le_reported hx).trans (hlen ▸ hle)

end

/-! ## Other entries -/

def StepTokens.withEntries (entries : ByteArray2 → ByteArray2) (tokens : StepTokens R π) : StepTokens R π :=
  { tokens with routedExperts := tokens.routedExperts.map entries }

/-- The rollout with the same steps, had other entries been reported. -/
def Rollout.withEntries (entries : ByteArray2 → ByteArray2) (output : Rollout R π) : Rollout R π :=
  { output with trajectory := output.trajectory.map (Option.map (StepTokens.withEntries entries)) }

/-- The step of a group with other entries. -/
def relabelled (entries : ByteArray2 → ByteArray2) (x : Nat × StepTokens R π) : Nat × StepTokens R π :=
  (x.1, x.2.withEntries entries)

/-- As many entries of the same shape. -/
def KeepsShape (entries : ByteArray2 → ByteArray2) : Prop :=
  ∀ r, (entries r).rows.length = r.rows.length ∧ (entries r).rowShape = r.rowShape

section

variable {output : Rollout R π} {bin : List (Nat × StepTokens R π)} {layers topk : Nat} {entries : ByteArray2 → ByteArray2}

theorem mergedSteps_withEntries (entries : ByteArray2 → ByteArray2) (output : Rollout R π) :
    mergedSteps (output.withEntries entries) = (mergedSteps output).map (List.map (relabelled entries)) := by
  have htakes : (fun (bin : List (Nat × StepTokens R π)) x =>
      stepExtends (bin.map (relabelled entries)) (relabelled entries x)) = stepExtends := by
    funext bin x
    unfold stepExtends
    rw [List.getLast?_map, Option.all_map]
    rfl
  have hnumbered : ∀ steps : List (StepTokens R π),
      numbered (steps.map (StepTokens.withEntries entries)) = (numbered steps).map (relabelled entries) := by
    intro steps
    simp only [numbered, List.zipIdx_map, List.map_map]
    rfl
  unfold mergedSteps Rollout.withEntries
  rw [List.reduceOption_map, hnumbered, firstFit_map, htakes]

theorem exists_of_mem_withEntries {tokens : StepTokens R π} (h : some tokens ∈ (output.withEntries entries).trajectory) :
    ∃ tokens', some tokens' ∈ output.trajectory ∧ tokens = tokens'.withEntries entries := by
  obtain ⟨step, hstep, heq⟩ := List.mem_map.1 h
  obtain ⟨tokens', rfl, rfl⟩ := Option.map_eq_some_iff.1 heq
  exact ⟨tokens', hstep, rfl⟩

theorem Rollout.Reports.withEntries (hkeep : KeepsShape entries) (h : output.Reports layers topk) :
    (output.withEntries entries).Reports layers topk := by
  intro tokens htokens r hr
  obtain ⟨tokens, hmem, rfl⟩ := exists_of_mem_withEntries htokens
  obtain ⟨r, hr', rfl⟩ := Option.map_eq_some_iff.1 hr
  rw [(hkeep r).1, (hkeep r).2]
  exact h tokens hmem r hr'

theorem Rollout.WellFormed.withEntries {concat : List π → Except PyException EncodedTensor} (hkeep : KeepsShape entries)
    (h : output.WellFormed concat) : (output.withEntries entries).WellFormed concat where
  tokens := by
    intro step hstep
    obtain ⟨step, hmem, rfl⟩ := List.mem_map.1 hstep
    obtain ⟨tokens, rfl, hwf⟩ := h.tokens step hmem
    exact ⟨_, rfl, hwf.promptMask, hwf.completionMask, hwf.completionLogprobs⟩
  routedExperts := by
    obtain ⟨layers, topk, hshape⟩ := h.routedExperts
    refine ⟨layers, topk, fun tokens htokens r hr => ?_⟩
    obtain ⟨tokens, hmem, rfl⟩ := exists_of_mem_withEntries htokens
    obtain ⟨r, hr', rfl⟩ := Option.map_eq_some_iff.1 hr
    rw [(hkeep r).2]
    exact hshape tokens hmem r hr'
  payloads := by
    intro key l hne hl
    refine h.payloads key l hne fun v hv => ?_
    obtain ⟨tokens, htokens, hrest⟩ := hl v hv
    obtain ⟨tokens, hmem, rfl⟩ := exists_of_mem_withEntries (List.reduceOption_mem_iff.1 htokens)
    exact ⟨tokens, List.reduceOption_mem_iff.2 hmem, hrest⟩

theorem carried_relabelled (entries : ByteArray2 → ByteArray2) (bin : List (Nat × StepTokens R π)) :
    carried (bin.map (relabelled entries)) = (carried bin).map entries := by
  cases bin <;> rfl

theorem length_stepRows_relabelled (hkeep : KeepsShape entries) (x : Nat × StepTokens R π) :
    (stepRows (relabelled entries x)).length = (stepRows x).length := by
  unfold stepRows relabelled StepTokens.withEntries
  cases x.2.routedExperts with
  | none => rfl
  | some r => exact (hkeep r).1

/-- Entries of ones at position `k` and of zeros elsewhere. -/
def ByteArray2.marked (k : Nat) (a : ByteArray2) : ByteArray2 where
  rows := (List.range a.rows.length).map fun j => List.replicate (a.rowShape.foldr (· * ·) 1) (if j = k then 1 else 0)
  rowShape := a.rowShape
  rows_length := by
    intro row hrow
    obtain ⟨j, -, rfl⟩ := List.mem_map.1 hrow
    exact List.length_replicate

theorem keepsShape_marked (k : Nat) : KeepsShape (ByteArray2.marked k) := fun r => ⟨by simp [ByteArray2.marked], rfl⟩

/-- The positions a step reports an entry for. -/
def positions (x : Nat × StepTokens R π) : List Nat := List.range (stepRows x).length

theorem stepRows_marked (hreports : output.Reports layers topk) {x : Nat × StepTokens R π} (hx : some x.2 ∈ output.trajectory)
    (k : Nat) : stepRows (relabelled (ByteArray2.marked k) x) =
      (positions x).map fun j => List.replicate (layers * topk) (if j = k then 1 else 0) := by
  cases hr : x.2.routedExperts with
  | none => simp [stepRows, relabelled, StepTokens.withEntries, positions, hr]
  | some r =>
      have hshape := (hreports x.2 hx r hr).1
      simp [stepRows, relabelled, StepTokens.withEntries, positions, hr, ByteArray2.marked, hshape]

/-- After a gap some token has zeros where a step reported ones. -/
theorem not_aligned_of_gap (hreports : output.Reports layers topk) (hpos : 0 < layers * topk)
    (hbin : bin ∈ mergedSteps output)
    (hcarried : (carried bin).isSome) (hgap : ¬ Gapless stepRows stepSize bin) :
    ∃ k, ∀ sample : TrainingSample R, Finished layers topk (bin.map (relabelled (ByteArray2.marked k))) sample →
      ¬ SampleAligned layers topk (bin.map (relabelled (ByteArray2.marked k))) sample := by
  have hlength : ∀ x : Nat × StepTokens R π, (stepRows x).length = (positions x).length := fun x => by simp [positions]
  have hrep : Reporting positions stepSize bin := by
    have h := reporting_of_mem hreports hbin
    refine ⟨fun x hx hne => ?_, h.sorted⟩
    rw [← hlength]
    exact h.length x hx (by simpa [positions] using hne)
  have hgap' : ¬ Gapless positions stepSize bin := by
    intro h
    apply hgap
    simpa using h.map (f := id) hlength fun _ => rfl
  obtain ⟨k, hk, hshift⟩ := exists_shifted hrep hgap'
  refine ⟨k, fun sample hfinished haligned => ?_⟩
  have hmerged : mergedRows (bin.map (relabelled (ByteArray2.marked k))) =
      (spliced positions stepSize 0 bin).map fun j => List.replicate (layers * topk) (if j = k then 1 else 0) :=
    spliced_map (fun x hx => stepRows_marked hreports (mem_trajectory hbin hx) k) (fun _ => rfl) 0
  have hbin' : bin.map (relabelled (ByteArray2.marked k)) ∈ mergedSteps (output.withEntries (ByteArray2.marked k)) := by
    rw [mergedSteps_withEntries]
    exact List.mem_map_of_mem hbin
  have hlt : k < (sampleIds sample).length := by
    obtain ⟨l, w, rfl⟩ := (List.eq_nil_or_concat' bin).resolve_left (firstFit_ne_nil bin hbin)
    have hle : reported positions (l ++ [w]) ≤ w.2.ids.length - 1 := hrep.reported_le
    have hids : sampleIds sample = w.2.ids := hfinished.ids (relabelled (ByteArray2.marked k) w) (by simp)
    rw [hids]
    omega
  obtain ⟨experts, hexperts⟩ : ∃ experts, sample.routedExperts = some experts := by
    obtain ⟨r, hr⟩ := Option.isSome_iff_exists.1 hcarried
    rw [hfinished.routedExperts, carried_relabelled, hr]
    exact ⟨_, rfl⟩
  have hentry : entryAt experts (layers * topk) k = List.replicate (layers * topk) 0 := by
    rw [hfinished.entryAt_eq (hreports.withEntries (keepsShape_marked k)) hbin' hexperts hlt, hmerged, List.getElem?_map]
    cases hj : (spliced positions stepSize 0 bin)[k]? with
    | none => rfl
    | some j =>
        -- the row here was reported for a later position
        obtain ⟨x, -, i, hi, hget⟩ := hshift j hj
        obtain ⟨-, rfl⟩ := List.getElem?_eq_some_iff.1 hget
        simp [positions, hi.ne']
  rcases (haligned experts hexperts).2.2 k hlt with ⟨y, hy, hget, -⟩ | ⟨hnone, -⟩
  · obtain ⟨x, hx, rfl⟩ := List.mem_map.1 hy
    rw [stepRows_marked hreports (mem_trajectory hbin hx), hentry, List.getElem?_map] at hget
    obtain ⟨j, hj, hmark⟩ := Option.map_eq_some_iff.1 hget
    obtain ⟨_, rfl⟩ := List.getElem?_eq_some_iff.1 hj
    have hone := congrArg List.head? hmark
    simp [positions, List.head?_replicate, hpos.ne'] at hone
  · refine absurd hk (Nat.not_lt.2 (reported_le_iff.2 fun x hx => ?_))
    rw [← hlength, ← length_stepRows_relabelled (keepsShape_marked k)]
    exact hnone _ (List.mem_map_of_mem hx)

end

/-- **Main.** Whatever entries its steps report, those of every sample are at their tokens, iff each step of a sample that
reports some comes where all tokens before its own but the last have been reported. -/
theorem routedExpertAlignment [Zero R] {output : Rollout R π} {concat : List π → Except PyException EncodedTensor}
    {layers topk : Nat} (hwf : output.WellFormed concat) (hreports : output.Reports layers topk) (hpos : 0 < layers * topk)
    (mapping : Option (Dict Int Int)) :
    (∀ entries, KeepsShape entries → ExpertsAligned concat mapping layers topk (output.withEntries entries)) ↔
      ∀ bin ∈ mergedSteps output, (carried bin).isSome → Gapless stepRows stepSize bin := by
  have hspec : ∀ entries, KeepsShape entries → output.trajectory ≠ [] → ∃ samples,
      interleaveRollout concat mapping (output.withEntries entries) = .ok (some samples) ∧
        List.Forall₂ (Finished layers topk) (mergedSteps (output.withEntries entries)) samples := by
    intro entries hkeep hne
    exact interleaveRollout_spec (hwf.withEntries hkeep) (hreports.withEntries hkeep) mapping
      (by simpa [Rollout.withEntries] using hne)
  constructor
  · intro h bin hbin hcarried
    by_contra hgap
    have hne : output.trajectory ≠ [] := by
      intro hnil
      simp [mergedSteps, hnil, numbered, firstFit] at hbin
    obtain ⟨k, hk⟩ := not_aligned_of_gap hreports hpos hbin hcarried hgap
    obtain ⟨samples, hsamples, hfinished⟩ := hspec _ (keepsShape_marked k) hne
    obtain ⟨result, hresult, haligned⟩ := h _ (keepsShape_marked k)
    rw [hsamples] at hresult
    cases hresult
    have hboth := List.Forall₂.mp (fun _ _ h h' => And.intro h h') hfinished (haligned samples rfl)
    have hbin' : bin.map (relabelled (ByteArray2.marked k)) ∈ mergedSteps (output.withEntries (ByteArray2.marked k)) := by
      rw [mergedSteps_withEntries]
      exact List.mem_map_of_mem hbin
    obtain ⟨sample, hsample⟩ := exists_forall₂_iff.1 ⟨samples, hboth⟩ _ hbin'
    exact hk sample hsample.1 hsample.2
  · intro hgap entries hkeep
    by_cases hne : output.trajectory = []
    · refine ⟨none, ?_, fun _ h => by cases h⟩
      simp [interleaveRollout, Rollout.withEntries, hne]
    · obtain ⟨samples, hsamples, hfinished⟩ := hspec entries hkeep hne
      refine ⟨some samples, hsamples, ?_⟩
      rintro _ ⟨⟩
      refine ((List.forall₂_and_left _ _).2 ⟨fun bin h => h, hfinished⟩).imp ?_
      rintro bin' sample ⟨hbin', h⟩
      refine h.aligned (hreports.withEntries hkeep) hbin' fun hcarried => ?_
      rw [mergedSteps_withEntries] at hbin'
      obtain ⟨bin, hbin, rfl⟩ := List.mem_map.1 hbin'
      rw [carried_relabelled, Option.isSome_map] at hcarried
      exact (hgap bin hbin hcarried).map (length_stepRows_relabelled hkeep) fun _ => rfl

def singleExperts (experts : List UInt8) : ByteArray2 where
  rows := experts.map ([·])
  rowShape := [1, 1]
  rows_length := by
    intro row hrow
    obtain ⟨e, -, rfl⟩ := List.mem_map.1 hrow
    rfl

/-- Three turns of an agent, of which the second may report no experts. -/
def threeTurns (second : Option (List UInt8)) : Rollout Int Unit where
  trajectory :=
    [some ⟨[1], [false], [2], [true], [-1], some (singleExperts [10]), none⟩,
     some ⟨[1, 2, 3], [false, false, false], [4], [true], [-2], second.map singleExperts, none⟩,
     some ⟨[1, 2, 3, 4, 5], [false, false, false, false, false], [6], [true], [-3],
       some (singleExperts [10, 11, 12, 13, 14]), none⟩]
  error := none
  temperature := 1
  envName := "env"

theorem threeTurns_reports {second : Option (List UInt8)} (h : ∀ experts ∈ second, experts.length = 3) :
    (threeTurns second).Reports 1 1 := by
  intro tokens htokens r hr
  simp only [threeTurns, List.mem_cons, Option.some.injEq, List.not_mem_nil, or_false] at htokens
  rcases htokens with rfl | rfl | rfl
  · cases hr
    exact ⟨rfl, rfl⟩
  · obtain ⟨experts, hsecond, rfl⟩ := Option.map_eq_some_iff.1 hr
    exact ⟨rfl, by simp [singleExperts, StepTokens.ids, h experts hsecond]⟩
  · cases hr
    exact ⟨rfl, rfl⟩

theorem threeTurns_wellFormed {second : Option (List UInt8)} (h : ∀ experts ∈ second, experts.length = 3) :
    (threeTurns second).WellFormed concatNothing where
  tokens := by
    simp only [threeTurns, List.forall_mem_cons]
    exact ⟨⟨_, rfl, rfl, rfl, rfl⟩, ⟨_, rfl, rfl, rfl, rfl⟩, ⟨_, rfl, rfl, rfl, rfl⟩, fun _ h => absurd h List.not_mem_nil⟩
  routedExperts := ⟨1, 1, fun tokens htokens r hr => (threeTurns_reports h tokens htokens r hr).1⟩
  payloads := by
    intro key l hne h
    obtain ⟨v, l, rfl⟩ := List.exists_cons_of_ne_nil hne
    obtain ⟨tokens, ht, e, he, -⟩ := h v List.mem_cons_self
    simp only [threeTurns, List.reduceOption, List.filterMap_cons, List.filterMap_nil, id, List.mem_cons,
      List.not_mem_nil, or_false] at ht
    rcases ht with rfl | rfl | rfl <;> cases he

/-- When every turn reports, the samples are aligned. -/
theorem routedExpertAlignment_threeTurns :
    ExpertsAligned concatNothing none 1 1 ((threeTurns (some [10, 11, 12])).withEntries id) := by
  have hlength : ∀ experts ∈ some [(10 : UInt8), 11, 12], experts.length = 3 := by simp
  refine (routedExpertAlignment (threeTurns_wellFormed hlength) (threeTurns_reports hlength) (by decide) none).2 ?_ id
    fun _ => ⟨rfl, rfl⟩
  intro bin hbin _
  refine (reporting_of_mem (threeTurns_reports hlength) hbin).gapless fun x hx => ?_
  have hmem := mem_trajectory hbin hx
  simp only [threeTurns, List.mem_cons, Option.some.injEq, List.not_mem_nil, or_false] at hmem
  rcases hmem with h | h | h <;> simp [stepRows, stepSize, h, singleExperts, StepTokens.ids]

/-- When the second turn does not, its tokens get the entries of the third turn's. -/
theorem routedExpertAlignment_gap : (threeTurns none).WellFormed concatNothing ∧ (threeTurns none).Reports 1 1 ∧
    ¬ ExpertsAligned concatNothing none 1 1 (threeTurns none) := by
  refine ⟨threeTurns_wellFormed (by simp), threeTurns_reports (by simp), ?_⟩
  rintro ⟨result, hresult, haligned⟩
  obtain ⟨sample, hrun, hexperts, hids⟩ : ∃ sample, interleaveRollout concatNothing none (threeTurns none) =
    .ok (some [sample]) ∧
      sample.routedExperts = some ⟨[10, 13, 14, 0, 0, 0], [6, 1, 1], "uint8"⟩ ∧ sampleIds sample = [1, 2, 3, 4, 5, 6] :=
    ⟨_, rfl, rfl, rfl⟩
  rw [hrun] at hresult
  cases hresult
  have hsteps : mergedSteps (threeTurns none) = [numbered (threeTurns none).trajectory.reduceOption] := rfl
  have hall := haligned [sample] rfl
  rw [hsteps, List.forall₂_cons] at hall
  rcases (hall.1 _ hexperts).2.2 1 (by simp [hids]) with ⟨x, hx, hget, -⟩ | ⟨-, hzero⟩
  · have hentries : ∀ x ∈ numbered (threeTurns none).trajectory.reduceOption, (stepRows x)[1]? ≠ some [13] := by decide
    exact hentries x hx hget
  · simp [entryAt] at hzero

end AuroraRl.Orchestrator
