import AuroraRl.Sft.Buckets
import Mathlib.Data.List.Infix

/-!
# What becomes of the examples

* `Steady` : what holds between two turns of the loop;
* `Open.expire`, `Steady.feed_none`, `Steady.feed_some` : what one turn does with its example;
* `Yielded` : the examples and dummies of a yielded batch;
* `stackConservation` : every example read is in one yielded batch or in one bucket.
-/

namespace AuroraRl.Sft
namespace StackDataset

variable {maxArea : Nat}

/-! ## One turn -/

variable (maxArea) in
/-- What holds between two turns. -/
structure Steady (s : StackDataset) : Prop where
  fits : ∀ j < numBuckets maxArea, ∀ x ∈ s.buckets j, x.inputIds.length ≤ size maxArea j
  below : ∀ j < numBuckets maxArea, size maxArea j * (s.buckets j).length < maxArea
  timers : ∀ j < numBuckets maxArea, ((s.bucketTimers j).isSome ↔ s.buckets j ≠ [])

theorem steady_init (h : ValidArea maxArea) : Steady maxArea init where
  fits := fun _ _ _ hx => nomatch hx
  below := fun j _ => by simpa [init] using h.pos
  timers := fun j _ => by simp [init]

/-- Adding an example to a bucket leaves it at most full. -/
theorem Steady.append {s : StackDataset} (h : Steady maxArea s) (hv : ValidArea maxArea) {i : Nat}
    (hi : i < numBuckets maxArea) {x : Sample} (hx : x.inputIds.length ≤ size maxArea i) :
    Open maxArea (s.append i x) i where
  lt := hi
  fits := by
    intro j hj y hy
    by_cases hji : j = i
    · subst hji
      rw [append_buckets_self] at hy
      rcases List.mem_append.1 hy with hy | hy
      · exact h.fits j hj y hy
      · rwa [List.mem_singleton.1 hy]
    · rw [append_buckets_of_ne s hji] at hy
      exact h.fits j hj y hy
  below := by
    intro j hj hji
    rw [append_buckets_of_ne s hji]
    exact h.below j hj
  timers := by
    intro j hj hji
    rw [append_buckets_of_ne s hji]
    exact h.timers j hj
  atMost := by
    rw [append_buckets_self, List.length_append, List.length_singleton]
    exact mul_succ_le_of_dvd (size_dvd hv hi) (h.below i hi)

variable (maxArea) in
/-- A bucket that is yielded: its examples and its dummies. -/
structure Yields (s : StackDataset) (i : Nat) (before : List Sample) (examples : List Sample) (dummies : Nat) : Prop where
  lt : i < numBuckets maxArea
  bucket : s.buckets i = examples ++ List.replicate dummies Sample.dummy
  area : size maxArea i * (examples.length + dummies) = maxArea
  fits : ∀ x ∈ examples, x.inputIds.length ≤ size maxArea i
  steady : Steady maxArea (s.resume i)
  perm : (examples ++ items maxArea (s.resume i)).Perm before

theorem items_resume (s : StackDataset) {i : Nat} (hi : i < numBuckets maxArea) :
    (s.buckets i ++ items maxArea (s.resume i)).Perm (items maxArea s) := by
  have h := items_setBucket s hi []
  rw [List.append_nil] at h
  exact List.perm_append_comm.trans h

/-- After the yield every bucket is below its capacity again. -/
theorem Open.resume {s : StackDataset} {i : Nat} (h : Open maxArea s i) (hv : ValidArea maxArea) :
    Steady maxArea (s.resume i) where
  fits := by
    intro j hj x hx
    by_cases hji : j = i
    · simp [hji] at hx
    · rw [resume_buckets_of_ne s hji] at hx
      exact h.fits j hj x hx
  below := by
    intro j hj
    by_cases hji : j = i
    · simpa [hji] using hv.pos
    · rw [resume_buckets_of_ne s hji]
      exact h.below j hj hji
  timers := by
    intro j hj
    by_cases hji : j = i
    · simp [hji]
    · rw [resume_buckets_of_ne s hji, resume_bucketTimers_of_ne s hji]
      exact h.timers j hj hji

theorem Open.yields_full {s : StackDataset} {i : Nat} (h : Open maxArea s i) (hv : ValidArea maxArea)
    (hfull : isFull maxArea s i = true) : Yields maxArea s i (items maxArea s) (s.buckets i) 0 where
  lt := h.lt
  bucket := by simp
  area := by
    have := of_decide_eq_true hfull
    have := h.atMost
    rw [Nat.add_zero]
    omega
  fits := h.fits i h.lt
  steady := h.resume hv
  perm := items_resume s h.lt

/-- A bucket that has timed out is yielded with the buckets merged into it, filled with dummies. -/
theorem Open.yields_expire {s : StackDataset} {i : Nat} (h : Open maxArea s i) (hv : ValidArea maxArea) :
    ∃ examples dummies, Yields maxArea (expire maxArea s i).1 (expire maxArea s i).2 (items maxArea s)
      examples dummies ∧ s.buckets i <:+ examples := by
  obtain ⟨hopen, hperm, -⟩ := h.mergeUp (k := numBuckets maxArea - 1 - i) (by have := h.lt; omega)
  obtain ⟨-, hsuffix⟩ := mergeUp_suffix maxArea (numBuckets maxArea - 1 - i) s i
  unfold expire
  generalize StackDataset.mergeUp maxArea (numBuckets maxArea - 1 - i) s i = r at hopen hperm hsuffix ⊢
  obtain ⟨t, m⟩ := r
  dsimp only at hopen hperm hsuffix ⊢
  have hpos := size_pos hv hopen.lt
  obtain ⟨d, hfill, harea⟩ := fill_spec hpos (size_dvd hv hopen.lt) hopen.atMost
    (Nat.le_add_left maxArea _)
  have hresume : (t.setBucket m (fill maxArea (size maxArea m) maxArea (t.buckets m))).resume m = t.resume m := by
    simp [StackDataset.resume, setBucket]
  refine ⟨t.buckets m, d, ⟨hopen.lt, ?_, harea, hopen.fits m hopen.lt, ?_, ?_⟩, hsuffix⟩
  · rw [setBucket_buckets_self, hfill]
  · rw [hresume]
    exact hopen.resume hv
  · rw [hresume]
    exact (items_resume t hopen.lt).trans hperm

/-- A bucket that is not yielded is still below its capacity, and its timer runs. -/
theorem Open.steady {s : StackDataset} {i : Nat} (h : Open maxArea s i) (hfull : isFull maxArea s i = false)
    (htimer : (s.bucketTimers i).isSome) (hne : s.buckets i ≠ []) : Steady maxArea s where
  fits := h.fits
  below := by
    intro j hj
    by_cases hji : j = i
    · have := of_decide_eq_false hfull
      rw [hji]
      omega
    · exact h.below j hj hji
  timers := by
    intro j hj
    by_cases hji : j = i
    · rw [hji]
      exact iff_of_true htimer hne
    · exact h.timers j hj hji

theorem feed_yield {s : StackDataset} {x : Sample}
    (h : (isFull maxArea (s.append (bucketOf maxArea x) (x.fit maxArea)) (bucketOf maxArea x) ||
      s.hitTimeout (bucketOf maxArea x)) = true) :
    feed maxArea s x = if s.hitTimeout (bucketOf maxArea x) then
        ((expire maxArea (s.append (bucketOf maxArea x) (x.fit maxArea)) (bucketOf maxArea x)).1,
          some (expire maxArea (s.append (bucketOf maxArea x) (x.fit maxArea)) (bucketOf maxArea x)).2)
      else (s.append (bucketOf maxArea x) (x.fit maxArea), some (bucketOf maxArea x)) := by
  have hhit : (s.append (bucketOf maxArea x) (x.fit maxArea)).hitTimeout (bucketOf maxArea x) =
      s.hitTimeout (bucketOf maxArea x) := rfl
  unfold feed
  dsimp only
  rw [hhit, if_pos h]
  cases s.hitTimeout (bucketOf maxArea x) <;> rfl

theorem feed_keep {s : StackDataset} {x : Sample}
    (h : (isFull maxArea (s.append (bucketOf maxArea x) (x.fit maxArea)) (bucketOf maxArea x) ||
      s.hitTimeout (bucketOf maxArea x)) = false) :
    feed maxArea s x = (if s.bucketTimers (bucketOf maxArea x) = none then
        (s.append (bucketOf maxArea x) (x.fit maxArea)).setTimer (bucketOf maxArea x) (some s.step)
      else s.append (bucketOf maxArea x) (x.fit maxArea), none) := by
  have hhit : (s.append (bucketOf maxArea x) (x.fit maxArea)).hitTimeout (bucketOf maxArea x) =
      s.hitTimeout (bucketOf maxArea x) := rfl
  unfold feed
  dsimp only
  rw [hhit, if_neg (by rw [h]; exact Bool.false_ne_true), append_bucketTimers, append_step]
  by_cases htimer : s.bucketTimers (bucketOf maxArea x) = none
  · rw [if_pos htimer, if_pos htimer]
  · rw [if_neg htimer, if_neg htimer]

/-- **A turn without a yield.** -/
theorem Steady.feed_none {s : StackDataset} (h : Steady maxArea s) (hv : ValidArea maxArea) {x : Sample}
    (hkeep : (isFull maxArea (s.append (bucketOf maxArea x) (x.fit maxArea)) (bucketOf maxArea x) ||
      s.hitTimeout (bucketOf maxArea x)) = false) :
    ∃ s', feed maxArea s x = (s', none) ∧ Steady maxArea s' ∧
      (items maxArea s').Perm (items maxArea s ++ [x.fit maxArea]) := by
  have hi := bucketOf_lt hv x
  have hopen := h.append hv hi (length_le_size hv x)
  obtain ⟨hfull, -⟩ := Bool.or_eq_false_iff.1 hkeep
  have hne : (s.append (bucketOf maxArea x) (x.fit maxArea)).buckets (bucketOf maxArea x) ≠ [] := by simp
  refine ⟨_, feed_keep hkeep, ?_, ?_⟩
  · split
    · refine Open.steady (i := bucketOf maxArea x) ⟨hi, hopen.fits, hopen.below, fun j hj hji => ?_, hopen.atMost⟩ hfull
        (by simp) hne
      rw [setTimer_bucketTimers_of_ne _ hji]
      exact hopen.timers j hj hji
    · rename_i htimer
      exact hopen.steady hfull (Option.isSome_iff_ne_none.2 htimer) hne
  · split <;> exact items_append s hi _

/-- **A turn with a yield.** -/
theorem Steady.feed_some {s : StackDataset} (h : Steady maxArea s) (hv : ValidArea maxArea) {x : Sample}
    (hyield : (isFull maxArea (s.append (bucketOf maxArea x) (x.fit maxArea)) (bucketOf maxArea x) ||
      s.hitTimeout (bucketOf maxArea x)) = true) :
    ∃ s' i examples dummies, feed maxArea s x = (s', some i) ∧
      Yields maxArea s' i (items maxArea s ++ [x.fit maxArea]) examples dummies ∧
      s.buckets (bucketOf maxArea x) ++ [x.fit maxArea] <:+ examples := by
  have hi := bucketOf_lt hv x
  have hopen := h.append hv hi (length_le_size hv x)
  have hperm := items_append s hi (x.fit maxArea)
  rw [feed_yield hyield]
  by_cases hhit : s.hitTimeout (bucketOf maxArea x) = true
  · obtain ⟨examples, dummies, hyields, hsuffix⟩ := hopen.yields_expire hv
    rw [if_pos hhit]
    rw [append_buckets_self] at hsuffix
    exact ⟨_, _, examples, dummies, rfl, { hyields with perm := hyields.perm.trans hperm }, hsuffix⟩
  · have hfull : isFull maxArea (s.append (bucketOf maxArea x) (x.fit maxArea)) (bucketOf maxArea x) = true := by
      simpa [hhit] using hyield
    have hyields := hopen.yields_full hv hfull
    rw [if_neg hhit]
    refine ⟨_, _, _, 0, rfl, { hyields with perm := hyields.perm.trans hperm }, ?_⟩
    rw [append_buckets_self]

end StackDataset

/-! ## Batches -/

/-- A yielded bucket: its number, its examples and how many dummies follow them. -/
structure Yielded where
  index : Nat
  examples : List Sample
  dummies : Nat

namespace Yielded

open StackDataset

variable (maxArea : Nat) (y : Yielded)

abbrev width : Nat := size maxArea y.index

def batch : Batch := pack (y.width maxArea) (y.examples ++ List.replicate y.dummies Sample.dummy)

/-- Rows times width is the area, every example fits into its row, and only its own tokens are trained on. -/
structure Fits : Prop where
  area : (y.examples.length + y.dummies) * y.width maxArea = maxArea
  inputIds : (y.batch maxArea).inputIds.length = y.examples.length + y.dummies ∧
    ∀ row ∈ (y.batch maxArea).inputIds, row.length = y.width maxArea
  positionIds : (y.batch maxArea).positionIds.length = y.examples.length + y.dummies ∧
    ∀ row ∈ (y.batch maxArea).positionIds, row.length = y.width maxArea
  lossMask : (y.batch maxArea).lossMask.length = y.examples.length + y.dummies ∧
    ∀ row ∈ (y.batch maxArea).lossMask, row.length = y.width maxArea
  targetIds : (y.batch maxArea).targetIds.length = y.examples.length + y.dummies ∧
    ∀ row ∈ (y.batch maxArea).targetIds, row.length = y.width maxArea
  rows : ∀ (k : Nat) (x : Sample), y.examples[k]? = some x → x.inputIds.length ≤ y.width maxArea ∧
    (y.batch maxArea).inputIds[k]? = some (pad (y.width maxArea) 0 x.inputIds) ∧
    (y.batch maxArea).positionIds[k]? = some (pad (y.width maxArea) 0 x.positionIds) ∧
    (y.batch maxArea).lossMask[k]? = some (pad (y.width maxArea) false x.lossMask) ∧
    (y.batch maxArea).targetIds[k]? = some (pad (y.width maxArea) 0 x.targetIds)
  trained : ∀ (k p : Nat) (row : List Bool), (y.batch maxArea).lossMask[k]? = some row → row[p]? = some true →
    ∃ x : Sample, y.examples[k]? = some x ∧ x.lossMask[p]? = some true

end Yielded

theorem length_pad {α : Type} {width : Nat} {l : List α} (h : l.length ≤ width) (d : α) :
    (pad width d l).length = width := by
  simp [pad]
  omega

/-- A position past the end of a padded mask is not trained on. -/
theorem getElem?_of_pad {width p : Nat} {l : List Bool} (h : (pad width false l)[p]? = some true) :
    l[p]? = some true := by
  rw [pad, List.getElem?_append] at h
  split at h
  · exact h
  · have := List.mem_of_getElem? h
    rw [List.mem_replicate] at this
    cases this.2

namespace StackDataset

variable {maxArea : Nat}

theorem Yields.yielded_fits {s : StackDataset} {i dummies : Nat} {before examples : List Sample}
    (h : Yields maxArea s i before examples dummies) (hv : ValidArea maxArea) :
    (Yielded.mk i examples dummies).Fits maxArea := by
  have hpos := size_pos hv h.lt
  have hfits : ∀ x ∈ examples ++ List.replicate dummies Sample.dummy, x.inputIds.length ≤ size maxArea i := by
    intro x hx
    rcases List.mem_append.1 hx with hx | hx
    · exact h.fits x hx
    · rw [List.eq_of_mem_replicate hx]
      exact hpos
  have hlen : ∀ {β : Type} (f : Sample → β), ((examples ++ List.replicate dummies Sample.dummy).map f).length =
      examples.length + dummies := by
    intro β f
    simp
  have hrow : ∀ {β : Type} (d : β) (f : Sample → List β), (∀ x : Sample, (f x).length ≤ x.inputIds.length) →
      ∀ row ∈ (examples ++ List.replicate dummies Sample.dummy).map fun x => pad (size maxArea i) d (f x),
        row.length = size maxArea i := by
    intro β d f hf row hrow
    obtain ⟨x, hx, rfl⟩ := List.mem_map.1 hrow
    exact length_pad ((hf x).trans (hfits x hx)) d
  refine ⟨by rw [Nat.mul_comm]; exact h.area, ⟨hlen _, hrow _ _ fun x => le_rfl⟩, ⟨hlen _, hrow _ _ (·.positionIds_le)⟩,
    ⟨hlen _, hrow _ _ (·.lossMask_le)⟩, ⟨hlen _, hrow _ _ (·.targetIds_le)⟩, fun k x hk => ?_, fun k p row hk hp => ?_⟩
  · have hget : (examples ++ List.replicate dummies Sample.dummy)[k]? = some x := by
      rw [List.getElem?_append_left (List.getElem?_eq_some_iff.1 hk).1]
      exact hk
    refine ⟨h.fits x (List.mem_of_getElem? hk), ?_, ?_, ?_, ?_⟩ <;>
      exact (List.getElem?_map ..).trans (congrArg (Option.map _) hget)
  · obtain ⟨x, hx, rfl⟩ : ∃ x, (examples ++ List.replicate dummies Sample.dummy)[k]? = some x ∧
        pad (size maxArea i) false x.lossMask = row := by
      have := hk
      rwa [Yielded.batch, pack, List.getElem?_map, Option.map_eq_some_iff] at this
    have hmask := getElem?_of_pad hp
    rw [List.getElem?_append] at hx
    split at hx
    · exact ⟨x, hx, hmask⟩
    · rw [List.eq_of_mem_replicate (List.mem_of_getElem? hx)] at hmask
      cases p <;> cases hmask

/-- **One turn.** Its example is in the yielded bucket or in a bucket of the next state. -/
theorem Steady.turn {s : StackDataset} (h : Steady maxArea s) (hv : ValidArea maxArea) (x : Sample) :
    ∃ ys : Option Yielded, (s.turn maxArea x).2 = ys.map (·.batch maxArea) ∧ (∀ y ∈ ys, y.Fits maxArea) ∧
      Steady maxArea (s.turn maxArea x).1 ∧
      ((ys.map (·.examples)).getD [] ++ items maxArea (s.turn maxArea x).1).Perm (items maxArea s ++ [x.fit maxArea]) ∧
      (s.hitTimeout (bucketOf maxArea x) = true →
        ∃ y, ys = some y ∧ s.buckets (bucketOf maxArea x) ++ [x.fit maxArea] <:+ y.examples) := by
  unfold StackDataset.turn
  cases hyield : isFull maxArea (s.append (bucketOf maxArea x) (x.fit maxArea)) (bucketOf maxArea x) ||
      s.hitTimeout (bucketOf maxArea x) with
  | false =>
      obtain ⟨s', hfeed, hsteady, hperm⟩ := h.feed_none hv hyield
      rw [hfeed]
      refine ⟨none, rfl, nofun, hsteady, hperm, fun hhit => ?_⟩
      rw [hhit, Bool.or_true] at hyield
      cases hyield
  | true =>
      obtain ⟨s', i, examples, dummies, hfeed, hyields, hsuffix⟩ := h.feed_some hv hyield
      rw [hfeed]
      refine ⟨some ⟨i, examples, dummies⟩, ?_, ?_, hyields.steady, hyields.perm, fun _ => ⟨_, rfl, hsuffix⟩⟩
      · show some (pack _ (s'.buckets i)) = _
        rw [hyields.bucket]
        rfl
      · rintro _ ⟨⟩
        exact hyields.yielded_fits hv

/-! ## Whole runs -/

/-- The examples that are read from a position. -/
def reads (stream : Nat → Option Sample) : Nat → Nat → List Sample
  | 0, _ => []
  | n + 1, position =>
    match stream position with
    | none => []
    | some x => x :: reads stream n (position + 1)

theorem Steady.iterate {s : StackDataset} (h : Steady maxArea s) (hv : ValidArea maxArea) (stream : Nat → Option Sample)
    (n position : Nat) :
    ∃ ys : List Yielded, (iterate maxArea stream n position s).1 = ys.map (·.batch maxArea) ∧
      (∀ y ∈ ys, y.Fits maxArea) ∧ Steady maxArea (iterate maxArea stream n position s).2.2 ∧
      (ys.flatMap (·.examples) ++ items maxArea (iterate maxArea stream n position s).2.2).Perm
        (items maxArea s ++ (reads stream n position).map (·.fit maxArea)) := by
  induction n generalizing s position with
  | zero => exact ⟨[], rfl, nofun, h, by simp [StackDataset.iterate, reads]⟩
  | succ n ih =>
      rw [StackDataset.iterate, reads]
      cases stream position with
      | none => exact ⟨[], rfl, nofun, h, by simp⟩
      | some x =>
          obtain ⟨first, hfirst, hfits, hsteady, hperm, -⟩ := h.turn hv x
          obtain ⟨ys, hys, hall, hrest, hperms⟩ := ih hsteady (position + 1)
          refine ⟨first.toList ++ ys, ?_, ?_, hrest, ?_⟩
          · show (s.turn maxArea x).2.toList ++ _ = _
            rw [hfirst, hys, List.map_append]
            cases first <;> rfl
          · intro y hy
            rcases List.mem_append.1 hy with hy | hy
            · exact hfits y (Option.mem_toList.1 hy)
            · exact hall y hy
          · have hexamples : first.toList.flatMap (·.examples) = (first.map (·.examples)).getD [] := by
              cases first <;> simp
            rw [List.flatMap_append, hexamples, List.append_assoc, List.map_cons, ← List.singleton_append]
            apply (hperms.append_left _).trans
            rw [← List.append_assoc, ← List.append_assoc]
            exact hperm.append_right _

end StackDataset

open StackDataset in
/-- **Main.** After any number of examples, each of them is in one yielded batch or in one bucket, the batches fill the
area, every bucket is below its capacity with its timer running, and a timeout yields the bucket. -/
theorem stackConservation {maxArea : Nat} (hv : ValidArea maxArea) (stream : Nat → Option Sample) (n : Nat) :
    ∃ ys : List Yielded, (iterate maxArea stream n 0 init).1 = ys.map (·.batch maxArea) ∧
      (ys.flatMap (·.examples) ++ items maxArea (iterate maxArea stream n 0 init).2.2).Perm
        ((reads stream n 0).map (·.fit maxArea)) ∧
      (∀ y ∈ ys, y.Fits maxArea) ∧
      (∀ i < numBuckets maxArea,
        size maxArea i * ((iterate maxArea stream n 0 init).2.2.buckets i).length < maxArea ∧
        (((iterate maxArea stream n 0 init).2.2.bucketTimers i).isSome ↔
          (iterate maxArea stream n 0 init).2.2.buckets i ≠ [])) ∧
      ∀ x : Sample, (iterate maxArea stream n 0 init).2.2.hitTimeout (bucketOf maxArea x) = true →
        ∃ y : Yielded, ((iterate maxArea stream n 0 init).2.2.turn maxArea x).2 = some (y.batch maxArea) ∧
          y.Fits maxArea ∧
          (iterate maxArea stream n 0 init).2.2.buckets (bucketOf maxArea x) ++ [x.fit maxArea] <:+ y.examples := by
  obtain ⟨ys, hys, hfits, hsteady, hperm⟩ := (steady_init hv).iterate hv stream n 0
  have hempty : items maxArea init = [] := by simp [items, init]
  rw [hempty, List.nil_append] at hperm
  refine ⟨ys, hys, hperm, hfits, fun i hi => ⟨hsteady.below i hi, hsteady.timers i hi⟩, fun x hhit => ?_⟩
  obtain ⟨first, hfirst, hall, -, -, htimeout⟩ := hsteady.turn hv x
  obtain ⟨y, rfl, hsuffix⟩ := htimeout hhit
  exact ⟨y, hfirst, hall y rfl, hsuffix⟩

theorem stackConservation_oneBucket :
    ∃ ys : List Yielded, (StackDataset.iterate 256 (fun _ => some Sample.dummy) 2 0 .init).1 = ys.map (·.batch 256) ∧
      (ys.flatMap (·.examples) ++
          StackDataset.items 256 (StackDataset.iterate 256 (fun _ => some Sample.dummy) 2 0 .init).2.2).Perm
        ((StackDataset.reads (fun _ => some Sample.dummy) 2 0).map (·.fit 256)) :=
  have ⟨ys, hys, hperm, _⟩ := stackConservation (⟨by decide, by decide⟩ : StackDataset.ValidArea 256)
      (fun _ => some Sample.dummy) 2
  ⟨ys, hys, hperm⟩

end AuroraRl.Sft
