import AuroraRl.Trainer.Prepare
import Mathlib.Data.List.Induction

/-!
# Packed samples

* `binTakes`, `assignment` : which samples share a micro batch, as a function of run indices, lengths, modalities and modes;
* `Merged`, `Built.merged` : a micro batch holds the lists of its samples one after the other;
* `exists_built_iff` : a bin can be filled iff its run indices are in range and its routed experts have one layout;
* `packedSamplesIntoMicroBs_eq_ok_iff` : packing succeeds iff every bin of the assignment can be filled.
-/

namespace AuroraRl.Trainer
open FirstFit

variable {R : Type}

/-! ## Optional lists -/

section

variable {ι α : Type} (f : ι → Option (List α))

/-- An optional list of a bin: missing if all its samples miss it, else what they have. -/
def mergedOptional (bin : List ι) : Option (List α) :=
  if bin.all fun x => (f x).isNone then none else some (bin.flatMap fun x => (f x).getD [])

theorem mergedOptional_singleton (x : ι) : mergedOptional f [x] = f x := by
  unfold mergedOptional
  cases h : f x <;> simp [h]

theorem extend_mergedOptional (bin : List ι) (x : ι) :
    MicroBatch.extendOptional (mergedOptional f bin) (f x) = mergedOptional f (bin ++ [x]) := by
  have hconcat : (bin ++ [x]).flatMap (fun x => (f x).getD []) = bin.flatMap (fun x => (f x).getD []) ++ (f x).getD [] := by
    rw [List.flatMap_append, List.flatMap_cons, List.flatMap_nil, List.append_nil]
  unfold mergedOptional MicroBatch.extendOptional
  rw [hconcat]
  cases hx : f x with
  | none => simp [hx]
  | some l =>
      have hne : ¬ ((bin ++ [x]).all fun x => (f x).isNone) = true := by simp [hx]
      rw [if_neg hne]
      by_cases hall : (bin.all fun x => (f x).isNone) = true
      · have hnil : bin.flatMap (fun x => (f x).getD []) = [] := by
          rw [List.flatMap_eq_nil_iff]
          intro y hy
          rw [Option.isNone_iff_eq_none.1 (List.all_eq_true.1 hall y hy)]
          rfl
        rw [if_pos hall, hnil]
        rfl
      · rw [if_neg hall]
        rfl

end

/-- A bin whose parts are at most as long as others is as long only if every part is. -/
theorem flatMap_length_le {ι α β : Type} {f : ι → List α} {g : ι → List β} {bin : List ι}
    (h : ∀ x ∈ bin, (f x).length ≤ (g x).length) : (bin.flatMap f).length ≤ (bin.flatMap g).length := by
  induction bin with
  | nil => exact le_rfl
  | cons x bin ih =>
      have hx := h x List.mem_cons_self
      have hrest := ih fun y hy => h y (List.mem_cons_of_mem _ hy)
      rw [List.flatMap_cons, List.flatMap_cons, List.length_append, List.length_append]
      omega

theorem flatMap_length_eq_iff {ι α β : Type} {f : ι → List α} {g : ι → List β} {bin : List ι}
    (h : ∀ x ∈ bin, (f x).length ≤ (g x).length) :
    (bin.flatMap f).length = (bin.flatMap g).length ↔ ∀ x ∈ bin, (f x).length = (g x).length := by
  induction bin with
  | nil => exact ⟨fun _ _ hx => absurd hx List.not_mem_nil, fun _ => rfl⟩
  | cons x bin ih =>
      have hx := h x List.mem_cons_self
      have hrest : ∀ y ∈ bin, (f y).length ≤ (g y).length := fun y hy => h y (List.mem_cons_of_mem _ hy)
      have hle := flatMap_length_le hrest
      rw [List.flatMap_cons, List.flatMap_cons, List.length_append, List.length_append, List.forall_mem_cons, ← ih hrest]
      omega

/-! ## The assignment of samples to bins -/

section

variable [Zero R] [One R] (seqLen : Nat)

omit [Zero R] [One R] in
/-- The tokens of a sample, cut to `seq_len`. -/
def TrainingSample.tokens (s : TrainingSample R) : List Int := s.cut seqLen (s.promptIds ++ s.completionIds)

omit [Zero R] [One R] in
theorem TrainingSample.tokens_length (s : TrainingSample R) : (s.tokens seqLen).length = min s.length seqLen := by
  unfold tokens cut
  split_ifs with h
  · rw [List.length_take, List.length_append, Nat.min_comm]
    rfl
  · rw [List.length_append]
    exact (Nat.min_eq_left (Nat.le_of_not_lt h)).symm

omit [Zero R] [One R] in
/-- By `(lora_idx, -length)`. -/
def sampleOrder (p q : Nat × TrainingSample R) : Prop :=
  p.1 < q.1 ∨ p.1 = q.1 ∧ (q.2.tokens seqLen).length ≤ (p.2.tokens seqLen).length

instance : DecidableRel (sampleOrder (R := R) seqLen) := fun _ _ => inferInstanceAs (Decidable (_ ∨ _))

omit [Zero R] [One R] in
/-- A text sample goes into a bin of text samples of its mode that has room for it. -/
def binTakes (bin : List (Nat × TrainingSample R)) (p : Nat × TrainingSample R) : Bool :=
  p.2.mmKwargs.isNone && (bin.head?.all fun q => q.2.mmKwargs.isNone && decide (q.2.trainingMode = p.2.trainingMode)) &&
    decide ((bin.flatMap (·.2.tokens seqLen)).length + (p.2.tokens seqLen).length ≤ seqLen)

omit [Zero R] [One R] in
/-- The samples of each micro batch. -/
def assignment (samples : List (Nat × TrainingSample R)) : List (List (Nat × TrainingSample R)) :=
  firstFit (binTakes seqLen) (samples.insertionSort (sampleOrder seqLen))

omit [Zero R] [One R] in
theorem assignment_perm (samples : List (Nat × TrainingSample R)) : (assignment seqLen samples).flatten.Perm samples :=
  (firstFit_perm _).trans (List.perm_insertionSort _ _)

omit [Zero R] [One R] in
/-- The samples of a bin fit, have one mode, and only a sample on its own is multimodal. -/
theorem assignment_bins {samples : List (Nat × TrainingSample R)} :
    ∀ bin ∈ assignment seqLen samples, (bin.flatMap (·.2.tokens seqLen)).length ≤ seqLen ∧
      (∀ p ∈ bin, ∀ q ∈ bin, p.2.trainingMode = q.2.trainingMode) ∧
      ((∀ p ∈ bin, p.2.mmKwargs.isNone) ∨ ∃ p, bin = [p]) := by
  have hone : ∀ p : Nat × TrainingSample R, (p.2.tokens seqLen).length ≤ seqLen := fun p =>
    (p.2.tokens_length seqLen).trans_le (Nat.min_le_right ..)
  refine firstFit_bins (fun p _ => ⟨?_, fun q hq r hr => ?_, .inr ⟨p, rfl⟩⟩) ?_
  · rw [List.flatMap_cons, List.flatMap_nil, List.append_nil]
    exact hone p
  · rw [List.mem_singleton.1 hq, List.mem_singleton.1 hr]
  · intro bin p _ ⟨hlen, hmode, hmm⟩ htakes
    simp only [binTakes, Bool.and_eq_true, decide_eq_true_eq] at htakes
    obtain ⟨⟨htext, hhead⟩, hroom⟩ := htakes
    -- the bin's head speaks for all its samples
    have hbin : ∀ q ∈ bin, q.2.mmKwargs.isNone = true ∧ q.2.trainingMode = p.2.trainingMode := by
      intro q hq
      obtain ⟨q₀, l, rfl⟩ := List.exists_cons_of_ne_nil (List.ne_nil_of_mem hq)
      simp only [List.head?_cons, Option.all_some, Bool.and_eq_true, decide_eq_true_eq] at hhead
      refine ⟨?_, (hmode q hq q₀ List.mem_cons_self).trans hhead.2⟩
      rcases hmm with hmm | ⟨q₁, he⟩
      · exact hmm q hq
      · rw [he] at hq
        cases he
        rw [List.mem_singleton.1 hq]
        exact hhead.1
    refine ⟨?_, fun q hq r hr => ?_, .inl fun q hq => ?_⟩
    · rw [List.flatMap_append, List.length_append, List.flatMap_cons, List.flatMap_nil, List.append_nil]
      exact hroom
    · have hmode' : ∀ q ∈ bin ++ [p], q.2.trainingMode = p.2.trainingMode := by
        intro q hq
        rcases List.mem_append.1 hq with hq | hq
        · exact (hbin q hq).2
        · rw [List.mem_singleton.1 hq]
      rw [hmode' q hq, hmode' r hr]
    · rcases List.mem_append.1 hq with hq | hq
      · exact (hbin q hq).1
      · rw [List.mem_singleton.1 hq]
        exact htext

end

/-! ## Routed experts -/

namespace RoutedExperts

/-- What the experts of one micro batch have in common. -/
def layout (r : RoutedExperts) : String × List Nat := (r.dtype, r.shape.drop 1)

theorem rowSize_congr {r r' : RoutedExperts} (h : r.layout = r'.layout) : r.rowSize = r'.rowSize := by
  obtain ⟨hdtype, hshape⟩ := Prod.ext_iff.1 h
  have hget : ∀ i, r.shape[i + 1]? = r'.shape[i + 1]? := by
    intro i
    have hi := congrArg (·[i]?) hshape
    simpa only [layout, List.getElem?_drop, Nat.add_comm 1 i] using hi
  unfold rowSize listItem
  rw [hget 0, hget 1, show r.dtype = r'.dtype from hdtype]

theorem addRows_eq_ok_iff {r r' : RoutedExperts} {n : Nat} :
    r.addRows n = .ok r' ↔ ∃ rows, r.shape[0]? = some rows ∧ r' = { r with shape := r.shape.set 0 (rows + n) } := by
  simp only [addRows, bind_eq_ok, listItem_eq_ok]
  refine exists_congr fun rows => and_congr_right fun _ => ?_
  exact ⟨fun h => (by cases h; rfl), fun h => h ▸ rfl⟩

theorem addRows_layout {r : RoutedExperts} (rows : Nat) :
    ({ r with shape := r.shape.set 0 rows } : RoutedExperts).layout = r.layout := by
  obtain ⟨data, shape, dtype⟩ := r
  cases shape <;> rfl

theorem set_rows {shape : List Nat} {n : Nat} (h : shape[0]? = some n) (m : Nat) : (shape.set 0 m)[0]? = some m := by
  cases shape with
  | nil => cases h
  | cons _ _ => rfl

/-- Experts are appended to experts of their layout; the rows add up. -/
theorem append_eq_ok_iff {dst src r : RoutedExperts} {n m : Nat} (hdst : dst.shape[0]? = some n)
    (hsrc : src.shape[0]? = some m) : dst.append src = .ok r ↔
      dst.layout = src.layout ∧ r = ⟨dst.data ++ src.data, dst.shape.set 0 (n + m), dst.dtype⟩ := by
  simp only [append, bind_eq_ok, pyAssert_eq_ok, listItem_eq_ok, addRows_eq_ok_iff, exists_const, hsrc, hdst,
    Option.some.injEq, exists_eq_left', layout, Prod.mk.injEq, and_assoc]

end RoutedExperts

/-- The layouts agree, so both sides have experts or neither has. -/
theorem extendRoutedExperts_eq_ok_iff {bin sample e : Option RoutedExperts}
    (hbin : ∀ r, bin = some r → ∃ n, r.shape[0]? = some n) (hsample : ∀ r, sample = some r → ∃ n, r.shape[0]? = some n) :
    MicroBatch.extendRoutedExperts bin sample = .ok e ↔
      bin.map RoutedExperts.layout = sample.map RoutedExperts.layout ∧
        (sample = none ∧ e = none ∨ ∃ dst src n m, bin = some dst ∧ sample = some src ∧ dst.shape[0]? = some n ∧
          src.shape[0]? = some m ∧ e = some ⟨dst.data ++ src.data, dst.shape.set 0 (n + m), dst.dtype⟩) := by
  cases hb : bin with
  | none =>
      cases hs : sample with
      | none =>
          constructor
          · intro h
            cases h
            exact ⟨rfl, .inl ⟨rfl, rfl⟩⟩
          · rintro ⟨-, ⟨-, rfl⟩ | ⟨dst, src, n, m, h, -⟩⟩
            · rfl
            · cases h
      | some src => exact ⟨fun h => (by cases h), fun h => (by cases h.1)⟩
  | some dst =>
      cases hs : sample with
      | none => exact ⟨fun h => (by cases h), fun h => (by cases h.1)⟩
      | some src =>
          obtain ⟨n, hn⟩ := hbin dst hb
          obtain ⟨m, hm⟩ := hsample src hs
          have hrun : MicroBatch.extendRoutedExperts (some dst) (some src) = (dst.append src).map some := by
            show (dst.append src >>= fun r => pure (some r)) = _
            cases dst.append src <;> rfl
          rw [hrun]
          constructor
          · intro h
            cases ha : dst.append src with
            | error _ =>
                rw [ha] at h
                cases h
            | ok r =>
                rw [ha] at h
                cases h
                obtain ⟨hlayout, rfl⟩ := (RoutedExperts.append_eq_ok_iff hn hm).1 ha
                exact ⟨congrArg some hlayout, .inr ⟨dst, src, n, m, rfl, rfl, hn, hm, rfl⟩⟩
          · rintro ⟨hlayout, ⟨h, -⟩ | ⟨dst', src', n', m', hd, hs', hn', hm', rfl⟩⟩
            · cases h
            · cases hd
              cases hs'
              rw [(RoutedExperts.append_eq_ok_iff hn' hm').2 ⟨Option.some.inj hlayout, rfl⟩]
              rfl

/-! ## Filled bins -/

theorem addLoraTokens_eq_ok_iff {mb mb' : MicroBatch R} {idx n : Nat} :
    mb.addLoraTokens idx n = .ok mb' ↔ ∃ counts c, mb.loraNumTokens = some counts ∧ counts[idx]? = some c ∧
      mb' = { mb with loraNumTokens := some (counts.set idx (c + n)) } := by
  unfold MicroBatch.addLoraTokens
  cases hl : mb.loraNumTokens with
  | none => exact ⟨fun h => (by cases h), fun ⟨_, _, h, _⟩ => (by cases h)⟩
  | some counts =>
      dsimp only
      cases hc : counts[idx]? with
      | none =>
          refine ⟨fun h => (by cases h), ?_⟩
          rintro ⟨_, _, h, hc', -⟩
          cases h
          rw [hc] at hc'
          cases hc'
      | some c =>
          constructor
          · intro h
            cases h
            exact ⟨counts, c, rfl, hc, rfl⟩
          · rintro ⟨_, c', h, hc', rfl⟩
            cases h
            rw [hc] at hc'
            cases hc'
            rfl

/-- A bin with the lists of its samples one after the other. -/
structure Merged (numLoras : Nat) (bin : List (Nat × MicroBatch R)) (b : MicroBatch R) : Prop where
  inputIds : b.inputIds = bin.flatMap (·.2.inputIds)
  lossMask : b.lossMask = bin.flatMap (·.2.lossMask)
  advantages : b.advantages = bin.flatMap (·.2.advantages)
  inferenceLogprobs : b.inferenceLogprobs = bin.flatMap (·.2.inferenceLogprobs)
  positionIds : b.positionIds = bin.flatMap (·.2.positionIds)
  temperatures : b.temperatures = bin.flatMap (·.2.temperatures)
  envNames : b.envNames = bin.flatMap (·.2.envNames)
  rewards : b.rewards = some (bin.flatMap (·.2.rewards.getD []))
  teacherLogprobs : b.teacherLogprobs = mergedOptional (·.2.teacherLogprobs) bin
  mmTokenTypeIds : b.mmTokenTypeIds = mergedOptional (·.2.mmTokenTypeIds) bin
  mmKwargs : ∀ x ∈ bin.head?, b.mmKwargs = x.2.mmKwargs
  trainingMode : ∀ x ∈ bin.head?, b.trainingMode = x.2.trainingMode
  loraNumTokens : ∃ counts, b.loraNumTokens = some counts ∧ counts.length = numLoras
  idx : ∀ x ∈ bin, x.1 < numLoras
  layout : ∀ x ∈ bin, b.routedExperts.map RoutedExperts.layout = x.2.routedExperts.map RoutedExperts.layout
  rows : ∀ r, b.routedExperts = some r → r.shape[0]? = some b.inputIds.length

/-- The rewards and the rows of the experts of a prepared sample. -/
structure Prepared (mb : MicroBatch R) : Prop where
  rewards : ∃ l, mb.rewards = some l
  rows : ∀ r, mb.routedExperts = some r → r.shape[0]? = some mb.inputIds.length

/-- The samples of a bin go in one after the other. -/
abbrev Fills (numLoras : Nat) : List (Nat × MicroBatch R) → MicroBatch R → Prop :=
  Built (MicroBatch.opened numLoras) MicroBatch.add

theorem merged_opened {numLoras : Nat} {x : Nat × MicroBatch R} {b : MicroBatch R} (hx : Prepared x.2)
    (h : MicroBatch.opened numLoras x = .ok b) : Merged numLoras [x] b := by
  unfold MicroBatch.opened at h
  split_ifs at h with hidx
  cases h
  have hone : ∀ {α : Type} (f : Nat × MicroBatch R → List α), f x = [x].flatMap f := fun f => by
    rw [List.flatMap_cons, List.flatMap_nil, List.append_nil]
  refine ⟨hone (·.2.inputIds), hone (·.2.lossMask), hone (·.2.advantages), hone (·.2.inferenceLogprobs),
    hone (·.2.positionIds), hone (·.2.temperatures), hone (·.2.envNames), ?_,
      (mergedOptional_singleton (·.2.teacherLogprobs) x).symm,
    (mergedOptional_singleton (·.2.mmTokenTypeIds) x).symm, ?_, ?_, ⟨_, rfl, ?_⟩, fun y hy => ?_, fun y hy => ?_, hx.rows⟩
  · obtain ⟨l, hl⟩ := hx.rewards
    show x.2.rewards = _
    rw [← hone (·.2.rewards.getD []), hl, Option.getD_some]
  · rintro _ ⟨⟩
    rfl
  · rintro _ ⟨⟩
    rfl
  · rw [List.length_set, List.length_replicate]
  · rwa [List.mem_singleton.1 hy]
  · rw [List.mem_singleton.1 hy]

theorem merged_add {numLoras : Nat} {bin : List (Nat × MicroBatch R)} {x : Nat × MicroBatch R} {b b' : MicroBatch R}
    (hne : bin ≠ []) (hb : Merged numLoras bin b) (hx : Prepared x.2) (h : MicroBatch.add b x = .ok b') :
    Merged numLoras (bin ++ [x]) b' := by
  obtain ⟨e, he, h⟩ := bind_eq_ok.1 h
  obtain ⟨counts, c, hcounts, hc, rfl⟩ := addLoraTokens_eq_ok_iff.1 h
  obtain ⟨counts₀, hcounts₀, hlen⟩ := hb.loraNumTokens
  obtain ⟨hlayout, hrouted⟩ := (extendRoutedExperts_eq_ok_iff (fun r hr => ⟨_, hb.rows r hr⟩)
    fun r hr => ⟨_, hx.rows r hr⟩).1 he
  rw [hcounts₀] at hcounts
  cases hcounts
  have hone : ∀ {α : Type} (f : Nat × MicroBatch R → List α), bin.flatMap f ++ f x = (bin ++ [x]).flatMap f := fun f => by
    rw [List.flatMap_append, List.flatMap_cons, List.flatMap_nil, List.append_nil]
  have hhead : ∀ y ∈ (bin ++ [x]).head?, y ∈ bin.head? := by
    intro y hy
    rwa [List.head?_append_of_ne_nil _ hne] at hy
  have he' : e.map RoutedExperts.layout = b.routedExperts.map RoutedExperts.layout := by
    rcases hrouted with ⟨hs, rfl⟩ | ⟨dst, src, n, m, hdst, -, -, -, rfl⟩
    · rw [hlayout, hs]
    · rw [hdst]
      exact congrArg some (RoutedExperts.addRows_layout (r := dst) (n + m))
  refine ⟨?_, ?_, ?_, ?_, ?_, ?_, ?_, ?_, ?_, ?_, fun y hy => hb.mmKwargs y (hhead y hy),
    fun y hy => hb.trainingMode y (hhead y hy), ⟨_, rfl, ?_⟩, fun y hy => ?_, fun y hy => ?_, fun r hr => ?_⟩
  · rw [← hone, ← hb.inputIds]
  · rw [← hone, ← hb.lossMask]
  · rw [← hone, ← hb.advantages]
  · rw [← hone, ← hb.inferenceLogprobs]
  · rw [← hone, ← hb.positionIds]
  · rw [← hone, ← hb.temperatures]
  · rw [← hone, ← hb.envNames]
  · obtain ⟨l, hl⟩ := hx.rewards
    show MicroBatch.extendRewards b x.2 = _
    unfold MicroBatch.extendRewards
    rw [← hone, hl, hb.rewards, Option.getD_some]
  · rw [← extend_mergedOptional, ← hb.teacherLogprobs]
  · rw [← extend_mergedOptional, ← hb.mmTokenTypeIds]
  · rw [List.length_set, hlen]
  · rcases List.mem_append.1 hy with hy | hy
    · exact hb.idx y hy
    · rw [List.mem_singleton.1 hy, ← hlen]
      exact (List.getElem?_eq_some_iff.1 hc).1
  · rcases List.mem_append.1 hy with hy | hy
    · exact he'.trans (hb.layout y hy)
    · rw [List.mem_singleton.1 hy]
      exact he'.trans hlayout
  · rcases hrouted with ⟨-, rfl⟩ | ⟨dst, src, n, m, hdst, hsrc, hn, hm, rfl⟩
    · cases hr
    · cases hr
      have hn' := (hb.rows dst hdst).symm.trans hn
      have hm' := (hx.rows src hsrc).symm.trans hm
      show (dst.shape.set 0 (n + m))[0]? = some (b.inputIds ++ x.2.inputIds).length
      rw [RoutedExperts.set_rows hn, List.length_append, Option.some.inj hn', Option.some.inj hm']

theorem Fills.merged {numLoras : Nat} {bin : List (Nat × MicroBatch R)} {b : MicroBatch R}
    (hbin : ∀ x ∈ bin, Prepared x.2) (h : Fills numLoras bin b) : Merged numLoras bin b := by
  induction h with
  | opened h => exact merged_opened (hbin _ List.mem_cons_self) h
  | added hb h ih =>
      refine merged_add hb.ne_nil (ih fun x hx => hbin x (List.mem_append_left _ hx)) (hbin _ ?_) h
      exact List.mem_append_right _ (List.mem_singleton_self _)

/-- A bin can be filled iff its run indices are in range and its experts have one layout. -/
theorem exists_fills_iff {numLoras : Nat} {bin : List (Nat × MicroBatch R)} (hne : bin ≠ [])
    (hbin : ∀ x ∈ bin, Prepared x.2) :
    (∃ b, Fills numLoras bin b) ↔ (∀ x ∈ bin, x.1 < numLoras) ∧
      ∀ x ∈ bin, ∀ y ∈ bin, x.2.routedExperts.map RoutedExperts.layout = y.2.routedExperts.map RoutedExperts.layout := by
  constructor
  · rintro ⟨b, hb⟩
    have hm := Fills.merged hbin hb
    exact ⟨hm.idx, fun x hx y hy => (hm.layout x hx).symm.trans (hm.layout y hy)⟩
  · rintro ⟨hidx, hlayout⟩
    induction bin using List.reverseRecOn with
    | nil => exact absurd rfl hne
    | append_singleton bin x ih =>
        have hx := List.mem_append_right bin (List.mem_singleton_self x)
        by_cases hnil : bin = []
        · subst hnil
          have hopen : MicroBatch.opened numLoras x = .ok _ := if_pos (hidx x hx)
          exact ⟨_, .opened hopen⟩
        · have hsub : ∀ y ∈ bin, y ∈ bin ++ [x] := fun y hy => List.mem_append_left _ hy
          obtain ⟨b, hb⟩ := ih hnil (fun y hy => hbin y (hsub y hy)) (fun y hy => hidx y (hsub y hy))
            fun y hy z hz => hlayout y (hsub y hy) z (hsub z hz)
          have hm := Fills.merged (fun y hy => hbin y (hsub y hy)) hb
          obtain ⟨y, l, rfl⟩ := List.exists_cons_of_ne_nil hnil
          have hlay : b.routedExperts.map RoutedExperts.layout = x.2.routedExperts.map RoutedExperts.layout :=
            (hm.layout y List.mem_cons_self).trans (hlayout y (hsub y List.mem_cons_self) x hx)
          have hexperts : ∃ e, MicroBatch.extendRoutedExperts b.routedExperts x.2.routedExperts = .ok e := by
            cases hs : x.2.routedExperts with
            | none =>
                rw [hs] at hlay
                exact ⟨none, (extendRoutedExperts_eq_ok_iff (fun r hr => ⟨_, hm.rows r hr⟩) fun r hr => (by cases hr)).2
                  ⟨hlay, .inl ⟨rfl, rfl⟩⟩⟩
            | some src =>
                rw [hs] at hlay
                obtain ⟨dst, hdst, hl⟩ := Option.map_eq_some_iff.1 hlay
                have hn := hm.rows dst hdst
                have hm' := (hbin x hx).rows src hs
                rw [hdst]
                exact ⟨_, (extendRoutedExperts_eq_ok_iff (fun r hr => (by cases hr; exact ⟨_, hn⟩))
                  fun r hr => (by cases hr; exact ⟨_, hm'⟩)).2
                  ⟨congrArg some hl, .inr ⟨dst, src, _, _, rfl, rfl, hn, hm', rfl⟩⟩⟩
          obtain ⟨e, he⟩ := hexperts
          obtain ⟨counts, hcounts, hlen⟩ := hm.loraNumTokens
          have hlt : x.1 < counts.length := hlen.symm ▸ hidx x hx
          refine ⟨_, .added hb (bind_eq_ok.2 ⟨e, he, addLoraTokens_eq_ok_iff.2 ⟨counts, counts[x.1], hcounts, ?_, rfl⟩⟩)⟩
          exact List.getElem?_eq_getElem hlt

/-! ## The packing is first fit -/

theorem Fills.head {numLoras : Nat} {bin : List (Nat × MicroBatch R)} {b : MicroBatch R} (h : Fills numLoras bin b) :
    b.inputIds = bin.flatMap (·.2.inputIds) ∧
      ∃ x ∈ bin.head?, b.mmKwargs = x.2.mmKwargs ∧ b.trainingMode = x.2.trainingMode := by
  induction h with
  | @opened x b h =>
      unfold MicroBatch.opened at h
      split_ifs at h
      cases h
      exact ⟨by rw [List.flatMap_cons, List.flatMap_nil, List.append_nil], x, rfl, rfl, rfl⟩
  | @added bin x b b' hb h ih =>
      obtain ⟨e, -, h⟩ := bind_eq_ok.1 h
      obtain ⟨counts, c, -, -, rfl⟩ := addLoraTokens_eq_ok_iff.1 h
      obtain ⟨hids, y, hy, hmm, hmode⟩ := ih
      refine ⟨?_, y, ?_, hmm, hmode⟩
      · rw [List.flatMap_append, List.flatMap_cons, List.flatMap_nil, List.append_nil, ← hids]
      · rwa [List.head?_append_of_ne_nil _ hb.ne_nil]

/-- The test of `packed_samples_into_micro_bs`, with the multimodal samples that open their own bin. -/
def fitsText (maxSeqLen : Nat) (bin : MicroBatch R) (x : Nat × MicroBatch R) : Bool :=
  !x.2.isMultimodal && MicroBatch.fits maxSeqLen bin x

theorem packOne_eq (maxSeqLen numLoras : Nat) (bs : List (MicroBatch R)) (x : Nat × MicroBatch R) :
    packOne maxSeqLen numLoras bs x =
      placeM (MicroBatch.opened numLoras) MicroBatch.add (fitsText maxSeqLen) x bs := by
  unfold packOne
  cases hx : x.2.isMultimodal with
  | true =>
      rw [if_pos rfl]
      induction bs with
      | nil => rfl
      | cons b bs ih =>
          have hfits : fitsText maxSeqLen b x = false := by
            unfold fitsText
            rw [hx]
            rfl
          unfold placeM
          rw [hfits, ← ih]
          cases MicroBatch.opened numLoras x <;> rfl
  | false =>
      have hfits : (fun b => fitsText maxSeqLen b x) = fun b => MicroBatch.fits maxSeqLen b x := by
        funext b
        unfold fitsText
        rw [hx]
        rfl
      rw [if_neg Bool.false_ne_true]
      induction bs with
      | nil => rfl
      | cons b bs ih =>
          unfold placeM
          rw [congrFun hfits b, ih]

/-- `binTakes` for prepared samples. -/
def preparedTakes (seqLen : Nat) (bin : List (Nat × MicroBatch R)) (x : Nat × MicroBatch R) : Bool :=
  x.2.mmKwargs.isNone && (bin.head?.all fun y => y.2.mmKwargs.isNone && decide (y.2.trainingMode = x.2.trainingMode)) &&
    decide ((bin.flatMap (·.2.inputIds)).length + x.2.inputIds.length ≤ seqLen)

theorem fitsText_eq {seqLen numLoras : Nat} {bin : List (Nat × MicroBatch R)} {b : MicroBatch R}
    (x : Nat × MicroBatch R) (h : Fills numLoras bin b) : fitsText seqLen b x = preparedTakes seqLen bin x := by
  obtain ⟨hids, y, hy, hmm, hmode⟩ := h.head
  unfold fitsText MicroBatch.fits preparedTakes MicroBatch.isMultimodal
  rw [hids, hmm, hmode, hy, Option.all_some, Option.not_isSome, Option.not_isSome]
  cases x.2.mmKwargs.isNone <;> cases y.2.mmKwargs.isNone <;> simp [Bool.and_comm]

/-- Packing succeeds iff every bin of first fit can be filled. -/
theorem packedSamplesIntoMicroBs_eq_ok_iff {samples : List (Nat × MicroBatch R)} {seqLen numLoras : Nat}
    {bs : List (MicroBatch R)} : packedSamplesIntoMicroBs samples seqLen numLoras = .ok bs ↔
      List.Forall₂ (Fills numLoras) (firstFit (preparedTakes seqLen) (samples.insertionSort packingOrder)) bs := by
  have hpack : packOne seqLen numLoras = fun bs x =>
      placeM (MicroBatch.opened numLoras) MicroBatch.add (fitsText (R := R) seqLen) x bs := by
    funext bs x
    exact packOne_eq seqLen numLoras bs x
  unfold packedSamplesIntoMicroBs
  rw [hpack]
  exact firstFitM_eq_ok_iff fun x h => fitsText_eq x h

/-- The bins of prepared samples are the assignment of the samples. -/
theorem firstFit_prepared (seqLen : Nat) {f : Nat × TrainingSample R → MicroBatch R}
    (hids : ∀ p, (f p).inputIds = p.2.tokens seqLen) (hmm : ∀ p, (f p).mmKwargs = p.2.mmKwargs)
    (hmode : ∀ p, (f p).trainingMode = p.2.trainingMode) (samples : List (Nat × TrainingSample R)) :
    firstFit (preparedTakes seqLen) ((samples.map fun p => (p.1, f p)).insertionSort packingOrder) =
      (assignment seqLen samples).map (List.map fun p => (p.1, f p)) := by
  have hsort : (samples.map fun p => (p.1, f p)).insertionSort packingOrder =
      (samples.insertionSort (sampleOrder seqLen)).map fun p => (p.1, f p) := by
    refine (List.map_insertionSort _ _ _ _ fun p _ q _ => ?_).symm
    unfold sampleOrder packingOrder
    rw [hids, hids]
  have htakes : (fun bin p => preparedTakes seqLen (bin.map fun p : Nat × TrainingSample R => (p.1, f p)) (p.1, f p)) =
      binTakes seqLen := by
    funext bin p
    unfold preparedTakes binTakes
    rw [hids, hmm, hmode, List.flatMap_map, List.head?_map, Option.all_map]
    simp only [hids, hmm, hmode]
  rw [hsort, firstFit_map, htakes]
  rfl

end AuroraRl.Trainer
