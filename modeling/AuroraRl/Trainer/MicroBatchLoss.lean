import AuroraRl.Trainer.Loss
import Mathlib

/-!
# The loss of a micro batch

* `getResponseLengths_sum`, `zipInputs_tokens` : the sequences of a micro batch have its tokens, in order;
* `setupLossFns_spec` : every built-in loss is a sum over the tokens of a sequence;
* `microBatchLoss_spec` : the loss of a micro batch is the sum over its tokens, and when it has one.
-/

namespace AuroraRl.Trainer

variable {R : Type}

/-! ## Sequences -/

theorem lengthsOf_sum {boundaries : List Nat} {n : Nat} (hsorted : boundaries.Pairwise (· ≤ ·))
    (hn : ∀ b ∈ boundaries, b ≤ n) {start : Nat} (hstart : start ∈ boundaries.head?) :
    (lengthsOf boundaries n).sum = n - start := by
  induction boundaries generalizing start with
  | nil => cases hstart
  | cons b rest ih =>
      cases hstart
      cases rest with
      | nil => exact List.sum_singleton
      | cons next rest =>
          have hle : b ≤ next := (List.pairwise_cons.1 hsorted).1 next List.mem_cons_self
          have hnext := hn next (List.mem_cons_of_mem _ List.mem_cons_self)
          show next - b + (lengthsOf (next :: rest) n).sum = n - b
          rw [ih (List.pairwise_cons.1 hsorted).2 (fun b hb => hn b (List.mem_cons_of_mem _ hb)) rfl]
          omega

theorem getResponseLengths_sum (positionIds : List Nat) : (getResponseLengths positionIds).sum = positionIds.length := by
  have hmem : ∀ i ∈ (List.range' 1 (positionIds.length - 1)).filter (isBoundary positionIds),
      1 ≤ i ∧ i ≤ positionIds.length := by
    intro i hi
    have hi' := List.mem_range'_1.1 (List.mem_filter.1 hi).1
    omega
  have hsorted : (0 :: (List.range' 1 (positionIds.length - 1)).filter (isBoundary positionIds)).Pairwise (· ≤ ·) := by
    refine List.pairwise_cons.2 ⟨fun i _ => Nat.zero_le i, List.Pairwise.filter _ ?_⟩
    exact List.pairwise_le_range' _
  refine (lengthsOf_sum hsorted (fun b hb => ?_) rfl).trans (Nat.sub_zero _)
  rcases List.mem_cons.1 hb with rfl | hb
  · exact Nat.zero_le _
  · exact (hmem b hb).2

theorem getResponseLengths_ne_nil (positionIds : List Nat) : getResponseLengths positionIds ≠ [] := by
  unfold getResponseLengths
  dsimp only
  cases (List.range' 1 (positionIds.length - 1)).filter (isBoundary positionIds) <;> exact List.cons_ne_nil _ _

theorem split_eq_ok_iff {α : Type} {l : List α} {sizes : List Nat} {ls : List (List α)} :
    split l sizes = .ok ls ↔ l.length ≠ 1 ∧ sizes.sum = l.length ∧ ls = sizes.splitLengths l := by
  unfold split
  split_ifs with hone hsum
  · exact ⟨fun h => (by cases h), fun h => absurd hone h.1⟩
  · exact ⟨fun h => (by cases h), fun h => absurd h.2.1 hsum⟩
  · constructor
    · intro h
      cases h
      exact ⟨hone, not_not.1 hsum, rfl⟩
    · rintro ⟨-, -, rfl⟩
      rfl

theorem zipTokens_take (n : Nat) (t i : List R) (te : List (Option R)) (a : List R) (m : List Bool) :
    zipTokens (t.take n) (i.take n) (te.take n) (a.take n) (m.take n) = (zipTokens t i te a m).take n := by
  unfold zipTokens
  simp only [List.take_zipWith, List.zip]

theorem zipTokens_drop (n : Nat) (t i : List R) (te : List (Option R)) (a : List R) (m : List Bool) :
    zipTokens (t.drop n) (i.drop n) (te.drop n) (a.drop n) (m.drop n) = (zipTokens t i te a m).drop n := by
  unfold zipTokens
  simp only [List.drop_zipWith, List.zip]

theorem zipTokens_append {t i : List R} {te : List (Option R)} {a : List R} {m : List Bool} (t' i' : List R)
    (te' : List (Option R)) (a' : List R) (m' : List Bool) (hi : i.length = t.length) (hte : te.length = t.length)
    (ha : a.length = t.length) (hm : m.length = t.length) :
    zipTokens (t ++ t') (i ++ i') (te ++ te') (a ++ a') (m ++ m') = zipTokens t i te a m ++ zipTokens t' i' te' a' m' := by
  unfold zipTokens
  rw [List.zip_append hi.symm, List.zip_append (ha.trans hm.symm), List.zip_append, List.zipWith_append]
  · simp only [List.length_zip, hi, hte, ha, hm, Nat.min_self]
  · simp only [List.length_zip, hte, ha, hm, Nat.min_self]

theorem zipTokens_flatMap {ι : Type} {t i : ι → List R} {te : ι → List (Option R)} {a : ι → List R} {m : ι → List Bool}
    {bin : List ι} (h : ∀ x ∈ bin, (i x).length = (t x).length ∧ (te x).length = (t x).length ∧
      (a x).length = (t x).length ∧ (m x).length = (t x).length) :
    zipTokens (bin.flatMap t) (bin.flatMap i) (bin.flatMap te) (bin.flatMap a) (bin.flatMap m) =
      bin.flatMap fun x => zipTokens (t x) (i x) (te x) (a x) (m x) := by
  induction bin with
  | nil => rfl
  | cons x bin ih =>
      obtain ⟨hi, hte, ha, hm⟩ := h x List.mem_cons_self
      simp only [List.flatMap_cons]
      rw [zipTokens_append _ _ _ _ _ hi hte ha hm, ih fun y hy => h y (List.mem_cons_of_mem _ hy)]

theorem lossMask_of_mem_zipTokens {t i : List R} {te : List (Option R)} {a : List R} {m : List Bool} {x : Token R}
    (hx : x ∈ zipTokens t i te a m) : x.lossMask ∈ m := by
  unfold zipTokens at hx
  obtain ⟨k, hk, rfl⟩ := List.getElem_of_mem hx
  simp only [List.getElem_zipWith, List.getElem_zip]
  exact List.getElem_mem _

theorem orNone_length {α : Type} {l : Option (List α)} {n : Nat} (h : ∀ l', l = some l' → l'.length = n) :
    (orNone l n).length = n := by
  cases l with
  | none => exact List.length_replicate
  | some l =>
      show (l.map some).length = n
      rw [List.length_map, h l rfl]

theorem orNone_append {α : Type} (l : Option (List α)) (r : List α) (n k : Nat) :
    ∃ rest, orNone (l.map (· ++ r)) (n + k) = orNone l n ++ rest := by
  cases l with
  | none => exact ⟨List.replicate k none, List.replicate_append_replicate.symm⟩
  | some l => exact ⟨r.map some, List.map_append⟩

/-- The tokens of the sequences are those of the micro batch, cut at the same places. -/
theorem zipInputs_tokens (sizes : List Nat) (t i : List R) (te : Option (List R)) (a : List R) (m : List Bool) :
    (zipInputs (sizes.splitLengths t) (sizes.splitLengths i) (te.map sizes.splitLengths) (sizes.splitLengths a)
      (sizes.splitLengths m)).map LossInputs.tokens = sizes.splitLengths (⟨t, i, te, a, m⟩ : LossInputs R).tokens := by
  induction sizes generalizing t i te a m with
  | nil => cases te <;> rfl
  | cons n sizes ih =>
      have hdrop := ih (t.drop n) (i.drop n) (te.map (·.drop n)) (a.drop n) (m.drop n)
      cases te with
      | none =>
          have htake := zipTokens_take n t i (List.replicate t.length none) a m
          have hrest := zipTokens_drop n t i (List.replicate t.length none) a m
          rw [List.take_replicate] at htake
          rw [List.drop_replicate] at hrest
          simp only [LossInputs.tokens, orNone, Option.map_none, List.length_drop] at hdrop
          simp only [LossInputs.tokens, orNone, List.splitLengths_cons, zipInputs, Option.map_none, List.length_cons,
            List.replicate_succ, List.zip_cons_cons, List.zipWith_cons_cons, List.map_cons, List.length_take, ← htake,
            ← hrest, ← hdrop]
      | some l =>
          have htake := zipTokens_take n t i (l.map some) a m
          have hrest := zipTokens_drop n t i (l.map some) a m
          rw [← List.map_take] at htake
          rw [← List.map_drop] at hrest
          simp only [LossInputs.tokens, orNone, Option.map_some] at hdrop
          simp only [LossInputs.tokens, orNone, List.splitLengths_cons, zipInputs, Option.map_some, List.map_cons,
            List.zip_cons_cons, List.zipWith_cons_cons, ← htake, ← hrest, ← hdrop]

/-! ## Sums over tokens -/

section

variable [Field R] [LinearOrder R] (exp : R → R) (config : DefaultLossConfig R)

theorem dppoLoss_of_not_mask {low high klTau a : R} {x : Token R} (h : x.lossMask = false) :
    x.dppoLoss exp low high klTau a = 0 := by
  unfold Token.dppoLoss Token.keepMask
  rw [h, Bool.false_and, ofBool, if_neg Bool.false_ne_true]
  ring

theorem tokenLoss_of_not_mask (mode : TrainingMode) {x : Token R} (h : x.lossMask = false) :
    tokenLoss exp config mode x = 0 := by
  cases mode with
  | rl => exact dppoLoss_of_not_mask exp h
  | opd => exact dppoLoss_of_not_mask exp h
  | sft => exact if_neg (by rw [h]; exact Bool.false_ne_true)

omit [LinearOrder R] in
theorem sum_neg_filter (tokens : List (Token R)) : -((tokens.filter (·.lossMask)).map (·.trainerLogprob)).sum =
    (tokens.map fun x => if x.lossMask then -x.trainerLogprob else 0).sum := by
  induction tokens with
  | nil => exact neg_zero
  | cons x tokens ih =>
      rw [List.filter_cons, List.map_cons, List.sum_cons, ← ih]
      split_ifs
      · rw [List.map_cons, List.sum_cons, neg_add]
      · rw [zero_add]

/-- The loss of a sequence; only distillation needs the teacher. -/
theorem setupLossFns_spec (mode : TrainingMode) (inputs : LossInputs R) :
    (∀ out, setupLossFns exp config mode inputs = .ok out →
      out.loss = (inputs.tokens.map (tokenLoss exp config mode)).sum) ∧
    ((∃ out, setupLossFns exp config mode inputs = .ok out) ↔ (mode = .opd → inputs.teacherLogprobs.isSome = true)) := by
  cases mode with
  | rl =>
      refine ⟨fun out h => ?_, iff_of_true ⟨_, rfl⟩ fun h => (by cases h)⟩
      cases h
      rfl
  | sft =>
      refine ⟨fun out h => ?_, iff_of_true ⟨_, rfl⟩ fun h => (by cases h)⟩
      cases h
      exact sum_neg_filter inputs.tokens
  | opd =>
      show (∀ out, opdLossFn exp inputs = .ok out → _) ∧ ((∃ out, opdLossFn exp inputs = .ok out) ↔ _)
      unfold opdLossFn
      cases ht : inputs.teacherLogprobs with
      | none =>
          refine ⟨fun out h => (by cases h), ?_⟩
          constructor
          · rintro ⟨_, h⟩
            cases h
          · intro h
            cases h rfl
      | some l =>
          refine ⟨fun out h => ?_, iff_of_true ⟨_, rfl⟩ fun _ => rfl⟩
          cases h
          rfl

omit [LinearOrder R] in
/-- The loop adds the losses of the sequences, and fails iff one of them does. -/
theorem foldlM_lossStep {f : LossInputs R → Except PyException (LossOutputs R)} {g : LossInputs R → R}
    (hg : ∀ x out, f x = .ok out → out.loss = g x) (inputs : List (LossInputs R)) (acc : R × Dict String (List R)) :
    (∀ r, inputs.foldlM (lossStep f) acc = .ok r → r.1 = acc.1 + (inputs.map g).sum) ∧
      ((∃ r, inputs.foldlM (lossStep f) acc = .ok r) ↔ ∀ x ∈ inputs, ∃ out, f x = .ok out) := by
  induction inputs generalizing acc with
  | nil =>
      refine ⟨fun r h => ?_, iff_of_true ⟨acc, rfl⟩ fun x hx => absurd hx List.not_mem_nil⟩
      cases h
      exact (add_zero _).symm
  | cons x inputs ih =>
      rw [List.foldlM_cons, List.forall_mem_cons, List.map_cons, List.sum_cons]
      have hstep : ∀ acc', lossStep f acc x = .ok acc' ↔ ∃ out, f x = .ok out ∧
          acc' = (acc.1 + out.loss, acc.2.appendAll out.metrics.entries) := by
        intro acc'
        unfold lossStep
        rw [bind_eq_ok]
        refine exists_congr fun out => and_congr_right fun _ => ?_
        exact ⟨fun h => (by cases h; rfl), fun h => h ▸ rfl⟩
      constructor
      · intro r h
        obtain ⟨acc', hacc, h⟩ := bind_eq_ok.1 h
        obtain ⟨out, hout, rfl⟩ := (hstep acc').1 hacc
        rw [(ih _).1 r h, hg x out hout, add_assoc]
      · constructor
        · rintro ⟨r, h⟩
          obtain ⟨acc', hacc, h⟩ := bind_eq_ok.1 h
          obtain ⟨out, hout, rfl⟩ := (hstep acc').1 hacc
          exact ⟨⟨out, hout⟩, (ih _).2.1 ⟨r, h⟩⟩
        · rintro ⟨⟨out, hout⟩, hrest⟩
          obtain ⟨r, hr⟩ := (ih _).2.2 hrest
          exact ⟨r, bind_eq_ok.2 ⟨_, (hstep _).2 ⟨out, hout, rfl⟩, hr⟩⟩

end

/-! ## The loss of a micro batch -/

theorem toTensor_eq_ok_iff {l : List (Option R)} {l' : List R} : toTensor l = .ok l' ↔ l = l'.map some := by
  unfold toTensor
  rw [mapM_eq_ok_iff]
  constructor
  · intro h
    induction h with
    | nil => rfl
    | @cons a b l l' hab _ ih =>
        rw [List.map_cons, ← ih]
        cases a with
        | none => cases hab
        | some a =>
            cases hab
            rfl
  · rintro rfl
    rw [List.forall₂_map_left_iff, List.forall₂_same]
    exact fun a _ => rfl

theorem zipTokens_length_le (t i : List R) (te : List (Option R)) (a : List R) (m : List Bool) :
    (zipTokens t i te a m).length ≤ t.length := by
  unfold zipTokens
  rw [List.length_zipWith, List.length_zip]
  omega

theorem splitOptional_eq_ok_iff {l : Option (List R)} {sizes : List Nat} {ls : Option (List (List R))} :
    splitOptional l sizes = .ok ls ↔
      (∀ l', l = some l' → l'.length ≠ 1 ∧ sizes.sum = l'.length) ∧ ls = l.map sizes.splitLengths := by
  unfold splitOptional
  cases l with
  | none => exact ⟨fun h => (by cases h; exact ⟨fun _ h => (by cases h), rfl⟩), fun h => (by rw [h.2]; rfl)⟩
  | some l =>
      simp only [map_eq_ok, split_eq_ok_iff, Option.some.injEq, forall_eq', Option.map_some]
      constructor
      · rintro ⟨_, ⟨hone, hsum, rfl⟩, rfl⟩
        exact ⟨⟨hone, hsum⟩, rfl⟩
      · rintro ⟨⟨hone, hsum⟩, rfl⟩
        exact ⟨_, ⟨hone, hsum, rfl⟩, rfl⟩

theorem zipInputs_teacher {t i : List (List R)} {te : Option (List (List R))} {a : List (List R)} {m : List (List Bool)}
    {x : LossInputs R} (hx : x ∈ zipInputs t i te a m) : x.teacherLogprobs.isSome = te.isSome := by
  unfold zipInputs at hx
  obtain ⟨k, hk, rfl⟩ := List.getElem_of_mem hx
  rw [List.getElem_zipWith]
  dsimp only
  rw [List.getElem_zip]
  cases te with
  | none =>
      unfold orNone
      dsimp only
      rw [List.getElem_replicate]
      rfl
  | some l =>
      unfold orNone
      dsimp only
      rw [List.getElem_map]
      rfl

section

variable [Field R] [LinearOrder R]

omit [LinearOrder R] in
theorem computeLoss_eq_ok_iff {lossScale : Nat} {fns : TrainingMode → LossInputs R → Except PyException (LossOutputs R)}
    {mode : TrainingMode} {inputs : List (LossInputs R)} {r : R × Dict String (List R)} :
    computeLoss fns lossScale mode inputs = .ok r ↔
      ∃ acc, inputs.foldlM (lossStep (fns mode)) (0, ∅) = .ok acc ∧ r = (acc.1 / lossScale, acc.2) := by
  unfold computeLoss
  rw [bind_eq_ok]
  refine exists_congr fun acc => and_congr_right fun _ => ?_
  exact ⟨fun h => (by cases h; rfl), fun h => h ▸ rfl⟩

/-- Lists of one length go through, and give the sum over the tokens, iff there is not just one token and the teacher
logprobs are there for all tokens, or are not needed and missing. -/
theorem microBatchLoss_spec (exp : R → R) (config : DefaultLossConfig R) (lossScale : Nat) {mb : MicroBatch R}
    {logprobs advantages : List R}
    (hadv : mb.advantages = advantages.map some) (hpos : mb.positionIds.length = logprobs.length)
    (hinf : mb.inferenceLogprobs.length = logprobs.length) (hlen : advantages.length = logprobs.length)
    (hmask : mb.lossMask.length = logprobs.length) :
    (∀ r, microBatchLoss exp config lossScale mb logprobs = .ok r →
      r.1 = ((⟨logprobs, mb.inferenceLogprobs, mb.teacherLogprobs, advantages, mb.lossMask⟩ : LossInputs R).tokens.map
        (tokenLoss exp config mb.trainingMode)).sum / lossScale) ∧
    ((∃ r, microBatchLoss exp config lossScale mb logprobs = .ok r) ↔ logprobs.length ≠ 1 ∧
      (∀ l, mb.teacherLogprobs = some l → l.length = logprobs.length) ∧
        (mb.trainingMode = .opd → mb.teacherLogprobs.isSome = true)) := by
  have hsum : (getResponseLengths mb.positionIds).sum = logprobs.length := (getResponseLengths_sum _).trans hpos
  have hadv' : toTensor mb.advantages = .ok advantages := toTensor_eq_ok_iff.2 hadv
  have hrun : ∀ r, microBatchLoss exp config lossScale mb logprobs = .ok r ↔ logprobs.length ≠ 1 ∧
      (∀ l, mb.teacherLogprobs = some l → l.length = logprobs.length) ∧
        computeLoss (setupLossFns exp config) lossScale mb.trainingMode
          (zipInputs ((getResponseLengths mb.positionIds).splitLengths logprobs)
            ((getResponseLengths mb.positionIds).splitLengths mb.inferenceLogprobs)
            (mb.teacherLogprobs.map (getResponseLengths mb.positionIds).splitLengths)
            ((getResponseLengths mb.positionIds).splitLengths advantages)
            ((getResponseLengths mb.positionIds).splitLengths mb.lossMask)) = .ok r := by
    intro r
    constructor
    · intro h
      obtain ⟨adv, ha, h⟩ := bind_eq_ok.1 h
      obtain rfl := Except.ok.inj (hadv'.symm.trans ha)
      obtain ⟨_, ht, h⟩ := bind_eq_ok.1 h
      obtain ⟨_, hi, h⟩ := bind_eq_ok.1 h
      obtain ⟨_, hte, h⟩ := bind_eq_ok.1 h
      obtain ⟨_, ha, h⟩ := bind_eq_ok.1 h
      obtain ⟨_, hm, h⟩ := bind_eq_ok.1 h
      obtain ⟨hone, -, rfl⟩ := split_eq_ok_iff.1 ht
      obtain ⟨-, -, rfl⟩ := split_eq_ok_iff.1 hi
      obtain ⟨hteacher, rfl⟩ := splitOptional_eq_ok_iff.1 hte
      obtain ⟨-, -, rfl⟩ := split_eq_ok_iff.1 ha
      obtain ⟨-, -, rfl⟩ := split_eq_ok_iff.1 hm
      exact ⟨hone, fun l hl => (hteacher l hl).2.symm.trans hsum, h⟩
    · rintro ⟨hone, hteacher, h⟩
      refine bind_eq_ok.2 ⟨_, hadv', bind_eq_ok.2 ⟨_, split_eq_ok_iff.2 ⟨hone, hsum, rfl⟩, bind_eq_ok.2 ⟨_,
        split_eq_ok_iff.2 ⟨hinf.trans_ne hone, hsum.trans hinf.symm, rfl⟩, bind_eq_ok.2 ⟨_,
        splitOptional_eq_ok_iff.2 ⟨fun l hl => ?_, rfl⟩, bind_eq_ok.2 ⟨_,
        split_eq_ok_iff.2 ⟨hlen.trans_ne hone, hsum.trans hlen.symm, rfl⟩, bind_eq_ok.2 ⟨_,
        split_eq_ok_iff.2 ⟨hmask.trans_ne hone, hsum.trans hmask.symm, rfl⟩, h⟩⟩⟩⟩⟩⟩
      rw [hteacher l hl]
      exact ⟨hone, hsum⟩
  have htokens := zipInputs_tokens (getResponseLengths mb.positionIds) logprobs mb.inferenceLogprobs mb.teacherLogprobs
    advantages mb.lossMask
  generalize hinputs : zipInputs ((getResponseLengths mb.positionIds).splitLengths logprobs) _ _ _ _ = inputs
    at hrun htokens
  have hfold := foldlM_lossStep (fun x out h => (setupLossFns_spec exp config mb.trainingMode x).1 out h) inputs (0, ∅)
  constructor
  · intro r hr
    obtain ⟨-, -, hr⟩ := (hrun r).1 hr
    obtain ⟨acc, hacc, rfl⟩ := computeLoss_eq_ok_iff.1 hr
    dsimp only
    rw [hfold.1 acc hacc, zero_add]
    have hflat : (inputs.map LossInputs.tokens).flatten =
        (⟨logprobs, mb.inferenceLogprobs, mb.teacherLogprobs, advantages, mb.lossMask⟩ : LossInputs R).tokens := by
      rw [htokens]
      refine List.flatten_splitLengths _ _ ?_
      rw [hsum]
      exact zipTokens_length_le ..
    rw [← hflat, List.map_flatten, List.sum_flatten, List.map_map, List.map_map]
    rfl
  · have hlength : inputs.length = (getResponseLengths mb.positionIds).length := by
      rw [← List.length_map LossInputs.tokens, htokens, List.length_splitLengths]
    have hne : inputs ≠ [] := by
      rw [← List.length_pos_iff, hlength, List.length_pos_iff]
      exact getResponseLengths_ne_nil mb.positionIds
    have hopd : (∀ x ∈ inputs, ∃ out, setupLossFns exp config mb.trainingMode x = .ok out) ↔
        (mb.trainingMode = .opd → mb.teacherLogprobs.isSome = true) := by
      obtain ⟨x₀, hx₀⟩ := List.exists_mem_of_ne_nil inputs hne
      have hteacher : ∀ x ∈ inputs, x.teacherLogprobs.isSome = mb.teacherLogprobs.isSome := by
        rw [← hinputs]
        intro x hx
        rw [zipInputs_teacher hx, Option.isSome_map]
      constructor
      · intro h hmode
        rw [← hteacher x₀ hx₀]
        exact (setupLossFns_spec exp config _ x₀).2.1 (h x₀ hx₀) hmode
      · intro h x hx
        refine (setupLossFns_spec exp config _ x).2.2 fun hmode => ?_
        rw [hteacher x hx]
        exact h hmode
    rw [← hopd, ← hfold.2]
    simp only [hrun, computeLoss_eq_ok_iff, exists_and_left]
    refine and_congr_right fun _ => and_congr_right fun _ => ?_
    constructor
    · rintro ⟨_, acc, hacc, -⟩
      exact ⟨acc, hacc⟩
    · rintro ⟨acc, hacc⟩
      exact ⟨_, acc, hacc, rfl⟩

end

end AuroraRl.Trainer
