import AuroraRl.Lib.Transition
import AuroraRl.Runs.Fleet
import AuroraRl.Trainer.Conservation
import AuroraRl.Trainer.Validation
import AuroraRl.Trainer.RoundRobin

/-!
# Exactly-once delivery

* `Delivery` : a packer with logs of what it accepted and sent for the run of each index;
* `Look.Valid`, `Consecutive`, `deliverySystem` : calls of `_get_batch` and `pack`, and the work of the trainer in between;
* `Lane`, `Delivery.Inv` : the invariant of one index, and of all of them;
* `Chosen`, `Packed` : the samples one call of `pack` selects, and its micro batches;
* `Delivers`, `multiPackerDelivery` : what holds in every state.
-/

namespace AuroraRl.Trainer
open AuroraRl.Runs AuroraRl.Transport Transition

variable {F R : Type}

/-! ## A packer with its logs -/

/-- `nextStep` is the step of the next batch of the run at an index; `waiting` while `pack` is in its loop. -/
structure Delivery (F R : Type) where
  packer : MultiPacker F R
  waiting : Bool
  nextStep : Nat → Int
  accepted : Nat → List (TrainingSample R × Nat)
  sent : Nat → List (TrainingSample R × Nat)

/-- The samples of a batch up to the first one that is not valid. -/
def acceptedSamples (config : PackerConfig F) (batch : TrainingBatch (TrainingSample R)) : List (TrainingSample R × Nat) :=
  (batch.examples.takeWhile fun sample => (validateSample config.seqLen sample).isNone).map fun sample => (sample, batch.step)

/-- The orders of `discover_runs` go through its sets. -/
structure Look.Valid (look : Look F) (m : MultiRunManager F) : Prop where
  deleted : Enumerates look.deleted (m.deletedRuns look.out)
  new : Enumerates look.new (m.newRuns look.out)

def startStep (m : MultiRunManager F) (idx : Nat) : Int := ((m.progress.get? idx).map Progress.step).getD 0

namespace Delivery

/-- `discover_runs`; the logs of an index start over unless its run stays. -/
def look [ScalingFactor F] (config : PackerConfig F) (look : Look F) (d : Delivery F R) : Except PyError (Delivery F R) := do
  let packer ← d.packer.discoverRuns config look
  let forgotten := forgottenSince d.packer.manager.calls.length packer.manager.calls
  let stays := fun idx => d.packer.manager.idx2Id.contains idx && !forgotten.contains idx
  return { d with
    packer := packer
    nextStep := fun idx => if stays idx then d.nextStep idx else startStep packer.manager idx
    accepted := fun idx => if stays idx then d.accepted idx else []
    sent := fun idx => if stays idx then d.sent idx else [] }

def buffer (config : PackerConfig F) (x : Delivery F R × List (String × String))
    (batch : TrainingBatch (TrainingSample R)) : Delivery F R × List (String × String) :=
  let y := MultiPacker.bufferBatch config (x.1.packer, x.2) batch
  match batch.runIdx with
  | none => ({ x.1 with packer := y.1 }, y.2)
  | some idx =>
      ({ x.1 with
        packer := y.1
        nextStep := Function.update x.1.nextStep idx (x.1.nextStep idx + 1)
        accepted := Function.update x.1.accepted idx (x.1.accepted idx ++ acceptedSamples config batch) }, y.2)

/-- The batches come from runs in use, and those of one run have consecutive steps. -/
def Consecutive (config : PackerConfig F) :
    List (TrainingBatch (TrainingSample R)) → Delivery F R × List (String × String) → Prop
  | [], _ => True
  | batch :: batches, x =>
      (∀ idx, batch.runIdx = some idx → x.1.packer.manager.idx2Id.contains idx = true ∧
      (batch.step : Int) = x.1.nextStep idx) ∧
        Consecutive config batches (buffer config x batch)

/-- `_get_batch`, with the logs. -/
structure Polled [ScalingFactor F] (config : PackerConfig F) (poll : Poll F R) (d d' : Delivery F R) : Prop where
  before : poll.before.Valid d.packer.manager
  rest : ∃ d₁ x, d.look config poll.before = .ok d₁ ∧ Consecutive config poll.batches (d₁, []) ∧
    x = poll.batches.foldl (buffer config) (d₁, []) ∧
    Look.Valid { poll.after with out := evictIn poll.after.out x.2 } x.1.packer.manager ∧
    x.1.look config { poll.after with out := evictIn poll.after.out x.2 } = .ok d'

/-- The loop of `pack` is over. -/
def Ready (config : PackerConfig F) (s : MultiPacker F R) : Prop :=
  s.hasEnoughTokens config = .ok true ∨ ∃ n, s.countTokens none = .ok n ∧ 0 < n

end Delivery

/-- A `_get_batch` of `pack`, the rest of `pack` with the samples and micro batches it sends, or what the trainer does. -/
inductive PackerAction (F R : Type)
  | getBatch (poll : Poll F R)
  | pack (selected : List (Nat × TrainingSample R × Nat)) (grid : List (List (MicroBatch R)))
  | train

inductive DeliveryStep [ScalingFactor F] [Zero R] [One R] (config : PackerConfig F) :
    Delivery F R → PackerAction F R → Delivery F R → Prop
  | getBatch {d d' : Delivery F R} (poll : Poll F R)
      (hwait : d.waiting = true → d.packer.hasEnoughTokens config = .ok false) (h : d.Polled config poll d') :
      DeliveryStep config d (.getBatch poll) { d' with waiting := true }
  | pack {d : Delivery F R} {fuel : Nat} {s : MultiPacker F R} {selected : List (Nat × TrainingSample R × Nat)}
      {grid : List (List (MicroBatch R))} (hwait : d.waiting = true) (hready : Delivery.Ready config d.packer)
      (h : d.packer.pack config fuel = .ok (some (s, selected, grid))) :
      DeliveryStep config d (.pack selected grid)
        { d with packer := s, waiting := false, sent := fun idx => d.sent idx ++ takenOf selected idx }
  | train {d : Delivery F R} (readyToUpdate : List Bool) (lastSyncedId2Idx : Dict String Nat) (calls : List HookCall) :
      DeliveryStep config d .train { d with packer := { d.packer with manager := { d.packer.manager with
        readyToUpdate := readyToUpdate, lastSyncedId2Idx := lastSyncedId2Idx, calls := calls } } }

/-- Nothing is buffered when the packer starts. -/
structure Delivery.Initial (d : Delivery F R) : Prop where
  consistent : Consistent d.packer.manager
  position : d.packer.roundRobinPosition = 0
  waiting : d.waiting = false
  nextStep : ∀ idx, d.nextStep idx = startStep d.packer.manager idx
  empty : ∀ idx, d.packer.buffers idx = [] ∧ d.accepted idx = [] ∧ d.sent idx = []

def deliverySystem [ScalingFactor F] [Zero R] [One R] (config : PackerConfig F) :
    System (Delivery F R) (PackerAction F R) where
  init := Delivery.Initial
  step := DeliveryStep config

/-! ## The invariant -/

/-- What holds at the index of a run whose progress is at a step. -/
structure Lane (seqLen : Nat) (step nextStep : Int) (buffer accepted sent : List (TrainingSample R × Nat)) : Prop where
  split : accepted = sent ++ buffer
  valid : ∀ x ∈ buffer, validateSample seqLen x.1 = none
  sorted : buffer.Pairwise fun x y => x.2 ≤ y.2
  bounds : ∀ x ∈ buffer, step ≤ x.2 ∧ (x.2 : Int) < nextStep
  full : ∀ k, step ≤ k → k < nextStep → ∃ x ∈ buffer, (x.2 : Int) = k
  le : step ≤ nextStep
  past : ∀ x ∈ sent, (x.2 : Int) ≤ step ∧ (x.2 : Int) < nextStep

theorem lane_nil (seqLen : Nat) (step : Int) : Lane (R := R) seqLen step step [] [] [] where
  split := rfl
  valid := fun _ h => absurd h List.not_mem_nil
  sorted := .nil
  bounds := fun _ h => absurd h List.not_mem_nil
  full := fun _ hk hlt => absurd hlt (not_lt.2 hk)
  le := le_refl _
  past := fun _ h => absurd h List.not_mem_nil

theorem Lane.append {seqLen step : Nat} {progress nextStep : Int} {buffer accepted sent : List (TrainingSample R × Nat)}
    (h : Lane seqLen progress nextStep buffer accepted sent) {samples : List (TrainingSample R)}
    (hvalid : ∀ sample ∈ samples, validateSample seqLen sample = none) (hne : samples ≠ [])
    (hstep : (step : Int) = nextStep) :
    Lane seqLen progress (nextStep + 1) (buffer ++ samples.map fun sample => (sample, step))
      (accepted ++ samples.map fun sample => (sample, step)) sent where
  split := by rw [h.split, List.append_assoc]
  valid := by
    simp only [List.mem_append, List.mem_map]
    rintro x (hx | ⟨sample, hs, rfl⟩)
    · exact h.valid x hx
    · exact hvalid sample hs
  sorted := by
    simp only [List.pairwise_append, List.pairwise_map, List.mem_map]
    refine ⟨h.sorted, List.pairwise_of_forall fun _ _ => le_refl _, ?_⟩
    rintro x hx _ ⟨sample, -, rfl⟩
    have := (h.bounds x hx).2
    show x.2 ≤ step
    omega
  bounds := by
    simp only [List.mem_append, List.mem_map]
    rintro x (hx | ⟨sample, -, rfl⟩)
    · have := h.bounds x hx
      omega
    · have := h.le
      show progress ≤ (step : Int) ∧ (step : Int) < nextStep + 1
      omega
  full := by
    intro k hk hlt
    by_cases heq : k = nextStep
    · obtain ⟨sample, samples, rfl⟩ := List.exists_cons_of_ne_nil hne
      exact ⟨(sample, step), List.mem_append_right _ List.mem_cons_self, hstep.trans heq.symm⟩
    · obtain ⟨x, hx, hxk⟩ := h.full k hk (by omega)
      exact ⟨x, List.mem_append_left _ hx, hxk⟩
  le := by
    have := h.le
    omega
  past := by
    intro x hx
    have := h.past x hx
    omega

/-- The first sample left is past the current step exactly when no sample of that step is left. -/
theorem Lane.consumed_iff {seqLen : Nat} {step nextStep : Int} {taken rest accepted sent : List (TrainingSample R × Nat)}
    (h : Lane seqLen step nextStep (taken ++ rest) accepted sent) :
    (∀ x ∈ rest.head?, step < x.2) ↔ ∀ x ∈ rest, (x.2 : Int) ≠ step := by
  have hle : ∀ x ∈ rest, step ≤ x.2 := fun x hx => (h.bounds x (List.mem_append_right _ hx)).1
  have hsorted := (List.pairwise_append.1 h.sorted).2.1
  cases rest with
  | nil => simp
  | cons y rest =>
      rw [List.head?_cons]
      constructor
      · intro hhead x hx
        have hy := hhead y rfl
        rcases List.mem_cons.1 hx with rfl | hx
        · omega
        · have := (List.pairwise_cons.1 hsorted).1 x hx
          omega
      · rintro hall _ ⟨⟩
        have := hall y List.mem_cons_self
        have := hle y List.mem_cons_self
        omega

/-- Samples of the current step are sent; when none is left the progress goes on. -/
theorem Lane.send {seqLen : Nat} {step nextStep : Int} {taken rest accepted sent : List (TrainingSample R × Nat)}
    (h : Lane seqLen step nextStep (taken ++ rest) accepted sent) (hdue : ∀ x ∈ taken, (x.2 : Int) ≤ step) :
    Lane seqLen (if taken ≠ [] ∧ ∀ x ∈ rest, (x.2 : Int) ≠ step then step + 1 else step) nextStep rest accepted
      (sent ++ taken) := by
  have hstep : ∀ x ∈ taken, (x.2 : Int) = step := fun x hx =>
    le_antisymm (hdue x hx) (h.bounds x (List.mem_append_left _ hx)).1
  have hrest : ∀ x ∈ rest, step ≤ x.2 ∧ (x.2 : Int) < nextStep := fun x hx => h.bounds x (List.mem_append_right _ hx)
  have hsent : ∀ x ∈ sent ++ taken, (x.2 : Int) ≤ step ∧ (x.2 : Int) < nextStep := by
    intro x hx
    rcases List.mem_append.1 hx with hx | hx
    · exact h.past x hx
    · exact ⟨hdue x hx, (h.bounds x (List.mem_append_left _ hx)).2⟩
  refine ⟨by rw [h.split, List.append_assoc], fun x hx => h.valid x (List.mem_append_right _ hx),
    (List.pairwise_append.1 h.sorted).2.1, ?_, ?_, ?_, ?_⟩
  · intro x hx
    have := hrest x hx
    split_ifs with hlast
    · have := hlast.2 x hx
      omega
    · exact this
  · intro k hk hlt
    have hle : step ≤ k := by
      split_ifs at hk <;> omega
    obtain ⟨x, hx, hxk⟩ := h.full k hle hlt
    rcases List.mem_append.1 hx with hx | hx
    · -- Only the current step was taken, and if it is still due it has samples left.
      have heq := hstep x hx
      split_ifs at hk with hlast
      · omega
      · rw [not_and, not_forall] at hlast
        obtain ⟨y, hy⟩ := hlast (List.ne_nil_of_mem hx)
        rw [Classical.not_imp, not_not] at hy
        exact ⟨y, hy.1, by omega⟩
    · exact ⟨x, hx, hxk⟩
  · split_ifs with hlast
    · obtain ⟨x, hx⟩ := List.exists_mem_of_ne_nil _ hlast.1
      have := hstep x hx
      have := (h.bounds x (List.mem_append_left _ hx)).2
      omega
    · exact h.le
  · intro x hx
    have := hsent x hx
    split_ifs
    · omega
    · exact this

/-- The invariant, but for the runs evicted since the directories were looked at. -/
structure Delivery.Inv (seqLen : Nat) (evicted : List String) (d : Delivery F R) : Prop where
  consistent : Consistent d.packer.manager
  position : 0 < d.packer.manager.maxRuns → d.packer.roundRobinPosition < d.packer.manager.maxRuns
  unused : ∀ idx, d.packer.manager.idx2Id.get? idx = none →
    d.packer.buffers idx = [] ∧ d.accepted idx = [] ∧ d.sent idx = []
  lane : ∀ idx r p, d.packer.manager.idx2Id.get? idx = some r → r ∉ evicted →
    d.packer.manager.progress.get? idx = some p →
    Lane seqLen p.step (d.nextStep idx) (d.packer.buffers idx) (d.accepted idx) (d.sent idx)

theorem exists_progress {m : MultiRunManager F} (h : Consistent m) {idx : Nat} (hidx : m.idx2Id.get? idx ≠ none) :
    ∃ r p, m.idx2Id.get? idx = some r ∧ m.progress.get? idx = some p := by
  obtain ⟨r, hr⟩ := Option.ne_none_iff_exists'.1 hidx
  have hcontains := h.progress idx
  unfold Dict.contains at hcontains
  rw [hr] at hcontains
  obtain ⟨p, hp⟩ := Option.isSome_iff_exists.1 hcontains
  exact ⟨r, p, hr, hp⟩

theorem exists_run {m : MultiRunManager F} (h : Consistent m) {idx : Nat} {p : Progress} (hp : m.progress.get? idx = some p) :
    ∃ r, m.idx2Id.get? idx = some r := by
  have hcontains := h.progress idx
  unfold Dict.contains at hcontains
  rw [hp] at hcontains
  exact Option.isSome_iff_exists.1 hcontains.symm

theorem startStep_eq {m : MultiRunManager F} {idx : Nat} {p : Progress} (h : m.progress.get? idx = some p) :
    startStep m idx = p.step := by
  unfold startStep
  rw [h]
  rfl

theorem Delivery.Initial.inv {seqLen : Nat} {d : Delivery F R} (h : d.Initial) : d.Inv seqLen [] where
  consistent := h.consistent
  position := by
    intro hpos
    rw [h.position]
    exact hpos
  unused := fun idx _ => h.empty idx
  lane := by
    intro idx r p _ _ hp
    obtain ⟨hbuffer, haccepted, hsent⟩ := h.empty idx
    rw [hbuffer, haccepted, hsent, h.nextStep, startStep_eq hp]
    exact lane_nil seqLen p.step

/-- A batch goes whole into the buffer of its run, or the run is evicted. -/
theorem bufferBatch_spec (config : PackerConfig F) (s : MultiPacker F R) (evicted : List (String × String))
    {batch : TrainingBatch (TrainingSample R)} {idx : Nat} (h : batch.runIdx = some idx) :
    ∃ l, MultiPacker.bufferBatch config (s, evicted) batch =
        ({ s with buffers := Function.update s.buffers idx (s.buffers idx ++ acceptedSamples config batch) }, evicted ++ l) ∧
      ((batch.examples ≠ [] ∧ (∀ sample ∈ batch.examples, validateSample config.seqLen sample = none) ∧
        acceptedSamples config batch = batch.examples.map (fun sample => (sample, batch.step)) ∧ l = []) ∨
      ∃ reason, l = s.evictRun idx reason) := by
  unfold MultiPacker.bufferBatch acceptedSamples
  rw [h]
  dsimp only
  split_ifs with hnil
  · refine ⟨s.evictRun idx "Run wrote a batch with no samples", ?_, .inr ⟨_, rfl⟩⟩
    rw [hnil, List.takeWhile_nil, List.map_nil, List.append_nil, Function.update_eq_self]
  · generalize hvalid : batch.examples.takeWhile (fun sample => (validateSample config.seqLen sample).isNone) = valid
    have htake : valid <+: batch.examples := hvalid ▸ List.takeWhile_prefix _
    cases hnext : batch.examples[valid.length]? with
    | none =>
        have heq : valid = batch.examples :=
          htake.eq_of_length (le_antisymm htake.length_le (List.getElem?_eq_none_iff.1 hnext))
        refine ⟨[], by rw [List.append_nil], .inl ⟨hnil, fun sample hs => ?_, by rw [heq], rfl⟩⟩
        rw [← heq, ← hvalid] at hs
        have hnone := List.mem_takeWhile_imp hs
        exact Option.isNone_iff_eq_none.1 hnone
    | some sample => exact ⟨_, rfl, .inr ⟨_, rfl⟩⟩

theorem evictRun_eq {s : MultiPacker F R} {idx : Nat} {r : String} (h : s.manager.idx2Id.get? idx = some r)
    (reason : String) : s.evictRun idx reason = [(r, reason)] := by
  unfold MultiPacker.evictRun
  rw [h]

namespace Delivery

variable {config : PackerConfig F} {d d' : Delivery F R}

theorem Inv.buffer {evicted : List (String × String)} (h : d.Inv config.seqLen (evicted.map Prod.fst))
    {batch : TrainingBatch (TrainingSample R)}
    (hbatch : ∀ idx, batch.runIdx = some idx → d.packer.manager.idx2Id.contains idx = true ∧
    (batch.step : Int) = d.nextStep idx) :
    (buffer config (d, evicted) batch).1.Inv config.seqLen ((buffer config (d, evicted) batch).2.map Prod.fst) ∧
      (buffer config (d, evicted) batch).1.packer.manager = d.packer.manager := by
  unfold Delivery.buffer
  cases hrun : batch.runIdx with
  | none =>
      have hskip : MultiPacker.bufferBatch config (d.packer, evicted) batch = (d.packer, evicted) := by
        unfold MultiPacker.bufferBatch
        rw [hrun]
      dsimp only
      rw [hskip]
      exact ⟨h, rfl⟩
  | some idx =>
      obtain ⟨hused, hstep⟩ := hbatch idx hrun
      obtain ⟨r, hr⟩ := Option.isSome_iff_exists.1 hused
      obtain ⟨l, heq, hcases⟩ := bufferBatch_spec config d.packer evicted hrun
      dsimp only
      rw [heq]
      refine ⟨⟨h.consistent, h.position, fun i hi => ?_, fun i r' p hi hnot hp => ?_⟩, rfl⟩
      · have hne : i ≠ idx := by
          rintro rfl
          exact absurd (hr.symm.trans hi) (Option.some_ne_none r)
        simp only [Function.update_of_ne hne]
        exact h.unused i hi
      · rw [List.map_append, List.mem_append, not_or] at hnot
        have hlane := h.lane i r' p hi hnot.1 hp
        by_cases hne : i = idx
        · subst hne
          simp only [Function.update_self]
          rcases hcases with ⟨hnil, hvalid, hall, -⟩ | ⟨reason, rfl⟩
          · rw [hall]
            exact hlane.append hvalid hnil hstep
          · refine absurd ?_ hnot.2
            rw [evictRun_eq (s := d.packer) hi]
            exact List.mem_singleton_self _
        · simp only [Function.update_of_ne hne]
          exact hlane

theorem Inv.buffers {batches : List (TrainingBatch (TrainingSample R))} {evicted : List (String × String)}
    (h : d.Inv config.seqLen (evicted.map Prod.fst)) (hbatches : Consecutive config batches (d, evicted)) :
    (batches.foldl (Delivery.buffer config) (d, evicted)).1.Inv config.seqLen
      ((batches.foldl (Delivery.buffer config) (d, evicted)).2.map Prod.fst) := by
  induction batches generalizing d evicted with
  | nil => exact h
  | cons batch batches ih =>
      obtain ⟨hbatch, hrest⟩ := hbatches
      exact ih (h.buffer hbatch).1 hrest

variable [ScalingFactor F]

theorem Inv.look {look : Look F} {evicted : List String} (h : d.Inv config.seqLen evicted)
    (hvalid : look.Valid d.packer.manager) (hgone : ∀ r ∈ evicted, r ∉ MultiRunManager.presentRuns look.out)
    (hlook : d.look config look = .ok d') : d'.Inv config.seqLen [] := by
  obtain ⟨packer, hpacker, hlook⟩ := bind_eq_ok.1 hlook
  obtain ⟨manager, hmanager, hpacker⟩ := bind_eq_ok.1 hpacker
  obtain ⟨calls, hkeeps, hforgets⟩ := discoverRuns_keeps h.consistent hvalid.deleted hvalid.new hmanager
  have hevolves := evolves_discoverRuns h.consistent hvalid.new hmanager
  have hforgotten : forgottenSince d.packer.manager.calls.length manager.calls = calls.filterMap HookCall.forgottenIdx := by
    unfold forgottenSince
    rw [hkeeps.calls, List.drop_left]
  cases hpacker
  cases hlook
  dsimp only
  unfold MultiPacker.onRunDataDeleted
  dsimp only
  rw [hforgotten]
  set gone := calls.filterMap HookCall.forgottenIdx with hgoneIdx
  have hstays : ∀ idx, (d.packer.manager.idx2Id.contains idx && !gone.contains idx) = true ↔
      d.packer.manager.idx2Id.get? idx ≠ none ∧ idx ∉ gone := by
    intro idx
    unfold Dict.contains
    simp [Option.isSome_iff_ne_none]
  have hempty : ∀ idx, ¬ (d.packer.manager.idx2Id.get? idx ≠ none ∧ idx ∉ gone) →
      (if idx ∈ gone then [] else d.packer.buffers idx) = [] := by
    intro idx hnot
    split_ifs with hmem
    · rfl
    · exact (h.unused idx (by_contra fun hne => hnot ⟨hne, hmem⟩)).1
  refine ⟨hevolves.consistent, ?_, fun idx hidx => ?_, fun idx r p hr _ hp => ?_⟩
  · show 0 < manager.maxRuns → d.packer.roundRobinPosition < manager.maxRuns
    rw [hevolves.maxRuns]
    exact h.position
  · have hnot : ¬ (d.packer.manager.idx2Id.get? idx ≠ none ∧ idx ∉ gone) := by
      rintro ⟨hne, hmem⟩
      exact hne ((hkeeps.index idx hne hmem).1.symm.trans hidx)
    simp only [hstays, if_neg hnot]
    exact ⟨hempty idx hnot, trivial, trivial⟩
  · by_cases hkept : d.packer.manager.idx2Id.get? idx ≠ none ∧ idx ∉ gone
    · obtain ⟨hid, hprogress⟩ := hkeeps.index idx hkept.1 hkept.2
      have hr' := hid.symm.trans hr
      have hstill : r ∉ evicted := fun hmem => hkept.2 (hforgets idx r hr' (hgone r hmem))
      simp only [hstays, if_pos hkept, if_neg hkept.2]
      exact h.lane idx r p hr' hstill (hprogress.symm.trans hp)
    · simp only [hstays, if_neg hkept, hempty idx hkept]
      rw [startStep_eq hp]
      exact lane_nil config.seqLen p.step

omit [ScalingFactor F] in
variable (config) in
theorem foldl_buffer_packer (batches : List (TrainingBatch (TrainingSample R))) (d : Delivery F R)
    (evicted : List (String × String)) :
    ((batches.foldl (Delivery.buffer config) (d, evicted)).1.packer,
      (batches.foldl (Delivery.buffer config) (d, evicted)).2) =
      batches.foldl (MultiPacker.bufferBatch config) (d.packer, evicted) := by
  induction batches generalizing d evicted with
  | nil => rfl
  | cons batch batches ih =>
      have hone : ((Delivery.buffer config (d, evicted) batch).1.packer, (Delivery.buffer config (d, evicted) batch).2) =
          MultiPacker.bufferBatch config (d.packer, evicted) batch := by
        unfold Delivery.buffer
        cases batch.runIdx <;> rfl
      rw [List.foldl_cons, List.foldl_cons, ← hone]
      exact ih _ _

theorem Polled.getBatch {poll : Poll F R} (h : d.Polled config poll d') :
    d.packer.getBatch config poll = .ok d'.packer := by
  obtain ⟨d₁, x, h₁, -, rfl, -, h₂⟩ := h.rest
  have hpacker : ∀ {look : Look F} {d d' : Delivery F R}, d.look config look = .ok d' →
      d.packer.discoverRuns config look = .ok d'.packer := by
    intro look d d' h
    obtain ⟨packer, hpacker, h⟩ := bind_eq_ok.1 h
    cases h
    exact hpacker
  have hfold := foldl_buffer_packer config poll.batches d₁ []
  unfold MultiPacker.getBatch
  rw [hpacker h₁, ok_bind, ← hfold]
  exact hpacker h₂

theorem Inv.polled {poll : Poll F R} (h : d.Inv config.seqLen []) (hpoll : d.Polled config poll d') :
    d'.Inv config.seqLen [] := by
  obtain ⟨d₁, x, h₁, hbatches, rfl, hvalid, h₂⟩ := hpoll.rest
  have hbefore : d₁.Inv config.seqLen (List.map Prod.fst ([] : List (String × String))) :=
    h.look hpoll.before (fun _ hr => absurd hr List.not_mem_nil) h₁
  refine (hbefore.buffers hbatches).look hvalid (fun r hr hpresent => ?_) h₂
  have hevicted := (Finset.mem_filter.1 hpresent).2
  unfold evictIn at hevicted
  simp only [Bool.or_eq_false_iff, List.contains_eq_mem, decide_eq_false_iff_not] at hevicted
  exact hevicted.2 hr

end Delivery

/-! ## The progress of the runs -/

theorem perRunStats_get? (selected : List (Nat × TrainingSample R × Nat)) (i : Nat) :
    (perRunStats selected).get? i ≠ none ↔ takenOf selected i ≠ [] := by
  have hfold : ∀ (l : List (Nat × TrainingSample R × Nat)) (stats : Dict Nat (Nat × Nat)),
      (l.foldl (fun stats x =>
        let cur := (stats.get? x.1).getD (0, 0)
        stats.insert x.1 (cur.1 + 1, cur.2 + x.2.1.length)) stats).get? i ≠ none ↔
        stats.get? i ≠ none ∨ ∃ x ∈ l, x.1 = i := by
    intro l
    induction l with
    | nil => simp
    | cons x l ih =>
        intro stats
        rw [List.foldl_cons, ih, Dict.get?_insert]
        by_cases hx : x.1 = i <;> simp [hx]
  have hempty : (∅ : Dict Nat (Nat × Nat)).get? i = none := rfl
  unfold perRunStats takenOf
  rw [hfold, hempty]
  simp

/-- The buffer of a run has no sample of its current step, nor of an earlier one. -/
def Consumed (s : MultiPacker F R) (i : Nat) (p : Progress) : Prop := ∀ x ∈ (s.buffers i).head?, p.step < x.2

theorem updateRunProgress_spec {s : MultiPacker F R} {i : Nat} {p : Progress} (hp : s.manager.progress.get? i = some p)
    (numSamples numTokens : Nat) :
    ∃ m', s.updateRunProgress i numSamples numTokens = .ok { s with manager := m' } ∧ Works s.manager m' ∧
      (∀ j, j ≠ i → m'.progress.get? j = s.manager.progress.get? j) ∧
      ∃ p', m'.progress.get? i = some p' ∧ (Consumed s i p → p'.step = p.step + 1) ∧
      (¬ Consumed s i p → p'.step = p.step) := by
  have hconsumed : ((s.buffers i).head?.all fun x => decide (p.step < x.2)) = true ↔ Consumed s i p := by
    unfold Consumed
    cases (s.buffers i).head? <;> simp
  unfold MultiPacker.updateRunProgress
  rw [getItem_eq_ok.2 hp, ok_bind]
  refine ⟨_, rfl, ⟨_, _, fun j => ?_, rfl⟩, fun j hj => ?_, _, Dict.get?_insert_self .., fun hc => ?_, fun hc => ?_⟩
  · unfold Dict.contains
    by_cases hj : i = j
    · rw [← hj, Dict.get?_insert_self, hp]
      rfl
    · rw [Dict.get?_insert_ne _ _ hj]
  · exact Dict.get?_insert_ne _ _ (Ne.symm hj)
  · exact if_pos (hconsumed.2 hc)
  · exact if_neg (mt hconsumed.1 hc)

theorem works_refl (m : MultiRunManager F) : Works m m := ⟨m.progress, m.readyToUpdate, fun _ => rfl, rfl⟩

theorem works_trans {m m₁ m₂ : MultiRunManager F} (h : Works m m₁) (h' : Works m₁ m₂) : Works m m₂ := by
  obtain ⟨progress, ready, hprogress, rfl⟩ := h
  obtain ⟨progress', ready', hgrows, rfl⟩ := h'
  exact ⟨progress', ready', fun i => (hgrows i).trans (hprogress i), rfl⟩

theorem updateAll_spec {l : List (Nat × Nat × Nat)} (hl : (l.map Prod.fst).Nodup) {s : MultiPacker F R}
    (hprogress : ∀ e ∈ l, ∃ p, s.manager.progress.get? e.1 = some p) :
    ∃ m', l.foldlM (fun s e => s.updateRunProgress e.1 e.2.1 e.2.2) s = .ok { s with manager := m' } ∧
      Works s.manager m' ∧ ∀ i p, s.manager.progress.get? i = some p → ∃ p', m'.progress.get? i = some p' ∧
        (i ∈ l.map Prod.fst ∧ Consumed s i p → p'.step = p.step + 1) ∧
        (¬ (i ∈ l.map Prod.fst ∧ Consumed s i p) → p'.step = p.step) := by
  induction l generalizing s with
  | nil => exact ⟨s.manager, rfl, works_refl _, fun i p hp => ⟨p, hp, fun h => absurd h.1 List.not_mem_nil, fun _ => rfl⟩⟩
  | cons e l ih =>
      obtain ⟨hnot, hl⟩ := List.nodup_cons.1 hl
      obtain ⟨⟨p₀, hp₀⟩, hrest⟩ := List.forall_mem_cons.1 hprogress
      obtain ⟨m₁, h₁, hworks, hother, p₁, hp₁, hyes, hno⟩ := updateRunProgress_spec hp₀ e.2.1 e.2.2
      have hne : ∀ e' ∈ l, e'.1 ≠ e.1 := fun e' he' heq => hnot (List.mem_map.2 ⟨e', he', heq⟩)
      obtain ⟨m₂, h₂, hworks', hall⟩ := ih hl (s := { s with manager := m₁ }) fun e' he' => by
        rw [hother _ (hne e' he')]
        exact hrest e' he'
      refine ⟨m₂, ?_, works_trans hworks hworks', fun i p hp => ?_⟩
      · rw [List.foldlM_cons, h₁]
        exact h₂
      · rw [List.map_cons, List.mem_cons]
        by_cases hi : i = e.1
        · subst hi
          rw [hp₀] at hp
          cases hp
          obtain ⟨p', hp', -, hsame⟩ := hall _ _ hp₁
          have heq := hsame fun h => hnot h.1
          refine ⟨p', hp', fun h => heq.trans (hyes h.2), fun h => heq.trans (hno fun hc => h ⟨.inl rfl, hc⟩)⟩
        · obtain ⟨p', hp', hone, hsame⟩ := hall i p ((hother i hi).trans hp)
          refine ⟨p', hp', fun h => hone ⟨h.1.resolve_left hi, h.2⟩, fun h => hsame fun hc => h ⟨.inr hc.1, hc.2⟩⟩

/-! ## The micro batches -/

/-- The grid of one call of `pack`: the grids of its runs side by side, each with every sample of its run once. -/
structure Packed [Zero R] [One R] (config : PackerConfig F) (selected : List (Nat × TrainingSample R × Nat))
    (grids : List (Nat × List (List (MicroBatch R)))) (grid : List (List (MicroBatch R))) : Prop where
  nodup : (grids.map Prod.fst).Nodup
  runs : ∀ i, i ∈ grids.map Prod.fst ↔ takenOf selected i ≠ []
  conserves : ∀ g ∈ grids, Conserves ((takenOf selected g.1).map fun x => (g.1, x.1)) config.seqLen config.dpWorldSize
    config.padToMultipleOf g.2
  workers : grid.length = config.dpWorldSize
  rows : ∀ r row, grid[r]? = some row → row = grids.flatMap fun g => g.2.getD r []

theorem samplesByRun_get? (selected : List (Nat × TrainingSample R × Nat)) (i : Nat) :
    ((samplesByRun selected).get? i).getD [] = (takenOf selected i).map Prod.fst ∧
      ((samplesByRun selected).get? i ≠ none ↔ takenOf selected i ≠ []) := by
  have hempty : (∅ : Dict Nat (List (TrainingSample R))).get? i = none := rfl
  unfold samplesByRun takenOf
  rw [Dict.getD_appendAll, Dict.get?_appendAll_ne_none, hempty]
  constructor
  · simp [List.filter_map, Function.comp_def]
  · simp

theorem microBatchGrid_spec [Zero R] [One R] {config : PackerConfig F} {maxRuns : Nat}
    {selected : List (Nat × TrainingSample R × Nat)} {grid : List (List (MicroBatch R))}
    (h : microBatchGrid config maxRuns selected = .ok grid) : ∃ grids, Packed config selected grids grid := by
  have hfold : ∀ (runIdxs : List Nat) (all : List (List (MicroBatch R))), runIdxs.foldlM (fun allMicroBatches runIdx => do
      let runSamples := ((samplesByRun selected).get? runIdx).getD []
      let grid ← prepareBatch runSamples config.seqLen config.dpWorldSize (List.replicate runSamples.length runIdx) maxRuns
        config.padToMultipleOf
      return allMicroBatches.mapIdx fun workerIdx row => row ++ grid.getD workerIdx []) all = .ok grid →
      ∃ grids : List (Nat × List (List (MicroBatch R))), grids.map Prod.fst = runIdxs ∧ grid.length = all.length ∧
        (∀ g ∈ grids, Conserves ((takenOf selected g.1).map fun x => (g.1, x.1)) config.seqLen config.dpWorldSize
          config.padToMultipleOf g.2) ∧
        ∀ r, grid[r]? = all[r]?.map (· ++ grids.flatMap fun g => g.2.getD r []) := by
    intro runIdxs
    induction runIdxs with
    | nil =>
        intro all h
        cases h
        exact ⟨[], rfl, rfl, fun _ h => absurd h List.not_mem_nil, fun r => by simp⟩
    | cons runIdx runIdxs ih =>
        intro all h
        rw [List.foldlM_cons] at h
        obtain ⟨all₁, h₁, h⟩ := bind_eq_ok.1 h
        obtain ⟨g, hg, h₁⟩ := bind_eq_ok.1 h₁
        cases h₁
        obtain ⟨grids, hruns, hlen, hconserves, hrows⟩ := ih _ h
        refine ⟨(runIdx, g) :: grids, by rw [List.map_cons, hruns], by rw [hlen, List.length_mapIdx], ?_, fun r => ?_⟩
        · have hidxs : ((takenOf selected runIdx).map fun x => (runIdx, x.1)).map Prod.fst =
              List.replicate ((takenOf selected runIdx).map Prod.fst).length runIdx := by
            rw [List.map_map, List.length_map]
            exact List.map_const' ..
          have hsamples : ((takenOf selected runIdx).map fun x => (runIdx, x.1)).map Prod.snd =
              (takenOf selected runIdx).map Prod.fst := List.map_map
          rw [(samplesByRun_get? selected runIdx).1, ← hidxs, ← hsamples] at hg
          exact List.forall_mem_cons.2 ⟨conserves_of_prepareBatch hg, hconserves⟩
        · rw [hrows, List.getElem?_mapIdx, Option.map_map]
          simp [Function.comp_def]
  obtain ⟨grids, hruns, hlen, hconserves, hrows⟩ := hfold _ _ h
  have hkeys : ∀ i, i ∈ (samplesByRun selected).keys ↔ takenOf selected i ≠ [] := by
    intro i
    rw [Dict.mem_keys_iff, ← Option.ne_none_iff_exists', (samplesByRun_get? selected i).2]
  refine ⟨grids, ?_, fun i => ?_, hconserves, by rw [hlen, List.length_replicate], fun r row hrow => ?_⟩
  · rw [hruns]
    exact (List.perm_insertionSort _ _).nodup_iff.2 (samplesByRun selected).nodup
  · rw [hruns, List.mem_insertionSort, hkeys]
  · rw [hrows, List.getElem?_replicate] at hrow
    split_ifs at hrow
    · exact (Option.some.inj hrow).symm
    · cases hrow

/-! ## One call of `pack` -/

/-- The samples one call of `pack` selects, and the packer after it. -/
structure Chosen (config : PackerConfig F) (s : MultiPacker F R) (selected : List (Nat × TrainingSample R × Nat))
    (s' : MultiPacker F R) : Prop where
  nonempty : selected ≠ []
  room : (selected.map (·.2.1.length)).sum ≤ config.tokenBudget
  due : ∀ y ∈ selected, ∃ p, s.manager.progress.get? y.1 = some p ∧ (y.2.2 : Int) = p.step
  queue : ∀ i, s.buffers i = takenOf selected i ++ s'.buffers i
  progress : ∀ i p, s.manager.progress.get? i = some p → ∃ p', s'.manager.progress.get? i = some p' ∧
    p'.step = if takenOf selected i ≠ [] ∧ ∀ x ∈ s'.buffers i, (x.2 : Int) ≠ p.step then p.step + 1 else p.step
  works : Works s.manager s'.manager
  position : s'.roundRobinPosition < s.manager.maxRuns

namespace Delivery

variable {config : PackerConfig F} {d d' : Delivery F R}

theorem Inv.used (h : d.Inv config.seqLen []) {i : Nat} (hi : d.packer.buffers i ≠ []) :
    ∃ r p, d.packer.manager.idx2Id.get? i = some r ∧ d.packer.manager.progress.get? i = some p ∧
      Lane config.seqLen p.step (d.nextStep i) (d.packer.buffers i) (d.accepted i) (d.sent i) := by
  obtain ⟨r, p, hr, hp⟩ := exists_progress h.consistent fun hnone => hi (h.unused i hnone).1
  exact ⟨r, p, hr, hp, h.lane i r p hr List.not_mem_nil hp⟩

theorem Inv.tracked (h : d.Inv config.seqLen []) : Tracked d.packer.manager d.packer.buffers := by
  intro i hi
  obtain ⟨_, p, -, hp, -⟩ := h.used hi
  exact ⟨p, hp⟩

theorem Inv.valid (h : d.Inv config.seqLen []) {i : Nat} {x : TrainingSample R × Nat} (hx : x ∈ d.packer.buffers i) :
    x.1.Valid config.seqLen := by
  obtain ⟨_, _, -, -, hlane⟩ := h.used (List.ne_nil_of_mem hx)
  exact validateSample_eq_none_iff.1 (hlane.valid x hx)

theorem mem_usedIdxs {s : MultiPacker F R} {i : Nat} : i ∈ s.usedIdxs ↔ ∃ r, s.manager.idx2Id.get? i = some r := by
  unfold MultiPacker.usedIdxs
  rw [List.mem_insertionSort, Dict.mem_keys_iff]

/-- A count is positive exactly when some buffer has work. -/
theorem Inv.countTokens (h : d.Inv config.seqLen []) (threshold : Option Nat) :
    ∃ n, d.packer.countTokens threshold = .ok n ∧
      (0 < n ↔ ∃ i, i < d.packer.manager.maxRuns ∧ Work d.packer.manager d.packer.buffers i) := by
  have hprogress : ∀ i ∈ d.packer.usedIdxs, ∃ p, d.packer.manager.progress.get? i = some p := by
    intro i hi
    obtain ⟨_, p, -, hp⟩ := exists_progress h.consistent (Option.ne_none_iff_exists'.2 (mem_usedIdxs.1 hi))
    exact ⟨p, hp⟩
  obtain ⟨n, hn, -, hwork⟩ := countRuns_spec threshold (fun i x hx => (h.valid hx).pos) hprogress 0
  refine ⟨n, hn, hwork.trans ⟨?_, ?_⟩⟩
  · rintro ⟨i, hi, hw⟩
    obtain ⟨r, hr⟩ := mem_usedIdxs.1 hi
    exact ⟨i, h.consistent.bound i r hr, hw⟩
  · rintro ⟨i, -, hw⟩
    obtain ⟨x, hx, -⟩ := id hw
    obtain ⟨r, _, hr, -⟩ := h.used (List.ne_nil_of_mem (List.mem_of_mem_head? hx))
    exact ⟨i, mem_usedIdxs.2 ⟨r, hr⟩, hw⟩

theorem tokenBudget_pos (config : PackerConfig F) : 0 < config.tokenBudget :=
  Nat.mul_pos config.seqLen_pos config.dpWorldSize_pos

theorem Inv.work_of_ready (h : d.Inv config.seqLen []) (hready : Ready config d.packer) :
    ∃ i, i < d.packer.manager.maxRuns ∧ Work d.packer.manager d.packer.buffers i := by
  rcases hready with henough | ⟨n, hn, hpos⟩
  · obtain ⟨n, hn, hwork⟩ := h.countTokens (some config.tokenBudget)
    unfold MultiPacker.hasEnoughTokens at henough
    rw [hn] at henough
    have hle : config.tokenBudget ≤ n := of_decide_eq_true (Except.ok.inj henough)
    exact hwork.1 ((tokenBudget_pos config).trans_le hle)
  · obtain ⟨n', hn', hwork⟩ := h.countTokens none
    rw [hn] at hn'
    cases hn'
    exact hwork.1 hpos

/-- `pack` selects something and updates the progress; only `prepare_batch` may still raise. -/
theorem Inv.pack [Zero R] [One R] (h : d.Inv config.seqLen []) (hready : Ready config d.packer) (fuel : Nat) :
    (d.packer.pack config fuel = .ok none ∧ fuel ≤ buffered d.packer.manager.maxRuns d.packer.buffers) ∨
      ∃ s selected, Chosen config d.packer selected s ∧
        d.packer.pack config fuel = (microBatchGrid config s.manager.maxRuns selected).map fun grid =>
          some (s, selected, grid) := by
  obtain ⟨i, hi, hwork⟩ := h.work_of_ready hready
  have hfit : ∀ i, ∀ x ∈ d.packer.buffers i, x.1.length ≤ config.tokenBudget := by
    intro i x hx
    exact (h.valid hx).le.trans (Nat.le_mul_of_pos_right _ config.dpWorldSize_pos)
  have hstart : Selects d.packer.manager config.tokenBudget d.packer.buffers
      (⟨d.packer.buffers, d.packer.roundRobinPosition, [], 0⟩ : Selection R) :=
    ⟨fun _ => rfl, h.position (Nat.zero_lt_of_lt hi), fun _ h => absurd h List.not_mem_nil,
      fun _ h => absurd h List.not_mem_nil, Nat.zero_le _⟩
  obtain ⟨r, hr, htotal, hselects⟩ := selectLoop_spec h.tracked hfit fuel hstart rfl
  have hselect : d.packer.selectSamplesRoundRobin config.tokenBudget fuel = .ok (r.map fun x =>
      ({ d.packer with buffers := x.buffers, roundRobinPosition := x.position }, x.selected)) := by
    unfold MultiPacker.selectSamplesRoundRobin
    rw [hr]
    rfl
  cases r with
  | none =>
      refine .inl ⟨?_, not_lt.1 fun hlt => htotal hlt rfl⟩
      unfold MultiPacker.pack
      rw [hselect]
      rfl
  | some x =>
      obtain ⟨hx, -, hsome⟩ := hselects x rfl
      have hne : x.selected ≠ [] := hsome (tokenBudget_pos config) ⟨i, hi, hwork⟩ rfl
      have hkeys : ∀ i, i ∈ (perRunStats x.selected).entries.map Prod.fst ↔ takenOf x.selected i ≠ [] := fun i => by
        rw [← perRunStats_get?, Option.ne_none_iff_exists']
        exact Dict.mem_keys_iff ..
      have hprogress : ∀ e ∈ (perRunStats x.selected).entries, ∃ p, d.packer.manager.progress.get? e.1 = some p := by
        intro e he
        obtain ⟨z, hz⟩ := List.exists_mem_of_ne_nil _ ((hkeys e.1).1 (List.mem_map_of_mem he))
        have hbuffer : z ∈ d.packer.buffers e.1 := hx.split e.1 ▸ List.mem_append_left _ hz
        exact h.tracked e.1 (List.ne_nil_of_mem hbuffer)
      obtain ⟨m', hm', hworks, hsteps⟩ := updateAll_spec (perRunStats x.selected).nodup
        (s := { d.packer with buffers := x.buffers, roundRobinPosition := x.position }) hprogress
      refine .inr ⟨{ d.packer with manager := m', buffers := x.buffers, roundRobinPosition := x.position }, x.selected,
        ⟨hne, hx.room, fun y hy => ?_, hx.split, fun i p hp => ?_, hworks, hx.position⟩, ?_⟩
      · obtain ⟨p, hp, hle⟩ := hx.due y hy
        have hmem : y.2 ∈ takenOf x.selected y.1 :=
          List.mem_map_of_mem (List.mem_filter.2 ⟨hy, decide_eq_true rfl⟩)
        have hbuffer : y.2 ∈ d.packer.buffers y.1 := hx.split y.1 ▸ List.mem_append_left _ hmem
        obtain ⟨_, p', -, hp', hlane⟩ := h.used (List.ne_nil_of_mem hbuffer)
        obtain rfl : p' = p := Option.some.inj (hp'.symm.trans hp)
        exact ⟨p', hp, le_antisymm hle (hlane.bounds _ hbuffer).1⟩
      · obtain ⟨p', hp', hyes, hno⟩ := hsteps i p hp
        refine ⟨p', hp', ?_⟩
        rw [hkeys] at hyes hno
        have hconsumed : Consumed ({ d.packer with buffers := x.buffers, roundRobinPosition := x.position } : MultiPacker F R)
            i p ↔ ∀ y ∈ x.buffers i, (y.2 : Int) ≠ p.step := by
          unfold Consumed
          by_cases hnil : x.buffers i = []
          · simp [hnil]
          · obtain ⟨_, p₁, -, hp₁, hlane⟩ := h.used (i := i) (by
              rw [hx.split]
              exact List.append_ne_nil_of_right_ne_nil _ hnil)
            obtain rfl : p₁ = p := Option.some.inj (hp₁.symm.trans hp)
            rw [hx.split] at hlane
            exact hlane.consumed_iff
        rw [hconsumed] at hyes hno
        split_ifs with hlast
        · exact hyes hlast
        · exact hno hlast
      · unfold MultiPacker.pack
        rw [hselect]
        show (do
          pyAssert (x.selected.length ≠ 0) "No samples selected"
          let s ← withoutMessage (MultiPacker.updateProgress _ x.selected)
          let grid ← microBatchGrid config s.manager.maxRuns x.selected
          return some (s, x.selected, grid) : Except PyException _) = _
        have hassert : pyAssert (x.selected.length ≠ 0) "No samples selected" = .ok () :=
          pyAssert_eq_ok.2 (mt List.length_eq_zero_iff.1 hne)
        unfold MultiPacker.updateProgress
        rw [hassert, hm', ok_bind]
        show (microBatchGrid config m'.maxRuns x.selected >>= _) = _
        cases microBatchGrid config m'.maxRuns x.selected <;> rfl

theorem Inv.packed {s : MultiPacker F R} {selected : List (Nat × TrainingSample R × Nat)} (h : d.Inv config.seqLen [])
    (hs : Chosen config d.packer selected s) :
    Inv config.seqLen [] { d with packer := s, waiting := false, sent := fun idx => d.sent idx ++ takenOf selected idx } := by
  obtain ⟨progress, ready, hcontains, hm⟩ := hs.works
  refine ⟨hs.works.consistent h.consistent, fun _ => ?_, fun i hi => ?_, fun i r p' hi _ hp' => ?_⟩
  · show s.roundRobinPosition < s.manager.maxRuns
    rw [hm]
    exact hs.position
  · have hunused := h.unused i (by rw [hm] at hi; exact hi)
    obtain ⟨htaken, hrest⟩ := List.append_eq_nil_iff.1 ((hs.queue i).symm.trans hunused.1)
    refine ⟨hrest, hunused.2.1, ?_⟩
    show d.sent i ++ takenOf selected i = []
    rw [hunused.2.2, htaken, List.append_nil]
  · have hidx : d.packer.manager.idx2Id.get? i = some r := by
      rw [hm] at hi
      exact hi
    obtain ⟨_, p, -, hp⟩ := exists_progress h.consistent (Option.ne_none_iff_exists'.2 ⟨r, hidx⟩)
    obtain ⟨p₁, hp₁, hstep⟩ := hs.progress i p hp
    obtain rfl : p₁ = p' := Option.some.inj (hp₁.symm.trans hp')
    have hlane := h.lane i r p hidx List.not_mem_nil hp
    rw [hs.queue i] at hlane
    have hsend := hlane.send fun x hx => by
      obtain ⟨y, hy, rfl⟩ := List.mem_map.1 hx
      obtain ⟨hy, hyi⟩ := List.mem_filter.1 hy
      obtain ⟨p₂, hp₂, heq⟩ := hs.due y hy
      rw [of_decide_eq_true hyi] at hp₂
      obtain rfl : p₂ = p := Option.some.inj (hp₂.symm.trans hp)
      exact heq.le
    rw [hstep]
    exact hsend

end Delivery

section

variable [ScalingFactor F] [Zero R] [One R] {config : PackerConfig F} {d d' : Delivery F R}

omit [ScalingFactor F] in
/-- What a call of `pack` that sends its micro batches did. -/
theorem pack_spec (h : d.Inv config.seqLen []) {fuel : Nat} {s : MultiPacker F R}
    {selected : List (Nat × TrainingSample R × Nat)} {grid : List (List (MicroBatch R))}
    (hready : Delivery.Ready config d.packer) (hpack : d.packer.pack config fuel = .ok (some (s, selected, grid))) :
    Chosen config d.packer selected s ∧ ∃ grids, Packed config selected grids grid := by
  rcases h.pack hready fuel with ⟨hnone, -⟩ | ⟨s', selected', hchosen, heq⟩
  · rw [hnone] at hpack
    cases hpack
  · rw [heq] at hpack
    cases hgrid : microBatchGrid config s'.manager.maxRuns selected' with
    | error e =>
        rw [hgrid] at hpack
        cases hpack
    | ok grid' =>
        rw [hgrid] at hpack
        cases hpack
        exact ⟨hchosen, microBatchGrid_spec hgrid⟩

theorem inv_reachable (h : (deliverySystem config).Reachable d) : d.Inv config.seqLen [] := by
  refine System.Reachable.invariant (I := fun d => d.Inv config.seqLen []) (fun d hd => Delivery.Initial.inv hd)
    (fun d a d' h hstep => ?_) h
  cases hstep with
  | getBatch poll _ hpoll =>
      have hinv := h.polled hpoll
      exact ⟨hinv.consistent, hinv.position, hinv.unused, hinv.lane⟩
  | pack _ hready hpack => exact h.packed (pack_spec h hready hpack).1
  | train readyToUpdate lastSyncedId2Idx calls =>
      exact ⟨⟨h.consistent.inverse, h.consistent.unused, h.consistent.bound, h.consistent.progress, h.consistent.config⟩,
        h.position, h.unused, h.lane⟩

omit [ScalingFactor F] [Zero R] [One R] in
/-- A run has work as long as it has buffered samples. -/
theorem work_iff (h : d.Inv config.seqLen []) {i : Nat} :
    Work d.packer.manager d.packer.buffers i ↔ d.packer.buffers i ≠ [] := by
  constructor
  · rintro ⟨x, hx, -⟩
    exact List.ne_nil_of_mem (List.mem_of_mem_head? hx)
  · intro hne
    obtain ⟨_, p, -, hp, hlane⟩ := h.used hne
    obtain ⟨y, rest, hbuffer⟩ := List.exists_cons_of_ne_nil hne
    rw [hbuffer] at hlane
    have hy := hlane.bounds y List.mem_cons_self
    obtain ⟨x, hx, hxp⟩ := hlane.full p.step (le_refl _) (hy.1.trans_lt hy.2)
    refine ⟨y, by rw [hbuffer]; rfl, p, hp, ?_⟩
    rcases List.mem_cons.1 hx with rfl | hx
    · exact hxp.le
    · have := (List.pairwise_cons.1 hlane.sorted).1 x hx
      omega

/-- What a packer delivers: what was accepted at an index is what was sent followed by what is buffered; the progress has
passed exactly the steps that are sent; `pack` waits only when nothing is buffered, and then selects samples and goes on to
the micro batches; what it sends is chosen as `Chosen` says. -/
structure Delivers (config : PackerConfig F) (d : Delivery F R) : Prop where
  split : ∀ i, d.accepted i = d.sent i ++ d.packer.buffers i
  steps : ∀ i p, d.packer.manager.progress.get? i = some p → (∀ x ∈ d.sent i, (x.2 : Int) ≤ p.step) ∧
    (∀ x ∈ d.accepted i, (x.2 : Int) < d.nextStep i) ∧ p.step ≤ d.nextStep i ∧
    ∀ k : Int, k < d.nextStep i → (p.step ≤ k ↔ ∃ x ∈ d.packer.buffers i, (x.2 : Int) = k)
  waits : ∃ n, d.packer.countTokens none = .ok n ∧ (n = 0 ↔ ∀ i, d.packer.buffers i = [])
  returns : Delivery.Ready config d.packer → ∀ fuel, buffered d.packer.manager.maxRuns d.packer.buffers < fuel →
    ∃ s selected, Chosen config d.packer selected s ∧ d.packer.pack config fuel =
      (microBatchGrid config s.manager.maxRuns selected).map fun grid => some (s, selected, grid)
  sends : ∀ selected grid d', DeliveryStep config d (.pack selected grid) d' → Chosen config d.packer selected d'.packer ∧
    (∀ i, d'.sent i = d.sent i ++ takenOf selected i) ∧ ∃ grids, Packed config selected grids grid

/-- **Main.** Every reachable packer delivers each sample once, in order, when its step has come. -/
theorem multiPackerDelivery (h : (deliverySystem config).Reachable d) : Delivers config d := by
  have hinv := inv_reachable h
  refine ⟨fun i => ?_, fun i p hp => ?_, ?_, fun hready fuel hfuel => ?_, fun selected grid d' hstep => ?_⟩
  · by_cases hi : d.packer.manager.idx2Id.get? i = none
    · obtain ⟨hbuffer, haccepted, hsent⟩ := hinv.unused i hi
      rw [hbuffer, haccepted, hsent]
      rfl
    · obtain ⟨r, p, hr, hp⟩ := exists_progress hinv.consistent hi
      exact (hinv.lane i r p hr List.not_mem_nil hp).split
  · obtain ⟨r, hr⟩ := exists_run hinv.consistent hp
    have hlane := hinv.lane i r p hr List.not_mem_nil hp
    refine ⟨fun x hx => (hlane.past x hx).1, fun x hx => ?_, hlane.le, fun k hk => ⟨fun hpk => hlane.full k hpk hk, ?_⟩⟩
    · rw [hlane.split] at hx
      rcases List.mem_append.1 hx with hx | hx
      · exact (hlane.past x hx).2
      · exact (hlane.bounds x hx).2
    · rintro ⟨x, hx, rfl⟩
      exact (hlane.bounds x hx).1
  · obtain ⟨n, hn, hwork⟩ := hinv.countTokens none
    refine ⟨n, hn, ?_⟩
    have hzero : n = 0 ↔ ¬ 0 < n := by omega
    simp only [hzero, hwork, work_iff hinv, not_exists, not_and, not_not]
    refine ⟨fun hall i => by_contra fun hi => ?_, fun hall i _ => hall i⟩
    obtain ⟨r, _, hr, -⟩ := hinv.used hi
    exact hi (hall i (hinv.consistent.bound i r hr))
  · rcases hinv.pack hready fuel with ⟨-, hle⟩ | hpack
    · exact absurd hfuel (not_lt.2 hle)
    · exact hpack
  · cases hstep with
    | pack _ hready hpack =>
        obtain ⟨hchosen, hgrid⟩ := pack_spec hinv hready hpack
        exact ⟨hchosen, fun _ => rfl, hgrid⟩

end

/-! ### Two runs with two samples each -/

section Example

attribute [local instance] natFactor

def twoPacker : PackerConfig Nat := ⟨none, 3, 1, 1, Nat.succ_pos 2, Nat.one_pos⟩

/-- The runs `a` and `b` are discovered, and a batch of two samples arrives from each. -/
def twoRuns : Poll Nat Int where
  before := ⟨plainDirs {"a", "b"}, leastIter, [], ["a", "b"]⟩
  batches := [⟨[oneToken none, oneToken none], 0, some 0, 0⟩, ⟨[oneToken none, oneToken none], 0, some 1, 0⟩]
  after := ⟨plainDirs {"a", "b"}, leastIter, [], []⟩

def discoveredAB : MultiRunManager Nat := { MultiRunManager.init Nat 2 with
  idx2Id := .ofList [(0, "a"), (1, "b")]
  id2Idx := .ofList [("a", 0), ("b", 1)]
  unusedIdxs := ∅
  progress := .ofList [(0, ⟨0, 0, 0⟩), (1, ⟨0, 0, 0⟩)]
  config := .ofList [(0, ⟨none, none⟩), (1, ⟨none, none⟩)]
  calls := [.discovered 0 "a", .discovered 1 "b"] }

/-- All four samples are buffered. -/
def polledPacker : MultiPacker Nat Int :=
  ⟨discoveredAB, fun i => if i < 2 then [(oneToken none, 0), (oneToken none, 0)] else [], 0⟩

theorem reachable_polled : ∃ d : Delivery Nat Int, (deliverySystem twoPacker).Reachable d ∧ d.waiting = true ∧
    d.packer = polledPacker ∧ ∀ i, d.sent i = [] := by
  let start : Delivery Nat Int := ⟨⟨.init Nat 2, fun _ => [], 0⟩, false, fun _ => 0, fun _ => [], fun _ => []⟩
  have hstart : (deliverySystem twoPacker).Reachable start :=
    .of_init ⟨consistent_init 2, rfl, rfl, fun _ => rfl, fun _ => ⟨rfl, rfl, rfl⟩⟩
  have hpoll : ∃ d buffers, start.Polled twoPacker twoRuns d ∧ d.packer = ⟨discoveredAB, buffers, 0⟩ ∧
      buffers = polledPacker.buffers ∧ ∀ i, d.sent i = [] := by
    refine ⟨_, _, ⟨⟨by decide, by decide⟩, _, _, rfl, ⟨?_, ?_, trivial⟩, rfl, ⟨by decide, by decide⟩, rfl⟩, rfl, ?_, ?_⟩
    · rintro idx ⟨⟩
      exact ⟨rfl, rfl⟩
    · rintro idx ⟨⟩
      exact ⟨rfl, rfl⟩
    · funext i
      rcases i with _ | _ | i
      · rfl
      · rfl
      · rfl
    · intro i
      rcases i with _ | _ | i
      · rfl
      · rfl
      · rfl
  obtain ⟨d, _, hpolled, hpacker, rfl, hsent⟩ := hpoll
  exact ⟨_, hstart.step (.getBatch twoRuns (fun h => by cases h) hpolled), rfl, hpacker, hsent⟩

/-- The tokens suffice for both samples of `a` and one of `b`. -/
theorem reachable_packed : ∃ d : Delivery Nat Int, (deliverySystem twoPacker).Reachable d ∧
    d.sent 0 = [(oneToken none, 0), (oneToken none, 0)] ∧ d.sent 1 = [(oneToken none, 0)] ∧
    d.packer.buffers 1 = [(oneToken none, 0)] := by
  obtain ⟨d, hd, hwait, hpacker, hsent⟩ := reachable_polled
  have henough : polledPacker.hasEnoughTokens twoPacker = .ok true := rfl
  obtain ⟨s, selected, grid, hpack, hfirst, hsecond, hleft⟩ : ∃ s selected grid,
      polledPacker.pack twoPacker 5 = .ok (some (s, selected, grid)) ∧
      takenOf selected 0 = [(oneToken none, 0), (oneToken none, 0)] ∧ takenOf selected 1 = [(oneToken none, 0)] ∧
      s.buffers 1 = [(oneToken none, 0)] := ⟨_, _, _, rfl, rfl, rfl, rfl⟩
  rw [← hpacker] at henough hpack
  refine ⟨_, hd.step (.pack hwait (.inl henough) hpack), ?_, ?_, hleft⟩
  · dsimp only
    rw [hsent, hfirst]
    rfl
  · dsimp only
    rw [hsent, hsecond]
    rfl

theorem multiPackerDelivery_packed : ∃ d : Delivery Nat Int, d.sent 0 = [(oneToken none, 0), (oneToken none, 0)] ∧
    d.sent 1 = [(oneToken none, 0)] ∧ d.packer.buffers 1 = [(oneToken none, 0)] ∧ Delivers twoPacker d := by
  obtain ⟨d, hd, hfirst, hsecond, hleft⟩ := reachable_packed
  exact ⟨d, hfirst, hsecond, hleft, multiPackerDelivery hd⟩

end Example

end AuroraRl.Trainer
