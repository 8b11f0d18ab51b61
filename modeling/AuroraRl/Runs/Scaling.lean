import AuroraRl.Runs.Fleet

/-!
# The scaling factors after a synchronisation

* `synchronizeRank_scaling` : a rank copies the master's factors and then resets the indices of the runs it drops;
* `Fleet.Scaled` : the ranks scale the master's runs as it does;
* `Fleet.Unused` : no index of a dropped run is in use again;
* `scalingAgreement` : a run's synchronisations all leave the ranks scaled if and only if they all find such indices
  unused.
-/

namespace AuroraRl.Runs
open Transition MultiRunManager

variable {F ι : Type} [ScalingFactor F]

/-! ## One rank -/

theorem deleteRunData_scaling {m m' : MultiRunManager F} {run : String} {idx : Nat}
    (h : m.deleteRunData run idx = .ok m') (i : Nat) :
    m'.scalingFactors i = if i = idx then ScalingFactor.reset else m.scalingFactors i := by
  obtain ⟨_, -, h⟩ := bind_eq_ok.1 h
  obtain ⟨_, -, h⟩ := bind_eq_ok.1 h
  obtain ⟨_, -, h⟩ := bind_eq_ok.1 h
  cases h
  rfl

theorem deleteRuns_scaling {indices : Dict String Nat} {l : List String} {m m' : MultiRunManager F}
    (h : l.foldlM (fun m run => do
      let idx ← getItem indices run
      m.deleteRunData run idx) m = .ok m') (i : Nat) :
    m'.scalingFactors i =
      if ∃ r ∈ l, indices.get? r = some i then ScalingFactor.reset else m.scalingFactors i := by
  induction l generalizing m with
  | nil =>
      cases h
      rw [if_neg fun ⟨r, hr, _⟩ => List.not_mem_nil hr]
  | cons run l ih =>
      rw [List.foldlM_cons] at h
      obtain ⟨m₁, h₁, h⟩ := bind_eq_ok.1 h
      obtain ⟨idx, hidx, h₁⟩ := bind_eq_ok.1 h₁
      rw [getItem_eq_ok] at hidx
      rw [ih h, deleteRunData_scaling h₁]
      by_cases hl : ∃ r ∈ l, indices.get? r = some i
      · have hcons : ∃ r ∈ run :: l, indices.get? r = some i := by
          obtain ⟨r, hr, hi⟩ := hl
          exact ⟨r, List.mem_cons_of_mem run hr, hi⟩
        rw [if_pos hl, if_pos hcons]
      · rw [if_neg hl]
        by_cases hi : i = idx
        · rw [if_pos hi, if_pos ⟨run, List.mem_cons_self, hi ▸ hidx⟩]
        · rw [if_neg hi, if_neg ?_]
          rintro ⟨r, hr, hri⟩
          cases List.mem_cons.1 hr with
          | inl heq =>
              subst heq
              exact hi (Option.some.inj (hri.symm.trans hidx))
          | inr hr => exact hl ⟨r, hr, hri⟩

theorem synchronizeRank_scaling {m m' : MultiRunManager F} {out : OutputDir F} {data : SyncData F}
    {deleted new : List String} (h : m.synchronizeRank out data deleted new = .ok m') (i : Nat) :
    m'.scalingFactors i =
      if ∃ r ∈ deleted, m.id2Idx.get? r = some i then ScalingFactor.reset else data.scalingFactors i := by
  obtain ⟨m₁, hdelete, h⟩ := bind_eq_ok.1 h
  obtain ⟨m₂, hcreate, h⟩ := bind_eq_ok.1 h
  obtain ⟨calls, rfl⟩ := runHooks_eq h
  rw [← deleteRuns_scaling hdelete i]
  change m₂.scalingFactors i = _
  refine congrFun (foldlM_preserves (P := fun m => m.scalingFactors = m₁.scalingFactors) (fun m₃ run m₄ h₃ h => ?_)
    hcreate rfl) i
  obtain ⟨idx, -, h⟩ := bind_eq_ok.1 h
  obtain ⟨config, -, h⟩ := bind_eq_ok.1 h
  unfold MultiRunManager.createRunData at h
  split at h
  · cases h
    exact h₃
  · cases h

/-! ## All ranks -/

/-- At every index in use the ranks have the master's factor. -/
def Fleet.Scaled (fleet : Fleet F ι) : Prop :=
  ∀ k i, fleet.master.idx2Id.contains i = true → (fleet.rank k).scalingFactors i = fleet.master.scalingFactors i

/-- No index of a run that a rank is about to drop is in use again, unless at the factor of an unused one. -/
def Fleet.Unused (fleet : Fleet F ι) : Prop :=
  ∀ k r i, (fleet.rank k).id2Idx.get? r = some i → fleet.master.id2Idx.get? r = none →
    fleet.master.idx2Id.contains i = true → fleet.master.scalingFactors i = ScalingFactor.reset

theorem scaled_iff_unused {o : SyncOrders F ι} {fleet fleet' : Fleet F ι} (ho : o.Valid fleet)
    (h : Synchronizes o fleet fleet') : fleet'.Scaled ↔ fleet.Unused := by
  obtain ⟨data, hdata, hrank⟩ := h.rank
  obtain ⟨configs, -, hdata⟩ := bind_eq_ok.1 hdata
  cases hdata
  obtain ⟨m, hhooks, hmaster⟩ := bind_eq_ok.1 h.master
  obtain ⟨calls, rfl⟩ := runHooks_eq hhooks
  have heq := (Except.ok.inj hmaster).symm
  have hscaling : ∀ k i, (fleet'.rank k).scalingFactors i = fleet'.master.scalingFactors i ↔
      (∀ r, (fleet.rank k).id2Idx.get? r = some i → fleet.master.id2Idx.get? r = none →
        fleet.master.scalingFactors i = ScalingFactor.reset) := by
    intro k i
    rw [synchronizeRank_scaling (hrank k) i, heq]
    constructor
    · intro hsame r hr hnone
      rw [if_pos ⟨r, (mem_of_enumerates (ho.rankDeleted k)).2 ⟨⟨i, hr⟩, hnone⟩, hr⟩] at hsame
      exact hsame.symm
    · intro hreset
      split
      · rename_i hr
        obtain ⟨r, hr, hi⟩ := hr
        exact (hreset r hi ((mem_of_enumerates (ho.rankDeleted k)).1 hr).2).symm
      · rfl
  constructor
  · intro hscaled k r i hr hnone hused
    refine (hscaling k i).1 (hscaled k i ?_) r hr hnone
    rw [heq]
    exact hused
  · intro hunused k i hused
    rw [heq] at hused
    exact (hscaling k i).2 fun r hr hnone => hunused k r i hr hnone hused

/-- **Main.** The runs all of whose synchronisations leave the master's factors on the ranks are the runs all of whose
synchronisations find the indices of dropped runs unused. -/
theorem scalingAgreement {trainerLora : Option (LoRAConfig F)} {maxRuns : Nat} {fleet fleet' : Fleet F ι}
    {actions : List (FleetAction F)} :
    ((fleetSystem ι trainerLora maxRuns).ensure fun action fleet => action = .synchronize → fleet.Scaled).Run
        fleet actions fleet' ↔
      ((fleetSystem ι trainerLora maxRuns).restrict fun fleet action => action = .synchronize → fleet.Unused).Run
        fleet actions fleet' := by
  refine System.Run.congr fun s action t => ?_
  change FleetStep trainerLora s action t ∧ _ ↔ _ ∧ FleetStep trainerLora s action t
  rw [and_comm]
  refine and_congr_left fun h => ?_
  cases h with
  | discover => exact ⟨nofun, nofun⟩
  | work => exact ⟨nofun, nofun⟩
  | synchronize o ho h => exact imp_congr_right fun _ => scaled_iff_unused ho h

/-! ### A run that takes the index of a dropped one -/

section Example

attribute [local instance] natFactor

/-- Runs whose adapters are scaled by two. -/
def adapterDirs (runs : Finset String) : OutputDir Nat :=
  ⟨runs, fun _ => ⟨false, some ⟨none, some ⟨some 1, some 2⟩⟩, [], []⟩⟩

def adapterOrdersA : SyncOrders Nat Unit := ⟨["a"], [], ["a"], fun _ => adapterDirs {"a"}, fun _ => [], fun _ => ["a"]⟩

def adapterOrdersB : SyncOrders Nat Unit := ⟨["b"], ["a"], ["b"], fun _ => adapterDirs {"b"}, fun _ => ["a"], fun _ => ["b"]⟩

/-- `b` follows `a` at one index, and the rank resets the factor it has just copied. -/
theorem scalingAgreement_reset : ∃ actions fleet,
    (fleetSystem Unit (some ⟨1, 1⟩) 1).Run (.init Nat Unit 1) (actions ++ [.synchronize]) fleet ∧
      (fleet.rank ()).idx2Id.get? 0 = some "b" ∧ fleet.master.scalingFactors 0 = 2 ∧
      (fleet.rank ()).scalingFactors 0 = 1000000 := by
  have h₁ : (fleetSystem Unit (some ⟨1, 1⟩) 1).Run (.init Nat Unit 1) _ _ :=
    .single (.discover (adapterDirs {"a"}) leastIter [] ["a"] (by decide) (by decide) rfl)
  have h₂ : (fleetSystem Unit (some ⟨1, 1⟩) 1).Run (.init Nat Unit 1) _ ⟨_, fun _ => _, _⟩ :=
    h₁.snoc (.synchronize adapterOrdersA
      ⟨by decide, by decide, by decide, fun () => by decide, fun () => by decide⟩ ⟨rfl, ⟨_, rfl, fun _ => rfl⟩, rfl⟩)
  have h₃ := h₂.snoc (.discover (adapterDirs {"b"}) leastIter ["a"] ["b"] (by decide) (by decide) rfl)
  have h₄ : (fleetSystem Unit (some ⟨1, 1⟩) 1).Run (.init Nat Unit 1) _ ⟨_, fun _ => _, _⟩ :=
    h₃.snoc (.synchronize adapterOrdersB
      ⟨by decide, by decide, by decide, fun () => by decide, fun () => by decide⟩ ⟨rfl, ⟨_, rfl, fun _ => rfl⟩, rfl⟩)
  exact ⟨_, _, h₄, rfl, rfl, rfl⟩

end Example

end AuroraRl.Runs
