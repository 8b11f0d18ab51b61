import AuroraRl.Lib.Transition
import AuroraRl.Runs.Discovery
import Mathlib.Data.Finset.Max

/-!
# The ranks agree after a synchronisation

* `Fleet`, `fleetSystem` : a master and other ranks, with `discover_runs`, work and `synchronize_state` in any order;
* `Fleet.changes` : what the master forgot and discovered since the last synchronisation;
* `Fleet.Steady` : no run known to the last synchronisation was forgotten since and is back;
* `synchronizeRank_spec`, `Fleet.Inv.synchronizes` : what a synchronisation leaves;
* `rankAgreement` : in runs whose synchronisations meet steady states they agree, and elsewhere they do not.
-/

namespace AuroraRl.Runs
open Transition MultiRunManager

variable {F ι : Type} [ScalingFactor F]

/-! ## The system -/

/-- The managers of a master and of the other ranks. `syncedCalls` is no field of the source: it counts the hooks that
the master had called when the last synchronisation ended. -/
structure Fleet (F ι : Type) where
  master : MultiRunManager F
  rank : ι → MultiRunManager F
  syncedCalls : Nat

def Fleet.init (F ι : Type) [ScalingFactor F] (maxRuns : Nat) : Fleet F ι :=
  ⟨.init F maxRuns, fun _ => .init F maxRuns, 0⟩

/-- The orders in which the processes iterate their sets, and what each rank reads of the run directories. -/
structure SyncOrders (F ι : Type) where
  stored : List String
  deleted : List String
  new : List String
  rankOut : ι → OutputDir F
  rankDeleted : ι → List String
  rankNew : ι → List String

omit [ScalingFactor F] in
structure SyncOrders.Valid (o : SyncOrders F ι) (fleet : Fleet F ι) : Prop where
  stored : Enumerates o.stored (keysMinus fleet.master.id2Idx fleet.master.lastSyncedId2Idx)
  deleted : Enumerates o.deleted (keysMinus fleet.master.lastSyncedId2Idx fleet.master.id2Idx)
  new : Enumerates o.new (keysMinus fleet.master.id2Idx fleet.master.lastSyncedId2Idx)
  rankDeleted : ∀ k, Enumerates (o.rankDeleted k) (keysMinus (fleet.rank k).id2Idx fleet.master.id2Idx)
  rankNew : ∀ k, Enumerates (o.rankNew k) (keysMinus fleet.master.id2Idx (fleet.rank k).id2Idx)

/-- `synchronize_state` returns on every rank. -/
structure Synchronizes (o : SyncOrders F ι) (fleet fleet' : Fleet F ι) : Prop where
  master : fleet.master.synchronizeMaster o.deleted o.new = .ok fleet'.master
  rank : ∃ data, fleet.master.syncData o.stored = .ok data ∧
    ∀ k, (fleet.rank k).synchronizeRank (o.rankOut k) data (o.rankDeleted k) (o.rankNew k) = .ok (fleet'.rank k)
  syncedCalls : fleet'.syncedCalls = fleet'.master.calls.length

/-- Training advances the progress of its runs and marks runs as ready. -/
def Works (m m' : MultiRunManager F) : Prop :=
  ∃ progress ready, (∀ i, progress.contains i = m.progress.contains i) ∧
    m' = { m with progress := progress, readyToUpdate := ready }

inductive FleetAction (F : Type)
  | discover (out : OutputDir F)
  | work
  | synchronize

inductive FleetStep (trainerLora : Option (LoRAConfig F)) : Fleet F ι → FleetAction F → Fleet F ι → Prop
  | discover {fleet : Fleet F ι} (out : OutputDir F) (iter : NextIter) (deleted new : List String)
      {master : MultiRunManager F} (hdeleted : Enumerates deleted (fleet.master.deletedRuns out))
      (hnew : Enumerates new (fleet.master.newRuns out))
      (h : discoverRuns trainerLora out iter fleet.master deleted new = .ok master) :
      FleetStep trainerLora fleet (.discover out) { fleet with master := master }
  | work {fleet fleet' : Fleet F ι} (hmaster : Works fleet.master fleet'.master)
      (hrank : ∀ k, Works (fleet.rank k) (fleet'.rank k)) (hsynced : fleet'.syncedCalls = fleet.syncedCalls) :
      FleetStep trainerLora fleet .work fleet'
  | synchronize {fleet fleet' : Fleet F ι} (o : SyncOrders F ι) (ho : o.Valid fleet) (h : Synchronizes o fleet fleet') :
      FleetStep trainerLora fleet .synchronize fleet'

def fleetSystem (ι : Type) (trainerLora : Option (LoRAConfig F)) (maxRuns : Nat) : System (Fleet F ι) (FleetAction F) where
  init fleet := fleet = .init F ι maxRuns
  step := FleetStep trainerLora

/-! ## Agreement -/

/-- The tables of a rank are the master's. -/
structure Agrees (m master : MultiRunManager F) : Prop where
  id2Idx : ∀ r, m.id2Idx.get? r = master.id2Idx.get? r
  idx2Id : ∀ i, m.idx2Id.get? i = master.idx2Id.get? i
  unusedIdxs : m.unusedIdxs = master.unusedIdxs
  progress : ∀ i, m.progress.get? i = master.progress.get? i
  config : ∀ i, m.config.get? i = master.config.get? i

/-- From `m` to `m'` every index got the hooks it was owed, and no others. -/
def HooksRun (before after : Dict String Nat) (changes : List HookCall) (m m' : MultiRunManager F) : Prop :=
  ∃ calls, m'.calls = m.calls ++ calls ∧ ∀ i, calls.filter (fun c => c.idx = i) = indexCalls before after changes i

/-- What `discover_runs` forgot and discovered since the last synchronisation. -/
def Fleet.changes (fleet : Fleet F ι) : List HookCall := fleet.master.calls.drop fleet.syncedCalls

/-- No run that the last synchronisation knew was forgotten since and is known again. -/
def Fleet.Steady (fleet : Fleet F ι) : Prop :=
  ∀ r i j, fleet.master.lastSyncedId2Idx.get? r = some i → fleet.master.id2Idx.get? r = some j →
    HookCall.forgotten i r ∉ fleet.changes

/-- What one synchronisation has to achieve. -/
structure Agreement (fleet fleet' : Fleet F ι) : Prop where
  tables : ∀ k, Agrees (fleet'.rank k) fleet'.master
  masterHooks : HooksRun fleet.master.lastSyncedId2Idx fleet.master.id2Idx fleet.changes fleet.master fleet'.master
  rankHooks : ∀ k, HooksRun fleet.master.lastSyncedId2Idx fleet.master.id2Idx fleet.changes (fleet.rank k) (fleet'.rank k)

/-- Between synchronisations a rank stays where the last one left it. -/
structure Fleet.Inv (fleet : Fleet F ι) : Prop where
  master : Consistent fleet.master
  rank : ∀ k, Consistent (fleet.rank k)
  maxRuns : ∀ k, (fleet.rank k).maxRuns = fleet.master.maxRuns
  synced : ∀ k r, (fleet.rank k).id2Idx.get? r = fleet.master.lastSyncedId2Idx.get? r
  injective : Injective fleet.master.lastSyncedId2Idx
  syncedCalls : fleet.syncedCalls ≤ fleet.master.calls.length
  /-- What was not forgotten since is where it was. -/
  kept : ∀ r i, fleet.master.lastSyncedId2Idx.get? r = some i → HookCall.forgotten i r ∉ fleet.changes →
    fleet.master.id2Idx.get? r = some i ∧ ∀ k, (fleet.rank k).config.get? i = fleet.master.config.get? i
  /-- The first change at an index is that its run is forgotten. -/
  first : ∀ r i, fleet.master.lastSyncedId2Idx.get? r = some i → ∀ c ∈ fleet.changes, c.idx = i →
    HookCall.forgotten i r ∈ fleet.changes

/-! ## One rank -/

omit [ScalingFactor F] in
theorem Works.consistent {m m' : MultiRunManager F} (h : Works m m') (hm : Consistent m) : Consistent m' := by
  obtain ⟨progress, ready, hprogress, rfl⟩ := h
  exact ⟨hm.inverse, hm.unused, hm.bound, fun i => (hprogress i).trans (hm.progress i), hm.config⟩

omit [ScalingFactor F] in
theorem newConfigs_spec {m : MultiRunManager F} (hm : Consistent m) {new : List String}
    (h : ∀ r ∈ new, ∃ i, m.id2Idx.get? r = some i) :
    ∃ configs, m.newConfigs new = .ok configs ∧
      ∀ r ∈ new, ∃ i c, m.id2Idx.get? r = some i ∧ configs.get? r = some c ∧ m.config.get? i = some c := by
  have hloop : ∀ (l : List String) (d : Dict String (OrchestratorConfig F)),
      (∀ r ∈ l, ∃ i, m.id2Idx.get? r = some i) →
      ∃ d', l.foldlM (fun d newRun => do
          let idx ← getItem m.id2Idx newRun
          let config ← getItem m.config idx
          return d.insert newRun config) d = (.ok d' : Except PyError _) ∧
        ∀ r, (∃ i c, m.id2Idx.get? r = some i ∧ d.get? r = some c ∧ m.config.get? i = some c) ∨ r ∈ l →
          ∃ i c, m.id2Idx.get? r = some i ∧ d'.get? r = some c ∧ m.config.get? i = some c := by
    intro l
    induction l with
    | nil => exact fun d _ => ⟨d, rfl, fun r hr => hr.resolve_right List.not_mem_nil⟩
    | cons run l ih =>
        intro d h
        obtain ⟨i, hi⟩ := h run List.mem_cons_self
        obtain ⟨c, hc⟩ : ∃ c, m.config.get? i = some c := by
          have hcontains := hm.config i
          unfold Dict.contains at hcontains
          rw [(hm.inverse i run).2 hi] at hcontains
          exact Option.isSome_iff_exists.1 hcontains
        obtain ⟨d', hfold, hd'⟩ := ih (d.insert run c) fun r hr => h r (List.mem_cons_of_mem run hr)
        refine ⟨d', ?_, fun r hr => hd' r ?_⟩
        · rw [List.foldlM_cons, getItem_eq_ok.2 hi, ok_bind, getItem_eq_ok.2 hc]
          exact hfold
        · rw [Dict.get?_insert]
          by_cases hrun : run = r
          · subst hrun
            rw [if_pos rfl]
            exact Or.inl ⟨i, c, hi, rfl, hc⟩
          · rw [if_neg hrun]
            exact hr.imp_right fun hmem => (List.mem_cons.1 hmem).resolve_left (Ne.symm hrun)
  obtain ⟨configs, hok, hconfigs⟩ := hloop new ∅ h
  exact ⟨configs, hok, fun r hr => hconfigs r (Or.inr hr)⟩

omit [ScalingFactor F] in
theorem agrees_of_tracks {m master : MultiRunManager F} (hm : Consistent m) (hmaster : Consistent master)
    (hmax : m.maxRuns = master.maxRuns) (htracks : Tracks master m)
    (hids : ∀ r, m.id2Idx.get? r = master.id2Idx.get? r) (hprogress : m.progress = master.progress) :
    Agrees m master := by
  have hidx : ∀ i, m.idx2Id.get? i = master.idx2Id.get? i := by
    intro i
    refine Option.ext fun r => ?_
    rw [hm.inverse, hmaster.inverse, hids]
  refine ⟨hids, hidx, ?_, fun i => by rw [hprogress], fun i => ?_⟩
  · ext i
    rw [hm.unused, hmaster.unused, hidx, hmax]
  · cases hocc : m.idx2Id.get? i with
    | some r => exact (htracks r i ((hm.inverse i r).1 hocc)).2
    | none =>
        have hleft := hm.config i
        have hright := hmaster.config i
        unfold Dict.contains at hleft hright
        rw [← hidx i, hocc] at hright
        rw [hocc] at hleft
        rw [Option.isSome_eq_false_iff.1 hleft |> Option.isNone_iff_eq_none.1,
          Option.isSome_eq_false_iff.1 hright |> Option.isNone_iff_eq_none.1]

omit [ScalingFactor F] in
/-- Once the runs that are gone are deleted and the new ones created, a rank has the master's indices. -/
theorem get?_caughtUp {master m m₁ m₂ : MultiRunManager F} {deleted new : List String}
    (hdeleted : Enumerates deleted (keysMinus m.id2Idx master.id2Idx))
    (hnew : Enumerates new (keysMinus master.id2Idx m.id2Idx)) (htracks : Tracks master m₁)
    (hids₁ : ∀ r, m₁.id2Idx.get? r = if r ∈ deleted then none else m.id2Idx.get? r)
    (hids₂ : ∀ r, m₂.id2Idx.get? r = if r ∈ new then master.id2Idx.get? r else m₁.id2Idx.get? r) (r : String) :
    m₂.id2Idx.get? r = master.id2Idx.get? r := by
  rw [hids₂]
  split
  · rfl
  · rename_i hnot
    cases hj : master.id2Idx.get? r with
    | some j =>
        -- a run of the master that is not new was there before
        cases hi : m₁.id2Idx.get? r with
        | some i => exact (htracks r i hi).1.symm.trans hj
        | none =>
            rw [hids₁] at hi
            split at hi
            · rename_i hmem
              cases ((mem_of_enumerates hdeleted).1 hmem).2.symm.trans hj
            · exact absurd ((mem_of_enumerates hnew).2 ⟨⟨j, hj⟩, hi⟩) hnot
    | none =>
        cases hi : m₁.id2Idx.get? r with
        | none => rfl
        | some i => cases (htracks r i hi).1.symm.trans hj

omit [ScalingFactor F] in
theorem consistent_progress {master m : MultiRunManager F} (hm : Consistent m) (hmaster : Consistent master)
    (hids : ∀ r, m.id2Idx.get? r = master.id2Idx.get? r) : Consistent { m with progress := master.progress } := by
  refine ⟨hm.inverse, hm.unused, hm.bound, fun i => ?_, hm.config⟩
  have hidx : m.idx2Id.get? i = master.idx2Id.get? i := Option.ext fun r => by rw [hm.inverse, hmaster.inverse, hids]
  change master.progress.contains i = m.idx2Id.contains i
  rw [hmaster.progress]
  unfold Dict.contains
  rw [hidx]

theorem synchronizeRank_spec {master m : MultiRunManager F} (hmaster : Consistent master) (hm : Consistent m)
    (hmax : m.maxRuns = master.maxRuns)
    (hkept : ∀ r i j, m.id2Idx.get? r = some i → master.id2Idx.get? r = some j →
      i = j ∧ m.config.get? i = master.config.get? j)
    (out : OutputDir F) {configs : Dict String (OrchestratorConfig F)} {deleted new : List String}
    (hdeleted : Enumerates deleted (keysMinus m.id2Idx master.id2Idx))
    (hnew : Enumerates new (keysMinus master.id2Idx m.id2Idx))
    (hconfigs : ∀ r ∈ new, ∃ i c, master.id2Idx.get? r = some i ∧ configs.get? r = some c ∧
      master.config.get? i = some c) :
    ∃ m', m.synchronizeRank out ⟨master.id2Idx, master.readyToUpdate, master.scalingFactors, configs, master.progress⟩
        deleted new = .ok m' ∧
      Consistent m' ∧ Agrees m' master ∧ m'.maxRuns = m.maxRuns ∧
      m'.calls = m.calls ++ (deleted.flatMap (deletionCalls m.id2Idx) ++ new.flatMap (creationCalls m'.id2Idx)) := by
  let m₀ : MultiRunManager F :=
    { m with readyToUpdate := master.readyToUpdate, scalingFactors := master.scalingFactors }
  have hm₀ : Consistent m₀ := ⟨hm.inverse, hm.unused, hm.bound, hm.progress, hm.config⟩
  obtain ⟨m₁, hdelete, hm₁, hids₁, hconfig₁, hmax₁, -, hcalls₁⟩ :=
    deleteRuns_spec m.id2Idx hdeleted.1 hm₀ fun r hr => by
      obtain ⟨⟨i, hi⟩, -⟩ := (mem_of_enumerates hdeleted).1 hr
      exact ⟨i, hi, hi⟩
  have htracks₁ : Tracks master m₁ := by
    intro r i hi
    have hri := hids₁ r
    rw [hi] at hri
    split at hri
    · cases hri
    · rename_i hnot
      cases hj : master.id2Idx.get? r with
      | none => exact absurd ((mem_of_enumerates hdeleted).2 ⟨⟨i, hri.symm⟩, hj⟩) hnot
      | some j =>
          obtain ⟨rfl, hconfig⟩ := hkept r i j hri.symm hj
          exact ⟨rfl, (hconfig₁ r i hi).trans hconfig⟩
  have hnew₁ : ∀ r ∈ new, m₁.id2Idx.get? r = none := by
    intro r hr
    rw [hids₁]
    split
    · rfl
    · exact ((mem_of_enumerates hnew).1 hr).2
  obtain ⟨m₂, hcreate, hm₂, htracks₂, hids₂, hmax₂, -, hcalls₂⟩ :=
    createRuns_spec hmaster out hnew.1 hm₁ (hmax₁.trans hmax) htracks₁ hnew₁ hconfigs
  have hids := get?_caughtUp hdeleted hnew htracks₁ hids₁ hids₂
  let m₃ : MultiRunManager F := { m₂ with progress := master.progress }
  have hm₃ : Consistent m₃ := consistent_progress hm₂ hmaster hids
  have hhooks := runHooks_spec m₃
    (fun r hr => ((mem_of_enumerates hdeleted).1 hr).1) fun r hr => by
      obtain ⟨i, -, hi, -⟩ := hconfigs r hr
      exact ⟨i, (hids r).trans hi⟩
  let m₄ : MultiRunManager F := { m₃ with
    calls := m₃.calls ++ (deleted.flatMap (deletionCalls m.id2Idx) ++ new.flatMap (creationCalls m₃.id2Idx)) }
  have hm₄ : Consistent m₄ := ⟨hm₃.inverse, hm₃.unused, hm₃.bound, hm₃.progress, hm₃.config⟩
  refine ⟨m₄, ?_, hm₄, agrees_of_tracks hm₄ hmaster (hmax₂.trans (hmax₁.trans hmax)) htracks₂ hids rfl,
    hmax₂.trans hmax₁, ?_⟩
  · unfold MultiRunManager.synchronizeRank
    dsimp only
    rw [show List.foldlM _ m₀ deleted = _ from hdelete, ok_bind, hcreate, ok_bind]
    exact hhooks
  · change m₂.calls ++ _ = m.calls ++ _
    rw [hcalls₂, hcalls₁]

/-! ## All ranks -/

omit [ScalingFactor F] in
theorem synchronizeMaster_spec {m : MultiRunManager F} {deleted new : List String}
    (hdeleted : Enumerates deleted (keysMinus m.lastSyncedId2Idx m.id2Idx))
    (hnew : Enumerates new (keysMinus m.id2Idx m.lastSyncedId2Idx)) :
    m.synchronizeMaster deleted new = .ok { m with
      calls := m.calls ++ (deleted.flatMap (deletionCalls m.lastSyncedId2Idx) ++ new.flatMap (creationCalls m.id2Idx))
      lastSyncedId2Idx := m.id2Idx } := by
  unfold MultiRunManager.synchronizeMaster
  rw [runHooks_spec _ (fun r hr => ((mem_of_enumerates hdeleted).1 hr).1) fun r hr => ((mem_of_enumerates hnew).1 hr).1]
  rfl

theorem Synchronizes.unique {o : SyncOrders F ι} {fleet f f' : Fleet F ι} (h : Synchronizes o fleet f)
    (h' : Synchronizes o fleet f') : f = f' := by
  obtain ⟨data, hdata, hrank⟩ := h.rank
  obtain ⟨data', hdata', hrank'⟩ := h'.rank
  obtain rfl : data = data' := Except.ok.inj (hdata.symm.trans hdata')
  have hmaster : f.master = f'.master := Except.ok.inj (h.master.symm.trans h'.master)
  have hranks : f.rank = f'.rank := funext fun k => Except.ok.inj ((hrank k).symm.trans (hrank' k))
  have hsynced : f.syncedCalls = f'.syncedCalls := by rw [h.syncedCalls, h'.syncedCalls, hmaster]
  cases f
  cases f'
  cases hmaster
  cases hranks
  cases hsynced
  rfl

namespace Fleet

variable {fleet fleet' : Fleet F ι} {o : SyncOrders F ι}

omit [ScalingFactor F] in
/-- The ranks iterate the same sets as the master. -/
theorem Inv.rankOrders (hinv : fleet.Inv) (ho : o.Valid fleet) (k : ι) :
    Enumerates (o.rankDeleted k) (keysMinus fleet.master.lastSyncedId2Idx fleet.master.id2Idx) ∧
      Enumerates (o.rankNew k) (keysMinus fleet.master.id2Idx fleet.master.lastSyncedId2Idx) := by
  have hkeys : (fleet.rank k).id2Idx.keys.toFinset = fleet.master.lastSyncedId2Idx.keys.toFinset := by
    ext r
    rw [List.mem_toFinset, List.mem_toFinset, Dict.mem_keys_iff, Dict.mem_keys_iff, hinv.synced]
  have hdeleted := ho.rankDeleted k
  have hnew := ho.rankNew k
  unfold keysMinus at hdeleted hnew ⊢
  rw [hkeys] at hdeleted hnew
  exact ⟨hdeleted, hnew⟩

omit [ScalingFactor F] in
theorem hooksRun_of_calls {before after : Dict String Nat} {changes : List HookCall} {deleted new : List String}
    {m m' : MultiRunManager F} (hbefore : Injective before) (hafter : Injective after)
    (hkept : ∀ r i j, before.get? r = some i → after.get? r = some j → i = j ∧ ∀ c ∈ changes, c.idx ≠ i)
    (hdeleted : Enumerates deleted (keysMinus before after)) (hnew : Enumerates new (keysMinus after before))
    (hcalls : m'.calls = m.calls ++ (deleted.flatMap (deletionCalls before) ++ new.flatMap (creationCalls after))) :
    HooksRun before after changes m m' := ⟨_, hcalls, calls_at hbefore hafter hkept hdeleted hnew⟩

omit [ScalingFactor F] in
theorem deletionCalls_congr {d d' : Dict String Nat} (h : ∀ r, d.get? r = d'.get? r) :
    deletionCalls d = deletionCalls d' := by
  funext r
  unfold deletionCalls
  rw [h]

omit [ScalingFactor F] in
theorem creationCalls_congr {d d' : Dict String Nat} (h : ∀ r, d.get? r = d'.get? r) :
    creationCalls d = creationCalls d' := by
  funext r
  unfold creationCalls
  rw [h]

omit [ScalingFactor F] in
/-- In a steady state a run that stays is where it was, and nothing has happened at its index. -/
theorem Inv.stays (hinv : fleet.Inv) (hsteady : fleet.Steady) {r : String} {i j : Nat}
    (hi : fleet.master.lastSyncedId2Idx.get? r = some i) (hj : fleet.master.id2Idx.get? r = some j) :
    (i = j ∧ ∀ k, (fleet.rank k).config.get? i = fleet.master.config.get? j) ∧ ∀ c ∈ fleet.changes, c.idx ≠ i := by
  have hnot := hsteady r i j hi hj
  obtain ⟨hmaster, hconfig⟩ := hinv.kept r i hi hnot
  obtain rfl : i = j := Option.some.inj (hmaster.symm.trans hj)
  exact ⟨⟨rfl, hconfig⟩, fun c hc hci => hnot (hinv.first r i hi c hc hci)⟩

/-- From a steady state a synchronisation succeeds, and achieves all it has to. -/
theorem Inv.synchronizes (hinv : fleet.Inv) (hsteady : fleet.Steady) (ho : o.Valid fleet) :
    ∃ fleet', Synchronizes o fleet fleet' ∧ fleet'.Inv ∧ Agreement fleet fleet' := by
  obtain ⟨configs, hconfigs, hnewConfigs⟩ :=
    newConfigs_spec hinv.master fun r hr => ((mem_of_enumerates ho.stored).1 hr).1
  have hafter : Injective fleet.master.id2Idx := fun r r' i hr hr' => hinv.master.inj hr hr'
  have hkept : ∀ r i j, fleet.master.lastSyncedId2Idx.get? r = some i → fleet.master.id2Idx.get? r = some j →
      i = j ∧ ∀ c ∈ fleet.changes, c.idx ≠ i := by
    intro r i j hi hj
    obtain ⟨⟨hij, -⟩, hchanges⟩ := hinv.stays hsteady hi hj
    exact ⟨hij, hchanges⟩
  have hrank : ∀ k, ∃ m', (fleet.rank k).synchronizeRank (o.rankOut k) ⟨fleet.master.id2Idx, fleet.master.readyToUpdate,
        fleet.master.scalingFactors, configs, fleet.master.progress⟩ (o.rankDeleted k) (o.rankNew k) = .ok m' ∧
      Consistent m' ∧ Agrees m' fleet.master ∧ m'.maxRuns = (fleet.rank k).maxRuns ∧
      HooksRun fleet.master.lastSyncedId2Idx fleet.master.id2Idx fleet.changes (fleet.rank k) m' := by
    intro k
    obtain ⟨hdeleted, hnew⟩ := hinv.rankOrders ho k
    obtain ⟨m', hok, hm', hagrees, hmax, hcalls⟩ := synchronizeRank_spec hinv.master (hinv.rank k) (hinv.maxRuns k)
      (fun r i j hi hj => by
        rw [hinv.synced] at hi
        obtain ⟨⟨hij, hconfig⟩, -⟩ := hinv.stays hsteady hi hj
        exact ⟨hij, hconfig k⟩)
      (o.rankOut k) (ho.rankDeleted k) (ho.rankNew k) fun r hr =>
        hnewConfigs r ((mem_of_enumerates ho.stored).2 ((mem_of_enumerates hnew).1 hr))
    rw [deletionCalls_congr (hinv.synced k), creationCalls_congr hagrees.id2Idx] at hcalls
    exact ⟨m', hok, hm', hagrees, hmax, hooksRun_of_calls hinv.injective hafter hkept hdeleted hnew hcalls⟩
  choose rank hok hconsistent hagrees hmax hhooks using hrank
  have hmaster := synchronizeMaster_spec ho.deleted ho.new
  let master : MultiRunManager F := { fleet.master with
    calls := fleet.master.calls ++ (o.deleted.flatMap (deletionCalls fleet.master.lastSyncedId2Idx) ++
      o.new.flatMap (creationCalls fleet.master.id2Idx))
    lastSyncedId2Idx := fleet.master.id2Idx }
  let fleet' : Fleet F ι := ⟨master, rank, master.calls.length⟩
  have hchanges : fleet'.changes = [] := List.drop_length
  refine ⟨fleet', ⟨hmaster, ⟨_, ?_, hok⟩, rfl⟩, ⟨⟨hinv.master.inverse, hinv.master.unused, hinv.master.bound,
    hinv.master.progress, hinv.master.config⟩, hconsistent, fun k => (hmax k).trans (hinv.maxRuns k),
    fun k => (hagrees k).id2Idx, hafter, le_rfl, fun r i hi _ => ⟨hi, fun k => (hagrees k).config i⟩,
    fun r i _ c hc => ?_⟩, ⟨fun k => ?_, ?_, hhooks⟩⟩
  · unfold MultiRunManager.syncData
    rw [hconfigs]
    rfl
  · rw [hchanges] at hc
    exact absurd hc List.not_mem_nil
  · exact ⟨(hagrees k).id2Idx, (hagrees k).idx2Id, (hagrees k).unusedIdxs, (hagrees k).progress, (hagrees k).config⟩
  · exact hooksRun_of_calls hinv.injective hafter hkept ho.deleted ho.new rfl

/-- A run that the last synchronisation knew and the master still knows gets no deletion hook. -/
theorem Inv.steady_of_agreement (hinv : fleet.Inv) (ho : o.Valid fleet) (h : Synchronizes o fleet fleet')
    (hagreement : Agreement fleet fleet') : fleet.Steady := by
  intro r i j hi hj hforgotten
  obtain ⟨calls, hcalls, hindex⟩ := hagreement.masterHooks
  have hmaster := Except.ok.inj (h.master.symm.trans (synchronizeMaster_spec ho.deleted ho.new))
  rw [hmaster] at hcalls
  have hsame := (List.append_cancel_left hcalls).symm
  have hocc := (occupant_eq_some hinv.injective).2 hi
  have hmem : HookCall.deleted i r ∈ calls := by
    refine (List.mem_filter.1 (?_ : _ ∈ calls.filter fun c => c.idx = i)).1
    rw [hindex, indexCalls, if_neg fun h => h.2 _ hforgotten rfl, hocc]
    exact List.mem_append_left _ List.mem_cons_self
  rw [hsame] at hmem
  cases List.mem_append.1 hmem with
  | inl hmem =>
      obtain ⟨r', hr', hmem⟩ := List.mem_flatMap.1 hmem
      obtain ⟨i', -, heq⟩ := List.mem_map.1 hmem
      cases heq
      cases ((mem_of_enumerates ho.deleted).1 hr').2.symm.trans hj
  | inr hmem =>
      obtain ⟨r', -, hmem⟩ := List.mem_flatMap.1 hmem
      obtain ⟨i', -, hmem⟩ := List.mem_flatMap.1 hmem
      simp at hmem

/-! ## Runs -/

variable {trainerLora : Option (LoRAConfig F)} {maxRuns : Nat}

theorem inv_init : (Fleet.init F ι maxRuns).Inv :=
  ⟨consistent_init maxRuns, fun _ => consistent_init maxRuns, fun _ => rfl, fun _ _ => rfl, nofun, le_rfl, nofun, nofun⟩

omit [ScalingFactor F] in
theorem Inv.works (hinv : fleet.Inv) (hmaster : Works fleet.master fleet'.master)
    (hrank : ∀ k, Works (fleet.rank k) (fleet'.rank k)) (hsynced : fleet'.syncedCalls = fleet.syncedCalls) :
    fleet'.Inv := by
  have hconsistent := hmaster.consistent hinv.master
  have hranks := fun k => (hrank k).consistent (hinv.rank k)
  obtain ⟨progress, ready, -, heq⟩ := hmaster
  have hchanges : fleet'.changes = fleet.changes := by
    unfold changes
    rw [heq, hsynced]
  refine ⟨hconsistent, hranks, fun k => ?_, fun k r => ?_, ?_, ?_, fun r i hi hnot => ?_, fun r i hi => ?_⟩
  · obtain ⟨_, _, -, hk⟩ := hrank k
    rw [hk, heq]
    exact hinv.maxRuns k
  · obtain ⟨_, _, -, hk⟩ := hrank k
    rw [hk, heq]
    exact hinv.synced k r
  · rw [heq]
    exact hinv.injective
  · rw [hsynced, heq]
    exact hinv.syncedCalls
  · rw [hchanges] at hnot
    rw [heq] at hi ⊢
    obtain ⟨hkept, hconfig⟩ := hinv.kept r i hi hnot
    refine ⟨hkept, fun k => ?_⟩
    obtain ⟨_, _, -, hk⟩ := hrank k
    rw [hk]
    exact hconfig k
  · rw [hchanges]
    rw [heq] at hi
    exact hinv.first r i hi

omit [ScalingFactor F] in
theorem Inv.discovers (hinv : fleet.Inv) {new : List String} {hooks : List HookCall} {master : MultiRunManager F}
    (h : Evolves new fleet.master master) (hkeeps : Keeps hooks fleet.master master) :
    ({ fleet with master := master } : Fleet F ι).Inv := by
  have hchanges : ({ fleet with master := master } : Fleet F ι).changes = fleet.changes ++ hooks := by
    unfold changes
    dsimp only
    rw [hkeeps.calls, List.drop_append_of_le_length hinv.syncedCalls]
  refine ⟨h.consistent, hinv.rank, fun k => (hinv.maxRuns k).trans h.maxRuns.symm, fun k r => ?_, ?_, ?_,
    fun r i hi hnot => ?_, fun r i hi c hc hci => ?_⟩
  · dsimp only
    rw [h.lastSynced]
    exact hinv.synced k r
  · dsimp only
    rw [h.lastSynced]
    exact hinv.injective
  · dsimp only
    rw [hkeeps.calls, List.length_append]
    exact hinv.syncedCalls.trans (Nat.le_add_right ..)
  · dsimp only at hi ⊢
    rw [hchanges, List.mem_append, not_or] at hnot
    rw [h.lastSynced] at hi
    obtain ⟨hkept, hconfig⟩ := hinv.kept r i hi hnot.1
    have hidx := (hinv.master.inverse i r).2 hkept
    -- no other run can be forgotten at its index
    have hindex := hkeeps.index i (by rw [hidx]; exact Option.some_ne_none r) fun hmem => by
      obtain ⟨r', hr'⟩ := HookCall.mem_forgottenIdxs.1 hmem
      exact hnot.2 (hkeeps.first i r hidx _ hr' rfl)
    exact ⟨(h.consistent.inverse i r).1 (hindex.idx2Id.trans hidx), fun k => (hconfig k).trans hindex.config.symm⟩
  · dsimp only at hi
    rw [hchanges] at hc ⊢
    rw [h.lastSynced] at hi
    by_cases hforgotten : HookCall.forgotten i r ∈ fleet.changes
    · exact List.mem_append_left _ hforgotten
    · rcases List.mem_append.1 hc with hc | hc
      · exact absurd (hinv.first r i hi c hc hci) hforgotten
      · have hidx := (hinv.master.inverse i r).2 (hinv.kept r i hi hforgotten).1
        exact List.mem_append_right _ (hkeeps.first i r hidx c hc hci)

theorem Inv.step (hinv : fleet.Inv) {action : FleetAction F} (h : FleetStep trainerLora fleet action fleet')
    (hsteady : action = .synchronize → fleet.Steady) : fleet'.Inv := by
  cases h with
  | discover out iter deleted new hdeleted hnew h =>
      obtain ⟨hooks, hkeeps, -⟩ := discoverRuns_keeps hinv.master hdeleted hnew h
      exact hinv.discovers (evolves_discoverRuns hinv.master hnew h) hkeeps
  | work hmaster hrank hsynced => exact hinv.works hmaster hrank hsynced
  | synchronize o ho h =>
      obtain ⟨fleet'', h', hinv', -⟩ := hinv.synchronizes (hsteady rfl) ho
      exact h'.unique h ▸ hinv'

end Fleet

/-- **Main.** In every run whose synchronisations so far met steady states, the next one returns on every rank, gives
every rank the master's tables and calls the hooks of every index whose occupant changed once, exactly if its state is
steady. An index that got a run of the same id again has changed its occupant. -/
theorem rankAgreement {trainerLora : Option (LoRAConfig F)} {maxRuns : Nat} {fleet : Fleet F ι} {o : SyncOrders F ι}
    (h : ((fleetSystem ι trainerLora maxRuns).restrict fun fleet action =>
      action = .synchronize → fleet.Steady).Reachable fleet) (ho : o.Valid fleet) :
    (∃ fleet', Synchronizes o fleet fleet' ∧ Agreement fleet fleet') ↔ fleet.Steady := by
  have hinv : fleet.Inv := by
    refine h.invariant (fun s hs => ?_) fun s action t hs h => hs.step h.2 h.1
    obtain rfl : s = _ := hs
    exact Fleet.inv_init
  constructor
  · rintro ⟨fleet', hsync, hagreement⟩
    exact hinv.steady_of_agreement ho hsync hagreement
  · intro hsteady
    obtain ⟨fleet', hsync, -, hagreement⟩ := hinv.synchronizes hsteady ho
    exact ⟨fleet', hsync, hagreement⟩

/-! ### A run that comes back -/

section Example

/-- Whole numbers as scaling factors. -/
@[reducible] def natFactor : ScalingFactor Nat := ⟨1000000, fun alpha rank => alpha / rank⟩

attribute [local instance] natFactor

def leastIter : NextIter where
  next s := if h : s.Nonempty then some (s.min' h) else none
  mem {s i} h := by
    split at h
    · cases h
      exact s.min'_mem _
    · cases h
  empty {s} h := by
    split at h
    · cases h
    · rename_i hs
      exact Finset.not_nonempty_iff_eq_empty.1 hs

/-- Runs with empty configs. -/
def plainDirs (runs : Finset String) : OutputDir Nat := ⟨runs, fun _ => ⟨false, some ⟨none, none⟩, [], []⟩⟩

def discoveredA : MultiRunManager Nat := { MultiRunManager.init Nat 2 with
  idx2Id := .ofList [(0, "a")]
  id2Idx := .ofList [("a", 0)]
  unusedIdxs := {1}
  progress := .ofList [(0, ⟨0, 0, 0⟩)]
  config := .ofList [(0, ⟨none, none⟩)]
  calls := [.discovered 0 "a"] }

def fleetA : Fleet Nat Unit := ⟨discoveredA, fun _ => .init Nat 2, 0⟩

def ordersA : SyncOrders Nat Unit :=
  ⟨["a"], [], ["a"], fun _ => plainDirs {"a"}, fun _ => [], fun _ => ["a"]⟩

theorem discover_a (C : Fleet Nat Unit → FleetAction Nat → Prop) (hC : ∀ fleet out, C fleet (.discover out)) :
    ((fleetSystem Unit none 2).restrict C).Reachable fleetA :=
  .step (.of_init rfl) ⟨hC _ _, .discover (plainDirs {"a"}) leastIter [] ["a"] (by decide) (by decide) rfl⟩

theorem valid_ordersA : ordersA.Valid fleetA :=
  ⟨by decide, by decide, by decide, fun () => by decide, fun () => by decide⟩

theorem rankAgreement_first : ∃ fleet', Synchronizes ordersA fleetA fleet' ∧ Agreement fleetA fleet' :=
  (rankAgreement (discover_a _ nofun) valid_ordersA).2 nofun

def synchronizedA : Fleet Nat Unit where
  master := { discoveredA with
    lastSyncedId2Idx := .ofList [("a", 0)]
    calls := [.discovered 0 "a", .resetParameters 0, .created 0 "a"] }
  rank _ := { discoveredA with calls := [.resetParameters 0, .created 0 "a"] }
  syncedCalls := 3

def forgottenA : MultiRunManager Nat := { MultiRunManager.init Nat 2 with
  scalingFactors := fun i => if i = 0 then ScalingFactor.reset else ScalingFactor.reset
  lastSyncedId2Idx := .ofList [("a", 0)]
  calls := [.discovered 0 "a", .resetParameters 0, .created 0 "a", .forgotten 0 "a"] }

/-- `b` takes the index of `a`, and `a` comes back at the other one. -/
def swapped : MultiRunManager Nat := { forgottenA with
  idx2Id := .ofList [(0, "b"), (1, "a")]
  id2Idx := .ofList [("b", 0), ("a", 1)]
  unusedIdxs := ∅
  progress := .ofList [(0, ⟨0, 0, 0⟩), (1, ⟨0, 0, 0⟩)]
  config := .ofList [(0, ⟨none, none⟩), (1, ⟨none, none⟩)]
  calls := forgottenA.calls ++ [.discovered 0 "b", .discovered 1 "a"] }

def swappedFleet : Fleet Nat Unit := ⟨swapped, synchronizedA.rank, 3⟩

def swappedOrders : SyncOrders Nat Unit := ⟨["b"], [], ["b"], fun _ => plainDirs {"a", "b"}, fun _ => [], fun _ => ["b"]⟩

theorem reachable_forgottenA : (fleetSystem Unit none 2).Reachable ⟨forgottenA, synchronizedA.rank, 3⟩ := by
  have h₁ := (discover_a (fun _ _ => True) fun _ _ => trivial).of_restrict
  have h₂ : (fleetSystem Unit none 2).Reachable synchronizedA :=
    h₁.step (.synchronize ordersA valid_ordersA ⟨rfl, ⟨_, rfl, fun _ => rfl⟩, rfl⟩)
  exact h₂.step (.discover (plainDirs ∅) leastIter ["a"] [] (by decide) (by decide) rfl)

/-- `a` comes back at its index. -/
def recreated : MultiRunManager Nat := { forgottenA with
  idx2Id := .ofList [(0, "a")]
  id2Idx := .ofList [("a", 0)]
  unusedIdxs := {1}
  progress := .ofList [(0, ⟨0, 0, 0⟩)]
  config := .ofList [(0, ⟨none, none⟩)]
  calls := forgottenA.calls ++ [.discovered 0 "a"] }

def recreatedFleet : Fleet Nat Unit := ⟨recreated, synchronizedA.rank, 3⟩

def recreatedOrders : SyncOrders Nat Unit := ⟨[], [], [], fun _ => plainDirs {"a"}, fun _ => [], fun _ => []⟩

/-- A run that is forgotten and found again gets no hook on any rank where it has its old index; where `b` has taken that
index, the rank does not even return, since it still has `a` there. -/
theorem rankAgreement_recreated :
    (∃ (fleet fleet' : Fleet Nat Unit) (o : SyncOrders Nat Unit), (fleetSystem Unit none 2).Reachable fleet ∧
      o.Valid fleet ∧ Synchronizes o fleet fleet' ∧ fleet.changes = [.forgotten 0 "a", .discovered 0 "a"] ∧
      fleet'.master.calls = fleet.master.calls ∧ (fleet'.rank ()).calls = (fleet.rank ()).calls) ∧
    ∃ (fleet : Fleet Nat Unit) (o : SyncOrders Nat Unit) (data : SyncData Nat),
      (fleetSystem Unit none 2).Reachable fleet ∧ o.Valid fleet ∧ fleet.master.syncData o.stored = .ok data ∧
        (fleet.rank ()).synchronizeRank (o.rankOut ()) data (o.rankDeleted ()) (o.rankNew ()) = .error .keyError := by
  constructor
  · have h : (fleetSystem Unit none 2).Reachable recreatedFleet :=
      reachable_forgottenA.step (.discover (plainDirs {"a"}) leastIter [] ["a"] (by decide) (by decide) rfl)
    have ho : recreatedOrders.Valid recreatedFleet :=
      ⟨by decide, by decide, by decide, fun () => by decide, fun () => by decide⟩
    exact ⟨_, ⟨_, fun _ => _, _⟩, _, h, ho, ⟨rfl, ⟨_, rfl, fun _ => rfl⟩, rfl⟩, rfl, rfl, rfl⟩
  · have h : (fleetSystem Unit none 2).Reachable swappedFleet :=
      reachable_forgottenA.step (.discover (plainDirs {"a", "b"}) leastIter [] ["b", "a"] (by decide) (by decide) rfl)
    exact ⟨swappedFleet, swappedOrders, _, h,
      ⟨by decide, by decide, by decide, fun () => by decide, fun () => by decide⟩, rfl, rfl⟩

end Example

end AuroraRl.Runs
