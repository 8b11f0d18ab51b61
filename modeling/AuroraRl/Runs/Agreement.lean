import AuroraRl.Runs.Manager

/-!
# The tables of a manager

* `Consistent` : the tables of one manager describe the same runs;
* `createRunData_spec`, `deleteRunData_spec` : the bookkeeping of one run; `createRuns_spec`, `deleteRuns_spec` : the
  loops of `synchronize_state` on a rank;
* `runHooks_spec`, `indexCalls`, `calls_at` : the hooks called, and those among them at one index;
* `Evolves`, `evolves_discoverRuns` : what `discover_runs` changes.
-/

namespace AuroraRl.Runs
open MultiRunManager

variable {F : Type}

/-! ## One manager -/

/-- The tables describe the same runs. -/
structure Consistent (m : MultiRunManager F) : Prop where
  inverse : ∀ i r, m.idx2Id.get? i = some r ↔ m.id2Idx.get? r = some i
  unused : ∀ i, i ∈ m.unusedIdxs ↔ i < m.maxRuns ∧ m.idx2Id.get? i = none
  bound : ∀ i r, m.idx2Id.get? i = some r → i < m.maxRuns
  progress : ∀ i, m.progress.contains i = m.idx2Id.contains i
  config : ∀ i, m.config.contains i = m.idx2Id.contains i

theorem Consistent.inj {m : MultiRunManager F} (h : Consistent m) {r r' : String} {i : Nat}
    (hr : m.id2Idx.get? r = some i) (hr' : m.id2Idx.get? r' = some i) : r = r' :=
  Option.some.inj (((h.inverse i r).2 hr).symm.trans ((h.inverse i r').2 hr'))

theorem consistent_init [ScalingFactor F] (maxRuns : Nat) : Consistent (MultiRunManager.init F maxRuns) := by
  refine ⟨fun i r => ⟨nofun, nofun⟩, fun i => ?_, nofun, fun _ => rfl, fun _ => rfl⟩
  exact Finset.mem_range.trans ⟨fun h => ⟨h, rfl⟩, And.left⟩

theorem getItem_eq_ok {κ ν : Type} [DecidableEq κ] {d : Dict κ ν} {k : κ} {v : ν} :
    getItem d k = .ok v ↔ d.get? k = some v := by
  unfold getItem
  cases d.get? k <;> simp

theorem delItem_of_some {κ ν : Type} [DecidableEq κ] {d : Dict κ ν} {k : κ} {v : ν} (h : d.get? k = some v) :
    delItem d k = .ok (d.erase k) := by
  unfold delItem Dict.contains
  rw [h]
  rfl

/-- What a created run changes. -/
structure Created (m m' : MultiRunManager F) (run : String) (idx : Nat) (config : OrchestratorConfig F) : Prop where
  id2Idx : m'.id2Idx = m.id2Idx.insert run idx
  config : m'.config = m.config.insert idx config
  maxRuns : m'.maxRuns = m.maxRuns
  lastSynced : m'.lastSyncedId2Idx = m.lastSyncedId2Idx
  calls : m'.calls = m.calls

theorem createRunData_spec {m : MultiRunManager F} (out : OutputDir F) {run : String} {idx : Nat}
    (config : OrchestratorConfig F) (hm : Consistent m) (hrun : m.id2Idx.get? run = none) (hidx : idx ∈ m.unusedIdxs) :
    ∃ m', m.createRunData out run idx config = .ok m' ∧ Consistent m' ∧ Created m m' run idx config := by
  obtain ⟨hlt, hfree⟩ := (hm.unused idx).1 hidx
  refine ⟨_, if_pos hidx, ⟨fun i r => ?_, fun i => ?_, fun i r hi => ?_, fun i => ?_, fun i => ?_⟩,
    ⟨rfl, rfl, rfl, rfl, rfl⟩⟩
  · dsimp only
    rw [Dict.get?_insert, Dict.get?_insert]
    by_cases hi : idx = i
    · subst hi
      rw [if_pos rfl]
      by_cases hr : run = r
      · subst hr
        rw [if_pos rfl]
        exact ⟨fun _ => rfl, fun _ => rfl⟩
      · rw [if_neg hr, ← hm.inverse, hfree]
        exact ⟨fun h => absurd (Option.some.inj h) hr, nofun⟩
    · rw [if_neg hi, hm.inverse]
      by_cases hr : run = r
      · subst hr
        rw [if_pos rfl, hrun]
        exact ⟨nofun, fun h => absurd (Option.some.inj h) hi⟩
      · rw [if_neg hr]
  · dsimp only
    rw [Finset.mem_erase, hm.unused, Dict.get?_insert]
    by_cases hi : idx = i
    · rw [if_pos hi]
      exact ⟨fun h => absurd hi.symm h.1, fun h => nomatch h.2⟩
    · rw [if_neg hi]
      exact ⟨And.right, fun h => ⟨Ne.symm hi, h⟩⟩
  · dsimp only at hi
    rw [Dict.get?_insert] at hi
    split at hi
    · rename_i h
      exact h ▸ hlt
    · exact hm.bound i r hi
  · have := hm.progress i
    unfold Dict.contains at this ⊢
    dsimp only
    rw [Dict.get?_insert, Dict.get?_insert]
    split
    · rfl
    · exact this
  · have := hm.config i
    unfold Dict.contains at this ⊢
    dsimp only
    rw [Dict.get?_insert, Dict.get?_insert]
    split
    · rfl
    · exact this

theorem runHooks_eq {m m' : MultiRunManager F} {before : Dict String Nat} {deleted new : List String}
    (h : m.runHooks before deleted new = .ok m') : ∃ calls, m' = { m with calls := calls } := by
  obtain ⟨m₁, hdelete, hcreate⟩ := bind_eq_ok.1 h
  refine foldlM_preserves (P := fun m' => ∃ calls, m' = { m with calls := calls }) (fun m₂ run m₃ hm₂ h => ?_) hcreate
    (foldlM_preserves (P := fun m' => ∃ calls, m' = { m with calls := calls }) (fun m₂ run m₃ hm₂ h => ?_) hdelete
      ⟨m.calls, rfl⟩)
  all_goals
    obtain ⟨calls, rfl⟩ := hm₂
    obtain ⟨idx, -, h⟩ := bind_eq_ok.1 h
    cases h
    exact ⟨_, rfl⟩

variable [ScalingFactor F]

/-- What a deleted run changes. -/
structure Deleted (m m' : MultiRunManager F) (run : String) (idx : Nat) : Prop where
  id2Idx : m'.id2Idx = m.id2Idx.erase run
  config : m'.config = m.config.erase idx
  maxRuns : m'.maxRuns = m.maxRuns
  lastSynced : m'.lastSyncedId2Idx = m.lastSyncedId2Idx
  calls : m'.calls = m.calls

theorem deleteRunData_spec {m : MultiRunManager F} {run : String} {idx : Nat} (hm : Consistent m)
    (hrun : m.id2Idx.get? run = some idx) :
    ∃ m', m.deleteRunData run idx = .ok m' ∧ Consistent m' ∧ Deleted m m' run idx := by
  have hidx : m.idx2Id.get? idx = some run := (hm.inverse idx run).2 hrun
  have hprogress : m.progress.contains idx = true := by
    rw [hm.progress]
    unfold Dict.contains
    rw [hidx]
    rfl
  obtain ⟨p, hp⟩ := Option.isSome_iff_exists.1 hprogress
  refine ⟨{ m with
    progress := m.progress.erase idx
    config := m.config.erase idx
    scalingFactors := fun i => if i = idx then ScalingFactor.reset else m.scalingFactors i
    unusedIdxs := insert idx m.unusedIdxs
    idx2Id := m.idx2Id.erase idx
    id2Idx := m.id2Idx.erase run }, ?_, ⟨fun i r => ?_, fun i => ?_, fun i r hi => ?_, fun i => ?_, fun i => ?_⟩,
    ⟨rfl, rfl, rfl, rfl, rfl⟩⟩
  · unfold MultiRunManager.deleteRunData
    rw [delItem_of_some hp, delItem_of_some hidx, delItem_of_some hrun]
    rfl
  · dsimp only
    rw [Dict.get?_erase, Dict.get?_erase]
    by_cases hi : idx = i
    · subst hi
      rw [if_pos rfl]
      refine ⟨fun h => (by cases h), fun h => ?_⟩
      split at h
      · cases h
      · rename_i hr
        exact absurd (hm.inj hrun h) hr
    · rw [if_neg hi, hm.inverse]
      by_cases hr : run = r
      · subst hr
        rw [if_pos rfl, hrun]
        exact ⟨fun h => absurd (Option.some.inj h) hi, fun h => by cases h⟩
      · rw [if_neg hr]
  · dsimp only
    rw [Finset.mem_insert, hm.unused, Dict.get?_erase]
    by_cases hi : idx = i
    · subst hi
      rw [if_pos rfl]
      exact ⟨fun _ => ⟨hm.bound _ _ hidx, rfl⟩, fun _ => Or.inl rfl⟩
    · rw [if_neg hi]
      exact ⟨fun h => h.resolve_left (Ne.symm hi), Or.inr⟩
  · dsimp only at hi
    rw [Dict.get?_erase] at hi
    split at hi
    · cases hi
    · exact hm.bound i r hi
  · have := hm.progress i
    unfold Dict.contains at this ⊢
    dsimp only
    rw [Dict.get?_erase, Dict.get?_erase]
    split
    · rfl
    · exact this
  · have := hm.config i
    unfold Dict.contains at this ⊢
    dsimp only
    rw [Dict.get?_erase, Dict.get?_erase]
    split
    · rfl
    · exact this

/-! ## The loops of a rank -/

theorem deleteRuns_spec (indices : Dict String Nat) {l : List String} (hl : l.Nodup) {m : MultiRunManager F}
    (hm : Consistent m) (h : ∀ r ∈ l, ∃ i, indices.get? r = some i ∧ m.id2Idx.get? r = some i) :
    ∃ m', l.foldlM (fun m run => do
        let idx ← getItem indices run
        m.deleteRunData run idx) m = .ok m' ∧
      Consistent m' ∧ (∀ r, m'.id2Idx.get? r = if r ∈ l then none else m.id2Idx.get? r) ∧
      (∀ r i, m'.id2Idx.get? r = some i → m'.config.get? i = m.config.get? i) ∧
      m'.maxRuns = m.maxRuns ∧ m'.lastSyncedId2Idx = m.lastSyncedId2Idx ∧ m'.calls = m.calls := by
  induction l generalizing m with
  | nil => exact ⟨m, rfl, hm, fun _ => rfl, fun _ _ _ => rfl, rfl, rfl, rfl⟩
  | cons run l ih =>
      obtain ⟨hnot, hl⟩ := List.nodup_cons.1 hl
      obtain ⟨idx, hidx, hrun⟩ := h run List.mem_cons_self
      obtain ⟨m₁, hdelete, hm₁, hdeleted⟩ := deleteRunData_spec hm hrun
      have hrest : ∀ r ∈ l, ∃ i, indices.get? r = some i ∧ m₁.id2Idx.get? r = some i := by
        intro r hr
        obtain ⟨i, hi, hri⟩ := h r (List.mem_cons_of_mem run hr)
        refine ⟨i, hi, ?_⟩
        rw [hdeleted.id2Idx, Dict.get?_erase, if_neg fun heq : run = r => hnot (heq ▸ hr)]
        exact hri
      obtain ⟨m₂, hfold, hm₂, hids, hconfig, hmax, hlast, hcalls⟩ := ih hl hm₁ hrest
      refine ⟨m₂, ?_, hm₂, fun r => ?_, fun r i hi => ?_, hmax.trans hdeleted.maxRuns,
        hlast.trans hdeleted.lastSynced, hcalls.trans hdeleted.calls⟩
      · rw [List.foldlM_cons, getItem_eq_ok.2 hidx]
        change (m.deleteRunData run idx >>= _) = _
        rw [hdelete]
        exact hfold
      · rw [hids, hdeleted.id2Idx, Dict.get?_erase]
        by_cases hr : run = r
        · subst hr
          rw [if_neg hnot, if_pos rfl, if_pos List.mem_cons_self]
        · rw [if_neg hr]
          by_cases hmem : r ∈ l
          · rw [if_pos hmem, if_pos (List.mem_cons_of_mem _ hmem)]
          · rw [if_neg hmem, if_neg fun h => (List.mem_cons.1 h).elim (fun h => hr h.symm) hmem]
      · rw [hconfig r i hi, hdeleted.config, Dict.get?_erase]
        refine if_neg fun heq => ?_
        -- the index of the deleted run is nobody's
        have hri := hids r
        rw [hi, hdeleted.id2Idx, Dict.get?_erase] at hri
        split at hri
        · cases hri
        · split at hri
          · cases hri
          · rename_i hne
            exact hne (hm.inj hrun (heq ▸ hri.symm))

omit [ScalingFactor F] in
/-- The runs of `m` are runs of the master, at the same indices and with the same configs. -/
def Tracks (master m : MultiRunManager F) : Prop :=
  ∀ r i, m.id2Idx.get? r = some i → master.id2Idx.get? r = some i ∧ m.config.get? i = master.config.get? i

omit [ScalingFactor F] in
theorem createRuns_spec {master : MultiRunManager F} (hmaster : Consistent master) (out : OutputDir F)
    {configs : Dict String (OrchestratorConfig F)} {l : List String} (hl : l.Nodup) {m : MultiRunManager F}
    (hm : Consistent m) (hmax : m.maxRuns = master.maxRuns) (htracks : Tracks master m)
    (hnew : ∀ r ∈ l, m.id2Idx.get? r = none)
    (hconfigs : ∀ r ∈ l, ∃ i c, master.id2Idx.get? r = some i ∧ configs.get? r = some c ∧
      master.config.get? i = some c) :
    ∃ m', l.foldlM (fun m run => do
        let idx ← getItem master.id2Idx run
        let config ← getItem configs run
        m.createRunData out run idx config) m = .ok m' ∧
      Consistent m' ∧ Tracks master m' ∧
      (∀ r, m'.id2Idx.get? r = if r ∈ l then master.id2Idx.get? r else m.id2Idx.get? r) ∧
      m'.maxRuns = m.maxRuns ∧ m'.lastSyncedId2Idx = m.lastSyncedId2Idx ∧ m'.calls = m.calls := by
  induction l generalizing m with
  | nil => exact ⟨m, rfl, hm, htracks, fun _ => rfl, rfl, rfl, rfl⟩
  | cons run l ih =>
      obtain ⟨hnot, hl⟩ := List.nodup_cons.1 hl
      obtain ⟨idx, config, hidx, hconfig, hmasterConfig⟩ := hconfigs run List.mem_cons_self
      have hrun := hnew run List.mem_cons_self
      have hfree : idx ∈ m.unusedIdxs := by
        rw [hm.unused, hmax]
        refine ⟨hmaster.bound idx run ((hmaster.inverse idx run).2 hidx), ?_⟩
        cases hocc : m.idx2Id.get? idx with
        | none => rfl
        | some r =>
            have hr := (hm.inverse idx r).1 hocc
            have heq := hmaster.inj (htracks r idx hr).1 hidx
            rw [heq, hrun] at hr
            cases hr
      obtain ⟨m₁, hcreate, hm₁, hcreated⟩ := createRunData_spec out config hm hrun hfree
      have htracks₁ : Tracks master m₁ := by
        intro r i hi
        rw [hcreated.id2Idx, Dict.get?_insert] at hi
        rw [hcreated.config, Dict.get?_insert]
        split at hi
        · rename_i hr
          subst hr
          cases hi
          rw [if_pos rfl]
          exact ⟨hidx, hmasterConfig.symm⟩
        · obtain ⟨hri, hci⟩ := htracks r i hi
          refine ⟨hri, ?_⟩
          rw [if_neg fun heq => ?_]
          · exact hci
          · subst heq
            have := (hm.inverse idx r).2 hi
            rw [((hm.unused idx).1 hfree).2] at this
            cases this
      have hnew₁ : ∀ r ∈ l, m₁.id2Idx.get? r = none := by
        intro r hr
        rw [hcreated.id2Idx, Dict.get?_insert, if_neg fun heq : run = r => hnot (heq ▸ hr)]
        exact hnew r (List.mem_cons_of_mem run hr)
      obtain ⟨m₂, hfold, hm₂, htracks₂, hids, hmax₂, hlast, hcalls⟩ := ih hl hm₁ (hcreated.maxRuns.trans hmax) htracks₁
        hnew₁ fun r hr => hconfigs r (List.mem_cons_of_mem run hr)
      refine ⟨m₂, ?_, hm₂, htracks₂, fun r => ?_, hmax₂.trans hcreated.maxRuns, hlast.trans hcreated.lastSynced,
        hcalls.trans hcreated.calls⟩
      · rw [List.foldlM_cons, getItem_eq_ok.2 hidx, getItem_eq_ok.2 hconfig]
        change (m.createRunData out run idx config >>= _) = _
        rw [hcreate]
        exact hfold
      · rw [hids, hcreated.id2Idx, Dict.get?_insert]
        by_cases hr : run = r
        · subst hr
          rw [if_neg hnot, if_pos rfl, if_pos List.mem_cons_self, hidx]
        · rw [if_neg hr]
          by_cases hmem : r ∈ l
          · rw [if_pos hmem, if_pos (List.mem_cons_of_mem _ hmem)]
          · rw [if_neg hmem, if_neg fun h => (List.mem_cons.1 h).elim (fun h => hr h.symm) hmem]

/-! ## Hooks -/

omit [ScalingFactor F]

def HookCall.idx : HookCall → Nat
  | forgotten i _ => i
  | discovered i _ => i
  | deleted i _ => i
  | resetParameters i => i
  | created i _ => i

/-- The deletion hook of a run at the index it had. -/
def deletionCalls (before : Dict String Nat) (run : String) : List HookCall :=
  (before.get? run).toList.map (.deleted · run)

/-- The reset and the creation hook of a run at the index it has. -/
def creationCalls (after : Dict String Nat) (run : String) : List HookCall :=
  (after.get? run).toList.flatMap fun i => [.resetParameters i, .created i run]

theorem runHooks_spec (m : MultiRunManager F) {before : Dict String Nat} {deleted new : List String}
    (hdeleted : ∀ r ∈ deleted, ∃ i, before.get? r = some i) (hnew : ∀ r ∈ new, ∃ i, m.id2Idx.get? r = some i) :
    m.runHooks before deleted new = .ok { m with
      calls := m.calls ++ (deleted.flatMap (deletionCalls before) ++ new.flatMap (creationCalls m.id2Idx)) } := by
  have hdel : ∀ (l : List String) (m : MultiRunManager F), (∀ r ∈ l, ∃ i, before.get? r = some i) →
      l.foldlM (fun m run => do
        let idx ← getItem before run
        return m.deleteRunHooks idx run) m =
      (.ok { m with calls := m.calls ++ l.flatMap (deletionCalls before) } : Except PyError _) := by
    intro l
    induction l with
    | nil =>
        intro m _
        rw [List.flatMap_nil, List.append_nil]
        rfl
    | cons r l ih =>
        intro m h
        obtain ⟨i, hi⟩ := h r List.mem_cons_self
        have hcalls : deletionCalls before r = [.deleted i r] := by
          unfold deletionCalls
          rw [hi]
          rfl
        rw [List.foldlM_cons, getItem_eq_ok.2 hi, List.flatMap_cons, hcalls]
        refine (ih (m.deleteRunHooks i r) fun r' hr' => h r' (List.mem_cons_of_mem r hr')).trans ?_
        unfold deleteRunHooks call
        rw [List.append_assoc]
  have hcre : ∀ (l : List String) (m : MultiRunManager F), (∀ r ∈ l, ∃ i, m.id2Idx.get? r = some i) →
      l.foldlM (fun m run => do
        let idx ← getItem m.id2Idx run
        return m.createRunHooks idx run) m =
      (.ok { m with calls := m.calls ++ l.flatMap (creationCalls m.id2Idx) } : Except PyError _) := by
    intro l
    induction l with
    | nil =>
        intro m _
        rw [List.flatMap_nil, List.append_nil]
        rfl
    | cons r l ih =>
        intro m h
        obtain ⟨i, hi⟩ := h r List.mem_cons_self
        have hcalls : creationCalls m.id2Idx r = [.resetParameters i, .created i r] := by
          unfold creationCalls
          rw [hi]
          rfl
        rw [List.foldlM_cons, getItem_eq_ok.2 hi, List.flatMap_cons, hcalls]
        refine (ih (m.createRunHooks i r) fun r' hr' => h r' (List.mem_cons_of_mem r hr')).trans ?_
        unfold createRunHooks call
        dsimp only
        rw [List.append_assoc, List.append_assoc, ← List.append_assoc [HookCall.resetParameters i]]
        rfl
  unfold MultiRunManager.runHooks
  rw [hdel deleted m hdeleted, ok_bind, hcre new _ (by exact hnew), ← List.append_assoc]

/-- Who has an index, by a table of indices. -/
def occupant (d : Dict String Nat) (i : Nat) : Option String := (d.entries.find? fun e => e.2 = i).map Prod.fst

/-- No two runs share an index. -/
def Injective (d : Dict String Nat) : Prop := ∀ r r' i, d.get? r = some i → d.get? r' = some i → r = r'

theorem occupant_eq_some {d : Dict String Nat} (hd : Injective d) {i : Nat} {r : String} :
    occupant d i = some r ↔ d.get? r = some i := by
  unfold occupant
  constructor
  · intro h
    obtain ⟨e, he, rfl⟩ := Option.map_eq_some_iff.1 h
    have hi : e.2 = i := by simpa using List.find?_some he
    exact (Dict.mem_entries_iff d e.1 i).1 (hi ▸ List.mem_of_find?_eq_some he)
  · intro h
    have hmem := (Dict.mem_entries_iff d r i).2 h
    cases hfind : d.entries.find? fun e => decide (e.2 = i) with
    | none =>
        have := List.find?_eq_none.1 hfind _ hmem
        simp at this
    | some e =>
        have hi : e.2 = i := by simpa using List.find?_some hfind
        have he := (Dict.mem_entries_iff d e.1 i).1 (hi ▸ List.mem_of_find?_eq_some hfind)
        rw [Option.map_some, hd e.1 r i he h]

theorem flatMap_unique {l : List String} (hl : l.Nodup) {f : String → List HookCall} {r : String}
    (h : ∀ r' ∈ l, r' ≠ r → f r' = []) : l.flatMap f = if r ∈ l then f r else [] := by
  induction l with
  | nil => rfl
  | cons r' l ih =>
      obtain ⟨hnot, hl⟩ := List.nodup_cons.1 hl
      rw [List.flatMap_cons, ih hl fun r'' hr'' => h r'' (List.mem_cons_of_mem r' hr'')]
      by_cases hr : r' = r
      · subst hr
        rw [if_neg hnot, if_pos List.mem_cons_self, List.append_nil]
      · rw [h r' List.mem_cons_self hr, List.nil_append]
        by_cases hmem : r ∈ l
        · rw [if_pos hmem, if_pos (List.mem_cons_of_mem _ hmem)]
        · rw [if_neg hmem, if_neg fun h => (List.mem_cons.1 h).elim (fun h => hr h.symm) hmem]

theorem mem_of_enumerates {l : List String} {d d' : Dict String Nat} (h : Enumerates l (keysMinus d d')) {r : String} :
    r ∈ l ↔ (∃ i, d.get? r = some i) ∧ d'.get? r = none := by
  rw [← List.mem_toFinset, h.2, keysMinus, Finset.mem_sdiff, List.mem_toFinset, List.mem_toFinset, Dict.mem_keys_iff,
    Dict.mem_keys_iff]
  cases d'.get? r <;> simp

/-- Of the hooks of some runs, those at an index are those of its occupant. -/
theorem filter_hooks {d : Dict String Nat} (hd : Injective d) {hooks owed : String → List HookCall} {i : Nat}
    (hhooks : ∀ r, (hooks r).filter (fun c => c.idx = i) = if d.get? r = some i then owed r else [])
    {l : List String} (hl : l.Nodup) : (l.flatMap hooks).filter (fun c => c.idx = i) =
      (occupant d i).toList.flatMap fun r => if r ∈ l then owed r else [] := by
  rw [List.filter_flatMap]
  simp only [hhooks]
  cases hocc : occupant d i with
  | none =>
      refine List.flatMap_eq_nil_iff.2 fun r _ => if_neg fun hr => ?_
      rw [(occupant_eq_some hd).2 hr] at hocc
      cases hocc
  | some r =>
      have hr := (occupant_eq_some hd).1 hocc
      rw [flatMap_unique hl (r := r) fun r' _ hne => if_neg fun hr' => hne (hd r' r i hr' hr), if_pos hr]
      simp

/-- A run that one table has at an index, and the other neither there nor elsewhere, is in the difference of the two. -/
theorem mem_of_left {d d' : Dict String Nat} (hd : Injective d) (hd' : Injective d') {l : List String}
    (hl : Enumerates l (keysMinus d d')) {r : String} {i : Nat} (hsame : ∀ j, d'.get? r = some j → i = j)
    (hr : occupant d i = some r) (hne : occupant d' i ≠ some r) : r ∈ l := by
  refine (mem_of_enumerates hl).2 ⟨⟨i, (occupant_eq_some hd).1 hr⟩, ?_⟩
  cases hr' : d'.get? r with
  | none => rfl
  | some j =>
      obtain rfl := hsame j hr'
      exact absurd ((occupant_eq_some hd').2 hr') hne

/-- The hooks owed to an index between two synchronisations with these `changes`: none if its run was never forgotten
and it got no other, else the deletion of the run it had and the creation of the one it has. -/
def indexCalls (before after : Dict String Nat) (changes : List HookCall) (i : Nat) : List HookCall :=
  if occupant before i = occupant after i ∧ ∀ c ∈ changes, c.idx ≠ i then []
  else (occupant before i).toList.map (.deleted i) ++
    (occupant after i).toList.flatMap fun r => [.resetParameters i, .created i r]

theorem calls_at {before after : Dict String Nat} (hbefore : Injective before) (hafter : Injective after)
    {changes : List HookCall} (hkept : ∀ r i j, before.get? r = some i → after.get? r = some j →
      i = j ∧ ∀ c ∈ changes, c.idx ≠ i) {deleted new : List String}
    (hdeleted : Enumerates deleted (keysMinus before after)) (hnew : Enumerates new (keysMinus after before)) (i : Nat) :
    (deleted.flatMap (deletionCalls before) ++ new.flatMap (creationCalls after)).filter (fun c => c.idx = i) =
      indexCalls before after changes i := by
  unfold indexCalls
  have hdel : ∀ r, (deletionCalls before r).filter (fun c => c.idx = i) =
      if before.get? r = some i then [.deleted i r] else [] := by
    intro r
    unfold deletionCalls
    cases before.get? r with
    | none => rfl
    | some j => by_cases hj : j = i <;> simp [HookCall.idx, hj]
  have hcre : ∀ r, (creationCalls after r).filter (fun c => c.idx = i) =
      if after.get? r = some i then [.resetParameters i, .created i r] else [] := by
    intro r
    unfold creationCalls
    cases after.get? r with
    | none => rfl
    | some j => by_cases hj : j = i <;> simp [HookCall.idx, hj]
  rw [List.filter_append, filter_hooks hbefore hdel hdeleted.1, filter_hooks hafter hcre hnew.1]
  -- a run that keeps its index is in neither list; one that does not is in its list
  by_cases heq : occupant before i = occupant after i
  · cases hocc : occupant before i with
    | none => simp [← heq, hocc]
    | some r =>
        have hbi := (occupant_eq_some hbefore).1 hocc
        have hai := (occupant_eq_some hafter).1 (heq ▸ hocc)
        rw [← heq, hocc, if_pos ⟨rfl, (hkept r i i hbi hai).2⟩]
        have h₁ : r ∉ deleted := fun h => by
          rw [((mem_of_enumerates hdeleted).1 h).2] at hai
          cases hai
        have h₂ : r ∉ new := fun h => by
          rw [((mem_of_enumerates hnew).1 h).2] at hbi
          cases hbi
        simp [h₁, h₂]
  · rw [if_neg fun h => heq h.1]
    congr 1
    · cases hocc : occupant before i with
      | none => rfl
      | some r =>
          have hmem := mem_of_left hbefore hafter hdeleted
            (fun j hj => (hkept r i j ((occupant_eq_some hbefore).1 hocc) hj).1) hocc fun h => heq (hocc.trans h.symm)
          simp [hmem]
    · cases hocc : occupant after i with
      | none => rfl
      | some r =>
          have hmem := mem_of_left hafter hbefore hnew
            (fun j hj => (hkept r j i hj ((occupant_eq_some hafter).1 hocc)).1.symm) hocc fun h => heq (h.trans hocc.symm)
          simp [hmem]

/-! ## Discovery -/

variable [ScalingFactor F] {trainerLora : Option (LoRAConfig F)} {out : OutputDir F} {iter : NextIter}

/-- What looking for `new` runs changes: the others are dropped or stay as they were. -/
structure Evolves (new : List String) (m m' : MultiRunManager F) : Prop where
  consistent : Consistent m'
  maxRuns : m'.maxRuns = m.maxRuns
  lastSynced : m'.lastSyncedId2Idx = m.lastSyncedId2Idx
  kept : ∀ r, r ∉ new → ∀ i, m'.id2Idx.get? r = some i →
    m.id2Idx.get? r = some i ∧ m'.config.get? i = m.config.get? i

omit [ScalingFactor F] in
theorem Evolves.refl {m : MultiRunManager F} (h : Consistent m) (new : List String) : Evolves new m m :=
  ⟨h, rfl, rfl, fun _ _ _ hi => ⟨hi, rfl⟩⟩

omit [ScalingFactor F] in
theorem Evolves.trans {l l' new : List String} {m m₁ m₂ : MultiRunManager F} (h : Evolves l m m₁)
    (h' : Evolves l' m₁ m₂) (hl : ∀ r ∈ l, r ∈ new) (hl' : ∀ r ∈ l', r ∈ new) : Evolves new m m₂ := by
  refine ⟨h'.consistent, h'.maxRuns.trans h.maxRuns, h'.lastSynced.trans h.lastSynced, fun r hr i hi => ?_⟩
  obtain ⟨h₁, hconfig₁⟩ := h'.kept r (fun hmem => hr (hl' r hmem)) i hi
  obtain ⟨h₂, hconfig₂⟩ := h.kept r (fun hmem => hr (hl r hmem)) i h₁
  exact ⟨h₂, hconfig₁.trans hconfig₂⟩

omit [ScalingFactor F] in
theorem Consistent.call {m : MultiRunManager F} (h : Consistent m) (hook : HookCall) : Consistent (m.call hook) :=
  ⟨h.inverse, h.unused, h.bound, h.progress, h.config⟩

theorem evolves_forgetRun {m m' : MultiRunManager F} {run : String} (hm : Consistent m)
    (h : m.forgetRun run = .ok m') : Evolves [] m m' ∧ ∀ r, m.id2Idx.get? r = none → m'.id2Idx.get? r = none := by
  obtain ⟨idx, hidx, h⟩ := bind_eq_ok.1 h
  rw [getItem_eq_ok] at hidx
  obtain ⟨m₁, hdelete, hm₁, hdeleted⟩ := deleteRunData_spec (hm.call (.forgotten idx run)) hidx
  obtain rfl : m₁ = m' := Except.ok.inj (hdelete.symm.trans h)
  refine ⟨⟨hm₁, hdeleted.maxRuns, hdeleted.lastSynced, fun r _ i hi => ?_⟩, fun r hr => ?_⟩
  · rw [hdeleted.id2Idx, Dict.get?_erase] at hi
    split at hi
    · cases hi
    · rename_i hne
      refine ⟨hi, ?_⟩
      rw [hdeleted.config, Dict.get?_erase]
      refine if_neg fun heq => hne (hm.inj hidx ?_)
      rw [heq]
      exact hi
  · rw [hdeleted.id2Idx, Dict.get?_erase]
    split
    · rfl
    · exact hr

/-- The scaling factor is all that the discovered hook touches. -/
theorem onRunDiscovered_eq {m m' : MultiRunManager F} {idx : Nat} {config : OrchestratorConfig F}
    (h : m.onRunDiscovered trainerLora idx config = .ok m') : ∃ f, m' = { m with scalingFactors := f } := by
  unfold MultiRunManager.onRunDiscovered at h
  split at h
  · cases h
    exact ⟨m.scalingFactors, rfl⟩
  · split at h
    · cases h
      exact ⟨_, rfl⟩
    · cases h
    · cases h

theorem evolves_discoverRun {m m' : MultiRunManager F} {run : String} (hm : Consistent m)
    (hrun : m.id2Idx.get? run = none) (h : discoverRun trainerLora out iter m run = .ok m') :
    Evolves [run] m m' ∧ ∀ r, r ≠ run → m'.id2Idx.get? r = m.id2Idx.get? r := by
  unfold MultiRunManager.discoverRun at h
  split at h
  · cases h
    exact ⟨.refl hm _, fun _ _ => rfl⟩
  · rename_i newId hnext
    obtain ⟨config, -, h⟩ := bind_eq_ok.1 h
    cases config with
    | none =>
        cases h
        exact ⟨.refl hm _, fun _ _ => rfl⟩
    | some config =>
        obtain ⟨m₁, hcreate, h⟩ := bind_eq_ok.1 h
        obtain ⟨m₂, hcreate', hm₂, hcreated⟩ := createRunData_spec out config hm hrun (iter.mem hnext)
        obtain rfl : m₂ = m₁ := Except.ok.inj (hcreate'.symm.trans hcreate)
        obtain ⟨f, rfl⟩ := onRunDiscovered_eq h
        have hfree := ((hm.unused newId).1 (iter.mem hnext)).2
        have hids : ∀ r, r ≠ run → m₂.id2Idx.get? r = m.id2Idx.get? r := by
          intro r hr
          rw [hcreated.id2Idx, Dict.get?_insert, if_neg hr.symm]
        refine ⟨⟨⟨hm₂.inverse, hm₂.unused, hm₂.bound, hm₂.progress, hm₂.config⟩, hcreated.maxRuns, hcreated.lastSynced,
          fun r hr i hi => ?_⟩, hids⟩
        have hi' : m.id2Idx.get? r = some i := (hids r (List.ne_of_not_mem_cons hr)).symm.trans hi
        refine ⟨hi', ?_⟩
        change m₂.config.get? i = _
        rw [hcreated.config, Dict.get?_insert]
        refine if_neg fun heq => ?_
        rw [heq, (hm.inverse i r).2 hi'] at hfree
        cases hfree

theorem evolves_forgetRuns {m m' : MultiRunManager F} {deleted : List String} (hm : Consistent m)
    (h : deleted.foldlM forgetRun m = .ok m') :
    Evolves [] m m' ∧ ∀ r, m.id2Idx.get? r = none → m'.id2Idx.get? r = none := by
  induction deleted generalizing m with
  | nil =>
      cases h
      exact ⟨.refl hm _, fun _ hr => hr⟩
  | cons run l ih =>
      rw [List.foldlM_cons] at h
      obtain ⟨m₁, h₁, h⟩ := bind_eq_ok.1 h
      obtain ⟨hevolves, hnone⟩ := evolves_forgetRun hm h₁
      obtain ⟨hevolves', hnone'⟩ := ih hevolves.consistent h
      exact ⟨hevolves.trans hevolves' nofun nofun, fun r hr => hnone' r (hnone r hr)⟩

theorem evolves_newRuns {m m' : MultiRunManager F} {new : List String} (hnew : new.Nodup) (hm : Consistent m)
    (hnone : ∀ r ∈ new, m.id2Idx.get? r = none) (h : new.foldlM (discoverRun trainerLora out iter) m = .ok m') :
    Evolves new m m' := by
  induction new generalizing m with
  | nil =>
      cases h
      exact .refl hm _
  | cons run l ih =>
      obtain ⟨hnot, hl⟩ := List.nodup_cons.1 hnew
      rw [List.foldlM_cons] at h
      obtain ⟨m₁, h₁, h⟩ := bind_eq_ok.1 h
      obtain ⟨hevolves, hids⟩ := evolves_discoverRun hm (hnone run List.mem_cons_self) h₁
      have hrest : ∀ r ∈ l, m₁.id2Idx.get? r = none := by
        intro r hr
        rw [hids r fun heq => hnot (heq ▸ hr)]
        exact hnone r (List.mem_cons_of_mem run hr)
      refine hevolves.trans (ih hl hevolves.consistent hrest h) (fun r hr => ?_) fun r => List.mem_cons_of_mem run
      exact List.mem_cons.2 (Or.inl (List.mem_singleton.1 hr))

theorem evolves_discoverRuns {m m' : MultiRunManager F} {deleted new : List String} (hm : Consistent m)
    (hnew : Enumerates new (m.newRuns out)) (h : discoverRuns trainerLora out iter m deleted new = .ok m') :
    Evolves new m m' := by
  obtain ⟨m₁, h₁, h⟩ := bind_eq_ok.1 h
  obtain ⟨hevolves, hnone⟩ := evolves_forgetRuns hm h₁
  refine hevolves.trans (evolves_newRuns hnew.1 hevolves.consistent (fun r hr => hnone r ?_) h) nofun fun _ hr => hr
  have hmem : r ∈ m.newRuns out := by
    rw [← hnew.2]
    exact List.mem_toFinset.2 hr
  have hnot := (Finset.mem_sdiff.1 hmem).2
  rw [List.mem_toFinset, Dict.mem_keys_iff] at hnot
  cases hr' : m.id2Idx.get? r with
  | none => rfl
  | some i => exact absurd ⟨i, hr'⟩ hnot

end AuroraRl.Runs
