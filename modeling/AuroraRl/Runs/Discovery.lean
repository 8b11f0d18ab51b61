import AuroraRl.Runs.Agreement

/-!
# What `discover_runs` leaves in place

* `HookCall.forgottenIdx` : the index of a run that was forgotten;
* `Keeps` : the hooks called, and the indices in use that none of them forgets;
* `discoverRuns_keeps` : the runs that are gone are forgotten, and the others keep their index, progress and config.
-/

namespace AuroraRl.Runs
open MultiRunManager

variable {F : Type}

/-- An index has the run, the progress and the config it had. -/
structure KeepsIndex (i : Nat) (m m' : MultiRunManager F) : Prop where
  idx2Id : m'.idx2Id.get? i = m.idx2Id.get? i
  progress : m'.progress.get? i = m.progress.get? i
  config : m'.config.get? i = m.config.get? i

def HookCall.forgottenIdx : HookCall → Option Nat
  | .forgotten idx _ => some idx
  | _ => none

theorem HookCall.mem_forgottenIdxs {hooks : List HookCall} {i : Nat} :
    i ∈ hooks.filterMap HookCall.forgottenIdx ↔ ∃ r, HookCall.forgotten i r ∈ hooks := by
  rw [List.mem_filterMap]
  constructor
  · rintro ⟨c, hc, hi⟩
    cases c with
    | forgotten j r =>
        cases hi
        exact ⟨r, hc⟩
    | _ => cases hi
  · rintro ⟨r, hr⟩
    exact ⟨_, hr, rfl⟩

/-- The hooks called, and the indices in use that none of them forgets. At such an index no hook comes before that. -/
structure Keeps (hooks : List HookCall) (m m' : MultiRunManager F) : Prop where
  calls : m'.calls = m.calls ++ hooks
  index : ∀ i, m.idx2Id.get? i ≠ none → i ∉ hooks.filterMap HookCall.forgottenIdx → KeepsIndex i m m'
  first : ∀ i r, m.idx2Id.get? i = some r → ∀ c ∈ hooks, c.idx = i → HookCall.forgotten i r ∈ hooks

theorem Keeps.refl (m : MultiRunManager F) : Keeps [] m m :=
  ⟨(List.append_nil _).symm, fun _ _ _ => ⟨rfl, rfl, rfl⟩, fun _ _ _ _ hc => absurd hc List.not_mem_nil⟩

theorem Keeps.trans {l l' : List HookCall} {m m₁ m₂ : MultiRunManager F} (h : Keeps l m m₁) (h' : Keeps l' m₁ m₂) :
    Keeps (l ++ l') m m₂ := by
  refine ⟨by rw [h'.calls, h.calls, List.append_assoc], fun i hi hl => ?_, fun i r hi c hc hci => ?_⟩
  · rw [List.filterMap_append, List.mem_append, not_or] at hl
    have h₁ := h.index i hi hl.1
    have h₂ := h'.index i (by rwa [h₁.idx2Id]) hl.2
    exact ⟨h₂.idx2Id.trans h₁.idx2Id, h₂.progress.trans h₁.progress, h₂.config.trans h₁.config⟩
  · by_cases hl : i ∈ l.filterMap HookCall.forgottenIdx
    · obtain ⟨r', hr'⟩ := HookCall.mem_forgottenIdxs.1 hl
      exact List.mem_append_left _ (h.first i r hi _ hr' rfl)
    · rcases List.mem_append.1 hc with hc | hc
      · exact List.mem_append_left _ (h.first i r hi c hc hci)
      · have h₁ := (h.index i (fun hnone => by cases hnone.symm.trans hi) hl).idx2Id
        exact List.mem_append_right _ (h'.first i r (h₁.trans hi) c hc hci)

variable [ScalingFactor F] {trainerLora : Option (LoRAConfig F)} {out : OutputDir F} {iter : NextIter}

theorem forgetRun_keeps {m m' : MultiRunManager F} {run : String} (hm : Consistent m) (h : m.forgetRun run = .ok m') :
    ∃ idx, m.id2Idx.get? run = some idx ∧ Keeps [.forgotten idx run] m m' ∧ m'.id2Idx = m.id2Idx.erase run := by
  obtain ⟨idx, hidx, h⟩ := bind_eq_ok.1 h
  rw [getItem_eq_ok] at hidx
  obtain ⟨progress, hprogress, h⟩ := bind_eq_ok.1 h
  obtain ⟨idx2Id, hidx2Id, h⟩ := bind_eq_ok.1 h
  obtain ⟨id2Idx, hid2Idx, h⟩ := bind_eq_ok.1 h
  have herase : ∀ {κ ν : Type} [DecidableEq κ] {d d' : Dict κ ν} {k : κ}, delItem d k = .ok d' → d' = d.erase k := by
    intro κ ν _ d d' k hd
    unfold delItem at hd
    split_ifs at hd
    exact (Except.ok.inj hd).symm
  obtain rfl := herase hprogress
  obtain rfl := herase hidx2Id
  obtain rfl := herase hid2Idx
  cases h
  refine ⟨idx, hidx, ⟨rfl, fun i _ hl => ?_, fun i r hi c hc hci => ?_⟩, rfl⟩
  · have hne : idx ≠ i := fun heq => hl (List.mem_filterMap.2 ⟨_, List.mem_singleton_self _, congrArg some heq⟩)
    refine ⟨?_, ?_, ?_⟩
    · show (m.idx2Id.erase idx).get? i = m.idx2Id.get? i
      rw [Dict.get?_erase, if_neg hne]
    · show (m.progress.erase idx).get? i = m.progress.get? i
      rw [Dict.get?_erase, if_neg hne]
    · show (m.config.erase idx).get? i = m.config.get? i
      rw [Dict.get?_erase, if_neg hne]
  · -- the run at the index is the one that is forgotten
    rw [List.mem_singleton] at hc
    subst hc
    change idx = i at hci
    subst hci
    rw [hm.inverse, ← hidx] at hi
    obtain rfl := hm.inj (hi.trans hidx) hidx
    exact List.mem_singleton_self _

theorem forgetRuns_keeps {m m' : MultiRunManager F} {deleted : List String} (hm : Consistent m)
    (h : deleted.foldlM forgetRun m = .ok m') :
    ∃ calls, Keeps calls m m' ∧ ∀ run ∈ deleted, ∀ idx, m.id2Idx.get? run = some idx →
    HookCall.forgotten idx run ∈ calls := by
  induction deleted generalizing m with
  | nil =>
      cases h
      exact ⟨[], .refl _, fun _ h => absurd h List.not_mem_nil⟩
  | cons run l ih =>
      rw [List.foldlM_cons] at h
      obtain ⟨m₁, h₁, h⟩ := bind_eq_ok.1 h
      obtain ⟨idx, hidx, hkeeps, hids⟩ := forgetRun_keeps hm h₁
      obtain ⟨calls, hkeeps', hforgotten⟩ := ih (evolves_forgetRun hm h₁).1.consistent h
      refine ⟨_, hkeeps.trans hkeeps', fun r hr i hi => ?_⟩
      by_cases heq : r = run
      · rw [heq, hidx] at hi
        cases hi
        rw [heq]
        exact List.mem_append_left _ (List.mem_singleton_self _)
      · refine List.mem_append_right _ (hforgotten r ((List.mem_cons.1 hr).resolve_left heq) i ?_)
        rw [hids, Dict.get?_erase, if_neg (Ne.symm heq)]
        exact hi

theorem discoverRun_keeps {m m' : MultiRunManager F} {run : String} (hm : Consistent m)
    (h : discoverRun trainerLora out iter m run = .ok m') :
    ∃ calls, Keeps calls m m' ∧ calls.filterMap HookCall.forgottenIdx = [] := by
  unfold MultiRunManager.discoverRun at h
  split at h
  · cases h
    exact ⟨[], .refl _, rfl⟩
  · rename_i newId hnext
    obtain ⟨config, -, h⟩ := bind_eq_ok.1 h
    cases config with
    | none =>
        cases h
        exact ⟨[], .refl _, rfl⟩
    | some config =>
        obtain ⟨m₁, hcreate, h⟩ := bind_eq_ok.1 h
        obtain ⟨f, rfl⟩ := onRunDiscovered_eq h
        have hfree := ((hm.unused newId).1 (iter.mem hnext)).2
        unfold MultiRunManager.createRunData at hcreate
        rw [if_pos (iter.mem hnext)] at hcreate
        cases hcreate
        refine ⟨[.discovered newId run], ⟨rfl, fun i hi _ => ?_, fun i r hi c hc hci => ?_⟩, rfl⟩
        · have hne : newId ≠ i := fun heq => hi (heq ▸ hfree)
          refine ⟨?_, ?_, ?_⟩
          · show (m.idx2Id.insert newId run).get? i = m.idx2Id.get? i
            rw [Dict.get?_insert, if_neg hne]
          · show (m.progress.insert newId _).get? i = m.progress.get? i
            rw [Dict.get?_insert, if_neg hne]
          · show (m.config.insert newId _).get? i = m.config.get? i
            rw [Dict.get?_insert, if_neg hne]
        · -- the index it gets was free
          rw [List.mem_singleton] at hc
          subst hc
          change newId = i at hci
          rw [← hci, hfree] at hi
          cases hi

theorem newRuns_keeps {m m' : MultiRunManager F} {new : List String} (hnew : new.Nodup) (hm : Consistent m)
    (hnone : ∀ r ∈ new, m.id2Idx.get? r = none) (h : new.foldlM (discoverRun trainerLora out iter) m = .ok m') :
    ∃ calls, Keeps calls m m' ∧ calls.filterMap HookCall.forgottenIdx = [] := by
  induction new generalizing m with
  | nil =>
      cases h
      exact ⟨[], .refl _, rfl⟩
  | cons run l ih =>
      obtain ⟨hnot, hl⟩ := List.nodup_cons.1 hnew
      rw [List.foldlM_cons] at h
      obtain ⟨m₁, h₁, h⟩ := bind_eq_ok.1 h
      obtain ⟨hevolves, hids⟩ := evolves_discoverRun hm (hnone run List.mem_cons_self) h₁
      obtain ⟨calls, hkeeps, hcalls⟩ := discoverRun_keeps hm h₁
      have hrest : ∀ r ∈ l, m₁.id2Idx.get? r = none := by
        intro r hr
        rw [hids r fun heq => hnot (heq ▸ hr)]
        exact hnone r (List.mem_cons_of_mem run hr)
      obtain ⟨calls', hkeeps', hcalls'⟩ := ih hl hevolves.consistent hrest h
      exact ⟨_, hkeeps.trans hkeeps', by rw [List.filterMap_append, hcalls, hcalls', List.append_nil]⟩

/-- `discover_runs` calls the forgotten hook for the runs that are gone, and leaves the others where they were. -/
theorem discoverRuns_keeps {m m' : MultiRunManager F} {deleted new : List String} (hm : Consistent m)
    (hdeleted : Enumerates deleted (m.deletedRuns out)) (hnew : Enumerates new (m.newRuns out))
    (h : discoverRuns trainerLora out iter m deleted new = .ok m') :
    ∃ calls, Keeps calls m m' ∧ ∀ i r, m.idx2Id.get? i = some r → r ∉ presentRuns out →
      i ∈ calls.filterMap HookCall.forgottenIdx := by
  obtain ⟨m₁, h₁, h⟩ := bind_eq_ok.1 h
  obtain ⟨hevolves, hnone⟩ := evolves_forgetRuns hm h₁
  obtain ⟨calls, hkeeps, hforgotten⟩ := forgetRuns_keeps hm h₁
  have hunknown : ∀ r ∈ new, m₁.id2Idx.get? r = none := by
    intro r hr
    apply hnone
    have hmem : r ∈ m.newRuns out := hnew.2 ▸ List.mem_toFinset.2 hr
    have hnot := (Finset.mem_sdiff.1 hmem).2
    rw [List.mem_toFinset, Dict.mem_keys_iff] at hnot
    exact Option.eq_none_iff_forall_ne_some.2 fun i hi => hnot ⟨i, hi⟩
  obtain ⟨calls', hkeeps', -⟩ := newRuns_keeps hnew.1 hevolves.consistent hunknown h
  refine ⟨_, hkeeps.trans hkeeps', fun i r hi hgone => ?_⟩
  have hr := (hm.inverse i r).1 hi
  have hmem : r ∈ deleted := by
    rw [← List.mem_toFinset, hdeleted.2]
    exact Finset.mem_sdiff.2 ⟨List.mem_toFinset.2 ((Dict.mem_keys_iff ..).2 ⟨i, hr⟩), hgone⟩
  rw [List.filterMap_append]
  exact List.mem_append_left _ (List.mem_filterMap.2 ⟨_, hforgotten r hmem i hr, rfl⟩)

end AuroraRl.Runs
