import AuroraRl.Orchestrator.Buffer
import Mathlib

/-!
# Resuming the difficulty buffer

* `HashesDistinct` : the hashes tell the examples of all environments apart;
* `hashLookup_finds` : the lookup finds every normal example by its hash, in its environment only;
* `moveSavedPool_ok` : a saved pool leaves every environment the examples it had in it;
* `Buffer.Restores`, `load_save` : a saved buffer loaded into a new one;
* `load_ok` : what loading needs to raise nothing;
* `partition_and_resume`, `sample_examples_normal`, `load_any_checkpoint` : the three along every run.
-/

namespace AuroraRl.Difficulty
open Orchestrator Transition

variable {V R : Type} [JsonValues V]

/-- Every example of the environments has a hash. -/
def Hashable (config : BufferConfig) (envs : Dict String (Dataset V)) : Prop :=
  ∀ name dataset, envs.get? name = some dataset → ∀ ex ∈ dataset.examples name, ∃ hash, getExampleHash config ex = .ok hash

/-- The hashes of the examples of all environments differ. -/
structure HashesDistinct (config : BufferConfig) (envs : Dict String (Dataset V)) : Prop where
  hashed : Hashable config envs
  distinct : ((envs.entries.flatMap fun env => env.2.examples env.1).map (getExampleHash config)).Nodup

variable {config : BufferConfig} {envs : Dict String (Dataset V)}

theorem HashesDistinct.eq_of_hash (hash : HashesDistinct config envs) {name name' : String} {dataset dataset' : Dataset V}
    (hd : envs.get? name = some dataset) (hd' : envs.get? name' = some dataset') {ex ex' : Example V}
    (hex : ex ∈ dataset.examples name) (hex' : ex' ∈ dataset'.examples name')
    (h : getExampleHash config ex = getExampleHash config ex') : ex = ex' := by
  refine List.inj_on_of_nodup_map hash.distinct ?_ ?_ h
  · exact List.mem_flatMap.2 ⟨_, (Dict.mem_entries_iff _ _ _).2 hd, hex⟩
  · exact List.mem_flatMap.2 ⟨_, (Dict.mem_entries_iff _ _ _).2 hd', hex'⟩

/-! ## The lookup -/

namespace Buffer

/-- The lookup has the example under its hash in its environment, and the hash in no other. -/
def Finds (config : BufferConfig) (lookup : List (String × Dict String Nat)) (ex : Example V) : Prop :=
  ∃ hash, getExampleHash config ex = .ok hash ∧
    (∃ hashes, (ex.envName, hashes) ∈ lookup ∧ hashes.get? hash = some ex.exampleId) ∧
    ∀ env ∈ lookup, env.1 ≠ ex.envName → env.2.get? hash = none

def hashOf (config : BufferConfig) (ex : Example V) : String := (getExampleHash config ex).toOption.getD ""

theorem hashOf_spec {ex : Example V} (h : ∃ hash, getExampleHash config ex = .ok hash) :
    getExampleHash config ex = .ok (hashOf config ex) := by
  obtain ⟨hash, hhash⟩ := h
  rw [hashOf, hhash]
  rfl

def hashesOf (config : BufferConfig) (eb : EnvBuffer V) : Dict String Nat :=
  Dict.ofList (eb.examples.entries.map fun ex => (hashOf config ex.2, ex.1))

theorem envHashes_ok {eb : EnvBuffer V} (hashed : ∀ id ex, eb.examples.get? id = some ex →
    ∃ hash, getExampleHash config ex = .ok hash) :
    envHashes config eb = .ok (hashesOf config eb) := by
  have hturn : ∀ e ∈ eb.examples.entries, ∀ hashes : Dict String Nat,
      (do return hashes.insert (← getExampleHash config e.2) e.1 : Except PyException (Dict String Nat)) =
        .ok (hashes.insert (hashOf config e.2) e.1) := by
    intro e he hashes
    rw [hashOf_spec (hashed e.1 e.2 ((Dict.mem_entries_iff _ _ _).1 he))]
    rfl
  unfold envHashes
  rw [foldlM_ok hturn, hashesOf, Dict.ofList, Dict.insertAll, List.foldl_map]
  rfl

theorem entries_hashesOf {eb : EnvBuffer V} (distinct : (eb.examples.entries.map fun ex => hashOf config ex.2).Nodup) :
    (hashesOf config eb).entries = eb.examples.entries.map fun ex => (hashOf config ex.2, ex.1) :=
  Dict.entries_ofList (by simpa [Function.comp_def] using distinct)

variable [RolloutOutput R] {buffer : Buffer V R}

omit [JsonValues V] in
theorem Holds.normal_mem (hold : buffer.Holds envs) {name : String} {eb : EnvBuffer V} {id : Nat} {ex : Example V}
    (heb : buffer.envBuffers.get? name = some eb) (hex : eb.examples.get? id = some ex) :
    ∃ dataset, envs.get? name = some dataset ∧ ex ∈ dataset.examples name ∧ ex.exampleId = id := by
  obtain ⟨dataset, hdataset⟩ := Dict.mem_keys_iff.1 (hold.keys ▸ Dict.mem_keys_iff.2 ⟨eb, heb⟩)
  have hpools := hold.pools name dataset eb hdataset heb
  refine ⟨dataset, hdataset, hpools.members_perm.mem_iff.1 ?_, hpools.keyed id ex hex⟩
  exact List.mem_append_left _ (List.mem_append_left _ (Dict.mem_values_iff.2 ⟨id, hex⟩))

theorem hashLookup_ok (hashed : Hashable config envs) (hold : buffer.Holds envs) :
    ∃ lookup, hashLookup config buffer = .ok lookup ∧ lookup.entries =
      (buffer.envBuffers.entries.filter fun env => (hashesOf config env.2).entries ≠ []).map fun env =>
        (env.1, hashesOf config env.2) := by
  have hturn : ∀ env ∈ buffer.envBuffers.entries, ∀ lookup : Dict String (Dict String Nat),
      (do
        let hashes ← envHashes config env.2
        return if hashes.entries = [] then lookup else lookup.insert env.1 hashes : Except PyException _) =
        .ok (if (hashesOf config env.2).entries = [] then lookup else lookup.insert env.1 (hashesOf config env.2)) := by
    intro env henv lookup
    rw [envHashes_ok fun id ex hex => ?_]
    · rfl
    · obtain ⟨dataset, hdataset, hmem, -⟩ := hold.normal_mem ((Dict.mem_entries_iff _ _ _).1 henv) hex
      exact hashed _ _ hdataset _ hmem
  refine ⟨_, foldlM_ok hturn, ?_⟩
  have hfold : ∀ (l : List (String × EnvBuffer V)) (d : Dict String (Dict String Nat)),
      l.foldl (fun lookup env => if (hashesOf config env.2).entries = [] then lookup
        else lookup.insert env.1 (hashesOf config env.2)) d =
      d.insertAll ((l.filter fun env => (hashesOf config env.2).entries ≠ []).map fun env =>
        (env.1, hashesOf config env.2)) := by
    intro l d
    induction l generalizing d with
    | nil => rfl
    | cons env l ih =>
        rw [List.foldl_cons, ih]
        by_cases h : (hashesOf config env.2).entries = []
        · rw [if_pos h, List.filter_cons_of_neg (by simpa using h)]
        · rw [if_neg h, List.filter_cons_of_pos (by simpa using h), List.map_cons, Dict.insertAll_cons]
  rw [hfold]
  refine Dict.entries_ofList ?_
  rw [List.map_map]
  exact buffer.envBuffers.nodup.sublist (List.filter_sublist.map _)

/-- The hash of a normal example is looked up as its id. -/
theorem get?_hashesOf (hash : HashesDistinct config envs) (hold : buffer.Holds envs) {name : String} {eb : EnvBuffer V}
    (heb : buffer.envBuffers.get? name = some eb) {key : String} {id : Nat} :
    (hashesOf config eb).get? key = some id ↔ ∃ ex, eb.examples.get? id = some ex ∧ hashOf config ex = key := by
  have distinct : (eb.examples.entries.map fun ex => hashOf config ex.2).Nodup := by
    refine List.Nodup.map_on ?_ eb.examples.nodup.of_map
    intro e he e' he' heq
    obtain ⟨dataset, hd, hmem, hid⟩ := hold.normal_mem heb ((Dict.mem_entries_iff _ _ _).1 he)
    obtain ⟨dataset', hd', hmem', hid'⟩ := hold.normal_mem heb ((Dict.mem_entries_iff _ _ _).1 he')
    have hex : e.2 = e'.2 := by
      refine hash.eq_of_hash hd hd' hmem hmem' ?_
      rw [hashOf_spec (hash.hashed _ _ hd _ hmem), hashOf_spec (hash.hashed _ _ hd' _ hmem'), heq]
    exact Prod.ext (by rw [← hid, ← hid', hex]) hex
  rw [← Dict.mem_entries_iff, entries_hashesOf distinct, List.mem_map]
  constructor
  · rintro ⟨e, he, heq⟩
    cases heq
    exact ⟨e.2, (Dict.mem_entries_iff _ _ _).1 he, rfl⟩
  · rintro ⟨ex, hex, rfl⟩
    exact ⟨(id, ex), (Dict.mem_entries_iff _ _ _).2 hex, rfl⟩

theorem hashLookup_finds (hash : HashesDistinct config envs) (hold : buffer.Holds envs) :
    ∃ lookup, hashLookup config buffer = .ok lookup ∧ ∀ name eb id ex, buffer.envBuffers.get? name = some eb →
      eb.examples.get? id = some ex → Finds config lookup.entries ex := by
  obtain ⟨lookup, hlookup, hentries⟩ := hashLookup_ok hash.hashed hold
  refine ⟨lookup, hlookup, ?_⟩
  intro name eb id ex heb hex
  obtain ⟨dataset, hd, hmem, rfl⟩ := hold.normal_mem heb hex
  have hname : ex.envName = name := Dataset.envName_of_mem hmem
  have hself := (get?_hashesOf hash hold heb).2 ⟨ex, hex, rfl⟩
  refine ⟨hashOf config ex, hashOf_spec (hash.hashed _ _ hd _ hmem), ⟨hashesOf config eb, ?_, hself⟩, ?_⟩
  · rw [hentries, hname]
    refine List.mem_map.2 ⟨(name, eb), List.mem_filter.2 ⟨(Dict.mem_entries_iff _ _ _).2 heb, ?_⟩, rfl⟩
    simpa using List.ne_nil_of_mem ((Dict.mem_entries_iff _ _ _).2 hself)
  · intro env henv hne
    rw [hentries] at henv
    obtain ⟨env₀, henv₀, rfl⟩ := List.mem_map.1 henv
    have heb' := (Dict.mem_entries_iff _ env₀.1 env₀.2).1 (List.mem_filter.1 henv₀).1
    by_contra hsome
    obtain ⟨id', hid'⟩ := Option.ne_none_iff_exists'.1 hsome
    obtain ⟨ex', hex', heq⟩ := (get?_hashesOf hash hold heb').1 hid'
    obtain ⟨dataset', hd', hmem', -⟩ := hold.normal_mem heb' hex'
    have : ex' = ex := by
      refine hash.eq_of_hash hd' hd hmem' hmem ?_
      rw [hashOf_spec (hash.hashed _ _ hd _ hmem), hashOf_spec (hash.hashed _ _ hd' _ hmem'), heq]
    exact hne ((Dataset.envName_of_mem hmem').symm.trans (this ▸ rfl))

/-! ## The saved pools -/

omit [JsonValues V] [RolloutOutput R] in
theorem moveExample_eq {pool : Pool} {lookup : List (String × Dict String Nat)} {hash name : String}
    {hashes : Dict String Nat}
    {id : Nat} {eb eb' : EnvBuffer V} (hmem : (name, hashes) ∈ lookup) (hid : hashes.get? hash = some id)
    (hother : ∀ env ∈ lookup, env.1 ≠ name → env.2.get? hash = none) (hnodup : (lookup.map Prod.fst).Nodup)
    (heb : buffer.envBuffers.get? name = some eb) (hevict : eb.evict pool id = some eb') :
    moveExample pool hash lookup buffer = buffer.setEnv name eb' := by
  induction lookup with
  | nil => cases hmem
  | cons env rest ih =>
      rw [List.map_cons, List.nodup_cons] at hnodup
      rcases List.mem_cons.1 hmem with rfl | hmem
      · simp only [moveExample, hid, heb, hevict]
      · have hne : env.1 ≠ name := fun heq => hnodup.1 (heq ▸ List.mem_map_of_mem hmem)
        have hnone := hother env List.mem_cons_self hne
        have hrest := ih hmem (fun env' henv' => hother env' (List.mem_cons_of_mem _ henv')) hnodup.2
        simp only [moveExample, hnone]
        exact hrest

end Buffer

namespace EnvBuffer

/-- The examples leave the normal pool one after another. -/
def evictAll (pool : Pool) (exs : List (Example V)) (eb : EnvBuffer V) : EnvBuffer V :=
  exs.foldl (fun eb ex => (eb.evict pool ex.exampleId).getD eb) eb

variable {eb : EnvBuffer V} {pool : Pool}

omit [JsonValues V] in
theorem evict_of_normal (pool : Pool) {ex : Example V} (hex : eb.examples.get? ex.exampleId = some ex) :
    eb.evict pool ex.exampleId =
    some { eb.setTarget pool (eb.target pool ++ [ex]) with examples := eb.examples.erase ex.exampleId } := by
  rw [evict, hex]
  rfl

omit [JsonValues V] in
theorem evictAll_eq {exs : List (Example V)} (hids : (exs.map Example.exampleId).Nodup)
    (hnormal : ∀ ex ∈ exs, eb.examples.get? ex.exampleId = some ex) :
    eb.evictAll pool exs = { eb.setTarget pool (eb.target pool ++ exs) with
      examples := eb.examples.filter fun id _ => id ∉ exs.map Example.exampleId } := by
  induction exs generalizing eb with
  | nil =>
      obtain ⟨examples, easyExamples, hardExamples⟩ := eb
      have hfilter : (examples.filter fun _ _ => true) = examples := Dict.ext (List.filter_eq_self.2 fun _ _ => rfl)
      unfold setTarget target
      split_ifs <;> simp [evictAll, hfilter]
  | cons ex exs ih =>
      rw [List.map_cons, List.nodup_cons] at hids
      have hex := evict_of_normal pool (hnormal ex List.mem_cons_self)
      have hfilter : (eb.examples.erase ex.exampleId).filter (fun id _ => id ∉ exs.map Example.exampleId) =
          eb.examples.filter fun id _ => id ∉ (ex :: exs).map Example.exampleId := by
        refine Dict.ext ?_
        show ((eb.examples.entries.filter _).filter _) = eb.examples.entries.filter _
        rw [List.filter_filter]
        refine List.filter_congr fun e _ => ?_
        by_cases h : e.1 = ex.exampleId <;> simp [h]
      rw [evictAll, List.foldl_cons, hex, Option.getD_some]
      show evictAll pool exs _ = _
      rw [ih hids.2 fun ex' hex' => ?_]
      · rw [← hfilter]
        unfold setTarget target
        split_ifs <;> simp
      · show (eb.examples.erase ex.exampleId).get? ex'.exampleId = some ex'
        have hne : ex.exampleId ≠ ex'.exampleId := fun heq => hids.1 (heq ▸ List.mem_map_of_mem hex')
        rw [Dict.get?_erase, if_neg hne]
        exact hnormal ex' (List.mem_cons_of_mem _ hex')

variable {exs : List (Example V)} {new : EnvBuffer V}

omit [JsonValues V] in
theorem Holds.get?_iff (hold : eb.Holds exs) {id : Nat} {ex : Example V} :
    eb.examples.get? id = some ex ↔ ex ∈ eb.examples.values ∧ ex.exampleId = id := by
  constructor
  · intro hget
    exact ⟨Dict.mem_values_iff.2 ⟨id, hget⟩, hold.keyed id ex hget⟩
  · rintro ⟨hmem, rfl⟩
    obtain ⟨id', hget⟩ := Dict.mem_values_iff.1 hmem
    rwa [hold.keyed id' ex hget]

omit [JsonValues V] in
/-- A new environment has every example as a normal one. -/
theorem Holds.normal_of_new (hnew : new.Holds exs) (heasy : new.easyExamples = []) (hhard : new.hardExamples = [])
    {ex : Example V} (hex : ex ∈ exs) : new.examples.get? ex.exampleId = some ex := by
  have hmem := hnew.members_perm.mem_iff.2 hex
  rw [members, heasy, hhard, List.append_nil, List.append_nil] at hmem
  exact hnew.get?_iff.2 ⟨hmem, rfl⟩

omit [JsonValues V] in
theorem Holds.target_mem {ex : Example V} (hold : eb.Holds exs) (hex : ex ∈ eb.target pool) : ex ∈ exs := by
  refine hold.members_perm.mem_iff.1 ?_
  unfold target at hex
  split_ifs at hex
  · exact List.mem_append_left _ (List.mem_append_right _ hex)
  · exact List.mem_append_right _ hex

omit [JsonValues V] in
theorem Holds.ids_nodup (hold : eb.Holds exs) (hids : (exs.map Example.exampleId).Nodup) :
    (eb.easyExamples.map Example.exampleId).Nodup ∧ (eb.hardExamples.map Example.exampleId).Nodup ∧
      ∀ ex ∈ eb.easyExamples, ∀ ex' ∈ eb.hardExamples, ex.exampleId ≠ ex'.exampleId := by
  have hnodup : (eb.members.map Example.exampleId).Nodup := (hold.members_perm.map _).nodup_iff.2 hids
  rw [members, List.append_assoc, List.map_append, List.map_append] at hnodup
  obtain ⟨heasy, hhard, hne⟩ := List.nodup_append.1 (List.nodup_append.1 hnodup).2.1
  exact ⟨heasy, hhard, fun ex hex ex' hex' => hne _ (List.mem_map_of_mem hex) _ (List.mem_map_of_mem hex')⟩

omit [JsonValues V] in
theorem Holds.target_ids (hold : eb.Holds exs) (hids : (exs.map Example.exampleId).Nodup) :
    ((eb.target pool).map Example.exampleId).Nodup := by
  obtain ⟨heasy, hhard, -⟩ := hold.ids_nodup hids
  unfold target
  split_ifs
  · exact heasy
  · exact hhard

omit [JsonValues V] in
theorem Holds.normal_in_new (hold : eb.Holds exs) (hnew : new.Holds exs) (heasy : new.easyExamples = [])
    (hhard : new.hardExamples = []) :
    ∀ ex ∈ eb.easyExamples ++ eb.hardExamples, new.examples.get? ex.exampleId = some ex := by
  intro ex hex
  refine hnew.normal_of_new heasy hhard (hold.members_perm.mem_iff.1 ?_)
  rw [members, List.append_assoc]
  exact List.mem_append_right _ hex

omit [JsonValues V] in
/-- The hard examples of an environment stay normal in a new one that loses the easy ones. -/
theorem Holds.hard_normal (hold : eb.Holds exs) (hids : (exs.map Example.exampleId).Nodup)
    (hnormal : ∀ ex ∈ eb.easyExamples ++ eb.hardExamples, new.examples.get? ex.exampleId = some ex) :
    ∀ ex ∈ eb.hardExamples, (new.evictAll .easy eb.easyExamples).examples.get? ex.exampleId = some ex := by
  intro ex hex
  obtain ⟨hidsEasy, -, hne⟩ := hold.ids_nodup hids
  have hid : ex.exampleId ∉ eb.easyExamples.map Example.exampleId := by
    intro hid
    obtain ⟨ex', hex', heq⟩ := List.mem_map.1 hid
    exact hne ex' hex' ex hex heq
  rw [evictAll_eq hidsEasy fun ex hex => hnormal ex (List.mem_append_left _ hex)]
  dsimp only
  rw [Dict.get?_filter, hnormal ex (List.mem_append_right _ hex)]
  simpa using hid

omit [JsonValues V] in
/-- Evicting the easy and the hard examples of an environment from a new one gives its pools. -/
theorem Holds.evictAll_new (hold : eb.Holds exs) (hids : (exs.map Example.exampleId).Nodup) (hnew : new.Holds exs)
    (heasy : new.easyExamples = []) (hhard : new.hardExamples = []) :
    (∀ id, ((new.evictAll .easy eb.easyExamples).evictAll .hard eb.hardExamples).examples.get? id = eb.examples.get? id) ∧
      ((new.evictAll .easy eb.easyExamples).evictAll .hard eb.hardExamples).easyExamples = eb.easyExamples ∧
      ((new.evictAll .easy eb.easyExamples).evictAll .hard eb.hardExamples).hardExamples = eb.hardExamples := by
  obtain ⟨hidsEasy, hidsHard, -⟩ := hold.ids_nodup hids
  have hnormal := hold.normal_in_new hnew heasy hhard
  rw [evictAll_eq hidsHard (hold.hard_normal hids hnormal),
    evictAll_eq hidsEasy fun ex hex => hnormal ex (List.mem_append_left _ hex)]
  · refine ⟨fun id => Option.ext fun ex => ?_, ?_, ?_⟩
    · dsimp only [setTarget]
      rw [Dict.get?_filter, Option.filter_eq_some_iff, Dict.get?_filter, Option.filter_eq_some_iff, decide_eq_true_iff,
        decide_eq_true_iff]
      constructor
      · rintro ⟨⟨hget, hnotEasy⟩, hnotHard⟩
        obtain ⟨hvalue, rfl⟩ := hnew.get?_iff.1 hget
        have hex := hold.members_perm.mem_iff.2 (hnew.members_perm.mem_iff.1
          (List.mem_append_left _ (List.mem_append_left _ hvalue)))
        rw [members, List.mem_append, List.mem_append] at hex
        rcases hex with (hex | hex) | hex
        · exact hold.get?_iff.2 ⟨hex, rfl⟩
        · exact absurd (List.mem_map_of_mem hex) hnotEasy
        · exact absurd (List.mem_map_of_mem hex) hnotHard
      · intro hget
        have hkey : id ∈ eb.examples.keys := Dict.mem_keys_iff.2 ⟨ex, hget⟩
        obtain ⟨hvalue, rfl⟩ := hold.get?_iff.1 hget
        have hex := hold.members_perm.mem_iff.1 (List.mem_append_left _ (List.mem_append_left _ hvalue))
        refine ⟨⟨hnew.normal_of_new heasy hhard hex, fun hid => ?_⟩, fun hid => ?_⟩
        · obtain ⟨ex', hex', heq⟩ := List.mem_map.1 hid
          exact hold.not_mem_keys .easy hids hex' (heq ▸ hkey)
        · obtain ⟨ex', hex', heq⟩ := List.mem_map.1 hid
          exact hold.not_mem_keys .hard hids hex' (heq ▸ hkey)
    · simp [setTarget, target, heasy]
    · simp [setTarget, target, hhard]

end EnvBuffer

namespace Buffer

variable [RolloutOutput R] {buffer : Buffer V R}

omit [RolloutOutput R] in
/-- A saved pool leaves every environment the examples it had in it, in their order. -/
theorem moveSavedPool_ok (pool : Pool) {lookup : Dict String (Dict String Nat)} {saved : List (Example V)}
    (hfinds : ∀ ex ∈ saved, Finds config lookup.entries ex)
    (hids : ∀ name, ((saved.filter fun ex => ex.envName = name).map Example.exampleId).Nodup)
    (hnormal : ∀ ex ∈ saved, ∃ eb, buffer.envBuffers.get? ex.envName = some eb ∧ eb.examples.get? ex.exampleId = some ex) :
    ∃ buffer', moveSavedPool config lookup pool saved buffer = .ok buffer' ∧ buffer'.rolloutBuffer = buffer.rolloutBuffer ∧
      buffer'.envBuffers.keys = buffer.envBuffers.keys ∧ ∀ name eb, buffer.envBuffers.get? name = some eb →
        buffer'.envBuffers.get? name = some (eb.evictAll pool (saved.filter fun ex => ex.envName = name)) := by
  induction saved generalizing buffer with
  | nil => exact ⟨buffer, rfl, rfl, rfl, fun _ _ heb => heb⟩
  | cons ex saved ih =>
      obtain ⟨hash, hhash, ⟨hashes, hmem, hid⟩, hother⟩ := hfinds ex List.mem_cons_self
      obtain ⟨eb, heb, hex⟩ := hnormal ex List.mem_cons_self
      obtain ⟨eb₁, hevict, hexamples⟩ : ∃ eb₁, eb.evict pool ex.exampleId = some eb₁ ∧
          eb₁.examples = eb.examples.erase ex.exampleId := ⟨_, EnvBuffer.evict_of_normal pool hex, rfl⟩
      have hturn : moveSaved config lookup pool buffer ex = .ok (buffer.setEnv ex.envName eb₁) := by
        unfold moveSaved
        rw [if_neg (List.ne_nil_of_mem ((Dict.mem_entries_iff _ _ _).2 heb)), hhash, ok_bind,
          moveExample_eq hmem hid hother lookup.nodup heb hevict]
        rfl
      have hself := hids ex.envName
      rw [List.filter_cons_of_pos (by simp), List.map_cons, List.nodup_cons] at hself
      have hids' : ∀ name, ((saved.filter fun ex => ex.envName = name).map Example.exampleId).Nodup :=
        fun name => (hids name).sublist (((List.sublist_cons_self ex saved).filter _).map _)
      have hnormal' : ∀ ex' ∈ saved, ∃ eb', (buffer.setEnv ex.envName eb₁).envBuffers.get? ex'.envName = some eb' ∧
          eb'.examples.get? ex'.exampleId = some ex' := by
        intro ex' hex'
        obtain ⟨eb', heb', hget⟩ := hnormal ex' (List.mem_cons_of_mem _ hex')
        by_cases hname : ex.envName = ex'.envName
        · refine ⟨eb₁, by rw [setEnv, hname, Dict.get?_insert_self], ?_⟩
          have hne : ex.exampleId ≠ ex'.exampleId := fun heq => hself.1 <| heq ▸ List.mem_map_of_mem
            (List.mem_filter.2 ⟨hex', by simp [hname]⟩)
          rw [hexamples, Dict.get?_erase, if_neg hne]
          cases heb.symm.trans (hname ▸ heb')
          exact hget
        · exact ⟨eb', by rw [setEnv, Dict.get?_insert_ne _ _ hname]; exact heb', hget⟩
      obtain ⟨buffer', hload, hrollouts, hkeys, hpools⟩ := @ih (buffer.setEnv ex.envName eb₁)
        (fun ex' hex' => hfinds ex' (List.mem_cons_of_mem _ hex')) hids' hnormal'
      refine ⟨buffer', ?_, hrollouts, hkeys.trans (Dict.keys_insert_old _ (Dict.mem_keys_iff.2 ⟨eb, heb⟩)), ?_⟩
      · rw [moveSavedPool, List.foldlM_cons, hturn, ok_bind]
        exact hload
      · intro name eb₀ heb₀
        by_cases hname : ex.envName = name
        · subst hname
          cases heb.symm.trans heb₀
          rw [hpools ex.envName eb₁ (Dict.get?_insert_self _ _ _), List.filter_cons_of_pos (by simp)]
          unfold EnvBuffer.evictAll
          rw [List.foldl_cons, hevict, Option.getD_some]
        · rw [hpools name eb₀ ((Dict.get?_insert_ne _ _ hname).trans heb₀), List.filter_cons_of_neg (by simpa using hname)]

omit [JsonValues V] [RolloutOutput R] in
theorem filter_saved {envBuffers : List (String × EnvBuffer V)} {f : EnvBuffer V → List (Example V)}
    (hnodup : (envBuffers.map Prod.fst).Nodup) (hname : ∀ env ∈ envBuffers, ∀ ex ∈ f env.2, ex.envName = env.1)
    (name : String) :
    ((envBuffers.map Prod.snd).flatMap f).filter (fun ex => ex.envName = name) =
      ((Dict.getEntry name envBuffers).map f).getD [] := by
  induction envBuffers with
  | nil => rfl
  | cons env rest ih =>
      obtain ⟨name', eb⟩ := env
      rw [List.map_cons, List.nodup_cons] at hnodup
      rw [List.map_cons, List.flatMap_cons, List.filter_append]
      have hrest : ∀ env' ∈ rest, ∀ ex ∈ f env'.2, ex.envName = env'.1 := fun env' h => hname env' (List.mem_cons_of_mem _ h)
      have hself := hname _ List.mem_cons_self
      by_cases heq : name' = name
      · subst heq
        have hall : (f eb).filter (fun ex => ex.envName = name') = f eb :=
          List.filter_eq_self.2 fun ex hex => by simpa using hself ex hex
        have hnone : ((rest.map Prod.snd).flatMap f).filter (fun ex => ex.envName = name') = [] := by
          rw [List.filter_eq_nil_iff]
          intro ex hex
          obtain ⟨eb', heb', hex⟩ := List.mem_flatMap.1 hex
          obtain ⟨env', henv', rfl⟩ := List.mem_map.1 heb'
          have hne : env'.1 ≠ name' := fun heq => hnodup.1 (List.mem_map.2 ⟨env', henv', heq⟩)
          simpa [hrest env' henv' ex hex] using hne
        rw [hall, hnone, List.append_nil]
        simp [Dict.getEntry]
      · have hnone : (f eb).filter (fun ex => ex.envName = name) = [] := by
          rw [List.filter_eq_nil_iff]
          intro ex hex
          simpa [hself ex hex] using heq
        rw [hnone, List.nil_append, ih hnodup.2 hrest]
        simp [Dict.getEntry, heq]

/-- The pools of `buffer` are those of `loaded`, the pending rollouts too. -/
structure Restores (buffer loaded : Buffer V R) : Prop where
  keys : loaded.envBuffers.keys = buffer.envBuffers.keys
  pools : ∀ name eb, buffer.envBuffers.get? name = some eb → ∃ eb', loaded.envBuffers.get? name = some eb' ∧
    (∀ id, eb'.examples.get? id = eb.examples.get? id) ∧ eb'.easyExamples = eb.easyExamples ∧
      eb'.hardExamples = eb.hardExamples
  rollouts : loaded.rolloutBuffer = buffer.rolloutBuffer

variable {new : Buffer V R}

omit [JsonValues V] [RolloutOutput R] in
/-- A new buffer has no rollouts, and its environments no easy or hard examples. -/
theorem init_empty (h : Buffer.init envs = .ok new) : new.rolloutBuffer = [] ∧
    ∀ name eb, new.envBuffers.get? name = some eb → eb.easyExamples = [] ∧ eb.hardExamples = [] := by
  obtain ⟨envBuffers, hinit, h⟩ := bind_eq_ok.1 h
  cases h
  refine ⟨rfl, fun name eb heb => ?_⟩
  obtain ⟨hkeys, hget⟩ := init_env hinit
  obtain ⟨dataset, hdataset⟩ := Dict.mem_keys_iff.1 (hkeys ▸ Dict.mem_keys_iff.2 ⟨eb, heb⟩)
  obtain ⟨eb', hinit', heb'⟩ := hget name dataset hdataset
  cases heb.symm.trans heb'
  obtain ⟨_, -, h⟩ := bind_eq_ok.1 hinit'
  obtain ⟨_, -, h⟩ := bind_eq_ok.1 h
  cases h
  exact ⟨rfl, rfl⟩

omit [JsonValues V] [RolloutOutput R] in
/-- With no fraction to convert, the last loop of `load` changes nothing. -/
theorem convertEnvs_zero [DecidableEq V] {draws : String → Pool → Nat → Nat} (heasy : config.easyFraction = 0)
    (hhard : config.hardFraction = 0) {l : List (String × EnvBuffer V)}
    (hget : ∀ env ∈ l, buffer.envBuffers.get? env.1 = some env.2) :
    l.foldlM (convertEnv config draws) buffer = .ok buffer := by
  have hturn : ∀ env ∈ l, convertEnv config draws buffer env = .ok buffer := by
    intro env henv
    have hzero : ∀ pool (eb : EnvBuffer V) draws, eb.convertToNormal pool 0 draws = .ok eb :=
      fun pool eb draws => if_pos (.inl le_rfl)
    unfold convertEnv
    rw [heasy, hhard, hzero, ok_bind, hzero, ok_bind]
    exact congrArg (fun envBuffers => Except.ok (Buffer.mk envBuffers buffer.rolloutBuffer))
      (Dict.insert_of_get? (hget env henv))
  induction l with
  | nil => rfl
  | cons env l ih =>
      rw [List.foldlM_cons, hturn env List.mem_cons_self, ok_bind]
      exact ih (fun env' h => hget env' (List.mem_cons_of_mem _ h)) fun env' h => hturn env' (List.mem_cons_of_mem _ h)

/-- What a buffer saves of a pool. -/
def saved (pool : Pool) (buffer : Buffer V R) : List (Example V) := buffer.envBuffers.values.flatMap (EnvBuffer.target pool)

omit [JsonValues V] in
theorem Holds.saved_mem {pool : Pool} {ex : Example V} (hold : buffer.Holds envs) (hex : ex ∈ buffer.saved pool) :
    ∃ dataset eb, envs.get? ex.envName = some dataset ∧ buffer.envBuffers.get? ex.envName = some eb ∧
      ex ∈ eb.target pool ∧ ex ∈ dataset.examples ex.envName := by
  obtain ⟨eb, heb, hex⟩ := List.mem_flatMap.1 hex
  obtain ⟨name, heb⟩ := Dict.mem_values_iff.1 heb
  obtain ⟨dataset, hdataset⟩ := Dict.mem_keys_iff.1 (hold.keys ▸ Dict.mem_keys_iff.2 ⟨eb, heb⟩)
  have hmem := (hold.pools name dataset eb hdataset heb).target_mem hex
  obtain rfl := Dataset.envName_of_mem hmem
  exact ⟨dataset, eb, hdataset, heb, hex, hmem⟩

omit [JsonValues V] in
theorem Holds.filter_saved (pool : Pool) {name : String} {eb : EnvBuffer V} (hold : buffer.Holds envs)
    (heb : buffer.envBuffers.get? name = some eb) :
    (buffer.saved pool).filter (fun ex => ex.envName = name) = eb.target pool := by
  have hname : ∀ env ∈ buffer.envBuffers.entries, ∀ ex ∈ env.2.target pool, ex.envName = env.1 := by
    intro env henv ex hex
    have heb := (Dict.mem_entries_iff _ env.1 env.2).1 henv
    obtain ⟨dataset, hdataset⟩ := Dict.mem_keys_iff.1 (hold.keys ▸ Dict.mem_keys_iff.2 ⟨env.2, heb⟩)
    exact Dataset.envName_of_mem ((hold.pools env.1 dataset env.2 hdataset heb).target_mem hex)
  have h := Buffer.filter_saved buffer.envBuffers.nodup hname name
  have heb' : Dict.getEntry name buffer.envBuffers.entries = some eb := heb
  rw [heb'] at h
  exact h

/-- Moving a saved pool in the environments that have its examples as normal ones. -/
theorem moveSavedPool_saved (config : BufferConfig) (new : Buffer V R) (pool : Pool)
    {lookup : Dict String (Dict String Nat)} (hids : IdsDistinct envs)
    (hold : buffer.Holds envs) (hfinds : ∀ ex ∈ buffer.saved pool, Finds config lookup.entries ex)
    (hnormal : ∀ name eb, buffer.envBuffers.get? name = some eb → ∃ eb', new.envBuffers.get? name = some eb' ∧
      ∀ ex ∈ eb.target pool, eb'.examples.get? ex.exampleId = some ex) :
    ∃ new', moveSavedPool config lookup pool (buffer.saved pool) new = .ok new' ∧ new'.rolloutBuffer = new.rolloutBuffer ∧
      new'.envBuffers.keys = new.envBuffers.keys ∧ ∀ name eb eb', buffer.envBuffers.get? name = some eb →
        new.envBuffers.get? name = some eb' → new'.envBuffers.get? name = some (eb'.evictAll pool (eb.target pool)) := by
  have hnormal' : ∀ ex ∈ buffer.saved pool, ∃ eb', new.envBuffers.get? ex.envName = some eb' ∧
      eb'.examples.get? ex.exampleId = some ex := by
    intro ex hex
    obtain ⟨-, eb, -, heb, hex, -⟩ := hold.saved_mem hex
    obtain ⟨eb', heb', hget⟩ := hnormal _ eb heb
    exact ⟨eb', heb', hget ex hex⟩
  have hids' : ∀ name, (((buffer.saved pool).filter fun ex => ex.envName = name).map Example.exampleId).Nodup := by
    intro name
    cases heb : buffer.envBuffers.get? name with
    | none =>
        have hnil : (buffer.saved pool).filter (fun ex => ex.envName = name) = [] := by
          rw [List.filter_eq_nil_iff]
          intro ex hex hname
          obtain ⟨-, eb, -, heb', -⟩ := hold.saved_mem hex
          rw [of_decide_eq_true hname, heb] at heb'
          cases heb'
        rw [hnil]
        exact List.nodup_nil
    | some eb =>
        obtain ⟨dataset, hdataset⟩ := Dict.mem_keys_iff.1 (hold.keys ▸ Dict.mem_keys_iff.2 ⟨eb, heb⟩)
        rw [hold.filter_saved pool heb]
        exact (hold.pools name dataset eb hdataset heb).target_ids (hids name dataset hdataset)
  obtain ⟨new', hmove, hrollouts, hkeys, hpools⟩ := moveSavedPool_ok pool hfinds hids' hnormal'
  refine ⟨new', hmove, hrollouts, hkeys, fun name eb eb' heb heb' => ?_⟩
  rw [hpools name eb' heb', hold.filter_saved pool heb]

/-- A buffer that holds the examples of its environments comes back from what it saves. -/
theorem load_save [DecidableEq V] (hids : IdsDistinct envs) (hash : HashesDistinct config envs)
    (hold : buffer.Holds envs) (hinit : Buffer.init envs = .ok new) (heasy : config.easyFraction = 0)
    (hhard : config.hardFraction = 0) (draws : String → Pool → Nat → Nat) :
    ∃ loaded, new.load config draws buffer.save = .ok loaded ∧ Restores buffer loaded := by
  have hnew := Holds.init hids hinit
  obtain ⟨hrollouts, hempty⟩ := init_empty hinit
  obtain ⟨lookup, hlookup, hfinds⟩ := hashLookup_finds hash hnew
  -- The environments of the two buffers, side by side.
  have hpair : ∀ name eb, buffer.envBuffers.get? name = some eb → ∃ dataset eb', envs.get? name = some dataset ∧
      new.envBuffers.get? name = some eb' ∧ eb.Holds (dataset.examples name) ∧ eb'.Holds (dataset.examples name) ∧
      eb'.easyExamples = [] ∧ eb'.hardExamples = [] := by
    intro name eb heb
    obtain ⟨dataset, hdataset⟩ := Dict.mem_keys_iff.1 (hold.keys ▸ Dict.mem_keys_iff.2 ⟨eb, heb⟩)
    obtain ⟨eb', heb'⟩ := Dict.mem_keys_iff.1 (hnew.keys.symm ▸ Dict.mem_keys_iff.2 ⟨dataset, hdataset⟩)
    exact ⟨dataset, eb', hdataset, heb', hold.pools _ _ _ hdataset heb, hnew.pools _ _ _ hdataset heb', hempty name eb' heb'⟩
  have hfinds' : ∀ pool, ∀ ex ∈ buffer.saved pool, Finds config lookup.entries ex := by
    intro pool ex hex
    obtain ⟨-, eb, -, heb, hmem, -⟩ := hold.saved_mem hex
    obtain ⟨dataset, eb', hdataset, heb', holdEnv, hnewEnv, hnoEasy, hnoHard⟩ := hpair _ eb heb
    exact hfinds _ eb' _ ex heb' (hnewEnv.normal_of_new hnoEasy hnoHard (holdEnv.target_mem hmem))
  unfold load
  split_ifs with hnothing
  · -- Nothing was saved, so the new buffer stays.
    obtain ⟨hnoEasy, hnoHard, hnoRollouts⟩ := hnothing
    refine ⟨new, rfl, hnew.keys.trans hold.keys.symm, fun name eb heb => ?_, hrollouts.trans hnoRollouts.symm⟩
    obtain ⟨dataset, eb', hdataset, heb', holdEnv, hnewEnv, heasyEnv, hhardEnv⟩ := hpair name eb heb
    have hnil : eb.easyExamples = [] ∧ eb.hardExamples = [] := by
      constructor
      · exact (hold.filter_saved .easy heb).symm.trans (congrArg (List.filter _) hnoEasy)
      · exact (hold.filter_saved .hard heb).symm.trans (congrArg (List.filter _) hnoHard)
    have hpools := holdEnv.evictAll_new (hids name dataset hdataset) hnewEnv heasyEnv hhardEnv
    rw [hnil.1, hnil.2] at hpools
    exact ⟨eb', heb', hpools.1, heasyEnv.trans hnil.1.symm, hhardEnv.trans hnil.2.symm⟩
  · obtain ⟨new₁, hmove₁, hrollouts₁, hkeys₁, hpools₁⟩ := moveSavedPool_saved config new .easy
      hids hold (hfinds' .easy) fun name eb heb => by
        obtain ⟨dataset, eb', hdataset, heb', holdEnv, hnewEnv, heasyEnv, hhardEnv⟩ := hpair name eb heb
        exact ⟨eb', heb', fun ex hex => hnewEnv.normal_of_new heasyEnv hhardEnv (holdEnv.target_mem hex)⟩
    obtain ⟨new₂, hmove₂, hrollouts₂, hkeys₂, hpools₂⟩ := moveSavedPool_saved config new₁ .hard
      hids hold (hfinds' .hard) fun name eb heb => by
        obtain ⟨dataset, eb', hdataset, heb', holdEnv, hnewEnv, heasyEnv, hhardEnv⟩ := hpair name eb heb
        exact ⟨_, hpools₁ name eb eb' heb heb', holdEnv.hard_normal (hids name dataset hdataset)
          (holdEnv.normal_in_new hnewEnv heasyEnv hhardEnv)⟩
    have hvalid : (buffer.save.rolloutBuffer.filter fun r => (RolloutOutput.exampleKey r).1 ∈ new₂.envBuffers.keys) =
        buffer.rolloutBuffer := by
      refine List.filter_eq_self.2 fun r hr => decide_eq_true ?_
      rw [hkeys₂, hkeys₁, hnew.keys]
      exact hold.rollouts r hr
    refine ⟨{ new₂ with rolloutBuffer := buffer.rolloutBuffer }, ?_, ?_, fun name eb heb => ?_, rfl⟩
    · rw [hlookup, ok_bind]
      show (moveSavedPool config lookup .easy (buffer.saved .easy) new >>= _) = _
      rw [hmove₁, ok_bind]
      show (moveSavedPool config lookup .hard (buffer.saved .hard) new₁ >>= _) = _
      rw [hmove₂, ok_bind]
      show List.foldlM (convertEnv config draws) { new₂ with rolloutBuffer := new₂.rolloutBuffer ++ List.filter _ _ } _ = _
      rw [hvalid, hrollouts₂, hrollouts₁, hrollouts, List.nil_append]
      exact convertEnvs_zero heasy hhard fun env henv => (Dict.mem_entries_iff _ _ _).1 henv
    · exact hkeys₂.trans (hkeys₁.trans (hnew.keys.trans hold.keys.symm))
    · obtain ⟨dataset, eb', hdataset, heb', holdEnv, hnewEnv, heasyEnv, hhardEnv⟩ := hpair name eb heb
      exact ⟨_, hpools₂ name eb _ heb (hpools₁ name eb eb' heb heb'),
        holdEnv.evictAll_new (hids name dataset hdataset) hnewEnv heasyEnv hhardEnv⟩

end Buffer

/-! ## Converting examples back -/

theorem pyRound_le {q : ℚ} {n : Nat} (h : q ≤ n) : pyRound q ≤ n := by
  have hfloor : ⌊q⌋ ≤ (n : Int) := by
    have := (Int.floor_le q).trans h
    exact_mod_cast this
  rcases hfloor.lt_or_eq with hlt | heq
  · unfold pyRound
    split_ifs <;> omega
  · have hfloor_le := Int.floor_le q
    have hq : q = ⌊q⌋ := le_antisymm (h.trans (by rw [heq]; norm_num)) hfloor_le
    have hzero : q - ⌊q⌋ < 1 / 2 := by
      rw [sub_eq_zero.2 hq]
      norm_num
    rw [pyRound, if_pos hzero]
    exact hfloor

namespace EnvBuffer

omit [JsonValues V] in
theorem target_setTarget {examples : Dict Nat (Example V)} {l : List (Example V)} {eb : EnvBuffer V} {pool : Pool} :
    target pool { eb.setTarget pool l with examples := examples } = l := by
  unfold target setTarget
  split_ifs <;> rfl

omit [JsonValues V] in
/-- The turns find an example each: as many leave the pool as the fraction says. -/
theorem convertToNormal_ok [DecidableEq V] (eb : EnvBuffer V) (pool : Pool) {fraction : ℚ} (hle : fraction ≤ 1)
    (draws : Nat → Nat) :
    ∃ eb', eb.convertToNormal pool fraction draws = .ok eb' ∧
      (eb'.target pool).length = (eb.target pool).length - (pyRound ((eb.target pool).length * fraction)).toNat := by
  have hlen : (0 : ℚ) ≤ (eb.target pool).length := Nat.cast_nonneg _
  unfold convertToNormal
  split_ifs with hnone
  · refine ⟨eb, rfl, ?_⟩
    rcases hnone with hfraction | hempty
    · have hround : pyRound ((eb.target pool).length * fraction) ≤ ((0 : Nat) : Int) :=
        pyRound_le (by rw [Nat.cast_zero]; exact mul_nonpos_of_nonneg_of_nonpos hlen hfraction)
      omega
    · rw [hempty, List.length_nil, Nat.zero_sub]
  · dsimp only
    split_ifs with hmove
    · exact ⟨eb, rfl, by omega⟩
    · have hround : pyRound ((eb.target pool).length * fraction) ≤ ((eb.target pool).length : Int) :=
        pyRound_le (mul_le_of_le_one_right hlen hle)
      have hturns : ∀ (l : List Nat) (eb : EnvBuffer V), l.length ≤ (eb.target pool).length →
          ∃ eb', l.foldlM (convertOne pool) eb = .ok eb' ∧ (eb'.target pool).length = (eb.target pool).length - l.length := by
        intro l
        induction l with
        | nil => exact fun eb _ => ⟨eb, rfl, rfl⟩
        | cons draw l ih =>
            intro eb hl
            rw [List.length_cons] at hl
            obtain ⟨ex, hex⟩ := randomChoice_ok draw (l := eb.target pool) (by intro h; rw [h] at hl; simp at hl)
            have herase := List.length_erase_of_mem (randomChoice_mem hex)
            obtain ⟨eb', heb', hlength⟩ := ih { eb.setTarget pool ((eb.target pool).erase ex) with
              examples := eb.examples.insert ex.exampleId ex } (by rw [target_setTarget]; omega)
            refine ⟨eb', ?_, ?_⟩
            · rw [List.foldlM_cons, convertOne, hex, ok_bind]
              exact heb'
            · rw [hlength, target_setTarget, List.length_cons]
              omega
      obtain ⟨eb', heb', hlength⟩ := hturns
        ((List.range (pyRound ((eb.target pool).length * fraction)).toNat).map draws) eb (by
          rw [List.length_map, List.length_range]
          omega)
      refine ⟨eb', heb', ?_⟩
      rw [hlength, List.length_map, List.length_range]

end EnvBuffer

namespace Buffer

variable [RolloutOutput R] {buffer : Buffer V R}

theorem moveSavedPool_total (pool : Pool) (lookup : Dict String (Dict String Nat)) {saved : List (Example V)}
    (hne : envs.keys ≠ [])
    (hold : buffer.Holds envs) (hsaved : ∀ ex ∈ saved, ∃ hash, getExampleHash config ex = .ok hash) :
    ∃ buffer', moveSavedPool config lookup pool saved buffer = .ok buffer' ∧ buffer'.Holds envs := by
  refine foldlM_total (P := Buffer.Holds envs) (fun ex hex s hs => ?_) hold
  obtain ⟨hash, hhash⟩ := hsaved ex hex
  have hentries : s.envBuffers.entries ≠ [] := fun h => hne (hs.keys.symm.trans (congrArg (List.map Prod.fst) h))
  refine ⟨moveExample pool hash lookup.entries s, ?_, hs.moveExample⟩
  rw [moveSaved, if_neg hentries, hhash, ok_bind]
  rfl

omit [JsonValues V] [RolloutOutput R] in
theorem convertEnvs_total [DecidableEq V] {draws : String → Pool → Nat → Nat} (l : List (String × EnvBuffer V)) :
    ∃ buffer', l.foldlM (convertEnv config draws) buffer = .ok buffer' := by
  obtain ⟨buffer', hbuffer', -⟩ := foldlM_total (P := fun _ : Buffer V R => True) (l := l) (f := convertEnv config draws)
    (s := buffer) (fun env _ s _ => by
      obtain ⟨eb₁, h₁, -⟩ := EnvBuffer.convertToNormal_ok env.2 .easy config.easyFraction_bounds.2
        (draws env.1 .easy)
      obtain ⟨eb₂, h₂, -⟩ := EnvBuffer.convertToNormal_ok eb₁ .hard config.hardFraction_bounds.2
        (draws env.1 .hard)
      refine ⟨s.setEnv env.1 eb₂, ?_, trivial⟩
      rw [convertEnv, h₁, ok_bind, h₂, ok_bind]
      rfl) trivial
  exact ⟨buffer', hbuffer'⟩

/-- Loading raises nothing when every example has a hash. -/
theorem load_ok [DecidableEq V] {draws : String → Pool → Nat → Nat} {checkpoint : BufferCheckpoint V R}
    (hids : IdsDistinct envs)
    (hne : envs.keys ≠ []) (hold : buffer.Holds envs) (hashed : Hashable config envs)
    (hsaved : ∀ ex ∈ checkpoint.easyExamples ++ checkpoint.hardExamples, ∃ hash, getExampleHash config ex = .ok hash) :
    ∃ buffer', buffer.load config draws checkpoint = .ok buffer' ∧ buffer'.Holds envs := by
  have hload : ∃ buffer', buffer.load config draws checkpoint = .ok buffer' := by
    unfold load
    split_ifs
    · exact ⟨buffer, rfl⟩
    · obtain ⟨lookup, hlookup, -⟩ := hashLookup_ok hashed hold
      obtain ⟨buffer₁, h₁, hold₁⟩ := moveSavedPool_total .easy lookup hne hold
        fun ex hex => hsaved ex (List.mem_append_left _ hex)
      obtain ⟨buffer₂, h₂, -⟩ := moveSavedPool_total .hard lookup hne hold₁
        fun ex hex => hsaved ex (List.mem_append_right _ hex)
      rw [hlookup, ok_bind, h₁, ok_bind, h₂, ok_bind]
      exact convertEnvs_total _
  obtain ⟨buffer', hbuffer'⟩ := hload
  exact ⟨buffer', hbuffer', hold.load hids hbuffer'⟩

end Buffer

/-! ## Runs -/

section Ids

omit [JsonValues V]

/-- Where a dataset has ids of its own, they differ. -/
def OwnIdsDistinct (envs : Dict String (Dataset V)) : Prop :=
  ∀ name dataset, envs.get? name = some dataset → "example_id" ∈ dataset.columnNames → (dataset.rows.map Prod.fst).Nodup

/-- The ids of the examples are the dataset's own, or their places in it. -/
theorem Dataset.ids_examples (name : String) (dataset : Dataset V) : (dataset.examples name).map Example.exampleId =
    if "example_id" ∈ dataset.columnNames then dataset.rows.map Prod.fst else dataset.rows.zipIdx.map Prod.snd := by
  rw [Dataset.examples, List.map_map]
  split_ifs with hown
  · have hrows : dataset.rows.zipIdx.map (fun row => row.1.1) = dataset.rows.map Prod.fst := by
      rw [← List.zipIdx_map_fst 0 dataset.rows, List.map_map, List.zipIdx_map_fst]
      rfl
    exact hrows
  · rfl

theorem idsDistinct_iff : IdsDistinct envs ↔ OwnIdsDistinct envs := by
  constructor
  · intro h name dataset hdataset hown
    have hids := h name dataset hdataset
    rwa [Dataset.ids_examples, if_pos hown] at hids
  · intro h name dataset hdataset
    rw [Dataset.ids_examples]
    split_ifs with hown
    · exact h name dataset hdataset hown
    · exact List.nodup_zipIdx_map_snd dataset.rows

theorem OwnIdsDistinct.ids (h : OwnIdsDistinct envs) : IdsDistinct envs := idsDistinct_iff.2 h

/-- Every example of a dataset is in exactly one pool of its environment, once. -/
def Partitioned (envs : Dict String (Dataset V)) (buffer : Buffer V R) : Prop :=
  ∀ name dataset, envs.get? name = some dataset → ∃ eb, buffer.envBuffers.get? name = some eb ∧
    (∀ ex ∈ dataset.examples name, ∃! pool, ex ∈ eb.pool pool) ∧ eb.members.Perm (dataset.examples name)

theorem Buffer.Holds.partitioned [RolloutOutput R] {buffer : Buffer V R} (hids : IdsDistinct envs)
    (hold : buffer.Holds envs) :
    Partitioned envs buffer := by
  intro name dataset hdataset
  obtain ⟨eb, heb⟩ := Dict.mem_keys_iff.1 (hold.keys.symm ▸ Dict.mem_keys_iff.2 ⟨dataset, hdataset⟩)
  have hpools := hold.pools name dataset eb hdataset heb
  exact ⟨eb, heb, fun ex hex => hpools.existsUnique_pool (hids name dataset hdataset) hex, hpools.members_perm⟩

/-- The examples of a new environment are under their ids. -/
theorem EnvBuffer.ids_init {name : String} {dataset : Dataset V} {eb : EnvBuffer V}
    (h : EnvBuffer.init name dataset = .ok eb) :
    eb.members.map Example.exampleId = eb.examples.keys := by
  obtain ⟨_, -, h⟩ := bind_eq_ok.1 h
  obtain ⟨_, -, h⟩ := bind_eq_ok.1 h
  cases h
  rw [EnvBuffer.members, List.append_nil, List.append_nil, Dict.values, List.map_map]
  refine List.map_congr_left fun entry hentry => ?_
  obtain ⟨id, ex⟩ := entry
  rcases Dict.get?_insertAll_eq_some ((Dict.mem_entries_iff _ _ _).1 hentry) with hmem | hempty
  · obtain ⟨ex', -, heq⟩ := List.mem_map.1 hmem
    cases heq
    rfl
  · cases hempty

/-- A new buffer that has every example has them under different ids. -/
theorem Partitioned.ids {start : Buffer V R} (hinit : Buffer.init envs = .ok start) (h : Partitioned envs start) :
    IdsDistinct envs := by
  intro name dataset hdataset
  obtain ⟨eb, heb, -, hperm⟩ := h name dataset hdataset
  obtain ⟨envBuffers, henvs, hstart⟩ := bind_eq_ok.1 hinit
  cases hstart
  obtain ⟨eb', hnew, heb'⟩ := (Buffer.init_env henvs).2 name dataset hdataset
  cases heb.symm.trans heb'
  refine (hperm.map Example.exampleId).nodup_iff.1 ?_
  rw [EnvBuffer.ids_init hnew]
  exact eb.examples.nodup

end Ids

/-- **Main.** Along every run the pools partition the datasets, and what is saved comes back in a new buffer that converts
nothing. -/
theorem partition_and_resume [DecidableEq V] [RewardedRollout R] {buffer : Buffer V R} (hown : OwnIdsDistinct envs)
    (h : (bufferSystem config envs).Reachable buffer) :
    Partitioned envs buffer ∧ ∀ resume : BufferConfig, HashesDistinct resume envs → resume.easyFraction = 0 →
      resume.hardFraction = 0 → ∀ draws new, Buffer.init envs = .ok new →
        ∃ loaded, new.load resume draws buffer.save = .ok loaded ∧ Buffer.Restores buffer loaded := by
  have hold := Buffer.holds_of_reachable hown.ids h
  refine ⟨hold.partitioned hown.ids, fun resume hash heasy hhard draws new hinit => ?_⟩
  exact Buffer.load_save hown.ids hash hold hinit heasy hhard draws

/-- **Main.** The pools of every buffer of every run partition the datasets exactly if no dataset repeats an id of its own;
then what is saved comes back in a new buffer whose hash keys tell the examples apart and which converts nothing. -/
theorem poolPartition_iff [DecidableEq V] [RewardedRollout R] {start : Buffer V R} (hinit : Buffer.init envs = .ok start) :
    ((∀ buffer : Buffer V R, (bufferSystem config envs).Reachable buffer → Partitioned envs buffer) ↔ OwnIdsDistinct envs) ∧
    (OwnIdsDistinct envs → ∀ buffer : Buffer V R, (bufferSystem config envs).Reachable buffer → ∀ resume : BufferConfig,
      HashesDistinct resume envs → resume.easyFraction = 0 → resume.hardFraction = 0 → ∀ draws,
        ∃ loaded, start.load resume draws buffer.save = .ok loaded ∧ Buffer.Restores buffer loaded) := by
  refine ⟨⟨fun h => ?_, fun hown buffer hbuffer => ?_⟩, fun hown buffer hbuffer resume hash heasy hhard draws => ?_⟩
  · exact idsDistinct_iff.1 ((h start (System.Reachable.of_init hinit)).ids hinit)
  · exact (Buffer.holds_of_reachable hown.ids hbuffer).partitioned hown.ids
  · exact Buffer.load_save hown.ids hash (Buffer.holds_of_reachable hown.ids hbuffer) hinit heasy hhard draws

/-- **Main.** Along every run, sampling raises exactly when no environment has a normal example left;
otherwise each draw gives an example that is in neither the easy nor the hard pool. -/
theorem sample_examples_normal [DecidableEq V] [RewardedRollout R] {buffer : Buffer V R} (hown : OwnIdsDistinct envs)
    (h : (bufferSystem config envs).Reachable buffer) (draws : List (Nat × Nat)) :
    ((∀ name eb, buffer.envBuffers.get? name = some eb → eb.examples.entries = []) ∧
      buffer.sampleExamples draws = .error ⟨.valueError, "No environments left with examples."⟩) ∨
    ((∃ name eb, buffer.envBuffers.get? name = some eb ∧ eb.examples.entries ≠ []) ∧
      ∃ exs, buffer.sampleExamples draws = .ok exs ∧ exs.length = draws.length ∧ ∀ ex ∈ exs, Buffer.Normal envs buffer ex) :=
  Buffer.sampleExamples_spec hown.ids (Buffer.holds_of_reachable hown.ids h) draws

/-- **Main.** Along every run, loading a checkpoint of any datasets whose examples have hashes
succeeds, whatever the fractions, and leaves a partition. -/
theorem load_any_checkpoint [DecidableEq V] [RewardedRollout R] {buffer : Buffer V R} {checkpoint : BufferCheckpoint V R}
    (hown : OwnIdsDistinct envs) (hne : envs.keys ≠ []) (hashed : Hashable config envs)
    (hsaved : ∀ ex ∈ checkpoint.easyExamples ++ checkpoint.hardExamples, ∃ hash, getExampleHash config ex = .ok hash)
    (h : (bufferSystem config envs).Reachable buffer) (draws : String → Pool → Nat → Nat) :
    ∃ buffer', buffer.load config draws checkpoint = .ok buffer' ∧ Partitioned envs buffer' := by
  obtain ⟨buffer', hload, hold⟩ := Buffer.load_ok hown.ids hne (Buffer.holds_of_reachable hown.ids h) hashed hsaved
  exact ⟨buffer', hload, hold.partitioned hown.ids⟩

/-! ### Two rows with one id -/

structure ScoredRollout where
  envName : String
  exampleId : Nat
  reward : ℚ

instance : RewardedRollout ScoredRollout where
  error _ := false
  trajectoryLength _ := 1
  seqLen _ := 1
  setEnvName name r := { r with envName := name }
  exampleKey r := (r.envName, r.exampleId)
  extremeReward rollouts := (rollouts.map ScoredRollout.reward).sum / rollouts.length = 0 ∨
    (rollouts.map ScoredRollout.reward).sum / rollouts.length = 1
  request _ := 0
  request_setEnvName _ _ := rfl
  avgReward rollouts := (rollouts.map ScoredRollout.reward).sum / rollouts.length
  extremeReward_iff _ := decide_eq_true_iff

instance : JsonValues String where
  int n := toString n
  str := id
  digest := String.join

theorem zero_bounds : (0 : ℚ) ≤ 0 ∧ (0 : ℚ) ≤ 1 := ⟨le_rfl, zero_le_one⟩

/-- Solved examples are easy. -/
def promptConfig : BufferConfig where
  easyThreshold := some 1
  hardThreshold := none
  easyFraction := 0
  hardFraction := 0
  onlineDifficultyFiltering := false
  hashKeys := ["prompt"]
  easyFraction_bounds := zero_bounds
  hardFraction_bounds := zero_bounds

def mathEnvs (ids : Nat × Nat) : Dict String (Dataset String) :=
  ⟨[("math", ⟨["example_id", "prompt"],
    [(ids.1, ⟨[("prompt", "1 + 1")], List.nodup_singleton _⟩), (ids.2, ⟨[("prompt", "2 + 2")], List.nodup_singleton _⟩)]⟩)],
    List.nodup_singleton _⟩

/-- The buffer once the first example is solved. -/
def solvedBuffer : Buffer String ScoredRollout where
  envBuffers := ⟨[("math", ⟨⟨[(1, ⟨1, "math", ⟨[("prompt", "2 + 2")], List.nodup_singleton _⟩⟩)], List.nodup_singleton _⟩,
    [⟨0, "math", ⟨[("prompt", "1 + 1")], List.nodup_singleton _⟩⟩], []⟩)], List.nodup_singleton _⟩
  rolloutBuffer := [⟨"math", 0, 1⟩]

theorem poolOf_solved : EnvBuffer.poolOf promptConfig
    (RewardedRollout.avgReward [(⟨"math", 0, 1⟩ : ScoredRollout)]) = .easy := by
  have havg : RewardedRollout.avgReward [(⟨"math", 0, 1⟩ : ScoredRollout)] = 1 := by
    show ([1].sum / ((1 : Nat) : ℚ) : ℚ) = 1
    norm_num
  rw [havg, EnvBuffer.poolOf, if_pos]
  simp [promptConfig]

/-- The buffer before that. -/
def unsolvedBuffer : Buffer String ScoredRollout where
  envBuffers := ⟨[("math", ⟨⟨[(0, ⟨0, "math", ⟨[("prompt", "1 + 1")], List.nodup_singleton _⟩⟩),
    (1, ⟨1, "math", ⟨[("prompt", "2 + 2")], List.nodup_singleton _⟩⟩)], List.nodup_range (n := 2)⟩, [], []⟩)],
      List.nodup_singleton _⟩
  rolloutBuffer := []

theorem unsolvedBuffer_init : Buffer.init (mathEnvs (0, 1)) = .ok unsolvedBuffer := rfl

theorem solvedBuffer_update : unsolvedBuffer.update promptConfig [⟨"math", 0, 1⟩] = .ok solvedBuffer := by
  show (Buffer.updateGroup promptConfig _ (("math", 0), [⟨"math", 0, 1⟩]) >>= pure) = Except.ok solvedBuffer
  unfold Buffer.updateGroup
  show (if _ then _ else _) >>= pure = _
  simp only [EnvBuffer.updatePools, poolOf_solved]
  rfl

theorem solvedBuffer_reachable : (bufferSystem promptConfig (mathEnvs (0, 1))).Reachable solvedBuffer :=
  (System.Reachable.of_init unsolvedBuffer_init).step (l := .update [⟨"math", 0, 1⟩]) solvedBuffer_update

theorem mathEnvs_hashesDistinct (ids : Nat × Nat) : HashesDistinct promptConfig (mathEnvs ids) := by
  have hexamples : (mathEnvs ids).entries.flatMap (fun env => env.2.examples env.1) =
      [⟨ids.1, "math", ⟨[("prompt", "1 + 1")], List.nodup_singleton _⟩⟩,
        ⟨ids.2, "math", ⟨[("prompt", "2 + 2")], List.nodup_singleton _⟩⟩] := rfl
  refine ⟨fun name dataset hdataset ex hex => ?_, ?_⟩
  · have hmem : ex ∈ (mathEnvs ids).entries.flatMap (fun env => env.2.examples env.1) :=
      List.mem_flatMap.2 ⟨_, (Dict.mem_entries_iff _ _ _).2 hdataset, hex⟩
    rw [hexamples, List.mem_cons, List.mem_singleton] at hmem
    rcases hmem with rfl | rfl
    · exact ⟨_, rfl⟩
    · exact ⟨_, rfl⟩
  · rw [hexamples]
    show [Except.ok "1 + 1", Except.ok "2 + 2"].Nodup
    simp

theorem mathEnvs_ownIds : OwnIdsDistinct (mathEnvs (0, 1)) := by
  intro name dataset hdataset _
  have hmem := (Dict.mem_entries_iff _ _ _).2 hdataset
  cases List.mem_singleton.1 hmem
  decide

/-- The first of two rows with one id is in no pool. -/
theorem not_partitioned_of_repeated_id : HashesDistinct promptConfig (mathEnvs (0, 0)) ∧
    ∃ buffer : Buffer String ScoredRollout, (bufferSystem promptConfig (mathEnvs (0, 0))).Reachable buffer ∧
      ¬ Partitioned (mathEnvs (0, 0)) buffer := by
  refine ⟨mathEnvs_hashesDistinct _, _, System.Reachable.of_init rfl, fun h => ?_⟩
  obtain ⟨eb, heb, hpools, -⟩ := h "math" _ rfl
  cases heb
  obtain ⟨pool, hpool, -⟩ := hpools ⟨0, "math", ⟨[("prompt", "1 + 1")], List.nodup_singleton _⟩⟩ List.mem_cons_self
  cases pool with
  | easy => cases hpool
  | normal => exact absurd hpool (by decide)
  | hard => cases hpool

/-- A solved example comes back easy. -/
theorem partition_and_resume_example : Partitioned (mathEnvs (0, 1)) solvedBuffer ∧
    ∃ new loaded : Buffer String ScoredRollout, Buffer.init (mathEnvs (0, 1)) = .ok new ∧
      new.load promptConfig (fun _ _ _ => 0) solvedBuffer.save = .ok loaded ∧ Buffer.Restores solvedBuffer loaded := by
  obtain ⟨hpartitioned, hresume⟩ := partition_and_resume mathEnvs_ownIds solvedBuffer_reachable
  obtain ⟨loaded, hload, hrestores⟩ := hresume promptConfig (mathEnvs_hashesDistinct _) rfl rfl (fun _ _ _ => 0) _ rfl
  exact ⟨hpartitioned, _, loaded, rfl, hload, hrestores⟩

/-- A solved example is in the easy pool only, and easy again in the buffer that is loaded. -/
theorem poolPartition_iff_solved : Partitioned (mathEnvs (0, 1)) solvedBuffer ∧ ∃ loaded : Buffer String ScoredRollout,
    unsolvedBuffer.load promptConfig (fun _ _ _ => 0) solvedBuffer.save = .ok loaded ∧
    Buffer.Restores solvedBuffer loaded := by
  obtain ⟨hpartitioned, hresume⟩ := @poolPartition_iff _ _ _ promptConfig _ _ _ _ unsolvedBuffer_init
  exact ⟨hpartitioned.2 mathEnvs_ownIds _ solvedBuffer_reachable,
    hresume mathEnvs_ownIds _ solvedBuffer_reachable _ (mathEnvs_hashesDistinct _) rfl rfl _⟩

/-- Once the first example is solved, the second is drawn. -/
theorem sample_examples_normal_example : ∃ exs, solvedBuffer.sampleExamples [(3, 5)] = .ok exs ∧
    exs.length = 1 ∧ (exs.all fun ex => ex.exampleId = 1) = true := by
  rcases sample_examples_normal mathEnvs_ownIds solvedBuffer_reachable [(3, 5)] with ⟨hempty, -⟩ | ⟨-, exs, hok, hlen, -⟩
  · exact absurd (hempty "math" _ rfl) (List.cons_ne_nil _ _)
  · refine ⟨exs, hok, hlen, ?_⟩
    cases hok
    decide

/-- A checkpoint with an example that is hard now. -/
theorem load_any_checkpoint_example : ∃ buffer', solvedBuffer.load promptConfig (fun _ _ _ => 0)
    ⟨[], [⟨7, "math", ⟨[("prompt", "2 + 2")], List.nodup_singleton _⟩⟩], []⟩ = .ok buffer' ∧
    Partitioned (mathEnvs (0, 1)) buffer' := by
  refine load_any_checkpoint mathEnvs_ownIds (List.cons_ne_nil _ _) (mathEnvs_hashesDistinct _).hashed ?_
    solvedBuffer_reachable _
  intro ex hex
  cases List.mem_singleton.1 hex
  exact ⟨_, rfl⟩

end AuroraRl.Difficulty
