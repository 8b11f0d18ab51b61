import AuroraRl.Lib.PyTree

/-!
# Shared fields

* `propagateSharedFields` : the shared blocks of a document into its sub-configs, before these are built;
* `Propagation.get`, `Propagation.fill`, `Propagation.propagate` : its helpers, over the document and the conflicts;
* `Filled` : what the run makes of the orchestrator's table; `Fills` : what it makes of the document;
* `propagateSharedFields_spec` : both, and the conflicts that an accepted document does not have.
-/

namespace AuroraRl.Config

open PyData (Distinct Clear Leaf)

/-- A shared field, the sub-config fields it goes to, and other spellings of these. -/
structure SharedField where
  shared : List String
  targets : List (List String)
  aliases : List (List String) := []

/-- The document, and the pairs of fields that are both set. -/
structure Propagation where
  data : PyDict
  conflicts : List (List String × List String)

namespace Propagation

/-- The value at a path, `None` and a missing key alike. -/
def get (s : Propagation) (path : List String) : Option PyData :=
  match (PyData.dict s.data).walk path with
  | some .none => none
  | value => value

/-- Fills a field that is absent, in a sub-config that is there. -/
def fill (s : Propagation) (path : List String) (value : PyData) : Propagation :=
  match path with
  | [] => s
  | top :: _ =>
    match s.data.get? top with
    | some (.dict _) => { s with data := PyDict.fillIn path value s.data }
    | _ => s

/-- Records which of the fields are set already, then fills them. -/
def spread (s : Propagation) (shared : List String) (fills : List (List String × PyData))
    (aliases : List (List String)) : Propagation :=
  let set := (fills.map Prod.fst ++ aliases).filter fun sub => (s.get sub).isSome
  fills.foldl (fun s f => s.fill f.1 f.2) { s with conflicts := s.conflicts ++ set.map fun sub => (shared, sub) }

/-- A shared value, verbatim, into its targets. -/
def propagate (s : Propagation) (f : SharedField) : Propagation :=
  match s.get f.shared with
  | none => s
  | some value => s.spread f.shared (f.targets.map fun target => (target, value)) f.aliases

/-- `wandb.name`, with a suffix for each side unless the run is shared. -/
def propagateWandbName [PyText] (s : Propagation) : Propagation :=
  match s.get ["wandb", "name"] with
  | none => s
  | some name =>
    let nonShared : Bool := match s.get ["wandb", "shared"] with
      | some (.bool shared) => !shared
      | _ => false
    s.spread ["wandb", "name"]
      [(["trainer", "wandb", "name"], if nonShared then .str (PyText.str name ++ "-trainer") else name),
        (["orchestrator", "wandb", "name"], if nonShared then .str (PyText.str name ++ "-orchestrator") else name)] []

/-- `output_dir`; the orchestrator nests under it. -/
def propagateOutputDir [PyText] (s : Propagation) : Propagation :=
  match s.get ["output_dir"] with
  | none => s
  | some dir =>
    s.spread ["output_dir"]
      [(["trainer", "output_dir"], dir), (["orchestrator", "output_dir"], .str (PyText.str dir ++ "/run_default"))] []

/-- The trainer's chat template also goes to inference. -/
def cascadeChatTemplate (s : Propagation) : Propagation :=
  match s.get ["trainer", "tokenizer", "chat_template"] with
  | none => s
  | some template => s.fill ["inference", "model", "chat_template"] template

/-- A shared block that is there turns its section on for both sides. -/
def enableBlock (s : Propagation) (key : String) : Propagation :=
  match s.get [key] with
  | none => s
  | some _ => (s.fill ["trainer", key] (.dict [])).fill ["orchestrator", key] (.dict [])

end Propagation

def sharedModel : List SharedField :=
  [⟨["model", "name"], [["trainer", "model", "name"], ["inference", "model", "name"], ["orchestrator", "model", "name"]],
      [["orchestrator", "student", "model", "name"]]⟩,
    ⟨["model", "vlm"], [["trainer", "model", "vlm"], ["inference", "model", "vlm"], ["orchestrator", "model", "vlm"]],
      [["orchestrator", "student", "model", "vlm"]]⟩]

/-- The rows of `[log]`, `[ckpt]` and `[wandb]`. -/
def sharedBlocks : List SharedField :=
  [{ shared := ["log", "level"], targets := [["trainer", "log", "level"], ["orchestrator", "log", "level"]] },
    { shared := ["log", "json_logging"],
      targets := [["trainer", "log", "json_logging"], ["orchestrator", "log", "json_logging"]] },
    { shared := ["ckpt", "output_dir"], targets := [["trainer", "ckpt", "output_dir"]] },
    { shared := ["ckpt", "interval"], targets := [["trainer", "ckpt", "interval"], ["orchestrator", "ckpt", "interval"]] },
    { shared := ["ckpt", "resume_step"],
      targets := [["trainer", "ckpt", "resume_step"], ["orchestrator", "ckpt", "resume_step"]] },
    { shared := ["ckpt", "keep_last"],
      targets := [["trainer", "ckpt", "keep_last"], ["orchestrator", "ckpt", "keep_last"]] },
    { shared := ["ckpt", "keep_interval"],
      targets := [["trainer", "ckpt", "keep_interval"], ["orchestrator", "ckpt", "keep_interval"]] },
    { shared := ["wandb", "project"],
      targets := [["trainer", "wandb", "project"], ["orchestrator", "wandb", "project"]] },
    { shared := ["wandb", "entity"], targets := [["trainer", "wandb", "entity"], ["orchestrator", "wandb", "entity"]] },
    { shared := ["wandb", "group"], targets := [["trainer", "wandb", "group"], ["orchestrator", "wandb", "group"]] },
    { shared := ["wandb", "tags"], targets := [["trainer", "wandb", "tags"], ["orchestrator", "wandb", "tags"]] },
    { shared := ["wandb", "offline"],
      targets := [["trainer", "wandb", "offline"], ["orchestrator", "wandb", "offline"]] }]

/-- The rows of `[tokenizer]` and the top-level scalars. -/
def sharedScalars : List SharedField :=
  [{ shared := ["tokenizer", "name"], targets := [["trainer", "tokenizer", "name"], ["orchestrator", "tokenizer", "name"]] },
    { shared := ["tokenizer", "trust_remote_code"],
      targets := [["trainer", "tokenizer", "trust_remote_code"], ["orchestrator", "tokenizer", "trust_remote_code"]] },
    { shared := ["tokenizer", "chat_template"],
      targets := [["trainer", "tokenizer", "chat_template"], ["orchestrator", "tokenizer", "chat_template"],
        ["inference", "model", "chat_template"]] },
    { shared := ["max_steps"], targets := [["trainer", "max_steps"], ["orchestrator", "max_steps"]] },
    { shared := ["seq_len"], targets := [["trainer", "model", "seq_len"], ["orchestrator", "seq_len"]] }]

/-- A path as it is written. -/
def dotted (path : List String) : String := ".".intercalate path

def conflictLines (conflicts : List (List String × List String)) : List String :=
  ("Shared config conflicts with matching sub-config field(s). Pick one place " ++
    "to set each value — duplicating it is ambiguous and the sub-config " ++
    "would silently shadow any later shared-level override (e.g. on the CLI):") ::
  conflicts.map fun c => "  - ['" ++ dotted c.1 ++ "'] is set, but ['" ++ dotted c.2 ++ "'] is also set"

/-- All fills of a document, in order. -/
def propagateAll [PyText] (data : PyDict) : Propagation :=
  let s := sharedModel.foldl Propagation.propagate ⟨data, []⟩
  let s := (sharedBlocks.foldl Propagation.propagate s).propagateWandbName
  let s := (sharedScalars.foldl Propagation.propagate s).propagateOutputDir.cascadeChatTemplate
  ["ckpt", "wandb"].foldl Propagation.enableBlock s

def propagateSharedFields [PyText] : PyData → Except PyException PyData
  | .dict data =>
    let s := propagateAll data
    if s.conflicts.isEmpty then .ok (.dict s.data)
    else raiseValueError ("\n".intercalate (conflictLines s.conflicts))
  | data => .ok data

/-! ## What a fill leaves -/

/-- What becomes of the orchestrator's table: nothing is lost, and of the student's spellings only `keys` of its
`model` shortcut are filled in. -/
structure Filled (keys : List String) (o o' : PyDict) : Prop where
  extends_ : PyDict.Extends o o'
  distinct : Distinct (.dict o) → Distinct (.dict o')
  student : o'.get? "student" = o.get? "student"
  client : o'.get? "client" = o.get? "client"
  model : ∀ k path, k ∉ keys → Clear (o.table "model") (k :: path) → Clear (o'.table "model") (k :: path)

/-- What becomes of the document. -/
structure Fills (keys : List String) (d d' : PyDict) : Prop where
  extends_ : PyDict.Extends d d'
  distinct : Distinct (.dict d) → Distinct (.dict d')
  model : d'.get? "model" = d.get? "model"
  orchestrator : ∀ o, d.get? "orchestrator" = some (.dict o) →
    ∃ o', d'.get? "orchestrator" = some (.dict o') ∧ Filled keys o o'
  other : (∀ o, d.get? "orchestrator" ≠ some (.dict o)) → d'.get? "orchestrator" = d.get? "orchestrator"

/-- The fields that may be filled in: those of a sub-config, but the student only by `keys` of the shortcut. -/
def Target (keys : List String) : List String → Prop
  | top :: k :: path => top ∈ ["trainer", "inference", "orchestrator"] ∧
      (top = "orchestrator" → k ≠ "student" ∧ k ≠ "client" ∧ (k = "model" → ∃ key ∈ keys, path = [key]))
  | _ => False

section Relations

variable {keys : List String} {o o₁ o' d d₁ d' : PyDict}

theorem Filled.refl (keys : List String) (o : PyDict) : Filled keys o o :=
  ⟨PyDict.Extends.refl o, id, rfl, rfl, fun _ _ _ h => h⟩

theorem Filled.trans (h : Filled keys o o₁) (h' : Filled keys o₁ o') : Filled keys o o' where
  extends_ := h.extends_.trans h'.extends_
  distinct hd := h'.distinct (h.distinct hd)
  student := h'.student.trans h.student
  client := h'.client.trans h.client
  model k path hk hclear := h'.model k path hk (h.model k path hk hclear)

theorem Fills.refl (keys : List String) (d : PyDict) : Fills keys d d :=
  ⟨PyDict.Extends.refl d, id, rfl, fun o ho => ⟨o, ho, Filled.refl keys o⟩, fun _ => rfl⟩

theorem Fills.trans (h : Fills keys d d₁) (h' : Fills keys d₁ d') : Fills keys d d' where
  extends_ := h.extends_.trans h'.extends_
  distinct hd := h'.distinct (h.distinct hd)
  model := h'.model.trans h.model
  orchestrator o ho := by
    obtain ⟨o₁, ho₁, hfill⟩ := h.orchestrator o ho
    obtain ⟨o', ho', hfill'⟩ := h'.orchestrator o₁ ho₁
    exact ⟨o', ho', hfill.trans hfill'⟩
  other hne := by
    have heq := h.other hne
    exact (h'.other fun o => heq ▸ hne o).trans heq

/-- What the document says of the student stays. -/
theorem Fills.walk_student (h : Fills keys d d') (path : List String) :
    (PyData.dict d').walk ("orchestrator" :: "student" :: path) =
      (PyData.dict d).walk ("orchestrator" :: "student" :: path) := by
  by_cases ho : ∃ o, d.get? "orchestrator" = some (.dict o)
  · obtain ⟨o, ho⟩ := ho
    obtain ⟨o', ho', hfill⟩ := h.orchestrator o ho
    simp [PyData.walk, ho, ho', hfill.student]
  · have heq := h.other fun o h => ho ⟨o, h⟩
    simp [PyData.walk, heq]

theorem filled_fillIn {k : String} {path : List String} {v : PyData} (hv : Distinct v) (hstudent : k ≠ "student")
    (hclient : k ≠ "client") (hmodel : k = "model" → ∃ key ∈ keys, path = [key]) :
    Filled keys o (PyDict.fillIn (k :: path) v o) where
  extends_ := PyDict.extends_fillIn _ _ _
  distinct hd := PyDict.distinct_fillIn hd hv
  student := PyDict.get?_fillIn_of_ne (Ne.symm hstudent)
  client := PyDict.get?_fillIn_of_ne (Ne.symm hclient)
  model k' path' hk' hclear := by
    by_cases hk : k = "model"
    · obtain ⟨key, hkey, rfl⟩ := hmodel hk
      subst hk
      apply PyDict.clear_table_fillIn _ hclear
      rintro rfl
      exact hk' hkey
    · unfold PyDict.table at hclear ⊢
      rwa [PyDict.get?_fillIn_of_ne (Ne.symm hk)]

end Relations

namespace Propagation

variable {keys : List String} {s : Propagation}

theorem fills_fill {target : List String} {v : PyData} (htarget : Target keys target) (hv : Distinct v) :
    Fills keys s.data (s.fill target v).data := by
  obtain ⟨top, k, path, rfl⟩ : ∃ top k path, target = top :: k :: path := by
    match target, htarget with
    | top :: k :: path, _ => exact ⟨top, k, path, rfl⟩
  obtain ⟨htop, horch⟩ := htarget
  simp only [fill]
  split
  · rename_i entries htable
    refine ⟨PyDict.extends_fillIn _ _ _, fun hd => PyDict.distinct_fillIn hd hv, ?_, ?_, ?_⟩
    · apply PyDict.get?_fillIn_of_ne
      rintro rfl
      simp at htop
    · intro o ho
      by_cases hk : top = "orchestrator"
      · subst hk
        obtain ⟨hstudent, hclient, hmodel⟩ := horch rfl
        refine ⟨PyDict.fillIn (k :: path) v o, ?_, filled_fillIn hv hstudent hclient hmodel⟩
        simp only [PyDict.fillIn, ho]
        rw [PyDict.get?_set, if_pos rfl]
      · refine ⟨o, ?_, Filled.refl keys o⟩
        rw [← ho]
        exact PyDict.get?_fillIn_of_ne (Ne.symm hk)
    · intro hne
      apply PyDict.get?_fillIn_of_ne
      rintro rfl
      exact hne entries htable
  · exact Fills.refl keys s.data

theorem conflicts_fill (target : List String) (v : PyData) : (s.fill target v).conflicts = s.conflicts := by
  unfold fill
  split
  · rfl
  · split <;> rfl

theorem fills_foldl_fill {fills : List (List String × PyData)} (h : ∀ f ∈ fills, Target keys f.1 ∧ Distinct f.2) :
    Fills keys s.data (fills.foldl (fun s f => s.fill f.1 f.2) s).data := by
  induction fills generalizing s with
  | nil => exact Fills.refl keys s.data
  | cons f fills ih =>
      obtain ⟨htarget, hv⟩ := h f List.mem_cons_self
      exact (fills_fill htarget hv).trans (ih fun f hf => h f (List.mem_cons_of_mem _ hf))

theorem conflicts_foldl_fill (fills : List (List String × PyData)) :
    (fills.foldl (fun s f => s.fill f.1 f.2) s).conflicts = s.conflicts := by
  induction fills generalizing s with
  | nil => rfl
  | cons f fills ih => rw [List.foldl_cons, ih, conflicts_fill]

theorem fills_spread {shared : List String} {fills : List (List String × PyData)} {aliases : List (List String)}
    (h : ∀ f ∈ fills, Target keys f.1 ∧ Distinct f.2) : Fills keys s.data (s.spread shared fills aliases).data := by
  simp only [spread]
  generalize s.conflicts ++ _ = conflicts
  exact fills_foldl_fill (s := ⟨s.data, conflicts⟩) h

theorem conflicts_spread (shared : List String) (fills : List (List String × PyData)) (aliases : List (List String)) :
    (s.spread shared fills aliases).conflicts = s.conflicts ++
      ((fills.map Prod.fst ++ aliases).filter fun sub => (s.get sub).isSome).map fun sub => (shared, sub) := by
  unfold spread
  rw [conflicts_foldl_fill]

theorem distinct_of_get {path : List String} {v : PyData} (hd : Distinct (.dict s.data)) (h : s.get path = some v) :
    Distinct v := by
  unfold get at h
  split at h
  · cases h
  · exact hd.walk h

theorem get_congr {s' : Propagation} {path : List String}
    (h : (PyData.dict s'.data).walk path = (PyData.dict s.data).walk path) : s'.get path = s.get path := by
  unfold get
  rw [h]

theorem fills_propagate {f : SharedField} (hd : Distinct (.dict s.data))
    (h : (s.get f.shared).isSome → ∀ target ∈ f.targets, Target keys target) : Fills keys s.data (s.propagate f).data := by
  unfold propagate
  split
  · exact Fills.refl keys s.data
  · rename_i value hvalue
    apply fills_spread
    intro fill hfill
    obtain ⟨target, htarget, rfl⟩ := List.mem_map.1 hfill
    exact ⟨h (by rw [hvalue]; rfl) target htarget, distinct_of_get hd hvalue⟩

theorem conflicts_of_propagate {f : SharedField} (h : (s.propagate f).conflicts = []) : s.conflicts = [] := by
  unfold propagate at h
  split at h
  · exact h
  · rw [conflicts_spread] at h
    exact (List.append_eq_nil_iff.1 h).1

/-- Without conflicts, no other spelling of a field is set beside the shared one. -/
theorem get_alias_of_propagate {f : SharedField} (h : (s.propagate f).conflicts = []) (hset : (s.get f.shared).isSome)
    {path : List String} (hpath : path ∈ f.aliases) : s.get path = none := by
  obtain ⟨value, hvalue⟩ := Option.isSome_iff_exists.1 hset
  simp only [propagate, hvalue] at h
  rw [conflicts_spread] at h
  have hfilter := List.map_eq_nil_iff.1 (List.append_eq_nil_iff.1 h).2
  have hnone := List.filter_eq_nil_iff.1 hfilter path (List.mem_append_right _ hpath)
  simpa using hnone

end Propagation

/-! ## The run -/

/-- The fields of the shared `[model]` block that are set. -/
def sharedKeys (raw : PyDict) : List String :=
  ["name", "vlm"].filter fun k => ((Propagation.mk raw []).get ["model", k]).isSome

section Run

open Propagation

variable {raw : PyDict} {keys : List String} {s : Propagation}

theorem mem_sharedKeys {k : String} :
    k ∈ sharedKeys raw ↔ k ∈ ["name", "vlm"] ∧ ((Propagation.mk raw []).get ["model", k]).isSome := List.mem_filter

theorem get_model (h : Fills keys raw s.data) (path : List String) :
    s.get ("model" :: path) = (Propagation.mk raw []).get ("model" :: path) := by
  apply get_congr
  simp [PyData.walk, h.model]

theorem fills_foldl_propagate {rows : List SharedField} (h : Fills keys raw s.data) (hd : Distinct (.dict raw))
    (hrows : ∀ f ∈ rows, ∀ target ∈ f.targets, Target keys target) :
    Fills keys raw (rows.foldl propagate s).data := by
  induction rows generalizing s with
  | nil => exact h
  | cons f rows ih =>
      refine ih (h.trans (fills_propagate (h.distinct hd) fun _ => hrows f List.mem_cons_self)) fun f' hf' => ?_
      exact hrows f' (List.mem_cons_of_mem _ hf')

theorem conflicts_of_foldl_propagate {rows : List SharedField} (h : (rows.foldl propagate s).conflicts = []) :
    s.conflicts = [] := by
  induction rows generalizing s with
  | nil => exact h
  | cons f rows ih => exact conflicts_of_propagate (ih h)

theorem target_sharedBlocks : ∀ f ∈ sharedBlocks, ∀ target ∈ f.targets, Target keys target := by
  simp [sharedBlocks, Target]

theorem target_sharedScalars : ∀ f ∈ sharedScalars, ∀ target ∈ f.targets, Target keys target := by
  simp [sharedScalars, Target]

theorem distinct_str (text : String) : Distinct (.str text) := PyData.distinct_of_not_dict rfl

theorem fills_wandbName [PyText] (h : Fills keys raw s.data) (hd : Distinct (.dict raw)) :
    Fills keys raw s.propagateWandbName.data := by
  unfold propagateWandbName
  split
  · exact h
  · rename_i name hname
    apply h.trans
    apply fills_spread
    have hdistinct (suffix : Bool) (text : String) : Distinct (if suffix then .str text else name) := by
      cases suffix
      exacts [distinct_of_get (h.distinct hd) hname, distinct_str text]
    intro f hf
    rcases List.mem_cons.1 hf with rfl | hf
    · exact ⟨by simp [Target], hdistinct _ _⟩
    · rw [List.mem_singleton.1 hf]
      exact ⟨by simp [Target], hdistinct _ _⟩

theorem conflicts_of_wandbName [PyText] (h : s.propagateWandbName.conflicts = []) : s.conflicts = [] := by
  unfold propagateWandbName at h
  split at h
  · exact h
  · rw [conflicts_spread] at h
    exact (List.append_eq_nil_iff.1 h).1

theorem fills_outputDir [PyText] (h : Fills keys raw s.data) (hd : Distinct (.dict raw)) :
    Fills keys raw s.propagateOutputDir.data := by
  unfold propagateOutputDir
  split
  · exact h
  · rename_i dir hdir
    apply h.trans
    apply fills_spread
    intro f hf
    rcases List.mem_cons.1 hf with rfl | hf
    · exact ⟨by simp [Target], distinct_of_get (h.distinct hd) hdir⟩
    · rw [List.mem_singleton.1 hf]
      exact ⟨by simp [Target], distinct_str _⟩

theorem conflicts_of_outputDir [PyText] (h : s.propagateOutputDir.conflicts = []) : s.conflicts = [] := by
  unfold propagateOutputDir at h
  split at h
  · exact h
  · rw [conflicts_spread] at h
    exact (List.append_eq_nil_iff.1 h).1

theorem fills_cascade (h : Fills keys raw s.data) (hd : Distinct (.dict raw)) :
    Fills keys raw s.cascadeChatTemplate.data := by
  unfold cascadeChatTemplate
  split
  · exact h
  · rename_i template htemplate
    exact h.trans (fills_fill (by simp [Target]) (distinct_of_get (h.distinct hd) htemplate))

theorem conflicts_cascade : s.cascadeChatTemplate.conflicts = s.conflicts := by
  unfold cascadeChatTemplate
  split
  · rfl
  · exact conflicts_fill _ _

theorem fills_enableBlock {key : String} (hkey : key ∈ ["ckpt", "wandb"]) (h : Fills keys raw s.data) :
    Fills keys raw (s.enableBlock key).data := by
  unfold enableBlock
  split
  · exact h
  · have htarget (top : String) (htop : top ∈ ["trainer", "orchestrator"]) : Target keys [top, key] := by
      simp only [List.mem_cons, List.not_mem_nil, or_false] at htop hkey
      rcases htop with rfl | rfl <;> rcases hkey with rfl | rfl <;> simp [Target]
    exact (h.trans (fills_fill (htarget _ (by simp)) PyData.distinct_empty)).trans
      (fills_fill (htarget _ (by simp)) PyData.distinct_empty)

theorem conflicts_enableBlock (key : String) : (s.enableBlock key).conflicts = s.conflicts := by
  unfold enableBlock
  split
  · rfl
  · rw [conflicts_fill, conflicts_fill]

/-- Both rows read the shared block, which no fill touches. -/
theorem fills_propagate_model {f : SharedField} (h : Fills (sharedKeys raw) raw s.data) (hd : Distinct (.dict raw))
    (hf : f ∈ sharedModel) : Fills (sharedKeys raw) raw (s.propagate f).data := by
  apply h.trans
  refine fills_propagate (h.distinct hd) fun hset => ?_
  simp only [sharedModel, List.mem_cons, List.not_mem_nil, or_false] at hf
  rcases hf with rfl | rfl <;>
    · rw [get_model h] at hset
      simp [Target, mem_sharedKeys, hset]

theorem fills_sharedModel (hd : Distinct (.dict raw)) :
    Fills (sharedKeys raw) raw (sharedModel.foldl propagate ⟨raw, []⟩).data := by
  simp only [sharedModel, List.foldl_cons, List.foldl_nil]
  apply fills_propagate_model _ hd (by simp [sharedModel])
  exact fills_propagate_model (Fills.refl _ _) hd (by simp [sharedModel])

theorem fills_propagateAll [PyText] (hd : Distinct (.dict raw)) :
    Fills (sharedKeys raw) raw (propagateAll raw).data := by
  have hblocks := fills_foldl_propagate (fills_sharedModel hd) hd target_sharedBlocks
  have hscalars := fills_foldl_propagate (fills_wandbName hblocks hd) hd target_sharedScalars
  have hcascade := fills_cascade (fills_outputDir hscalars hd) hd
  simp only [propagateAll, List.foldl_cons, List.foldl_nil]
  exact fills_enableBlock (by simp) (fills_enableBlock (by simp) hcascade)

theorem conflicts_of_propagateAll [PyText] (h : (propagateAll raw).conflicts = []) :
    (sharedModel.foldl propagate ⟨raw, []⟩).conflicts = [] := by
  simp only [propagateAll, List.foldl_cons, List.foldl_nil, conflicts_enableBlock, conflicts_cascade] at h
  exact conflicts_of_foldl_propagate (conflicts_of_wandbName (conflicts_of_foldl_propagate (conflicts_of_outputDir h)))

/-- A shared `[model]` field of an accepted document is not set in `student.model`. -/
theorem get_student_of_propagateAll [PyText] (hd : Distinct (.dict raw)) (h : (propagateAll raw).conflicts = [])
    {k : String} (hk : k ∈ sharedKeys raw) :
    (Propagation.mk raw []).get ["orchestrator", "student", "model", k] = none := by
  have hrows := conflicts_of_propagateAll h
  simp only [sharedModel, List.foldl_cons, List.foldl_nil] at hrows
  obtain ⟨hname, hset⟩ := mem_sharedKeys.1 hk
  simp only [List.mem_cons, List.not_mem_nil, or_false] at hname
  rcases hname with rfl | rfl
  · exact get_alias_of_propagate (conflicts_of_propagate hrows) hset (by simp)
  · have hname := fills_propagate_model (s := ⟨raw, []⟩) (Fills.refl _ _) hd (List.mem_cons_self : _ ∈ sharedModel)
    rw [← get_congr (hname.walk_student ["model", "vlm"])]
    refine get_alias_of_propagate hrows ?_ (by simp)
    rwa [get_model hname]

/-- **Propagation.** Whatever a document says stays; of the student's spellings only the shortcuts of shared `[model]`
fields are filled in, which an accepted document does not set in `student.model`. -/
theorem propagateSharedFields_spec [PyText] {data : PyData} (hd : Distinct (.dict raw))
    (h : propagateSharedFields (.dict raw) = .ok data) :
    ∃ d, data = .dict d ∧ Fills (sharedKeys raw) raw d ∧
      ∀ k ∈ sharedKeys raw, (Propagation.mk raw []).get ["orchestrator", "student", "model", k] = none := by
  simp only [propagateSharedFields] at h
  split at h
  · rename_i hconflicts
    refine ⟨_, (Except.ok.inj h).symm, fills_propagateAll hd, fun k hk => ?_⟩
    exact get_student_of_propagateAll hd (List.isEmpty_iff.1 hconflicts) hk
  · cases h

end Run

end AuroraRl.Config
