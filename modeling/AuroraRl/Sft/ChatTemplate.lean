import AuroraRl.Lib.PyData
import AuroraRl.Lib.Growth

/-!
# Chat templates

* `normalizeMessages`, `deserializeToolCalls`, `stripMessageContent` : the messages of an example;
* `Tokenizer`, `renderMessages` : a chat template applied to messages;
* `buildIncrementalTokenMask` : the tokens of a conversation, with a mask that follows the messages;
* `buildIncrementalTokenMask_eq_ok` : when it succeeds, and with what;
* `incrementalTokenMask` : the same for a template and a mask that never fail.
-/

namespace AuroraRl.Sft
open Growth

abbrev Message := PyDict

/-! ## Messages -/

/-- `normalize_messages`; no value means no messages. -/
def normalizeMessages (messages : Option PyData) (defaultRole : String) : Except PyException (List Message) :=
  let fromText (s : String) : Message := [("role", .str defaultRole), ("content", .str s)]
  match messages with
  | none | some .none => .ok []
  | some (.str s) => .ok [fromText s]
  | some (.dict entries) => .ok [entries]
  | some (.list l) => l.mapM fun
    | .str s => .ok (fromText s)
    | .dict entries => .ok entries
    | message => .error ⟨.typeError, "Unsupported message type: <class '" ++ message.typeName ++ "'>"⟩
  | some value => .error ⟨.typeError, "Unsupported messages container type: <class '" ++ value.typeName ++ "'>"⟩

def deserializeToolCall [PyText] (toolCall : PyData) : Except PyException PyData := do
  let toolCall ← toolCall.getAttr
  let function ← ((toolCall.get? "function").getD (.dict [])).getAttr
  let arguments ← match function.get? "arguments" with
    | some (.str s) => PyText.loads s
    | some value => .ok value
    | none => .ok .none
  return .dict (toolCall.set "function" (.dict (function.set "arguments" arguments)))

def deserializeToolCalls [PyText] (messages : List Message) : Except PyException (List Message) :=
  messages.mapM fun message =>
    match message.get? "tool_calls" with
    | none => .ok message
    | some toolCalls => do
      let toolCalls ← if toolCalls.truthy then toolCalls.iter else .ok []
      let toolCalls ← toolCalls.mapM deserializeToolCall
      return message.set "tool_calls" (.list toolCalls)

def stripMessageContent [Unicode] (messages : List Message) : List Message :=
  messages.map fun message =>
    match message.get? "content" with
    | some (.str content) => message.set "content" (.str (Python.strip content))
    | _ => message

/-! ## Rendering -/

/-- A tokenizer with its chat template. -/
structure Tokenizer where
  applyChatTemplate : List Message → PyDict → Except PyException (List Int)
  eosTokenId : Int

/-- A processor, whose template answers with a batch. -/
structure Processor where
  applyChatTemplate : List Message → PyDict → Except PyException (List (List Int))

def renderMessages (tokenizer : Tokenizer) (messages : List Message) (tools : Option (List PyData))
    (chatTemplateKwargs : PyData) (addGenerationPrompt : Bool) (processor : Option Processor) :
    Except PyException (List Int) := do
  let kwargs ← if chatTemplateKwargs.truthy then chatTemplateKwargs.toDict else .ok []
  let kwargs := kwargs.set "add_generation_prompt" (.bool addGenerationPrompt)
  let kwargs := match tools with
    | some tools => kwargs.set "tools" (.list tools)
    | none => kwargs
  match processor with
  | some processor =>
    let result ← processor.applyChatTemplate messages ((kwargs.set "tokenize" (.bool true)).set "return_dict" (.bool true))
    listItem result 0
  | none => tokenizer.applyChatTemplate messages (kwargs.set "return_dict" (.bool false))

/-- Whether the message at `idx` has a role; no message has none. -/
def hasRole (messages : List Message) (idx : Nat) (role : String) : Bool :=
  match messages[idx]? with
  | some message => (message.get? "role").any (·.isStr role)
  | none => false

def shouldAddGenerationPrompt (messages : List Message) (idx : Nat) : Bool :=
  (hasRole messages idx "user" || hasRole messages idx "tool") && hasRole messages (idx + 1) "assistant"

/-! ## The incremental mask -/

/-- What `build_incremental_token_mask` raises: an `IncrementalTokenizationError`, or what its callbacks raise. -/
inductive MaskError
  | incrementalTokenization (message : String)
  | raised (e : PyException)

/-- What a callback answers. -/
def callback {α : Type} : Except PyException α → Except MaskError α := Except.mapError .raised

/-- The text of the error at a message. -/
def mismatchText [PyText] (idx : Nat) (role : Option PyData) : String :=
  "Mismatch in incremental tokenization with chat template at message " ++ toString idx ++ " (role=" ++
    PyText.str (role.getD .none) ++ "). This usually means the chat template is not stable under incremental " ++
    "application. The sample will be skipped."

/-- The variables of the loop. -/
structure MaskState where
  tokenMask : List Bool
  prevIds : List Int
  prevLen : Nat

/-- A tool message that another one follows is left to that one. -/
def isCollapsed (collapse : Bool) (messages : List Message) (idx : Nat) : Bool :=
  collapse && hasRole messages idx "tool" && hasRole messages (idx + 1) "tool"

section Loop

variable [PyText] (render : List Message → Bool → Except PyException (List Int)) (messages : List Message)
  (roleToMask : Message → Except PyException Bool) (collapse : Bool)

/-- One message: the tokens its prefix adds carry its mask. -/
def maskStep (s : MaskState) (message : Message) (idx : Nat) : Except MaskError MaskState := do
  let curIds ← callback (render (messages.take (idx + 1)) (shouldAddGenerationPrompt messages idx))
  if s.prevIds ≠ curIds.take s.prevLen then
    .error (.incrementalTokenization (mismatchText idx (message.get? "role")))
  else
    let mask ← callback (roleToMask message)
    return ⟨s.tokenMask ++ List.replicate (curIds.length - s.prevLen) mask, curIds, curIds.length⟩

/-- `build_incremental_token_mask`, with `render_messages` applied to its tokenizer, tools and options. -/
def buildIncrementalTokenMask : Except MaskError (List Int × List Bool) := do
  let s ← messages.zipIdx.foldlM (fun s (message, idx) =>
    if isCollapsed collapse messages idx then .ok s else maskStep render messages roleToMask s message idx) ⟨[], [], 0⟩
  return (s.prevIds, s.tokenMask)

end Loop

/-! ## What it returns -/

/-- The messages whose prefix is rendered, with their places. -/
def taken (collapse : Bool) (messages : List Message) : List (Message × Nat) :=
  messages.zipIdx.filter fun e => !isCollapsed collapse messages e.2

section Spec

variable [PyText] {render : List Message → Bool → Except PyException (List Int)} {messages : List Message}
  {roleToMask : Message → Except PyException Bool} {collapse : Bool}

/-- A message is rendered as `layer.1` with the mask `layer.2`. -/
def Layer (render : List Message → Bool → Except PyException (List Int)) (messages : List Message)
    (roleToMask : Message → Except PyException Bool) (e : Message × Nat) (layer : List Int × Bool) : Prop :=
  render (messages.take (e.2 + 1)) (shouldAddGenerationPrompt messages e.2) = .ok layer.1 ∧
    roleToMask e.1 = .ok layer.2

omit [PyText] in
theorem callback_eq_ok {α : Type} {x : Except PyException α} {a : α} : callback x = .ok a ↔ x = .ok a := by
  cases x <;> simp [callback, Except.mapError]

theorem maskStep_eq_ok {s s' : MaskState} {e : Message × Nat} (hlen : s.prevLen = s.prevIds.length) :
    maskStep render messages roleToMask s e.1 e.2 = .ok s' ↔ ∃ layer, Layer render messages roleToMask e layer ∧
      s.prevIds <+: layer.1 ∧
      s' = ⟨s.tokenMask ++ List.replicate (layer.1.length - s.prevIds.length) layer.2, layer.1, layer.1.length⟩ := by
  unfold maskStep Layer
  simp only [bind_eq_ok, callback_eq_ok, hlen, ← List.prefix_iff_eq_take, ite_not, Prod.exists]
  constructor
  · rintro ⟨curIds, hrender, h⟩
    split at h
    · rename_i hextends
      obtain ⟨mask, hmask, h⟩ := bind_eq_ok.1 h
      cases h
      exact ⟨curIds, mask, ⟨hrender, callback_eq_ok.1 hmask⟩, hextends, rfl⟩
    · cases h
  · rintro ⟨curIds, mask, ⟨hrender, hmask⟩, hextends, rfl⟩
    refine ⟨curIds, hrender, ?_⟩
    rw [if_pos hextends, bind_eq_ok]
    exact ⟨mask, callback_eq_ok.2 hmask, rfl⟩

theorem foldlM_maskStep_eq_ok {l : List (Message × Nat)} {s s' : MaskState} (hlen : s.prevLen = s.prevIds.length) :
    l.foldlM (fun s e => maskStep render messages roleToMask s e.1 e.2) s = .ok s' ↔
      ∃ layers, List.Forall₂ (Layer render messages roleToMask) l layers ∧
        (s.prevIds :: layers.map Prod.fst).IsChain (· <+: ·) ∧
        s'.tokenMask = s.tokenMask ++ labels s.prevIds.length layers ∧
        s'.prevIds = ((layers.map Prod.fst).getLast?).getD s.prevIds ∧ s'.prevLen = s'.prevIds.length := by
  induction l generalizing s with
  | nil =>
      simp only [List.foldlM_nil, List.forall₂_nil_left_iff, pure, Except.pure, Except.ok.injEq, exists_eq_left]
      constructor
      · rintro rfl
        simp [labels, hlen]
      · rintro ⟨-, hmask, hids, hlen'⟩
        obtain ⟨mask', ids', len'⟩ := s'
        obtain ⟨mask, ids, len⟩ := s
        simp_all [labels]
  | cons e l ih =>
      rw [List.foldlM_cons, bind_eq_ok]
      constructor
      · rintro ⟨s₁, h₁, h⟩
        obtain ⟨⟨text, mask⟩, hlayer, hextends, rfl⟩ := (maskStep_eq_ok hlen).1 h₁
        obtain ⟨layers, hall, hchain, hmask, hids, hlast⟩ := (ih rfl).1 h
        refine ⟨(text, mask) :: layers, .cons hlayer hall, ?_, ?_, ?_, hlast⟩
        · rw [List.map_cons, List.isChain_cons_cons]
          exact ⟨hextends, hchain⟩
        · rw [hmask, labels, List.append_assoc]
        · rw [hids, List.map_cons, List.getLast?_cons, Option.getD_some]
      · rintro ⟨_, hall, hchain, hmask, hids, hlast⟩
        obtain ⟨⟨text, mask⟩, layers, hlayer, hrest, rfl⟩ := List.forall₂_cons_left_iff.1 hall
        rw [List.map_cons, List.isChain_cons_cons] at hchain
        refine ⟨_, (maskStep_eq_ok hlen).2 ⟨(text, mask), hlayer, hchain.1, rfl⟩, ?_⟩
        refine (ih rfl).2 ⟨layers, hrest, hchain.2, ?_, ?_, hlast⟩
        · rw [hmask, labels, List.append_assoc]
        · rw [hids, List.map_cons, List.getLast?_cons, Option.getD_some]

/-- It succeeds iff nothing fails and the renderings grow; the mask follows them. -/
theorem buildIncrementalTokenMask_eq_ok {ids : List Int} {mask : List Bool} :
    buildIncrementalTokenMask render messages roleToMask collapse = .ok (ids, mask) ↔
      ∃ layers, List.Forall₂ (Layer render messages roleToMask) (taken collapse messages) layers ∧
        (layers.map Prod.fst).IsChain (· <+: ·) ∧ mask = labels 0 layers ∧
        ids = ((layers.map Prod.fst).getLast?).getD [] := by
  have hloop : messages.zipIdx.foldlM (fun s (e : Message × Nat) =>
      if isCollapsed collapse messages e.2 then .ok s else maskStep render messages roleToMask s e.1 e.2) ⟨[], [], 0⟩ =
      (taken collapse messages).foldlM (fun s e => maskStep render messages roleToMask s e.1 e.2) ⟨[], [], 0⟩ := by
    unfold taken
    rw [List.foldlM_filter]
    congr 1
    funext s e
    cases isCollapsed collapse messages e.2 <;> rfl
  have hchain : ∀ layers : List (List Int × Bool), (([] : List Int) :: layers.map Prod.fst).IsChain (· <+: ·) ↔
      (layers.map Prod.fst).IsChain (· <+: ·) := by
    intro layers
    cases layers with
    | nil => simp
    | cons layer layers => simp
  unfold buildIncrementalTokenMask
  rw [hloop, bind_eq_ok]
  constructor
  · rintro ⟨s, hs, h⟩
    cases h
    obtain ⟨layers, hall, hgrow, hmask, hids, -⟩ := (foldlM_maskStep_eq_ok rfl).1 hs
    exact ⟨layers, hall, (hchain layers).1 hgrow, hmask, hids⟩
  · rintro ⟨layers, hall, hgrow, rfl, rfl⟩
    exact ⟨⟨_, _, List.length _⟩, (foldlM_maskStep_eq_ok rfl).2 ⟨layers, hall, (hchain layers).2 hgrow, rfl, rfl, rfl⟩, rfl⟩

theorem buildIncrementalTokenMask_length {ids : List Int} {mask : List Bool}
    (h : buildIncrementalTokenMask render messages roleToMask collapse = .ok (ids, mask)) : ids.length = mask.length := by
  obtain ⟨layers, -, hgrow, rfl, rfl⟩ := buildIncrementalTokenMask_eq_ok.1 h
  have hlen := length_labels (nondecreasing_zero hgrow)
  rw [Nat.zero_add] at hlen
  rw [hlen, List.getLast?_map, List.getLast?_map]
  cases layers.getLast? <;> rfl

end Spec

/-! ## Templates that never fail -/

/-- What a template makes of the conversation up to the message at `idx`. -/
def rendering (template : List Message → Bool → List Int) (messages : List Message) (idx : Nat) : List Int :=
  template (messages.take (idx + 1)) (shouldAddGenerationPrompt messages idx)

section Template

variable [PyText] {template : List Message → Bool → List Int} {messages : List Message} {roleToMask : Message → Bool}
  {collapse : Bool}

omit [PyText] in
/-- The last message is never collapsed, and no generation prompt follows it. -/
theorem getLast?_taken (template : List Message → Bool → List Int) (collapse : Bool) (hne : messages ≠ []) :
    ∃ e, (taken collapse messages).getLast? = some e ∧
    rendering template messages e.2 = template messages false := by
  obtain ⟨l, message, rfl⟩ := (List.eq_nil_or_concat' messages).resolve_left hne
  have hkept : isCollapsed collapse (l ++ [message]) l.length = false := by simp [isCollapsed, hasRole]
  refine ⟨(message, l.length), ?_, ?_⟩
  · unfold taken
    simp [List.zipIdx_append, List.filter_append, hkept]
  · have htake : (l ++ [message]).take (l.length + 1) = l ++ [message] := List.take_of_length_le (by simp)
    unfold rendering
    rw [htake]
    simp [shouldAddGenerationPrompt, hasRole]

omit [PyText] in
theorem forall₂_layer_iff {layers : List (List Int × Bool)} {l : List (Message × Nat)} :
    List.Forall₂ (Layer (fun ms prompt => .ok (template ms prompt)) messages fun message => .ok (roleToMask message))
      l layers ↔ layers = l.map fun e => (rendering template messages e.2, roleToMask e.1) := by
  induction l generalizing layers with
  | nil => simp
  | cons e l ih =>
      rw [List.forall₂_cons_left_iff, List.map_cons]
      simp only [ih, Layer, Except.ok.injEq]
      constructor
      · rintro ⟨layer, rest, ⟨htext, hmask⟩, rfl, rfl⟩
        exact congrArg (· :: _) (Prod.ext htext.symm hmask.symm)
      · rintro rfl
        exact ⟨_, _, ⟨rfl, rfl⟩, rfl, rfl⟩

/-- **Main.** It succeeds iff the renderings grow. Then it returns the rendering of the conversation, and each token
carries the mask of the first message whose rendering covers it. -/
theorem incrementalTokenMask (template : List Message → Bool → List Int) (messages : List Message)
    (roleToMask : Message → Bool) (collapse : Bool) :
    ((∃ r, buildIncrementalTokenMask (fun ms prompt => .ok (template ms prompt)) messages
        (fun message => .ok (roleToMask message)) collapse = .ok r) ↔
      ((taken collapse messages).map fun e => rendering template messages e.2).IsChain (· <+: ·)) ∧
    ∀ ids mask, buildIncrementalTokenMask (fun ms prompt => .ok (template ms prompt)) messages
        (fun message => .ok (roleToMask message)) collapse = .ok (ids, mask) →
      ids = (if messages = [] then [] else template messages false) ∧ mask.length = ids.length ∧
        ∀ i < ids.length, ∃ e, mask[i]? = some (roleToMask e.1) ∧
          (taken collapse messages).find? (fun e => i < (rendering template messages e.2).length) = some e := by
  constructor
  · constructor
    · rintro ⟨⟨ids, mask⟩, h⟩
      obtain ⟨layers, hall, hgrow, -, -⟩ := buildIncrementalTokenMask_eq_ok.1 h
      rw [forall₂_layer_iff.1 hall, List.map_map] at hgrow
      exact hgrow
    · intro hgrow
      refine ⟨(_, _), buildIncrementalTokenMask_eq_ok.2 ⟨_, forall₂_layer_iff.2 rfl, ?_, rfl, rfl⟩⟩
      rw [List.map_map]
      exact hgrow
  · intro ids mask h
    have hlen := buildIncrementalTokenMask_length h
    obtain ⟨layers, hall, hgrow, rfl, hids⟩ := buildIncrementalTokenMask_eq_ok.1 h
    have hlayers := forall₂_layer_iff.1 hall
    refine ⟨?_, hlen.symm, fun i hi => ?_⟩
    · split
      · rename_i hnil
        subst hnil
        rw [hids, hlayers]
        rfl
      · rename_i hne
        obtain ⟨e, he, htext⟩ := getLast?_taken template collapse hne
        rw [hids, hlayers, List.map_map, List.getLast?_map, he]
        exact htext
    · obtain ⟨mask, hmask⟩ : ∃ mask, (labels 0 layers)[i]? = some mask := ⟨_, List.getElem?_eq_getElem (hlen ▸ hi)⟩
      have hlabel := getElem?_labels (nondecreasing_zero hgrow) i
      rw [hmask, hlayers, List.find?_map, Option.map_map] at hlabel
      obtain ⟨e, he, hcover⟩ := Option.map_eq_some_iff.1 hlabel.symm
      refine ⟨e, hmask.trans (congrArg some hcover.symm), ?_⟩
      simpa [Function.comp_def] using he

end Template

/-- A template that begins every conversation with a token of its own. -/
def openingTemplate (messages : List Message) (_ : Bool) : List Int := 1 :: messages.map fun _ => 2

/-- No message, no rendering: what it returns is not what the template makes of no messages. -/
theorem incrementalTokenMask_empty : ∃ ids mask,
    @buildIncrementalTokenMask bareText (fun ms prompt => .ok (openingTemplate ms prompt)) [] (fun _ => .ok true) true =
      .ok (ids, mask) ∧ ids ≠ openingTemplate [] false :=
  ⟨[], [], rfl, nofun⟩

end AuroraRl.Sft
