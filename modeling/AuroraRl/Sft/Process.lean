import AuroraRl.Sft.ChatTemplate
import AuroraRl.Sft.Stack

/-!
# From an example to a sample

* `SFTDataset.tokenise` : the messages and tools of an example, its tokens and their mask;
* `SFTDataset.finish` : the end token, the shift by one, and the checks;
* `SFTDataset.process` : `_process`;
* `LosesEos` : the only end token of an example is its first token;
* `sftProcess` : what `_process` returns is sound iff no example that can be trained on loses its end token.
-/

namespace AuroraRl.Sft

/-- The roles to train on. -/
structure LossMaskConfig where
  system : Bool
  user : Bool
  assistant : Bool
  tool : Bool

/-- A renderer: `build_training_sample` gives every token its mask. -/
structure Renderer where
  buildTrainingSample : List Message → (Message → Except PyException Bool) → List PyData →
    Except PyException (List Int × List Bool)
  aligned : ∀ messages roleToMask tools ids mask,
    buildTrainingSample messages roleToMask tools = .ok (ids, mask) → ids.length = mask.length

/-- The fields of the dataset that `_process` reads. -/
structure SFTDataset where
  tokenizer : Option Tokenizer
  seqLen : Int
  lossMaskConfig : LossMaskConfig
  renderer : Option Renderer

/-- What `_process` returns for an example that is kept. -/
inductive Processed
  | unprocessed (row : PyDict)
  | sample (x : Sample)

section Tokens

variable [Unicode] [PyText]

def resolveMessages (row : PyDict) : Except PyException (List Message) := do
  let messages ← match row.get? "messages", row.get? "prompt", row.get? "completion" with
    | some messages, _, _ => normalizeMessages (some messages) "assistant"
    | none, some prompt, some completion => do
      let prompt ← normalizeMessages (some prompt) "user"
      let completion ← normalizeMessages (some completion) "assistant"
      pure (prompt ++ completion)
    | none, _, _ =>
      raiseValueError ("All examples in the dataset must have either a 'messages' column " ++
        "or both 'prompt' and 'completion' columns for SFT")
  let messages ← deserializeToolCalls messages
  return stripMessageContent messages

def oaiTool (tool : PyData) : Except PyException PyData := do
  let entries ← tool.getAttr
  if (entries.get? "type").any (·.isStr "function") && (entries.get? "function").isSome then return tool
  else
    let field (key : String) : String × PyData := (key, (entries.get? key).getD .none)
    let strict := if PyData.isNone (entries.get? "strict") then [] else [field "strict"]
    return .dict [("type", .str "function"),
      ("function", .dict ([field "name", field "description", field "parameters"] ++ strict))]

def resolveTools (row : PyDict) : Except PyException (List PyData) := do
  let rawTools := ((row.get? "tools").or (row.get? "tool_defs")).getD .none
  if rawTools.truthy then
    let rawTools ← match rawTools with
      | .str s => PyText.loads s
      | _ => .ok rawTools
    let tools ← rawTools.iter
    tools.mapM oaiTool
  else return []

def shouldMask (config : LossMaskConfig) (message : Message) : Except PyException Bool :=
  match message.get? "role" with
  | none => .error ⟨.assertionError, "Message must have a role"⟩
  | some role =>
    if role.isStr "user" then .ok config.user
    else if role.isStr "assistant" then .ok config.assistant
    else if role.isStr "system" then .ok config.system
    else if role.isStr "tool" then .ok config.tool
    else .error ⟨.valueError, "Invalid message role: " ++ PyText.str role⟩

namespace SFTDataset

/-- The tokens of an example and their mask; none if its template is not stable. -/
def tokenise (dataset : SFTDataset) (tokenizer : Tokenizer) (row : PyDict) :
    Except PyException (Option (List Int × List Bool)) := do
  let messages ← resolveMessages row
  let tools ← resolveTools row
  match dataset.renderer with
  | some renderer => (renderer.buildTrainingSample messages (shouldMask dataset.lossMaskConfig) tools).map some
  | none =>
    let kwargs := (row.get? "chat_template_kwargs").getD (.dict [])
    let render (messages : List Message) (prompt : Bool) := renderMessages tokenizer messages (some tools) kwargs prompt none
    match buildIncrementalTokenMask render messages (shouldMask dataset.lossMaskConfig) true with
    | .ok tokenised => .ok (some tokenised)
    | .error (.incrementalTokenization _) => .ok none
    | .error (.raised e) => .error e

end SFTDataset

end Tokens

/-- The tokens of an example with an end token. -/
def withEos (eos : Int) (ids : List Int) : List Int := if eos ∈ ids then ids else ids ++ [eos]

/-- The mask of the tokens with an end token, which is trained on where it was missing. -/
def maskWithEos (eos : Int) (ids : List Int) (mask : List Bool) : List Bool := if eos ∈ ids then mask else mask ++ [true]

namespace SFTDataset

/-- From the tokens to the sample. -/
def finish (dataset : SFTDataset) (eos : Int) (ids : List Int) (mask : List Bool) : Except PyException (Option Sample) :=
  let targetIds := (withEos eos ids).tail
  let lossMask := (maskWithEos eos ids mask).tail
  let inputIds := (withEos eos ids).dropLast
  if true ∉ sliceTo lossMask dataset.seqLen then .ok none
  else if hlen : inputIds.length = lossMask.length ∧ lossMask.length = targetIds.length then do
    pyAssert (true ∈ lossMask) "There are no tokens in this sample that contribute to the loss"
    pyAssert (eos ∈ targetIds) "EOS token ID must be present in target_ids"
    return some
      { inputIds := inputIds
        positionIds := (List.range inputIds.length).map Int.ofNat
        lossMask := lossMask
        targetIds := targetIds
        positionIds_le := Nat.le_of_eq (by rw [List.length_map, List.length_range])
        lossMask_le := Nat.le_of_eq hlen.1.symm
        targetIds_le := Nat.le_of_eq (hlen.1.trans hlen.2).symm }
  else .error ⟨.assertionError, "input_ids, loss_mask and target_ids must have the same length, but got len(input_ids)=" ++
    toString inputIds.length ++ ", len(loss_mask)=" ++ toString lossMask.length ++ ", len(target_ids)=" ++
    toString targetIds.length⟩

def process [Unicode] [PyText] (dataset : SFTDataset) (row : PyDict) : Except PyException (Option Processed) :=
  match dataset.tokenizer with
  | none => .ok (some (.unprocessed row))
  | some tokenizer => do
    match ← dataset.tokenise tokenizer row with
    | none => return none
    | some (ids, mask) =>
      let x ← dataset.finish tokenizer.eosTokenId ids mask
      return x.map .sample

end SFTDataset

/-! ## What it returns -/

/-- A sample of the tokens of an example: each target follows its input, and one is trained on. -/
structure SampleOf (tokens : List Int) (x : Sample) : Prop where
  nonempty : 0 < x.inputIds.length
  targetIds : x.targetIds.length = x.inputIds.length
  lossMask : x.lossMask.length = x.inputIds.length
  positionIds : x.positionIds.length = x.inputIds.length
  follows : ∀ i < x.inputIds.length, x.inputIds[i]? = tokens[i]? ∧ x.targetIds[i]? = tokens[i + 1]?
  trained : true ∈ x.lossMask

/-- The first token is the only end token, and a later one within the window is trained on. -/
def LosesEos (eos seqLen : Int) (ids : List Int) (mask : List Bool) : Prop :=
  ids.head? = some eos ∧ eos ∉ ids.tail ∧ true ∈ sliceTo mask.tail seqLen

theorem tokenise_length [Unicode] [PyText] {dataset : SFTDataset} {tokenizer : Tokenizer} {row : PyDict} {ids : List Int}
    {mask : List Bool} (h : dataset.tokenise tokenizer row = .ok (some (ids, mask))) : ids.length = mask.length := by
  unfold SFTDataset.tokenise at h
  obtain ⟨messages, -, h⟩ := bind_eq_ok.1 h
  obtain ⟨tools, -, h⟩ := bind_eq_ok.1 h
  split at h
  · obtain ⟨tokenised, hbuilt, htokenised⟩ := map_eq_ok.1 h
    cases htokenised
    exact Renderer.aligned _ _ _ _ _ _ hbuilt
  · dsimp only at h
    split at h
    · rename_i hbuilt
      cases h
      exact buildIncrementalTokenMask_length hbuilt
    · cases h
    · cases h

section Finish

variable {dataset : SFTDataset} {eos : Int} {ids : List Int} {mask : List Bool}

/-- The end token is a target unless it is the first token only. -/
theorem eos_mem_tail_iff (hne : (withEos eos ids).tail ≠ []) :
    eos ∈ (withEos eos ids).tail ↔ ¬ (ids.head? = some eos ∧ eos ∉ ids.tail) := by
  unfold withEos at hne ⊢
  split
  · rename_i hmem
    cases ids with
    | nil => simp at hmem
    | cons id ids =>
        rw [List.mem_cons] at hmem
        simp only [List.tail_cons, List.head?_cons, Option.some.injEq]
        constructor
        · rintro hin ⟨-, hnot⟩
          exact hnot hin
        · intro hnot
          rcases hmem with rfl | hmem
          · by_contra hin
            exact hnot ⟨rfl, hin⟩
          · exact hmem
  · rename_i hmem
    cases ids with
    | nil => simp [hmem] at hne
    | cons id ids =>
        have hid : id ≠ eos := fun h => hmem (h ▸ List.mem_cons_self)
        simp [hid]

theorem length_maskWithEos (eos : Int) (h : ids.length = mask.length) :
    (maskWithEos eos ids mask).length = (withEos eos ids).length := by
  unfold maskWithEos withEos
  split <;> simp [h]

theorem finish_untrained (h : true ∉ sliceTo (maskWithEos eos ids mask).tail dataset.seqLen) :
    dataset.finish eos ids mask = .ok none := if_pos h

theorem shifted_lengths (eos : Int) (hlen : ids.length = mask.length) :
    (withEos eos ids).dropLast.length = (maskWithEos eos ids mask).tail.length ∧
      (maskWithEos eos ids mask).tail.length = (withEos eos ids).tail.length := by
  have hlen' := length_maskWithEos eos hlen
  simp only [List.length_dropLast, List.length_tail]
  omega

theorem tail_ne_nil {seqLen : Int} (hlen : ids.length = mask.length)
    (h : true ∈ sliceTo (maskWithEos eos ids mask).tail seqLen) : (withEos eos ids).tail ≠ [] := by
  intro hnil
  have hpos := List.length_pos_of_mem (mem_of_mem_sliceTo h)
  rw [(shifted_lengths eos hlen).2, hnil] at hpos
  exact Nat.lt_irrefl 0 hpos

theorem finish_lost (hlen : ids.length = mask.length)
    (h : true ∈ sliceTo (maskWithEos eos ids mask).tail dataset.seqLen) (heos : eos ∉ (withEos eos ids).tail) :
    dataset.finish eos ids mask = .error ⟨.assertionError, "EOS token ID must be present in target_ids"⟩ := by
  unfold SFTDataset.finish
  dsimp only
  rw [if_neg (not_not_intro h), dif_pos (shifted_lengths eos hlen), (pyAssert_eq_ok (u := ())).2 (mem_of_mem_sliceTo h),
    ok_bind]
  unfold pyAssert
  rw [if_neg heos]
  rfl

theorem finish_sample (hlen : ids.length = mask.length)
    (h : true ∈ sliceTo (maskWithEos eos ids mask).tail dataset.seqLen) (heos : eos ∈ (withEos eos ids).tail) :
    ∃ x, dataset.finish eos ids mask = .ok (some x) ∧ SampleOf (withEos eos ids) x := by
  have hlengths := shifted_lengths eos hlen
  unfold SFTDataset.finish
  dsimp only
  rw [if_neg (not_not_intro h), dif_pos hlengths, (pyAssert_eq_ok (u := ())).2 (mem_of_mem_sliceTo h), ok_bind,
    (pyAssert_eq_ok (u := ())).2 heos, ok_bind]
  refine ⟨_, rfl, ?_, (hlengths.1.trans hlengths.2).symm, hlengths.1.symm, ?_, ?_, mem_of_mem_sliceTo h⟩
  · show 0 < (withEos eos ids).dropLast.length
    rw [hlengths.1, hlengths.2]
    exact List.length_pos_of_mem heos
  · simp
  · intro i hi
    have hi' : i < (withEos eos ids).length - 1 := by simpa using hi
    refine ⟨?_, List.getElem?_tail⟩
    rw [List.getElem?_dropLast, if_pos hi']

end Finish

theorem losesEos_iff {eos seqLen : Int} {ids : List Int} {mask : List Bool} (hlen : ids.length = mask.length) :
    LosesEos eos seqLen ids mask ↔
      true ∈ sliceTo (maskWithEos eos ids mask).tail seqLen ∧ eos ∉ (withEos eos ids).tail := by
  constructor
  · rintro ⟨hhead, hnot, htrained⟩
    have hmem : eos ∈ ids := List.mem_of_mem_head? hhead
    unfold maskWithEos withEos
    rw [if_pos hmem, if_pos hmem]
    exact ⟨htrained, hnot⟩
  · rintro ⟨htrained, hnot⟩
    obtain ⟨hhead, hids⟩ := not_not.1 fun h => hnot ((eos_mem_tail_iff (tail_ne_nil hlen htrained)).2 h)
    have hmem : eos ∈ ids := List.mem_of_mem_head? hhead
    unfold maskWithEos at htrained
    rw [if_pos hmem] at htrained
    exact ⟨hhead, hids, htrained⟩

section Process

variable [Unicode] [PyText] {dataset : SFTDataset} {tokenizer : Tokenizer} {row : PyDict} {ids : List Int}
  {mask : List Bool}

theorem process_none (htokenizer : dataset.tokenizer = some tokenizer)
    (h : dataset.tokenise tokenizer row = .ok none) : dataset.process row = .ok none := by
  unfold SFTDataset.process
  rw [htokenizer]
  dsimp only
  rw [h, ok_bind]
  rfl

theorem process_some (htokenizer : dataset.tokenizer = some tokenizer)
    (h : dataset.tokenise tokenizer row = .ok (some (ids, mask))) :
    dataset.process row = (dataset.finish tokenizer.eosTokenId ids mask).map (·.map .sample) := by
  unfold SFTDataset.process
  rw [htokenizer]
  dsimp only
  rw [h, ok_bind]
  dsimp only
  cases dataset.finish tokenizer.eosTokenId ids mask <;> rfl

/-- **Main.** `_process` skips an example or returns a sample of its tokens, unless the example loses its end token. -/
theorem sftProcess (htokenizer : dataset.tokenizer = some tokenizer) {tokenised : Option (List Int × List Bool)}
    (h : dataset.tokenise tokenizer row = .ok tokenised) :
    (dataset.process row = .ok none ∨ ∃ ids mask x, tokenised = some (ids, mask) ∧
        dataset.process row = .ok (some (.sample x)) ∧ SampleOf (withEos tokenizer.eosTokenId ids) x) ↔
      ∀ ids mask, tokenised = some (ids, mask) → ¬ LosesEos tokenizer.eosTokenId dataset.seqLen ids mask := by
  cases tokenised with
  | none => exact iff_of_true (.inl (process_none htokenizer h)) fun _ _ h => nomatch h
  | some tokenised =>
      obtain ⟨ids, mask⟩ := tokenised
      have hlen := tokenise_length h
      rw [process_some htokenizer h]
      constructor
      · rintro hsafe ids' mask' heq hlost
        cases heq
        obtain ⟨htrained, heos⟩ := (losesEos_iff hlen).1 hlost
        rw [finish_lost hlen htrained heos] at hsafe
        rcases hsafe with hnone | ⟨_, _, _, _, hsome, _⟩
        · cases hnone
        · cases hsome
      · intro hkept
        by_cases htrained : true ∈ sliceTo (maskWithEos tokenizer.eosTokenId ids mask).tail dataset.seqLen
        · have heos : tokenizer.eosTokenId ∈ (withEos tokenizer.eosTokenId ids).tail := by
            by_contra heos
            exact hkept ids mask rfl ((losesEos_iff hlen).2 ⟨htrained, heos⟩)
          obtain ⟨x, hx, hsample⟩ := finish_sample hlen htrained heos
          rw [hx]
          exact .inr ⟨ids, mask, x, rfl, rfl, hsample⟩
        · rw [finish_untrained htrained]
          exact .inl rfl

end Process

/-! ## A template that opens with the end token -/

/-- The end token opens a conversation, as a start token does, and never closes it. -/
def openingTokenizer : Tokenizer where
  applyChatTemplate messages _ := .ok (0 :: messages.map fun _ => 7)
  eosTokenId := 0

/-- It trains on the assistant, with a window of `seqLen` tokens. -/
def openingDataset (seqLen : Int) : SFTDataset := ⟨some openingTokenizer, seqLen, ⟨false, false, true, false⟩, none⟩

/-- A question and its answer. -/
def openingRow : PyDict := [("messages", .list
  [.dict [("role", .str "user"), ("content", .str "hi")], .dict [("role", .str "assistant"), ("content", .str "yo")]])]

theorem tokenise_openingRow (seqLen : Int) :
    @SFTDataset.tokenise asciiUnicode bareText (openingDataset seqLen) openingTokenizer openingRow =
      .ok (some ([0, 7, 7], [false, false, true])) := by
  rfl

/-- A renderer with a token for each message, masked by its role, and the end token after them, which is trained on. -/
def closingRenderer : Renderer where
  buildTrainingSample messages roleToMask _ := do
    let mask ← messages.mapM roleToMask
    return (messages.map (fun _ => 7) ++ [0], mask ++ [true])
  aligned messages roleToMask tools ids mask h := by
    obtain ⟨roleMask, hmask, h⟩ := bind_eq_ok.1 h
    cases h
    rw [List.length_append, List.length_append, List.length_map, (mapM_eq_ok_iff.1 hmask).length_eq]
    rfl

def closingDataset : SFTDataset := { openingDataset 128 with renderer := some closingRenderer }

theorem tokenise_closing : @SFTDataset.tokenise asciiUnicode bareText closingDataset openingTokenizer openingRow =
    .ok (some ([7, 7, 0], [false, true, true])) := by
  rfl

/-- With the tokenizer the answer ends the window, so that nothing is left to train on; the renderer gives a sample. -/
theorem sftProcess_openingRow :
    (@SFTDataset.process asciiUnicode bareText (openingDataset 1) openingRow = .ok none ∨ ∃ ids mask x,
      (some ([0, 7, 7], [false, false, true]) : Option (List Int × List Bool)) = some (ids, mask) ∧
        @SFTDataset.process asciiUnicode bareText (openingDataset 1) openingRow = .ok (some (.sample x)) ∧
        SampleOf (withEos 0 ids) x) ∧
    ∃ x, @SFTDataset.process asciiUnicode bareText closingDataset openingRow = .ok (some (.sample x)) ∧
      SampleOf [7, 7, 0] x := by
  refine ⟨?_, ?_⟩
  · refine (@sftProcess asciiUnicode bareText (openingDataset 1) openingTokenizer openingRow rfl _
      (tokenise_openingRow 1)).2 fun ids mask h hlost => ?_
    cases h
    exact absurd hlost.2.2 (by decide)
  · have hsome : ∃ x, @SFTDataset.process asciiUnicode bareText closingDataset openingRow = .ok (some (.sample x)) := ⟨_, rfl⟩
    obtain ⟨x, hx⟩ := hsome
    have hkept : ∀ ids mask, (some ([7, 7, 0], [false, true, true]) : Option (List Int × List Bool)) = some (ids, mask) →
        ¬ LosesEos 0 128 ids mask := by
      intro ids mask h hlost
      cases h
      cases hlost.1
    rcases (@sftProcess asciiUnicode bareText closingDataset openingTokenizer openingRow rfl _ tokenise_closing).2 hkept
      with hnone | ⟨ids, mask, y, htokens, hy, hsample⟩
    · cases hx.symm.trans hnone
    · cases htokens
      exact ⟨y, hy, hsample⟩

/-- The end token is the first token only: an assertion of `_process` fails. -/
theorem sftProcess_openingEos :
    @SFTDataset.tokenise asciiUnicode bareText (openingDataset 128) openingTokenizer openingRow =
        .ok (some ([0, 7, 7], [false, false, true])) ∧
      @SFTDataset.process asciiUnicode bareText (openingDataset 128) openingRow =
        .error ⟨.assertionError, "EOS token ID must be present in target_ids"⟩ := by
  refine ⟨tokenise_openingRow 128, ?_⟩
  rw [@process_some asciiUnicode bareText (openingDataset 128) openingTokenizer openingRow _ _ rfl
    (tokenise_openingRow 128)]
  rfl

end AuroraRl.Sft
