import AuroraRl.Lib.Collective
import AuroraRl.Lib.Serial
import AuroraRl.Torch.DType
import AuroraRl.Weights.Layers
import Mathlib

/-!
# State dicts over NCCL

* `Tensor`, `TensorDict` : what is sent, with its type, its shape and its elements in order;
* `WireTypes`, `Pickle` : the two types of the headers, and the metadata as bytes;
* `broadcastStateDict`, `broadcastWeights` : what the trainer broadcasts;
* `receiveStateDict`, `receiveWeights` : the calls of an inference worker, and what it yields;
* `Sized` : lengths that a Python object can have;
* `receives_broadcastStateDict` : one state dict; `receiveWeights_broadcastWeights` : all of them.
-/

namespace AuroraRl.Nccl

open AuroraRl.Weights (Key)
open Collective

/-- The element types of the headers. -/
class WireTypes (D : Type) where
  long : D
  uint8 : D

/-- The integers of an element of type `torch.long`. -/
def IsLong (n : Int) : Prop := -2 ^ 63 ≤ n ∧ n < 2 ^ 63

instance (n : Int) : Decidable (IsLong n) := inferInstanceAs (Decidable (_ ∧ _))

/-- Elements, with these integers among them. -/
class WireElements (R : Type) where
  ofInt : Int → R
  item : R → Int
  item_ofInt : ∀ n, IsLong n → item (ofInt n) = n

/-- `pickle`. -/
class Pickle (α : Type) where
  dumps : α → List UInt8
  loads : List UInt8 → Except PyException α
  loads_dumps : ∀ a, loads (dumps a) = .ok a

/-- A tensor; its elements are in row-major order. -/
structure Tensor (D R : Type) where
  dtype : D
  shape : List Nat
  data : List R
  numel : data.length = shape.prod

abbrev TensorDict (D R : Type) := Dict Key (Tensor D R)

/-- Key, shape and number of elements, by element type. -/
abbrev Metadata (D : Type) := Dict D (List (Key × List Nat × Nat))

theorem map_entries_nodup {κ ν ν' : Type} (f : ν → ν') (d : Dict κ ν) :
    ((d.entries.map fun e => (e.1, f e.2)).map Prod.fst).Nodup := by
  rw [List.map_map]
  exact d.nodup

section Programs

variable {D R : Type} [DecidableEq D] [WireTypes D] [WireElements R] [Pickle (Metadata D)]

/-! ## The trainer -/

/-- `torch.tensor([n], dtype=torch.long)`, broadcast. -/
def longMessage (n : Int) : Message D R := ⟨WireTypes.long, [WireElements.ofInt n]⟩

def broadcastInteger (n : Int) : Except PyException (Message D R) :=
  if IsLong n then .ok (longMessage n) else .error ⟨.runtimeError, "Overflow when unpacking long long"⟩

def dtypeGroups (stateDict : TensorDict D R) : Dict D (List (Key × Tensor D R)) :=
  Dict.empty.appendAll (stateDict.entries.map fun e => (e.2.dtype, e))

def metadata (groups : Dict D (List (Key × Tensor D R))) : Metadata D where
  entries := groups.entries.map fun g => (g.1, g.2.map fun e => (e.1, e.2.shape, e.2.data.length))
  nodup := map_entries_nodup _ groups

/-- `torch.cat` of flat tensors of one element type. -/
def cat : List (Tensor D R) → Except PyException (Message D R)
  | [] => .error ⟨.runtimeError, "torch.cat(): expected a non-empty list of Tensors"⟩
  | t :: ts => .ok ⟨t.dtype, (t :: ts).flatMap Tensor.data⟩

def broadcastStateDict (stateDict : TensorDict D R) : Except PyException (List (Message D R)) := do
  let groups := dtypeGroups stateDict
  let state := Pickle.dumps (metadata groups)
  let size ← broadcastInteger state.length
  let concatenated ← groups.entries.mapM fun g => cat (g.2.map Prod.snd)
  return size ::
    ⟨WireTypes.uint8, state.map fun b => WireElements.ofInt b.toNat⟩ :: concatenated

def getMaxLayerNum (stateDict : TensorDict D R) (layerPrefix : Key) : Nat :=
  (stateDict.keys.map (Weights.layerCount layerPrefix)).foldl max 0

def filterStateDictByLayers (stateDict : TensorDict D R) (numLayers : Nat) (layerPrefix : Key) :
    List (Option Nat × TensorDict D R) :=
  (none, stateDict.restrict fun k => !Key.under layerPrefix k) ::
    (List.range numLayers).map fun i => (some i, stateDict.restrict (Key.under (layerPrefix ++ [.index i])))

def broadcastStateDicts (numStateDicts : Nat) (stateDicts : List (TensorDict D R)) :
    Except PyException (List (Message D R)) := do
  let count ← broadcastInteger numStateDicts
  let messages ← stateDicts.mapM broadcastStateDict
  return count :: messages.flatten

/-- `broadcast_weights` of the master; `preprocess` resolves a layer and converts it. -/
def broadcastWeights (preprocess : Option Nat → TensorDict D R → Except PyException (TensorDict D R)) (layerPrefix : Key)
    (stateDict : TensorDict D R) : Except PyException (List (Message D R)) := do
  let numLayers := getMaxLayerNum stateDict layerPrefix
  let layers ← (filterStateDictByLayers stateDict numLayers layerPrefix).mapM fun layer => preprocess layer.1 layer.2
  broadcastStateDicts (numLayers + 1) layers

/-! ## An inference worker -/

def item : List R → Except PyException Int
  | [r] => .ok (WireElements.item r)
  | data => .error ⟨.runtimeError, "a Tensor with " ++ toString data.length ++ " elements cannot be converted to Scalar"⟩

def receiveInteger : Program D R PyException Int :=
  .broadcast ⟨WireTypes.long, 1⟩ fun data => .ofExcept (item data)

def view (dtype : D) (shape : List Nat) (data : List R) : Except PyException (Tensor D R) :=
  if numel : data.length = shape.prod then .ok { dtype, shape, data, numel }
  else .error ⟨.runtimeError, "shape '" ++ toString shape ++ "' is invalid for input of size " ++ toString data.length⟩

/-- The concatenation split back, from an offset on. -/
def splitBack (dtype : D) (concatenated : List R) :
    Nat → List (Key × List Nat × Nat) → Except PyException (List (Key × Tensor D R))
  | _, [] => .ok []
  | offset, (key, shape, numel) :: infos => do
    let tensor ← view dtype shape ((concatenated.take (offset + numel)).drop offset)
    let tensors ← splitBack dtype concatenated (offset + numel) infos
    return (key, tensor) :: tensors

def receiveGroup (dtype : D) (infos : List (Key × List Nat × Nat)) : Program D R PyException (List (Key × Tensor D R)) :=
  .broadcast ⟨dtype, (infos.map fun info => info.2.2).sum⟩ fun concatenated =>
    .ofExcept (splitBack dtype concatenated 0 infos)

def receiveMetadata : Program D R PyException (Metadata D) := do
  let size ← receiveInteger
  if size < 0 then .raise ⟨.runtimeError, "Trying to create tensor with negative dimension " ++ toString size⟩
  else .broadcast ⟨WireTypes.uint8, size.toNat⟩ fun state =>
    .ofExcept (Pickle.loads (state.map fun r => UInt8.ofNat (WireElements.item r).toNat))

/-- `receive_state_dict`, with all it yields. -/
def receiveStateDict : Program D R PyException (List (Key × Tensor D R)) := do
  let metadata ← receiveMetadata
  let tensors ← Program.collect (metadata.entries.map fun g => receiveGroup g.1 g.2)
  return tensors.flatten

/-- The worker's loop over the state dicts. -/
def receiveWeights : Program D R PyException (List (Key × Tensor D R)) := do
  let numStateDicts ← receiveInteger
  let tensors ← Program.collect ((List.range numStateDicts.toNat).map fun _ => receiveStateDict)
  return tensors.flatten

end Programs

/-! ## Groups -/

section Groups

variable {D R : Type}

/-- A group is not empty, and its tensors are of one element type. -/
structure IsGroup (g : D × List (Key × Tensor D R)) : Prop where
  ne_nil : g.2 ≠ []
  dtype : ∀ e ∈ g.2, e.2.dtype = g.1

theorem isGroup_of_mem [DecidableEq D] {stateDict : TensorDict D R} {g : D × List (Key × Tensor D R)}
    (hg : g ∈ (dtypeGroups stateDict).entries) : IsGroup g := by
  have hget := ((dtypeGroups stateDict).mem_entries_iff g.1 g.2).1 hg
  refine ⟨Dict.appendAll_ne_nil (fun k vs h => ?_) hget, fun e he => ?_⟩
  · cases h
  · rcases Dict.mem_appendAll hget he with ⟨vs, h, -⟩ | hmem
    · cases h
    · obtain ⟨e', -, heq⟩ := List.mem_map.1 hmem
      have hitem : e' = e := congrArg Prod.snd heq
      rw [← hitem]
      exact congrArg Prod.fst heq

theorem flatMap_dtypeGroups [DecidableEq D] (stateDict : TensorDict D R) :
    ((dtypeGroups stateDict).entries.flatMap Prod.snd).Perm stateDict.entries := by
  have hperm := Dict.flatMap_appendAll Dict.empty (stateDict.entries.map fun e => (e.2.dtype, e))
  rw [List.map_map] at hperm
  exact hperm.trans (List.Perm.of_eq (List.map_id _))

/-- The message of a group. -/
def concatenation (g : D × List (Key × Tensor D R)) : Message D R := ⟨g.1, g.2.flatMap fun e => e.2.data⟩

theorem IsGroup.cat {g : D × List (Key × Tensor D R)} (h : IsGroup g) :
    Nccl.cat (g.2.map Prod.snd) = .ok (concatenation g) := by
  obtain ⟨dtype, items⟩ := g
  cases items with
  | nil => exact (h.ne_nil rfl).elim
  | cons e items =>
      have hdtype := h.dtype e List.mem_cons_self
      simp only [List.map_cons, Nccl.cat, concatenation, hdtype]
      rw [← List.map_cons, List.flatMap_map]

theorem view_data (t : Tensor D R) : view t.dtype t.shape t.data = .ok t := dif_pos t.numel

/-- Splitting back takes every tensor from behind those before it. -/
theorem splitBack_concatenation {dtype : D} {items : List (Key × Tensor D R)} (h : ∀ e ∈ items, e.2.dtype = dtype)
    (before : List R) : splitBack dtype (before ++ items.flatMap fun e => e.2.data) before.length
      (items.map fun e => (e.1, e.2.shape, e.2.data.length)) = .ok items := by
  induction items generalizing before with
  | nil => rfl
  | cons e items ih =>
      obtain ⟨key, t⟩ := e
      have hdtype : t.dtype = dtype := h (key, t) List.mem_cons_self
      have hrest := ih (fun e he => h e (List.mem_cons_of_mem _ he)) (before ++ t.data)
      rw [List.length_append, List.append_assoc] at hrest
      have hslice : ((before ++ (t.data ++ items.flatMap fun e => e.2.data)).take (before.length + t.data.length)).drop
          before.length = t.data := by
        rw [List.drop_take, List.drop_left, Nat.add_sub_cancel_left, List.take_left]
      simp only [List.map_cons, List.flatMap_cons, splitBack]
      rw [hslice, hrest, ← hdtype, view_data]
      rfl

theorem receives_receiveGroup [DecidableEq D] {g : D × List (Key × Tensor D R)} (h : IsGroup g) :
    (receiveGroup g.1 (g.2.map fun e => (e.1, e.2.shape, e.2.data.length))).Receives [concatenation g] g.2 := by
  refine Program.Receives.broadcast ?_ (Program.receives_ofExcept ?_)
  · simp only [Message.call, concatenation, List.length_flatMap, List.map_map]
    rfl
  · exact splitBack_concatenation h.dtype []

end Groups

/-! ## State dicts -/

section StateDicts

variable {D R : Type} [DecidableEq D] [WireTypes D] [WireElements R]

theorem isLong_natCast {n : Nat} (h : n < 2 ^ 63) : IsLong n := by
  unfold IsLong
  omega

omit [DecidableEq D] in
theorem broadcastInteger_natCast {n : Nat} (h : n < 2 ^ 63) :
    broadcastInteger (n : Int) = .ok (longMessage n : Message D R) :=
  if_pos (isLong_natCast h)

theorem receives_receiveInteger {n : Int} (h : IsLong n) : (receiveInteger (D := D) (R := R)).Receives [longMessage n] n :=
  Program.Receives.broadcast rfl (Program.receives_ofExcept (congrArg Except.ok (WireElements.item_ofInt n h)))

variable [Pickle (Metadata D)]

/-- The state dicts and their metadata have lengths that Python objects can have, at most `sys.maxsize`. -/
structure Sized (stateDicts : List (TensorDict D R)) : Prop where
  count : stateDicts.length < 2 ^ 63
  metadata : ∀ stateDict ∈ stateDicts, (Pickle.dumps (metadata (dtypeGroups stateDict))).length < 2 ^ 63

/-- The bytes of the metadata, as they are sent. -/
def headers (state : List UInt8) : List (Message D R) :=
  [longMessage state.length, ⟨WireTypes.uint8, state.map fun b => WireElements.ofInt b.toNat⟩]

theorem receives_receiveMetadata {metadata : Metadata D} (h : (Pickle.dumps metadata).length < 2 ^ 63) :
    (receiveMetadata (D := D) (R := R)).Receives (headers (Pickle.dumps metadata)) metadata := by
  refine (receives_receiveInteger (isLong_natCast h)).bind ?_
  rw [if_neg (by omega)]
  refine Program.Receives.broadcast ?_ (Program.receives_ofExcept ?_)
  · simp [Message.call]
  · rw [List.map_map]
    refine Eq.trans (congrArg Pickle.loads ?_) (Pickle.loads_dumps metadata)
    refine Eq.trans (List.map_congr_left fun b _ => ?_) (List.map_id _)
    have hbyte : b.toNat < 2 ^ 63 := Nat.lt_trans b.toNat_lt (by decide)
    simp [WireElements.item_ofInt _ (isLong_natCast hbyte)]

/-- **One state dict.** It is sent, and a worker in step yields its tensors, by element type. -/
theorem receives_broadcastStateDict {stateDict : TensorDict D R}
    (hsize : (Pickle.dumps (metadata (dtypeGroups stateDict))).length < 2 ^ 63) : ∃ messages items,
    broadcastStateDict stateDict = .ok messages ∧ receiveStateDict.Receives messages items ∧
      items.Perm stateDict.entries := by
  have hcat : (dtypeGroups stateDict).entries.mapM (fun g => Nccl.cat (g.2.map Prod.snd)) =
      .ok ((dtypeGroups stateDict).entries.map concatenation) := by
    rw [mapM_eq_ok_iff, List.forall₂_map_right_iff, List.forall₂_same]
    exact fun g hg => (isGroup_of_mem hg).cat
  refine ⟨headers (Pickle.dumps (metadata (dtypeGroups stateDict))) ++ (dtypeGroups stateDict).entries.map concatenation,
    (dtypeGroups stateDict).entries.flatMap Prod.snd, ?_, ?_, flatMap_dtypeGroups stateDict⟩
  · simp only [broadcastStateDict, hcat, broadcastInteger_natCast hsize]
    rfl
  · refine (receives_receiveMetadata hsize).bind ?_
    have hgroups : List.Forall₂ (fun p part => Program.Receives p part.1 part.2)
        ((metadata (dtypeGroups stateDict)).entries.map fun g => receiveGroup (R := R) g.1 g.2)
        ((dtypeGroups stateDict).entries.map fun g => ([concatenation g], g.2)) := by
      simp only [metadata, List.map_map]
      rw [List.forall₂_map_left_iff, List.forall₂_map_right_iff, List.forall₂_same]
      exact fun g hg => receives_receiveGroup (isGroup_of_mem hg)
    have hcollect := (Program.Receives.collect hgroups).bind (f := fun tensors => .ret tensors.flatten)
      (Program.receives_ret _)
    rw [List.append_nil, List.map_map, List.flatMap_map, ← List.map_eq_flatMap] at hcollect
    exact hcollect

theorem receives_broadcastStateDicts {stateDicts : List (TensorDict D R)} (hsized : Sized stateDicts) : ∃ messages parts,
    broadcastStateDicts stateDicts.length stateDicts = .ok messages ∧
      receiveWeights.Receives messages parts.flatten ∧
      List.Forall₂ (fun stateDict part => part.Perm stateDict.entries) stateDicts parts := by
  obtain ⟨sent, hsent⟩ : ∃ sent : List (List (Message D R) × List (Key × Tensor D R)),
      List.Forall₂ (fun stateDict s => broadcastStateDict stateDict = .ok s.1 ∧ receiveStateDict.Receives s.1 s.2 ∧
        s.2.Perm stateDict.entries) stateDicts sent := by
    have hmetadata := hsized.metadata
    clear hsized
    induction stateDicts with
    | nil => exact ⟨[], .nil⟩
    | cons stateDict stateDicts ih =>
        obtain ⟨sent, hsent⟩ := ih fun d hd => hmetadata d (List.mem_cons_of_mem _ hd)
        obtain ⟨messages, items, hstateDict⟩ := receives_broadcastStateDict (hmetadata stateDict List.mem_cons_self)
        exact ⟨(messages, items) :: sent, .cons hstateDict hsent⟩
  have hmessages : stateDicts.mapM broadcastStateDict = .ok (sent.map Prod.fst) := by
    rw [mapM_eq_ok_iff, List.forall₂_map_right_iff]
    exact hsent.imp fun _ _ h => h.1
  refine ⟨longMessage stateDicts.length :: (sent.map Prod.fst).flatten, sent.map Prod.snd, ?_, ?_, ?_⟩
  · simp only [broadcastStateDicts, hmessages, broadcastInteger_natCast hsized.count]
    rfl
  · refine (receives_receiveInteger (isLong_natCast hsized.count)).bind ?_
    have hloop : List.Forall₂ (fun p part => Program.Receives p part.1 part.2)
        ((List.range (stateDicts.length : Int).toNat).map fun _ => receiveStateDict) sent := by
      have hturns : ((List.range (stateDicts.length : Int).toNat).map fun _ => receiveStateDict (D := D) (R := R)) =
          stateDicts.map fun _ => receiveStateDict := by
        simp [List.map_const']
      rw [hturns, List.forall₂_map_left_iff]
      exact hsent.imp fun _ _ h => h.2.1
    have hcollect := (Program.Receives.collect hloop).bind (f := fun tensors => .ret tensors.flatten)
      (Program.receives_ret _)
    rw [List.append_nil] at hcollect
    exact hcollect
  · rw [List.forall₂_map_right_iff]
    exact hsent.imp fun _ _ h => h.2.2

/-- What the trainer sends is one state dict for each that it counts. -/
theorem broadcastWeights_eq_ok {preprocess : Option Nat → TensorDict D R → Except PyException (TensorDict D R)}
    {layerPrefix : Key} {stateDict : TensorDict D R} {messages : List (Message D R)} :
    broadcastWeights preprocess layerPrefix stateDict = .ok messages ↔ ∃ layers,
      (filterStateDictByLayers stateDict (getMaxLayerNum stateDict layerPrefix) layerPrefix).mapM
        (fun layer => preprocess layer.1 layer.2) = .ok layers ∧
      broadcastStateDicts layers.length layers = .ok messages := by
  unfold broadcastWeights
  rw [bind_eq_ok]
  refine exists_congr fun layers => and_congr_right fun hlayers => ?_
  have hlength : layers.length = getMaxLayerNum stateDict layerPrefix + 1 := by
    rw [← (mapM_eq_ok_iff.1 hlayers).length_eq]
    simp [filterStateDictByLayers]
  rw [hlength]

/-- **The wire.** Whatever state dicts are sent, a worker issues the calls of the messages, takes all of them, and yields
the entries of each state dict, every key once; and the weights of a model are sent as such a sequence. -/
theorem receiveWeights_broadcastWeights :
    (∀ stateDicts : List (TensorDict D R), Sized stateDicts → ∃ messages parts,
      broadcastStateDicts stateDicts.length stateDicts = .ok messages ∧
        receiveWeights.run messages = (messages.map Message.call, .ok parts.flatten, []) ∧
        List.Forall₂ (fun stateDict part => part.Perm stateDict.entries ∧ (part.map Prod.fst).Nodup) stateDicts parts) ∧
    ∀ preprocess layerPrefix (stateDict : TensorDict D R) messages,
      broadcastWeights preprocess layerPrefix stateDict = .ok messages → ∃ layers,
        (filterStateDictByLayers stateDict (getMaxLayerNum stateDict layerPrefix) layerPrefix).mapM
          (fun layer => preprocess layer.1 layer.2) = .ok layers ∧
        broadcastStateDicts layers.length layers = .ok messages := by
  refine ⟨fun stateDicts hsized => ?_, fun _ _ _ _ h => broadcastWeights_eq_ok.1 h⟩
  obtain ⟨messages, parts, hsent, hreceives, hparts⟩ := receives_broadcastStateDicts hsized
  have hrun := hreceives []
  rw [List.append_nil] at hrun
  refine ⟨messages, parts, hsent, hrun, hparts.imp fun stateDict part hperm => ⟨hperm, ?_⟩⟩
  exact (hperm.map Prod.fst).nodup_iff.2 stateDict.nodup

end StateDicts

/-! ### Four tensors of three types -/

section Example

open Serial Torch

instance : WireTypes DType := ⟨.int64, .uint8⟩

/-- Elements as `int64` bit patterns. -/
instance : WireElements (BitVec 64) where
  ofInt := BitVec.ofInt 64
  item := BitVec.toInt
  item_ofInt n h := by
    rw [BitVec.toInt_ofInt]
    unfold IsLong at h
    exact Int.bmod_eq_of_le (by omega) (by omega)

def partCode : Weights.Part → List Nat
  | .name s => 0 :: s.toList.map Char.toNat
  | .index i => [1, i]

def partOfCode : List Nat → Option Weights.Part
  | 0 :: chars => some (.name (String.ofList (chars.map Char.ofNat)))
  | [1, i] => some (.index i)
  | _ => none

theorem partOfCode_partCode (p : Weights.Part) : partOfCode (partCode p) = some p := by
  cases p with
  | index i => rfl
  | name s => simp [partCode, partOfCode, Function.comp_def, Char.ofNat_toNat]

def dtypes : List DType := [.float16, .bfloat16, .float32, .float64, .int64, .int32, .int16, .int8, .uint8]

def dtypeFormat : Format DType :=
  Format.nat.retract (fun d => dtypes.idxOf d) (fun n => dtypes[n]?) fun d => by cases d <;> rfl

def keyFormat : Format Key := ((Format.nat.list.retract partCode partOfCode partOfCode_partCode)).list

/-- Metadata as bytes; the keys are distinct in what is read. -/
def metadataFormat : Format (Metadata DType) :=
  (dtypeFormat.pair (keyFormat.pair (Format.nat.list.pair Format.nat)).list).list.retract Dict.entries
    (fun entries => if h : (entries.map Prod.fst).Nodup then some ⟨entries, h⟩ else none) fun d => dif_pos d.nodup

instance : Pickle (Metadata DType) where
  dumps := metadataFormat.write
  loads bytes :=
    match metadataFormat.read bytes with
    | some (metadata, _) => .ok metadata
    | none => .error ⟨.runtimeError, "pickle data was truncated"⟩
  loads_dumps metadata := by
    have h := metadataFormat.read_write metadata []
    rw [List.append_nil] at h
    rw [h]

/-- A matrix and an empty vector of one type, a scalar and a vector of others. -/
def mixedDict : TensorDict DType (BitVec 64) where
  entries := [(["w"], ⟨.bfloat16, [2, 2], [1, 2, 3, 4], rfl⟩), (["b", .index 0], ⟨.float32, [], [5], rfl⟩),
    (["b", .index 1], ⟨.bfloat16, [0], [], rfl⟩), (["n"], ⟨.int64, [2], [-1, 7], rfl⟩)]
  nodup := by simp

theorem receiveWeights_broadcastWeights_mixed : ∃ messages parts,
    broadcastStateDicts 2 [Dict.empty, mixedDict] = .ok messages ∧
      receiveWeights.run messages = (messages.map Message.call, .ok parts.flatten, []) ∧
      List.Forall₂ (fun stateDict part => part.Perm stateDict.entries ∧ (part.map Prod.fst).Nodup)
        [Dict.empty, mixedDict] parts := by
  refine (receiveWeights_broadcastWeights (D := DType) (R := BitVec 64)).1 [Dict.empty, mixedDict]
    ⟨by decide, fun stateDict h => ?_⟩
  rcases List.mem_pair.1 h with rfl | rfl
  · decide +kernel
  · decide +kernel

end Example

end AuroraRl.Nccl
