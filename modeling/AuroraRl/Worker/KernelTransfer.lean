import AuroraRl.Lib.Dict
import AuroraRl.Worker.ExpertMap
import Mathlib

/-!
# The kernel weight transfer

* `Tensor`, `WorkerModel` : the parameters and the expert layers of one rank;
* `loadWeightsKernel` : `load_weights_kernel`;
* `PlacesExperts` : every local slot gets the new weights of its logical expert;
* `Refreshes` : the rank's slots differ in number from the logical experts, or hold them in order;
* `kernelTransfer_places` : the two are the same on every rank.
-/

namespace AuroraRl.Worker

open Indexing

/-- A tensor, by its rows along the first dimension. -/
inductive Tensor (R : Type)
  | scalar (x : R)
  | stacked (rowShape : List Nat) (rows : List (Vector R rowShape.prod))

namespace Tensor

variable {R : Type}

def shape : Tensor R → List Nat
  | scalar _ => []
  | stacked rowShape rows => rows.length :: rowShape

def gatherRows (t : Tensor R) (indices : List Int) : Except PyException (Tensor R) :=
  match t with
  | scalar _ => .error ⟨.indexError, "too many indices for tensor of dimension 0"⟩
  | stacked rowShape rows => do
      let rows ← gather rows indices
      .ok (stacked rowShape rows)

end Tensor

/-- The `FusedMoE` modules of a rank by name, in the order of `named_modules`, and its parameters. -/
structure WorkerModel (R : Type) where
  fusedMoE : List (String × FusedMoE)
  params : Dict String (Tensor R)

def buildExpertMap (fusedMoE : List (String × FusedMoE)) : Except PyException (Dict String (List Int)) :=
  fusedMoE.foldlM
    (fun sourceIndicesByModule e => do
      match ← buildExpertSourceIndices e.2 with
      | none => .ok sourceIndicesByModule
      | some sourceIndices => .ok (sourceIndicesByModule.insert e.1 sourceIndices))
    ∅

def inModule (moduleName name : String) : Bool := (moduleName.toList ++ ['.']).isPrefixOf name.toList

/-- `str(l)` of a list of strings. -/
def listText (l : List String) : String := "[" ++ ", ".intercalate (l.map fun s => "'" ++ s ++ "'") ++ "]"

/-- What `load_weights_kernel` keeps while it goes over the tensors. -/
structure LoadState (R : Type) where
  params : Dict String (Tensor R)
  loaded : Nat
  skipped : List String
  shapeMismatches : List String

section Load

variable {R : Type}

/-- The rows of a tensor for the local slots of the first module that has the parameter. -/
def selectRows (expertSourceIndices : Dict String (List Int)) (name : String) (tensor : Tensor R) :
    Except PyException (Tensor R) :=
  match expertSourceIndices.entries.find? fun e => inModule e.1 name with
  | none => .ok tensor
  | some e => tensor.gatherRows e.2

/-- The tensor as it is compared with its parameter. -/
def received (expertSourceIndices : Dict String (List Int)) (param : Tensor R) (e : String × Tensor R) :
    Except PyException (Tensor R) :=
  if param.shape = e.2.shape then .ok e.2 else selectRows expertSourceIndices e.1 e.2

/-- One turn of the loop. -/
def loadTensor (expertSourceIndices : Dict String (List Int)) (s : LoadState R) (e : String × Tensor R) :
    Except PyException (LoadState R) :=
  match s.params.get? e.1 with
  | none => .ok { s with skipped := s.skipped ++ [e.1] }
  | some param => do
      let tensor ← received expertSourceIndices param e
      if param.shape = tensor.shape then
        .ok { s with params := s.params.insert e.1 tensor, loaded := s.loaded + 1 }
      else
        let mismatch := e.1 ++ ": param=" ++ toString param.shape ++ " != received=" ++ toString tensor.shape
        .ok { s with shapeMismatches := s.shapeMismatches ++ [mismatch] }

/-- `load_weights_kernel`, with the parameters it leaves. -/
def loadWeightsKernel (model : WorkerModel R) (stateIter : List (String × Tensor R)) :
    Except PyException (Dict String (Tensor R)) := do
  let expertSourceIndices ← buildExpertMap model.fusedMoE
  let s ← stateIter.foldlM (loadTensor expertSourceIndices) ⟨model.params, 0, [], []⟩
  raiseIf (s.shapeMismatches ≠ []) ("Kernel weight transfer had " ++ toString s.shapeMismatches.length ++
    " shape mismatches: " ++ listText s.shapeMismatches)
  raiseIf (s.skipped ≠ []) ("Kernel weight transfer skipped " ++ toString s.skipped.length ++
    " weights not found in model: " ++ listText s.skipped)
  .ok s.params

end Load

/-! ## Placement -/

namespace WorkerModel

variable {R : Type}

/-- The expert layers of a running worker: their maps are, and none lies in another. -/
structure WellFormed (model : WorkerModel R) : Prop where
  layers : ∀ e ∈ model.fusedMoE, e.2.WellFormed
  names : (model.fusedMoE.map Prod.fst).Nodup
  apart : ∀ e ∈ model.fusedMoE, ∀ e' ∈ model.fusedMoE, inModule e.1 e'.1 = false

/-- `name` is a parameter of the expert layer `layer` with one row for each local slot. -/
structure ExpertWeight (model : WorkerModel R) (name : String) (layer : String × FusedMoE) (rowShape : List Nat) :
    Prop where
  layer_mem : layer ∈ model.fusedMoE
  inModule : inModule layer.1 name = true
  param : ∃ rows, model.params.get? name = some (.stacked rowShape rows) ∧ rows.length = layer.2.numLocal

/-- A received tensor is the stack of all logical experts of an expert weight. -/
def StacksExperts (model : WorkerModel R) (e : String × Tensor R) : Prop :=
  ∃ layer rowShape rows, model.ExpertWeight e.1 layer rowShape ∧ e.2 = .stacked rowShape rows ∧
    rows.length = layer.2.numLogical

/-- A received tensor is for a parameter of the model, and has its shape or stacks all logical experts. -/
def Fits (model : WorkerModel R) (e : String × Tensor R) : Prop :=
  ∃ param, model.params.get? e.1 = some param ∧ (param.shape = e.2.shape ∨ model.StacksExperts e)

/-- The rows of the local slots are the rows that their logical experts have in `rows`. -/
def SlotsHold (params : Dict String (Tensor R)) (name : String) (m : FusedMoE) (rowShape : List Nat)
    (rows : List (Vector R rowShape.prod)) : Prop :=
  ∃ slots, params.get? name = some (.stacked rowShape slots) ∧ slots.length = m.numLocal ∧
    ∀ slot e, m.Holds slot e → slots[slot]? = rows[e]?

/-- The source indices of every layer are the logical experts of its slots in their order, and whatever fitting tensors
are received, the load succeeds and every local slot has the new weights of its logical expert. -/
structure PlacesExperts (model : WorkerModel R) : Prop where
  sources : ∀ layer ∈ model.fusedMoE, layer.2.expertMap.isSome →
    ∃ logical : List Nat, buildExpertSourceIndices layer.2 = .ok (some (logical.map (↑))) ∧
      ∀ slot e, logical[slot]? = some e ↔ layer.2.Holds slot e
  slots : ∀ stateIter, (∀ e ∈ stateIter, model.Fits e) →
    ∃ params, loadWeightsKernel model stateIter = .ok params ∧
      ∀ before name rowShape rows rest, stateIter = before ++ (name, .stacked rowShape rows) :: rest →
        name ∉ rest.map Prod.fst → ∀ layer, model.ExpertWeight name layer rowShape →
          rows.length = layer.2.numLogical → SlotsHold params name layer.2 rowShape rows

/-- Every expert layer has as many local slots as logical experts, with the experts in order in its slots, or a
different number of them and an expert map. -/
def Refreshes (model : WorkerModel R) : Prop :=
  ∀ name layer rowShape, model.ExpertWeight name layer rowShape →
    if layer.2.numLocal = layer.2.numLogical then
      rowShape.prod = 0 ∨ ∀ slot < layer.2.numLocal, layer.2.Holds slot slot
    else layer.2.expertMap.isSome

end WorkerModel

/-! ## The layer of a parameter -/

theorem inModule_iff {moduleName name : String} :
    inModule moduleName name = true ↔ moduleName.toList ++ ['.'] <+: name.toList := by
  unfold inModule
  rw [List.isPrefixOf_iff_prefix]

/-- Of two modules around a parameter, one is around the other. -/
theorem eq_or_inModule {a b name : String} (ha : inModule a name = true) (hb : inModule b name = true) :
    a = b ∨ inModule a b = true ∨ inModule b a = true := by
  simp only [inModule_iff] at *
  rcases List.prefix_or_prefix_of_prefix ha hb with hpre | hpre
  · rcases List.prefix_concat_iff.1 hpre with heq | hin
    · exact .inl (String.toList_injective (List.append_cancel_right heq))
    · exact .inr (.inl hin)
  · rcases List.prefix_concat_iff.1 hpre with heq | hin
    · exact .inl (String.toList_injective (List.append_cancel_right heq)).symm
    · exact .inr (.inr hin)

theorem WorkerModel.WellFormed.layer_unique {R : Type} {model : WorkerModel R} (hwf : model.WellFormed)
    {layer layer' : String × FusedMoE} {name : String} (hmem : layer ∈ model.fusedMoE) (hmem' : layer' ∈ model.fusedMoE)
    (h : inModule layer.1 name = true) (h' : inModule layer'.1 name = true) : layer = layer' := by
  rcases eq_or_inModule h h' with hname | hin | hin
  · exact List.inj_on_of_nodup_map hwf.names hmem hmem' hname
  · exact absurd hin (by simp [hwf.apart layer hmem layer' hmem'])
  · exact absurd hin (by simp [hwf.apart layer' hmem' layer hmem])

theorem exists_sourceIndices {m : FusedMoE} (h : m.WellFormed) : ∃ indices, buildExpertSourceIndices m = .ok indices := by
  cases hmap : m.expertMap with
  | none =>
      unfold buildExpertSourceIndices
      rw [hmap]
      exact ⟨none, rfl⟩
  | some expertMap =>
      obtain ⟨logical, hlogical, _⟩ := sourceIndices_spec h hmap
      exact ⟨_, hlogical⟩

/-- The expert map has the source indices of every layer that has any. -/
theorem buildExpertMap_spec {fusedMoE : List (String × FusedMoE)} (hwf : ∀ e ∈ fusedMoE, e.2.WellFormed)
    (hnames : (fusedMoE.map Prod.fst).Nodup) :
    ∃ sources, buildExpertMap fusedMoE = .ok sources ∧
      ∀ name indices, sources.get? name = some indices ↔
        ∃ m, (name, m) ∈ fusedMoE ∧ buildExpertSourceIndices m = .ok (some indices) := by
  induction fusedMoE using List.reverseRecOn with
  | nil => exact ⟨∅, rfl, fun name indices => ⟨fun h => (by cases h), fun ⟨m, hm, _⟩ => (by simp at hm)⟩⟩
  | append_singleton fusedMoE e ih =>
      rw [List.map_append, List.nodup_append] at hnames
      obtain ⟨hnodup, _, hdisjoint⟩ := hnames
      obtain ⟨sources, hsources, hget⟩ := ih (fun e' he' => hwf e' (by simp [he'])) hnodup
      obtain ⟨built, hbuilt⟩ := exists_sourceIndices (hwf e (by simp))
      have hstep : buildExpertMap (fusedMoE ++ [e]) =
          .ok (built.elim sources fun indices => sources.insert e.1 indices) := by
        unfold buildExpertMap at hsources ⊢
        rw [List.foldlM_append, hsources]
        show (buildExpertSourceIndices e.2 >>= _) >>= _ = _
        rw [hbuilt]
        cases built <;> rfl
      cases built with
      | none =>
          refine ⟨sources, hstep, fun name indices => (hget name indices).trans ?_⟩
          refine exists_congr fun m => ⟨fun ⟨hm, h⟩ => ⟨by simp [hm], h⟩, fun ⟨hm, h⟩ => ⟨?_, h⟩⟩
          rcases List.mem_append.1 hm with hm | hm
          · exact hm
          · rw [← List.mem_singleton.1 hm, h] at hbuilt
            cases hbuilt
      | some built =>
          refine ⟨sources.insert e.1 built, hstep, fun name indices => ?_⟩
          rw [Dict.get?_insert]
          by_cases hname : e.1 = name
          · subst hname
            rw [if_pos rfl, Option.some.injEq]
            constructor
            · exact fun h => ⟨e.2, by simp, h ▸ hbuilt⟩
            · rintro ⟨m, hm, h⟩
              rcases List.mem_append.1 hm with hm | hm
              · exact absurd rfl (hdisjoint _ (List.mem_map_of_mem hm) _ (by simp))
              · rw [← List.mem_singleton.1 hm, h] at hbuilt
                exact (Option.some.inj (Except.ok.inj hbuilt)).symm
          · rw [if_neg hname, hget]
            refine exists_congr fun m => ⟨fun ⟨hm, h⟩ => ⟨by simp [hm], h⟩, fun ⟨hm, h⟩ => ⟨?_, h⟩⟩
            rcases List.mem_append.1 hm with hm | hm
            · exact hm
            · exact absurd (congrArg Prod.fst (List.mem_singleton.1 hm)).symm hname

/-- The rows that are selected for a parameter of an expert layer with source indices. -/
theorem selectRows_layer {R : Type} {model : WorkerModel R} (hwf : model.WellFormed) {sources : Dict String (List Int)}
    (hsources : ∀ name indices, sources.get? name = some indices ↔
      ∃ m, (name, m) ∈ model.fusedMoE ∧ buildExpertSourceIndices m = .ok (some indices))
    {layer : String × FusedMoE} {name : String} (hmem : layer ∈ model.fusedMoE) (hin : inModule layer.1 name = true)
    (tensor : Tensor R) :
    (∀ indices, buildExpertSourceIndices layer.2 = .ok (some indices) →
      selectRows sources name tensor = tensor.gatherRows indices) ∧
    (buildExpertSourceIndices layer.2 = .ok none → selectRows sources name tensor = .ok tensor) := by
  have hentry : ∀ e ∈ sources.entries, inModule e.1 name = true →
      e.1 = layer.1 ∧ buildExpertSourceIndices layer.2 = .ok (some e.2) := by
    intro e he hin'
    obtain ⟨m, hm, hbuilt⟩ := (hsources e.1 e.2).1 ((Dict.mem_entries_iff _ _ _).1 he)
    have hlayer := hwf.layer_unique hm hmem hin' hin
    exact ⟨congrArg Prod.fst hlayer, congrArg Prod.snd hlayer ▸ hbuilt⟩
  unfold selectRows
  cases hfind : sources.entries.find? fun e => inModule e.1 name with
  | none =>
      refine ⟨fun indices hbuilt => ?_, fun _ => rfl⟩
      have hmem' := (Dict.mem_entries_iff _ _ _).2 ((hsources layer.1 indices).2 ⟨layer.2, hmem, hbuilt⟩)
      exact absurd hin (List.find?_eq_none.1 hfind _ hmem')
  | some e =>
      obtain ⟨_, hbuilt'⟩ := hentry e (List.mem_of_find?_eq_some hfind) (by simpa using List.find?_some hfind)
      refine ⟨fun indices hbuilt => ?_, fun hbuilt => ?_⟩
      · rw [hbuilt] at hbuilt'
        exact congrArg tensor.gatherRows (Option.some.inj (Except.ok.inj hbuilt')).symm
      · rw [hbuilt] at hbuilt'
        cases hbuilt'

/-! ## The load of the tensors -/

/-- Nothing went wrong so far, and the parameters have the shapes of the model. -/
structure LoadState.Clean {R : Type} (model : WorkerModel R) (s : LoadState R) : Prop where
  skipped : s.skipped = []
  shapeMismatches : s.shapeMismatches = []
  shapes : ∀ name, (s.params.get? name).map Tensor.shape = (model.params.get? name).map Tensor.shape

/-- The rows of a tensor for the slots of a layer. -/
def RowsFor {R : Type} (m : FusedMoE) (t : Tensor R) (rowShape : List Nat) (rows : List (Vector R rowShape.prod)) :
    Prop :=
  ∃ slots, t = .stacked rowShape slots ∧ slots.length = m.numLocal ∧ ∀ slot e, m.Holds slot e → slots[slot]? = rows[e]?

/-- A stack of all logical experts is gathered for the slots. -/
theorem gatherRows_sources {R : Type} {m : FusedMoE} (h : m.WellFormed) (hmap : m.expertMap.isSome) {rowShape : List Nat}
    {rows : List (Vector R rowShape.prod)} (hrows : rows.length = m.numLogical) :
    ∃ indices t, buildExpertSourceIndices m = .ok (some indices) ∧ (Tensor.stacked rowShape rows).gatherRows indices = .ok t ∧
      RowsFor m t rowShape rows := by
  obtain ⟨expertMap, hmap⟩ := Option.isSome_iff_exists.1 hmap
  obtain ⟨logical, hlogical, hslots⟩ := sourceIndices_spec h hmap
  have hlt : ∀ e ∈ logical, e < rows.length := by
    intro e he
    obtain ⟨slot, he⟩ := List.mem_iff_getElem?.1 he
    rw [hrows]
    exact (h.lt_of_holds ((hslots slot e).1 he)).2
  have hlength : logical.length = m.numLocal := by
    apply Nat.le_antisymm
    · by_contra hlen
      have hget := List.getElem?_eq_getElem (show m.numLocal < logical.length by omega)
      have := (h.lt_of_holds ((hslots _ _).1 hget)).1
      omega
    · by_contra hlen
      obtain ⟨e, he⟩ := h.exists_holds (show logical.length < m.numLocal by omega)
      have hget := (hslots _ _).2 he
      simp at hget
  obtain ⟨slots, hgather, hlen, hget⟩ := exists_gather hlt
  refine ⟨_, .stacked rowShape slots, hlogical, ?_, slots, rfl, hlen.trans hlength, fun slot e he => ?_⟩
  · show (gather rows _ >>= _) = _
    rw [hgather]
    rfl
  · exact hget slot e ((hslots slot e).2 he)

/-- Rows that are copied as they are belong to the slots when those hold the experts in order. -/
theorem rowsFor_self {R : Type} {m : FusedMoE} (h : m.WellFormed) {rowShape : List Nat}
    {rows : List (Vector R rowShape.prod)} (hrows : rows.length = m.numLogical) (heq : m.numLocal = m.numLogical)
    (horder : rowShape.prod = 0 ∨ ∀ slot < m.numLocal, m.Holds slot slot) :
    RowsFor m (.stacked rowShape rows) rowShape rows := by
  refine ⟨rows, rfl, hrows.trans heq.symm, fun slot e he => ?_⟩
  obtain ⟨hslot, hlt⟩ := h.lt_of_holds he
  rcases horder with hzero | horder
  · rw [List.getElem?_eq_getElem (by omega), List.getElem?_eq_getElem (by omega)]
    congr 1
    apply Vector.ext
    intro i hi
    omega
  · rw [h.holds_unique he (horder slot hslot)]

theorem WorkerModel.ExpertWeight.shape {R : Type} {model : WorkerModel R} {name : String} {layer : String × FusedMoE}
    {rowShape : List Nat} (h : model.ExpertWeight name layer rowShape) :
    (model.params.get? name).map Tensor.shape = some (layer.2.numLocal :: rowShape) := by
  obtain ⟨rows, hrows, hlength⟩ := h.param
  rw [hrows, ← hlength]
  rfl

theorem loadTensor_of_received {R : Type} {sources : Dict String (List Int)} {s : LoadState R} {e : String × Tensor R}
    {param t : Tensor R} (hparam : s.params.get? e.1 = some param) (hreceived : received sources param e = .ok t)
    (hshape : param.shape = t.shape) :
    loadTensor sources s e = .ok { s with params := s.params.insert e.1 t, loaded := s.loaded + 1 } := by
  unfold loadTensor
  rw [hparam]
  show (received sources param e >>= _) = _
  rw [hreceived]
  exact if_pos hshape

/-- A fitting tensor is copied, and the stack of all logical experts arrives in the slots. -/
theorem loadTensor_spec {R : Type} {model : WorkerModel R} (hwf : model.WellFormed) (hrefresh : model.Refreshes)
    {sources : Dict String (List Int)}
    (hsources : ∀ name indices, sources.get? name = some indices ↔
      ∃ m, (name, m) ∈ model.fusedMoE ∧ buildExpertSourceIndices m = .ok (some indices))
    {s : LoadState R} (hs : s.Clean model) {e : String × Tensor R} (hfit : model.Fits e) :
    ∃ t, loadTensor sources s e = .ok { s with params := s.params.insert e.1 t, loaded := s.loaded + 1 } ∧
      (model.params.get? e.1).map Tensor.shape = some t.shape ∧
      ∀ layer rowShape rows, model.ExpertWeight e.1 layer rowShape → e.2 = .stacked rowShape rows →
        rows.length = layer.2.numLogical → RowsFor layer.2 t rowShape rows := by
  obtain ⟨param₀, hparam₀, hkind⟩ := hfit
  have hshape := hs.shapes e.1
  rw [hparam₀] at hshape
  obtain ⟨param, hparam, hshape⟩ := Option.map_eq_some_iff.1 hshape
  rw [hparam₀]
  by_cases hsame : param.shape = e.2.shape
  · refine ⟨e.2, loadTensor_of_received hparam (if_pos hsame) hsame, ?_, fun layer rowShape rows hweight he hrows => ?_⟩
    · rw [Option.map_some, ← hshape, hsame]
    · have hlayer := hrefresh e.1 layer rowShape hweight
      have heq : layer.2.numLocal = layer.2.numLogical := by
        have hweightShape := hweight.shape
        rw [hparam₀, Option.map_some, ← hshape, hsame, he] at hweightShape
        simpa [Tensor.shape, hrows] using hweightShape.symm
      rw [if_pos heq] at hlayer
      rw [he]
      exact rowsFor_self (hwf.layers layer hweight.layer_mem) hrows heq hlayer
  · obtain ⟨layer, rowShape, rows, hweight, he, hrows⟩ := hkind.resolve_left fun h => hsame (hshape.trans h)
    have hweightShape := hweight.shape
    rw [hparam₀, Option.map_some, ← hshape, Option.some.injEq] at hweightShape
    have hne : layer.2.numLocal ≠ layer.2.numLogical := by
      intro heq
      apply hsame
      rw [hweightShape, he, heq, ← hrows]
      rfl
    have hlayer := hrefresh e.1 layer rowShape hweight
    rw [if_neg hne] at hlayer
    obtain ⟨indices, t, hindices, hgather, hrowsFor⟩ := gatherRows_sources (hwf.layers _ hweight.layer_mem) hlayer hrows
    have hselect := (selectRows_layer hwf hsources hweight.layer_mem hweight.inModule e.2).1 indices hindices
    have htshape : param.shape = t.shape := by
      obtain ⟨slots, rfl, hlength, _⟩ := hrowsFor
      rw [hweightShape, ← hlength]
      rfl
    refine ⟨t, loadTensor_of_received hparam ?_ htshape, ?_, fun layer' rowShape' rows' hweight' he' hrows' => ?_⟩
    · unfold received
      rw [if_neg hsame, hselect, he, hgather]
    · rw [Option.map_some, ← hshape, htshape]
    · have hsameLayer := hwf.layer_unique hweight.layer_mem hweight'.layer_mem hweight.inModule hweight'.inModule
      rw [he] at he'
      cases he'
      exact hsameLayer ▸ hrowsFor

theorem LoadState.Clean.insert {R : Type} {model : WorkerModel R} {s : LoadState R} (hs : s.Clean model) {name : String}
    {t : Tensor R} (hshape : (model.params.get? name).map Tensor.shape = some t.shape) :
    { s with params := s.params.insert name t, loaded := s.loaded + 1 }.Clean model := by
  refine ⟨hs.skipped, hs.shapeMismatches, fun name' => ?_⟩
  show ((s.params.insert name t).get? name').map Tensor.shape = _
  rw [Dict.get?_insert]
  split
  · next heq => rw [← heq, hshape]; rfl
  · exact hs.shapes name'

/-- Fitting tensors are all copied, and other parameters stay. -/
theorem loadTensors_spec {R : Type} {model : WorkerModel R} (hwf : model.WellFormed) (hrefresh : model.Refreshes)
    {sources : Dict String (List Int)}
    (hsources : ∀ name indices, sources.get? name = some indices ↔
      ∃ m, (name, m) ∈ model.fusedMoE ∧ buildExpertSourceIndices m = .ok (some indices))
    {stateIter : List (String × Tensor R)} (hfits : ∀ e ∈ stateIter, model.Fits e) {s : LoadState R} (hs : s.Clean model) :
    ∃ s', stateIter.foldlM (loadTensor sources) s = .ok s' ∧ s'.Clean model ∧
      ∀ name ∉ stateIter.map Prod.fst, s'.params.get? name = s.params.get? name := by
  induction stateIter generalizing s with
  | nil => exact ⟨s, rfl, hs, fun _ _ => rfl⟩
  | cons e stateIter ih =>
      rw [List.forall_mem_cons] at hfits
      obtain ⟨t, hstep, hshape, _⟩ := loadTensor_spec hwf hrefresh hsources hs hfits.1
      obtain ⟨s', hrun, hclean, hframe⟩ := ih hfits.2 (hs.insert hshape)
      refine ⟨s', ?_, hclean, fun name hname => ?_⟩
      · rw [List.foldlM_cons, hstep]
        exact hrun
      · rw [List.map_cons, List.mem_cons, not_or] at hname
        rw [hframe name hname.2]
        exact Dict.get?_insert_ne _ _ (Ne.symm hname.1)

/-- The load of fitting tensors leaves the rows of the last stack of experts in the slots. -/
theorem loadWeightsKernel_slots {R : Type} {model : WorkerModel R} (hwf : model.WellFormed) (hrefresh : model.Refreshes)
    {stateIter : List (String × Tensor R)} (hfits : ∀ e ∈ stateIter, model.Fits e) :
    ∃ params, loadWeightsKernel model stateIter = .ok params ∧
      ∀ before name rowShape rows rest, stateIter = before ++ (name, .stacked rowShape rows) :: rest →
        name ∉ rest.map Prod.fst → ∀ layer, model.ExpertWeight name layer rowShape →
          rows.length = layer.2.numLogical → WorkerModel.SlotsHold params name layer.2 rowShape rows := by
  obtain ⟨sources, hbuild, hsources⟩ := buildExpertMap_spec hwf.layers hwf.names
  have hinit : (⟨model.params, 0, [], []⟩ : LoadState R).Clean model := ⟨rfl, rfl, fun _ => rfl⟩
  obtain ⟨s, hrun, hclean, _⟩ := loadTensors_spec hwf hrefresh hsources hfits hinit
  refine ⟨s.params, ?_, ?_⟩
  · unfold loadWeightsKernel
    rw [hbuild]
    show (List.foldlM (loadTensor sources) _ _ >>= _) = _
    rw [hrun]
    show (raiseIf (s.shapeMismatches ≠ []) _ >>= fun _ => raiseIf (s.skipped ≠ []) _ >>= _) = _
    rw [hclean.shapeMismatches, hclean.skipped]
    rfl
  · rintro before name rowShape rows rest rfl hlast layer hweight hrows
    simp only [List.forall_mem_append, List.forall_mem_cons] at hfits
    obtain ⟨s₁, hrun₁, hclean₁, _⟩ := loadTensors_spec hwf hrefresh hsources hfits.1 hinit
    obtain ⟨t, hstep, hshape, hslots⟩ := loadTensor_spec hwf hrefresh hsources hclean₁ hfits.2.1
    obtain ⟨s₂, hrun₂, _, hframe⟩ := loadTensors_spec hwf hrefresh hsources hfits.2.2 (hclean₁.insert hshape)
    have hs : s = s₂ := by
      rw [List.foldlM_append, hrun₁] at hrun
      change (List.foldlM (loadTensor sources) s₁ (_ :: rest)) = .ok s at hrun
      rw [List.foldlM_cons, hstep] at hrun
      exact Except.ok.inj (hrun.symm.trans hrun₂)
    obtain ⟨slots, rfl, hlength, hget⟩ := hslots layer rowShape rows hweight rfl hrows
    refine ⟨slots, ?_, hlength, hget⟩
    rw [hs, hframe name hlast]
    exact Dict.get?_insert_self _ _ _

/-- A load of one tensor that succeeds leaves the tensor it was compared with. -/
theorem loadWeightsKernel_singleton {R : Type} {model : WorkerModel R} {sources : Dict String (List Int)}
    (hbuild : buildExpertMap model.fusedMoE = .ok sources) {e : String × Tensor R} {param : Tensor R}
    (hparam : model.params.get? e.1 = some param) {params : Dict String (Tensor R)}
    (h : loadWeightsKernel model [e] = .ok params) :
    ∃ t, received sources param e = .ok t ∧ param.shape = t.shape ∧ params.get? e.1 = some t := by
  unfold loadWeightsKernel at h
  rw [hbuild, ok_bind, List.foldlM_cons] at h
  obtain ⟨s, hs, h⟩ := bind_eq_ok.1 h
  obtain ⟨s', hs', hnil⟩ := bind_eq_ok.1 hs
  cases hnil
  obtain ⟨_, hmismatches, h⟩ := bind_eq_ok.1 h
  obtain ⟨_, _, h⟩ := bind_eq_ok.1 h
  cases h
  unfold loadTensor at hs'
  rw [hparam] at hs'
  obtain ⟨t, ht, hs'⟩ := bind_eq_ok.1 hs'
  dsimp only at hs'
  split at hs'
  · next hshape =>
      cases hs'
      exact ⟨t, ht, hshape, Dict.get?_insert_self _ _ _⟩
  · cases hs'
    simp [raiseIf_eq_ok] at hmismatches

/-! ## When the experts are not placed -/

/-- A stack in which the rows of two experts differ. -/
theorem exists_stack {R : Type} [Nontrivial R] {n size a b : Nat} (hsize : size ≠ 0) (ha : a < n) (hne : a ≠ b) :
    ∃ rows : List (Vector R size), rows.length = n ∧ rows[a]? ≠ rows[b]? := by
  obtain ⟨x, y, hxy⟩ := exists_pair_ne R
  refine ⟨(List.range n).map fun i => Vector.replicate size (if i = a then x else y), by simp, fun h => ?_⟩
  rw [List.getElem?_map, List.getElem?_map, List.getElem?_range ha, Option.map_some] at h
  obtain ⟨b', hb', heq⟩ := Option.map_eq_some_iff.1 h.symm
  obtain ⟨hlt, rfl⟩ := List.getElem?_eq_some_iff.1 hb'
  rw [List.getElem_range, if_pos rfl, if_neg (Ne.symm hne)] at heq
  exact hxy ((Vector.replicate_inj.1 heq).resolve_left hsize).symm

theorem refreshes_of_placesExperts {R : Type} [Nontrivial R] {model : WorkerModel R} (hwf : model.WellFormed)
    (hplaces : model.PlacesExperts) : model.Refreshes := by
  intro name layer rowShape hweight
  obtain ⟨sources, hbuild, hsources⟩ := buildExpertMap_spec hwf.layers hwf.names
  obtain ⟨rows₀, hparam, hlength⟩ := hweight.param
  have hload : ∀ rows : List (Vector R rowShape.prod), rows.length = layer.2.numLogical →
      ∃ slots, received sources (.stacked rowShape rows₀) (name, .stacked rowShape rows) = .ok (.stacked rowShape slots) ∧
        slots.length = layer.2.numLocal ∧ ∀ slot e, layer.2.Holds slot e → slots[slot]? = rows[e]? := by
    intro rows hrows
    obtain ⟨params, hload, hslots⟩ := hplaces.slots [(name, .stacked rowShape rows)] (by
      intro e he
      rw [List.mem_singleton.1 he]
      exact ⟨_, hparam, .inr ⟨layer, rowShape, rows, hweight, rfl, hrows⟩⟩)
    obtain ⟨t, ht, _, hget⟩ := loadWeightsKernel_singleton hbuild hparam hload
    obtain ⟨slots, hslots, hlen, hheld⟩ := hslots [] name rowShape rows [] rfl (by simp) layer hweight hrows
    rw [hget, Option.some.injEq] at hslots
    exact ⟨slots, hslots ▸ ht, hlen, hheld⟩
  split
  · next heq =>
      by_contra hcon
      rw [not_or] at hcon
      obtain ⟨hsize, horder⟩ := hcon
      push Not at horder
      obtain ⟨slot, hslot, hnot⟩ := horder
      obtain ⟨e, he⟩ := (hwf.layers _ hweight.layer_mem).exists_holds hslot
      have hne : slot ≠ e := fun h => hnot (h ▸ he)
      obtain ⟨rows, hrows, hdiffer⟩ := exists_stack (R := R) hsize (heq ▸ hslot) hne
      obtain ⟨slots, hreceived, _, hheld⟩ := hload rows hrows
      have hcopied : received sources (.stacked rowShape rows₀) (name, .stacked rowShape rows) =
          .ok (.stacked rowShape rows) := by
        apply if_pos
        show _ :: _ = _ :: _
        rw [hlength, hrows, heq]
      rw [hcopied] at hreceived
      cases hreceived
      exact hdiffer (hheld slot e he)
  · next hne =>
      by_contra hmap
      have hnone : layer.2.expertMap = none := by simpa using hmap
      obtain ⟨rows, hrows⟩ : ∃ rows : List (Vector R rowShape.prod), rows.length = layer.2.numLogical :=
        ⟨List.replicate layer.2.numLogical (Vector.replicate _ (Classical.arbitrary R)), by simp⟩
      obtain ⟨slots, hreceived, hlen, _⟩ := hload rows hrows
      have hbuilt : buildExpertSourceIndices layer.2 = .ok none := by
        unfold buildExpertSourceIndices
        rw [hnone]
      have hcopied := (selectRows_layer hwf hsources hweight.layer_mem hweight.inModule
        (.stacked rowShape rows)).2 hbuilt
      unfold received at hreceived
      rw [if_neg, hcopied] at hreceived
      · cases hreceived
        exact hne (hlen.symm.trans hrows)
      · intro h
        have := (List.cons.inj h).1
        exact hne (hlength.symm.trans (this.trans hrows))

/-- **The placement of the experts.** A rank's load puts the new weights of its logical expert in every local slot iff
every expert layer refreshes: the shapes tell the stack of all experts from the rank's, or the two agree row by row. -/
theorem kernelTransfer_places {R : Type} [Nontrivial R] {model : WorkerModel R} (hwf : model.WellFormed) :
    model.PlacesExperts ↔ model.Refreshes := by
  refine ⟨refreshes_of_placesExperts hwf, fun hrefresh => ⟨fun layer hlayer hmap => ?_, fun stateIter hfits => ?_⟩⟩
  · obtain ⟨expertMap, hmap⟩ := Option.isSome_iff_exists.1 hmap
    exact sourceIndices_spec (hwf.layers layer hlayer) hmap
  · exact loadWeightsKernel_slots hwf hrefresh hfits

/-- One expert layer with two local slots, whose weights have rows of one number. -/
def oneLayer (m : FusedMoE) : WorkerModel Int where
  fusedMoE := [("experts", m)]
  params := (∅ : Dict String (Tensor Int)).insert "experts.w2_weight" (.stacked [1] (List.replicate 2 (Vector.replicate 1 0)))

theorem oneLayer_wellFormed {m : FusedMoE} (h : m.WellFormed) : (oneLayer m).WellFormed := by
  refine ⟨?_, List.nodup_singleton _, ?_⟩
  · intro e he
    rw [List.mem_singleton.1 he]
    exact h
  · intro e he e' he'
    rw [List.mem_singleton.1 he, List.mem_singleton.1 he']
    show inModule "experts" "experts" = false
    decide +kernel

theorem oneLayer_weight {m : FusedMoE} (h : m.numLocal = 2) :
    (oneLayer m).ExpertWeight "experts.w2_weight" ("experts", m) [1] :=
  ⟨List.mem_singleton_self _, show inModule "experts" "experts.w2_weight" = true by decide +kernel, _,
    Dict.get?_insert_self _ _ _, by simp [h]⟩

/-- The second of two ranks with three experts of which the first has a copy on each. -/
def uneven : FusedMoE := ⟨some [-1, -1, 1, 0], 4, some [[0, 3], [1, -1], [2, -1]]⟩

theorem uneven_wellFormed : uneven.WellFormed := by
  refine ⟨?_, ?_⟩
  · rintro expertMap ⟨rfl⟩
    decide
  · rintro map ⟨rfl⟩
    decide

/-- The second of two ranks with two experts of which each has a copy on each, in the other order. -/
def swapped : FusedMoE := ⟨some [-1, -1, 0, 1], 4, some [[0, 3], [1, 2]]⟩

theorem swapped_wellFormed : swapped.WellFormed := by
  refine ⟨?_, ?_⟩
  · rintro expertMap ⟨rfl⟩
    decide
  · rintro map ⟨rfl⟩
    decide

theorem kernelTransfer_places_uneven : (oneLayer uneven).WellFormed ∧ (oneLayer uneven).PlacesExperts := by
  have hnontrivial : Nontrivial Int := ⟨0, 1, by decide⟩
  refine ⟨oneLayer_wellFormed uneven_wellFormed, (kernelTransfer_places (oneLayer_wellFormed uneven_wellFormed)).2 ?_⟩
  intro name layer rowShape hweight
  rw [List.mem_singleton.1 hweight.layer_mem, if_neg (by decide)]
  rfl

theorem kernelTransfer_swapped : (oneLayer swapped).WellFormed ∧ ¬ (oneLayer swapped).PlacesExperts := by
  have hnontrivial : Nontrivial Int := ⟨0, 1, by decide⟩
  have hwf := oneLayer_wellFormed swapped_wellFormed
  refine ⟨hwf, fun hplaces => ?_⟩
  have hlayer := refreshes_of_placesExperts hwf hplaces _ _ _ (oneLayer_weight rfl)
  rcases hlayer with hsize | horder
  · exact absurd hsize (by decide)
  · obtain ⟨p, hp, row, hrow, hmem⟩ := horder 0 (by decide)
    cases hrow
    have hp' : p = 2 := by
      apply swapped_wellFormed.local_unique hp
      rfl
    subst hp'
    simp at hmem

end AuroraRl.Worker
