import AuroraRl.Layout.Adapter

/-!
# What a rank holds

* `Piece`, `ShardLayout` : a parameter as the stack of row ranges of checkpoint tensors along one dimension;
* `ShardLayout.shard` : the local tensor, element by element;
* `shardLayout` : the layout of each kind of parameter on a rank;
* `movePairs` : an update moved with a window (`lookup_inside`, `lookup_outside`).
-/

namespace AuroraRl.Layout
open Python RowMajor Torch

/-- The rows `[start, start + size)` of a checkpoint tensor. -/
structure Piece (κ : Type) where
  source : κ
  start : Nat
  size : Nat

/-- How a parameter is made up of checkpoint tensors: a copy of one, or pieces stacked along `dim`, with padding
after them. -/
inductive ShardLayout (κ : Type)
  | replicated (source : κ)
  | stacked (dim : Nat) (pieces : List (Piece κ))

/-- The element of a stack of pieces whose coordinate along `dim` is `c` places into it. -/
def stackElem {κ α : Type} (dim : Nat) (logical : κ → List Nat → α) (padding : List Nat → α) (cs : List Nat) :
    List (Piece κ) → Nat → α
  | [], _ => padding cs
  | p :: pieces, c =>
    if c < p.size then logical p.source (cs.set dim (p.start + c))
    else stackElem dim logical padding cs pieces (c - p.size)

/-- The element at `cs` of the parameter made up of the tensors `logical`. -/
def ShardLayout.shard {κ α : Type} (layout : ShardLayout κ) (logical : κ → List Nat → α) (padding : List Nat → α)
    (cs : List Nat) : α :=
  match layout with
  | .replicated source => logical source cs
  | .stacked dim pieces => stackElem dim logical padding cs pieces (cs.getD dim 0)

/-! ## Layouts -/

/-- The `rank`-th of `size` equal parts of `n` rows. -/
def equalPart {κ : Type} (source : κ) (rank size n : Nat) : Piece κ := ⟨source, rank * (n / size), n / size⟩

/-- The dimension an attribute of a parameter names; negative ones count from the end. -/
def dimension (attr : Option Int) (rank : Nat) : Nat :=
  match attr with
  | some i => (if i < 0 then i + rank else i).toNat
  | none => 0

/-- The layout of a parameter on the rank of its module, for a checkpoint tensor of the given shape. -/
def shardLayout (mapping : LayoutMapping) (shape : List Nat) (param : Parameter) (module : Module) :
    ShardLayout (Option ShardId) :=
  let rank := (module.tpRank.getD 0).toNat
  let size := (module.tpSize.getD 1).toNat
  match mapping.kind with
  | .row =>
    let dim := dimension param.inputDim shape.length
    .stacked dim [equalPart mapping.shardId rank size (shape.getD dim 0)]
  | .column =>
    let dim := dimension param.outputDim shape.length
    .stacked dim [equalPart mapping.shardId rank size (shape.getD dim 0)]
  | .vocab =>
    let range := module.shardIndices.getD (0, 0)
    .stacked 0 [⟨mapping.shardId, range.1.toNat, (range.2 - range.1).toNat⟩]
  | .mergedColumn =>
    .stacked 0 ((module.outputSizes.getD []).mapIdx fun n outputSize => equalPart (some (.part n)) rank size outputSize)
  | .qkv =>
    let headSize := module.headSize.getD 0
    let numHeads := module.numHeads.getD 0
    let numKvHeads := module.numKvHeads.getD 0
    let kvRank := rank / module.numKvHeadReplicas.getD 1
    let q := numHeads * headSize
    let k := numKvHeads * headSize
    let v := numKvHeads * module.vHeadSize.getD headSize
    .stacked 0 [⟨some .q, rank * q, q⟩, ⟨some .k, kvRank * k, k⟩, ⟨some .v, kvRank * v, v⟩]
  | _ => .replicated mapping.shardId

/-! ## Updates and windows -/

section Window

variable {β : Type} {w : Window}

/-- The selected updates at their places in the other tensor. -/
def movePairs (w : Window) (pairs : List (Nat × β)) : List (Nat × β) :=
  (pairs.filter fun p => w.Selects p.1).map fun p => (w.move p.1, p.2)

theorem lookup_movePairs (hstride : 0 < w.stride) (hsize : 0 < w.size) {i : Nat} (hi : w.Selects i)
    (pairs : List (Nat × β)) : (movePairs w pairs).lookup (w.move i) = pairs.lookup i := by
  unfold movePairs
  induction pairs with
  | nil => rfl
  | cons p pairs ih =>
      obtain ⟨j, v⟩ := p
      rw [List.lookup_cons]
      by_cases hj : w.Selects j
      · rw [List.filter_cons_of_pos (by simpa using hj), List.map_cons, List.lookup_cons, ih]
        by_cases hij : i = j
        · subst hij
          rw [beq_self_eq_true, beq_self_eq_true]
        · have hmove : w.move i ≠ w.move j := fun h => hij (Window.move_inj hstride hsize hi hj h)
          rw [beq_eq_false_iff_ne.2 hij, beq_eq_false_iff_ne.2 hmove]
      · have hij : i ≠ j := fun h => hj (h ▸ hi)
        rw [List.filter_cons_of_neg (by simpa using hj), ih, beq_eq_false_iff_ne.2 hij]

variable {shape cs : List Nat} {axis c : Nat}

/-- An element inside the moved window comes from the window. -/
theorem lookup_inside (hw : w.Along shape axis) (h : InBounds (shape.set axis w.size') cs) (hc : cs[axis]? = some c)
    (hlo : w.target ≤ c) (hhi : c < w.target + w.width) (pairs : List (Nat × β)) :
    (movePairs w pairs).lookup (ravel (shape.set axis w.size') cs) =
      pairs.lookup (ravel shape (cs.set axis (w.start + (c - w.target)))) := by
  have hstart := w.start_le
  have hbounds : InBounds shape (cs.set axis (w.start + (c - w.target))) := by
    have hlt : w.start + (c - w.target) < w.size := by omega
    have hset : InBounds ((shape.set axis w.size').set axis w.size) (cs.set axis (w.start + (c - w.target))) :=
      h.set hlt
    rwa [List.set_set, set_getElem? hw.size_eq] at hset
  have hget : (cs.set axis (w.start + (c - w.target)))[axis]? = some (w.start + (c - w.target)) := by
    rw [List.getElem?_set_self', hc]
    rfl
  obtain ⟨hcoordinate, hmove⟩ := hw.move_ravel hbounds hget
  have hsource : w.start + (c - w.target) - w.start + w.target = c := by omega
  rw [hsource, List.set_set, set_getElem? hc] at hmove
  rw [← hmove]
  obtain ⟨hstride, hsize⟩ := hw.pos hbounds
  have hsel : w.Selects (ravel shape (cs.set axis (w.start + (c - w.target)))) := by
    unfold Window.Selects
    rw [hcoordinate]
    omega
  exact lookup_movePairs hstride hsize hsel pairs

theorem lookup_outside (hw : w.Along shape axis) (h : InBounds (shape.set axis w.size') cs) (hc : cs[axis]? = some c)
    (hout : c < w.target ∨ w.target + w.width ≤ c) {pairs : List (Nat × β)} (hpairs : ∀ p ∈ pairs, p.1 < numel shape) :
    (movePairs w pairs).lookup (ravel (shape.set axis w.size') cs) = none := by
  refine lookup_eq_none fun hmem => ?_
  unfold movePairs at hmem
  rw [List.map_map, List.mem_map] at hmem
  obtain ⟨⟨i, v⟩, hp, hi⟩ := hmem
  obtain ⟨hp, hsel⟩ := List.mem_filter.1 hp
  obtain ⟨cs', c', hcs', hc', hlo, hhi, hmove⟩ := hw.exists_moved (hpairs _ hp) (by simpa using hsel)
  obtain rfl := ravel_inj h hcs' (hi.symm.trans hmove)
  obtain rfl : c = c' := Option.some.inj (hc.symm.trans hc')
  omega

end Window

end AuroraRl.Layout
