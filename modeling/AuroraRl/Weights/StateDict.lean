import AuroraRl.Lib.Confined
import AuroraRl.Lib.Python
import Mathlib.Data.List.Infix

/-!
# State dicts

* `Part`, `Key` : the key of a weight, split at its dots, with the tests the converters make on it;
* `Tensor` : a tensor by its rows, `Tensor.stack`, `Tensor.row`;
* `StateDict`, `moveKey`, `renameKeys` : what the converters do to a dictionary of weights;
* `Confined.moveKey`, `Confined.renameKeys`, `Splits.renameKeys` : which keys these touch.
-/

namespace AuroraRl.Weights

/-! ## Keys -/

/-- What stands between two dots of a key: a name, or the index of a layer or an expert. -/
inductive Part
  | name (s : String)
  | index (i : Nat)
  deriving DecidableEq, Repr

instance : Coe String Part := ⟨.name⟩

def Part.text : Part → List Char
  | .name s => s.toList
  | .index i => (toString i).toList

abbrev Key := List Part

namespace Key

/-- The key as it is written. -/
def text : Key → List Char
  | [] => []
  | [p] => p.text
  | p :: q :: k => p.text ++ '.' :: text (q :: k)

def mentions (k : Key) (s : String) : Bool := k.text.tails.any (s.toList.isPrefixOf ·)

def under (pre k : Key) : Bool := pre.isPrefixOf k && decide (pre.length < k.length)

theorem under_iff {pre k : Key} : under pre k = true ↔ ∃ p s, k = pre ++ p :: s := by
  unfold under
  rw [Bool.and_eq_true, List.isPrefixOf_iff_prefix, decide_eq_true_eq]
  constructor
  · rintro ⟨⟨s, rfl⟩, h⟩
    cases s with
    | nil => simp at h
    | cons p s => exact ⟨p, s, rfl⟩
  · rintro ⟨p, s, rfl⟩
    exact ⟨List.prefix_append .., by simp⟩

@[simp] theorem under_append (pre : Key) (p : Part) (s : Key) : under pre (pre ++ p :: s) = true :=
  under_iff.2 ⟨p, s, rfl⟩

theorem mentions_iff {k : Key} {s : String} : k.mentions s = true ↔ s.toList <:+: k.text := by
  unfold mentions
  rw [List.any_eq_true]
  constructor
  · rintro ⟨l, hl, hs⟩
    exact (List.isPrefixOf_iff_prefix.1 hs).isInfix.trans ((List.mem_tails _ _).1 hl).isInfix
  · rintro ⟨a, b, h⟩
    refine ⟨s.toList ++ b, (List.mem_tails _ _).2 ⟨a, ?_⟩, List.isPrefixOf_iff_prefix.2 (List.prefix_append ..)⟩
    rw [← h, List.append_assoc]

theorem text_append {a b : Key} (ha : a ≠ []) (hb : b ≠ []) : text (a ++ b) = text a ++ '.' :: text b := by
  induction a with
  | nil => exact absurd rfl ha
  | cons p a ih =>
      cases a with
      | nil =>
          cases b with
          | nil => exact absurd rfl hb
          | cons q b => rfl
      | cons q a =>
          show p.text ++ '.' :: text (q :: a ++ b) = _
          rw [ih (List.cons_ne_nil q a), text, List.append_assoc]
          rfl

/-- A key mentions the parts in its middle, with the dot behind them. -/
theorem mentions_middle {a b c : Key} {s : String} (ha : a ≠ []) (hb : b ≠ []) (hc : c ≠ [])
    (hs : s.toList = text b ++ ['.']) : (a ++ (b ++ c)).mentions s = true := by
  refine mentions_iff.2 ⟨text a ++ ['.'], text c, ?_⟩
  rw [text_append ha (List.append_ne_nil_of_left_ne_nil hb c), text_append hb hc, hs]
  simp

theorem mentions_end {a b : Key} {s : String} (ha : a ≠ []) (hb : b ≠ []) (hs : s.toList = text b) :
    (a ++ b).mentions s = true := by
  refine mentions_iff.2 ⟨text a ++ ['.'], [], ?_⟩
  rw [text_append ha hb, hs]
  simp

end Key

/-! ## Tensors -/

/-- A tensor by its rows along the first dimension. -/
inductive Tensor (R : Type)
  | scalar (x : R)
  | rows (ts : List (Tensor R))

namespace Tensor

variable {R : Type}

def size0 : Tensor R → Except PyException Nat
  | .scalar _ => .error ⟨.indexError, "tuple index out of range"⟩
  | .rows ts => .ok ts.length

def row (t : Tensor R) (i : Nat) : Except PyException (Tensor R) :=
  match t with
  | .scalar _ => .error ⟨.indexError, "invalid index of a 0-dim tensor"⟩
  | .rows ts => listItem ts i

mutual

/-- `t.shape`; all rows have the shape of the first. -/
def shape : Tensor R → List Nat
  | .scalar _ => []
  | .rows ts => ts.length :: shapeOf ts

def shapeOf : List (Tensor R) → List Nat
  | [] => []
  | t :: _ => shape t

end

def stack : List (Tensor R) → Except PyException (Tensor R)
  | [] => .error ⟨.runtimeError, "stack expects a non-empty TensorList"⟩
  | t :: ts =>
      if ts.all fun t' => t'.shape = t.shape then .ok (.rows (t :: ts))
      else .error ⟨.runtimeError, "stack expects each tensor to be equal size"⟩

/-- All tensors have one shape, as the rows of a tensor have. -/
def OneShape (ts : List (Tensor R)) : Prop := ∀ t ∈ ts, ∀ t' ∈ ts, t'.shape = t.shape

theorem stack_of_oneShape {ts : List (Tensor R)} (hne : ts ≠ []) (h : OneShape ts) : stack ts = .ok (.rows ts) := by
  obtain ⟨t, ts, rfl⟩ := List.exists_cons_of_ne_nil hne
  refine if_pos (List.all_eq_true.2 fun t' ht' => ?_)
  exact decide_eq_true (h t List.mem_cons_self t' (List.mem_cons_of_mem _ ht'))

def slice (lo hi : Nat) : Tensor R → Tensor R
  | .scalar x => .scalar x
  | .rows ts => .rows ((ts.take hi).drop lo)

def sliceRows (lo hi : Nat) : Tensor R → Tensor R
  | .scalar x => .scalar x
  | .rows ts => .rows (ts.map (slice lo hi))

/-- `torch.empty(shape).copy_(t)`, for a tensor of this shape. -/
def copyTo (size : List Nat) (t : Tensor R) : Except PyException (Tensor R) :=
  if t.shape = size then .ok t
  else .error ⟨.runtimeError, "The size of tensor a must match the size of tensor b"⟩

mutual

/-- The elements, row by row. -/
def elems : Tensor R → List R
  | .scalar x => [x]
  | .rows ts => elemsOf ts

def elemsOf : List (Tensor R) → List R
  | [] => []
  | t :: ts => elems t ++ elemsOf ts

end

mutual

def map (f : R → R) : Tensor R → Tensor R
  | .scalar x => .scalar (f x)
  | .rows ts => .rows (mapRows f ts)

def mapRows (f : R → R) : List (Tensor R) → List (Tensor R)
  | [] => []
  | t :: ts => map f t :: mapRows f ts

end

def subMin [Sub R] [Min R] (t : Tensor R) : Except PyException (Tensor R) :=
  match t.elems.min? with
  | some m => .ok (t.map (· - m))
  | none => .error ⟨.runtimeError, "min(): Expected reduction dim to be specified for input.numel() == 0."⟩

end Tensor

/-! ## Dictionaries of weights -/

abbrev StateDict (R : Type) := Dict Key (Tensor R)

variable {R : Type}

/-- `state_dict.pop(key)`, or `state_dict[key]` with `del state_dict[key]` after it. -/
def pop {α : Type} (key : Key) (d : StateDict R) (next : Tensor R → StateDict R → Except PyException α) :
    Except PyException α :=
  match d.get? key with
  | some t => next t (d.erase key)
  | none => .error ⟨.keyError, String.ofList key.text⟩

def lookup {α : Type} (key : Key) (d : StateDict R) (next : Tensor R → Except PyException α) : Except PyException α :=
  match d.get? key with
  | some t => next t
  | none => .error ⟨.keyError, String.ofList key.text⟩

def moveKey (old new : Key) (d : StateDict R) : Except PyException (StateDict R) :=
  pop old d fun t d => .ok (d.insert new t)

/-- `if old in state_dict: state_dict[new] = state_dict.pop(old)`. -/
def moveIfPresent (old new : Key) (d : StateDict R) : Except PyException (StateDict R) :=
  if (d.get? old).isSome then moveKey old new d else .ok d

def assign (key : Key) (t : Tensor R) (d : StateDict R) : Except PyException (StateDict R) := .ok (d.insert key t)

/-- The values at the keys, popped one after the other. -/
def popAll {α : Type} : List Key → StateDict R → (List (Tensor R) → StateDict R → Except PyException α) →
    Except PyException α
  | [], d, next => next [] d
  | key :: keys, d, next => pop key d fun t d => popAll keys d fun ts d => next (t :: ts) d

/-- `for i in range(w.shape[0]): state_dict[target(i)] = w[i]`. -/
def unstack (w : Tensor R) (target : Nat → Key) (d : StateDict R) : Except PyException (StateDict R) := do
  let n ← w.size0
  (List.range n).foldlM (fun d i => do
    let t ← w.row i
    return d.insert (target i) t) d

/-- `if key in state_dict`: the tensor at `key` gives way to its rows. -/
def unstackIfPresent (key : Key) (target : Nat → Key) (d : StateDict R) : Except PyException (StateDict R) :=
  if (d.get? key).isSome then pop key d fun w d => unstack w target d else .ok d

def discard (key : Key) (d : StateDict R) : Except PyException (StateDict R) := .ok (d.erase key)

/-- `_rename_keys`: the keys are listed first, and moved one by one. -/
def renameKeys (oldPrefix newPrefix : Key) (d : StateDict R) : Except PyException (StateDict R) :=
  (d.keys.filter (Key.under oldPrefix)).foldlM
    (fun d key => moveKey key (newPrefix ++ key.drop oldPrefix.length) d) d

/-! ## The keys they touch -/

section Confined

variable {P : Key → Bool} {old new key : Key}

theorem confined_pop (hkey : P key = true) {next : Tensor R → StateDict R → Except PyException (StateDict R)}
    (h : ∀ t, Confined P (next t)) : Confined P (fun d => pop key d next) := by
  refine Confined.lookup (f := fun v d => match v with
    | some t => next t (d.erase key)
    | none => .error ⟨.keyError, String.ofList key.text⟩) hkey fun v => ?_
  cases v with
  | none => exact Confined.throw _
  | some t => exact (Confined.erase hkey).bind (h t)

theorem confined_moveKey (hold : P old = true) (hnew : P new = true) :
    Confined P (moveKey old new : StateDict R → _) :=
  confined_pop hold fun t => Confined.insert hnew t

theorem confined_ifPresent (hkey : P key = true) {f : StateDict R → Except PyException (StateDict R)}
    (h : Confined P f) : Confined P (fun d => if (d.get? key).isSome then f d else .ok d) := by
  refine Confined.lookup (f := fun v d => if v.isSome then f d else .ok d) hkey fun v => ?_
  split_ifs
  · exact h
  · exact Confined.pure

theorem confined_moveIfPresent (hold : P old = true) (hnew : P new = true) :
    Confined P (moveIfPresent old new : StateDict R → _) :=
  confined_ifPresent hold (confined_moveKey hold hnew)

theorem confined_assign (hkey : P key = true) (t : Tensor R) : Confined P (assign key t) := Confined.insert hkey t

theorem confined_popAll {keys : List Key} (hkeys : ∀ k ∈ keys, P k = true)
    {next : List (Tensor R) → StateDict R → Except PyException (StateDict R)} (h : ∀ ts, Confined P (next ts)) :
    Confined P (fun d => popAll keys d next) := by
  induction keys generalizing next with
  | nil => exact h []
  | cons key keys ih =>
      refine confined_pop (hkeys key List.mem_cons_self) fun t => ?_
      exact ih (fun k hk => hkeys k (List.mem_cons_of_mem key hk)) fun ts => h (t :: ts)

/-- What an operation computes first does not touch the dictionary. -/
theorem confined_bind {α : Type} {x : Except PyException α}
    {f : α → StateDict R → Except PyException (StateDict R)} (h : ∀ a, Confined P (f a)) :
    Confined P (fun d => x >>= fun a => f a d) := by
  cases x with
  | error e => exact Confined.throw e
  | ok a => exact h a

theorem confined_unstack (w : Tensor R) {target : Nat → Key} (htarget : ∀ i, P (target i) = true) :
    Confined P (unstack w target) := by
  refine confined_bind fun n => Confined.foldlM fun i _ => ?_
  exact confined_bind fun t => Confined.insert (htarget i) t

theorem confined_unstackIfPresent {target : Nat → Key} (hkey : P key = true) (htarget : ∀ i, P (target i) = true) :
    Confined P (unstackIfPresent key target : StateDict R → _) :=
  confined_ifPresent hkey (confined_pop hkey fun w => confined_unstack w htarget)

theorem confined_discard (hkey : P key = true) : Confined P (discard key : StateDict R → _) := Confined.erase hkey

theorem confined_renameKeys {oldPrefix newPrefix : Key} (hold : ∀ p s, P (oldPrefix ++ p :: s) = true)
    (hnew : ∀ p s, P (newPrefix ++ p :: s) = true) : Confined P (renameKeys oldPrefix newPrefix : StateDict R → _) := by
  refine Confined.keys (f := fun l d =>
    l.foldlM (fun d key => moveKey key (newPrefix ++ key.drop oldPrefix.length) d) d) ?_ fun l hl => ?_
  · intro k hk
    obtain ⟨p, s, rfl⟩ := Key.under_iff.1 hk
    exact hold p s
  · refine Confined.foldlM fun k hk => ?_
    obtain ⟨p, s, rfl⟩ := Key.under_iff.1 (hl k hk)
    rw [List.drop_left]
    exact confined_moveKey (hold p s) (hnew p s)

/-- A renaming that leaves every key in its cell acts on every cell by itself. -/
theorem splits_renameKeys {γ : Type} [DecidableEq γ] {cell : Key → γ} {oldPrefix newPrefix : Key}
    (h : ∀ p s, cell (newPrefix ++ p :: s) = cell (oldPrefix ++ p :: s)) :
    Splits cell (renameKeys oldPrefix newPrefix : StateDict R → _) fun _ => renameKeys oldPrefix newPrefix := by
  refine Splits.keys fun k hk => ?_
  obtain ⟨p, s, rfl⟩ := Key.under_iff.1 hk
  rw [List.drop_left]
  exact confined_moveKey (decide_eq_true rfl) (decide_eq_true (h p s))

end Confined

/-! ## What a renaming leaves -/

theorem moveKey_of_get? {d : StateDict R} {old new : Key} {t : Tensor R} (h : d.get? old = some t) :
    moveKey old new d = .ok ((d.erase old).insert new t) := by
  unfold moveKey pop
  rw [h]

theorem moveKey_spec {d : StateDict R} {old : Key} (new : Key) {t : Tensor R} (h : d.get? old = some t)
    (hne : old ≠ new) : ∃ d', moveKey old new d = .ok d' ∧ d'.get? new = some t ∧ d'.get? old = none ∧
      ∀ k, k ≠ old → k ≠ new → d'.get? k = d.get? k := by
  refine ⟨(d.erase old).insert new t, moveKey_of_get? h, Dict.get?_insert_self .., ?_, ?_⟩
  · rw [Dict.get?_insert, if_neg (Ne.symm hne), Dict.get?_erase, if_pos rfl]
  · intro k hold hnew
    rw [Dict.get?_insert, if_neg (Ne.symm hnew), Dict.get?_erase, if_neg (Ne.symm hold)]

/-- Keys moved one by one to fresh keys, no two to one. -/
theorem foldlM_moveKey {ks : List Key} (target : Key → Key) {d : StateDict R} (hnodup : ks.Nodup)
    (hmem : ∀ k ∈ ks, k ∈ d.keys) (hfresh : ∀ k ∈ ks, target k ∉ d.keys)
    (hinj : ∀ k ∈ ks, ∀ k' ∈ ks, target k = target k' → k = k') :
    ∃ d', ks.foldlM (fun d k => moveKey k (target k) d) d = .ok d' ∧
      (∀ k ∈ ks, d'.get? (target k) = d.get? k) ∧ (∀ k ∈ ks, d'.get? k = none) ∧
      ∀ k, k ∉ ks → (∀ k' ∈ ks, target k' ≠ k) → d'.get? k = d.get? k := by
  induction ks generalizing d with
  | nil =>
      refine ⟨d, rfl, ?_, ?_, fun _ _ _ => rfl⟩
      · intro k hk
        cases hk
      · intro k hk
        cases hk
  | cons k₀ ks ih =>
      rw [List.nodup_cons] at hnodup
      obtain ⟨t, ht⟩ := Dict.mem_keys_iff.1 (hmem k₀ List.mem_cons_self)
      have hnew : target k₀ ≠ k₀ := fun h => hfresh k₀ List.mem_cons_self (h.symm ▸ hmem k₀ List.mem_cons_self)
      have hget : ∀ k, ((d.erase k₀).insert (target k₀) t).get? k =
          if target k₀ = k then some t else if k₀ = k then none else d.get? k := by
        intro k
        rw [Dict.get?_insert, Dict.get?_erase]
      have hstay : ∀ k ∈ ks, k ≠ k₀ ∧ k ≠ target k₀ := by
        intro k hk
        refine ⟨fun h => hnodup.1 (h ▸ hk), fun h => ?_⟩
        exact hfresh k₀ List.mem_cons_self (h ▸ hmem k (List.mem_cons_of_mem _ hk))
      obtain ⟨d', hd', hmoved, hgone, hsame⟩ := ih (d := (d.erase k₀).insert (target k₀) t) hnodup.2
        (by
          intro k hk
          obtain ⟨hne, hne'⟩ := hstay k hk
          obtain ⟨u, hu⟩ := Dict.mem_keys_iff.1 (hmem k (List.mem_cons_of_mem _ hk))
          exact Dict.mem_keys_iff.2 ⟨u, by rw [hget, if_neg hne'.symm, if_neg hne.symm, hu]⟩)
        (by
          intro k hk
          have hold := hfresh k (List.mem_cons_of_mem _ hk)
          rw [← Dict.get?_eq_none_iff] at hold ⊢
          rw [hget, if_neg, hold, ite_self]
          intro h
          exact hnodup.1 (hinj k₀ List.mem_cons_self k (List.mem_cons_of_mem _ hk) h ▸ hk))
        fun k hk k' hk' => hinj k (List.mem_cons_of_mem _ hk) k' (List.mem_cons_of_mem _ hk')
      have hfirst : d'.get? (target k₀) = some t := by
        rw [hsame, hget, if_pos rfl]
        · intro h
          exact (hstay _ h).2 rfl
        · intro k' hk' h
          exact hnodup.1 (hinj k' (List.mem_cons_of_mem _ hk') k₀ List.mem_cons_self h ▸ hk')
      have hfirst' : d'.get? k₀ = none := by
        rw [hsame k₀ hnodup.1, hget, if_neg hnew, if_pos rfl]
        intro k' hk' h
        exact hfresh k' (List.mem_cons_of_mem _ hk') (h ▸ hmem k₀ List.mem_cons_self)
      refine ⟨d', ?_, ?_, ?_, ?_⟩
      · rw [List.foldlM_cons, moveKey_of_get? ht]
        exact hd'
      · intro k hk
        obtain rfl | hk := List.mem_cons.1 hk
        · rw [hfirst, ht]
        · rw [hmoved k hk, hget, if_neg (hstay k hk).2.symm, if_neg (hstay k hk).1.symm]
      · intro k hk
        obtain rfl | hk := List.mem_cons.1 hk
        · exact hfirst'
        · exact hgone k hk
      · intro k hk htarget
        rw [List.mem_cons, not_or] at hk
        rw [hsame k hk.2 fun k' hk' => htarget k' (List.mem_cons_of_mem _ hk'), hget,
          if_neg (htarget k₀ List.mem_cons_self), if_neg (Ne.symm hk.1)]

/-- A renaming always ends: every key it lists is there when its turn comes. -/
theorem renameKeys_ok (oldPrefix newPrefix : Key) (d : StateDict R) : ∃ d', renameKeys oldPrefix newPrefix d = .ok d' := by
  have hfold : ∀ (ks : List Key) (d : StateDict R), ks.Nodup → (∀ k ∈ ks, k ∈ d.keys) →
      ∃ d', ks.foldlM (fun d key => moveKey key (newPrefix ++ key.drop oldPrefix.length) d) d = .ok d' := by
    intro ks
    induction ks with
    | nil => exact fun d _ _ => ⟨d, rfl⟩
    | cons k₀ ks ih =>
        intro d hnodup hmem
        rw [List.nodup_cons] at hnodup
        obtain ⟨t, ht⟩ := Dict.mem_keys_iff.1 (hmem k₀ List.mem_cons_self)
        rw [List.foldlM_cons, moveKey_of_get? ht]
        refine ih _ hnodup.2 fun k hk => ?_
        obtain ⟨u, hu⟩ := Dict.mem_keys_iff.1 (hmem k (List.mem_cons_of_mem _ hk))
        have hne : k₀ ≠ k := fun h => hnodup.1 (h ▸ hk)
        rw [Dict.mem_keys_iff, Dict.get?_insert, Dict.get?_erase, if_neg hne, hu]
        split_ifs
        · exact ⟨t, rfl⟩
        · exact ⟨u, rfl⟩
  exact hfold _ d (d.nodup.filter (Key.under oldPrefix)) fun k hk => (List.mem_filter.1 hk).1

theorem moveIfPresent_ok (old new : Key) (d : StateDict R) : ∃ d', moveIfPresent old new d = .ok d' := by
  unfold moveIfPresent
  cases h : d.get? old with
  | none => exact ⟨d, rfl⟩
  | some t => exact ⟨_, moveKey_of_get? h⟩

/-- A move to a fresh key. -/
theorem moveIfPresent_spec {old new : Key} {d : StateDict R} (hne : old ≠ new) (hfresh : new ∉ d.keys) :
    ∃ d', moveIfPresent old new d = .ok d' ∧ d'.get? new = d.get? old ∧ d'.get? old = none ∧
      ∀ k, k ≠ old → k ≠ new → d'.get? k = d.get? k := by
  unfold moveIfPresent
  cases hold : d.get? old with
  | none => exact ⟨d, rfl, Dict.get?_eq_none_iff.2 hfresh, hold, fun _ _ _ => rfl⟩
  | some t => exact moveKey_spec new hold hne

/-- The rows of a tensor under keys of their own. -/
theorem unstack_spec {ts : List (Tensor R)} {target : Nat → Key} (hinj : ∀ j j', target j = target j' → j = j')
    (d : StateDict R) : ∃ d', unstack (.rows ts) target d = .ok d' ∧
      (∀ j t, ts[j]? = some t → d'.get? (target j) = some t) ∧
      ∀ k, (∀ j, j < ts.length → target j ≠ k) → d'.get? k = d.get? k := by
  have hfold : ∀ n, n ≤ ts.length → ∃ d', (List.range n).foldlM (fun d i => do
      let t ← (Tensor.rows ts).row i
      return d.insert (target i) t) d = .ok d' ∧
      (∀ j t, j < n → ts[j]? = some t → d'.get? (target j) = some t) ∧
      ∀ k, (∀ j, j < n → target j ≠ k) → d'.get? k = d.get? k := by
    intro n
    induction n with
    | zero => exact fun _ => ⟨d, rfl, fun j t hj => absurd hj (Nat.not_lt_zero j), fun _ _ => rfl⟩
    | succ n ih =>
        intro hn
        obtain ⟨d', hd', hrows, hsame⟩ := ih (Nat.le_of_succ_le hn)
        have hrow : (Tensor.rows ts).row n = .ok ts[n] := listItem_eq_ok.2 (List.getElem?_eq_getElem hn)
        refine ⟨d'.insert (target n) ts[n], ?_, fun j t hj ht => ?_, fun k hk => ?_⟩
        · rw [List.range_succ, List.foldlM_append, hd']
          simp only [ok_bind, List.foldlM_cons, List.foldlM_nil, hrow]
          rfl
        · rw [Dict.get?_insert]
          split_ifs with heq
          · obtain rfl := hinj _ _ heq
            rw [← ht, List.getElem?_eq_getElem hn]
          · refine hrows j t (lt_of_le_of_ne (Nat.le_of_lt_succ hj) fun h => heq (h ▸ rfl)) ht
        · rw [Dict.get?_insert, if_neg (hk n (Nat.lt_succ_self n))]
          exact hsame k fun j hj => hk j (Nat.lt_succ_of_lt hj)
  obtain ⟨d', hd', hrows, hsame⟩ := hfold ts.length (Nat.le_refl _)
  refine ⟨d', hd', fun j t ht => ?_, hsame⟩
  obtain ⟨hj, -⟩ := List.getElem?_eq_some_iff.1 ht
  exact hrows j t hj ht

/-- A tensor that gives way to its rows, under fresh keys. -/
theorem unstackIfPresent_spec {key : Key} {ts : List (Tensor R)} (target : Nat → Key) {d : StateDict R}
    (hkey : d.get? key = some (.rows ts)) (hinj : ∀ j j', target j = target j' → j = j')
    (hfresh : ∀ j, target j ∉ d.keys) : ∃ d', unstackIfPresent key target d = .ok d' ∧
      (∀ j, d'.get? (target j) = ts[j]?) ∧ d'.get? key = none ∧
      ∀ k, k ≠ key → (∀ j, target j ≠ k) → d'.get? k = d.get? k := by
  have hne : ∀ j, target j ≠ key := fun j h => hfresh j (h ▸ Dict.mem_keys_iff.2 ⟨_, hkey⟩)
  obtain ⟨d', hd', hrows, hsame⟩ := unstack_spec hinj (d.erase key)
  have herase : ∀ k, k ≠ key → (d.erase key).get? k = d.get? k := by
    intro k hk
    rw [Dict.get?_erase, if_neg (Ne.symm hk)]
  refine ⟨d', ?_, fun j => ?_, ?_, fun k hk htarget => ?_⟩
  · unfold unstackIfPresent pop
    rw [hkey]
    exact hd'
  · cases hj : ts[j]? with
    | some t => exact hrows j t hj
    | none =>
        rw [hsame, herase _ (hne j), Dict.get?_eq_none_iff.2 (hfresh j)]
        intro j' hj' heq
        rw [hinj _ _ heq] at hj'
        rw [List.getElem?_eq_getElem hj'] at hj
        cases hj
  · rw [hsame key fun j _ => hne j, Dict.get?_erase, if_pos rfl]
  · rw [hsame k fun j _ => htarget j, herase k hk]

/-- **A renaming** to a prefix no key has yet. -/
theorem renameKeys_spec (oldPrefix : Key) {newPrefix : Key} {d : StateDict R}
    (hfresh : ∀ p s, newPrefix ++ p :: s ∉ d.keys) :
    ∃ d', renameKeys oldPrefix newPrefix d = .ok d' ∧
      (∀ p s, d'.get? (newPrefix ++ p :: s) = d.get? (oldPrefix ++ p :: s)) ∧
      (∀ k, Key.under newPrefix k = false → Key.under oldPrefix k = true → d'.get? k = none) ∧
      ∀ k, Key.under newPrefix k = false → Key.under oldPrefix k = false → d'.get? k = d.get? k := by
  have hunder : ∀ k ∈ d.keys.filter (Key.under oldPrefix), ∃ p s, k = oldPrefix ++ p :: s := by
    intro k hk
    exact Key.under_iff.1 (List.mem_filter.1 hk).2
  obtain ⟨d', hd', hmoved, hgone, hsame⟩ := foldlM_moveKey (d := d)
    (fun k => newPrefix ++ k.drop oldPrefix.length) (d.nodup.filter (Key.under oldPrefix))
    (fun k hk => (List.mem_filter.1 hk).1)
    (by
      intro k hk
      obtain ⟨p, s, rfl⟩ := hunder k hk
      rw [List.drop_left]
      exact hfresh p s)
    (by
      intro k hk k' hk' h
      obtain ⟨p, s, rfl⟩ := hunder k hk
      obtain ⟨p', s', rfl⟩ := hunder k' hk'
      rw [List.drop_left, List.drop_left] at h
      rw [List.append_cancel_left h])
  refine ⟨d', hd', fun p s => ?_, fun k hnew hold => ?_, fun k hnew hold => ?_⟩
  · by_cases hmem : oldPrefix ++ p :: s ∈ d.keys
    · have := hmoved _ (List.mem_filter.2 ⟨hmem, Key.under_append oldPrefix p s⟩)
      rwa [List.drop_left] at this
    · rw [Dict.get?_eq_none_iff.2 hmem]
      rw [hsame, Dict.get?_eq_none_iff.2 (hfresh p s)]
      · intro h
        exact hfresh p s (List.mem_filter.1 h).1
      · intro k hk h
        obtain ⟨p', s', rfl⟩ := hunder k hk
        rw [List.drop_left] at h
        rw [List.append_cancel_left h] at hk
        exact hmem (List.mem_filter.1 hk).1
  · by_cases hmem : k ∈ d.keys
    · exact hgone k (List.mem_filter.2 ⟨hmem, hold⟩)
    · rw [hsame k fun h => hmem (List.mem_filter.1 h).1, Dict.get?_eq_none_iff.2 hmem]
      intro k' hk' h
      obtain ⟨p, s, rfl⟩ := hunder k' hk'
      rw [← h, List.drop_left, Key.under_append] at hnew
      cases hnew
  · refine hsame k ?_ ?_
    · intro h
      rw [(List.mem_filter.1 h).2] at hold
      cases hold
    · intro k' hk' h
      obtain ⟨p, s, rfl⟩ := hunder k' hk'
      rw [← h, List.drop_left, Key.under_append] at hnew
      cases hnew

end AuroraRl.Weights
