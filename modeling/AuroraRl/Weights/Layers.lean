import AuroraRl.Weights.Qwen3Moe

/-!
# Converting the weights layer by layer

* `ModelClass` : what the broadcast uses of a model, `getLayerPrefix`, `getMaxLayerNum`;
* `filterStateDictByLayers`, `preprocessLayerCheckpoint`, `layerParts` : the parts that are sent;
* `IsUnion` : a dictionary is the disjoint union of parts;
* `isUnion_of_splits` : a conversion that acts on every layer by itself is the union of its conversions of the parts.
-/

namespace AuroraRl.Weights

variable {R : Type}

/-! ## The parts that are sent -/

structure ModelClass (R : Type) where
  modelType : String
  isPrimeStateDict : StateDict R → Bool
  convertToHf : StateDict R → Except PyException (StateDict R)
  /-- The weights outside the layers come with no index. -/
  convertLayerToHf : Option Nat → StateDict R → Except PyException (StateDict R)

/-- `VLM_REGISTRY`, by the attribute of the language model. -/
def vlmRegistry : List (String × Key) :=
  [("qwen3_vl", ["model", "language_model"]), ("qwen3_5", ["model", "language_model"]),
    ("qwen3_5_moe", ["model", "language_model"]), ("qwen3_vl_moe", ["model", "language_model"])]

def getLayerPrefix (modelType : String) : Key :=
  match vlmRegistry.lookup modelType with
  | some attr => attr ++ [.name "layers"]
  | none => ["model", "layers"]

/-- The layer a key is in, counted from one. -/
def layerCount (layerPrefix key : Key) : Nat :=
  if Key.under layerPrefix key then
    match (key[layerPrefix.length]? : Option Part) with
    | some (.index i) => i + 1
    | _ => 0
  else 0

/-- `get_max_layer_num` of the broadcast. -/
def getMaxLayerNum (d : StateDict R) (layerPrefix : Key) : Nat := (d.keys.map (layerCount layerPrefix)).foldl max 0

def filterStateDictByLayers (d : StateDict R) (numLayers : Nat) (layerPrefix : Key) :
    List (Option Nat × StateDict R) :=
  (none, d.restrict fun k => !Key.under layerPrefix k) ::
    (List.range numLayers).map fun i => (some i, d.restrict (Key.under (layerPrefix ++ [.index i])))

/-- `preprocess_layer_checkpoint`; `revert` is the reverse weight mapping of the library. -/
def preprocessLayerCheckpoint (m : ModelClass R) (revert : StateDict R → StateDict R) (d : StateDict R)
    (layerIdx : Option Nat) : Except PyException (StateDict R) :=
  if m.isPrimeStateDict d then m.convertLayerToHf layerIdx d else .ok (revert d)

/-- The dictionaries `broadcast_weights` sends. -/
def layerParts (m : ModelClass R) (revert : StateDict R → StateDict R) (d : StateDict R) :
    Except PyException (List (StateDict R)) :=
  let layerPrefix := getLayerPrefix m.modelType
  (filterStateDictByLayers d (getMaxLayerNum d layerPrefix) layerPrefix).mapM fun p =>
    preprocessLayerCheckpoint m revert p.2 p.1

/-! ## Unions -/

/-- The dictionary holds what the parts hold, and no two parts share a key. -/
structure IsUnion (parts : List (StateDict R)) (whole : StateDict R) : Prop where
  get?_iff : ∀ k t, whole.get? k = some t ↔ ∃ part ∈ parts, part.get? k = some t
  disjoint : parts.Pairwise fun a b => ∀ k ∈ a.keys, k ∉ b.keys

/-- The layers sent one by one are the weights converted at once, and none of them keeps a key of the training format. -/
def SentAsWhole (m : ModelClass R) (revert : StateDict R → StateDict R) (isTrainingKey : Key → Prop)
    (d : StateDict R) : Prop :=
  ∃ whole parts, m.convertToHf d = .ok whole ∧ layerParts m revert d = .ok parts ∧ IsUnion parts whole ∧
    ∀ k ∈ whole.keys, ¬ isTrainingKey k

/-- The cells of the parts: outside the layers, and every layer. -/
def cells (n : Nat) : List (Option Nat) := none :: (List.range n).map some

theorem mem_cells {n : Nat} {c : Option Nat} : c ∈ cells n ↔ ∀ i, c = some i → i < n := by
  unfold cells
  cases c with
  | none => simp
  | some i => simp

theorem nodup_cells (n : Nat) : (cells n).Nodup := by
  unfold cells
  rw [List.nodup_cons]
  exact ⟨by simp, List.nodup_range.map (Option.some_injective Nat)⟩

/-- **Parts and whole.** What the conversion of each part gives is what the conversion of the whole holds in its cell. -/
theorem isUnion_of_splits {cell : Key → Option Nat} {f : StateDict R → Except PyException (StateDict R)}
    {g : Option Nat → StateDict R → Except PyException (StateDict R)}
    (conv : Option Nat → StateDict R → Except PyException (StateDict R)) (hsplits : Splits cell f g)
    {d : StateDict R} {n : Nat} (hg : ∀ c, ∃ e, g c (d.part cell c) = .ok e)
    (hhigh : ∀ i, n ≤ i → ∀ e, g (some i) (d.part cell (some i)) = .ok e → e.keys = [])
    (hconv : ∀ c ∈ cells n, ∀ e, g c (d.part cell c) = .ok e →
      ∃ e', conv c (d.part cell c) = .ok e' ∧ ∀ k, e'.get? k = e.get? k) :
    ∃ whole parts, f d = .ok whole ∧ (cells n).mapM (fun c => conv c (d.part cell c)) = .ok parts ∧
      IsUnion parts whole := by
  obtain ⟨whole, hwhole, hparts⟩ := hsplits d hg
  have hpart : ∀ c, ∃ e', c ∈ cells n →
      conv c (d.part cell c) = .ok e' ∧ ∀ k, e'.get? k = (whole.part cell c).get? k := by
    intro c
    by_cases hc : c ∈ cells n
    · obtain ⟨e', he', hget⟩ := hconv c hc _ (hparts c)
      exact ⟨e', fun _ => ⟨he', hget⟩⟩
    · exact ⟨whole, fun h => absurd h hc⟩
  choose part hpart using hpart
  have hkeys : ∀ c ∈ cells n, ∀ k t, (part c).get? k = some t ↔ cell k = c ∧ whole.get? k = some t := by
    intro c hc k t
    rw [(hpart c hc).2, Dict.get?_part]
    split_ifs with h <;> simp [h]
  refine ⟨whole, (cells n).map part, hwhole, ?_, ?_, ?_⟩
  · rw [mapM_eq_ok_iff, List.forall₂_map_right_iff, List.forall₂_same]
    exact fun c hc => (hpart c hc).1
  · intro k t
    constructor
    · intro hk
      have hc : cell k ∈ cells n := by
        refine mem_cells.2 fun i hi => ?_
        by_contra hlt
        have hempty := hhigh i (Nat.le_of_not_lt hlt) _ (hparts (some i))
        have hmem : k ∈ (whole.part cell (some i)).keys := by
          rw [Dict.mem_keys_iff, Dict.get?_part, if_pos hi]
          exact ⟨t, hk⟩
        rw [hempty] at hmem
        cases hmem
      exact ⟨part (cell k), List.mem_map_of_mem hc, (hkeys _ hc k t).2 ⟨rfl, hk⟩⟩
    · rintro ⟨p, hp, hk⟩
      obtain ⟨c, hc, rfl⟩ := List.mem_map.1 hp
      exact ((hkeys c hc k t).1 hk).2
  · rw [List.pairwise_map]
    refine (nodup_cells n).imp_of_mem fun {c c'} hc hc' hne k hk hk' => ?_
    obtain ⟨t, ht⟩ := Dict.mem_keys_iff.1 hk
    obtain ⟨t', ht'⟩ := Dict.mem_keys_iff.1 hk'
    exact hne (((hkeys c hc k t).1 ht).1.symm.trans ((hkeys c' hc' k t').1 ht').1)

/-- The parts that are sent are those of the cells. -/
theorem layerParts_eq {m : ModelClass R} {revert : StateDict R → StateDict R} {d : StateDict R}
    {cell : Key → Option Nat} {n : Nat} (hn : getMaxLayerNum d (getLayerPrefix m.modelType) = n)
    (hnone : d.restrict (fun k => !Key.under (getLayerPrefix m.modelType) k) = d.part cell none)
    (hsome : ∀ i, d.restrict (Key.under (getLayerPrefix m.modelType ++ [.index i])) = d.part cell (some i)) :
    layerParts m revert d = (cells n).mapM fun c => preprocessLayerCheckpoint m revert (d.part cell c) c := by
  have hparts : filterStateDictByLayers d n (getLayerPrefix m.modelType) =
      (cells n).map fun c => (c, d.part cell c) := by
    unfold filterStateDictByLayers cells
    rw [hnone, List.map_cons, List.map_map]
    refine congrArg _ (List.map_congr_left fun i _ => ?_)
    rw [hsome]
    rfl
  unfold layerParts
  simp only [hn, hparts, List.mapM_map]
  rfl

/-! ## The number of layers -/

/-- `max(...) + 1` of layer numbers below `n`, the last of them among them. -/
theorem numLayers_eq {keys : List Key} {n : Nat} (h : ∀ k ∈ keys, ∃ i p s, i < n ∧ k = inLayer i (p :: s))
    (hlast : ∃ k ∈ keys, ∃ i s, i + 1 = n ∧ k = inLayer i s) : numLayers keys = .ok n := by
  have hnums : keys.mapM layerNumber = .ok (keys.map (layerCount ["model", "layers"] · - 1)) := by
    rw [mapM_eq_ok_iff, List.forall₂_map_right_iff, List.forall₂_same]
    intro k hk
    obtain ⟨i, p, s, -, rfl⟩ := h k hk
    rfl
  have hmax : (keys.map (layerCount ["model", "layers"] · - 1)).max? = some (n - 1) := by
    rw [List.max?_eq_some_iff]
    constructor
    · obtain ⟨k, hk, i, s, hi, rfl⟩ := hlast
      obtain ⟨i', p, s', -, heq⟩ := h _ hk
      obtain ⟨rfl, rfl⟩ : i = i' ∧ s = p :: s' := by simpa using heq
      exact List.mem_map.2 ⟨_, hk, by rw [← hi]; rfl⟩
    · intro m hm
      obtain ⟨k, hk, rfl⟩ := List.mem_map.1 hm
      obtain ⟨i, p, s, hi, rfl⟩ := h k hk
      show i + 1 - 1 ≤ n - 1
      omega
  unfold numLayers
  rw [hnums, ok_bind, hmax]
  obtain ⟨-, -, i, -, hi, -⟩ := hlast
  show Except.ok (n - 1 + 1) = _
  congr 1
  omega

/-- The number of layers the broadcast counts. -/
theorem getMaxLayerNum_eq {d : StateDict R} {layerPrefix : Key} {n : Nat}
    (h : ∀ k ∈ d.keys, Key.under layerPrefix k = true → ∃ i p s, i < n ∧ k = layerPrefix ++ .index i :: p :: s)
    (hlast : ∃ k ∈ d.keys, ∃ i s, i + 1 = n ∧ k = layerPrefix ++ .index i :: s) : getMaxLayerNum d layerPrefix = n := by
  have hcount : ∀ i s, layerCount layerPrefix (layerPrefix ++ .index i :: s) = i + 1 := by
    intro i s
    unfold layerCount
    rw [if_pos (Key.under_append ..)]
    simp
  have hle : ∀ k ∈ d.keys, layerCount layerPrefix k ≤ n := by
    intro k hk
    by_cases hunder : Key.under layerPrefix k = true
    · obtain ⟨i, p, s, hi, rfl⟩ := h k hk hunder
      rw [hcount]
      omega
    · unfold layerCount
      rw [if_neg hunder]
      exact Nat.zero_le n
  have hfold : ∀ (l : List Nat) (a : Nat), (l.foldl max a ≤ max a n ∨ ∃ x ∈ l, n < x) ∧ a ≤ l.foldl max a ∧
      ∀ x ∈ l, x ≤ l.foldl max a := by
    intro l
    induction l with
    | nil => exact fun a => ⟨.inl (le_max_left a n), Nat.le_refl a, fun x hx => by cases hx⟩
    | cons y l ih =>
        intro a
        obtain ⟨h₁, h₂, h₃⟩ := ih (max a y)
        refine ⟨?_, (le_max_left a y).trans h₂, fun x hx => ?_⟩
        · by_cases hy : n < y
          · exact .inr ⟨y, List.mem_cons_self, hy⟩
          · obtain h₁ | ⟨x, hx, hlt⟩ := h₁
            · refine .inl (h₁.trans ?_)
              omega
            · exact .inr ⟨x, List.mem_cons_of_mem y hx, hlt⟩
        · obtain rfl | hx := List.mem_cons.1 hx
          · exact (le_max_right a x).trans h₂
          · exact h₃ x hx
  obtain ⟨hupper, -, hlower⟩ := hfold (d.keys.map (layerCount layerPrefix)) 0
  unfold getMaxLayerNum
  refine Nat.le_antisymm ?_ ?_
  · obtain hupper | ⟨x, hx, hlt⟩ := hupper
    · simpa using hupper
    · obtain ⟨k, hk, rfl⟩ := List.mem_map.1 hx
      have := hle k hk
      omega
  · obtain ⟨k, hk, i, s, hi, rfl⟩ := hlast
    have := hlower _ (List.mem_map_of_mem hk)
    rw [hcount] at this
    omega

end AuroraRl.Weights
