import AuroraRl.Lib.Indexing

/-!
# Which experts a worker holds

* `FusedMoE` : what the loader reads of an expert layer; `WellFormed` : the maps of a running worker;
* `Holds` : the logical expert of a local slot;
* `invertLogicalToPhysicalMap`, `buildExpertSourceIndices` : the logical experts of the local slots;
* `invertLogicalToPhysicalMap_spec`, `sourceIndices_spec` : what the two return.
-/

namespace AuroraRl.Worker

open Indexing

/-- What the loader reads of a `FusedMoE` layer: the local slot of each physical expert, `-1` where it is on another
rank, and the physical experts of each logical expert, filled up with `-1`. -/
structure FusedMoE where
  expertMap : Option (List Int)
  globalNumExperts : Nat
  logicalToPhysicalMap : Option (List (List Int))
  deriving DecidableEq

namespace FusedMoE

def numLocal (m : FusedMoE) : Nat :=
  match m.expertMap with
  | none => m.globalNumExperts
  | some expertMap => (expertMap.filter (0 ≤ ·)).length

def numLogical (m : FusedMoE) : Nat :=
  match m.logicalToPhysicalMap with
  | none => m.globalNumExperts
  | some map => map.length

/-- The physical expert `p` is in the local slot `slot`. -/
def Local (m : FusedMoE) (p slot : Nat) : Prop :=
  match m.expertMap with
  | none => p = slot ∧ slot < m.globalNumExperts
  | some expertMap => expertMap[p]? = some (slot : Int)

/-- The physical expert `p` is a copy of the logical expert `e`. -/
def CopyOf (m : FusedMoE) (p e : Nat) : Prop :=
  match m.logicalToPhysicalMap with
  | none => e = p
  | some map => ∃ row, map[e]? = some row ∧ (p : Int) ∈ row

/-- The local slot `slot` holds the logical expert `e`. -/
def Holds (m : FusedMoE) (slot e : Nat) : Prop := ∃ p, m.Local p slot ∧ m.CopyOf p e

/-- The maps of a running worker: each local slot has one physical expert, and each physical expert is the copy of one
logical expert. -/
structure WellFormed (m : FusedMoE) : Prop where
  slots : ∀ expertMap, m.expertMap = some expertMap →
    expertMap.length = m.globalNumExperts ∧ Numbers m.numLocal expertMap
  copies : ∀ map, m.logicalToPhysicalMap = some map →
    (∀ p ∈ map.flatten, -1 ≤ p) ∧ Numbers m.globalNumExperts map.flatten

end FusedMoE

/-- The entries of a map from logical to physical experts, row by row: a physical expert and its logical one. -/
def copies (map : List (List Int)) : List (Int × Nat) := map.zipIdx.flatMap fun row => row.1.map fun p => (p, row.2)

def invertLogicalToPhysicalMap (map : List (List Int)) (numPhysicalExperts : Nat) : Except PyException (List Int) := do
  let invalid := map.flatten.filter fun p => p < -1 ∨ (numPhysicalExperts : Int) ≤ p
  raiseIf (invalid ≠ [])
    ("EPLB maps to invalid physical experts: " ++ toString (invalid.dedup.insertionSort (· ≤ ·)))
  let valid := (copies map).filter fun entry => 0 ≤ entry.1
  .ok (scatter (List.replicate numPhysicalExperts (-1)) (valid.map fun entry => (entry.1.toNat, (entry.2 : Int))))

/-- The physical experts of this rank in the order of their slots. -/
def localPhysicalIndices (expertMap : List Int) : Except PyException (List Int) :=
  let physicalIndices := (List.range expertMap.length).filter fun p => 0 ≤ expertMap.getD p (-1)
  let localIndices := physicalIndices.map fun p => expertMap.getD p (-1)
  gather (physicalIndices.map (↑)) ((argsort localIndices).map (↑))

def buildExpertSourceIndices (m : FusedMoE) : Except PyException (Option (List Int)) :=
  match m.expertMap with
  | none => .ok none
  | some expertMap => do
      let physicalIndices ← localPhysicalIndices expertMap
      match m.logicalToPhysicalMap with
      | none => .ok (some physicalIndices)
      | some map => do
          let physicalToLogical ← invertLogicalToPhysicalMap map m.globalNumExperts
          let logicalIndices ← gather physicalToLogical physicalIndices
          let missing := (physicalIndices.zip logicalIndices).filter fun pair => pair.2 < 0
          raiseIf (missing ≠ [])
            ("EPLB has no logical mapping for local physical experts: " ++ toString (missing.map Prod.fst))
          .ok (some logicalIndices)

/-! ## Inverting the map -/

theorem mem_copies {map : List (List Int)} {p : Int} {e : Nat} :
    (p, e) ∈ copies map ↔ ∃ row, map[e]? = some row ∧ p ∈ row := by
  unfold copies
  rw [List.mem_flatMap]
  constructor
  · rintro ⟨⟨row, e'⟩, hrow, hp⟩
    obtain ⟨q, hq, hpair⟩ := List.mem_map.1 hp
    cases hpair
    exact ⟨row, List.mem_zipIdx_iff_getElem?.1 hrow, hq⟩
  · rintro ⟨row, hrow, hp⟩
    exact ⟨(row, e), List.mem_zipIdx_iff_getElem?.2 hrow, List.mem_map_of_mem hp⟩

theorem map_fst_copies (map : List (List Int)) : (copies map).map Prod.fst = map.flatten := by
  unfold copies
  rw [List.map_flatMap]
  simp only [List.map_map, Function.comp_def, List.map_id']
  rw [List.flatMap_def, List.zipIdx_map_fst]

/-- The positions of the entries that are not negative. -/
def validCopies (map : List (List Int)) : List (Nat × Int) :=
  ((copies map).filter fun entry => 0 ≤ entry.1).map fun entry => (entry.1.toNat, (entry.2 : Int))

theorem mem_validCopies {map : List (List Int)} {p e : Nat} :
    (p, (e : Int)) ∈ validCopies map ↔ ∃ row, map[e]? = some row ∧ (p : Int) ∈ row := by
  unfold validCopies
  rw [← mem_copies, List.mem_map]
  constructor
  · rintro ⟨⟨q, e'⟩, hentry, hpair⟩
    obtain ⟨hmem, hq⟩ := List.mem_filter.1 hentry
    have hq : 0 ≤ q := by simpa using hq
    have hp : q.toNat = p := congrArg Prod.fst hpair
    have he : (e' : Int) = e := congrArg Prod.snd hpair
    have hqp : q = p := by omega
    have hee : e' = e := by omega
    rwa [hqp, hee] at hmem
  · intro h
    exact ⟨(p, e), List.mem_filter.2 ⟨h, by simp⟩, by simp⟩

theorem map_fst_validCopies (map : List (List Int)) :
    (validCopies map).map Prod.fst = (map.flatten.filter (0 ≤ ·)).map Int.toNat := by
  unfold validCopies
  rw [← map_fst_copies, List.filter_map, List.map_map, List.map_map]
  rfl

theorem nodup_validCopies {map : List (List Int)} {n : Nat} (h : Numbers n map.flatten) :
    ((validCopies map).map Prod.fst).Nodup := by
  rw [map_fst_validCopies]
  apply ((List.Perm.map Int.toNat h).nodup_iff).2
  rw [List.map_map]
  exact List.Nodup.map (fun i j hij => by simpa using hij) List.nodup_range

/-- The inverse of a map in which every physical expert is a copy of one logical expert. -/
theorem invertLogicalToPhysicalMap_spec {map : List (List Int)} {n : Nat} (hlow : ∀ p ∈ map.flatten, -1 ≤ p)
    (h : Numbers n map.flatten) :
    ∃ logical : List Nat, invertLogicalToPhysicalMap map n = .ok (logical.map (↑)) ∧ logical.length = n ∧
      ∀ p e : Nat, logical[p]? = some e ↔ ∃ row, map[e]? = some row ∧ (p : Int) ∈ row := by
  have hhigh : ∀ p ∈ map.flatten, p < n := by
    intro p hp
    by_cases hneg : p < 0
    · omega
    · have hp' : ((p.toNat : Nat) : Int) ∈ map.flatten := by rwa [Int.toNat_of_nonneg (by omega)]
      have hlt := h.mem_iff.1 hp'
      omega
  have hnone : map.flatten.filter (fun p => p < -1 ∨ (n : Int) ≤ p) = [] := by
    rw [List.filter_eq_nil_iff]
    intro p hp
    have h₁ := hlow p hp
    have h₂ := hhigh p hp
    simp only [decide_eq_true_eq]
    omega
  have hvalue : invertLogicalToPhysicalMap map n = .ok (scatter (List.replicate n (-1)) (validCopies map)) := by
    unfold invertLogicalToPhysicalMap
    rw [hnone]
    rfl
  have hcopy : ∀ p e : Nat, (∃ row, map[e]? = some row ∧ (p : Int) ∈ row) →
      (scatter (List.replicate n (-1)) (validCopies map))[p]? = some (e : Int) := by
    rintro p e ⟨row, hrow, hp⟩
    have hmem : (p : Int) ∈ map.flatten := List.mem_flatten.2 ⟨row, List.mem_of_getElem? hrow, hp⟩
    apply getElem?_scatter (nodup_validCopies h)
    · simpa using hhigh _ hmem
    · exact mem_validCopies.2 ⟨row, hrow, hp⟩
  have hall : ∀ p < n, ∃ e : Nat, ∃ row, map[e]? = some row ∧ (p : Int) ∈ row := by
    intro p hp
    obtain ⟨row, hrow, hp⟩ := List.mem_flatten.1 (h.mem_iff.2 hp)
    obtain ⟨e, he⟩ := List.mem_iff_getElem?.1 hrow
    exact ⟨e, row, he, hp⟩
  choose! logicalOf hlogicalOf using hall
  have hlogical : scatter (List.replicate n (-1)) (validCopies map) =
      ((List.range n).map logicalOf).map ((↑) : Nat → Int) := by
    apply List.ext_getElem?
    intro p
    by_cases hp : p < n
    · rw [hcopy p _ (hlogicalOf p hp)]
      simp [hp]
    · rw [List.getElem?_eq_none (by simpa using hp), List.getElem?_eq_none (by simpa using hp)]
  refine ⟨(List.range n).map logicalOf, by rw [hvalue, hlogical], by simp, fun p e => ⟨fun he => ?_, fun he => ?_⟩⟩
  · rw [List.getElem?_map, Option.map_eq_some_iff] at he
    obtain ⟨p', hp', rfl⟩ := he
    obtain ⟨hp, rfl⟩ := List.getElem?_eq_some_iff.1 hp'
    rw [List.getElem_range]
    exact hlogicalOf p (by simpa using hp)
  · have hvalue' := hcopy p e he
    rw [hlogical, List.getElem?_map, Option.map_eq_some_iff] at hvalue'
    obtain ⟨e', he', hee⟩ := hvalue'
    rw [he', Int.ofNat.inj hee]

/-! ## The local slots -/

/-- The physical experts that have a local slot. -/
def localPhysical (expertMap : List Int) : List Nat :=
  (List.range expertMap.length).filter fun p => 0 ≤ expertMap.getD p (-1)

theorem map_getD_range (l : List Int) : (List.range l.length).map (l.getD · (-1)) = l := by
  apply List.ext_getElem
  · simp
  · intro i h₁ h₂
    simp [List.getElem?_eq_getElem h₂]

theorem map_localPhysical (expertMap : List Int) :
    (localPhysical expertMap).map (expertMap.getD · (-1)) = expertMap.filter (0 ≤ ·) := by
  conv_rhs => rw [← map_getD_range expertMap]
  unfold localPhysical
  rw [List.filter_map]
  rfl

theorem eq_of_slot {expertMap : List Int} {n : Nat} (h : Numbers n expertMap) {p q slot : Nat}
    (hp : expertMap[p]? = some (slot : Int)) (hq : expertMap[q]? = some (slot : Int)) : p = q := by
  have hpairwise := List.pairwise_filter.1 h.nodup
  obtain ⟨hp, hpslot⟩ := List.getElem?_eq_some_iff.1 hp
  obtain ⟨hq, hqslot⟩ := List.getElem?_eq_some_iff.1 hq
  by_contra hne
  rcases Nat.lt_or_gt_of_ne hne with hlt | hlt
  · exact List.pairwise_iff_getElem.1 hpairwise p q hp hq hlt (by simp [hpslot]) (by simp [hqslot])
      (hpslot.trans hqslot.symm)
  · exact List.pairwise_iff_getElem.1 hpairwise q p hq hp hlt (by simp [hqslot]) (by simp [hpslot])
      (hqslot.trans hpslot.symm)

theorem getElem?_of_getD {l : List Int} {p slot : Nat} (h : l.getD p (-1) = (slot : Int)) :
    l[p]? = some (slot : Int) := by
  rw [List.getD_eq_getElem?_getD] at h
  cases hp : l[p]? with
  | none =>
      rw [hp] at h
      simp at h
  | some x =>
      rw [hp] at h
      exact congrArg some h

/-- The local physical experts stand in the order of their slots. -/
theorem localPhysicalIndices_spec {expertMap : List Int} {n : Nat} (h : Numbers n expertMap) :
    ∃ physical : List Nat, localPhysicalIndices expertMap = .ok (physical.map (↑)) ∧
      ∀ slot p : Nat, physical[slot]? = some p ↔ expertMap[p]? = some (slot : Int) := by
  have hlocal := map_localPhysical expertMap
  have horder : ∀ i ∈ argsort (expertMap.filter (0 ≤ ·)), i < (localPhysical expertMap).length := by
    intro i hi
    rw [mem_argsort, ← hlocal, List.length_map] at hi
    exact hi
  obtain ⟨physical, hphysical⟩ : ∃ physical, physical =
    (argsort (expertMap.filter (0 ≤ ·))).map ((localPhysical expertMap).getD · 0) := ⟨_, rfl⟩
  have hslots : physical.map (expertMap.getD · (-1)) = (List.range n).map ((↑) : Nat → Int) := by
    rw [hphysical, ← h.insertionSort, ← map_argsort, List.map_map]
    apply List.map_congr_left
    intro i hi
    have hlt := horder i hi
    conv_rhs => rw [← hlocal]
    simp [List.getElem?_eq_getElem hlt]
  have hslot : ∀ slot p : Nat, physical[slot]? = some p → expertMap[p]? = some (slot : Int) := by
    intro slot p hp
    have hget := congrArg (·[slot]?) hslots
    simp only [List.getElem?_map, hp, Option.map_some] at hget
    obtain ⟨slot', hslot', heq⟩ := Option.map_eq_some_iff.1 hget.symm
    obtain ⟨_, rfl⟩ := List.getElem?_eq_some_iff.1 hslot'
    rw [List.getElem_range] at heq
    exact getElem?_of_getD heq.symm
  refine ⟨physical, ?_, fun slot p => ⟨hslot slot p, fun hp => ?_⟩⟩
  · show gather _ ((argsort ((localPhysical expertMap).map _)).map _) = _
    rw [hlocal, hphysical]
    apply gather_natCast
    rw [List.map_map, List.forall₂_map_right_iff, List.forall₂_same]
    intro i hi
    show ((localPhysical expertMap).map _)[i]? = some (((localPhysical expertMap).getD i 0 : Nat) : Int)
    simp [List.getElem?_eq_getElem (horder i hi)]
  · have hlt : slot < physical.length := by
      rw [← List.length_map (expertMap.getD · (-1)), hslots, List.length_map, List.length_range, ← h.mem_iff]
      exact List.mem_of_getElem? hp
    have hget := List.getElem?_eq_getElem hlt
    rw [hget, eq_of_slot h (hslot slot _ hget) hp]

/-! ## The source indices -/

theorem FusedMoE.copyOf_lt {m : FusedMoE} {p e : Nat} (hp : p < m.globalNumExperts) (he : m.CopyOf p e) :
    e < m.numLogical := by
  unfold FusedMoE.CopyOf at he
  unfold FusedMoE.numLogical
  cases hmap : m.logicalToPhysicalMap with
  | none =>
      rw [hmap] at he
      exact he ▸ hp
  | some map =>
      rw [hmap] at he
      obtain ⟨row, hrow, _⟩ := he
      exact (List.getElem?_eq_some_iff.1 hrow).1

theorem FusedMoE.local_iff {m : FusedMoE} {expertMap : List Int} (hmap : m.expertMap = some expertMap) {p slot : Nat} :
    m.Local p slot ↔ expertMap[p]? = some (slot : Int) := by
  unfold FusedMoE.Local
  rw [hmap]

namespace FusedMoE.WellFormed

variable {m : FusedMoE} (h : m.WellFormed)
include h

theorem lt_of_local {p slot : Nat} (hp : m.Local p slot) : p < m.globalNumExperts ∧ slot < m.numLocal := by
  cases hmap : m.expertMap with
  | none =>
      unfold FusedMoE.Local at hp
      unfold FusedMoE.numLocal
      rw [hmap] at hp ⊢
      exact ⟨hp.1 ▸ hp.2, hp.2⟩
  | some expertMap =>
      have hslot := (FusedMoE.local_iff hmap).1 hp
      obtain ⟨hlength, hnumbers⟩ := h.slots _ hmap
      exact ⟨hlength ▸ (List.getElem?_eq_some_iff.1 hslot).1, hnumbers.mem_iff.1 (List.mem_of_getElem? hslot)⟩

theorem exists_local {slot : Nat} (hslot : slot < m.numLocal) : ∃ p, m.Local p slot := by
  cases hmap : m.expertMap with
  | none =>
      unfold FusedMoE.numLocal at hslot
      unfold FusedMoE.Local
      rw [hmap] at hslot ⊢
      exact ⟨slot, rfl, hslot⟩
  | some expertMap =>
      have hmem := (h.slots _ hmap).2.mem_iff.2 hslot
      obtain ⟨p, hp⟩ := List.mem_iff_getElem?.1 hmem
      exact ⟨p, (FusedMoE.local_iff hmap).2 hp⟩

theorem exists_copyOf {p : Nat} (hp : p < m.globalNumExperts) : ∃ e, m.CopyOf p e := by
  unfold FusedMoE.CopyOf
  cases hmap : m.logicalToPhysicalMap with
  | none => exact ⟨p, rfl⟩
  | some map =>
      obtain ⟨row, hrow, hp⟩ := List.mem_flatten.1 ((h.copies map hmap).2.mem_iff.2 hp)
      obtain ⟨e, he⟩ := List.mem_iff_getElem?.1 hrow
      exact ⟨e, row, he, hp⟩

theorem exists_holds {slot : Nat} (hslot : slot < m.numLocal) : ∃ e, m.Holds slot e := by
  obtain ⟨p, hp⟩ := h.exists_local hslot
  obtain ⟨e, he⟩ := h.exists_copyOf (h.lt_of_local hp).1
  exact ⟨e, p, hp, he⟩

theorem local_unique {p q slot : Nat} (hp : m.Local p slot) (hq : m.Local q slot) : p = q := by
  cases hmap : m.expertMap with
  | none =>
      unfold FusedMoE.Local at hp hq
      rw [hmap] at hp hq
      exact hp.1.trans hq.1.symm
  | some expertMap =>
      exact eq_of_slot (h.slots _ hmap).2 ((FusedMoE.local_iff hmap).1 hp) ((FusedMoE.local_iff hmap).1 hq)

theorem copyOf_unique {p e e' : Nat} (he : m.CopyOf p e) (he' : m.CopyOf p e') : e = e' := by
  unfold FusedMoE.CopyOf at he he'
  cases hmap : m.logicalToPhysicalMap with
  | none =>
      rw [hmap] at he he'
      exact he.trans he'.symm
  | some map =>
      rw [hmap] at he he'
      obtain ⟨hlow, hnumbers⟩ := h.copies map hmap
      obtain ⟨logicalOf, _, _, hlogicalOf⟩ := invertLogicalToPhysicalMap_spec hlow hnumbers
      exact Option.some.inj (((hlogicalOf p e).2 he).symm.trans ((hlogicalOf p e').2 he'))

theorem holds_unique {slot e e' : Nat} (he : m.Holds slot e) (he' : m.Holds slot e') : e = e' := by
  obtain ⟨p, hp, he⟩ := he
  obtain ⟨q, hq, he'⟩ := he'
  exact h.copyOf_unique he (h.local_unique hp hq ▸ he')

theorem lt_of_holds {slot e : Nat} (hslot : m.Holds slot e) : slot < m.numLocal ∧ e < m.numLogical := by
  obtain ⟨p, hp, he⟩ := hslot
  exact ⟨(h.lt_of_local hp).2, FusedMoE.copyOf_lt (h.lt_of_local hp).1 he⟩

end FusedMoE.WellFormed

/-- The source indices are the logical experts that the local slots hold, in the order of the slots. -/
theorem sourceIndices_spec {m : FusedMoE} (h : m.WellFormed) {expertMap : List Int} (hmap : m.expertMap = some expertMap) :
    ∃ logical : List Nat, buildExpertSourceIndices m = .ok (some (logical.map (↑))) ∧
      ∀ slot e : Nat, logical[slot]? = some e ↔ m.Holds slot e := by
  obtain ⟨physical, hphysical, hslot⟩ := localPhysicalIndices_spec (h.slots _ hmap).2
  have hlocal : ∀ p slot, m.Local p slot ↔ physical[slot]? = some p := by
    intro p slot
    rw [hslot, FusedMoE.local_iff hmap]
  cases hcopies : m.logicalToPhysicalMap with
  | none =>
      refine ⟨physical, ?_, fun slot e => ?_⟩
      · unfold buildExpertSourceIndices
        rw [hmap, hcopies]
        show (localPhysicalIndices expertMap >>= _) = _
        rw [hphysical]
        rfl
      · have hcopy : ∀ p, m.CopyOf p e ↔ e = p := by
          intro p
          unfold FusedMoE.CopyOf
          rw [hcopies]
        constructor
        · exact fun he => ⟨e, (hlocal e slot).2 he, (hcopy e).2 rfl⟩
        · rintro ⟨p, hp, he⟩
          rw [(hcopy p).1 he]
          exact (hlocal p slot).1 hp
  | some map =>
      obtain ⟨hlow, hnumbers⟩ := h.copies map hcopies
      obtain ⟨logicalOf, hinvert, hlength, hlogicalOf⟩ := invertLogicalToPhysicalMap_spec hlow hnumbers
      have hcopy : ∀ p e, m.CopyOf p e ↔ logicalOf[p]? = some e := by
        intro p e
        rw [hlogicalOf]
        unfold FusedMoE.CopyOf
        rw [hcopies]
      have hlt : ∀ p ∈ physical, p < logicalOf.length := by
        intro p hp
        obtain ⟨slot, hp⟩ := List.mem_iff_getElem?.1 hp
        rw [hlength, ← (h.slots _ hmap).1]
        exact (List.getElem?_eq_some_iff.1 ((hslot slot p).1 hp)).1
      have hgather : gather (logicalOf.map ((↑) : Nat → Int)) (physical.map (↑)) =
          .ok ((physical.map (logicalOf.getD · 0)).map (↑)) := by
        apply gather_natCast
        rw [List.map_map, List.forall₂_map_right_iff, List.forall₂_same]
        intro p hp
        simp [List.getElem?_eq_getElem (hlt p hp)]
      have hmissing : ((physical.map ((↑) : Nat → Int)).zip
          ((physical.map (logicalOf.getD · 0)).map ((↑) : Nat → Int))).filter (fun pair => pair.2 < 0) = [] := by
        rw [List.filter_eq_nil_iff]
        rintro ⟨p, e⟩ hpair
        obtain ⟨e', _, rfl⟩ := List.mem_map.1 (List.of_mem_zip hpair).2
        simp
      refine ⟨physical.map (logicalOf.getD · 0), ?_, fun slot e => ?_⟩
      · unfold buildExpertSourceIndices
        rw [hmap, hcopies]
        show (localPhysicalIndices expertMap >>= _) = _
        rw [hphysical]
        show (invertLogicalToPhysicalMap map m.globalNumExperts >>= _) = _
        rw [hinvert]
        show (gather _ _ >>= _) = _
        rw [hgather]
        show (raiseIf (List.filter _ _ ≠ []) _ >>= _) = _
        rw [hmissing]
        rfl
      · rw [List.getElem?_map, Option.map_eq_some_iff]
        refine exists_congr fun p => ?_
        rw [hlocal, hcopy]
        refine and_congr_right fun hp => ?_
        simp [List.getElem?_eq_getElem (hlt p (List.mem_of_getElem? hp))]

end AuroraRl.Worker
