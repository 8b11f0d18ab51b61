import AuroraRl.Server.Staging
import Mathlib.Data.List.Induction

/-!
# Received ranges and the bytes of an upload

* `Normal`, `Covers` : the form of the recorded ranges, and the positions they stand for;
* `mergeReceivedRange_normal`, `covers_mergeReceivedRange` : what one chunk adds to them;
* `uploadComplete_iff` : the completeness check in terms of positions;
* `applyWrites_spec` : each position of a file holds the byte of the last chunk that covers it.
-/

namespace AuroraRl.Server

/-! ## Ranges -/

/-- Sorted, disjoint and non-adjacent ranges, none of them empty. -/
def Normal (ranges : List (Nat × Nat)) : Prop := (∀ r ∈ ranges, r.1 < r.2) ∧ ranges.Pairwise (fun a b => a.2 < b.1)

def Covers (ranges : List (Nat × Nat)) (i : Nat) : Prop := ∃ r ∈ ranges, r.1 ≤ i ∧ i < r.2

theorem covers_cons {r : Nat × Nat} {ranges : List (Nat × Nat)} {i : Nat} :
    Covers (r :: ranges) i ↔ (r.1 ≤ i ∧ i < r.2) ∨ Covers ranges i := by
  unfold Covers
  simp only [List.mem_cons, exists_eq_or_imp]

theorem not_covers_nil (i : Nat) : ¬ Covers [] i := by
  rintro ⟨r, hr, -⟩
  cases hr

/-- Ranges merged so far, the last one first. -/
def Merged (merged : List (Nat × Nat)) : Prop := (∀ r ∈ merged, r.1 < r.2) ∧ merged.Pairwise (fun a b => b.2 < a.1)

theorem mergeStep_spec {merged : List (Nat × Nat)} {range : Nat × Nat} (h : Merged merged) (hrange : range.1 < range.2)
    (hstart : ∀ r, merged.head? = some r → r.1 ≤ range.1) :
    Merged (mergeStep merged range) ∧ (∀ i, Covers (mergeStep merged range) i ↔ Covers (range :: merged) i) ∧
      ∀ r, (mergeStep merged range).head? = some r → r.1 ≤ range.1 := by
  cases merged with
  | nil =>
      refine ⟨⟨fun r hr => ?_, List.pairwise_singleton ..⟩, fun _ => Iff.rfl, fun r hr => ?_⟩
      · rw [List.mem_singleton.1 hr]
        exact hrange
      · cases hr
        exact Nat.le_refl _
  | cons previous rest =>
      obtain ⟨previousStart, previousEnd⟩ := previous
      have hprevious := h.1 _ List.mem_cons_self
      have hle := hstart _ rfl
      dsimp only at hprevious hle
      obtain ⟨hbefore, hrest⟩ := List.pairwise_cons.1 h.2
      unfold mergeStep
      dsimp only
      split
      · rename_i hlt
        refine ⟨⟨fun r hr => ?_, List.pairwise_cons.2 ⟨fun r hr => ?_, h.2⟩⟩, fun _ => Iff.rfl, fun r hr => ?_⟩
        · rcases List.mem_cons.1 hr with rfl | hr
          · exact hrange
          · exact h.1 r hr
        · rcases List.mem_cons.1 hr with rfl | hr
          · exact hlt
          · have := hbefore r hr
            dsimp only at this
            omega
        · cases hr
          exact Nat.le_refl _
      · rename_i hlt
        refine ⟨⟨fun r hr => ?_, List.pairwise_cons.2 ⟨hbefore, hrest⟩⟩, fun i => ?_, fun r hr => ?_⟩
        · rcases List.mem_cons.1 hr with rfl | hr
          · dsimp only
            omega
          · exact h.1 r (List.mem_cons_of_mem _ hr)
        · rw [covers_cons, covers_cons, covers_cons]
          dsimp only
          constructor
          · rintro (⟨h₁, h₂⟩ | h₁)
            · by_cases hi : i < previousEnd
              · exact Or.inr (Or.inl ⟨h₁, hi⟩)
              · exact Or.inl ⟨by omega, by omega⟩
            · exact Or.inr (Or.inr h₁)
          · rintro (⟨h₁, h₂⟩ | ⟨h₁, h₂⟩ | h₁)
            · exact Or.inl ⟨by omega, by omega⟩
            · exact Or.inl ⟨h₁, by omega⟩
            · exact Or.inr h₁
        · cases hr
          exact hle

theorem foldl_mergeStep {l merged : List (Nat × Nat)} (h : Merged merged) (hl : ∀ r ∈ l, r.1 < r.2)
    (hsorted : l.Pairwise (fun a b => a.1 ≤ b.1)) (hstart : ∀ r ∈ l, ∀ r', merged.head? = some r' → r'.1 ≤ r.1) :
    Merged (l.foldl mergeStep merged) ∧ ∀ i, Covers (l.foldl mergeStep merged) i ↔ Covers l i ∨ Covers merged i := by
  induction l generalizing merged with
  | nil => exact ⟨h, fun i => ⟨Or.inr, fun hi => hi.resolve_left (not_covers_nil i)⟩⟩
  | cons range l ih =>
      obtain ⟨hbefore, hsorted⟩ := List.pairwise_cons.1 hsorted
      obtain ⟨hmerged, hcovers, hhead⟩ := mergeStep_spec h (hl range List.mem_cons_self) (hstart range List.mem_cons_self)
      obtain ⟨hmerged', hcovers'⟩ := ih hmerged (fun r hr => hl r (List.mem_cons_of_mem range hr)) hsorted
          fun r hr r' hr' => by
        have h₁ := hhead r' hr'
        have h₂ := hbefore r hr
        omega
      refine ⟨hmerged', fun i => (hcovers' i).trans ?_⟩
      rw [hcovers i, covers_cons, covers_cons]
      tauto

theorem pairwise_mergeSort_rangeLe (l : List (Nat × Nat)) : (l.mergeSort rangeLe).Pairwise (fun a b => a.1 ≤ b.1) := by
  have hle : ∀ a b : Nat × Nat, rangeLe a b = true ↔ a.1 < b.1 ∨ a.1 = b.1 ∧ a.2 ≤ b.2 := by
    intro a b
    unfold rangeLe
    rw [Bool.or_eq_true, Bool.and_eq_true, decide_eq_true_eq, decide_eq_true_eq, decide_eq_true_eq]
  have htrans : ∀ a b c : Nat × Nat, rangeLe a b = true → rangeLe b c = true → rangeLe a c = true := by
    intro a b c hab hbc
    rw [hle] at *
    omega
  have htotal : ∀ a b : Nat × Nat, (rangeLe a b || rangeLe b a) = true := by
    intro a b
    rw [Bool.or_eq_true, hle, hle]
    omega
  have hsorted := List.pairwise_mergeSort htrans htotal l
  refine hsorted.imp fun {a b} hab => ?_
  rw [hle] at hab
  omega

/-- **One chunk.** The ranges stay in normal form and stand for the old positions and those of the chunk. -/
theorem mergeReceivedRange_spec {ranges : List (Nat × Nat)} (h : Normal ranges) (start stop : Nat) :
    Normal (mergeReceivedRange ranges start stop) ∧
      ∀ i, Covers (mergeReceivedRange ranges start stop) i ↔ Covers ranges i ∨ start ≤ i ∧ i < stop := by
  unfold mergeReceivedRange
  split
  · refine ⟨h, fun i => ⟨Or.inl, fun hi => hi.resolve_right ?_⟩⟩
    omega
  · have hmem : ∀ r, r ∈ (ranges ++ [(start, stop)]).mergeSort rangeLe ↔ r ∈ ranges ∨ r = (start, stop) := by
      intro r
      rw [List.mem_mergeSort, List.mem_append, List.mem_singleton]
    have hall : ∀ r ∈ (ranges ++ [(start, stop)]).mergeSort rangeLe, r.1 < r.2 := by
      intro r hr
      rcases (hmem r).1 hr with hr | rfl
      · exact h.1 r hr
      · dsimp only
        omega
    have hnil : Merged [] := ⟨nofun, .nil⟩
    obtain ⟨⟨hne, hpairwise⟩, hcovers⟩ := foldl_mergeStep hnil hall (pairwise_mergeSort_rangeLe _) nofun
    refine ⟨⟨fun r hr => hne r (List.mem_reverse.1 hr), List.pairwise_reverse.2 hpairwise⟩, fun i => ?_⟩
    have hrev : Covers ((((ranges ++ [(start, stop)]).mergeSort rangeLe).foldl mergeStep []).reverse) i ↔
        Covers (((ranges ++ [(start, stop)]).mergeSort rangeLe).foldl mergeStep []) i := by
      unfold Covers
      simp only [List.mem_reverse]
    rw [hrev, hcovers]
    constructor
    · rintro (⟨r, hr, hi⟩ | hnil)
      · rcases (hmem r).1 hr with hr | rfl
        · exact Or.inl ⟨r, hr, hi⟩
        · exact Or.inr hi
      · exact absurd hnil (not_covers_nil i)
    · rintro (⟨r, hr, hi⟩ | hi)
      · exact Or.inl ⟨r, (hmem r).2 (Or.inl hr), hi⟩
      · exact Or.inl ⟨_, (hmem _).2 (Or.inr rfl), hi⟩

/-- **Completeness.** The check passes exactly when the recorded positions are those below the total size. -/
theorem uploadComplete_iff {ranges : List (Nat × Nat)} (h : Normal ranges) (n : Nat) :
    uploadComplete ranges n = true ↔ ∀ i, Covers ranges i ↔ i < n := by
  unfold uploadComplete
  split
  · rename_i hn
    subst hn
    rw [decide_eq_true_eq]
    constructor
    · rintro rfl i
      exact ⟨fun hi => absurd hi (not_covers_nil i), fun hi => absurd hi (Nat.not_lt_zero i)⟩
    · intro hcovers
      cases ranges with
      | nil => rfl
      | cons r ranges =>
          have hr := h.1 r List.mem_cons_self
          exact absurd ((hcovers r.1).1 ⟨r, List.mem_cons_self, Nat.le_refl _, hr⟩) (Nat.not_lt_zero _)
  · rename_i hn
    rw [decide_eq_true_eq]
    constructor
    · rintro rfl i
      rw [covers_cons]
      constructor
      · rintro (⟨-, hi⟩ | hi)
        · exact hi
        · exact absurd hi (not_covers_nil i)
      · exact fun hi => Or.inl ⟨Nat.zero_le i, hi⟩
    · intro hcovers
      obtain ⟨r₀, hr₀, hzero, -⟩ := (hcovers 0).2 (by omega)
      cases ranges with
      | nil => cases hr₀
      | cons r ranges =>
          obtain ⟨hafter, -⟩ := List.pairwise_cons.1 h.2
          have hr := h.1 r List.mem_cons_self
          have hlast := (hcovers (r.2 - 1)).1 ⟨r, List.mem_cons_self, by omega, by omega⟩
          -- a position after the first range would be received as well
          have hend : r.2 = n := by
            by_contra hne
            obtain ⟨r', hr', hle, hlt⟩ := (hcovers r.2).2 (by omega)
            rcases List.mem_cons.1 hr' with rfl | hr'
            · omega
            · have := hafter r' hr'
              omega
          have hnil : ranges = [] := by
            cases ranges with
            | nil => rfl
            | cons r' ranges =>
                have hr' := h.1 r' (List.mem_cons_of_mem r List.mem_cons_self)
                have hafter' := hafter r' List.mem_cons_self
                have := (hcovers r'.1).1 ⟨r', List.mem_cons_of_mem r List.mem_cons_self, Nat.le_refl _, hr'⟩
                omega
          subst hnil
          rw [List.mem_singleton] at hr₀
          subst hr₀
          have hstart : r₀.1 = 0 := by omega
          rw [← hend, ← hstart]

/-! ## Bytes -/

/-- A chunk and where it was written. -/
abbrev ChunkWrite := Nat × Bytes

def ChunkWrite.Covers (w : ChunkWrite) (i : Nat) : Prop := w.1 ≤ i ∧ i < w.1 + w.2.length

instance (w : ChunkWrite) (i : Nat) : Decidable (w.Covers i) := inferInstanceAs (Decidable (_ ∧ _))

/-- The positions that some chunk covers. -/
def Written (ws : List ChunkWrite) (i : Nat) : Prop := ∃ w ∈ ws, w.Covers i

def applyWrites (content : Bytes) (ws : List ChunkWrite) : Bytes := ws.foldl (fun c w => writeAt c w.1 w.2) content

def writtenRanges (ranges : List (Nat × Nat)) (ws : List ChunkWrite) : List (Nat × Nat) :=
  ws.foldl (fun r w => mergeReceivedRange r w.1 (w.1 + w.2.length)) ranges

/-- The byte of the last chunk that covers the position. -/
def lastByte (ws : List ChunkWrite) (i : Nat) : Option UInt8 :=
  (ws.reverse.find? fun w => w.Covers i).bind fun w => w.2[i - w.1]?

theorem written_append_singleton {ws : List ChunkWrite} {w : ChunkWrite} {i : Nat} :
    Written (ws ++ [w]) i ↔ Written ws i ∨ w.Covers i := by
  unfold Written
  simp only [List.mem_append, List.mem_singleton]
  constructor
  · rintro ⟨x, hx | rfl, hi⟩
    · exact Or.inl ⟨x, hx, hi⟩
    · exact Or.inr hi
  · rintro (⟨x, hx, hi⟩ | hi)
    · exact ⟨x, Or.inl hx, hi⟩
    · exact ⟨w, Or.inr rfl, hi⟩

theorem lastByte_append_singleton (ws : List ChunkWrite) (w : ChunkWrite) (i : Nat) :
    lastByte (ws ++ [w]) i = if w.Covers i then w.2[i - w.1]? else lastByte ws i := by
  unfold lastByte
  rw [List.reverse_append, List.reverse_singleton, List.singleton_append, List.find?_cons]
  by_cases h : w.Covers i <;> simp [h]

theorem length_writeAt (content chunk : Bytes) (offset : Nat) :
    (writeAt content offset chunk).length =
      if chunk = [] then content.length else max content.length (offset + chunk.length) := by
  unfold writeAt
  split
  · rfl
  · simp only [List.length_append, List.length_take, List.length_replicate, List.length_drop]
    omega

theorem getElem?_writeAt_covered {content chunk : Bytes} {offset i : Nat} (h : ChunkWrite.Covers (offset, chunk) i) :
    (writeAt content offset chunk)[i]? = chunk[i - offset]? := by
  obtain ⟨hlo, hhi⟩ := h
  dsimp only at hlo hhi
  have hne : chunk ≠ [] := by
    rintro rfl
    rw [List.length_nil] at hhi
    omega
  have hprefix : (content.take offset ++ List.replicate (offset - content.length) (0 : UInt8)).length = offset := by
    rw [List.length_append, List.length_take, List.length_replicate]
    omega
  unfold writeAt
  rw [if_neg hne, List.append_assoc, List.getElem?_append_right (by omega), hprefix,
    List.getElem?_append_left (by omega)]

theorem getElem?_writeAt_of_lt {content chunk : Bytes} {offset i : Nat} (h : ¬ ChunkWrite.Covers (offset, chunk) i)
    (hi : i < content.length) : (writeAt content offset chunk)[i]? = content[i]? := by
  unfold writeAt
  split
  · rfl
  · have hprefix : (content.take offset ++ List.replicate (offset - content.length) (0 : UInt8)).length = offset := by
      rw [List.length_append, List.length_take, List.length_replicate]
      omega
    unfold ChunkWrite.Covers at h
    dsimp only at h
    by_cases hlo : i < offset
    · rw [List.append_assoc, List.getElem?_append_left (by omega), List.getElem?_append_left
        (by rw [List.length_take]; omega), List.getElem?_take_of_lt hlo]
    · rw [List.append_assoc, List.getElem?_append_right (by omega), hprefix, List.getElem?_append_right (by omega),
        List.getElem?_drop]
      congr 1
      omega

/-- **The bytes of an assembled file.** Every position that was written holds the byte of the last chunk that covers
it, and the file ends with such a position. -/
theorem applyWrites_spec (ws : List ChunkWrite) :
    (∀ i, Written ws i → i < (applyWrites [] ws).length ∧ (applyWrites [] ws)[i]? = lastByte ws i) ∧
      ((applyWrites [] ws).length ≠ 0 → Written ws ((applyWrites [] ws).length - 1)) := by
  induction ws using List.reverseRecOn with
  | nil =>
      refine ⟨?_, fun h => absurd rfl h⟩
      rintro i ⟨w, hw, -⟩
      cases hw
  | append_singleton ws w ih =>
      have happly : applyWrites [] (ws ++ [w]) = writeAt (applyWrites [] ws) w.1 w.2 := List.foldl_append
      rw [happly, length_writeAt]
      refine ⟨fun i hi => ?_, fun hlen => ?_⟩
      · rw [lastByte_append_singleton]
        by_cases hcovers : w.Covers i
        · have hne : w.2 ≠ [] := by
            intro hnil
            have := hcovers.2
            rw [hnil, List.length_nil] at this
            have := hcovers.1
            omega
          rw [if_pos hcovers, if_neg hne]
          exact ⟨Nat.lt_of_lt_of_le hcovers.2 (Nat.le_max_right ..), getElem?_writeAt_covered hcovers⟩
        · obtain ⟨hlt, hbyte⟩ := ih.1 i ((written_append_singleton.1 hi).resolve_right hcovers)
          rw [if_neg hcovers]
          refine ⟨?_, (getElem?_writeAt_of_lt hcovers hlt).trans hbyte⟩
          split
          · exact hlt
          · exact Nat.lt_of_lt_of_le hlt (Nat.le_max_left ..)
      · rw [written_append_singleton]
        split
        · rename_i hnil
          rw [if_pos hnil] at hlen
          exact Or.inl (ih.2 hlen)
        · rename_i hne
          have hpos := List.length_pos_of_ne_nil hne
          by_cases hle : (applyWrites [] ws).length ≤ w.1 + w.2.length
          · rw [Nat.max_eq_right hle]
            exact Or.inr ⟨by omega, by omega⟩
          · rw [Nat.max_eq_left (by omega)]
            exact Or.inl (ih.2 (by omega))

theorem writtenRanges_spec (ws : List ChunkWrite) :
    Normal (writtenRanges [] ws) ∧ ∀ i, Covers (writtenRanges [] ws) i ↔ Written ws i := by
  induction ws using List.reverseRecOn with
  | nil =>
      refine ⟨⟨nofun, .nil⟩, fun i => ⟨fun h => absurd h (not_covers_nil i), ?_⟩⟩
      rintro ⟨w, hw, -⟩
      cases hw
  | append_singleton ws w ih =>
      have hranges : writtenRanges [] (ws ++ [w]) =
          mergeReceivedRange (writtenRanges [] ws) w.1 (w.1 + w.2.length) := List.foldl_append
      obtain ⟨hnormal, hcovers⟩ := mergeReceivedRange_spec ih.1 w.1 (w.1 + w.2.length)
      rw [hranges]
      refine ⟨hnormal, fun i => ?_⟩
      rw [hcovers, ih.2, written_append_singleton]
      exact Iff.rfl

theorem uploadComplete_writtenRanges (ws : List ChunkWrite) (n : Nat) :
    uploadComplete (writtenRanges [] ws) n = true ↔ ∀ i, Written ws i ↔ i < n := by
  obtain ⟨hnormal, hcovers⟩ := writtenRanges_spec ws
  rw [uploadComplete_iff hnormal]
  simp only [hcovers]

/-- A complete upload is exactly as long as its total size. -/
theorem length_applyWrites_of_complete {ws : List ChunkWrite} {n : Nat} (h : ∀ i, Written ws i ↔ i < n) :
    (applyWrites [] ws).length = n := by
  obtain ⟨hwritten, hlast⟩ := applyWrites_spec ws
  rcases Nat.eq_zero_or_pos n with rfl | hn
  · by_contra hne
    exact Nat.not_lt_zero _ ((h _).1 (hlast hne))
  · have hlt := (hwritten (n - 1) ((h _).2 (by omega))).1
    have := (h _).1 (hlast (by omega))
    omega

/-- A chunk that was taken from a file at its offset. -/
def ChunkWrite.SliceOf (w : ChunkWrite) (content : Bytes) : Prop := w.2 <+: content.drop w.1

theorem lastByte_of_slices {ws : List ChunkWrite} {content : Bytes} (h : ∀ w ∈ ws, w.SliceOf content) {i : Nat}
    (hi : Written ws i) : lastByte ws i = content[i]? := by
  unfold lastByte
  cases hfind : ws.reverse.find? fun w => decide (w.Covers i) with
  | none =>
      obtain ⟨w, hw, hcovers⟩ := hi
      exact absurd hcovers (by simpa using List.find?_eq_none.1 hfind w (List.mem_reverse.2 hw))
  | some w =>
      obtain ⟨hle, hlt⟩ : w.Covers i := by simpa using List.find?_some hfind
      obtain ⟨rest, hrest⟩ := h w (List.mem_reverse.1 (List.mem_of_find?_eq_some hfind))
      have hbyte : (w.2 ++ rest)[i - w.1]? = w.2[i - w.1]? := List.getElem?_append_left (by omega)
      rw [hrest, List.getElem?_drop] at hbyte
      rw [Option.bind_some, ← hbyte]
      congr 1
      omega

/-- Slices of one file that are complete for its length make up the file. -/
theorem applyWrites_of_slices {ws : List ChunkWrite} {content : Bytes} (h : ∀ w ∈ ws, w.SliceOf content)
    (hcomplete : ∀ i, Written ws i ↔ i < content.length) : applyWrites [] ws = content := by
  have hlength := length_applyWrites_of_complete hcomplete
  refine List.ext_getElem? fun i => ?_
  by_cases hi : i < content.length
  · rw [((applyWrites_spec ws).1 i ((hcomplete i).2 hi)).2, lastByte_of_slices h ((hcomplete i).2 hi)]
  · rw [List.getElem?_eq_none (by omega), List.getElem?_eq_none (by omega)]

end AuroraRl.Server
