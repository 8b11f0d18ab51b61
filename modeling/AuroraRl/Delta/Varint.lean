import AuroraRl.Delta.Indices

/-!
# The decoders of varint indices

* `splitGroups` : the groups of a byte string and what follows the last; `deltas` : their values;
* `decodeVarintDeltaIndices_eq_ok`, `decodeVarintDeltaIndicesPython_eq_ok` : what each decoder accepts;
* `varintDecoders_agree_iff` : when they agree; `varintDecoders_disagree` : bytes after the last group.
-/

namespace AuroraRl.Delta
open Bytes

/-! ## Groups of a byte string -/

/-- The groups of a byte string, and the bytes after the last. -/
def splitGroups : List Byte → List (List Byte) × List Byte
  | [] => ([], [])
  | b :: encoded =>
    let (groups, rest) := splitGroups encoded
    if isTerminal b then ([b] :: groups, rest)
    else
      match groups with
      | [] => ([], b :: rest)
      | group :: groups => ((b :: group) :: groups, rest)

/-- The numbers that the groups encode. -/
def deltas (encoded : List Byte) : List Nat := (splitGroups encoded).1.map varintValue

/-- The sums of the deltas after `sum`. -/
def prefixSums : Nat → List Nat → List Int
  | _, [] => []
  | sum, d :: ds => ((sum + d : Nat) : Int) :: prefixSums (sum + d) ds

theorem splitGroups_flatten (encoded : List Byte) :
    (splitGroups encoded).1.flatten ++ (splitGroups encoded).2 = encoded := by
  induction encoded with
  | nil => rfl
  | cons b encoded ih =>
      unfold splitGroups
      dsimp only
      split
      · simpa using ih
      · cases hg : (splitGroups encoded).1 with
        | nil => simpa [hg] using ih
        | cons g gs => simpa [hg] using ih

theorem isGroup_of_mem_splitGroups {encoded g : List Byte} (h : g ∈ (splitGroups encoded).1) : IsGroup g := by
  induction encoded generalizing g with
  | nil => cases h
  | cons b encoded ih =>
      unfold splitGroups at h
      dsimp only at h
      split at h
      · rename_i hb
        rcases List.mem_cons.1 h with rfl | h
        · exact ⟨[], b, rfl, nofun, hb⟩
        · exact ih h
      · rename_i hb
        cases hg : (splitGroups encoded).1 with
        | nil =>
            rw [hg] at h
            cases h
        | cons g' gs =>
            rw [hg] at h ih
            rcases List.mem_cons.1 h with rfl | h
            · obtain ⟨l, c, rfl, hl, hc⟩ := ih List.mem_cons_self
              refine ⟨b :: l, c, rfl, fun d hd => ?_, hc⟩
              rcases List.mem_cons.1 hd with rfl | hd
              · simpa using hb
              · exact hl d hd
            · exact ih (List.mem_cons_of_mem _ h)

theorem not_terminal_of_mem_rest {encoded : List Byte} {b : Byte} (h : b ∈ (splitGroups encoded).2) :
    isTerminal b = false := by
  induction encoded with
  | nil => cases h
  | cons c encoded ih =>
      unfold splitGroups at h
      dsimp only at h
      split at h
      · exact ih h
      · rename_i hc
        cases hg : (splitGroups encoded).1 with
        | nil =>
            rw [hg] at h
            rcases List.mem_cons.1 h with rfl | h
            · simpa using hc
            · exact ih h
        | cons g gs =>
            rw [hg] at h
            exact ih h

/-- A byte string is the groups it splits into and bytes that end none. -/
theorem exists_groups (encoded : List Byte) : ∃ gs rest, encoded = gs.flatten ++ rest ∧
    splitGroups encoded = (gs, rest) ∧ (∀ g ∈ gs, IsGroup g) ∧ ∀ b ∈ rest, isTerminal b = false := by
  refine ⟨_, _, (splitGroups_flatten encoded).symm, rfl, ?_, ?_⟩
  · intro g hg
    exact isGroup_of_mem_splitGroups hg
  · intro b hb
    exact not_terminal_of_mem_rest hb

/-! ## The reference decoder -/

/-- The variables of the loop of `_decode_varint_delta_indices_python`; `out` holds what was written. -/
structure Decoding where
  out : List Int
  current : Nat
  diff : Nat
  shift : Nat

/-- One turn of the loop. Storing a number that does not fit `int64` raises. -/
def decodeByte (expectedCount : Nat) (s : Decoding) (byte : Byte) : Except PyException Decoding := do
  let diff := s.diff ||| (byte &&& 0x7F#8).toNat <<< s.shift
  if isTerminal byte then
    raiseIf (expectedCount ≤ s.out.length) "decoded more indices than expected"
    let current := s.current + diff
    if current < 2 ^ 63 then return ⟨s.out ++ [(current : Int)], current, 0, 0⟩
    else .error ⟨.runtimeError, "Overflow when unpacking long"⟩
  else return { s with diff := diff, shift := s.shift + 7 }

def decodeVarintDeltaIndicesPython (indexBytes : List Byte) (expectedCount : Nat) : Except PyException (List Int) := do
  if expectedCount = 0 then
    raiseIf (indexBytes.length ≠ 0) "expected no indices, but varint stream is not empty"
    return []
  else
    let s ← indexBytes.foldlM (decodeByte expectedCount) ⟨[], 0, 0, 0⟩
    raiseIf (s.shift ≠ 0) "truncated varint stream"
    raiseIf (s.out.length ≠ expectedCount)
      ("decoded index count mismatch: " ++ toString s.out.length ++ " vs " ++ toString expectedCount)
    return s.out

theorem decodeByte_rest {b : Byte} (hb : isTerminal b = false) (n : Nat) (out : List Int) (current diff k : Nat)
    (h : diff < 2 ^ (7 * k)) :
    decodeByte n ⟨out, current, diff, 7 * k⟩ b =
      .ok ⟨out, current, diff + 2 ^ (7 * k) * (b &&& 0x7F#8).toNat, 7 * (k + 1)⟩ := by
  simp [decodeByte, hb, or_shiftLeft_eq h, Nat.mul_add]
  rfl

/-- Bytes that end no group add their bits to the number. -/
theorem foldlM_decodeByte_rest {l : List Byte} (hl : ∀ b ∈ l, isTerminal b = false) (n : Nat) (out : List Int)
    (current diff k : Nat) (h : diff < 2 ^ (7 * k)) :
    l.foldlM (decodeByte n) ⟨out, current, diff, 7 * k⟩ =
      .ok ⟨out, current, diff + 2 ^ (7 * k) * varintValue l, 7 * (k + l.length)⟩ := by
  induction l generalizing diff k with
  | nil => simp [varintValue, pure, Except.pure]
  | cons b l ih =>
      have hnext : diff + 2 ^ (7 * k) * (b &&& 0x7F#8).toNat < 2 ^ (7 * (k + 1)) := add_payload_lt b h
      rw [List.foldlM_cons, decodeByte_rest (hl b List.mem_cons_self) n out current diff k h, ok_bind,
        ih (fun c hc => hl c (List.mem_cons_of_mem b hc)) _ _ hnext, varintValue, List.length_cons]
      have hpow : 2 ^ (7 * (k + 1)) = 2 ^ (7 * k) * 128 := by rw [Nat.mul_add, Nat.pow_add]
      have hsum : diff + 2 ^ (7 * k) * (b &&& 0x7F#8).toNat + 2 ^ (7 * (k + 1)) * varintValue l =
          diff + 2 ^ (7 * k) * ((b &&& 0x7F#8).toNat + 128 * varintValue l) := by
        rw [hpow]
        ring
      rw [hsum, Nat.add_right_comm, Nat.add_assoc k]

/-- A group is stored, unless there are enough already or the sum does not fit. -/
theorem foldlM_decodeByte_group {g : List Byte} (hg : IsGroup g) (n : Nat) (out : List Int) (current : Nat)
    (s : Decoding) : g.foldlM (decodeByte n) ⟨out, current, 0, 0⟩ = .ok s ↔
      out.length < n ∧ current + varintValue g < 2 ^ 63 ∧
        s = ⟨out ++ [((current + varintValue g : Nat) : Int)], current + varintValue g, 0, 0⟩ := by
  obtain ⟨l, b, rfl, hl, hb⟩ := hg
  have hrest := foldlM_decodeByte_rest hl n out current 0 0 (by decide)
  have hvalue : varintValue (l ++ [b]) = varintValue l + 2 ^ (7 * l.length) * (b &&& 0x7F#8).toNat := by
    rw [varintValue_append]
    rfl
  have hlt : varintValue l < 2 ^ (7 * l.length) := varintValue_lt l
  simp only [Nat.mul_zero, Nat.pow_zero, Nat.one_mul, Nat.zero_add] at hrest
  rw [List.foldlM_append, hrest, ok_bind, List.foldlM_cons, decodeByte]
  simp only [hb, if_true, or_shiftLeft_eq hlt, ← hvalue, bind_eq_ok, raiseIf_eq_ok, List.foldlM_nil, Nat.not_le]
  constructor
  · rintro ⟨s', ⟨-, hlen, hs'⟩, h⟩
    cases h
    split at hs'
    · rename_i hsum
      cases hs'
      exact ⟨hlen, hsum, rfl⟩
    · cases hs'
  · rintro ⟨hlen, hsum, rfl⟩
    refine ⟨_, ⟨(), hlen, ?_⟩, rfl⟩
    rw [if_pos hsum]
    rfl

theorem foldlM_decodeByte_groups {gs : List (List Byte)} (h : ∀ g ∈ gs, IsGroup g) (n : Nat) (out : List Int)
    (current : Nat) (hcurrent : current < 2 ^ 63) (hout : out.length ≤ n) (s : Decoding) :
    gs.flatten.foldlM (decodeByte n) ⟨out, current, 0, 0⟩ = .ok s ↔
      out.length + gs.length ≤ n ∧ current + (gs.map varintValue).sum < 2 ^ 63 ∧
        s = ⟨out ++ prefixSums current (gs.map varintValue), current + (gs.map varintValue).sum, 0, 0⟩ := by
  induction gs generalizing out current with
  | nil =>
      simp only [List.flatten_nil, List.foldlM_nil, pure, Except.pure, Except.ok.injEq, List.map_nil, List.sum_nil,
        prefixSums, List.append_nil, List.length_nil, Nat.add_zero]
      exact ⟨fun h => ⟨hout, hcurrent, h.symm⟩, fun h => h.2.2.symm⟩
  | cons g gs ih =>
      have hg := foldlM_decodeByte_group (h g List.mem_cons_self) n out current
      rw [List.flatten_cons, List.foldlM_append, bind_eq_ok, List.map_cons, List.sum_cons, prefixSums, List.length_cons]
      constructor
      · rintro ⟨s', hs', hrest⟩
        obtain ⟨hlen, hsum, rfl⟩ := (hg s').1 hs'
        obtain ⟨hlen', hsum', rfl⟩ := (ih (fun g' hg' => h g' (List.mem_cons_of_mem g hg')) _ _ hsum
          (by rw [List.length_append]; exact hlen)).1 hrest
        simp only [List.length_append, List.length_singleton] at hlen'
        refine ⟨by omega, by omega, ?_⟩
        simp [Nat.add_assoc]
      · rintro ⟨hlen, hsum, rfl⟩
        refine ⟨_, (hg _).2 ⟨by omega, by omega, rfl⟩, ?_⟩
        refine (ih (fun g' hg' => h g' (List.mem_cons_of_mem g hg')) _ _ (by omega) ?_).2 ⟨?_, by omega, ?_⟩
        · simp only [List.length_append, List.length_singleton]
          omega
        · simp only [List.length_append, List.length_singleton]
          omega
        · simp [Nat.add_assoc]

@[simp] theorem length_prefixSums (sum : Nat) (ds : List Nat) : (prefixSums sum ds).length = ds.length := by
  induction ds generalizing sum with
  | nil => rfl
  | cons d ds ih => rw [prefixSums, List.length_cons, List.length_cons, ih]

/-- The reference decoder accepts exactly the groups it expects, with sums that fit. -/
theorem decodeVarintDeltaIndicesPython_eq_ok {encoded : List Byte} {n : Nat} {indices : List Int} :
    decodeVarintDeltaIndicesPython encoded n = .ok indices ↔
      (splitGroups encoded).1.length = n ∧ (splitGroups encoded).2 = [] ∧ (deltas encoded).sum < 2 ^ 63 ∧
        indices = prefixSums 0 (deltas encoded) := by
  obtain ⟨gs, rest, rfl, hsplit, hgroups, hrest⟩ := exists_groups encoded
  rw [deltas, hsplit]
  have hloop := foldlM_decodeByte_groups hgroups n [] 0 (by decide) (Nat.zero_le n)
  unfold decodeVarintDeltaIndicesPython
  split
  · rename_i hn
    subst hn
    simp only [bind_eq_ok, raiseIf_eq_ok, pure, Except.pure, Except.ok.injEq, exists_const, not_not,
      List.length_eq_zero_iff, List.append_eq_nil_iff]
    constructor
    · rintro ⟨⟨hflat, rfl⟩, rfl⟩
      have hnil : gs = [] := by
        cases gs with
        | nil => rfl
        | cons g gs =>
            obtain ⟨l, b, rfl, -, -⟩ := hgroups g List.mem_cons_self
            simp at hflat
      subst hnil
      exact ⟨rfl, rfl, by decide, rfl⟩
    · rintro ⟨rfl, rfl, -, rfl⟩
      exact ⟨⟨rfl, rfl⟩, rfl⟩
  · simp only [List.foldlM_append, bind_eq_ok, raiseIf_eq_ok, pure, Except.pure, Except.ok.injEq, not_not]
    constructor
    · rintro ⟨s, ⟨s', hs', hs⟩, -, hshift, -, hlen, rfl⟩
      obtain ⟨-, hsum, rfl⟩ := (hloop s').1 hs'
      rw [Nat.zero_add] at hsum
      have htail := foldlM_decodeByte_rest hrest n (prefixSums 0 (gs.map varintValue)) (0 + (gs.map varintValue).sum)
        0 0 (by decide)
      rw [List.nil_append, htail] at hs
      cases hs
      refine ⟨?_, List.length_eq_zero_iff.1 (by simpa using hshift), hsum, rfl⟩
      simpa using hlen
    · rintro ⟨hlen, rfl, hsum, rfl⟩
      refine ⟨_, ⟨_, (hloop _).2 ⟨?_, ?_, rfl⟩, rfl⟩, (), rfl, (), ?_, rfl⟩
      · simp [hlen]
      · simpa using hsum
      · simpa using hlen

/-! ## The numpy decoder -/

/-- What the numpy decoder makes of the groups. -/
theorem decodeVarintGroups_eq_ok {encoded : List Byte} {n : Nat} {indices : List Int} :
    decodeVarintGroups encoded n = .ok indices ↔
      (splitGroups encoded).1.length = n ∧ n ≠ 0 ∧ (∀ g ∈ (splitGroups encoded).1, g.length ≤ 9) ∧
        indices = cumsum 0 (deltas encoded) := by
  obtain ⟨gs, rest, rfl, hsplit, hgroups, hrest⟩ := exists_groups encoded
  rw [deltas, hsplit]
  have hlen : (endPositions 0 (gs.flatten ++ rest)).length = gs.length := length_endPositions hgroups hrest 0
  have hslices := slices_eq hgroups hrest []
  rw [List.nil_append, List.length_nil] at hslices
  have hvalues : gs.map groupDiff = gs.map varintValue := List.map_congr_left fun g _ => groupDiff_eq g
  unfold decodeVarintGroups
  dsimp only
  rw [hlen, hslices, hvalues]
  by_cases hn : gs.length = n
  · rw [if_neg (not_not_intro hn)]
    by_cases hzero : gs.length = 0
    · rw [if_pos hzero]
      exact ⟨nofun, fun h => absurd (hn ▸ hzero) h.2.1⟩
    · rw [if_neg hzero]
      have hpos : n ≠ 0 := hn ▸ hzero
      simp [bind_eq_ok, raiseIf_eq_ok, pure, Except.pure, hn, hpos, eq_comm (a := indices)]
  · rw [if_pos hn]
    simp only [bind_eq_ok, raiseValueError, reduceCtorEq, and_false, exists_false, hn, false_and]

theorem splitGroups_of_terminal {encoded : List Byte} (h : ∀ b ∈ encoded, isTerminal b = true) :
    splitGroups encoded = (encoded.map ([·]), []) := by
  induction encoded with
  | nil => rfl
  | cons b encoded ih =>
      rw [splitGroups, ih fun c hc => h c (List.mem_cons_of_mem b hc)]
      simp [h b List.mem_cons_self]

/-- The numpy decoder accepts groups of up to nine bytes, whatever follows the last. -/
theorem decodeVarintDeltaIndices_eq_ok {encoded : List Byte} {n : Nat} {indices : List Int} :
    decodeVarintDeltaIndices encoded n = .ok indices ↔
      (splitGroups encoded).1.length = n ∧ (∀ g ∈ (splitGroups encoded).1, g.length ≤ 9) ∧
        (n = 0 → (splitGroups encoded).2 = []) ∧ indices = cumsum 0 (deltas encoded) := by
  have hsplit := splitGroups_flatten encoded
  unfold decodeVarintDeltaIndices
  split
  · rename_i hn
    subst hn
    simp only [bind_eq_ok, raiseIf_eq_ok, pure, Except.pure, Except.ok.injEq, exists_const, not_not,
      List.length_eq_zero_iff, forall_const]
    constructor
    · rintro ⟨rfl, rfl⟩
      exact ⟨rfl, fun g hg => absurd hg List.not_mem_nil, rfl, rfl⟩
    · rintro ⟨hgs, -, hrest, rfl⟩
      refine ⟨?_, ?_⟩
      · rw [← hsplit, hgs, hrest]
        rfl
      · rw [deltas, hgs]
        rfl
  · rename_i hn
    split
    · rename_i hfast
      have hone := splitGroups_of_terminal (List.all_eq_true.1 hfast.2)
      have hvalues : deltas encoded = encoded.map BitVec.toNat := by
        rw [deltas, hone, List.map_map]
        refine List.map_congr_left fun b hb => ?_
        show (b &&& 0x7F#8).toNat + 128 * 0 = b.toNat
        exact toNat_of_terminal (List.all_eq_true.1 hfast.2 b hb)
      have hshort : ∀ g ∈ encoded.map ([·]), g.length ≤ 9 := fun g hg => by
        obtain ⟨b, -, rfl⟩ := List.mem_map.1 hg
        exact Nat.le_add_left 1 8
      rw [hvalues, hone]
      constructor
      · intro h
        obtain rfl := Except.ok.inj h
        exact ⟨by simp [hfast.1], hshort, fun h => absurd h hn, rfl⟩
      · rintro ⟨-, -, -, rfl⟩
        rfl
    · rw [decodeVarintGroups_eq_ok]
      simp [hn]

/-! ## Agreement -/

/-- Both accept and return the same, or both reject. -/
def Agree {α : Type} (x y : Except PyException α) : Prop := ∀ a, x = .ok a ↔ y = .ok a

theorem cumsum_eq_prefixSums {sum : Nat} {ds : List Nat} (h : sum + ds.sum < 2 ^ 63) :
    cumsum sum ds = prefixSums sum ds := by
  induction ds generalizing sum with
  | nil => rfl
  | cons d ds ih =>
      rw [List.sum_cons] at h
      rw [cumsum, prefixSums, ← Int.natCast_add, wrapInt64_of_lt (by omega) (by omega), ih (by omega)]

theorem cumsum_zero {ds : List Nat} (h : ds.sum < 2 ^ 63) : cumsum 0 ds = prefixSums 0 ds :=
  cumsum_eq_prefixSums (by rwa [Nat.zero_add])

/-- **Main.** The two decoders agree unless the string has the expected groups and only one of them objects: numpy to a
group of over nine bytes, the reference to bytes after the last group or to a sum that does not fit. -/
theorem varintDecoders_agree_iff (encoded : List Byte) (expectedCount : Nat) :
    Agree (decodeVarintDeltaIndices encoded expectedCount) (decodeVarintDeltaIndicesPython encoded expectedCount) ↔
      ((splitGroups encoded).1.length = expectedCount → 0 < expectedCount →
        ((∀ g ∈ (splitGroups encoded).1, g.length ≤ 9) ↔
          (splitGroups encoded).2 = [] ∧ (deltas encoded).sum < 2 ^ 63)) := by
  unfold Agree
  simp only [decodeVarintDeltaIndices_eq_ok, decodeVarintDeltaIndicesPython_eq_ok]
  constructor
  · intro h hlen hpos
    constructor
    · intro hshort
      obtain ⟨-, hrest, hsum, -⟩ := (h _).1 ⟨hlen, hshort, fun h => absurd h (by omega), rfl⟩
      exact ⟨hrest, hsum⟩
    · rintro ⟨hrest, hsum⟩
      exact ((h _).2 ⟨hlen, hrest, hsum, rfl⟩).2.1
  · intro h indices
    constructor
    · rintro ⟨hlen, hshort, hzero, rfl⟩
      obtain rfl | hpos := Nat.eq_zero_or_pos expectedCount
      · have hnil : deltas encoded = [] := by
          rw [deltas, List.length_eq_zero_iff.1 hlen]
          rfl
        rw [hnil]
        exact ⟨hlen, hzero rfl, by decide, rfl⟩
      · obtain ⟨hrest, hsum⟩ := (h hlen hpos).1 hshort
        exact ⟨hlen, hrest, hsum, cumsum_zero hsum⟩
    · rintro ⟨hlen, hrest, hsum, rfl⟩
      have hcumsum := cumsum_zero hsum
      obtain rfl | hpos := Nat.eq_zero_or_pos expectedCount
      · refine ⟨hlen, ?_, fun _ => hrest, hcumsum.symm⟩
        rw [List.length_eq_zero_iff.1 hlen]
        exact nofun
      · exact ⟨hlen, (h hlen hpos).2 ⟨hrest, hsum⟩, fun _ => hrest, hcumsum.symm⟩

/-- One group and the start of another: numpy returns the group, the reference rejects the string. -/
theorem varintDecoders_disagree :
    (∀ d ∈ deltas [0x01#8, 0x80#8], d < 2 ^ 63) ∧ decodeVarintDeltaIndices [0x01#8, 0x80#8] 1 = .ok [1] ∧
      ¬ Agree (decodeVarintDeltaIndices [0x01#8, 0x80#8] 1) (decodeVarintDeltaIndicesPython [0x01#8, 0x80#8] 1) := by
  refine ⟨by decide, rfl, fun h => ?_⟩
  have := (h [1]).1 rfl
  cases this

end AuroraRl.Delta
