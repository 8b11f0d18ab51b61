import Mathlib.Data.List.Basic
import Mathlib.Tactic.Ring

/-!
# Byte strings

* `littleEndian`, `ofLittleEndian` : fixed-width little-endian numbers;
* `varint`, `varintValue` : numbers in groups of seven bits, all bytes but the last with the high bit set;
* `utf8`, `ofUtf8?` : text as bytes.
-/

abbrev Byte := BitVec 8

namespace Bytes

/-! ## Little-endian numbers -/

/-- The `k` low bytes of `n`, the lowest first. -/
def littleEndian : Nat → Nat → List Byte
  | 0, _ => []
  | k + 1, n => BitVec.ofNat 8 n :: littleEndian k (n / 256)

def ofLittleEndian : List Byte → Nat
  | [] => 0
  | b :: l => b.toNat + 256 * ofLittleEndian l

@[simp] theorem length_littleEndian (k n : Nat) : (littleEndian k n).length = k := by
  induction k generalizing n with
  | zero => rfl
  | succ k ih => rw [littleEndian, List.length_cons, ih]

theorem ofLittleEndian_littleEndian {k n : Nat} (h : n < 256 ^ k) : ofLittleEndian (littleEndian k n) = n := by
  induction k generalizing n with
  | zero =>
      rw [pow_zero] at h
      have hn : n = 0 := by omega
      rw [hn]
      rfl
  | succ k ih =>
      have hdiv : n / 256 < 256 ^ k := by
        rw [pow_succ] at h
        exact Nat.div_lt_of_lt_mul (by omega)
      rw [littleEndian, ofLittleEndian, ih hdiv, BitVec.toNat_ofNat]
      omega

/-- The fields of a record of fixed widths. -/
def readFields : List Nat → List Byte → List Nat
  | [], _ => []
  | k :: ks, l => ofLittleEndian (l.take k) :: readFields ks (l.drop k)

theorem readFields_cons {k n : Nat} (h : n < 256 ^ k) (ks : List Nat) (rest : List Byte) :
    readFields (k :: ks) (littleEndian k n ++ rest) = n :: readFields ks rest := by
  have hlen := length_littleEndian k n
  rw [readFields, List.take_left' hlen, List.drop_left' hlen, ofLittleEndian_littleEndian h]

/-! ## Numbers in groups of seven bits -/

def isTerminal (b : Byte) : Bool := b &&& 0x80#8 = 0

/-- The bytes of `n`. -/
def varint (n : Nat) : List Byte :=
  if h : n < 128 then [BitVec.ofNat 8 n] else (BitVec.ofNat 8 (n % 128) ||| 0x80#8) :: varint (n / 128)
termination_by n
decreasing_by omega

/-- The number whose groups of seven bits are the low bits of the bytes. -/
def varintValue : List Byte → Nat
  | [] => 0
  | b :: l => (b &&& 0x7F#8).toNat + 128 * varintValue l

theorem payload_lt (b : Byte) : (b &&& 0x7F#8).toNat < 128 := by
  have h := Nat.and_le_right (n := b.toNat) (m := 127)
  rw [BitVec.toNat_and]
  simp only [BitVec.toNat_ofNat, Nat.reducePow, Nat.reduceMod]
  omega

theorem toNat_of_terminal {b : Byte} (h : isTerminal b = true) : (b &&& 0x7F#8).toNat = b.toNat := by
  have key : ∀ b : Fin (2 ^ 8), isTerminal ⟨b⟩ = true → ((⟨b⟩ : Byte) &&& 0x7F#8).toNat = b.val := by
    decide +kernel
  exact key b.toFin h

theorem varintValue_lt (l : List Byte) : varintValue l < 2 ^ (7 * l.length) := by
  induction l with
  | nil => decide
  | cons b l ih =>
      have hb := payload_lt b
      have hpow : 2 ^ (7 * (l.length + 1)) = 2 ^ (7 * l.length) * 128 := by rw [Nat.mul_add, Nat.pow_add]
      rw [varintValue, List.length_cons, hpow]
      omega

theorem varintValue_append (l l' : List Byte) :
    varintValue (l ++ l') = varintValue l + 2 ^ (7 * l.length) * varintValue l' := by
  induction l with
  | nil => simp [varintValue]
  | cons b l ih =>
      rw [List.cons_append, varintValue, varintValue, ih, List.length_cons, Nat.mul_add 7, Nat.pow_add]
      ring

theorem small_byte {n : Nat} (h : n < 128) :
    isTerminal (BitVec.ofNat 8 n) = true ∧ (BitVec.ofNat 8 n &&& 0x7F#8).toNat = n ∧
      isTerminal (BitVec.ofNat 8 n ||| 0x80#8) = false ∧ ((BitVec.ofNat 8 n ||| 0x80#8) &&& 0x7F#8).toNat = n := by
  have key : ∀ n : Fin 128, isTerminal (BitVec.ofNat 8 n) = true ∧ (BitVec.ofNat 8 n &&& 0x7F#8).toNat = n ∧
      isTerminal (BitVec.ofNat 8 n ||| 0x80#8) = false ∧ ((BitVec.ofNat 8 n ||| 0x80#8) &&& 0x7F#8).toNat = n := by
    decide +kernel
  exact key ⟨n, h⟩

theorem varintValue_varint (n : Nat) : varintValue (varint n) = n := by
  induction n using varint.induct with
  | case1 n h =>
      rw [varint, dif_pos h, varintValue, varintValue, (small_byte h).2.1]
      omega
  | case2 n h ih =>
      have hmod : n % 128 < 128 := Nat.mod_lt n (by decide)
      rw [varint, dif_neg h, varintValue, ih, (small_byte hmod).2.2.2]
      omega

/-- Only the last byte of a number ends it. -/
theorem varint_eq (n : Nat) : ∃ l b, varint n = l ++ [b] ∧ (∀ c ∈ l, isTerminal c = false) ∧ isTerminal b = true := by
  induction n using varint.induct with
  | case1 n h =>
      refine ⟨[], BitVec.ofNat 8 n, ?_, nofun, (small_byte h).1⟩
      rw [varint, dif_pos h]
      rfl
  | case2 n h ih =>
      have hmod : n % 128 < 128 := Nat.mod_lt n (by decide)
      obtain ⟨l, b, hn, hl, hb⟩ := ih
      refine ⟨(BitVec.ofNat 8 (n % 128) ||| 0x80#8) :: l, b, ?_, ?_, hb⟩
      · rw [varint, dif_neg h, hn]
        rfl
      · intro c hc
        rcases List.mem_cons.1 hc with rfl | hc
        · exact (small_byte hmod).2.2.1
        · exact hl c hc

theorem length_varint_le {n k : Nat} (hk : 0 < k) (h : n < 128 ^ k) : (varint n).length ≤ k := by
  induction k generalizing n with
  | zero => omega
  | succ k ih =>
      rw [varint]
      split
      · rw [List.length_singleton]
        omega
      · rename_i hn
        have hdiv : n / 128 < 128 ^ k := by
          rw [pow_succ] at h
          exact Nat.div_lt_of_lt_mul (by omega)
        have hpos : 0 < k := by
          rcases Nat.eq_zero_or_pos k with rfl | hpos
          · rw [pow_zero] at hdiv
            omega
          · exact hpos
        have := ih hpos hdiv
        rw [List.length_cons]
        omega

/-! ## Text -/

def utf8 (s : String) : List Byte := s.toByteArray.data.toList.map UInt8.toBitVec

def ofUtf8? (l : List Byte) : Option String := String.fromUTF8? ⟨(l.map UInt8.ofBitVec).toArray⟩

theorem ofUtf8?_utf8 (s : String) : ofUtf8? (utf8 s) = some s := by
  unfold ofUtf8? utf8
  have hid : UInt8.ofBitVec ∘ UInt8.toBitVec = id := rfl
  rw [List.map_map, hid, List.map_id, Array.toArray_toList]
  unfold String.fromUTF8?
  rw [dif_pos s.isValidUTF8]
  exact congrArg some (String.toByteArray_inj.1 rfl)

end Bytes
