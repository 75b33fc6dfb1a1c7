import Mathlib.Data.List.FinRange
import Mathlib.Data.Nat.Bitwise

/-!
# Bits packed into bytes

Bytes as a row of bits, the most significant bit of the first byte in front. The bits of a packet
determine it (`ext_bit`), and setting the bits of a packet one after another in cleared bytes gives
back the packet (`foldl_setBit`).
-/

namespace HomeAssistant.BitPacking

variable {n : ℕ}

/-- The byte that a bit lies in. -/
def byteIndex (i : Fin (8 * n)) : Fin n := ⟨i.val / 8, Nat.div_lt_of_lt_mul i.isLt⟩

/-- The bit at a place. -/
def bit (b : Fin n → UInt8) (i : Fin (8 * n)) : Bool :=
  (b (byteIndex i)).toNat.testBit (7 - i.val % 8)

/-- Set the bit at a place. -/
def setBit (b : Fin n → UInt8) (i : Fin (8 * n)) : Fin n → UInt8 :=
  Function.update b (byteIndex i) (b (byteIndex i) ||| UInt8.ofNat (1 <<< (7 - i.val % 8)))

theorem bit_zero (i : Fin (8 * n)) : bit (fun _ => 0) i = false := Nat.zero_testBit _

theorem eq_of_byteIndex_eq {i j : Fin (8 * n)} (h : byteIndex i = byteIndex j)
    (h' : 7 - i.val % 8 = 7 - j.val % 8) : i = j := by
  have hdiv : i.val / 8 = j.val / 8 := congrArg Fin.val h
  apply Fin.ext
  omega

/-- **Setting a bit** leaves the others alone. -/
theorem bit_setBit (b : Fin n → UInt8) (i j : Fin (8 * n)) :
    bit (setBit b i) j = (bit b j || decide (i = j)) := by
  by_cases hbyte : byteIndex j = byteIndex i
  · have hlt : 2 ^ (7 - i.val % 8) < 2 ^ 8 := Nat.pow_lt_pow_right (by omega) (by omega)
    have hmask : (UInt8.ofNat (1 <<< (7 - i.val % 8))).toNat = 2 ^ (7 - i.val % 8) := by
      rw [Nat.one_shiftLeft]
      exact UInt8.toNat_ofNat_of_lt' hlt
    have hiff : 7 - i.val % 8 = 7 - j.val % 8 ↔ i = j :=
      ⟨fun h => eq_of_byteIndex_eq hbyte.symm h, fun h => by rw [h]⟩
    rw [bit, bit, setBit, hbyte, Function.update_self, UInt8.toNat_or, Nat.testBit_or, hmask,
      Nat.testBit_two_pow]
    simp only [hiff]
  · have hne : i ≠ j := fun h => hbyte (by rw [h])
    rw [bit, bit, setBit, Function.update_of_ne hbyte, decide_eq_false hne, Bool.or_false]

/-- **The bits of a packet determine it.** -/
theorem ext_bit {b b' : Fin n → UInt8} (h : ∀ i, bit b i = bit b' i) : b = b' := by
  funext k
  rw [← UInt8.toNat_inj]
  refine Nat.eq_of_testBit_eq fun j => ?_
  by_cases hj : j < 8
  · have hk := k.isLt
    have hbit := h ⟨8 * k + (7 - j), by omega⟩
    have hindex : byteIndex ⟨8 * k + (7 - j), by omega⟩ = k := by
      apply Fin.ext
      show (8 * k.val + (7 - j)) / 8 = k
      omega
    have hplace : 7 - (8 * k.val + (7 - j)) % 8 = j := by omega
    rw [bit, bit, hindex] at hbit
    simpa only [hplace] using hbit
  · have hpow : 2 ^ 8 ≤ 2 ^ j := Nat.pow_le_pow_right (by omega) (by omega)
    rw [Nat.testBit_lt_two_pow ((b k).toNat_lt.trans_le hpow),
      Nat.testBit_lt_two_pow ((b' k).toNat_lt.trans_le hpow)]

theorem bit_foldl_setBit (b d : Fin n → UInt8) (is : List (Fin (8 * n))) (j : Fin (8 * n)) :
    bit (is.foldl (fun d i => if bit b i then setBit d i else d) d) j =
      (bit d j || (decide (j ∈ is) && bit b j)) := by
  induction is generalizing d with
  | nil => simp
  | cons i is ih =>
    rw [List.foldl_cons, ih]
    by_cases hij : j = i
    · subst hij
      by_cases hb : bit b j <;> simp [hb, bit_setBit]
    · by_cases hb : bit b i <;> simp [hb, bit_setBit, hij, Ne.symm hij]

/-- **Packing**: the bits of a packet, set one after another in cleared bytes, give the packet. -/
theorem foldl_setBit (b : Fin n → UInt8) :
    (List.finRange (8 * n)).foldl (fun d i => if bit b i then setBit d i else d) (fun _ => 0) =
      b := by
  apply ext_bit
  intro j
  rw [bit_foldl_setBit, bit_zero]
  simp

end HomeAssistant.BitPacking
