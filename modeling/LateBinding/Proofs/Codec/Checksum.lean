import LateBinding.Binary.Checksum
import Mathlib.Data.Nat.Bitwise

/-!
# A checksum notices every changed byte

A bit that leaves the register at the low end comes back at the high end, with the highest bit of
the polynomial. So nothing is lost in a step: the register before it follows from the one after it.
A byte is mixed in by exclusive or, so it follows too, and two strings of bytes that differ in one
place have different checksums.
-/

namespace LateBinding

theorem toNat_crcBit (register : UInt32) :
    (crcBit register).toNat =
      if register.toNat % 2 = 1 then register.toNat / 2 ^^^ 0xEDB88320 else register.toNat / 2 := by
  have hodd : (register &&& 1 = 1) ↔ register.toNat % 2 = 1 := by
    rw [← UInt32.toNat_inj, UInt32.toNat_and, UInt32.toNat_one, Nat.and_one_is_mod]
  have hhalf : (register >>> 1).toNat = register.toNat / 2 := by
    simp [UInt32.toNat_shiftRight, Nat.shiftRight_eq_div_pow]
  unfold crcBit
  by_cases h : register &&& 1 = 1
  · rw [if_pos h, if_pos (hodd.mp h), UInt32.toNat_xor, hhalf]
    rfl
  · rw [if_neg h, if_neg fun h' => h (hodd.mpr h'), hhalf]

/-- The highest bit after a step is the lowest one before it. -/
theorem testBit_crcBit (register : UInt32) :
    (crcBit register).toNat.testBit 31 = decide (register.toNat % 2 = 1) := by
  have hsmall : register.toNat / 2 < 2 ^ 31 := by
    have hregister := register.toNat_lt
    omega
  have hclear : (register.toNat / 2).testBit 31 = false := Nat.testBit_lt_two_pow hsmall
  rw [toNat_crcBit]
  split
  · next hodd =>
    rw [Nat.testBit_xor, hclear, decide_eq_true hodd]
    decide
  · next heven => rw [hclear, decide_eq_false heven]

theorem crcBit_injective {register other : UInt32} (h : crcBit register = crcBit other) :
    register = other := by
  have hlow : decide (register.toNat % 2 = 1) = decide (other.toNat % 2 = 1) := by
    rw [← testBit_crcBit, ← testBit_crcBit, h]
  have hhigh : register.toNat / 2 = other.toNat / 2 := by
    have hnumbers := congrArg UInt32.toNat h
    rw [toNat_crcBit, toNat_crcBit] at hnumbers
    by_cases hodd : register.toNat % 2 = 1
    · have hother : other.toNat % 2 = 1 := by simpa [hodd] using hlow
      rw [if_pos hodd, if_pos hother] at hnumbers
      exact Nat.xor_left_injective hnumbers
    · have hother : ¬ other.toNat % 2 = 1 := by simpa [hodd] using hlow
      rwa [if_neg hodd, if_neg hother] at hnumbers
  apply UInt32.toNat_inj.mp
  have hparity : register.toNat % 2 = 1 ↔ other.toNat % 2 = 1 := by simpa using hlow
  omega

theorem crcByte_eq {register register' : UInt32} {byte byte' : UInt8}
    (h : crcByte register byte = crcByte register' byte') :
    register ^^^ byte.toUInt32 = register' ^^^ byte'.toUInt32 := by
  unfold crcByte at h
  iterate 8 replace h := crcBit_injective h
  exact h

theorem crcByte_left_injective {register register' : UInt32} {byte : UInt8}
    (h : crcByte register byte = crcByte register' byte) : register = register' :=
  (UInt32.xor_left_inj byte.toUInt32).mp (crcByte_eq h)

theorem crcByte_right_injective {register : UInt32} {byte byte' : UInt8}
    (h : crcByte register byte = crcByte register byte') : byte = byte' := by
  have hwide := (UInt32.xor_right_inj register).mp (crcByte_eq h)
  have hnumbers := congrArg UInt32.toNat hwide
  rw [UInt8.toNat_toUInt32, UInt8.toNat_toUInt32] at hnumbers
  exact UInt8.toNat_inj.mp hnumbers

theorem crcRegister_injective {register other : UInt32} {bytes : List UInt8}
    (h : crcRegister register bytes = crcRegister other bytes) : register = other := by
  -- on the bytes: what stood in the register before them follows from what stands in it after them
  induction bytes generalizing register other with
  | nil => exact h
  | cons byte rest ih => exact crcByte_left_injective (ih h)

theorem crc32_ne_of_byte_ne (front back : List UInt8) {byte byte' : UInt8} (hne : byte ≠ byte') :
    crc32 (front ++ byte :: back) ≠ crc32 (front ++ byte' :: back) := by
  intro heq
  have hregisters := (UInt32.xor_left_inj 0xFFFFFFFF).mp heq
  rw [crcRegister_append, crcRegister_append] at hregisters
  exact hne (crcByte_right_injective (crcRegister_injective hregisters))

end LateBinding
