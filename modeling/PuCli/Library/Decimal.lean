import Mathlib.Tactic.Common

namespace Decimal

def decimal (n : Nat) : List UInt8 := (Nat.toDigits 10 n).map Char.toUInt8

def isDigit (byte : UInt8) : Bool := 0x30 ≤ byte ∧ byte ≤ 0x39

def charOf (byte : UInt8) : Char := Char.ofNat byte.toNat

variable {c : Char} {n : Nat}

theorem toNat_of_isDigit (h : c.isDigit = true) : 48 ≤ c.toNat ∧ c.toNat ≤ 57 := by
  simp only [Char.isDigit,Bool.and_eq_true,decide_eq_true_eq,UInt32.le_iff_toNat_le] at h
  exact h

theorem toNat_toUInt8 (h : c.isDigit = true) : c.toUInt8.toNat = c.toNat := by
  have hc := toNat_of_isDigit h
  have hsmall : c.toUInt8.toNat = c.toNat % 256 := rfl
  omega

theorem charOf_toUInt8 (h : c.isDigit = true) : charOf c.toUInt8 = c := by
  rw [charOf,toNat_toUInt8 h,Char.ofNat_toNat]

theorem isDigit_toUInt8 (h : c.isDigit = true) : isDigit c.toUInt8 = true := by
  have hc := toNat_of_isDigit h
  have hn := toNat_toUInt8 h
  simp only [isDigit,decide_eq_true_eq,UInt8.le_iff_toNat_le]
  rw [hn]
  exact hc

theorem digit_char (h : c ∈ Nat.toDigits 10 n) : c.isDigit = true :=
  Nat.isDigit_of_mem_toDigits (by decide) (by decide) h

theorem isDigit_of_mem_decimal {byte : UInt8} (h : byte ∈ decimal n) : isDigit byte = true := by
  obtain ⟨c,hc,rfl⟩ := List.mem_map.mp h
  exact isDigit_toUInt8 (digit_char hc)

theorem map_charOf_decimal (n : Nat) : (decimal n).map charOf = Nat.toDigits 10 n := by
  rw [decimal,List.map_map]
  conv => rhs; rw [← List.map_id (Nat.toDigits 10 n)]
  exact List.map_congr_left (fun c hc => charOf_toUInt8 (digit_char hc))

theorem decimal_injective : Function.Injective decimal := by
  intro m n h
  have hdigits := congrArg (List.map charOf) h
  rw [map_charOf_decimal,map_charOf_decimal] at hdigits
  have hvalue := congrArg (fun digits => Nat.ofDigitChars 10 digits 0) hdigits
  simpa using hvalue

end Decimal
