import Mathlib.Algebra.Group.Nat.Defs
import Mathlib.Data.List.Induction
import JarPruning.Bytes.BigEndian

/-! Numerals of a fixed width and the numbers they spell. -/
namespace JarPruning.BigEndian

theorem value_digits (width n : Nat) : value (digits width n) = n % 256 ^ width := by
  induction width generalizing n with
  | zero => simp [digits, Nat.mod_one]
  | succ width ih =>
    have hlow : (UInt8.ofNat n).toNat = n % 256 := UInt8.toNat_ofNat'
    have hpow : 256 ^ (width + 1) = 256 * 256 ^ width := Nat.pow_succ'
    rw [digits, value_concat, ih, hlow, hpow, Nat.mod_mul]
    omega

theorem value_lt (bytes : List UInt8) : value bytes < 256 ^ bytes.length := by
  induction bytes using List.reverseRecOn with
  | nil => simp
  | append_singleton bytes b ih =>
    have hb := b.toNat_lt
    rw [value_concat, List.length_append, List.length_singleton, Nat.pow_succ]
    omega

/-- A byte string is the numeral of what it spells. -/
theorem digits_value (bytes : List UInt8) : digits bytes.length (value bytes) = bytes := by
  induction bytes using List.reverseRecOn with
  | nil => rfl
  | append_singleton bytes b ih =>
    have hb := b.toNat_lt
    have hhigh : (value bytes * 256 + b.toNat) / 256 = value bytes := by omega
    have hlow : UInt8.ofNat (value bytes * 256 + b.toNat) = b := by
      apply UInt8.toNat_inj.1
      rw [UInt8.toNat_ofNat']
      omega
    rw [value_concat, List.length_append, List.length_singleton, digits, hhigh, hlow, ih]

theorem value_append (high low : List UInt8) :
    value (high ++ low) = value high * 256 ^ low.length + value low := by
  induction low using List.reverseRecOn with
  | nil => simp
  | append_singleton low b ih =>
    rw [← List.append_assoc, value_concat, value_concat, ih, List.length_append,
      List.length_singleton, Nat.pow_succ, ← Nat.mul_assoc]
    omega

/-- A numeral is the numerals of its two parts in a row. -/
theorem digits_add {high low m n : Nat} (hm : m < 256 ^ high) (hn : n < 256 ^ low) :
    digits (high + low) (m * 256 ^ low + n) = digits high m ++ digits low n := by
  have h := digits_value (digits high m ++ digits low n)
  rwa [List.length_append, length_digits, length_digits, value_append, length_digits,
    value_digits, value_digits, Nat.mod_eq_of_lt hm, Nat.mod_eq_of_lt hn] at h

@[simp] theorem length_word16 (w : UInt16) : (word16 w).length = 2 := length_digits 2 _

@[simp] theorem length_word32 (w : UInt32) : (word32 w).length = 4 := length_digits 4 _

@[simp] theorem length_word64 (w : UInt64) : (word64 w).length = 8 := length_digits 8 _

@[simp] theorem value_word16 (w : UInt16) : value (word16 w) = w.toNat := by
  rw [word16, value_digits]
  exact Nat.mod_eq_of_lt w.toNat_lt

theorem word16_injective {v w : UInt16} (h : word16 v = word16 w) : v = w := by
  rw [← UInt16.toNat_inj, ← value_word16, ← value_word16, h]

@[simp] theorem value_word32 (w : UInt32) : value (word32 w) = w.toNat := by
  rw [word32, value_digits]
  exact Nat.mod_eq_of_lt w.toNat_lt

/-- A number and its numeral agree as far as the width goes. -/
theorem digits_eq_iff {width m n : Nat} :
    digits width m = digits width n ↔ m % 256 ^ width = n % 256 ^ width := by
  constructor
  · intro h
    rw [← value_digits, h, value_digits]
  · intro h
    have hm := digits_value (digits width m)
    have hn := digits_value (digits width n)
    rw [length_digits, value_digits] at hm hn
    rw [← hm, ← hn, h]

end JarPruning.BigEndian
