/-!
Big-endian numerals of a fixed width. Digits beyond the width are dropped, so a count too large
for its field is written modulo the field's range.
-/
namespace JarPruning.BigEndian

/-- The number that the bytes spell, most significant byte first. -/
def value (bytes : List UInt8) : Nat := bytes.foldl (fun n b => n * 256 + b.toNat) 0

/-- The last `width` base-256 digits of `n`, most significant first. -/
def digits : Nat → Nat → List UInt8
  | 0, _ => []
  | width + 1, n => digits width (n / 256) ++ [UInt8.ofNat n]

def word16 (w : UInt16) : List UInt8 := digits 2 w.toNat

def word32 (w : UInt32) : List UInt8 := digits 4 w.toNat

def word64 (w : UInt64) : List UInt8 := digits 8 w.toNat

@[simp] theorem value_nil : value [] = 0 := rfl

@[simp] theorem value_concat (bytes : List UInt8) (b : UInt8) :
    value (bytes ++ [b]) = value bytes * 256 + b.toNat := by
  simp [value]

@[simp] theorem length_digits (width n : Nat) : (digits width n).length = width := by
  induction width generalizing n with
  | zero => rfl
  | succ width ih => simp [digits, ih]

end JarPruning.BigEndian
