/-! Hexadecimal digits, and numerals of a least width as diagnostics show them. -/
namespace JarPruning.Hex

def digitValue? (c : Char) : Option Nat :=
  if '0' ≤ c && c ≤ '9' then some (c.toNat - 48)
  else if 'a' ≤ c && c ≤ 'f' then some (c.toNat - 87)
  else if 'A' ≤ c && c ≤ 'F' then some (c.toNat - 55)
  else none

/-- The number that the digits of a text spell. -/
def value (text : String) : Nat :=
  text.foldl (fun n c => 16 * n + (digitValue? c).getD 0) 0

def padded (width : Nat) (digits : List Char) : String :=
  String.ofList (List.replicate (width - digits.length) '0' ++ digits)

def lower (width n : Nat) : String := padded width (Nat.toDigits 16 n)

def upper (width n : Nat) : String := padded width ((Nat.toDigits 16 n).map Char.toUpper)

end JarPruning.Hex
