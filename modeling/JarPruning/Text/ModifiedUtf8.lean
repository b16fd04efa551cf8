import JarPruning.Text.Hex
import JarPruning.Text.Utf16

/-!
The text encoding of class files: each UTF-16 unit in one to three bytes, the zero unit in two,
so that no encoded byte is zero and a supplementary character takes six bytes.
-/
namespace JarPruning.ModifiedUtf8

inductive Fault where
  | lead (byte : UInt8)
  | continuation (byte : UInt8)
  | truncated
  deriving DecidableEq, Repr

def Fault.text : Fault → String
  | .lead b => s!"invalid modified utf8 lead byte 0x{Hex.lower 2 b.toNat}"
  | .continuation b => s!"invalid modified utf8 continuation 0x{Hex.lower 2 b.toNat}"
  | .truncated => "truncated modified utf8 sequence"

/-- The bytes of one unit. -/
def ofUnit (u : UInt16) : List UInt8 :=
  let n := u.toNat
  if 0 < n ∧ n < 0x80 then [UInt8.ofNat n]
  else if n < 0x800 then [UInt8.ofNat (0xC0 + n / 64), UInt8.ofNat (0x80 + n % 64)]
  else [UInt8.ofNat (0xE0 + n / 4096), UInt8.ofNat (0x80 + n / 64 % 64),
    UInt8.ofNat (0x80 + n % 64)]

def encode (s : String) : List UInt8 := (Utf16.ofChars s.toList).flatMap ofUnit

/-- The length of `ofUnit u`, without building it. -/
def unitLength (u : UInt16) : Nat :=
  if 0 < u.toNat ∧ u.toNat < 0x80 then 1 else if u.toNat < 0x800 then 2 else 3

/-- The number of bytes of one character. -/
def charLength (c : Char) : Nat := (Utf16.ofChar c).foldr (fun u n => unitLength u + n) 0

def encodedLength (s : String) : Nat := s.toList.foldr (fun c n => charLength c + n) 0

/-- The six payload bits of a continuation byte. -/
def continuationBits (b : UInt8) : Except Fault Nat :=
  if b.toNat / 64 = 2 then .ok (b.toNat % 64) else .error (.continuation b)

/-- The units spelled by the bytes. Overlong spellings and a raw zero byte count as they stand. -/
def units : List UInt8 → Except Fault (List UInt16)
  | [] => .ok []
  | a :: rest =>
    if a.toNat < 0x80 then do
      return UInt16.ofNat a.toNat :: (← units rest)
    else if a.toNat / 32 = 6 then
      match rest with
      | [] => .error .truncated
      | b :: rest => do
        let low ← continuationBits b
        return UInt16.ofNat (a.toNat % 32 * 64 + low) :: (← units rest)
    else if a.toNat / 16 = 14 then
      match rest with
      | [] => .error .truncated
      | [b] => do
        let _ ← continuationBits b
        .error .truncated
      | b :: c :: rest => do
        let middle ← continuationBits b
        let low ← continuationBits c
        return UInt16.ofNat (a.toNat % 16 * 4096 + middle * 64 + low) :: (← units rest)
    else .error (.lead a)

def decode (bytes : List UInt8) : Except Fault String := do
  return String.ofList (Utf16.decodeLossy (← units bytes))

theorem length_ofUnit (u : UInt16) : (ofUnit u).length = unitLength u := by
  unfold ofUnit unitLength
  dsimp only
  split
  · rfl
  split <;> rfl

end JarPruning.ModifiedUtf8
