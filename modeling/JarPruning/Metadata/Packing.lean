import JarPruning.Metadata.Fault
import JarPruning.Text.ModifiedUtf8

/-!
Packing bytes into the strings of an annotation. Byte mode starts with a zero character and has a
character for each byte. Septet mode regroups the bits by sevens, lowest first, adds one to each
group modulo 128, and may start with a marker. Strings are cut so that each fits a constant.
-/
namespace JarPruning.Metadata

inductive Packing where
  | bytes
  | septets (marked : Bool)
  deriving DecidableEq, Repr

namespace Packing

def byteMarker : Char := '\x00'

def septetMarker : Char := '\uFFFF'

/-- The length at which a string is closed: one below the longest that fits a constant. -/
def chunkLimit : Nat := 65534

/-- Regroups bytes by seven bits; `acc` holds `bits` bits of earlier bytes. -/
def toSeptets (acc bits : Nat) : List UInt8 → List Nat
  | [] => if bits = 0 then [] else [acc % 128]
  | b :: rest =>
    let acc := acc + (b.toNat <<< bits)
    if bits = 6 then acc % 128 :: acc / 128 % 128 :: toSeptets (acc / 128 / 128) 0 rest
    else acc % 128 :: toSeptets (acc / 128) (bits + 1) rest

/-- Regroups septets by eight bits. Bits that fill no byte are dropped. -/
def ofSeptets (acc bits : Nat) : List Nat → List UInt8
  | [] => []
  | s :: rest =>
    let acc := acc + (s <<< bits)
    if bits = 0 then ofSeptets acc 7 rest
    else UInt8.ofNat acc :: ofSeptets (acc / 256) (bits - 1) rest

def septetChar (s : Nat) : Char := Char.ofNat ((s + 1) % 128)

def charSeptet (c : Char) : Nat := (c.toNat + 127) % 128

/-- The characters of a payload, marker included. -/
def chars (p : Packing) (payload : List UInt8) : List Char :=
  match p with
  | .bytes => byteMarker :: payload.map fun b => Char.ofNat b.toNat
  | .septets marked =>
    (if marked then [septetMarker] else []) ++ (toSeptets 0 0 payload).map septetChar

/-- Cuts characters into strings; `buffer` holds the open string backwards, of encoded length
`length`. -/
def chunks (buffer : List Char) (length : Nat) : List Char → List String
  | [] => if buffer.isEmpty then [] else [String.ofList buffer.reverse]
  | c :: rest =>
    let length := length + ModifiedUtf8.charLength c
    if chunkLimit ≤ length then String.ofList (c :: buffer).reverse :: chunks [] 0 rest
    else chunks (c :: buffer) length rest

def encode (p : Packing) (payload : List UInt8) : List String := chunks [] 0 (p.chars payload)

def byteOf (c : Char) : Except Fault UInt8 :=
  if c.toNat < 256 then .ok (UInt8.ofNat c.toNat) else .error (.wideByteChar c.toNat)

def septetOf (c : Char) : Except Fault Nat :=
  if c.toNat < 128 then .ok (charSeptet c) else .error (.wideSeptetChar c.toNat)

/-- The packing that the first character of the first string tells. -/
def ofChunks (strings : List String) : Packing :=
  match strings.head?.bind (·.toList.head?) with
  | none => .septets false
  | some c =>
    if c = byteMarker then .bytes else if c = septetMarker then .septets true else .septets false

/-- The payload, and how it was packed. -/
def decode (strings : List String) : Except Fault (List UInt8 × Packing) := do
  let cs := strings.flatMap (·.toList)
  match ofChunks strings with
  | .bytes => return (← (cs.drop 1).mapM byteOf, .bytes)
  | .septets marked =>
    let septets ← (if marked then cs.drop 1 else cs).mapM septetOf
    return (ofSeptets 0 0 septets, .septets marked)

end Packing

end JarPruning.Metadata
