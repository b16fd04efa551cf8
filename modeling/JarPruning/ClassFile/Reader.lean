import JarPruning.Bytes.BigEndian
import JarPruning.Bytes.Cut
import JarPruning.ClassFile.Fault

/-! Reading from the front of a byte string while counting the bytes read. -/
namespace JarPruning

structure Cursor where
  rest : List UInt8
  offset : Nat
  deriving DecidableEq, Repr

abbrev Reader := StateT Cursor (Except Fault)

namespace Reader

variable {α : Type}

/-- What `r` reads at the front of `bytes`; what follows is left unread. -/
def front (r : Reader α) (bytes : List UInt8) : Except Fault α := do
  return (← r.run ⟨bytes, 0⟩).1

/-- What `r` reads if it reads all of `bytes`. -/
def whole (r : Reader α) (trailing : Reason) (bytes : List UInt8) : Except Fault α := do
  let (a, c) ← r.run ⟨bytes, 0⟩
  if c.rest.isEmpty then return a else throw ⟨c.offset, trailing⟩

/-- Fails where the cursor stands. -/
def fail (reason : Reason) : Reader α := fun c => .error ⟨c.offset, reason⟩

def offset : Reader Nat := fun c => .ok (c.offset, c)

def take (n : Nat) : Reader (List UInt8) := fun c =>
  match cut? n c.rest with
  | some (front, rest) => .ok (front, ⟨rest, c.offset + n⟩)
  | none => .error ⟨c.offset, .unexpectedEnd n⟩

/-- A big-endian number of the given width. -/
def number (width : Nat) : Reader Nat := do
  return BigEndian.value (← take width)

def word8 : Reader UInt8 := do
  return UInt8.ofNat (← number 1)

def word16 : Reader UInt16 := do
  return UInt16.ofNat (← number 2)

def word32 : Reader UInt32 := do
  return UInt32.ofNat (← number 4)

/-- Eight bytes, read as two halves: a text cut short is reported at the half that is missing. -/
def word64 : Reader UInt64 := do
  let high ← number 4
  let low ← number 4
  return UInt64.ofNat (high * UInt32.size + low)

def times : Nat → Reader α → Reader (List α)
  | 0, _ => pure []
  | n + 1, r => do
    let a ← r
    return a :: (← times n r)

/-- Items behind a count of two bytes. -/
def counted (r : Reader α) : Reader (List α) := do
  times (← number 2) r

end Reader

end JarPruning
