import JarPruning.Bytecode.Instruction

/-! The payload of a `Code` attribute, and overwriting bytecode in place. -/
namespace JarPruning

structure Body where
  maxStack : UInt16
  maxLocals : UInt16
  code : List UInt8
  deriving DecidableEq, Repr

namespace Body

def read : Reader Body := do
  let maxStack ← Reader.word16
  let maxLocals ← Reader.word16
  let code ← Reader.take (← Reader.number 4)
  return ⟨maxStack, maxLocals, code⟩

/-- The front of a payload; exception table and attributes are not looked at. -/
def ofPayload (payload : List UInt8) : Except Fault Body := read.front payload

/-- A payload without exception table and attributes. -/
def bytes (b : Body) : List UInt8 :=
  BigEndian.word16 b.maxStack ++ BigEndian.word16 b.maxLocals ++
    BigEndian.digits 4 b.code.length ++ b.code ++ [0, 0, 0, 0]

/-- Where the bytecode starts in a payload. -/
def codeStart : Nat := 8

/-- The payload with the bytes at `offset` of its bytecode overwritten. -/
def patch (payload : List UInt8) (offset : Nat) (replacement : List UInt8) : List UInt8 :=
  payload.take (codeStart + offset) ++ replacement ++
    payload.drop (codeStart + offset + replacement.length)

end Body

end JarPruning
