import JarPruning.ClassFile.Reader

/-! Bootstrap methods, which dynamic call sites refer to by position. -/
namespace JarPruning

/-- A bootstrap method handle and its static arguments, as pool indices. -/
structure Bootstrap where
  method : UInt16
  arguments : List UInt16
  deriving DecidableEq, Repr

namespace Bootstrap

def read : Reader Bootstrap := do
  let method ← Reader.word16
  let arguments ← Reader.counted Reader.word16
  return ⟨method, arguments⟩

/-- The table at the front of a payload; what follows it is ignored. -/
def readTable (payload : List UInt8) : Except Fault (List Bootstrap) :=
  (Reader.counted read).front payload

/-- Every index that the bootstrap method names. -/
def indices (b : Bootstrap) : List UInt16 := b.method :: b.arguments

end Bootstrap

end JarPruning
