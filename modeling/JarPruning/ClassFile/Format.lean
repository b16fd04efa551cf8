import JarPruning.ClassFile.Basic

/-! The byte form of class files. -/
namespace JarPruning

open BigEndian

def Attribute.bytes (a : Attribute) : List UInt8 :=
  word16 a.name ++ digits 4 a.payload.length ++ a.payload

def Attribute.read : Reader Attribute := do
  let name ← Reader.word16
  let payload ← Reader.take (← Reader.number 4)
  return ⟨name, payload⟩

/-- A list behind its count. -/
def countedBytes {α : Type} (f : α → List UInt8) (l : List α) : List UInt8 :=
  digits 2 l.length ++ l.flatMap f

def MemberEntry.bytes (m : MemberEntry) : List UInt8 :=
  word16 m.access ++ word16 m.name ++ word16 m.descriptor ++
    countedBytes Attribute.bytes m.attributes

def MemberEntry.read : Reader MemberEntry := do
  let access ← Reader.word16
  let name ← Reader.word16
  let descriptor ← Reader.word16
  let attributes ← Reader.counted Attribute.read
  return ⟨access, name, descriptor, attributes⟩

namespace ClassFile

def magic : Nat := 0xCAFEBABE

def bytes (c : ClassFile) : List UInt8 :=
  digits 4 magic ++ word16 c.minor ++ word16 c.major ++ c.pool.bytes ++ word16 c.access ++
    word16 c.thisClass ++ word16 c.superClass ++ countedBytes word16 c.interfaces ++
    countedBytes MemberEntry.bytes c.fields ++ countedBytes MemberEntry.bytes c.methods ++
    countedBytes Attribute.bytes c.attributes

def read : Reader ClassFile := do
  let found ← Reader.number 4
  unless found = magic do throw ⟨0, .magic found⟩
  let minor ← Reader.word16
  let major ← Reader.word16
  let pool ← ConstantPool.read
  let access ← Reader.word16
  let thisClass ← Reader.word16
  let superClass ← Reader.word16
  let interfaces ← Reader.counted Reader.word16
  let fields ← Reader.counted MemberEntry.read
  let methods ← Reader.counted MemberEntry.read
  let attributes ← Reader.counted Attribute.read
  return { minor, major, pool, access, thisClass, superClass, interfaces, fields, methods,
           attributes }

/-- The class that all of `bytes` spells. Its own name has to resolve. -/
def ofBytes (bytes : List UInt8) : Except Fault ClassFile := do
  let c ← read.whole .trailingAfterClass bytes
  let _ ← c.name
  return c

end ClassFile

end JarPruning
