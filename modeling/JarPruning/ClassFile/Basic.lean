import JarPruning.ClassFile.ConstantPool

/-!
Class files. Attributes keep their payload undecoded until something looks inside, so whatever is
not edited is written back as it was.
-/
namespace JarPruning

structure Attribute where
  name : UInt16
  payload : List UInt8
  deriving DecidableEq, Repr

/-- A field or method declaration, its name and descriptor being pool indices. -/
structure MemberEntry where
  access : UInt16
  name : UInt16
  descriptor : UInt16
  attributes : List Attribute
  deriving DecidableEq, Repr

structure ClassFile where
  minor : UInt16
  major : UInt16
  pool : ConstantPool
  access : UInt16
  thisClass : UInt16
  superClass : UInt16
  interfaces : List UInt16
  fields : List MemberEntry
  methods : List MemberEntry
  attributes : List Attribute
  deriving DecidableEq, Repr

namespace Access

def static : UInt16 := 0x0008

def synthetic : UInt16 := 0x1000

def isStatic (flags : UInt16) : Bool := flags &&& static != 0

end Access

def Member.isStatic (m : Member) : Bool := Access.isStatic m.access

def MemberEntry.resolve (pool : ConstantPool) (m : MemberEntry) : Except Fault Member := do
  let name ← pool.utf8 m.name
  let descriptor ← pool.utf8 m.descriptor
  return { name, descriptor, access := m.access }

def Attribute.isNamed (pool : ConstantPool) (name : String) (a : Attribute) : Bool :=
  pool.hasText a.name name

/-- Whether the payload is one of the two annotation tables that run-time tools see. -/
def Attribute.isAnnotations (pool : ConstantPool) (a : Attribute) : Bool :=
  a.isNamed pool "RuntimeVisibleAnnotations" || a.isNamed pool "RuntimeInvisibleAnnotations"

/-- The internal name, such as `com/example/Foo`. -/
def ClassFile.name (c : ClassFile) : Except Fault String := c.pool.className c.thisClass

end JarPruning
