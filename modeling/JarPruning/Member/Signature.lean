/-! Names with descriptors, by which members are told apart. -/
namespace JarPruning

/-- A member's name and descriptor. -/
structure Signature where
  name : String
  descriptor : String
  deriving DecidableEq, Repr

/-- Name and descriptor without a separator, as diagnostics show methods. -/
def Signature.text (s : Signature) : String := s.name ++ s.descriptor

/-- A field or method with its access flags. -/
structure Member extends Signature where
  access : UInt16 := 0
  deriving DecidableEq, Repr

end JarPruning
