import JarPruning.ClassFile.Basic
import JarPruning.Member.Descriptor

/-!
Members that are to be deleted or have been, and the synthetic companions that a compiler gives to
a method or constructor with default arguments.
-/
namespace JarPruning

/-- A type whose values are told apart by a key. -/
class Keyed (α : Type) (κ : outParam Type) where
  key : α → κ

/-- Methods are told apart by their signatures, whatever their access flags. -/
instance : Keyed Member Signature := ⟨Member.toSignature⟩

/-- What tells fields apart: the name, and the parameter list of the getter of an extension
property, which is `()` for any other field. -/
structure FieldKey where
  name : String
  extension : String
  deriving DecidableEq, Repr

/-- A field; its descriptor is no part of its identity. -/
structure FieldTarget where
  name : String
  descriptor : String
  extension : String := "()"
  deriving DecidableEq, Repr

def FieldTarget.key (f : FieldTarget) : FieldKey := ⟨f.name, f.extension⟩

instance : Keyed FieldTarget FieldKey := ⟨FieldTarget.key⟩

def FieldTarget.text (f : FieldTarget) : String := s!"{f.name}:{f.descriptor}"

namespace Signature

def isObjectConstructor (s : Signature) : Bool := s.name == "<init>"

def isClassInitializer (s : Signature) : Bool := s.name == "<clinit>"

def isConstructor (s : Signature) : Bool := s.isObjectConstructor || s.isClassInitializer

def isVoidFunction (s : Signature) : Bool := !s.isConstructor && s.descriptor.endsWith ")V"

/-- The name up to a `$`. -/
def visibleName (s : Signature) : String := String.ofList (s.name.toList.takeWhile (· ≠ '$'))

/-- The name behind its first `$`; empty if there is none. -/
def suffix (s : Signature) : String := String.ofList ((s.name.toList.dropWhile (· ≠ '$')).drop 1)

/-- One mask for every 32 parameters that can be left out, and at least one. -/
def masks (parameters : Nat) : String :=
  String.ofList (List.replicate (max 1 ((parameters + 31) / 32)) 'I')

/-- The companion `name$default` of a function. A member function's companion takes the owner
first; a receiver is no parameter that could be left out. -/
def defaultFunction? (s : Signature) (owner : Option String) (hasReceiver : Bool) :
    Option Member :=
  if s.isConstructor then none
  else
    match MethodShape.of s.descriptor with
    | .error _ => none
    | .ok shape =>
      let masks := masks (shape.parameterCount - if hasReceiver then 1 else 0)
      let owner := match owner with
        | some name => s!"L{name};"
        | none => ""
      some {
        name := s.name ++ "$default"
        descriptor :=
          s!"({owner}{shape.parameters}{masks}Ljava/lang/Object;){shape.returnType}"
        access := Access.static ||| Access.synthetic }

def defaultMarker : String := "Lkotlin/jvm/internal/DefaultConstructorMarker;"

/-- The companion of a constructor. -/
def defaultConstructor? (s : Signature) : Option Member :=
  if s.isObjectConstructor then
    match MethodShape.of s.descriptor with
    | .error _ => none
    | .ok shape => some {
        name := "<init>"
        descriptor := s!"({shape.parameters}{masks shape.parameterCount}{defaultMarker})V"
        access := Access.synthetic }
  else none

end Signature

end JarPruning
