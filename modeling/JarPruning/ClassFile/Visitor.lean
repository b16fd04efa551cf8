import JarPruning.Bytecode.Stub
import JarPruning.ClassFile.Annotation
import JarPruning.Metadata.Fault

/-!
What a walk over a class reports, with all names resolved, and the decisions it asks for. A
visitor answers from a state of its own, which every report may change.
-/
namespace JarPruning

inductive Disposition where
  | keep | discard
  deriving DecidableEq, Repr

inductive MethodDisposition where
  | keep | delete | stub
  deriving DecidableEq, Repr

/-- The roles in which an attribute names another class by itself. -/
inductive ReferenceKind where
  | nestHost | nestMember | permittedSubclass
  deriving DecidableEq, Repr

structure ClassHeader where
  name : String
  superName : Option String
  interfaces : List String
  deriving DecidableEq, Repr

/-- The class, and perhaps the method, that a local class stands in. -/
structure OuterLink where
  owner : String
  method : Option Signature
  deriving DecidableEq, Repr

/-- A line of a class's table of nested classes. -/
structure InnerLink where
  inner : String
  outer : Option String
  simpleName : Option String
  deriving DecidableEq, Repr

/-- Why a class cannot be taken through a pass. -/
inductive ClassFailure where
  /-- The class file named, by its entry or by its own name, is at fault. -/
  | malformed (name : String) (fault : Fault)
  /-- A fault that nobody has put a name to. -/
  | unnamed (fault : Fault)
  | stub (className : String) (fault : Stub.Fault)
  | corruptMetadata (className : String) (fault : Metadata.Fault)
  deriving DecidableEq, Repr

def ClassFailure.message : ClassFailure → String
  | .malformed name fault =>
    s!"malformed class {name} at byte offset {fault.offset}: {fault.reason.message}"
  | .unnamed fault => fault.message
  | .stub className fault => s!"stub method in {className}: {fault.message}"
  | .corruptMetadata className fault => s!"corrupt Kotlin metadata in {className}: {fault.text}"

/-- Reports come in this order: header, annotations and links of the class, fields, methods, end.
The reports on a member stand between its own and its end. -/
structure Visitor (σ : Type) where
  header : ClassHeader → StateM σ Unit
  annotationOnClass : String → AnnotationEntry → StateM σ Disposition
  outerClass : OuterLink → StateM σ Unit
  innerClass : InnerLink → StateM σ Disposition
  /-- The answer counts for list entries only. -/
  classReference : ReferenceKind → String → StateM σ Disposition
  /-- Asked between the parts; once true, the walk stops and the class is dropped. -/
  isDiscarded : σ → Bool
  field : Member → StateM σ Unit
  annotationOnField : Member → String → StateM σ Disposition
  fieldEnd : Member → StateM σ Disposition
  method : Member → StateM σ Unit
  annotationOnMethod : Member → String → StateM σ Disposition
  /-- Whether to walk the method's instructions. -/
  code : Member → StateM σ Bool
  invoke : Member → UInt8 → MemberRef → StateM σ Unit
  /-- Bytes in the answer take the place of the three-byte instruction. -/
  access : Member → UInt8 → MemberRef → StateM σ (Option (Vector UInt8 3))
  invokeDynamic : Member → List HandleRef → StateM σ Unit
  methodEnd : Member → StateM σ MethodDisposition
  /-- May add constants; the answer replaces class annotations of the same type. -/
  finish : ConstantPool → EStateM ClassFailure σ (List AnnotationEntry × ConstantPool)

end JarPruning
