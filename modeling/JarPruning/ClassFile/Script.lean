import JarPruning.Bytecode.Neutral
import JarPruning.ClassFile.Walk

/-!
Scripted walks: every report is recorded as an event, and every decision is taken from lists of
names that are fixed beforehand.
-/
namespace JarPruning

/-- A report of a walk. -/
inductive WalkEvent where
  | header (h : ClassHeader)
  | annotationOnClass (descriptor : String) (elements : Nat)
  | outerClass (link : OuterLink)
  | innerClass (link : InnerLink)
  | classReference (kind : ReferenceKind) (name : String)
  | field (m : Member)
  | annotationOnField (m : Member) (descriptor : String)
  | fieldEnd (m : Member)
  | method (m : Member)
  | annotationOnMethod (m : Member) (descriptor : String)
  | code (m : Member)
  | invoke (opcode : UInt8) (target : MemberRef)
  | access (opcode : UInt8) (target : MemberRef)
  | invokeDynamic (handles : List HandleRef)
  | methodEnd (m : Member)
  | finish
  deriving Repr

namespace WalkEvent

def memberText (m : Member) : String :=
  s!"{m.name} {m.descriptor} {Hex.lower 4 m.access.toNat}" ++
    if m.isStatic then " static" else ""

def targetText (t : MemberRef) : String := s!"{t.owner}.{t.name} {t.descriptor}"

def handleText (h : HandleRef) : String :=
  let letter := if h.isField then 'f' else 'm'
  s!"{h.kind}{letter}:{targetText h.target}"

def optionText (name : Option String) : String := name.getD "-"

def listText (texts : List String) : String := "[" ++ ",".intercalate texts ++ "]"

def kindText : ReferenceKind → String
  | .nestHost => "NestHost"
  | .nestMember => "NestMember"
  | .permittedSubclass => "PermittedSubclass"

def text : WalkEvent → String
  | .header h =>
    s!"header {h.name} extends {optionText h.superName} implements {listText h.interfaces}"
  | .annotationOnClass d n => s!"class_annotation {d} {n}"
  | .outerClass link =>
    match link.method with
    | some s => s!"outer {link.owner} {s.name} {s.descriptor}"
    | none => s!"outer {link.owner} -"
  | .innerClass link =>
    s!"inner {link.inner} {optionText link.outer} {optionText link.simpleName}"
  | .classReference kind name => s!"reference {kindText kind} {name}"
  | .field m => s!"field {memberText m}"
  | .annotationOnField m d => s!"field_annotation {m.name} {d}"
  | .fieldEnd m => s!"field_end {m.name}"
  | .method m => s!"method {memberText m}"
  | .annotationOnMethod m d => s!"method_annotation {m.name} {d}"
  | .code m => s!"code {m.name}"
  | .invoke op t =>
    s!"invoke {Hex.lower 2 op.toNat} {targetText t}" ++ if t.isInterface then " interface" else ""
  | .access op t => s!"access {Hex.lower 2 op.toNat} {targetText t}"
  | .invokeDynamic hs => s!"indy {listText (hs.map handleText)}"
  | .methodEnd m => s!"method_end {m.name}"
  | .finish => "end"

end WalkEvent

/-- A class annotation to be replaced, and the strings that its element is set to. -/
structure Replacement where
  descriptor : String
  element : String
  strings : List String
  deriving Repr

/-- The names by which a scripted walk decides. -/
structure Script where
  /-- Descriptors of annotations to discard. -/
  strip : List String := []
  /-- Classes whose links are discarded. -/
  drop : List String := []
  deleteFields : List String := []
  /-- Methods whose bodies are not walked. -/
  skipCode : List String := []
  /-- Fields whose accesses are neutralized. -/
  neutralize : List String := []
  delete : List String := []
  stub : List String := []
  /-- Event texts after which the class counts as discarded. -/
  discardAfter : List String := []
  replace : List Replacement := []
  deriving Repr

namespace Script

/-- The events so far, and the class annotations seen among them. -/
structure State where
  events : Array WalkEvent := #[]
  seen : List (String × AnnotationEntry) := []

def record (e : WalkEvent) : StateM State Unit :=
  modify fun s => { s with events := s.events.push e }

def discardIf (names : List String) (name : String) : Disposition :=
  if names.contains name then .discard else .keep

/-- The replaced annotations, in the order of the script; those not seen are left out. -/
def replacements (seen : List (String × AnnotationEntry)) :
    List Replacement → ConstantPool.Extension (List AnnotationEntry)
  | [] => pure []
  | r :: rs => do
    match seen.lookup r.descriptor with
    | none => replacements seen rs
    | some a =>
      let a ← a.setElement r.element (← ElementValue.ofStrings r.strings)
      return a :: (← replacements seen rs)

def visitor (s : Script) : Visitor State where
  header h := record (.header h)
  annotationOnClass d a := do
    record (.annotationOnClass d a.elements.length)
    modify fun state => { state with seen := state.seen ++ [(d, a)] }
    return discardIf s.strip d
  outerClass link := record (.outerClass link)
  innerClass link := do
    record (.innerClass link)
    return discardIf s.drop link.inner
  classReference kind name := do
    record (.classReference kind name)
    return discardIf s.drop name
  isDiscarded state := state.events.any fun e => s.discardAfter.contains e.text
  field m := record (.field m)
  annotationOnField m d := do
    record (.annotationOnField m d)
    return discardIf s.strip d
  fieldEnd m := do
    record (.fieldEnd m)
    return discardIf s.deleteFields m.name
  method m := record (.method m)
  annotationOnMethod m d := do
    record (.annotationOnMethod m d)
    return discardIf s.strip d
  code m := do
    record (.code m)
    return !s.skipCode.contains m.name
  invoke _ op target := record (.invoke op target)
  access _ op target := do
    record (.access op target)
    return if s.neutralize.contains target.name then Neutral.replacement? op target.descriptor
      else none
  invokeDynamic _ handles := record (.invokeDynamic handles)
  methodEnd m := do
    record (.methodEnd m)
    return if s.delete.contains m.name then .delete
      else if s.stub.contains m.name then .stub
      else .keep
  finish pool := do
    Walk.visit (record .finish)
    match (replacements (← get).seen s.replace).run pool with
    | .ok replaced pool => return (replaced, pool)
    | .error fault _ => throw (.unnamed fault)

end Script

end JarPruning
