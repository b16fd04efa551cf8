import JarPruning.Bytecode.Neutral
import JarPruning.ClassFile.Walk
import JarPruning.Config.Policy
import JarPruning.Log
import JarPruning.Member.GraceSet

/-!
The visitor that prunes a class: it applies the policy, follows references to members that are
gone, and keeps the metadata in step with the members. What one walk cannot settle is left in the
memory of the class for the next.
-/
namespace JarPruning

/-- What is carried from one pass over a class to the next. -/
structure Memory where
  /-- Methods that have to go although nothing in the bytecode says so. -/
  dueMethods : GraceSet Member := {}
  /-- Methods whose bodies are stubs already; these never expire. -/
  stubbed : GraceSet Member := {}
  dueFields : GraceSet FieldTarget := {}
  deriving Repr

/-- Starts a pass: members that were due and did not turn up lose their grace. -/
def Memory.expire (m : Memory) : Memory :=
  { m with dueMethods := m.dueMethods.expire, dueFields := m.dueFields.expire }

/-- What all classes of an archive share. -/
structure World where
  tracker : Tracker := {}
  log : Array LogEvent := #[]
  deriving Repr

/-- The shared world and the memory of the class at hand. -/
structure Session extends World where
  memory : Memory := {}
  deriving Repr

inductive MethodAction where
  | keep | delete | stub | alreadyStubbed
  deriving DecidableEq, Repr

namespace Pruner

/-- The session and what the walk has found out so far. -/
structure State extends Session where
  className : String := ""
  unwanted : Bool := false
  metadata : Option AnnotationEntry := none
  deleteField : Bool := false
  action : MethodAction := .keep

def log (e : LogEvent) : StateM State Unit := modify fun s => { s with log := s.log.push e }

def discardClass : StateM State Unit := modify fun s => { s with unwanted := true }

/-- Gone already, or due in the class at hand. -/
def State.isUnwantedMethod (s : State) (owner : String) (m : Signature) : Bool :=
  s.tracker.containsMethod owner m ||
    (owner == s.className && s.memory.dueMethods.contains m)

def State.isUnwantedField (s : State) (owner name : String) : Bool :=
  let key : FieldKey := ⟨name, "()"⟩
  s.tracker.containsField owner key ||
    (owner == s.className && s.memory.dueFields.contains key)

/-! The class. -/

def header (h : ClassHeader) : StateM State Unit := do
  modify fun s => { s with className := h.name }
  let tracker := (← get).tracker
  if tracker.containsClass h.name then discardClass
  else
    match (h.superName.toList ++ h.interfaces).find? tracker.containsClass with
    | some parent =>
      log (.unwantedParent h.name parent)
      discardClass
    | none => pure ()

def metadataDescriptor : String := "Lkotlin/Metadata;"

def annotationOnClass (policy : Policy) (descriptor : String) (a : AnnotationEntry) :
    StateM State Disposition := do
  let c := (← get).className
  if descriptor = metadataDescriptor then
    modify fun s => { s with metadata := some a }
    return .keep
  else
    match policy.role? descriptor with
    | some .delete =>
      discardClass
      return .keep
    | some .remove =>
      log (.strippedClass c descriptor)
      return .discard
    | some .stub =>
      log (.classNotStubbed c descriptor)
      return .keep
    | none => return .keep

def outerClass (link : OuterLink) : StateM State Unit := do
  let s ← get
  if s.tracker.containsClass link.owner || link.method.any (s.tracker.containsMethod link.owner) then
    log (.enclosed s.className link.owner)
    discardClass

def innerClass (link : InnerLink) : StateM State Disposition := do
  let s ← get
  if link.inner = s.className then
    if link.outer.any s.tracker.containsClass then discardClass
    return .keep
  else if s.tracker.containsClass link.inner then
    log (.droppedInner s.className link.inner link.simpleName)
    return .discard
  else return .keep

def classReference (kind : ReferenceKind) (name : String) : StateM State Disposition := do
  if (← get).tracker.containsClass name then
    match kind with
    | .nestHost =>
      discardClass
      return .keep
    | .nestMember | .permittedSubclass => return .discard
  else return .keep

/-! Fields. -/

def field (f : Member) : StateM State Unit :=
  modify fun s => { s with deleteField := s.isUnwantedField s.className f.name }

def annotationOnField (policy : Policy) (f : Member) (descriptor : String) :
    StateM State Disposition := do
  let c := (← get).className
  match policy.role? descriptor with
  | some .delete =>
    modify fun s => { s with deleteField := true }
    return .keep
  | some .remove =>
    log (.strippedField c f.name descriptor)
    return .discard
  | some .stub =>
    log (.fieldNotStubbed c f.name descriptor)
    return .keep
  | none => return .keep

def fieldEnd (f : Member) : StateM State Disposition := do
  let s ← get
  if s.deleteField then
    let target : FieldTarget := { name := f.name, descriptor := f.descriptor }
    log (.deletedField s.className target)
    modify fun s => { s with
      tracker := s.tracker.addField s.className target
      memory := { s.memory with dueFields := (s.memory.dueFields.remove target.key).2 } }
    return .discard
  else return .keep

/-! Methods. -/

def method (m : Member) : StateM State Unit :=
  modify fun s => { s with
    action :=
      if s.isUnwantedMethod s.className m.toSignature then .delete
      else if s.memory.stubbed.contains m.toSignature then .alreadyStubbed
      else .keep }

def setAction (action : MethodAction) : StateM State Unit := modify fun s => { s with action }

def annotationOnMethod (policy : Policy) (m : Member) (descriptor : String) :
    StateM State Disposition := do
  let s ← get
  match policy.role? descriptor with
  | some .delete =>
    setAction .delete
    return .keep
  | some .stub =>
    if s.action = .keep then
      if m.isConstructor then log (.constructorNotStubbed s.className m.toSignature)
      else setAction .stub
    return .keep
  | some .remove =>
    log (.strippedMethod s.className m.toSignature descriptor)
    return .discard
  | none => return .keep

def code (_ : Member) : StateM State Bool := return (← get).action = .keep

/-- A method that refers to something unwanted goes too. -/
def deleteCaller (m : Member) (reference : Reference) : StateM State Unit := do
  let s ← get
  if s.action = .keep then
    log (.unwantedReference s.className m.toSignature reference)
    setAction .delete

def invoke (m : Member) (_ : UInt8) (target : MemberRef) : StateM State Unit := do
  if (← get).isUnwantedMethod target.owner target.toSignature then deleteCaller m (.invokes target)

/-- A constructor outlives the fields it sets: the access is neutralized. -/
def access (m : Member) (op : UInt8) (target : MemberRef) :
    StateM State (Option (Vector UInt8 3)) := do
  let s ← get
  if s.action = .keep ∧ s.isUnwantedField target.owner target.name then
    if m.isConstructor then
      log (.neutralized s.className m.name target)
      return Neutral.replacement? op target.descriptor
    else
      deleteCaller m (.accesses target)
      return none
  else return none

def State.isUnwantedHandle (s : State) (h : HandleRef) : Bool :=
  if h.isField then s.isUnwantedField h.target.owner h.target.name
  else s.isUnwantedMethod h.target.owner h.target.toSignature

def invokeDynamic (m : Member) (handles : List HandleRef) : StateM State Unit := do
  match handles.find? (← get).isUnwantedHandle with
  | some h => deleteCaller m (.binds h.target)
  | none => pure ()

/-- The synthetic companion that goes with a method, unless the method is synthetic itself. -/
def companion? (className : String) (m : Member) : Option Member :=
  if m.isObjectConstructor then m.defaultConstructor?
  else m.defaultFunction? (if m.isStatic then none else some className) false

def scheduleCompanion (m : Member) : StateM State Unit := do
  if m.suffix = "" then
    modify fun s => { s with memory := { s.memory with
      dueMethods := s.memory.dueMethods.insertAll (companion? s.className m).toList } }
  else log (.noCompanion m.toSignature)

def methodEnd (m : Member) : StateM State MethodDisposition := do
  let s ← get
  match s.action with
  | .delete =>
    modify fun s => { s with memory := { s.memory with
      dueMethods := (s.memory.dueMethods.remove m.toSignature).2 } }
    scheduleCompanion m
    log (.deletedMethod s.className m.toSignature)
    modify fun s => { s with tracker := s.tracker.addMethod s.className m.toSignature }
    return .delete
  | .stub =>
    log (.stubbedMethod s.className m.toSignature)
    modify fun s => { s with memory := { s.memory with
      stubbed := (s.memory.stubbed.insert m).2 } }
    return .stub
  | .alreadyStubbed | .keep => return .keep

/-! Metadata. -/

/-- The strings under a name; none if there is no such element. -/
def stringsOf (pool : ConstantPool) (a : AnnotationEntry) (name : String) :
    Except Fault (List String) := do
  return (← a.stringsElement? pool name).getD []

/-- The annotation's kind, the packed payload and the stored strings; the payload of a kind that
is not edited is not read. -/
def metadataParts (pool : ConstantPool) (a : AnnotationEntry) :
    Except Fault (Metadata.Kind × List String × List String) := do
  let kind := Metadata.Kind.ofCode ((← a.intElement? pool "k").getD 1)
  if kind.isEditable then return (kind, ← stringsOf pool a "d1", ← stringsOf pool a "d2")
  else return (kind, [], [])

def logUnedited (c : String) (kind : Metadata.Kind) : StateM State Unit :=
  match kind with
  | .unknown code => log (.unknownMetadata c code)
  | kind => log (.uneditedMetadata c kind)

def logAll (events : List LogEvent) : StateM State Unit :=
  modify fun s => { s with log := events.foldl Array.push s.log }

/-- Members of removed records are due in the next pass. -/
def schedule (changes : Metadata.Changes) : StateM State Unit :=
  modify fun s => { s with memory := { s.memory with
    dueMethods := s.memory.dueMethods.insertAll changes.methods
    dueFields := s.memory.dueFields.insertAll changes.fields } }

/-- Puts a packed payload into the annotation. -/
def repack (a : AnnotationEntry) (chunks : List String) :
    ConstantPool.Extension AnnotationEntry := do
  a.setElement "d1" (← ElementValue.ofStrings chunks)

def pruneMetadata (pool : ConstantPool) (a : AnnotationEntry) :
    EStateM ClassFailure State (List AnnotationEntry × ConstantPool) := do
  let s ← get
  let c := s.className
  let (kind, d1, d2) ← Walk.check ((metadataParts pool a).mapError (.malformed c))
  if !kind.isEditable then
    Walk.visit (logUnedited c kind)
    return ([], pool)
  else if d1.isEmpty then return ([], pool)
  else
    let swept := (Metadata.Payload.decode kind d1 d2).bind (·.sweep c s.tracker)
    let (payload, changes) ← Walk.check (swept.mapError (.corruptMetadata c))
    Walk.visit (logAll (changes.mismatches.map (.mismatch c)))
    if changes.isEmpty then return ([], pool)
    else
      Walk.visit (logAll (changes.removed.map (.removedMetadata c)))
      Walk.visit (schedule changes)
      match (repack a payload.encode).run pool with
      | .ok a pool => return ([a], pool)
      | .error fault _ => throw (.malformed c fault)

def finish (pool : ConstantPool) :
    EStateM ClassFailure State (List AnnotationEntry × ConstantPool) := do
  let s ← get
  match s.metadata with
  | some a => if s.unwanted then return ([], pool) else pruneMetadata pool a
  | none => return ([], pool)

def visitor (policy : Policy) : Visitor State where
  header := header
  annotationOnClass := annotationOnClass policy
  outerClass := outerClass
  innerClass := innerClass
  classReference := classReference
  isDiscarded := State.unwanted
  field := field
  annotationOnField := annotationOnField policy
  fieldEnd := fieldEnd
  method := method
  annotationOnMethod := annotationOnMethod policy
  code := code
  invoke := invoke
  access := access
  invokeDynamic := invokeDynamic
  methodEnd := methodEnd
  finish := finish

end Pruner

end JarPruning
