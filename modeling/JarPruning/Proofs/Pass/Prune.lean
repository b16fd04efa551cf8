import JarPruning.Pass.Basic
import JarPruning.Proofs.Pass.Reading

/-!
A pass as a function: from what a class says and what is gone, which members go, which bodies are
replaced, and what is remembered. Nothing is logged, and the fate of a member is one decision.
-/
namespace JarPruning

/-- The part of a session that decides: what the archive has lost and what the class remembers. -/
structure Ledger where
  tracker : Tracker
  memory : Memory

def Session.ledger (s : Session) : Ledger := ⟨s.tracker, s.memory⟩

namespace Ledger

/-- Gone already, or due in the class `self`. -/
def methodGone (l : Ledger) (self owner : String) (m : Signature) : Bool :=
  l.tracker.containsMethod owner m || (owner == self && l.memory.dueMethods.contains m)

def fieldGone (l : Ledger) (self owner name : String) : Bool :=
  let key : FieldKey := ⟨name, "()"⟩
  l.tracker.containsField owner key || (owner == self && l.memory.dueFields.contains key)

def handleGone (l : Ledger) (self : String) (h : HandleRef) : Bool :=
  if h.isField then l.fieldGone self h.target.owner h.target.name
  else l.methodGone self h.target.owner h.target.toSignature

def expire (l : Ledger) : Ledger := { l with memory := l.memory.expire }

def dropField (l : Ledger) (self : String) (f : Member) : Ledger :=
  let target : FieldTarget := { name := f.name, descriptor := f.descriptor }
  { tracker := l.tracker.addField self target
    memory := { l.memory with dueFields := (l.memory.dueFields.remove target.key).2 } }

/-- The companions that go with a method. -/
def companions (self : String) (m : Member) : List Member :=
  if m.suffix = "" then (Pruner.companion? self m).toList else []

def dropMethod (l : Ledger) (self : String) (m : Member) : Ledger where
  tracker := l.tracker.addMethod self m.toSignature
  memory := { l.memory with
    dueMethods :=
      (l.memory.dueMethods.remove m.toSignature).2.insertAll (companions self m) }

def stubMethod (l : Ledger) (m : Member) : Ledger :=
  { l with memory := { l.memory with stubbed := (l.memory.stubbed.insert m).2 } }

def schedule (l : Ledger) (changes : Metadata.Changes) : Ledger :=
  { l with memory := { l.memory with
    dueMethods := l.memory.dueMethods.insertAll changes.methods
    dueFields := l.memory.dueFields.insertAll changes.fields } }

end Ledger

def Policy.strips (p : Policy) (descriptor : String) : Bool := p.role? descriptor = some .remove

def Policy.deletes (p : Policy) (descriptor : String) : Bool := p.role? descriptor = some .delete

def Policy.stubs (p : Policy) (descriptor : String) : Bool := p.role? descriptor = some .stub

/-- Whether some annotation asks for something. -/
def Marked.anyOf (ask : String → Bool) (ms : List Marked) : Bool :=
  (Marked.all ms).any fun e => ask e.2

namespace Link

/-- Whether a class cannot outlive what the link leads to. -/
def dooms (t : Tracker) (self : String) : Link → Bool
  | .outer link => t.containsClass link.owner || link.method.any (t.containsMethod link.owner)
  | .inner rows =>
    rows.any fun row => row.value.inner = self && row.value.outer.any t.containsClass
  | .host name => t.containsClass name
  | .listed _ | .none => false

/-- The attribute without the rows that lead to classes that are gone. -/
def thin (t : Tracker) (self : String) (a : Attribute) : Link → Attribute × Bool
  | .inner rows =>
    thinRows (fun row => row.inner = self || !t.containsClass row.inner) rows a
  | .listed rows => thinRows (fun name => !t.containsClass name) rows a
  | .outer _ | .host _ | .none => (a, false)

end Link

namespace Site

/-- Whether a method cannot outlive what the instruction refers to. A constructor outlives the
fields it sets. -/
def isFatal (l : Ledger) (self : String) (constructs : Bool) : Site → Bool
  | .access _ t => !constructs && l.fieldGone self t.owner t.name
  | .invoke t => l.methodGone self t.owner t.toSignature
  | .bind hs => hs.any (l.handleGone self)
  | .plain => false

def patch? (l : Ledger) (self : String) (i : Instruction) : Site → Option Walk.Patch
  | .access op t =>
    if l.fieldGone self t.owner t.name then
      (Neutral.replacement? op t.descriptor).map (⟨i.offset, ·⟩)
    else none
  | .invoke _ | .bind _ | .plain => none

end Site

/-- What a pass makes of a method. -/
inductive Fate where
  | delete
  | stub
  | keep (patches : List Walk.Patch)

namespace Prune

open Walk (KeptMethod Patch Outcome)

/-! Fields. -/

def field (policy : Policy) (self : String) (pool : ConstantPool) (l : Ledger)
    (f : MemberEntry) : Except Fault (Ledger × Option MemberEntry × Bool) := do
  let member ← f.resolve pool
  let ms ← marks pool f.attributes
  if l.fieldGone self self member.name || Marked.anyOf policy.deletes ms then
    return (l.dropField self member, none, true)
  else
    let (attributes, stripped) := Marked.stripAll policy.strips ms
    return (l, some { f with attributes }, stripped)

def fields (policy : Policy) (self : String) (pool : ConstantPool) :
    Ledger → List MemberEntry → Except Fault (Ledger × List MemberEntry × Bool)
  | l, [] => return (l, [], false)
  | l, f :: fs => do
    let (l, f?, changed) ← field policy self pool l f
    let (l, fs, later) ← fields policy self pool l fs
    return (l, f?.toList ++ fs, changed || later)

/-! Methods. -/

/-- The fate of a method with a body to walk. -/
def bodyFate (l : Ledger) (self : String) (constructs : Bool)
    (ss : List (Instruction × Site)) : Fate :=
  if ss.any fun s => s.2.isFatal l self constructs then .delete
  else .keep (if constructs then ss.filterMap fun s => s.2.patch? l self s.1 else [])

/-- Whether a method's body is to be replaced. -/
def asksForStub (policy : Policy) (m : Member) (ms : List Marked) : Bool :=
  !m.isConstructor && Marked.anyOf policy.stubs ms

def fate (policy : Policy) (self : String) (pool : ConstantPool) (bootstraps : List Bootstrap)
    (l : Ledger) (m : Member) (ms : List Marked) (code : Option Attribute) :
    Except Fault Fate :=
  if l.methodGone self self m.toSignature || Marked.anyOf policy.deletes ms then return .delete
  else if l.memory.stubbed.contains m.toSignature then return .keep []
  else if asksForStub policy m ms then return .stub
  else
    match code with
    | some a => do return bodyFate l self m.isConstructor (← sites pool bootstraps a.payload)
    | none => return .keep []

/-- A kept method with its body overwritten in places. -/
def patched (entry : MemberEntry) (code : Option Nat) (patches : List Patch) : MemberEntry :=
  match code with
  | some position => Walk.editPayload position (Walk.applyPatches · patches) entry
  | none => entry

def method (policy : Policy) (self : String) (pool : ConstantPool) (bootstraps : List Bootstrap)
    (l : Ledger) (entry : MemberEntry) : Except Fault (Ledger × Option KeptMethod × Bool) := do
  let member ← entry.resolve pool
  let ms ← marks pool entry.attributes
  let (attributes, stripped) := Marked.stripAll policy.strips ms
  let entry := { entry with attributes }
  let code := Walk.codePosition? pool attributes
  match ← fate policy self pool bootstraps l member ms (code.bind (attributes[·]?)) with
  | .delete => return (l.dropMethod self member, none, true)
  | .stub => return (l.stubMethod member, some ⟨entry, code⟩, code.isSome || stripped)
  | .keep patches =>
    return (l, some ⟨patched entry code patches, none⟩,
      code.isSome && !patches.isEmpty || stripped)

def methods (policy : Policy) (self : String) (pool : ConstantPool)
    (bootstraps : List Bootstrap) :
    Ledger → List MemberEntry → Except Fault (Ledger × List KeptMethod × Bool)
  | l, [] => return (l, [], false)
  | l, m :: ms => do
    let (l, m?, changed) ← method policy self pool bootstraps l m
    let (l, ms, later) ← methods policy self pool bootstraps l ms
    return (l, m?.toList ++ ms, changed || later)

/-! Metadata. -/

/-- The payload of a metadata annotation without the records whose members are gone. -/
def swept (self : String) (t : Tracker) (kind : Metadata.Kind) (d1 d2 : List String) :
    Except ClassFailure (Metadata.Payload × Metadata.Changes) :=
  ((Metadata.Payload.decode kind d1 d2).bind (·.sweep self t)).mapError (.corruptMetadata self)

/-- The annotation that replaces the metadata annotation, if a record goes. -/
def metadata (self : String) (l : Ledger) (pool : ConstantPool) (a : AnnotationEntry) :
    Except ClassFailure (Ledger × List AnnotationEntry × ConstantPool) := do
  let (kind, d1, d2) ← (Pruner.metadataParts pool a).mapError (.malformed self)
  if !kind.isEditable || d1.isEmpty then return (l, [], pool)
  else
    let (payload, changes) ← swept self l.tracker kind d1 d2
    if changes.isEmpty then return (l, [], pool)
    else
      match (Pruner.repack a payload.encode).run pool with
      | .ok a pool => return (l.schedule changes, [a], pool)
      | .error fault _ => throw (.malformed self fault)

def replacements (self : String) (l : Ledger) (pool : ConstantPool) :
    Option AnnotationEntry → Except ClassFailure (Ledger × List AnnotationEntry × ConstantPool)
  | some a => metadata self l pool a
  | none => return (l, [], pool)

/-! The class. -/

def stripsFromClass (policy : Policy) (descriptor : String) : Bool :=
  descriptor ≠ Pruner.metadataDescriptor && policy.strips descriptor

def deletesClass (policy : Policy) (descriptor : String) : Bool :=
  descriptor ≠ Pruner.metadataDescriptor && policy.deletes descriptor

def headerDoomed (t : Tracker) (h : ClassHeader) : Bool :=
  t.containsClass h.name || (h.superName.toList ++ h.interfaces).any t.containsClass

/-- The last metadata annotation of a class. -/
def metadataOf (ms : List Marked) : Option AnnotationEntry :=
  (((Marked.all ms).filter fun e => e.2 = Pruner.metadataDescriptor).map (·.1)).getLast?

def readLinks (pool : ConstantPool) (attributes : List Attribute) :
    Except Fault (List (Attribute × Link)) :=
  attributes.mapM fun a => do return (a, ← Link.read pool a)

/-- The members, and what is left behind for stubs and metadata. -/
def members (policy : Policy) (self : String) (l : Ledger) (c : ClassFile) :
    Except Fault (Ledger × List MemberEntry × List KeptMethod × Bool) := do
  let (l, fields, fieldsChanged) ← fields policy self c.pool l c.fields
  let bootstraps ← Walk.bootstraps c
  let (l, methods, methodsChanged) ← methods policy self c.pool bootstraps l c.methods
  return (l, fields, methods, fieldsChanged || methodsChanged)

def finish (self : String) (l : Ledger) (c : ClassFile) (metadata : Option AnnotationEntry)
    (methods : List KeptMethod) (changed : Bool) : Except ClassFailure (Ledger × Outcome) := do
  match (Walk.installStubs methods).run c.pool with
  | .error fault _ => throw (.stub self fault)
  | .ok methods pool =>
    let (l, new, pool) ← replacements self l pool metadata
    let (attributes, replaced) ←
      (Walk.replaceAll pool new c.attributes).mapError (.malformed self)
    return (l, .rewritten { c with pool, methods, attributes } (changed || replaced))

def run (policy : Policy) (l : Ledger) (c : ClassFile) :
    Except ClassFailure (Ledger × Outcome) := do
  let name ← c.name.mapError (.malformed "<unknown>")
  let h ← (Walk.header c).mapError (.malformed name)
  let ms ← (marks c.pool c.attributes).mapError (.malformed name)
  let (attributes, stripped) := Marked.stripAll (stripsFromClass policy) ms
  if headerDoomed l.tracker h || Marked.anyOf (deletesClass policy) ms then
    return (l, .discarded)
  else
    let links ← (readLinks c.pool attributes).mapError (.malformed name)
    if links.any fun p => p.2.dooms l.tracker name then return (l, .discarded)
    else
      let thinned := links.map fun p => p.2.thin l.tracker name p.1
      let c := { c with attributes := thinned.map (·.1) }
      let (l, fields, methods, changed) ←
        (members policy name l c).mapError (.malformed name)
      finish name l { c with fields } (metadataOf ms) methods
        (stripped || thinned.any (·.2) || changed)

end Prune

end JarPruning
