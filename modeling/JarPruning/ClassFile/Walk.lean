import JarPruning.Bytecode.Bootstrap
import JarPruning.ClassFile.Visitor

/-!
Walking a class with a visitor and applying its decisions. What the visitor does not touch is
written back as it was; a stub or a replaced annotation is the only thing that adds constants.
-/
namespace JarPruning.Walk

variable {σ α β : Type}

/-- A walk keeps the visitor's state even when it fails. -/
abbrev Step (σ α : Type) := EStateM Fault σ α

def check {ε : Type} (x : Except ε α) : EStateM ε σ α :=
  match x with
  | .ok a => pure a
  | .error e => throw e

def visit {ε : Type} (x : StateM σ α) : EStateM ε σ α := fun s =>
  let (a, s) := x.run s
  .ok a s

/-- Asks about each item in turn and keeps those that are not discarded. -/
def retain (ask : α → Step σ Disposition) : List α → Step σ (List α)
  | [] => pure []
  | a :: as => do
    let answer ← ask a
    let kept ← retain ask as
    return match answer with
      | .keep => a :: kept
      | .discard => kept

/-- Reads `count` items, asking about each before the next is read. -/
def retainRead (read : Reader α) (ask : α → StateM σ Disposition) :
    (count : Nat) → Cursor → Step σ (List α)
  | 0, _ => pure []
  | count + 1, cursor => do
    let (a, cursor) ← check (read.run cursor)
    let answer ← visit (ask a)
    let kept ← retainRead read ask count cursor
    return match answer with
      | .keep => a :: kept
      | .discard => kept

/-! Annotation tables. -/

/-- The attribute without the discarded annotations, none if that emptied it, and whether any was
discarded. -/
def annotationTable (pool : ConstantPool) (decide : String → AnnotationEntry → StateM σ Disposition)
    (a : Attribute) : Step σ (Option Attribute × Bool) := do
  let table ← check (AnnotationEntry.readTable a.payload)
  let ask (entry : AnnotationEntry) : Step σ Disposition := do
    visit (decide (← check (entry.descriptor pool)) entry)
  let kept ← retain ask table
  return if kept.length = table.length then (some a, false)
    else if kept.isEmpty then (none, true)
    else (some { a with payload := AnnotationEntry.tableBytes kept }, true)

def annotationTables (pool : ConstantPool)
    (decide : String → AnnotationEntry → StateM σ Disposition) :
    List Attribute → Step σ (List Attribute × Bool)
  | [] => pure ([], false)
  | a :: as => do
    let (a?, changed) ←
      if a.isAnnotations pool then annotationTable pool decide a else pure (some a, false)
    let (as, later) ← annotationTables pool decide as
    return (a?.toList ++ as, changed || later)

/-! Links to other classes. -/

def optionalIndex (index : UInt16) (resolve : UInt16 → Except Fault α) :
    Except Fault (Option α) :=
  if index = 0 then .ok none else (resolve index).map some

def readOuterLink (pool : ConstantPool) : Reader OuterLink := do
  let owner ← pool.className (← Reader.word16)
  let method ← optionalIndex (← Reader.word16) pool.nameAndType
  return ⟨owner, method⟩

/-- A line of a table: its bytes, and what they mean. -/
structure Row (α : Type) where
  raw : List UInt8
  value : α
  deriving Repr

def innerLink (pool : ConstantPool) : List UInt8 → Except Fault InnerLink
  | a :: b :: c :: d :: e :: f :: _ => do
    let index (high low : UInt8) := UInt16.ofNat (BigEndian.value [high, low])
    let inner ← pool.className (index a b)
    let outer ← optionalIndex (index c d) pool.className
    let simpleName ← optionalIndex (index e f) pool.utf8
    return ⟨inner, outer, simpleName⟩
  | _ => .error ⟨0, .unexpectedEnd 8⟩

def readInnerRow (pool : ConstantPool) : Reader (Row InnerLink) := do
  let raw ← Reader.take 8
  return ⟨raw, ← innerLink pool raw⟩

def readReferenceRow (pool : ConstantPool) : Reader (Row String) := do
  let index ← Reader.word16
  return ⟨BigEndian.word16 index, ← pool.className index⟩

/-- A counted table without the discarded rows, and whether any was discarded. -/
def rowTable (read : Reader (Row α)) (ask : α → StateM σ Disposition) (a : Attribute) :
    Step σ (Attribute × Bool) := do
  let (count, cursor) ← check ((Reader.number 2).run ⟨a.payload, 0⟩)
  let kept ← retainRead read (fun row => ask row.value) count cursor
  return if kept.length = count then (a, false)
    else ({ a with payload := countedBytes Row.raw kept }, true)

def link (v : Visitor σ) (pool : ConstantPool) (a : Attribute) : Step σ (Attribute × Bool) := do
  let name ← check (pool.utf8 a.name)
  if name = "EnclosingMethod" then do
    visit (v.outerClass (← check ((readOuterLink pool).front a.payload)))
    return (a, false)
  else if name = "InnerClasses" then rowTable (readInnerRow pool) v.innerClass a
  else if name = "NestHost" then do
    let host ← check ((readReferenceRow pool).front a.payload)
    let _ ← visit (v.classReference .nestHost host.value)
    return (a, false)
  else if name = "NestMembers" then
    rowTable (readReferenceRow pool) (v.classReference .nestMember) a
  else if name = "PermittedSubclasses" then
    rowTable (readReferenceRow pool) (v.classReference .permittedSubclass) a
  else return (a, false)

def links (v : Visitor σ) (pool : ConstantPool) : List Attribute → Step σ (List Attribute × Bool)
  | [] => pure ([], false)
  | a :: as => do
    let (a, changed) ← link v pool a
    let (as, later) ← links v pool as
    return (a :: as, changed || later)

/-! Fields. -/

def field (v : Visitor σ) (pool : ConstantPool) (entry : MemberEntry) :
    Step σ (Option MemberEntry × Bool) := do
  let member ← check (entry.resolve pool)
  visit (v.field member)
  let (attributes, stripped) ←
    annotationTables pool (fun d _ => v.annotationOnField member d) entry.attributes
  match ← visit (v.fieldEnd member) with
  | .keep => return (some { entry with attributes }, stripped)
  | .discard => return (none, true)

def fields (v : Visitor σ) (pool : ConstantPool) :
    List MemberEntry → Step σ (List MemberEntry × Bool)
  | [] => pure ([], false)
  | f :: fs => do
    let (f?, changed) ← field v pool f
    let (fs, later) ← fields v pool fs
    return (f?.toList ++ fs, changed || later)

/-! Methods. -/

/-- Bytes to put at an offset of a method's bytecode. -/
structure Patch where
  offset : Nat
  bytes : Vector UInt8 3
  deriving DecidableEq, Repr

/-- The method handles among the constants that a bootstrap method names. -/
def handles (pool : ConstantPool) : List UInt16 → Except Fault (List HandleRef)
  | [] => .ok []
  | i :: is => do
    let handle ← pool.methodHandle? i
    return handle.toList ++ (← handles pool is)

/-- The handles that a dynamic call site binds. -/
def callSite (pool : ConstantPool) (bootstraps : List Bootstrap) (i : Instruction) :
    Except Fault (List HandleRef) := do
  let (slot, _) ← pool.invokeDynamic (← i.operand16)
  match bootstraps[slot.toNat]? with
  | none => throw ⟨i.offset, .bootstrapMissing slot⟩
  | some b => handles pool b.indices

def instruction (v : Visitor σ) (pool : ConstantPool) (bootstraps : List Bootstrap)
    (member : Member) (i : Instruction) : Step σ (Option Patch) := do
  if Opcode.isFieldAccess i.opcode then do
    let target ← check (i.operand16 >>= pool.memberRef)
    return (← visit (v.access member i.opcode target)).map (⟨i.offset, ·⟩)
  else if Opcode.isInvoke i.opcode then do
    let target ← check (i.operand16 >>= pool.memberRef)
    visit (v.invoke member i.opcode target)
    return none
  else if i.opcode = Opcode.invokedynamic then do
    visit (v.invokeDynamic member (← check (callSite pool bootstraps i)))
    return none
  else return none

def instructions (v : Visitor σ) (pool : ConstantPool) (bootstraps : List Bootstrap)
    (member : Member) : List Instruction → Step σ (List Patch)
  | [] => pure []
  | i :: is => do
    let patch ← instruction v pool bootstraps member i
    let patches ← instructions v pool bootstraps member is
    return patch.toList ++ patches

/-- The patches of a body, if the visitor wants it walked. -/
def body (v : Visitor σ) (pool : ConstantPool) (bootstraps : List Bootstrap) (member : Member)
    (payload : List UInt8) : Step σ (List Patch) := do
  if ← visit (v.code member) then do
    let scanned ← check do Instruction.scan (← Body.ofPayload payload).code
    instructions v pool bootstraps member scanned
  else return []

def applyPatches (payload : List UInt8) (patches : List Patch) : List UInt8 :=
  patches.foldl (fun payload p => Body.patch payload p.offset p.bytes.toList) payload

/-- The position of the first `Code` attribute. -/
def codePosition? (pool : ConstantPool) (attributes : List Attribute) : Option Nat :=
  attributes.findIdx? (·.isNamed pool "Code")

def editPayload (position : Nat) (edit : List UInt8 → List UInt8) (m : MemberEntry) :
    MemberEntry :=
  { m with attributes := m.attributes.modify position fun a => { a with payload := edit a.payload } }

/-- A kept method; `stubAt` is the position of the `Code` attribute to be stubbed. -/
structure KeptMethod where
  entry : MemberEntry
  stubAt : Option Nat
  deriving Repr

def method (v : Visitor σ) (pool : ConstantPool) (bootstraps : List Bootstrap)
    (entry : MemberEntry) : Step σ (Option KeptMethod × Bool) := do
  let member ← check (entry.resolve pool)
  visit (v.method member)
  let (attributes, stripped) ←
    annotationTables pool (fun d _ => v.annotationOnMethod member d) entry.attributes
  let entry := { entry with attributes }
  let code := codePosition? pool attributes
  let patches ← match code.bind (attributes[·]?) with
    | some a => body v pool bootstraps member a.payload
    | none => pure []
  match ← visit (v.methodEnd member) with
  | .delete => return (none, true)
  | .stub => return (some ⟨entry, code⟩, code.isSome || stripped)
  | .keep =>
    match code with
    | some position =>
      return (some ⟨editPayload position (applyPatches · patches) entry, none⟩,
        !patches.isEmpty || stripped)
    | none => return (some ⟨entry, none⟩, stripped)

def methods (v : Visitor σ) (pool : ConstantPool) (bootstraps : List Bootstrap) :
    List MemberEntry → Step σ (List KeptMethod × Bool)
  | [] => pure ([], false)
  | m :: ms => do
    let (m?, changed) ← method v pool bootstraps m
    let (ms, later) ← methods v pool bootstraps ms
    return (m?.toList ++ ms, changed || later)

/-- Writes the stub that a kept method asks for. -/
def installStub (m : KeptMethod) : EStateM Stub.Fault ConstantPool MemberEntry := do
  match m.stubAt with
  | none => return m.entry
  | some position =>
    match (← get).utf8 m.entry.descriptor with
    | .error fault => throw (.format fault)
    | .ok descriptor =>
      let payload ← Stub.payload descriptor (Access.isStatic m.entry.access)
      return editPayload position (fun _ => payload) m.entry

def installStubs : List KeptMethod → EStateM Stub.Fault ConstantPool (List MemberEntry)
  | [] => pure []
  | m :: ms => do
    let entry ← installStub m
    return entry :: (← installStubs ms)

/-! Replaced class annotations. -/

/-- The table with the first annotation of the new one's type replaced; none if there is none. -/
def replaceIn? (new : AnnotationEntry) : List AnnotationEntry → Option (List AnnotationEntry)
  | [] => none
  | a :: as =>
    if a.typeIndex = new.typeIndex then some (new :: as) else (replaceIn? new as).map (a :: ·)

/-- Replaces the first class annotation of the new one's type, and tells whether it differs. -/
def replaceAnnotations (pool : ConstantPool) (new : AnnotationEntry) :
    List Attribute → Except Fault (List Attribute × Bool)
  | [] => .ok ([], false)
  | a :: as => do
    if a.isAnnotations pool then
      let table ← AnnotationEntry.readTable a.payload
      match replaceIn? new table with
      | some replaced =>
        if replaced = table then return (a :: as, false)
        else return ({ a with payload := AnnotationEntry.tableBytes replaced } :: as, true)
      | none =>
        let (as, changed) ← replaceAnnotations pool new as
        return (a :: as, changed)
    else
      let (as, changed) ← replaceAnnotations pool new as
      return (a :: as, changed)

def replaceAll (pool : ConstantPool) : List AnnotationEntry → List Attribute →
    Except Fault (List Attribute × Bool)
  | [], attributes => .ok (attributes, false)
  | new :: news, attributes => do
    let (attributes, changed) ← replaceAnnotations pool new attributes
    let (attributes, later) ← replaceAll pool news attributes
    return (attributes, changed || later)

/-! The whole class. -/

/-- What a walk makes of a class. -/
inductive Outcome where
  | discarded
  | rewritten (c : ClassFile) (changed : Bool)
  deriving Repr

def header (c : ClassFile) : Except Fault ClassHeader := do
  let superName ← optionalIndex c.superClass c.pool.className
  let interfaces ← c.interfaces.mapM c.pool.className
  return ⟨← c.name, superName, interfaces⟩

def bootstraps (c : ClassFile) : Except Fault (List Bootstrap) :=
  match c.attributes.find? (·.isNamed c.pool "BootstrapMethods") with
  | some a => Bootstrap.readTable a.payload
  | none => .ok []

def members (v : Visitor σ) (c : ClassFile) :
    Step σ (List MemberEntry × List KeptMethod × Bool) := do
  let (fields, fieldsChanged) ← fields v c.pool c.fields
  let bootstraps ← check (bootstraps c)
  let (methods, methodsChanged) ← methods v c.pool bootstraps c.methods
  return (fields, methods, fieldsChanged || methodsChanged)

/-- Stubs, the visitor's end, and the annotations it replaces. -/
def finish (v : Visitor σ) (name : String) (c : ClassFile) (methods : List KeptMethod)
    (changed : Bool) : EStateM ClassFailure σ Outcome := do
  match (installStubs methods).run c.pool with
  | .error fault _ => throw (.stub name fault)
  | .ok methods pool =>
    let (replacements, pool) ← v.finish pool
    if v.isDiscarded (← get) then return .discarded
    let (attributes, replaced) ←
      check ((replaceAll pool replacements c.attributes).mapError (.malformed name))
    return .rewritten { c with pool, methods, attributes } (changed || replaced)

/-- Walks a class. Faults name the class. -/
def run (v : Visitor σ) (c : ClassFile) : EStateM ClassFailure σ Outcome := do
  let name ← check (c.name.mapError (.malformed "<unknown>"))
  let fail : Fault → ClassFailure := .malformed name
  visit (v.header (← check ((header c).mapError fail)))
  let (attributes, stripped) ←
    (annotationTables c.pool v.annotationOnClass c.attributes).adaptExcept fail
  if v.isDiscarded (← get) then return .discarded
  let (attributes, unlinked) ← (links v c.pool attributes).adaptExcept fail
  if v.isDiscarded (← get) then return .discarded
  let c := { c with attributes }
  let (fields, methods, changed) ← (members v c).adaptExcept fail
  finish v name { c with fields } methods (stripped || unlinked || changed)

end JarPruning.Walk
