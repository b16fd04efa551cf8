import JarPruning.ClassFile.Walk

/-!
What a class says, read without a visitor: its annotations with their descriptors, its links to
other classes, and the references in its bodies.
-/
namespace JarPruning

/-- An attribute and, if it is an annotation table, its annotations with their descriptors. -/
structure Marked where
  source : Attribute
  table : Option (List (AnnotationEntry × String))

namespace Marked

def read (pool : ConstantPool) (a : Attribute) : Except Fault Marked :=
  if a.isAnnotations pool then do
    let table ← AnnotationEntry.readTable a.payload
    let named ← table.mapM fun e => do return (e, ← e.descriptor pool)
    return ⟨a, some named⟩
  else return ⟨a, none⟩

def entries (m : Marked) : List (AnnotationEntry × String) := m.table.getD []

/-- The attribute without the annotations to drop, none if that emptied it, and whether any was
dropped. -/
def strip (drop : String → Bool) (m : Marked) : Option Attribute × Bool :=
  match m.table with
  | none => (some m.source, false)
  | some table =>
    let kept := table.filter fun e => !drop e.2
    if kept.length = table.length then (some m.source, false)
    else if kept.isEmpty then (none, true)
    else (some { m.source with payload := AnnotationEntry.tableBytes (kept.map (·.1)) }, true)

def stripAll (drop : String → Bool) (ms : List Marked) : List Attribute × Bool :=
  (ms.flatMap fun m => (m.strip drop).1.toList, ms.any fun m => (m.strip drop).2)

/-- The annotations of all tables, in their order. -/
def all (ms : List Marked) : List (AnnotationEntry × String) := ms.flatMap entries

end Marked

/-- The marks of a list of attributes. -/
def marks (pool : ConstantPool) (attributes : List Attribute) : Except Fault (List Marked) :=
  attributes.mapM (Marked.read pool)

/-- What an attribute of a class says about other classes. -/
inductive Link where
  | outer (link : OuterLink)
  | inner (rows : List (Walk.Row InnerLink))
  | host (name : String)
  | listed (rows : List (Walk.Row String))
  | none

namespace Link

def rows {α : Type} (read : Reader (Walk.Row α)) (a : Attribute) :
    Except Fault (List (Walk.Row α)) :=
  (Reader.counted read).front a.payload

def read (pool : ConstantPool) (a : Attribute) : Except Fault Link := do
  let name ← pool.utf8 a.name
  if name = "EnclosingMethod" then
    return .outer (← (Walk.readOuterLink pool).front a.payload)
  else if name = "InnerClasses" then return .inner (← rows (Walk.readInnerRow pool) a)
  else if name = "NestHost" then
    return .host (← (Walk.readReferenceRow pool).front a.payload).value
  else if name = "NestMembers" then return .listed (← rows (Walk.readReferenceRow pool) a)
  else if name = "PermittedSubclasses" then
    return .listed (← rows (Walk.readReferenceRow pool) a)
  else return .none

/-- The attribute with the rows that pass `keep`, and whether any is missing. -/
def thinRows {α : Type} (keep : α → Bool) (rows : List (Walk.Row α)) (a : Attribute) :
    Attribute × Bool :=
  let kept := rows.filter fun row => keep row.value
  if kept.length = rows.length then (a, false)
  else ({ a with payload := countedBytes Walk.Row.raw kept }, true)

end Link

/-- What an instruction refers to. -/
inductive Site where
  | access (opcode : UInt8) (target : MemberRef)
  | invoke (target : MemberRef)
  | bind (handles : List HandleRef)
  | plain

def Site.read (pool : ConstantPool) (bootstraps : List Bootstrap) (i : Instruction) :
    Except Fault Site :=
  if Opcode.isFieldAccess i.opcode then do
    return .access i.opcode (← i.operand16 >>= pool.memberRef)
  else if Opcode.isInvoke i.opcode then do
    return .invoke (← i.operand16 >>= pool.memberRef)
  else if i.opcode = Opcode.invokedynamic then do
    return .bind (← Walk.callSite pool bootstraps i)
  else return .plain

/-- The instructions of a `Code` payload with what they refer to. -/
def sites (pool : ConstantPool) (bootstraps : List Bootstrap) (payload : List UInt8) :
    Except Fault (List (Instruction × Site)) := do
  let scanned ← do Instruction.scan (← Body.ofPayload payload).code
  scanned.mapM fun i => do return (i, ← Site.read pool bootstraps i)

end JarPruning
