import JarPruning.ClassFile.Constant
import JarPruning.Member.Signature

/-!
Constant pools and the resolution of indices. An index resolves only if every entry on the way
exists and has the kind asked for.
-/
namespace JarPruning

structure ConstantPool where
  entries : Array Constant
  deriving DecidableEq, Repr

/-- A field, method or interface method named by a constant. -/
structure MemberRef extends Signature where
  owner : String
  isInterface : Bool
  deriving DecidableEq, Repr

/-- A method handle and the member it refers to. -/
structure HandleRef where
  kind : UInt8
  target : MemberRef
  deriving DecidableEq, Repr

/-- Handle kinds 1 to 4 read and write fields; the others call methods. -/
def HandleRef.isField (h : HandleRef) : Bool := 1 ≤ h.kind && h.kind ≤ 4

namespace ConstantPool

/-- The entry count as the class file stores it, in two bytes. -/
def count (pool : ConstantPool) : UInt16 := UInt16.ofNat pool.entries.size

def entry (pool : ConstantPool) (index : UInt16) : Except Fault Constant :=
  match pool.entries[index.toNat]? with
  | none | some .unusable => .error ⟨0, .noEntry index⟩
  | some c => .ok c

def wrong {α : Type} (index : UInt16) (expected : EntryKind) : Except Fault α :=
  .error ⟨0, .wrongEntry index expected⟩

def utf8 (pool : ConstantPool) (index : UInt16) : Except Fault String := do
  match ← pool.entry index with
  | .utf8 text _ => return text
  | _ => wrong index .utf8

def integer (pool : ConstantPool) (index : UInt16) : Except Fault Int32 := do
  match ← pool.entry index with
  | .integer value => return value
  | _ => wrong index .integer

def className (pool : ConstantPool) (index : UInt16) : Except Fault String := do
  match ← pool.entry index with
  | .classInfo name => pool.utf8 name
  | _ => wrong index .classInfo

def nameAndType (pool : ConstantPool) (index : UInt16) : Except Fault Signature := do
  match ← pool.entry index with
  | .nameAndType name descriptor => return ⟨← pool.utf8 name, ← pool.utf8 descriptor⟩
  | _ => wrong index .nameAndType

/-- The member with the given owner and name-and-type indices. -/
def memberOf (pool : ConstantPool) (owner nt : UInt16) (isInterface : Bool) :
    Except Fault MemberRef := do
  let owner ← pool.className owner
  let signature ← pool.nameAndType nt
  return ⟨signature, owner, isInterface⟩

def memberRef (pool : ConstantPool) (index : UInt16) : Except Fault MemberRef := do
  match ← pool.entry index with
  | .fieldRef owner nt | .methodRef owner nt => pool.memberOf owner nt false
  | .interfaceMethodRef owner nt => pool.memberOf owner nt true
  | _ => wrong index .memberRef

/-- The method handle at an index; none if another kind of entry stands there. -/
def methodHandle? (pool : ConstantPool) (index : UInt16) : Except Fault (Option HandleRef) := do
  match ← pool.entry index with
  | .methodHandle kind reference => return some ⟨kind, ← pool.memberRef reference⟩
  | _ => return none

/-- The bootstrap slot and the name-and-type index of a dynamic call site. -/
def invokeDynamic (pool : ConstantPool) (index : UInt16) : Except Fault (UInt16 × UInt16) := do
  match ← pool.entry index with
  | .invokeDynamic bootstrap nt => return (bootstrap, nt)
  | _ => wrong index .invokeDynamic

/-- Whether an index resolves to exactly this text. -/
def hasText (pool : ConstantPool) (index : UInt16) (text : String) : Bool :=
  match pool.utf8 index with
  | .ok t => t == text
  | .error _ => false

def bytes (pool : ConstantPool) : List UInt8 :=
  BigEndian.digits 2 pool.entries.size ++ pool.entries.toList.flatMap Constant.bytes

/-- Reads entries until `slots` slots are filled. -/
def readEntries : Nat → Reader (List Constant)
  | 0 => pure []
  | slots + 1 => do
    let c ← Constant.read
    if c.isWide then
      match slots with
      | 0 => Reader.fail .wideOverflow
      | slots + 1 => return c :: .unusable :: (← readEntries slots)
    else return c :: (← readEntries slots)

/-- Reads a pool behind its count, which includes the unusable slot 0. -/
def read : Reader ConstantPool := do
  match ← Reader.number 2 with
  | 0 => Reader.fail .wideOverflow
  | slots + 1 => return ⟨(.unusable :: (← readEntries slots)).toArray⟩

end ConstantPool

end JarPruning
