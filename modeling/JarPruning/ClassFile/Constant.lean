import JarPruning.Bytes.BigEndian
import JarPruning.ClassFile.Reader

/-!
The entries of a constant pool and their byte form. A text keeps its bytes, because decoding is
lossy, so reading an entry and writing it gives the same bytes.
-/
namespace JarPruning

inductive Constant where
  /-- Slot 0, and the slot behind a `long` or `double`. -/
  | unusable
  | utf8 (text : String) (bytes : List UInt8)
  | integer (value : Int32)
  | float (bits : UInt32)
  | long (value : Int64)
  | double (bits : UInt64)
  | classInfo (name : UInt16)
  | string (text : UInt16)
  | fieldRef (owner nameAndType : UInt16)
  | methodRef (owner nameAndType : UInt16)
  | interfaceMethodRef (owner nameAndType : UInt16)
  | nameAndType (name descriptor : UInt16)
  | methodHandle (kind : UInt8) (reference : UInt16)
  | methodType (descriptor : UInt16)
  | dynamic (bootstrap nameAndType : UInt16)
  | invokeDynamic (bootstrap nameAndType : UInt16)
  | module (name : UInt16)
  | package (name : UInt16)
  deriving DecidableEq, Repr

namespace Constant

/-- The text constant in the standard encoding. -/
def ofText (s : String) : Constant := .utf8 s (ModifiedUtf8.encode s)

/-- Wide constants fill two slots. -/
def isWide : Constant → Bool
  | .long _ | .double _ => true
  | _ => false

open BigEndian in
def bytes : Constant → List UInt8
  | .unusable => []
  | .utf8 _ bytes => 1 :: digits 2 bytes.length ++ bytes
  | .integer value => 3 :: word32 value.toUInt32
  | .float bits => 4 :: word32 bits
  | .long value => 5 :: word64 value.toUInt64
  | .double bits => 6 :: word64 bits
  | .classInfo name => 7 :: word16 name
  | .string text => 8 :: word16 text
  | .fieldRef owner nt => 9 :: word16 owner ++ word16 nt
  | .methodRef owner nt => 10 :: word16 owner ++ word16 nt
  | .interfaceMethodRef owner nt => 11 :: word16 owner ++ word16 nt
  | .nameAndType name descriptor => 12 :: word16 name ++ word16 descriptor
  | .methodHandle kind reference => 15 :: kind :: word16 reference
  | .methodType descriptor => 16 :: word16 descriptor
  | .dynamic bootstrap nt => 17 :: word16 bootstrap ++ word16 nt
  | .invokeDynamic bootstrap nt => 18 :: word16 bootstrap ++ word16 nt
  | .module name => 19 :: word16 name
  | .package name => 20 :: word16 name

def readText (start : Nat) : Reader Constant := do
  let bytes ← Reader.take (← Reader.number 2)
  match ModifiedUtf8.decode bytes with
  | .ok text => return .utf8 text bytes
  | .error fault => throw ⟨start, .text fault⟩

/-- Reads one entry. Faults of its tag and of its text are placed at the tag. -/
def read : Reader Constant := do
  let start ← Reader.offset
  let tag ← Reader.word8
  match tag with
  | 1 => readText start
  | 3 => return .integer (← Reader.word32).toInt32
  | 4 => return .float (← Reader.word32)
  | 5 => return .long (← Reader.word64).toInt64
  | 6 => return .double (← Reader.word64)
  | 7 => return .classInfo (← Reader.word16)
  | 8 => return .string (← Reader.word16)
  | 9 => return .fieldRef (← Reader.word16) (← Reader.word16)
  | 10 => return .methodRef (← Reader.word16) (← Reader.word16)
  | 11 => return .interfaceMethodRef (← Reader.word16) (← Reader.word16)
  | 12 => return .nameAndType (← Reader.word16) (← Reader.word16)
  | 15 => return .methodHandle (← Reader.word8) (← Reader.word16)
  | 16 => return .methodType (← Reader.word16)
  | 17 => return .dynamic (← Reader.word16) (← Reader.word16)
  | 18 => return .invokeDynamic (← Reader.word16) (← Reader.word16)
  | 19 => return .module (← Reader.word16)
  | 20 => return .package (← Reader.word16)
  | _ => throw ⟨start, .constantTag tag⟩

end Constant

end JarPruning
