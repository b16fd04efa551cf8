import JarPruning.Text.ModifiedUtf8

/-! Why bytes are not a class file, or not the part of one that was asked for, and where. -/
namespace JarPruning

/-- The kinds of constant that a lookup can ask for. -/
inductive EntryKind where
  | utf8 | integer | classInfo | nameAndType | memberRef | invokeDynamic
  deriving DecidableEq, Repr

def EntryKind.text : EntryKind → String
  | .utf8 => "utf8"
  | .integer => "integer"
  | .classInfo => "class"
  | .nameAndType => "name and type"
  | .memberRef => "member ref"
  | .invokeDynamic => "invokedynamic"

inductive Reason where
  | unexpectedEnd (wanted : Nat)
  | magic (found : Nat)
  | constantTag (tag : UInt8)
  | text (fault : ModifiedUtf8.Fault)
  | wideOverflow
  | trailingAfterClass
  | trailingAfterAnnotations
  | noEntry (index : UInt16)
  | wrongEntry (index : UInt16) (expected : EntryKind)
  | poolFull
  | valueTag (tag : UInt8)
  | elementNotInt (name : String)
  | elementNotArray (name : String)
  | elementNotString (name : String)
  | opcode (opcode : UInt8)
  | pastEnd
  | word16OutOfBounds
  | word32OutOfBounds
  | tableRange
  | lookupPairs
  | wideOpcodeMissing
  | bootstrapMissing (index : UInt16)
  deriving DecidableEq, Repr

/-- A reason and the byte offset it was found at; lookups by index have offset 0. -/
structure Fault where
  offset : Nat
  reason : Reason
  deriving DecidableEq, Repr

def Reason.message : Reason → String
  | .unexpectedEnd n => s!"unexpected end of data reading {n} bytes"
  | .magic found => s!"invalid class file magic 0x{Hex.lower 8 found}"
  | .constantTag tag => s!"invalid constant pool tag {tag}"
  | .text fault => fault.text
  | .wideOverflow => "wide constant overflows the constant pool"
  | .trailingAfterClass => "trailing bytes after class file"
  | .trailingAfterAnnotations => "trailing bytes after annotations"
  | .noEntry i => s!"invalid constant pool index {i}"
  | .wrongEntry i expected => s!"constant pool entry {i} is not a {expected.text} entry"
  | .poolFull => "constant pool overflow"
  | .valueTag tag => s!"invalid element value tag 0x{Hex.lower 2 tag.toNat}"
  | .elementNotInt name => s!"annotation element {name} is not an int"
  | .elementNotArray name => s!"annotation element {name} is not an array"
  | .elementNotString name => s!"annotation element {name} holds a non-string value"
  | .opcode op => s!"unsupported opcode 0x{Hex.lower 2 op.toNat}"
  | .pastEnd => "instruction runs past end of code"
  | .word16OutOfBounds => "bytecode u16 out of bounds"
  | .word32OutOfBounds => "bytecode u32 out of bounds"
  | .tableRange => "invalid tableswitch range"
  | .lookupPairs => "invalid lookupswitch pairs"
  | .wideOpcodeMissing => "missing wide opcode"
  | .bootstrapMissing i => s!"missing bootstrap method {i}"

/-- The one-line form used inside longer messages. -/
def Fault.message (f : Fault) : String := s!"{f.reason.message} (offset {f.offset})"

end JarPruning
