/-! Opcodes and the layout of the operands behind them. -/
namespace JarPruning.Opcode

def nop : UInt8 := 0x00
def aconstNull : UInt8 := 0x01
def iconst0 : UInt8 := 0x03
def lconst0 : UInt8 := 0x09
def fconst0 : UInt8 := 0x0B
def dconst0 : UInt8 := 0x0E
def ldc : UInt8 := 0x12
def ldcW : UInt8 := 0x13
def pop : UInt8 := 0x57
def pop2 : UInt8 := 0x58
def dup : UInt8 := 0x59
def iinc : UInt8 := 0x84
def ret : UInt8 := 0xB1
def getstatic : UInt8 := 0xB2
def putstatic : UInt8 := 0xB3
def getfield : UInt8 := 0xB4
def putfield : UInt8 := 0xB5
def invokevirtual : UInt8 := 0xB6
def invokespecial : UInt8 := 0xB7
def invokestatic : UInt8 := 0xB8
def invokeinterface : UInt8 := 0xB9
def invokedynamic : UInt8 := 0xBA
def new : UInt8 := 0xBB
def athrow : UInt8 := 0xBF

def isFieldAccess (op : UInt8) : Bool := getstatic ≤ op && op ≤ putfield

/-- The four instructions that call a method named in the pool. -/
def isInvoke (op : UInt8) : Bool := invokevirtual ≤ op && op ≤ invokeinterface

/-- How the operands of an opcode are laid out. -/
inductive Layout where
  | fixed (bytes : Nat)
  /-- A jump table over a range of keys. -/
  | table
  /-- A jump table of key and target pairs. -/
  | lookup
  /-- An opcode with widened operands. -/
  | wide
  deriving DecidableEq, Repr

/-- The layouts of the supported opcodes, by ranges of opcodes. -/
def layouts : List (UInt8 × UInt8 × Layout) :=
  [(0x00, 0x0F, .fixed 0), (0x10, 0x10, .fixed 1), (0x11, 0x11, .fixed 2), (0x12, 0x12, .fixed 1),
   (0x13, 0x14, .fixed 2), (0x15, 0x19, .fixed 1), (0x1A, 0x35, .fixed 0), (0x36, 0x3A, .fixed 1),
   (0x3B, 0x83, .fixed 0), (0x84, 0x84, .fixed 2), (0x85, 0x98, .fixed 0), (0x99, 0xA8, .fixed 2),
   (0xA9, 0xA9, .fixed 1), (0xAA, 0xAA, .table), (0xAB, 0xAB, .lookup), (0xAC, 0xB1, .fixed 0),
   (0xB2, 0xB8, .fixed 2), (0xB9, 0xBA, .fixed 4), (0xBB, 0xBB, .fixed 2), (0xBC, 0xBC, .fixed 1),
   (0xBD, 0xBD, .fixed 2), (0xBE, 0xBF, .fixed 0), (0xC0, 0xC1, .fixed 2), (0xC2, 0xC3, .fixed 0),
   (0xC4, 0xC4, .wide), (0xC5, 0xC5, .fixed 3), (0xC6, 0xC7, .fixed 2), (0xC8, 0xC9, .fixed 4),
   (0xCA, 0xCA, .fixed 0), (0xFE, 0xFF, .fixed 0)]

def layout? (op : UInt8) : Option Layout :=
  (layouts.find? fun (first, last, _) => first ≤ op ∧ op ≤ last).map (·.2.2)

end JarPruning.Opcode
