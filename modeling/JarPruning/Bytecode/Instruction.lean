import JarPruning.Bytecode.Opcode
import JarPruning.ClassFile.Reader

/-!
Cutting bytecode into instructions. An instruction carries its operand bytes, switch padding
included, so the bytes of the scanned instructions, one after another, are the code again.
-/
namespace JarPruning

structure Instruction where
  offset : Nat
  opcode : UInt8
  operands : List UInt8
  deriving DecidableEq, Repr

namespace Instruction

def length (i : Instruction) : Nat := i.operands.length + 1

def bytes (i : Instruction) : List UInt8 := i.opcode :: i.operands

/-- The two bytes behind the opcode. -/
def operand16 (i : Instruction) : Except Fault UInt16 :=
  match i.operands with
  | a :: b :: _ => .ok (UInt16.ofNat (BigEndian.value [a, b]))
  | _ => .error ⟨i.offset + 1, .word16OutOfBounds⟩

/-- Bytes between a switch opcode and its operands, which start at a multiple of four. -/
def padding (offset : Nat) : Nat := 3 - offset % 4

/-- The signed number `skipped` bytes behind the opcode at `offset`. -/
def operand32 (offset skipped : Nat) (tail : List UInt8) : Except Fault Int :=
  match cut? 4 (tail.drop skipped) with
  | some (word, _) => .ok (Int.bmod (BigEndian.value word) UInt32.size)
  | none => .error ⟨offset + 1 + skipped, .word32OutOfBounds⟩

/-- The operand bytes of a table switch over the keys `low` to `high`. The number of keys has to
be a signed word. -/
def tableLength (offset : Nat) (tail : List UInt8) : Except Fault Nat := do
  let pad := padding offset
  let low ← operand32 offset (pad + 4) tail
  let high ← operand32 offset (pad + 8) tail
  let keys := high - low + 1
  if 0 ≤ keys ∧ keys < Int32.size / 2 then return pad + 12 + keys.toNat * 4
  else throw ⟨offset, .tableRange⟩

def lookupLength (offset : Nat) (tail : List UInt8) : Except Fault Nat := do
  let pad := padding offset
  let pairs ← operand32 offset (pad + 4) tail
  if pairs < 0 then throw ⟨offset, .lookupPairs⟩
  else return pad + 8 + pairs.toNat * 8

def wideLength (offset : Nat) (tail : List UInt8) : Except Fault Nat :=
  match tail with
  | [] => .error ⟨offset, .wideOpcodeMissing⟩
  | op :: _ => .ok (if op = Opcode.iinc then 5 else 3)

/-- The number of operand bytes of `op` at `offset`, `tail` being the code behind it. -/
def operandLength (offset : Nat) (op : UInt8) (tail : List UInt8) : Except Fault Nat :=
  match Opcode.layout? op with
  | some (.fixed n) => .ok n
  | some .table => tableLength offset tail
  | some .lookup => lookupLength offset tail
  | some .wide => wideLength offset tail
  | none => .error ⟨offset, .opcode op⟩

/-- The instructions of `code`, which starts at `offset`. -/
def scanFrom (offset : Nat) : List UInt8 → Except Fault (List Instruction)
  | [] => .ok []
  | op :: tail =>
    match operandLength offset op tail with
    | .error e => .error e
    | .ok n =>
      match h : cut? n tail with
      | none => .error ⟨offset, .pastEnd⟩
      | some (operands, rest) =>
        have : rest.length < (op :: tail).length := by
          rw [(cut?_eq_some_iff.1 h).1, List.length_cons, List.length_append]
          omega
        (scanFrom (offset + 1 + n) rest).map (⟨offset, op, operands⟩ :: ·)
termination_by code => code.length
decreasing_by exact this

def scan (code : List UInt8) : Except Fault (List Instruction) := scanFrom 0 code

end Instruction

end JarPruning
