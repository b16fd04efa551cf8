import JarPruning.Bytecode.Opcode
import JarPruning.Member.Descriptor

/-!
Replacing an access to a field that is gone by three instructions of one byte each: a store drops
what it would have stored, a load leaves the default value of the field's type.
-/
namespace JarPruning.Neutral

/-- Pushes the default value of a field type. -/
def pushDefault? (descriptor : String) : Option UInt8 :=
  match descriptor.toList with
  | [] => none
  | 'J' :: _ => some Opcode.lconst0
  | 'D' :: _ => some Opcode.dconst0
  | 'F' :: _ => some Opcode.fconst0
  | 'L' :: _ | '[' :: _ => some Opcode.aconstNull
  | _ => some Opcode.iconst0

def discard (descriptor : String) : UInt8 :=
  if Descriptor.isWide descriptor then Opcode.pop2 else Opcode.pop

def replacement? (op : UInt8) (descriptor : String) : Option (Vector UInt8 3) := do
  let push ← pushDefault? descriptor
  if op = Opcode.putfield then some #v[discard descriptor, Opcode.pop, Opcode.nop]
  else if op = Opcode.putstatic then some #v[discard descriptor, Opcode.nop, Opcode.nop]
  else if op = Opcode.getfield then some #v[Opcode.pop, push, Opcode.nop]
  else if op = Opcode.getstatic then some #v[push, Opcode.nop, Opcode.nop]
  else none

end JarPruning.Neutral
