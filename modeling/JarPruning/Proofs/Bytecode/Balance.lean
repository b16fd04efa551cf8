import JarPruning.Proofs.Bytecode.Overwritten

/-!
What stands in for a field access does to the operand stack what the access does, and needs no more
room on the way.
-/
namespace JarPruning

/-- An operand, by the kind of value it is. -/
inductive Operand where
  | int
  | float
  | long
  | double
  | reference
  deriving DecidableEq, Repr

namespace Operand

def slots : Operand → Nat
  | .long | .double => 2
  | .int | .float | .reference => 1

/-- What the value of a field is on the operand stack. -/
def ofDescriptor (descriptor : String) : Operand :=
  match descriptor.toList with
  | 'J' :: _ => .long
  | 'D' :: _ => .double
  | 'F' :: _ => .float
  | 'L' :: _ | '[' :: _ => .reference
  | _ => .int

/-- The slots of a stack, whose top is the head of the list. -/
def height : List Operand → Nat
  | [] => 0
  | o :: stack => o.slots + height stack

/-- A stack without its top `n` slots, if no operand is cut in two. -/
def discard? : Nat → List Operand → Option (List Operand)
  | 0, stack => some stack
  | _ + 1, [] => none
  | n + 1, o :: stack => if o.slots ≤ n + 1 then discard? (n + 1 - o.slots) stack else none

/-- One instruction of one byte. Only those that discard operands or push constants are told. -/
def step? (op : UInt8) (stack : List Operand) : Option (List Operand) :=
  if op = Opcode.nop then some stack
  else if op = Opcode.aconstNull then some (.reference :: stack)
  else if op = Opcode.iconst0 then some (.int :: stack)
  else if op = Opcode.lconst0 then some (.long :: stack)
  else if op = Opcode.fconst0 then some (.float :: stack)
  else if op = Opcode.dconst0 then some (.double :: stack)
  else if op = Opcode.pop then discard? 1 stack
  else if op = Opcode.pop2 then discard? 2 stack
  else none

/-- The stack that instructions of one byte leave, if no stack on the way is higher than `limit`. -/
def run? (limit : Nat) : List UInt8 → List Operand → Option (List Operand)
  | [], stack => some stack
  | op :: ops, stack => do
    let next ← step? op stack
    if height next ≤ limit then run? limit ops next else none

/-- What an access takes from the top of the stack: the value that it stores, the object that it
looks into. -/
def taken (op : UInt8) (value : Operand) : List Operand :=
  if op = Opcode.putfield then [value, .reference]
  else if op = Opcode.putstatic then [value]
  else if op = Opcode.getfield then [.reference]
  else []

/-- What an access leaves on top of the stack: the value that it loads. -/
def left (op : UInt8) (value : Operand) : List Operand :=
  if op = Opcode.getfield ∨ op = Opcode.getstatic then [value] else []

@[simp] theorem height_cons (o : Operand) (stack : List Operand) :
    height (o :: stack) = o.slots + height stack := rfl

theorem height_le_cons (o : Operand) (stack : List Operand) : height stack ≤ height (o :: stack) := by
  rw [height_cons]
  exact Nat.le_add_left ..

theorem step?_pop (o : Operand) (ho : o.slots = 1) (stack : List Operand) :
    step? Opcode.pop (o :: stack) = some stack := by
  show discard? 1 (o :: stack) = _
  simp [discard?, ho]

theorem step?_pop2 (o : Operand) (ho : o.slots = 2) (stack : List Operand) :
    step? Opcode.pop2 (o :: stack) = some stack := by
  show discard? 2 (o :: stack) = _
  simp [discard?, ho]

theorem slots_of_isWide (descriptor : String) :
    (ofDescriptor descriptor).slots = if Descriptor.isWide descriptor then 2 else 1 := by
  unfold ofDescriptor Descriptor.isWide
  generalize descriptor.toList = cs
  split
  case h_6 hlong hdouble _ _ _ =>
    split
    · exact absurd rfl (hlong _)
    · exact absurd rfl (hdouble _)
    · rfl
  all_goals rfl

/-- What drops the value of a field drops all of it and nothing else. -/
theorem step?_discard (descriptor : String) (stack : List Operand) :
    step? (Neutral.discard descriptor) (ofDescriptor descriptor :: stack) = some stack := by
  have hslots := slots_of_isWide descriptor
  unfold Neutral.discard
  split
  · next hwide => exact step?_pop2 _ (hslots.trans (if_pos hwide)) stack
  · next hwide => exact step?_pop _ (hslots.trans (if_neg hwide)) stack

/-- The default value of a field is a value that the field can hold. -/
theorem step?_pushDefault {descriptor : String} {push : UInt8}
    (h : Neutral.pushDefault? descriptor = some push) (stack : List Operand) :
    step? push stack = some (ofDescriptor descriptor :: stack) := by
  unfold Neutral.pushDefault? at h
  unfold ofDescriptor
  generalize descriptor.toList = cs at h ⊢
  split at h
  case h_1 => cases h
  case h_7 =>
    obtain rfl := Option.some.inj h
    split
    case h_6 => rfl
    all_goals simp_all
  all_goals
    cases h
    rfl

theorem run?_cons {limit : Nat} {op : UInt8} {stack next : List Operand}
    (hstep : step? op stack = some next) (hroom : height next ≤ limit) (ops : List UInt8) :
    run? limit (op :: ops) stack = run? limit ops next := by
  rw [run?, hstep, Option.bind_eq_bind, Option.bind_some, if_pos hroom]

theorem run?_nop {limit : Nat} {stack : List Operand} (hroom : height stack ≤ limit)
    (ops : List UInt8) : run? limit (Opcode.nop :: ops) stack = run? limit ops stack :=
  run?_cons rfl hroom ops

end Operand

open Instruction (overwritten)
open Operand (ofDescriptor height taken left)

namespace Neutral

/-- The replacement of an access does what the access does, without ever going above the higher one
of the stacks before and after it. -/
theorem run?_replacement {op : UInt8} {descriptor : String} {v : Vector UInt8 3}
    (h : replacement? op descriptor = some v) (stack : List Operand) :
    Operand.run?
        (max (height (taken op (ofDescriptor descriptor) ++ stack))
          (height (left op (ofDescriptor descriptor) ++ stack)))
        v.toList (taken op (ofDescriptor descriptor) ++ stack) =
      some (left op (ofDescriptor descriptor) ++ stack) := by
  unfold replacement? at h
  obtain ⟨push, hpush, hchoice⟩ := Option.bind_eq_some_iff.1 h
  clear h
  have hload := Operand.step?_pushDefault hpush
  have hdrop := Operand.step?_discard descriptor
  generalize ofDescriptor descriptor = value at hload hdrop ⊢
  have hreference := Operand.step?_pop .reference rfl
  split at hchoice
  · next hop =>
    subst hop
    cases hchoice
    show Operand.run? (max (height (value :: .reference :: stack)) (height stack))
      [discard descriptor, Opcode.pop, Opcode.nop] (value :: .reference :: stack) = some stack
    rw [Operand.run?_cons (hdrop _) (Nat.le_trans (Operand.height_le_cons ..) (Nat.le_max_left ..)),
      Operand.run?_cons (hreference _) (Nat.le_max_right ..),
      Operand.run?_nop (Nat.le_max_right ..)]
    rfl
  split at hchoice
  · next hop =>
    subst hop
    cases hchoice
    show Operand.run? (max (height (value :: stack)) (height stack))
      [discard descriptor, Opcode.nop, Opcode.nop] (value :: stack) = some stack
    rw [Operand.run?_cons (hdrop _) (Nat.le_max_right ..), Operand.run?_nop (Nat.le_max_right ..),
      Operand.run?_nop (Nat.le_max_right ..)]
    rfl
  split at hchoice
  · next hop =>
    subst hop
    cases hchoice
    show Operand.run? (max (height (.reference :: stack)) (height (value :: stack)))
      [Opcode.pop, push, Opcode.nop] (.reference :: stack) = some (value :: stack)
    rw [Operand.run?_cons (hreference _) (Nat.le_trans (Operand.height_le_cons ..) (Nat.le_max_left ..)),
      Operand.run?_cons (hload _) (Nat.le_max_right ..), Operand.run?_nop (Nat.le_max_right ..)]
    rfl
  split at hchoice
  · next hop =>
    subst hop
    cases hchoice
    show Operand.run? (max (height stack) (height (value :: stack)))
      [push, Opcode.nop, Opcode.nop] stack = some (value :: stack)
    rw [Operand.run?_cons (hload _) (Nat.le_max_right ..), Operand.run?_nop (Nat.le_max_right ..),
      Operand.run?_nop (Nat.le_max_right ..)]
    rfl
  · cases hchoice

/-- Only an access to a field whose descriptor is empty has no replacement. -/
theorem replacement?_of_isFieldAccess {op : UInt8} {descriptor : String}
    (hop : Opcode.isFieldAccess op = true) (hdescriptor : descriptor ≠ "") :
    ∃ v, replacement? op descriptor = some v := by
  obtain ⟨push, hpush⟩ : ∃ push, pushDefault? descriptor = some push := by
    unfold pushDefault?
    split
    · next hchars => exact absurd (String.toList_eq_nil_iff.1 hchars) hdescriptor
    all_goals exact ⟨_, rfl⟩
  unfold replacement?
  rw [hpush]
  obtain rfl | rfl | rfl | rfl := Opcode.eq_of_isFieldAccess hop <;> exact ⟨_, rfl⟩

/-- What stands in for an instruction if `descriptor?` gives the descriptor of the field that it
accesses. -/
def standIn? (descriptor? : Instruction → Option String) (i : Instruction) :
    Option (Vector UInt8 3) :=
  (descriptor? i).bind (replacement? i.opcode)

/-- However accesses are chosen to be replaced: the code stays as long as it was, every other
instruction is found again where it was, and each replacement balances. -/
theorem balanced_of_scan {code : List UInt8} {is : List Instruction}
    {descriptor? : Instruction → Option String} (hscan : Instruction.scan code = .ok is)
    (hchosen : ∀ i ∈ is, ∀ d, descriptor? i = some d →
      Opcode.isFieldAccess i.opcode = true ∧ d ≠ "") :
    (∀ i ∈ is, ∀ d, descriptor? i = some d → ∃ v, replacement? i.opcode d = some v ∧
      ∀ stack, Operand.run?
          (max (height (taken i.opcode (ofDescriptor d) ++ stack))
            (height (left i.opcode (ofDescriptor d) ++ stack)))
          v.toList (taken i.opcode (ofDescriptor d) ++ stack) =
        some (left i.opcode (ofDescriptor d) ++ stack)) ∧
    ∃ replaced : List UInt8, replaced.length = code.length ∧
      Instruction.scan replaced = .ok (is.flatMap fun i => overwritten (i, standIn? descriptor? i)) ∧
      ∀ header rest, header.length = Body.codeStart →
        Walk.applyPatches (header ++ code ++ rest)
            (is.filterMap fun i => (standIn? descriptor? i).map (⟨i.offset, ·⟩)) =
          header ++ replaced ++ rest := by
  refine ⟨fun i hi d hd => ?_, ?_⟩
  · obtain ⟨haccess, hdescriptor⟩ := hchosen i hi d hd
    obtain ⟨v, hv⟩ := replacement?_of_isFieldAccess haccess hdescriptor
    exact ⟨v, hv, run?_replacement hv⟩
  let ps := is.map fun i => (i, standIn? descriptor? i)
  have hpairs : ps.map (·.1) = is := by simp [ps, Function.comp_def]
  have hspreads : ∀ p ∈ ps, ∀ v, p.2 = some v → p.1.Spreads v := by
    intro p hp v hv
    obtain ⟨i, hi, rfl⟩ := List.mem_map.1 hp
    obtain ⟨d, hd, hv⟩ := Option.bind_eq_some_iff.1 hv
    exact ⟨Instruction.operands_of_isFieldAccess hscan hi (hchosen i hi d hd).1,
      fun b hb => (inert_of_replacement? hv b hb).layout⟩
  have hoperands : ∀ p ∈ ps, ∀ v, p.2 = some v → p.1.operands.length = 2 :=
    fun p hp v hv => (hspreads p hp v hv).operands
  rw [← hpairs] at hscan
  refine ⟨(ps.flatMap overwritten).flatMap Instruction.bytes, ?_, ?_, fun header rest hheader => ?_⟩
  · rw [Instruction.length_allOverwritten hoperands, ← Instruction.scanFrom_bytes hscan]
  · rw [← List.flatMap_map (fun i => (i, standIn? descriptor? i)) overwritten]
    exact Instruction.scanFrom_overwritten hspreads hscan
  · have hpatched : Walk.applyPatches (header ++ code ++ rest) _ = header ++ _ ++ rest :=
      applyPatches_overwritten hoperands hscan hheader
    rwa [List.filterMap_map] at hpatched

/-- A long is stored before a table switch and an increment with widened operands, and an array is
loaded behind them. -/
def switching : List Instruction :=
  [⟨0, Opcode.nop, []⟩, ⟨1, Opcode.putstatic, [0, 7]⟩,
   ⟨4, 0xAA, [0, 0, 0, 0, 0, 0, 9, 0, 0, 0, 0, 0, 0, 0, 0, 0, 0, 0, 4]⟩,
   ⟨24, 0xC4, [Opcode.iinc, 0, 1, 0, 2]⟩, ⟨30, Opcode.getfield, [0, 8]⟩]

/-- What the fields hold that are accessed. -/
def switchingField? (i : Instruction) : Option String :=
  if i.offset = 1 then some "J" else if i.offset = 30 then some "[I" else none

theorem balanced_of_scan_switching :
    (∀ stack, Operand.run? (2 + height stack) [Opcode.pop2, Opcode.nop, Opcode.nop]
      (.long :: stack) = some stack) ∧
    ∃ replaced : List UInt8, replaced.length = 33 ∧ Instruction.scan replaced = .ok
      [⟨0, Opcode.nop, []⟩, ⟨1, Opcode.pop2, []⟩, ⟨2, Opcode.nop, []⟩, ⟨3, Opcode.nop, []⟩,
       ⟨4, 0xAA, [0, 0, 0, 0, 0, 0, 9, 0, 0, 0, 0, 0, 0, 0, 0, 0, 0, 0, 4]⟩,
       ⟨24, 0xC4, [Opcode.iinc, 0, 1, 0, 2]⟩, ⟨30, Opcode.pop, []⟩, ⟨31, Opcode.aconstNull, []⟩,
       ⟨32, Opcode.nop, []⟩] := by
  have hread : Instruction.scan (switching.flatMap Instruction.bytes) = .ok switching := by
    decide +kernel
  have hchosen : ∀ i ∈ switching, ∀ d, switchingField? i = some d →
      Opcode.isFieldAccess i.opcode = true ∧ d ≠ "" := by
    decide +kernel
  obtain ⟨hbalanced, replaced, hlength, hscan, -⟩ := balanced_of_scan hread hchosen
  obtain ⟨v, hv, hrun⟩ := hbalanced ⟨1, Opcode.putstatic, [0, 7]⟩ (by decide) "J" rfl
  obtain rfl : #v[Opcode.pop2, Opcode.nop, Opcode.nop] = v := by
    have hstore : replacement? Opcode.putstatic "J" = some #v[Opcode.pop2, Opcode.nop, Opcode.nop] := by
      decide
    exact Option.some.inj (hstore.symm.trans hv)
  refine ⟨fun stack => ?_, replaced, hlength, hscan⟩
  have hroom : max (height (.long :: stack)) (height stack) = 2 + height stack := by
    rw [Nat.max_eq_left (Operand.height_le_cons ..), Operand.height_cons]
    rfl
  exact hroom ▸ hrun stack

end Neutral

end JarPruning
