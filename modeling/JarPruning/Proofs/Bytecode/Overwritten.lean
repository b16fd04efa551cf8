import Mathlib.Data.List.Nodup
import JarPruning.Proofs.Bytecode.Patching

/-!
Scanning a body again after instructions were overwritten. Three instructions of one byte stand
where one of three bytes stood, and all others are where they were.
-/
namespace JarPruning

open Walk (Patch)

namespace Instruction

/-- Where a scan starts with an instruction. -/
theorem scanFrom_cons_ok {base : Nat} {code : List UInt8} {i : Instruction}
    {is : List Instruction} (h : scanFrom base code = .ok (i :: is)) :
    ∃ rest, code = i.bytes ++ rest ∧ i.offset = base ∧
      operandLength base i.opcode (i.operands ++ rest) = .ok i.operands.length ∧
      scanFrom (base + 1 + i.operands.length) rest = .ok is := by
  cases code with
  | nil =>
    rw [scanFrom] at h
    cases h
  | cons op tail =>
    rw [scanFrom] at h
    split at h
    · cases h
    next n hn =>
    split at h
    · cases h
    next operands rest hcut =>
    obtain ⟨rfl, rfl⟩ := cut?_eq_some_iff.1 hcut
    cases hrest : scanFrom (base + 1 + operands.length) rest with
    | error e => simp [hrest, Except.map] at h
    | ok is' =>
      simp only [hrest, Except.map, Except.ok.injEq, List.cons.injEq] at h
      obtain ⟨rfl, rfl⟩ := h
      exact ⟨rest, rfl, rfl, hn, hrest⟩

/-- The bytes of the scanned instructions, one after another, are the code. -/
theorem scanFrom_bytes {base : Nat} {code : List UInt8} {is : List Instruction}
    (h : scanFrom base code = .ok is) : code = is.flatMap bytes := by
  induction is generalizing base code with
  | nil =>
    cases code with
    | nil => rfl
    | cons op tail =>
      rw [scanFrom] at h
      split at h
      · cases h
      split at h
      · cases h
      · next n _ operands rest _ =>
        cases hrest : scanFrom (base + 1 + n) rest <;> simp [hrest, Except.map] at h
  | cons i is ih =>
    obtain ⟨rest, rfl, -, -, hrest⟩ := scanFrom_cons_ok h
    rw [List.flatMap_cons, ← ih hrest]

/-- Every instruction stands behind the ones before it. -/
theorem scanFrom_offsets {base : Nat} {code : List UInt8} {is : List Instruction}
    (h : scanFrom base code = .ok is) : is.Pairwise fun i j => i.offset < j.offset := by
  induction is generalizing base code with
  | nil => exact .nil
  | cons i is ih =>
    obtain ⟨rest, -, rfl, -, hrest⟩ := scanFrom_cons_ok h
    refine .cons (fun j hj => ?_) (ih hrest)
    obtain ⟨before, -, -, hoffset⟩ := scanFrom_mem hrest hj
    omega

theorem operandLength_of_scanFrom {base : Nat} {code : List UInt8} {is : List Instruction}
    (h : scanFrom base code = .ok is) {i : Instruction} (hi : i ∈ is) :
    ∃ rest, operandLength i.offset i.opcode (i.operands ++ rest) = .ok i.operands.length := by
  induction is generalizing base code with
  | nil => cases hi
  | cons j is ih =>
    obtain ⟨rest, -, rfl, hlength, hrest⟩ := scanFrom_cons_ok h
    obtain rfl | hi := List.mem_cons.1 hi
    · exact ⟨rest, hlength⟩
    · exact ih hrest hi

theorem scanFrom_cons {offset : Nat} {op : UInt8} {operands rest : List UInt8}
    {is : List Instruction}
    (hlength : operandLength offset op (operands ++ rest) = .ok operands.length)
    (hrest : scanFrom (offset + 1 + operands.length) rest = .ok is) :
    scanFrom offset (op :: (operands ++ rest)) = .ok (⟨offset, op, operands⟩ :: is) := by
  rw [scanFrom]
  split
  · next e he => cases hlength.symm.trans he
  next n hn =>
  obtain rfl := Except.ok.inj (hlength.symm.trans hn)
  split
  · next hcut => cases (cut?_append operands rest).symm.trans hcut
  · next front back hcut =>
    cases (cut?_append operands rest).symm.trans hcut
    rw [hrest]
    rfl

theorem operand32_front {offset skipped : Nat} {operands : List UInt8}
    (h : skipped + 4 ≤ operands.length) (rest rest' : List UInt8) :
    operand32 offset skipped (operands ++ rest) = operand32 offset skipped (operands ++ rest') := by
  have hcut (rest : List UInt8) : cut? 4 ((operands ++ rest).drop skipped) =
      some ((operands.drop skipped).take 4, (operands.drop skipped).drop 4 ++ rest) := by
    refine cut?_eq_some_iff.2 ⟨?_, by rw [List.length_take, List.length_drop]; omega⟩
    rw [List.drop_append_of_le_length (by omega), ← List.append_assoc, List.take_append_drop]
  unfold operand32
  rw [hcut rest, hcut rest']

/-- How many operands an instruction has is told by its operands. -/
theorem operandLength_front {offset : Nat} {op : UInt8} {operands rest : List UInt8}
    (h : operandLength offset op (operands ++ rest) = .ok operands.length) (rest' : List UInt8) :
    operandLength offset op (operands ++ rest') = .ok operands.length := by
  unfold operandLength at h ⊢
  split at h
  · exact h
  · obtain ⟨low, hlow, h⟩ := bind_ok_iff.1 h
    obtain ⟨high, hhigh, h⟩ := bind_ok_iff.1 h
    extract_lets keys at h
    split at h
    · next hrange =>
      have hlength := Except.ok.inj h
      rw [operand32_front (by omega) rest rest'] at hlow hhigh
      refine bind_ok_iff.2 ⟨low, hlow, bind_ok_iff.2 ⟨high, hhigh, ?_⟩⟩
      rw [if_pos hrange]
      exact h
    · cases h
  · obtain ⟨pairs, hpairs, h⟩ := bind_ok_iff.1 h
    split at h
    · cases h
    · next hrange =>
      have hlength := Except.ok.inj h
      rw [operand32_front (by omega) rest rest'] at hpairs
      refine bind_ok_iff.2 ⟨pairs, hpairs, ?_⟩
      rw [if_neg hrange]
      exact h
  · cases operands with
    | nil =>
      unfold wideLength at h
      split at h
      · cases h
      · have := Except.ok.inj h
        split at this <;> cases this
    | cons b operands => exact h
  · cases h

/-- The instructions that stand where one was overwritten. -/
def spread (offset : Nat) (bytes : Vector UInt8 3) : List Instruction :=
  [⟨offset, bytes[0], []⟩, ⟨offset + 1, bytes[1], []⟩, ⟨offset + 2, bytes[2], []⟩]

theorem operands_of_mem_spread {offset : Nat} {v : Vector UInt8 3} {i : Instruction}
    (h : i ∈ spread offset v) : i.operands = [] := by
  simp only [spread, List.mem_cons, List.not_mem_nil, or_false] at h
  rcases h with rfl | rfl | rfl <;> rfl

theorem bytes_spread (offset : Nat) (v : Vector UInt8 3) :
    (spread offset v).flatMap bytes = v.toList := by
  obtain ⟨⟨bs⟩, hv⟩ := v
  match bs, hv with
  | [a, b, c], _ => rfl

/-- An instruction, or what it is overwritten with. -/
def overwritten : Instruction × Option (Vector UInt8 3) → List Instruction
  | (i, some bytes) => spread i.offset bytes
  | (i, none) => [i]

/-- An instruction of three bytes, to be overwritten with instructions of one byte. -/
structure Spreads (i : Instruction) (bytes : Vector UInt8 3) : Prop where
  operands : i.operands.length = 2
  plain : ∀ b ∈ bytes.toList, Opcode.layout? b = some (.fixed 0)

theorem length_overwritten {p : Instruction × Option (Vector UInt8 3)}
    (hp : ∀ v, p.2 = some v → p.1.operands.length = 2) :
    ((overwritten p).flatMap bytes).length = p.1.bytes.length := by
  obtain ⟨i, v?⟩ := p
  cases v? with
  | none => simp [overwritten]
  | some v =>
    rw [show overwritten (i, some v) = spread i.offset v from rfl, bytes_spread, bytes,
      List.length_cons, hp v rfl, Vector.length_toList]

theorem length_allOverwritten {ps : List (Instruction × Option (Vector UInt8 3))}
    (hps : ∀ p ∈ ps, ∀ v, p.2 = some v → p.1.operands.length = 2) :
    ((ps.flatMap overwritten).flatMap bytes).length = ((ps.map (·.1)).flatMap bytes).length := by
  induction ps with
  | nil => rfl
  | cons p ps ih =>
    rw [List.flatMap_cons, List.flatMap_append, List.length_append, List.map_cons,
      List.flatMap_cons, List.length_append, length_overwritten (hps p (List.mem_cons_self ..)),
      ih fun p hp => hps p (List.mem_cons_of_mem _ hp)]

theorem scanFrom_plain {base : Nat} {op : UInt8} {rest : List UInt8} {is : List Instruction}
    (hop : Opcode.layout? op = some (.fixed 0)) (hrest : scanFrom (base + 1) rest = .ok is) :
    scanFrom base (op :: rest) = .ok (⟨base, op, []⟩ :: is) := by
  have hlength : operandLength base op ([] ++ rest) = .ok ([] : List UInt8).length := by
    unfold operandLength
    rw [hop]
    rfl
  exact scanFrom_cons hlength hrest

theorem scanFrom_spread {base : Nat} {v : Vector UInt8 3} {rest : List UInt8}
    {is : List Instruction} (hv : ∀ b ∈ v.toList, Opcode.layout? b = some (.fixed 0))
    (hrest : scanFrom (base + 3) rest = .ok is) :
    scanFrom base (v.toList ++ rest) = .ok (spread base v ++ is) := by
  obtain ⟨⟨bs⟩, hlength⟩ := v
  match bs, hlength with
  | [a, b, c], _ =>
    exact scanFrom_plain (hv a (by simp)) <| scanFrom_plain (hv b (by simp)) <|
      scanFrom_plain (hv c (by simp)) hrest

theorem scanFrom_overwritten {base : Nat} {code : List UInt8}
    {ps : List (Instruction × Option (Vector UInt8 3))}
    (hps : ∀ p ∈ ps, ∀ v, p.2 = some v → p.1.Spreads v)
    (h : scanFrom base code = .ok (ps.map (·.1))) :
    scanFrom base ((ps.flatMap overwritten).flatMap bytes) = .ok (ps.flatMap overwritten) := by
  induction ps generalizing base code with
  | nil =>
    rw [List.flatMap_nil, List.flatMap_nil, scanFrom]
  | cons p ps ih =>
    obtain ⟨i, v?⟩ := p
    obtain ⟨rest, -, rfl, hlength, hrest⟩ := scanFrom_cons_ok h
    have hlater := ih (fun p hp => hps p (List.mem_cons_of_mem _ hp)) hrest
    rw [List.flatMap_cons, List.flatMap_append]
    cases v? with
    | none =>
      have hcons := scanFrom_cons (operandLength_front hlength _) hlater
      simpa [overwritten, bytes] using hcons
    | some v =>
      obtain ⟨hoperands, hplain⟩ := hps _ (List.mem_cons_self ..) v rfl
      rw [hoperands] at hlater
      rw [show overwritten (i, some v) = spread i.offset v from rfl, bytes_spread]
      exact scanFrom_spread hplain hlater

end Instruction

open Instruction (overwritten spread Spreads)

namespace Body

def header (b : Body) : List UInt8 :=
  BigEndian.word16 b.maxStack ++ BigEndian.word16 b.maxLocals ++
    BigEndian.digits 4 b.code.length

theorem length_header (b : Body) : b.header.length = codeStart := by simp [header, codeStart]

/-- The front of a payload says how its code is read. -/
theorem ofPayload_ok_iff {payload : List UInt8} {b : Body} :
    ofPayload payload = .ok b ↔
      b.code.length < 256 ^ 4 ∧ ∃ rest, payload = b.header ++ b.code ++ rest := by
  constructor
  · have hfinds : Reader.Finds read fun b front =>
        front = b.header ++ b.code ∧ b.code.length < 256 ^ 4 := by
      refine Reader.word16_finds.bind fun stack f₁ h₁ => Reader.word16_finds.bind fun locals f₂ h₂ =>
        (Reader.number_finds 4).bind fun n f₃ h₃ => (Reader.take_finds n).bind fun code f₄ h₄ =>
        Reader.Finds.pure ?_
      obtain rfl := h₁
      obtain rfl := h₂
      obtain ⟨rfl, hn⟩ := h₃
      obtain ⟨rfl, rfl⟩ := h₄
      exact ⟨by simp [header], hn⟩
    intro h
    obtain ⟨front, rest, rfl, rfl, hlength⟩ := hfinds.front h
    exact ⟨hlength, rest, rfl⟩
  · rintro ⟨hlength, rest, rfl⟩
    have hreads : Reader.Reads read (b.header ++ b.code) b := by
      rw [header, List.append_assoc, List.append_assoc]
      exact (Reader.word16_reads b.maxStack).bind <| (Reader.word16_reads b.maxLocals).bind <|
        (Reader.number_reads hlength).bind (Reader.take_reads b.code).map
    exact hreads.front rest

theorem patch_between {front old new rest : List UInt8} {offset : Nat}
    (hfront : front.length = codeStart + offset) (hlength : old.length = new.length) :
    patch (front ++ old ++ rest) offset new = front ++ new ++ rest := by
  unfold patch
  rw [← hfront, ← hlength, ← List.length_append, List.drop_left, List.append_assoc front old,
    List.take_left]

end Body

/-- Patches write what stands in the place of the instructions. -/
theorem applyPatches_overwritten {base : Nat} {front code rest : List UInt8}
    {ps : List (Instruction × Option (Vector UInt8 3))}
    (hps : ∀ p ∈ ps, ∀ v, p.2 = some v → p.1.operands.length = 2)
    (h : Instruction.scanFrom base code = .ok (ps.map (·.1)))
    (hfront : front.length = Body.codeStart + base) :
    Walk.applyPatches (front ++ code ++ rest)
        (ps.filterMap fun p => p.2.map (⟨p.1.offset, ·⟩)) =
      front ++ (ps.flatMap overwritten).flatMap Instruction.bytes ++ rest := by
  induction ps generalizing base code front with
  | nil =>
    obtain rfl : code = [] := Instruction.scanFrom_bytes h
    rfl
  | cons p ps ih =>
    obtain ⟨i, v?⟩ := p
    obtain ⟨code', rfl, hbase, -, hrest⟩ := Instruction.scanFrom_cons_ok h
    change i.offset = base at hbase
    subst hbase
    have hps' := fun p hp => hps p (List.mem_cons_of_mem _ hp)
    rw [List.flatMap_cons, List.flatMap_append]
    cases v? with
    | none =>
      have hlength : (front ++ i.bytes).length =
          Body.codeStart + (i.offset + 1 + i.operands.length) := by
        rw [List.length_append, hfront, Instruction.bytes, List.length_cons]
        omega
      simpa [overwritten] using ih hps' hrest hlength
    | some v =>
      have hoperands : i.operands.length = 2 := hps _ (List.mem_cons_self ..) v rfl
      have hbytes : i.bytes.length = v.toList.length := by
        rw [Instruction.bytes, List.length_cons, hoperands, Vector.length_toList]
      have hfirst : Body.patch (front ++ (i.bytes ++ code') ++ rest) i.offset v.toList =
          front ++ v.toList ++ code' ++ rest := by
        have hpatch : Body.patch (front ++ i.bytes ++ (code' ++ rest)) i.offset v.toList = _ :=
          Body.patch_between hfront hbytes
        simpa only [List.append_assoc] using hpatch
      have hlength : (front ++ v.toList).length =
          Body.codeStart + (i.offset + 1 + i.operands.length) := by
        rw [List.length_append, hfront, Vector.length_toList, hoperands]
        omega
      rw [show overwritten (i, some v) = spread i.offset v from rfl, Instruction.bytes_spread]
      show Walk.applyPatches (Body.patch _ i.offset v.toList) _ = _
      rw [hfirst, ih hps' hrest hlength]
      simp only [List.append_assoc]

/-- The instructions of a body. -/
def Body.instructions (payload : List UInt8) : Except Fault (List Instruction) := do
  Instruction.scan (← Body.ofPayload payload).code

/-- The bytes of a body in which instructions were overwritten. -/
theorem Body.applyPatches_bytes {payload : List UInt8}
    {ps : List (Instruction × Option (Vector UInt8 3))}
    (h : Body.instructions payload = .ok (ps.map (·.1)))
    (hps : ∀ p ∈ ps, ∀ v, p.2 = some v → p.1.operands.length = 2) :
    ∃ header rest, header.length = codeStart ∧
      payload = header ++ (ps.map (·.1)).flatMap Instruction.bytes ++ rest ∧
      Walk.applyPatches payload (ps.filterMap fun p => p.2.map (⟨p.1.offset, ·⟩)) =
        header ++ (ps.flatMap overwritten).flatMap Instruction.bytes ++ rest := by
  obtain ⟨b, hb, hscan⟩ := bind_ok_iff.1 h
  obtain ⟨-, rest, rfl⟩ := Body.ofPayload_ok_iff.1 hb
  refine ⟨b.header, rest, b.length_header, by rw [← Instruction.scanFrom_bytes hscan], ?_⟩
  exact applyPatches_overwritten hps hscan b.length_header

/-- What stands in a body in which instructions were overwritten. -/
theorem Body.instructions_overwritten {payload : List UInt8}
    {ps : List (Instruction × Option (Vector UInt8 3))}
    (h : Body.instructions payload = .ok (ps.map (·.1)))
    (hps : ∀ p ∈ ps, ∀ v, p.2 = some v → p.1.Spreads v) :
    Body.instructions
        (Walk.applyPatches payload (ps.filterMap fun p => p.2.map (⟨p.1.offset, ·⟩))) =
      .ok (ps.flatMap overwritten) := by
  have hoperands : ∀ p ∈ ps, ∀ v, p.2 = some v → p.1.operands.length = 2 :=
    fun p hp v hv => (hps p hp v hv).operands
  obtain ⟨b, hb, hscan⟩ := bind_ok_iff.1 h
  obtain ⟨hlength, rest, rfl⟩ := Body.ofPayload_ok_iff.1 hb
  rw [applyPatches_overwritten hoperands hscan b.length_header]
  generalize hcode : (ps.flatMap overwritten).flatMap Instruction.bytes = code
  have hsame : code.length = b.code.length := by
    rw [← hcode, Instruction.length_allOverwritten hoperands, ← Instruction.scanFrom_bytes hscan]
  have hbody : Body.ofPayload (b.header ++ code ++ rest) = .ok { b with code } := by
    refine Body.ofPayload_ok_iff.2 ⟨hsame ▸ hlength, rest, ?_⟩
    simp only [Body.header, hsame]
  refine bind_ok_iff.2 ⟨_, hbody, ?_⟩
  show Instruction.scanFrom 0 code = _
  rw [← hcode]
  exact Instruction.scanFrom_overwritten hps hscan

/-! Sites. -/

theorem sites_ok_iff {pool : ConstantPool} {bootstraps : List Bootstrap} {payload : List UInt8}
    {ss : List (Instruction × Site)} :
    sites pool bootstraps payload = .ok ss ↔ Body.instructions payload = .ok (ss.map (·.1)) ∧
      ∀ s ∈ ss, Site.read pool bootstraps s.1 = .ok s.2 := by
  constructor
  · intro h
    obtain ⟨b, hb, hscan, hread⟩ := sites_ok h
    exact ⟨bind_ok_iff.2 ⟨b, hb, hscan⟩, hread⟩
  · rintro ⟨his, hread⟩
    obtain ⟨b, hb, hscan⟩ := bind_ok_iff.1 his
    exact bind_ok_iff.2 ⟨b, hb, bind_ok_iff.2 ⟨_, hscan, paired_ok_iff.2 ⟨rfl, hread⟩⟩⟩

/-- No two sites of a body stand at one offset. -/
theorem sites_unique {pool : ConstantPool} {bootstraps : List Bootstrap} {payload : List UInt8}
    {ss : List (Instruction × Site)} (h : sites pool bootstraps payload = .ok ss)
    {s s' : Instruction × Site} (hs : s ∈ ss) (hs' : s' ∈ ss) (hoffset : s.1.offset = s'.1.offset) :
    s = s' := by
  obtain ⟨hscan, -⟩ := sites_ok_iff.1 h
  obtain ⟨b, -, hscan⟩ := bind_ok_iff.1 hscan
  have hnodup : (ss.map fun s => s.1.offset).Nodup :=
    List.pairwise_map.2 ((List.pairwise_map.1 (Instruction.scanFrom_offsets hscan)).imp Nat.ne_of_lt)
  exact List.inj_on_of_nodup_map hnodup hs hs' hoffset

/-- The sites that stand where one was, if it is overwritten. -/
def Site.overwritten (f : Instruction × Site → Option (Vector UInt8 3)) (s : Instruction × Site) :
    List (Instruction × Site) :=
  match f s with
  | some bytes => (spread s.1.offset bytes).map (·, .plain)
  | none => [s]

theorem Opcode.eq_of_isFieldAccess {op : UInt8} (h : isFieldAccess op = true) :
    op = getstatic ∨ op = putstatic ∨ op = getfield ∨ op = putfield := by
  unfold isFieldAccess at h
  simp only [Bool.and_eq_true, decide_eq_true_eq, UInt8.le_iff_toNat_le] at h
  have hrange : 178 ≤ op.toNat ∧ op.toNat ≤ 181 := h
  simp only [← UInt8.toNat_inj]
  change op.toNat = 178 ∨ op.toNat = 179 ∨ op.toNat = 180 ∨ op.toNat = 181
  omega

theorem Opcode.layout_of_isFieldAccess {op : UInt8} (h : isFieldAccess op = true) :
    layout? op = some (.fixed 2) := by
  obtain rfl | rfl | rfl | rfl := eq_of_isFieldAccess h
  all_goals rfl

/-- An instruction that accesses a field takes three bytes. -/
theorem Instruction.operands_of_isFieldAccess {base : Nat} {code : List UInt8}
    {is : List Instruction} (h : scanFrom base code = .ok is) {i : Instruction} (hi : i ∈ is)
    (haccess : Opcode.isFieldAccess i.opcode = true) : i.operands.length = 2 := by
  obtain ⟨rest, hlength⟩ := operandLength_of_scanFrom h hi
  unfold operandLength at hlength
  rw [Opcode.layout_of_isFieldAccess haccess] at hlength
  exact (Except.ok.inj hlength).symm

theorem Body.operands_of_isFieldAccess {payload : List UInt8} {is : List Instruction}
    (h : Body.instructions payload = .ok is) {i : Instruction} (hi : i ∈ is)
    (haccess : Opcode.isFieldAccess i.opcode = true) : i.operands.length = 2 := by
  obtain ⟨b, -, hscan⟩ := bind_ok_iff.1 h
  exact Instruction.operands_of_isFieldAccess hscan hi haccess

/-- An opcode of one byte that refers to nothing. -/
structure Opcode.Inert (op : UInt8) : Prop where
  layout : layout? op = some (.fixed 0)
  access : isFieldAccess op = false
  invoke : isInvoke op = false
  dynamic : op ≠ invokedynamic

theorem Site.read_inert {pool : ConstantPool} {bootstraps : List Bootstrap} {i : Instruction}
    (h : Opcode.Inert i.opcode) : Site.read pool bootstraps i = .ok .plain := by
  unfold Site.read
  rw [h.access, h.invoke, if_neg (by simp), if_neg (by simp), if_neg h.dynamic]
  rfl

theorem Neutral.inert_of_replacement? {op : UInt8} {descriptor : String} {v : Vector UInt8 3}
    (h : Neutral.replacement? op descriptor = some v) : ∀ b ∈ v.toList, Opcode.Inert b := by
  have hnop : Opcode.Inert Opcode.nop := ⟨rfl, rfl, rfl, by decide⟩
  have hpop : Opcode.Inert Opcode.pop := ⟨rfl, rfl, rfl, by decide⟩
  have hpush {push : UInt8} (h : Neutral.pushDefault? descriptor = some push) :
      Opcode.Inert push := by
    unfold Neutral.pushDefault? at h
    split at h <;> cases h <;> exact ⟨rfl, rfl, rfl, by decide⟩
  have hdiscard : Opcode.Inert (Neutral.discard descriptor) := by
    unfold Neutral.discard
    split <;> exact ⟨rfl, rfl, rfl, by decide⟩
  unfold Neutral.replacement? at h
  cases hd : Neutral.pushDefault? descriptor with
  | none => simp [hd] at h
  | some push =>
    have hpush := hpush hd
    simp only [hd, Option.bind_eq_bind, Option.bind_some] at h
    split at h
    · cases h
      simp [hdiscard, hpop, hnop]
    split at h
    · cases h
      simp [hdiscard, hnop]
    split at h
    · cases h
      simp [hpop, hpush, hnop]
    split at h
    · cases h
      simp [hpush, hnop]
    · cases h

/-- A body whose accesses were overwritten has inert instructions in their places, and every other
site as it was. -/
theorem sites_overwritten {pool : ConstantPool} {bootstraps : List Bootstrap}
    {payload : List UInt8} {ss : List (Instruction × Site)}
    (h : sites pool bootstraps payload = .ok ss) {f : Instruction × Site → Option (Vector UInt8 3)}
    (hf : ∀ s v, f s = some v → (∃ op target, s.2 = .access op target) ∧
      ∀ b ∈ v.toList, Opcode.Inert b) :
    sites pool bootstraps (Walk.applyPatches payload
        (ss.filterMap fun s => (f s).map (⟨s.1.offset, ·⟩))) =
      .ok (ss.flatMap (Site.overwritten f)) := by
  obtain ⟨hscan, hread⟩ := sites_ok_iff.1 h
  have hpairs : (ss.map fun s => (s.1, f s)).map (·.1) = ss.map (·.1) := by
    rw [List.map_map]
    rfl
  rw [← hpairs] at hscan
  have hspreads : ∀ p ∈ ss.map fun s => (s.1, f s), ∀ v, p.2 = some v → p.1.Spreads v := by
    intro p hp v hv
    obtain ⟨s, hs, rfl⟩ := List.mem_map.1 hp
    obtain ⟨⟨op, target, hsite⟩, hinert⟩ := hf s v hv
    exact ⟨Body.operands_of_isFieldAccess hscan (List.mem_map_of_mem (List.mem_map_of_mem hs))
      (Site.opcode_of_access (hsite ▸ hread s hs)), fun b hb => (hinert b hb).layout⟩
  have hpatched := Body.instructions_overwritten hscan hspreads
  rw [List.filterMap_map] at hpatched
  have hinstructions : (ss.flatMap (Site.overwritten f)).map (·.1) =
      (ss.map fun s => (s.1, f s)).flatMap overwritten := by
    rw [List.map_flatMap, List.flatMap_map]
    refine List.flatMap_congr fun s _ => ?_
    unfold Site.overwritten
    cases f s <;> simp [overwritten, Function.comp_def]
  refine sites_ok_iff.2 ⟨hpatched.trans (congrArg Except.ok hinstructions.symm), fun s' hs' => ?_⟩
  obtain ⟨s, hs, hs'⟩ := List.mem_flatMap.1 hs'
  unfold Site.overwritten at hs'
  cases hv : f s with
  | none =>
    rw [hv] at hs'
    obtain rfl := List.mem_singleton.1 hs'
    exact hread s' hs
  | some v =>
    rw [hv] at hs'
    obtain ⟨i, hi, rfl⟩ := List.mem_map.1 hs'
    refine Site.read_inert ((hf s v hv).2 _ ?_)
    rw [← Instruction.bytes_spread s.1.offset v]
    exact List.mem_flatMap.2 ⟨i, hi, List.mem_cons_self ..⟩

/-- What a patched body refers to. -/
theorem sites_patched {pool : ConstantPool} {bootstraps : List Bootstrap} {payload : List UInt8}
    {ss : List (Instruction × Site)} (h : sites pool bootstraps payload = .ok ss) (l : Ledger)
    (self : String) : ∃ ss', sites pool bootstraps (Walk.applyPatches payload
        (ss.filterMap fun s => s.2.patch? l self s.1)) = .ok ss' ∧
      ∀ s' ∈ ss', s' ∈ ss ∧ s'.2.patch? l self s'.1 = none ∨
        s'.1.operands = [] ∧ s'.2 = .plain := by
  let f (s : Instruction × Site) : Option (Vector UInt8 3) :=
    (s.2.patch? l self s.1).map Patch.bytes
  have hpatches : (fun s : Instruction × Site => s.2.patch? l self s.1) =
      fun s => (f s).map (⟨s.1.offset, ·⟩) := by
    funext s
    cases hp : s.2.patch? l self s.1 with
    | none => simp [f, hp]
    | some p =>
      obtain ⟨-, -, -, -, hoffset, -⟩ := Site.patch?_some hp
      simp [f, hp, ← hoffset]
  refine ⟨ss.flatMap (Site.overwritten f), hpatches ▸ sites_overwritten h fun s v hv => ?_,
    fun s' hs' => ?_⟩
  · obtain ⟨p, hp, rfl⟩ := Option.map_eq_some_iff.1 hv
    obtain ⟨op, target, hsite, -, -, hbytes⟩ := Site.patch?_some hp
    exact ⟨⟨op, target, hsite⟩, Neutral.inert_of_replacement? hbytes⟩
  · obtain ⟨s, hs, hs'⟩ := List.mem_flatMap.1 hs'
    unfold Site.overwritten at hs'
    cases hv : f s with
    | none =>
      rw [hv] at hs'
      obtain rfl := List.mem_singleton.1 hs'
      exact .inl ⟨hs, Option.map_eq_none_iff.1 hv⟩
    | some v =>
      rw [hv] at hs'
      obtain ⟨i, hi, rfl⟩ := List.mem_map.1 hs'
      exact .inr ⟨Instruction.operands_of_mem_spread hi, rfl⟩

end JarPruning
