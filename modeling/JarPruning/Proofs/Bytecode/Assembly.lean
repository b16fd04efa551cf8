import JarPruning.Proofs.Bytecode.Overwritten

/-!
Machine code told by its commands. A command is written with every operand it has, and the operands
of a switch begin at a multiple of four; scanning code finds the commands that it was written from,
and finds instructions in no other code.
-/
namespace JarPruning

namespace Assembly

open BigEndian
open Opcode (layout?)

/-- The operands of a command that takes the same room wherever it stands. -/
inductive Format where
  /-- Nothing: constants, moves, arithmetic, returns and monitors, and what is left to debuggers. -/
  | bare
  /-- A small number, the type of an array's items, or a constant near the front of the pool. -/
  | byte
  | slot
  /-- A number. -/
  | short
  /-- A constant anywhere in the pool. -/
  | constant
  /-- A slot and what is added to it. -/
  | increment
  | branch
  | farBranch
  /-- A method, the slots of its arguments and a byte without a meaning. -/
  | interfaceCall
  /-- A call site and two bytes without a meaning. -/
  | dynamicCall
  /-- The type of an array and the number of dimensions to allocate. -/
  | dimensions
  deriving DecidableEq, Repr

namespace Format

/-- The bytes of each operand. -/
def widths : Format → List Nat
  | .bare => []
  | .byte | .slot => [1]
  | .short | .constant | .branch => [2]
  | .increment => [1, 1]
  | .farBranch => [4]
  | .interfaceCall | .dynamicCall => [2, 1, 1]
  | .dimensions => [2, 1]

def width (f : Format) : Nat := f.widths.foldr (· + ·) 0

/-- The opcodes of a format, by ranges. -/
def ranges : Format → List (UInt8 × UInt8)
  | .bare => [(0x00, 0x0F), (0x1A, 0x35), (0x3B, 0x83), (0x85, 0x98), (0xAC, 0xB1), (0xBE, 0xBF),
      (0xC2, 0xC3), (0xCA, 0xCA), (0xFE, 0xFF)]
  | .byte => [(0x10, 0x10), (0x12, 0x12), (0xBC, 0xBC)]
  | .slot => [(0x15, 0x19), (0x36, 0x3A), (0xA9, 0xA9)]
  | .short => [(0x11, 0x11)]
  | .constant => [(0x13, 0x14), (0xB2, 0xB8), (0xBB, 0xBB), (0xBD, 0xBD), (0xC0, 0xC1)]
  | .increment => [(0x84, 0x84)]
  | .branch => [(0x99, 0xA8), (0xC6, 0xC7)]
  | .farBranch => [(0xC8, 0xC9)]
  | .interfaceCall => [(0xB9, 0xB9)]
  | .dynamicCall => [(0xBA, 0xBA)]
  | .dimensions => [(0xC5, 0xC5)]

def has (f : Format) (op : UInt8) : Bool :=
  f.ranges.any fun (first, last) => first ≤ op && op ≤ last

/-- The format of an opcode. -/
def of? (op : UInt8) : Option Format :=
  [bare, byte, slot, short, constant, increment, branch, farBranch, interfaceCall, dynamicCall,
    dimensions].find? (·.has op)

end Format

def tableOpcode : UInt8 := 0xAA

def lookupOpcode : UInt8 := 0xAB

def wideOpcode : UInt8 := 0xC4

/-- An opcode has the width of its format; the three opcodes whose operands tell how many there are
have no format. -/
theorem layout?_eq (op : UInt8) : layout? op =
    match Format.of? op with
    | some format => some (.fixed format.width)
    | none =>
      if op = tableOpcode then some .table
      else if op = lookupOpcode then some .lookup
      else if op = wideOpcode then some .wide
      else none := by
  have hall : ∀ n < 256, layout? (UInt8.ofNat n) =
      match Format.of? (UInt8.ofNat n) with
      | some format => some (.fixed format.width)
      | none =>
        if UInt8.ofNat n = tableOpcode then some .table
        else if UInt8.ofNat n = lookupOpcode then some .lookup
        else if UInt8.ofNat n = wideOpcode then some .wide
        else none := by
    decide +kernel
  have h := hall op.toNat op.toNat_lt
  rwa [UInt8.ofNat_toNat] at h

/-- The bytes from an offset up to the next multiple of four. -/
def fill (offset : Nat) : Nat := (offset + 3) / 4 * 4 - offset

/-- The bytes of a signed number. -/
def word (x : Int32) : List UInt8 := word32 x.toUInt32

/-- A command with its operands. Whatever stands between a switch and its operands is a part of it:
as many of three bytes as it takes. -/
inductive Command where
  | plain (op : UInt8) (format : Format) (known : Format.of? op = some format)
    (operands : List UInt8) (room : operands.length = format.width)
  /-- A target for each key from `low` to `high`. -/
  | tableSwitch (pad : Vector UInt8 3) (fallback low high : Int32) (targets : List Int32)
    (keys : (targets.length : Int) = high.toInt - low.toInt + 1) (bound : targets.length < 2 ^ 31)
  /-- Keys with their targets. -/
  | lookupSwitch (pad : Vector UInt8 3) (fallback : Int32) (pairs : List (Int32 × Int32))
    (bound : pairs.length < 2 ^ 31)
  /-- A command with a slot beyond the first 256. -/
  | wide (op : UInt8) (other : op ≠ Opcode.iinc) (slot : UInt16)
  | wideIncrement (slot amount : UInt16)

namespace Command

def opcode : Command → UInt8
  | .plain op .. => op
  | .tableSwitch .. => tableOpcode
  | .lookupSwitch .. => lookupOpcode
  | .wide .. | .wideIncrement .. => wideOpcode

/-- The bytes behind the opcode of a command that stands at `offset`. -/
def operands (offset : Nat) : Command → List UInt8
  | .plain _ _ _ operands _ => operands
  | .tableSwitch pad fallback low high targets _ _ =>
    pad.toList.take (fill (offset + 1)) ++ (fallback :: low :: high :: targets).flatMap word
  | .lookupSwitch pad fallback pairs _ =>
    pad.toList.take (fill (offset + 1)) ++
      (fallback :: Int32.ofNat pairs.length :: pairs.flatMap fun p => [p.1, p.2]).flatMap word
  | .wide op _ slot => op :: word16 slot
  | .wideIncrement slot amount => Opcode.iinc :: word16 slot ++ word16 amount

end Command

/-- Commands one after another, the first of them at `offset`. -/
def listing (offset : Nat) : List Command → List Instruction
  | [] => []
  | c :: program =>
    let i : Instruction := ⟨offset, c.opcode, c.operands offset⟩
    i :: listing (offset + i.length) program

def assemble (program : List Command) : List UInt8 := (listing 0 program).flatMap Instruction.bytes

/-- Each instruction has a length and begins where the one before it ends. -/
def Tiles : Nat → List Instruction → Nat → Prop
  | start, [], stop => start = stop
  | start, i :: is, stop => i.offset = start ∧ 0 < i.length ∧ Tiles (start + i.length) is stop

/-! Words and where they are read. -/

theorem padding_eq (offset : Nat) : Instruction.padding offset = fill (offset + 1) := by
  unfold Instruction.padding fill
  omega

@[simp] theorem length_word (x : Int32) : (word x).length = 4 := length_word32 _

theorem value_word (x : Int32) : Int.bmod (value (word x)) UInt32.size = x.toInt := by
  rw [word, value_word32, Int32.toInt, BitVec.toInt_eq_toNat_bmod]
  rfl

@[simp] theorem length_words (ws : List Int32) : (ws.flatMap word).length = 4 * ws.length := by
  induction ws with
  | nil => rfl
  | cons w ws ih =>
    rw [List.flatMap_cons, List.length_append, ih, length_word, List.length_cons]
    omega

/-- A word is read from behind the words before it. -/
theorem operand32_words (offset : Nat) (pad rest : List UInt8) (before after : List Int32)
    (x : Int32) : Instruction.operand32 offset (pad.length + 4 * before.length)
      (pad ++ (before ++ x :: after).flatMap word ++ rest) = .ok x.toInt := by
  have hsplit : pad ++ (before ++ x :: after).flatMap word ++ rest =
      (pad ++ before.flatMap word) ++ (word x ++ (after.flatMap word ++ rest)) := by
    simp only [List.flatMap_append, List.flatMap_cons, List.append_assoc]
  have hcut := cut?_append (word x) (after.flatMap word ++ rest)
  rw [length_word] at hcut
  rw [Instruction.operand32, hsplit, ← length_words before, ← List.length_append, List.drop_left,
    hcut]
  exact congrArg Except.ok (value_word x)

theorem eq_of_operand32 {offset : Nat} {pad rest : List UInt8} (before : List Int32)
    {after : List Int32} {x : Int32} {y : Int} (hpad : pad.length = Instruction.padding offset)
    (h : Instruction.operand32 offset (Instruction.padding offset + 4 * before.length)
      (pad ++ (before ++ x :: after).flatMap word ++ rest) = .ok y) : y = x.toInt := by
  rw [← hpad] at h
  exact Except.ok.inj (h.symm.trans (operand32_words offset pad rest before after x))

theorem exists_word16 (bytes : List UInt8) (h : bytes.length = 2) : ∃ w, bytes = word16 w := by
  have hvalue := value_lt bytes
  have hdigits := digits_value bytes
  rw [h] at hvalue hdigits
  have hword : value bytes < 2 ^ 16 := hvalue
  refine ⟨UInt16.ofNat (value bytes), ?_⟩
  rw [word16, UInt16.toNat_ofNat', Nat.mod_eq_of_lt hword, hdigits]

theorem exists_word (bytes : List UInt8) (h : bytes.length = 4) : ∃ x, bytes = word x := by
  have hvalue := value_lt bytes
  have hdigits := digits_value bytes
  rw [h] at hvalue hdigits
  have hword : value bytes < 2 ^ 32 := hvalue
  refine ⟨(UInt32.ofNat (value bytes)).toInt32, ?_⟩
  show bytes = word32 (UInt32.ofNat (value bytes))
  rw [word32, UInt32.toNat_ofNat', Nat.mod_eq_of_lt hword, hdigits]

theorem exists_words (n : Nat) (bytes : List UInt8) (h : bytes.length = 4 * n) :
    ∃ ws : List Int32, ws.length = n ∧ bytes = ws.flatMap word := by
  induction n generalizing bytes with
  | zero => exact ⟨[], rfl, List.eq_nil_of_length_eq_zero h⟩
  | succ n ih =>
    obtain ⟨w, hw⟩ := exists_word (bytes.take 4) (by rw [List.length_take]; omega)
    obtain ⟨ws, rfl, hws⟩ := ih (bytes.drop 4) (by rw [List.length_drop]; omega)
    exact ⟨w :: ws, rfl, by rw [List.flatMap_cons, ← hw, ← hws, List.take_append_drop]⟩

@[simp] theorem length_pairs {α : Type} (pairs : List (α × α)) :
    (pairs.flatMap fun p => [p.1, p.2]).length = 2 * pairs.length := by
  simp [Nat.mul_comm]

theorem exists_pairs (n : Nat) (ws : List Int32) (h : ws.length = 2 * n) :
    ∃ pairs : List (Int32 × Int32), pairs.length = n ∧ ws = pairs.flatMap fun p => [p.1, p.2] := by
  induction n generalizing ws with
  | zero => exact ⟨[], rfl, List.eq_nil_of_length_eq_zero h⟩
  | succ n ih =>
    match ws, h with
    | a :: b :: ws, h =>
      obtain ⟨pairs, rfl, rfl⟩ := ih ws (by simp only [List.length_cons] at h; omega)
      exact ⟨(a, b) :: pairs, rfl, rfl⟩

/-- Bytes that fill up are the first of three. -/
theorem exists_pad (bytes : List UInt8) {k : Nat} (hk : k ≤ 3) (h : bytes.length = k) :
    ∃ pad : Vector UInt8 3, pad.toList.take k = bytes := by
  subst h
  refine ⟨⟨(bytes ++ List.replicate (3 - bytes.length) 0).toArray, ?_⟩, ?_⟩
  · simp only [List.size_toArray, List.length_append, List.length_replicate]
    omega
  · exact List.take_left

theorem fill_le (offset : Nat) : fill offset ≤ 3 := by
  unfold fill
  omega

@[simp] theorem length_pad (pad : Vector UInt8 3) (offset : Nat) :
    (pad.toList.take (fill offset)).length = fill offset := by
  have := fill_le offset
  rw [List.length_take, Vector.length_toList]
  omega

/-- Bytes behind a switch are what fills up and words. -/
theorem exists_padded (offset n : Nat) (bytes : List UInt8)
    (h : bytes.length = Instruction.padding offset + 4 * n) :
    ∃ (pad : Vector UInt8 3) (ws : List Int32), ws.length = n ∧
      bytes = pad.toList.take (fill (offset + 1)) ++ ws.flatMap word := by
  have hfill := fill_le (offset + 1)
  rw [padding_eq] at h
  obtain ⟨pad, hpad⟩ := exists_pad (bytes.take (fill (offset + 1))) hfill
    (by rw [List.length_take]; omega)
  obtain ⟨ws, hlength, hws⟩ := exists_words n (bytes.drop (fill (offset + 1)))
    (by rw [List.length_drop]; omega)
  exact ⟨pad, ws, hlength, by rw [hpad, ← hws, List.take_append_drop]⟩

/-! One command. -/

namespace Command

/-- The scanner takes from what stands behind an opcode exactly the operands. -/
theorem operandLength_operands (c : Command) (offset : Nat) (rest : List UInt8) :
    Instruction.operandLength offset c.opcode (c.operands offset ++ rest) =
      .ok (c.operands offset).length := by
  unfold Instruction.operandLength
  cases c with
  | plain op format known operands room =>
    rw [opcode, layout?_eq, known]
    exact congrArg Except.ok room.symm
  | tableSwitch pad fallback low high targets keys bound =>
    have hlayout : layout? tableOpcode = some .table := by decide
    have hpad := length_pad pad (offset + 1)
    rw [opcode, hlayout, Command.operands, List.length_append, length_words]
    generalize pad.toList.take (fill (offset + 1)) = front at hpad
    rw [← padding_eq] at hpad
    have hlow := operand32_words offset front rest [fallback] (high :: targets) low
    have hhigh := operand32_words offset front rest [fallback, low] targets high
    rw [hpad] at hlow hhigh
    refine bind_ok_iff.2 ⟨low.toInt, hlow, bind_ok_iff.2 ⟨high.toInt, hhigh, ?_⟩⟩
    have hrange : 0 ≤ high.toInt - low.toInt + 1 ∧ high.toInt - low.toInt + 1 < Int32.size / 2 := by
      rw [← keys, show ((Int32.size : Nat) : Int) / 2 = 2 ^ 31 from rfl]
      omega
    dsimp only
    rw [if_pos hrange, ← keys, hpad]
    refine congrArg Except.ok ?_
    simp only [List.length_cons, Int.toNat_natCast]
    omega
  | lookupSwitch pad fallback pairs bound =>
    have hlayout : layout? lookupOpcode = some .lookup := by decide
    have hpad := length_pad pad (offset + 1)
    rw [opcode, hlayout, Command.operands, List.length_append, length_words]
    generalize pad.toList.take (fill (offset + 1)) = front at hpad
    rw [← padding_eq] at hpad
    have hpairs := operand32_words offset front rest [fallback]
      (pairs.flatMap fun p => [p.1, p.2]) (Int32.ofNat pairs.length)
    rw [hpad, Int32.toInt_ofNat_of_lt bound] at hpairs
    refine bind_ok_iff.2 ⟨pairs.length, hpairs, ?_⟩
    rw [if_neg (by omega), hpad]
    refine congrArg Except.ok ?_
    simp only [List.length_cons, length_pairs, Int.toNat_natCast]
    omega
  | wide op other slot =>
    have hlayout : layout? wideOpcode = some .wide := by decide
    rw [opcode, hlayout]
    simp [Command.operands, Instruction.wideLength, other]
  | wideIncrement slot amount =>
    have hlayout : layout? wideOpcode = some .wide := by decide
    rw [opcode, hlayout]
    simp [Command.operands, Instruction.wideLength]

/-! What the scanner takes as operands are the operands of a command. -/

theorem exists_tableSwitch {offset : Nat} {operands rest : List UInt8}
    (h : Instruction.tableLength offset (operands ++ rest) = .ok operands.length) :
    ∃ c : Command, c.opcode = tableOpcode ∧ c.operands offset = operands := by
  obtain ⟨low, hlow, h⟩ := bind_ok_iff.1 h
  obtain ⟨high, hhigh, h⟩ := bind_ok_iff.1 h
  dsimp only at h
  split at h
  case isFalse => cases h
  next hkeys =>
  obtain ⟨pad, ws, hws, rfl⟩ := exists_padded offset ((high - low + 1).toNat + 3) operands
    (by have := Except.ok.inj h; omega)
  match ws, hws with
  | fallback :: first :: last :: targets, hws =>
    have hpad := (length_pad pad (offset + 1)).trans (padding_eq offset).symm
    obtain rfl := eq_of_operand32 [fallback] hpad hlow
    obtain rfl := eq_of_operand32 [fallback, first] hpad hhigh
    have hcount : targets.length = (last.toInt - first.toInt + 1).toNat := by simpa using hws
    rw [show ((Int32.size : Nat) : Int) / 2 = 2 ^ 31 from rfl] at hkeys
    exact ⟨.tableSwitch pad fallback first last targets (by omega) (by omega), rfl, rfl⟩

theorem exists_lookupSwitch {offset : Nat} {operands rest : List UInt8}
    (h : Instruction.lookupLength offset (operands ++ rest) = .ok operands.length) :
    ∃ c : Command, c.opcode = lookupOpcode ∧ c.operands offset = operands := by
  obtain ⟨count, hcount, h⟩ := bind_ok_iff.1 h
  split at h
  case isTrue => cases h
  next hcount' =>
  obtain ⟨pad, ws, hws, rfl⟩ := exists_padded offset (2 * count.toNat + 2) operands
    (by have := Except.ok.inj h; omega)
  match ws, hws with
  | fallback :: n :: ws, hws =>
    have hpad := (length_pad pad (offset + 1)).trans (padding_eq offset).symm
    obtain rfl := eq_of_operand32 [fallback] hpad hcount
    obtain ⟨pairs, hpairs, rfl⟩ := exists_pairs n.toInt.toNat ws (by simpa using hws)
    have hn := n.toInt_lt
    have hbound : pairs.length < 2 ^ 31 := by omega
    obtain rfl : Int32.ofNat pairs.length = n := by
      rw [← Int32.toInt_inj, Int32.toInt_ofNat_of_lt hbound]
      omega
    exact ⟨.lookupSwitch pad fallback pairs hbound, rfl, rfl⟩

theorem exists_wide {offset : Nat} {operands rest : List UInt8}
    (h : Instruction.wideLength offset (operands ++ rest) = .ok operands.length) :
    ∃ c : Command, c.opcode = wideOpcode ∧ c.operands offset = operands := by
  cases operands with
  | nil =>
    cases rest with
    | nil => cases h
    | cons b rest =>
      have := Except.ok.inj h
      split at this <;> cases this
  | cons b operands =>
    have hlength := Except.ok.inj h
    split at hlength
    · next hb =>
      obtain ⟨slot, hslot⟩ := exists_word16 (operands.take 2)
        (by rw [List.length_take]; simp only [List.length_cons] at hlength; omega)
      obtain ⟨amount, hamount⟩ := exists_word16 (operands.drop 2)
        (by rw [List.length_drop]; simp only [List.length_cons] at hlength; omega)
      refine ⟨.wideIncrement slot amount, rfl, ?_⟩
      rw [Command.operands, ← hslot, ← hamount, List.cons_append, List.take_append_drop, hb]
    · next hb =>
      obtain ⟨slot, hslot⟩ := exists_word16 operands (Nat.succ.inj hlength).symm
      exact ⟨.wide b hb slot, rfl, by rw [Command.operands, ← hslot]⟩

theorem exists_of_operandLength {offset : Nat} {op : UInt8} {operands rest : List UInt8}
    (h : Instruction.operandLength offset op (operands ++ rest) = .ok operands.length) :
    ∃ c : Command, c.opcode = op ∧ c.operands offset = operands := by
  unfold Instruction.operandLength at h
  rw [layout?_eq] at h
  cases hformat : Format.of? op with
  | some format =>
    rw [hformat] at h
    exact ⟨.plain op format hformat operands (Except.ok.inj h).symm, rfl, rfl⟩
  | none =>
    rw [hformat] at h
    dsimp only at h
    by_cases htable : op = tableOpcode
    · rw [if_pos htable] at h
      exact htable ▸ exists_tableSwitch h
    rw [if_neg htable] at h
    by_cases hlookup : op = lookupOpcode
    · rw [if_pos hlookup] at h
      exact hlookup ▸ exists_lookupSwitch h
    rw [if_neg hlookup] at h
    by_cases hwide : op = wideOpcode
    · rw [if_pos hwide] at h
      exact hwide ▸ exists_wide h
    · rw [if_neg hwide] at h
      cases h

end Command

/-! Programs. -/

theorem scanFrom_listing (program : List Command) (offset : Nat) :
    Instruction.scanFrom offset ((listing offset program).flatMap Instruction.bytes) =
      .ok (listing offset program) := by
  induction program generalizing offset with
  | nil => rw [listing, List.flatMap_nil, Instruction.scanFrom]
  | cons c program ih =>
    have hrest := ih (offset + 1 + (c.operands offset).length)
    have hoffset : offset + ((c.operands offset).length + 1) =
        offset + 1 + (c.operands offset).length := by omega
    rw [listing, List.flatMap_cons]
    dsimp only [Instruction.length, Instruction.bytes]
    rw [hoffset]
    exact Instruction.scanFrom_cons (c.operandLength_operands offset _) hrest

theorem exists_listing {offset : Nat} {code : List UInt8} {is : List Instruction}
    (h : Instruction.scanFrom offset code = .ok is) : ∃ program, listing offset program = is := by
  induction is generalizing offset code with
  | nil => exact ⟨[], rfl⟩
  | cons i is ih =>
    obtain ⟨rest, -, rfl, hlength, hrest⟩ := Instruction.scanFrom_cons_ok h
    obtain ⟨c, hopcode, hoperands⟩ := Command.exists_of_operandLength hlength
    obtain ⟨program, rfl⟩ := ih hrest
    refine ⟨c :: program, ?_⟩
    have hoffset : i.offset + ((c.operands i.offset).length + 1) =
        i.offset + 1 + i.operands.length := by rw [hoperands]; omega
    rw [listing]
    dsimp only [Instruction.length]
    rw [hoffset, hopcode, hoperands]

theorem tiles_of_scanFrom {offset : Nat} {code : List UInt8} {is : List Instruction}
    (h : Instruction.scanFrom offset code = .ok is) : Tiles offset is (offset + code.length) := by
  induction is generalizing offset code with
  | nil =>
    obtain rfl : code = [] := Instruction.scanFrom_bytes h
    rfl
  | cons i is ih =>
    obtain ⟨rest, rfl, rfl, -, hrest⟩ := Instruction.scanFrom_cons_ok h
    refine ⟨rfl, Nat.succ_pos _, ?_⟩
    have hstart : i.offset + i.length = i.offset + 1 + i.operands.length := by
      unfold Instruction.length
      omega
    have hstop : i.offset + (i.bytes ++ rest).length =
        i.offset + 1 + i.operands.length + rest.length := by
      simp only [Instruction.bytes, List.length_append, List.length_cons]
      omega
    rw [hstart, hstop]
    exact ih hrest

/-- Scanning undoes assembly: a program that was assembled is found again, instruction by
instruction, and whatever scanning accepts is laid without a gap over all of the code and was
assembled from a program. -/
theorem scan_undoes_assemble :
    (∀ program, Instruction.scan (assemble program) = .ok (listing 0 program)) ∧
    ∀ code is, Instruction.scan code = .ok is →
      Tiles 0 is code.length ∧ ∃ program, assemble program = code ∧ listing 0 program = is := by
  refine ⟨fun program => scanFrom_listing program 0, fun code is h => ⟨?_, ?_⟩⟩
  · have htiles := tiles_of_scanFrom h
    rwa [Nat.zero_add] at htiles
  · obtain ⟨program, rfl⟩ := exists_listing h
    exact ⟨program, (Instruction.scanFrom_bytes h).symm, rfl⟩

/-- Both switches, one of them without keys, behind and before other commands. -/
def branching : List Command :=
  [.plain 0x1A .bare (by decide) [] rfl,
   .tableSwitch #v[7, 7, 7] 40 (-1) 0 [8, 16] (by decide) (by decide),
   .wideIncrement 300 1,
   .lookupSwitch #v[7, 7, 7] 12 [(5, -30)] (by decide),
   .lookupSwitch #v[7, 7, 7] 12 [] (by decide),
   .plain Opcode.invokeinterface .interfaceCall (by decide) [0, 9, 1, 0] rfl,
   .plain Opcode.ret .bare (by decide) [] rfl]

theorem scan_undoes_assemble_branching :
    Instruction.scan (assemble branching) = .ok (listing 0 branching) ∧
    (listing 0 branching).map (fun i => (i.offset, i.opcode, i.length)) =
      [(0, 0x1A, 1), (1, 0xAA, 23), (24, 0xC4, 6), (30, 0xAB, 18), (48, 0xAB, 12), (60, 0xB9, 5),
       (65, 0xB1, 1)] ∧
    Tiles 0 (listing 0 branching) 66 := by
  have hscan := scan_undoes_assemble.1 branching
  exact ⟨hscan, by decide, (scan_undoes_assemble.2 _ _ hscan).1⟩

end Assembly

end JarPruning
