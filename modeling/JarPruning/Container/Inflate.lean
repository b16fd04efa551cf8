import JarPruning.Container.Fault

/-!
Expanding compressed data. Bits are taken from the low end of each byte; symbols are spelled by
prefix codes that are given by the lengths of their words alone. Every symbol and every block
takes a bit or more, so their number is bounded by that of the bits.
-/
namespace JarPruning.Inflate

/-- How far a run of bytes has been read. -/
structure BitCursor where
  bytes : ByteArray
  /-- In bits. -/
  position : Nat

abbrev BitReader := StateT BitCursor (Except InflateFault)

def bit : BitReader Nat := fun c =>
  match c.bytes[c.position / 8]? with
  | some b => .ok (b.toNat >>> (c.position % 8) % 2, { c with position := c.position + 1 })
  | none => .error .truncated

/-- A number of so many bits, the lowest first. -/
def bits : Nat → BitReader Nat
  | 0 => return 0
  | n + 1 => do
    let low ← bit
    return low + 2 * (← bits n)

/-- Goes on to the next whole byte. -/
def align : BitReader Unit := modify fun c => { c with position := (c.position + 7) / 8 * 8 }

/-! Prefix codes. -/

/-- A code whose words of one length are consecutive numbers. -/
structure PrefixCode where
  /-- How many words there are of each length from one on. -/
  counts : List Nat
  /-- The symbols, by the lengths of their words and then by value. -/
  symbols : Array Nat

def maxLength : Nat := 15

/-- The code in which the word of each symbol has the given length; none at length zero. -/
def PrefixCode.ofLengths (lengths : List Nat) : PrefixCode :=
  let range := (List.range maxLength).map (· + 1)
  { counts := range.map fun n => lengths.countP (· = n)
    symbols := (range.flatMap fun n =>
      lengths.zipIdx.filterMap fun (l, s) => if l = n then some s else none).toArray }

/-- Looks for a word among those of the next lengths. `code` is what is read, `first` the first word
of the next length and `index` the number of shorter words. -/
def PrefixCode.find (c : PrefixCode) :
    (counts : List Nat) → (code first index : Nat) → BitReader Nat
  | [], _, _, _ => throw .symbol
  | count :: counts, code, first, index => do
    let code := 2 * code + (← bit)
    if code < first + count then
      match c.symbols[index + (code - first)]? with
      | some s => return s
      | none => throw .symbol
    else find c counts code (2 * (first + count)) (index + count)

def PrefixCode.symbol (c : PrefixCode) : BitReader Nat := c.find c.counts 0 0 0

/-! Symbols. -/

/-- A base and the number of bits to be added to it. -/
abbrev Extended := Nat × Nat

def lengths : List Extended :=
  [(3, 0), (4, 0), (5, 0), (6, 0), (7, 0), (8, 0), (9, 0), (10, 0), (11, 1), (13, 1), (15, 1),
    (17, 1), (19, 2), (23, 2), (27, 2), (31, 2), (35, 3), (43, 3), (51, 3), (59, 3), (67, 4),
    (83, 4), (99, 4), (115, 4), (131, 5), (163, 5), (195, 5), (227, 5), (258, 0)]

def distances : List Extended :=
  [(1, 0), (2, 0), (3, 0), (4, 0), (5, 1), (7, 1), (9, 2), (13, 2), (17, 3), (25, 3), (33, 4),
    (49, 4), (65, 5), (97, 5), (129, 6), (193, 6), (257, 7), (385, 7), (513, 8), (769, 8),
    (1025, 9), (1537, 9), (2049, 10), (3073, 10), (4097, 11), (6145, 11), (8193, 12), (12289, 12),
    (16385, 13), (24577, 13)]

def extended (table : List Extended) (index : Nat) : BitReader Nat := do
  match table[index]? with
  | some (base, extra) => return base + (← bits extra)
  | none => throw .symbol

/-- Repeats bytes from so far back; what is repeated may be part of what is added. -/
def repeatBack (out : ByteArray) (distance : Nat) : (count : Nat) → ByteArray
  | 0 => out
  | n + 1 => repeatBack (out.push (out[out.size - distance]?.getD 0)) distance n

/-- Symbols up to the one that ends the block. -/
def readSymbols (literals distant : PrefixCode) :
    (budget : Nat) → ByteArray → BitReader ByteArray
  | 0, _ => throw .truncated
  | budget + 1, out => do
    let s ← literals.symbol
    if s < 256 then readSymbols literals distant budget (out.push (UInt8.ofNat s))
    else if s = 256 then return out
    else
      let length ← extended lengths (s - 257)
      let distance ← extended distances (← distant.symbol)
      if out.size < distance then throw .distance
      readSymbols literals distant budget (repeatBack out distance length)

/-! Blocks. -/

def readStored (out : ByteArray) : BitReader ByteArray := do
  align
  let length ← bits 16
  let complement ← bits 16
  if length + complement ≠ 0xFFFF then throw .storedLength
  let c ← get
  let start := c.position / 8
  if c.bytes.size < start + length then throw .truncated
  set { c with position := c.position + 8 * length }
  return out ++ c.bytes.extract start (start + length)

def fixedLiterals : PrefixCode :=
  .ofLengths (List.replicate 144 8 ++ List.replicate 112 9 ++ List.replicate 24 7 ++
    List.replicate 8 8)

def fixedDistances : PrefixCode := .ofLengths (List.replicate 30 5)

/-- The order in which the lengths of the words for lengths come. -/
def lengthOrder : List Nat := [16, 17, 18, 0, 8, 7, 9, 6, 10, 5, 11, 4, 12, 3, 13, 2, 14, 1, 15]

/-- The lengths of words, the last first, until there are `total`. -/
def readLengths (code : PrefixCode) (total : Nat) : (budget : Nat) → List Nat → BitReader (List Nat)
  | 0, _ => throw .truncated
  | budget + 1, back => do
    if total ≤ back.length then return back
    let s ← code.symbol
    if s < 16 then readLengths code total budget (s :: back)
    else
      let (value, count) ←
        if s = 16 then
          match back with
          | last :: _ => pure (last, 3 + (← bits 2))
          | [] => throw .codeLengths
        else if s = 17 then pure (0, 3 + (← bits 3))
        else pure (0, 11 + (← bits 7))
      readLengths code total budget (List.replicate count value ++ back)

/-- The two codes that a block brings with it. -/
def readCodes : BitReader (PrefixCode × PrefixCode) := do
  let literalCount := 257 + (← bits 5)
  let distanceCount := 1 + (← bits 5)
  let lengthCount := 4 + (← bits 4)
  let given ← (lengthOrder.take lengthCount).mapM fun s => do return (s, ← bits 3)
  let code := PrefixCode.ofLengths ((List.range 19).map fun s => (given.lookup s).getD 0)
  let total := literalCount + distanceCount
  let lengths := (← readLengths code total (total + 1) []).reverse
  if lengths.length ≠ total then throw .codeLengths
  return (.ofLengths (lengths.take literalCount), .ofLengths (lengths.drop literalCount))

/-- Blocks up to the one that is marked as the last. -/
def readBlocks : (budget : Nat) → ByteArray → BitReader ByteArray
  | 0, _ => throw .truncated
  | budget + 1, out => do
    let last ← bit
    let limit := 8 * (← get).bytes.size
    let out ← match ← bits 2 with
      | 0 => readStored out
      | 1 => readSymbols fixedLiterals fixedDistances limit out
      | 2 => do
        let (literals, distant) ← readCodes
        readSymbols literals distant limit out
      | _ => throw .blockKind
    if last = 1 then return out else readBlocks budget out

def expand (compressed : ByteArray) : Except InflateFault ByteArray :=
  (·.1) <$> (readBlocks (8 * compressed.size) ByteArray.empty).run ⟨compressed, 0⟩

/-! The other way, without any saving: blocks that hold their bytes as they are. -/

def maxStored : Nat := 65535

def storedBlocks : (budget : Nat) → List UInt8 → List UInt8
  | 0, _ => []
  | budget + 1, contents =>
    let (block, rest) := contents.splitAt maxStored
    let n := block.length
    let last : UInt8 := if rest.isEmpty then 1 else 0
    let low (n : Nat) : List UInt8 := [UInt8.ofNat n, UInt8.ofNat (n / 256)]
    last :: low n ++ low (0xFFFF - n) ++ block ++
      if rest.isEmpty then [] else storedBlocks budget rest

def enclose (contents : List UInt8) : List UInt8 :=
  storedBlocks (contents.length / maxStored + 1) contents

end JarPruning.Inflate
