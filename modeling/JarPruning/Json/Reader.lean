import JarPruning.Json.Number
import JarPruning.Text.Hex

/-!
Reading a value from the front of a text, as far as the text is JSON. Values are nested to a limit,
so the reader of values is a recursion on the depth that is left; runs of characters, items and
members are bounded by the length of the text.
-/
namespace JarPruning.Json

/-! Strings. -/

/-- Four hexadecimal digits. -/
def unit? : List Char → Option (Front Nat)
  | a :: b :: c :: d :: rest => do
    let digits ← [a, b, c, d].mapM Hex.digitValue?
    return (digits.foldl (fun n d => 16 * n + d) 0, rest)
  | _ => none

/-- Whether a text has at least so many bytes. -/
def hasBytes : Nat → List Char → Bool
  | 0, _ => true
  | _ + 1, [] => false
  | n + 1, c :: rest => hasBytes (n + 1 - c.utf8Size) rest

/-- Four hexadecimal digits. A text is too short for them if it lacks the bytes. -/
def readUnit (cs : List Char) : Except Malformed (Front Nat) :=
  match unit? cs with
  | some unit => .ok unit
  | none => fail (if hasBytes 4 cs then .badEscape else .endInString)

def isHighSurrogate (n : Nat) : Bool := 0xD800 ≤ n && n ≤ 0xDBFF

def isLowSurrogate (n : Nat) : Bool := 0xDC00 ≤ n && n ≤ 0xDFFF

/-- The second half of a pair of surrogates. -/
def readLowSurrogate : List Char → Except Malformed (Front Nat)
  | [] => fail .endInString
  | ['\\'] => fail .endInString
  | '\\' :: 'u' :: rest => do
    let (low, rest) ← readUnit rest
    if isLowSurrogate low then return (low, rest) else fail .loneSurrogate
  | _ => fail .unpairedSurrogate

/-- The character that an escape stands for, behind its backslash. -/
def readEscape : List Char → Except Malformed (Front Char)
  | [] => fail .endInString
  | '"' :: rest => .ok ('"', rest)
  | '\\' :: rest => .ok ('\\', rest)
  | '/' :: rest => .ok ('/', rest)
  | 'b' :: rest => .ok ('\x08', rest)
  | 'f' :: rest => .ok ('\x0c', rest)
  | 'n' :: rest => .ok ('\n', rest)
  | 'r' :: rest => .ok ('\r', rest)
  | 't' :: rest => .ok ('\t', rest)
  | 'u' :: rest => do
    let (unit, rest) ← readUnit rest
    if isLowSurrogate unit then fail .loneSurrogate
    else if isHighSurrogate unit then
      let (low, rest) ← readLowSurrogate rest
      return (Char.ofNat (0x10000 + 0x400 * (unit - 0xD800) + (low - 0xDC00)), rest)
    else return (Char.ofNat unit, rest)
  | _ :: _ => fail .badEscape

/-- The characters up to the closing quote. -/
def readChars : (budget : Nat) → List Char → Except Malformed (Front (List Char))
  | 0, _ => fail .endInString
  | _ + 1, [] => fail .endInString
  | budget + 1, c :: rest =>
    if c = '"' then .ok ([], rest)
    else if c = '\\' then do
      let (d, rest) ← readEscape rest
      let (more, rest) ← readChars budget rest
      return (d :: more, rest)
    else if c.toNat < 0x20 then fail .rawControl
    else do
      let (more, rest) ← readChars budget rest
      return (c :: more, rest)

/-- A string behind its opening quote. -/
def readString (cs : List Char) : Except Malformed (Front String) := do
  let (chars, rest) ← readChars (cs.length + 1) cs
  return (String.ofList chars, rest)

/-! Lists and objects, given a reader of values. -/

/-- Goes to the next item of a list; none at its end. -/
def nextItem (first : Bool) (cs : List Char) : Except Malformed (Option (List Char)) :=
  match skipBlanks cs with
  | [] => fail .endInList
  | ']' :: _ => .ok none
  | c :: rest =>
    if first then .ok (some (c :: rest))
    else if c = ',' then
      match skipBlanks rest with
      | [] => fail .endInValue
      | ']' :: _ => fail .trailingComma
      | rest => .ok (some rest)
    else fail .noCommaInList

/-- Goes to the next key of an object, behind its opening quote; none at its end. -/
def nextKey (first : Bool) (cs : List Char) : Except Malformed (Option (List Char)) :=
  match skipBlanks cs with
  | [] => fail .endInObject
  | '\x7d' :: _ => .ok none
  | c :: rest =>
    if first then if c = '"' then .ok (some rest) else fail .badKey
    else if c = ',' then
      match skipBlanks rest with
      | [] => fail .endInValue
      | '"' :: rest => .ok (some rest)
      | '\x7d' :: _ => fail .trailingComma
      | _ => fail .badKey
    else fail .noCommaInObject

/-- Goes behind the colon. -/
def skipColon (cs : List Char) : Except Malformed (List Char) :=
  match skipBlanks cs with
  | [] => fail .endInObject
  | ':' :: rest => .ok rest
  | _ => fail .noColon

/-- What was read, and the text behind it unless reading stopped. -/
structure Reading (α : Type) where
  result : α
  rest : Option (List Char)
  deriving Repr

/-- The parts of a list or object, and what reading stopped at where another was expected. -/
abbrev Parts (α κ : Type) := List α × Option κ

namespace Reading

variable {α κ : Type}

def stopped (parts : List α) (cut : Option κ) : Reading (Parts α κ) := ⟨(parts, cut), none⟩

def cons (a : α) (more : Reading (Parts α κ)) : Reading (Parts α κ) :=
  ⟨(a :: more.result.1, more.result.2), more.rest⟩

/-- A value without parts is read as a whole or not at all. -/
def ofLeaf : Except Malformed (Front Value) → Reading Value
  | .ok (v, rest) => ⟨v, some rest⟩
  | .error why => ⟨.broken why, none⟩

end Reading

/-- The rest of a list; `first` if nothing of it is read. -/
def readItems (read : List Char → Reading Value) :
    (budget : Nat) → (first : Bool) → List Char → Reading (Parts Value Malformed)
  | 0, _, _ => .stopped [] (some .endInList)
  | budget + 1, first, cs =>
    match nextItem first cs with
    | .error why => .stopped [] (some why)
    | .ok none => ⟨([], none), some ((skipBlanks cs).drop 1)⟩
    | .ok (some rest) =>
      match read rest with
      | ⟨item, none⟩ => .stopped [item] none
      | ⟨item, some rest⟩ => .cons item (readItems read budget false rest)

/-- The key of a member, from behind its opening quote on. -/
def readKey (first : Bool) (cs : List Char) : Except Malformed (Option (Front String)) := do
  match ← nextKey first cs with
  | none => return none
  | some rest => return some (← readString rest)

/-- The rest of an object; `first` if nothing of it is read. -/
def readMembers (read : List Char → Reading Value) :
    (budget : Nat) → (first : Bool) → List Char → Reading (Parts (String × Value) ObjectCut)
  | 0, _, _ => .stopped [] (some (.atKey .endInObject))
  | budget + 1, first, cs =>
    match readKey first cs with
    | .error why => .stopped [] (some (.atKey why))
    | .ok none => ⟨([], none), some ((skipBlanks cs).drop 1)⟩
    | .ok (some (key, rest)) =>
      match skipColon rest with
      | .error why => .stopped [] (some (.behindKey key why))
      | .ok rest =>
        match read rest with
        | ⟨value, none⟩ => .stopped [(key, value)] none
        | ⟨value, some rest⟩ => .cons (key, value) (readMembers read budget false rest)

/-! Values. -/

/-- The rest of a literal whose first letter is read. -/
def readLiteral (value : Value) : (expected cs : List Char) → Except Malformed (Front Value)
  | [], cs => .ok (value, cs)
  | _ :: _, [] => fail .endInValue
  | e :: expected, c :: cs => if e = c then readLiteral value expected cs else fail .badLiteral

/-- Reads a value in which lists and objects are nested `depth` deep at most. -/
def readValue (depth : Nat) (cs : List Char) : Reading Value :=
  let cs := skipBlanks cs
  match cs with
  | [] => ⟨.broken .endInValue, none⟩
  | 'n' :: rest => .ofLeaf (readLiteral .null ['u', 'l', 'l'] rest)
  | 't' :: rest => .ofLeaf (readLiteral (.bool true) ['r', 'u', 'e'] rest)
  | 'f' :: rest => .ofLeaf (readLiteral (.bool false) ['a', 'l', 's', 'e'] rest)
  | '"' :: rest => .ofLeaf ((readString rest).map fun (s, rest) => (.string s, rest))
  | '[' :: rest =>
    match depth with
    | 0 => ⟨.broken .tooDeep, none⟩
    | depth + 1 =>
      let r := readItems (readValue depth) (rest.length + 1) true rest
      ⟨.array r.result.1 r.result.2, r.rest⟩
  | '\x7b' :: rest =>
    match depth with
    | 0 => ⟨.broken .tooDeep, none⟩
    | depth + 1 =>
      let r := readMembers (readValue depth) (rest.length + 1) true rest
      ⟨.object r.result.1 r.result.2, r.rest⟩
  | c :: _ =>
    if c = '-' || Number.isDigit c then
      .ofLeaf ((Number.read cs).map fun (n, rest) => (.number n, rest))
    else ⟨.broken .noValue, none⟩

def maxDepth : Nat := 127

/-- The first value of a text; what follows it does not count. -/
def firstValue (text : String) : Reading Value := readValue maxDepth text.toList

/-- Whether a text starts with a whole value. -/
def startsWithValue (text : String) : Bool := (firstValue text).rest.isSome

end JarPruning.Json
