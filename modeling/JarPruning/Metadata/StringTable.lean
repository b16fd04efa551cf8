import JarPruning.Metadata.Message

/-!
The string table of a payload. A record describes how the strings of a run of consecutive indices
come about; indices behind the last run stand for the stored strings as they are.
-/
namespace JarPruning.Metadata

namespace StringTable

/-- Strings that every payload can refer to without storing them. -/
def predefined : List String :=
  ["kotlin/Any", "kotlin/Nothing", "kotlin/Unit", "kotlin/Throwable", "kotlin/Number",
   "kotlin/Byte", "kotlin/Double", "kotlin/Float", "kotlin/Int", "kotlin/Long", "kotlin/Short",
   "kotlin/Boolean", "kotlin/Char", "kotlin/CharSequence", "kotlin/String", "kotlin/Comparable",
   "kotlin/Enum", "kotlin/Array", "kotlin/ByteArray", "kotlin/DoubleArray", "kotlin/FloatArray",
   "kotlin/IntArray", "kotlin/LongArray", "kotlin/ShortArray", "kotlin/BooleanArray",
   "kotlin/CharArray", "kotlin/Cloneable", "kotlin/Annotation", "kotlin/collections/Iterable",
   "kotlin/collections/MutableIterable", "kotlin/collections/Collection",
   "kotlin/collections/MutableCollection", "kotlin/collections/List",
   "kotlin/collections/MutableList", "kotlin/collections/Set", "kotlin/collections/MutableSet",
   "kotlin/collections/Map", "kotlin/collections/MutableMap", "kotlin/collections/Map.Entry",
   "kotlin/collections/MutableMap.MutableEntry", "kotlin/collections/Iterator",
   "kotlin/collections/MutableIterator", "kotlin/collections/ListIterator",
   "kotlin/collections/MutableListIterator"]

structure Record where
  /-- How many indices the record covers. -/
  range : Nat
  literal : Option String
  predefined : Option Int32
  operation : Int32
  substring : List Int32
  replacement : List Int32
  deriving DecidableEq, Repr

def Record.ofMessage (m : Message) : Except Fault Record := do
  let range := (m.int? 1).getD 1
  if range < 0 then throw (.negativeRange range)
  return {
    range := range.toInt.toNat
    literal := ← m.string? 6
    predefined := m.int? 2
    operation := (m.int? 3).getD 0
    substring := ← m.ints 4
    replacement := ← m.ints 5 }

/-- The character with a code, if it is one. -/
def charOf? (code : Int32) : Option Char :=
  let n := code.toUInt32.toNat
  if n.isValidChar then some (Char.ofNat n) else none

/-- The part from a begin to an end, if they are in order and within the text. -/
def cutOut : List Int32 → List Char → List Char
  | first :: last :: _, cs =>
    if 0 ≤ first ∧ first ≤ last ∧ last.toInt.toNat ≤ cs.length then
      (cs.take last.toInt.toNat).drop first.toInt.toNat
    else cs
  | _, cs => cs

def replaceChar (old new : Char) (cs : List Char) : List Char :=
  cs.map fun c => if c = old then new else c

/-- Replaces one character by another, if both codes are characters. -/
def exchange : List Int32 → List Char → List Char
  | old :: new :: _, cs =>
    match charOf? old, charOf? new with
    | some old, some new => replaceChar old new cs
    | _, _ => cs
  | _, cs => cs

/-- Operation 1 turns an internal class name into a class id, operation 2 a descriptor. -/
def operate (operation : Int32) (cs : List Char) : List Char :=
  if operation = 1 then replaceChar '$' '.' cs
  else if operation = 2 then
    replaceChar '$' '.' (if 2 ≤ cs.length then (cs.drop 1).dropLast else cs)
  else cs

/-- The text that a record makes of a base text. -/
def Record.edit (r : Record) (cs : List Char) : List Char :=
  operate r.operation (exchange r.replacement (cutOut r.substring cs))

/-- The base text that the record brings itself: its literal, else its predefined string. -/
def Record.own? (r : Record) : Option String :=
  r.literal <|> r.predefined.bind fun i =>
    if i < 0 then none else StringTable.predefined[i.toInt.toNat]?

/-- The record that covers a position. -/
def recordAt? : List Record → Nat → Option Record
  | [], _ => none
  | r :: records, position =>
    if position < r.range then some r else recordAt? records (position - r.range)

end StringTable

structure StringTable where
  records : List StringTable.Record
  strings : List String
  deriving DecidableEq, Repr

namespace StringTable

def ofMessage (types : Message) (strings : List String) : Except Fault StringTable := do
  return ⟨← (← types.messages 1).mapM Record.ofMessage, strings⟩

def stored (t : StringTable) (position : Nat) : Except Fault String :=
  match t.strings[position]? with
  | some s => .ok s
  | none => .error (.noString position)

def get (t : StringTable) (index : Int32) : Except Fault String :=
  if index < 0 then .error (.negativeString index)
  else
    let position := index.toInt.toNat
    match recordAt? t.records position with
    | none => t.stored position
    | some r => do
      let base ← match r.own? with
        | some s => .ok s
        | none => t.stored position
      return String.ofList (r.edit base.toList)

end StringTable

end JarPruning.Metadata
