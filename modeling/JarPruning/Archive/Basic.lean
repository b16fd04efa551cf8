/-! Archives as lists of entries. -/
namespace JarPruning

/-- A local time as entries keep it: the seconds are even. -/
structure Timestamp where
  year : Nat
  month : Nat
  day : Nat
  hour : Nat
  minute : Nat
  second : Nat
  deriving DecidableEq, Repr

namespace Timestamp

/-- The first time an entry can bear. -/
def first : Timestamp := ⟨1980, 1, 1, 0, 0, 0⟩

/-- The last even second that is not later; a minute has no even second behind its 58th. -/
def ofClock (year month day hour minute second : Nat) : Timestamp :=
  ⟨year, month, day, hour, minute, min 58 (second - second % 2)⟩

def padded (width n : Nat) : String :=
  let digits := Nat.toDigits 10 n
  String.ofList (List.replicate (width - digits.length) '0' ++ digits)

def text (t : Timestamp) : String :=
  let date := String.intercalate "-" [padded 4 t.year, padded 2 t.month, padded 2 t.day]
  let time := String.intercalate ":" [padded 2 t.hour, padded 2 t.minute, padded 2 t.second]
  s!"{date} {time}"

end Timestamp

inductive Compression where
  | stored | deflated
  deriving DecidableEq, Repr

/-- A named part of an archive. -/
structure Entry where
  name : String
  contents : List UInt8
  compression : Compression
  modified : Timestamp
  /-- The nine permission bits. -/
  mode : Nat
  deriving DecidableEq, Repr

namespace Entry

/-- Whether nothing can be held under a name. -/
def isHollow (name : String) : Bool := name.endsWith "/"

/-- The permissions of an entry of which no others are known. -/
def defaultMode (name : String) : Nat := if isHollow name then 0o755 else 0o644

/-- An entry as archives can hold it: what holds nothing is stored. -/
def ofParts (name : String) (contents : List UInt8) (compression : Compression)
    (modified : Timestamp) (mode : Nat) : Entry :=
  if isHollow name then
    { name, contents := [], compression := .stored, modified, mode := mode % 0o1000 }
  else { name, contents, compression, modified, mode := mode % 0o1000 }

/-- Whether a name is taken for that of a directory: a slash of either kind ends it. -/
def namesDirectory (name : String) : Bool := name.endsWith "/" || name.endsWith "\\"

def isDirectory (e : Entry) : Bool := namesDirectory e.name

/-- The entry that its name and contents alone determine; a directory is empty. -/
def plain (name : String) (contents : List UInt8) : Entry :=
  if namesDirectory name then ⟨name, [], .stored, .first, 0o755⟩
  else ⟨name, contents, .deflated, .first, 0o644⟩

/-- Whether the entry is a class to be filtered; the description of a module is none. -/
def isClass (e : Entry) : Bool :=
  !e.isDirectory && e.name.endsWith ".class" && !e.name.endsWith "module-info.class"

end Entry

structure Archive where
  entries : List Entry := []
  comment : List UInt8 := []
  deriving DecidableEq, Repr

end JarPruning
