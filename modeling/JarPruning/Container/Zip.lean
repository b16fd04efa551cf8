import JarPruning.Archive.Basic
import JarPruning.Container.Checksum
import JarPruning.Container.Inflate

/-!
Archives as files: every entry behind a header of its own, then the directory of all entries, then
the record that says where the directory is.
-/
namespace JarPruning.Zip

/-! Reading. -/

/-- A number of so many bytes at an offset, the lowest byte first. -/
def number (file : ByteArray) (offset : Nat) : (width : Nat) → Except ContainerFault Nat
  | 0 => .ok 0
  | width + 1 =>
    match file[offset]? with
    | none => .error .truncated
    | some low => do return low.toNat + 256 * (← number file (offset + 1) width)

def slice (file : ByteArray) (start length : Nat) : Except ContainerFault ByteArray :=
  if file.size < start + length then .error .truncated
  else .ok (file.extract start (start + length))

def startsWith (file : ByteArray) (offset signature : Nat) : Bool :=
  match number file offset 4 with
  | .ok n => n = signature
  | .error _ => false

def endSignature : Nat := 0x06054b50

def directorySignature : Nat := 0x02014b50

def entrySignature : Nat := 0x04034b50

def endLength : Nat := 22

/-- The last offset below `limit` at which the end record may start. -/
def findEnd (file : ByteArray) : (limit : Nat) → Except ContainerFault Nat
  | 0 => .error .noEnd
  | offset + 1 => if startsWith file offset endSignature then .ok offset else findEnd file offset

def timestamp (date time : Nat) : Timestamp where
  year := 1980 + date / 512
  month := date / 32 % 16
  day := date % 32
  hour := time / 2048
  minute := time / 32 % 64
  second := time % 32 * 2

def contents (file : ByteArray) (name : String) (method offset length : Nat) :
    Except ContainerFault (Compression × List UInt8) := do
  unless startsWith file offset entrySignature do throw .noEntryHeader
  let start := offset + 30 + (← number file (offset + 26) 2) + (← number file (offset + 28) 2)
  let held ← slice file start length
  match method with
  | 0 => return (.stored, held.toList)
  | 8 =>
    match Inflate.expand held with
    | .ok bytes => return (.deflated, bytes.toList)
    | .error e => throw (.inflate name e)
  | _ => throw (.compression method)

/-- The entry that the directory describes at an offset, and the offset of the next description. -/
def readEntry (file : ByteArray) (offset : Nat) : Except ContainerFault (Entry × Nat) := do
  unless startsWith file offset directorySignature do throw .noEntryHeader
  let field (skipped width : Nat) := number file (offset + skipped) width
  let nameLength ← field 28 2
  let some name := String.fromUTF8? (← slice file (offset + 46) nameLength) | throw .nameEncoding
  let (compression, contents) ← contents file name (← field 10 2) (← field 42 4) (← field 20 4)
  unless (Checksum.ofBytes contents).toNat = (← field 16 4) do throw (.checksum name)
  let modified := timestamp (← field 14 2) (← field 12 2)
  let attributes ← field 38 4
  let mode := if attributes / 65536 = 0 then Entry.defaultMode name else attributes / 65536
  let next := offset + 46 + nameLength + (← field 30 2) + (← field 32 2)
  return (.ofParts name contents compression modified mode, next)

def readEntries (file : ByteArray) : (count offset : Nat) → Except ContainerFault (List Entry)
  | 0, _ => return []
  | count + 1, offset => do
    let (e, next) ← readEntry file offset
    return e :: (← readEntries file count next)

def read (file : ByteArray) : Except ContainerFault Archive := do
  let last ← findEnd file (file.size + 1 - endLength)
  let entries ← readEntries file (← number file (last + 10) 2) (← number file (last + 16) 4)
  let comment ← slice file (last + endLength) (← number file (last + 20) 2)
  return { entries, comment := comment.toList }

/-! Writing. -/

def little : (width n : Nat) → List UInt8
  | 0, _ => []
  | width + 1, n => UInt8.ofNat n :: little width (n / 256)

/-- Numbers of the given widths, one after the other. -/
def fields (l : List (Nat × Nat)) : List UInt8 := l.flatMap fun (width, n) => little width n

/-- An entry with what its headers say of it. -/
structure Packed where
  entry : Entry
  name : List UInt8
  held : List UInt8
  checksum : Nat

def Packed.ofEntry (e : Entry) : Packed where
  entry := e
  name := e.name.toUTF8.toList
  held := match e.compression with
    | .stored => e.contents
    | .deflated => Inflate.enclose e.contents
  checksum := (Checksum.ofBytes e.contents).toNat

/-- The part that both headers of an entry have; names are in UTF-8. -/
def Packed.common (p : Packed) : List UInt8 :=
  let t := p.entry.modified
  let method := match p.entry.compression with
    | .stored => 0
    | .deflated => 8
  fields [(2, 20), (2, 0x0800), (2, method), (2, t.hour * 2048 + t.minute * 32 + t.second / 2),
    (2, (t.year - 1980) * 512 + t.month * 32 + t.day), (4, p.checksum), (4, p.held.length),
    (4, p.entry.contents.length), (2, p.name.length), (2, 0)]

def Packed.body (p : Packed) : List UInt8 :=
  little 4 entrySignature ++ p.common ++ p.name ++ p.held

def Packed.description (p : Packed) (offset : Nat) : List UInt8 :=
  let kind := if p.entry.isDirectory then 0o040000 else 0o100000
  little 4 directorySignature ++ little 2 0x031E ++ p.common ++
    fields [(2, 0), (2, 0), (2, 0), (4, (kind + p.entry.mode) * 65536), (4, offset)] ++ p.name

/-- Descriptions of entries of which the first starts at `offset`. -/
def directory : (offset : Nat) → List Packed → List UInt8
  | _, [] => []
  | offset, p :: rest => p.description offset ++ directory (offset + p.body.length) rest

def write (a : Archive) : ByteArray :=
  let packed := a.entries.map .ofEntry
  let bodies := packed.flatMap (·.body)
  let directory := directory 0 packed
  let count := packed.length
  let ending := little 4 endSignature ++ fields [(2, 0), (2, 0), (2, count), (2, count),
    (4, directory.length), (4, bodies.length), (2, a.comment.length)] ++ a.comment
  ⟨(bodies ++ directory ++ ending).toArray⟩

end JarPruning.Zip
