import JarPruning.Metadata.Packing
import JarPruning.Metadata.StringTable

/-!
The decoded payload of a metadata annotation: the string table, whose types stand before the
container and are kept as they were read, and the container with the declarations.
-/
namespace JarPruning.Metadata

/-- The kind element of the annotation. -/
inductive Kind where
  | classFile | file | synthetic | facade | part
  | unknown (code : Int32)
  deriving DecidableEq, Repr

namespace Kind

def ofCode (code : Int32) : Kind :=
  if code = 1 then .classFile
  else if code = 2 then .file
  else if code = 3 then .synthetic
  else if code = 4 then .facade
  else if code = 5 then .part
  else .unknown code

def code : Kind → Int32
  | .classFile => 1
  | .file => 2
  | .synthetic => 3
  | .facade => 4
  | .part => 5
  | .unknown code => code

/-- Whether the container holds declarations that follow the members of the class. -/
def isEditable : Kind → Bool
  | .classFile | .file | .part => true
  | _ => false

def text : Kind → String
  | .classFile => "Class"
  | .file => "File"
  | .synthetic => "SyntheticClass"
  | .facade => "MultiFileClassFacade"
  | .part => "MultiFileClassPart"
  | .unknown code => s!"Unknown({code})"

end Kind

structure Payload where
  kind : Kind
  strings : StringTable
  container : Message
  /-- The bytes of the string table's types. -/
  types : List UInt8
  packing : Packing
  deriving DecidableEq, Repr

namespace Payload

def decode (kind : Kind) (chunks strings : List String) : Except Fault Payload := do
  let (bytes, packing) ← Packing.decode chunks
  let (types, rest) ← takeDelimited bytes
  let strings ← StringTable.ofMessage (← Message.ofBytes types) strings
  let container ← Message.ofBytes rest
  return { kind, strings, container, types, packing }

/-- The strings of the present container, packed as they were read. -/
def encode (p : Payload) : List String :=
  p.packing.encode (delimited p.types ++ p.container.bytes)

end Payload

end JarPruning.Metadata
