import JarPruning.Text.Hex

/-! Why a metadata payload cannot be read. -/
namespace JarPruning.Metadata

inductive Fault where
  | wideByteChar (code : Nat)
  | wideSeptetChar (code : Nat)
  | truncatedVarint
  | longVarint
  | truncatedField (length : Nat)
  | fieldKey (key : Nat)
  | wireType (type number : Nat)
  | notUtf8 (number : UInt32)
  | notMessage (number : UInt32)
  | notIntegers (number : UInt32)
  | negativeRange (range : Int32)
  | negativeString (index : Int32)
  | noString (position : Nat)
  | noType (id : Int32)
  | noName (number : UInt32)
  | parameterWithoutType
  | functionWithoutReturnType
  deriving DecidableEq, Repr

def Fault.text : Fault → String
  | .wideByteChar code => s!"char U+{Hex.upper 4 code} in utf8-mode metadata"
  | .wideSeptetChar code => s!"char U+{Hex.upper 4 code} in 7-bit metadata"
  | .truncatedVarint => "truncated varint"
  | .longVarint => "varint longer than 10 bytes"
  | .truncatedField n => s!"truncated field of {n} bytes"
  | .fieldKey key => s!"invalid protobuf field key {key}"
  | .wireType type number => s!"unsupported protobuf wire type {type} for field {number}"
  | .notUtf8 number => s!"field {number} is not valid utf8"
  | .notMessage number => s!"field {number} is not a message"
  | .notIntegers number => s!"field {number} is not a repeated int32"
  | .negativeRange range => s!"negative string table range {range}"
  | .negativeString index => s!"negative string index {index}"
  | .noString position => s!"string index {position} out of range"
  | .noType id => s!"type id {id} out of range"
  | .noName number => s!"missing name field {number}"
  | .parameterWithoutType => "value parameter without a type"
  | .functionWithoutReturnType => "function without a return type"

end JarPruning.Metadata
