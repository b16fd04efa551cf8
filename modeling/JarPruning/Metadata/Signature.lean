import JarPruning.Member.Signature
import JarPruning.Metadata.ClassId
import JarPruning.Metadata.StringTable

/-!
The members that declaration records stand for. A record either stores a member's name and
descriptor or leaves them to be derived from its types; a type without a class name has no
descriptor.
-/
namespace JarPruning.Metadata

/-- What a type position holds. -/
inductive TypeText where
  | absent
  | unmapped
  | mapped (descriptor : String)
  deriving DecidableEq, Repr

/-- Where the types of a kind of record are: inline, and by id. -/
structure TypeFields where
  direct : UInt32
  byId : UInt32

namespace FieldNumber

def functionName : UInt32 := 2
def functionReturn : TypeFields := ⟨3, 7⟩
def functionReceiver : TypeFields := ⟨5, 8⟩
def functionParameter : UInt32 := 6
def propertyName : UInt32 := 2
def propertyReturn : TypeFields := ⟨3, 9⟩
def propertyReceiver : TypeFields := ⟨5, 10⟩
def constructorParameter : UInt32 := 2
def parameterType : TypeFields := ⟨3, 5⟩
def typeTable : UInt32 := 30
def typeTableType : UInt32 := 1
def typeClassName : UInt32 := 6
/-- The signature extension of functions, constructors and properties alike. -/
def signature : UInt32 := 100
def memberName : UInt32 := 1
def memberDescriptor : UInt32 := 2
def propertyField : UInt32 := 1
def propertySynthetic : UInt32 := 2
def propertyGetter : UInt32 := 3
def propertySetter : UInt32 := 4
def propertyDelegate : UInt32 := 5

end FieldNumber

/-- The types that declarations refer to by id. -/
abbrev TypeTable := List Message

def TypeTable.ofContainer (container : Message) : Except Fault TypeTable := do
  match ← container.message? FieldNumber.typeTable with
  | some table => table.messages FieldNumber.typeTableType
  | none => return []

def TypeTable.type (types : TypeTable) (id : Int32) : Except Fault Message :=
  match (if id < 0 then none else types[id.toInt.toNat]?) with
  | some type => .ok type
  | none => .error (.noType id)

/-- Every member that a property owns. -/
structure PropertySignature where
  name : String
  hasReceiver : Bool
  field : Option Signature := none
  synthetic : Option Signature := none
  getter : Option Signature := none
  setter : Option Signature := none
  delegate : Option Signature := none
  deriving DecidableEq, Repr

def TypeFields.isSet (fields : TypeFields) (record : Message) : Bool :=
  record.has fields.direct || record.has fields.byId

/-- What records are resolved against. -/
structure Resolver where
  strings : StringTable
  types : TypeTable

namespace Resolver

open FieldNumber

def name (r : Resolver) (record : Message) (number : UInt32) : Except Fault String :=
  match record.int? number with
  | some index => r.strings.get index
  | none => .error (.noName number)

/-- The message at a type position: inline, else by id. -/
def typeMessage? (r : Resolver) (record : Message) (fields : TypeFields) :
    Except Fault (Option Message) := do
  match ← record.message? fields.direct with
  | some type => return some type
  | none =>
    match record.int? fields.byId with
    | some id => return some (← r.types.type id)
    | none => return none

def typeText (r : Resolver) (record : Message) (fields : TypeFields) : Except Fault TypeText := do
  match ← r.typeMessage? record fields with
  | none => return .absent
  | some type =>
    match type.int? typeClassName with
    | some index => return .mapped (ClassId.descriptor (← r.strings.get index))
    | none => return .unmapped

/-- The texts in a row; none if one has no descriptor. The first that is missing or has no
descriptor decides. -/
def join : List TypeText → Except Fault (Option String)
  | [] => .ok (some "")
  | .mapped d :: rest => (join rest).map (·.map (d ++ ·))
  | .unmapped :: _ => .ok none
  | .absent :: _ => .error .parameterWithoutType

def methodDescriptor (parameters : List TypeText) (result : TypeText) :
    Except Fault (Option String) := do
  match ← join parameters with
  | none => return none
  | some parameters =>
    match result with
    | .mapped d => return some s!"({parameters}){d}"
    | .unmapped => return none
    | .absent => throw .functionWithoutReturnType

/-- The number under `number` in the signature extension. -/
def signatureIndex? (signature : Option Message) (number : UInt32) : Option Int32 :=
  signature.bind (·.int? number)

/-- A function's own type table goes before the container's, if it has types. -/
def localTypes (r : Resolver) (record : Message) : Except Fault Resolver := do
  let types ← TypeTable.ofContainer record
  return if types.isEmpty then r else { r with types }

def receiver (r : Resolver) (record : Message) : Except Fault (List TypeText) := do
  match ← r.typeText record functionReceiver with
  | .absent => return []
  | type => return [type]

def parameters (r : Resolver) (record : Message) (number : UInt32) :
    Except Fault (List TypeText) := do
  (← record.messages number).mapM fun p => r.typeText p parameterType

/-- The method of a function record; none if one of its types has no class name. -/
def function? (r : Resolver) (record : Message) : Except Fault (Option Signature) := do
  let types ← r.localTypes record
  let signature ← record.message? signature
  let name ← match signatureIndex? signature memberName with
    | some index => r.strings.get index
    | none => r.name record functionName
  match signatureIndex? signature memberDescriptor with
  | some index => return some ⟨name, ← r.strings.get index⟩
  | none =>
    let receiver ← types.receiver record
    let parameters ← types.parameters record functionParameter
    let result ← types.typeText record functionReturn
    return (← methodDescriptor (receiver ++ parameters) result).map (⟨name, ·⟩)

def constructor? (r : Resolver) (record : Message) : Except Fault (Option Signature) := do
  let signature ← record.message? signature
  match signatureIndex? signature memberDescriptor with
  | some index => return some ⟨"<init>", ← r.strings.get index⟩
  | none =>
    let parameters ← r.parameters record constructorParameter
    return (← methodDescriptor parameters (.mapped "V")).map (⟨"<init>", ·⟩)

/-- An accessor is stored in full or not at all. -/
def accessor? (r : Resolver) (signature : Message) (number : UInt32) :
    Except Fault (Option Signature) := do
  match ← signature.message? number with
  | none => return none
  | some method =>
    match method.int? memberName, method.int? memberDescriptor with
    | some name, some descriptor =>
      return some ⟨← r.strings.get name, ← r.strings.get descriptor⟩
    | _, _ => return none

/-- A backing field has the property's name and return type unless it stores its own. -/
def backingField? (r : Resolver) (record signature : Message) (property : String) :
    Except Fault (Option Signature) := do
  match ← signature.message? propertyField with
  | none => return none
  | some field =>
    let name ← match field.int? memberName with
      | some index => r.strings.get index
      | none => pure property
    match field.int? memberDescriptor with
    | some index => return some ⟨name, ← r.strings.get index⟩
    | none =>
      match ← r.typeText record propertyReturn with
      | .mapped d => return some ⟨name, d⟩
      | _ => return none

def property (r : Resolver) (record : Message) : Except Fault PropertySignature := do
  let name ← r.name record propertyName
  let hasReceiver := propertyReceiver.isSet record
  match ← record.message? signature with
  | none => return { name, hasReceiver }
  | some signature =>
    return {
      name, hasReceiver
      field := ← r.backingField? record signature name
      synthetic := ← r.accessor? signature propertySynthetic
      getter := ← r.accessor? signature propertyGetter
      setter := ← r.accessor? signature propertySetter
      delegate := ← r.accessor? signature propertyDelegate }

end Resolver

end JarPruning.Metadata
