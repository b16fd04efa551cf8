import JarPruning.Metadata.Wire

/-!
Wire messages without a schema. A message keeps every field in its order, so fields that nobody
here has a name for survive reading and writing.
-/
namespace JarPruning.Metadata

structure WireField where
  number : UInt32
  value : WireValue
  deriving DecidableEq, Repr

structure Message where
  fields : List WireField := []
  deriving DecidableEq, Repr

namespace WireField

def bytes (f : WireField) : List UInt8 :=
  Varint.encode (f.number.toNat * 8 + f.value.wireType) ++ f.value.bytes

/-- Field numbers are positive and fit 32 bits. -/
def read : Parse WireField := fun bytes => do
  let (key, rest) ← Varint.decode bytes
  let number := key.toNat / 8
  if number = 0 ∨ UInt32.size ≤ number then throw (.fieldKey key.toNat)
  let (value, rest) ← WireValue.read (key.toNat % 8) number rest
  return (⟨UInt32.ofNat number, value⟩, rest)

end WireField

theorem Parse.map_ok {α β : Type} {x : Except Fault α} {f : α → β} {b : β}
    (h : x.map f = .ok b) : ∃ a, x = .ok a ∧ f a = b := by
  cases x with
  | error e => simp [Except.map] at h
  | ok a =>
    simp only [Except.map, Except.ok.injEq] at h
    exact ⟨a, rfl, h⟩

theorem takeDelimited_length {bytes block rest : List UInt8}
    (h : takeDelimited bytes = .ok (block, rest)) : rest.length ≤ bytes.length := by
  unfold takeDelimited at h
  cases hv : Varint.decode bytes with
  | error e => simp [hv, bind, Except.bind] at h
  | ok p =>
    simp only [hv, bind, Except.bind] at h
    have := Varint.decode_shortens hv
    have := takeBlock_length h
    omega

theorem WireValue.read_length {type number : Nat} {bytes rest : List UInt8} {v : WireValue}
    (h : WireValue.read type number bytes = .ok (v, rest)) : rest.length ≤ bytes.length := by
  unfold WireValue.read at h
  split at h
  · obtain ⟨⟨_, _⟩, hd, he⟩ := Parse.map_ok h
    cases he
    exact Nat.le_of_lt (Varint.decode_shortens hd)
  · obtain ⟨⟨_, _⟩, hd, he⟩ := Parse.map_ok h
    cases he
    exact takeBlock_length hd
  · obtain ⟨⟨_, _⟩, hd, he⟩ := Parse.map_ok h
    cases he
    exact takeDelimited_length hd
  · obtain ⟨⟨_, _⟩, hd, he⟩ := Parse.map_ok h
    cases he
    exact takeBlock_length hd
  · simp at h

theorem WireField.read_shortens : WireField.read.Shortens := by
  intro bytes f rest h
  unfold WireField.read at h
  cases hv : Varint.decode bytes with
  | error e => simp [hv, bind, Except.bind] at h
  | ok p =>
    have hshort := Varint.decode_shortens hv
    simp only [hv, bind, Except.bind] at h
    split at h
    · simp [throw, throwThe, MonadExceptOf.throw] at h
    · cases hr : WireValue.read (p.1.toNat % 8) (p.1.toNat / 8) p.2 with
      | error e => simp [hr] at h
      | ok q =>
        simp only [hr, pure, Except.pure, Except.ok.injEq, Prod.mk.injEq] at h
        have := WireValue.read_length hr
        rw [← h.2]
        omega

namespace Message

def ofBytes (bytes : List UInt8) : Except Fault Message :=
  (Parse.all WireField.read WireField.read_shortens bytes).map (⟨·⟩)

def bytes (m : Message) : List UInt8 := m.fields.flatMap (·.bytes)

def occurrences (m : Message) (number : UInt32) : List WireValue :=
  (m.fields.filter (·.number = number)).map (·.value)

def has (m : Message) (number : UInt32) : Bool := m.fields.any (·.number = number)

/-- The last varint of a field, cut to 32 bits. -/
def int? (m : Message) (number : UInt32) : Option Int32 :=
  (m.occurrences number).reverse.findSome? fun
    | .varint v => some v.toUInt32.toInt32
    | _ => none

/-- The last block of a field. -/
def block? (m : Message) (number : UInt32) : Option (List UInt8) :=
  (m.occurrences number).reverse.findSome? fun
    | .block b => some b
    | _ => none

def string? (m : Message) (number : UInt32) : Except Fault (Option String) :=
  match m.block? number with
  | none => .ok none
  | some b =>
    match String.fromUTF8? ⟨b.toArray⟩ with
    | some s => .ok (some s)
    | none => .error (.notUtf8 number)

def message? (m : Message) (number : UInt32) : Except Fault (Option Message) :=
  match m.block? number with
  | none => .ok none
  | some b => (ofBytes b).map some

/-- Every occurrence of a field, read as a message. -/
def messages (m : Message) (number : UInt32) : Except Fault (List Message) :=
  (m.occurrences number).mapM fun
    | .block b => ofBytes b
    | _ => .error (.notMessage number)

def intsOf (number : UInt32) : WireValue → Except Fault (List Int32)
  | .varint v => .ok [v.toUInt32.toInt32]
  | .block b =>
    (Parse.all Varint.decode Varint.decode_shortens b).map (·.map fun v => v.toUInt32.toInt32)
  | _ => .error (.notIntegers number)

/-- The numbers of a repeated field, whether packed into blocks or one by one. -/
def ints (m : Message) (number : UInt32) : Except Fault (List Int32) := do
  return (← (m.occurrences number).mapM (intsOf number)).flatten

/-- Keeps the occurrences of a field for which `keep` says so; those beyond `keep` stay. -/
def retainFields (number : UInt32) : (keep : List Bool) → List WireField → List WireField
  | _, [] => []
  | [], fields => fields
  | k :: keep, f :: fields =>
    if f.number = number then
      if k then f :: retainFields number keep fields else retainFields number keep fields
    else f :: retainFields number (k :: keep) fields

def retain (m : Message) (number : UInt32) (keep : List Bool) : Message :=
  ⟨retainFields number keep m.fields⟩

def remove (m : Message) (number : UInt32) : Message := ⟨m.fields.filter (·.number ≠ number)⟩

/-- The numbers packed into one block, each sign-extended to 64 bits. -/
def packed (values : List Int32) : WireValue :=
  .block (values.flatMap fun v => Varint.encode v.toInt64.toUInt64.toNat)

/-- Puts `new` where the first occurrence of a field stands and drops the others. -/
def replaceFirst (number : UInt32) (new : WireField) : List WireField → List WireField
  | [] => [new]
  | f :: fields =>
    if f.number = number then new :: fields.filter (·.number ≠ number)
    else f :: replaceFirst number new fields

/-- Replaces a repeated field by one packed block, or removes it if there are no numbers. -/
def setPacked (m : Message) (number : UInt32) (values : List Int32) : Message :=
  if values.isEmpty then m.remove number
  else ⟨replaceFirst number ⟨number, packed values⟩ m.fields⟩

end Message

end JarPruning.Metadata
