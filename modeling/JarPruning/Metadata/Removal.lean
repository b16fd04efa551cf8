import JarPruning.Member.Tracker
import JarPruning.Metadata.Payload
import JarPruning.Metadata.Signature

/-!
Removal of the records whose members are gone. A record goes if a member it stands for is in the
tracker; the other members of a removed record are reported, to go as well.
-/
namespace JarPruning.Metadata

/-- A record or list element that was removed. -/
inductive Removed where
  | function (s : Signature)
  | constructor (s : Signature)
  | property (name : String)
  | enumEntry (name : String)
  | nested (name : String)
  | sealedSubclass (name : String)
  | companion (name : String)
  deriving DecidableEq, Repr

def Removed.text : Removed → String
  | .function s => s!"function {s.text}"
  | .constructor s => s!"constructor {s.text}"
  | .property name => s!"property {name}"
  | .enumEntry name => s!"enum entry {name}"
  | .nested name => s!"nested class {name}"
  | .sealedSubclass name => s!"sealed subclass {name}"
  | .companion name => s!"companion object {name}"

/-- A property whose backing field resembles a deleted field without being it in every respect. -/
inductive Mismatch where
  | descriptor (property : String) (expected deleted : FieldTarget)
  | sharedName (property : String) (deleted : FieldTarget)
  deriving DecidableEq, Repr

def Mismatch.text : Mismatch → String
  | .descriptor p expected deleted =>
    s!"property {p} expects field {expected.text} but {deleted.text} was deleted"
  | .sharedName p deleted =>
    s!"extension property {p} shares its name with deleted field {deleted.text}"

structure Changes where
  removed : List Removed := []
  /-- Members of removed records, which go with them. -/
  methods : List Member := []
  fields : List FieldTarget := []
  mismatches : List Mismatch := []
  deriving DecidableEq, Repr

instance : Append Changes where
  append a b := {
    removed := a.removed ++ b.removed
    methods := a.methods ++ b.methods
    fields := a.fields ++ b.fields
    mismatches := a.mismatches ++ b.mismatches }

def Changes.isEmpty (c : Changes) : Bool := c.removed.isEmpty

/-- Whether a record or list element stays, and what follows from it. -/
structure Verdict where
  keep : Bool := true
  changes : Changes := {}
  deriving DecidableEq, Repr

def Verdict.drop (removed : Removed) (methods : List Member) (fields : List FieldTarget) :
    Verdict where
  keep := false
  changes := { removed := [removed], methods, fields }

def Verdict.total (verdicts : List Verdict) : Changes :=
  verdicts.foldl (fun c v => c ++ v.changes) {}

namespace FieldNumber

def classCompanion : UInt32 := 4
def classNested : UInt32 := 7
def classConstructor : UInt32 := 8
def classFunction : UInt32 := 9
def classProperty : UInt32 := 10
def classEnumEntry : UInt32 := 13
def classSealed : UInt32 := 16
def packageFunction : UInt32 := 3
def packageProperty : UInt32 := 4
def enumEntryName : UInt32 := 1

end FieldNumber

/-- What records of one class are judged by. -/
structure Judge where
  owner : String
  tracker : Tracker
  resolver : Resolver

namespace Judge

open FieldNumber

def isGone (j : Judge) (s : Signature) : Bool := j.tracker.containsMethod j.owner s

/-- A function goes with its method, and its default companion follows. -/
def function (j : Judge) (companionOwner : Option String) (record : Message) :
    Except Fault Verdict := do
  match ← j.resolver.function? record with
  | none => return {}
  | some s =>
    if j.isGone s then
      let companion := s.defaultFunction? companionOwner (functionReceiver.isSet record)
      return .drop (.function s) companion.toList []
    else return {}

def constructor (j : Judge) (record : Message) : Except Fault Verdict := do
  match ← j.resolver.constructor? record with
  | none => return {}
  | some s =>
    if j.isGone s then return .drop (.constructor s) s.defaultConstructor?.toList []
    else return {}

/-- The backing field; under an extension property it is told apart by the getter's parameters. -/
def backingField? (p : PropertySignature) : Option FieldTarget :=
  p.field.map fun f => {
    name := f.name
    descriptor := f.descriptor
    extension :=
      match p.getter with
      | some getter => if p.hasReceiver then Descriptor.parameterList getter.descriptor else "()"
      | none => "()" }

/-- Whether the backing field is gone, and how it differs from the field that is. -/
def fieldVerdict (j : Judge) (property : String) (f : FieldTarget) : Bool × List Mismatch :=
  match j.tracker.field? j.owner f.key with
  | some deleted =>
    (true, if deleted.descriptor = f.descriptor then [] else [.descriptor property f deleted])
  | none =>
    let plain := { f with extension := "()" }
    (false, if f.extension ≠ "()" ∧ j.tracker.containsField j.owner plain.key then
      [.sharedName property plain] else [])

def accessors (p : PropertySignature) : List Signature :=
  [p.synthetic, p.getter, p.setter].filterMap id

/-- The methods that go with a property. -/
def members (p : PropertySignature) : List Member :=
  ([p.getter, p.setter, p.synthetic, p.delegate].filterMap id).map fun s => { toSignature := s }

/-- A property goes with its backing field or with an accessor. -/
def property (j : Judge) (record : Message) : Except Fault Verdict := do
  let p ← j.resolver.property record
  let field := backingField? p
  let (fieldGone, mismatches) := match field with
    | some f => j.fieldVerdict p.name f
    | none => (false, [])
  let verdict : Verdict :=
    if fieldGone || (accessors p).any j.isGone then
      .drop (.property p.name) (members p) field.toList
    else {}
  return { verdict with changes := { verdict.changes with mismatches } }

def enumEntry (j : Judge) (record : Message) : Except Fault Verdict := do
  match record.int? enumEntryName with
  | none => return {}
  | some index =>
    let name ← j.resolver.strings.get index
    if j.tracker.containsField j.owner ⟨name, "()"⟩ then return .drop (.enumEntry name) [] []
    else return {}

/-- An element of a list of class names goes with its class. -/
def className (j : Judge) (full : String → String) (removed : String → Removed) (index : Int32) :
    Except Fault Verdict := do
  let name := full (← j.resolver.strings.get index)
  if j.tracker.containsClass name then return .drop (removed name) [] [] else return {}

def nestedName (j : Judge) (name : String) : String := s!"{j.owner}${name}"

end Judge

/-- A part of the removal: what it leaves of a container, and what follows. -/
abbrev Sweep := Message → Except Fault (Message × Changes)

namespace Sweep

open FieldNumber

/-- Judges every occurrence of a field. -/
def records (number : UInt32) (judge : Message → Except Fault Verdict) : Sweep := fun m => do
  let verdicts ← (← m.messages number).mapM judge
  return (m.retain number (verdicts.map (·.keep)), Verdict.total verdicts)

/-- Judges every number of a repeated field; the list is packed anew only if one goes. -/
def elements (number : UInt32) (judge : Int32 → Except Fault Verdict) : Sweep := fun m => do
  let indices ← m.ints number
  let verdicts ← indices.mapM judge
  let kept := ((indices.zip verdicts).filter (·.2.keep)).map (·.1)
  let m := if kept.length = indices.length then m else m.setPacked number kept
  return (m, Verdict.total verdicts)

def companion (j : Judge) : Sweep := fun m => do
  match m.int? classCompanion with
  | none => return (m, {})
  | some index =>
    let verdict ← j.className j.nestedName .companion index
    return (if verdict.keep then m else m.remove classCompanion, verdict.changes)

/-- One sweep after the other. -/
def sequence : List Sweep → Sweep
  | [], m => .ok (m, {})
  | sweep :: sweeps, m => do
    let (m, changes) ← sweep m
    let (m, later) ← sequence sweeps m
    return (m, changes ++ later)

def ofClass (j : Judge) : Sweep := sequence [
  records classConstructor j.constructor,
  records classFunction (j.function (some j.owner)),
  records classProperty j.property,
  records classEnumEntry j.enumEntry,
  elements classNested (j.className j.nestedName .nested),
  elements classSealed (j.className ClassId.internalName .sealedSubclass),
  companion j]

def ofPackage (j : Judge) : Sweep := sequence [
  records packageFunction (j.function none),
  records packageProperty j.property]

end Sweep

/-- The payload without the records whose members are gone. -/
def Payload.sweep (p : Payload) (owner : String) (tracker : Tracker) :
    Except Fault (Payload × Changes) := do
  let types ← TypeTable.ofContainer p.container
  let judge : Judge := ⟨owner, tracker, ⟨p.strings, types⟩⟩
  let sweep := if p.kind = .classFile then Sweep.ofClass judge else Sweep.ofPackage judge
  let (container, changes) ← sweep p.container
  return ({ p with container }, changes)

end JarPruning.Metadata
