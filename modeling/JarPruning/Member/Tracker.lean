import JarPruning.Member.Target

/-!
Everything deleted so far from one archive. A deleted class subsumes its members: they count as
deleted, their entries are dropped and no new ones are taken.
-/
namespace JarPruning

structure Tracker where
  classes : List String := []
  methods : List (String × Signature) := []
  fields : List (String × FieldTarget) := []
  deriving Repr

namespace Tracker

def containsClass (t : Tracker) (owner : String) : Bool := t.classes.contains owner

def containsMethod (t : Tracker) (owner : String) (s : Signature) : Bool :=
  t.containsClass owner || t.methods.contains (owner, s)

/-- The field entry of an owner under a key, with the descriptor it was first recorded with. -/
def field? (t : Tracker) (owner : String) (key : FieldKey) : Option FieldTarget :=
  (t.fields.find? fun (o, f) => o = owner ∧ f.key = key).map (·.2)

def containsField (t : Tracker) (owner : String) (key : FieldKey) : Bool :=
  t.containsClass owner || (t.field? owner key).isSome

/-- Whether the class is new, and the tracker with it. -/
def addClass (t : Tracker) (owner : String) : Bool × Tracker :=
  if t.containsClass owner then (false, t)
  else (true, {
    classes := t.classes ++ [owner]
    methods := t.methods.filter (·.1 ≠ owner)
    fields := t.fields.filter (·.1 ≠ owner) })

def addMethod (t : Tracker) (owner : String) (s : Signature) : Tracker :=
  if t.containsMethod owner s then t else { t with methods := t.methods ++ [(owner, s)] }

def addField (t : Tracker) (owner : String) (f : FieldTarget) : Tracker :=
  if t.containsField owner f.key then t else { t with fields := t.fields ++ [(owner, f)] }

def classCount (t : Tracker) : Nat := t.classes.length

end Tracker

end JarPruning
