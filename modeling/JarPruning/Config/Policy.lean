import JarPruning.Text.Blank

/-! Which annotations ask for what. No annotation may ask for two things. -/
namespace JarPruning

/-- What an annotation asks for. -/
inductive Role where
  /-- Strip the annotation and keep what it stands on. -/
  | remove
  | delete
  | stub
  deriving DecidableEq, Repr

/-- The name of the list that gives the role. -/
def Role.listName : Role → String
  | .remove => "forRemove"
  | .delete => "forDelete"
  | .stub => "forStub"

/-- Annotation class names by role, as configured. -/
structure RoleNames where
  remove : List String := []
  delete : List String := []
  stub : List String := []
  deriving DecidableEq, Repr

def RoleNames.merge (a b : RoleNames) : RoleNames where
  remove := a.remove ++ b.remove
  delete := a.delete ++ b.delete
  stub := a.stub ++ b.stub

/-- Annotation descriptors by role. -/
structure Policy where
  remove : List String := []
  delete : List String := []
  stub : List String := []
  deriving DecidableEq, Repr

namespace Policy

inductive Fault where
  | badName (name : String)
  | conflict (name : String) (first second : Role)
  deriving DecidableEq, Repr

def Fault.text : Fault → String
  | .badName name => s!"invalid annotation class name '{name}'"
  | .conflict name first second =>
    s!"annotation {name} is listed in both {first.listName} and {second.listName}"

/-- Whether every part between dots has a character; `afterDot` if a part has just begun. -/
def partsFilled (afterDot : Bool) : List Char → Bool
  | [] => !afterDot
  | c :: cs => if c = '.' then !afterDot && partsFilled true cs else partsFilled false cs

def isDescriptor (cs : List Char) : Bool :=
  cs.head? == some 'L' && cs.getLast? == some ';' && 2 < cs.length

/-- The descriptor of an annotation named by its class, with dots, or by its descriptor. -/
def descriptor (name : String) : Except Fault String :=
  let cs := Blank.trimChars name.toList
  if isDescriptor cs then .ok (String.ofList cs)
  else if cs.any (fun c => c = '/' || c = ';' || c = '[') || !partsFilled true cs then
    .error (.badName (String.ofList cs))
  else .ok (String.ofList ('L' :: cs.map (fun c => if c = '.' then '/' else c) ++ [';']))

def role? (p : Policy) (descriptor : String) : Option Role :=
  if p.delete.contains descriptor then some .delete
  else if p.stub.contains descriptor then some .stub
  else if p.remove.contains descriptor then some .remove
  else none

def insert (p : Policy) (role : Role) (descriptor : String) : Policy :=
  match role with
  | .remove => { p with remove := p.remove.insert descriptor }
  | .delete => { p with delete := p.delete.insert descriptor }
  | .stub => { p with stub := p.stub.insert descriptor }

/-- Gives a role to a name that has no other. -/
def add (p : Policy) (role : Role) (name : String) : Except Fault Policy := do
  let descriptor ← descriptor name
  match p.role? descriptor with
  | some other =>
    if other = role then return p.insert role descriptor else throw (.conflict name other role)
  | none => return p.insert role descriptor

def addAll (p : Policy) (role : Role) (names : List String) : Except Fault Policy :=
  names.foldlM (fun p name => p.add role name) p

/-- The first name at fault decides, the lists being taken in the order remove, delete, stub. -/
def ofNames (names : RoleNames) : Except Fault Policy := do
  let p ← addAll {} .remove names.remove
  let p ← p.addAll .delete names.delete
  p.addAll .stub names.stub

def isEmpty (p : Policy) : Bool := p.remove.isEmpty && p.delete.isEmpty && p.stub.isEmpty

end Policy

end JarPruning
