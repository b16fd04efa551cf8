import JarPruning.Config.Policy
import JarPruning.Json.Reader
import JarPruning.Text.Quoted

/-!
The configuration document. It is read from left to right and the first problem decides, be it in
the text or in what the text says; a key that is unknown or comes twice is a problem. An object may
also be given as the list of its members in their order.
-/
namespace JarPruning

/-- The configuration that a document holds. -/
structure Document where
  names : RoleNames := {}
  maxPasses : Option Nat := none
  preserveTimestamps : Option Bool := none
  deriving DecidableEq, Repr

namespace Document

inductive Problem where
  | unknownKey (key : String) (known : List String)
  | repeatedKey (key : String)
  | wrongType (found : Json.Value) (expected : String)
  | belowZero (n : Nat)
  /-- A list for the whole document that lacks members. -/
  | tooShort (length : Nat)
  | tooLong
  | malformed (why : Json.Malformed)
  deriving Repr

def ticked (s : String) : String := s!"`{s}`"

/-- What a value of the wrong type is called. -/
def nameOf : Json.Value → String
  | .null => "null"
  | .bool b => "boolean " ++ ticked (toString b)
  | .number (.natural n) => "integer " ++ ticked (toString n)
  | .number (.negative n) => "integer " ++ ticked s!"-{n}"
  | .number (.float x) => "floating point " ++ ticked (Json.Number.floatText x)
  | .string s => "string " ++ Quoted.quote s
  | .array .. => "sequence"
  | .object .. => "map"
  | .broken why => why.text

def Problem.text : Problem → String
  | .unknownKey key known =>
    let known := String.intercalate ", " (known.map ticked)
    s!"unknown field {ticked key}, expected one of {known}"
  | .repeatedKey key => s!"duplicate field {ticked key}"
  | .wrongType found expected => s!"invalid type: {nameOf found}, expected {expected}"
  | .belowZero n => s!"invalid value: integer `-{n}`, expected usize"
  | .tooShort length =>
    s!"invalid length {length}, expected struct ConfigFile with 3 elements"
  | .tooLong => "trailing characters"
  | .malformed why => why.text

/-- A problem and where it is. -/
structure Fault where
  problem : Problem
  place : Json.Place := []
  deriving Repr

def Fault.text (f : Fault) : String := s!"{f.problem.text} at {f.place.text}"

def Fault.message (f : Fault) : String := s!"invalid configuration: {f.text}"

def reject {α : Type} (p : Problem) : Except Fault α := .error ⟨p, []⟩

/-- A problem in a part is a problem in the whole. -/
def within {α : Type} (step : Json.Step) (x : Except Fault α) : Except Fault α :=
  x.mapError fun f => { f with place := step :: f.place }

/-- A value that is not of the type expected; one that cannot be read is of no type. -/
def mismatch {α : Type} (expected : String) : Json.Value → Except Fault α
  | .broken why => reject (.malformed why)
  | v => reject (.wrongType v expected)

/-- What reading stopped at behind the parts that were judged. -/
def checkCut : Option Json.Malformed → Except Fault Unit
  | some why => reject (.malformed why)
  | none => .ok ()

def readText : Json.Value → Except Fault String
  | .string s => .ok s
  | v => mismatch "a string" v

def readTexts : Json.Value → Except Fault (List String)
  | .array items cut => do
    let texts ← items.zipIdx.mapM fun (v, k) => within (.item k) (readText v)
    checkCut cut
    return texts
  | v => mismatch "a sequence" v

def readCount? : Json.Value → Except Fault (Option Nat)
  | .null => .ok none
  | .number (.natural n) => .ok (some n)
  | .number (.negative n) => reject (.belowZero n)
  | v => mismatch "usize" v

def readFlag? : Json.Value → Except Fault (Option Bool)
  | .null => .ok none
  | .bool b => .ok (some b)
  | v => mismatch "a boolean" v

/-- How a member is read: its key and what its value does to what is read so far. -/
structure Member (σ : Type) where
  key : String
  read : Json.Value → σ → Except Fault σ

/-- How the member of a key is read; `seen` are the keys read before. -/
def memberOf {σ : Type} (known : List (Member σ)) (seen : List String) (key : String) :
    Except Fault (Member σ) :=
  match known.find? (·.key = key) with
  | none => within (.key key) (reject (.unknownKey key (known.map (·.key))))
  | some m => if seen.contains key then reject (.repeatedKey key) else .ok m

/-- What reading stopped at behind the members; a key that was read is judged before that. -/
def checkObjectCut {σ : Type} (known : List (Member σ)) (seen : List String) :
    Option Json.ObjectCut → Except Fault Unit
  | some (.atKey why) => within .unknown (reject (.malformed why))
  | some (.behindKey key why) => do
    let _ ← memberOf known seen key
    reject (.malformed why)
  | none => .ok ()

/-- Reads members one after the other; `seen` are the keys read before. -/
def readMembers {σ : Type} (cut : Option Json.ObjectCut) (known : List (Member σ))
    (seen : List String) (s : σ) : List (String × Json.Value) → Except Fault σ
  | [] => do
    checkObjectCut known seen cut
    return s
  | (key, v) :: rest => do
    let m ← memberOf known seen key
    readMembers cut known (key :: seen) (← within (.key key) (m.read v s)) rest

/-- What reading stopped at behind the last item that a list may have: a list that goes on is too
long, whatever comes next. -/
def checkEnd : Option Json.Malformed → Except Fault Unit
  | some .noCommaInList | some .endInValue => reject .tooLong
  | cut => checkCut cut

/-- Reads items as the members in their order, the first of them being number `index`. -/
def readItems {σ : Type} (cut : Option Json.Malformed) (known : List (Member σ)) (index : Nat)
    (s : σ) : List Json.Value → Except Fault σ
  | [] => do
    if known.isEmpty then checkEnd cut else checkCut cut
    return s
  | v :: rest => do
    match known with
    | [] => reject .tooLong
    | m :: known => readItems cut known (index + 1) (← within (.item index) (m.read v s)) rest

/-- Reads an object, or a list of the members in their order. -/
def readStruct {σ : Type} (name : String) (known : List (Member σ)) (s : σ) :
    Json.Value → Except Fault σ
  | .object members cut => readMembers cut known [] s members
  | .array items cut => readItems cut known 0 s items
  | v => mismatch s!"struct {name}" v

def roleMember (role : Role) : Member RoleNames where
  key := role.listName
  read v s := do
    let names ← readTexts v
    match role with
    | .remove => return { s with remove := names }
    | .delete => return { s with delete := names }
    | .stub => return { s with stub := names }

def roleMembers : List (Member RoleNames) :=
  [roleMember .remove, roleMember .delete, roleMember .stub]

def readNames : Json.Value → Except Fault RoleNames := readStruct "AnnotationNames" roleMembers {}

def members : List (Member Document) := [
  { key := "annotations", read := fun v s => return { s with names := ← readNames v } },
  { key := "maxPasses", read := fun v s => return { s with maxPasses := ← readCount? v } },
  { key := "preserveTimestamps",
    read := fun v s => return { s with preserveTimestamps := ← readFlag? v } }]

/-- A document given as a list may lack nothing, but an empty one is said to have one item. -/
def ofValue (v : Json.Value) : Except Fault Document := do
  let d ← readStruct "ConfigFile" members {} v
  match v with
  | .array items _ =>
    if items.length < members.length then reject (.tooShort (max 1 items.length)) else return d
  | _ => return d

/-- Reads the first value of a text; what follows it does not count. -/
def ofText (text : String) : Except Fault Document := ofValue (Json.firstValue text).result

end Document

end JarPruning
