import JarPruning.ClassFile.ConstantPool.Extension
import JarPruning.ClassFile.Format

/-!
Annotation tables. Values nest to any depth; a nested value is shorter than the bytes around it,
so the length of the table bounds the depth that reading has to follow.
-/
namespace JarPruning

mutual

/-- An annotation's type and its elements, each under its name. -/
structure AnnotationEntry where
  typeIndex : UInt16
  elements : List (UInt16 × ElementValue)

inductive ElementValue where
  /-- A constant; the tag tells its type. -/
  | const (tag : UInt8) (index : UInt16)
  | enum (typeName constName : UInt16)
  | classInfo (index : UInt16)
  | nested (a : AnnotationEntry)
  | array (items : List ElementValue)

end

mutual

def AnnotationEntry.decEq : (a b : AnnotationEntry) → Decidable (a = b)
  | ⟨t, es⟩, ⟨u, fs⟩ =>
    if ht : t = u then
      match ElementValue.decEqElements es fs with
      | isTrue h => isTrue (by rw [ht, h])
      | isFalse h => isFalse (by simp [h])
    else isFalse (by simp [ht])

def ElementValue.decEq : (a b : ElementValue) → Decidable (a = b)
  | .const t i, .const u j => decidable_of_iff (t = u ∧ i = j) (by simp)
  | .enum t i, .enum u j => decidable_of_iff (t = u ∧ i = j) (by simp)
  | .classInfo i, .classInfo j => decidable_of_iff (i = j) (by simp)
  | .nested a, .nested b =>
    match AnnotationEntry.decEq a b with
    | isTrue h => isTrue (by rw [h])
    | isFalse h => isFalse (by simp [h])
  | .array as, .array bs =>
    match ElementValue.decEqItems as bs with
    | isTrue h => isTrue (by rw [h])
    | isFalse h => isFalse (by simp [h])
  | .const .., .enum .. | .const .., .classInfo _ | .const .., .nested _ | .const .., .array _
  | .enum .., .const .. | .enum .., .classInfo _ | .enum .., .nested _ | .enum .., .array _
  | .classInfo _, .const .. | .classInfo _, .enum .. | .classInfo _, .nested _
  | .classInfo _, .array _ | .nested _, .const .. | .nested _, .enum ..
  | .nested _, .classInfo _ | .nested _, .array _ | .array _, .const ..
  | .array _, .enum .. | .array _, .classInfo _ | .array _, .nested _ =>
    isFalse (by simp)

def ElementValue.decEqElements :
    (a b : List (UInt16 × ElementValue)) → Decidable (a = b)
  | [], [] => isTrue rfl
  | [], _ :: _ | _ :: _, [] => isFalse (by simp)
  | (n, v) :: as, (m, w) :: bs =>
    if hn : n = m then
      match ElementValue.decEq v w, ElementValue.decEqElements as bs with
      | isTrue hv, isTrue h => isTrue (by rw [hn, hv, h])
      | isFalse hv, _ => isFalse (by simp [hv])
      | _, isFalse h => isFalse (by simp [h])
    else isFalse (by simp [hn])

def ElementValue.decEqItems : (a b : List ElementValue) → Decidable (a = b)
  | [], [] => isTrue rfl
  | [], _ :: _ | _ :: _, [] => isFalse (by simp)
  | v :: as, w :: bs =>
    match ElementValue.decEq v w, ElementValue.decEqItems as bs with
    | isTrue hv, isTrue h => isTrue (by rw [hv, h])
    | isFalse hv, _ => isFalse (by simp [hv])
    | _, isFalse h => isFalse (by simp [h])

end

instance : DecidableEq AnnotationEntry := AnnotationEntry.decEq

instance : DecidableEq ElementValue := ElementValue.decEq

namespace ElementValue

/-- `B C D F I J S Z s`. -/
def isConstTag (tag : UInt8) : Bool :=
  [0x42, 0x43, 0x44, 0x46, 0x49, 0x4A, 0x53, 0x5A, 0x73].contains tag

def intTag : UInt8 := 0x49

def stringTag : UInt8 := 0x73

def enumTag : UInt8 := 0x65

def classTag : UInt8 := 0x63

def annotationTag : UInt8 := 0x40

def arrayTag : UInt8 := 0x5B

end ElementValue

open BigEndian

mutual

def AnnotationEntry.bytes : AnnotationEntry → List UInt8
  | ⟨t, es⟩ => word16 t ++ digits 2 es.length ++ ElementValue.elementsBytes es

def ElementValue.bytes : ElementValue → List UInt8
  | .const tag index => tag :: word16 index
  | .enum typeName constName => ElementValue.enumTag :: word16 typeName ++ word16 constName
  | .classInfo index => ElementValue.classTag :: word16 index
  | .nested a => ElementValue.annotationTag :: a.bytes
  | .array items => ElementValue.arrayTag :: digits 2 items.length ++ ElementValue.itemsBytes items

def ElementValue.elementsBytes : List (UInt16 × ElementValue) → List UInt8
  | [] => []
  | (name, value) :: rest => word16 name ++ value.bytes ++ ElementValue.elementsBytes rest

def ElementValue.itemsBytes : List ElementValue → List UInt8
  | [] => []
  | value :: rest => value.bytes ++ ElementValue.itemsBytes rest

end

/-- Reads an annotation whose values are read by `value`. -/
def AnnotationEntry.readWith (value : Reader ElementValue) : Reader AnnotationEntry := do
  let typeIndex ← Reader.word16
  let elements ← Reader.counted do
    let name ← Reader.word16
    return (name, ← value)
  return ⟨typeIndex, elements⟩

/-- Reads a value nested at most `depth` deep. A fault of the tag is placed behind it. -/
def ElementValue.read : (depth : Nat) → Reader ElementValue
  | 0 => Reader.fail (.unexpectedEnd 1)
  | depth + 1 => do
    let tag ← Reader.word8
    if isConstTag tag then return .const tag (← Reader.word16)
    else if tag = enumTag then return .enum (← Reader.word16) (← Reader.word16)
    else if tag = classTag then return .classInfo (← Reader.word16)
    else if tag = annotationTag then return .nested (← AnnotationEntry.readWith (read depth))
    else if tag = arrayTag then return .array (← Reader.counted (read depth))
    else Reader.fail (.valueTag tag)

namespace AnnotationEntry

def tableBytes (table : List AnnotationEntry) : List UInt8 := countedBytes bytes table

/-- The annotations that all of `payload` spells. -/
def readTable (payload : List UInt8) : Except Fault (List AnnotationEntry) :=
  (Reader.counted (readWith (ElementValue.read (payload.length + 1)))).whole
    .trailingAfterAnnotations payload

def descriptor (a : AnnotationEntry) (pool : ConstantPool) : Except Fault String :=
  pool.utf8 a.typeIndex

/-- The first value under a name. Every name before it has to resolve. -/
def lookup (pool : ConstantPool) (name : String) :
    List (UInt16 × ElementValue) → Except Fault (Option ElementValue)
  | [] => .ok none
  | (i, value) :: rest => do
    if (← pool.utf8 i) = name then return some value else lookup pool name rest

def element? (a : AnnotationEntry) (pool : ConstantPool) (name : String) :
    Except Fault (Option ElementValue) :=
  lookup pool name a.elements

def intElement? (a : AnnotationEntry) (pool : ConstantPool) (name : String) :
    Except Fault (Option Int32) := do
  match ← a.element? pool name with
  | none => return none
  | some (.const tag index) =>
    if tag = ElementValue.intTag then return some (← pool.integer index)
    else throw ⟨0, .elementNotInt name⟩
  | some _ => throw ⟨0, .elementNotInt name⟩

def stringItem (pool : ConstantPool) (name : String) : ElementValue → Except Fault String
  | .const tag index =>
    if tag = ElementValue.stringTag then pool.utf8 index else .error ⟨0, .elementNotString name⟩
  | _ => .error ⟨0, .elementNotString name⟩

def stringsElement? (a : AnnotationEntry) (pool : ConstantPool) (name : String) :
    Except Fault (Option (List String)) := do
  match ← a.element? pool name with
  | none => return none
  | some (.array items) => return some (← items.mapM (stringItem pool name))
  | some _ => throw ⟨0, .elementNotArray name⟩

/-- The elements with the first value under `name` replaced; none if no element has the name. -/
def replaceElement? (pool : ConstantPool) (name : String) (value : ElementValue) :
    List (UInt16 × ElementValue) → Except Fault (Option (List (UInt16 × ElementValue)))
  | [] => .ok none
  | (i, old) :: rest => do
    if (← pool.utf8 i) = name then return some ((i, value) :: rest)
    else return (← replaceElement? pool name value rest).map ((i, old) :: ·)

end AnnotationEntry

/-- An array of strings, each in the pool. -/
def ElementValue.ofStrings (strings : List String) : ConstantPool.Extension ElementValue := do
  let items ← strings.mapM fun s => do
    return ElementValue.const stringTag (← ConstantPool.addUtf8 s)
  return .array items

/-- Sets the element of a name, behind the others if the name is new. -/
def AnnotationEntry.setElement (a : AnnotationEntry) (name : String) (value : ElementValue) :
    ConstantPool.Extension AnnotationEntry := do
  match AnnotationEntry.replaceElement? (← get) name value a.elements with
  | .error fault => throw fault
  | .ok (some elements) => return { a with elements }
  | .ok none => return { a with elements := a.elements ++ [(← ConstantPool.addUtf8 name, value)] }

end JarPruning
