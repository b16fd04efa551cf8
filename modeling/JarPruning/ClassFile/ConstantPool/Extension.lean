import JarPruning.ClassFile.ConstantPool

/-!
Adding constants. An addition returns the index of the first entry that already resolves to the
wanted texts, and appends one, with the parts it lacks, only if there is none. No entry ever
moves, and a pool holds at most 65535 entries. Parts added before a failure stay.
-/
namespace JarPruning.ConstantPool

abbrev Extension := EStateM Fault ConstantPool

/-- The greatest number of entries that a pool's count can express. -/
def capacity : Nat := 65535

def find? (pool : ConstantPool) (p : Constant → Bool) : Option UInt16 :=
  (pool.entries.findIdx? p).map UInt16.ofNat

def push (c : Constant) : Extension UInt16 := fun pool =>
  if capacity ≤ pool.entries.size then .error ⟨0, .poolFull⟩ pool
  else .ok (UInt16.ofNat pool.entries.size) ⟨pool.entries.push c⟩

/-- The first entry that `p` accepts in the present pool, else what `add` appends. -/
def findOr (p : ConstantPool → Constant → Bool) (add : Extension UInt16) : Extension UInt16 := do
  let pool ← get
  match pool.find? (p pool) with
  | some index => return index
  | none => add

def isText (text : String) (_ : ConstantPool) : Constant → Bool
  | .utf8 t _ => t == text
  | _ => false

def isClass (name : String) (pool : ConstantPool) : Constant → Bool
  | .classInfo i => pool.hasText i name
  | _ => false

def isString (text : String) (pool : ConstantPool) : Constant → Bool
  | .string i => pool.hasText i text
  | _ => false

def isNameAndType (s : Signature) (pool : ConstantPool) : Constant → Bool
  | .nameAndType name descriptor => pool.hasText name s.name && pool.hasText descriptor s.descriptor
  | _ => false

def isMethodRef (owner : String) (s : Signature) (pool : ConstantPool) : Constant → Bool
  | .methodRef c nt =>
    match pool.memberOf c nt false with
    | .ok member => member == ⟨s, owner, false⟩
    | .error _ => false
  | _ => false

def addUtf8 (text : String) : Extension UInt16 :=
  findOr (isText text) (push (.ofText text))

def addClass (name : String) : Extension UInt16 :=
  findOr (isClass name) do
    push (.classInfo (← addUtf8 name))

def addString (text : String) : Extension UInt16 :=
  findOr (isString text) do
    push (.string (← addUtf8 text))

def addNameAndType (s : Signature) : Extension UInt16 :=
  findOr (isNameAndType s) do
    let name ← addUtf8 s.name
    let descriptor ← addUtf8 s.descriptor
    push (.nameAndType name descriptor)

def addMethodRef (owner : String) (s : Signature) : Extension UInt16 :=
  findOr (isMethodRef owner s) do
    let owner ← addClass owner
    let nt ← addNameAndType s
    push (.methodRef owner nt)

end JarPruning.ConstantPool
