import JarPruning.Member.Signature

/-!
Field and method descriptors. A method descriptor is read from its opening bracket up to the end
of one return type; what follows that type is ignored by the reading, but is part of the return
type's text.
-/
namespace JarPruning

namespace Descriptor

inductive Fault where
  | noOpening
  | endOfInput
  | noSemicolon
  | unknownType
  | arrayOfNothing
  | noReturnType
  | tooManyDimensions
  deriving DecidableEq, Repr

def Fault.text : Fault → String
  | .noOpening => "Invalid descriptor: Method descriptor must start with '('."
  | .endOfInput => "Unexpected end of input."
  | .noSemicolon => "Invalid descriptor: Missing semicolon in class name descriptor."
  | .unknownType => "Invalid descriptor: Unrecognized type descriptor."
  | .arrayOfNothing => "Invalid descriptor: Invalid descriptor."
  | .noReturnType => "Invalid descriptor: Missing return type."
  | .tooManyDimensions => "Array has too many dimensions."

/-- What the brackets of a descriptor stand before. `void` is accepted wherever a type is. -/
inductive Element where
  | byte | char | double | float | int | long | short | boolean | void
  | object (name : List Char)
  deriving DecidableEq, Repr

structure TypeDescriptor where
  dimensions : Nat
  element : Element
  deriving DecidableEq, Repr

def Element.chars : Element → List Char
  | .byte => ['B']
  | .char => ['C']
  | .double => ['D']
  | .float => ['F']
  | .int => ['I']
  | .long => ['J']
  | .short => ['S']
  | .boolean => ['Z']
  | .void => ['V']
  | .object name => 'L' :: name ++ [';']

def TypeDescriptor.chars (t : TypeDescriptor) : List Char :=
  List.replicate t.dimensions '[' ++ t.element.chars

/-- A parameter's local variable slots. -/
def TypeDescriptor.slots (t : TypeDescriptor) : Nat :=
  if t.dimensions = 0 ∧ (t.element = .long ∨ t.element = .double) then 2 else 1

def maxDimensions : Nat := 255

/-- The number of opening brackets in front, and the rest. -/
def brackets : List Char → Nat × List Char
  | '[' :: rest => let (n, r) := brackets rest; (n + 1, r)
  | rest => (0, rest)

/-- A class name up to its semicolon. -/
def className : List Char → Except Fault (List Char × List Char)
  | [] => .error .noSemicolon
  | c :: rest =>
    if c = ';' then .ok ([], rest)
    else (className rest).map fun (name, r) => (c :: name, r)

/-- One element; `closed` is the fault of a closing bracket. -/
def readElement (closed : Fault) : List Char → Except Fault (Element × List Char)
  | [] => .error .endOfInput
  | 'B' :: rest => .ok (.byte, rest)
  | 'C' :: rest => .ok (.char, rest)
  | 'D' :: rest => .ok (.double, rest)
  | 'F' :: rest => .ok (.float, rest)
  | 'I' :: rest => .ok (.int, rest)
  | 'J' :: rest => .ok (.long, rest)
  | 'S' :: rest => .ok (.short, rest)
  | 'Z' :: rest => .ok (.boolean, rest)
  | 'V' :: rest => .ok (.void, rest)
  | 'L' :: rest => (className rest).map fun (name, r) => (.object name, r)
  | ')' :: _ => .error closed
  | _ => .error .unknownType

def readType (cs : List Char) : Except Fault (TypeDescriptor × List Char) :=
  let (dimensions, rest) := brackets cs
  if maxDimensions < dimensions then .error .tooManyDimensions
  else
    (readElement (if dimensions = 0 then .noReturnType else .arrayOfNothing) rest).map
      fun (element, r) => (⟨dimensions, element⟩, r)

theorem brackets_length (cs : List Char) : (brackets cs).2.length ≤ cs.length := by
  fun_induction brackets cs with
  | case1 rest n r h ih => simp_all; omega
  | case2 => simp

theorem className_length {cs name rest : List Char} (h : className cs = .ok (name, rest)) :
    rest.length < cs.length := by
  induction cs generalizing name with
  | nil => simp [className] at h
  | cons c cs ih =>
    unfold className at h
    split at h
    · simp only [Except.ok.injEq, Prod.mk.injEq] at h
      simp [h.2]
    · cases hn : className cs with
      | error e => simp [hn, Except.map] at h
      | ok p =>
        obtain ⟨_, _⟩ := p
        simp only [hn, Except.map, Except.ok.injEq, Prod.mk.injEq] at h
        have := ih (h.2 ▸ hn)
        simp only [List.length_cons]
        omega

theorem readElement_length {closed : Fault} {cs rest : List Char} {e : Element}
    (h : readElement closed cs = .ok (e, rest)) : rest.length < cs.length := by
  unfold readElement at h
  split at h <;> try (simp at h; done)
  case h_11 cs =>
    cases hn : className cs with
    | error e => simp [hn, Except.map] at h
    | ok p =>
      obtain ⟨_, _⟩ := p
      simp only [hn, Except.map, Except.ok.injEq, Prod.mk.injEq] at h
      have := className_length hn
      simp only [List.length_cons, ← h.2]
      omega
  all_goals
    simp only [Except.ok.injEq, Prod.mk.injEq] at h
    simp [h.2]

theorem readType_length {cs rest : List Char} {t : TypeDescriptor}
    (h : readType cs = .ok (t, rest)) : rest.length < cs.length := by
  unfold readType at h
  have hb := brackets_length cs
  revert h hb
  generalize brackets cs = b
  intro h hb
  simp only at h
  split at h
  · simp at h
  · generalize he : readElement _ b.2 = r at h
    cases r with
    | error e => simp [Except.map] at h
    | ok p =>
      obtain ⟨_, _⟩ := p
      simp only [Except.map, Except.ok.injEq, Prod.mk.injEq] at h
      have := readElement_length he
      rw [← h.2]
      omega

/-- The types up to the closing bracket, and what stands behind it. -/
def readParameters (cs : List Char) : Except Fault (List TypeDescriptor × List Char) :=
  match cs with
  | ')' :: rest => .ok ([], rest)
  | cs =>
    match h : readType cs with
    | .error e => .error e
    | .ok (t, rest) =>
      have := readType_length h
      (readParameters rest).map fun (ts, r) => (t :: ts, r)
termination_by cs.length

/-- The parameter types and the return type. -/
def readMethod : List Char → Except Fault (List TypeDescriptor × TypeDescriptor)
  | '(' :: rest => do
    let (parameters, rest) ← readParameters rest
    let (result, _) ← readType rest
    return (parameters, result)
  | _ => .error .noOpening

/-- Whether a field descriptor's value takes two stack slots. -/
def isWide (descriptor : String) : Bool :=
  match descriptor.toList with
  | 'J' :: _ | 'D' :: _ => true
  | _ => false

/-- The parameter list of a method descriptor, brackets included; `()` if there is none. -/
def parameterList (descriptor : String) : String :=
  let cs := descriptor.toList
  if cs.contains ')' then String.ofList (cs.takeWhile (· ≠ ')') ++ [')']) else "()"

end Descriptor

/-- What a method descriptor says about a method's frame. -/
structure MethodShape where
  /-- The text between the brackets. -/
  parameters : String
  returnType : String
  parameterCount : Nat
  /-- Local variable slots of the parameters, without the receiver. -/
  argumentSlots : Nat
  returnsVoid : Bool
  deriving DecidableEq, Repr

/-- The texts are split at the first closing bracket, whatever it stands in. -/
def MethodShape.of (descriptor : String) : Except Descriptor.Fault MethodShape := do
  let (parameters, result) ← Descriptor.readMethod descriptor.toList
  let inside := descriptor.toList.drop 1
  return {
    parameters := String.ofList (inside.takeWhile (· ≠ ')'))
    returnType := String.ofList ((inside.dropWhile (· ≠ ')')).drop 1)
    parameterCount := parameters.length
    argumentSlots := parameters.foldr (fun p n => p.slots + n) 0
    returnsVoid := result == ⟨0, .void⟩ }

end JarPruning
