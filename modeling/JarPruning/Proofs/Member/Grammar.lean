import JarPruning.Member.Descriptor
import JarPruning.Proofs.Except

/-!
The grammar of method descriptors and what is read off them. Types are read back from what they
are written as, so counts and slots are those of the descriptor; its texts are split at the first
closing bracket, which is the descriptor's own if no parameter has one in its class name.
-/
namespace JarPruning.Descriptor

/-- A type of values, not `void`; a class is named by a text that is not empty and keeps to the
characters of class names. -/
def Element.IsValue : Element → Prop
  | .void => False
  | .object name => name ≠ [] ∧ '.' ∉ name ∧ ';' ∉ name ∧ '[' ∉ name
  | _ => True

structure TypeDescriptor.IsValue (t : TypeDescriptor) : Prop where
  dimensions : t.dimensions ≤ 255
  element : t.element.IsValue

def TypeDescriptor.void : TypeDescriptor := ⟨0, .void⟩

/-- What stands between the brackets of a method descriptor and behind them. -/
structure MethodDescriptor where
  parameters : List TypeDescriptor
  result : TypeDescriptor
  parameters_value : ∀ p ∈ parameters, p.IsValue
  result_value : result = .void ∨ result.IsValue

namespace MethodDescriptor

def parameterChars (m : MethodDescriptor) : List Char :=
  m.parameters.flatMap TypeDescriptor.chars

def text (m : MethodDescriptor) : String :=
  String.ofList ('(' :: m.parameterChars ++ ')' :: m.result.chars)

end MethodDescriptor

/-! Types are read back. -/

/-- A class name ends where its semicolon stands. -/
def Element.EndsOnce (e : Element) : Prop := ∀ name, e = .object name → ';' ∉ name

theorem Element.IsValue.endsOnce {e : Element} (h : e.IsValue) : e.EndsOnce := by
  rintro name rfl
  exact h.2.2.1

/-- What reading asks of a type. It takes class names that the grammar does not have. -/
structure TypeDescriptor.Readable (t : TypeDescriptor) : Prop where
  dimensions : t.dimensions ≤ 255
  element : t.element.EndsOnce

theorem TypeDescriptor.IsValue.readable {t : TypeDescriptor} (h : t.IsValue) : t.Readable :=
  ⟨h.dimensions, h.element.endsOnce⟩

theorem TypeDescriptor.readable_void : TypeDescriptor.void.Readable :=
  ⟨Nat.zero_le _, fun _ h => by cases h⟩

/-- The objects of a class. -/
def TypeDescriptor.ofClass (name : String) : TypeDescriptor := ⟨0, .object name.toList⟩

theorem TypeDescriptor.chars_ofClass (name : String) :
    (ofClass name).chars = 'L' :: name.toList ++ [';'] := rfl

theorem TypeDescriptor.readable_ofClass {name : String} (h : ';' ∉ name.toList) :
    (ofClass name).Readable := by
  refine ⟨Nat.zero_le _, ?_⟩
  rintro _ ⟨⟩
  exact h

theorem MethodDescriptor.parameters_readable (m : MethodDescriptor) :
    ∀ p ∈ m.parameters, p.Readable := fun p hp => (m.parameters_value p hp).readable

theorem MethodDescriptor.result_readable (m : MethodDescriptor) : m.result.Readable := by
  rcases m.result_value with h | h
  · rw [h]
    exact TypeDescriptor.readable_void
  · exact h.readable

theorem Element.chars_eq_cons (e : Element) : ∃ c cs, e.chars = c :: cs ∧ c ≠ '[' ∧ c ≠ ')' := by
  cases e <;> exact ⟨_, _, rfl, by decide, by decide⟩

theorem TypeDescriptor.chars_eq_cons (t : TypeDescriptor) :
    ∃ c cs, t.chars = c :: cs ∧ c ≠ ')' := by
  unfold chars
  cases t.dimensions with
  | zero =>
    obtain ⟨c, cs, hchars, -, hc⟩ := t.element.chars_eq_cons
    exact ⟨c, cs, hchars, hc⟩
  | succ n => exact ⟨_, _, rfl, by decide⟩

theorem brackets_replicate (n : Nat) {c : Char} (hc : c ≠ '[') (cs : List Char) :
    brackets (List.replicate n '[' ++ c :: cs) = (n, c :: cs) := by
  induction n with
  | zero =>
    rw [List.replicate_zero, List.nil_append, brackets]
    exact fun rest h => hc (List.cons.inj h).1
  | succ n ih => rw [List.replicate_succ, List.cons_append, brackets, ih]

theorem className_append {name : List Char} (h : ';' ∉ name) (rest : List Char) :
    className (name ++ ';' :: rest) = .ok (name, rest) := by
  induction name with
  | nil => simp [className]
  | cons c name ih =>
    obtain ⟨hc, hname⟩ := not_or.1 (mt List.mem_cons.2 h)
    rw [List.cons_append, className, if_neg (Ne.symm hc), ih hname]
    rfl

theorem readElement_chars (closed : Fault) {e : Element} (h : e.EndsOnce) (rest : List Char) :
    readElement closed (e.chars ++ rest) = .ok (e, rest) := by
  cases e with
  | object name =>
    have hname := className_append (h name rfl) rest
    rw [Element.chars, List.append_assoc, List.cons_append, List.singleton_append, readElement,
      hname]
    rfl
  | _ => rfl

theorem readType_chars {t : TypeDescriptor} (h : t.Readable) (rest : List Char) :
    readType (t.chars ++ rest) = .ok (t, rest) := by
  obtain ⟨c, cs, hchars, hc, -⟩ := t.element.chars_eq_cons
  have hbrackets : brackets (t.chars ++ rest) = (t.dimensions, t.element.chars ++ rest) := by
    rw [TypeDescriptor.chars, List.append_assoc, hchars]
    exact brackets_replicate t.dimensions hc (cs ++ rest)
  have hmax : ¬ maxDimensions < t.dimensions := Nat.not_lt.2 h.dimensions
  rw [readType, hbrackets]
  simp only [hmax, ↓reduceIte, readElement_chars _ h.element rest]
  rfl

theorem readParameters_chars {ts : List TypeDescriptor} (h : ∀ t ∈ ts, t.Readable)
    (rest : List Char) :
    readParameters (ts.flatMap TypeDescriptor.chars ++ ')' :: rest) = .ok (ts, rest) := by
  induction ts with
  | nil => rw [List.flatMap_nil, List.nil_append, readParameters]
  | cons t ts ih =>
    obtain ⟨ht, hts⟩ := List.forall_mem_cons.1 h
    obtain ⟨c, cs, hchars, hc⟩ := t.chars_eq_cons
    have htype := readType_chars ht (ts.flatMap TypeDescriptor.chars ++ ')' :: rest)
    rw [List.flatMap_cons, List.append_assoc]
    rw [readParameters.eq_def]
    split
    · next heq =>
      rw [hchars] at heq
      exact absurd (List.cons.inj heq).1 hc
    · next heq =>
      split
      · next hread => rw [htype] at hread; cases hread
      · next hread =>
        rw [htype] at hread
        cases hread
        rw [ih hts]
        rfl

/-- The text of a method that takes and gives some types. -/
def methodChars (parameters : List TypeDescriptor) (result : TypeDescriptor) : List Char :=
  '(' :: parameters.flatMap TypeDescriptor.chars ++ ')' :: result.chars

theorem readMethod_chars {parameters : List TypeDescriptor} {result : TypeDescriptor}
    (hparameters : ∀ p ∈ parameters, p.Readable) (hresult : result.Readable) :
    readMethod (methodChars parameters result) = .ok (parameters, result) := by
  have hread := readType_chars hresult []
  rw [List.append_nil] at hread
  rw [methodChars, List.cons_append, readMethod, readParameters_chars hparameters]
  simp only [bind, Except.bind, hread]
  rfl

/-- What a class is named by does not matter for the count. -/
theorem exists_shape_of_methodChars {parameters : List TypeDescriptor} {result : TypeDescriptor}
    (hparameters : ∀ p ∈ parameters, p.Readable) (hresult : result.Readable) :
    ∃ shape, MethodShape.of (String.ofList (methodChars parameters result)) = .ok shape ∧
      shape.parameterCount = parameters.length :=
  ⟨_, by rw [MethodShape.of, String.toList_ofList, readMethod_chars hparameters hresult]; rfl, rfl⟩

theorem readMethod_text (m : MethodDescriptor) :
    readMethod m.text.toList = .ok (m.parameters, m.result) := by
  rw [MethodDescriptor.text, String.toList_ofList]
  exact readMethod_chars m.parameters_readable m.result_readable

/-! The texts. -/

theorem forall_ne_bracket {cs : List Char} (h : ')' ∉ cs) : ∀ c ∈ cs, decide (c ≠ ')') = true :=
  fun _ hc => decide_eq_true fun heq => h (heq ▸ hc)

/-- What stands before the first closing bracket is the text in front of a bracket if that text
has none itself. -/
theorem takeWhile_eq_iff {cs rest : List Char} :
    (cs ++ ')' :: rest).takeWhile (· ≠ ')') = cs ↔ ')' ∉ cs := by
  constructor
  · intro h hmem
    rw [← h] at hmem
    simpa using List.all_eq_true.1 List.all_takeWhile _ hmem
  · intro h
    rw [List.takeWhile_append_of_pos (forall_ne_bracket h)]
    simp

theorem dropWhile_eq {cs rest : List Char} (h : ')' ∉ cs) :
    (cs ++ ')' :: rest).dropWhile (· ≠ ')') = ')' :: rest := by
  rw [List.dropWhile_append_of_pos (forall_ne_bracket h)]
  simp

theorem slots_eq (ts : List TypeDescriptor) : ts.foldr (fun t n => t.slots + n) 0 =
    ts.length + ts.countP fun t => t = ⟨0, .long⟩ ∨ t = ⟨0, .double⟩ := by
  induction ts with
  | nil => rfl
  | cons t ts ih =>
    have hwide : (t.dimensions = 0 ∧ (t.element = .long ∨ t.element = .double)) ↔
        t = ⟨0, .long⟩ ∨ t = ⟨0, .double⟩ := by
      obtain ⟨dimensions, element⟩ := t
      simp only [TypeDescriptor.mk.injEq, and_or_left]
    rw [List.foldr_cons, ih, TypeDescriptor.slots, List.length_cons, List.countP_cons]
    simp only [hwide, decide_eq_true_eq]
    split <;> omega

/-- What is to be read off the text of a method that takes and gives some types. -/
def shapeOf (parameters : List TypeDescriptor) (result : TypeDescriptor) : MethodShape where
  parameters := String.ofList (parameters.flatMap TypeDescriptor.chars)
  returnType := String.ofList result.chars
  parameterCount := parameters.length
  argumentSlots := parameters.length + parameters.countP fun t => t = ⟨0, .long⟩ ∨ t = ⟨0, .double⟩
  returnsVoid := decide (result = .void)

theorem shape_of_methodChars {parameters : List TypeDescriptor} {result : TypeDescriptor}
    (hparameters : ∀ p ∈ parameters, p.Readable) (hresult : result.Readable)
    (hbracket : ∀ p ∈ parameters, ')' ∉ p.chars) :
    MethodShape.of (String.ofList (methodChars parameters result)) =
      .ok (shapeOf parameters result) := by
  have hnone : ')' ∉ parameters.flatMap TypeDescriptor.chars := by simpa using hbracket
  have hinside : (methodChars parameters result).drop 1 =
      parameters.flatMap TypeDescriptor.chars ++ ')' :: result.chars := rfl
  simp only [MethodShape.of, String.toList_ofList, readMethod_chars hparameters hresult, hinside,
    takeWhile_eq_iff.2 hnone, dropWhile_eq hnone]
  simp only [bind, Except.bind, pure, Except.pure, shapeOf, slots_eq, List.drop_succ_cons,
    List.drop_zero]
  rfl

/-- A descriptor of the grammar is read with the number, the slots and the kind of result that it
has. The texts of its parameters and of its result are told right if, and only if, no parameter
has a closing bracket in it, which only the name of a class can have. -/
theorem shape_of_text (m : MethodDescriptor) : ∃ shape, MethodShape.of m.text = .ok shape ∧
    shape.parameterCount = m.parameters.length ∧
    shape.argumentSlots =
      m.parameters.length + m.parameters.countP (fun p => p = ⟨0, .long⟩ ∨ p = ⟨0, .double⟩) ∧
    (shape.returnsVoid = true ↔ m.result = .void) ∧
    (shape.parameters = String.ofList m.parameterChars ∧
        shape.returnType = String.ofList m.result.chars ↔ ∀ p ∈ m.parameters, ')' ∉ p.chars) := by
  have hinside : m.text.toList.drop 1 = m.parameterChars ++ ')' :: m.result.chars := by
    rw [MethodDescriptor.text, String.toList_ofList]
    rfl
  have hbracket : ')' ∉ m.parameterChars ↔ ∀ p ∈ m.parameters, ')' ∉ p.chars := by
    simp [MethodDescriptor.parameterChars]
  refine ⟨_, by rw [MethodShape.of, readMethod_text]; rfl, rfl, slots_eq m.parameters,
    beq_iff_eq, ?_⟩
  rw [hinside, ← hbracket]
  constructor
  · rintro ⟨hparameters, -⟩
    exact takeWhile_eq_iff.1 (String.ofList_injective hparameters)
  · intro h
    rw [takeWhile_eq_iff.2 h, dropWhile_eq h]
    exact ⟨rfl, rfl⟩

/-- A method that takes an object of a class whose name has a closing bracket in it. -/
def bracketInName : MethodDescriptor where
  parameters := [⟨0, .object ['a', ')', 'b']⟩]
  result := .void
  parameters_value := by
    intro p hp
    rw [List.mem_singleton.1 hp]
    exact ⟨Nat.zero_le _, by decide, by decide, by decide, by decide⟩
  result_value := .inl rfl

/-- The method has one parameter and no result, but its texts are split inside the name. -/
theorem splits_in_name : bracketInName.text = "(La)b;)V" ∧
    bracketInName.parameterChars = ['L', 'a', ')', 'b', ';'] ∧ bracketInName.result.chars = ['V'] ∧
    MethodShape.of bracketInName.text = .ok ⟨"La", "b;)V", 1, 1, true⟩ :=
  ⟨by decide, rfl, rfl, by with_unfolding_all rfl⟩

end JarPruning.Descriptor
