import JarPruning.Bytecode.Stub
import JarPruning.Proofs.ClassFile.Grounded

/-! Stub bodies: they only add constants, they are short, and they come out the same again. -/
namespace JarPruning.Stub

open ConstantPool

/-- The local variables of a stub. -/
def locals (shape : MethodShape) (isStatic : Bool) : Nat :=
  shape.argumentSlots + if isStatic then 0 else 1

/-- The two kinds of stub. -/
inductive Written (p q : ConstantPool) (shape : MethodShape) (isStatic : Bool) :
    List UInt8 → Prop
  | returns (void : shape.returnsVoid) (same : q = p) :
    Written p q shape isStatic
      (Body.bytes ⟨0, UInt16.ofNat (locals shape isStatic), [Opcode.ret]⟩)
  | throws {code : List UInt8} (value : shape.returnsVoid = false)
    (run : throwingCode.run p = .ok code q) :
    Written p q shape isStatic (Body.bytes ⟨3, UInt16.ofNat (locals shape isStatic), code⟩)

theorem payload_run {descriptor : String} {shape : MethodShape}
    (hshape : MethodShape.of descriptor = .ok shape) (isStatic : Bool) (p : ConstantPool) :
    (payload descriptor isStatic).run p =
      if locals shape isStatic < UInt16.size then
        if shape.returnsVoid then
          .ok (Body.bytes ⟨0, UInt16.ofNat (locals shape isStatic), [Opcode.ret]⟩) p
        else
          match throwingCode.run p with
          | .ok code q => .ok (Body.bytes ⟨3, UInt16.ofNat (locals shape isStatic), code⟩) q
          | .error fault q => .error (.format fault) q
      else .error .tooManyArguments p := by
  unfold payload
  rw [hshape]
  show EStateM.run (if locals shape isStatic < UInt16.size then _ else _) p = _
  split
  · cases hvoid : shape.returnsVoid with
    | true => rfl
    | false =>
      cases hcode : throwingCode.run p with
      | ok bytes q =>
        simp only [EStateM.run] at hcode
        simp [code, EStateM.run, EStateM.adaptExcept, bind, EStateM.bind, hcode, pure, EStateM.pure,
          locals]
      | error fault q =>
        simp only [EStateM.run] at hcode
        simp [code, EStateM.run, EStateM.adaptExcept, bind, EStateM.bind, hcode]
  · rfl

theorem payload_ok_iff {descriptor : String} {isStatic : Bool} {p q : ConstantPool}
    {bytes : List UInt8} :
    (payload descriptor isStatic).run p = .ok bytes q ↔
      ∃ shape, MethodShape.of descriptor = .ok shape ∧ locals shape isStatic < UInt16.size ∧
        Written p q shape isStatic bytes := by
  cases hshape : MethodShape.of descriptor with
  | error fault =>
    constructor
    · intro h
      unfold payload at h
      rw [hshape] at h
      cases h
    · rintro ⟨shape, h, -⟩
      cases h
  | ok shape =>
    rw [payload_run hshape]
    constructor
    · intro h
      split at h
      · next hlocals =>
        refine ⟨shape, rfl, hlocals, ?_⟩
        cases hvoid : shape.returnsVoid with
        | true =>
          rw [hvoid] at h
          cases h
          exact .returns hvoid rfl
        | false =>
          rw [hvoid] at h
          cases hcode : throwingCode.run p with
          | ok code r =>
            rw [hcode] at h
            cases h
            exact .throws hvoid hcode
          | error fault r =>
            rw [hcode] at h
            cases h
      · cases h
    · rintro ⟨shape', hshape', hlocals, hwritten⟩
      cases hshape'
      rw [if_pos hlocals]
      cases hwritten with
      | returns hvoid hq => rw [if_pos hvoid, hq]
      | throws hvoid hcode => rw [if_neg (by simp [hvoid]), hcode]

theorem throwingCode_adds : Adds throwingCode := by
  have howner : FitsText exceptionClass := by unfold FitsText; decide
  have htext : FitsText exceptionText := by unfold FitsText; decide
  have hname : FitsText exceptionConstructor.name := by unfold FitsText; decide
  have hdescriptor : FitsText exceptionConstructor.descriptor := by unfold FitsText; decide
  exact (addClass_adds howner).bind fun _ => (addString_adds htext).bind fun _ =>
    (addMethodRef_adds howner hname hdescriptor).bind fun _ => .pure _

/-- The three constants that code that throws refers to. -/
structure Supplied (pool : ConstantPool) (owner text constructor : UInt16) : Prop where
  owner : (Request.classInfo exceptionClass).FoundAt pool owner
  text : (Request.string exceptionText).FoundAt pool text
  constructor : (Request.methodRef exceptionClass exceptionConstructor).FoundAt pool constructor

theorem throwingCode_builds : Builds 3 (fun _ => True) throwingCode fun q code =>
    ∃ owner text constructor, code = throwing owner text constructor ∧
      Supplied q owner text constructor := by
  refine ((Request.classInfo exceptionClass).add_builds.mono (Nat.le_succ 2)).bind fun owner => ?_
  refine (((Request.string exceptionText).add_builds.mono (Nat.le_succ 2)).frame
    fun p q h howner => howner.of_extends h).bind fun text => ?_
  refine ((Request.methodRef exceptionClass exceptionConstructor).add_builds.frame
    fun p q h hkept => ⟨hkept.1.of_extends h, hkept.2.of_extends h⟩).bind fun constructor => ?_
  exact .pure fun p ⟨hconstructor, htext, howner⟩ =>
    ⟨owner, text, constructor, rfl, howner, htext, hconstructor⟩

theorem Supplied.of_extends {p q : ConstantPool} {owner text constructor : UInt16}
    (h : Supplied p owner text constructor) (hfront : Extends p q) :
    Supplied q owner text constructor :=
  ⟨h.owner.of_extends hfront, h.text.of_extends hfront, h.constructor.of_extends hfront⟩

/-- Where its constants are, code that throws is written without adding any. -/
theorem Supplied.run {p : ConstantPool} {owner text constructor : UInt16}
    (h : Supplied p owner text constructor) : ∃ code, throwingCode.run p = .ok code p := by
  obtain ⟨i, -, hi, -⟩ := h.owner.run
  obtain ⟨j, -, hj, -⟩ := h.text.run
  obtain ⟨k, -, hk, -⟩ := h.constructor.run
  exact ⟨throwing i j k, run_bind_of_ok hi (run_bind_of_ok hj (run_bind_of_ok hk rfl))⟩

/-- Where code that throws was written before, all its constants are there. -/
theorem throwingCode_again {p q r : ConstantPool} {code : List UInt8}
    (hsize : p.entries.size ≤ capacity) (h : throwingCode.run p = .ok code q)
    (hfront : Extends q r) : ∃ code', throwingCode.run r = .ok code' r := by
  have houtcome := throwingCode_builds hsize trivial
  rw [h] at houtcome
  obtain ⟨-, owner, text, constructor, -, hsupplied⟩ := houtcome
  exact (hsupplied.of_extends hfront).run

theorem throwingCode_idle {p q r : ConstantPool} {code code' : List UInt8} (hp : p.Fits)
    (h : throwingCode.run p = .ok code q) (h' : throwingCode.run q = .ok code' r) : r = q := by
  obtain ⟨code'', hagain⟩ := throwingCode_again (Nat.le_of_lt_succ hp.size) h (.refl q)
  rw [hagain] at h'
  cases h'
  rfl

/-- No constant of the kinds that code that throws refers to leads beyond the pool. -/
def Anchored (pool : ConstantPool) : Prop :=
  (Request.classInfo exceptionClass).Anchored pool ∧ (Request.string exceptionText).Anchored pool ∧
    (Request.methodRef exceptionClass exceptionConstructor).Anchored pool

/-- Where moreover nothing led beyond the pool, it is written the same again. -/
theorem throwingCode_same {p q r : ConstantPool} {code : List UInt8}
    (hsize : p.entries.size ≤ capacity) (hanchored : Anchored p)
    (h : throwingCode.run p = .ok code q) (hfront : Extends q r) :
    throwingCode.run r = .ok code r := by
  obtain ⟨hclass, hstring, hmethod⟩ := hanchored
  obtain ⟨i, p₁, hi, h⟩ := run_bind_ok h
  obtain ⟨j, p₂, hj, h⟩ := run_bind_ok h
  obtain ⟨k, p₃, hk, h⟩ := run_bind_ok h
  cases h
  have h₁ := (Request.classInfo exceptionClass).appended_of_run hsize hi
  have h₂ := (Request.string exceptionText).appended_of_run h₁.size hj
  have h₃ := (Request.methodRef exceptionClass exceptionConstructor).appended_of_run h₂.size hk
  have hi' := Request.run_of_anchored hsize hclass hi ((h₂.front.trans h₃.front).trans hfront)
  have hj' := Request.run_of_anchored h₁.size (hstring.of_appended h₁) hj (h₃.front.trans hfront)
  have hk' := Request.run_of_anchored h₂.size ((hmethod.of_appended h₁).of_appended h₂) hk hfront
  exact run_bind_of_ok hi' (run_bind_of_ok hj' (run_bind_of_ok hk' rfl))

theorem payload_adds (descriptor : String) (isStatic : Bool) :
    Adds (payload descriptor isStatic) := by
  intro p bytes q h
  obtain ⟨shape, -, -, hwritten⟩ := payload_ok_iff.1 h
  cases hwritten with
  | returns _ hq => exact hq ▸ .refl p
  | throws _ hcode => exact throwingCode_adds hcode

theorem throwingCode_length {p q : ConstantPool} {code : List UInt8}
    (h : throwingCode.run p = .ok code q) : code.length ≤ 11 := by
  have hthrowing (owner text constructor : UInt16) :
      (throwing owner text constructor).length ≤ 11 := by
    unfold throwing load
    split <;> simp
  obtain ⟨owner, p₁, -, h⟩ := run_bind_ok h
  obtain ⟨text, p₂, -, h⟩ := run_bind_ok h
  obtain ⟨constructor, p₃, -, h⟩ := run_bind_ok h
  cases h
  exact hthrowing owner text constructor

theorem payload_length {descriptor : String} {isStatic : Bool} {p q : ConstantPool}
    {bytes : List UInt8} (h : (payload descriptor isStatic).run p = .ok bytes q) :
    bytes.length ≤ 23 := by
  obtain ⟨shape, -, -, hwritten⟩ := payload_ok_iff.1 h
  cases hwritten with
  | returns _ _ => simp [Body.bytes]
  | throws _ hcode =>
    have := throwingCode_length hcode
    simp [Body.bytes]
    omega

theorem throwingCode_lasts : Lasts throwingCode := by
  have howner : FitsText exceptionClass := by unfold FitsText; decide
  have htext : FitsText exceptionText := by unfold FitsText; decide
  have hname : FitsText exceptionConstructor.name := by unfold FitsText; decide
  have hdescriptor : FitsText exceptionConstructor.descriptor := by unfold FitsText; decide
  exact (addClass_lasts howner).bind fun _ => (addString_lasts htext).bind fun _ =>
    (addMethodRef_lasts howner hname hdescriptor).bind fun _ => .pure _

/-- A stub that was written once is written the same again. -/
theorem payload_lasts (descriptor : String) (isStatic : Bool) :
    Lasts (payload descriptor isStatic) := by
  intro p bytes q hfits hp h
  obtain ⟨shape, hshape, hlocals, hwritten⟩ := payload_ok_iff.1 h
  cases hwritten with
  | returns hvoid hq =>
    subst hq
    exact ⟨.refl _, hp, fun r _ => payload_ok_iff.2 ⟨shape, hshape, hlocals, .returns hvoid rfl⟩⟩
  | throws hvalue hcode =>
    have hlasting := throwingCode_lasts hfits hp hcode
    exact ⟨hlasting.grows, hlasting.grounded, fun r hr =>
      payload_ok_iff.2 ⟨shape, hshape, hlocals, .throws hvalue (hlasting.again r hr)⟩⟩

end JarPruning.Stub
