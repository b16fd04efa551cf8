import JarPruning.Pass.Pruner
import JarPruning.Proofs.Member.Grammar
import Mathlib.Algebra.Order.Floor.Div
import Mathlib.GroupTheory.GroupAction.Ring

/-!
Companions of methods with default arguments. Their descriptors are put together from texts: the
method's own parameters with an owner in front, masks and a marker behind. What is put together
is read back as the types that it was meant to name, and a companion has no companion.
-/
namespace JarPruning

namespace Descriptor

def TypeDescriptor.int : TypeDescriptor := ⟨0, .int⟩

/-- The descriptor is read as that of a method that takes and gives some types, and its texts are
those of the types. -/
structure Describes (descriptor : String) (parameters : List TypeDescriptor)
    (result : TypeDescriptor) : Prop where
  types : readMethod descriptor.toList = .ok (parameters, result)
  shape : MethodShape.of descriptor = .ok (shapeOf parameters result)

/-- A type that can stand in a list of parameters: it is read back, and its text has no closing
bracket. -/
structure TypeDescriptor.IsPlain (t : TypeDescriptor) : Prop extends t.Readable where
  bracket : ')' ∉ t.chars

theorem TypeDescriptor.isPlain_int : TypeDescriptor.int.IsPlain :=
  ⟨⟨Nat.zero_le _, fun _ h => by cases h⟩, by decide⟩

theorem TypeDescriptor.isPlain_ofClass {name : String} (hend : ';' ∉ name.toList)
    (hbracket : ')' ∉ name.toList) : (TypeDescriptor.ofClass name).IsPlain :=
  ⟨readable_ofClass hend, by simpa [chars_ofClass] using hbracket⟩

theorem describes_of_isPlain {descriptor : String} {parameters : List TypeDescriptor}
    {result : TypeDescriptor} (htext : descriptor.toList = methodChars parameters result)
    (hparameters : ∀ p ∈ parameters, p.IsPlain) (hresult : result.Readable) :
    Describes descriptor parameters result := by
  have hreadable : ∀ p ∈ parameters, p.Readable := fun p hp => (hparameters p hp).toReadable
  have hshape := shape_of_methodChars hreadable hresult fun p hp => (hparameters p hp).bracket
  rw [← htext, String.ofList_toList] at hshape
  exact ⟨htext ▸ readMethod_chars hreadable hresult, hshape⟩

end Descriptor

namespace Signature

open Descriptor

variable {s : Signature} {m : MethodDescriptor}

/-! The texts. -/

/-- One mask for every 32 parameters, and at least one. -/
def maskTypes (parameters : Nat) : List TypeDescriptor :=
  List.replicate (max 1 (parameters ⌈/⌉ 32)) .int

theorem masks_toList (n : Nat) : (masks n).toList = (maskTypes n).flatMap TypeDescriptor.chars := by
  have hceil : (n + 31) / 32 = n ⌈/⌉ 32 := (Nat.ceilDiv_eq_add_pred_div n 32).symm
  have hint : TypeDescriptor.int.chars = ['I'] := rfl
  rw [masks, String.toList_ofList, hceil, maskTypes, List.flatMap_replicate, hint,
    List.flatten_replicate_singleton]

theorem isPlain_maskTypes (n : Nat) : ∀ t ∈ maskTypes n, t.IsPlain := by
  intro t ht
  rw [(List.mem_replicate.1 ht).2]
  exact TypeDescriptor.isPlain_int

theorem isPlain_parameters (hbracket : ∀ p ∈ m.parameters, ')' ∉ p.chars) :
    ∀ p ∈ m.parameters, p.IsPlain :=
  fun p hp => ⟨m.parameters_readable p hp, hbracket p hp⟩

theorem shape_of_descriptor (hs : s.descriptor = m.text)
    (hbracket : ∀ p ∈ m.parameters, ')' ∉ p.chars) :
    MethodShape.of s.descriptor = .ok (shapeOf m.parameters m.result) := by
  rw [hs]
  exact shape_of_methodChars m.parameters_readable m.result_readable hbracket

theorem isConstructor_iff : s.isConstructor = true ↔ s.name = "<init>" ∨ s.name = "<clinit>" := by
  simp [isConstructor, isObjectConstructor, isClassInitializer]

theorem defaultFunction?_eq_none_iff (hs : s.descriptor = m.text)
    (hbracket : ∀ p ∈ m.parameters, ')' ∉ p.chars) (owner : Option String) (hasReceiver : Bool) :
    s.defaultFunction? owner hasReceiver = none ↔ s.name = "<init>" ∨ s.name = "<clinit>" := by
  rw [← isConstructor_iff, defaultFunction?.eq_def, shape_of_descriptor hs hbracket]
  cases s.isConstructor <;> simp

/-- The owner's type, if a companion takes its owner. -/
def ownerTypes (owner : Option String) : List TypeDescriptor := owner.toList.map .ofClass

theorem isPlain_ownerTypes {owner : Option String}
    (howner : ∀ name ∈ owner, ';' ∉ name.toList ∧ ')' ∉ name.toList) :
    ∀ t ∈ ownerTypes owner, t.IsPlain := by
  intro t ht
  obtain ⟨name, hname, rfl⟩ := List.mem_map.1 ht
  obtain ⟨hend, hbracket⟩ := howner name (Option.mem_toList.1 hname)
  exact TypeDescriptor.isPlain_ofClass hend hbracket

theorem defaultFunction?_describes {companion : Member} (hs : s.descriptor = m.text)
    (hbracket : ∀ p ∈ m.parameters, ')' ∉ p.chars) {owner : Option String} {hasReceiver : Bool}
    (howner : ∀ name ∈ owner, ';' ∉ name.toList ∧ ')' ∉ name.toList)
    (h : s.defaultFunction? owner hasReceiver = some companion) :
    companion.name = s.name ++ "$default" ∧
      Describes companion.descriptor
        (ownerTypes owner ++ m.parameters ++
          maskTypes (m.parameters.length - if hasReceiver then 1 else 0) ++
          [.ofClass "java/lang/Object"]) m.result := by
  have hobject : (TypeDescriptor.ofClass "java/lang/Object").chars =
      "Ljava/lang/Object;".toList := by decide
  rw [defaultFunction?.eq_def, shape_of_descriptor hs hbracket] at h
  split at h
  · cases h
  · obtain rfl := Option.some.inj h
    refine ⟨rfl, describes_of_isPlain ?_ ?_ m.result_readable⟩
    · cases owner <;>
        simp [toString, methodChars, ownerTypes, masks_toList, shapeOf, hobject,
          TypeDescriptor.chars_ofClass, -String.ofList_append]
    · simp only [List.forall_mem_append, List.forall_mem_singleton]
      exact ⟨⟨⟨isPlain_ownerTypes howner, isPlain_parameters hbracket⟩, isPlain_maskTypes _⟩,
        TypeDescriptor.isPlain_ofClass (by decide) (by decide)⟩

theorem isSome_defaultConstructor?_iff (hs : s.descriptor = m.text)
    (hbracket : ∀ p ∈ m.parameters, ')' ∉ p.chars) :
    s.defaultConstructor?.isSome = true ↔ s.name = "<init>" := by
  rw [defaultConstructor?.eq_def, shape_of_descriptor hs hbracket]
  by_cases h : s.name = "<init>" <;> simp [isObjectConstructor, h]

theorem defaultConstructor?_describes {companion : Member} (hs : s.descriptor = m.text)
    (hbracket : ∀ p ∈ m.parameters, ')' ∉ p.chars)
    (h : s.defaultConstructor? = some companion) :
    companion.name = "<init>" ∧
      Describes companion.descriptor
        (m.parameters ++ maskTypes m.parameters.length ++
          [.ofClass "kotlin/jvm/internal/DefaultConstructorMarker"]) .void := by
  have hmarker : (TypeDescriptor.ofClass "kotlin/jvm/internal/DefaultConstructorMarker").chars =
      defaultMarker.toList := by decide
  have hvoid : TypeDescriptor.void.chars = ['V'] := rfl
  rw [defaultConstructor?.eq_def, shape_of_descriptor hs hbracket] at h
  split at h
  · obtain rfl := Option.some.inj h
    refine ⟨rfl, describes_of_isPlain ?_ ?_ TypeDescriptor.readable_void⟩
    · simp [toString, methodChars, masks_toList, shapeOf, hmarker, hvoid, -String.ofList_append]
    · simp only [List.forall_mem_append, List.forall_mem_singleton]
      exact ⟨⟨isPlain_parameters hbracket, isPlain_maskTypes _⟩,
        TypeDescriptor.isPlain_ofClass (by decide) (by decide)⟩
  · cases h

/-! A companion of a companion. -/

/-- Behind the first of some characters there is something if there is behind a later one. -/
theorem drop_dropWhile_append_ne_nil {c : Char} {cs rest : List Char} (h : rest ≠ []) :
    ((cs ++ c :: rest).dropWhile (· ≠ c)).drop 1 ≠ [] := by
  induction cs with
  | nil => simpa using h
  | cons d cs ih =>
    by_cases hd : d = c
    · simp [hd]
    · rwa [List.cons_append, List.dropWhile_cons_of_pos (by simpa using hd)]

theorem suffix_ne_of_defaultFunction? {companion : Member} {owner : Option String}
    {hasReceiver : Bool} (h : s.defaultFunction? owner hasReceiver = some companion) :
    companion.suffix ≠ "" := by
  have hname : companion.name.toList = s.name.toList ++ '$' :: "default".toList := by
    unfold defaultFunction? at h
    split at h
    · cases h
    · split at h
      · cases h
      · obtain rfl := Option.some.inj h
        simp
  -- The name may have had a `$` before; there is still `default` behind the first one.
  rw [suffix, hname, ← String.ofList_nil]
  exact fun heq => drop_dropWhile_append_ne_nil (by decide) (String.ofList_injective heq)

end Signature

namespace Pruner

theorem scheduleCompanion_of_suffix {deleted : Member} (h : deleted.suffix ≠ "") (st : State) :
    ((scheduleCompanion deleted).run st).2.memory = st.memory := by
  rw [scheduleCompanion, if_neg h]
  rfl

end Pruner

namespace Signature

open Descriptor

/-- A method of the grammar whose parameters have no closing bracket in a class name has a default
companion unless it is a constructor, and a constructor companion if it is one of objects. Each is
described by the types that it takes: the method's own behind the owner, one mask for every 32 of
them that can be left out, and a marker. A deleted companion never asks for a companion. -/
theorem companions_described {s : Signature} {m : MethodDescriptor} (hs : s.descriptor = m.text)
    (hbracket : ∀ p ∈ m.parameters, ')' ∉ p.chars) :
    (∀ (owner : Option String) (hasReceiver : Bool),
      (∀ name ∈ owner, ';' ∉ name.toList ∧ ')' ∉ name.toList) →
      (s.defaultFunction? owner hasReceiver = none ↔ s.name = "<init>" ∨ s.name = "<clinit>") ∧
      ∀ companion, s.defaultFunction? owner hasReceiver = some companion →
        companion.name = s.name ++ "$default" ∧
        Describes companion.descriptor
          (owner.toList.map .ofClass ++ m.parameters ++
            List.replicate
              (max 1 ((m.parameters.length - if hasReceiver then 1 else 0) ⌈/⌉ 32)) .int ++
            [.ofClass "java/lang/Object"]) m.result) ∧
    (s.defaultConstructor?.isSome = true ↔ s.name = "<init>") ∧
    (∀ companion, s.defaultConstructor? = some companion →
      companion.name = "<init>" ∧
      Describes companion.descriptor
        (m.parameters ++ List.replicate (max 1 (m.parameters.length ⌈/⌉ 32)) .int ++
          [.ofClass "kotlin/jvm/internal/DefaultConstructorMarker"]) .void) ∧
    ∀ owner hasReceiver companion, s.defaultFunction? owner hasReceiver = some companion →
      ∀ deleted : Member, deleted.toSignature = companion.toSignature →
        ∀ st : Pruner.State, ((Pruner.scheduleCompanion deleted).run st).2.memory = st.memory := by
  refine ⟨fun owner hasReceiver howner => ⟨defaultFunction?_eq_none_iff hs hbracket owner _,
      fun companion h => defaultFunction?_describes hs hbracket howner h⟩,
    isSome_defaultConstructor?_iff hs hbracket,
    fun companion h => defaultConstructor?_describes hs hbracket h, ?_⟩
  intro owner hasReceiver companion h deleted hdeleted
  refine Pruner.scheduleCompanion_of_suffix ?_
  rw [hdeleted]
  exact suffix_ne_of_defaultFunction? h

/-- A function of 33 numbers. -/
def wideMethod : MethodDescriptor where
  parameters := List.replicate 33 .int
  result := .int
  parameters_value := by
    intro p hp
    rw [(List.mem_replicate.1 hp).2]
    exact ⟨Nat.zero_le _, trivial⟩
  result_value := .inr ⟨Nat.zero_le _, trivial⟩

/-- With its receiver taken off, one mask is enough for the function of 33 numbers; all of
them take two. -/
theorem companions_described_wide :
    (∀ p ∈ wideMethod.parameters, ')' ∉ p.chars) ∧
    (∃ companion, Signature.defaultFunction? ⟨"wide", wideMethod.text⟩ (some "a/B") true =
        some companion ∧ companion.name = "wide$default" ∧
      Describes companion.descriptor
        (.ofClass "a/B" :: List.replicate 34 .int ++ [.ofClass "java/lang/Object"]) .int) ∧
    ∃ companion, Signature.defaultFunction? ⟨"wide", wideMethod.text⟩ none false =
        some companion ∧ companion.name = "wide$default" ∧
      Describes companion.descriptor
        (List.replicate 35 .int ++ [.ofClass "java/lang/Object"]) .int := by
  have hbracket : ∀ p ∈ wideMethod.parameters, ')' ∉ p.chars := by
    intro p hp
    rw [(List.mem_replicate.1 hp).2]
    decide
  have hfunction := (companions_described (s := ⟨"wide", wideMethod.text⟩) rfl hbracket).1
  have hsome {owner : Option String} (hasReceiver : Bool)
      (howner : ∀ name ∈ owner, ';' ∉ name.toList ∧ ')' ∉ name.toList) :
      ∃ companion, Signature.defaultFunction? ⟨"wide", wideMethod.text⟩ owner hasReceiver =
        some companion :=
    Option.ne_none_iff_exists'.1 fun h =>
      absurd ((hfunction owner hasReceiver howner).1.1 h) (by decide)
  refine ⟨hbracket, ?_, ?_⟩
  · have howner : ∀ name ∈ some "a/B", ';' ∉ name.toList ∧ ')' ∉ name.toList := by
      rintro _ ⟨⟩
      decide
    obtain ⟨companion, hcompanion⟩ := hsome true howner
    exact ⟨companion, hcompanion, (hfunction _ _ howner).2 companion hcompanion⟩
  · have howner : ∀ name ∈ (none : Option String), ';' ∉ name.toList ∧ ')' ∉ name.toList := by
      rintro _ ⟨⟩
    obtain ⟨companion, hcompanion⟩ := hsome false howner
    exact ⟨companion, hcompanion, (hfunction _ _ howner).2 companion hcompanion⟩

end Signature

end JarPruning
