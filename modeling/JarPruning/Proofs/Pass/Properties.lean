import JarPruning.Proofs.Pass.Mirrored

/-!
Properties beside the members of their class. A property owns up to five members. The getter, the
setter and the synthetic method take its record along by their signatures, the backing field by its
name and extension. The delegate method belongs in the same list: a record that stays is meant to
find its members. The judgement leaves it out all the same, a gap that `ClassFile.Owns` does not
cover, so a property can outlive its delegate.
-/
namespace JarPruning

open Metadata (Kind Message Payload TypeTable Resolver Packing PropertySignature Judge)
open Metadata.FieldNumber

namespace ClassFile

variable {c : ClassFile}

/-- The members that decide about a property are members of the class. A backing field that an
extension tells apart from the fields of its name does not count. -/
structure Owns (c : ClassFile) (s : PropertySignature) : Prop where
  accessors : ∀ m ∈ Judge.accessors s, c.HasMethod m
  field : ∀ f ∈ Judge.backingField? s, f.extension = "()" → c.HasField f.name

instance (c : ClassFile) (s : PropertySignature) : Decidable (c.Owns s) :=
  decidable_of_iff ((∀ m ∈ Judge.accessors s, c.HasMethod m) ∧
    ∀ f ∈ Judge.backingField? s, f.extension = "()" → c.HasField f.name)
    ⟨fun h => ⟨h.1, h.2⟩, fun h => ⟨h.accessors, h.field⟩⟩

/-- Every property that the payload declares has its members in the class. -/
def OwnsAll (c : ClassFile) (p : Payload) (types : TypeTable) : Prop :=
  ∀ record, p.container.Holds (Payload.propertyNumber p.kind) record →
    ∀ s, Resolver.property ⟨p.strings, types⟩ record = .ok s → c.Owns s

/-- Whether every property has its members. -/
def ownsAll (c : ClassFile) (p : Payload) (types : TypeTable) : Bool :=
  p.container.allHeld (Payload.propertyNumber p.kind) fun record =>
    match Resolver.property ⟨p.strings, types⟩ record with
    | .ok s => decide (c.Owns s)
    | .error _ => true

theorem ownsAll_iff {p : Payload} {types : TypeTable} :
    c.ownsAll p types = true ↔ c.OwnsAll p types := by
  unfold ownsAll OwnsAll
  rw [Message.allHeld_iff]
  refine forall_congr' fun record => forall_congr' fun _ => ?_
  cases Resolver.property ⟨p.strings, types⟩ record <;> simp

variable {c' : ClassFile} {p p' : Payload} {types : TypeTable} {owner : String} {t : Tracker}
  {changes : Metadata.Changes}

/-- A property that is judged to stay keeps the members that decide about it. -/
theorem Owns.stays {s : PropertySignature} (h : c.Owns s) (hhere : t.containsClass owner = false)
    (hmembers : Prune.Outlives t owner c c')
    (hstays : (p.judge owner t types).propertyGone s = false) : c'.Owns s := by
  obtain ⟨hfield, haccessors⟩ := Bool.or_eq_false_iff.1 hstays
  constructor
  · intro m hm
    have hgone := List.any_eq_false.1 haccessors m hm
    exact hmembers.methods m (h.accessors m hm) (Bool.eq_false_of_not_eq_true hgone)
  · intro f hf hplain
    have hkey : f.key = ⟨f.name, "()"⟩ := by rw [FieldTarget.key, hplain]
    refine hmembers.fields f.name (h.field f hf hplain) ?_
    rw [Option.mem_def] at hf
    rw [hf, Option.any_some] at hfield
    cases hfound : t.field? owner f.key with
    | some deleted =>
      simp only [Judge.fieldVerdict, Payload.judge, hfound] at hfield
      cases hfield
    | none => rw [← hkey, Tracker.containsField, hhere, hfound]; rfl

/-- Properties that a removal leaves keep their members in a class that has the members which are
not gone. -/
theorem OwnsAll.sweep (h : c.OwnsAll p types) (hhere : t.containsClass owner = false)
    (hmembers : Prune.Outlives t owner c c') (hsweep : p.sweep owner t = .ok (p', changes))
    (htypes : TypeTable.ofContainer p.container = .ok types) : c'.OwnsAll p' types := by
  obtain ⟨hkind, hstrings, -, -⟩ := Payload.sweep_keeps hsweep
  intro record hrecord s hs
  rw [hkind] at hrecord
  rw [hstrings] at hs
  obtain ⟨hheld, hstays⟩ := Payload.sweep_property hsweep htypes hrecord
  exact (h record hheld s hs).stays hhere hmembers (hstays s hs)

end ClassFile

namespace Pass

variable {policy : Policy} {entry : String} {bytes : List UInt8} {s s' : Session}
  {out : PassOutcome} {c : ClassFile} {a : AnnotationEntry} {kind : Kind} {d1 d2 : List String}

/-- If every property has its members in the class, the properties that a pass leaves in the
metadata have theirs in the class that it leaves. -/
theorem owns_of_run {owner : String} (hc : ClassFile.ofBytes bytes = .ok c)
    (howner : c.name = .ok owner) (hsole : c.SoleMetadata a)
    (hparts : Pruner.metadataParts c.pool a = .ok (kind, d1, d2))
    (heditable : kind.isEditable = true) (htold : Packing.Told d1)
    (hfew : ∀ p p' changes, Payload.decode kind d1 d2 = .ok p →
      p.sweep owner s'.tracker = .ok (p', changes) → p'.encode.length ≤ 65535)
    (howns : ∀ p types, Payload.decode kind d1 d2 = .ok p →
      TypeTable.ofContainer p.container = .ok types → c.OwnsAll p types)
    (hrun : (run policy entry bytes).run s = .ok out s') (hkept : out ≠ .unwanted) :
    ∃ c' a' d1', out.Leaves c c' ∧ c'.SoleMetadata a' ∧
      Pruner.metadataParts c'.pool a' = .ok (kind, d1', d2) ∧
      (d1 = [] ∧ d1' = [] ∨ ∃ p types, Payload.decode kind d1' d2 = .ok p ∧
        TypeTable.ofContainer p.container = .ok types ∧ c'.OwnsAll p types) := by
  obtain ⟨c', a', d1', hleaves, hsole', hparts', hpayload⟩ :=
    leaves_metadata hc howner hsole hparts heditable htold hfew hrun hkept
  refine ⟨c', a', d1', hleaves, hsole', hparts', hpayload.imp_right ?_⟩
  rintro ⟨p, p', types, hdecode, htypes, hdecode', htypes', hsweeps⟩
  refine ⟨p', types, hdecode', htypes', ?_⟩
  have hbefore := howns p types hdecode htypes
  cases hsweeps with
  | same => exact hbefore
  | swept hhere hmembers hsweep => exact hbefore.sweep hhere hmembers hsweep htypes

/-- Byte for byte, a property with the field `f` and the getter `m`, and one with the getter
`n`. -/
def propertiesText : String := textOf
  [0, 0, 0x52, 17, 16, 5, 0xA2, 6, 12, 10, 4, 8, 5, 16, 7, 0x1A, 4, 8, 0, 16, 1,
    0x52, 11, 16, 2, 0xA2, 6, 6, 0x1A, 4, 8, 2, 16, 6]

theorem owns_of_run_properties : ∃ out s' c' a' d1',
    (run marking "A.class" (declaringClass [propertiesText] [18]).bytes).run {} = .ok out s' ∧
      out.Leaves (declaringClass [propertiesText] [18]) c' ∧ c'.SoleMetadata a' ∧
      Pruner.metadataParts c'.pool a' = .ok (.classFile, d1', declaringStrings) ∧
      ∃ p types, Payload.decode .classFile d1' declaringStrings = .ok p ∧
        TypeTable.ofContainer p.container = .ok types ∧ c'.OwnsAll p types := by
  have hfew : writesFew [propertiesText]
      ((run marking "A.class" (declaringClass [propertiesText] [18]).bytes).run {}) = true := by
    decide +kernel
  obtain ⟨p, types, hdecode, htypes, howns⟩ : ∃ p types,
      Payload.decode .classFile [propertiesText] declaringStrings = .ok p ∧
        TypeTable.ofContainer p.container = .ok types ∧
        (declaringClass [propertiesText] [18]).ownsAll p types = true :=
    of_ofPayload? (by decide +kernel)
  have hc : ClassFile.ofBytes (declaringClass [propertiesText] [18]).bytes =
      .ok (declaringClass [propertiesText] [18]) := by decide +kernel
  have howner : (declaringClass [propertiesText] [18]).name = .ok "A" := by decide +kernel
  have hsole : (declaringClass [propertiesText] [18]).SoleMetadata (declaringMetadata [18]) := by
    decide +kernel
  have hparts : Pruner.metadataParts (declaringClass [propertiesText] [18]).pool
      (declaringMetadata [18]) = .ok (.classFile, [propertiesText], declaringStrings) := by
    decide +kernel
  have htold : Packing.Told [propertiesText] := fun h => absurd h (by decide +kernel)
  cases hrun : (run marking "A.class" (declaringClass [propertiesText] [18]).bytes).run {} with
  | error e s' =>
    rw [hrun] at hfew
    cases hfew
  | ok out s' =>
    rw [hrun] at hfew
    obtain ⟨hkept, hfew⟩ := few_of_writesFew hfew
    obtain ⟨c', a', d1', hleaves, hsole, hparts, ⟨hnil, -⟩ | hpayload⟩ :=
      owns_of_run hc howner hsole hparts rfl htold hfew (fun p' types' hdecode' htypes' => by
        cases hdecode.symm.trans hdecode'
        cases htypes.symm.trans htypes'
        exact ClassFile.ownsAll_iff.1 howns) hrun hkept
    · cases hnil
    · exact ⟨out, s', c', a', d1', rfl, hleaves, hsole, hparts, hpayload⟩

/-- Byte for byte, an extension property with the field `f` and the getter `n`. -/
def extensionText : String := textOf
  [0, 0, 0x52, 19, 16, 5, 0x2A, 0, 0xA2, 6, 12, 10, 4, 8, 5, 16, 7, 0x1A, 4, 8, 2, 16, 6]

/-- Whether every property finds its backing field under its name, extension or not. -/
def backed (c : ClassFile) (p : Payload) (types : TypeTable) : Bool :=
  p.container.allHeld classProperty fun record =>
    match Resolver.property ⟨p.strings, types⟩ record with
    | .ok s => s.field.all fun f => decide (c.HasField f.name)
    | .error _ => true

/-- A deleted field leaves an extension property of its name in place. -/
theorem unbacked_extension :
    let before := declaringClass [extensionText] [18]
    let after : ClassFile := { before with fields := [], methods := [⟨9, 8, 16, []⟩] }
    (ClassFile.ofBytes before.bytes = .ok before ∧ before.SoleMetadata (declaringMetadata [18]) ∧
      Pruner.metadataParts before.pool (declaringMetadata [18]) =
        .ok (.classFile, [extensionText], declaringStrings) ∧
      ∃ p types, Payload.decode .classFile [extensionText] declaringStrings = .ok p ∧
        TypeTable.ofContainer p.container = .ok types ∧ before.OwnsAll p types ∧
        backed before p types = true ∧ backed after p types = false) ∧
    (∃ s', (run marking "A.class" before.bytes).run {} = .ok (.modified after.bytes) s') ∧
    ClassFile.ofBytes after.bytes = .ok after := by
  intro before after
  have hbacked : ofPayload? (fun p types => before.ownsAll p types && backed before p types &&
      !backed after p types) [extensionText] = some true := by decide +kernel
  obtain ⟨p, types, hdecode, htypes, hbacked⟩ := of_ofPayload? hbacked
  simp only [Bool.and_eq_true, Bool.not_eq_true'] at hbacked
  obtain ⟨⟨howns, hbefore⟩, hafter⟩ := hbacked
  exact ⟨⟨by decide +kernel, by decide +kernel, by decide +kernel, p, types, hdecode, htypes,
    ClassFile.ownsAll_iff.1 howns, hbefore, hafter⟩, of_writes (by decide +kernel),
    by decide +kernel⟩

end Pass

end JarPruning
