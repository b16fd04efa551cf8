import JarPruning.Proofs.Pass.Due
import JarPruning.Proofs.Pass.Properties

/-!
What becomes of the members of a property whose record goes. Its methods are due in the next pass, and
so is its backing field, unless an extension tells that apart from the fields of a class.
-/
namespace JarPruning

open Metadata (Kind Message Payload TypeTable Resolver Judge PropertySignature WireField)
open Metadata.FieldNumber

namespace Prune.Rewriting

variable {policy : Policy} {l : Ledger} {c : ClassFile} {a : AnnotationEntry} {kind : Kind}
  {d1 d2 : List String} {p p' : Payload} {types : TypeTable}

/-- What is removed from the payload is scheduled. -/
theorem Resweeps.scheduled {r : Rewriting policy l c} (h : r.Resweeps a kind d1 d2 p p' types)
    (hc : c.Framed) (hsole : c.SoleMetadata a)
    (hparts : Pruner.metadataParts c.pool a = .ok (kind, d1, d2)) :
    p' = p ∨ ∃ changes, p.sweep r.name r.last.tracker = .ok (p', changes) ∧
      r.last = r.afterMethods.schedule changes := by
  rcases r.ofMetadata_cases with
    ⟨-, hnew, -, -⟩ | ⟨a', b, kind', d1', d2', payload, changes, ha', -, hlast, hrepacked⟩
  · obtain ⟨-, hsame⟩ | ⟨b, hsome, -⟩ := h.written
    · exact .inl hsame
    · cases hnew.symm.trans hsome
  · have hstubbed := metadataParts_persists (r.installed_fit hc).2 a _ hparts
    obtain rfl := Option.some.inj ((r.metadataOf_sole hsole).symm.trans ha')
    obtain ⟨rfl, rfl, rfl⟩ : kind = kind' ∧ d1 = d1' ∧ d2 = d2' := by
      simpa using hstubbed.symm.trans hrepacked.parts
    obtain ⟨q, hdecode, hsweep⟩ := swept_ok hrepacked.swept
    obtain rfl : p = q := Except.ok.inj (h.decoded.symm.trans hdecode)
    rw [← r.last_ledger.1] at hsweep
    obtain ⟨changes', hswept⟩ := h.swept
    obtain ⟨rfl, rfl⟩ : p' = payload ∧ changes' = changes := by simpa using hswept.symm.trans hsweep
    exact .inr ⟨_, hsweep, hlast⟩

end Prune.Rewriting

namespace Pass

open Prune (Rewriting)

variable {policy policy' : Policy} {entry entry' : String} {bytes : List UInt8}
  {s s' t t' : Session} {out out' : PassOutcome} {c : ClassFile} {a : AnnotationEntry} {kind : Kind}
  {d1 d2 : List String}

/-- When a pass removes the record of a property, the class has none of the property's methods after
the next pass, and no field of the name of its backing field, which has no extension of its own. -/
theorem members_gone_of_run {owner : String} (hc : ClassFile.ofBytes bytes = .ok c)
    (howner : c.name = .ok owner) (hsole : c.SoleMetadata a)
    (hparts : Pruner.metadataParts c.pool a = .ok (kind, d1, d2))
    (heditable : kind.isEditable = true) (hpacked : d1 ≠ [])
    (hrun : (run policy entry bytes).run s = .ok out s') (hkept : out ≠ .unwanted)
    (hmemory : t.memory = s'.memory) (hgrown : s'.tracker.Le t.tracker)
    (hnext : (run policy' entry' (out.left bytes)).run t = .ok out' t') (hkept' : out' ≠ .unwanted) :
    ∃ p p' types changes, Payload.decode kind d1 d2 = .ok p ∧
      TypeTable.ofContainer p.container = .ok types ∧
      p.sweep owner s'.tracker = .ok (p', changes) ∧
      ∀ record, p.container.Holds (Payload.propertyNumber p.kind) record →
        ¬ p'.container.Holds (Payload.propertyNumber p.kind) record →
          ∃ signature, Resolver.property ⟨p.strings, types⟩ record = .ok signature ∧
            ∀ c', ClassFile.ofBytes (out'.left (out.left bytes)) = .ok c' →
              (∀ m ∈ Judge.members signature, ¬ c'.HasMethod m.toSignature) ∧
              ∀ f ∈ Judge.backingField? signature, f.extension = "()" → ¬ c'.HasField f.name := by
  obtain ⟨r, hlast, hleaves⟩ := leaves_of_run hc hrun hkept
  obtain ⟨c₁, hc₁⟩ := reads_of_run hnext
  obtain ⟨r₁, -, hleaves₁⟩ := leaves_of_run hc₁ hnext hkept'
  have hfits := (ClassFile.of_ofBytes hc).2.1.toFramed
  obtain ⟨p, p', types, h⟩ := r.resweeps hfits hsole hparts heditable hpacked
  obtain ⟨changes, hsweep⟩ := h.swept
  obtain rfl : r.name = owner := Except.ok.inj (r.surveyed.named.symm.trans howner)
  have htracker : r.last.tracker = s'.tracker := congrArg Ledger.tracker hlast
  refine ⟨p, p', types, changes, h.decoded, h.typed, htracker ▸ hsweep, fun record hheld hgone => ?_⟩
  obtain ⟨signature, hsignature, hmethods, hfields⟩ :=
    Payload.sweep_property_gone hsweep h.typed hheld hgone
  obtain rfl | ⟨changes', hsweep', hscheduled⟩ := h.scheduled hfits hsole hparts
  · exact absurd hheld hgone
  obtain rfl : changes = changes' := (Prod.mk.inj (Except.ok.inj (hsweep.symm.trans hsweep'))).2
  have hmemory' : t.ledger.expire.memory = r.last.memory.expire :=
    congrArg Memory.expire (hmemory.trans (congrArg Ledger.memory hlast).symm)
  rw [← htracker] at hgrown
  refine ⟨signature, hsignature, fun c' hc' => ⟨fun m hm => ?_, fun f hf hplain => ?_⟩⟩
  · refine (hleaves c₁ hc₁).not_hasMethod (hleaves₁ c' hc') hmemory' hgrown ?_
    rw [hscheduled]
    exact Ledger.methodGone_schedule (hmethods hm)
  · refine (hleaves c₁ hc₁).not_hasField (hleaves₁ c' hc') hmemory' hgrown ?_
    rw [hscheduled]
    exact Ledger.fieldGone_schedule (hfields (Option.mem_toList.2 hf)) hplain

/-- A property with the field `f` and the getter `n`, and perhaps with a receiver. -/
def backedRecord (receiver : List WireField) : Message :=
  ⟨[⟨2, .varint 5⟩] ++ receiver ++ [⟨100, .block [10, 4, 8, 5, 16, 7, 26, 4, 8, 2, 16, 6]⟩]⟩

def backedPayload (receiver : List WireField) : Payload where
  kind := .classFile
  strings := ⟨[], declaringStrings⟩
  container := ⟨[⟨classProperty, .block (backedRecord receiver).bytes⟩]⟩
  types := []
  packing := .bytes

/-- The payload byte for byte. -/
def backedText (receiver : List WireField) : String :=
  textOf ([0, 0] ++ (backedPayload receiver).container.bytes.map UInt8.toNat)

/-- A class with a field `f` and a method `n`, which is marked. -/
def backedClass (texts : List String) : ClassFile :=
  { declaringClass texts [18] with
    fields := [⟨8, 4, 17, []⟩]
    methods := [⟨9, 8, 16, [⟨6, AnnotationEntry.tableBytes [⟨7, []⟩]⟩]⟩] }

/-- The class after a pass: the method is gone, and the property with it. -/
def unbackedClass (texts : List String) (fields : List MemberEntry) : ClassFile :=
  { declaringClass (texts ++ [textOf [0, 0]]) [19] with fields, methods := [] }

/-- Whether two passes over a class that declares the property come out so, and the first leaves no
property in the payload. -/
def dropsProperty (receiver : List WireField) (first second : PassOutcome) : Bool :=
  let bytes := (backedClass [backedText receiver]).bytes
  match (run marking "A.class" bytes).run {} with
  | .ok out s =>
    match (run marking "A.class" (out.left bytes)).run s with
    | .ok out' _ =>
      out = first ∧ out' = second ∧ (((backedPayload receiver).sweep "A" s.tracker).toOption.any
        fun r => r.1.container.fields.isEmpty)
    | .error _ _ => false
  | .error _ _ => false

theorem of_dropsProperty {receiver : List WireField} {first second : PassOutcome}
    (h : dropsProperty receiver first second = true) : ∃ s' s'' p' changes,
      (run marking "A.class" (backedClass [backedText receiver]).bytes).run {} = .ok first s' ∧
      (run marking "A.class" (first.left (backedClass [backedText receiver]).bytes)).run s' =
        .ok second s'' ∧
      (backedPayload receiver).sweep "A" s'.tracker = .ok (p', changes) ∧
      p'.container.fields = [] := by
  unfold dropsProperty at h
  dsimp only at h
  split at h
  · next out s hrun =>
    split at h
    · next out' s' hrun' =>
      obtain ⟨rfl, rfl, hany⟩ := of_decide_eq_true h
      cases hsweep : (backedPayload receiver).sweep "A" s.tracker with
      | error _ => simp [hsweep, Except.toOption] at hany
      | ok r =>
        obtain ⟨p', changes⟩ := r
        exact ⟨s, s', p', changes, hrun, hrun', hsweep,
          by simpa [hsweep, Except.toOption] using hany⟩
    · cases h
  · cases h

/-- The field goes with the second pass. -/
theorem members_gone_of_run_plain : ∃ s' s'',
    let before := backedClass [backedText []]
    let between := unbackedClass [backedText []] [⟨8, 4, 17, []⟩]
    let after := unbackedClass [backedText []] []
    (run marking "A.class" before.bytes).run {} = .ok (.modified between.bytes) s' ∧
      (run marking "A.class" between.bytes).run s' = .ok (.modified after.bytes) s'' ∧
      ClassFile.ofBytes after.bytes = .ok after ∧ ¬ after.HasMethod ⟨"n", "(I)V"⟩ ∧
      ¬ after.HasField "f" := by
  have h : dropsProperty [] (.modified (unbackedClass [backedText []] [⟨8, 4, 17, []⟩]).bytes)
      (.modified (unbackedClass [backedText []] []).bytes) = true := by decide +kernel
  obtain ⟨s', s'', p', changes, hrun, hnext, hsweep, hempty⟩ := of_dropsProperty h
  have howner : (backedClass [backedText []]).name = .ok "A" := by decide +kernel
  have hparts : Pruner.metadataParts (backedClass [backedText []]).pool (declaringMetadata [18]) =
      .ok (.classFile, [backedText []], declaringStrings) := by decide +kernel
  obtain ⟨p, p'', types, changes', hdecode, htypes, hsweep', hgone⟩ :=
    members_gone_of_run (by decide +kernel) howner (by decide +kernel) hparts rfl (by simp)
      hrun (by simp) rfl (.refl _) hnext (by simp)
  obtain rfl : p = backedPayload [] := Except.ok.inj (hdecode.symm.trans (by decide +kernel))
  obtain rfl : types = [] := Except.ok.inj (htypes.symm.trans (by decide +kernel))
  obtain rfl : p' = p'' := (Prod.mk.inj (Except.ok.inj (hsweep.symm.trans hsweep'))).1
  obtain ⟨signature, hsignature, hgone⟩ := hgone (backedRecord [])
    ⟨_, List.mem_singleton_self _, by decide +kernel⟩
    (by rintro ⟨b, hb, -⟩; simp [Message.occurrences, hempty] at hb)
  obtain rfl : signature = ⟨"f", false, some ⟨"f", "I"⟩, none, some ⟨"n", "(I)V"⟩, none, none⟩ :=
    Except.ok.inj (hsignature.symm.trans (by decide +kernel))
  obtain ⟨hmethods, hfield⟩ :=
    hgone (unbackedClass [backedText []] []) (by decide +kernel)
  exact ⟨s', s'', hrun, hnext, by decide +kernel, hmethods ⟨⟨"n", "(I)V"⟩, 0⟩ (by decide),
    hfield ⟨"f", "I", "()"⟩ rfl rfl⟩

/-- Where a property has a receiver, its field is scheduled under the extension that the getter gives
it, which no field of a class has. -/
theorem field_outlives_property :
    let receiver : List WireField := [⟨5, .block []⟩]
    let before := backedClass [backedText receiver]
    let after := unbackedClass [backedText receiver] [⟨8, 4, 17, []⟩]
    (ClassFile.ofBytes before.bytes = .ok before ∧ before.SoleMetadata (declaringMetadata [18]) ∧
      Pruner.metadataParts before.pool (declaringMetadata [18]) =
        .ok (.classFile, [backedText receiver], declaringStrings) ∧
      Payload.decode .classFile [backedText receiver] declaringStrings =
        .ok (backedPayload receiver) ∧
      TypeTable.ofContainer (backedPayload receiver).container = .ok []) ∧
    (∃ s' s'' p' changes, (run marking "A.class" before.bytes).run {} =
        .ok (.modified after.bytes) s' ∧
      (run marking "A.class" after.bytes).run s' = .ok .unchanged s'' ∧
      (backedPayload receiver).sweep "A" s'.tracker = .ok (p', changes) ∧
      (backedPayload receiver).container.Holds classProperty (backedRecord receiver) ∧
      ¬ p'.container.Holds classProperty (backedRecord receiver)) ∧
    Resolver.property ⟨(backedPayload receiver).strings, []⟩ (backedRecord receiver) =
      .ok ⟨"f", true, some ⟨"f", "I"⟩, none, some ⟨"n", "(I)V"⟩, none, none⟩ ∧
    ClassFile.ofBytes after.bytes = .ok after ∧ after.HasField "f" := by
  intro receiver before after
  have h : dropsProperty receiver (.modified after.bytes) .unchanged = true := by decide +kernel
  obtain ⟨s', s'', p', changes, hrun, hnext, hsweep, hempty⟩ := of_dropsProperty h
  have hgone : ¬ p'.container.Holds classProperty (backedRecord receiver) := by
    rintro ⟨b, hb, -⟩
    simp [Message.occurrences, hempty] at hb
  exact ⟨⟨by decide +kernel, by decide +kernel, by decide +kernel, by decide +kernel,
    by decide +kernel⟩, ⟨s', s'', p', changes, hrun, hnext, hsweep,
    ⟨_, List.mem_singleton_self _, by decide +kernel⟩, hgone⟩,
    by decide +kernel, by decide +kernel, by decide +kernel⟩

end Pass

end JarPruning
