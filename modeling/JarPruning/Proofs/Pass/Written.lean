import JarPruning.Proofs.Bytecode.Overwritten
import JarPruning.Proofs.Pass.Mirrored
import JarPruning.Proofs.Pass.Recorded
import JarPruning.Proofs.Pass.Room

/-!
What a pass writes is a class file again. It is read back as the class that was written, constants
keep their places, and what is left of the members refers to what it referred to.
-/
namespace JarPruning

open ConstantPool (Grows)
open Metadata (Payload)
open Walk (KeptMethod Patch)

/-! References. -/

/-- A constant that means in `q` what it means in `p`. -/
structure ConstantPool.Means (p q : ConstantPool) (i : UInt16) : Prop where
  constant : ∀ k, p.entries[i.toNat]? = some k → q.entries[i.toNat]? = some k
  utf8 : Persists (p.utf8 i) (q.utf8 i)
  className : Persists (p.className i) (q.className i)
  nameAndType : Persists (p.nameAndType i) (q.nameAndType i)
  memberRef : Persists (p.memberRef i) (q.memberRef i)
  methodHandle : Persists (p.methodHandle? i) (q.methodHandle? i)
  invokeDynamic : Persists (p.invokeDynamic i) (q.invokeDynamic i)

theorem ConstantPool.Grows.means {p q : ConstantPool} (h : Grows p q) (i : UInt16) :
    p.Means q i where
  constant _ := h.getElem?
  utf8 := h.utf8 i
  className := h.className i
  nameAndType := h.nameAndType i
  memberRef := h.memberRef i
  methodHandle := h.methodHandle? i
  invokeDynamic := h.invokeDynamic i

/-- A body in which every instruction that has operands is one of the instructions of `payload`, and
refers to the member that it referred to. -/
def BodyStands (p q : ConstantPool) (payload payload' : List UInt8) : Prop :=
  ∀ is, Body.instructions payload = .ok is → ∃ is', Body.instructions payload' = .ok is' ∧
    ∀ i ∈ is', i.operands = [] ∨
      i ∈ is ∧ Persists (i.operand16 >>= p.memberRef) (i.operand16 >>= q.memberRef)

/-- What became of an attribute of a member. -/
inductive AttributeStands (p q : ConstantPool) (entry : MemberEntry) (a a' : Attribute) : Prop
  | annotations (marked : a.isAnnotations p = true) : AttributeStands p q entry a a'
  | stub {descriptor : String} {r r' : ConstantPool} (coded : a.isNamed p "Code" = true)
    (replaced : (Stub.payload descriptor (Access.isStatic entry.access)).run r =
      .ok a'.payload r') : AttributeStands p q entry a a'
  | body (stands : BodyStands p q a.payload a'.payload) : AttributeStands p q entry a a'

/-- A member that is what it was, where its body was not replaced. -/
structure MemberStands (p q : ConstantPool) (e e' : MemberEntry) : Prop extends SameHeader e e' where
  resolves : ∃ m, e.resolve p = .ok m ∧ e'.resolve q = .ok m
  attributes : ∀ a' ∈ e'.attributes, ∃ a ∈ e.attributes, a'.name = a.name ∧
    AttributeStands p q e a a'

section
variable {p q : ConstantPool}

theorem operand16_persists (h : Grows p q) (i : Instruction) :
    Persists (i.operand16 >>= p.memberRef) (i.operand16 >>= q.memberRef) :=
  (Persists.refl _).bind fun index _ => h.memberRef index

theorem BodyStands.refl (h : Grows p q) (payload : List UInt8) : BodyStands p q payload payload :=
  fun is his => ⟨is, his, fun i hi => .inr ⟨hi, operand16_persists h i⟩⟩

end

namespace Prune

variable {policy : Policy} {self : String} {pool q : ConstantPool} {bootstraps : List Bootstrap}
  {l l' : Ledger} {entry e : MemberEntry} {m : Member} {ms : List Marked}

/-- Stripping leaves an attribute as it was, unless it is a table of annotations. -/
theorem mem_left {a' : Attribute} (hread : marks pool entry.attributes = .ok ms)
    (h : a' ∈ (left policy entry ms).attributes) :
    a' ∈ entry.attributes ∨
      ∃ a ∈ entry.attributes, a'.name = a.name ∧ a.isAnnotations pool = true := by
  obtain ⟨hsource, hreads⟩ := marks_ok_iff.1 hread
  obtain ⟨m, hm, ha⟩ := List.mem_flatMap.1 h
  have ha := Option.mem_toList.1 ha
  have hin : m.source ∈ entry.attributes := by
    rw [hsource]
    exact List.mem_map_of_mem hm
  by_cases hmarked : m.source.isAnnotations pool = true
  · exact .inr ⟨m.source, hin, Marked.strip_name ha, hmarked⟩
  · rw [(hreads m hm).strip_plain (Bool.eq_false_iff.2 hmarked)] at ha
    exact .inl (Option.some.inj ha ▸ hin)

theorem mem_edited {code : Option Nat} {edit : List UInt8 → List UInt8} {a' : Attribute}
    (h : a' ∈ (edited code edit entry).attributes) :
    a' ∈ entry.attributes ∨ ∃ position a, code = some position ∧
      entry.attributes[position]? = some a ∧ a' = { a with payload := edit a.payload } := by
  cases code with
  | none => exact .inl h
  | some position =>
    obtain ⟨i, hi⟩ := List.mem_iff_getElem?.1 h
    simp only [edited, Walk.editPayload, List.getElem?_modify] at hi
    obtain ⟨a, ha, rfl⟩ := Option.map_eq_some_iff.1 hi
    split
    · next heq =>
      subst heq
      exact .inr ⟨position, a, rfl, ha, rfl⟩
    · exact .inl (List.mem_of_getElem? ha)

/-- A kept method's body has no instruction with operands that it did not have. -/
theorem MethodStep.body_stands {patches : List Patch} {position : Nat} {a : Attribute}
    (h : MethodStep policy self pool bootstraps l entry m ms (.keep patches))
    (hgrows : Grows pool q) (hcode : codeOf pool (left policy entry ms) = some position)
    (ha : (left policy entry ms).attributes[position]? = some a) :
    BodyStands pool q a.payload (Walk.applyPatches a.payload patches) := by
  have hfated := h.fated
  rw [hcode, Option.bind_some, ha] at hfated
  cases hfated with
  | already _ _ => exact .refl hgrows _
  | bare _ _ _ hempty => cases hempty
  | @walked _ ss _ _ _ _ hbody hscanned hmeets =>
    cases hbody
    unfold bodyFate at hmeets
    split at hmeets
    · cases hmeets
    rw [← Fate.keep.inj hmeets]
    split
    · intro is his
      obtain ⟨his', -⟩ := sites_ok_iff.1 hscanned
      cases his.symm.trans his'
      obtain ⟨ss', hss', hall⟩ := sites_patched hscanned l self
      refine ⟨_, (sites_ok_iff.1 hss').1, fun i hi => ?_⟩
      obtain ⟨s, hs, rfl⟩ := List.mem_map.1 hi
      rcases hall s hs with ⟨hin, -⟩ | ⟨hnone, -⟩
      · exact .inr ⟨List.mem_map_of_mem hin, operand16_persists hgrows s.1⟩
      · exact .inl hnone
    · exact .refl hgrows _

/-- What a method is left with stands as it did, if what becomes of its body does. -/
theorem attributes_stand (policy : Policy) (edit : List UInt8 → List UInt8) (hgrows : Grows pool q)
    (hread : marks pool entry.attributes = .ok ms)
    (hedit : ∀ position a, codeOf pool (left policy entry ms) = some position →
      (left policy entry ms).attributes[position]? = some a → a.isNamed pool "Code" = true →
      AttributeStands pool q entry a { a with payload := edit a.payload }) :
    ∀ a' ∈ (edited (codeOf pool (left policy entry ms)) edit (left policy entry ms)).attributes,
      ∃ a ∈ entry.attributes, a'.name = a.name ∧ AttributeStands pool q entry a a' := by
  intro a' ha'
  rcases mem_edited ha' with hleft | ⟨position, a, hposition, ha, rfl⟩
  · rcases mem_left hread hleft with hin | ⟨a, hin, hname, hmarked⟩
    · exact ⟨a', hin, rfl, .body (.refl hgrows _)⟩
    · exact ⟨a, hin, hname, .annotations hmarked⟩
  · obtain ⟨b, hb, hcoded⟩ := codeOf_some hposition
    obtain rfl := Option.some.inj (ha.symm.trans hb)
    -- A body is no table of annotations, so stripping left it alone.
    rcases mem_left hread (List.mem_of_getElem? ha) with hin | ⟨b, hb, hname, hmarked⟩
    · exact ⟨a, hin, rfl, hedit position a hposition ha hcoded⟩
    · exact ⟨b, hb, hname, .annotations hmarked⟩

theorem MethodLeft.stands (h : MethodLeft policy self pool bootstraps entry e)
    (hgrows : Grows pool q) : MemberStands pool q entry e := by
  refine ⟨h.header, h.derived.resolve hgrows, ?_⟩
  obtain ⟨hstep, hkept, hinstalled⟩ := h
  rename_i l m ms ft k p p'
  cases ft with
  | delete => cases hkept
  | stub =>
    cases hkept
    rcases installStub_ok hinstalled with
      ⟨-, rfl, -⟩ | ⟨position, descriptor, payload, hcode, -, hpayload, rfl⟩
    · have hsame := attributes_stand policy id hgrows hstep.read
        fun _ a _ _ _ => .body (.refl hgrows a.payload)
      rwa [edited_id] at hsame
    · have hstub := attributes_stand policy (fun _ => payload) hgrows hstep.read
        fun _ _ _ _ hcoded => .stub hcoded hpayload
      rwa [show codeOf pool (left policy entry ms) = some position from hcode] at hstub
  | keep patches =>
    cases hkept
    rcases installStub_ok hinstalled with ⟨-, rfl, -⟩ | ⟨_, _, _, hcode, -⟩
    · dsimp only
      rw [patched_eq]
      exact attributes_stand policy _ hgrows hstep.read
        fun _ _ hcode ha _ => .body (hstep.body_stands hgrows hcode ha)
    · cases hcode

theorem FieldLeft.stands {f f' : MemberEntry} (h : FieldLeft policy pool f f')
    (hgrows : Grows pool q) : MemberStands pool q f f' := by
  obtain ⟨hresolved, hread⟩ := h
  refine ⟨⟨rfl, rfl, rfl⟩, ⟨_, hresolved, resolve_grow hgrows rfl rfl rfl hresolved⟩, ?_⟩
  intro a' ha'
  rcases mem_left hread ha' with hin | ⟨a, hin, hname, hmarked⟩
  · exact ⟨a', hin, rfl, .body (.refl hgrows _)⟩
  · exact ⟨a, hin, hname, .annotations hmarked⟩

end Prune

/-! Lengths. -/

namespace Prune

variable {policy : Policy} {l : Ledger} {c : ClassFile}

theorem Replaced.length_payload_le {pool : ConstantPool} {new : AnnotationEntry}
    {as as' : List Attribute} {changed : Bool} (h : Replaced pool new as as' changed)
    {a' : Attribute} (ha : a' ∈ as') :
    ∃ a ∈ as, a'.payload.length ≤ a.payload.length + new.bytes.length := by
  cases h with
  | absent _ => exact ⟨a', ha, Nat.le_add_right ..⟩
  | @found pre post a before after old _ _ hspelled _ _ =>
    rcases List.mem_append.1 ha with hpre | ha
    · exact ⟨a', List.mem_append_left _ hpre, Nat.le_add_right ..⟩
    rcases List.mem_cons.1 ha with rfl | hpost
    · refine ⟨a, List.mem_append_right _ (List.mem_cons_self ..), ?_⟩
      rw [(AnnotationEntry.of_readTable hspelled).1]
      simp only [AnnotationEntry.tableBytes, countedBytes, List.flatMap_append, List.flatMap_cons,
        List.length_append, BigEndian.length_digits]
      omega
    · exact ⟨a', List.mem_append_right _ (List.mem_cons_of_mem _ hpost), Nat.le_add_right ..⟩

/-- Whether the metadata of a class, packed anew in `pool` as a pass leaves it, is no more strings
than an array can count. -/
def FewStrings (c : ClassFile) (pool : ConstantPool) (name : String) (t : Tracker) : Prop :=
  ∀ ms a kind d1 d2 p p' changes, marks c.pool c.attributes = .ok ms → metadataOf ms = some a →
    Pruner.metadataParts pool a = .ok (kind, d1, d2) → Payload.decode kind d1 d2 = .ok p →
    p.sweep name t = .ok (p', changes) → p'.encode.length ≤ 65535

namespace Rewriting

/-- The annotation that a pass replaces fits if its strings are few. -/
theorem new_of_few (r : Rewriting policy l c) (hc : c.Framed)
    (hfew : FewStrings c r.pool r.name r.last.tracker) {b : AnnotationEntry} (hb : b ∈ r.new) :
    r.new = [b] ∧ b.Fits ∧ b.bytes.length ≤ c.bytes.length + 3 * 65535 := by
  rcases r.ofMetadata_cases with
    ⟨-, hnew, -⟩ | ⟨a, b', kind, d1, d2, payload, changes, hmetadata, hnew, -, hrepacked⟩
  · rw [hnew] at hb
    cases hb
  rw [hnew] at hb
  obtain rfl := List.mem_singleton.1 hb
  obtain ⟨hgrows, hrestrung⟩ := hrepacked.restrung ((r.installed_fit hc).2.fits hc.pool)
  obtain ⟨p, hdecode, hsweep⟩ := swept_ok hrepacked.swept
  rw [← r.last_ledger.1] at hsweep
  have hcount := hfew r.marked a kind d1 d2 p payload changes r.surveyed.read hmetadata
    (metadataParts_persists hgrows a _ hrepacked.parts) hdecode hsweep
  have ha := metadataOf_mem hmetadata
  have hfits := Marked.fits_of_mem r.surveyed.read ha
  have hlength := Marked.length_le_of_mem r.surveyed.read ha
  have hsource := c.lengths_attributes_le
  have hgrown := hrestrung.length_bytes
  exact ⟨hnew, hrestrung.fits hfits (Nat.lt_succ_of_le hcount), by omega⟩

/-- Stripping and thinning make no attribute of a class longer than the class. -/
theorem length_unlinked_le (r : Rewriting policy l c) {a : Attribute}
    (ha : a ∈ (unlinked l c r.name r.links).attributes) : a.payload.length ≤ c.bytes.length :=
  calc
    a.payload.length ≤ Attribute.lengths (unlinked l c r.name r.links).attributes :=
      Attribute.length_le_lengths ha
    _ ≤ Attribute.lengths c.attributes := r.lengths_unlinked_le
    _ ≤ c.bytes.length := c.lengths_attributes_le

theorem attributes_fit (r : Rewriting policy l c) (hc : c.Framed)
    (hfew : FewStrings c r.pool r.name r.last.tracker)
    (hshort : c.bytes.length + 2 ^ 17 ≤ 2 ^ 31) : ∀ a ∈ r.attributes, a.Fits := by
  intro a ha
  have hfits (h : a.payload.length ≤ 2 * c.bytes.length + 3 * 65535) : a.Fits := by
    show a.payload.length < 256 ^ 4
    omega
  rcases r.ofMetadata_cases with ⟨-, hnew, -⟩ | ⟨_, b, _, _, _, _, _, -, hnew, -⟩
  · rw [(r.attributes_kept hnew).1] at ha
    have := r.length_unlinked_le ha
    exact hfits (by omega)
  · have hb := (r.new_of_few hc hfew (hnew ▸ List.mem_singleton_self b)).2.2
    obtain ⟨a', ha', hlength⟩ := (r.attributes_replaced hnew).length_payload_le ha
    have := r.length_unlinked_le ha'
    exact hfits (by omega)

end Rewriting

end Prune

namespace Pass

/-- What a pass over the class `c` wrote. -/
structure Written (c c' : ClassFile) : Prop where
  grows : Grows c.pool c'.pool
  means : ∀ i, c.pool.Means c'.pool i
  fields : ∃ dropped, Drops c.pool (MemberStands c.pool c'.pool) c.fields c'.fields dropped
  methods : ∃ dropped, Drops c.pool (MemberStands c.pool c'.pool) c.methods c'.methods dropped

variable {policy : Policy} {entry : String} {bytes written : List UInt8} {s s' : Session}

/-- A class that a pass writes, with few strings in its metadata, is read back as what was written if
and only if its attributes fit the four bytes of their lengths, as they do if the class that was read
was shorter than two gigabytes. -/
theorem written_of_run (hrun : (run policy entry bytes).run s = .ok (.modified written) s') :
    ∃ c c' name, ClassFile.ofBytes bytes = .ok c ∧ c.name = .ok name ∧ written = c'.bytes ∧
      Written c c' ∧ (Prune.FewStrings c c'.pool name s'.tracker →
        (ClassFile.ofBytes written = .ok c' ↔ ∀ a ∈ c'.attributes, a.Fits) ∧
        (bytes.length + 2 ^ 17 ≤ 2 ^ 31 → ClassFile.ofBytes written = .ok c')) := by
  obtain ⟨b, hpass, hout, hledger⟩ := (pass_follows policy entry bytes s).of_ok hrun
  obtain ⟨c, hc, hpassed⟩ := Prune.pass_ok hpass
  obtain ⟨hbytes, hfits, -⟩ := ClassFile.of_ofBytes hc
  cases hpassed with
  | discarded _ _ => cases hout
  | unchanged _ _ => cases hout
  | modified r _ =>
    obtain rfl : written = r.result.bytes := PassOutcome.modified.inj hout
    have hgrows := r.pool_grows hfits.toFramed
    obtain ⟨fs, ms, hfields, hmethods, -⟩ := r.drops
    refine ⟨c, r.result, r.name, hc, r.surveyed.named, rfl,
      ⟨hgrows, hgrows.means, ⟨fs, hfields.imp fun _ _ h => h.stands hgrows⟩,
        ⟨ms, hmethods.imp fun _ _ h => h.stands hgrows⟩⟩, fun hfew => ?_⟩
    have htracker : r.last.tracker = s'.tracker := (congrArg Ledger.tracker hledger).symm
    rw [← htracker] at hfew
    have hnew : ∀ b ∈ r.new, b.Fits := fun b hb => (r.new_of_few hfits.toFramed hfew hb).2.1
    have hreads (hattributes : ∀ a ∈ r.attributes, a.Fits) :
        ClassFile.ofBytes r.result.bytes = .ok r.result :=
      r.ofBytes_result hfits ⟨hattributes, hnew⟩
    refine ⟨⟨fun h => (ClassFile.of_ofBytes h).2.1.attributes, hreads⟩, fun hshort => hreads ?_⟩
    rw [hbytes] at hshort
    exact r.attributes_fit hfits.toFramed hfew hshort

/-- A field and a method are dropped, and the metadata is packed anew. -/
theorem written_of_run_functions : ∃ written s' c',
    (run marking "A.class" (declaringClass [functionsText] [18]).bytes).run {} =
      .ok (.modified written) s' ∧
    written = c'.bytes ∧ Written (declaringClass [functionsText] [18]) c' ∧
    ClassFile.ofBytes written = .ok c' := by
  obtain ⟨written, s', hrun⟩ := of_wrote
    (r := (run marking "A.class" (declaringClass [functionsText] [18]).bytes).run {})
    (by decide +kernel)
  obtain ⟨c, c', name, hc, hname, rfl, hwritten, hreads⟩ := written_of_run hrun
  obtain rfl := Except.ok.inj (hc.symm.trans ofBytes_functions)
  refine ⟨_, s', c', hrun, rfl, hwritten, (hreads ?_).2 (by decide +kernel)⟩
  intro ms a kind d1 d2 p p' changes hms ha hparts hdecode hsweep
  obtain rfl := Option.some.inj ((soleMetadata_functions.metadataOf hms).symm.trans ha)
  have hlater := Prune.metadataParts_persists hwritten.grows _ _ metadataParts_functions
  obtain ⟨rfl, rfl, rfl⟩ : kind = .classFile ∧ d1 = [functionsText] ∧ d2 = declaringStrings := by
    simpa using hparts.symm.trans hlater
  obtain rfl := Except.ok.inj (hname.symm.trans name_functions)
  have hfew := writesFew_functions
  rw [hrun] at hfew
  exact (few_of_writesFew hfew).2 p p' changes hdecode hsweep

end Pass

end JarPruning
