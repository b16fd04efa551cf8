import JarPruning.Proofs.Pass.Consistent
import JarPruning.Proofs.Pass.Reread

/-!
Classes that are closed under deletion: nothing that stays leads to anything that is gone. A pass
that has nothing to do with a class finds it closed.
-/
namespace JarPruning

/-- Whether a handle leads to a member that is gone. -/
def Tracker.containsHandle (t : Tracker) (h : HandleRef) : Bool :=
  if h.isField then t.containsField h.target.owner ⟨h.target.name, "()"⟩
  else t.containsMethod h.target.owner h.target.toSignature

/-- Whether a descriptor asks for nothing that has not been done. -/
def Policy.spares (p : Policy) (descriptor : String) : Bool :=
  !p.deletes descriptor && !p.strips descriptor

/-- An instruction that leads to nothing that is gone. A constructor may go on with an access to a
field for which there is no neutral replacement. -/
structure Instruction.Closed (t : Tracker) (pool : ConstantPool) (bootstraps : List Bootstrap)
    (constructs : Bool) (i : Instruction) : Prop where
  invokes : Opcode.isInvoke i.opcode → ∃ target, (i.operand16 >>= pool.memberRef) = .ok target ∧
    t.containsMethod target.owner target.toSignature = false
  binds : i.opcode = Opcode.invokedynamic → ∃ hs, Walk.callSite pool bootstraps i = .ok hs ∧
    ∀ h ∈ hs, t.containsHandle h = false
  accesses : Opcode.isFieldAccess i.opcode → ∃ target,
    (i.operand16 >>= pool.memberRef) = .ok target ∧
      (t.containsField target.owner ⟨target.name, "()"⟩ = true →
        constructs = true ∧ Neutral.replacement? i.opcode target.descriptor = none)

/-- A body of which every instruction is closed. -/
def Body.Closed (t : Tracker) (pool : ConstantPool) (bootstraps : List Bootstrap)
    (constructs : Bool) (payload : List UInt8) : Prop :=
  ∃ b is, Body.ofPayload payload = .ok b ∧ Instruction.scan b.code = .ok is ∧
    ∀ i ∈ is, i.Closed t pool bootstraps constructs

namespace ClassFile

structure FieldClosed (policy : Policy) (t : Tracker) (owner : String) (pool : ConstantPool)
    (f : MemberEntry) (m : Member) : Prop where
  resolved : f.resolve pool = .ok m
  here : t.containsField owner ⟨m.name, "()"⟩ = false
  spared : ∀ e d, Annotated pool f.attributes e d → policy.spares d = true

structure MethodClosed (policy : Policy) (t : Tracker) (owner : String) (pool : ConstantPool)
    (bootstraps : List Bootstrap) (entry : MemberEntry) (m : Member) : Prop where
  resolved : entry.resolve pool = .ok m
  here : t.containsMethod owner m.toSignature = false
  spared : ∀ e d, Annotated pool entry.attributes e d → policy.spares d = true
  body : (m.isConstructor = true ∨
      ∀ e d, Annotated pool entry.attributes e d → policy.stubs d = false) →
    ∀ position a, Walk.codePosition? pool entry.attributes = some position →
      entry.attributes[position]? = some a →
        Body.Closed t pool bootstraps m.isConstructor a.payload

/-- Metadata in which no record goes. -/
def MetadataClosed (t : Tracker) (owner : String) (pool : ConstantPool) (a : AnnotationEntry) :
    Prop :=
  ∃ kind d1 d2, Pruner.metadataParts pool a = .ok (kind, d1, d2) ∧
    (kind.isEditable = true → d1 ≠ [] → ∃ payload payload' changes,
      Metadata.Payload.decode kind d1 d2 = .ok payload ∧
        payload.sweep owner t = .ok (payload', changes) ∧ changes.removed = [])

/-- A class in which nothing leads to what the tracker holds, and nothing asks to go. -/
structure Closed (policy : Policy) (t : Tracker) (c : ClassFile) (owner : String) : Prop where
  named : c.name = .ok owner
  header : ∃ h, Walk.header c = .ok h ∧ t.containsClass h.name = false ∧
    ∀ parent ∈ h.superName.toList ++ h.interfaces, t.containsClass parent = false
  links : ∀ a ∈ c.attributes, ∃ link, Link.Read c.pool a link ∧
    link.dooms t owner = false ∧ link.listsGone t owner = false
  annotations : ∀ e d, Annotated c.pool c.attributes e d → d ≠ Pruner.metadataDescriptor →
    policy.spares d = true
  fields : ∀ f ∈ c.fields, ∃ m, FieldClosed policy t owner c.pool f m
  methods : ∃ bootstraps, Walk.bootstraps c = .ok bootstraps ∧
    ∀ entry ∈ c.methods, ∃ m, MethodClosed policy t owner c.pool bootstraps entry m
  metadata : ∀ a, Annotated c.pool c.attributes a Pruner.metadataDescriptor →
    MetadataClosed t owner c.pool a

end ClassFile

namespace Prune

variable {policy : Policy} {l : Ledger} {c : ClassFile} {pool : ConstantPool} {self : String}
  {bootstraps : List Bootstrap}

theorem tracker_of_fieldGone {owner name : String} (h : l.fieldGone self owner name = false) :
    l.tracker.containsField owner ⟨name, "()"⟩ = false :=
  (Bool.or_eq_false_iff.1 h).1

theorem tracker_of_methodGone {owner : String} {m : Signature}
    (h : l.methodGone self owner m = false) : l.tracker.containsMethod owner m = false :=
  (Bool.or_eq_false_iff.1 h).1

theorem spares_of {as : List Attribute} {ms : List Marked} (hms : marks pool as = .ok ms)
    (hwanted : Marked.anyOf policy.deletes ms = false)
    (hwhole : ∀ e ∈ Marked.all ms, policy.strips e.2 = false) :
    ∀ e d, Annotated pool as e d → policy.spares d = true := by
  intro e d h
  have hin := (Marked.mem_all_iff hms).2 h
  have hdelete := List.any_eq_false.1 hwanted _ hin
  have hstrip := hwhole _ hin
  simp only [Bool.not_eq_true] at hdelete
  simp [Policy.spares, hdelete, hstrip]

theorem FieldRests.closed {f : MemberEntry} {m : Member} {ms : List Marked}
    (h : FieldRests policy self pool l f m ms) :
    ClassFile.FieldClosed policy l.tracker self pool f m where
  resolved := h.resolved
  here := tracker_of_fieldGone h.here
  spared := spares_of h.read h.wanted h.whole

/-- What an instruction refers to, by its opcode. -/
theorem instruction_closed {constructs : Bool} {i : Instruction} {site : Site}
    (hread : Site.read pool bootstraps i = .ok site)
    (hfatal : site.isFatal l self constructs = false)
    (hpatch : constructs = true → site.patch? l self i = none) :
    i.Closed l.tracker pool bootstraps constructs := by
  unfold Site.read at hread
  have hdisjoint : Opcode.isInvoke i.opcode = true → Opcode.isFieldAccess i.opcode = false := by
    intro h
    unfold Opcode.isInvoke Opcode.invokevirtual at h
    unfold Opcode.isFieldAccess Opcode.putfield
    simp only [Bool.and_eq_true, decide_eq_true_eq, UInt8.le_iff_toNat_le] at h
    simp only [Bool.and_eq_false_iff, decide_eq_false_iff_not, UInt8.le_iff_toNat_le, not_le]
    exact .inr (Nat.lt_of_lt_of_le (by decide) h.1)
  by_cases haccess : Opcode.isFieldAccess i.opcode = true
  · rw [if_pos haccess] at hread
    obtain ⟨target, htarget, hread⟩ := bind_ok_iff.1 hread
    cases hread
    refine ⟨fun h => absurd haccess (by rw [hdisjoint h]; simp), fun h => ?_, fun _ => ?_⟩
    · rw [h] at haccess
      exact absurd haccess (by decide)
    · refine ⟨target, htarget, fun hgone => ?_⟩
      have hfield : l.fieldGone self target.owner target.name = true :=
        Bool.or_eq_true_iff.2 (.inl hgone)
      simp only [Site.isFatal, hfield, Bool.and_true, Bool.not_eq_false'] at hfatal
      have hnone := hpatch hfatal
      simp only [Site.patch?, hfield, ↓reduceIte, Option.map_eq_none_iff] at hnone
      exact ⟨hfatal, hnone⟩
  rw [if_neg haccess] at hread
  by_cases hinvoke : Opcode.isInvoke i.opcode = true
  · rw [if_pos hinvoke] at hread
    obtain ⟨target, htarget, hread⟩ := bind_ok_iff.1 hread
    cases hread
    refine ⟨fun _ => ⟨target, htarget, tracker_of_methodGone hfatal⟩, fun h => ?_,
      fun h => absurd h haccess⟩
    rw [h] at hinvoke
    exact absurd hinvoke (by decide)
  rw [if_neg hinvoke] at hread
  by_cases hdynamic : i.opcode = Opcode.invokedynamic
  · rw [if_pos hdynamic] at hread
    obtain ⟨hs, hhs, hread⟩ := bind_ok_iff.1 hread
    cases hread
    refine ⟨fun h => absurd h hinvoke, fun _ => ⟨hs, hhs, fun h hh => ?_⟩,
      fun h => absurd h haccess⟩
    have hgone := List.any_eq_false.1 hfatal h hh
    rw [Bool.not_eq_true] at hgone
    unfold Ledger.handleGone at hgone
    unfold Tracker.containsHandle
    split
    · next hfield =>
      rw [if_pos hfield] at hgone
      exact tracker_of_fieldGone hgone
    · next hmethod =>
      rw [if_neg hmethod] at hgone
      exact tracker_of_methodGone hgone
  · exact ⟨fun h => absurd h hinvoke, fun h => absurd h hdynamic, fun h => absurd h haccess⟩

/-- A body that calls for no change is closed. -/
theorem body_closed {constructs : Bool} {payload : List UInt8} {ss : List (Instruction × Site)}
    (hscanned : sites pool bootstraps payload = .ok ss)
    (hfate : bodyFate l self constructs ss = .keep []) :
    Body.Closed l.tracker pool bootstraps constructs payload := by
  obtain ⟨b, hb, hscan, hreads⟩ := sites_ok hscanned
  refine ⟨b, _, hb, hscan, fun i hi => ?_⟩
  obtain ⟨s, hs, rfl⟩ := List.mem_map.1 hi
  unfold bodyFate at hfate
  split at hfate
  · cases hfate
  next hspared =>
  have hfatal : s.2.isFatal l self constructs = false := by
    rw [Bool.eq_false_iff]
    exact fun h => hspared (List.any_eq_true.2 ⟨s, hs, h⟩)
  refine instruction_closed (hreads s hs) hfatal fun hconstructs => ?_
  rw [if_pos hconstructs] at hfate
  exact List.filterMap_eq_nil_iff.1 (Fate.keep.inj hfate) s hs

theorem MethodRests.closed {entry : MemberEntry} {m : Member} {ms : List Marked}
    (h : MethodRests policy self pool bootstraps l entry m ms)
    (hstubbed : l.memory.stubbed.contains m.toSignature = true → Asks policy pool entry m) :
    ClassFile.MethodClosed policy l.tracker self pool bootstraps entry m where
  resolved := h.resolved
  here := tracker_of_methodGone h.stays.here
  spared := spares_of h.read h.stays.wanted h.whole
  body hwhole position a hposition ha := by
    have hasks : ¬Asks policy pool entry m := by
      rintro ⟨-, hconstructor, e, d, hd, hstubs⟩
      obtain hconstructs | hnone := hwhole
      · rw [hconstructor] at hconstructs
        cases hconstructs
      · rw [hnone e d hd] at hstubs
        cases hstubs
    obtain hkey | hask | hbody := h.body
    · exact absurd (hstubbed hkey) hasks
    · exact absurd ((asksForStub_iff h.resolved h.read).1 hask) hasks
    · obtain ⟨a', ss, ha', hscanned, hfate⟩ := hbody position hposition
      obtain rfl : a = a' := Option.some.inj (ha.symm.trans ha')
      exact body_closed hscanned hfate

theorem MetadataRests.closed {t : Tracker} {a : AnnotationEntry}
    (h : MetadataRests self t pool a) : ClassFile.MetadataClosed t self pool a := by
  obtain ⟨⟨⟨kind, d1, d2⟩, hparts⟩, hswept⟩ := h
  refine ⟨kind, d1, d2, hparts, fun heditable hpacked => ?_⟩
  obtain ⟨payload, changes, hsweep, hremoved⟩ := hswept kind d1 d2 ⟨hparts, heditable, hpacked⟩
  obtain ⟨before, hdecode, hsweep⟩ := swept_ok hsweep
  exact ⟨before, payload, changes, hdecode, hsweep, hremoved⟩

theorem metadataOf_isSome {ms : List Marked} {a : AnnotationEntry}
    (h : (a, Pruner.metadataDescriptor) ∈ Marked.all ms) : ∃ b, metadataOf ms = some b := by
  have hin : a ∈ ((Marked.all ms).filter fun e => e.2 = Pruner.metadataDescriptor).map (·.1) :=
    List.mem_map.2 ⟨_, List.mem_filter.2 ⟨h, decide_eq_true rfl⟩, rfl⟩
  exact ⟨_, List.getLast?_eq_some_getLast (List.ne_nil_of_mem hin)⟩

/-- A pass that leaves a class as it was finds it closed. -/
theorem Rewriting.closed (r : Rewriting policy l c) (hc : c.Fits) (hone : OneMetadata c)
    (hconsistent : Consistent policy l c)
    (hsame : r.changed = false ∨ r.result.bytes = c.bytes) :
    ClassFile.Closed policy l.tracker c r.name := by
  obtain ⟨htracker, hpool, hattributes, hfields, hmethods⟩ :=
    r.members_rest hc.toFramed hconsistent.differ hsame
  obtain ⟨hrests, hnew⟩ := r.attributes_rest hc hone hattributes
  obtain ⟨hsource, hreads⟩ := r.marks_ok
  have hunlinked : unlinked l c r.name r.links = c := by
    have hall := attributes_of_rest hrests
    rw [← hsource] at hall
    exact congrArg (fun as => { c with attributes := as }) hall
  have hwhole : ∀ e ∈ Marked.all r.marked, stripsFromClass policy e.2 = false := by
    refine Marked.whole_of_stripAll hreads ?_
    have hsources : r.links.map (·.1) = r.marked.map Marked.source := by
      rw [← List.forall₂_eq_eq_eq, List.forall₂_map_left_iff, List.forall₂_map_right_iff]
      exact (hrests.imp fun _ _ h => h.whole).flip
    rw [r.links_ok.1, hsources]
  refine ⟨r.surveyed.named, ⟨r.header, r.surveyed.header, ?_⟩, ?_, ?_, ?_, ?_, ?_⟩
  · obtain ⟨hself, hparents⟩ := Bool.or_eq_false_iff.1 r.undoomed
    exact ⟨hself, fun parent hparent => by simpa using List.any_eq_false.1 hparents parent hparent⟩
  · intro a ha
    rw [hsource] at ha
    obtain ⟨m, hm, rfl⟩ := List.mem_map.1 ha
    obtain ⟨p, hp, hrest⟩ := forall₂_mem_left hrests hm
    have hlink := r.links_ok.2 p hp
    rw [hrest.whole] at hlink
    exact ⟨p.2, hlink, r.spared p hp, hrest.listed⟩
  · intro e d he hd
    have hin := (Marked.mem_all_iff r.surveyed.read).2 he
    have hdelete := List.any_eq_false.1 r.wanted _ hin
    have hstrip := hwhole _ hin
    simp only [deletesClass, stripsFromClass, ne_eq, hd, not_false_eq_true, decide_true,
      Bool.true_and, Bool.not_eq_true] at hdelete hstrip
    simp [Policy.spares, hdelete, hstrip]
  · intro f hf
    obtain ⟨m, ms, hrest⟩ := hfields f hf
    exact ⟨m, hrest.closed⟩
  · have hbootstraps := r.ofBootstraps
    rw [hunlinked] at hbootstraps
    refine ⟨r.bootstraps, hbootstraps, fun entry hentry => ?_⟩
    obtain ⟨m, ms, hrest⟩ := hmethods entry hentry
    exact ⟨m, hrest.closed (hconsistent.stubbed entry hentry m hrest.resolved)⟩
  · intro a ha
    have hin := (Marked.mem_all_iff r.surveyed.read).2 ha
    obtain ⟨b, hb⟩ := metadataOf_isSome hin
    obtain rfl : b = a := hone.unique r.surveyed.read (metadataOf_mem hb) hin
    obtain ⟨-, -, -, hmetadata⟩ | ⟨_, _, _, _, _, _, _, -, hsome, -⟩ := r.ofMetadata_cases
    · have hclosed := (hmetadata b hb).closed
      rwa [hpool, htracker] at hclosed
    · rw [hnew] at hsome
      cases hsome

end Prune

end JarPruning
