import JarPruning.Proofs.Bytecode.Overwritten
import JarPruning.Proofs.Metadata.Idle
import JarPruning.Proofs.Pass.Ledgers
import JarPruning.Proofs.Pass.Reread

/-!
Classes that ask for nothing any more. Of such a class a pass that starts from an empty ledger writes
what it read: no annotation asks to go or to be stripped, and every stub comes out as it stands.
-/
namespace JarPruning

open ConstantPool (Grows)

namespace Marked

/-- Attributes none of whose annotations asks to go or to be stripped. -/
structure Calm (deletes strips : String → Bool) (pool : ConstantPool) (as : List Attribute)
    (ms : List Marked) : Prop where
  read : marks pool as = .ok ms
  wanted : anyOf deletes ms = false
  whole : ∀ e ∈ all ms, strips e.2 = false

variable {pool : ConstantPool} {as : List Attribute} {ms : List Marked} {drop : String → Bool}

theorem strip_whole {m : Marked} (h : ∀ e ∈ m.entries, drop e.2 = false) :
    m.strip drop = (some m.source, false) := by
  have hkept : kept drop m.entries = m.entries :=
    List.filter_eq_self.2 fun e he => by rw [h e he]; rfl
  generalize hr : m.strip drop = r
  have hstripped := strip_stripped drop m
  rw [hr] at hstripped
  cases hstripped with
  | whole _ => rfl
  | emptied _ hnone hsome => exact absurd (hkept.symm.trans hnone) hsome
  | thinned _ _ hfewer =>
    rw [hkept] at hfewer
    exact absurd hfewer (Nat.lt_irrefl _)

theorem stripAll_whole (h : ∀ e ∈ all ms, drop e.2 = false) :
    stripAll drop ms = (ms.map source, false) := by
  induction ms with
  | nil => rfl
  | cons m ms ih =>
    have hfirst := strip_whole fun e he => h e (List.mem_append_left _ he)
    have hrest := ih fun e he => h e (List.mem_append_right _ he)
    refine Prod.ext ?_ ?_
    · rw [stripAll_cons, hfirst, hrest]
      rfl
    · show ((m.strip drop).2 || (stripAll drop ms).2) = false
      rw [hfirst, hrest]
      rfl

theorem Calm.stripAll_eq {deletes : String → Bool} (h : Calm deletes drop pool as ms) :
    stripAll drop ms = (as, false) := by
  rw [stripAll_whole h.whole, (marks_ok_iff.1 h.read).1]

/-- Editing an attribute that is no annotation table touches no annotation. -/
theorem marks_modify {position : Nat} {f : Attribute → Attribute} (hname : ∀ a, (f a).name = a.name)
    (hplain : ∀ a, as[position]? = some a → a.isAnnotations pool = false)
    (h : marks pool as = .ok ms) :
    ∃ ms', marks pool (as.modify position f) = .ok ms' ∧ all ms' = all ms := by
  unfold marks at h ⊢
  simp only [mapM_ok_iff] at h ⊢
  induction h generalizing position with
  | nil => exact ⟨[], by simp, rfl⟩
  | @cons a m as ms hm hms ih =>
    cases position with
    | zero =>
      have ha := hplain a rfl
      have hfa : (f a).isAnnotations pool = false := by
        unfold Attribute.isAnnotations Attribute.isNamed at ha ⊢
        rwa [hname]
      have hread : Marked.read pool (f a) = .ok ⟨f a, none⟩ := by
        unfold Marked.read
        rw [hfa]
        rfl
      have hentries : m.entries = [] := by
        unfold Marked.read at hm
        rw [ha] at hm
        cases hm
        rfl
      refine ⟨⟨f a, none⟩ :: ms, List.Forall₂.cons hread hms, ?_⟩
      show [] ++ all ms = m.entries ++ all ms
      rw [hentries]
    | succ position =>
      obtain ⟨ms', hms', hall⟩ := ih hplain
      refine ⟨m :: ms', List.Forall₂.cons hm hms', ?_⟩
      show m.entries ++ all ms' = m.entries ++ all ms
      rw [hall]

end Marked

namespace Ledger

/-- A ledger in which nothing is gone and nothing is due. -/
structure Blank (l : Ledger) : Prop where
  tracker : l.tracker = {}
  dueMethods : l.memory.dueMethods = {}
  dueFields : l.memory.dueFields = {}

variable {l : Ledger} {self : String}

theorem Blank.methodGone (h : l.Blank) (owner : String) (s : Signature) :
    l.methodGone self owner s = false := by
  unfold Ledger.methodGone
  rw [h.tracker, h.dueMethods]
  simp [Tracker.containsMethod, Tracker.containsClass, GraceSet.contains]

theorem Blank.fieldGone (h : l.Blank) (owner name : String) :
    l.fieldGone self owner name = false := by
  unfold Ledger.fieldGone
  rw [h.tracker, h.dueFields]
  simp [Tracker.containsField, Tracker.containsClass, Tracker.field?, GraceSet.contains]

theorem Blank.handleGone (h : l.Blank) (handle : HandleRef) :
    l.handleGone self handle = false := by
  unfold Ledger.handleGone
  split
  · exact h.fieldGone _ _
  · exact h.methodGone _ _

theorem Blank.isFatal (h : l.Blank) (constructs : Bool) (site : Site) :
    site.isFatal l self constructs = false := by
  cases site with
  | access op target => simp [Site.isFatal, h.fieldGone]
  | invoke target => exact h.methodGone _ _
  | bind handles => exact List.any_eq_false.2 fun handle _ => by simp [h.handleGone]
  | plain => rfl

theorem Blank.patch? (h : l.Blank) (i : Instruction) (site : Site) :
    site.patch? l self i = none := by
  cases site with
  | access op target => simp [Site.patch?, h.fieldGone]
  | _ => rfl

end Ledger

namespace Prune

open Walk (KeptMethod Patch)

variable {policy : Policy} {self : String} {pool q r : ConstantPool} {bootstraps : List Bootstrap}

theorem bodyFate_blank {l : Ledger} (h : l.Blank) (constructs : Bool)
    (ss : List (Instruction × Site)) : bodyFate l self constructs ss = .keep [] := by
  unfold bodyFate
  rw [if_neg (by simp [h.isFatal])]
  cases constructs with
  | false => rfl
  | true =>
    rw [if_pos rfl, List.filterMap_eq_nil_iff.2 fun s _ => h.patch? s.1 s.2]

/-! Methods. -/

/-- Why a body comes out of a pass as it went in: another method of its signature asked for a stub
before, it is the stub that it asks for, or it can be walked. -/
inductive BodyFinished (policy : Policy) (pool : ConstantPool) (bootstraps : List Bootstrap)
    (asked : List Signature) (entry : MemberEntry) (m : Member) (ms : List Marked) : Prop
  | shadowed (before : m.toSignature ∈ asked)
  | stubbed (asks : asksForStub policy m ms = true)
    (again : ∀ position, codeOf pool entry = some position →
      ∃ a, entry.attributes[position]? = some a ∧
        (Stub.payload m.descriptor (Access.isStatic entry.access)).run pool = .ok a.payload pool)
  | walked (whole : asksForStub policy m ms = false)
    (scanned : ∀ position, codeOf pool entry = some position →
      ∃ a ss, entry.attributes[position]? = some a ∧ sites pool bootstraps a.payload = .ok ss)

structure MethodFinished (policy : Policy) (pool : ConstantPool) (bootstraps : List Bootstrap)
    (asked : List Signature) (entry : MemberEntry) (m : Member) (ms : List Marked) : Prop where
  resolved : entry.resolve pool = .ok m
  calm : Marked.Calm policy.deletes policy.strips pool entry.attributes ms
  body : BodyFinished policy pool bootstraps asked entry m ms

/-- The signatures that have asked for a stub when a method has been passed. -/
def askedAfter (policy : Policy) (m : Member) (ms : List Marked) (asked : List Signature) :
    List Signature :=
  if asksForStub policy m ms then m.toSignature :: asked else asked

/-- Methods that come out of a pass as they went in, when these signatures have asked for stubs. -/
inductive MethodsFinished (policy : Policy) (pool : ConstantPool) (bootstraps : List Bootstrap) :
    List Signature → List MemberEntry → Prop
  | nil (asked : List Signature) : MethodsFinished policy pool bootstraps asked []
  | cons {asked : List Signature} {entry : MemberEntry} {entries : List MemberEntry} {m : Member}
    {ms : List Marked} (first : MethodFinished policy pool bootstraps asked entry m ms)
    (rest : MethodsFinished policy pool bootstraps (askedAfter policy m ms asked) entries) :
    MethodsFinished policy pool bootstraps asked (entry :: entries)

theorem modify_same {α : Type} {l : List α} {i : Nat} {a : α} {f : α → α} (h : l[i]? = some a)
    (hf : f a = a) : l.modify i f = l := by
  refine List.ext_getElem? fun j => ?_
  rw [List.getElem?_modify]
  by_cases hj : i = j
  · subst hj
    simp [h, hf]
  · simp [hj]

/-- A body that is the stub already is not changed by installing it. -/
theorem installStub_same {entry : MemberEntry} {position : Nat} {descriptor : String}
    {a : Attribute} (hdescriptor : pool.utf8 entry.descriptor = .ok descriptor)
    (ha : entry.attributes[position]? = some a)
    (hpayload : (Stub.payload descriptor (Access.isStatic entry.access)).run pool =
      .ok a.payload pool) :
    (Walk.installStub ⟨entry, some position⟩).run pool = .ok entry pool := by
  have hsame : Walk.editPayload position (fun _ => a.payload) entry = entry := by
    unfold Walk.editPayload
    rw [modify_same ha rfl]
  have hinstalled := installStub_at (k := ⟨entry, some position⟩) rfl hdescriptor hpayload
  rwa [hsame] at hinstalled

section
variable {l : Ledger} {asked : List Signature} {entry : MemberEntry} {m : Member} {ms : List Marked}

theorem MethodFinished.left_eq (h : MethodFinished policy pool bootstraps asked entry m ms) :
    left policy entry ms = entry := by
  rw [left, h.calm.stripAll_eq]

theorem MethodFinished.method_eq (h : MethodFinished policy pool bootstraps asked entry m ms)
    {ft : Fate} (hfate : fate policy self pool bootstraps l m ms
      ((codeOf pool entry).bind (entry.attributes[·]?)) = .ok ft) :
    method policy self pool bootstraps l entry =
      .ok (afterFate policy self pool l entry m ms ft) := by
  have hattributes : (Marked.stripAll policy.strips ms).1 = entry.attributes := by
    rw [h.calm.stripAll_eq]
  unfold codeOf at hfate
  unfold method afterFate
  simp only [h.left_eq, h.resolved, h.calm.read, bind, Except.bind, hattributes, hfate]
  cases ft <;> rfl

variable (self) in
/-- What becomes of a finished method: it is kept as it is, or asks for the stub that it is. -/
theorem MethodFinished.fate_eq (h : MethodFinished policy pool bootstraps asked entry m ms)
    (hl : l.Blank) (hstubbed : ∀ key, l.memory.stubbed.contains key = true ↔ key ∈ asked) :
    let code := (codeOf pool entry).bind (entry.attributes[·]?)
    fate policy self pool bootstraps l m ms code = .ok (.keep []) ∧
        (m.toSignature ∈ asked ∨ asksForStub policy m ms = false) ∨
      fate policy self pool bootstraps l m ms code = .ok .stub ∧
        asksForStub policy m ms = true ∧ ∀ position, codeOf pool entry = some position →
          ∃ a, entry.attributes[position]? = some a ∧
            (Stub.payload m.descriptor (Access.isStatic entry.access)).run pool =
              .ok a.payload pool := by
  intro code
  unfold fate
  rw [hl.methodGone, h.calm.wanted, if_neg (by simp)]
  by_cases hasked : m.toSignature ∈ asked
  · rw [if_pos ((hstubbed _).2 hasked)]
    exact .inl ⟨rfl, .inl hasked⟩
  rw [if_neg fun hcontains => hasked ((hstubbed _).1 hcontains)]
  cases h.body with
  | shadowed hbefore => exact absurd hbefore hasked
  | stubbed hasks hagain =>
    rw [if_pos hasks]
    exact .inr ⟨rfl, hasks, hagain⟩
  | walked hwhole hscanned =>
    rw [if_neg (by simp [hwhole])]
    refine .inl ⟨?_, .inr hwhole⟩
    cases hcode : codeOf pool entry with
    | none =>
      simp only [code, hcode]
      rfl
    | some position =>
      obtain ⟨a, ss, ha, hss⟩ := hscanned position hcode
      simp only [code, hcode, Option.bind_some, ha, hss, bind, Except.bind]
      rw [bodyFate_blank hl]
      rfl

variable (self) in
/-- A finished method comes out of a pass as it went in. -/
theorem method_run (hl : l.Blank)
    (hstubbed : ∀ key, l.memory.stubbed.contains key = true ↔ key ∈ asked)
    (h : MethodFinished policy pool bootstraps asked entry m ms) :
    ∃ l' k changed, method policy self pool bootstraps l entry = .ok (l', some k, changed) ∧
      l'.Blank ∧ (Walk.installStub k).run pool = .ok entry pool ∧
      ∀ key, l'.memory.stubbed.contains key = true ↔ key ∈ askedAfter policy m ms asked := by
  obtain ⟨hfate, hasks⟩ | ⟨hfate, hasks, hagain⟩ := h.fate_eq self hl hstubbed
  · obtain ⟨changed, hafter⟩ : ∃ changed, afterFate policy self pool l entry m ms (.keep []) =
        (l, some ⟨entry, none⟩, changed) := by
      have hpatched : patched entry (codeOf pool entry) [] = entry := by
        rw [patched_eq]
        exact edited_id _ entry
      simp only [afterFate, h.left_eq, hpatched]
      exact ⟨_, rfl⟩
    refine ⟨l, ⟨entry, none⟩, changed, hafter ▸ h.method_eq hfate, hl, rfl, fun key => ?_⟩
    rw [hstubbed, askedAfter]
    obtain hasked | hwhole := hasks
    · split
      · exact ⟨List.mem_cons_of_mem _, fun hkey => (List.mem_cons.1 hkey).elim (· ▸ hasked) id⟩
      · exact Iff.rfl
    · rw [if_neg (by simp [hwhole])]
  · obtain ⟨changed, hafter⟩ : ∃ changed, afterFate policy self pool l entry m ms .stub =
        (l.stubMethod m, some ⟨entry, codeOf pool entry⟩, changed) := by
      simp only [afterFate, h.left_eq]
      exact ⟨_, rfl⟩
    refine ⟨l.stubMethod m, ⟨entry, codeOf pool entry⟩, changed, hafter ▸ h.method_eq hfate,
      ⟨hl.tracker, hl.dueMethods, hl.dueFields⟩, ?_, fun key => ?_⟩
    · cases hcode : codeOf pool entry with
      | none => rfl
      | some position =>
        obtain ⟨a, ha, hpayload⟩ := hagain position hcode
        exact installStub_same (MemberEntry.of_resolve h.resolved).2.1 ha hpayload
    · have hinsert : (l.stubMethod m).memory.stubbed.contains key =
          (l.memory.stubbed.contains key || decide (m.toSignature = key)) :=
        GraceSet.contains_insert l.memory.stubbed m key
      rw [askedAfter, if_pos hasks, List.mem_cons, ← hstubbed, hinsert, Bool.or_eq_true,
        decide_eq_true_eq, or_comm, eq_comm]

variable (self) in
theorem methods_run {entries : List MemberEntry} (hl : l.Blank)
    (hstubbed : ∀ key, l.memory.stubbed.contains key = true ↔ key ∈ asked)
    (h : MethodsFinished policy pool bootstraps asked entries) :
    ∃ l' ks changed, methods policy self pool bootstraps l entries = .ok (l', ks, changed) ∧
      l'.Blank ∧ (Walk.installStubs ks).run pool = .ok entries pool := by
  induction h generalizing l with
  | nil asked => exact ⟨l, [], false, rfl, hl, rfl⟩
  | cons hfirst _ ih =>
    obtain ⟨l₁, k, changed, hmethod, hl₁, hinstalled, hasked⟩ :=
      method_run self hl hstubbed hfirst
    obtain ⟨l₂, ks, later, hmethods, hl₂, hinstalleds⟩ := ih hl₁ hasked
    refine ⟨l₂, k :: ks, changed || later, ?_, hl₂, installStubs_cons hinstalled hinstalleds⟩
    rw [methods, hmethod]
    simp only [bind, Except.bind, hmethods]
    rfl

end

/-! Fields. -/

structure FieldFinished (policy : Policy) (pool : ConstantPool) (f : MemberEntry) (m : Member)
    (ms : List Marked) : Prop where
  resolved : f.resolve pool = .ok m
  calm : Marked.Calm policy.deletes policy.strips pool f.attributes ms

theorem fields_run {l : Ledger} {fs : List MemberEntry} (hl : l.Blank)
    (h : ∀ f ∈ fs, ∃ m ms, FieldFinished policy pool f m ms) :
    fields policy self pool l fs = .ok (l, fs, false) := by
  induction fs with
  | nil => rfl
  | cons f fs ih =>
    obtain ⟨m, ms, hf⟩ := h f (List.mem_cons_self ..)
    have hfirst : field policy self pool l f = .ok (l, some f, false) := by
      unfold field
      simp only [hf.resolved, hf.calm.read, bind, Except.bind, hl.fieldGone, hf.calm.wanted,
        hf.calm.stripAll_eq]
      rfl
    rw [fields, hfirst]
    simp only [bind, Except.bind, ih fun f hf => h f (List.mem_cons_of_mem _ hf)]
    rfl

/-! Links. -/

theorem thinRows_whole {α : Type} (keep : α → Bool) (rows : List (Walk.Row α)) (a : Attribute)
    (h : ∀ row ∈ rows, keep row.value = true) : Link.thinRows keep rows a = (a, false) := by
  unfold Link.thinRows
  rw [List.filter_eq_self.2 h]
  exact if_pos rfl

theorem thin_blank (link : Link) (a : Attribute) : link.thin {} self a = (a, false) := by
  cases link with
  | inner rows =>
    exact thinRows_whole (fun row => row.inner = self || !Tracker.containsClass {} row.inner) rows a
      fun row _ => by simp [Tracker.containsClass]
  | listed rows =>
    exact thinRows_whole (fun name => !Tracker.containsClass {} name) rows a fun row _ => rfl
  | _ => rfl

theorem dooms_blank (link : Link) : link.dooms {} self = false := by
  cases link with
  | outer link =>
    cases hmethod : link.method <;>
      simp [Link.dooms, hmethod, Tracker.containsClass, Tracker.containsMethod]
  | inner rows =>
    refine List.any_eq_false.2 fun row _ => ?_
    cases row.value.outer <;> simp [Tracker.containsClass]
  | _ => rfl

/-! Metadata. -/

theorem replacements_run {l : Ledger} {a? : Option AnnotationEntry}
    (h : ∀ a, a? = some a → MetadataRests self l.tracker pool a) :
    replacements self l pool a? = .ok (l, [], pool) := by
  cases a? with
  | none => rfl
  | some a =>
    obtain ⟨⟨⟨kind, d1, d2⟩, hparts⟩, hrests⟩ := h a rfl
    unfold replacements metadata
    simp only [hparts, mapError_ok, bind, Except.bind]
    by_cases hbare : (!kind.isEditable || d1.isEmpty) = true
    · rw [if_pos hbare]
      rfl
    · rw [if_neg hbare]
      simp only [Bool.or_eq_true, Bool.not_eq_true', List.isEmpty_iff, not_or,
        Bool.not_eq_false] at hbare
      obtain ⟨payload, changes, hswept, hnone⟩ := hrests kind d1 d2 ⟨hparts, hbare.1, hbare.2⟩
      rw [hswept]
      dsimp only
      exact if_pos (List.isEmpty_iff.2 hnone)

end Prune

/-- A class that asks for nothing, and whose stubs are what a pass would write. -/
inductive ClassFile.Finished (policy : Policy) (c : ClassFile) : Prop
  | intro {name : String} {header : ClassHeader} {ms : List Marked}
    {links : List (Attribute × Link)} {bootstraps : List Bootstrap}
    (named : c.name = .ok name) (ofHeader : Walk.header c = .ok header)
    (calm : Marked.Calm (Prune.deletesClass policy) (Prune.stripsFromClass policy) c.pool
      c.attributes ms)
    (linked : Prune.readLinks c.pool c.attributes = .ok links)
    (fields : ∀ f ∈ c.fields, ∃ m ms, Prune.FieldFinished policy c.pool f m ms)
    (ofBootstraps : Walk.bootstraps c = .ok bootstraps)
    (methods : Prune.MethodsFinished policy c.pool bootstraps [] c.methods)
    (metadata : ∀ a, Prune.metadataOf ms = some a → Prune.MetadataRests name {} c.pool a)

namespace ClassFile

variable {policy : Policy} {c : ClassFile}

theorem Finished.run (h : c.Finished policy) :
    ∃ l changed, Prune.run policy ⟨{}, {}⟩ c = .ok (l, .rewritten c changed) ∧ l.Blank := by
  obtain @⟨name, header, ms, links, bootstraps, hnamed, hheader, hcalm, hlinked, hfields,
    hbootstraps, hmethods, hmetadata⟩ := h
  have hblank : Ledger.Blank ⟨{}, {}⟩ := ⟨rfl, rfl, rfl⟩
  obtain ⟨l, ks, changed, hrun, hl, hinstalled⟩ :=
    Prune.methods_run name hblank (by simp [GraceSet.contains]) hmethods
  have hdoomed : Prune.headerDoomed {} header = false := by
    simp [Prune.headerDoomed, Tracker.containsClass]
  have hspared : (links.any fun p => p.2.dooms {} name) = false :=
    List.any_eq_false.2 fun p _ => by rw [Prune.dooms_blank]; simp
  have hattributes : (links.map fun p => (p.2.thin {} name p.1).1) = c.attributes := by
    simp only [Prune.thin_blank]
    exact (readLinks_ok_iff.1 hlinked).1.symm
  have hmembers : Prune.members policy name ⟨{}, {}⟩ c = .ok (l, c.fields, ks, changed) := by
    unfold Prune.members
    simp only [Prune.fields_run hblank hfields, hbootstraps, hrun, bind, Except.bind,
      Bool.false_or]
    rfl
  have hreplaced : Prune.replacements name l c.pool (Prune.metadataOf ms) = .ok (l, [], c.pool) :=
    Prune.replacements_run fun a ha => hl.tracker ▸ hmetadata a ha
  have hfinish (changed : Bool) : Prune.finish name l c (Prune.metadataOf ms) ks changed =
      .ok (l, .rewritten c changed) := by
    unfold Prune.finish
    rw [hinstalled]
    simp only [hreplaced, Walk.replaceAll, mapError_ok, bind, Except.bind, Bool.or_false]
    rfl
  unfold Prune.run
  simp only [hnamed, hheader, hcalm.read, hcalm.stripAll_eq, hdoomed, hcalm.wanted, hlinked,
    hspared, hattributes, hmembers, hfinish, mapError_ok, bind, Except.bind, List.map_map,
    Function.comp_def]
  rw [if_neg (by simp), if_neg (by simp)]
  exact ⟨l, _, rfl, hl⟩

/-- A pass that starts with nothing gone leaves a finished class unchanged. -/
theorem Finished.pass_unchanged (h : c.Finished policy) {bytes : List UInt8}
    (hc : ofBytes bytes = .ok c) (entry : String) :
    ∃ l, Prune.pass policy entry bytes ⟨{}, {}⟩ = .ok (l, .unchanged) ∧ l.tracker = {} := by
  obtain ⟨l, changed, hrun, hl⟩ := h.run
  obtain ⟨name, hname⟩ := name_of_ofBytes hc
  refine ⟨l, ?_, hl.tracker⟩
  have hexpire : Ledger.expire ⟨{}, {}⟩ = ⟨{}, {}⟩ := rfl
  have hsame : c.bytes = bytes := (of_ofBytes hc).1.symm
  unfold Prune.pass
  simp only [hc, hname, hexpire, hrun, mapError_ok, bind, Except.bind, hsame,
    bne_self_eq_false, Bool.and_false]
  rfl

end ClassFile

end JarPruning
