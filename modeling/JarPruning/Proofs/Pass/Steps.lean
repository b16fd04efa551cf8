import JarPruning.Proofs.Pass.Marks

/-!
What a pass can do with one member. Every later proof about members goes by these cases.
-/
namespace JarPruning

open Walk (KeptMethod Patch Outcome)

namespace Prune

variable {policy : Policy} {self : String} {pool : ConstantPool} {bootstraps : List Bootstrap}

/-! Fields. -/

/-- A field goes because it is gone or asked to, or it stays with what is left of its
attributes. -/
inductive FieldStep (policy : Policy) (owner : String) (pool : ConstantPool) (l : Ledger)
    (f : MemberEntry) : Ledger × Option MemberEntry × Bool → Prop
  | drop {member : Member} {ms : List Marked} (resolved : f.resolve pool = .ok member)
    (read : marks pool f.attributes = .ok ms)
    (goes : l.fieldGone owner owner member.name = true ∨ Marked.anyOf policy.deletes ms = true) :
    FieldStep policy owner pool l f (l.dropField owner member, none, true)
  | keep {member : Member} {ms : List Marked} (resolved : f.resolve pool = .ok member)
    (read : marks pool f.attributes = .ok ms)
    (here : l.fieldGone owner owner member.name = false)
    (wanted : Marked.anyOf policy.deletes ms = false) :
    FieldStep policy owner pool l f
      (l, some { f with attributes := (Marked.stripAll policy.strips ms).1 },
        (Marked.stripAll policy.strips ms).2)

theorem field_ok {l : Ledger} {f : MemberEntry} {r : Ledger × Option MemberEntry × Bool}
    (h : field policy self pool l f = .ok r) : FieldStep policy self pool l f r := by
  unfold field at h
  obtain ⟨member, hmember, h⟩ := bind_ok_iff.1 h
  obtain ⟨ms, hms, h⟩ := bind_ok_iff.1 h
  split at h
  · next hgoes =>
    cases h
    exact .drop hmember hms (by simpa using hgoes)
  · next hstays =>
    cases h
    rw [Bool.not_eq_true, Bool.or_eq_false_iff] at hstays
    exact .keep hmember hms hstays.1 hstays.2

theorem fields_cons_ok {l l' : Ledger} {f : MemberEntry} {fs fs' : List MemberEntry}
    {changed : Bool} (h : fields policy self pool l (f :: fs) = .ok (l', fs', changed)) :
    ∃ r fs₁ c, FieldStep policy self pool l f r ∧
      fields policy self pool r.1 fs = .ok (l', fs₁, c) ∧ fs' = r.2.1.toList ++ fs₁ ∧
      changed = (r.2.2 || c) := by
  rw [fields] at h
  obtain ⟨⟨l₁, f?, c₁⟩, hf, h⟩ := bind_ok_iff.1 h
  obtain ⟨⟨l₂, fs₁, c₂⟩, hfs, h⟩ := bind_ok_iff.1 h
  cases h
  exact ⟨(l₁, f?, c₁), fs₁, c₂, field_ok hf, hfs, rfl, rfl⟩

/-! Methods. -/

/-- Nothing but its body can make the method go. -/
structure Stays (policy : Policy) (owner : String) (l : Ledger) (m : Member) (ms : List Marked) :
    Prop where
  here : l.methodGone owner owner m.toSignature = false
  wanted : Marked.anyOf policy.deletes ms = false

inductive Fated (policy : Policy) (owner : String) (pool : ConstantPool)
    (bootstraps : List Bootstrap) (l : Ledger) (m : Member) (ms : List Marked)
    (code : Option Attribute) : Fate → Prop
  | gone (goes : l.methodGone owner owner m.toSignature = true ∨
      Marked.anyOf policy.deletes ms = true) :
    Fated policy owner pool bootstraps l m ms code .delete
  | already (stays : Stays policy owner l m ms)
    (stubbed : l.memory.stubbed.contains m.toSignature = true) :
    Fated policy owner pool bootstraps l m ms code (.keep [])
  | stub (stays : Stays policy owner l m ms)
    (fresh : l.memory.stubbed.contains m.toSignature = false)
    (asks : asksForStub policy m ms = true) :
    Fated policy owner pool bootstraps l m ms code .stub
  | bare (stays : Stays policy owner l m ms)
    (fresh : l.memory.stubbed.contains m.toSignature = false)
    (whole : asksForStub policy m ms = false) (empty : code = none) :
    Fated policy owner pool bootstraps l m ms code (.keep [])
  | walked {a : Attribute} {ss : List (Instruction × Site)} {ft : Fate}
    (stays : Stays policy owner l m ms)
    (fresh : l.memory.stubbed.contains m.toSignature = false)
    (whole : asksForStub policy m ms = false) (body : code = some a)
    (scanned : sites pool bootstraps a.payload = .ok ss)
    (meets : bodyFate l owner m.isConstructor ss = ft) :
    Fated policy owner pool bootstraps l m ms code ft

theorem fate_ok {l : Ledger} {m : Member} {ms : List Marked} {code : Option Attribute}
    {ft : Fate} (h : fate policy self pool bootstraps l m ms code = .ok ft) :
    Fated policy self pool bootstraps l m ms code ft := by
  unfold fate at h
  by_cases hgone : (l.methodGone self self m.toSignature || Marked.anyOf policy.deletes ms) = true
  · rw [if_pos hgone] at h
    cases h
    exact .gone (by simpa using hgone)
  rw [if_neg hgone] at h
  rw [Bool.not_eq_true, Bool.or_eq_false_iff] at hgone
  have hstays : Stays policy self l m ms := ⟨hgone.1, hgone.2⟩
  by_cases hstubbed : l.memory.stubbed.contains m.toSignature = true
  · rw [if_pos hstubbed] at h
    cases h
    exact .already hstays hstubbed
  rw [if_neg hstubbed] at h
  rw [Bool.not_eq_true] at hstubbed
  by_cases hasks : asksForStub policy m ms = true
  · rw [if_pos hasks] at h
    cases h
    exact .stub hstays hstubbed hasks
  rw [if_neg hasks] at h
  rw [Bool.not_eq_true] at hasks
  cases code with
  | none =>
    cases h
    exact .bare hstays hstubbed hasks rfl
  | some a =>
    obtain ⟨ss, hss, h⟩ := bind_ok_iff.1 h
    cases h
    exact .walked hstays hstubbed hasks rfl hss rfl

theorem Fated.fate_eq {l : Ledger} {m : Member} {ms : List Marked} {code : Option Attribute}
    {ft : Fate} (h : Fated policy self pool bootstraps l m ms code ft) :
    fate policy self pool bootstraps l m ms code = .ok ft := by
  have hstays (h : Stays policy self l m ms) :
      ¬ (l.methodGone self self m.toSignature || Marked.anyOf policy.deletes ms) = true := by
    rw [h.here, h.wanted]
    exact Bool.false_ne_true
  unfold fate
  cases h with
  | gone hgoes => rw [if_pos (by simpa using hgoes)]; rfl
  | already h hstubbed => rw [if_neg (hstays h), if_pos hstubbed]; rfl
  | stub h hfresh hasks => rw [if_neg (hstays h), if_neg (by simp [hfresh]), if_pos hasks]; rfl
  | bare h hfresh hwhole hempty =>
    rw [if_neg (hstays h), if_neg (by simp [hfresh]), if_neg (by simp [hwhole]), hempty]
    rfl
  | walked h hfresh hwhole hbody hscanned hmeets =>
    rw [if_neg (hstays h), if_neg (by simp [hfresh]), if_neg (by simp [hwhole]), hbody]
    dsimp only
    rw [hscanned, ← hmeets]
    rfl

theorem bodyFate_ne_stub (l : Ledger) (self : String) (constructs : Bool)
    (ss : List (Instruction × Site)) : bodyFate l self constructs ss ≠ .stub := by
  unfold bodyFate
  split <;> simp

theorem Fated.stays {l : Ledger} {m : Member} {ms : List Marked} {code : Option Attribute}
    {ft : Fate} (h : Fated policy self pool bootstraps l m ms code ft) (hne : ft ≠ .delete) :
    Stays policy self l m ms := by
  cases h with
  | gone _ => exact absurd rfl hne
  | already hstays _ => exact hstays
  | stub hstays _ _ => exact hstays
  | bare hstays _ _ _ => exact hstays
  | walked hstays _ _ _ _ _ => exact hstays

theorem Fated.asks {l : Ledger} {m : Member} {ms : List Marked} {code : Option Attribute}
    (h : Fated policy self pool bootstraps l m ms code .stub) :
    asksForStub policy m ms = true := by
  cases h with
  | stub _ _ hasks => exact hasks
  | walked _ _ _ _ _ hmeets => exact absurd hmeets (bodyFate_ne_stub _ _ _ _)

/-- The attributes of a member without what is to be stripped. -/
def left (policy : Policy) (entry : MemberEntry) (ms : List Marked) : MemberEntry :=
  { entry with attributes := (Marked.stripAll policy.strips ms).1 }

/-- The first body that is left. -/
def codeOf (pool : ConstantPool) (entry : MemberEntry) : Option Nat :=
  Walk.codePosition? pool entry.attributes

/-- A method that meets its fate. -/
structure MethodStep (policy : Policy) (owner : String) (pool : ConstantPool)
    (bootstraps : List Bootstrap) (l : Ledger) (entry : MemberEntry) (m : Member)
    (ms : List Marked) (ft : Fate) : Prop where
  resolved : entry.resolve pool = .ok m
  read : marks pool entry.attributes = .ok ms
  fated : Fated policy owner pool bootstraps l m ms
    ((codeOf pool (left policy entry ms)).bind ((left policy entry ms).attributes[·]?)) ft

/-- What a fate leaves. -/
def afterFate (policy : Policy) (self : String) (pool : ConstantPool) (l : Ledger)
    (entry : MemberEntry) (m : Member) (ms : List Marked) :
    Fate → Ledger × Option KeptMethod × Bool
  | .delete => (l.dropMethod self m, none, true)
  | .stub =>
    (l.stubMethod m, some ⟨left policy entry ms, codeOf pool (left policy entry ms)⟩,
      (codeOf pool (left policy entry ms)).isSome || (Marked.stripAll policy.strips ms).2)
  | .keep patches =>
    (l, some ⟨patched (left policy entry ms) (codeOf pool (left policy entry ms)) patches, none⟩,
      (codeOf pool (left policy entry ms)).isSome && !patches.isEmpty ||
        (Marked.stripAll policy.strips ms).2)

theorem method_ok {l : Ledger} {entry : MemberEntry} {r : Ledger × Option KeptMethod × Bool}
    (h : method policy self pool bootstraps l entry = .ok r) :
    ∃ m ms ft, MethodStep policy self pool bootstraps l entry m ms ft ∧
      r = afterFate policy self pool l entry m ms ft := by
  unfold method at h
  obtain ⟨m, hm, h⟩ := bind_ok_iff.1 h
  obtain ⟨ms, hms, h⟩ := bind_ok_iff.1 h
  obtain ⟨ft, hft, h⟩ := bind_ok_iff.1 h
  refine ⟨m, ms, ft, ⟨hm, hms, fate_ok hft⟩, ?_⟩
  cases ft <;> cases h <;> rfl

/-- A method meets no fate but this. -/
theorem MethodStep.method_eq {l : Ledger} {entry : MemberEntry} {m : Member} {ms : List Marked}
    {ft : Fate} (h : MethodStep policy self pool bootstraps l entry m ms ft) :
    method policy self pool bootstraps l entry =
      .ok (afterFate policy self pool l entry m ms ft) := by
  have hfate := h.fated.fate_eq
  unfold codeOf left at hfate
  unfold method
  simp only [h.resolved, h.read, hfate, bind, Except.bind]
  cases ft <;> rfl

theorem methods_cons_ok {l l' : Ledger} {m : MemberEntry} {ms : List MemberEntry}
    {kept : List KeptMethod} {changed : Bool}
    (h : methods policy self pool bootstraps l (m :: ms) = .ok (l', kept, changed)) :
    ∃ r ks c, method policy self pool bootstraps l m = .ok r ∧
      methods policy self pool bootstraps r.1 ms = .ok (l', ks, c) ∧
      kept = r.2.1.toList ++ ks ∧ changed = (r.2.2 || c) := by
  rw [methods] at h
  obtain ⟨⟨l₁, k?, c₁⟩, hm, h⟩ := bind_ok_iff.1 h
  obtain ⟨⟨l₂, ks, c₂⟩, hms, h⟩ := bind_ok_iff.1 h
  cases h
  exact ⟨(l₁, k?, c₁), ks, c₂, hm, hms, rfl, rfl⟩

theorem methods_cons {l l' : Ledger} {m : MemberEntry} {ms : List MemberEntry}
    {r : Ledger × Option KeptMethod × Bool} {ks : List KeptMethod} {changed : Bool}
    (hm : method policy self pool bootstraps l m = .ok r)
    (hms : methods policy self pool bootstraps r.1 ms = .ok (l', ks, changed)) :
    methods policy self pool bootstraps l (m :: ms) =
      .ok (l', r.2.1.toList ++ ks, r.2.2 || changed) :=
  bind_ok_iff.2 ⟨r, hm, bind_ok_iff.2 ⟨_, hms, rfl⟩⟩

/-! The class. -/

/-- What a pass reads of a class before anything in it is decided. -/
structure Surveyed (policy : Policy) (c : ClassFile) (name : String) (h : ClassHeader)
    (ms : List Marked) : Prop where
  named : c.name = .ok name
  header : Walk.header c = .ok h
  read : marks c.pool c.attributes = .ok ms

/-- The links of a class, read from what stripping leaves of its attributes. -/
def Linked (policy : Policy) (c : ClassFile) (ms : List Marked) (links : List (Attribute × Link)) :
    Prop :=
  readLinks c.pool (Marked.stripAll (stripsFromClass policy) ms).1 = .ok links

/-- Why a class is discarded. -/
inductive Discards (policy : Policy) (l : Ledger) (c : ClassFile) : Prop
  | doomed {name : String} {h : ClassHeader} {ms : List Marked}
    (surveyed : Surveyed policy c name h ms)
    (doomed : headerDoomed l.tracker h = true ∨ Marked.anyOf (deletesClass policy) ms = true) :
    Discards policy l c
  | unlinked {name : String} {h : ClassHeader} {ms : List Marked} {links : List (Attribute × Link)}
    (surveyed : Surveyed policy c name h ms) (linked : Linked policy c ms links)
    (dooms : ∃ p ∈ links, p.2.dooms l.tracker name = true) : Discards policy l c

/-- A class without the rows that lead to classes that are gone. -/
def unlinked (l : Ledger) (c : ClassFile) (name : String) (links : List (Attribute × Link)) :
    ClassFile :=
  { c with attributes := links.map fun p => (p.2.thin l.tracker name p.1).1 }

/-- A pass over a class that is kept, with everything it comes by on its way. -/
structure Rewriting (policy : Policy) (l : Ledger) (c : ClassFile) where
  name : String
  header : ClassHeader
  marked : List Marked
  links : List (Attribute × Link)
  fields : List MemberEntry
  bootstraps : List Bootstrap
  kept : List KeptMethod
  methods : List MemberEntry
  new : List AnnotationEntry
  attributes : List Attribute
  /-- The ledger after the fields, after the methods and at the end. -/
  (afterFields afterMethods last : Ledger)
  /-- The pool with the stubs' constants, and with all. -/
  (stubbed pool : ConstantPool)
  (fieldsChanged methodsChanged replaced : Bool)
  surveyed : Surveyed policy c name header marked
  undoomed : headerDoomed l.tracker header = false
  wanted : Marked.anyOf (deletesClass policy) marked = false
  linked : Linked policy c marked links
  spared : ∀ p ∈ links, p.2.dooms l.tracker name = false
  ofFields : Prune.fields policy name c.pool l c.fields = .ok (afterFields, fields, fieldsChanged)
  ofBootstraps : Walk.bootstraps (unlinked l c name links) = .ok bootstraps
  ofMethods : Prune.methods policy name c.pool bootstraps afterFields c.methods =
    .ok (afterMethods, kept, methodsChanged)
  installed : (Walk.installStubs kept).run c.pool = .ok methods stubbed
  ofMetadata : replacements name afterMethods stubbed (metadataOf marked) = .ok (last, new, pool)
  ofAttributes : Walk.replaceAll pool new (unlinked l c name links).attributes =
    .ok (attributes, replaced)

namespace Rewriting

variable {l : Ledger} {c : ClassFile}

/-- The class that the pass leaves. -/
def result (r : Rewriting policy l c) : ClassFile :=
  { c with pool := r.pool, fields := r.fields, methods := r.methods, attributes := r.attributes }

def stripped (r : Rewriting policy l c) : Bool :=
  (Marked.stripAll (stripsFromClass policy) r.marked).2

def thinned (r : Rewriting policy l c) : Bool :=
  r.links.any fun p => (p.2.thin l.tracker r.name p.1).2

def changed (r : Rewriting policy l c) : Bool :=
  (r.stripped || r.thinned || (r.fieldsChanged || r.methodsChanged)) || r.replaced

end Rewriting

theorem run_ok {l l' : Ledger} {c : ClassFile} {out : Outcome}
    (h : run policy l c = .ok (l', out)) :
    (Discards policy l c ∧ l' = l ∧ out = .discarded) ∨
      ∃ r : Rewriting policy l c, l' = r.last ∧ out = .rewritten r.result r.changed := by
  unfold run at h
  obtain ⟨name, hname, h⟩ := bind_ok_iff.1 h
  obtain ⟨header, hheader, h⟩ := bind_ok_iff.1 h
  obtain ⟨ms, hms, h⟩ := bind_ok_iff.1 h
  have hsurveyed : Surveyed policy c name header ms :=
    ⟨mapError_ok_iff.1 hname, mapError_ok_iff.1 hheader, mapError_ok_iff.1 hms⟩
  dsimp only at h
  split at h
  · next hdoomed =>
    cases h
    exact .inl ⟨.doomed hsurveyed (by simpa using hdoomed), rfl, rfl⟩
  next hkept =>
  rw [Bool.not_eq_true, Bool.or_eq_false_iff] at hkept
  obtain ⟨links, hlinks, h⟩ := bind_ok_iff.1 h
  have hlinked : Linked policy c ms links := mapError_ok_iff.1 hlinks
  split at h
  · next hdooms =>
    cases h
    exact .inl ⟨.unlinked hsurveyed hlinked (List.any_eq_true.1 hdooms), rfl, rfl⟩
  next hspared =>
  obtain ⟨⟨l₂, fields, kept, changed⟩, hmembers, h⟩ := bind_ok_iff.1 h
  obtain ⟨⟨l₁, _, fieldsChanged⟩, hfields, hmembers⟩ := bind_ok_iff.1 (mapError_ok_iff.1 hmembers)
  obtain ⟨bootstraps, hbootstraps, hmembers⟩ := bind_ok_iff.1 hmembers
  obtain ⟨⟨_, _, methodsChanged⟩, hmethods, hmembers⟩ := bind_ok_iff.1 hmembers
  cases hmembers
  simp only [List.map_map] at h hfields hbootstraps hmethods
  unfold finish at h
  split at h
  · cases h
  next methods stubbed hinstalled =>
  obtain ⟨⟨l₃, new, pool⟩, hmetadata, h⟩ := bind_ok_iff.1 h
  obtain ⟨⟨attributes, replaced⟩, hattributes, h⟩ := bind_ok_iff.1 h
  cases h
  refine .inr ⟨{
    name, header, marked := ms, links, fields, bootstraps, kept, methods, new, attributes
    afterFields := l₁, afterMethods := l₂, last := l', stubbed, pool
    fieldsChanged, methodsChanged, replaced
    surveyed := hsurveyed, undoomed := hkept.1, wanted := hkept.2, linked := hlinked
    spared := fun p hp => ?_
    ofFields := hfields, ofBootstraps := hbootstraps, ofMethods := hmethods
    installed := hinstalled, ofMetadata := hmetadata
    ofAttributes := mapError_ok_iff.1 hattributes }, rfl, ?_⟩
  · rw [Bool.eq_false_iff]
    exact fun hdooms => hspared (List.any_eq_true.2 ⟨p, hp, hdooms⟩)
  · simp [Rewriting.changed, Rewriting.stripped, Rewriting.thinned, Rewriting.result,
      List.any_map, Function.comp_def]

/-- A class that a pass can rewrite is rewritten. -/
theorem Rewriting.run_eq {l : Ledger} {c : ClassFile} (r : Rewriting policy l c) :
    run policy l c = .ok (r.last, .rewritten r.result r.changed) := by
  have hlinks : readLinks c.pool (Marked.stripAll (stripsFromClass policy) r.marked).1 =
      .ok r.links := r.linked
  have hspared : (r.links.any fun p => p.2.dooms l.tracker r.name) = false :=
    List.any_eq_false.2 fun p hp => by simp [r.spared p hp]
  have hmembers : members policy r.name l (unlinked l c r.name r.links) =
      .ok (r.afterMethods, r.fields, r.kept, r.fieldsChanged || r.methodsChanged) :=
    bind_ok_iff.2 ⟨_, r.ofFields, bind_ok_iff.2 ⟨_, r.ofBootstraps,
      bind_ok_iff.2 ⟨_, r.ofMethods, rfl⟩⟩⟩
  have hfinish (changed : Bool) : finish r.name r.afterMethods
      { unlinked l c r.name r.links with fields := r.fields } (metadataOf r.marked) r.kept changed =
        .ok (r.last, .rewritten r.result (changed || r.replaced)) := by
    have hinstalled : (Walk.installStubs r.kept).run
        ({ unlinked l c r.name r.links with fields := r.fields } : ClassFile).pool =
          .ok r.methods r.stubbed := r.installed
    unfold finish
    rw [hinstalled]
    exact bind_ok_iff.2 ⟨_, r.ofMetadata,
      bind_ok_iff.2 ⟨_, mapError_ok_iff.2 r.ofAttributes, rfl⟩⟩
  unfold run
  simp only [r.surveyed.named, r.surveyed.header, r.surveyed.read, hlinks, mapError_ok, bind,
    Except.bind, r.undoomed, r.wanted, Bool.or_false, Bool.false_eq_true, if_false, hspared]
  have hunlinked : ({ c with attributes := (r.links.map fun p =>
      p.2.thin l.tracker r.name p.1).map (·.1) } : ClassFile) = unlinked l c r.name r.links := by
    rw [List.map_map]
    rfl
  rw [hunlinked, hmembers, mapError_ok, List.map_map]
  refine (hfinish _).trans ?_
  simp [Rewriting.changed, Rewriting.stripped, Rewriting.thinned, List.any_map, Function.comp_def]

end Prune

end JarPruning
