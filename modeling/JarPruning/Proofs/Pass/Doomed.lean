import JarPruning.Proofs.Metadata.Declared
import JarPruning.Proofs.Pass.Due

/-!
What a run over some classes may delete, told by what these classes say before it. A loss is doomed
if a class asks for it, or if a class cannot keep it once something else is lost that is doomed.
-/
namespace JarPruning

/-- What can be lost: a class, a member, or, in one class, a member that is due although nothing in
the bytecode says so. -/
inductive Loss where
  | ofClass (name : String)
  | method (owner : String) (s : Signature)
  | field (owner name : String)
  | dueMethod (c : ClassFile) (s : Signature)
  | dueField (c : ClassFile) (name : String)

namespace Loss

/-- The method is lost, itself or with its class. -/
def TakesMethod (x : Loss) (owner : String) (s : Signature) : Prop :=
  x = .ofClass owner ∨ x = .method owner s

/-- The field is lost, itself or with its class. Only fields that no extension tells apart are lost
by themselves. -/
def TakesField (x : Loss) (owner : String) (key : FieldKey) : Prop :=
  x = .ofClass owner ∨ key.extension = "()" ∧ x = .field owner key.name

/-- In the class `c`, called `self`, the method counts as lost: it is, or it is due there. -/
def HitsMethod (x : Loss) (c : ClassFile) (self owner : String) (s : Signature) : Prop :=
  x.TakesMethod owner s ∨ owner = self ∧ x = .dueMethod c s

def HitsField (x : Loss) (c : ClassFile) (self owner name : String) : Prop :=
  x.TakesField owner ⟨name, "()"⟩ ∨ owner = self ∧ x = .dueField c name

def HitsHandle (x : Loss) (c : ClassFile) (self : String) (h : HandleRef) : Prop :=
  (h.isField = true ∧ x.HitsField c self h.target.owner h.target.name) ∨
    h.isField = false ∧ x.HitsMethod c self h.target.owner h.target.toSignature

end Loss

/-- A method of the class `c` cannot outlive the loss if it refers to the site. -/
def Site.FallsTo (c : ClassFile) (self : String) (constructs : Bool) (x : Loss) : Site → Prop
  | .access _ t => constructs = false ∧ x.HitsField c self t.owner t.name
  | .invoke t => x.HitsMethod c self t.owner t.toSignature
  | .bind hs => ∃ h ∈ hs, x.HitsHandle c self h
  | .plain => False

/-- The class called `self` cannot outlive the loss if it has the link. -/
def Link.FallsTo (self : String) (x : Loss) : Link → Prop
  | .outer link => x = .ofClass link.owner ∨ ∃ s, link.method = some s ∧ x.TakesMethod link.owner s
  | .inner rows =>
    ∃ row ∈ rows, row.value.inner = self ∧
      ∃ outer, row.value.outer = some outer ∧ x = .ofClass outer
  | .host name => x = .ofClass name
  | .listed _ | .none => False

/-- A declaration of the class called `self` cannot outlive the loss. -/
def Metadata.Declaration.FallsTo (self : String) (x : Loss) (d : Metadata.Declaration) : Prop :=
  (∃ s ∈ d.methods, x.TakesMethod self s) ∨ ∃ f, d.field = some f ∧ x.TakesField self f.key

namespace ClassFile

open Metadata (Declaration Kind Payload TypeTable)

/-- The class packs the payload in its metadata. -/
inductive Packs (c : ClassFile) (p : Payload) : Prop
  | intro {ms : List Marked} {a : AnnotationEntry} {kind : Kind} {d1 d2 : List String}
    (read : marks c.pool c.attributes = .ok ms) (found : Prune.metadataOf ms = some a)
    (described : Prune.Described c.pool a kind d1 d2) (decoded : Payload.decode kind d1 d2 = .ok p)

/-- The metadata of the class, called `self`, declares this. -/
def Declares (c : ClassFile) (self : String) (d : Declaration) : Prop :=
  ∃ p types, c.Packs p ∧ TypeTable.ofContainer p.container = .ok types ∧ p.Declares self types d

/-- What the class, called `self`, asks to be deleted. -/
inductive Asks (policy : Policy) (c : ClassFile) (self : String) : Loss → Prop
  | ofClass {a : AnnotationEntry} {d : String} (annotated : Annotated c.pool c.attributes a d)
    (deletes : Prune.deletesClass policy d = true) : Asks policy c self (.ofClass self)
  | method {entry : MemberEntry} {m : Member} (mem : entry ∈ c.methods)
    (resolved : entry.resolve c.pool = .ok m)
    (deletes : Prune.Bears policy c.pool entry .delete) :
    Asks policy c self (.method self m.toSignature)
  | field {f : MemberEntry} {m : Member} (mem : f ∈ c.fields) (resolved : f.resolve c.pool = .ok m)
    (deletes : Prune.Bears policy c.pool f .delete) : Asks policy c self (.field self m.name)

/-- What the class, called `self`, loses along with something else. The bodies of methods that ask
for a stub are not looked at. -/
inductive Leads (policy : Policy) (c : ClassFile) (self : String) : Loss → Loss → Prop
  | parent {h : ClassHeader} {parent : String} (read : Walk.header c = .ok h)
    (mem : parent ∈ h.superName.toList ++ h.interfaces) :
    Leads policy c self (.ofClass parent) (.ofClass self)
  | link {a : Attribute} {link : Link} {x : Loss} (mem : a ∈ c.attributes)
    (read : Link.read c.pool a = .ok link) (falls : link.FallsTo self x) :
    Leads policy c self x (.ofClass self)
  | field {f : MemberEntry} {m : Member} (mem : f ∈ c.fields)
    (resolved : f.resolve c.pool = .ok m) : Leads policy c self (.dueField c m.name) (.field self m.name)
  | method {entry : MemberEntry} {m : Member} (mem : entry ∈ c.methods)
    (resolved : entry.resolve c.pool = .ok m) :
    Leads policy c self (.dueMethod c m.toSignature) (.method self m.toSignature)
  | caller {entry : MemberEntry} {m : Member} {bootstraps : List Bootstrap} {i : Instruction}
    {site : Site} {x : Loss} (mem : entry ∈ c.methods) (resolved : entry.resolve c.pool = .ok m)
    (walked : m.isConstructor = true ∨ ¬ Prune.Bears policy c.pool entry .stub)
    (read : Walk.bootstraps c = .ok bootstraps)
    (refers : Prune.Refers c.pool bootstraps entry i site)
    (falls : site.FallsTo c self m.isConstructor x) :
    Leads policy c self x (.method self m.toSignature)
  | companion {entry : MemberEntry} {m n : Member} {x : Loss} (mem : entry ∈ c.methods)
    (resolved : entry.resolve c.pool = .ok m) (taken : x.TakesMethod self m.toSignature)
    (follows : n ∈ Ledger.companions self m) : Leads policy c self x (.dueMethod c n.toSignature)
  | following {d : Declaration} {n : Member} {x : Loss} (declared : c.Declares self d)
    (falls : d.FallsTo self x) (follows : n ∈ d.following) :
    Leads policy c self x (.dueMethod c n.toSignature)
  | backing {d : Declaration} {f : FieldTarget} {x : Loss} (declared : c.Declares self d)
    (falls : d.FallsTo self x) (backs : d.field = some f) (plain : f.extension = "()") :
    Leads policy c self x (.dueField c f.name)

end ClassFile

/-- What the classes may lose in a run: the least that has all they ask for and all that this leads
to. -/
inductive Doomed (policy : Policy) (classes : List ClassFile) : Loss → Prop
  | asked {c : ClassFile} {self : String} {x : Loss} (mem : c ∈ classes) (named : c.name = .ok self)
    (asks : c.Asks policy self x) : Doomed policy classes x
  | led {c : ClassFile} {self : String} {x y : Loss} (mem : c ∈ classes) (named : c.name = .ok self)
    (lost : Doomed policy classes x) (leads : c.Leads policy self x y) : Doomed policy classes y

/-! What is gone by a tracker, or gone or due by a ledger, as losses. -/

section

variable {W : Loss → Prop} {c : ClassFile} {self : String} {t : Tracker}

/-- Everything that the tracker holds is among the losses. -/
structure Tracker.Within (W : Loss → Prop) (t : Tracker) : Prop where
  classes : ∀ owner, t.containsClass owner = true → W (.ofClass owner)
  methods : ∀ owner s, t.containsMethod owner s = true → ∃ x, W x ∧ x.TakesMethod owner s
  fields : ∀ owner key, t.containsField owner key = true → ∃ x, W x ∧ x.TakesField owner key

namespace Tracker.Within

theorem empty (W : Loss → Prop) : Within W {} where
  classes _ h := by cases h
  methods _ _ h := by cases h
  fields _ _ h := by cases h

theorem addClass (h : t.Within W) (hself : W (.ofClass self)) : (t.addClass self).2.Within W where
  classes owner hc := by
    rw [containsClass_addClass, Bool.or_eq_true, beq_iff_eq] at hc
    obtain hc | rfl := hc
    · exact h.classes owner hc
    · exact hself
  methods owner s hm := by
    rw [containsMethod_addClass, Bool.or_eq_true, beq_iff_eq] at hm
    obtain hm | rfl := hm
    · exact h.methods owner s hm
    · exact ⟨_, hself, .inl rfl⟩
  fields owner key hf := by
    rw [containsField_addClass, Bool.or_eq_true, beq_iff_eq] at hf
    obtain hf | rfl := hf
    · exact h.fields owner key hf
    · exact ⟨_, hself, .inl rfl⟩

theorem addMethod (h : t.Within W) {s : Signature} (hs : ∃ x, W x ∧ x.TakesMethod self s) :
    (t.addMethod self s).Within W where
  classes owner hc := h.classes owner (by rwa [containsClass_addMethod] at hc)
  methods owner m hm := by
    rw [containsMethod_addMethod, Bool.or_eq_true, Bool.and_eq_true, beq_iff_eq, beq_iff_eq] at hm
    obtain hm | ⟨rfl, rfl⟩ := hm
    · exact h.methods owner m hm
    · exact hs
  fields owner key hf := h.fields owner key (by rwa [containsField_addMethod] at hf)

theorem addField (h : t.Within W) {f : FieldTarget} (hf : ∃ x, W x ∧ x.TakesField self f.key) :
    (t.addField self f).Within W where
  classes owner hc := h.classes owner (by rwa [containsClass_addField] at hc)
  methods owner m hm := h.methods owner m (by rwa [containsMethod_addField] at hm)
  fields owner key hkey := by
    rw [containsField_addField, Bool.or_eq_true, Bool.and_eq_true, beq_iff_eq, beq_iff_eq] at hkey
    obtain hkey | ⟨rfl, rfl⟩ := hkey
    · exact h.fields owner key hkey
    · exact hf

/-- A class that cannot outlive what is gone cannot outlive one of the losses. -/
theorem dooms (h : t.Within W) {link : Link} (hdooms : link.dooms t self = true) :
    ∃ x, W x ∧ link.FallsTo self x := by
  cases link with
  | outer link =>
    rw [Link.dooms, Bool.or_eq_true, Option.any_eq_true] at hdooms
    obtain hc | ⟨s, hs, hm⟩ := hdooms
    · exact ⟨_, h.classes _ hc, .inl rfl⟩
    · obtain ⟨x, hx, htakes⟩ := h.methods _ _ hm
      exact ⟨x, hx, .inr ⟨s, hs, htakes⟩⟩
  | inner rows =>
    rw [Link.dooms, List.any_eq_true] at hdooms
    obtain ⟨row, hrow, hgone⟩ := hdooms
    rw [Bool.and_eq_true, decide_eq_true_eq, Option.any_eq_true] at hgone
    obtain ⟨hself, outer, houter, hc⟩ := hgone
    exact ⟨_, h.classes _ hc, row, hrow, hself, outer, houter, rfl⟩
  | host name => exact ⟨_, h.classes _ hdooms, rfl⟩
  | listed rows => cases hdooms
  | none => cases hdooms

theorem goes (h : t.Within W) {d : Metadata.Declaration} (hgoes : d.goes self t = true) :
    ∃ x, W x ∧ d.FallsTo self x := by
  rw [Metadata.Declaration.goes, Bool.or_eq_true, List.any_eq_true, Option.any_eq_true] at hgoes
  obtain ⟨s, hs, hm⟩ | ⟨f, hf, hkey⟩ := hgoes
  · obtain ⟨x, hx, htakes⟩ := h.methods _ _ hm
    exact ⟨x, hx, .inl ⟨s, hs, htakes⟩⟩
  · obtain ⟨x, hx, htakes⟩ := h.fields self f.key (by rw [containsField, hkey, Bool.or_true])
    exact ⟨x, hx, .inr ⟨f, hf, htakes⟩⟩

end Tracker.Within

/-- Everything that is gone or due in the class `c` is among the losses. -/
structure Ledger.Within (W : Loss → Prop) (c : ClassFile) (l : Ledger) : Prop where
  tracker : l.tracker.Within W
  dueMethods : ∀ s, l.memory.dueMethods.contains s = true → W (.dueMethod c s)
  dueFields : ∀ name, l.memory.dueFields.contains (⟨name, "()"⟩ : FieldKey) = true →
    W (.dueField c name)

namespace Ledger.Within

variable {l : Ledger}

theorem expire (h : l.Within W c) : l.expire.Within W c where
  tracker := h.tracker
  dueMethods s hs := h.dueMethods s (GraceSet.contains_of_expire hs)
  dueFields name hname := h.dueFields name (GraceSet.contains_of_expire hname)

theorem methodGone (h : l.Within W c) {owner : String} {s : Signature}
    (hgone : l.methodGone self owner s = true) : ∃ x, W x ∧ x.HitsMethod c self owner s := by
  rw [Ledger.methodGone, Bool.or_eq_true, Bool.and_eq_true, beq_iff_eq] at hgone
  obtain hgone | ⟨howner, hdue⟩ := hgone
  · obtain ⟨x, hx, htakes⟩ := h.tracker.methods _ _ hgone
    exact ⟨x, hx, .inl htakes⟩
  · exact ⟨_, h.dueMethods s hdue, .inr ⟨howner, rfl⟩⟩

theorem fieldGone (h : l.Within W c) {owner name : String}
    (hgone : l.fieldGone self owner name = true) : ∃ x, W x ∧ x.HitsField c self owner name := by
  simp only [Ledger.fieldGone, Bool.or_eq_true, Bool.and_eq_true, beq_iff_eq] at hgone
  obtain hgone | ⟨howner, hdue⟩ := hgone
  · obtain ⟨x, hx, htakes⟩ := h.tracker.fields _ _ hgone
    exact ⟨x, hx, .inl htakes⟩
  · exact ⟨_, h.dueFields name hdue, .inr ⟨howner, rfl⟩⟩

theorem handleGone (h : l.Within W c) {handle : HandleRef}
    (hgone : l.handleGone self handle = true) : ∃ x, W x ∧ x.HitsHandle c self handle := by
  unfold Ledger.handleGone at hgone
  split at hgone
  · next hfield =>
    obtain ⟨x, hx, hhits⟩ := h.fieldGone hgone
    exact ⟨x, hx, .inl ⟨hfield, hhits⟩⟩
  · next hmethod =>
    obtain ⟨x, hx, hhits⟩ := h.methodGone hgone
    exact ⟨x, hx, .inr ⟨Bool.eq_false_iff.2 hmethod, hhits⟩⟩

/-- A method that cannot outlive what is gone or due cannot outlive one of the losses. -/
theorem isFatal (h : l.Within W c) {constructs : Bool} {site : Site}
    (hfatal : site.isFatal l self constructs = true) :
    ∃ x, W x ∧ site.FallsTo c self constructs x := by
  cases site with
  | access op t =>
    rw [Site.isFatal, Bool.and_eq_true, Bool.not_eq_true'] at hfatal
    obtain ⟨x, hx, hhits⟩ := h.fieldGone hfatal.2
    exact ⟨x, hx, hfatal.1, hhits⟩
  | invoke t => exact h.methodGone hfatal
  | bind hs =>
    rw [Site.isFatal, List.any_eq_true] at hfatal
    obtain ⟨handle, hhandle, hgone⟩ := hfatal
    obtain ⟨x, hx, hhits⟩ := h.handleGone hgone
    exact ⟨x, hx, handle, hhandle, hhits⟩
  | plain => cases hfatal

theorem dropField (h : l.Within W c) {f : Member}
    (hf : ∃ x, W x ∧ x.TakesField self ⟨f.name, "()"⟩) : (l.dropField self f).Within W c where
  tracker := h.tracker.addField hf
  dueMethods := h.dueMethods
  dueFields name hname := by
    simp only [Ledger.dropField, GraceSet.contains_remove, Bool.and_eq_true] at hname
    exact h.dueFields name hname.1

theorem dropMethod (h : l.Within W c) {m : Member}
    (hm : ∃ x, W x ∧ x.TakesMethod self m.toSignature)
    (hfollow : ∀ n ∈ companions self m, W (.dueMethod c n.toSignature)) :
    (l.dropMethod self m).Within W c where
  tracker := h.tracker.addMethod hm
  dueMethods s hs := by
    simp only [Ledger.dropMethod, GraceSet.contains_insertAll, GraceSet.contains_remove,
      Bool.or_eq_true, Bool.and_eq_true, List.any_eq_true, decide_eq_true_eq] at hs
    obtain ⟨hs, -⟩ | ⟨n, hn, rfl⟩ := hs
    · exact h.dueMethods s hs
    · exact hfollow n hn
  dueFields := h.dueFields

theorem stubMethod (h : l.Within W c) (m : Member) : (l.stubMethod m).Within W c where
  tracker := h.tracker
  dueMethods := h.dueMethods
  dueFields := h.dueFields

theorem schedule (h : l.Within W c) {changes : Metadata.Changes}
    (hmethods : ∀ n ∈ changes.methods, W (.dueMethod c n.toSignature))
    (hfields : ∀ f ∈ changes.fields, f.extension = "()" → W (.dueField c f.name)) :
    (l.schedule changes).Within W c where
  tracker := h.tracker
  dueMethods s hs := by
    simp only [Ledger.schedule, GraceSet.contains_insertAll, Bool.or_eq_true, List.any_eq_true,
      decide_eq_true_eq] at hs
    obtain hs | ⟨n, hn, rfl⟩ := hs
    · exact h.dueMethods s hs
    · exact hmethods n hn
  dueFields name hname := by
    simp only [Ledger.schedule, GraceSet.contains_insertAll, Bool.or_eq_true, List.any_eq_true,
      decide_eq_true_eq] at hname
    obtain hname | ⟨f, hf, hkey⟩ := hname
    · exact h.dueFields name hname
    · obtain ⟨hname, hextension⟩ := FieldKey.mk.inj hkey
      exact hname ▸ hfields f hf hextension

/-- With more gone, as long as that is among the losses too. -/
theorem withTracker (h : l.Within W c) (ht : t.Within W) :
    Ledger.Within W c { l with tracker := t } where
  tracker := ht
  dueMethods := h.dueMethods
  dueFields := h.dueFields

end Ledger.Within

end

end JarPruning
