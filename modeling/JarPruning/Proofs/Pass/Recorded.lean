import JarPruning.Proofs.Pass.Consistent
import JarPruning.Proofs.Pass.Mirrored

/-!
What a pass records is what it drops. Every member of a class is either kept, in its place among the
others, or dropped and written down under its name and descriptor.
-/
namespace JarPruning

/-- Members that are named and described by the same constants. -/
structure SameHeader (e e' : MemberEntry) : Prop where
  access : e'.access = e.access
  name : e'.name = e.name
  descriptor : e'.descriptor = e.descriptor

/-- Members some of which were dropped, what the others became, and what was dropped. -/
inductive Drops (pool : ConstantPool) (becomes : MemberEntry → MemberEntry → Prop) :
    List MemberEntry → List MemberEntry → List Member → Prop
  | nil : Drops pool becomes [] [] []
  | keep {e e' : MemberEntry} {es es' : List MemberEntry} {dropped : List Member}
    (kept : becomes e e') (rest : Drops pool becomes es es' dropped) :
    Drops pool becomes (e :: es) (e' :: es') dropped
  | drop {e : MemberEntry} {m : Member} {es es' : List MemberEntry} {dropped : List Member}
    (resolved : e.resolve pool = .ok m) (rest : Drops pool becomes es es' dropped) :
    Drops pool becomes (e :: es) es' (m :: dropped)

namespace Drops

variable {pool : ConstantPool} {R S : MemberEntry → MemberEntry → Prop}
  {es es' : List MemberEntry} {dropped : List Member}

theorem imp (h : Drops pool R es es' dropped) (himp : ∀ e e', R e e' → S e e') :
    Drops pool S es es' dropped := by
  induction h with
  | nil => exact .nil
  | keep hkept _ ih => exact .keep (himp _ _ hkept) ih
  | drop hresolved _ ih => exact .drop hresolved ih

theorem length (h : Drops pool R es es' dropped) : es'.length + dropped.length = es.length := by
  induction h with
  | nil => rfl
  | keep _ _ ih =>
    simp only [List.length_cons]
    omega
  | drop _ _ ih =>
    simp only [List.length_cons]
    omega

theorem eq_nil_of_length (h : Drops pool R es es' dropped) (hlength : es'.length = es.length) :
    dropped = [] := by
  have := h.length
  exact List.length_eq_zero_iff.1 (by omega)

end Drops

namespace Prune

open Walk (KeptMethod)

variable {policy : Policy} {self : String} {pool : ConstantPool} {bootstraps : List Bootstrap}
  {l l' : Ledger}

/-- A field as a pass leaves it. -/
inductive FieldLeft (policy : Policy) (pool : ConstantPool) (f : MemberEntry) :
    MemberEntry → Prop
  | intro {m : Member} {ms : List Marked} (resolved : f.resolve pool = .ok m)
    (read : marks pool f.attributes = .ok ms) : FieldLeft policy pool f (left policy f ms)

theorem FieldLeft.header {f f' : MemberEntry} (h : FieldLeft policy pool f f') :
    SameHeader f f' := by
  cases h
  exact ⟨rfl, rfl, rfl⟩

/-- The fields that go are recorded in their order, and no others. -/
theorem fields_drops {fs fs' : List MemberEntry} {changed : Bool}
    (h : fields policy self pool l fs = .ok (l', fs', changed)) :
    ∃ dropped, Drops pool (FieldLeft policy pool) fs fs' dropped ∧
      l'.tracker = l.tracker.addFields self dropped := by
  induction fs generalizing l fs' changed with
  | nil =>
    cases h
    exact ⟨[], .nil, rfl⟩
  | cons f fs ih =>
    obtain ⟨r, fs₁, c, hstep, hfs, rfl, -⟩ := fields_cons_ok h
    obtain ⟨dropped, hdrops, htracker⟩ := ih hfs
    cases hstep with
    | drop hresolved _ _ => exact ⟨_ :: dropped, .drop hresolved hdrops, htracker⟩
    | keep hresolved hread _ _ => exact ⟨dropped, .keep (.intro hresolved hread) hdrops, htracker⟩

/-- A method that meets a fate, with the stub it may ask for. -/
inductive MethodLeft (policy : Policy) (owner : String) (pool : ConstantPool)
    (bootstraps : List Bootstrap) (entry e : MemberEntry) : Prop
  | intro {l : Ledger} {m : Member} {ms : List Marked} {ft : Fate} {k : KeptMethod}
    {p q : ConstantPool} (step : MethodStep policy owner pool bootstraps l entry m ms ft)
    (kept : (afterFate policy owner pool l entry m ms ft).2.1 = some k)
    (installed : (Walk.installStub k).run p = .ok e q)

theorem MethodLeft.derived {entry e : MemberEntry}
    (h : MethodLeft policy self pool bootstraps entry e) : Derived policy pool entry e := by
  obtain ⟨hstep, hkept, hinstalled⟩ := h
  exact hstep.derived hkept hinstalled

theorem MethodLeft.header {entry e : MemberEntry}
    (h : MethodLeft policy self pool bootstraps entry e) : SameHeader entry e := by
  obtain ⟨-, -, edit⟩ := h.derived
  obtain ⟨haccess, hname, hdescriptor⟩ := edited_header _ edit _
  exact ⟨haccess, hname, hdescriptor⟩

/-- The methods that go are recorded in their order, and no others. -/
theorem methods_drops {entries es : List MemberEntry} {ks : List KeptMethod} {changed : Bool}
    {p q : ConstantPool} (h : methods policy self pool bootstraps l entries = .ok (l', ks, changed))
    (hinstalled : (Walk.installStubs ks).run p = .ok es q) :
    ∃ dropped, Drops pool (MethodLeft policy self pool bootstraps) entries es dropped ∧
      l'.tracker = l.tracker.addMethods self dropped := by
  induction entries generalizing l ks changed es p with
  | nil =>
    cases h
    cases hinstalled
    exact ⟨[], .nil, rfl⟩
  | cons entry entries ih =>
    obtain ⟨r, ks', c, hstep, hrest, rfl, -⟩ := methods_cons_ok h
    obtain ⟨m, ms, ft, hm, rfl⟩ := method_ok hstep
    cases hk : (afterFate policy self pool l entry m ms ft).2.1 with
    | none =>
      rw [hk] at hinstalled
      obtain ⟨dropped, hdrops, htracker⟩ := ih hrest hinstalled
      -- Only a method that is deleted leaves nothing.
      cases ft with
      | delete => exact ⟨m :: dropped, .drop hm.resolved hdrops, htracker⟩
      | stub => cases hk
      | keep _ => cases hk
    | some k =>
      rw [hk] at hinstalled
      obtain ⟨e, es', p', he, hes, rfl⟩ := installStubs_cons_ok hinstalled
      obtain ⟨dropped, hdrops, htracker⟩ := ih hrest hes
      have hkept := Drops.keep (MethodLeft.intro hm hk he) hdrops
      cases ft with
      | delete => cases hk
      | stub => exact ⟨dropped, hkept, htracker⟩
      | keep _ => exact ⟨dropped, hkept, htracker⟩

namespace Rewriting

variable {c : ClassFile}

/-- What a pass over a class that is kept drops and records. -/
theorem drops (r : Rewriting policy l c) : ∃ fs ms,
    Drops c.pool (FieldLeft policy c.pool) c.fields r.fields fs ∧
      Drops c.pool (MethodLeft policy r.name c.pool r.bootstraps) c.methods r.methods ms ∧
      r.last.tracker = (l.tracker.addFields r.name fs).addMethods r.name ms := by
  obtain ⟨fs, hfields, hafter⟩ := fields_drops r.ofFields
  obtain ⟨ms, hmethods, hlast⟩ := methods_drops r.ofMethods r.installed
  exact ⟨fs, ms, hfields, hmethods, by rw [r.last_ledger.1, hlast, hafter]⟩

/-- A pass that leaves a class as it was records nothing. -/
theorem tracker_of_same (r : Rewriting policy l c) (hc : c.Framed)
    (hsame : r.changed = false ∨ r.result.bytes = c.bytes) : r.last.tracker = l.tracker := by
  obtain ⟨hfieldsSame, hmethodsSame, -⟩ := r.of_same hc hsame
  obtain ⟨fs, ms, hfields, hmethods, htracker⟩ := r.drops
  rw [htracker, hfields.eq_nil_of_length (by rw [hfieldsSame]),
    hmethods.eq_nil_of_length (by rw [hmethodsSame])]
  rfl

end Rewriting

end Prune

/-- What a pass over the class `c` called `name` did to its session. -/
inductive PassOutcome.Recorded (c : ClassFile) (name : String) (s s' : Session) :
    PassOutcome → Prop
  | unchanged (same : s'.tracker = s.tracker) : Recorded c name s s' .unchanged
  | unwanted (gone : s'.tracker = (s.tracker.addClass name).2)
    (expired : s'.memory = s.memory.expire) : Recorded c name s s' .unwanted
  | modified {c' : ClassFile} {fs ms : List Member}
    (read : ∀ c'', ClassFile.ofBytes c'.bytes = .ok c'' →
      c''.fields = c'.fields ∧ c''.methods = c'.methods)
    (fields : Drops c.pool SameHeader c.fields c'.fields fs)
    (methods : Drops c.pool SameHeader c.methods c'.methods ms)
    (here : s.tracker.containsClass name = false)
    (recorded : s'.tracker = (s.tracker.addFields name fs).addMethods name ms)
    (knownMethods : ∀ o m, s'.tracker.containsMethod o m =
      (s.tracker.containsMethod o m || (o == name && ms.any fun n => m == n.toSignature)))
    (knownFields : ∀ o key, s'.tracker.containsField o key =
      (s.tracker.containsField o key || (o == name && fs.any fun f => key == ⟨f.name, "()"⟩))) :
    Recorded c name s s' (.modified c'.bytes)

namespace Pass

variable {policy : Policy} {entry : String} {bytes : List UInt8} {s s' : Session}
  {out : PassOutcome}

/-- A pass records exactly what it removes: the class if that is unwanted, else the fields and methods
that it drops from what it writes, and nothing if it leaves the class as it was. -/
theorem recorded_of_run (hrun : (run policy entry bytes).run s = .ok out s') :
    ∃ c name, ClassFile.ofBytes bytes = .ok c ∧ c.name = .ok name ∧
      out.Recorded c name s s' := by
  obtain ⟨b, hpass, rfl, hledger⟩ := (pass_follows policy entry bytes s).of_ok hrun
  obtain ⟨c, hc, hpassed⟩ := Prune.pass_ok hpass
  have hfits := (ClassFile.of_ofBytes hc).2.1.toFramed
  cases hpassed with
  | @discarded name hname _ =>
    exact ⟨c, name, hc, hname,
      .unwanted (congrArg Ledger.tracker hledger) (congrArg Ledger.memory hledger)⟩
  | unchanged r hsame =>
    exact ⟨c, r.name, hc, r.surveyed.named,
      .unchanged ((congrArg Ledger.tracker hledger).trans (r.tracker_of_same hfits hsame))⟩
  | modified r _ =>
    obtain ⟨fs, ms, hfields, hmethods, htracker⟩ := r.drops
    replace htracker : s'.tracker = (s.tracker.addFields r.name fs).addMethods r.name ms :=
      (congrArg Ledger.tracker hledger).trans htracker
    have hhere : s.tracker.containsClass r.name = false := by
      have hlast := r.here
      rwa [Tracker.containsClass, r.classes_last] at hlast
    refine ⟨c, r.name, hc, r.surveyed.named, .modified (fun c'' hc'' => ?_)
      (hfields.imp fun _ _ h => h.header) (hmethods.imp fun _ _ h => h.header) hhere htracker
      (fun o m => ?_) (fun o key => ?_)⟩
    · rw [r.reread hfits hc'']
      exact ⟨rfl, rfl⟩
    · rw [htracker, Tracker.containsMethod_addMethods, Tracker.containsMethod_addFields]
    · rw [htracker, Tracker.containsField_addMethods, Tracker.containsField_addFields]

/-- Whether a pass wrote a class. -/
def wrote : EStateM.Result ClassFailure Session PassOutcome → Bool
  | .ok (.modified _) _ => true
  | _ => false

theorem of_wrote {r : EStateM.Result ClassFailure Session PassOutcome} (h : wrote r = true) :
    ∃ written s', r = .ok (.modified written) s' := by
  cases r with
  | error => cases h
  | ok out s' =>
    cases out with
    | modified written => exact ⟨written, s', rfl⟩
    | _ => cases h

/-- A class of which a field is to be deleted, and with it the method that reads it. -/
def readerClass : ClassFile where
  minor := 0
  major := 52
  pool := ⟨#[.unusable, .ofText "A", .classInfo 1, .ofText "f", .ofText "I",
    .ofText "RuntimeVisibleAnnotations", .ofText "LD;", .ofText "m", .ofText "()V",
    .ofText "Code", .nameAndType 3 4, .fieldRef 2 10]⟩
  access := 0
  thisClass := 2
  superClass := 0
  interfaces := []
  fields := [⟨8, 3, 4, [⟨5, AnnotationEntry.tableBytes [⟨6, []⟩]⟩]⟩]
  methods := [⟨8, 7, 8, [⟨9, Body.bytes ⟨1, 0, [Opcode.getstatic, 0, 11, 0x57, Opcode.ret]⟩⟩]⟩]
  attributes := []

/-- The field is recorded and, as it is gone, the method that reads it. -/
theorem recorded_of_run_reader : ∃ written s',
    (run marking "A.class" readerClass.bytes).run {} = .ok (.modified written) s' ∧
    ∃ c name, ClassFile.ofBytes readerClass.bytes = .ok c ∧ c.name = .ok name ∧
      (PassOutcome.modified written).Recorded c name {} s' := by
  obtain ⟨written, s', hrun⟩ :=
    of_wrote (r := (run marking "A.class" readerClass.bytes).run {}) (by decide +kernel)
  exact ⟨written, s', hrun, recorded_of_run hrun⟩

end Pass

end JarPruning
