import JarPruning.Proofs.Pass.Behind
import JarPruning.Proofs.Pass.Finished
import JarPruning.Proofs.Pass.Lighter

/-!
Passes after one that left its class as it was. In between, members that were due expire and methods
that are stubs already are remembered as stubs, so a later pass finds less to do where there was
nothing to do.
-/
namespace JarPruning

open Ledger (Behind)

namespace Ledger

variable {owner : String} {l l' : Ledger}

/-- By the second ledger as much is gone, no more is due, and as many stubs are known. -/
structure Eases (l l' : Ledger) : Prop where
  tracker : l'.tracker = l.tracker
  dueMethods : ∀ s : Signature, l'.memory.dueMethods.contains s = true →
    l.memory.dueMethods.contains s = true
  dueFields : ∀ key : FieldKey, l'.memory.dueFields.contains key = true →
    l.memory.dueFields.contains key = true
  stubs : Prune.StubbedStay l.memory.stubbed l'.memory.stubbed

/-- But for the stubs that are known, the first ledger is ahead of the second. -/
theorem Eases.behind (h : Eases l l') (owner : String) :
    Behind owner { l' with memory := { l'.memory with stubbed := l.memory.stubbed } } l where
  tracker := by
    rw [h.tracker]
    exact .refl _
  methods o s hgone := by
    simp only [methodGone, Bool.or_eq_true, Bool.and_eq_true, h.tracker] at hgone ⊢
    exact hgone.imp_right (And.imp_right (h.dueMethods s))
  fields o name hgone := by
    simp only [fieldGone, Bool.or_eq_true, Bool.and_eq_true, h.tracker] at hgone ⊢
    exact hgone.imp_right (And.imp_right (h.dueFields _))
  stubs _ hs := hs
  lost _ hs := .inl hs

theorem Eases.methodGone (h : Eases l l') {o : String} {s : Signature}
    (hhere : l.methodGone owner o s = false) : l'.methodGone owner o s = false :=
  Bool.eq_false_iff.2 fun hgone => Bool.eq_false_iff.1 hhere ((h.behind owner).methods o s hgone)

theorem Eases.fieldGone (h : Eases l l') {o name : String}
    (hhere : l.fieldGone owner o name = false) : l'.fieldGone owner o name = false :=
  Bool.eq_false_iff.2 fun hgone => Bool.eq_false_iff.1 hhere ((h.behind owner).fields o name hgone)

theorem Eases.trans {t : Ledger} (h : Eases l t) (h' : Eases t l') : Eases l l' where
  tracker := h'.tracker.trans h.tracker
  dueMethods s hs := h.dueMethods s (h'.dueMethods s hs)
  dueFields key hkey := h.dueFields key (h'.dueFields key hkey)
  stubs s hs := h'.stubs s (h.stubs s hs)

/-- Members that were due expire between two passes. -/
theorem Eases.expire (h : Eases l l') : Eases l l'.expire where
  tracker := h.tracker
  dueMethods s hs := h.dueMethods s (GraceSet.contains_of_expire hs)
  dueFields key hkey := h.dueFields key (GraceSet.contains_of_expire hkey)
  stubs := h.stubs

end Ledger

namespace Prune

open Ledger (Eases)
open Walk (KeptMethod)

variable {policy : Policy} {self : String} {pool : ConstantPool} {bootstraps : List Bootstrap}
  {l l' : Ledger}

theorem bodyFate_eases (h : Eases l l') {constructs : Bool} {ss : List (Instruction × Site)}
    (hrests : bodyFate l self constructs ss = .keep []) :
    bodyFate l' self constructs ss = .keep [] := by
  have hle : (bodyFate l' self constructs ss).Le (bodyFate l self constructs ss) :=
    bodyFate_le (h.behind self) constructs ss
  rw [hrests] at hle
  generalize bodyFate l' self constructs ss = ft at hle
  cases hle with
  | keep hmore => rw [List.subset_nil.1 hmore]

/-! Fields. -/

theorem FieldRests.field_eq (h : Eases l l') {f : MemberEntry} {m : Member} {ms : List Marked}
    (hrests : FieldRests policy self pool l f m ms) :
    field policy self pool l' f = .ok (l', some f, false) := by
  unfold field
  simp only [hrests.resolved, hrests.read, bind, Except.bind, h.fieldGone hrests.here,
    hrests.wanted, Marked.stripAll_whole hrests.whole]
  rw [← (marks_ok_iff.1 hrests.read).1]
  rfl

theorem fields_still (h : Eases l l') {fs : List MemberEntry}
    (hrest : ∀ f ∈ fs, ∃ m ms, FieldRests policy self pool l f m ms) :
    fields policy self pool l' fs = .ok (l', fs, false) := by
  induction fs with
  | nil => rfl
  | cons f fs ih =>
    obtain ⟨m, ms, hf⟩ := hrest f (List.mem_cons_self ..)
    rw [fields, hf.field_eq h]
    simp only [bind, Except.bind, ih fun f hf => hrest f (List.mem_cons_of_mem _ hf)]
    rfl

/-! Methods. -/

/-- A method that comes out of a pass as it went in rests, and is known as a stub if it asks for
one. -/
theorem MethodStep.rests {entry : MemberEntry} {m : Member} {ms : List Marked} {ft : Fate}
    {k : KeptMethod} {p q : ConstantPool}
    (h : MethodStep policy self pool bootstraps l entry m ms ft)
    (hk : (afterFate policy self pool l entry m ms ft).2.1 = some k)
    (he : (Walk.installStub k).run p = .ok entry q) :
    MethodRests policy self pool bootstraps l entry m ms ∧
      (asksForStub policy m ms = true →
        (ft.ledger l self m).memory.stubbed.contains m.toSignature = true) := by
  cases ft with
  | delete => cases hk
  | stub =>
    cases hk
    have hwhole : ∀ e ∈ Marked.all ms, policy.strips e.2 = false := by
      obtain ⟨hcode, he, -⟩ | ⟨position, descriptor, payload, hcode, -, -, he⟩ := installStub_ok he
      · have hedited : entry =
            edited (codeOf pool (left policy entry ms)) id (left policy entry ms) := by
          rw [show codeOf _ _ = none from hcode]
          exact he
        exact (left_eq_of_edited h.read hedited).2
      · have hedited : entry = edited (codeOf pool (left policy entry ms)) (fun _ => payload)
            (left policy entry ms) := by
          rw [show codeOf _ _ = some position from hcode]
          exact he
        exact (left_eq_of_edited h.read hedited).2
    refine ⟨⟨h.resolved, h.read, h.fated.stays (by simp), hwhole, .inr (.inl h.fated.asks)⟩,
      fun _ => ?_⟩
    show (l.stubMethod m).memory.stubbed.contains m.toSignature = true
    simp [Ledger.contains_stubMethod]
  | keep patches =>
    cases hk
    have he : entry = edited (codeOf pool (left policy entry ms)) (Walk.applyPatches · patches)
        (left policy entry ms) := by
      obtain ⟨-, he, -⟩ | ⟨_, _, _, hcode, -⟩ := installStub_ok he
      · rw [← patched_eq]
        exact he
      · cases hcode
    obtain ⟨hleft, hwhole⟩ := left_eq_of_edited h.read he
    refine ⟨⟨h.resolved, h.read, h.fated.stays (by simp), hwhole, body_rests h hleft he⟩,
      fun hasks => ?_⟩
    -- Of the methods that ask for a stub, only those are kept that are stubs already.
    cases h.fated with
    | already _ hstubbed => exact hstubbed
    | bare _ _ hwhole _ => cases hasks.symm.trans hwhole
    | walked _ _ hwhole _ _ _ => cases hasks.symm.trans hwhole

theorem MethodRests.left_eq {entry : MemberEntry} {m : Member} {ms : List Marked}
    (h : MethodRests policy self pool bootstraps l entry m ms) : left policy entry ms = entry := by
  rw [left, Marked.stripAll_whole h.whole, ← (marks_ok_iff.1 h.read).1]

/-- What rests is kept where less is gone, if it is known as a stub when it is one. -/
theorem MethodRests.step (hl : Eases l l') {entry : MemberEntry} {m : Member} {ms : List Marked}
    (h : MethodRests policy self pool bootstraps l entry m ms)
    (hasks : asksForStub policy m ms = true → l'.memory.stubbed.contains m.toSignature = true) :
    MethodStep policy self pool bootstraps l' entry m ms (.keep []) where
  resolved := h.resolved
  read := h.read
  fated := by
    have hstays : Stays policy self l' m ms := ⟨hl.methodGone h.stays.here, h.stays.wanted⟩
    by_cases hstubbed : l'.memory.stubbed.contains m.toSignature = true
    · exact .already hstays hstubbed
    have hwhole : asksForStub policy m ms = false := Bool.eq_false_iff.2 fun h => hstubbed (hasks h)
    rw [Bool.not_eq_true] at hstubbed
    rw [h.left_eq]
    cases hcode : codeOf pool entry with
    | none => exact .bare hstays hstubbed hwhole rfl
    | some position =>
      obtain hknown | hwants | hbody := h.body
      · exact absurd (hl.stubs _ hknown) (Bool.eq_false_iff.1 hstubbed)
      · cases hwants.symm.trans hwhole
      · obtain ⟨a, ss, ha, hsites, hrests⟩ := hbody position hcode
        exact .walked hstays hstubbed hwhole ha hsites (bodyFate_eases hl hrests)

theorem MethodRests.method_eq (hl : Eases l l') {entry : MemberEntry} {m : Member}
    {ms : List Marked} (h : MethodRests policy self pool bootstraps l entry m ms)
    (hasks : asksForStub policy m ms = true → l'.memory.stubbed.contains m.toSignature = true) :
    method policy self pool bootstraps l' entry = .ok (l', some ⟨entry, none⟩, false) := by
  have hpatched : patched entry (codeOf pool entry) [] = entry := by
    rw [patched_eq]
    exact edited_id _ entry
  rw [(h.step hl hasks).method_eq]
  simp only [afterFate, h.left_eq, hpatched, Marked.stripAll_whole h.whole]
  simp

/-- What a walk leaves that drops nothing: perhaps it knows more stubs. -/
structure OnlyStubs (l l' : Ledger) : Prop where
  tracker : l'.tracker = l.tracker
  dueMethods : l'.memory.dueMethods = l.memory.dueMethods
  dueFields : l'.memory.dueFields = l.memory.dueFields
  stubs : StubbedStay l.memory.stubbed l'.memory.stubbed

theorem OnlyStubs.refl (l : Ledger) : OnlyStubs l l := ⟨rfl, rfl, rfl, fun _ h => h⟩

theorem OnlyStubs.trans {t : Ledger} (h : OnlyStubs l t) (h' : OnlyStubs t l') : OnlyStubs l l' where
  tracker := h'.tracker.trans h.tracker
  dueMethods := h'.dueMethods.trans h.dueMethods
  dueFields := h'.dueFields.trans h.dueFields
  stubs s hs := h'.stubs s (h.stubs s hs)

theorem OnlyStubs.stubMethod (l : Ledger) (m : Member) : OnlyStubs l (l.stubMethod m) where
  tracker := rfl
  dueMethods := rfl
  dueFields := rfl
  stubs s hs := by
    rw [Ledger.contains_stubMethod, hs, Bool.true_or]

theorem OnlyStubs.eases (h : OnlyStubs l l') : Eases l l' where
  tracker := h.tracker
  dueMethods _ hs := h.dueMethods ▸ hs
  dueFields _ hkey := h.dueFields ▸ hkey
  stubs := h.stubs

/-- Methods that come out of a walk as they went in come out so of a walk that finds less gone, and
knows the stubs that the first found. -/
theorem methods_still {t : Ledger} {entries : List MemberEntry} {ks : List KeptMethod}
    {changed : Bool} {p q : ConstantPool}
    (h : methods policy self pool bootstraps l entries = .ok (t, ks, changed))
    (hinstalled : (Walk.installStubs ks).run p = .ok entries q) :
    OnlyStubs l t ∧ ∀ l', Eases t l' → methods policy self pool bootstraps l' entries =
      .ok (l', entries.map fun entry => ⟨entry, none⟩, false) := by
  induction entries generalizing l ks changed p with
  | nil =>
    cases h
    exact ⟨.refl _, fun _ _ => rfl⟩
  | cons entry entries ih =>
    obtain ⟨r, ks', c, hstep, hrest, rfl, -⟩ := methods_cons_ok h
    obtain ⟨m, ms, ft, hm, rfl⟩ := method_ok hstep
    have hlength := length_installStubs hinstalled
    have hle := length_methods_le hrest
    cases hk : (afterFate policy self pool l entry m ms ft).2.1 with
    | none =>
      rw [hk, Option.toList_none, List.nil_append, List.length_cons] at hlength
      omega
    | some k =>
      rw [hk] at hinstalled
      obtain ⟨e, es, p', he, hes, heq⟩ := installStubs_cons_ok hinstalled
      obtain ⟨rfl, rfl⟩ := List.cons.inj heq
      obtain ⟨hrests, hasks⟩ := hm.rests hk he
      obtain ⟨hlater, hagain⟩ := ih hrest hes
      rw [afterFate_ledger] at hlater
      have hfirst : OnlyStubs l (ft.ledger l self m) := by
        cases ft with
        | delete => cases hk
        | stub => exact .stubMethod l m
        | keep _ => exact .refl l
      refine ⟨hfirst.trans hlater, fun l' heases => ?_⟩
      have hmethod := hrests.method_eq ((hfirst.trans hlater).eases.trans heases)
        fun h => heases.stubs _ (hlater.stubs _ (hasks h))
      exact methods_cons hmethod (hagain l' heases)

namespace Rewriting

variable {c : ClassFile}

/-- After a pass that left the class as it was another goes through, and leaves it so. -/
theorem again (r : Rewriting policy l c) (hc : c.Fits) (hone : OneMetadata c)
    (hsame : r.changed = false ∨ r.result.bytes = c.bytes) :
    OnlyStubs l r.last ∧ ∃ r' : Rewriting policy r.last.expire c,
      r'.result = c ∧ r'.last = r.last.expire := by
  obtain ⟨hfields, hmethods, hattributes, hpool⟩ := r.of_same hc.toFramed hsame
  obtain ⟨hlinks, hnew⟩ := r.attributes_rest hc hone hattributes
  obtain ⟨hlast, -, -, hmetadata⟩ | ⟨a, b, kind, d1, d2, payload, changes, -, hsome, -⟩ :=
    r.ofMetadata_cases
  swap
  · cases hnew.symm.trans hsome
  have hofFields := r.ofFields
  have hinstalled := r.installed
  rw [hfields] at hofFields
  rw [hmethods] at hinstalled
  obtain ⟨hafter, hrest⟩ := fields_rest hofFields
  obtain ⟨honly, hagain⟩ := methods_still r.ofMethods hinstalled
  rw [hafter] at honly
  rw [← hlast] at honly hagain
  have hexpired : Eases r.last r.last.expire := (OnlyStubs.refl _).eases.expire
  have heases : Eases l r.last.expire := honly.eases.trans hexpired
  rw [← hlast, hpool, honly.tracker] at hmetadata
  have hunlinked : unlinked r.last.expire c r.name r.links = unlinked l c r.name r.links := by
    unfold unlinked
    rw [heases.tracker]
  have hwhole : (unlinked r.last.expire c r.name r.links).attributes = c.attributes := by
    rw [hunlinked]
    exact (attributes_of_rest hlinks).trans r.marks_ok.1.symm
  refine ⟨honly, {
    name := r.name, header := r.header, marked := r.marked, links := r.links, fields := c.fields
    bootstraps := r.bootstraps, kept := c.methods.map fun entry => ⟨entry, none⟩
    methods := c.methods, new := [], attributes := c.attributes
    afterFields := r.last.expire, afterMethods := r.last.expire, last := r.last.expire
    stubbed := c.pool, pool := c.pool
    fieldsChanged := false, methodsChanged := false, replaced := false
    surveyed := r.surveyed, wanted := r.wanted, linked := r.linked
    undoomed := by rw [heases.tracker]; exact r.undoomed
    spared := fun p hp => by rw [heases.tracker]; exact r.spared p hp
    ofFields := fields_still heases hrest
    ofBootstraps := by rw [hunlinked]; exact r.ofBootstraps
    ofMethods := hagain _ hexpired
    installed := installStubs_none _ _
    ofMetadata := replacements_run fun a ha => by rw [heases.tracker]; exact hmetadata a ha
    ofAttributes := by rw [hwhole]; rfl }, rfl, rfl⟩

end Rewriting

end Prune

namespace Pass

open Prune (OneMetadata OnlyStubs Rewriting)

variable {policy : Policy} {entry : String} {bytes : List UInt8} {s s' : Session} {c : ClassFile}

/-- A pass that rewrites a class to itself reports no change. -/
theorem unchanged_of_rewriting (hc : ClassFile.ofBytes bytes = .ok c) (entry : String)
    (r : Rewriting policy s.ledger.expire c) (hresult : r.result = c) :
    ∃ s', (run policy entry bytes).run s = .ok .unchanged s' ∧ s'.ledger = r.last := by
  have hsame : c.bytes = bytes := (ClassFile.of_ofBytes hc).1.symm
  obtain ⟨s', hrun, hledger⟩ := outcome_of_rewriting hc entry r
  rw [hresult, hsame, bne_self_eq_false, Bool.and_false] at hrun
  exact ⟨s', hrun, hledger⟩

/-- A pass that leaves a class unchanged records nothing, and the next leaves it unchanged. -/
theorem unchanged_step (hc : ClassFile.ofBytes bytes = .ok c) (hone : OneMetadata c)
    (hrun : (run policy entry bytes).run s = .ok .unchanged s') :
    s'.tracker = s.tracker ∧ ∃ s'', (run policy entry bytes).run s' = .ok .unchanged s'' := by
  obtain ⟨⟨l, out⟩, hpass, hout, hledger⟩ := (pass_follows policy entry bytes s).of_ok hrun
  obtain ⟨c', hc', hpassed⟩ := Prune.pass_ok hpass
  obtain rfl := Except.ok.inj (hc.symm.trans hc')
  obtain rfl : PassOutcome.unchanged = out := hout
  obtain ⟨r, rfl, hsame⟩ := hpassed.of_unchanged
  obtain ⟨honly, hagain⟩ := r.again (ClassFile.of_ofBytes hc).2.1 hone hsame
  rw [← show s'.ledger = r.last from hledger] at hagain
  obtain ⟨r', hresult, -⟩ := hagain
  obtain ⟨s'', hrun', -⟩ := unchanged_of_rewriting hc entry r' hresult
  exact ⟨(congrArg Ledger.tracker hledger).trans honly.tracker, s'', hrun'⟩

/-- The session after a number of passes over the same bytes. -/
def sessionAfter (policy : Policy) (entry : String) (bytes : List UInt8) (s : Session) :
    Nat → Session
  | 0 => s
  | n + 1 =>
    match (run policy entry bytes).run (sessionAfter policy entry bytes s n) with
    | .ok _ s => s
    | .error _ s => s

/-- After a pass that leaves a class with at most one metadata annotation unchanged, any number of
further passes over it go through and leave it unchanged, and none records anything. -/
theorem unchanged_for_good (hc : ClassFile.ofBytes bytes = .ok c) (hone : OneMetadata c)
    (hrun : (run policy entry bytes).run s = .ok .unchanged s') (n : Nat) :
    (run policy entry bytes).run (sessionAfter policy entry bytes s' n) =
        .ok .unchanged (sessionAfter policy entry bytes s' (n + 1)) ∧
      (sessionAfter policy entry bytes s' n).tracker = s.tracker := by
  have hnext {n : Nat} {t : Session}
      (h : (run policy entry bytes).run (sessionAfter policy entry bytes s' n) =
        .ok .unchanged t) : sessionAfter policy entry bytes s' (n + 1) = t := by
    rw [sessionAfter, h]
  induction n with
  | zero =>
    obtain ⟨htracker, s'', hrun'⟩ := unchanged_step hc hone hrun
    exact ⟨(hnext (n := 0) hrun').symm ▸ hrun', htracker⟩
  | succ n ih =>
    obtain ⟨hrun, htracker⟩ := ih
    obtain ⟨hsame, s'', hrun'⟩ := unchanged_step hc hone hrun
    exact ⟨(hnext hrun').symm ▸ hrun', hsame.trans htracker⟩

/-- A class with a method that asks for a stub and is one. -/
def doneClass : ClassFile where
  minor := 0
  major := 52
  pool := ⟨#[.unusable, .ofText "A", .classInfo 1, .ofText "m", .ofText "()V",
    .ofText "RuntimeVisibleAnnotations", .ofText "LS;", .ofText "Code"]⟩
  access := 0
  thisClass := 2
  superClass := 0
  interfaces := []
  fields := []
  methods := [⟨8, 3, 4, [⟨5, AnnotationEntry.tableBytes [⟨6, []⟩]⟩,
    ⟨7, Body.bytes ⟨0, 0, [Opcode.ret]⟩⟩]⟩]
  attributes := []

/-- A method that the class does not have is due in it. -/
def awaiting : Session :=
  { memory := { dueMethods := (({} : GraceSet Member).insert
      { toSignature := ⟨"n$default", "(LA;ILjava/lang/Object;)V"⟩ }).2 } }

/-- Whether a pass left its class unchanged, and knows one stub. -/
def leftWithStub : EStateM.Result ClassFailure Session PassOutcome → Bool
  | .ok .unchanged s => s.memory.stubbed.items.length = 1
  | _ => false

/-- The first pass writes the stub that is there already, and before the next the due method
expires. -/
theorem unchanged_for_good_done : ∃ s',
    (run { stub := ["LS;"] } "A.class" doneClass.bytes).run awaiting = .ok .unchanged s' ∧
      s'.memory.stubbed.items.length = 1 ∧ ∀ n,
        (run { stub := ["LS;"] } "A.class" doneClass.bytes).run
            (sessionAfter { stub := ["LS;"] } "A.class" doneClass.bytes s' n) =
          .ok .unchanged
            (sessionAfter { stub := ["LS;"] } "A.class" doneClass.bytes s' (n + 1)) ∧
          (sessionAfter { stub := ["LS;"] } "A.class" doneClass.bytes s' n).tracker =
            awaiting.tracker := by
  have hleft : leftWithStub
      ((run { stub := ["LS;"] } "A.class" doneClass.bytes).run awaiting) = true := by
    decide +kernel
  unfold leftWithStub at hleft
  split at hleft
  · next s' hrun =>
    refine ⟨s', hrun, of_decide_eq_true hleft, fun n =>
      unchanged_for_good (c := doneClass) (by decide +kernel) (fun ms hms => ?_) hrun n⟩
    cases hms
    exact Nat.zero_le _
  · cases hleft

end Pass

end JarPruning
