import JarPruning.Proofs.Member.Tracker
import JarPruning.Proofs.Pass.Annotated
import JarPruning.Proofs.Pass.Passes

/-!
What passes write down. The tracker only grows, and a method is remembered as stubbed only if one of
its annotations asks for a stub.
-/
namespace JarPruning.Prune

open Walk (KeptMethod Outcome)

variable {policy : Policy} {self : String} {pool : ConstantPool} {bootstraps : List Bootstrap}
  {l l' : Ledger}

theorem fields_ledger {fs fs' : List MemberEntry} {changed : Bool}
    (h : fields policy self pool l fs = .ok (l', fs', changed)) :
    l.tracker.Le l'.tracker ∧ l'.memory.stubbed = l.memory.stubbed := by
  induction fs generalizing l fs' changed with
  | nil =>
    cases h
    exact ⟨.refl _, rfl⟩
  | cons f fs ih =>
    obtain ⟨r, fs₁, c, hstep, hfs, -, -⟩ := fields_cons_ok h
    obtain ⟨hle, hstubbed⟩ := ih hfs
    cases hstep with
    | drop _ _ _ => exact ⟨(Tracker.le_addField ..).trans hle, hstubbed⟩
    | keep _ _ _ _ => exact ⟨hle, hstubbed⟩

theorem fields_classes {fs fs' : List MemberEntry} {changed : Bool}
    (h : fields policy self pool l fs = .ok (l', fs', changed)) :
    l'.tracker.classes = l.tracker.classes := by
  induction fs generalizing l fs' changed with
  | nil =>
    cases h
    rfl
  | cons f fs ih =>
    obtain ⟨r, fs₁, c, hstep, hfs, -, -⟩ := fields_cons_ok h
    cases hstep with
    | drop _ _ _ => exact (ih hfs).trans (Tracker.classes_addField ..)
    | keep _ _ _ _ => exact ih hfs

/-- A method that asks for a stub. -/
def Asks (policy : Policy) (pool : ConstantPool) (entry : MemberEntry) (m : Member) : Prop :=
  entry.resolve pool = .ok m ∧ m.isConstructor = false ∧
    ∃ e d, Annotated pool entry.attributes e d ∧ policy.stubs d = true

theorem asksForStub_iff {entry : MemberEntry} {m : Member} {ms : List Marked}
    (hm : entry.resolve pool = .ok m) (hms : marks pool entry.attributes = .ok ms) :
    asksForStub policy m ms = true ↔ Asks policy pool entry m := by
  unfold asksForStub Asks
  rw [Bool.and_eq_true, Bool.not_eq_true', Marked.anyOf_iff hms]
  exact ⟨fun h => ⟨hm, h⟩, fun h => h.2⟩

theorem methods_ledger {entries : List MemberEntry} {ks : List KeptMethod} {changed : Bool}
    (h : methods policy self pool bootstraps l entries = .ok (l', ks, changed)) :
    l.tracker.Le l'.tracker ∧ ∀ key : Signature, l'.memory.stubbed.contains key = true →
      l.memory.stubbed.contains key = true ∨
        ∃ entry ∈ entries, ∃ m, Asks policy pool entry m ∧ m.toSignature = key := by
  induction entries generalizing l ks changed with
  | nil =>
    cases h
    exact ⟨.refl _, fun _ hkey => .inl hkey⟩
  | cons entry entries ih =>
    obtain ⟨r, ks', c, hstep, hrest, -, -⟩ := methods_cons_ok h
    obtain ⟨m, ms, ft, hm, rfl⟩ := method_ok hstep
    obtain ⟨hle, hstubbed⟩ := ih hrest
    have hlater {key : Signature} (hkey : l'.memory.stubbed.contains key = true) :
        (afterFate policy self pool l entry m ms ft).1.memory.stubbed.contains key = true ∨
          ∃ e ∈ entry :: entries, ∃ m, Asks policy pool e m ∧ m.toSignature = key := by
      obtain hkey | ⟨e, he, hasks⟩ := hstubbed key hkey
      · exact .inl hkey
      · exact .inr ⟨e, List.mem_cons_of_mem _ he, hasks⟩
    cases ft with
    | delete => exact ⟨(Tracker.le_addMethod ..).trans hle, fun key hkey => hlater hkey⟩
    | keep patches => exact ⟨hle, fun key hkey => hlater hkey⟩
    | stub =>
      refine ⟨hle, fun key hkey => ?_⟩
      obtain hkey | hasks := hlater hkey
      · have hinsert : (l.stubMethod m).memory.stubbed.contains key =
            (l.memory.stubbed.contains key || decide (m.toSignature = key)) :=
          GraceSet.contains_insert l.memory.stubbed m key
        change (l.stubMethod m).memory.stubbed.contains key = true at hkey
        rw [hinsert, Bool.or_eq_true, decide_eq_true_eq] at hkey
        obtain hkey | rfl := hkey
        · exact .inl hkey
        · exact .inr ⟨entry, List.mem_cons_self .., m,
            (asksForStub_iff hm.resolved hm.read).1 hm.fated.asks, rfl⟩
      · exact .inr hasks

theorem methods_classes {entries : List MemberEntry} {ks : List KeptMethod} {changed : Bool}
    (h : methods policy self pool bootstraps l entries = .ok (l', ks, changed)) :
    l'.tracker.classes = l.tracker.classes := by
  induction entries generalizing l ks changed with
  | nil =>
    cases h
    rfl
  | cons entry entries ih =>
    obtain ⟨r, ks', c, hstep, hrest, -, -⟩ := methods_cons_ok h
    obtain ⟨m, ms, ft, -, rfl⟩ := method_ok hstep
    cases ft with
    | delete => exact (ih hrest).trans (Tracker.classes_addMethod ..)
    | stub => exact (ih hrest).trans rfl
    | keep _ => exact (ih hrest).trans rfl

namespace Rewriting

variable {c : ClassFile}

theorem last_ledger (r : Rewriting policy l c) :
    r.last.tracker = r.afterMethods.tracker ∧
      r.last.memory.stubbed = r.afterMethods.memory.stubbed := by
  obtain ⟨hlast, -⟩ | ⟨a, b, kind, d1, d2, payload, changes, -, -, hlast, -⟩ :=
    r.ofMetadata_cases
  · rw [hlast]
    exact ⟨rfl, rfl⟩
  · rw [hlast]
    exact ⟨rfl, rfl⟩

theorem tracker_le (r : Rewriting policy l c) : l.tracker.Le r.last.tracker := by
  rw [r.last_ledger.1]
  exact (fields_ledger r.ofFields).1.trans (methods_ledger r.ofMethods).1

/-- A pass over a class that is kept deletes no class. -/
theorem classes_last (r : Rewriting policy l c) : r.last.tracker.classes = l.tracker.classes := by
  rw [r.last_ledger.1]
  exact (methods_classes r.ofMethods).trans (fields_classes r.ofFields)

theorem here (r : Rewriting policy l c) : r.last.tracker.containsClass r.name = false := by
  have hdoomed := r.undoomed
  have hname : r.header.name = r.name := by
    obtain ⟨superName, -, hheader⟩ := bind_ok_iff.1 r.surveyed.header
    obtain ⟨interfaces, -, hheader⟩ := bind_ok_iff.1 hheader
    obtain ⟨name, hname, hheader⟩ := bind_ok_iff.1 hheader
    exact (congrArg ClassHeader.name (Except.ok.inj hheader)).symm.trans
      (Except.ok.inj (hname.symm.trans r.surveyed.named))
  rw [headerDoomed, hname, Bool.or_eq_false_iff] at hdoomed
  rw [Tracker.containsClass, r.classes_last]
  exact hdoomed.1

theorem stubbed_asks (r : Rewriting policy l c) {key : Signature}
    (h : r.last.memory.stubbed.contains key = true) :
    l.memory.stubbed.contains key = true ∨
      ∃ entry ∈ c.methods, ∃ m, Asks policy c.pool entry m ∧ m.toSignature = key := by
  rw [r.last_ledger.2] at h
  have hmethods := (methods_ledger r.ofMethods).2 key h
  rwa [(fields_ledger r.ofFields).2] at hmethods

end Rewriting

/-- What a pass over the bytes of a class is. -/
inductive Passed (policy : Policy) (l : Ledger) (c : ClassFile) : Ledger × PassOutcome → Prop
  | discarded {name : String} (named : c.name = .ok name) (discards : Discards policy l.expire c) :
    Passed policy l c ({ l.expire with tracker := (l.tracker.addClass name).2 }, .unwanted)
  | modified (r : Rewriting policy l.expire c) (news : r.changed = true) :
    Passed policy l c (r.last, .modified r.result.bytes)
  | unchanged (r : Rewriting policy l.expire c)
    (same : r.changed = false ∨ r.result.bytes = c.bytes) :
    Passed policy l c (r.last, .unchanged)

theorem pass_ok {entry : String} {bytes : List UInt8} {b : Ledger × PassOutcome}
    (h : pass policy entry bytes l = .ok b) :
    ∃ c, ClassFile.ofBytes bytes = .ok c ∧ Passed policy l c b := by
  unfold pass at h
  obtain ⟨c, hc, h⟩ := bind_ok_iff.1 h
  replace hc := mapError_ok_iff.1 hc
  obtain ⟨name, hname, h⟩ := bind_ok_iff.1 h
  obtain ⟨⟨l₁, out⟩, hrun, h⟩ := bind_ok_iff.1 h
  refine ⟨c, hc, ?_⟩
  obtain ⟨hdiscards, rfl, rfl⟩ | ⟨r, rfl, rfl⟩ := run_ok hrun
  · cases h
    exact .discarded (mapError_ok_iff.1 hname) hdiscards
  · simp only [pure, Except.pure, Except.ok.injEq] at h
    rw [(ClassFile.of_ofBytes hc).1] at h
    split at h
    · next hnews =>
      cases h
      exact .modified r (Bool.and_eq_true_iff.1 hnews).1
    · next hsame =>
      cases h
      refine .unchanged r ?_
      simp only [Bool.and_eq_true, bne_iff_ne, not_and, Decidable.not_not] at hsame
      cases hchanged : r.changed with
      | false => exact .inl rfl
      | true => exact .inr (hsame hchanged)

theorem Passed.of_unchanged {c : ClassFile} (h : Passed policy l c (l', .unchanged)) :
    ∃ r : Rewriting policy l.expire c, l' = r.last ∧
      (r.changed = false ∨ r.result.bytes = c.bytes) := by
  generalize hb : (l', PassOutcome.unchanged) = b at h
  obtain ⟨hl, hout⟩ := Prod.mk.inj hb.symm
  cases h with
  | discarded _ _ => cases hout
  | modified _ _ => cases hout
  | unchanged r hsame => exact ⟨r, hl.symm, hsame⟩

theorem Passed.tracker_le {c : ClassFile} {b : Ledger × PassOutcome} (h : Passed policy l c b) :
    l.tracker.Le b.1.tracker := by
  cases h with
  | discarded _ _ => exact Tracker.le_addClass ..
  | modified r _ => exact r.tracker_le
  | unchanged r _ => exact r.tracker_le

end JarPruning.Prune
