import JarPruning.Proofs.Pass.Behind
import JarPruning.Proofs.Pass.Consistent
import JarPruning.Proofs.Pass.Lighter

/-!
Members that are due. They are remembered for one pass, and a member that is due already is not
remembered anew; so what one pass hands on is gone or due in the next, or was so from the start of the
first, which then left no such member.
-/
namespace JarPruning

open ConstantPool (Grows)

namespace Along

variable {σ α β : Type} {step : σ → α → β → σ → Prop} {R : σ → σ → Prop} {s t : σ} {as : List α}
  {bs : List β}

/-- What every step keeps the whole way keeps. -/
theorem keeps (hrefl : ∀ s, R s s) (htrans : ∀ {s t u}, R s t → R t u → R s u)
    (hstep : ∀ {s a b t}, step s a b t → R s t) (h : Along step s as bs t) : R s t := by
  induction h with
  | nil => exact hrefl _
  | cons hfirst _ ih => exact htrans (hstep hfirst) ih

/-- A step on the way, what is kept up to it and what from it on. -/
theorem step_at (hrefl : ∀ s, R s s) (htrans : ∀ {s t u}, R s t → R t u → R s u)
    (hstep : ∀ {s a b t}, step s a b t → R s t) (h : Along step s as bs t) {a : α} {b : β}
    (hab : (a, b) ∈ as.zip bs) : ∃ u v, R s u ∧ step u a b v ∧ R v t := by
  induction h with
  | nil => cases hab
  | cons hfirst hrest ih =>
    rw [List.zip_cons_cons, List.mem_cons] at hab
    obtain hab | hab := hab
    · cases hab
      exact ⟨_, _, hrefl _, hfirst, hrest.keeps hrefl htrans hstep⟩
    · obtain ⟨u, v, hu, huv, hv⟩ := ih hab
      exact ⟨u, v, htrans (hstep hfirst) hu, huv, hv⟩

/-- Every result is that of a step. -/
theorem mem_zip (h : Along step s as bs t) {b : β} (hb : b ∈ bs) :
    ∃ a ∈ as, (a, b) ∈ as.zip bs := by
  induction h with
  | nil => cases hb
  | cons _ _ ih =>
    rw [List.mem_cons] at hb
    obtain rfl | hb := hb
    · exact ⟨_, List.mem_cons_self .., List.mem_cons_self ..⟩
    · obtain ⟨a, ha, hab⟩ := ih hb
      exact ⟨a, List.mem_cons_of_mem _ ha, List.mem_cons_of_mem _ hab⟩

end Along

namespace Ledger

variable {owner : String} {l l' l'' : Ledger}

/-- From the first ledger to the second a pass over the class `owner` went on: as much is gone or due,
as many stubs are known, and what is due has its grace, unless it was due before. -/
structure Onward (owner : String) (l l' : Ledger) : Prop where
  methods : ∀ o s, l.methodGone owner o s = true → l'.methodGone owner o s = true
  fields : ∀ o name, l.fieldGone owner o name = true → l'.fieldGone owner o name = true
  stubs : Prune.StubbedStay l.memory.stubbed l'.memory.stubbed
  dueMethods : l.memory.dueMethods.Renews l'.memory.dueMethods
  dueFields : l.memory.dueFields.Renews l'.memory.dueFields

namespace Onward

theorem refl (l : Ledger) : Onward owner l l :=
  ⟨fun _ _ h => h, fun _ _ h => h, fun _ h => h, .refl _, .refl _⟩

theorem trans (h : Onward owner l l') (h' : Onward owner l' l'') : Onward owner l l'' where
  methods o s hgone := h'.methods o s (h.methods o s hgone)
  fields o name hgone := h'.fields o name (h.fields o name hgone)
  stubs s hs := h'.stubs s (h.stubs s hs)
  dueMethods := h.dueMethods.trans h'.dueMethods
  dueFields := h.dueFields.trans h'.dueFields

theorem dropField (l : Ledger) (f : Member) : Onward owner l (l.dropField owner f) where
  methods o s hgone := by rw [methodGone_dropField, hgone]
  fields o name hgone := by rw [fieldGone_dropField, hgone, Bool.true_or]
  stubs _ hs := hs
  dueMethods := .refl _
  dueFields := .remove _ _

theorem dropMethod (l : Ledger) (m : Member) : Onward owner l (l.dropMethod owner m) where
  methods o s hgone := by rw [methodGone_dropMethod, hgone, Bool.true_or]
  fields o name hgone := by rw [fieldGone_dropMethod, hgone]
  stubs _ hs := hs
  dueMethods := (GraceSet.Renews.remove _ _).trans (.insertAll _ _)
  dueFields := .refl _

theorem stubMethod (l : Ledger) (m : Member) : Onward owner l (l.stubMethod m) where
  methods _ _ hgone := hgone
  fields _ _ hgone := hgone
  stubs s hs := by rw [contains_stubMethod, hs, Bool.true_or]
  dueMethods := .refl _
  dueFields := .refl _

theorem fate (l : Ledger) (m : Member) (ft : Fate) : Onward owner l (ft.ledger l owner m) := by
  cases ft with
  | delete => exact dropMethod l m
  | stub => exact stubMethod l m
  | keep _ => exact refl l

theorem schedule (l : Ledger) (changes : Metadata.Changes) : Onward owner l (l.schedule changes) where
  methods o s hgone := by
    simp only [methodGone, Ledger.schedule, Bool.or_eq_true, Bool.and_eq_true,
      GraceSet.contains_insertAll] at hgone ⊢
    exact hgone.imp_right fun h => ⟨h.1, .inl h.2⟩
  fields o name hgone := by
    simp only [fieldGone, Ledger.schedule, Bool.or_eq_true, Bool.and_eq_true,
      GraceSet.contains_insertAll] at hgone ⊢
    exact hgone.imp_right fun h => ⟨h.1, .inl h.2⟩
  stubs _ hs := hs
  dueMethods := .insertAll _ _
  dueFields := .insertAll _ _

/-- A method of the class that is gone or due at the end of a pass is so at the start of the next, or
was at the start of the first. -/
theorem method_next (h : Onward owner l l') (hmemory : l''.memory = l'.memory.expire)
    (hgrown : l'.tracker.Le l''.tracker) {s : Signature} (hgone : l'.methodGone owner owner s = true) :
    l''.methodGone owner owner s = true ∨ l.methodGone owner owner s = true := by
  simp only [methodGone, beq_self_eq_true, Bool.true_and, Bool.or_eq_true, hmemory] at hgone ⊢
  obtain hgone | hdue := hgone
  · exact .inl (.inl (hgrown.methods _ _ hgone))
  · exact (h.dueMethods.contains hdue).imp .inr .inr

theorem field_next (h : Onward owner l l') (hmemory : l''.memory = l'.memory.expire)
    (hgrown : l'.tracker.Le l''.tracker) {name : String} (hgone : l'.fieldGone owner owner name = true) :
    l''.fieldGone owner owner name = true ∨ l.fieldGone owner owner name = true := by
  simp only [fieldGone, beq_self_eq_true, Bool.true_and, Bool.or_eq_true, hmemory] at hgone ⊢
  obtain hgone | hdue := hgone
  · exact .inl (.inl (hgrown.fields _ _ hgone))
  · exact (h.dueFields.contains hdue).imp .inr .inr

end Onward

theorem methodGone_schedule {l : Ledger} {changes : Metadata.Changes} {m : Member}
    (h : m ∈ changes.methods) : (l.schedule changes).methodGone owner owner m.toSignature = true := by
  have hdue : (l.memory.dueMethods.insertAll changes.methods).contains m.toSignature = true := by
    rw [GraceSet.contains_insertAll, Bool.or_eq_true]
    exact .inr (List.any_eq_true.2 ⟨m, h, decide_eq_true rfl⟩)
  simp [methodGone, Ledger.schedule, hdue]

/-- A field is due by its name if no extension tells it apart. -/
theorem fieldGone_schedule {l : Ledger} {changes : Metadata.Changes} {f : FieldTarget}
    (h : f ∈ changes.fields) (hplain : f.extension = "()") :
    (l.schedule changes).fieldGone owner owner f.name = true := by
  have hdue : (l.memory.dueFields.insertAll changes.fields).contains (⟨f.name, "()"⟩ : FieldKey) =
      true := by
    rw [GraceSet.contains_insertAll, Bool.or_eq_true]
    exact .inr (List.any_eq_true.2 ⟨f, h, decide_eq_true (by rw [← hplain]; rfl)⟩)
  simp [fieldGone, Ledger.schedule, hdue]

end Ledger

namespace Prune

open Ledger (Onward)

variable {policy : Policy} {owner : String} {pool q : ConstantPool} {bootstraps : List Bootstrap}
  {l l' l₁ : Ledger} {c c₁ c₂ : ClassFile}

theorem MethodMet.onward {entry : MemberEntry} {met : Fate × Option MemberEntry}
    (h : MethodMet policy owner pool bootstraps l entry met l') : Onward owner l l' := by
  cases h with
  | intro _ _ _ => exact .fate _ _ _

theorem FieldMet.onward {f : MemberEntry} {met : Option MemberEntry}
    (h : FieldMet policy owner pool l f met l') : Onward owner l l' := by
  cases h with
  | dropped _ _ => exact .dropField _ _
  | kept _ _ _ => exact .refl _

/-- A method that is kept has the name and the descriptor that it had. -/
theorem Becomes.header {entry e : MemberEntry} {m : Member} {ft : Fate}
    (h : Becomes policy pool entry m ft (some e)) : SameHeader entry e := by
  have hsame (code : Option Nat) (edit : List UInt8 → List UInt8) (ms : List Marked) :
      SameHeader entry (edited code edit (left policy entry ms)) := by
    obtain ⟨haccess, hname, hdescriptor⟩ := edited_header code edit (left policy entry ms)
    exact ⟨haccess, hname, hdescriptor⟩
  cases h with
  | kept _ => exact hsame _ _ _
  | stubbed _ _ => exact hsame _ _ _

namespace Rewriting

theorem onward_fields (r : Rewriting policy l c) : Onward r.name l r.afterFields := by
  obtain ⟨fields, -, hfields, -⟩ := r.met
  exact hfields.keeps (R := Onward r.name) .refl .trans FieldMet.onward

theorem onward_last (r : Rewriting policy l c) : Onward r.name r.afterMethods r.last := by
  obtain ⟨hlast, -⟩ | ⟨a, b, kind, d1, d2, payload, changes, -, -, hlast, -⟩ := r.ofMetadata_cases
  · rw [hlast]
    exact .refl _
  · rw [hlast]
    exact .schedule _ _

theorem onward (r : Rewriting policy l c) : Onward r.name l r.last := by
  obtain ⟨-, methods, -, hmethods, -⟩ := r.met
  have hwalk : Onward r.name r.afterFields r.afterMethods :=
    hmethods.keeps (R := Onward r.name) .refl .trans MethodMet.onward
  exact r.onward_fields.trans (hwalk.trans r.onward_last)

/-- What is read of the class that a pass left, changed or not. -/
structure Leaves (r : Rewriting policy l c) (c' : ClassFile) : Prop where
  fields : c'.fields = r.fields
  methods : c'.methods = r.methods
  pool : Grows c.pool c'.pool
  named : c'.name = .ok r.name

namespace Leaves

variable {r : Rewriting policy l c}

/-- A method of the class that a pass left was there before and is not gone. -/
theorem hasMethod (h : r.Leaves c₁) {s : Signature} (hs : c₁.HasMethod s) :
    c.HasMethod s ∧ l.methodGone r.name r.name s = false := by
  obtain ⟨e, he, m, hm, rfl⟩ := hs
  obtain ⟨-, methods, -, hmet, -, -, hmethods⟩ := r.met
  rw [h.methods, hmethods, List.mem_filterMap] at he
  obtain ⟨⟨ft, e?⟩, hmem, rfl⟩ := he
  obtain ⟨entry, hentry, hzip⟩ := hmet.mem_zip hmem
  obtain ⟨u, v, hu, hstep, -⟩ := hmet.step_at Onward.refl Onward.trans MethodMet.onward hzip
  obtain @⟨n, _, _, hresolved, hdecided, hbecomes⟩ := hstep
  have hheader := hbecomes.header
  have hsame := resolve_grow h.pool hheader.access hheader.name hheader.descriptor hresolved
  obtain rfl : n = m := Except.ok.inj (hsame.symm.trans hm)
  refine ⟨⟨entry, hentry, n, hresolved, rfl⟩, Bool.eq_false_iff.2 fun hgone => ?_⟩
  obtain rfl := hdecided.delete.2 (.inl (hu.methods _ _ (r.onward_fields.methods _ _ hgone)))
  cases hbecomes

theorem hasField (h : r.Leaves c₁) {name : String} (hname : c₁.HasField name) :
    c.HasField name ∧ l.fieldGone r.name r.name name = false := by
  obtain ⟨f, hf, m, hm, rfl⟩ := hname
  obtain ⟨fields, -, hmet, -, -, hfields, -⟩ := r.met
  rw [h.fields, hfields] at hf
  obtain ⟨_, hmem, rfl⟩ := List.mem_filterMap.1 hf
  obtain ⟨f₀, hf₀, hzip⟩ := hmet.mem_zip hmem
  obtain ⟨u, v, hu, hstep, -⟩ := hmet.step_at Onward.refl Onward.trans FieldMet.onward hzip
  obtain _ | @⟨n, ms, hresolved, -, hstays⟩ := hstep
  have hsame : (left policy f₀ ms).resolve c₁.pool = .ok n :=
    resolve_grow h.pool rfl rfl rfl hresolved
  obtain rfl : n = m := Except.ok.inj (hsame.symm.trans hm)
  exact ⟨⟨f₀, hf₀, n, hresolved, rfl⟩,
    Bool.eq_false_iff.2 fun hgone => hstays (.inl (hu.fields _ _ hgone))⟩

variable {policy₁ : Policy} {r₁ : Rewriting policy₁ l₁ c₁}

theorem name_eq (h : r.Leaves c₁) : r₁.name = r.name :=
  Except.ok.inj (r₁.surveyed.named.symm.trans h.named)

/-- A method that is gone or due after one pass is no method of the class after the next. -/
theorem not_hasMethod (h : r.Leaves c₁) (h₁ : r₁.Leaves c₂)
    (hmemory : l₁.memory = r.last.memory.expire) (hgrown : r.last.tracker.Le l₁.tracker)
    {s : Signature} (hgone : r.last.methodGone r.name r.name s = true) : ¬ c₂.HasMethod s := by
  intro hs
  obtain ⟨hs, hhere₁⟩ := h₁.hasMethod hs
  obtain ⟨-, hhere⟩ := h.hasMethod hs
  rw [h.name_eq] at hhere₁
  obtain hgone | hgone := r.onward.method_next hmemory hgrown hgone
  · cases hhere₁.symm.trans hgone
  · cases hhere.symm.trans hgone

theorem not_hasField (h : r.Leaves c₁) (h₁ : r₁.Leaves c₂)
    (hmemory : l₁.memory = r.last.memory.expire) (hgrown : r.last.tracker.Le l₁.tracker)
    {name : String} (hgone : r.last.fieldGone r.name r.name name = true) : ¬ c₂.HasField name := by
  intro hname
  obtain ⟨hname, hhere₁⟩ := h₁.hasField hname
  obtain ⟨-, hhere⟩ := h.hasField hname
  rw [h.name_eq] at hhere₁
  obtain hgone | hgone := r.onward.field_next hmemory hgrown hgone
  · cases hhere₁.symm.trans hgone
  · cases hhere.symm.trans hgone

end Leaves

end Rewriting

end Prune

/-- The bytes of a class after a pass over `bytes`. -/
def PassOutcome.left (bytes : List UInt8) : PassOutcome → List UInt8
  | .modified written => written
  | .unchanged | .unwanted => bytes

namespace Pass

open Prune (Rewriting)

variable {policy : Policy} {entry : String} {bytes : List UInt8} {s s' : Session}
  {out : PassOutcome} {c c' : ClassFile}

/-- What a pass went over could be read. -/
theorem reads_of_run (hrun : (run policy entry bytes).run s = .ok out s') :
    ∃ c, ClassFile.ofBytes bytes = .ok c := by
  obtain ⟨b, hpass, -⟩ := (pass_follows policy entry bytes s).of_ok hrun
  obtain ⟨c, hc, -⟩ := Prune.pass_ok hpass
  exact ⟨c, hc⟩

theorem leaves_of_run (hc : ClassFile.ofBytes bytes = .ok c)
    (hrun : (run policy entry bytes).run s = .ok out s') (hkept : out ≠ .unwanted) :
    ∃ r : Rewriting policy s.ledger.expire c, r.last = s'.ledger ∧
      ∀ c', ClassFile.ofBytes (out.left bytes) = .ok c' → r.Leaves c' := by
  obtain ⟨b, hpass, rfl, hledger⟩ := (pass_follows policy entry bytes s).of_ok hrun
  obtain ⟨c', hc', hpassed⟩ := Prune.pass_ok hpass
  obtain rfl := Except.ok.inj (hc.symm.trans hc')
  have hfits := (ClassFile.of_ofBytes hc).2.1.toFramed
  cases hpassed with
  | discarded _ _ => exact absurd rfl hkept
  | modified r _ =>
    refine ⟨r, hledger.symm, fun c'' hc'' => ?_⟩
    rw [r.reread hfits hc'']
    exact ⟨rfl, rfl, r.pool_grows hfits, r.result_name hfits⟩
  | unchanged r hsame =>
    obtain ⟨hfields, hmethods, -⟩ := r.of_same hfits hsame
    refine ⟨r, hledger.symm, fun c'' hc'' => ?_⟩
    obtain rfl := Except.ok.inj (hc.symm.trans hc'')
    exact ⟨hfields.symm, hmethods.symm, .refl _, r.surveyed.named⟩

end Pass

end JarPruning
