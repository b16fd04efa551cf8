import JarPruning.Proofs.Pass.Fates

/-!
Two walks over the members of a class, of which the second finds more gone. A member that goes leaves
the set in which it was due, so the second walk may hold fewer that are due. What is ordered is all that
is gone or due together.
-/
namespace JarPruning

/-- The second fate takes at least as much from a method. -/
inductive Fate.Le : Fate → Fate → Prop
  | delete (ft : Fate) : Le ft .delete
  | stub : Le .stub .stub
  | keep {ps ps' : List Walk.Patch} (more : ps ⊆ ps') : Le (.keep ps) (.keep ps')

namespace Ledger

variable {owner : String} {l l' : Ledger}

theorem methodGone_dropField (l : Ledger) (owner o : String) (f : Member) (s : Signature) :
    (l.dropField owner f).methodGone owner o s = l.methodGone owner o s := by
  simp [methodGone, dropField]

theorem fieldGone_dropMethod (l : Ledger) (owner o name : String) (m : Member) :
    (l.dropMethod owner m).fieldGone owner o name = l.fieldGone owner o name := by
  simp [fieldGone, dropMethod]

/-- A field that is dropped was perhaps due; it is gone now. -/
theorem fieldGone_dropField (l : Ledger) (owner o name : String) (f : Member) :
    (l.dropField owner f).fieldGone owner o name =
      (l.fieldGone owner o name || (o == owner && name == f.name)) := by
  have hkey : ((⟨name, "()"⟩ : FieldKey) == ⟨f.name, "()"⟩) = (name == f.name) := by
    rw [Bool.eq_iff_iff]
    simp
  simp only [fieldGone, dropField, FieldTarget.key, Tracker.containsField_addField,
    GraceSet.contains_remove, hkey]
  by_cases howner : o = owner
  · by_cases hname : name = f.name
    · simp [howner, hname]
    · simp [howner, hname, Bool.or_comm, Bool.or_left_comm]
  · simp [beq_false_of_ne howner]

theorem methodGone_dropMethod (l : Ledger) (owner o : String) (m : Member) (s : Signature) :
    (l.dropMethod owner m).methodGone owner o s =
      (l.methodGone owner o s || (o == owner && (s == m.toSignature ||
        (companions owner m).any fun n => n.toSignature = s))) := by
  have hdue : ((l.memory.dueMethods.remove m.toSignature).2.insertAll (companions owner m)).contains s =
      ((l.memory.dueMethods.contains s && decide (s ≠ m.toSignature)) ||
        (companions owner m).any fun n => n.toSignature = s) := by
    rw [GraceSet.contains_insertAll, GraceSet.contains_remove]
    rfl
  simp only [methodGone, dropMethod, Tracker.containsMethod_addMethod, hdue]
  by_cases howner : o = owner
  · by_cases hs : s = m.toSignature
    · simp [howner, hs]
    · simp [howner, hs, Bool.or_assoc, Bool.or_left_comm]
  · simp [beq_false_of_ne howner]

theorem stubbed_dropField (l : Ledger) (owner : String) (f : Member) :
    (l.dropField owner f).memory.stubbed = l.memory.stubbed := rfl

theorem stubbed_dropMethod (l : Ledger) (owner : String) (m : Member) :
    (l.dropMethod owner m).memory.stubbed = l.memory.stubbed := rfl

theorem contains_stubMethod (l : Ledger) (m : Member) (s : Signature) :
    (l.stubMethod m).memory.stubbed.contains s =
      (l.memory.stubbed.contains s || decide (m.toSignature = s)) :=
  GraceSet.contains_insert l.memory.stubbed m s

theorem stubbed_stubMethod (l : Ledger) (m : Member) :
    (l.stubMethod m).memory.stubbed.contains m.toSignature = true := by
  simp [contains_stubMethod]

/-- What is gone or due in the class `owner` by the first ledger is so by the second, and both know the
same stubs, but that the second may have deleted one. -/
structure Behind (owner : String) (l l' : Ledger) : Prop where
  tracker : l.tracker.Le l'.tracker
  methods : ∀ o s, l.methodGone owner o s = true → l'.methodGone owner o s = true
  fields : ∀ o name, l.fieldGone owner o name = true → l'.fieldGone owner o name = true
  stubs : ∀ s : Signature, l'.memory.stubbed.contains s = true → l.memory.stubbed.contains s = true
  lost : ∀ s : Signature, l.memory.stubbed.contains s = true →
    l'.memory.stubbed.contains s = true ∨ l'.methodGone owner owner s = true

/-- With the same memory, the tracker decides. -/
theorem Behind.of_tracker (hmemory : l'.memory = l.memory) (hle : l.tracker.Le l'.tracker) :
    Behind owner l l' where
  tracker := hle
  methods o s h := by
    simp only [methodGone, Bool.or_eq_true, hmemory] at h ⊢
    exact h.imp_left (hle.methods o s)
  fields o name h := by
    simp only [fieldGone, Bool.or_eq_true, hmemory] at h ⊢
    exact h.imp_left (hle.fields o _)
  stubs s h := by rwa [hmemory] at h
  lost s h := .inl (by rwa [hmemory])

namespace Behind

/-- A field that the second walk drops by itself. -/
theorem dropField_right (h : Behind owner l l') (f : Member) : Behind owner l (l'.dropField owner f) where
  tracker := h.tracker.trans (Tracker.le_addField ..)
  methods o s hs := by
    rw [methodGone_dropField]
    exact h.methods o s hs
  fields o name hname := by
    rw [fieldGone_dropField, h.fields o name hname, Bool.true_or]
  stubs s hs := h.stubs s (by rwa [stubbed_dropField] at hs)
  lost s hs := by
    rw [stubbed_dropField, methodGone_dropField]
    exact h.lost s hs

theorem dropField (h : Behind owner l l') (f : Member) :
    Behind owner (l.dropField owner f) (l'.dropField owner f) where
  tracker := h.tracker.addField owner { name := f.name, descriptor := f.descriptor }
  methods o s hs := by
    rw [methodGone_dropField] at hs ⊢
    exact h.methods o s hs
  fields o name hname := by
    rw [fieldGone_dropField, Bool.or_eq_true] at hname ⊢
    exact hname.imp_left (h.fields o name)
  stubs s hs := by
    rw [stubbed_dropField] at hs ⊢
    exact h.stubs s hs
  lost s hs := by
    rw [stubbed_dropField] at hs ⊢
    rw [methodGone_dropField]
    exact h.lost s hs

/-- A method that the second walk deletes by itself. -/
theorem dropMethod_right (h : Behind owner l l') (m : Member) :
    Behind owner l (l'.dropMethod owner m) where
  tracker := h.tracker.trans (Tracker.le_addMethod ..)
  methods o s hs := by rw [methodGone_dropMethod, h.methods o s hs, Bool.true_or]
  fields o name hname := by
    rw [fieldGone_dropMethod]
    exact h.fields o name hname
  stubs s hs := h.stubs s (by rwa [stubbed_dropMethod] at hs)
  lost s hs := by
    rw [stubbed_dropMethod, methodGone_dropMethod]
    exact (h.lost s hs).imp_right fun hgone => by rw [hgone, Bool.true_or]

theorem dropMethod (h : Behind owner l l') (m : Member) :
    Behind owner (l.dropMethod owner m) (l'.dropMethod owner m) where
  tracker := h.tracker.addMethod owner m.toSignature
  methods o s hs := by
    rw [methodGone_dropMethod, Bool.or_eq_true] at hs ⊢
    exact hs.imp_left (h.methods o s)
  fields o name hname := by
    rw [fieldGone_dropMethod] at hname ⊢
    exact h.fields o name hname
  stubs s hs := by
    rw [stubbed_dropMethod] at hs ⊢
    exact h.stubs s hs
  lost s hs := by
    rw [stubbed_dropMethod] at hs ⊢
    rw [methodGone_dropMethod]
    exact (h.lost s hs).imp_right fun hgone => by rw [hgone, Bool.true_or]

theorem stubMethod (h : Behind owner l l') (m : Member) :
    Behind owner (l.stubMethod m) (l'.stubMethod m) where
  tracker := h.tracker
  methods := h.methods
  fields := h.fields
  stubs s hs := by
    rw [contains_stubMethod, Bool.or_eq_true] at hs ⊢
    exact hs.imp_left (h.stubs s)
  lost s hs := by
    rw [contains_stubMethod, Bool.or_eq_true] at hs ⊢
    exact hs.elim (fun hs => (h.lost s hs).imp_left .inl) fun hs => .inl (.inr hs)

/-- A stub that the second walk deletes. -/
theorem stub_drop (h : Behind owner l l') (m : Member) :
    Behind owner (l.stubMethod m) (l'.dropMethod owner m) where
  tracker := (h.dropMethod_right m).tracker
  methods := (h.dropMethod_right m).methods
  fields := (h.dropMethod_right m).fields
  stubs s hs := by
    rw [stubbed_dropMethod] at hs
    rw [contains_stubMethod, Bool.or_eq_true]
    exact .inl (h.stubs s hs)
  lost s hs := by
    rw [contains_stubMethod, Bool.or_eq_true, decide_eq_true_eq] at hs
    obtain hs | rfl := hs
    · exact (h.dropMethod_right m).lost s hs
    · exact .inr (by simp [methodGone_dropMethod])

/-- What two fates leave behind. -/
theorem fate (h : Behind owner l l') {ft ft' : Fate} (hle : ft.Le ft') (m : Member) :
    Behind owner (ft.ledger l owner m) (ft'.ledger l' owner m) := by
  cases hle with
  | delete =>
    cases ft with
    | delete => exact h.dropMethod m
    | stub => exact h.stub_drop m
    | keep _ => exact h.dropMethod_right m
  | stub => exact h.stubMethod m
  | keep _ => exact h

theorem handleGone (h : Behind owner l l') {handle : HandleRef} (hgone : l.handleGone owner handle = true) :
    l'.handleGone owner handle = true := by
  unfold Ledger.handleGone at hgone ⊢
  split at hgone
  · next hfield =>
    rw [if_pos hfield]
    exact h.fields _ _ hgone
  · next hmethod =>
    rw [if_neg hmethod]
    exact h.methods _ _ hgone

theorem isFatal (h : Behind owner l l') {constructs : Bool} {site : Site}
    (hfatal : site.isFatal l owner constructs = true) : site.isFatal l' owner constructs = true := by
  cases site with
  | access op t =>
    simp only [Site.isFatal, Bool.and_eq_true] at hfatal ⊢
    exact hfatal.imp_right (h.fields _ _)
  | invoke t => exact h.methods _ _ hfatal
  | bind hs =>
    obtain ⟨handle, hmem, hgone⟩ := List.any_eq_true.1 hfatal
    exact List.any_eq_true.2 ⟨handle, hmem, h.handleGone hgone⟩
  | plain => exact hfatal

end Behind

end Ledger

namespace Prune

open Ledger (Behind)

variable {policy : Policy} {owner : String} {pool : ConstantPool} {bootstraps : List Bootstrap}
  {l l' : Ledger}

theorem bodyFate_le (h : Behind owner l l') (constructs : Bool) (ss : List (Instruction × Site)) :
    (bodyFate l owner constructs ss).Le (bodyFate l' owner constructs ss) := by
  cases hft' : bodyFate l' owner constructs ss with
  | delete => exact .delete _
  | stub => exact absurd hft' (bodyFate_ne_stub _ _ _ _)
  | keep ps' =>
    cases hft : bodyFate l owner constructs ss with
    | delete =>
      obtain ⟨i, site, hmem, hfatal⟩ := bodyFate_eq_delete_iff.1 hft
      have hdelete : bodyFate l' owner constructs ss = .delete :=
        bodyFate_eq_delete_iff.2 ⟨i, site, hmem, h.isFatal hfatal⟩
      rw [hdelete] at hft'
      cases hft'
    | stub => exact absurd hft (bodyFate_ne_stub _ _ _ _)
    | keep ps =>
      refine .keep fun p hp => ?_
      obtain ⟨i, op, t, hmem, hgone, hoffset, hbytes⟩ := (mem_of_bodyFate hft).1 hp
      exact (mem_of_bodyFate hft').2 ⟨i, op, t, hmem, h.fields _ _ hgone, hoffset, hbytes⟩

/-- A method meets a fate that takes no less of it where more is gone. -/
theorem Fated.le (h : Behind owner l l') {m : Member} {ms : List Marked} {code : Option Attribute}
    {ft ft' : Fate} (hft : Fated policy owner pool bootstraps l m ms code ft)
    (hft' : Fated policy owner pool bootstraps l' m ms code ft') : ft.Le ft' := by
  by_cases hdelete : ft' = .delete
  · rw [hdelete]
    exact .delete _
  have hstays' := hft'.stays hdelete
  have hhere : l.methodGone owner owner m.toSignature = false := Bool.eq_false_iff.2 fun hgone => by
    cases hstays'.here.symm.trans (h.methods _ _ hgone)
  have hknown : l'.memory.stubbed.contains m.toSignature = l.memory.stubbed.contains m.toSignature := by
    rw [Bool.eq_iff_iff]
    refine ⟨h.stubs _, fun hs => (h.lost _ hs).resolve_right ?_⟩
    rw [hstays'.here]
    exact Bool.false_ne_true
  -- Both are decided by the same step, which is no deletion.
  have hfate := hft.fate_eq
  have hfate' := hft'.fate_eq
  unfold Prune.fate at hfate hfate'
  rw [hhere, hstays'.wanted] at hfate
  rw [hstays'.here, hstays'.wanted, hknown] at hfate'
  simp only [Bool.or_self, Bool.false_eq_true, if_false] at hfate hfate'
  split at hfate
  · next hs =>
    rw [if_pos hs] at hfate'
    cases hfate
    cases hfate'
    exact .keep (List.Subset.refl _)
  next hs =>
  rw [if_neg hs] at hfate'
  split at hfate
  · next hasks =>
    rw [if_pos hasks] at hfate'
    cases hfate
    cases hfate'
    exact .stub
  next hasks =>
  rw [if_neg hasks] at hfate'
  cases code with
  | none =>
    cases hfate
    cases hfate'
    exact .keep (List.Subset.refl _)
  | some a =>
    obtain ⟨ss, hss, hfate⟩ := bind_ok_iff.1 hfate
    obtain ⟨ss', hss', hfate'⟩ := bind_ok_iff.1 hfate'
    obtain rfl := Except.ok.inj (hss.symm.trans hss')
    cases hfate
    cases hfate'
    exact bodyFate_le h _ _

/-- One walk goes over the methods behind another. -/
theorem methods_behind (h : Behind owner l l') {entries : List MemberEntry} {fts fts' : List Fate}
    {t t' : Ledger} (hfts : Along (MethodFated policy owner pool bootstraps) l entries fts t)
    (hfts' : Along (MethodFated policy owner pool bootstraps) l' entries fts' t') :
    List.Forall₂ Fate.Le fts fts' ∧ Behind owner t t' := by
  induction hfts generalizing l' fts' with
  | nil =>
    cases hfts'
    exact ⟨.nil, h⟩
  | cons hfirst _ ih =>
    obtain _ | ⟨hfirst', hrest'⟩ := hfts'
    obtain ⟨hstep⟩ := hfirst
    obtain ⟨hstep'⟩ := hfirst'
    obtain rfl := Except.ok.inj (hstep.resolved.symm.trans hstep'.resolved)
    obtain rfl := Except.ok.inj (hstep.read.symm.trans hstep'.read)
    have hle := hstep.fated.le h hstep'.fated
    obtain ⟨hall, hbehind⟩ := ih (h.fate hle _) hrest'
    exact ⟨.cons hle hall, hbehind⟩

theorem fields_behind (h : Behind owner l l') {fs : List MemberEntry} {met met' : List (Option MemberEntry)}
    {t t' : Ledger} (hmet : Along (FieldMet policy owner pool) l fs met t)
    (hmet' : Along (FieldMet policy owner pool) l' fs met' t') :
    List.Forall₂ (fun f f' => f = none → f' = none) met met' ∧ Behind owner t t' := by
  induction hmet generalizing l' met' with
  | nil =>
    cases hmet'
    exact ⟨.nil, h⟩
  | cons hfirst _ ih =>
    obtain _ | ⟨hfirst', hrest'⟩ := hmet'
    cases hfirst with
    | dropped hresolved hgoes =>
      cases hfirst' with
      | dropped hresolved' _ =>
        obtain rfl := Except.ok.inj (hresolved.symm.trans hresolved')
        obtain ⟨hall, hbehind⟩ := ih (h.dropField _) hrest'
        exact ⟨.cons (fun _ => rfl) hall, hbehind⟩
      | kept hresolved' _ hstays =>
        obtain rfl := Except.ok.inj (hresolved.symm.trans hresolved')
        exact absurd (hgoes.imp_left (h.fields _ _)) hstays
    | kept hresolved _ _ =>
      cases hfirst' with
      | dropped hresolved' _ =>
        obtain rfl := Except.ok.inj (hresolved.symm.trans hresolved')
        obtain ⟨hall, hbehind⟩ := ih (h.dropField_right _) hrest'
        exact ⟨.cons (fun hnone => (nomatch hnone)) hall, hbehind⟩
      | kept _ _ _ =>
        obtain ⟨hall, hbehind⟩ := ih h hrest'
        exact ⟨.cons (fun hnone => (nomatch hnone)) hall, hbehind⟩

end Prune

end JarPruning
