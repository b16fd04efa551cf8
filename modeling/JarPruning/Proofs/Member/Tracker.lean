import JarPruning.Member.Tracker

/-!
What a tracker answers after an addition, and the order in which trackers grow.
-/
namespace JarPruning.Tracker

variable {t t' t'' : Tracker}

@[simp] theorem containsClass_addClass (t : Tracker) (owner c : String) :
    (t.addClass owner).2.containsClass c = (t.containsClass c || c == owner) := by
  unfold addClass
  split
  · next h =>
    cases hc : c == owner with
    | true => simpa [eq_of_beq hc] using h
    | false => simp
  · simp only [containsClass, List.contains_eq_any_beq, List.any_append, List.any_cons,
      List.any_nil, Bool.or_false, Bool.beq_comm]

@[simp] theorem containsMethod_addClass (t : Tracker) (owner o : String) (s : Signature) :
    (t.addClass owner).2.containsMethod o s = (t.containsMethod o s || o == owner) := by
  unfold containsMethod
  rw [containsClass_addClass]
  unfold addClass
  by_cases ho : o = owner
  · simp [ho]
  · have hne : (o == owner) = false := beq_false_of_ne ho
    split <;> simp [ho, hne]

theorem field?_addClass (t : Tracker) {owner o : String} (ho : o ≠ owner) (key : FieldKey) :
    (t.addClass owner).2.field? o key = t.field? o key := by
  unfold addClass field?
  split
  · rfl
  · have hfind : (t.fields.filter (·.1 ≠ owner)).find? (fun p => p.1 = o ∧ p.2.key = key) =
        t.fields.find? (fun p => p.1 = o ∧ p.2.key = key) := by
      rw [List.find?_filter]
      congr 1
      funext p
      by_cases hp : p.1 = o <;> simp [hp, ho]
    rw [hfind]

@[simp] theorem containsField_addClass (t : Tracker) (owner o : String) (key : FieldKey) :
    (t.addClass owner).2.containsField o key = (t.containsField o key || o == owner) := by
  unfold containsField
  rw [containsClass_addClass]
  by_cases ho : o = owner
  · simp [ho]
  · rw [field?_addClass t ho, beq_false_of_ne ho, Bool.or_false, Bool.or_false]

@[simp] theorem classes_addMethod (t : Tracker) (owner : String) (s : Signature) :
    (t.addMethod owner s).classes = t.classes := by
  unfold addMethod
  split <;> rfl

@[simp] theorem classes_addField (t : Tracker) (owner : String) (f : FieldTarget) :
    (t.addField owner f).classes = t.classes := by
  unfold addField
  split <;> rfl

@[simp] theorem containsClass_addMethod (t : Tracker) (owner c : String) (s : Signature) :
    (t.addMethod owner s).containsClass c = t.containsClass c := by
  unfold addMethod
  split <;> rfl

@[simp] theorem containsMethod_addMethod (t : Tracker) (owner o : String) (s m : Signature) :
    (t.addMethod owner s).containsMethod o m =
      (t.containsMethod o m || (o == owner && m == s)) := by
  unfold addMethod
  split
  · next h =>
    cases hm : o == owner && m == s with
    | true =>
      obtain ⟨ho, hs⟩ := Bool.and_eq_true_iff.1 hm
      simpa [eq_of_beq ho, eq_of_beq hs] using h
    | false => simp
  · simp only [containsMethod, containsClass, List.contains_eq_any_beq, List.any_append,
      List.any_cons, List.any_nil, Bool.or_false, Bool.or_assoc]
    rfl

@[simp] theorem containsField_addMethod (t : Tracker) (owner o : String) (s : Signature)
    (key : FieldKey) : (t.addMethod owner s).containsField o key = t.containsField o key := by
  unfold addMethod
  split <;> rfl

@[simp] theorem containsClass_addField (t : Tracker) (owner c : String) (f : FieldTarget) :
    (t.addField owner f).containsClass c = t.containsClass c := by
  unfold addField
  split <;> rfl

@[simp] theorem containsMethod_addField (t : Tracker) (owner o : String) (f : FieldTarget)
    (m : Signature) : (t.addField owner f).containsMethod o m = t.containsMethod o m := by
  unfold addField
  split <;> rfl

/-- The entry that is there already stays; a new one is found if there was none. -/
theorem field?_addField (t : Tracker) {o : String} (h : t.containsClass o = false) (owner : String)
    (f : FieldTarget) (key : FieldKey) :
    (t.addField owner f).field? o key =
      (t.field? o key).or (if owner = o ∧ f.key = key then some f else none) := by
  unfold addField
  split
  · next hcontains =>
    by_cases hf : owner = o ∧ f.key = key
    · obtain ⟨rfl, rfl⟩ := hf
      rw [containsField, h, Bool.false_or] at hcontains
      rw [Option.or_of_isSome hcontains]
    · rw [if_neg hf, Option.or_none]
  · unfold field?
    rw [List.find?_append, Option.map_or]
    by_cases hf : owner = o ∧ f.key = key <;> simp [hf]

@[simp] theorem containsField_addField (t : Tracker) (owner o : String) (f : FieldTarget)
    (key : FieldKey) :
    (t.addField owner f).containsField o key =
      (t.containsField o key || (o == owner && key == f.key)) := by
  cases hclass : t.containsClass o with
  | true => simp [containsField, hclass]
  | false =>
    simp only [containsField, containsClass_addField, hclass, Bool.false_or,
      field?_addField t hclass, Option.isSome_or]
    by_cases ho : owner = o <;> by_cases hk : f.key = key <;>
      simp [ho, hk, Ne.symm, beq_false_of_ne]

/-! Several additions. -/

def addFields (t : Tracker) (owner : String) (fs : List Member) : Tracker :=
  fs.foldl (fun t f => t.addField owner { name := f.name, descriptor := f.descriptor }) t

def addMethods (t : Tracker) (owner : String) (ms : List Member) : Tracker :=
  ms.foldl (fun t m => t.addMethod owner m.toSignature) t

@[simp] theorem containsMethod_addFields (t : Tracker) (owner o : String) (fs : List Member)
    (s : Signature) : (t.addFields owner fs).containsMethod o s = t.containsMethod o s := by
  induction fs generalizing t with
  | nil => rfl
  | cons f fs ih => exact (ih _).trans (containsMethod_addField ..)

@[simp] theorem containsField_addMethods (t : Tracker) (owner o : String) (ms : List Member)
    (key : FieldKey) : (t.addMethods owner ms).containsField o key = t.containsField o key := by
  induction ms generalizing t with
  | nil => rfl
  | cons m ms ih => exact (ih _).trans (containsField_addMethod ..)

@[simp] theorem containsMethod_addMethods (t : Tracker) (owner o : String) (ms : List Member)
    (s : Signature) :
    (t.addMethods owner ms).containsMethod o s =
      (t.containsMethod o s || (o == owner && ms.any fun m => s == m.toSignature)) := by
  induction ms generalizing t with
  | nil => simp [addMethods]
  | cons m ms ih =>
    have hfirst : (t.addMethods owner (m :: ms)).containsMethod o s =
        ((t.addMethod owner m.toSignature).addMethods owner ms).containsMethod o s := rfl
    rw [hfirst, ih, containsMethod_addMethod, List.any_cons, Bool.and_or_distrib_left,
      Bool.or_assoc]

@[simp] theorem containsField_addFields (t : Tracker) (owner o : String) (fs : List Member)
    (key : FieldKey) :
    (t.addFields owner fs).containsField o key =
      (t.containsField o key || (o == owner && fs.any fun f => key == ⟨f.name, "()"⟩)) := by
  induction fs generalizing t with
  | nil => simp [addFields]
  | cons f fs ih =>
    have hfirst : (t.addFields owner (f :: fs)).containsField o key =
        ((t.addField owner { name := f.name, descriptor := f.descriptor }).addFields
          owner fs).containsField o key := rfl
    rw [hfirst, ih, containsField_addField, List.any_cons, Bool.and_or_distrib_left,
      Bool.or_assoc]
    rfl

/-- `t'` answers every query that `t` answers with yes. -/
structure Le (t t' : Tracker) : Prop where
  classes : ∀ c, t.containsClass c → t'.containsClass c
  methods : ∀ o s, t.containsMethod o s → t'.containsMethod o s
  fields : ∀ o key, t.containsField o key → t'.containsField o key

theorem Le.refl (t : Tracker) : Le t t := ⟨fun _ h => h, fun _ _ h => h, fun _ _ h => h⟩

theorem Le.empty (t : Tracker) : Le {} t :=
  ⟨fun _ h => (nomatch h), fun _ _ h => (nomatch h), fun _ _ h => (nomatch h)⟩

theorem Le.trans (h : Le t t') (h' : Le t' t'') : Le t t'' where
  classes c hc := h'.classes c (h.classes c hc)
  methods o s hs := h'.methods o s (h.methods o s hs)
  fields o key hk := h'.fields o key (h.fields o key hk)

theorem le_addClass (t : Tracker) (owner : String) : Le t (t.addClass owner).2 where
  classes c hc := by simp [hc]
  methods o s hs := by simp [hs]
  fields o key hk := by simp [hk]

theorem le_addMethod (t : Tracker) (owner : String) (s : Signature) :
    Le t (t.addMethod owner s) where
  classes c hc := by simpa using hc
  methods o m hm := by simp [hm]
  fields o key hk := by simpa using hk

theorem le_addField (t : Tracker) (owner : String) (f : FieldTarget) :
    Le t (t.addField owner f) where
  classes c hc := by simpa using hc
  methods o m hm := by simpa using hm
  fields o key hk := by simp [hk]

theorem Le.addMethod (h : Le t t') (owner : String) (s : Signature) :
    Le (t.addMethod owner s) (t'.addMethod owner s) where
  classes c hc := by
    rw [containsClass_addMethod] at hc ⊢
    exact h.classes c hc
  methods o m hm := by
    rw [containsMethod_addMethod, Bool.or_eq_true] at hm ⊢
    exact hm.imp_left (h.methods o m)
  fields o key hk := by
    rw [containsField_addMethod] at hk ⊢
    exact h.fields o key hk

theorem Le.addField (h : Le t t') (owner : String) (f : FieldTarget) :
    Le (t.addField owner f) (t'.addField owner f) where
  classes c hc := by
    rw [containsClass_addField] at hc ⊢
    exact h.classes c hc
  methods o m hm := by
    rw [containsMethod_addField] at hm ⊢
    exact h.methods o m hm
  fields o key hk := by
    rw [containsField_addField, Bool.or_eq_true] at hk ⊢
    exact hk.imp_left (h.fields o key)

end JarPruning.Tracker
