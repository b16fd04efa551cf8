import JarPruning.Proofs.Member.Tracker
import Mathlib.Data.List.Dedup
import Mathlib.Data.List.Induction

/-!
Trackers as sets of facts. What a tracker answers depends on what was added to it and not on the
order, but for the descriptor of a field, which is the one recorded first.
-/
namespace JarPruning.Tracker

inductive Addition where
  | ofClass (owner : String)
  | ofMethod (owner : String) (s : Signature)
  | ofField (owner : String) (f : FieldTarget)
  deriving DecidableEq, Repr

namespace Addition

def apply (t : Tracker) : Addition → Tracker
  | .ofClass owner => (t.addClass owner).2
  | .ofMethod owner s => t.addMethod owner s
  | .ofField owner f => t.addField owner f

def class? : Addition → Option String
  | .ofClass owner => some owner
  | _ => none

/-- The field that was added to an owner under a key. -/
def field? (owner : String) (key : FieldKey) : Addition → Option FieldTarget
  | .ofField o f => if o = owner ∧ f.key = key then some f else none
  | _ => none

end Addition

/-- The tracker after some additions. -/
def recorded (as : List Addition) : Tracker := as.foldl Addition.apply {}

variable {as as' : List Addition}

theorem recorded_concat (as : List Addition) (a : Addition) :
    recorded (as ++ [a]) = a.apply (recorded as) := List.foldl_concat ..

theorem containsClass_recorded {c : String} :
    (recorded as).containsClass c = true ↔ .ofClass c ∈ as := by
  induction as using List.reverseRecOn with
  | nil => simp [recorded, containsClass]
  | append_singleton as a ih =>
    rw [recorded_concat, List.mem_append, List.mem_singleton, ← ih]
    cases a <;> simp [Addition.apply]

theorem containsMethod_recorded {o : String} {s : Signature} :
    (recorded as).containsMethod o s = true ↔ .ofClass o ∈ as ∨ .ofMethod o s ∈ as := by
  induction as using List.reverseRecOn with
  | nil => simp [recorded, containsMethod, containsClass]
  | append_singleton as a ih =>
    rw [recorded_concat, List.mem_append, List.mem_append, List.mem_singleton, List.mem_singleton,
      or_or_or_comm, ← ih]
    cases a <;> simp [Addition.apply]

theorem containsField_recorded {o : String} {key : FieldKey} :
    (recorded as).containsField o key = true ↔
      .ofClass o ∈ as ∨ ∃ f, f.key = key ∧ .ofField o f ∈ as := by
  induction as using List.reverseRecOn with
  | nil => simp [recorded, containsField, containsClass, field?]
  | append_singleton as a ih =>
    have hlast : (a.apply (recorded as)).containsField o key = true ↔
        (recorded as).containsField o key = true ∨
          .ofClass o = a ∨ ∃ f, f.key = key ∧ .ofField o f = a := by
      cases a <;> simp [Addition.apply, and_comm, @eq_comm _ key]
    rw [recorded_concat, hlast, ih]
    simp only [List.mem_append, List.mem_singleton, and_or_left, exists_or]
    exact or_or_or_comm

/-- While its class is not added, a field is the one added first under its key. -/
theorem field?_recorded {o : String} {key : FieldKey} (h : .ofClass o ∉ as) :
    (recorded as).field? o key = as.findSome? (Addition.field? o key) := by
  induction as using List.reverseRecOn with
  | nil => rfl
  | append_singleton as a ih =>
    rw [List.mem_append, List.mem_singleton, not_or] at h
    obtain ⟨hbefore, hlast⟩ := h
    rw [recorded_concat, List.findSome?_append, ← ih hbefore]
    cases a with
    | ofClass owner =>
      have ho : o ≠ owner := fun h => hlast (congrArg _ h)
      rw [Addition.apply, field?_addClass _ ho]
      simp [Addition.field?]
    | ofMethod owner s =>
      have hsame : ((recorded as).addMethod owner s).field? o key =
          (recorded as).field? o key := by
        unfold addMethod
        split <;> rfl
      rw [Addition.apply, hsame]
      simp [Addition.field?]
    | ofField owner f =>
      have hclass : (recorded as).containsClass o = false :=
        Bool.eq_false_iff.2 fun h => hbefore (containsClass_recorded.1 h)
      rw [Addition.apply, field?_addField _ hclass]
      simp [Addition.field?]

theorem nodup_classes (as : List Addition) : (recorded as).classes.Nodup := by
  induction as using List.reverseRecOn with
  | nil => exact List.nodup_nil
  | append_singleton as a ih =>
    rw [recorded_concat]
    cases a with
    | ofClass owner =>
      rw [Addition.apply, addClass]
      split
      · exact ih
      · next hnew =>
        rw [containsClass, List.contains_iff_mem] at hnew
        exact List.nodup_append.2 ⟨ih, List.nodup_singleton owner, fun c hc d hd h =>
          hnew (List.mem_singleton.1 hd ▸ h ▸ hc)⟩
    | ofMethod owner s => rwa [Addition.apply, classes_addMethod]
    | ofField owner f => rwa [Addition.apply, classes_addField]

/-- Every class counts once. -/
theorem classCount_recorded (as : List Addition) :
    (recorded as).classCount = (as.filterMap Addition.class?).dedup.length := by
  have hmem (c : String) : c ∈ (recorded as).classes ↔
      c ∈ (as.filterMap Addition.class?).dedup := by
    rw [List.mem_dedup, List.mem_filterMap, ← List.contains_iff_mem]
    show (recorded as).containsClass c = true ↔ _
    rw [containsClass_recorded]
    constructor
    · exact fun h => ⟨_, h, rfl⟩
    · rintro ⟨a, ha, hclass⟩
      cases a with
      | ofClass owner =>
        cases hclass
        exact ha
      | _ => cases hclass
  exact ((List.perm_ext_iff_of_nodup (nodup_classes as) (List.nodup_dedup _)).2 hmem).length_eq

/-- What is added later takes no answer back, in whatever order it is added. -/
theorem recorded_le (h : as ⊆ as') : Le (recorded as) (recorded as') where
  classes c hc := containsClass_recorded.2 (h (containsClass_recorded.1 hc))
  methods o s hs :=
    containsMethod_recorded.2 ((containsMethod_recorded.1 hs).imp (fun hs => h hs) fun hs => h hs)
  fields o key hk := by
    refine containsField_recorded.2 ((containsField_recorded.1 hk).imp (fun hk => h hk) ?_)
    rintro ⟨f, hkey, hf⟩
    exact ⟨f, hkey, h hf⟩

/-- A tracker is a set of facts: it knows the classes, methods and fields that were added, and all
members of the classes; reordered additions give the same answers and further ones take none back;
a class is new the first time only and counts once; and a field has the descriptor of its first
addition. -/
theorem recorded_facts (as : List Addition) :
    (∀ c, (recorded as).containsClass c = true ↔ .ofClass c ∈ as) ∧
    (∀ c s, (recorded as).containsMethod c s = true ↔ .ofClass c ∈ as ∨ .ofMethod c s ∈ as) ∧
    (∀ c key, (recorded as).containsField c key = true ↔
      .ofClass c ∈ as ∨ ∃ f, f.key = key ∧ .ofField c f ∈ as) ∧
    (∀ as', as.Perm as' → Le (recorded as) (recorded as') ∧ Le (recorded as') (recorded as)) ∧
    (∀ more, Le (recorded as) (recorded (as ++ more))) ∧
    (∀ c, ((recorded as).addClass c).1 = true ↔ .ofClass c ∉ as) ∧
    (recorded as).classCount = (as.filterMap Addition.class?).dedup.length ∧
    ∀ c key, .ofClass c ∉ as →
      (recorded as).field? c key = as.findSome? (Addition.field? c key) := by
  refine ⟨fun c => containsClass_recorded, fun c s => containsMethod_recorded,
    fun c key => containsField_recorded,
    fun as' h => ⟨recorded_le h.subset, recorded_le h.symm.subset⟩,
    fun more => recorded_le (List.subset_append_left as more), fun c => ?_,
    classCount_recorded as, fun c key => field?_recorded⟩
  rw [← containsClass_recorded, addClass]
  split
  · next h => simp [h]
  · next h => simp [h]

/-- A field added twice and a class added behind one of its methods, forwards and backwards. -/
theorem recorded_facts_twice :
    let as : List Addition := [.ofField "A" ⟨"x", "I", "()"⟩, .ofField "A" ⟨"x", "J", "()"⟩,
      .ofMethod "B" ⟨"m", "()V"⟩, .ofClass "B"]
    (recorded as).field? "A" ⟨"x", "()"⟩ = some ⟨"x", "I", "()"⟩ ∧
      (recorded as).containsMethod "B" ⟨"n", "()V"⟩ = true ∧
      Le (recorded as) (recorded as.reverse) ∧ Le (recorded as.reverse) (recorded as) := by
  intro as
  obtain ⟨-, hmethods, -, hperm, -, -, -, hfield⟩ := recorded_facts as
  exact ⟨hfield "A" ⟨"x", "()"⟩ (by decide), (hmethods _ _).2 (.inl (by decide)),
    hperm as.reverse (List.reverse_perm as).symm⟩

end JarPruning.Tracker
