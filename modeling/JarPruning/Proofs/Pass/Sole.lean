import JarPruning.Proofs.Pass.Reread

/-!
Classes with one metadata annotation. A pass leaves such a class with one again: the old one, or the
one that it was repacked into.
-/
namespace JarPruning

namespace ClassFile

variable {c : ClassFile} {a : AnnotationEntry}

/-- The class has one metadata annotation. -/
def SoleMetadata (c : ClassFile) (a : AnnotationEntry) : Prop :=
  ∃ ms, marks c.pool c.attributes = .ok ms ∧
    ((Marked.all ms).filter fun e => e.2 = Pruner.metadataDescriptor) =
      [(a, Pruner.metadataDescriptor)]

instance (c : ClassFile) (a : AnnotationEntry) : Decidable (c.SoleMetadata a) :=
  decidable_of_iff ((marks c.pool c.attributes).toOption.any fun ms =>
    (Marked.all ms).filter (·.2 = Pruner.metadataDescriptor) = [(a, Pruner.metadataDescriptor)]) <| by
    unfold SoleMetadata
    cases marks c.pool c.attributes <;> simp [Except.toOption]

theorem SoleMetadata.fits (h : c.SoleMetadata a) : a.Fits := by
  obtain ⟨ms, hms, hfilter⟩ := h
  exact Marked.fits_of_mem hms (List.mem_of_mem_filter (hfilter ▸ List.mem_singleton_self _))

theorem SoleMetadata.metadataOf (h : c.SoleMetadata a) {ms : List Marked}
    (hms : marks c.pool c.attributes = .ok ms) : Prune.metadataOf ms = some a := by
  obtain ⟨ms', hms', hfilter⟩ := h
  cases hms.symm.trans hms'
  rw [Prune.metadataOf, hfilter]
  rfl

/-- No annotation of the class is metadata. -/
def NoMetadata (c : ClassFile) : Prop :=
  ∀ ms, marks c.pool c.attributes = .ok ms →
    ((Marked.all ms).filter fun e => e.2 = Pruner.metadataDescriptor) = []

theorem NoMetadata.metadataOf (h : c.NoMetadata) {ms : List Marked}
    (hms : marks c.pool c.attributes = .ok ms) : Prune.metadataOf ms = none := by
  rw [Prune.metadataOf, h ms hms]
  rfl

theorem NoMetadata.of_bare (h : c.attributes = []) : c.NoMetadata := by
  intro ms hms
  rw [h] at hms
  cases hms
  rfl

theorem NoMetadata.one (h : c.NoMetadata) : Prune.OneMetadata c := by
  intro ms hms
  rw [h ms hms]
  exact Nat.zero_le _

theorem SoleMetadata.one (h : c.SoleMetadata a) : Prune.OneMetadata c := by
  intro ms hms
  obtain ⟨ms', hms', hfilter⟩ := h
  cases hms.symm.trans hms'
  rw [hfilter, List.length_singleton]

theorem SoleMetadata.unique (h : c.SoleMetadata a) {b : AnnotationEntry} (h' : c.SoleMetadata b) :
    a = b := by
  have hmetadata := h.metadataOf h'.choose_spec.1
  exact Option.some.inj (hmetadata.symm.trans (h'.metadataOf h'.choose_spec.1))

end ClassFile

namespace Prune

variable {policy : Policy} {l : Ledger} {c : ClassFile} {a : AnnotationEntry}

/-- With at most one metadata annotation there is none, or one. -/
theorem OneMetadata.none_or_sole (h : OneMetadata c) {ms : List Marked}
    (hms : marks c.pool c.attributes = .ok ms) : c.NoMetadata ∨ ∃ a, c.SoleMetadata a := by
  have hcount := h ms hms
  match hfilter : (Marked.all ms).filter fun e => e.2 = Pruner.metadataDescriptor with
  | [] =>
    refine .inl fun ms' hms' => ?_
    cases hms.symm.trans hms'
    exact hfilter
  | [(a, d)] =>
    have hmem : (a, d) ∈ (Marked.all ms).filter fun e => e.2 = Pruner.metadataDescriptor := by
      rw [hfilter]
      exact List.mem_singleton_self _
    obtain rfl : d = Pruner.metadataDescriptor := of_decide_eq_true (List.mem_filter.1 hmem).2
    exact .inr ⟨a, ms, hms, hfilter⟩
  | _ :: _ :: _ =>
    rw [hfilter] at hcount
    simp at hcount

/-- The metadata of a class is the one annotation. -/
theorem OneMetadata.sole (h : OneMetadata c) {ms : List Marked}
    (hms : marks c.pool c.attributes = .ok ms) (ha : metadataOf ms = some a) :
    c.SoleMetadata a := by
  obtain hnone | ⟨a', hsole⟩ := h.none_or_sole hms
  · cases (hnone.metadataOf hms).symm.trans ha
  · obtain rfl : a' = a := Option.some.inj ((hsole.metadataOf hms).symm.trans ha)
    exact hsole

theorem filter_singleton {α : Type} {keep : α → Bool} {before after : List α} {x y : α}
    (h : (before ++ x :: after).filter keep = [y]) (hx : keep x = true) :
    before.filter keep = [] ∧ x = y ∧ after.filter keep = [] := by
  rw [List.filter_append, List.filter_cons_of_pos hx] at h
  cases hbefore : before.filter keep with
  | nil =>
    rw [hbefore] at h
    obtain ⟨rfl, hafter⟩ := List.cons.inj h
    exact ⟨rfl, rfl, hafter⟩
  | cons z zs =>
    rw [hbefore] at h
    simp at h

namespace Rewriting

theorem metadataOf_sole (r : Rewriting policy l c) (hsole : c.SoleMetadata a) :
    metadataOf r.marked = some a := hsole.metadataOf r.surveyed.read

/-- A class without metadata has none after a pass. -/
theorem noMetadata (r : Rewriting policy l c) (hc : c.Framed) (h : c.NoMetadata)
    (hnew : r.new = []) : r.result.NoMetadata := by
  intro ms' hms'
  obtain ⟨ms, hms, hupdated⟩ := r.marks_result hc (by simp [hnew])
  cases hms.symm.trans hms'
  cases hupdated with
  | swapped hone _ => cases hnew.symm.trans hone
  | same _ heq =>
    rw [heq]
    exact List.filter_eq_nil_iff.2 fun e he =>
      List.filter_eq_nil_iff.1 (h r.marked r.surveyed.read) e (List.mem_of_mem_filter he)

/-- After a pass the class has one metadata annotation again: the old one, or the repacked. -/
theorem soleMetadata (r : Rewriting policy l c) (hc : c.Framed) (hfits : ∀ b ∈ r.new, b.Fits)
    (htype : ∀ b ∈ r.new, b.typeIndex = a.typeIndex) (hsole : c.SoleMetadata a) :
    r.result.SoleMetadata (r.new.headD a) := by
  obtain ⟨ms, hms, hfilter⟩ := hsole
  cases hms.symm.trans r.surveyed.read
  obtain ⟨ms', hms', hupdated⟩ := r.marks_result hc hfits
  refine ⟨ms', hms', ?_⟩
  have hkept : ((Marked.kept (stripsFromClass policy) (Marked.all r.marked)).filter
      fun e => e.2 = Pruner.metadataDescriptor) = [(a, Pruner.metadataDescriptor)] := by
    rw [← hfilter, Marked.kept, List.filter_filter]
    refine List.filter_congr fun e _ => ?_
    by_cases he : e.2 = Pruner.metadataDescriptor <;> simp [stripsFromClass, he]
  cases hupdated with
  | same hnone heq =>
    rw [heq, hnone]
    exact hkept
  | @swapped b hone hswapped =>
    rw [hone]
    have hb := htype b (by rw [hone]; exact List.mem_singleton_self b)
    have hmem : (a, Pruner.metadataDescriptor) ∈
        Marked.kept (stripsFromClass policy) (Marked.all r.marked) :=
      List.mem_of_mem_filter (hkept ▸ List.mem_singleton_self _)
    generalize hes : Marked.kept (stripsFromClass policy) (Marked.all r.marked) = es
      at hswapped hkept hmem
    generalize Marked.all ms' = es' at hswapped
    cases hswapped with
    | absent hlacks => exact absurd hb.symm (hlacks _ hmem)
    | @found before after old d hfirst hsame =>
      have hin {e : AnnotationEntry × String} (he : e ∈ before ++ (old, d) :: after) :
          e ∈ Marked.all r.marked := List.mem_of_mem_filter (hes ▸ he)
      obtain rfl : d = Pruner.metadataDescriptor :=
        descriptor_of_typeIndex r.marks_ok.2
          (hin (List.mem_append_right _ (List.mem_cons_self ..))) (hin hmem) (hsame.trans hb)
      obtain ⟨hbefore, -, hafter⟩ := filter_singleton hkept (decide_eq_true rfl)
      rw [List.filter_append, hbefore, List.nil_append]
      simp [hafter]

end Rewriting

end Prune

end JarPruning
