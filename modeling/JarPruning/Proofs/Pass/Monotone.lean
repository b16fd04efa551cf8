import JarPruning.Proofs.Pass.Behind
import JarPruning.Proofs.Pass.Shedding

/-!
A pass is monotone in what is gone. Two passes that start from the same memory of a class, the second
with a tracker that holds more, take the same way through the class; what the first takes from it, the
second takes as well, if it keeps the class at all.
-/
namespace JarPruning

open Metadata (Payload)

/-- A pass that keeps the class `c` leaves `c'`: it writes that, or it writes nothing, and `c'` differs
from `c` in nothing that is written. -/
inductive PassOutcome.LeavesClass (c c' : ClassFile) : PassOutcome → Prop
  | unchanged (fields : c'.fields = c.fields) (methods : c'.methods = c.methods)
    (attributes : countedBytes Attribute.bytes c'.attributes =
      countedBytes Attribute.bytes c.attributes) : LeavesClass c c' .unchanged
  | modified (read : ∀ c'', ClassFile.ofBytes c'.bytes = .ok c'' →
      c'' = { c' with attributes := c''.attributes }) : LeavesClass c c' (.modified c'.bytes)

namespace Prune

open Ledger (Behind)

section

variable (policy : Policy) (c c₁ c₂ : ClassFile)

/-- What a walk over the members of `c` makes of each, and that `c'` has what is left. -/
structure MembersMet (name : String) (bootstraps : List Bootstrap) (l : Ledger) (c c' : ClassFile)
    (fields : List (Option MemberEntry)) (methods : List (Fate × Option MemberEntry)) : Prop where
  walk : ∃ l₁ l₂, Along (FieldMet policy name c.pool) l c.fields fields l₁ ∧
    Along (MethodMet policy name c.pool bootstraps) l₁ c.methods methods l₂
  fields : c'.fields = fields.reduceOption
  methods : c'.methods = methods.filterMap (·.2)

/-- Fields that the first walk drops are dropped by the second, and the fates of methods take no less
from them. -/
inductive MembersShed (l₁ l₂ : Ledger) : Prop
  | intro {name : String} {bootstraps : List Bootstrap} {fields₁ fields₂ : List (Option MemberEntry)}
    {methods₁ methods₂ : List (Fate × Option MemberEntry)} (named : c.name = .ok name)
    (bootstrapped : Walk.bootstraps c = .ok bootstraps)
    (met₁ : MembersMet policy name bootstraps l₁ c c₁ fields₁ methods₁)
    (met₂ : MembersMet policy name bootstraps l₂ c c₂ fields₂ methods₂)
    (fields : List.Forall₂ (fun f f' => f = none → f' = none) fields₁ fields₂)
    (methods : List.Forall₂ (fun m m' => m.1.Le m'.1) methods₁ methods₂)

/-- An attribute of the same name, with a link that lost no row but some. -/
def LinkLeft (p p' : Attribute × Link) : Prop := p'.1.name = p.1.name ∧ p.2.Sheds p'.2

/-- Rows of links that are missing in `c₁` are missing in `c₂`. -/
inductive LinksShed : Prop
  | intro {ms : List Marked} {links links₁ links₂ : List (Attribute × Link)}
    (read : marks c.pool c.attributes = .ok ms) (linked : Linked policy c ms links)
    (linked₁ : readLinks c₁.pool c₁.attributes = .ok links₁)
    (linked₂ : readLinks c₂.pool c₂.attributes = .ok links₂)
    (left : List.Forall₂ LinkLeft links links₁) (more : List.Forall₂ LinkLeft links₁ links₂)

/-- Records and names in lists that are missing in the metadata of `c₁` are missing in that of `c₂`,
the annotation having been `a`. -/
inductive MetadataSheds (a : AnnotationEntry) : Prop
  | unedited {kind : Metadata.Kind} {d1 d2 : List String}
    (read₁ : Pruner.metadataParts c₁.pool a = .ok (kind, d1, d2))
    (read₂ : Pruner.metadataParts c₂.pool a = .ok (kind, d1, d2))
    (plain : kind.isEditable = false ∨ d1 = []) (stands₁ : Tabled c₁ a) (stands₂ : Tabled c₂ a)
  | edited {kind : Metadata.Kind} {d1 d2 : List String} {p : Payload} {new₁ new₂ : Option Payload}
    (read₁ : Pruner.metadataParts c₁.pool a = .ok (kind, d1, d2))
    (read₂ : Pruner.metadataParts c₂.pool a = .ok (kind, d1, d2))
    (decoded : Payload.decode kind d1 d2 = .ok p)
    (left₁ : MetadataLeft c₁ a d1 new₁) (left₂ : MetadataLeft c₂ a d1 new₂)
    (touched : new₂ = none → new₁ = none) (fewer : p.Sheds (new₁.getD p))
    (more : (new₁.getD p).Sheds (new₂.getD p))

/-- Of the class `c`, `c₂` has lost at least what `c₁` has lost, each by a pass from a ledger. -/
structure Sheds (l₁ l₂ : Ledger) : Prop where
  members : MembersShed policy c c₁ c₂ l₁ l₂
  links : LinksShed policy c c₁ c₂
  metadata : ∀ ms a, marks c.pool c.attributes = .ok ms → metadataOf ms = some a →
    MetadataSheds c₁ c₂ a

end

namespace Rewriting

variable {policy : Policy} {l₁ l₂ : Ledger} {c : ClassFile} (r₁ : Rewriting policy l₁ c)
  (r₂ : Rewriting policy l₂ c)

include r₂ in
theorem members_shed (hmemory : l₂.memory = l₁.memory) (hle : l₁.tracker.Le l₂.tracker) :
    MembersShed policy c r₁.result r₂.result l₁ l₂ ∧ r₁.last.tracker.Le r₂.last.tracker := by
  obtain ⟨fields₁, methods₁, hfields₁, hmethods₁, hfates₁, hleft₁, hkept₁⟩ := r₁.met
  obtain ⟨fields₂, methods₂, hfields₂, hmethods₂, hfates₂, hleft₂, hkept₂⟩ := r₂.met
  rw [← r₁.name_eq r₂] at hfields₂ hmethods₂ hfates₂
  rw [← r₁.bootstraps_eq r₂] at hmethods₂ hfates₂
  have hbehind : Behind r₁.name l₁ l₂ := .of_tracker hmemory hle
  obtain ⟨hfields, hafterFields⟩ := fields_behind hbehind hfields₁ hfields₂
  obtain ⟨hmethods, hafterMethods⟩ := methods_behind hafterFields hfates₁ hfates₂
  rw [List.forall₂_map_left_iff, List.forall₂_map_right_iff] at hmethods
  refine ⟨.intro r₁.surveyed.named r₁.bootstraps_unlinked ⟨⟨_, _, hfields₁, hmethods₁⟩, hleft₁, hkept₁⟩
    ⟨⟨_, _, hfields₂, hmethods₂⟩, hleft₂, hkept₂⟩ hfields hmethods, ?_⟩
  rw [r₁.last_ledger.1, r₂.last_ledger.1]
  exact hafterMethods.tracker

theorem links_shed (hc : c.Framed) (hle : l₁.tracker.Le l₂.tracker) :
    LinksShed policy c r₁.result r₂.result := by
  obtain ⟨links₁, hlinks₁, hrest₁⟩ := r₁.links_result hc
  obtain ⟨links₂, hlinks₂, hrest₂⟩ := r₂.links_result hc
  rw [← r₁.links_eq r₂, ← r₁.name_eq r₂] at hrest₂
  refine .intro r₁.surveyed.read r₁.linked hlinks₁ hlinks₂ (hrest₁.imp fun p p' h => ?_) ?_
  · exact ⟨h.1, h.2 ▸ p.2.sheds_rest ..⟩
  clear hlinks₁ hlinks₂
  generalize r₁.links = links at hrest₁ hrest₂
  induction hrest₁ generalizing links₂ with
  | nil =>
    cases hrest₂
    exact .nil
  | cons hp₁ _ ih =>
    obtain _ | ⟨hp₂, hrest₂⟩ := hrest₂
    refine .cons ⟨hp₂.1.trans hp₁.1.symm, ?_⟩ (ih _ hrest₂)
    rw [hp₁.2, hp₂.2]
    exact Link.rest_sheds_rest hle ..

theorem metadata_sheds (hc : c.Framed) (hle : r₁.last.tracker.Le r₂.last.tracker)
    {a : AnnotationEntry} (ha : metadataOf r₁.marked = some a) :
    MetadataSheds r₁.result r₂.result a := by
  obtain ⟨kind, d1, d2, hparts₁, hleft₁⟩ := r₁.metadata_left hc ha
  obtain ⟨kind', d1', d2', hparts₂, hleft₂⟩ := r₂.metadata_left hc (r₁.marked_eq r₂ ▸ ha)
  have hparts := r₁.parts_eq r₂ hc hparts₁ hparts₂
  simp only [Prod.mk.injEq] at hparts
  obtain ⟨rfl, rfl, rfl⟩ := hparts
  have hread₁ := metadataParts_persists (r₁.stubbed_grows hc) a _ hparts₁
  have hread₂ := metadataParts_persists (r₂.stubbed_grows hc) a _ hparts₂
  obtain ⟨hplain, hstands₁⟩ | ⟨heditable, hpacked, p, p₁, changes₁, hdecode, hsweep₁, hleft₁⟩ := hleft₁
  · obtain ⟨-, hstands₂⟩ | ⟨heditable, hpacked, -⟩ := hleft₂
    · exact .unedited hread₁ hread₂ hplain hstands₁ hstands₂
    · rw [heditable] at hplain
      simp [hpacked] at hplain
  obtain ⟨hplain, -⟩ | ⟨-, -, p', p₂, changes₂, hdecode', hsweep₂, hleft₂⟩ := hleft₂
  · rw [heditable] at hplain
    simp [hpacked] at hplain
  obtain rfl := Except.ok.inj (hdecode.symm.trans hdecode')
  rw [← r₁.name_eq r₂] at hsweep₂
  have hhere₂ := r₂.here
  rw [← r₁.name_eq r₂] at hhere₂
  obtain ⟨hmore, hquiet⟩ := Payload.sweep_sheds hle hhere₂ hsweep₁ hsweep₂
  have hpayload {t : Tracker} {p' : Payload} {changes : Metadata.Changes}
      (h : p.sweep r₁.name t = .ok (p', changes)) :
      (if changes.removed = [] then none else some p').getD p = p' := by
    split
    · next hnone => exact (Payload.sweep_quiet h hnone).symm
    · rfl
  refine .edited hread₁ hread₂ hdecode hleft₁ hleft₂ (fun hnone => ?_) ?_ ?_
  · rw [ite_eq_left_iff] at hnone ⊢
    intro hremoved
    cases hnone (fun h => hremoved (hquiet h))
  · rw [hpayload hsweep₁]
    exact Payload.sheds_sweep r₁.here hsweep₁
  · rw [hpayload hsweep₁, hpayload hsweep₂]
    exact hmore

/-- A pass that finds more gone leaves no more of a class. -/
theorem sheds (hc : c.Framed) (hmemory : l₂.memory = l₁.memory) (hle : l₁.tracker.Le l₂.tracker) :
    Sheds policy c r₁.result r₂.result l₁ l₂ := by
  obtain ⟨hmembers, hlast⟩ := r₁.members_shed r₂ hmemory hle
  refine ⟨hmembers, r₁.links_shed r₂ hc hle, fun ms a hms ha => ?_⟩
  obtain rfl := Except.ok.inj (hms.symm.trans r₁.surveyed.read)
  exact r₁.metadata_sheds r₂ hc hlast ha

end Rewriting

/-- A pass discards a class or leaves something of it. -/
theorem Passed.cases {policy : Policy} {l l' : Ledger} {c : ClassFile} {out : PassOutcome}
    (hc : c.Framed) (h : Passed policy l c (l', out)) :
    out = .unwanted ∧ Discards policy l.expire c ∨
      ∃ r : Rewriting policy l.expire c, out ≠ .unwanted ∧ out.LeavesClass c r.result := by
  generalize hb : (l', out) = b at h
  obtain ⟨-, hout⟩ := Prod.mk.inj hb
  cases h with
  | discarded _ hdiscards => exact .inl ⟨hout, hdiscards⟩
  | modified r _ =>
    obtain rfl := hout
    exact .inr ⟨r, by simp, .modified fun c'' h => r.reread hc h⟩
  | unchanged r hsame =>
    obtain rfl := hout
    obtain ⟨hfields, hmethods, hattributes, -⟩ := r.of_same hc hsame
    exact .inr ⟨r, by simp, .unchanged hfields hmethods hattributes⟩

end Prune

namespace Pass

variable {policy : Policy} {entry : String} {bytes : List UInt8} {s₁ s₂ s₁' s₂' : Session}
  {out₁ out₂ : PassOutcome}

/-- A pass with a tracker that holds more discards the class if the other pass does, and else takes from
it at least what the other takes. -/
theorem sheds_of_runs (h₁ : (run policy entry bytes).run s₁ = .ok out₁ s₁')
    (h₂ : (run policy entry bytes).run s₂ = .ok out₂ s₂') (hmemory : s₂.memory = s₁.memory)
    (hle : s₁.tracker.Le s₂.tracker) :
    (out₁ = .unwanted → out₂ = .unwanted) ∧ (out₁ ≠ .unwanted → out₂ ≠ .unwanted →
      ∃ c c₁ c₂, ClassFile.ofBytes bytes = .ok c ∧ out₁.LeavesClass c c₁ ∧ out₂.LeavesClass c c₂ ∧
        Prune.Sheds policy c c₁ c₂ s₁.ledger.expire s₂.ledger.expire) := by
  obtain ⟨_, hpass₁, rfl, -⟩ := (pass_follows policy entry bytes s₁).of_ok h₁
  obtain ⟨_, hpass₂, rfl, -⟩ := (pass_follows policy entry bytes s₂).of_ok h₂
  obtain ⟨c, hc, hpassed₁⟩ := Prune.pass_ok hpass₁
  obtain ⟨c', hc', hpassed₂⟩ := Prune.pass_ok hpass₂
  obtain rfl := Except.ok.inj (hc.symm.trans hc')
  have hframed := (ClassFile.of_ofBytes hc).2.1.toFramed
  have hexpired : s₂.ledger.expire.memory = s₁.ledger.expire.memory :=
    congrArg Memory.expire hmemory
  obtain ⟨hout₁, hdiscards₁⟩ | ⟨r₁, hkept₁, hleaves₁⟩ := hpassed₁.cases hframed
  · refine ⟨fun _ => ?_, fun hkept => absurd hout₁ hkept⟩
    have hdiscards₂ : Prune.Discards policy s₂.ledger.expire c := hdiscards₁.mono hle
    obtain ⟨hout₂, -⟩ | ⟨r₂, -⟩ := hpassed₂.cases hframed
    · exact hout₂
    · exact absurd hdiscards₂ r₂.not_discards
  · refine ⟨fun hout₁ => absurd hout₁ hkept₁, fun _ hkept₂ => ?_⟩
    obtain ⟨hout₂, -⟩ | ⟨r₂, -, hleaves₂⟩ := hpassed₂.cases hframed
    · exact absurd hout₂ hkept₂
    · exact ⟨c, r₁.result, r₂.result, hc, hleaves₁, hleaves₂, r₁.sheds r₂ hframed hexpired hle⟩

/-- With the method `n` gone as well, the class loses that method and what the metadata says of it. -/
theorem sheds_of_runs_functions : ∃ written₁ written₂ s₁' s₂' c₁ c₂,
    Tracker.Le {} { methods := [("A", ⟨"n", "(I)V"⟩)] } ∧
    (run marking "A.class" (declaringClass [functionsText] [18]).bytes).run {} =
      .ok (.modified written₁) s₁' ∧
    (run marking "A.class" (declaringClass [functionsText] [18]).bytes).run
      { tracker := { methods := [("A", ⟨"n", "(I)V"⟩)] } } = .ok (.modified written₂) s₂' ∧
    (PassOutcome.modified written₁).LeavesClass (declaringClass [functionsText] [18]) c₁ ∧
    (PassOutcome.modified written₂).LeavesClass (declaringClass [functionsText] [18]) c₂ ∧
    Prune.Sheds marking (declaringClass [functionsText] [18]) c₁ c₂ ⟨{}, {}⟩
      ⟨{ methods := [("A", ⟨"n", "(I)V"⟩)] }, {}⟩ := by
  have hle : Tracker.Le {} { methods := [("A", ⟨"n", "(I)V"⟩)] } := .empty _
  obtain ⟨written₁, s₁', h₁⟩ := of_wrote
    (r := (run marking "A.class" (declaringClass [functionsText] [18]).bytes).run {})
    (by decide +kernel)
  obtain ⟨written₂, s₂', h₂⟩ := of_wrote
    (r := (run marking "A.class" (declaringClass [functionsText] [18]).bytes).run
      { tracker := { methods := [("A", ⟨"n", "(I)V"⟩)] } }) (by decide +kernel)
  obtain ⟨c, c₁, c₂, hc, hleaves₁, hleaves₂, hsheds⟩ :=
    (sheds_of_runs h₁ h₂ rfl hle).2 (by simp) (by simp)
  obtain rfl := Except.ok.inj (hc.symm.trans ofBytes_functions)
  exact ⟨_, _, s₁', s₂', c₁, c₂, hle, h₁, h₂, hleaves₁, hleaves₂, hsheds⟩

end Pass

end JarPruning
