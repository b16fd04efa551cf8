import JarPruning.Proofs.Metadata.Absorption
import JarPruning.Proofs.Pass.Cleared
import JarPruning.Proofs.Pass.Mirrored
import JarPruning.Proofs.Sifted

/-!
What passes leave of a class, told so that it can be held against what other passes leave of it: a
member that is missing is in the tracker, a declaration that is missing has been followed up, and
links and metadata are what a larger tracker would leave of what they were.
-/
namespace JarPruning

open ConstantPool (Grows)
open Metadata (Declaration Packing Payload TypeTable)

namespace Link

variable {t t' : Tracker} {owner : String} {link : Link}

theorem filter_filter_of_imp {α : Type} {f g : α → Bool} (h : ∀ a, g a = true → f a = true)
    (l : List α) : (l.filter f).filter g = l.filter g := by
  rw [List.filter_filter]
  refine List.filter_congr fun a _ => ?_
  cases hg : g a with
  | false => rfl
  | true => rw [h a hg]; rfl

/-- With more gone, nothing is left but what would be left at once. -/
theorem rest_rest (hle : t.Le t') (owner : String) (link : Link) :
    (link.rest t owner).rest t' owner = link.rest t' owner := by
  have hclass {name : String} (h : t'.containsClass name = false) : t.containsClass name = false :=
    Bool.eq_false_iff.2 fun hgone => by cases h.symm.trans (hle.classes name hgone)
  cases link with
  | outer _ => rfl
  | inner rows =>
    refine congrArg Link.inner (filter_filter_of_imp (fun row hrow => ?_) rows)
    simp only [Bool.or_eq_true, decide_eq_true_eq, Bool.not_eq_true'] at hrow ⊢
    exact hrow.imp_right hclass
  | host _ => rfl
  | listed rows =>
    refine congrArg Link.listed (filter_filter_of_imp (fun row hrow => ?_) rows)
    simp only [Bool.not_eq_true'] at hrow ⊢
    exact hclass hrow
  | none => rfl

/-- Rows are kept by which a class would go. -/
theorem dooms_rest (t' : Tracker) (link : Link) :
    (link.rest t owner).dooms t' owner = link.dooms t' owner := by
  cases link with
  | inner rows =>
    simp only [rest, dooms, List.any_filter]
    refine List.any_congr rfl fun row => ?_
    by_cases hself : row.value.inner = owner <;> simp [hself]
  | outer _ | host _ | none => rfl
  | listed _ => rfl

theorem rest_of_listsGone (h : link.listsGone t owner = false) : link.rest t owner = link := by
  cases link with
  | inner rows =>
    refine congrArg Link.inner (List.filter_eq_self.2 fun row hrow => ?_)
    have hhere := List.any_eq_false.1 h row hrow
    by_cases hself : row.value.inner = owner <;> simp_all
  | listed rows =>
    refine congrArg Link.listed (List.filter_eq_self.2 fun row hrow => ?_)
    have hhere := List.any_eq_false.1 h row hrow
    simp_all
  | outer _ | host _ | none => rfl

end Link

theorem ClassFile.Packs.unique {c : ClassFile} {p p' : Payload} (h : c.Packs p)
    (h' : c.Packs p') : p = p' := by
  obtain ⟨hms, ha, hdescribed, hdecoded⟩ := h
  obtain ⟨hms', ha', hdescribed', hdecoded'⟩ := h'
  cases hms.symm.trans hms'
  cases ha.symm.trans ha'
  obtain ⟨rfl, rfl, rfl⟩ := hdescribed.unique hdescribed'
  exact Except.ok.inj (hdecoded.symm.trans hdecoded')

namespace Prune

open Ledger (Onward)

variable {policy : Policy} {owner : String} {pool : ConstantPool} {bootstraps : List Bootstrap}
  {l l' : Ledger} {c₀ c : ClassFile}

/-! Members. -/

theorem FieldMet.tracker_le {f : MemberEntry} {met : Option MemberEntry}
    (h : FieldMet policy owner pool l f met l') : l.tracker.Le l'.tracker := by
  cases h with
  | dropped _ _ => exact Tracker.le_addField _ _ _
  | kept _ _ _ => exact .refl _

theorem MethodMet.tracker_le {entry : MemberEntry} {met : Fate × Option MemberEntry}
    (h : MethodMet policy owner pool bootstraps l entry met l') : l.tracker.Le l'.tracker := by
  obtain @⟨m, ft, _, -, -, -⟩ := h
  cases ft with
  | delete => exact Tracker.le_addMethod _ _ _
  | stub => exact .refl _
  | keep _ => exact .refl _

/-- The field is in the tracker. -/
def FieldLost (t : Tracker) (owner : String) (pool : ConstantPool) (f : MemberEntry) : Prop :=
  ∃ m, f.resolve pool = .ok m ∧ t.containsField owner ⟨m.name, "()"⟩ = true

/-- The method is in the tracker, and what has to go with it is dealt with. -/
def MethodLost (t : Tracker) (owner : String) (pool : ConstantPool) (dealt : Signature → Prop)
    (e : MemberEntry) : Prop :=
  ∃ m, e.resolve pool = .ok m ∧ t.containsMethod owner m.toSignature = true ∧
    ∀ n ∈ Ledger.companions owner m, dealt n.toSignature

namespace Rewriting

theorem fields_sifted (r : Rewriting policy l c) (hc : c.Framed) (hlegible : c.Legible) :
    Sifted (FieldLost r.last.tracker r.name c.pool)
      (MemberStems policy c.pool · r.pool ·) c.fields r.fields := by
  obtain ⟨fields, methods, hfields, hmethods, -, hleft, -⟩ := r.met
  have hlater : r.afterFields.tracker.Le r.last.tracker := by
    rw [r.last_ledger.1]
    exact (methods_ledger r.ofMethods).1
  rw [hleft]
  refine hfields.sifted (R := fun s t => s.tracker.Le t.tracker) id (fun _ => .refl _) .trans
    FieldMet.tracker_le ?_ ?_
  · rintro u f met v - hmet hv rfl
    obtain @⟨m, hm, -⟩ := hmet
    refine ⟨m, hm, hlater.fields _ _ (hv.fields _ _ ?_)⟩
    simp [Ledger.dropField, FieldTarget.key]
  · rintro u f met v f' hf - hmet - rfl
    obtain _ | ⟨hm, hread, -⟩ := hmet
    exact .of_left hm hread (hlegible.fields f hf) (r.pool_grows hc)

theorem methods_sifted (r : Rewriting policy l c) (hc : c.Framed) (hlegible : c.Legible) :
    Sifted (MethodLost r.last.tracker r.name c.pool
        fun s => r.last.methodGone r.name r.name s = true)
      (MemberStems policy c.pool · r.pool ·) c.methods r.methods := by
  obtain ⟨-, methods, -, hmet, hfated, -, hleft⟩ := r.met
  have hboth := hmet.both (fun h h' => by obtain ⟨hm, -, -⟩ := h; exact (h'.step hm).1) hfated
  rw [hleft]
  refine hboth.sifted (R := fun s t => Onward r.name s t ∧ s.tracker.Le t.tracker) (·.2)
    (fun _ => ⟨.refl _, .refl _⟩) (fun h h' => ⟨h.1.trans h'.1, h.2.trans h'.2⟩)
    (fun h => ⟨h.1.onward, h.1.tracker_le⟩) ?_ ?_
  · rintro u e ⟨ft, e?⟩ v - ⟨hmet, -⟩ ⟨honward, hle⟩ rfl
    obtain @⟨m, _, _, hm, -, hbecomes⟩ := hmet
    cases hbecomes
    refine ⟨m, hm, ?_, fun n hn => (honward.trans r.onward_last).methods _ _ ?_⟩
    · rw [r.last_ledger.1]
      refine hle.methods _ _ ?_
      simp [Fate.ledger, Ledger.dropMethod]
    · have hdue : ((u.memory.dueMethods.remove m.toSignature).2.insertAll
          (Ledger.companions r.name m)).contains n.toSignature = true := by
        rw [GraceSet.contains_insertAll, Bool.or_eq_true, List.any_eq_true]
        exact .inr ⟨n, hn, decide_eq_true rfl⟩
      simp [Ledger.methodGone, Fate.ledger, Ledger.dropMethod, hdue]
  · rintro u e ⟨ft, e?⟩ v e' he - ⟨hmet, hfated⟩ ⟨honward, -⟩ rfl
    obtain @⟨m, _, _, hm, -, hbecomes⟩ := hmet
    obtain ⟨-, ms, hstep⟩ := hfated.step hm
    exact (hstep.stems hbecomes (hlegible.methods e he) (r.pool_grows hc)
      (honward.trans r.onward_last).stubs).toMemberStems

end Rewriting

/-! Metadata. -/

/-- With `t` gone, or more, the same is left of both payloads. -/
def SweepsAlike (owner : String) (t : Tracker) (p p' : Payload) : Prop :=
  ∀ T, t.Le T → T.containsClass owner = false → ∀ n,
    (∃ changes, p.sweep owner T = .ok (n, changes)) ↔ ∃ changes, p'.sweep owner T = .ok (n, changes)

namespace SweepsAlike

variable {t t' : Tracker} {p p' p'' : Payload} {changes : Metadata.Changes}

theorem refl (owner : String) (t : Tracker) (p : Payload) : SweepsAlike owner t p p :=
  fun _ _ _ _ => Iff.rfl

theorem mono (h : SweepsAlike owner t p p') (hle : t.Le t') : SweepsAlike owner t' p p' :=
  fun T hT hhere n => h T (hle.trans hT) hhere n

theorem trans (h : SweepsAlike owner t p p') (h' : SweepsAlike owner t p' p'') :
    SweepsAlike owner t p p'' :=
  fun T hT hhere n => (h T hT hhere n).trans (h' T hT hhere n)

theorem of_sweep (h : p.sweep owner t = .ok (p', changes)) : SweepsAlike owner t p p' := by
  intro T hT hhere n
  obtain ⟨q, c, c', hp, hp'⟩ := Payload.sweep_absorbed hT hhere h
  constructor
  · rintro ⟨d, hd⟩
    cases hp.symm.trans hd
    exact ⟨c', hp'⟩
  · rintro ⟨d, hd⟩
    cases hp'.symm.trans hd
    exact ⟨c, hp⟩

end SweepsAlike

/-- Something is packed in the strings. -/
theorem decode_nil (kind : Metadata.Kind) (d2 : List String) (p : Payload) :
    Payload.decode kind [] d2 ≠ .ok p := by
  intro h
  cases h

namespace Rewriting

/-- A class that packs a payload packs what a pass leaves of it. -/
theorem packs_result (r : Rewriting policy l c) (hc : c.Fits) (hnew : ∀ b ∈ r.new, b.Fits)
    (hone : OneMetadata c) (htold : c.Told) {p : Payload} (hp : c.Packs p) :
    ∃ p' changes, p.sweep r.name r.last.tracker = .ok (p', changes) ∧ r.result.Packs p' ∧
      (p' = p ∨ r.last = r.afterMethods.schedule changes) := by
  obtain @⟨ms, a, kind, d1, d2, hms, ha, hdescribed, hdecoded⟩ := hp
  have hsole := hone.sole hms ha
  obtain ⟨kind', d1', d2', hparts, htold⟩ := htold ms hms a ha
  cases hdescribed.parts.symm.trans hparts
  obtain ⟨p₁, p', types, hresweeps⟩ :=
    r.resweeps hc.toFramed hsole hparts hdescribed.editable hdescribed.packed
  obtain rfl : p₁ = p := Except.ok.inj (hresweeps.decoded.symm.trans hdecoded)
  obtain ⟨changes, hsweep⟩ := hresweeps.swept
  obtain ⟨b, d1', hsole', hparts', hdecode', -⟩ :=
    r.resweeps_result hc hsole hparts hdescribed.editable htold hresweeps hnew
  obtain ⟨ms', hms', -⟩ := r.marks_result hc.toFramed hnew
  have hpacked : d1' ≠ [] := by
    rintro rfl
    exact decode_nil _ _ _ hdecode'
  refine ⟨p', changes, hsweep, ⟨hms', hsole'.metadataOf hms', ⟨hparts', hdescribed.editable,
    hpacked⟩, hdecode'⟩, ?_⟩
  obtain ⟨-, hnone, -⟩ | ⟨a, b, kind', e1, e2, payload, changes', ha', hsome, hlast, hrepacked⟩ :=
    r.ofMetadata_cases
  · obtain ⟨-, hsame⟩ | ⟨b, hsome, -⟩ := hresweeps.written
    · exact .inl hsame
    · cases hnone.symm.trans hsome
  · obtain rfl := Option.some.inj ((r.metadataOf_sole hsole).symm.trans ha')
    have hstubbed := metadataParts_persists (r.installed_fit hc.toFramed).2 a _ hparts
    cases hstubbed.symm.trans hrepacked.parts
    obtain ⟨before, hdecode, hswept⟩ := swept_ok hrepacked.swept
    cases hdecoded.symm.trans hdecode
    rw [← r.last_ledger.1] at hswept
    cases hsweep.symm.trans hswept
    exact .inr hlast

end Rewriting

/-! Links. -/

/-- The links that a pass over `c` would read are what is left of those of `c₀` once what the tracker
holds is gone, and once more than that is gone. -/
def LinksRemain (policy : Policy) (owner : String) (t : Tracker) (c₀ c : ClassFile) : Prop :=
  ∀ ms links, marks c.pool c.attributes = .ok ms → Linked policy c ms links →
    ∃ ms₀ links₀, marks c₀.pool c₀.attributes = .ok ms₀ ∧ Linked policy c₀ ms₀ links₀ ∧
      List.Forall₂ (fun p₀ p => p.1.name = p₀.1.name ∧
        ∀ T, t.Le T → p.2.rest T owner = p₀.2.rest T owner) links₀ links

theorem LinksRemain.refl (policy : Policy) (owner : String) (t : Tracker) (c : ClassFile) :
    LinksRemain policy owner t c c := fun ms links hms hlinked =>
  ⟨ms, links, hms, hlinked, List.forall₂_same.2 fun _ _ => ⟨rfl, fun _ _ => rfl⟩⟩

theorem LinksRemain.mono {t t' : Tracker} (h : LinksRemain policy owner t c₀ c) (hle : t.Le t') :
    LinksRemain policy owner t' c₀ c := by
  intro ms links hms hlinked
  obtain ⟨ms₀, links₀, hms₀, hlinked₀, hall⟩ := h ms links hms hlinked
  exact ⟨ms₀, links₀, hms₀, hlinked₀, hall.imp fun _ _ h => ⟨h.1, fun T hT => h.2 T (hle.trans hT)⟩⟩

namespace Rewriting

/-- Nothing is stripped from what a pass left. -/
theorem linked_result (r : Rewriting policy l c) (hc : c.Framed) (hnew : ∀ b ∈ r.new, b.Fits)
    {ms : List Marked} (hms : marks r.pool r.attributes = .ok ms) :
    ∃ links, Linked policy r.result ms links ∧
      readLinks r.pool r.attributes = .ok links ∧
      List.Forall₂ (fun p p' => p'.1.name = p.1.name ∧ p'.2 = p.2.rest l.tracker r.name)
        r.links links := by
  obtain ⟨ms', hms', hupdated⟩ := r.marks_result hc hnew
  cases hms.symm.trans hms'
  obtain ⟨links, hlinks, hrest⟩ := r.links_result hc
  refine ⟨links, ?_, hlinks, hrest⟩
  rw [Linked, (r.calm_result hms hupdated).stripAll_eq]
  exact hlinks

end Rewriting

theorem LinksRemain.rewritten (h : LinksRemain policy owner l.tracker c₀ c)
    (r : Rewriting policy l.expire c) (hc : c.Framed) (hnew : ∀ b ∈ r.new, b.Fits)
    (hname : r.name = owner) : LinksRemain policy owner r.last.tracker c₀ r.result := by
  subst hname
  intro ms links hms hlinked
  obtain ⟨links', hlinked', -, hrest⟩ := r.linked_result hc hnew hms
  obtain rfl := Except.ok.inj (hlinked'.symm.trans hlinked)
  obtain ⟨ms₀, links₀, hms₀, hlinked₀, hall⟩ := h r.marked r.links r.surveyed.read r.linked
  refine ⟨ms₀, links₀, hms₀, hlinked₀, forall₂_trans (fun p₀ p p' h h' => ?_) hall hrest⟩
  refine ⟨h'.1.trans h.1, fun T hT => ?_⟩
  have hle : l.tracker.Le T := r.tracker_le.trans hT
  rw [h'.2]
  exact (Link.rest_rest hle r.name p.2).trans (h.2 T hle)

/-! Classes. -/

/-- What passes left of the class `c₀`, called `owner`. What has to go along with something that is
in the tracker is dealt with. -/
structure Remains (policy : Policy) (owner : String) (c₀ : ClassFile) (t : Tracker)
    (dealt : Loss → Prop) (c : ClassFile) : Prop where
  pool : Grows c₀.pool c.pool
  annotated : ∀ a₀ d, Annotated c₀.pool c₀.attributes a₀ d → stripsFromClass policy d = false →
    ∃ a, Annotated c.pool c.attributes a d
  links : LinksRemain policy owner t c₀ c
  fields : Sifted (FieldLost t owner c₀.pool) (MemberStems policy c₀.pool · c.pool ·)
    c₀.fields c.fields
  methods : Sifted (MethodLost t owner c₀.pool fun s => dealt (.dueMethod c₀ s))
    (MemberStems policy c₀.pool · c.pool ·) c₀.methods c.methods
  declares : ∀ d, c₀.Declares owner d → c.Declares owner d ∨
    (∀ n ∈ d.following, dealt (.dueMethod c₀ n.toSignature)) ∧
      ∀ f, d.field = some f → f.extension = "()" → dealt (.dueField c₀ f.name)
  packs : ∀ p₀, c₀.Packs p₀ → ∃ p, c.Packs p ∧ SweepsAlike owner t p₀ p
  packed : ∀ p, c.Packs p → ∃ p₀, c₀.Packs p₀

namespace Remains

variable {t : Tracker} {dealt dealt' : Loss → Prop}

theorem refl (policy : Policy) (owner : String) (t : Tracker) (dealt : Loss → Prop) (c : ClassFile) :
    Remains policy owner c t dealt c where
  pool := .refl c.pool
  annotated a _ ha _ := ⟨a, ha⟩
  links := .refl policy owner t c
  fields := .refl (MemberStems.refl policy c.pool) _
  methods := .refl (MemberStems.refl policy c.pool) _
  declares _ hd := .inl hd
  packs p hp := ⟨p, hp, .refl owner t p⟩
  packed p hp := ⟨p, hp⟩

theorem mono {t' : Tracker} (h : Remains policy owner c₀ t dealt c) (hle : t.Le t')
    (hdealt : ∀ x, dealt x → dealt' x) : Remains policy owner c₀ t' dealt' c where
  pool := h.pool
  annotated := h.annotated
  links := h.links.mono hle
  fields := h.fields.mono (fun _ ⟨m, hm, hgone⟩ => ⟨m, hm, hle.fields _ _ hgone⟩) fun _ _ h => h
  methods := h.methods.mono (fun _ ⟨m, hm, hgone, hcompanions⟩ =>
    ⟨m, hm, hle.methods _ _ hgone, fun n hn => hdealt _ (hcompanions n hn)⟩) fun _ _ h => h
  declares d hd := (h.declares d hd).imp_right fun ⟨hmethods, hfields⟩ =>
    ⟨fun n hn => hdealt _ (hmethods n hn), fun f hf hplain => hdealt _ (hfields f hf hplain)⟩
  packs p₀ hp₀ := by
    obtain ⟨p, hp, halike⟩ := h.packs p₀ hp₀
    exact ⟨p, hp, halike.mono hle⟩
  packed := h.packed

/-- What remains after one more pass. What the pass has due of its own is dealt with when the next
one starts, if not before. -/
theorem rewritten (h : Remains policy owner c₀ l.tracker (Handled policy l c₀ owner c) c)
    (r : Rewriting policy l.expire c) (hc : c.Fits) (hnew : ∀ b ∈ r.new, b.Fits)
    (hlegible : c.Legible) (hone : OneMetadata c) (hname : r.name = owner) :
    Remains policy owner c₀ r.last.tracker (Handled policy r.last c₀ owner r.result) r.result := by
  subst hname
  have hbefore :
      Remains policy r.name c₀ r.last.tracker (Handled policy r.last c₀ r.name r.result) c :=
    h.mono r.tracker_le fun x hx => .inr (hx.rewritten r hc.toFramed hnew hlegible rfl)
  exact {
    pool := h.pool.trans (r.pool_grows hc.toFramed)
    annotated := fun a₀ d ha₀ hd => by
      obtain ⟨a, ha⟩ := h.annotated a₀ d ha₀ hd
      obtain ⟨ms, hms, hupdated⟩ := r.marks_result hc.toFramed hnew
      have hin : d ∈ (Marked.all ms).map (·.2) := by
        rw [hupdated.descriptors]
        exact List.mem_map.2 ⟨(a, d), List.mem_filter.2
          ⟨(Marked.mem_all_iff r.surveyed.read).2 ha, by simp [hd]⟩, rfl⟩
      obtain ⟨⟨a', _⟩, ha', rfl⟩ := List.mem_map.1 hin
      exact ⟨a', (Marked.mem_all_iff hms).1 ha'⟩
    links := LinksRemain.rewritten h.links r hc.toFramed hnew rfl
    fields := hbefore.fields.trans (r.fields_sifted hc.toFramed hlegible) (fun _ hlost => hlost)
      (fun _ _ hstems ⟨m, hm, hgone⟩ => ⟨m, hstems.resolves m hm, hgone⟩)
      fun _ _ _ h h' => h.trans h'
    methods := hbefore.methods.trans (r.methods_sifted hc.toFramed hlegible) (fun _ hlost => hlost)
      (fun _ _ hstems ⟨m, hm, hgone, hcompanions⟩ => ⟨m, hstems.resolves m hm, hgone,
        fun n hn => r.handled_method hc.toFramed hlegible (hcompanions n hn)⟩)
      fun _ _ _ h h' => h.trans h'
    declares := fun d hd => by
      refine (hbefore.declares d hd).elim (fun hdeclares => ?_) .inr
      obtain ⟨p, types, hpacks, htypes, hdeclares⟩ := hdeclares
      obtain ⟨p', changes, hsweep, hpacks', hsame | hlast⟩ :=
        r.packs_result hc hnew hone hlegible.told hpacks
      · subst hsame
        exact .inl ⟨_, types, hpacks', htypes, hdeclares⟩
      obtain hstill | ⟨hfollowing, hbacking⟩ := hdeclares.sweep hsweep htypes
      · refine .inl ⟨p', types, hpacks', ?_, hstill⟩
        rw [(Payload.sweep_keeps hsweep).2.2.2]
        exact htypes
      · refine .inr ⟨fun n hn => ?_, fun f hf hplain => ?_⟩
        · refine r.handled_method hc.toFramed hlegible ?_
          rw [hlast]
          exact Ledger.methodGone_schedule (hfollowing hn)
        · refine r.handled_field hc.toFramed hlegible ?_
          rw [hlast]
          exact Ledger.fieldGone_schedule (hbacking (by simp [hf])) hplain
    packs := fun p₀ hp₀ => by
      obtain ⟨p, hp, halike⟩ := hbefore.packs p₀ hp₀
      obtain ⟨p', changes, hsweep, hpacks', -⟩ := r.packs_result hc hnew hone hlegible.told hp
      exact ⟨p', hpacks', halike.trans (.of_sweep hsweep)⟩
    packed := fun p hp => by
      obtain ⟨p₁, hp₁, -⟩ := r.payload_of_metadata hc.toFramed hnew hlegible.told hp
      exact h.packed p₁ hp₁ }

end Remains

end Prune

end JarPruning
