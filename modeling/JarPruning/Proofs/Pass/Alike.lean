import JarPruning.Proofs.Pass.Reached

/-!
What two runs leave of one class. Where both trackers answer alike, the classes have the same
members with the same bodies, the same links and the same metadata, whichever way the runs went.
-/
namespace JarPruning

open ConstantPool (Grows)
open Metadata (Payload)

/-- Two members, each read from its own pool, that are the same, with the same annotations. -/
structure MemberEntry.Alike (p : ConstantPool) (e : MemberEntry) (q : ConstantPool)
    (f : MemberEntry) : Prop where
  resolved : ∃ m, e.resolve p = .ok m ∧ f.resolve q = .ok m
  annotated : ∀ a d, Annotated p e.attributes a d ↔ Annotated q f.attributes a d

/-- Two classes that are the same but for what else their pools hold. -/
structure ClassFile.Alike (c₁ c₂ : ClassFile) : Prop where
  header : ∃ h, Walk.header c₁ = .ok h ∧ Walk.header c₂ = .ok h
  bootstraps : ∃ bs, Walk.bootstraps c₁ = .ok bs ∧ Walk.bootstraps c₂ = .ok bs
  fields : List.Forall₂ (MemberEntry.Alike c₁.pool · c₂.pool ·) c₁.fields c₂.fields
  methods : List.Forall₂ (fun e₁ e₂ => MemberEntry.Alike c₁.pool e₁ c₂.pool e₂ ∧
    e₁.body? c₁.pool = e₂.body? c₂.pool) c₁.methods c₂.methods
  links : ∃ links₁ links₂, Prune.readLinks c₁.pool c₁.attributes = .ok links₁ ∧
    Prune.readLinks c₂.pool c₂.attributes = .ok links₂ ∧
      List.Forall₂ (fun p₁ p₂ => p₁.1.name = p₂.1.name ∧ p₁.2 = p₂.2) links₁ links₂
  packs : ∀ p, c₁.Packs p ↔ c₂.Packs p

theorem Link.listsGone_mono {t t' : Tracker} (hle : t.Le t') {owner : String} {link : Link}
    (h : link.listsGone t' owner = false) : link.listsGone t owner = false := by
  refine Bool.eq_false_iff.2 fun hgone => Bool.eq_false_iff.1 h ?_
  cases link with
  | inner rows =>
    obtain ⟨row, hrow, hlists⟩ := List.any_eq_true.1 hgone
    rw [Bool.and_eq_true] at hlists
    exact List.any_eq_true.2 ⟨row, hrow, Bool.and_eq_true_iff.2 ⟨hlists.1, hle.classes _ hlists.2⟩⟩
  | listed rows =>
    obtain ⟨row, hrow, hlists⟩ := List.any_eq_true.1 hgone
    exact List.any_eq_true.2 ⟨row, hrow, hle.classes _ hlists⟩
  | outer _ | host _ | none => cases hgone

namespace Prune

variable {policy : Policy} {classes : List ClassFile} {owner : String} {c₀ c c₁ c₂ : ClassFile}
  {l l₁ l₂ : Ledger} {t t₁ t₂ : Tracker}

theorem MemberStems.alike {p q r : ConstantPool} {e₀ e f : MemberEntry} {m : Member}
    (he : MemberStems policy p e₀ q e) (hf : MemberStems policy p e₀ r f)
    (hm : e.resolve q = .ok m) (hn : f.resolve r = .ok m)
    (hspared : ∀ a d, Annotated q e.attributes a d → policy.spares d = true)
    (hspared' : ∀ a d, Annotated r f.attributes a d → policy.spares d = true) :
    MemberEntry.Alike q e r f where
  resolved := ⟨m, hm, hn⟩
  annotated a d := by
    have hkept (hspares : policy.spares d = true) : policy.strips d = false := by
      simp only [Policy.spares, Bool.and_eq_true, Bool.not_eq_true'] at hspares
      exact hspares.2
    exact ⟨fun ha => hf.keeps a d (he.annotated a d ha) (hkept (hspared a d ha)),
      fun ha => he.keeps a d (hf.annotated a d ha) (hkept (hspared' a d ha))⟩

/-- Bodies that remain of one body are the same, if nothing in them suffers from what is lost. -/
theorem BodyRemains.agree {W : Loss → Prop} {bootstraps : List Bootstrap} {e₀ : MemberEntry}
    {m : Member} {b b₁ b₂ : Option (List UInt8)}
    (h₁ : BodyRemains policy W owner c₀ bootstraps e₀ m b b₁)
    (h₂ : BodyRemains policy W owner c₀ bootstraps e₀ m b b₂)
    (hspared : ¬ Asks policy c₀.pool e₀ m → ∀ payload, b₁ = some payload ∨ b₂ = some payload →
      ∀ ss, sites c₀.pool bootstraps payload = .ok ss → ∀ s ∈ ss, ∀ x, W x →
        ¬ s.2.Suffers c₀ owner m.isConstructor x) : b₁ = b₂ := by
  cases h₁ with
  | bare =>
    cases h₂
    rfl
  | stubbed hasks hwritten =>
    cases h₂ with
    | stubbed _ hwritten' => rw [hwritten.unique hwritten']
    | walked hwhole _ => exact absurd hasks hwhole
  | walked hwhole hover =>
    cases h₂ with
    | stubbed hasks _ => exact absurd hasks hwhole
    | walked _ hover' =>
      refine congrArg some (hover.eq_of_clear hover' ?_ ?_)
      all_goals
        intro ss hss s hs op target hsite hgone
        obtain ⟨-, x, hx, hhits⟩ := hgone
        by_contra hbytes
      · exact hspared hwhole _ (.inl rfl) ss hss s hs x hx (.inr ⟨op, target, hsite, hhits, hbytes⟩)
      · exact hspared hwhole _ (.inr rfl) ss hss s hs x hx (.inr ⟨op, target, hsite, hhits, hbytes⟩)

namespace Ended

theorem not_fieldLost (h : Ended policy classes owner c₀ t₁ l c) (hle : t₂.Le t₁)
    {f₀ f : MemberEntry} (hf : f ∈ c.fields) (hstems : MemberStems policy c₀.pool f₀ c.pool f) :
    ¬ FieldLost t₂ owner c₀.pool f₀ := by
  rintro ⟨m, hm, hgone⟩
  obtain ⟨n, hclosed⟩ := h.closed.fields f hf
  obtain rfl := Except.ok.inj (hm.symm.trans (hstems.resolves n hclosed.resolved))
  cases hclosed.here.symm.trans (hle.fields _ _ hgone)

theorem not_methodLost (h : Ended policy classes owner c₀ t₁ l c) (hle : t₂.Le t₁)
    {dealt : Signature → Prop} {e₀ e : MemberEntry} (he : e ∈ c.methods)
    (hstems : MemberStems policy c₀.pool e₀ c.pool e) : ¬ MethodLost t₂ owner c₀.pool dealt e₀ := by
  rintro ⟨m, hm, hgone, -⟩
  obtain ⟨bootstraps, -, hmethods⟩ := h.closed.methods
  obtain ⟨n, hclosed⟩ := hmethods e he
  obtain rfl := Except.ok.inj (hm.symm.trans (hstems.resolves n hclosed.resolved))
  cases hclosed.here.symm.trans (hle.methods _ _ hgone)

/-- The links of a class at the end of a run are what is left of those it had once what any tracker
that answers alike holds is gone. -/
theorem links_left (h : Ended policy classes owner c₀ t₁ l c) (hle : t₁.Le t₂) (hle' : t₂.Le t₁) :
    ∃ ms₀ links₀ links, marks c₀.pool c₀.attributes = .ok ms₀ ∧ Linked policy c₀ ms₀ links₀ ∧
      readLinks c.pool c.attributes = .ok links ∧
      List.Forall₂ (fun p₀ p => p.1.name = p₀.1.name ∧ p.2 = p₀.2.rest t₂ owner) links₀ links := by
  obtain ⟨ms, links, hms, hlinked, hlinks⟩ := h.linked
  obtain ⟨ms₀, links₀, hms₀, hlinked₀, hall⟩ := h.remains.links ms links hms hlinked
  obtain ⟨hattributes, hreads⟩ := readLinks_ok_iff.1 hlinks
  refine ⟨ms₀, links₀, links, hms₀, hlinked₀, hlinks, ?_⟩
  have hquiet : ∀ p ∈ links, p.2.rest t₂ owner = p.2 := by
    intro p hp
    obtain ⟨link, hlink, -, hlists⟩ := h.closed.links p.1 (hattributes ▸ List.mem_map_of_mem hp)
    obtain rfl := Except.ok.inj ((hreads p hp).ok.symm.trans hlink.ok)
    exact Link.rest_of_listsGone (Link.listsGone_mono hle' hlists)
  refine forall₂_imp_mem hall fun p₀ _ p hp h => ?_
  exact ⟨h.1, (hquiet p hp).symm.trans (h.2 t₂ hle)⟩

/-- What a class packs at the end of a run is what is left of what it packed once what any tracker
that answers alike holds is gone. -/
theorem packs_iff (h : Ended policy classes owner c₀ t₁ l c) (hle : t₁.Le t₂) (hle' : t₂.Le t₁)
    {p : Payload} :
    c.Packs p ↔ ∃ p₀ changes, c₀.Packs p₀ ∧ p₀.sweep owner t₂ = .ok (p, changes) := by
  have hhere : t₂.containsClass owner = false :=
    Bool.eq_false_iff.2 fun hgone => by cases h.here.symm.trans (hle'.classes _ hgone)
  have hquiet {q q' : Payload} {changes : Metadata.Changes} (hq : c.Packs q)
      (hsweep : q.sweep owner t₂ = .ok (q', changes)) : q' = q := by
    obtain ⟨changes', hsweep', hremoved⟩ := h.quiet q hq
    exact Payload.sweep_quiet hsweep ((Payload.sweep_sheds hle' h.here hsweep hsweep').2 hremoved)
  have hleft {p₀ q : Payload} (hp₀ : c₀.Packs p₀) (hq : c.Packs q) :
      ∃ changes, p₀.sweep owner t₂ = .ok (q, changes) := by
    obtain ⟨q', hq', halike⟩ := h.remains.packs p₀ hp₀
    obtain rfl := hq.unique hq'
    obtain ⟨changes, hsweep, -⟩ := h.quiet q hq
    obtain ⟨q', c, c', hsweep', hsweep''⟩ := Payload.sweep_absorbed hle hhere hsweep
    obtain rfl := hquiet hq hsweep'
    exact (halike t₂ hle hhere q').2 ⟨c, hsweep'⟩
  constructor
  · intro hp
    obtain ⟨p₀, hp₀⟩ := h.remains.packed p hp
    obtain ⟨changes, hsweep⟩ := hleft hp₀ hp
    exact ⟨p₀, changes, hp₀, hsweep⟩
  · rintro ⟨p₀, changes, hp₀, hsweep⟩
    obtain ⟨q, hq, -⟩ := h.remains.packs p₀ hp₀
    obtain ⟨changes', hsweep'⟩ := hleft hp₀ hq
    cases hsweep.symm.trans hsweep'
    exact hq

/-- What two runs leave of a class is alike, if their trackers are. -/
theorem alike (hdiffer : MethodsDiffer c₀.pool c₀.methods) (hle : t₁.Le t₂) (hle' : t₂.Le t₁)
    (hreached₁ : ∀ x, Doomed policy classes x → Reached policy classes t₁ x)
    (hreached₂ : ∀ x, Doomed policy classes x → Reached policy classes t₂ x)
    (h₁ : Ended policy classes owner c₀ t₁ l₁ c₁)
    (h₂ : Ended policy classes owner c₀ t₂ l₂ c₂) : c₁.Alike c₂ := by
  obtain ⟨header₁, hheader₁, -⟩ := h₁.closed.header
  obtain ⟨header₂, hheader₂, -⟩ := h₂.closed.header
  obtain rfl := Except.ok.inj ((h₁.spares.stems.header _ hheader₁).symm.trans
    (h₂.spares.stems.header _ hheader₂))
  obtain ⟨bootstraps, hbootstraps₁, hmethods₁⟩ := h₁.closed.methods
  obtain ⟨bootstraps₂, hbootstraps₂, hmethods₂⟩ := h₂.closed.methods
  have hread := (h₁.spares.stems.methods _ hbootstraps₁).1
  obtain rfl := Except.ok.inj (hread.symm.trans (h₂.spares.stems.methods _ hbootstraps₂).1)
  exact {
    header := ⟨header₁, hheader₁, hheader₂⟩
    bootstraps := ⟨bootstraps, hbootstraps₁, hbootstraps₂⟩
    fields := by
      have hall := h₁.remains.fields.agree h₂.remains.fields
        (fun _ _ hf hstems => h₁.not_fieldLost hle' hf hstems)
        fun _ _ hf hstems => h₂.not_fieldLost hle hf hstems
      refine forall₂_imp_mem hall fun f₁ hf₁ f₂ hf₂ h => ?_
      obtain ⟨f₀, -, hstems₁, hstems₂⟩ := h
      obtain ⟨m, hclosed₁⟩ := h₁.closed.fields f₁ hf₁
      obtain ⟨m₂, hclosed₂⟩ := h₂.closed.fields f₂ hf₂
      obtain rfl := Except.ok.inj ((hstems₁.resolves m hclosed₁.resolved).symm.trans
        (hstems₂.resolves m₂ hclosed₂.resolved))
      exact hstems₁.alike hstems₂ hclosed₁.resolved hclosed₂.resolved hclosed₁.spared
        hclosed₂.spared
    methods := by
      have hall := h₁.remains.methods.agree h₂.remains.methods
        (fun _ _ he hstems => h₁.not_methodLost hle' he hstems)
        fun _ _ he hstems => h₂.not_methodLost hle he hstems
      refine forall₂_imp_mem hall fun e₁ he₁ e₂ he₂ h => ?_
      obtain ⟨e₀, he₀, hstems₁, hstems₂⟩ := h
      obtain ⟨m, hclosed₁⟩ := hmethods₁ e₁ he₁
      obtain ⟨m₂, hclosed₂⟩ := hmethods₂ e₂ he₂
      have hm₁ := hclosed₁.resolved
      have hm₂ := hclosed₂.resolved
      obtain rfl := Except.ok.inj ((hstems₁.resolves m hm₁).symm.trans (hstems₂.resolves m₂ hm₂))
      refine ⟨hstems₁.alike hstems₂ hm₁ hm₂ hclosed₁.spared hclosed₂.spared, ?_⟩
      have hm₀ := hstems₁.resolves m hm₁
      have hremains₁ := h₁.body_remains hdiffer he₀ he₁ hm₀ hm₁ hread
      have hremains₂ := h₂.body_remains hdiffer he₀ he₂ hm₀ hm₂ hread
      refine hremains₁.agree hremains₂ fun hwhole payload hpayload ss hss s hs x hx => ?_
      obtain hbody | hbody := hpayload
      · exact h₁.spared_body (hreached₁ x hx) he₁ hstems₁ hm₁ hwhole hread hbody hss hs
      · exact h₂.spared_body (hreached₂ x hx) he₂ hstems₂ hm₂ hwhole hread hbody hss hs
    links := by
      obtain ⟨ms₀, links₀, links₁, hms₀, hlinked₀, hlinks₁, hall₁⟩ := h₁.links_left hle hle'
      obtain ⟨ms₀', links₀', links₂, hms₀', hlinked₀', hlinks₂, hall₂⟩ := h₂.links_left (.refl t₂)
        (.refl t₂)
      cases hms₀.symm.trans hms₀'
      cases hlinked₀.symm.trans hlinked₀'
      refine ⟨links₁, links₂, hlinks₁, hlinks₂, forall₂_trans (fun p₁ p₀ p₂ h h' => ?_)
        hall₁.flip hall₂⟩
      exact ⟨h.1.trans h'.1.symm, h.2.trans h'.2.symm⟩
    packs := fun p => (h₁.packs_iff hle hle').trans (h₂.packs_iff (.refl t₂) (.refl t₂)).symm }

end Ended

end Prune

end JarPruning
