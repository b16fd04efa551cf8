import JarPruning.Proofs.Pass.Traced

/-!
A run that ends stable reaches everything that is doomed. The doomed losses are the least that what
classes ask for and lead to; so it is enough that the classes at the end of the run leave nothing
open of what they asked for, or led to, before it.
-/
namespace JarPruning

open Metadata (Declaration)

namespace Tracker

variable {t : Tracker} {owner : String}

theorem containsMethod_of_class (h : t.containsClass owner = true) (s : Signature) :
    t.containsMethod owner s = true := by simp [containsMethod, h]

theorem containsField_of_class (h : t.containsClass owner = true) (key : FieldKey) :
    t.containsField owner key = true := by simp [containsField, h]

end Tracker

namespace Prune

variable {policy : Policy} {classes : List ClassFile} {owner : String} {c₀ c : ClassFile}
  {l : Ledger} {t : Tracker} {x y : Loss}

theorem Linked.mem {ms : List Marked} {links : List (Attribute × Link)}
    (h : Linked policy c ms links) (hms : marks c.pool c.attributes = .ok ms) {a : Attribute}
    (ha : a ∈ c.attributes) {link : Link} (hlink : Link.Read c.pool a link) (hne : link ≠ .none) :
    (a, link) ∈ links := by
  obtain ⟨hsource, hreads⟩ := marks_ok_iff.1 hms
  obtain ⟨hstripped, hread⟩ := readLinks_ok_iff.1 h
  rw [hsource] at ha
  obtain ⟨m, hm, rfl⟩ := List.mem_map.1 ha
  have hplain : m.source.isAnnotations c.pool = false :=
    Bool.eq_false_iff.2 fun hmarked => hne (hlink.of_isAnnotations hmarked)
  have hin : m.source ∈ (Marked.stripAll (stripsFromClass policy) ms).1 :=
    List.mem_flatMap.2 ⟨m, hm, by simp [(hreads m hm).strip_plain hplain]⟩
  rw [hstripped] at hin
  obtain ⟨⟨a, link'⟩, hp, rfl⟩ := List.mem_map.1 hin
  rwa [Except.ok.inj (hlink.ok.symm.trans (hread _ hp).ok)]

/-- A run that ended with the tracker `t` has reached the loss: the tracker holds it, or, where it was
due, nothing is left of it. -/
def Reached (policy : Policy) (classes : List ClassFile) (t : Tracker) : Loss → Prop
  | .dueMethod c₀ s => ∀ owner l c, Ended policy classes owner c₀ t l c →
      Cleared policy l c₀ owner c (.dueMethod c₀ s)
  | .dueField c₀ name => ∀ owner l c, Ended policy classes owner c₀ t l c →
      Cleared policy l c₀ owner c (.dueField c₀ name)
  | x => t.Has x

namespace Reached

theorem method (h : Reached policy classes t x) {s : Signature} (htakes : x.TakesMethod owner s) :
    t.containsMethod owner s = true := by
  obtain rfl | rfl := htakes
  · exact Tracker.containsMethod_of_class h s
  · exact h

theorem field (h : Reached policy classes t x) {key : FieldKey} (htakes : x.TakesField owner key) :
    t.containsField owner key = true := by
  obtain rfl | ⟨hplain, rfl⟩ := htakes
  · exact Tracker.containsField_of_class h key
  · obtain ⟨name, extension⟩ := key
    obtain rfl : extension = "()" := hplain
    exact h

theorem dooms (h : Reached policy classes t x) {link : Link} (hfalls : link.FallsTo owner x) :
    link.dooms t owner = true := by
  cases link with
  | outer link =>
    rw [Link.dooms, Bool.or_eq_true, Option.any_eq_true]
    obtain rfl | ⟨s, hs, htakes⟩ := hfalls
    · exact .inl h
    · exact .inr ⟨s, hs, h.method htakes⟩
  | inner rows =>
    obtain ⟨row, hrow, hself, outer, houter, rfl⟩ := hfalls
    refine List.any_eq_true.2 ⟨row, hrow, ?_⟩
    rw [Bool.and_eq_true, decide_eq_true_eq, Option.any_eq_true]
    exact ⟨hself, outer, houter, h⟩
  | host name =>
    obtain rfl : x = .ofClass name := hfalls
    exact h
  | listed _ => cases hfalls
  | none => cases hfalls

theorem goes (h : Reached policy classes t x) (hhere : t.containsClass owner = false)
    {d : Declaration} (hfalls : d.FallsTo owner x) : d.goes owner t = true := by
  rw [Declaration.goes, Bool.or_eq_true, List.any_eq_true, Option.any_eq_true]
  obtain ⟨s, hs, htakes⟩ | ⟨f, hf, htakes⟩ := hfalls
  · exact .inl ⟨s, hs, h.method htakes⟩
  · have hgone := h.field htakes
    rw [Tracker.containsField, hhere, Bool.false_or] at hgone
    exact .inr ⟨f, hf, hgone⟩

/-- A class at the end of the run is cleared of what the run has reached. -/
theorem cleared (h : Reached policy classes t x) (hend : Ended policy classes owner c₀ t l c) :
    Cleared policy l c₀ owner c x := by
  -- What is due in another class hits nothing in this one.
  cases x with
  | ofClass _ => exact hend.clears _ h
  | method _ _ => exact hend.clears _ h
  | field _ _ => exact hend.clears _ h
  | dueMethod c₁ s =>
    by_cases hsame : c₁ = c₀
    · subst hsame
      exact h owner l c hend
    · refine .of_misses ?_ ?_
      · rintro o s' ((htakes | htakes) | ⟨-, hdue⟩)
        · cases htakes
        · cases htakes
        · exact hsame (Loss.dueMethod.inj hdue).1
      · rintro o name ((htakes | ⟨-, htakes⟩) | ⟨-, hdue⟩)
        · cases htakes
        · cases htakes
        · cases hdue
  | dueField c₁ name =>
    by_cases hsame : c₁ = c₀
    · subst hsame
      exact h owner l c hend
    · refine .of_misses ?_ ?_
      · rintro o s' ((htakes | htakes) | ⟨-, hdue⟩)
        · cases htakes
        · cases htakes
        · cases hdue
      · rintro o name' ((htakes | ⟨-, htakes⟩) | ⟨-, hdue⟩)
        · cases htakes
        · cases htakes
        · exact hsame (Loss.dueField.inj hdue).1

end Reached

namespace Ended

/-- The class is not gone. -/
theorem here (h : Ended policy classes owner c₀ t l c) : t.containsClass owner = false := by
  obtain ⟨header, hheader, hhere, -⟩ := h.closed.header
  rwa [Except.ok.inj ((Pruner.header_name hheader).symm.trans h.closed.named)] at hhere

/-- A method of the class as it was is in the tracker, and what has to go along is cleared, or it is
left. -/
theorem method_left (h : Ended policy classes owner c₀ t l c) {e₀ : MemberEntry}
    (he₀ : e₀ ∈ c₀.methods) {m : Member} (hm : e₀.resolve c₀.pool = .ok m) :
    (t.containsMethod owner m.toSignature = true ∧ ∀ n ∈ Ledger.companions owner m,
        Cleared policy l c₀ owner c (.dueMethod c₀ n.toSignature)) ∨
      ∃ e ∈ c.methods, e.resolve c.pool = .ok m ∧ MemberStems policy c₀.pool e₀ c.pool e := by
  obtain ⟨n, hn, hgone, hcompanions⟩ | ⟨e, he, hstems⟩ := h.remains.methods.mem_left he₀
  · obtain rfl := Except.ok.inj (hm.symm.trans hn)
    exact .inl ⟨hgone, hcompanions⟩
  · obtain ⟨bootstraps, -, hmethods⟩ := h.closed.methods
    obtain ⟨n, hclosed⟩ := hmethods e he
    obtain rfl := Except.ok.inj (hm.symm.trans (hstems.resolves n hclosed.resolved))
    exact .inr ⟨e, he, hclosed.resolved, hstems⟩

theorem field_left (h : Ended policy classes owner c₀ t l c) {f₀ : MemberEntry}
    (hf₀ : f₀ ∈ c₀.fields) {m : Member} (hm : f₀.resolve c₀.pool = .ok m) :
    t.containsField owner ⟨m.name, "()"⟩ = true ∨
      ∃ f ∈ c.fields, f.resolve c.pool = .ok m ∧ MemberStems policy c₀.pool f₀ c.pool f := by
  obtain ⟨n, hn, hgone⟩ | ⟨f, hf, hstems⟩ := h.remains.fields.mem_left hf₀
  · obtain rfl := Except.ok.inj (hm.symm.trans hn)
    exact .inl hgone
  · obtain ⟨n, hclosed⟩ := h.closed.fields f hf
    obtain rfl := Except.ok.inj (hm.symm.trans (hstems.resolves n hclosed.resolved))
    exact .inr ⟨f, hf, hclosed.resolved, hstems⟩

/-- A method that is left is none that a reached loss takes, or that is due. -/
theorem not_hitsMethod (h : Ended policy classes owner c₀ t l c) (hx : Reached policy classes t x)
    {e : MemberEntry} (he : e ∈ c.methods) {m : Member} (hm : e.resolve c.pool = .ok m) :
    ¬ x.HitsMethod c₀ owner owner m.toSignature :=
  fun hhits => (hx.cleared h).methods _ hhits ⟨e, he, m, hm, rfl⟩

theorem not_hitsField (h : Ended policy classes owner c₀ t l c) (hx : Reached policy classes t x)
    {f : MemberEntry} (hf : f ∈ c.fields) {m : Member} (hm : f.resolve c.pool = .ok m) :
    ¬ x.HitsField c₀ owner owner m.name :=
  fun hhits => (hx.cleared h).fields _ hhits ⟨f, hf, m, hm, rfl⟩

theorem bears_no_deletion {policy : Policy} {pool : ConstantPool} {e : MemberEntry}
    (hspared : ∀ a d, Annotated pool e.attributes a d → policy.spares d = true) :
    ¬ Bears policy pool e .delete := by
  rintro ⟨a, d, ha, hd⟩
  have hspares := hspared a d ha
  simp [Policy.spares, Policy.deletes, hd] at hspares

/-- What a class asked for that is still there is gone. -/
theorem asked (h : Ended policy classes owner c₀ t l c) (hasks : c₀.Asks policy owner x) :
    Reached policy classes t x := by
  cases hasks with
  | @ofClass a₀ d ha₀ hdeletes =>
    obtain ⟨hother, hrole⟩ : d ≠ Pruner.metadataDescriptor ∧ policy.deletes d = true := by
      simpa [deletesClass] using hdeletes
    have hkept : stripsFromClass policy d = false := by
      simp only [Policy.deletes, decide_eq_true_eq] at hrole
      simp [stripsFromClass, Policy.strips, hrole]
    obtain ⟨a, ha⟩ := h.remains.annotated a₀ d ha₀ hkept
    have hspares := h.closed.annotations a d ha hother
    simp [Policy.spares, hrole] at hspares
  | @method e₀ m he₀ hm hbears =>
    obtain ⟨hgone, -⟩ | ⟨e, he, hm', hstems⟩ := h.method_left he₀ hm
    · exact hgone
    · obtain ⟨bootstraps, -, hmethods⟩ := h.closed.methods
      obtain ⟨n, hclosed⟩ := hmethods e he
      exact absurd ((hstems.bears_iff (by decide)).2 hbears) (bears_no_deletion hclosed.spared)
  | @field f₀ m hf₀ hm hbears =>
    obtain hgone | ⟨f, hf, hm', hstems⟩ := h.field_left hf₀ hm
    · exact hgone
    · obtain ⟨n, hclosed⟩ := h.closed.fields f hf
      exact absurd ((hstems.bears_iff (by decide)).2 hbears) (bears_no_deletion hclosed.spared)

/-- A body that is left of a method that asks for no stub suffers from nothing that the run has
reached. -/
theorem spared_body (h : Ended policy classes owner c₀ t l c) (hx : Reached policy classes t x)
    {e₀ e : MemberEntry} (he : e ∈ c.methods) (hstems : MemberStems policy c₀.pool e₀ c.pool e)
    {m : Member} (hm : e.resolve c.pool = .ok m) (hwhole : ¬ Asks policy c₀.pool e₀ m)
    {bootstraps : List Bootstrap} (hread : Walk.bootstraps c₀ = .ok bootstraps)
    {payload : List UInt8} (hbody : e.body? c.pool = some payload) {ss : List (Instruction × Site)}
    (hss : sites c₀.pool bootstraps payload = .ok ss) {i : Instruction} {site : Site}
    (hmem : (i, site) ∈ ss) : ¬ site.Suffers c₀ owner m.isConstructor x := by
  obtain ⟨bootstraps', hread', -⟩ := h.closed.methods
  obtain rfl := Except.ok.inj (hread.symm.trans (h.spares.stems.methods _ hread').1)
  obtain ⟨a, ha, rfl⟩ := Option.map_eq_some_iff.1 hbody
  refine (hx.cleared h).bodies bootstraps hread' e he m hm ?_ i site
    ⟨a, ss, ha, sites_persist h.remains.pool bootstraps _ _ hss, hmem⟩
  rintro (hstubbed | ⟨hconstructor, hstub⟩)
  · exact hwhole ((hstems.asks_iff hm).1 (h.consistent.stubbed e he m hm hstubbed))
  · obtain ⟨a, d, ha, hd⟩ := hstems.bears hstub
    exact hwhole ⟨hstems.resolves m hm, hconstructor, a, d, ha, by simpa [Policy.stubs] using hd⟩

/-- What remains of the body of a method that is left. -/
theorem body_remains (h : Ended policy classes owner c₀ t l c)
    (hdiffer : MethodsDiffer c₀.pool c₀.methods) {e₀ e : MemberEntry} (he₀ : e₀ ∈ c₀.methods)
    (he : e ∈ c.methods) {m : Member} (hm₀ : e₀.resolve c₀.pool = .ok m)
    (hm : e.resolve c.pool = .ok m) {bootstraps : List Bootstrap}
    (hread : Walk.bootstraps c₀ = .ok bootstraps) :
    BodyRemains policy (Doomed policy classes) owner c₀ bootstraps e₀ m (e₀.body? c₀.pool)
      (e.body? c.pool) := by
  obtain ⟨e₁, he₁, n, hn, hstems, hremains⟩ := h.bodies.remain bootstraps hread e he
  obtain rfl := Except.ok.inj (hm.symm.trans hn)
  obtain rfl := hdiffer.unique he₁ he₀ (hstems.resolves m hm) hm₀ rfl
  exact hremains

/-- A method whose body was looked at and cannot outlive what the run has reached is gone. -/
theorem caller (h : Ended policy classes owner c₀ t l c)
    (hdiffer : MethodsDiffer c₀.pool c₀.methods) (hx : Reached policy classes t x)
    {e₀ : MemberEntry} (he₀ : e₀ ∈ c₀.methods) {m : Member} (hm : e₀.resolve c₀.pool = .ok m)
    (hwalked : m.isConstructor = true ∨ ¬ Bears policy c₀.pool e₀ .stub)
    {bootstraps : List Bootstrap} (hread : Walk.bootstraps c₀ = .ok bootstraps) {i : Instruction}
    {site : Site} (hrefers : Refers c₀.pool bootstraps e₀ i site)
    (hfalls : site.FallsTo c₀ owner m.isConstructor x) :
    t.containsMethod owner m.toSignature = true := by
  obtain ⟨hgone, -⟩ | ⟨e, he, hm', hstems⟩ := h.method_left he₀ hm
  · exact hgone
  exfalso
  have hwhole : ¬ Asks policy c₀.pool e₀ m := by
    rintro ⟨-, hconstructor, a, d, ha, hd⟩
    obtain hconstructs | hwalked := hwalked
    · cases hconstructor.symm.trans hconstructs
    · exact hwalked ⟨a, d, ha, by simpa [Policy.stubs] using hd⟩
  obtain ⟨a, ss, ha, hss, hmem⟩ := hrefers
  have hremains := h.body_remains hdiffer he₀ he hm hm' hread
  rw [show e₀.body? c₀.pool = some a.payload by rw [MemberEntry.body?, ha]; rfl] at hremains
  generalize hbody : e.body? c.pool = b at hremains
  cases hremains with
  | stubbed hasks _ => exact hwhole hasks
  | walked _ hover =>
    obtain ⟨ss₁, hss₁, -, hleft⟩ := hover.sites_left hss
    obtain hin | ⟨op, target, hsite, hconstructs, -⟩ := hleft _ hmem
    · exact h.spared_body hx he hstems hm' hwhole hread hbody hss₁ hin (.inl hfalls)
    -- Accesses are overwritten in constructors only, where none is fatal.
    · obtain rfl : site = .access op target := hsite
      cases hconstructs.symm.trans hfalls.1

/-- A declaration that falls to what the run has reached is not left, and what goes along with it is
cleared. -/
theorem declared (h : Ended policy classes owner c₀ t l c) (hx : Reached policy classes t x)
    {d : Declaration} (hd : c₀.Declares owner d) (hfalls : d.FallsTo owner x) :
    (∀ n ∈ d.following, Cleared policy l c₀ owner c (.dueMethod c₀ n.toSignature)) ∧
      ∀ f, d.field = some f → f.extension = "()" →
        Cleared policy l c₀ owner c (.dueField c₀ f.name) := by
  refine (h.remains.declares d hd).resolve_left ?_
  rintro ⟨p, types, hpacks, htypes, hdeclares⟩
  obtain ⟨changes, hsweep, -⟩ := h.quiet p hpacks
  cases (hdeclares.stays hsweep htypes).symm.trans (hx.goes h.here hfalls)

/-- No parent and no link of a class that is still there leads to anything that the run has
reached. -/
theorem parent (h : Ended policy classes owner c₀ t l c) {header : ClassHeader} {name : String}
    (hread : Walk.header c₀ = .ok header)
    (hname : name ∈ header.superName.toList ++ header.interfaces) :
    t.containsClass name = false := by
  obtain ⟨header', hheader, -, hparents⟩ := h.closed.header
  obtain rfl := Except.ok.inj (hread.symm.trans (h.spares.stems.header _ hheader))
  exact hparents name hname

theorem link (h : Ended policy classes owner c₀ t l c) (hx : Reached policy classes t x)
    {a₀ : Attribute} (ha₀ : a₀ ∈ c₀.attributes) {link₀ : Link}
    (hread : Link.read c₀.pool a₀ = .ok link₀) : ¬ link₀.FallsTo owner x := by
  intro hfalls
  obtain ⟨ms, links, hms, hlinked, -⟩ := h.linked
  obtain ⟨ms₀, links₀, hms₀, hlinked₀, hall⟩ := h.remains.links ms links hms hlinked
  have hin := hlinked₀.mem hms₀ ha₀ (Link.read_ok hread) (by rintro rfl; exact hfalls)
  obtain ⟨⟨a, link⟩, hp, -, hrest⟩ := forall₂_mem_left hall hin
  obtain ⟨b, hb, hlink⟩ := hlinked.of_mem hms hp
  obtain ⟨link', hlink', hdooms, -⟩ := h.closed.links b hb
  obtain rfl := Except.ok.inj (hlink.ok.symm.trans hlink'.ok)
  rw [← Link.dooms_rest t, hrest t (.refl t), Link.dooms_rest t, hx.dooms hfalls] at hdooms
  cases hdooms

end Ended

/-- A run reaches all that is doomed, if every class is gone at its end or left with nothing open. -/
theorem reached_of_doomed (hdiffer : ∀ c₀ ∈ classes, MethodsDiffer c₀.pool c₀.methods)
    (hends : ∀ c₀ ∈ classes, ∀ owner, c₀.name = .ok owner →
      t.containsClass owner = true ∨ ∃ l c, Ended policy classes owner c₀ t l c)
    (h : Doomed policy classes x) : Reached policy classes t x := by
  have hmethod {c₀ : ClassFile} {owner : String} (hmem : c₀ ∈ classes) (hnamed : c₀.name = .ok owner)
      {s : Signature} (hleft : ∀ l c, Ended policy classes owner c₀ t l c →
        t.containsMethod owner s = true) : Reached policy classes t (.method owner s) := by
    obtain hgone | ⟨l, c, hend⟩ := hends c₀ hmem owner hnamed
    · exact Tracker.containsMethod_of_class hgone s
    · exact hleft l c hend
  have hself {c₀ : ClassFile} {owner owner' : String} (hnamed : c₀.name = .ok owner) {l : Ledger}
      {c : ClassFile} (hend : Ended policy classes owner' c₀ t l c) : owner' = owner :=
    Except.ok.inj (hend.spares.named.symm.trans hnamed)
  induction h with
  | @asked c₀ owner x hmem hnamed hasks =>
    obtain hgone | ⟨l, c, hend⟩ := hends c₀ hmem owner hnamed
    · cases hasks with
      | ofClass _ _ => exact hgone
      | method _ _ _ => exact Tracker.containsMethod_of_class hgone _
      | field _ _ _ => exact Tracker.containsField_of_class hgone _
    · exact hend.asked hasks
  | @led c₀ owner x y hmem hnamed _ hleads ih =>
    cases hleads with
    | parent hread hparent =>
      obtain hgone | ⟨l, c, hend⟩ := hends c₀ hmem owner hnamed
      · exact hgone
      · cases (hend.parent hread hparent).symm.trans ih
    | link hin hread hfalls =>
      obtain hgone | ⟨l, c, hend⟩ := hends c₀ hmem owner hnamed
      · exact hgone
      · exact absurd hfalls (hend.link ih hin hread)
    | @field f₀ m hf₀ hm =>
      obtain hgone | ⟨l, c, hend⟩ := hends c₀ hmem owner hnamed
      · exact Tracker.containsField_of_class hgone _
      obtain hgone | ⟨f, hf, hm', -⟩ := hend.field_left hf₀ hm
      · exact hgone
      · exact absurd (.inr ⟨rfl, rfl⟩) (hend.not_hitsField ih hf hm')
    | @method e₀ m he₀ hm =>
      refine hmethod hmem hnamed fun l c hend => ?_
      obtain ⟨hgone, -⟩ | ⟨e, he, hm', -⟩ := hend.method_left he₀ hm
      · exact hgone
      · exact absurd (.inr ⟨rfl, rfl⟩) (hend.not_hitsMethod ih he hm')
    | caller he₀ hm hwalked hread hrefers hfalls =>
      exact hmethod hmem hnamed fun l c hend =>
        hend.caller (hdiffer c₀ hmem) ih he₀ hm hwalked hread hrefers hfalls
    | companion he₀ hm htaken hfollows =>
      intro owner' l c hend
      obtain rfl := hself hnamed hend
      obtain ⟨-, hcompanions⟩ | ⟨e, he, hm', -⟩ := hend.method_left he₀ hm
      · exact hcompanions _ hfollows
      · exact absurd (.inl htaken) (hend.not_hitsMethod ih he hm')
    | following hdeclared hfalls hfollows =>
      intro owner' l c hend
      obtain rfl := hself hnamed hend
      exact (hend.declared ih hdeclared hfalls).1 _ hfollows
    | backing hdeclared hfalls hbacks hplain =>
      intro owner' l c hend
      obtain rfl := hself hnamed hend
      exact (hend.declared ih hdeclared hfalls).2 _ hbacks hplain

end Prune

end JarPruning
