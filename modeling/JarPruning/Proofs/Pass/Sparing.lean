import JarPruning.Proofs.Pass.Closed
import JarPruning.Proofs.Pass.Stems

/-!
Passes spare what is not doomed. Whatever a pass drops of a class, or has due in it, is doomed by
what the classes said before the first pass, if what was gone or due before the pass was so.
-/
namespace JarPruning

open Metadata (Payload TypeTable)

/-- What every step keeps holds at the end of the way. -/
theorem Along.preserves {σ α β : Type} {step : σ → α → β → σ → Prop} {P : σ → Prop} {s t : σ}
    {as : List α} {bs : List β} (h : Along step s as bs t)
    (hstep : ∀ {u a b v}, a ∈ as → step u a b v → P u → P v) (hs : P s) : P t := by
  induction h with
  | nil => exact hs
  | cons hfirst _ ih =>
    exact ih (fun ha => hstep (List.mem_cons_of_mem _ ha)) (hstep (List.mem_cons_self ..) hfirst hs)

namespace Prune

variable {policy : Policy} {classes : List ClassFile} {c₀ c : ClassFile} {self : String}
  {l u v : Ledger}

section

variable (hmem : c₀ ∈ classes) (hnamed : c₀.name = .ok self)
include hmem hnamed

theorem FieldMet.within {f₀ f : MemberEntry} {met : Option MemberEntry}
    (h : FieldMet policy self c.pool u f met v) (hf₀ : f₀ ∈ c₀.fields)
    (hstems : MemberStems policy c₀.pool f₀ c.pool f) (hu : u.Within (Doomed policy classes) c₀) :
    v.Within (Doomed policy classes) c₀ := by
  cases h with
  | kept _ _ _ => exact hu
  | @dropped m hresolved hgoes =>
    have hm := hstems.resolves m hresolved
    refine hu.dropField ?_
    obtain hgone | hbears := hgoes
    · obtain ⟨x, hx, htakes | ⟨-, rfl⟩⟩ := hu.fieldGone hgone
      · exact ⟨x, hx, htakes⟩
      · exact ⟨_, .led hmem hnamed hx (.field hf₀ hm), .inr ⟨rfl, rfl⟩⟩
    · exact ⟨_, .asked hmem hnamed (.field hf₀ hm (hstems.bears hbears)), .inr ⟨rfl, rfl⟩⟩

/-- A method that goes is doomed: it is due, it asks to go, or its body refers to what is doomed. -/
theorem Decided.doomed {bootstraps : List Bootstrap} {e₀ e : MemberEntry} {m : Member}
    (h : Decided policy self c.pool bootstraps u e m .delete) (hm : e.resolve c.pool = .ok m)
    (he₀ : e₀ ∈ c₀.methods) (hread : Walk.bootstraps c₀ = .ok bootstraps)
    (hstems : MethodStems policy l bootstraps c₀.pool e₀ c.pool e)
    (hstubs : StubbedStay l.memory.stubbed u.memory.stubbed)
    (hu : u.Within (Doomed policy classes) c₀) :
    ∃ x, Doomed policy classes x ∧ x.TakesMethod self m.toSignature := by
  have hm₀ := hstems.resolves m hm
  obtain hgone | hbears | ⟨hwalked, i, site, hrefers, hfatal⟩ := h.delete.1 rfl
  · obtain ⟨x, hx, htakes | ⟨-, rfl⟩⟩ := hu.methodGone hgone
    · exact ⟨x, hx, htakes⟩
    · exact ⟨_, .led hmem hnamed hx (.method he₀ hm₀), .inr rfl⟩
  · exact ⟨_, .asked hmem hnamed (.method he₀ hm₀ (hstems.bears hbears)), .inr rfl⟩
  · obtain rfl | hrefers₀ :=
      hstems.refers m hm (fun hexempt => hwalked (hexempt.stay hstubs)) i site hrefers
    · cases hfatal
    obtain ⟨x, hx, hfalls⟩ := hu.isFatal hfatal
    have hbody : m.isConstructor = true ∨ ¬ Bears policy c₀.pool e₀ .stub := by
      cases hconstructor : m.isConstructor with
      | true => exact .inl rfl
      | false =>
        refine .inr fun hstub => hwalked (.inr ⟨hconstructor, ?_⟩)
        exact (hstems.bears_iff (by decide)).2 hstub
    exact ⟨_, .led hmem hnamed hx (.caller he₀ hm₀ hbody hread hrefers₀ hfalls), .inr rfl⟩

theorem MethodMet.within {bootstraps : List Bootstrap} {e₀ e : MemberEntry}
    {met : Fate × Option MemberEntry} (h : MethodMet policy self c.pool bootstraps u e met v)
    (he₀ : e₀ ∈ c₀.methods) (hread : Walk.bootstraps c₀ = .ok bootstraps)
    (hstems : MethodStems policy l bootstraps c₀.pool e₀ c.pool e)
    (hstubs : StubbedStay l.memory.stubbed u.memory.stubbed)
    (hu : u.Within (Doomed policy classes) c₀) : v.Within (Doomed policy classes) c₀ := by
  obtain @⟨m, ft, _, hresolved, hdecided, -⟩ := h
  cases ft with
  | keep _ => exact hu
  | stub => exact hu.stubMethod m
  | delete =>
    obtain ⟨x, hx, htakes⟩ := hdecided.doomed hmem hnamed hresolved he₀ hread hstems hstubs hu
    refine hu.dropMethod ⟨x, hx, htakes⟩ fun n hn => ?_
    exact .led hmem hnamed hx (.companion he₀ (hstems.resolves m hresolved) htakes hn)

/-- What a removal reports is doomed. -/
theorem within_schedule {changes : Metadata.Changes} {p p' : Payload} (hpacks : c.Packs p)
    (hdeclares : ∀ d, c.Declares self d → c₀.Declares self d)
    (hsweep : p.sweep self u.tracker = .ok (p', changes))
    (hu : u.Within (Doomed policy classes) c₀) :
    (u.schedule changes).Within (Doomed policy classes) c₀ := by
  obtain ⟨types, -, htypes, -, -⟩ := Payload.sweep_ok_iff.1 hsweep
  have hreports {y : Member ⊕ FieldTarget} (hy : changes.Reports y) :
      ∃ d x, c₀.Declares self d ∧ Doomed policy classes x ∧ d.FallsTo self x ∧ d.Takes y := by
    obtain ⟨d, hd, hgoes, htakes⟩ := Payload.sweep_reports hsweep htypes hy
    obtain ⟨x, hx, hfalls⟩ := hu.tracker.goes hgoes
    exact ⟨d, x, hdeclares d ⟨p, types, hpacks, htypes, hd⟩, hx, hfalls, htakes⟩
  refine hu.schedule (fun n hn => ?_) fun f hf hplain => ?_
  · obtain ⟨d, x, hd, hx, hfalls, htakes⟩ := hreports (y := .inl n) hn
    exact .led hmem hnamed hx (.following hd hfalls htakes)
  · obtain ⟨d, x, hd, hx, hfalls, htakes⟩ := hreports (y := .inr f) hf
    exact .led hmem hnamed hx (.backing hd hfalls htakes hplain)

end

/-- A class that is discarded is doomed. -/
theorem Discards.class_doomed (h : Discards policy l c) (hmem : c₀ ∈ classes)
    (hstems : Stems policy u c₀ c) (hl : l.tracker.Within (Doomed policy classes))
    (hname : c.name = .ok self) : Doomed policy classes (.ofClass self) := by
  have hname₀ := hstems.named self hname
  cases h with
  | @doomed name header ms hsurveyed hdoomed =>
    obtain hdoomed | hwanted := hdoomed
    · rw [headerDoomed, Bool.or_eq_true, List.any_eq_true] at hdoomed
      obtain hgone | ⟨parent, hparent, hgone⟩ := hdoomed
      · have hself : header.name = self :=
          Except.ok.inj ((Pruner.header_name hsurveyed.header).symm.trans hname)
        exact hself ▸ hl.classes _ hgone
      · exact .led hmem hname₀ (hl.classes _ hgone)
          (.parent (hstems.header _ hsurveyed.header) hparent)
    · obtain ⟨a, d, ha, hdeletes⟩ := (Marked.anyOf_iff hsurveyed.read _).1 hwanted
      obtain ⟨a₀, ha₀⟩ := hstems.annotated a d ha
      exact .asked hmem hname₀ (.ofClass ha₀ hdeletes)
  | @unlinked name header ms links hsurveyed hlinked hdooms =>
    obtain rfl := Except.ok.inj (hsurveyed.named.symm.trans hname)
    obtain ⟨p, hp, hdooms⟩ := hdooms
    obtain ⟨x, hx, hfalls⟩ := hl.dooms hdooms
    obtain ⟨a, ha, hread⟩ := hlinked.of_mem hsurveyed.read hp
    obtain ⟨a₀, ha₀, link₀, hread₀, hsheds⟩ := hstems.links a ha p.2 hread
    exact .led hmem hname₀ hx (.link ha₀ hread₀.ok (hsheds.fallsTo hfalls))

namespace Rewriting

theorem last_of_metadata (r : Rewriting policy l c) (hc : c.Framed) (htold : c.Told) :
    r.last = r.afterMethods ∨ ∃ p p' changes, c.Packs p ∧
      p.sweep r.name r.afterMethods.tracker = .ok (p', changes) ∧
      r.last = r.afterMethods.schedule changes := by
  obtain ⟨hlast, -⟩ | ⟨a, b, kind, d1, d2, payload, changes, ha, -, hlast, hrepacked⟩ :=
    r.ofMetadata_cases
  · exact .inl hlast
  · obtain ⟨p, hdecode, hsweep⟩ := swept_ok hrepacked.swept
    obtain ⟨hdescribed, -⟩ := htold.described r.surveyed.read ha (r.installed_fit hc).2
      hrepacked.toDescribed
    exact .inr ⟨p, payload, changes, ⟨r.surveyed.read, ha, hdescribed, hdecode⟩, hsweep, hlast⟩

/-- A pass loses nothing but what is doomed. -/
theorem within (r : Rewriting policy l c) (hc : c.Framed) (hmem : c₀ ∈ classes)
    (hstems : Stems policy l c₀ c) (hlegible : c.Legible)
    (hl : l.Within (Doomed policy classes) c₀) :
    r.last.Within (Doomed policy classes) c₀ := by
  have hname₀ := hstems.named r.name r.surveyed.named
  obtain ⟨hread₀, hmethods₀⟩ := hstems.methods r.bootstraps r.bootstraps_unlinked
  obtain ⟨fields, methods, hfields, hmethods, -⟩ := r.met
  have hafterFields : r.afterFields.Within (Doomed policy classes) c₀ ∧
      StubbedStay l.memory.stubbed r.afterFields.memory.stubbed := by
    refine ⟨hfields.preserves (fun {u f met v} hf hmet hu => ?_) hl, r.onward_fields.stubs⟩
    obtain ⟨f₀, hf₀, hstems⟩ := hstems.fields f hf
    exact hmet.within hmem hname₀ hf₀ hstems hu
  -- Stubs that are added on the way stay, so a body that is walked at some step was to be walked
  -- from the start.
  have hafterMethods : r.afterMethods.Within (Doomed policy classes) c₀ ∧
      StubbedStay l.memory.stubbed r.afterMethods.memory.stubbed := by
    refine hmethods.preserves (P := fun u => u.Within (Doomed policy classes) c₀ ∧
      StubbedStay l.memory.stubbed u.memory.stubbed) (fun {u e met v} he hmet hu => ?_) hafterFields
    obtain ⟨e₀, he₀, hstems⟩ := hmethods₀ e he
    exact ⟨hmet.within hmem hname₀ he₀ hread₀ hstems hu.2 hu.1,
      fun s hs => hmet.onward.stubs s (hu.2 s hs)⟩
  obtain hlast | ⟨p, p', changes, hpacks, hsweep, hlast⟩ := r.last_of_metadata hc hlegible.told
  · exact hlast ▸ hafterMethods.1
  · rw [hlast]
    exact within_schedule hmem hname₀ hpacks (hstems.declares r.name) hsweep hafterMethods.1

end Rewriting

/-! Runs. -/

theorem Outlives.refl (t : Tracker) (owner : String) (c : ClassFile) : Outlives t owner c c where
  methods _ h _ := h
  fields _ h _ := h

/-- Where more is gone, less has to be there. -/
theorem Outlives.trans {t t' : Tracker} {c₁ c₂ c₃ : ClassFile} (h : Outlives t self c₁ c₂)
    (hle : t.Le t') (h' : Outlives t' self c₂ c₃) : Outlives t' self c₁ c₃ where
  methods s hs hstays :=
    h'.methods s (h.methods s hs (Bool.eq_false_iff.2 fun hgone =>
      Bool.eq_false_iff.1 hstays (hle.methods _ _ hgone))) hstays
  fields name hname hstays :=
    h'.fields name (h.fields name hname (Bool.eq_false_iff.2 fun hgone =>
      Bool.eq_false_iff.1 hstays (hle.fields _ _ hgone))) hstays

/-- What is known of the class called `owner` after some passes, of what it was and of the ledger:
what is gone or due is doomed, and what the tracker does not hold is still there. -/
structure Spares (policy : Policy) (classes : List ClassFile) (owner : String) (c₀ : ClassFile)
    (l : Ledger) (c : ClassFile) : Prop where
  mem : c₀ ∈ classes
  named : c₀.name = .ok owner
  stems : Stems policy l c₀ c
  legible : c.Legible
  within : l.Within (Doomed policy classes) c₀
  outlives : Outlives l.tracker owner c₀ c

namespace Spares

theorem start (hmem : c ∈ classes) (hnamed : c.name = .ok self) (hlegible : c.Legible) {t : Tracker}
    (ht : t.Within (Doomed policy classes)) : Spares policy classes self c ⟨t, {}⟩ c where
  mem := hmem
  named := hnamed
  stems := .refl policy _ c
  legible := hlegible
  within := ⟨ht, fun _ h => (by cases h), fun _ h => (by cases h)⟩
  outlives := .refl t self c

/-- The class as it was, with another ledger that forgot no stub. -/
theorem ledger {l' : Ledger} (h : Spares policy classes self c₀ l c)
    (hstubs : StubbedStay l.memory.stubbed l'.memory.stubbed) (hle : l.tracker.Le l'.tracker)
    (hl' : l'.Within (Doomed policy classes) c₀) : Spares policy classes self c₀ l' c where
  mem := h.mem
  named := h.named
  stems := h.stems.trans (.refl policy l' c) hstubs
  legible := h.legible
  within := hl'
  outlives := h.outlives.trans hle (.refl _ self c)

theorem expire (h : Spares policy classes self c₀ l c) : Spares policy classes self c₀ l.expire c :=
  h.ledger (fun _ hs => hs) (.refl _) h.within.expire

theorem rewritten (h : Spares policy classes self c₀ l c) (r : Rewriting policy l c) (hc : c.Framed)
    (hnew : ∀ b ∈ r.new, b.Fits) : Spares policy classes self c₀ r.last r.result where
  mem := h.mem
  named := h.named
  stems := h.stems.trans (r.stems hc hnew h.legible) r.onward.stubs
  legible := r.legible hc hnew h.legible
  within := r.within hc h.mem h.stems h.legible h.within
  outlives := by
    obtain rfl := Except.ok.inj (h.named.symm.trans (h.stems.named r.name r.surveyed.named))
    exact h.outlives.trans r.tracker_le (r.outlives hc)

theorem unchanged (h : Spares policy classes self c₀ l c) (r : Rewriting policy l c)
    (hc : c.Framed) : Spares policy classes self c₀ r.last c :=
  h.ledger r.onward.stubs r.tracker_le (r.within hc h.mem h.stems h.legible h.within)

end Spares

/-- What a run keeps of every class. -/
def sparing (policy : Policy) (classes : List ClassFile) : Claims where
  good t := t.Within (Doomed policy classes)
  holds passed o l bytes := (passed = true → ∃ c, ClassFile.ofBytes bytes = .ok c) ∧
    ∀ c, ClassFile.ofBytes bytes = .ok c → ∃ c₀ self, ClassFile.ofBytes o.entry.contents = .ok c₀ ∧
      Spares policy classes self c₀ l c
  gone o _ := ∃ c₀ self, ClassFile.ofBytes o.entry.contents = .ok c₀ ∧ c₀.name = .ok self ∧
    Doomed policy classes (.ofClass self)

theorem sparing_kept (policy : Policy) (classes : List ClassFile) :
    (sparing policy classes).Kept policy (Begun.Fits policy) where
  pass {o passed l bytes l' out} hmade hgood hholds hpass := by
    obtain ⟨c, hc, hpassed⟩ := pass_ok hpass
    obtain ⟨c₀, self, hc₀, hspares⟩ := hholds.2 c hc
    have hfits := (ClassFile.of_ofBytes hc).2.1
    have hexpired := hspares.expire
    cases hpassed with
    | @discarded name hname hdiscards =>
      have hself := hspares.stems.named name hname
      have hdoomed := hdiscards.class_doomed hspares.mem hspares.stems hgood hname
      exact ⟨hgood.addClass hdoomed, Tracker.le_addClass _ _, c₀, name, hc₀, hself, hdoomed⟩
    | modified r _ =>
      have hlast := hexpired.rewritten r hfits.toFramed (hmade c hc r).new
      have hread := r.ofBytes_result hfits (hmade c hc r)
      refine ⟨hlast.within.tracker, r.tracker_le, fun _ => ⟨_, hread⟩, fun c' hc' => ?_⟩
      obtain rfl := Except.ok.inj (hc'.symm.trans hread)
      exact ⟨c₀, self, hc₀, hlast⟩
    | unchanged r _ =>
      have hlast := hexpired.unchanged r hfits.toFramed
      refine ⟨hlast.within.tracker, r.tracker_le, fun _ => ⟨c, hc⟩, fun c' hc' => ?_⟩
      obtain rfl := Except.ok.inj (hc'.symm.trans hc)
      exact ⟨c₀, self, hc₀, hlast⟩
  grow hgood hle hholds := by
    refine ⟨hholds.1, fun c hc => ?_⟩
    obtain ⟨c₀, self, hc₀, hspares⟩ := hholds.2 c hc
    exact ⟨c₀, self, hc₀, hspares.ledger (fun _ hs => hs) hle (hspares.within.withTracker hgood)⟩
  goneGrow _ _ hgone := hgone

end Prune

/-- A slot as a run leaves it: the class is there, unless it is among the losses, and of the members
that it had none is missing that is not among the losses. -/
structure Slot.Spared (W : Loss → Prop) (e : Entry) (s : Slot) : Prop where
  aside : e.isClass = false → s = { entry := e }
  gone : s.deleted = true → ∃ c self, ClassFile.ofBytes e.contents = .ok c ∧ c.name = .ok self ∧
    W (.ofClass self)
  kept : e.isClass = true → s.deleted = false → ∀ c, ClassFile.ofBytes e.contents = .ok c →
    ∃ c' self, ClassFile.ofBytes s.entry.contents = .ok c' ∧ c.name = .ok self ∧
      (∀ m, c.HasMethod m → c'.HasMethod m ∨ ∃ x, W x ∧ x.TakesMethod self m) ∧
      ∀ name, c.HasField name → c'.HasField name ∨ ∃ x, W x ∧ x.TakesField self ⟨name, "()"⟩

namespace Prune

theorem Spares.kept {t : Tracker} {memory : Memory}
    (h : Spares policy classes self c₀ ⟨t, memory⟩ c) :
    (∀ m, c₀.HasMethod m → c.HasMethod m ∨ ∃ x, Doomed policy classes x ∧ x.TakesMethod self m) ∧
      ∀ name, c₀.HasField name →
        c.HasField name ∨ ∃ x, Doomed policy classes x ∧ x.TakesField self ⟨name, "()"⟩ := by
  refine ⟨fun m hm => ?_, fun name hname => ?_⟩
  · cases hgone : t.containsMethod self m with
    | false => exact .inl (h.outlives.methods m hm hgone)
    | true => exact .inr (h.within.tracker.methods _ _ hgone)
  · cases hgone : t.containsField self ⟨name, "()"⟩ with
    | false => exact .inl (h.outlives.fields name hname hgone)
    | true => exact .inr (h.within.tracker.fields _ _ hgone)

end Prune

theorem Claims.Of.spared {policy : Policy} {classes : List ClassFile} {t : Tracker} {passed : Bool}
    {e : Entry} {s : Slot} (h : (Prune.sparing policy classes).Of t passed { entry := e } s)
    (hpassed : passed = true ∨ s = { entry := e }) : s.Spared (Doomed policy classes) e where
  aside hplain := h.aside (by simp [Slot.isLive, hplain])
  gone hdeleted := (h.lost rfl hdeleted).2
  kept hclass hhere c hc := by
    obtain ⟨hread, hall⟩ := h.live (by simp [Slot.isLive, hclass]) hhere
    obtain ⟨c', hc'⟩ : ∃ c', ClassFile.ofBytes s.entry.contents = .ok c' := by
      obtain hpassed | rfl := hpassed
      · exact hread hpassed
      · exact ⟨c, hc⟩
    obtain ⟨c₀, self, hc₀, hspares⟩ := hall c' hc'
    obtain rfl := Except.ok.inj (hc.symm.trans hc₀)
    exact ⟨c', self, hc', hspares.named, hspares.kept⟩

namespace Sweep

/-- The classes among the entries, as far as they can be read. -/
def classes (entries : List Entry) : List ClassFile :=
  entries.filterMap fun e => if e.isClass then (ClassFile.ofBytes e.contents).toOption else none

theorem mem_classes {entries : List Entry} {e : Entry} (he : e ∈ entries)
    (hclass : e.isClass = true) {c : ClassFile} (hc : ClassFile.ofBytes e.contents = .ok c) :
    c ∈ classes entries :=
  List.mem_filterMap.2 ⟨e, he, by rw [if_pos hclass, hc]; rfl⟩

theorem of_mem_classes {entries : List Entry} {c : ClassFile} (h : c ∈ classes entries) :
    ∃ e ∈ entries, e.isClass = true ∧ ClassFile.ofBytes e.contents = .ok c := by
  obtain ⟨e, he, hread⟩ := List.mem_filterMap.1 h
  split at hread
  · next hclass =>
    refine ⟨e, he, hclass, ?_⟩
    cases hc : ClassFile.ofBytes e.contents with
    | error _ => simp [hc, Except.toOption] at hread
    | ok c' => simpa [hc, Except.toOption] using hread
  · cases hread

/-- What a run deletes is doomed by what the classes say before it. -/
theorem spared_of_run {settings : Settings} {entries : List Entry} {w w' : World} {r : Settled}
    (hstart : w.tracker = {})
    (hlegible : ∀ e ∈ entries, e.isClass = true → ∀ c, ClassFile.ofBytes e.contents = .ok c →
      c.Legible)
    (hfits : WritesFit settings (slots entries) {})
    (hrun : (run settings (slots entries)).run w = .ok r w') :
    w'.tracker.Within (Doomed settings.policy (classes entries)) ∧
      List.Forall₂ (Slot.Spared (Doomed settings.policy (classes entries))) entries r.slots := by
  obtain ⟨⟨t, r'⟩, hsweeps, hr, ht⟩ := (sweepRun_follows settings (slots entries) w).of_ok hrun
  dsimp only at hr ht
  subst hr ht
  rw [hstart] at hsweeps
  have hempty := Tracker.Within.empty (Doomed settings.policy (classes entries))
  have hslots : List.Forall₂ ((Prune.sparing settings.policy (classes entries)).Of {} false)
      (slots entries) (slots entries) := by
    refine slots_of fun e he hclass => ⟨nofun, fun c hc => ?_⟩
    obtain ⟨self, hself⟩ := ClassFile.name_of_ofBytes hc
    exact ⟨c, self, hc,
      .start (mem_classes he hclass hc) hself (hlegible e he hclass c hc) hempty⟩
  by_cases hmax : 0 < settings.maxPasses
  · obtain ⟨hgood, -, hall⟩ := Claims.sweeps_keep (Prune.sparing_kept settings.policy _) rfl hmax
      hfits hempty hslots (.inr hmax) hsweeps
    rw [slots, List.forall₂_map_left_iff] at hall
    exact ⟨hgood, hall.imp fun e s hs => hs.spared (.inl rfl)⟩
  · -- Without a budget everything stays as it was.
    rw [Nat.eq_zero_of_not_pos hmax] at hsweeps
    obtain ⟨htracker, rfl⟩ := Prod.mk.inj (Except.ok.inj hsweeps)
    rw [← htracker]
    rw [slots, List.forall₂_map_left_iff, List.forall₂_map_right_iff, List.forall₂_same] at hslots
    refine ⟨hempty, List.forall₂_map_right_iff.2 (List.forall₂_same.2 fun e he => ?_)⟩
    exact (hslots e he).spared (.inr rfl)

theorem legible_callerEntries : ∀ e ∈ callerEntries, e.isClass = true → ∀ c,
    ClassFile.ofBytes e.contents = .ok c → c.Legible := by
  have hnone : callerClass.NoMetadata := .of_bare rfl
  exact forall_callerEntries ⟨by decide +kernel, by decide +kernel, hnone.told⟩
    ⟨by decide +kernel, by decide +kernel,
      Pass.soleMetadata_functions.told Pass.metadataParts_functions Pass.told_functions⟩

/-- The method that is called asks to go, and dooms the method that calls it. -/
theorem spared_of_run_caller : ∃ r w',
    (run unhurried (slots callerEntries)).run {} = .ok r w' ∧
      w'.tracker.containsMethod "B" ⟨"n", "()V"⟩ = true ∧ r.slots.countP (·.isLive) = 2 ∧
      w'.tracker.Within (Doomed unhurried.policy (classes callerEntries)) ∧
      List.Forall₂ (Slot.Spared (Doomed unhurried.policy (classes callerEntries))) callerEntries
        r.slots := by
  obtain ⟨r, w', hrun, -, hlive, hgone⟩ := run_callerEntries
  exact ⟨r, w', hrun, hgone, hlive, spared_of_run rfl legible_callerEntries
    (writesFit_of_small small_callerEntries) hrun⟩

end Sweep

end JarPruning
