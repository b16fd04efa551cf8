import JarPruning.Proofs.Pass.Alike

/-!
The order of the entries. Runs over the same entries that end stable delete the same, in whichever
orders the entries stand, and leave the same of every class.
-/
namespace JarPruning

open Prune (Ended Reached)

/-- A class whose constants are all there, whose metadata, if it has any, tells by itself how it is
packed, and in which neither two methods have the same signature nor two annotations are the
metadata. -/
structure ClassFile.Regular (c : ClassFile) : Prop where
  grounded : c.Grounded
  told : c.Told
  differ : Prune.MethodsDiffer c.pool c.methods
  one : Prune.OneMetadata c

theorem ClassFile.Regular.legible {c : ClassFile} (h : c.Regular) : c.Legible :=
  ⟨h.grounded.fields, h.grounded.methods, h.told⟩

namespace Prune

variable {policy : Policy} {classes : List ClassFile} {owner : String} {c : ClassFile} {t : Tracker}

theorem Traced.start (hmem : c ∈ classes) (hnamed : c.name = .ok owner) (hregular : c.Regular)
    (ht : t.Within (Doomed policy classes)) : Traced policy classes owner c ⟨t, {}⟩ c where
  toSpares := .start hmem hnamed hregular.legible ht
  grounded := hregular.grounded
  consistent := ⟨hregular.differ, fun _ _ _ _ hkey => nomatch hkey⟩
  one := hregular.one
  remains := .refl ..

/-- A slot as a run that ended stable with the tracker `t` leaves it. -/
structure SlotEnded (policy : Policy) (classes : List ClassFile) (t : Tracker) (e : Entry)
    (s : Slot) : Prop where
  entry : s.entry = { e with contents := s.entry.contents }
  aside : e.isClass = false → s = { entry := e }
  gone : s.deleted = true → e.isClass = true ∧ ∃ c₀ owner,
    ClassFile.ofBytes e.contents = .ok c₀ ∧ c₀.name = .ok owner ∧ t.containsClass owner = true
  kept : e.isClass = true → s.deleted = false → ∃ c₀ owner l c,
    ClassFile.ofBytes e.contents = .ok c₀ ∧ ClassFile.ofBytes s.entry.contents = .ok c ∧
      Ended policy classes owner c₀ t l c

theorem slotEnded {e : Entry} {s : Slot} (hof : (tracing policy classes).Of t true { entry := e } s)
    (hrest : (tracing policy classes).AtRest policy (Begun.Fits policy) t { entry := e } s) :
    SlotEnded policy classes t e s where
  entry := hof.entry
  aside hplain := hof.aside (by simp [Slot.isLive, hplain])
  gone hdeleted := by
    obtain ⟨hlive, hgone⟩ := hof.lost rfl hdeleted
    exact ⟨(Bool.and_eq_true_iff.1 hlive).1, hgone⟩
  kept hclass hhere := by
    have hlive : s.isLive = true := by
      rw [Claims.isLive_of_entry hof.entry (by simp [Slot.isLive, hclass]), hhere]
      rfl
    obtain ⟨passed, memory, hholds, hmade, hpass⟩ := hrest hlive
    obtain ⟨c, hc, hpassed⟩ := pass_ok hpass
    obtain ⟨r, hlast, hsame⟩ := hpassed.of_unchanged
    obtain ⟨c₀, owner, hc₀, htraced, hbodies⟩ := hholds.2 c hc
    have hfits := (ClassFile.of_ofBytes hc).2.1
    exact ⟨c₀, owner, r.last, c, hc₀, hc, htraced.ended (hbodies.imp_left And.right) r hfits
      (hmade c hc r) hsame (by rw [← hlast])⟩

end Prune

namespace Sweep

/-- How a run that ends stable leaves its slots. -/
theorem ended_of_run {settings : Settings} {entries : List Entry} {classes : List ClassFile}
    {w w' : World} {r : Settled} (hstart : w.tracker = {})
    (hclasses : ∀ e ∈ entries, e.isClass = true → ∀ c, ClassFile.ofBytes e.contents = .ok c →
      c ∈ classes ∧ c.Regular)
    (hfits : WritesFit settings (slots entries) {})
    (hrun : (run settings (slots entries)).run w = .ok r w') (hstable : r.stable = true) :
    w'.tracker.Within (Doomed settings.policy classes) ∧
      List.Forall₂ (Prune.SlotEnded settings.policy classes w'.tracker) entries r.slots := by
  obtain ⟨⟨t, r'⟩, hsweeps, hr, ht⟩ := (sweepRun_follows settings (slots entries) w).of_ok hrun
  dsimp only at hr ht
  subst hr ht
  rw [hstart] at hsweeps
  have hmax := Prune.max_of_stable hsweeps hstable
  have hkept := Prune.tracing_kept settings.policy classes
  have hempty := Tracker.Within.empty (Doomed settings.policy classes)
  have hslots : List.Forall₂ ((Prune.tracing settings.policy classes).Of {} false)
      (slots entries) (slots entries) := by
    refine slots_of fun e he hclass => ⟨nofun, fun c hc => ?_⟩
    obtain ⟨owner, howner⟩ := ClassFile.name_of_ofBytes hc
    obtain ⟨hmem, hregular⟩ := hclasses e he hclass c hc
    exact ⟨c, owner, hc, .start hmem howner hregular hempty, .inl ⟨rfl, rfl, fun _ => rfl⟩⟩
  obtain ⟨hgood, -, hall⟩ :=
    Claims.sweeps_keep hkept rfl hmax hfits hempty hslots (.inr hmax) hsweeps
  have hrests := Claims.sweeps_quiet hkept rfl hmax (fun hholds hpass =>
    Prune.quiet_tracker (fun c hc => by
      obtain ⟨c₀, owner, -, htraced, -⟩ := hholds.2 c hc
      exact htraced.consistent) hpass) hfits hempty hslots hstable hsweeps
  have hboth := List.Forall₂.mp (fun _ _ hof hrest => And.intro hof hrest) hall hrests
  rw [slots, List.forall₂_map_left_iff] at hboth
  exact ⟨hgood, hboth.imp fun e s hs => Prune.slotEnded hs.1 hs.2⟩

/-- The tracker of a run that ended stable holds what is doomed, and nothing else. -/
theorem reached_of_run {policy : Policy} {classes : List ClassFile} {entries : List Entry}
    {slots : List Slot} {t : Tracker}
    (hclasses : ∀ c ∈ classes, c.Regular ∧ ∃ e ∈ entries, e.isClass = true ∧
      ClassFile.ofBytes e.contents = .ok c)
    (hends : List.Forall₂ (Prune.SlotEnded policy classes t) entries slots) {x : Loss}
    (hx : Doomed policy classes x) : Reached policy classes t x := by
  refine Prune.reached_of_doomed (fun c hc => (hclasses c hc).1.differ)
    (fun c₀ hc₀ owner hname => ?_) hx
  obtain ⟨-, e, he, hclass, hread⟩ := hclasses c₀ hc₀
  obtain ⟨s, -, hs⟩ := forall₂_mem_left hends he
  cases hdeleted : s.deleted with
  | true =>
    obtain ⟨-, c, self, hc, hself, hgone⟩ := hs.gone hdeleted
    obtain rfl := Except.ok.inj (hread.symm.trans hc)
    obtain rfl := Except.ok.inj (hname.symm.trans hself)
    exact .inl hgone
  | false =>
    obtain ⟨c, self, l, c', hc, -, hend⟩ := hs.kept hclass hdeleted
    obtain rfl := Except.ok.inj (hread.symm.trans hc)
    obtain rfl := Except.ok.inj (hname.symm.trans hend.spares.named)
    exact .inr ⟨l, c', hend⟩

end Sweep

/-- A tracker that holds only what is doomed holds no more than one that holds all that is. -/
theorem Tracker.Within.le {policy : Policy} {classes : List ClassFile} {t t' : Tracker}
    (h : t.Within (Doomed policy classes))
    (hreached : ∀ x, Doomed policy classes x → Reached policy classes t' x) : t.Le t' where
  classes owner hgone := hreached _ (h.classes owner hgone)
  methods owner s hgone := by
    obtain ⟨x, hx, htakes⟩ := h.methods owner s hgone
    exact (hreached x hx).method htakes
  fields owner key hgone := by
    obtain ⟨x, hx, htakes⟩ := h.fields owner key hgone
    exact (hreached x hx).field htakes

/-- The slots of one entry at the ends of two runs: the class is deleted in both, or what is left of
it is alike. -/
structure Slot.Alike (s₁ s₂ : Slot) : Prop where
  entry : s₂.entry = { s₁.entry with contents := s₂.entry.contents }
  deleted : s₁.deleted = s₂.deleted
  aside : s₁.entry.isClass = false → s₁ = s₂
  kept : s₁.isLive = true → ∃ c₁ c₂, ClassFile.ofBytes s₁.entry.contents = .ok c₁ ∧
    ClassFile.ofBytes s₂.entry.contents = .ok c₂ ∧ c₁.Alike c₂

/-- What two slots of one entry come to, where the trackers hold the same. -/
theorem Prune.SlotEnded.alike {policy : Policy} {classes : List ClassFile} {t₁ t₂ : Tracker}
    {e : Entry} {s₁ s₂ : Slot} (hdiffer : ∀ c ∈ classes, Prune.MethodsDiffer c.pool c.methods)
    (hle : t₁.Le t₂) (hle' : t₂.Le t₁)
    (hreached₁ : ∀ x, Doomed policy classes x → Reached policy classes t₁ x)
    (hreached₂ : ∀ x, Doomed policy classes x → Reached policy classes t₂ x)
    (h₁ : Prune.SlotEnded policy classes t₁ e s₁) (h₂ : Prune.SlotEnded policy classes t₂ e s₂) :
    s₁.Alike s₂ := by
  have hclass : s₁.entry.isClass = e.isClass := by rw [h₁.entry]; rfl
  have hgone {t t' : Tracker} (hle : t.Le t') {s s' : Slot}
      (h : Prune.SlotEnded policy classes t e s) (h' : Prune.SlotEnded policy classes t' e s')
      (hdeleted : s.deleted = true) : s'.deleted = true := by
    obtain ⟨hisClass, c, owner, hc, howner, hgone⟩ := h.gone hdeleted
    by_contra hhere
    obtain ⟨c', owner', l, d, hc', -, hend⟩ := h'.kept hisClass (Bool.eq_false_iff.2 hhere)
    obtain rfl := Except.ok.inj (hc.symm.trans hc')
    obtain rfl := Except.ok.inj (howner.symm.trans hend.spares.named)
    cases hend.here.symm.trans (hle.classes _ hgone)
  have hdeleted : s₁.deleted = s₂.deleted :=
    Bool.eq_iff_iff.2 ⟨hgone hle h₁ h₂, hgone hle' h₂ h₁⟩
  exact {
    entry := by
      rw [h₂.entry, h₁.entry]
    deleted := hdeleted
    aside := fun hplain => by
      rw [hclass] at hplain
      rw [h₁.aside hplain, h₂.aside hplain]
    kept := fun hlive => by
      rw [Slot.isLive, Bool.and_eq_true, Bool.not_eq_true', hclass] at hlive
      obtain ⟨c₀, owner, l₁, c₁, hc₀, hc₁, hend₁⟩ := h₁.kept hlive.1 hlive.2
      obtain ⟨c₀', owner', l₂, c₂, hc₀', hc₂, hend₂⟩ := h₂.kept hlive.1 (hdeleted ▸ hlive.2)
      obtain rfl := Except.ok.inj (hc₀.symm.trans hc₀')
      obtain rfl := Except.ok.inj (hend₁.spares.named.symm.trans hend₂.spares.named)
      exact ⟨c₁, c₂, hc₁, hc₂,
        hend₁.alike (hdiffer c₀ hend₁.spares.mem) hle hle' hreached₁ hreached₂ hend₂⟩ }

namespace Sweep

/-- Two runs over the same entries came to the same. -/
structure Alike (entries₁ entries₂ : List Entry) (r₁ r₂ : Settled) (t₁ t₂ : Tracker) : Prop where
  lengths : r₁.slots.length = entries₁.length ∧ r₂.slots.length = entries₂.length
  slots : ∀ e s₁ s₂, (e, s₁) ∈ entries₁.zip r₁.slots → (e, s₂) ∈ entries₂.zip r₂.slots → s₁.Alike s₂
  classes : ∀ owner, t₁.containsClass owner = t₂.containsClass owner
  methods : ∀ owner s, t₁.containsMethod owner s = t₂.containsMethod owner s
  fields : ∀ owner key, t₁.containsField owner key = t₂.containsField owner key

/-- Runs that end stable come to the same, in whichever orders the entries stand. -/
theorem alike_of_perm {settings : Settings} {entries₁ entries₂ : List Entry} {v w v' w' : World}
    {r₁ r₂ : Settled} (hperm : entries₁.Perm entries₂) (hv : v.tracker = {}) (hw : w.tracker = {})
    (hregular : ∀ e ∈ entries₁, e.isClass = true → ∀ c, ClassFile.ofBytes e.contents = .ok c →
      c.Regular)
    (hfits₁ : WritesFit settings (slots entries₁) {})
    (hfits₂ : WritesFit settings (slots entries₂) {})
    (hrun₁ : (run settings (slots entries₁)).run v = .ok r₁ v') (hstable₁ : r₁.stable = true)
    (hrun₂ : (run settings (slots entries₂)).run w = .ok r₂ w') (hstable₂ : r₂.stable = true) :
    Alike entries₁ entries₂ r₁ r₂ v'.tracker w'.tracker := by
  have hclasses : ∀ c ∈ classes entries₁, c.Regular ∧ ∃ e ∈ entries₁, e.isClass = true ∧
      ClassFile.ofBytes e.contents = .ok c := by
    intro c hc
    obtain ⟨e, he, hclass, hread⟩ := of_mem_classes hc
    exact ⟨hregular e he hclass c hread, e, he, hclass, hread⟩
  have hclasses₂ : ∀ c ∈ classes entries₁, c.Regular ∧ ∃ e ∈ entries₂, e.isClass = true ∧
      ClassFile.ofBytes e.contents = .ok c := by
    intro c hc
    obtain ⟨hc, e, he, hread⟩ := hclasses c hc
    exact ⟨hc, e, hperm.mem_iff.1 he, hread⟩
  obtain ⟨hwithin₁, hends₁⟩ := ended_of_run hv (fun e he hclass c hc =>
    ⟨mem_classes he hclass hc, hregular e he hclass c hc⟩) hfits₁ hrun₁ hstable₁
  obtain ⟨hwithin₂, hends₂⟩ := ended_of_run hw (fun e he hclass c hc =>
    ⟨mem_classes (hperm.mem_iff.2 he) hclass hc, hregular e (hperm.mem_iff.2 he) hclass c hc⟩)
    hfits₂ hrun₂ hstable₂
  have hreached₁ := fun x => reached_of_run (x := x) hclasses hends₁
  have hreached₂ := fun x => reached_of_run (x := x) hclasses₂ hends₂
  have hle := hwithin₁.le hreached₂
  have hle' := hwithin₂.le hreached₁
  obtain ⟨hlength₁, hzip₁⟩ := List.forall₂_iff_zip.1 hends₁
  obtain ⟨hlength₂, hzip₂⟩ := List.forall₂_iff_zip.1 hends₂
  exact {
    lengths := ⟨hlength₁.symm, hlength₂.symm⟩
    slots := fun e s₁ s₂ hs₁ hs₂ => (hzip₁ hs₁).alike (fun c hc => (hclasses c hc).1.differ) hle
      hle' hreached₁ hreached₂ (hzip₂ hs₂)
    classes := fun owner => Bool.eq_iff_iff.2 ⟨hle.classes owner, hle'.classes owner⟩
    methods := fun owner s => Bool.eq_iff_iff.2 ⟨hle.methods owner s, hle'.methods owner s⟩
    fields := fun owner key => Bool.eq_iff_iff.2 ⟨hle.fields owner key, hle'.fields owner key⟩ }

theorem regular_callerEntries : ∀ e ∈ callerEntries, e.isClass = true → ∀ c,
    ClassFile.ofBytes e.contents = .ok c → c.Regular := by
  have hgrounded : ∀ e ∈ callerEntries, e.isClass = true → ∀ c,
      ClassFile.ofBytes e.contents = .ok c → c.Grounded :=
    forall_callerEntries ⟨by decide +kernel, by decide +kernel, by decide +kernel⟩
      ⟨by decide +kernel, by decide +kernel, by decide +kernel⟩
  exact fun e he hclass c hc => ⟨hgrounded e he hclass c hc,
    (legible_callerEntries e he hclass c hc).told, differ_callerEntries e he hclass c hc,
    (small_callerEntries e he hclass c hc).one⟩

/-- The calling method is looked at again after the method that it calls has gone, or just once. -/
theorem alike_of_perm_caller : ∃ r₁ v' r₂ w',
    (run unhurried (slots callerEntries)).run {} = .ok r₁ v' ∧
      (run unhurried (slots callerEntries.reverse)).run {} = .ok r₂ w' ∧
        r₁.slots.countP (·.isLive) = 2 ∧ v'.tracker.containsMethod "B" ⟨"n", "()V"⟩ = true ∧
          Alike callerEntries callerEntries.reverse r₁ r₂ v'.tracker w'.tracker := by
  have hends : endsWithoutCaller ((run unhurried (slots callerEntries.reverse)).run {}) = true := by
    decide +kernel
  obtain ⟨r₁, v', hrun₁, hstable₁, hlive, hgone⟩ := run_callerEntries
  obtain ⟨r₂, w', hrun₂, hstable₂, -⟩ := of_endsWithoutCaller hends
  refine ⟨r₁, v', r₂, w', hrun₁, hrun₂, hlive, hgone, ?_⟩
  exact alike_of_perm (List.reverse_perm _).symm rfl rfl regular_callerEntries
    (writesFit_of_small small_callerEntries)
    (writesFit_of_small fun e he => small_callerEntries e (List.mem_reverse.1 he))
    hrun₁ hstable₁ hrun₂ hstable₂

end Sweep

end JarPruning
