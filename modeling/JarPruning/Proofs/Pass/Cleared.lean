import JarPruning.Proofs.Pass.Overwriting

/-!
Losses that passes have dealt with. A pass at whose start a loss counts as gone or due leaves no
member that the loss takes and, of the bodies that it looks at, none that suffers from it. What is
cleared of a loss stays so in later passes, though the loss may count no longer.
-/
namespace JarPruning

open ConstantPool (Grows)

/-- The tracker holds the loss. -/
def Tracker.Has (t : Tracker) : Loss → Prop
  | .ofClass name => t.containsClass name = true
  | .method owner s => t.containsMethod owner s = true
  | .field owner name => t.containsField owner ⟨name, "()"⟩ = true
  | .dueMethod _ _ | .dueField _ _ => False

/-- By the ledger, the loss is gone, or due in the class `c₀`, called `owner`. -/
def Ledger.Holds (l : Ledger) (owner : String) (c₀ : ClassFile) : Loss → Prop
  | .dueMethod c s => c = c₀ → l.methodGone owner owner s = true
  | .dueField c name => c = c₀ → l.fieldGone owner owner name = true
  | x => l.tracker.Has x

/-- By the ledger, all that the loss hits in the class `c₀`, called `owner`, is gone or due. -/
structure Ledger.Counts (l : Ledger) (owner : String) (c₀ : ClassFile) (x : Loss) : Prop where
  methods : ∀ o s, x.HitsMethod c₀ owner o s → l.methodGone owner o s = true
  fields : ∀ o name, x.HitsField c₀ owner o name → l.fieldGone owner o name = true

/-- A method of the class `c₀`, called `owner`, that refers to the site falls to the loss, or the
access is overwritten. -/
def Site.Suffers (c₀ : ClassFile) (owner : String) (constructs : Bool) (x : Loss) (site : Site) :
    Prop :=
  site.FallsTo c₀ owner constructs x ∨ ∃ op t, site = .access op t ∧
    x.HitsField c₀ owner t.owner t.name ∧ Neutral.replacement? op t.descriptor ≠ none

namespace Ledger

variable {l l' : Ledger} {owner o name : String} {s : Signature} {c₀ : ClassFile} {x : Loss}

theorem methodGone_of_contains (h : l.tracker.containsMethod o s = true) :
    l.methodGone owner o s = true := by simp [methodGone, h]

theorem fieldGone_of_contains (h : l.tracker.containsField o ⟨name, "()"⟩ = true) :
    l.fieldGone owner o name = true := by simp [fieldGone, h]

namespace Holds

theorem of_has (h : l.tracker.Has x) : l.Holds owner c₀ x := by
  cases x with
  | ofClass _ => exact h
  | method _ _ => exact h
  | field _ _ => exact h
  | dueMethod _ _ => cases h
  | dueField _ _ => cases h

theorem counts (h : l.Holds owner c₀ x) : l.Counts owner c₀ x where
  methods o s hhits := by
    obtain (rfl | rfl) | ⟨rfl, rfl⟩ := hhits
    · exact methodGone_of_contains (by simp [Tracker.containsMethod, show _ = true from h])
    · exact methodGone_of_contains h
    · exact h rfl
  fields o name hhits := by
    obtain (rfl | ⟨-, rfl⟩) | ⟨rfl, rfl⟩ := hhits
    · exact fieldGone_of_contains (by simp [Tracker.containsField, show _ = true from h])
    · exact fieldGone_of_contains h
    · exact h rfl

theorem withTracker (h : l.Holds owner c₀ x) {t : Tracker} (hle : l.tracker.Le t) :
    Holds { l with tracker := t } owner c₀ x := by
  cases x with
  | ofClass _ => exact hle.classes _ h
  | method _ _ => exact hle.methods _ _ h
  | field _ _ => exact hle.fields _ _ h
  | dueMethod _ _ =>
    intro hc
    have hgone := h hc
    simp only [methodGone, Bool.or_eq_true] at hgone ⊢
    exact hgone.imp_left (hle.methods _ _)
  | dueField _ _ =>
    intro hc
    have hgone := h hc
    simp only [fieldGone, Bool.or_eq_true] at hgone ⊢
    exact hgone.imp_left (hle.fields _ _)

end Holds

namespace Counts

theorem onward (h : l.Counts owner c₀ x) (honward : Onward owner l l') : l'.Counts owner c₀ x where
  methods o s hhits := honward.methods o s (h.methods o s hhits)
  fields o name hhits := honward.fields o name (h.fields o name hhits)

theorem handleGone (h : l.Counts owner c₀ x) {handle : HandleRef}
    (hhits : x.HitsHandle c₀ owner handle) : l.handleGone owner handle = true := by
  unfold Ledger.handleGone
  obtain ⟨hfield, hhits⟩ | ⟨hmethod, hhits⟩ := hhits
  · rw [if_pos hfield]
    exact h.fields _ _ hhits
  · rw [if_neg (by simp [hmethod])]
    exact h.methods _ _ hhits

theorem isFatal (h : l.Counts owner c₀ x) {constructs : Bool} {site : Site}
    (hfalls : site.FallsTo c₀ owner constructs x) : site.isFatal l owner constructs = true := by
  cases site with
  | access op t =>
    obtain ⟨rfl, hhits⟩ := hfalls
    exact h.fields _ _ hhits
  | invoke t => exact h.methods _ _ hfalls
  | bind handles =>
    obtain ⟨handle, hhandle, hhits⟩ := hfalls
    exact List.any_eq_true.2 ⟨handle, hhandle, h.handleGone hhits⟩
  | plain => cases hfalls

end Counts

end Ledger

namespace Prune

open Ledger (Onward)

variable {policy : Policy} {p q : ConstantPool} {bootstraps : List Bootstrap} {l l' : Ledger}
  {owner : String} {c₀ c : ClassFile} {x : Loss}

/-- Where a site suffers from a loss that counts, it is fatal, or there is something to overwrite. -/
theorem not_suffers (hcounts : l.Counts owner c₀ x) {constructs : Bool} {i : Instruction}
    {site : Site} (hspared : site.isFatal l owner constructs = false)
    (hnone : overwrites l owner (i, site) = none) : ¬ site.Suffers c₀ owner constructs x := by
  rintro (hfalls | ⟨op, t, rfl, hhits, hbytes⟩)
  · cases hspared.symm.trans (hcounts.isFatal hfalls)
  · rw [overwrites, Site.patch?, if_pos (hcounts.fields _ _ hhits)] at hnone
    simp only [Option.map_eq_none_iff] at hnone
    exact hbytes hnone

/-- In what is left of a body that a pass looked at nothing is fatal, and nothing is left to be
overwritten. -/
theorem MethodStep.spared {entry e : MemberEntry} {m : Member} {ms : List Marked} {ft : Fate}
    {i : Instruction} {site : Site}
    (h : MethodStep policy owner p bootstraps l entry m ms ft)
    (hbecomes : Becomes policy p entry m ft (some e)) (hentry : entry.Grounded p)
    (hgrows : Grows p q)
    (hfresh : (ft.ledger l owner m).memory.stubbed.contains m.toSignature = false)
    (hrefers : Refers q bootstraps e i site) :
    site.isFatal l owner m.isConstructor = false ∧ overwrites l owner (i, site) = none := by
  cases hbecomes with
  | kept hread =>
    obtain rfl := Except.ok.inj (h.read.symm.trans hread)
    obtain ⟨a', ss', ha', hss', hmem⟩ := hrefers
    obtain ⟨a, ss, -, hpayload, hss, hmeets⟩ := h.kept_code hfresh hentry hgrows ha'
    obtain ⟨-, ss₁, hss₁, hspared⟩ := overwritten_of_bodyFate hss hmeets
    rw [hpayload] at hss'
    cases (sites_persist hgrows bootstraps _ _ hss₁).symm.trans hss'
    exact hspared _ hmem
  | stubbed _ _ => cases (l.stubbed_stubMethod m).symm.trans hfresh

/-- Nothing in the class `c`, which was the class `c₀`, has still to go with the loss. -/
structure Cleared (policy : Policy) (l : Ledger) (c₀ : ClassFile) (owner : String) (c : ClassFile)
    (x : Loss) : Prop where
  methods : ∀ s, x.HitsMethod c₀ owner owner s → ¬ c.HasMethod s
  fields : ∀ name, x.HitsField c₀ owner owner name → ¬ c.HasField name
  bodies : ∀ bootstraps, Walk.bootstraps c = .ok bootstraps → ∀ e ∈ c.methods, ∀ m,
    e.resolve c.pool = .ok m → ¬ Exempt policy c.pool e l m → ∀ i site,
      Refers c.pool bootstraps e i site → ¬ site.Suffers c₀ owner m.isConstructor x

theorem Cleared.ledger (h : Cleared policy l c₀ owner c x)
    (hstubs : StubbedStay l.memory.stubbed l'.memory.stubbed) :
    Cleared policy l' c₀ owner c x where
  methods := h.methods
  fields := h.fields
  bodies bootstraps hread e he m hm hwalked :=
    h.bodies bootstraps hread e he m hm fun hexempt => hwalked (hexempt.stay hstubs)

/-- What hits nothing in the class leaves nothing open in it. -/
theorem Cleared.of_misses (hmethod : ∀ o s, ¬ x.HitsMethod c₀ owner o s)
    (hfield : ∀ o name, ¬ x.HitsField c₀ owner o name) : Cleared policy l c₀ owner c x where
  methods s hhits := absurd hhits (hmethod owner s)
  fields name hhits := absurd hhits (hfield owner name)
  bodies _ _ _ _ _ _ _ _ site _ hsuffers := by
    obtain hfalls | ⟨op, t, -, hhits, -⟩ := hsuffers
    · cases site with
      | access _ _ => exact hfield _ _ hfalls.2
      | invoke _ => exact hmethod _ _ hfalls
      | bind _ =>
        obtain ⟨handle, -, ⟨-, hhits⟩ | ⟨-, hhits⟩⟩ := hfalls
        · exact hfield _ _ hhits
        · exact hmethod _ _ hhits
      | plain => exact hfalls
    · exact hfield _ _ hhits

theorem Cleared.expire (h : Cleared policy l c₀ owner c x) : Cleared policy l.expire c₀ owner c x :=
  h.ledger fun _ hs => hs

namespace Rewriting

theorem leaves_result (r : Rewriting policy l c) (hc : c.Framed) : r.Leaves r.result where
  fields := rfl
  methods := rfl
  pool := r.pool_grows hc
  named := r.result_name hc

/-- What is gone or due when a pass starts is cleared when it ends. -/
theorem cleared (r : Rewriting policy l c) (hc : c.Framed) (hlegible : c.Legible)
    (hholds : l.Holds r.name c₀ x) : Cleared policy r.last c₀ r.name r.result x where
  methods s hhits hs := by
    obtain ⟨-, hhere⟩ := (r.leaves_result hc).hasMethod hs
    cases hhere.symm.trans (hholds.counts.methods _ _ hhits)
  fields name hhits hname := by
    obtain ⟨-, hhere⟩ := (r.leaves_result hc).hasField hname
    cases hhere.symm.trans (hholds.counts.fields _ _ hhits)
  bodies bootstraps hread e he m hm hwalked i site hrefers := by
    obtain rfl := Except.ok.inj ((r.bootstraps_result hc).symm.trans hread)
    obtain ⟨entry, hentry, u, n, ms, ft, hu, hstep, hbecomes, hlast⟩ := r.of_mem_methods he
    have hgrows := r.pool_grows hc
    have hheader := hbecomes.header
    obtain rfl : n = m := Except.ok.inj ((resolve_grow hgrows hheader.access hheader.name
      hheader.descriptor hstep.resolved).symm.trans hm)
    have hfresh := Bool.eq_false_iff.2 fun hstubbed => hwalked (.inl (hlast.stubs _ hstubbed))
    obtain ⟨hspared, hnone⟩ :=
      hstep.spared hbecomes (hlegible.methods entry hentry) hgrows hfresh hrefers
    exact not_suffers (hholds.counts.onward hu) hspared hnone

end Rewriting

/-- A class that is cleared of a loss stays so. -/
theorem Cleared.rewritten (h : Cleared policy l c₀ owner c x) (r : Rewriting policy l c)
    (hc : c.Framed) (hnew : ∀ b ∈ r.new, b.Fits) (hlegible : c.Legible) :
    Cleared policy r.last c₀ owner r.result x where
  methods s hhits hs := h.methods s hhits ((r.leaves_result hc).hasMethod hs).1
  fields name hhits hname := h.fields name hhits ((r.leaves_result hc).hasField hname).1
  bodies bootstraps hread e he m hm hwalked i site hrefers hsuffers := by
    have hstems := r.stems hc hnew hlegible
    obtain ⟨hread₀, hmethods⟩ := hstems.methods bootstraps hread
    obtain ⟨e₀, he₀, hstem⟩ := hmethods e he
    obtain rfl | hrefers₀ := hstem.refers m hm hwalked i site hrefers
    · obtain hfalls | ⟨op, t, heq, -⟩ := hsuffers
      · cases hfalls
      · cases heq
    · refine h.bodies bootstraps hread₀ e₀ he₀ m (hstem.resolves m hm) (fun hexempt => ?_) i site
        hrefers₀ hsuffers
      obtain hs | ⟨hconstructor, hstub⟩ := hexempt
      · exact hwalked (.inl (r.onward.stubs _ hs))
      · exact hwalked (.inr ⟨hconstructor, (hstem.bears_iff (by decide)).2 hstub⟩)

/-! What is being dealt with. -/

/-- The loss will be gone or due when the next pass starts, or all of it is cleared already. -/
def Handled (policy : Policy) (l : Ledger) (c₀ : ClassFile) (owner : String) (c : ClassFile)
    (x : Loss) : Prop :=
  l.expire.Holds owner c₀ x ∨ Cleared policy l c₀ owner c x

namespace Handled

theorem withTracker (h : Handled policy l c₀ owner c x) {t : Tracker} (hle : l.tracker.Le t) :
    Handled policy { l with tracker := t } c₀ owner c x :=
  h.imp (fun hholds => hholds.withTracker hle) fun hcleared => hcleared.ledger fun _ hs => hs

theorem rewritten (h : Handled policy l c₀ owner c x) (r : Rewriting policy l.expire c)
    (hc : c.Framed) (hnew : ∀ b ∈ r.new, b.Fits) (hlegible : c.Legible) (hname : r.name = owner) :
    Cleared policy r.last c₀ owner r.result x := by
  subst hname
  obtain hholds | hcleared := h
  · exact r.cleared hc hlegible hholds
  · exact hcleared.expire.rewritten r hc hnew hlegible

end Handled

namespace Rewriting

/-- A method that is due at the end of a pass is due when the next starts, or the pass dealt with
it. -/
theorem handled_method (r : Rewriting policy l c) (hc : c.Framed) (hlegible : c.Legible)
    {s : Signature} (hgone : r.last.methodGone r.name r.name s = true) :
    Handled policy r.last c₀ r.name r.result (.dueMethod c₀ s) := by
  have hexpired : r.last.expire.memory = r.last.memory.expire := rfl
  obtain hnext | hbefore := r.onward.method_next hexpired (.refl _) hgone
  · exact .inl fun _ => hnext
  · exact .inr (r.cleared hc hlegible fun _ => hbefore)

theorem handled_field (r : Rewriting policy l c) (hc : c.Framed) (hlegible : c.Legible)
    {name : String} (hgone : r.last.fieldGone r.name r.name name = true) :
    Handled policy r.last c₀ r.name r.result (.dueField c₀ name) := by
  have hexpired : r.last.expire.memory = r.last.memory.expire := rfl
  obtain hnext | hbefore := r.onward.field_next hexpired (.refl _) hgone
  · exact .inl fun _ => hnext
  · exact .inr (r.cleared hc hlegible fun _ => hbefore)

end Rewriting

end Prune

end JarPruning
