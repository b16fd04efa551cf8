import JarPruning.Proofs.Pass.Bodies
import JarPruning.Proofs.Pass.Closed
import JarPruning.Proofs.Pass.Sparing

/-!
What a run keeps of every class, from its first pass to the last: nothing is lost but what is doomed,
and what is missing is accounted for.
-/
namespace JarPruning

open Metadata (Payload)

namespace Prune

variable {policy : Policy} {classes : List ClassFile} {owner : String} {c₀ c : ClassFile}
  {l l' : Ledger} {t : Tracker} {x : Loss}

/-- A pass that changes nothing leaves the class itself. -/
theorem Rewriting.result_of_same (r : Rewriting policy l c) (hc : c.Fits) (hone : OneMetadata c)
    (hsame : r.changed = false ∨ r.result.bytes = c.bytes) : r.result = c := by
  obtain ⟨hfields, hmethods, hattributes, hpool⟩ := r.of_same hc.toFramed hsame
  obtain ⟨hlinks, hnew⟩ := r.attributes_rest hc hone hattributes
  have hattributes : r.attributes = c.attributes := by
    obtain ⟨-, heq⟩ | ⟨b, hsome, -⟩ := r.replaced_cases
    · exact heq.trans ((attributes_of_rest hlinks).trans r.marks_ok.1.symm)
    · cases hnew.symm.trans hsome
  have hlast : r.pool = c.pool := by
    obtain ⟨-, -, heq, -⟩ | ⟨a, b, kind, d1, d2, payload, changes, -, hsome, -⟩ :=
      r.ofMetadata_cases
    · exact heq.trans hpool
    · cases hnew.symm.trans hsome
  rw [Rewriting.result, hfields, hmethods, hattributes, hlast]

/-- What is known of the class called `owner` after some passes: all that it lost is doomed, and
accounted for. -/
structure Traced (policy : Policy) (classes : List ClassFile) (owner : String) (c₀ : ClassFile)
    (l : Ledger) (c : ClassFile) : Prop extends Spares policy classes owner c₀ l c where
  grounded : c₀.Grounded
  consistent : Consistent policy l c
  one : OneMetadata c
  remains : Remains policy owner c₀ l.tracker (Handled policy l c₀ owner c) c

namespace Traced

theorem name_eq (h : Traced policy classes owner c₀ l c) (r : Rewriting policy l' c) :
    r.name = owner :=
  Except.ok.inj ((h.stems.named r.name r.surveyed.named).symm.trans h.named)

theorem withTracker (h : Traced policy classes owner c₀ l c)
    (hgood : t.Within (Doomed policy classes)) (hle : l.tracker.Le t) :
    Traced policy classes owner c₀ { l with tracker := t } c where
  toSpares := h.toSpares.ledger (fun _ hs => hs) hle (h.within.withTracker hgood)
  grounded := h.grounded
  consistent := ⟨h.consistent.differ, h.consistent.stubbed⟩
  one := h.one
  remains := h.remains.mono hle fun _ hhandled => hhandled.withTracker hle

theorem rewritten (h : Traced policy classes owner c₀ l c) (r : Rewriting policy l.expire c)
    (hc : c.Fits) (hfits : r.Fits) : Traced policy classes owner c₀ r.last r.result where
  toSpares := h.toSpares.expire.rewritten r hc.toFramed hfits.new
  grounded := h.grounded
  consistent := h.consistent.expire.rewritten r hc.toFramed rfl rfl
  one := r.result_oneMetadata hc.toFramed hfits h.one
  remains := h.remains.rewritten r hc hfits.new h.legible h.one (h.name_eq r)

/-- The class and its memory as they were before the first pass. -/
def Fresh (c₀ : ClassFile) (l : Ledger) (c : ClassFile) : Prop :=
  c = c₀ ∧ ∀ key : Signature, l.memory.stubbed.contains key = false

/-- After a pass what is said of bodies holds, whether the pass was the first or not. -/
theorem bodies (h : Traced policy classes owner c₀ l c)
    (hbodies : Fresh c₀ l c ∨ Bodies policy (Doomed policy classes) owner c₀ l c)
    (r : Rewriting policy l.expire c) (hc : c.Fits) (hfits : r.Fits) :
    Bodies policy (Doomed policy classes) owner c₀ r.last r.result := by
  obtain rfl := h.name_eq r
  have hlast := (h.rewritten r hc hfits).within
  obtain ⟨rfl, hfresh⟩ | hbodies := hbodies
  · exact .first r hc.toFramed h.grounded h.legible h.consistent.expire hfresh hlast
  · exact .next r hbodies.expire hc.toFramed h.legible h.remains.pool
      (h.stems.methods _ r.bootstraps_unlinked).1 hlast

end Traced

/-- What a run keeps of every class. -/
def tracing (policy : Policy) (classes : List ClassFile) : Claims where
  good t := t.Within (Doomed policy classes)
  holds passed o l bytes := (passed = true → ∃ c, ClassFile.ofBytes bytes = .ok c) ∧
    ∀ c, ClassFile.ofBytes bytes = .ok c → ∃ c₀ owner, ClassFile.ofBytes o.entry.contents = .ok c₀ ∧
      Traced policy classes owner c₀ l c ∧ ((passed = false ∧ Traced.Fresh c₀ l c) ∨
        Bodies policy (Doomed policy classes) owner c₀ l c)
  gone o t := ∃ c₀ owner, ClassFile.ofBytes o.entry.contents = .ok c₀ ∧ c₀.name = .ok owner ∧
    t.containsClass owner = true

theorem tracing_kept (policy : Policy) (classes : List ClassFile) :
    (tracing policy classes).Kept policy (Begun.Fits policy) where
  pass {o passed l bytes l' out} hmade hgood hholds hpass := by
    obtain ⟨c, hc, hpassed⟩ := pass_ok hpass
    obtain ⟨c₀, owner, hc₀, htraced, hbodies⟩ := hholds.2 c hc
    have hfits := (ClassFile.of_ofBytes hc).2.1
    have hleft (r : Rewriting policy l.expire c) :
        Traced policy classes owner c₀ r.last r.result ∧
          Bodies policy (Doomed policy classes) owner c₀ r.last r.result :=
      ⟨htraced.rewritten r hfits (hmade c hc r),
        htraced.bodies (hbodies.imp_left And.right) r hfits (hmade c hc r)⟩
    cases hpassed with
    | @discarded name hname hdiscards =>
      have hself := htraced.stems.named name hname
      have hdoomed := hdiscards.class_doomed htraced.mem htraced.stems hgood hname
      exact ⟨hgood.addClass hdoomed, Tracker.le_addClass _ _, c₀, name, hc₀, hself, by simp⟩
    | modified r _ =>
      obtain ⟨hlast, hbodies⟩ := hleft r
      have hread := r.ofBytes_result hfits (hmade c hc r)
      refine ⟨hlast.within.tracker, r.tracker_le, fun _ => ⟨_, hread⟩, fun c' hc' => ?_⟩
      obtain rfl := Except.ok.inj (hc'.symm.trans hread)
      exact ⟨c₀, owner, hc₀, hlast, .inr hbodies⟩
    | unchanged r hsame =>
      obtain ⟨hlast, hbodies⟩ := hleft r
      rw [r.result_of_same hfits htraced.one hsame] at hlast hbodies
      refine ⟨hlast.within.tracker, r.tracker_le, fun _ => ⟨c, hc⟩, fun c' hc' => ?_⟩
      obtain rfl := Except.ok.inj (hc'.symm.trans hc)
      exact ⟨c₀, owner, hc₀, hlast, .inr hbodies⟩
  grow hgood hle hholds := by
    refine ⟨hholds.1, fun c hc => ?_⟩
    obtain ⟨c₀, owner, hc₀, htraced, hbodies⟩ := hholds.2 c hc
    exact ⟨c₀, owner, hc₀, htraced.withTracker hgood hle,
      hbodies.imp_right fun hbodies => hbodies.ledger fun _ hs => hs⟩
  goneGrow _ hle hgone := by
    obtain ⟨c₀, owner, hc₀, hname, hgone⟩ := hgone
    exact ⟨c₀, owner, hc₀, hname, hle.classes _ hgone⟩

/-! Classes at the end of a run. -/

/-- A class as a run that ended stable leaves it, with the tracker `t` and the ledger after the last
pass over it: nothing in it has to go, and all that was due has been dealt with. -/
structure Ended (policy : Policy) (classes : List ClassFile) (owner : String) (c₀ : ClassFile)
    (t : Tracker) (l : Ledger) (c : ClassFile) : Prop where
  spares : Spares policy classes owner c₀ l c
  consistent : Consistent policy l c
  remains : Remains policy owner c₀ t (Cleared policy l c₀ owner c) c
  bodies : Bodies policy (Doomed policy classes) owner c₀ l c
  closed : c.Closed policy t owner
  linked : ∃ ms links, marks c.pool c.attributes = .ok ms ∧ Linked policy c ms links ∧
    readLinks c.pool c.attributes = .ok links
  quiet : ∀ p, c.Packs p → ∃ changes, p.sweep owner t = .ok (p, changes) ∧ changes.removed = []
  clears : ∀ x, t.Has x → Cleared policy l c₀ owner c x

/-- A class as the last pass over it leaves it. -/
theorem Traced.ended (h : Traced policy classes owner c₀ l c)
    (hbodies : Fresh c₀ l c ∨ Bodies policy (Doomed policy classes) owner c₀ l c)
    (r : Rewriting policy l.expire c) (hc : c.Fits) (hfits : r.Fits)
    (hsame : r.changed = false ∨ r.result.bytes = c.bytes) (hlast : r.last.tracker = l.tracker) :
    Ended policy classes owner c₀ l.tracker r.last c := by
  obtain rfl := h.name_eq r
  have hresult := r.result_of_same hc h.one hsame
  have htraced := h.rewritten r hc hfits
  have hbodies := h.bodies hbodies r hc hfits
  obtain ⟨ms, hms, -⟩ := r.marks_result hc.toFramed hfits.new
  obtain ⟨links, hlinked, hlinks, -⟩ := r.linked_result hc.toFramed hfits.new hms
  have hhandled (x : Loss) (hx : Handled policy l c₀ r.name c x) :
      Cleared policy r.last c₀ r.name c x := by
    have hcleared := hx.rewritten r hc.toFramed hfits.new h.legible rfl
    rwa [hresult] at hcleared
  have hclosed := r.closed hc h.one h.consistent.expire hsame
  rw [hresult] at htraced hbodies
  exact {
    spares := htraced.toSpares
    consistent := htraced.consistent
    remains := h.remains.mono (.refl _) hhandled
    bodies := hbodies
    closed := hclosed
    linked := by
      rw [← hresult]
      exact ⟨ms, links, hms, hlinked, hlinks⟩
    quiet := fun p hp => by
      obtain ⟨p', changes, hsweep, hpacks, -⟩ :=
        r.packs_result hc hfits.new h.one h.legible.told hp
      rw [hresult] at hpacks
      obtain rfl := hp.unique hpacks
      rw [hlast] at hsweep
      obtain ⟨hms, ha, hdescribed, hdecoded⟩ := hp
      obtain ⟨kind, d1, d2, hparts, hswept⟩ :=
        hclosed.metadata _ ((Marked.mem_all_iff hms).1 (metadataOf_mem ha))
      cases hdescribed.parts.symm.trans hparts
      obtain ⟨q, q', changes', hdecode, hsweep', hremoved⟩ :=
        hswept hdescribed.editable hdescribed.packed
      cases hdecoded.symm.trans hdecode
      cases hsweep.symm.trans hsweep'
      exact ⟨changes, hsweep, hremoved⟩
    clears := fun x hx => hhandled x (.inl (.of_has hx)) }

end Prune

end JarPruning
