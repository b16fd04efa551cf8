import JarPruning.Proofs.Metadata.Shedding
import JarPruning.Proofs.Pass.Completion

/-!
What passes leave of the links and the metadata of one class when they find more or less gone. Stubs may
fill in constants to which an annotation refers, so two passes do not read it in the same pool; but all
stubs add the same constants, so one of the pools is the other or grows from it.
-/
namespace JarPruning

open ConstantPool (Grows)
open Metadata (Kind Payload)

/-! Links. -/

namespace Link

/-- What a link is without some of its rows. -/
inductive Sheds : Link → Link → Prop
  | outer (link : OuterLink) : Sheds (.outer link) (.outer link)
  | inner {rows rows' : List (Walk.Row InnerLink)} (fewer : rows'.Sublist rows) :
    Sheds (.inner rows) (.inner rows')
  | host (name : String) : Sheds (.host name) (.host name)
  | listed {rows rows' : List (Walk.Row String)} (fewer : rows'.Sublist rows) :
    Sheds (.listed rows) (.listed rows')
  | none : Sheds .none .none

variable {t t' : Tracker}

theorem sheds_rest (link : Link) (t : Tracker) (self : String) : link.Sheds (link.rest t self) := by
  cases link with
  | outer link => exact .outer link
  | inner rows => exact .inner List.filter_sublist
  | host name => exact .host name
  | listed rows => exact .listed List.filter_sublist
  | none => exact .none

/-- Where more is gone, fewer rows are left. -/
theorem rest_sheds_rest (h : t.Le t') (link : Link) (self : String) :
    (link.rest t self).Sheds (link.rest t' self) := by
  have hstays {c : String} (hc : t'.containsClass c = false) : t.containsClass c = false :=
    Bool.eq_false_iff.2 fun hgone => by cases hc.symm.trans (h.classes c hgone)
  cases link with
  | outer link => exact .outer link
  | inner rows =>
    refine .inner (List.monotone_filter_right rows fun row hrow => ?_)
    simp only [Bool.or_eq_true, Bool.not_eq_true'] at hrow ⊢
    exact hrow.imp_right hstays
  | host name => exact .host name
  | listed rows =>
    refine .listed (List.monotone_filter_right rows fun row hrow => ?_)
    simp only [Bool.not_eq_true'] at hrow ⊢
    exact hstays hrow
  | none => exact .none

theorem dooms_mono (h : t.Le t') {link : Link} {self : String} (hdooms : link.dooms t self = true) :
    link.dooms t' self = true := by
  cases link with
  | outer link =>
    simp only [dooms, Bool.or_eq_true, Option.any_eq_true] at hdooms ⊢
    obtain hgone | ⟨m, hm, hgone⟩ := hdooms
    · exact .inl (h.classes _ hgone)
    · exact .inr ⟨m, hm, h.methods _ _ hgone⟩
  | inner rows =>
    simp only [dooms, List.any_eq_true, Bool.and_eq_true, Option.any_eq_true] at hdooms ⊢
    obtain ⟨row, hrow, hself, outer, houter, hgone⟩ := hdooms
    exact ⟨row, hrow, hself, outer, houter, h.classes _ hgone⟩
  | host name => exact h.classes _ hdooms
  | listed _ => exact hdooms
  | none => exact hdooms

end Link

namespace Prune

variable {policy : Policy} {l l₁ l₂ : Ledger} {c : ClassFile}

/-! Classes that are discarded. -/

theorem headerDoomed_mono {t t' : Tracker} (hle : t.Le t') {h : ClassHeader}
    (hdoomed : headerDoomed t h = true) : headerDoomed t' h = true := by
  simp only [headerDoomed, Bool.or_eq_true, List.any_eq_true] at hdoomed ⊢
  obtain hgone | ⟨name, hname, hgone⟩ := hdoomed
  · exact .inl (hle.classes _ hgone)
  · exact .inr ⟨name, hname, hle.classes _ hgone⟩

/-- A class that is discarded is discarded where more is gone. -/
theorem Discards.mono (h : Discards policy l₁ c) (hle : l₁.tracker.Le l₂.tracker) :
    Discards policy l₂ c := by
  cases h with
  | doomed hsurveyed hdoomed => exact .doomed hsurveyed (hdoomed.imp_left (headerDoomed_mono hle))
  | unlinked hsurveyed hlinked hdooms =>
    obtain ⟨p, hp, hdooms⟩ := hdooms
    exact .unlinked hsurveyed hlinked ⟨p, hp, Link.dooms_mono hle hdooms⟩

namespace Rewriting

theorem not_discards (r : Rewriting policy l c) : ¬ Discards policy l c := by
  rintro (⟨hsurveyed, hdoomed⟩ | ⟨hsurveyed, hlinked, p, hp, hdooms⟩)
  · obtain rfl := Except.ok.inj (hsurveyed.header.symm.trans r.surveyed.header)
    obtain rfl := Except.ok.inj (hsurveyed.read.symm.trans r.surveyed.read)
    rw [r.undoomed, r.wanted] at hdoomed
    simp at hdoomed
  · obtain rfl := Except.ok.inj (hsurveyed.named.symm.trans r.surveyed.named)
    obtain rfl := Except.ok.inj (hsurveyed.read.symm.trans r.surveyed.read)
    obtain rfl := Except.ok.inj (hlinked.symm.trans r.linked)
    cases (r.spared p hp).symm.trans hdooms

/-! Passes over the same class. -/

variable (r₁ : Rewriting policy l₁ c) (r₂ : Rewriting policy l₂ c)

theorem name_eq : r₁.name = r₂.name :=
  Except.ok.inj (r₁.surveyed.named.symm.trans r₂.surveyed.named)

theorem marked_eq : r₁.marked = r₂.marked :=
  Except.ok.inj (r₁.surveyed.read.symm.trans r₂.surveyed.read)

theorem links_eq : r₁.links = r₂.links := by
  have hlinked := r₁.linked
  rw [Linked, r₁.marked_eq r₂] at hlinked
  exact Except.ok.inj (hlinked.symm.trans r₂.linked)

theorem bootstraps_eq : r₁.bootstraps = r₂.bootstraps :=
  Except.ok.inj (r₁.bootstraps_unlinked.symm.trans r₂.bootstraps_unlinked)

end Rewriting

/-! Stubs. -/

/-- Stubs leave the pool as it was, or add what the first that throws adds. -/
theorem installStubs_pool {ks : List Walk.KeptMethod} {es : List MemberEntry} {p q : ConstantPool}
    (hp : p.Fits) (h : (Walk.installStubs ks).run p = .ok es q) :
    q = p ∨ ∃ code, Stub.throwingCode.run p = .ok code q := by
  induction ks generalizing es p with
  | nil =>
    cases h
    exact .inl rfl
  | cons k ks ih =>
    obtain ⟨e, es', p', he, hes, -⟩ := installStubs_cons_ok h
    have hrest := ih ((installStub_adds k he).fits hp) hes
    obtain ⟨-, -, rfl⟩ | ⟨position, descriptor, payload, -, -, hpayload, -⟩ := installStub_ok he
    · exact hrest
    obtain ⟨shape, -, -, hwritten⟩ := Stub.payload_ok_iff.1 hpayload
    cases hwritten with
    | returns _ hsame =>
      obtain rfl := hsame
      exact hrest
    | throws _ hcode =>
      obtain rfl | ⟨code', hcode'⟩ := hrest
      · exact .inr ⟨_, hcode⟩
      · obtain rfl := Stub.throwingCode_idle hp hcode hcode'
        exact .inr ⟨_, hcode⟩

namespace Rewriting

variable (r₁ : Rewriting policy l₁ c) (r₂ : Rewriting policy l₂ c)

/-- Of the pools with the stubs of two passes, one grows from the other. -/
theorem stubbed_comparable (hc : c.Framed) :
    Grows r₁.stubbed r₂.stubbed ∨ Grows r₂.stubbed r₁.stubbed := by
  have hgrows₁ := (r₁.installed_fit hc).2
  have hgrows₂ := (r₂.installed_fit hc).2
  obtain h₁ | ⟨code₁, h₁⟩ := installStubs_pool hc.pool r₁.installed
  · rw [h₁]
    exact .inl hgrows₂
  obtain h₂ | ⟨code₂, h₂⟩ := installStubs_pool hc.pool r₂.installed
  · rw [h₂]
    exact .inr hgrows₁
  · rw [(EStateM.Result.ok.inj (h₁.symm.trans h₂)).2]
    exact .inl (.refl _)

/-- Two passes read the same of an annotation, if they can read it. -/
theorem parts_eq (hc : c.Framed) {a : AnnotationEntry} {x₁ x₂ : Kind × List String × List String}
    (h₁ : Pruner.metadataParts r₁.stubbed a = .ok x₁)
    (h₂ : Pruner.metadataParts r₂.stubbed a = .ok x₂) : x₁ = x₂ := by
  obtain hgrows | hgrows := r₁.stubbed_comparable r₂ hc
  · exact Except.ok.inj ((metadataParts_persists hgrows a _ h₁).symm.trans h₂)
  · exact Except.ok.inj (h₁.symm.trans (metadataParts_persists hgrows a _ h₂))

end Rewriting

/-! Metadata. -/

/-- Some table of annotations among the attributes of a class is written with this annotation. -/
def Tabled (c : ClassFile) (a : AnnotationEntry) : Prop :=
  ∃ x ∈ c.attributes, x.isAnnotations c.pool = true ∧
    ∃ before after, x.payload = AnnotationEntry.tableBytes (before ++ a :: after)

theorem Tabled.of_annotated {a : AnnotationEntry} {d : String}
    (h : Annotated c.pool c.attributes a d) : Tabled c a := by
  obtain ⟨x, hx, hmarked, table, htable, ha, -⟩ := h
  obtain ⟨before, after, rfl⟩ := List.append_of_mem ha
  exact ⟨x, hx, hmarked, before, after, (AnnotationEntry.of_readTable htable).1⟩

/-- What is left of a metadata annotation that packed a payload in these strings: the annotation as it
was, or one that packs another payload in its place. -/
inductive MetadataLeft (c : ClassFile) (a : AnnotationEntry) (d1 : List String) :
    Option Payload → Prop
  | whole (stands : Tabled c a) : MetadataLeft c a d1 none
  | repacked {p : ConstantPool} {b : AnnotationEntry} {payload : Payload}
    (restrung : AnnotationEntry.Restrung p c.pool "d1" d1 payload.encode a b) (stands : Tabled c b) :
    MetadataLeft c a d1 (some payload)

namespace Rewriting

variable {a : AnnotationEntry}

/-- Neither stripping nor thinning touches the metadata annotation. -/
theorem annotated_unlinked (r : Rewriting policy l c) (ha : metadataOf r.marked = some a) :
    Annotated c.pool (unlinked l c r.name r.links).attributes a Pruner.metadataDescriptor := by
  have hannotated := (Marked.mem_all_iff r.surveyed.read).1 (metadataOf_mem ha)
  have hstripped : Annotated c.pool (Marked.stripAll (stripsFromClass policy) r.marked).1 a
      Pruner.metadataDescriptor := hannotated.stripAll r.surveyed.read (by simp [stripsFromClass])
  rw [r.links_ok.1] at hstripped
  obtain ⟨x, hx, hmarked, htable⟩ := hstripped
  obtain ⟨⟨x, link⟩, hp, rfl⟩ := List.mem_map.1 hx
  refine ⟨x, List.mem_map.2 ⟨_, hp, ?_⟩, hmarked, htable⟩
  obtain rfl := (r.links_ok.2 _ hp).of_isAnnotations hmarked
  rfl

/-- An annotation that is not repacked stands where it stood. -/
theorem tabled_old (r : Rewriting policy l c)
    (ha : Annotated r.pool (unlinked l c r.name r.links).attributes a Pruner.metadataDescriptor)
    (hnew : r.new = []) : Tabled r.result a := by
  obtain ⟨-, hsame⟩ | ⟨b, hb, -⟩ := r.replaced_cases
  · refine Tabled.of_annotated (d := Pruner.metadataDescriptor) ?_
    show Annotated r.pool r.attributes a _
    rwa [hsame]
  · cases hnew.symm.trans hb

/-- An annotation that was repacked stands in some table. -/
theorem tabled_new (r : Rewriting policy l c) {b : AnnotationEntry}
    (ha : Annotated r.pool (unlinked l c r.name r.links).attributes a Pruner.metadataDescriptor)
    (hnew : r.new = [b]) (htype : b.typeIndex = a.typeIndex) : Tabled r.result b := by
  obtain ⟨hnone, -⟩ | ⟨b', hb', hreplaced⟩ := r.replaced_cases
  · cases hnew.symm.trans hnone
  obtain rfl : b = b' := by simpa using hnew.symm.trans hb'
  show ∃ x ∈ r.attributes, _
  generalize r.attributes = as at hreplaced
  generalize r.replaced = replaced at hreplaced
  generalize (unlinked l c r.name r.links).attributes = as' at ha hreplaced
  cases hreplaced with
  | absent hlacks =>
    -- The annotation in whose place it was to stand is in one of the tables.
    obtain ⟨x, hx, hmarked, table, htable, hin, -⟩ := ha
    obtain ⟨table', htable', hnone⟩ := hlacks x hx hmarked
    cases htable.symm.trans htable'
    exact absurd htype.symm (hnone a hin)
  | found _ hmarked _ _ _ =>
    exact ⟨_, List.mem_append_right _ (List.mem_cons_self ..), hmarked, _, _, rfl⟩

/-- What a pass reads of the metadata annotation, and what it leaves of it. -/
theorem metadata_left (r : Rewriting policy l c) (hc : c.Framed)
    (ha : metadataOf r.marked = some a) :
    ∃ kind d1 d2, Pruner.metadataParts r.stubbed a = .ok (kind, d1, d2) ∧
      ((kind.isEditable = false ∨ d1 = []) ∧ Tabled r.result a ∨
        kind.isEditable = true ∧ d1 ≠ [] ∧ ∃ p p' changes, Payload.decode kind d1 d2 = .ok p ∧
          p.sweep r.name r.last.tracker = .ok (p', changes) ∧
          MetadataLeft r.result a d1 (if changes.removed = [] then none else some p')) := by
  have hunlinked := (r.annotated_unlinked ha).grow (r.pool_grows hc)
  rw [r.last_ledger.1]
  obtain ⟨-, hnew, -, hrests⟩ | ⟨a', b, kind, d1, d2, payload, changes, ha', hnew, -, hrepacked⟩ :=
    r.ofMetadata_cases
  · obtain ⟨⟨⟨kind, d1, d2⟩, hparts⟩, hswept⟩ := hrests a ha
    refine ⟨kind, d1, d2, hparts, ?_⟩
    by_cases hpacked : kind.isEditable = true ∧ d1 ≠ []
    · obtain ⟨p', changes, hswept, hnone⟩ := hswept kind d1 d2 ⟨hparts, hpacked.1, hpacked.2⟩
      obtain ⟨p, hdecode, hsweep⟩ := swept_ok hswept
      refine .inr ⟨hpacked.1, hpacked.2, p, p', changes, hdecode, hsweep, ?_⟩
      rw [if_pos hnone]
      exact .whole (r.tabled_old hunlinked hnew)
    · rw [not_and_or, Bool.not_eq_true, not_ne_iff] at hpacked
      exact .inl ⟨hpacked, r.tabled_old hunlinked hnew⟩
  · obtain rfl := Option.some.inj (ha.symm.trans ha')
    obtain ⟨p, hdecode, hsweep⟩ := swept_ok hrepacked.swept
    obtain ⟨-, hrestrung⟩ := hrepacked.restrung ((r.installed_fit hc).2.fits hc.pool)
    refine ⟨kind, d1, d2, hrepacked.parts, .inr ⟨hrepacked.editable, hrepacked.packed, p, payload,
      changes, hdecode, hsweep, ?_⟩⟩
    rw [if_neg hrepacked.lost]
    exact .repacked hrestrung (r.tabled_new hunlinked hnew hrestrung.typeIndex)

end Rewriting

end Prune

end JarPruning
