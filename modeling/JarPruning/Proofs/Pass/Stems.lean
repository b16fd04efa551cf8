import JarPruning.Proofs.Pass.Callers
import JarPruning.Proofs.Pass.Doomed
import JarPruning.Proofs.Pass.Shedding

/-!
What passes leave of a class stems from what it was. Each member was a member before, each
annotation, each reference in a body that is still walked, each link and each declaration in the
metadata was there before.
-/
namespace JarPruning

open ConstantPool (Grows)
open Metadata (Kind Packing Payload TypeTable)

namespace Link

/-- A link that lost rows leads to nothing new. -/
theorem Sheds.fallsTo {link link' : Link} (h : link.Sheds link') {self : String} {x : Loss}
    (hfalls : link'.FallsTo self x) : link.FallsTo self x := by
  cases h with
  | outer _ => exact hfalls
  | inner hfewer =>
    obtain ⟨row, hrow, hleads⟩ := hfalls
    exact ⟨row, hfewer.mem hrow, hleads⟩
  | host _ => exact hfalls
  | listed _ => exact hfalls
  | none => exact hfalls

theorem Sheds.refl (link : Link) : link.Sheds link := by
  cases link with
  | outer link => exact .outer link
  | inner rows => exact .inner (.refl _)
  | host name => exact .host name
  | listed rows => exact .listed (.refl _)
  | none => exact .none

theorem Sheds.trans {a b c : Link} (h : a.Sheds b) (h' : b.Sheds c) : a.Sheds c := by
  cases h with
  | outer _ => exact h'
  | inner hfewer =>
    cases h' with
    | inner hfewer' => exact .inner (hfewer'.trans hfewer)
  | host _ => exact h'
  | listed hfewer =>
    cases h' with
    | listed hfewer' => exact .listed (hfewer'.trans hfewer)
  | none => exact h'

end Link

theorem Policy.strips_of_role {policy : Policy} {d : String} {role : Role} (hne : role ≠ .remove)
    (h : policy.role? d = some role) : policy.strips d = false := by
  rw [strips, h]
  simpa using hne

/-- What stripping leaves of an attribute leads where the attribute led. -/
theorem Marked.Read.link_of_strip {pool : ConstantPool} {m : Marked} {drop : String → Bool}
    {a : Attribute} {link : Link} (h : m.Read pool) (ha : (m.strip drop).1 = some a)
    (hlink : Link.Read pool a link) : Link.Read pool m.source link := by
  generalize hr : m.strip drop = r at ha
  have hstripped := Marked.strip_stripped drop m
  rw [hr] at hstripped
  cases hstripped with
  | whole _ =>
    cases ha
    exact hlink
  | emptied _ _ _ => cases ha
  | thinned hmarked _ _ =>
    cases ha
    have hannotations : m.source.isAnnotations pool = true := by
      cases h with
      | plain _ => cases hmarked
      | table hsource _ _ => exact hsource
    obtain rfl := hlink.of_isAnnotations hannotations
    exact hlink.of_annotations hannotations m.source.payload

namespace Prune

variable {policy : Policy} {p q r : ConstantPool} {bootstraps : List Bootstrap} {l l' : Ledger}
  {owner : String}

/-! Members. -/

/-- A member in the pool `q` that was the member `e₀` in the pool `p`: it resolves to the same, and
of its annotations it lost at most those that are to be stripped. -/
structure MemberStems (policy : Policy) (p : ConstantPool) (e₀ : MemberEntry) (q : ConstantPool)
    (e : MemberEntry) : Prop where
  resolves : ∀ m, e.resolve q = .ok m → e₀.resolve p = .ok m
  annotated : ∀ a d, Annotated q e.attributes a d → Annotated p e₀.attributes a d
  keeps : ∀ a d, Annotated p e₀.attributes a d → policy.strips d = false →
    Annotated q e.attributes a d

namespace MemberStems

variable {e₀ e e' : MemberEntry}

theorem refl (policy : Policy) (p : ConstantPool) (e : MemberEntry) :
    MemberStems policy p e p e where
  resolves _ h := h
  annotated _ _ h := h
  keeps _ _ h _ := h

theorem trans (h : MemberStems policy p e₀ q e) (h' : MemberStems policy q e r e') :
    MemberStems policy p e₀ r e' where
  resolves m hm := h.resolves m (h'.resolves m hm)
  annotated a d ha := h.annotated a d (h'.annotated a d ha)
  keeps a d ha hd := h'.keeps a d (h.keeps a d ha hd) hd

theorem bears (h : MemberStems policy p e₀ q e) {role : Role} (hrole : Bears policy q e role) :
    Bears policy p e₀ role := by
  obtain ⟨a, d, ha, hd⟩ := hrole
  exact ⟨a, d, h.annotated a d ha, hd⟩

theorem bears_iff (h : MemberStems policy p e₀ q e) {role : Role} (hne : role ≠ .remove) :
    Bears policy q e role ↔ Bears policy p e₀ role := by
  refine ⟨h.bears, ?_⟩
  rintro ⟨a, d, ha, hd⟩
  exact ⟨a, d, h.keeps a d ha (Policy.strips_of_role hne hd), hd⟩

/-- What is read again of a member that was stripped. -/
theorem of_marks {m : Member} {ms ms' : List Marked} (hm : e.resolve p = .ok m)
    (hm' : e'.resolve q = .ok m) (hms : marks p e.attributes = .ok ms)
    (hms' : marks q e'.attributes = .ok ms')
    (hall : Marked.all ms' = Marked.kept policy.strips (Marked.all ms)) :
    MemberStems policy p e q e' where
  resolves n hn := by rwa [← Except.ok.inj (hm'.symm.trans hn)]
  annotated a d ha := by
    rw [← Marked.mem_all_iff hms', hall] at ha
    exact (Marked.mem_all_iff hms).1 (List.mem_of_mem_filter ha)
  keeps a d ha hd := by
    rw [← Marked.mem_all_iff hms', hall]
    exact List.mem_filter.2 ⟨(Marked.mem_all_iff hms).2 ha, by simp [hd]⟩

/-- A field that a pass left. -/
theorem of_left {f : MemberEntry} {m : Member} {ms : List Marked} (hm : f.resolve p = .ok m)
    (hms : marks p f.attributes = .ok ms) (hf : f.Grounded p) (hgrows : Grows p q) :
    MemberStems policy p f q (left policy f ms) :=
  of_marks hm (resolve_grow hgrows rfl rfl rfl hm) hms
    (Marked.marks_stripAll hms hgrows (grounded_left hf hms))
    (Marked.all_rest (marks_ok_iff.1 hms).2)

end MemberStems

/-- A method that stems from another, and whose body, if a pass with these stubs would look at it,
refers to nothing new. -/
structure MethodStems (policy : Policy) (l : Ledger) (bootstraps : List Bootstrap)
    (p : ConstantPool) (e₀ : MemberEntry) (q : ConstantPool) (e : MemberEntry) : Prop
    extends MemberStems policy p e₀ q e where
  refers : ∀ m, e.resolve q = .ok m → ¬ Exempt policy q e l m → ∀ i site,
    Refers q bootstraps e i site → site = .plain ∨ Refers p bootstraps e₀ i site

theorem Exempt.stay {e : MemberEntry} {m : Member} (h : Exempt policy p e l m)
    (hstubs : StubbedStay l.memory.stubbed l'.memory.stubbed) : Exempt policy p e l' m :=
  h.imp_left fun hs => hstubs _ hs

namespace MethodStems

variable {e₀ e e' : MemberEntry}

theorem refl (policy : Policy) (l : Ledger) (bootstraps : List Bootstrap) (p : ConstantPool)
    (e : MemberEntry) : MethodStems policy l bootstraps p e p e where
  toMemberStems := .refl policy p e
  refers _ _ _ _ _ h := .inr h

theorem trans (h : MethodStems policy l bootstraps p e₀ q e)
    (h' : MethodStems policy l' bootstraps q e r e')
    (hstubs : StubbedStay l.memory.stubbed l'.memory.stubbed) :
    MethodStems policy l' bootstraps p e₀ r e' where
  toMemberStems := h.toMemberStems.trans h'.toMemberStems
  refers m hm hwalked i site hrefers := by
    obtain hplain | hrefers := h'.refers m hm hwalked i site hrefers
    · exact .inl hplain
    · refine h.refers m (h'.resolves m hm) (fun hexempt => hwalked ?_) i site hrefers
      obtain hs | ⟨hconstructor, hstub⟩ := hexempt
      · exact .inl (hstubs _ hs)
      · exact .inr ⟨hconstructor, (h'.bears_iff (by decide)).2 hstub⟩

end MethodStems

/-- What is kept of a method whose body was looked at refers to nothing new. -/
theorem MethodStep.refers_left {entry : MemberEntry} {m : Member} {ms : List Marked}
    {patches : List Walk.Patch} {i : Instruction} {site : Site}
    (h : MethodStep policy owner p bootstraps l entry m ms (.keep patches))
    (hfresh : l.memory.stubbed.contains m.toSignature = false) (hentry : entry.Grounded p)
    (hgrows : Grows p q)
    (hrefers : Refers q bootstraps (edited (codeOf p (left policy entry ms))
      (Walk.applyPatches · patches) (left policy entry ms)) i site) :
    site = .plain ∨ Refers p bootstraps entry i site := by
  obtain ⟨a', ss', ha', hss', hmem⟩ := hrefers
  obtain ⟨a, ss, ha, hpayload, hss, hmeets⟩ := h.kept_code hfresh hentry hgrows ha'
  rw [hpayload] at hss'
  obtain ⟨ss₁, hss₁, hall⟩ := sites_again hss hmeets
  cases (sites_persist hgrows bootstraps _ _ hss₁).symm.trans hss'
  obtain hin | hplain := hall _ hmem
  · exact .inr ⟨a, ss, ha, hss, hin⟩
  · exact .inl hplain

/-- A method that a pass left stems from what it was. -/
theorem MethodStep.stems {entry e : MemberEntry} {m : Member} {ms : List Marked} {ft : Fate}
    (h : MethodStep policy owner p bootstraps l entry m ms ft)
    (hbecomes : Becomes policy p entry m ft (some e)) (hentry : entry.Grounded p)
    (hgrows : Grows p q)
    (hstubs : StubbedStay (ft.ledger l owner m).memory.stubbed l'.memory.stubbed) :
    MethodStems policy l' bootstraps p entry q e := by
  have hheader := hbecomes.header
  have hm := resolve_grow hgrows hheader.access hheader.name hheader.descriptor h.resolved
  have hedited (edit : List UInt8 → List UInt8) : MemberStems policy p entry q
      (edited (codeOf p (left policy entry ms)) edit (left policy entry ms)) := by
    obtain ⟨ms', hms', hall⟩ := marks_edited policy h.read hentry hgrows edit
    obtain ⟨haccess, hname, hdescriptor⟩ := edited_header (codeOf p (left policy entry ms)) edit
      (left policy entry ms)
    exact .of_marks h.resolved (resolve_grow hgrows haccess hname hdescriptor h.resolved) h.read
      hms' hall
  cases hbecomes with
  | kept hread =>
    obtain rfl := Except.ok.inj (h.read.symm.trans hread)
    refine ⟨hedited _, fun n hn hwalked i site hrefers => ?_⟩
    obtain rfl := Except.ok.inj (hm.symm.trans hn)
    exact h.refers_left (Bool.eq_false_iff.2 fun hs => hwalked (.inl (hstubs _ hs))) hentry hgrows
      hrefers
  | stubbed hread _ =>
    obtain rfl := Except.ok.inj (h.read.symm.trans hread)
    refine ⟨hedited _, fun n hn hwalked _ _ _ => ?_⟩
    obtain rfl := Except.ok.inj (hm.symm.trans hn)
    -- The method has just become a stub, so no later pass looks at its body.
    exact absurd (.inl (hstubs _ (l.stubbed_stubMethod m))) hwalked

end Prune

/-! Classes. -/

/-- Metadata that can be read says the same, in whichever larger pool it is read. -/
theorem ClassFile.Told.described {c : ClassFile} (h : c.Told) {ms : List Marked}
    (hms : marks c.pool c.attributes = .ok ms) {a : AnnotationEntry}
    (ha : Prune.metadataOf ms = some a) {q : ConstantPool} (hgrows : Grows c.pool q) {kind : Kind}
    {d1 d2 : List String} (hq : Prune.Described q a kind d1 d2) :
    Prune.Described c.pool a kind d1 d2 ∧ Packing.Told d1 := by
  obtain ⟨kind', d1', d2', hparts, htold⟩ := h ms hms a ha
  have hsame := Except.ok.inj (hq.parts.symm.trans (Prune.metadataParts_persists hgrows a _ hparts))
  simp only [Prod.mk.injEq] at hsame
  obtain ⟨rfl, rfl, rfl⟩ := hsame
  exact ⟨⟨hparts, hq.editable, hq.packed⟩, htold⟩

/-- The names of the members' attributes lead to entries of the pool, and metadata, if there is any,
can be read and tells how it is packed. -/
structure ClassFile.Legible (c : ClassFile) : Prop where
  fields : ∀ f ∈ c.fields, f.Grounded c.pool
  methods : ∀ m ∈ c.methods, m.Grounded c.pool
  told : c.Told

namespace Prune

variable {policy : Policy} {l l' : Ledger} {c₀ c c' : ClassFile}

/-- A class that was the class `c₀` before some passes, which left the memory of `l`. -/
structure Stems (policy : Policy) (l : Ledger) (c₀ c : ClassFile) : Prop where
  named : ∀ name, c.name = .ok name → c₀.name = .ok name
  header : ∀ h, Walk.header c = .ok h → Walk.header c₀ = .ok h
  annotated : ∀ a d, Annotated c.pool c.attributes a d → ∃ a₀, Annotated c₀.pool c₀.attributes a₀ d
  links : ∀ a ∈ c.attributes, ∀ link, Link.Read c.pool a link →
    ∃ a₀ ∈ c₀.attributes, ∃ link₀, Link.Read c₀.pool a₀ link₀ ∧ link₀.Sheds link
  fields : ∀ f ∈ c.fields, ∃ f₀ ∈ c₀.fields, MemberStems policy c₀.pool f₀ c.pool f
  methods : ∀ bootstraps, Walk.bootstraps c = .ok bootstraps → Walk.bootstraps c₀ = .ok bootstraps ∧
    ∀ e ∈ c.methods, ∃ e₀ ∈ c₀.methods, MethodStems policy l bootstraps c₀.pool e₀ c.pool e
  declares : ∀ self d, c.Declares self d → c₀.Declares self d

namespace Stems

theorem refl (policy : Policy) (l : Ledger) (c : ClassFile) : Stems policy l c c where
  named _ h := h
  header _ h := h
  annotated a _ h := ⟨a, h⟩
  links a ha link hlink := ⟨a, ha, link, hlink, .refl link⟩
  fields f hf := ⟨f, hf, .refl policy c.pool f⟩
  methods bootstraps h := ⟨h, fun e he => ⟨e, he, .refl policy l bootstraps c.pool e⟩⟩
  declares _ _ h := h

theorem trans (h : Stems policy l c₀ c) (h' : Stems policy l' c c')
    (hstubs : StubbedStay l.memory.stubbed l'.memory.stubbed) : Stems policy l' c₀ c' where
  named name hname := h.named name (h'.named name hname)
  header header hheader := h.header header (h'.header header hheader)
  annotated a d ha := by
    obtain ⟨b, hb⟩ := h'.annotated a d ha
    exact h.annotated b d hb
  links a ha link hlink := by
    obtain ⟨b, hb, link₁, hlink₁, hsheds⟩ := h'.links a ha link hlink
    obtain ⟨a₀, ha₀, link₀, hlink₀, hsheds₀⟩ := h.links b hb link₁ hlink₁
    exact ⟨a₀, ha₀, link₀, hlink₀, hsheds₀.trans hsheds⟩
  fields f hf := by
    obtain ⟨g, hg, hstems⟩ := h'.fields f hf
    obtain ⟨f₀, hf₀, hstems₀⟩ := h.fields g hg
    exact ⟨f₀, hf₀, hstems₀.trans hstems⟩
  methods bootstraps hbootstraps := by
    obtain ⟨hbootstraps₁, hmethods₁⟩ := h'.methods bootstraps hbootstraps
    obtain ⟨hbootstraps₀, hmethods₀⟩ := h.methods bootstraps hbootstraps₁
    refine ⟨hbootstraps₀, fun e he => ?_⟩
    obtain ⟨g, hg, hstems⟩ := hmethods₁ e he
    obtain ⟨e₀, he₀, hstems₀⟩ := hmethods₀ g hg
    exact ⟨e₀, he₀, hstems₀.trans hstems hstubs⟩
  declares self d hd := h.declares self d (h'.declares self d hd)

end Stems

/-- A link that is read from what stripping leaves is read from the class. -/
theorem Linked.of_mem {ms : List Marked} {links : List (Attribute × Link)}
    (h : Linked policy c ms links) (hms : marks c.pool c.attributes = .ok ms) {p : Attribute × Link}
    (hp : p ∈ links) : ∃ a ∈ c.attributes, Link.Read c.pool a p.2 := by
  obtain ⟨hstripped, hread⟩ := readLinks_ok_iff.1 h
  have hin : p.1 ∈ (Marked.stripAll (stripsFromClass policy) ms).1 :=
    hstripped ▸ List.mem_map_of_mem hp
  obtain ⟨m, hm, hstrip⟩ := List.mem_flatMap.1 hin
  obtain ⟨hsource, hreads⟩ := marks_ok_iff.1 hms
  exact ⟨m.source, hsource ▸ List.mem_map_of_mem hm,
    (hreads m hm).link_of_strip (Option.mem_toList.1 hstrip) (hread p hp)⟩

namespace Rewriting

/-- The metadata that a pass leaves packs what it packed, or what a removal left of that. -/
theorem payload_of_metadata (r : Rewriting policy l c) (hc : c.Framed) (hnew : ∀ b ∈ r.new, b.Fits)
    (htold : c.Told) {p : Payload} (hp : r.result.Packs p) :
    ∃ p₀, c.Packs p₀ ∧
      (p = p₀ ∨ ∃ changes, p₀.sweep r.name r.afterMethods.tracker = .ok (p, changes)) := by
  obtain ⟨hms, ha, hdescribed, hdecoded⟩ := hp
  obtain ⟨ms', hms', hupdated⟩ := r.marks_result hc hnew
  cases hms.symm.trans hms'
  obtain hold | ⟨b, hb, hnewest⟩ := hupdated.metadataOf
  · have ha' := hold.symm.trans ha
    obtain ⟨hdescribed₀, -⟩ :=
      htold.described r.surveyed.read ha' (r.pool_grows hc) hdescribed
    exact ⟨p, ⟨r.surveyed.read, ha', hdescribed₀, hdecoded⟩, .inl rfl⟩
  · obtain rfl := Option.some.inj (hnewest.symm.trans ha)
    obtain ⟨-, hnone, -⟩ | ⟨a, b', kind, d1, d2, payload, changes, ha', hb', -, hrepacked⟩ :=
      r.ofMetadata_cases
    · cases hnone.symm.trans hb
    obtain rfl : b' = _ := by simpa using hb'.symm.trans hb
    have hgrows := (r.installed_fit hc).2
    obtain ⟨hdescribed₀, htold₀⟩ :=
      htold.described r.surveyed.read ha' hgrows hrepacked.toDescribed
    obtain ⟨before, hdecode, hsweep⟩ := swept_ok hrepacked.swept
    have hpool := hgrows.fits hc.pool
    have hrestrung := (hrepacked.restrung hpool).2
    have hmoderate : Payload.Moderate d1 :=
      hrestrung.moderate hpool (Marked.fits_of_mem r.surveyed.read (metadataOf_mem ha'))
    have hcontainer := Payload.sweep_fits hdecode hmoderate hsweep
    have hsweep' := hsweep
    obtain ⟨-, container, -, -, rfl⟩ := Payload.sweep_ok_iff.1 hsweep'
    have hdecode' := Payload.decode_encode hdecode htold₀ hcontainer
    have hparts := metadataParts_restrung hrestrung (r.stubbed_grows hc) hrepacked.parts
      hrepacked.editable
    have hsame := Except.ok.inj (hdescribed.parts.symm.trans hparts)
    simp only [Prod.mk.injEq] at hsame
    obtain ⟨rfl, rfl, rfl⟩ := hsame
    obtain rfl := Except.ok.inj (hdecoded.symm.trans hdecode')
    exact ⟨before, ⟨r.surveyed.read, ha', hdescribed₀, hdecode⟩, .inr ⟨changes, hsweep⟩⟩

/-- What a pass leaves of a field was left of one of the fields. -/
theorem of_mem_fields (r : Rewriting policy l c) {f : MemberEntry} (hf : f ∈ r.fields) :
    ∃ f₀ ∈ c.fields, ∃ m ms, f₀.resolve c.pool = .ok m ∧ marks c.pool f₀.attributes = .ok ms ∧
      f = left policy f₀ ms := by
  obtain ⟨fields, -, hfields, -, -, hleft, -⟩ := r.met
  rw [hleft] at hf
  obtain ⟨_, hmem, rfl⟩ := List.mem_filterMap.1 hf
  obtain ⟨f₀, hf₀, hzip⟩ := hfields.mem_zip hmem
  obtain ⟨u, v, -, hmet, -⟩ :=
    hfields.step_at Ledger.Onward.refl Ledger.Onward.trans FieldMet.onward hzip
  cases hmet with
  | kept hresolved hread _ => exact ⟨f₀, hf₀, _, _, hresolved, hread, rfl⟩

/-- Every link of what a pass leaves was a link before, perhaps with more rows. -/
theorem links_stem (r : Rewriting policy l c) (hc : c.Framed) {a : Attribute}
    (ha : a ∈ r.attributes) {link : Link} (hlink : Link.Read r.pool a link) :
    ∃ a₀ ∈ c.attributes, ∃ link₀, Link.Read c.pool a₀ link₀ ∧ link₀.Sheds link := by
  obtain ⟨links, hread, hrest⟩ := r.links_result hc
  obtain ⟨hattributes, hlinks⟩ := readLinks_ok_iff.1 hread
  rw [hattributes] at ha
  obtain ⟨p', hp', rfl⟩ := List.mem_map.1 ha
  obtain ⟨p, hp, -, heq⟩ := forall₂_mem_right hrest hp'
  obtain rfl : link = p.2.rest l.tracker r.name :=
    heq ▸ Except.ok.inj (hlink.ok.symm.trans (hlinks p' hp').ok)
  obtain ⟨a₀, ha₀, hread₀⟩ := r.linked.of_mem r.surveyed.read hp
  exact ⟨a₀, ha₀, p.2, hread₀, p.2.sheds_rest ..⟩

/-- What a pass leaves of a class stems from it. -/
theorem stems (r : Rewriting policy l c) (hc : c.Framed) (hnew : ∀ b ∈ r.new, b.Fits)
    (hlegible : c.Legible) : Stems policy r.last c r.result where
  named name hname := by
    obtain rfl := Except.ok.inj ((r.result_name hc).symm.trans hname)
    exact r.surveyed.named
  header h hh := by
    obtain rfl := Except.ok.inj ((r.header_result hc).symm.trans hh)
    exact r.surveyed.header
  annotated a d ha := by
    obtain ⟨ms, hms, hupdated⟩ := r.marks_result hc hnew
    have hin : d ∈ (Marked.all ms).map (·.2) :=
      List.mem_map.2 ⟨_, (Marked.mem_all_iff hms).2 ha, rfl⟩
    rw [hupdated.descriptors] at hin
    obtain ⟨⟨a₀, d⟩, ha₀, rfl⟩ := List.mem_map.1 hin
    exact ⟨a₀, (Marked.mem_all_iff r.surveyed.read).1 (List.mem_of_mem_filter ha₀)⟩
  links a ha link hlink := r.links_stem hc ha hlink
  fields f hf := by
    obtain ⟨f₀, hf₀, m, ms, hresolved, hread, rfl⟩ := r.of_mem_fields hf
    exact ⟨f₀, hf₀, .of_left hresolved hread (hlegible.fields f₀ hf₀) (r.pool_grows hc)⟩
  methods bootstraps hbootstraps := by
    obtain rfl := Except.ok.inj ((r.bootstraps_result hc).symm.trans hbootstraps)
    refine ⟨r.bootstraps_unlinked, fun e he => ?_⟩
    obtain ⟨e₀, he₀, u, m, ms, ft, -, hstep, hbecomes, honward⟩ := r.of_mem_methods he
    exact ⟨e₀, he₀, hstep.stems hbecomes (hlegible.methods e₀ he₀) (r.pool_grows hc) honward.stubs⟩
  declares self d := by
    rintro ⟨p, types, hpacks, htypes, hdeclares⟩
    obtain ⟨p₀, hpacks₀, rfl | ⟨changes, hsweep⟩⟩ :=
      r.payload_of_metadata hc hnew hlegible.told hpacks
    · exact ⟨p, types, hpacks₀, htypes, hdeclares⟩
    · rw [(Payload.sweep_keeps hsweep).2.2.2] at htypes
      exact ⟨p₀, types, hpacks₀, htypes, hdeclares.of_sweep hsweep htypes⟩

/-- What a pass leaves of a class is legible, too. -/
theorem legible (r : Rewriting policy l c) (hc : c.Framed) (hnew : ∀ b ∈ r.new, b.Fits)
    (hlegible : c.Legible) : r.result.Legible where
  fields f hf := by
    obtain ⟨f₀, hf₀, m, ms, -, hread, rfl⟩ := r.of_mem_fields hf
    exact fun a ha => (r.pool_grows hc).reaches (grounded_left (hlegible.fields f₀ hf₀) hread a ha)
  methods e he := by
    obtain ⟨e₀, he₀, u, m, ms, ft, -, -, hbecomes, -⟩ := r.of_mem_methods he
    exact fun a ha => (r.pool_grows hc).reaches (hbecomes.grounded (hlegible.methods e₀ he₀) a ha)
  told := r.told hc hnew hlegible.told

end Rewriting

end Prune

end JarPruning
