import JarPruning.Proofs.Pass.Attributes

/-!
Classes that a pass leaves unaltered. Such a pass had nothing to do: whether it reports no change or
writes the bytes it read, fields, methods and attributes are what they were.
-/
namespace JarPruning

open BigEndian
open ConstantPool (Grows)
open AnnotationEntry (tableBytes)

theorem ConstantPool.Grows.antisymm {p q : ConstantPool} (h : Grows p q) (h' : Grows q p) :
    p = q := by
  obtain ⟨cs, hcs, -⟩ := h.entries
  obtain ⟨ds, hds, -⟩ := h'.entries
  have hlength := congrArg List.length hds
  rw [hcs, List.length_append, List.length_append] at hlength
  obtain rfl : cs = [] := List.length_eq_zero_iff.1 (by omega)
  rw [List.append_nil] at hcs
  cases p
  cases q
  exact congrArg ConstantPool.mk (Array.toList_inj.1 hcs.symm)

theorem Link.thin_of_unchanged {t : Tracker} {self : String} {a : Attribute} {link : Link}
    (h : (link.thin t self a).2 = false) : (link.thin t self a).1 = a := by
  have hrows {α : Type} {keep : α → Bool} {rows : List (Walk.Row α)}
      (h : (thinRows keep rows a).2 = false) : (thinRows keep rows a).1 = a := by
    unfold thinRows at h ⊢
    dsimp only at h ⊢
    split at h
    · next hall => rw [if_pos hall]
    · cases h
  cases link with
  | outer _ => rfl
  | host _ => rfl
  | none => rfl
  | inner rows => exact hrows h
  | listed rows => exact hrows h

namespace Prune

/-- The class has at most one metadata annotation. -/
def OneMetadata (c : ClassFile) : Prop :=
  ∀ ms, marks c.pool c.attributes = .ok ms →
    ((Marked.all ms).filter fun e => e.2 = Pruner.metadataDescriptor).length ≤ 1

theorem metadataOf_mem {ms : List Marked} {a : AnnotationEntry} (h : metadataOf ms = some a) :
    (a, Pruner.metadataDescriptor) ∈ Marked.all ms := by
  obtain ⟨e, he, rfl⟩ := List.mem_map.1 (List.mem_of_getLast? h)
  obtain ⟨hall, hdescriptor⟩ := List.mem_filter.1 he
  rwa [← of_decide_eq_true hdescriptor]

theorem OneMetadata.unique {c : ClassFile} (h : OneMetadata c) {ms : List Marked}
    (hms : marks c.pool c.attributes = .ok ms) {a b : AnnotationEntry}
    (ha : (a, Pruner.metadataDescriptor) ∈ Marked.all ms)
    (hb : (b, Pruner.metadataDescriptor) ∈ Marked.all ms) : a = b := by
  have hlength := h ms hms
  have hmem {a : AnnotationEntry} (ha : (a, Pruner.metadataDescriptor) ∈ Marked.all ms) :
      (a, Pruner.metadataDescriptor) ∈
        (Marked.all ms).filter fun e => e.2 = Pruner.metadataDescriptor :=
    List.mem_filter.2 ⟨ha, decide_eq_true rfl⟩
  have ha' := hmem ha
  have hb' := hmem hb
  generalize ((Marked.all ms).filter fun e => decide (e.2 = Pruner.metadataDescriptor)) = l
    at hlength ha' hb'
  match l with
  | [] => cases ha'
  | [e] => exact congrArg Prod.fst ((List.mem_singleton.1 ha').trans (List.mem_singleton.1 hb').symm)
  | _ :: _ :: _ =>
    simp only [List.length_cons] at hlength
    omega

/-- Entries of a table that resolve to the descriptor of the metadata annotation have its type. -/
theorem descriptor_of_typeIndex {pool : ConstantPool} {ms : List Marked}
    (hms : ∀ m ∈ ms, m.Read pool) {e f : AnnotationEntry × String} (he : e ∈ Marked.all ms)
    (hf : f ∈ Marked.all ms) (h : e.1.typeIndex = f.1.typeIndex) : e.2 = f.2 := by
  have hresolved {e : AnnotationEntry × String} (he : e ∈ Marked.all ms) :
      pool.utf8 e.1.typeIndex = .ok e.2 := by
    obtain ⟨m, hm, he⟩ := Marked.mem_all.1 he
    cases hms m hm with
    | plain _ => cases he
    | table _ _ hresolved => exact hresolved e he
  exact Except.ok.inj ((hresolved he).symm.trans (h ▸ hresolved hf))

theorem forall₂_split {α β : Type} {R : α → β → Prop} {l : List α} {l₁ l₂ : List β}
    (h : List.Forall₂ R l (l₁ ++ l₂)) :
    ∃ a b, l = a ++ b ∧ List.Forall₂ R a l₁ ∧ List.Forall₂ R b l₂ :=
  ⟨_, _, (List.take_append_drop l₁.length l).symm, List.forall₂_take_append l l₁ l₂ h,
    List.forall₂_drop_append l l₁ l₂ h⟩

/-- A repacked table in place of an attribute is not the front of what was there. -/
theorem repacked_front {pool q : ConstantPool} {m : Marked} {p : Attribute × Link}
    {drop : String → Bool} (hgrows : Grows pool q) (hm : m.Read pool)
    (hstrip : (m.strip drop).1 = some p.1) (hlink : Link.Read pool p.1 p.2) {t : Tracker}
    {self : String} (hmarked : (p.2.thin t self p.1).1.isAnnotations q = true)
    {before after : List AnnotationEntry} {old new : AnnotationEntry}
    (hspelled : AnnotationEntry.readTable (p.2.thin t self p.1).1.payload =
      .ok (before ++ old :: after)) {s u : List UInt8}
    (hfront : tableBytes (before ++ new :: after) ++ s = m.source.payload ++ u) :
    m.entries.map (·.1) = before ++ old :: after ∧
      m.source.payload = tableBytes (before ++ old :: after) ∧
      AnnotationEntry.TableFits (before ++ old :: after) := by
  obtain ⟨a, link⟩ := p
  dsimp only at hstrip hlink hmarked hspelled
  obtain ⟨name, hname⟩ := hlink.named
  have hannotations : m.source.isAnnotations pool = true := by
    unfold Attribute.isAnnotations Attribute.isNamed ConstantPool.hasText at hmarked ⊢
    rw [Link.thin_name] at hmarked
    rw [← Marked.strip_name hstrip, hname]
    rwa [hgrows.utf8 _ _ hname] at hmarked
  have hpayload : m.table.isSome := by
    cases hm with
    | plain hplain => cases hplain.symm.trans hannotations
    | table _ _ _ => rfl
  obtain rfl : link = .none := by
    refine hlink.of_isAnnotations ?_
    unfold Attribute.isAnnotations Attribute.isNamed at hannotations ⊢
    rwa [Marked.strip_name hstrip]
  obtain ⟨hspelled, hfits⟩ := AnnotationEntry.of_readTable hspelled
  obtain ⟨hsource, hfits'⟩ := hm.payload hpayload
  have hlengths : (before ++ new :: after).length = (before ++ old :: after).length := by simp
  have hcount : (before ++ new :: after).length = (m.entries.map (·.1)).length := by
    rw [hsource] at hfront
    exact countedBytes_length_eq (hlengths ▸ hfits.count) hfits'.count hfront
  generalize hr : m.strip drop = r at hstrip
  have hstripped := Marked.strip_stripped drop m
  rw [hr] at hstripped
  cases hstripped with
  | whole _ =>
    cases hstrip
    have htables : m.entries.map (·.1) = before ++ old :: after := by
      have hread := AnnotationEntry.readTable_tableBytes hfits'
      rw [← hsource] at hread
      have hread' := AnnotationEntry.readTable_tableBytes hfits
      rw [← show m.source.payload = _ from hspelled] at hread'
      exact Except.ok.inj (hread.symm.trans hread')
    exact ⟨htables, hspelled, hfits⟩
  | emptied _ _ _ => cases hstrip
  | @thinned _ _ hfewer =>
    cases hstrip
    have hkept : tableBytes (before ++ old :: after) ++ [] =
        tableBytes ((Marked.kept drop m.entries).map (·.1)) ++ [] := by
      rw [List.append_nil, List.append_nil]
      exact hspelled.symm
    have hfew : ((Marked.kept drop m.entries).map (·.1)).length < 256 ^ 2 := by
      have := hfits'.count
      rw [List.length_map] at this ⊢
      omega
    have hlength := countedBytes_length_eq hfits.count hfew hkept
    rw [List.length_map] at hlength hcount
    omega

/-- Links that rest leave the attributes they were read from. -/
theorem attributes_of_rest {t : Tracker} {self : String} {ms : List Marked}
    {links : List (Attribute × Link)} (h : List.Forall₂ (LinkRests t self) ms links) :
    links.map (fun p => (p.2.thin t self p.1).1) = ms.map Marked.source := by
  induction h with
  | nil => rfl
  | cons hp _ ih => rw [List.map_cons, List.map_cons, ih, hp.thin, hp.whole]

theorem replaceAll_ok {pool : ConstantPool} {new : AnnotationEntry} {as as' : List Attribute}
    {changed : Bool} (h : Walk.replaceAll pool [new] as = .ok (as', changed)) :
    Replaced pool new as as' changed := by
  obtain ⟨⟨as₁, changed₁⟩, has, h⟩ := bind_ok_iff.1 h
  cases h
  rw [Bool.or_false]
  exact replaceAnnotations_ok has

namespace Rewriting

variable {policy : Policy} {l : Ledger} {c : ClassFile}

theorem marks_ok (r : Rewriting policy l c) :
    c.attributes = r.marked.map Marked.source ∧ ∀ m ∈ r.marked, m.Read c.pool :=
  marks_ok_iff.1 r.surveyed.read

theorem links_ok (r : Rewriting policy l c) :
    (Marked.stripAll (stripsFromClass policy) r.marked).1 = r.links.map (·.1) ∧
      ∀ p ∈ r.links, Link.Read c.pool p.1 p.2 :=
  readLinks_ok_iff.1 r.linked

/-- Without new metadata, nothing is replaced. -/
theorem attributes_kept (r : Rewriting policy l c) (hnew : r.new = []) :
    r.attributes = (unlinked l c r.name r.links).attributes ∧ r.replaced = false := by
  have hattributes := r.ofAttributes
  rw [hnew] at hattributes
  simp only [Walk.replaceAll, Except.ok.injEq, Prod.mk.injEq] at hattributes
  exact ⟨hattributes.1.symm, hattributes.2.symm⟩

theorem attributes_replaced (r : Rewriting policy l c) {b : AnnotationEntry} (hnew : r.new = [b]) :
    Replaced r.pool b (unlinked l c r.name r.links).attributes r.attributes r.replaced := by
  have hattributes := r.ofAttributes
  rw [hnew] at hattributes
  exact replaceAll_ok hattributes

theorem length_attributes (r : Rewriting policy l c) :
    r.attributes.length = r.links.length ∧ (r.replaced = false →
      r.attributes = (unlinked l c r.name r.links).attributes) := by
  have hlength : (unlinked l c r.name r.links).attributes.length = r.links.length := by
    simp [unlinked]
  obtain ⟨-, hnew, -⟩ | ⟨a, b, kind, d1, d2, payload, changes, -, hnew, -⟩ := r.ofMetadata_cases
  · rw [(r.attributes_kept hnew).1]
    exact ⟨hlength, fun _ => rfl⟩
  · have hreplaced := r.attributes_replaced hnew
    exact ⟨hreplaced.length.trans hlength, hreplaced.eq_of_unchanged⟩

/-- A pass that reports no change made none. -/
theorem of_unchanged (r : Rewriting policy l c) (h : r.changed = false) :
    r.fields = c.fields ∧ r.methods = c.methods ∧ r.attributes = c.attributes ∧
      r.stubbed = c.pool := by
  simp only [changed, Bool.or_eq_false_iff] at h
  obtain ⟨⟨⟨hstripped, hthinned⟩, hfields, hmethods⟩, hreplaced⟩ := h
  have hkept := r.ofMethods
  rw [hmethods] at hkept
  have hinstalled := r.installed
  rw [methods_eq_of_unchanged hkept, installStubs_none] at hinstalled
  simp only [EStateM.Result.ok.injEq] at hinstalled
  have hthin : ∀ p ∈ r.links, (p.2.thin l.tracker r.name p.1).1 = p.1 := fun p hp =>
    Link.thin_of_unchanged (Bool.eq_false_iff.2 (List.any_eq_false.1 hthinned p hp))
  refine ⟨fields_eq_of_unchanged (hfields ▸ r.ofFields), hinstalled.1.symm, ?_,
    hinstalled.2.symm⟩
  rw [r.length_attributes.2 hreplaced]
  show r.links.map _ = _
  rw [List.map_congr_left hthin, ← r.links_ok.1, Marked.stripAll_eq_of_unchanged hstripped,
    ← r.marks_ok.1]

/-- A pass that writes the bytes it read changed nothing but perhaps the attributes. -/
theorem of_bytes (r : Rewriting policy l c) (hc : c.Framed) (h : r.result.bytes = c.bytes) :
    r.fields = c.fields ∧ r.methods = c.methods ∧
      countedBytes Attribute.bytes r.attributes = countedBytes Attribute.bytes c.attributes ∧
      r.stubbed = c.pool := by
  rw [ClassFile.bytes_eq, ClassFile.bytes_eq] at h
  obtain ⟨hattributes, hframe⟩ := ClassFile.frame_of_readFrame (r.framed hc) hc h
  have hpool : r.pool = c.pool := (congrArg ClassFile.pool hframe).symm
  refine ⟨(congrArg ClassFile.fields hframe).symm, (congrArg ClassFile.methods hframe).symm,
    hattributes, ?_⟩
  exact Grows.antisymm (hpool ▸ r.stubbed_grows hc) (r.installed_fit hc).2

/-- A pass that leaves the class as it was changed nothing but perhaps the attributes. -/
theorem of_same (r : Rewriting policy l c) (hc : c.Framed)
    (h : r.changed = false ∨ r.result.bytes = c.bytes) :
    r.fields = c.fields ∧ r.methods = c.methods ∧
      countedBytes Attribute.bytes r.attributes = countedBytes Attribute.bytes c.attributes ∧
      r.stubbed = c.pool := by
  obtain hchanged | hbytes := h
  · obtain ⟨hfields, hmethods, hattributes, hpool⟩ := r.of_unchanged hchanged
    exact ⟨hfields, hmethods, by rw [hattributes], hpool⟩
  · exact r.of_bytes hc hbytes

/-! Attributes that come out with the bytes they had. -/

/-- None was stripped, and they line up with those that were there. -/
theorem attributes_lined_up (r : Rewriting policy l c) (hc : c.Fits)
    (h : countedBytes Attribute.bytes r.attributes =
      countedBytes Attribute.bytes c.attributes) :
    List.Forall₂ (fun m p => (m.strip (stripsFromClass policy)).1 = some p.1) r.marked r.links ∧
      r.attributes.flatMap Attribute.bytes =
        (r.marked.map Marked.source).flatMap Attribute.bytes := by
  obtain ⟨hsource, -⟩ := r.marks_ok
  obtain ⟨hlinks, -⟩ := r.links_ok
  have hlength : r.links.length = r.marked.length := by
    have hle := Marked.length_stripAll_le (stripsFromClass policy) r.marked
    have hcount := hc.attributeCount
    have hattributes := r.length_attributes.1
    rw [hlinks, List.length_map] at hle
    rw [hsource, List.length_map] at hcount
    have := countedBytes_length_eq (s := []) (t := []) (by omega) hc.attributeCount
      (congrArg (· ++ []) h)
    rw [hsource, List.length_map] at this
    omega
  have hall : List.Forall₂ (fun m a => (m.strip (stripsFromClass policy)).1 = some a) r.marked
      (Marked.stripAll (stripsFromClass policy) r.marked).1 :=
    Marked.forall₂_of_length (by rw [hlinks, List.length_map, hlength])
  rw [hlinks, List.forall₂_map_right_iff] at hall
  refine ⟨hall, ?_⟩
  rw [← hsource]
  exact (List.append_inj h (by simp)).2

/-- Where no annotation was replaced, links rest. -/
theorem links_rest (r : Rewriting policy l c)
    (hstrip : List.Forall₂ (fun m p => (m.strip (stripsFromClass policy)).1 = some p.1)
      r.marked r.links)
    (hbytes : r.attributes.flatMap Attribute.bytes =
      (r.marked.map Marked.source).flatMap Attribute.bytes)
    (hsame : r.attributes = (unlinked l c r.name r.links).attributes) :
    List.Forall₂ (LinkRests l.tracker r.name) r.marked r.links := by
  refine (links_front (s := []) (u := []) r.marks_ok.2 r.links_ok.2 hstrip ?_).1
  rw [List.append_nil, List.append_nil, ← hbytes, hsame]
  simp [thinnedBytes, unlinked, List.flatMap_map]

/-- Where links rest, the table with the metadata annotation is still there. -/
theorem not_lacking (r : Rewriting policy l c) (hc : c.Framed) {a : AnnotationEntry}
    (ha : (a, Pruner.metadataDescriptor) ∈ Marked.all r.marked)
    (hrest : List.Forall₂ (LinkRests l.tracker r.name) r.marked r.links) :
    ¬ ∀ x ∈ (unlinked l c r.name r.links).attributes, Lacks r.pool a.typeIndex x := by
  intro hlacks
  obtain ⟨m, hm, ha⟩ := Marked.mem_all.1 ha
  cases r.marks_ok.2 m hm with
  | plain _ => cases ha
  | @table source named hannotations hspelled _ =>
    have hin : source ∈ (unlinked l c r.name r.links).attributes := by
      rw [show (unlinked l c r.name r.links).attributes = _ from attributes_of_rest hrest]
      exact List.mem_map_of_mem hm
    obtain ⟨table, htable, hnone⟩ := hlacks source hin
      ((r.pool_grows hc).isAnnotations hannotations)
    cases hspelled.symm.trans htable
    exact hnone a (List.mem_map_of_mem ha) rfl

/-- The table with a new entry begins as the table does in which the entry is in place of another. -/
theorem replaced_shows (r : Rewriting policy l c) (hc : c.Framed) {pre post : List Attribute}
    {found : Attribute} {before after : List AnnotationEntry} {old new : AnnotationEntry}
    (hstrip : List.Forall₂ (fun m p => (m.strip (stripsFromClass policy)).1 = some p.1)
      r.marked r.links)
    (hunlinked : (unlinked l c r.name r.links).attributes = pre ++ found :: post)
    (hmarked : found.isAnnotations r.pool = true)
    (hspelled : AnnotationEntry.readTable found.payload = .ok (before ++ old :: after))
    (hbytes : (pre ++ { found with payload := tableBytes (before ++ new :: after) } :: post).flatMap
      Attribute.bytes = (r.marked.map Marked.source).flatMap Attribute.bytes) :
    (∃ e ∈ Marked.all r.marked, e.1 = old) ∧ AnnotationEntry.TableFits (before ++ old :: after) ∧
      ∃ s u, tableBytes (before ++ new :: after) ++ s = tableBytes (before ++ old :: after) ++ u := by
  obtain ⟨-, hreads⟩ := r.marks_ok
  obtain ⟨-, hlinked⟩ := r.links_ok
  obtain ⟨links₁, links₂, hsplit, rfl, hlinks₂⟩ := List.map_eq_append_iff.1 hunlinked
  obtain ⟨p, links₃, rfl, rfl, rfl⟩ := List.map_eq_cons_iff.1 hlinks₂
  rw [hsplit] at hstrip hlinked
  obtain ⟨ms₁, ms₂, hms, hstrip₁, hstrip₂⟩ := forall₂_split hstrip
  obtain _ | @⟨m, _, ms₃, _, hm, hstrip₃⟩ := hstrip₂
  rw [hms, List.flatMap_append, List.flatMap_map, List.flatMap_cons, List.map_append,
    List.map_cons, List.flatMap_append, List.flatMap_cons] at hbytes
  -- What stands before the table rests, so the table begins where the one that was read begins.
  obtain ⟨-, hfront⟩ := links_front
    (fun m hm => hreads m (by rw [hms]; exact List.mem_append_left _ hm))
    (fun p hp => hlinked p (List.mem_append_left _ hp)) hstrip₁ hbytes
  have hin : m ∈ r.marked := by
    rw [hms]
    exact List.mem_append_right _ (List.mem_cons_self ..)
  have hname : (p.2.thin l.tracker r.name p.1).1.name = m.source.name := by
    rw [Link.thin_name, Marked.strip_name hm]
  have hpayload := Attribute.bytes_front
    (a := { (p.2.thin l.tracker r.name p.1).1 with
      payload := tableBytes (before ++ new :: after) }) hname hfront
  obtain ⟨hentries, hsource, hfits⟩ := repacked_front (r.pool_grows hc) (hreads m hin) hm
    (hlinked p (List.mem_append_right _ (List.mem_cons_self ..))) hmarked hspelled hpayload
  obtain ⟨e, he, hold⟩ : ∃ e ∈ m.entries, e.1 = old := by
    rw [← List.mem_map, hentries]
    exact List.mem_append_right _ (List.mem_cons_self ..)
  rw [hsource] at hpayload
  exact ⟨⟨e, Marked.mem_all.2 ⟨m, hin, he⟩, hold⟩, hfits, _, _, hpayload⟩

/-- If the class has one metadata annotation, they were left alone. -/
theorem attributes_rest (r : Rewriting policy l c) (hc : c.Fits) (hone : OneMetadata c)
    (h : countedBytes Attribute.bytes r.attributes =
      countedBytes Attribute.bytes c.attributes) :
    List.Forall₂ (LinkRests l.tracker r.name) r.marked r.links ∧ r.new = [] := by
  obtain ⟨hstrip, hbytes⟩ := r.attributes_lined_up hc h
  obtain ⟨-, hnew, -⟩ | ⟨a, b, kind, d1, d2, payload, changes, hmetadata, hnew, -, hrepacked⟩ :=
    r.ofMetadata_cases
  · exact ⟨r.links_rest hstrip hbytes (r.attributes_kept hnew).1, hnew⟩
  -- A repacked annotation would show at the place where it stands.
  exfalso
  have hmem := metadataOf_mem hmetadata
  have hpool := (r.installed_fit hc.toFramed).2.fits hc.pool
  have htype : b.typeIndex = a.typeIndex := by
    obtain ⟨-, -, -⟩ := hrepacked.restrung hpool
    rfl
  have hreplaced := r.attributes_replaced hnew
  generalize has : (unlinked l c r.name r.links).attributes = as at hreplaced
  generalize has' : r.attributes = as' at hreplaced
  generalize r.replaced = replaced at hreplaced
  cases hreplaced with
  | absent hlacks =>
    refine r.not_lacking hc.toFramed hmem (r.links_rest hstrip hbytes (has'.trans has.symm)) ?_
    rwa [has, ← htype]
  | @found _ _ _ before after old _ hmarked hspelled _ hsame =>
    obtain ⟨⟨e, he, rfl⟩, hfits, s, u, hfront⟩ :=
      r.replaced_shows hc.toFramed hstrip has hmarked hspelled (has' ▸ hbytes)
    have hdescriptor : e.2 = Pruner.metadataDescriptor :=
      descriptor_of_typeIndex r.marks_ok.2 he hmem (hsame.trans htype)
    obtain rfl : e.1 = a := by
      refine hone.unique r.surveyed.read ?_ hmem
      rwa [← hdescriptor]
    exact hrepacked.not_front hpool
      (hfits.entries _ (List.mem_append_right _ (List.mem_cons_self ..))) before after _ _ hfront

end Rewriting

end Prune

end JarPruning
