import JarPruning.Proofs.Metadata.Roundtrip
import JarPruning.Proofs.Pass.Finishing
import JarPruning.Proofs.Pass.Parts
import JarPruning.Proofs.Pass.Sole

/-!
Passes finish classes. What a pass leaves of a class in which no reference dangles asks for nothing
more: its links and its bootstrap methods can be read again, and no record of its metadata goes.
-/
namespace JarPruning

open ConstantPool (Grows Brings)
open Metadata (Kind Packing Payload)

/-- Each item is kept alone where the test passes, and what becomes of the others fails it. -/
theorem find?_flatMap {α β : Type} {test : β → Bool} {f : α → List β} {source : α → β}
    {l : List α} (hkeep : ∀ a ∈ l, test (source a) = true → f a = [source a])
    (hdrop : ∀ a ∈ l, test (source a) = false → ∀ b ∈ f a, test b = false) :
    (l.flatMap f).find? test = (l.map source).find? test := by
  induction l with
  | nil => rfl
  | cons a l ih =>
    rw [List.flatMap_cons, List.find?_append, List.map_cons, List.find?_cons,
      ih (fun a ha => hkeep a (List.mem_cons_of_mem _ ha))
        fun a ha => hdrop a (List.mem_cons_of_mem _ ha)]
    cases hs : test (source a) with
    | true =>
      rw [hkeep a (List.mem_cons_self ..) hs]
      simp [hs]
    | false =>
      have hnone : (f a).find? test = none := List.find?_eq_none.2 fun b hb => by
        simp [hdrop a (List.mem_cons_self ..) hs b hb]
      rw [hnone]
      rfl

theorem find?_congr_mem {α : Type} {l : List α} {f g : α → Bool} (h : ∀ a ∈ l, f a = g a) :
    l.find? f = l.find? g := by
  induction l with
  | nil => rfl
  | cons a l ih =>
    rw [List.find?_cons, List.find?_cons, h a (List.mem_cons_self ..),
      ih fun b hb => h b (List.mem_cons_of_mem _ hb)]

/-! Links. -/

namespace Link

variable {pool q : ConstantPool} {a : Attribute} {link : Link}

/-- The link without the rows that lead to classes that are gone. -/
def rest (t : Tracker) (self : String) : Link → Link
  | .inner rows => .inner (rows.filter fun row =>
      row.value.inner = self || !t.containsClass row.value.inner)
  | .listed rows => .listed (rows.filter fun row => !t.containsClass row.value)
  | .outer link => .outer link
  | .host name => .host name
  | .none => .none

theorem rows_thin {α : Type} {read : Reader (Walk.Row α)} {p : Walk.Row α → Prop}
    (hfinds : Reader.Finds read fun row front => front = row.raw ∧ p row)
    (hreads : ∀ row, p row → Reader.Reads read row.raw row) {table : List (Walk.Row α)}
    (h : rows read a = .ok table) (keep : α → Bool) :
    rows read (thinRows keep table a).1 = .ok (table.filter fun row => keep row.value) := by
  obtain ⟨front, rest, -, -, hcount, hrows⟩ := (Reader.counted_finds hfinds).front h
  unfold thinRows
  dsimp only
  split
  · next hwhole =>
    rw [List.filter_eq_self.2 (List.length_filter_eq_length_iff.1 hwhole)]
    exact h
  · have hlength := List.length_filter_le (fun row : Walk.Row α => keep row.value) table
    exact rows_countedBytes
      (fun row hrow => hreads row (hrows row (List.mem_of_mem_filter hrow)))
      (Nat.lt_of_le_of_lt hlength hcount) a.name

/-- A thinned link is read again without the rows that went. -/
theorem Read.thin (h : Read pool a link) (t : Tracker) (self : String) :
    Read pool (link.thin t self a).1 (link.rest t self) := by
  cases h with
  | outer hname hread => exact .outer hname hread
  | host hname hread => exact .host hname hread
  | none hname hplain => exact .none hname hplain
  | inner hname hread =>
    exact .inner ((thin_name (.inner _) t self a).symm ▸ hname)
      (rows_thin (Walk.readInnerRow_finds pool) (fun _ => Walk.readInnerRow_reads) hread
        fun row => row.inner = self || !t.containsClass row.inner)
  | listed hname hlists hread =>
    exact .listed ((thin_name (.listed _) t self a).symm ▸ hname) hlists
      (rows_thin (Walk.readReferenceRow_finds pool) (fun _ => Walk.readReferenceRow_reads) hread
        fun name => !t.containsClass name)

/-- An annotation table in other words is no link either. -/
theorem Read.of_annotations (h : Read pool a link) (ha : a.isAnnotations pool = true)
    (payload : List UInt8) : Read pool { a with payload } .none := by
  obtain rfl := h.of_isAnnotations ha
  cases h with
  | none hname hplain => exact .none hname hplain

end Link

/-- Attributes that are read one by one as what became of other links. -/
theorem readLinks_of {pool : ConstantPool} {links : List (Attribute × Link)} {as : List Attribute}
    {becomes : Link → Link} (h : List.Forall₂
      (fun p a => a.name = p.1.name ∧ Link.Read pool a (becomes p.2)) links as) :
    ∃ links', Prune.readLinks pool as = .ok links' ∧
      List.Forall₂ (fun p p' => p'.1.name = p.1.name ∧ p'.2 = becomes p.2) links links' := by
  induction h with
  | nil => exact ⟨[], rfl, .nil⟩
  | @cons p a _ _ hp _ ih =>
    obtain ⟨hname, hlink⟩ := hp
    obtain ⟨links', hlinks', hall⟩ := ih
    obtain ⟨rfl, hreads⟩ := readLinks_ok_iff.1 hlinks'
    exact ⟨(a, becomes p.2) :: links',
      readLinks_ok_iff.2 ⟨rfl, List.forall_mem_cons.2 ⟨hlink, hreads⟩⟩, .cons ⟨hname, rfl⟩ hall⟩

namespace Prune

variable {policy : Policy} {l : Ledger} {c : ClassFile} {p q : ConstantPool}

/-! Bootstrap methods. -/

theorem not_bootstraps {pool : ConstantPool} {a : Attribute} (h : a.isAnnotations pool = true) :
    a.isNamed pool "BootstrapMethods" = false := by
  rw [Bool.eq_false_iff]
  intro hnamed
  have := Attribute.not_isAnnotations_of_isNamed hnamed (by decide) (by decide)
  rw [h] at this
  cases this

/-- Stripping annotations touches no attribute of another name. -/
theorem find?_stripAll {name : String} (hvisible : name ≠ "RuntimeVisibleAnnotations")
    (hinvisible : name ≠ "RuntimeInvisibleAnnotations") {drop : String → Bool} {ms : List Marked}
    (h : ∀ m ∈ ms, m.Read p) : (Marked.stripAll drop ms).1.find? (·.isNamed p name) =
      (ms.map Marked.source).find? (·.isNamed p name) := by
  refine find?_flatMap (fun m hm hnamed => ?_) fun m hm hnamed a ha => ?_
  · have hplain := Attribute.not_isAnnotations_of_isNamed hnamed hvisible hinvisible
    rw [(h m hm).strip_plain hplain]
    rfl
  · unfold Attribute.isNamed at hnamed ⊢
    rwa [Marked.strip_name (Option.mem_toList.1 ha)]

theorem bootstraps_thinned (t : Tracker) (self : String) {links : List (Attribute × Link)}
    (h : ∀ link ∈ links, Link.Read p link.1 link.2) :
    (links.map fun link => (link.2.thin t self link.1).1).find? (·.isNamed p "BootstrapMethods") =
      (links.map (·.1)).find? (·.isNamed p "BootstrapMethods") := by
  rw [List.map_eq_flatMap]
  refine find?_flatMap (fun link hlink hnamed => ?_) fun link _ hnamed a ha => ?_
  · obtain ⟨a, link⟩ := link
    have hutf8 := ConstantPool.hasText_iff.1 hnamed
    cases h _ hlink with
    | outer hname _ => exact absurd (Except.ok.inj (hutf8.symm.trans hname)) (by decide)
    | inner hname _ => exact absurd (Except.ok.inj (hutf8.symm.trans hname)) (by decide)
    | host hname _ => exact absurd (Except.ok.inj (hutf8.symm.trans hname)) (by decide)
    | listed hname hlists _ =>
      obtain rfl := Except.ok.inj (hutf8.symm.trans hname)
      simp at hlists
    | none _ _ => rfl
  · obtain rfl := List.mem_singleton.1 ha
    unfold Attribute.isNamed at hnamed ⊢
    rwa [Link.thin_name]

theorem bootstraps_replaced {new : AnnotationEntry} {as as' : List Attribute} {changed : Bool}
    (h : Replaced q new as as' changed) : as'.find? (·.isNamed q "BootstrapMethods") =
      as.find? (·.isNamed q "BootstrapMethods") := by
  cases h with
  | absent _ => rfl
  | @found pre post a before after old _ hmarked _ _ _ =>
    have hnot := not_bootstraps hmarked
    rw [List.find?_append, List.find?_append, List.find?_cons, List.find?_cons, hnot,
      show Attribute.isNamed q "BootstrapMethods"
        { a with payload := AnnotationEntry.tableBytes (before ++ new :: after) } = false from hnot]

/-- The attribute is as it was, or is a table of annotations in other words. -/
def Retabled (pool : ConstantPool) (a a' : Attribute) : Prop :=
  a' = a ∨ a.isAnnotations pool = true ∧ ∃ payload, a' = { a with payload }

/-- Where an annotation is replaced, only its table is written anew. -/
theorem Replaced.retabled {new : AnnotationEntry} {as as' : List Attribute} {changed : Bool}
    (h : Replaced q new as as' changed) : List.Forall₂ (Retabled q) as as' := by
  have hsame (as : List Attribute) : List.Forall₂ (Retabled q) as as :=
    List.forall₂_same.2 fun _ _ => .inl rfl
  cases h with
  | absent _ => exact hsame _
  | found _ hmarked _ _ _ =>
    exact List.rel_append (hsame _) (.cons (.inr ⟨hmarked, _, rfl⟩) (hsame _))

namespace Rewriting

theorem bootstraps_unlinked (r : Rewriting policy l c) : Walk.bootstraps c = .ok r.bootstraps := by
  have hthinned := bootstraps_thinned l.tracker r.name r.links_ok.2
  rw [← r.links_ok.1, find?_stripAll (by decide) (by decide) r.marks_ok.2, ← r.marks_ok.1] at hthinned
  rw [← r.ofBootstraps]
  unfold Walk.bootstraps
  rw [← hthinned]
  rfl

/-- The attributes in which the metadata was replaced, if it was. -/
theorem replaced_cases (r : Rewriting policy l c) :
    r.new = [] ∧ r.attributes = (unlinked l c r.name r.links).attributes ∨
      ∃ b, r.new = [b] ∧ Replaced r.pool b (unlinked l c r.name r.links).attributes r.attributes
        r.replaced := by
  obtain ⟨-, hnew, -⟩ | ⟨a, b, kind, d1, d2, payload, changes, -, hnew, -⟩ := r.ofMetadata_cases
  · exact .inl ⟨hnew, (r.attributes_kept hnew).1⟩
  · exact .inr ⟨b, hnew, r.attributes_replaced hnew⟩

theorem bootstraps_result (r : Rewriting policy l c) (hc : c.Framed) :
    Walk.bootstraps r.result = .ok r.bootstraps := by
  have hgrows := r.pool_grows hc
  have hreplaced : r.result.attributes.find? (·.isNamed r.result.pool "BootstrapMethods") =
      (unlinked l c r.name r.links).attributes.find? (·.isNamed r.pool "BootstrapMethods") := by
    obtain ⟨-, hsame⟩ | ⟨b, -, hreplaced⟩ := r.replaced_cases
    · show r.attributes.find? _ = _
      rw [hsame]
      rfl
    · exact bootstraps_replaced hreplaced
  have hpools : (unlinked l c r.name r.links).attributes.find?
        (·.isNamed r.pool "BootstrapMethods") =
      (unlinked l c r.name r.links).attributes.find? (·.isNamed c.pool "BootstrapMethods") := by
    refine find?_congr_mem fun a ha => ?_
    obtain ⟨p, hp, rfl⟩ := List.mem_map.1 ha
    obtain ⟨name, hname⟩ := (r.links_ok.2 p hp).named
    unfold Attribute.isNamed
    rw [Link.thin_name]
    exact hgrows.hasText_eq (ConstantPool.reaches_of_utf8 hname) _
  have hunlinked := r.ofBootstraps
  unfold Walk.bootstraps at hunlinked ⊢
  rw [hreplaced, hpools]
  exact hunlinked

/-! Links. -/

/-- The links of what is left are those that there were, without the rows that went. -/
theorem links_result (r : Rewriting policy l c) (hc : c.Framed) :
    ∃ links, readLinks r.pool r.attributes = .ok links ∧
      List.Forall₂ (fun p p' => p'.1.name = p.1.name ∧ p'.2 = p.2.rest l.tracker r.name)
        r.links links := by
  have hgrows := r.pool_grows hc
  have hthin : ∀ p ∈ r.links, Link.Read r.pool (p.2.thin l.tracker r.name p.1).1
      (p.2.rest l.tracker r.name) := fun p hp =>
    ((r.links_ok.2 p hp).grow hgrows).thin l.tracker r.name
  have htables : List.Forall₂ (Retabled r.pool) (unlinked l c r.name r.links).attributes
      r.attributes := by
    obtain ⟨-, hsame⟩ | ⟨b, -, hreplaced⟩ := r.replaced_cases
    · rw [hsame]
      exact List.forall₂_same.2 fun a _ => .inl rfl
    · exact hreplaced.retabled
  change List.Forall₂ _ (r.links.map _) _ at htables
  rw [List.forall₂_map_left_iff] at htables
  refine readLinks_of (((List.forall₂_and_left _ _).2 ⟨hthin, htables⟩).imp fun p a' h => ?_)
  obtain ⟨hread, rfl | ⟨hmarked, payload, rfl⟩⟩ := h
  · exact ⟨Link.thin_name .., hread⟩
  · refine ⟨Link.thin_name .., ?_⟩
    rw [hread.of_isAnnotations hmarked]
    exact hread.of_annotations hmarked payload

theorem header_result (r : Rewriting policy l c) (hc : c.Framed) :
    Walk.header r.result = .ok r.header := by
  have hgrows := r.pool_grows hc
  have hpersists : Persists (Walk.header c) (Walk.header r.result) :=
    (Link.optionalIndex_persists (hgrows.className _)).bind fun _ _ =>
      (Persists.mapM fun i _ => hgrows.className i).bind fun _ _ =>
        (hgrows.className _).bind fun _ _ => .refl _
  exact hpersists _ r.surveyed.header

end Rewriting

/-! Metadata. -/

theorem metadataOf_eq (ms : List Marked) : metadataOf ms =
    (((Marked.all ms).filter fun e => e.2 = Pruner.metadataDescriptor).map (·.1)).getLast? := rfl

/-- The metadata annotation after a pass is the one that was there, or what replaced it. -/
theorem Updated.metadataOf {new : List AnnotationEntry} {ms ms' : List Marked}
    (h : Updated new (Marked.kept (stripsFromClass policy) (Marked.all ms)) (Marked.all ms')) :
    JarPruning.Prune.metadataOf ms' = JarPruning.Prune.metadataOf ms ∨
      ∃ b, new = [b] ∧ JarPruning.Prune.metadataOf ms' = some b := by
  have hkept : ((Marked.kept (stripsFromClass policy) (Marked.all ms)).filter
      fun e => e.2 = Pruner.metadataDescriptor) =
        (Marked.all ms).filter fun e => e.2 = Pruner.metadataDescriptor := by
    rw [Marked.kept, List.filter_filter]
    refine List.filter_congr fun e _ => ?_
    by_cases he : e.2 = Pruner.metadataDescriptor <;> simp [stripsFromClass, he]
  rw [metadataOf_eq, metadataOf_eq, ← hkept]
  cases h with
  | same _ heq =>
    rw [heq]
    exact .inl rfl
  | @swapped b hone hswapped =>
    generalize Marked.kept (stripsFromClass policy) (Marked.all ms) = es at hswapped
    generalize Marked.all ms' = es' at hswapped
    cases hswapped with
    | absent _ => exact .inl rfl
    | @found before after old d _ _ =>
      by_cases hd : d = Pruner.metadataDescriptor
      · simp only [List.filter_append, List.filter_cons, hd, decide_true, if_true, List.map_append,
          List.map_cons, List.getLast?_append, List.getLast?_cons]
        cases ((after.filter fun e => e.2 = Pruner.metadataDescriptor).map (·.1)).getLast? with
        | none => exact .inr ⟨b, hone, rfl⟩
        | some a => exact .inl rfl
      · simp [hd]

/-- What could be swept has nothing to lose when nothing is gone. -/
theorem swept_cleared {owner : String} {t : Tracker} {kind : Kind} {d1 d2 : List String}
    {payload : Payload} {changes : Metadata.Changes}
    (h : swept owner t kind d1 d2 = .ok (payload, changes)) :
    ∃ payload' changes', swept owner {} kind d1 d2 = .ok (payload', changes') ∧
      changes'.removed = [] := by
  obtain ⟨before, hdecode, hsweep⟩ := swept_ok h
  obtain ⟨⟨changes', hsweep', hnone⟩, -⟩ := Payload.sweep_cleared hsweep
  exact ⟨before, changes', mapError_ok_iff.2 (bind_ok_iff.2 ⟨before, hdecode, hsweep'⟩), hnone⟩

namespace Rewriting

/-- A metadata annotation that a pass has read rests when nothing is gone. -/
theorem rests_old (r : Rewriting policy l c) {a : AnnotationEntry}
    (ha : metadataOf r.marked = some a) (hgrows : Grows r.stubbed q) :
    MetadataRests r.name {} q a := by
  have hread {parts : Kind × List String × List String} {kind : Kind} {d1 d2 : List String}
      (hparts : Pruner.metadataParts r.stubbed a = .ok parts) (h : Described q a kind d1 d2) :
      Described r.stubbed a kind d1 d2 := by
    have := Except.ok.inj (h.parts.symm.trans (metadataParts_persists hgrows a _ hparts))
    exact ⟨this ▸ hparts, h.editable, h.packed⟩
  obtain ⟨-, -, -, hrests⟩ | ⟨a', b, kind, d1, d2, payload, changes, ha', -, -, hrepacked⟩ :=
    r.ofMetadata_cases
  · obtain ⟨⟨parts, hparts⟩, hswept⟩ := hrests a ha
    refine ⟨⟨parts, metadataParts_persists hgrows a _ hparts⟩, fun kind d1 d2 h => ?_⟩
    obtain ⟨payload, changes, hswept, -⟩ := hswept kind d1 d2 (hread hparts h)
    exact swept_cleared hswept
  · obtain rfl := Option.some.inj (ha.symm.trans ha')
    have hparts := hrepacked.parts
    refine ⟨⟨_, metadataParts_persists hgrows a _ hparts⟩, fun kind' d1' d2' h => ?_⟩
    have hsame := Except.ok.inj ((hread hparts h).parts.symm.trans hparts)
    simp only [Prod.mk.injEq] at hsame
    obtain ⟨rfl, rfl, rfl⟩ := hsame
    exact swept_cleared hrepacked.swept

/-- A repacked metadata annotation rests when nothing is gone, and how it is packed is told. -/
theorem rests_new (r : Rewriting policy l c) (hc : c.Framed) {a b : AnnotationEntry}
    (ha : metadataOf r.marked = some a) (hb : r.new = [b])
    (htold : ∀ kind d1 d2, Pruner.metadataParts r.stubbed a = .ok (kind, d1, d2) →
      Packing.Told d1) :
    MetadataRests r.name {} r.pool b ∧
      ∃ kind d1 d2, Pruner.metadataParts r.pool b = .ok (kind, d1, d2) ∧ Packing.Told d1 := by
  obtain ⟨-, hnew, -⟩ | ⟨a', b', kind, d1, d2, payload, changes, ha', hb', -, hrepacked⟩ :=
    r.ofMetadata_cases
  · cases hnew.symm.trans hb
  obtain rfl := Option.some.inj (ha.symm.trans ha')
  obtain rfl : b = b' := by simpa using hb.symm.trans hb'
  have hpool := (r.installed_fit hc).2.fits hc.pool
  have hrestrung := (hrepacked.restrung hpool).2
  obtain ⟨before, hdecode, hsweep⟩ := swept_ok hrepacked.swept
  have hmoderate : Payload.Moderate d1 :=
    hrestrung.moderate hpool (Marked.fits_of_mem r.surveyed.read (metadataOf_mem ha))
  have hcontainer := Payload.sweep_fits hdecode hmoderate hsweep
  obtain ⟨-, changes', hsweep', hnone⟩ := Payload.sweep_cleared hsweep
  obtain ⟨-, container, -, -, rfl⟩ := Payload.sweep_ok_iff.1 hsweep
  have hdecode' := Payload.decode_encode hdecode (htold _ _ _ hrepacked.parts) hcontainer
  have hparts := metadataParts_restrung hrestrung (r.stubbed_grows hc) hrepacked.parts
    hrepacked.editable
  refine ⟨⟨⟨_, hparts⟩, fun kind' d1' d2' h => ?_⟩, _, _, _, hparts, Packing.told_encode _ _⟩
  have hsame := Except.ok.inj (h.parts.symm.trans hparts)
  simp only [Prod.mk.injEq] at hsame
  obtain ⟨rfl, rfl, rfl⟩ := hsame
  exact ⟨_, changes', mapError_ok_iff.2 (bind_ok_iff.2 ⟨_, hdecode', hsweep'⟩), hnone⟩

end Rewriting

end Prune

/-! Classes. -/

namespace ClassFile

/-- No constant, no attribute of a member leads beyond the pool. -/
structure Grounded (c : ClassFile) : Prop where
  pool : c.pool.Grounded
  fields : ∀ f ∈ c.fields, f.Grounded c.pool
  methods : ∀ m ∈ c.methods, m.Grounded c.pool

/-- The metadata can be read, and how it is packed is told by its first string. -/
def Told (c : ClassFile) : Prop :=
  ∀ ms, marks c.pool c.attributes = .ok ms → ∀ a, Prune.metadataOf ms = some a →
    ∃ kind d1 d2, Pruner.metadataParts c.pool a = .ok (kind, d1, d2) ∧ Packing.Told d1

theorem NoMetadata.told {c : ClassFile} (h : c.NoMetadata) : c.Told :=
  fun _ hms _ ha => nomatch ha.symm.trans (h.metadataOf hms)

theorem SoleMetadata.told {c : ClassFile} {a : AnnotationEntry} {kind : Kind} {d1 d2 : List String}
    (h : c.SoleMetadata a) (hparts : Pruner.metadataParts c.pool a = .ok (kind, d1, d2))
    (htold : Packing.Told d1) : c.Told := by
  intro ms hms b hb
  obtain rfl : a = b := Option.some.inj ((h.metadataOf hms).symm.trans hb)
  exact ⟨kind, d1, d2, hparts, htold⟩

end ClassFile

namespace Prune.Rewriting

variable {policy : Policy} {l : Ledger} {c : ClassFile}

/-- The members that a pass keeps are finished. -/
theorem members_finish (r : Rewriting policy l c) (hc : c.Framed) (hgrounded : c.Grounded)
    (hstart : (∀ key, l.memory.stubbed.contains key = false) ∨ c.Finished policy) :
    r.stubbed.Grounded ∧ (∀ f ∈ r.fields, f.Grounded c.pool) ∧
      (∀ e ∈ r.methods, e.Grounded c.pool) ∧ ∀ q, Grows r.stubbed q →
        (∀ f ∈ r.fields, ∃ m ms, FieldFinished policy q f m ms) ∧
          MethodsFinished policy q r.bootstraps [] r.methods := by
  have hprepared : Prepared policy r.name c.pool r.bootstraps r.afterFields [] c.methods := by
    obtain hstart | ⟨-, -, -, -, -, hbootstraps, hmethods, -⟩ := hstart
    · refine .fresh fun key hkey => ?_
      rw [(fields_ledger r.ofFields).2, hstart] at hkey
      cases hkey
    · cases hbootstraps.symm.trans r.bootstraps_unlinked
      exact .finished hmethods (by simp)
  obtain ⟨hgrows, hstubbed, hmethods, hfinished⟩ := methods_finish r.ofMethods r.installed hprepared
    hgrounded.methods hc.pool hgrounded.pool (.refl _) hgrounded.pool
  obtain ⟨hfields, hfieldsFinished⟩ := fields_finish r.ofFields hgrounded.fields
  exact ⟨hstubbed, hfields, hmethods, fun q hq =>
    ⟨hfieldsFinished q (hgrows.trans hq), hfinished q hq⟩⟩

theorem pool_grounded (r : Rewriting policy l c) (h : r.stubbed.Grounded) : r.pool.Grounded := by
  obtain ⟨-, -, hpool, -⟩ | ⟨a, b, kind, d1, d2, payload, changes, -, -, -, hrepacked⟩ :=
    r.ofMetadata_cases
  · rw [hpool]
    exact h
  · have hadd (text : String) : Brings (fun c => c.references = []) (ConstantPool.addUtf8 text) :=
      .addUtf8 (fun _ _ => rfl) text
    have hrepack : Brings (fun c => c.references = []) (Pruner.repack a payload.encode) := by
      refine ((Brings.mapM (fun s => (hadd s).bind fun _ => .pure _) _).bind fun _ => .pure _).bind
        fun v => .get fun p => ?_
      split
      · exact .throw _
      · exact .pure _
      · exact (hadd _).bind fun _ => .pure _
    exact hrepack.grounded h hrepacked.run

theorem calm_result (r : Rewriting policy l c) {ms : List Marked}
    (hread : marks r.pool r.attributes = .ok ms)
    (h : Updated r.new (Marked.kept (stripsFromClass policy) (Marked.all r.marked))
      (Marked.all ms)) :
    Marked.Calm (deletesClass policy) (stripsFromClass policy) r.pool r.attributes ms := by
  have hkept : ∀ e ∈ Marked.all ms, ∃ f ∈ Marked.all r.marked, f.2 = e.2 ∧
      stripsFromClass policy e.2 = false := by
    intro e he
    have hmem := List.mem_map_of_mem (f := Prod.snd) he
    rw [h.descriptors] at hmem
    obtain ⟨f, hf, hfe⟩ := List.mem_map.1 hmem
    obtain ⟨hall, hstrip⟩ := List.mem_filter.1 hf
    exact ⟨f, hall, hfe, by simpa [hfe] using hstrip⟩
  refine ⟨hread, List.any_eq_false.2 fun e he => ?_, fun e he => ?_⟩
  · obtain ⟨f, hf, hfe, -⟩ := hkept e he
    rw [← hfe]
    exact List.any_eq_false.1 r.wanted f hf
  · obtain ⟨-, -, -, hstrip⟩ := hkept e he
    exact hstrip

/-- The metadata that a pass leaves rests when nothing is gone, and how it is packed is told. -/
theorem metadata_result (r : Rewriting policy l c) (hc : c.Framed) (htold : c.Told) {ms : List Marked}
    (hupdated : Updated r.new (Marked.kept (stripsFromClass policy) (Marked.all r.marked))
      (Marked.all ms)) {a : AnnotationEntry} (ha : metadataOf ms = some a) :
    MetadataRests r.name {} r.pool a ∧
      ∃ kind d1 d2, Pruner.metadataParts r.pool a = .ok (kind, d1, d2) ∧ Packing.Told d1 := by
  obtain hold | ⟨b, hb, hnewest⟩ := hupdated.metadataOf
  · have ha' := hold.symm.trans ha
    obtain ⟨kind, d1, d2, hparts, htold'⟩ := htold _ r.surveyed.read a ha'
    exact ⟨r.rests_old ha' (r.stubbed_grows hc), kind, d1, d2,
      metadataParts_persists (r.pool_grows hc) a _ hparts, htold'⟩
  · obtain rfl := Option.some.inj (hnewest.symm.trans ha)
    obtain ⟨-, hnone, -⟩ | ⟨a', _, _, _, _, _, _, ha', -⟩ := r.ofMetadata_cases
    · cases hnone.symm.trans hb
    · refine r.rests_new hc ha' hb fun kind d1 d2 hparts => ?_
      obtain ⟨kind', d1', d2', hparts', htold'⟩ := htold _ r.surveyed.read a' ha'
      have hsame := Except.ok.inj
        (hparts.symm.trans (metadataParts_persists (r.installed_fit hc).2 a' _ hparts'))
      simp only [Prod.mk.injEq] at hsame
      rwa [hsame.2.1]

/-- What was written of the metadata can be read again, and tells how it is packed. -/
theorem told (r : Rewriting policy l c) (hc : c.Framed) (hnew : ∀ b ∈ r.new, b.Fits)
    (htold : c.Told) : r.result.Told := by
  intro ms hms a ha
  obtain ⟨ms', hms', hupdated⟩ := r.marks_result hc hnew
  cases hms.symm.trans hms'
  exact (r.metadata_result hc htold hupdated ha).2

/-- A pass leaves a finished class, about which the same is known. -/
theorem finishes (r : Rewriting policy l c) (hc : c.Fits) (hnew : ∀ b ∈ r.new, b.Fits)
    (hgrounded : c.Grounded) (htold : c.Told)
    (hstart : (∀ key, l.memory.stubbed.contains key = false) ∨ c.Finished policy) :
    r.result.Finished policy ∧ r.result.Grounded ∧ r.result.Told := by
  have hframed := hc.toFramed
  have hgrows := r.pool_grows hframed
  obtain ⟨hstubbed, hfields, hmethods, hfinished⟩ := r.members_finish hframed hgrounded hstart
  obtain ⟨hfieldsFinished, hmethodsFinished⟩ := hfinished r.pool (r.stubbed_grows hframed)
  obtain ⟨ms, hms, hupdated⟩ := r.marks_result hframed hnew
  obtain ⟨links, hlinks, -⟩ := r.links_result hframed
  exact ⟨.intro (r.result_name hframed) (r.header_result hframed) (r.calm_result hms hupdated)
      hlinks hfieldsFinished (r.bootstraps_result hframed) hmethodsFinished
      fun a ha => (r.metadata_result hframed htold hupdated ha).1,
    ⟨r.pool_grounded hstubbed, fun f hf a ha => hgrows.reaches (hfields f hf a ha),
      fun e he a ha => hgrows.reaches (hmethods e he a ha)⟩, r.told hframed hnew htold⟩

/-- A class in which a pass changes nothing is finished. -/
theorem finished_of_unchanged (r : Rewriting policy l c) (hc : c.Framed) (hgrounded : c.Grounded)
    (hstart : (∀ key, l.memory.stubbed.contains key = false) ∨ c.Finished policy)
    (h : r.changed = false) : c.Finished policy := by
  obtain ⟨hfields, hmethods, -, hpool⟩ := r.of_unchanged h
  simp only [changed, Bool.or_eq_false_iff] at h
  have hstripped : (Marked.stripAll (stripsFromClass policy) r.marked).1 =
      r.marked.map Marked.source := Marked.stripAll_eq_of_unchanged h.1.1.1
  have hlinked := r.linked
  unfold Linked at hlinked
  rw [hstripped, ← r.marks_ok.1] at hlinked
  obtain ⟨-, -, -, hfinished⟩ := r.members_finish hc hgrounded hstart
  obtain ⟨hfieldsFinished, hmethodsFinished⟩ := hfinished c.pool (hpool ▸ .refl _)
  rw [hfields] at hfieldsFinished
  rw [hmethods] at hmethodsFinished
  exact .intro r.surveyed.named r.surveyed.header
    ⟨r.surveyed.read, r.wanted, Marked.whole_of_stripAll r.marks_ok.2 hstripped⟩ hlinked
    hfieldsFinished r.bootstraps_unlinked hmethodsFinished
    fun a ha => r.rests_old ha (hpool ▸ .refl _)

end Prune.Rewriting

end JarPruning
