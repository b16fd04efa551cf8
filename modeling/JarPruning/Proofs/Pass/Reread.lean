import JarPruning.Proofs.Pass.Annotated
import JarPruning.Proofs.Pass.Unaltered

/-!
Reading what a pass wrote. If all that is written fits its fields, the class is read back as it was
meant, and its attributes say what they said before, less what was stripped and thinned, with the
repacked metadata in its place.
-/
namespace JarPruning

open ConstantPool (Grows)
open AnnotationEntry (readTable tableBytes TableFits)

namespace Marked

variable {p q : ConstantPool} {drop : String → Bool}

/-- What is left of a mark. -/
def rest (drop : String → Bool) (m : Marked) : Option Marked :=
  (m.strip drop).1.map fun a => ⟨a, m.table.map (kept drop)⟩

theorem isAnnotations_grow (hgrows : Grows p q) {a : Attribute} (hname : p.Reaches a.name) :
    a.isAnnotations q = a.isAnnotations p := by
  unfold Attribute.isAnnotations Attribute.isNamed
  rw [hgrows.hasText_eq hname, hgrows.hasText_eq hname]

theorem Read.grow {m : Marked} (h : m.Read p) (hgrows : Grows p q)
    (hname : p.Reaches m.source.name) : m.Read q := by
  cases h with
  | plain hplain => exact .plain (by rwa [isAnnotations_grow hgrows hname])
  | table hmarked hspelled hresolved =>
    exact .table (hgrows.isAnnotations hmarked) hspelled
      fun e he => hgrows.utf8 _ _ (hresolved e he)

theorem Read.rest {m m' : Marked} (h : m.Read p) (hm' : m.rest drop = some m') :
    m'.Read p := by
  obtain ⟨a, ha, rfl⟩ := Option.map_eq_some_iff.1 hm'
  generalize hr : m.strip drop = r at ha
  have hstripped := strip_stripped drop m
  rw [hr] at hstripped
  cases h with
  | plain hplain =>
    cases hstripped with
    | whole _ =>
      cases ha
      exact .plain hplain
    | emptied hmarked _ _ => cases hmarked
    | thinned hmarked _ _ => cases hmarked
  | @table source named hmarked hspelled hresolved =>
    have hkept : ∀ e ∈ kept drop named, e.1.descriptor p = .ok e.2 :=
      fun e he => hresolved e (List.mem_of_mem_filter he)
    cases hstripped with
    | whole hall =>
      cases ha
      have heq : kept drop named = named :=
        List.filter_eq_self.2 fun e he => by rw [hall e he]; rfl
      exact .table hmarked (by rwa [heq]) hkept
    | emptied _ _ _ => cases ha
    | thinned _ _ _ =>
      cases ha
      have hread : Read p ⟨source, some named⟩ := .table hmarked hspelled hresolved
      exact .table hmarked
        (AnnotationEntry.readTable_tableBytes (hread.kept_fits rfl)) hkept

theorem stripAll_eq_rest (ms : List Marked) :
    (stripAll drop ms).1 = (ms.filterMap (rest drop)).map source := by
  induction ms with
  | nil => rfl
  | cons m ms ih =>
    rw [stripAll_cons, ih]
    unfold rest
    cases hm : (m.strip drop).1 with
    | none => simp [hm]
    | some a => simp [hm]

/-- The annotations that are left. -/
theorem all_rest {ms : List Marked} (h : ∀ m ∈ ms, m.Read p) :
    all (ms.filterMap (rest drop)) = kept drop (all ms) := by
  induction ms with
  | nil => rfl
  | cons m ms ih =>
    have ih := ih fun m hm => h m (List.mem_cons_of_mem _ hm)
    have hentries : ((m.rest drop).toList.flatMap entries) = kept drop m.entries := by
      have hstripped := strip_stripped drop m
      unfold rest
      generalize m.strip drop = r at hstripped
      cases h m (List.mem_cons_self ..) with
      | plain _ =>
        cases hstripped with
        | whole _ => rfl
        | emptied hmarked _ _ => cases hmarked
        | thinned hmarked _ _ => cases hmarked
      | table _ _ _ =>
        cases hstripped with
        | whole _ => simp [entries]
        | emptied _ hnone _ => simpa using hnone.symm
        | thinned _ _ _ => simp [entries]
    have hcons : (m :: ms).filterMap (rest drop) =
        (m.rest drop).toList ++ ms.filterMap (rest drop) := by
      cases hm : m.rest drop <;> simp [hm]
    rw [hcons, all, List.flatMap_append, hentries]
    show _ ++ all (ms.filterMap (rest drop)) = _
    rw [ih]
    simp [kept, all]

/-- What is left reads as what is left of the marks. -/
theorem marks_stripAll {as : List Attribute} {ms : List Marked} (h : marks p as = .ok ms)
    (hgrows : Grows p q) (hnames : ∀ a ∈ (stripAll drop ms).1, p.Reaches a.name) :
    marks q (stripAll drop ms).1 = .ok (ms.filterMap (rest drop)) := by
  obtain ⟨-, hreads⟩ := marks_ok_iff.1 h
  refine marks_ok_iff.2 ⟨stripAll_eq_rest ms, fun m' hm' => ?_⟩
  obtain ⟨m, hm, hrest⟩ := List.mem_filterMap.1 hm'
  refine ((hreads m hm).rest hrest).grow hgrows (hnames _ ?_)
  rw [stripAll_eq_rest]
  exact List.mem_map_of_mem hm'

end Marked

namespace Prune

variable {p q : ConstantPool} {drop : String → Bool} {t : Tracker} {self : String}

/-- Thinning touches no annotation. -/
theorem marks_thin (t : Tracker) (self : String) {links : List (Attribute × Link)} {ms : List Marked}
    (h : marks q (links.map (·.1)) = .ok ms)
    (hlinks : ∀ l ∈ links, Link.Read q l.1 l.2) :
    ∃ ms', marks q (links.map fun l => (l.2.thin t self l.1).1) = .ok ms' ∧
      Marked.all ms' = Marked.all ms := by
  obtain ⟨hsources, hreads⟩ := marks_ok_iff.1 h
  clear h
  induction links generalizing ms with
  | nil =>
    obtain rfl := List.map_eq_nil_iff.1 hsources.symm
    exact ⟨[], rfl, rfl⟩
  | cons l links ih =>
    obtain ⟨m, ms, rfl, hm, hms⟩ := List.map_eq_cons_iff.1 hsources.symm
    obtain ⟨ms', hms', hall⟩ := ih (fun l hl => hlinks l (List.mem_cons_of_mem _ hl)) hms.symm
      fun m hm => hreads m (List.mem_cons_of_mem _ hm)
    have hread := hreads m (List.mem_cons_self ..)
    have hthin : Marked.Read q ⟨(l.2.thin t self l.1).1, m.table⟩ := by
      obtain ⟨source, table⟩ := m
      cases hm
      have hlink := hlinks l (List.mem_cons_self ..)
      cases hread with
      | plain hplain =>
        refine .plain ?_
        unfold Attribute.isAnnotations Attribute.isNamed at hplain ⊢
        rwa [Link.thin_name]
      | table hmarked hspelled hresolved =>
        rw [hlink.of_isAnnotations hmarked]
        exact .table hmarked hspelled hresolved
    obtain ⟨hsources', hreads'⟩ := marks_ok_iff.1 hms'
    refine ⟨⟨(l.2.thin t self l.1).1, m.table⟩ :: ms', marks_ok_iff.2 ⟨?_, ?_⟩, ?_⟩
    · rw [List.map_cons, List.map_cons, hsources']
    · rintro m' hm'
      obtain rfl | hm' := List.mem_cons.1 hm'
      · exact hthin
      · exact hreads' m' hm'
    · show Marked.entries _ ++ Marked.all ms' = m.entries ++ Marked.all ms
      rw [hall]
      rfl

/-- The annotations after the first of its type was replaced. -/
inductive Swapped (new : AnnotationEntry) :
    List (AnnotationEntry × String) → List (AnnotationEntry × String) → Prop
  | absent {es : List (AnnotationEntry × String)}
    (lacks : ∀ e ∈ es, e.1.typeIndex ≠ new.typeIndex) : Swapped new es es
  | found {before after : List (AnnotationEntry × String)} {old : AnnotationEntry} {d : String}
    (first : ∀ e ∈ before, e.1.typeIndex ≠ new.typeIndex)
    (same : old.typeIndex = new.typeIndex) :
    Swapped new (before ++ (old, d) :: after) (before ++ (new, d) :: after)

theorem Lacks.entries {pool : ConstantPool} {m : Marked} {typeIndex : UInt16}
    (h : Lacks pool typeIndex m.source) (hm : m.Read pool) :
    ∀ e ∈ m.entries, e.1.typeIndex ≠ typeIndex := by
  intro e he
  obtain ⟨hmarked, table, htable, hin, -⟩ := hm.mem_entries_iff.1 he
  obtain ⟨table', htable', hlacks⟩ := h hmarked
  cases htable.symm.trans htable'
  exact hlacks e.1 hin

/-- The mark of an annotation table in other words. -/
def retable (source : Attribute) (named : List (AnnotationEntry × String)) : Marked :=
  ⟨{ source with payload := tableBytes (named.map (·.1)) }, some named⟩

/-- A table is read back with one annotation in the place of another of its type. -/
theorem retable_read {source : Attribute} {before after : List (AnnotationEntry × String)}
    {e : AnnotationEntry × String} {new : AnnotationEntry}
    (h : Marked.Read q ⟨source, some (before ++ e :: after)⟩) (hnew : new.Fits)
    (hsame : e.1.typeIndex = new.typeIndex) :
    Marked.Read q (retable source (before ++ (new, e.2) :: after)) := by
  cases h with
  | table hmarked hspelled hresolved =>
    have hfits := (AnnotationEntry.of_readTable hspelled).2
    rw [List.map_append, List.map_cons] at hfits
    refine .table hmarked (AnnotationEntry.readTable_tableBytes ?_) ?_
    · rw [List.map_append, List.map_cons]
      exact hfits.replace hnew
    · intro f hf
      obtain hf | hf := List.mem_append.1 hf
      · exact hresolved f (List.mem_append_left _ hf)
      obtain rfl | hf := List.mem_cons.1 hf
      · have hold := hresolved e (List.mem_append_right _ (List.mem_cons_self ..))
        unfold AnnotationEntry.descriptor at hold ⊢
        rwa [← hsame]
      · exact hresolved f (List.mem_append_right _ (List.mem_cons_of_mem _ hf))

theorem all_middle (ms₁ ms₃ : List Marked) (source : Attribute)
    (before after : List (AnnotationEntry × String)) (e : AnnotationEntry × String) :
    Marked.all (ms₁ ++ ⟨source, some (before ++ e :: after)⟩ :: ms₃) =
      (Marked.all ms₁ ++ before) ++ e :: (after ++ Marked.all ms₃) := by
  simp [Marked.all, Marked.entries]

theorem Replaced.marks {new : AnnotationEntry} {as as' : List Attribute} {ms : List Marked}
    {changed : Bool} (h : Replaced q new as as' changed) (hms : JarPruning.marks q as = .ok ms)
    (hnew : new.Fits) : ∃ ms', JarPruning.marks q as' = .ok ms' ∧
      Swapped new (Marked.all ms) (Marked.all ms') := by
  obtain ⟨rfl, hreads⟩ := marks_ok_iff.1 hms
  generalize has : ms.map Marked.source = as at h
  cases h with
  | absent hlacks =>
    refine ⟨ms, has ▸ hms, .absent fun e he => ?_⟩
    obtain ⟨m, hm, he⟩ := Marked.mem_all.1 he
    exact (hlacks m.source (has ▸ List.mem_map_of_mem hm)).entries (hreads m hm) e he
  | @found pre post a before after old hearlier hmarked hspelled hfirst hsame =>
    obtain ⟨ms₁, ms₂, rfl, rfl, hms₂⟩ := List.map_eq_append_iff.1 has
    obtain ⟨m, ms₃, rfl, rfl, rfl⟩ := List.map_eq_cons_iff.1 hms₂
    have hread := hreads m (List.mem_append_right _ (List.mem_cons_self ..))
    obtain ⟨source, table⟩ := m
    obtain ⟨named, rfl, htable⟩ : ∃ named, table = some named ∧
        named.map (·.1) = before ++ old :: after := by
      cases hread with
      | plain hplain => cases hplain.symm.trans hmarked
      | table _ hspelled' _ => exact ⟨_, rfl, Except.ok.inj (hspelled'.symm.trans hspelled)⟩
    obtain ⟨nb, named', rfl, rfl, hnamed'⟩ := List.map_eq_append_iff.1 htable
    obtain ⟨e, na, rfl, rfl, rfl⟩ := List.map_eq_cons_iff.1 hnamed'
    refine ⟨ms₁ ++ retable source (nb ++ (new, e.2) :: na) :: ms₃,
      marks_ok_iff.2 ⟨by simp [retable], fun m' hm' => ?_⟩, ?_⟩
    · obtain hm' | hm' := List.mem_append.1 hm'
      · exact hreads m' (List.mem_append_left _ hm')
      obtain rfl | hm' := List.mem_cons.1 hm'
      · exact retable_read hread hnew hsame
      · exact hreads m' (List.mem_append_right _ (List.mem_cons_of_mem _ hm'))
    · rw [retable, all_middle, all_middle]
      refine .found (fun f hf => ?_) hsame
      obtain hf | hf := List.mem_append.1 hf
      · obtain ⟨m, hm, hf⟩ := Marked.mem_all.1 hf
        exact (hearlier m.source (List.mem_map_of_mem hm)).entries
          (hreads m (List.mem_append_left _ hm)) f hf
      · exact hfirst f.1 (List.mem_map_of_mem hf)

/-- What a class is annotated with after a pass. -/
inductive Updated (new : List AnnotationEntry) (es es' : List (AnnotationEntry × String)) : Prop
  | same (none : new = []) (eq : es' = es)
  | swapped {b : AnnotationEntry} (one : new = [b]) (swapped : Swapped b es es')

theorem Swapped.descriptors {new : AnnotationEntry} {es es' : List (AnnotationEntry × String)}
    (h : Swapped new es es') : es'.map (·.2) = es.map (·.2) := by
  cases h with
  | absent _ => rfl
  | found _ _ => simp

theorem Updated.descriptors {new : List AnnotationEntry} {es es' : List (AnnotationEntry × String)}
    (h : Updated new es es') : es'.map (·.2) = es.map (·.2) := by
  cases h with
  | same _ heq => rw [heq]
  | swapped _ hswapped => exact hswapped.descriptors

namespace Rewriting

variable {policy : Policy} {l : Ledger} {c : ClassFile}

/-- Whether what a pass writes fits its fields: the payloads of the attributes and the counts in a
repacked annotation. -/
structure Fits (r : Rewriting policy l c) : Prop where
  attributes : ∀ a ∈ r.attributes, a.Fits
  new : ∀ a ∈ r.new, a.Fits

theorem result_fits (r : Rewriting policy l c) (hc : c.Fits) (h : r.Fits) : r.result.Fits where
  toFramed := r.framed hc.toFramed
  attributes := h.attributes
  attributeCount := by
    have hle := Marked.length_stripAll_le (stripsFromClass policy) r.marked
    have hcount := hc.attributeCount
    rw [r.links_ok.1, List.length_map] at hle
    rw [r.marks_ok.1, List.length_map] at hcount
    show r.attributes.length < _
    rw [r.length_attributes.1]
    omega

theorem result_name (r : Rewriting policy l c) (hc : c.Framed) : r.result.name = .ok r.name :=
  (r.pool_grows hc).className _ _ r.surveyed.named

/-- A class that fits is read back from what a pass wrote. -/
theorem ofBytes_result (r : Rewriting policy l c) (hc : c.Fits) (h : r.Fits) :
    ClassFile.ofBytes r.result.bytes = .ok r.result :=
  ClassFile.ofBytes_bytes (r.result_fits hc h) (r.result_name hc.toFramed)

theorem links_reach (r : Rewriting policy l c) :
    ∀ a ∈ (Marked.stripAll (stripsFromClass policy) r.marked).1, c.pool.Reaches a.name := by
  obtain ⟨hlinks, hlinked⟩ := r.links_ok
  intro a ha
  rw [hlinks] at ha
  obtain ⟨p, hp, rfl⟩ := List.mem_map.1 ha
  obtain ⟨name, hname⟩ := (hlinked p hp).named
  exact ConstantPool.reaches_of_utf8 hname

/-- Thinned and stripped, the class is annotated with what is not stripped. -/
theorem marks_unlinked (r : Rewriting policy l c) (hc : c.Framed) :
    ∃ ms, JarPruning.marks r.pool (unlinked l c r.name r.links).attributes = .ok ms ∧
      Marked.all ms = Marked.kept (stripsFromClass policy) (Marked.all r.marked) := by
  have hgrows := r.pool_grows hc
  have hstripped := Marked.marks_stripAll r.surveyed.read hgrows r.links_reach
  rw [r.links_ok.1] at hstripped
  obtain ⟨ms, hms, hall⟩ := marks_thin l.tracker r.name hstripped
    fun p hp => (r.links_ok.2 p hp).grow hgrows
  exact ⟨ms, hms, hall.trans (Marked.all_rest r.marks_ok.2)⟩

/-- What the class is annotated with after a pass. -/
theorem marks_result (r : Rewriting policy l c) (hc : c.Framed) (hfits : ∀ a ∈ r.new, a.Fits) :
    ∃ ms, JarPruning.marks r.pool r.attributes = .ok ms ∧
      Updated r.new (Marked.kept (stripsFromClass policy) (Marked.all r.marked))
        (Marked.all ms) := by
  obtain ⟨ms, hms, hall⟩ := r.marks_unlinked hc
  obtain ⟨-, hnew, -⟩ | ⟨a, b, kind, d1, d2, payload, changes, -, hnew, -⟩ := r.ofMetadata_cases
  · rw [(r.attributes_kept hnew).1]
    exact ⟨ms, hms, .same hnew hall⟩
  · have hb : b.Fits := hfits b (by rw [hnew]; exact List.mem_singleton_self b)
    obtain ⟨ms', hms', hswapped⟩ := (r.attributes_replaced hnew).marks hms hb
    rw [hall] at hswapped
    exact ⟨ms', hms', .swapped hnew hswapped⟩

/-- A pass that writes what fits leaves a class with at most one metadata annotation so. -/
theorem result_oneMetadata (r : Rewriting policy l c) (hc : c.Framed) (h : r.Fits)
    (hone : OneMetadata c) : OneMetadata r.result := by
  obtain ⟨ms, hms, hupdated⟩ := r.marks_result hc h.new
  intro ms' hms'
  cases hms.symm.trans hms'
  have hcount (es : List (AnnotationEntry × String)) :
      (es.filter fun e => e.2 = Pruner.metadataDescriptor).length =
        ((es.map (·.2)).filter fun d => d = Pruner.metadataDescriptor).length := by
    rw [List.filter_map, List.length_map]
    rfl
  rw [hcount, hupdated.descriptors, ← hcount]
  refine Nat.le_trans ?_ (hone r.marked r.surveyed.read)
  exact (List.Sublist.filter _ List.filter_sublist).length_le

end Rewriting

end Prune

end JarPruning
