import JarPruning.Proofs.Pass.Frame

/-!
The attributes of a class that come out of a pass unaltered: none was stripped, no link was thinned,
and the metadata lost nothing. Attributes are compared from the front, one by one, because a pass
that shortens one and lengthens another must not be mistaken for one that leaves both alone.
-/
namespace JarPruning

open BigEndian
open AnnotationEntry (readTable tableBytes)

theorem Attribute.bytes_front {a b : Attribute} (hname : a.name = b.name) {s u : List UInt8}
    (h : a.bytes ++ s = b.bytes ++ u) : a.payload ++ s = b.payload ++ u := by
  simp only [Attribute.bytes, hname, List.append_assoc, List.append_cancel_left_eq] at h
  exact (List.append_inj h (by simp)).2

/-- An annotation table is no link. -/
theorem Link.Read.of_isAnnotations {pool : ConstantPool} {a : Attribute} {link : Link}
    (h : Link.Read pool a link) (ha : a.isAnnotations pool = true) : link = .none := by
  have hne {name : String} (hname : pool.utf8 a.name = .ok name)
      (hvisible : name ≠ "RuntimeVisibleAnnotations")
      (hinvisible : name ≠ "RuntimeInvisibleAnnotations") : link = .none := by
    have hnamed : a.isNamed pool name = true := by
      simp [Attribute.isNamed, ConstantPool.hasText, hname]
    have := Attribute.not_isAnnotations_of_isNamed hnamed hvisible hinvisible
    rw [ha] at this
    cases this
  cases h with
  | outer hname _ => exact hne hname (by decide) (by decide)
  | inner hname _ => exact hne hname (by decide) (by decide)
  | host hname _ => exact hne hname (by decide) (by decide)
  | listed hname hlists _ =>
    refine hne hname ?_ ?_
    · rintro rfl
      simp at hlists
    · rintro rfl
      simp at hlists
  | none _ _ => rfl

namespace Prune

variable {pool : ConstantPool} {drop : String → Bool} {t : Tracker} {self : String}

/-- A link from which nothing was stripped and no row went. -/
structure LinkRests (t : Tracker) (owner : String) (m : Marked) (p : Attribute × Link) : Prop where
  whole : p.1 = m.source
  thin : p.2.thin t owner p.1 = (p.1, false)
  listed : p.2.listsGone t owner = false

theorem LinkRests.of_front {m : Marked} {p : Attribute × Link} (hm : m.Read pool)
    (hstrip : (m.strip drop).1 = some p.1) (hlink : Link.Read pool p.1 p.2) {s u : List UInt8}
    (hfront : (p.2.thin t self p.1).1.payload ++ s = m.source.payload ++ u) :
    LinkRests t self m p := by
  obtain ⟨a, link⟩ := p
  dsimp only at hstrip hlink hfront
  generalize hr : m.strip drop = r at hstrip
  have hstripped := Marked.strip_stripped drop m
  rw [hr] at hstripped
  cases hstripped with
  | whole _ =>
    cases hstrip
    obtain ⟨hthin, hlisted⟩ := Link.thin_front hlink hfront
    exact ⟨rfl, hthin, hlisted⟩
  | emptied _ _ _ => cases hstrip
  | thinned hmarked _ hfewer =>
    cases hstrip
    cases hm with
    | plain _ => cases hmarked
    | @table a named hannotations hspelled hresolved =>
      obtain rfl : link = .none := hlink.of_isAnnotations hannotations
      have hlength : ((Marked.kept drop named).map (·.1)).length < named.length := by
        rwa [List.length_map]
      exact absurd hfront
        ((Marked.Read.table hannotations hspelled hresolved).thinned_ne rfl hlength s u)

/-- The bytes of the attributes behind the links. -/
def thinnedBytes (t : Tracker) (self : String) (links : List (Attribute × Link)) : List UInt8 :=
  links.flatMap fun p => (p.2.thin t self p.1).1.bytes

theorem links_front {ms : List Marked} {links : List (Attribute × Link)}
    (hms : ∀ m ∈ ms, m.Read pool) (hlinks : ∀ p ∈ links, Link.Read pool p.1 p.2)
    (h : List.Forall₂ (fun m p => (m.strip drop).1 = some p.1) ms links) {s u : List UInt8}
    (hfront : thinnedBytes t self links ++ s = (ms.map Marked.source).flatMap Attribute.bytes ++ u) :
    List.Forall₂ (LinkRests t self) ms links ∧ s = u := by
  induction h with
  | nil => exact ⟨.nil, hfront⟩
  | @cons m p ms links hstrip _ ih =>
    rw [thinnedBytes, List.flatMap_cons, List.map_cons, List.flatMap_cons, List.append_assoc,
      List.append_assoc] at hfront
    have hname : (p.2.thin t self p.1).1.name = m.source.name := by
      rw [Link.thin_name, Marked.strip_name hstrip]
    have hrests := LinkRests.of_front (hms m (List.mem_cons_self ..)) hstrip
      (hlinks p (List.mem_cons_self ..)) (Attribute.bytes_front hname hfront)
    rw [hrests.thin, hrests.whole, List.append_cancel_left_eq] at hfront
    obtain ⟨hall, hsu⟩ := ih (fun m hm => hms m (List.mem_cons_of_mem _ hm))
      (fun p hp => hlinks p (List.mem_cons_of_mem _ hp)) hfront
    exact ⟨.cons hrests hall, hsu⟩

/-! Replaced annotations. -/

/-- Whether no annotation of a table has the type. -/
def Lacks (pool : ConstantPool) (typeIndex : UInt16) (a : Attribute) : Prop :=
  a.isAnnotations pool = true →
    ∃ table, readTable a.payload = .ok table ∧ ∀ b ∈ table, b.typeIndex ≠ typeIndex

/-- What becomes of attributes in which an annotation is replaced, and whether it was another. -/
inductive Replaced (pool : ConstantPool) (new : AnnotationEntry) :
    List Attribute → List Attribute → Bool → Prop
  | absent {as : List Attribute} (lacks : ∀ a ∈ as, Lacks pool new.typeIndex a) :
    Replaced pool new as as false
  | found {pre post : List Attribute} {a : Attribute} {before after : List AnnotationEntry}
    {old : AnnotationEntry} (earlier : ∀ a ∈ pre, Lacks pool new.typeIndex a)
    (marked : a.isAnnotations pool = true)
    (spelled : readTable a.payload = .ok (before ++ old :: after))
    (first : ∀ b ∈ before, b.typeIndex ≠ new.typeIndex)
    (same : old.typeIndex = new.typeIndex) :
    Replaced pool new (pre ++ a :: post)
      (pre ++ { a with payload := tableBytes (before ++ new :: after) } :: post)
      (decide (old ≠ new))

theorem Replaced.cons {new : AnnotationEntry} {as as' : List Attribute} {changed : Bool}
    (h : Replaced pool new as as' changed) {a : Attribute} (ha : Lacks pool new.typeIndex a) :
    Replaced pool new (a :: as) (a :: as') changed := by
  cases h with
  | absent hlacks =>
    refine .absent fun b hb => ?_
    obtain rfl | hb := List.mem_cons.1 hb
    · exact ha
    · exact hlacks b hb
  | found hearlier hmarked hspelled hfirst hsame =>
    rw [← List.cons_append, ← List.cons_append]
    refine .found (fun b hb => ?_) hmarked hspelled hfirst hsame
    obtain rfl | hb := List.mem_cons.1 hb
    · exact ha
    · exact hearlier b hb

theorem replaceIn?_some {new : AnnotationEntry} {table table' : List AnnotationEntry}
    (h : Walk.replaceIn? new table = some table') :
    ∃ before old after, table = before ++ old :: after ∧ table' = before ++ new :: after ∧
      (∀ b ∈ before, b.typeIndex ≠ new.typeIndex) ∧ old.typeIndex = new.typeIndex := by
  induction table generalizing table' with
  | nil => cases h
  | cons a table ih =>
    rw [Walk.replaceIn?] at h
    split at h
    · next htype =>
      cases h
      exact ⟨[], a, table, rfl, rfl, by simp, htype⟩
    · next htype =>
      obtain ⟨table'', htable'', rfl⟩ := Option.map_eq_some_iff.1 h
      obtain ⟨before, old, after, rfl, rfl, hfirst, hsame⟩ := ih htable''
      exact ⟨a :: before, old, after, rfl, rfl, by simpa [htype] using hfirst, hsame⟩

theorem replaceIn?_none {new : AnnotationEntry} {table : List AnnotationEntry}
    (h : Walk.replaceIn? new table = none) : ∀ b ∈ table, b.typeIndex ≠ new.typeIndex := by
  induction table with
  | nil => simp
  | cons a table ih =>
    rw [Walk.replaceIn?] at h
    split at h
    · cases h
    · next htype =>
      simpa [htype] using ih (Option.map_eq_none_iff.1 h)

theorem replaceAnnotations_ok {new : AnnotationEntry} {as as' : List Attribute} {changed : Bool}
    (h : Walk.replaceAnnotations pool new as = .ok (as', changed)) :
    Replaced pool new as as' changed := by
  induction as generalizing as' changed with
  | nil =>
    cases h
    exact .absent (by simp)
  | cons a as ih =>
    rw [Walk.replaceAnnotations] at h
    split at h
    · next hmarked =>
      obtain ⟨table, htable, h⟩ := bind_ok_iff.1 h
      cases hreplaced : Walk.replaceIn? new table with
      | some table' =>
        rw [hreplaced] at h
        obtain ⟨before, old, after, rfl, rfl, hfirst, hsame⟩ := replaceIn?_some hreplaced
        have hfound : Replaced pool new ([] ++ a :: as)
            ([] ++ { a with payload := tableBytes (before ++ new :: after) } :: as)
            (decide (old ≠ new)) :=
          .found (by simp) hmarked htable hfirst hsame
        dsimp only at h
        split at h
        · next heq =>
          cases h
          obtain rfl : new = old := (List.cons.inj (List.append_cancel_left heq)).1
          have hsource :
              ({ a with payload := tableBytes (before ++ new :: after) } : Attribute) = a := by
            rw [← (AnnotationEntry.of_readTable htable).1]
          simpa [hsource] using hfound
        · next hne =>
          cases h
          have hother : old ≠ new := fun heq => hne (by rw [heq])
          simpa [hother] using hfound
      | none =>
        rw [hreplaced] at h
        obtain ⟨⟨as₁, changed₁⟩, has, h⟩ := bind_ok_iff.1 h
        cases h
        exact (ih has).cons fun _ => ⟨table, htable, replaceIn?_none hreplaced⟩
    · next hplain =>
      obtain ⟨⟨as₁, changed₁⟩, has, h⟩ := bind_ok_iff.1 h
      cases h
      exact (ih has).cons fun h => absurd h hplain

/-- An annotation that is replaced by itself is written as it was. -/
theorem Replaced.eq_of_unchanged {new : AnnotationEntry} {as as' : List Attribute}
    {changed : Bool} (h : Replaced pool new as as' changed) (hchanged : changed = false) :
    as' = as := by
  cases h with
  | absent _ => rfl
  | found _ _ hspelled _ _ =>
    obtain rfl := not_not.1 (of_decide_eq_false hchanged)
    rw [← (AnnotationEntry.of_readTable hspelled).1]

theorem Replaced.length {new : AnnotationEntry} {as as' : List Attribute} {changed : Bool}
    (h : Replaced pool new as as' changed) : as'.length = as.length := by
  cases h with
  | absent _ => rfl
  | found _ _ _ _ _ => simp

end Prune

end JarPruning
