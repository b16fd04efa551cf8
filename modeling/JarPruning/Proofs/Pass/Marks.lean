import JarPruning.Proofs.ClassFile.Annotation
import JarPruning.Proofs.Except
import JarPruning.Proofs.Pass.Prune

/-!
Stripping annotations. A table that loses an annotation is never the bytes it was, because its
count is at the front.
-/
namespace JarPruning

open BigEndian

theorem countedBytes_length_eq {α β : Type} {f : α → List UInt8} {g : β → List UInt8}
    {l : List α} {m : List β} {s t : List UInt8} (hl : l.length < 256 ^ 2)
    (hm : m.length < 256 ^ 2) (h : countedBytes f l ++ s = countedBytes g m ++ t) :
    l.length = m.length := by
  unfold countedBytes at h
  rw [List.append_assoc, List.append_assoc] at h
  have hdigits := (List.append_inj h (by simp)).1
  rwa [digits_eq_iff, Nat.mod_eq_of_lt hl, Nat.mod_eq_of_lt hm] at hdigits

theorem ConstantPool.hasText_unique {pool : ConstantPool} {i : UInt16} {s t : String}
    (hs : pool.hasText i s) (ht : pool.hasText i t) : s = t := by
  unfold ConstantPool.hasText at hs ht
  cases hi : pool.utf8 i with
  | error e => simp [hi] at hs
  | ok text =>
    simp only [hi, beq_iff_eq] at hs ht
    rw [← hs, ← ht]

theorem Attribute.not_isAnnotations_of_isNamed {pool : ConstantPool} {a : Attribute}
    {name : String} (h : a.isNamed pool name) (hvisible : name ≠ "RuntimeVisibleAnnotations")
    (hinvisible : name ≠ "RuntimeInvisibleAnnotations") : a.isAnnotations pool = false := by
  rw [Bool.eq_false_iff]
  intro ha
  obtain ha | ha := Bool.or_eq_true_iff.1 ha
  · exact hvisible (ConstantPool.hasText_unique h ha)
  · exact hinvisible (ConstantPool.hasText_unique h ha)

namespace Marked

/-- What reading an attribute says of it. -/
inductive Read (pool : ConstantPool) : Marked → Prop
  | plain {a : Attribute} (unmarked : a.isAnnotations pool = false) : Read pool ⟨a, none⟩
  | table {a : Attribute} {named : List (AnnotationEntry × String)}
    (marked : a.isAnnotations pool = true)
    (spelled : AnnotationEntry.readTable a.payload = .ok (named.map (·.1)))
    (resolved : ∀ e ∈ named, e.1.descriptor pool = .ok e.2) :
    Read pool ⟨a, some named⟩

theorem read_ok_iff {pool : ConstantPool} {a : Attribute} {m : Marked} :
    Marked.read pool a = .ok m ↔ m.source = a ∧ Read pool m := by
  unfold Marked.read
  cases ha : a.isAnnotations pool with
  | false =>
    constructor
    · intro h
      cases h
      exact ⟨rfl, .plain ha⟩
    · rintro ⟨rfl, hm⟩
      cases hm with
      | plain _ => rfl
      | table hmarked _ _ => cases hmarked.symm.trans ha
  | true =>
    rw [if_pos rfl, bind_ok_iff]
    constructor
    · rintro ⟨table, htable, h⟩
      obtain ⟨named, hnamed, h⟩ := bind_ok_iff.1 h
      cases h
      obtain ⟨rfl, hresolved⟩ := paired_ok_iff.1 hnamed
      exact ⟨rfl, .table ha htable hresolved⟩
    · rintro ⟨rfl, hm⟩
      cases hm with
      | plain hplain => cases hplain.symm.trans ha
      | table _ hspelled hresolved =>
        exact ⟨_, hspelled, bind_ok_iff.2 ⟨_, paired_ok_iff.2 ⟨rfl, hresolved⟩, rfl⟩⟩

variable {pool : ConstantPool} {drop : String → Bool} {m : Marked}

/-- The annotations that stay. -/
def kept (drop : String → Bool) (named : List (AnnotationEntry × String)) :
    List (AnnotationEntry × String) :=
  named.filter fun e => !drop e.2

/-- What becomes of an attribute: it stays, it goes, or it stays with fewer annotations. -/
inductive Stripped (drop : String → Bool) (m : Marked) : Option Attribute × Bool → Prop
  | whole (all : ∀ e ∈ m.entries, drop e.2 = false) : Stripped drop m (some m.source, false)
  | emptied (marked : m.table.isSome) (none : kept drop m.entries = [])
    (some : m.entries ≠ []) : Stripped drop m (.none, true)
  | thinned (marked : m.table.isSome) (some : kept drop m.entries ≠ [])
    (fewer : (kept drop m.entries).length < m.entries.length) :
    Stripped drop m (.some { m.source with
      payload := AnnotationEntry.tableBytes ((kept drop m.entries).map (·.1)) }, true)

theorem strip_stripped (drop : String → Bool) (m : Marked) : Stripped drop m (m.strip drop) := by
  obtain ⟨a, table⟩ := m
  cases table with
  | none => exact .whole (by simp [entries])
  | some named =>
    show Stripped drop ⟨a, some named⟩
      (if (kept drop named).length = named.length then (some a, false)
      else if (kept drop named).isEmpty then (none, true)
      else (some _, true))
    split
    · next h =>
      refine .whole fun e he => ?_
      have hall := List.length_filter_eq_length_iff.1 h e he
      simpa using hall
    · next h =>
      have hfewer : (kept drop named).length < named.length :=
        Nat.lt_of_le_of_ne (List.length_filter_le ..) h
      split
      · next hempty =>
        refine .emptied rfl (List.isEmpty_iff.1 hempty) fun hnil => h ?_
        have hnil : named = [] := hnil
        rw [hnil]
        rfl
      · next hempty => exact .thinned rfl (fun hnil => hempty (List.isEmpty_iff.2 hnil)) hfewer

/-- The table of a marked attribute. -/
theorem Read.payload (h : Read pool m) (hmarked : m.table.isSome) :
    m.source.payload = AnnotationEntry.tableBytes (m.entries.map (·.1)) ∧
      AnnotationEntry.TableFits (m.entries.map (·.1)) := by
  cases h with
  | plain _ => cases hmarked
  | table _ hspelled _ => exact AnnotationEntry.of_readTable hspelled

/-- A table that lost annotations is not even the front of what it was. -/
theorem Read.thinned_ne (h : Read pool m) (hmarked : m.table.isSome)
    {table : List AnnotationEntry} (hfewer : table.length < m.entries.length)
    (s t : List UInt8) : AnnotationEntry.tableBytes table ++ s ≠ m.source.payload ++ t := by
  obtain ⟨hpayload, hfits⟩ := h.payload hmarked
  have hcount := hfits.count
  rw [List.length_map] at hcount
  rw [hpayload]
  intro heq
  have := countedBytes_length_eq (by omega) hfits.count heq
  rw [List.length_map] at this
  omega

theorem Read.whole_of_source (h : Read pool m) (hs : (m.strip drop).1 = some m.source) :
    ∀ e ∈ m.entries, drop e.2 = false := by
  generalize hr : m.strip drop = r at hs
  have hstripped := strip_stripped drop m
  rw [hr] at hstripped
  cases hstripped with
  | whole hall => exact hall
  | emptied _ _ _ => cases hs
  | thinned hmarked _ hfewer =>
    have hpayload : AnnotationEntry.tableBytes ((kept drop m.entries).map (·.1)) =
        m.source.payload := congrArg Attribute.payload (Option.some.inj hs)
    have hlength : ((kept drop m.entries).map (·.1)).length < m.entries.length := by
      rwa [List.length_map]
    refine absurd ?_ (h.thinned_ne hmarked hlength [] [])
    rw [List.append_nil, List.append_nil, hpayload]

theorem strip_name {a : Attribute} (h : (m.strip drop).1 = some a) : a.name = m.source.name := by
  generalize hr : m.strip drop = r at h
  have hstripped := strip_stripped drop m
  rw [hr] at hstripped
  cases hstripped with
  | whole _ =>
    cases h
    rfl
  | emptied _ _ _ => cases h
  | thinned _ _ _ =>
    cases h
    rfl

theorem Read.strip_plain (h : m.Read pool) (hplain : m.source.isAnnotations pool = false) :
    (m.strip drop).1 = some m.source := by
  cases h with
  | plain _ => rfl
  | table hmarked _ _ => cases hmarked.symm.trans hplain

end Marked

theorem marks_ok_iff {pool : ConstantPool} {as : List Attribute} {ms : List Marked} :
    marks pool as = .ok ms ↔ as = ms.map Marked.source ∧ ∀ m ∈ ms, m.Read pool := by
  unfold marks
  rw [mapM_ok_iff]
  constructor
  · intro h
    induction h with
    | nil => exact ⟨rfl, by simp⟩
    | cons hm _ ih =>
      obtain ⟨rfl, hread⟩ := Marked.read_ok_iff.1 hm
      obtain ⟨rfl, hreads⟩ := ih
      exact ⟨rfl, by simpa [hread] using hreads⟩
  · rintro ⟨rfl, h⟩
    rw [List.forall₂_map_left_iff]
    exact List.forall₂_same.2 fun m hm => Marked.read_ok_iff.2 ⟨rfl, h m hm⟩

namespace Marked

variable {pool : ConstantPool} {drop : String → Bool} {ms : List Marked}

theorem stripAll_cons (drop : String → Bool) (m : Marked) (ms : List Marked) :
    (stripAll drop (m :: ms)).1 = (m.strip drop).1.toList ++ (stripAll drop ms).1 := rfl

theorem length_stripAll_le (drop : String → Bool) (ms : List Marked) :
    (stripAll drop ms).1.length ≤ ms.length := by
  induction ms with
  | nil => exact Nat.le_refl _
  | cons m ms ih =>
    rw [stripAll_cons, List.length_append, List.length_cons]
    have : (m.strip drop).1.toList.length ≤ 1 := by cases (m.strip drop).1 <;> simp
    omega

/-- If no attribute goes, each is there with what is left of it. -/
theorem forall₂_of_length (h : (stripAll drop ms).1.length = ms.length) :
    List.Forall₂ (fun m a => (m.strip drop).1 = some a) ms (stripAll drop ms).1 := by
  induction ms with
  | nil => exact .nil
  | cons m ms ih =>
    have hle := length_stripAll_le drop ms
    rw [stripAll_cons] at h ⊢
    cases hm : (m.strip drop).1 with
    | none =>
      rw [hm] at h
      simp at h
      omega
    | some a =>
      rw [hm] at h
      rw [List.length_append, Option.toList_some, List.length_singleton, List.length_cons] at h
      exact .cons hm (ih (by omega))

theorem mem_all {e : AnnotationEntry × String} :
    e ∈ all ms ↔ ∃ m ∈ ms, e ∈ m.entries := by
  simp [all]

/-- Attributes that stay as they were have lost no annotation. -/
theorem whole_of_stripAll (h : ∀ m ∈ ms, m.Read pool)
    (heq : (stripAll drop ms).1 = ms.map source) : ∀ e ∈ all ms, drop e.2 = false := by
  have hall := forall₂_of_length (by rw [heq, List.length_map])
  rw [heq, List.forall₂_map_right_iff, List.forall₂_same] at hall
  intro e he
  obtain ⟨m, hm, he⟩ := mem_all.1 he
  exact (h m hm).whole_of_source (hall m hm) e he

theorem strip_eq_of_unchanged {m : Marked} (h : (m.strip drop).2 = false) :
    (m.strip drop).1 = some m.source := by
  generalize hr : m.strip drop = r at h
  have hstripped := strip_stripped drop m
  rw [hr] at hstripped
  cases hstripped with
  | whole _ => rfl
  | emptied _ _ _ => cases h
  | thinned _ _ _ => cases h

/-- Attributes of which none is reported to have lost an annotation are what they were. -/
theorem stripAll_eq_of_unchanged (h : (stripAll drop ms).2 = false) :
    (stripAll drop ms).1 = ms.map source := by
  induction ms with
  | nil => rfl
  | cons m ms ih =>
    obtain ⟨hm, hms⟩ := Bool.or_eq_false_iff.1 h
    rw [stripAll_cons, strip_eq_of_unchanged hm, ih hms]
    rfl

/-- Attributes that are as they were, but for an edit of one that is no annotation table, have
lost no annotation. -/
theorem stripAll_eq_of_modify (h : ∀ m ∈ ms, m.Read pool) (position : Nat)
    (f : Attribute → Attribute)
    (hplain : ∀ a, (stripAll drop ms).1[position]? = some a → a.isAnnotations pool = false)
    (heq : ms.map source = (stripAll drop ms).1.modify position f) :
    (stripAll drop ms).1 = ms.map source := by
  have hlength : (stripAll drop ms).1.length = ms.length := by
    rw [← List.length_modify f _ position, ← heq, List.length_map]
  have hall := forall₂_of_length hlength
  refine List.ext_getElem (by rw [hlength, List.length_map]) fun i hi hi' => ?_
  have hm : i < ms.length := by omega
  have hstrip := hall.get hm hi
  simp only [List.get_eq_getElem] at hstrip
  rw [List.getElem_map]
  by_cases hp : position = i
  · subst hp
    have hno := hplain _ (List.getElem?_eq_getElem hi)
    have hsource : ms[position].source.isAnnotations pool = false := by
      unfold Attribute.isAnnotations Attribute.isNamed at hno ⊢
      rwa [← strip_name hstrip]
    have hplain : (ms[position].strip drop).1 = some ms[position].source :=
      (h _ (List.getElem_mem hm)).strip_plain hsource
    exact Option.some.inj (hstrip.symm.trans hplain)
  · have hget : (ms.map source)[i]? = ((stripAll drop ms).1.modify position f)[i]? := by rw [heq]
    rw [List.getElem?_modify, List.getElem?_eq_getElem hi', List.getElem_map,
      List.getElem?_eq_getElem hi] at hget
    simpa [hp] using hget.symm

end Marked

end JarPruning
