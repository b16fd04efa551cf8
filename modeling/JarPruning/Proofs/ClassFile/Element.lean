import JarPruning.Proofs.ClassFile.Annotation
import JarPruning.Proofs.ClassFile.Growth

/-!
Elements of annotations by name. A text that is added to a pool is found there, and an element that
is set stands where the one of its name stood.
-/
namespace JarPruning

namespace ConstantPool

/-- An index that an addition answers resolves to the text that was added. -/
theorem addUtf8_finds {text : String} {p q : ConstantPool} {i : UInt16}
    (hsize : p.entries.size < 256 ^ 2) (h : (addUtf8 text).run p = .ok i q) :
    q.utf8 i = .ok text := by
  have houtcome := Request.addUtf8_builds text (Nat.le_of_lt_succ hsize) trivial
  rw [h] at houtcome
  exact houtcome.2

/-- A text that no constant has is added behind the others. -/
theorem addUtf8_new {text : String} {p : ConstantPool}
    (hnew : ∀ c ∈ p.entries, isText text p c = false) (hroom : p.entries.size < capacity) :
    (addUtf8 text).run p =
      .ok (UInt16.ofNat p.entries.size) ⟨p.entries.push (.ofText text)⟩ := by
  have hget : (get : Extension ConstantPool).run p = .ok p p := rfl
  have hnone : p.find? (isText text p) = none := by
    rw [find?, Option.map_eq_none_iff, Array.findIdx?_eq_none_iff]
    exact hnew
  unfold addUtf8 findOr
  rw [EStateM.run_bind, hget]
  simp only [hnone]
  exact if_neg (Nat.not_le.2 hroom)

end ConstantPool

open ConstantPool (Grows FitsText)
open BigEndian

/-- Constants of strings. -/
def ElementValue.strings (indices : List UInt16) : List ElementValue :=
  indices.map (.const stringTag)

theorem ElementValue.mapM_addUtf8_ok {texts : List String} {p q : ConstantPool}
    {items : List ElementValue} (hp : p.Fits) (hfit : ∀ s ∈ texts, FitsText s)
    (h : (texts.mapM fun s => do return const stringTag (← ConstantPool.addUtf8 s)).run p =
      .ok items q) :
    Grows p q ∧ ∃ indices, items = strings indices ∧
      List.Forall₂ (fun s i => q.utf8 i = .ok s) texts indices := by
  induction texts generalizing p items with
  | nil =>
    cases h
    exact ⟨.refl _, [], rfl, .nil⟩
  | cons s texts ih =>
    rw [List.mapM_cons] at h
    obtain ⟨item, r, hitem, h⟩ := run_bind_ok h
    obtain ⟨rest, r', hrest, h⟩ := run_bind_ok h
    cases h
    obtain ⟨i, r', hi, hitem⟩ := run_bind_ok hitem
    cases hitem
    have hgrows : Grows p r := ConstantPool.addUtf8_adds (hfit s (List.mem_cons_self ..)) hi
    obtain ⟨hgrows', indices, rfl, hindices⟩ := ih (hgrows.fits hp)
      (fun s hs => hfit s (List.mem_cons_of_mem _ hs)) hrest
    have hfound := hgrows'.utf8 i _ (ConstantPool.addUtf8_finds hp.size hi)
    exact ⟨hgrows.trans hgrows', i :: indices, rfl, .cons hfound hindices⟩

theorem ElementValue.ofStrings_ok {texts : List String} {p q : ConstantPool} {v : ElementValue}
    (hp : p.Fits) (hfit : ∀ s ∈ texts, FitsText s) (h : (ofStrings texts).run p = .ok v q) :
    Grows p q ∧ ∃ indices, v = .array (strings indices) ∧
      List.Forall₂ (fun s i => q.utf8 i = .ok s) texts indices := by
  obtain ⟨items, q', hitems, h⟩ := run_bind_ok h
  cases h
  obtain ⟨hgrows, indices, rfl, hindices⟩ := mapM_addUtf8_ok hp hfit hitems
  exact ⟨hgrows, indices, rfl, hindices⟩

/-- Texts that no constant has, no two the same, stand behind the others in their order. -/
theorem ElementValue.ofStrings_new {texts : List String} {p : ConstantPool}
    (hnew : ∀ s ∈ texts, ∀ c ∈ p.entries, ConstantPool.isText s p c = false)
    (hdistinct : texts.Nodup) (hroom : p.entries.size + texts.length ≤ ConstantPool.capacity) :
    (ofStrings texts).run p =
      .ok (.array (strings ((List.range' p.entries.size texts.length).map UInt16.ofNat)))
        ⟨p.entries ++ (texts.map Constant.ofText).toArray⟩ := by
  have hitems : (texts.mapM fun s => do return const stringTag (← ConstantPool.addUtf8 s)).run p =
      .ok (strings ((List.range' p.entries.size texts.length).map UInt16.ofNat))
        ⟨p.entries ++ (texts.map Constant.ofText).toArray⟩ := by
    induction texts generalizing p with
    | nil => simp [strings, EStateM.run, pure, EStateM.pure]
    | cons s texts ih =>
      obtain ⟨hs, hdistinct⟩ := List.nodup_cons.1 hdistinct
      rw [List.length_cons] at hroom
      have hfirst := ConstantPool.addUtf8_new (hnew s (List.mem_cons_self ..)) (by omega)
      have hrest := ih (p := ⟨p.entries.push (.ofText s)⟩) (fun t ht c hc => by
        obtain hc | rfl := Array.mem_push.1 hc
        · exact hnew t (List.mem_cons_of_mem _ ht) c hc
        · exact beq_false_of_ne fun h => hs (h ▸ ht)) hdistinct (by rw [Array.size_push]; omega)
      rw [List.mapM_cons, EStateM.run_bind, EStateM.run_bind, hfirst]
      dsimp only [EStateM.run_pure]
      rw [EStateM.run_bind, hrest]
      simp [strings, List.range'_succ, EStateM.run, pure, EStateM.pure]
  unfold ofStrings
  rw [EStateM.run_bind, hitems]
  rfl

namespace AnnotationEntry

/-- The first element of a name, and what stands around it. -/
structure Located (pool : ConstantPool) (name : String) (es pre : List (UInt16 × ElementValue))
    (i : UInt16) (value : ElementValue) (post : List (UInt16 × ElementValue)) : Prop where
  split : es = pre ++ (i, value) :: post
  named : pool.utf8 i = .ok name
  first : ∀ e ∈ pre, ∃ text, pool.utf8 e.1 = .ok text ∧ text ≠ name

variable {p q : ConstantPool} {name : String} {es pre post : List (UInt16 × ElementValue)}
  {i : UInt16} {value : ElementValue}

theorem Located.grow (h : Located p name es pre i value post) (hgrows : Grows p q) :
    Located q name es pre i value post where
  split := h.split
  named := hgrows.utf8 _ _ h.named
  first e he := by
    obtain ⟨text, htext, hne⟩ := h.first e he
    exact ⟨text, hgrows.utf8 _ _ htext, hne⟩

theorem Located.cons (h : Located p name es pre i value post) {j : UInt16} {text : String}
    (htext : p.utf8 j = .ok text) (hne : text ≠ name) (v : ElementValue) :
    Located p name ((j, v) :: es) ((j, v) :: pre) i value post where
  split := by rw [h.split, List.cons_append]
  named := h.named
  first e he := by
    obtain rfl | he := List.mem_cons.1 he
    · exact ⟨text, htext, hne⟩
    · exact h.first e he

theorem lookup_some (h : lookup p name es = .ok (some value)) :
    ∃ pre i post, Located p name es pre i value post := by
  induction es with
  | nil => cases h
  | cons e es ih =>
    obtain ⟨j, v⟩ := e
    rw [lookup] at h
    obtain ⟨text, htext, h⟩ := bind_ok_iff.1 h
    split at h
    · next hname =>
      cases h
      exact ⟨[], j, es, rfl, hname ▸ htext, by simp⟩
    · next hne =>
      obtain ⟨pre, i, post, hes⟩ := ih h
      exact ⟨(j, v) :: pre, i, post, hes.cons htext hne v⟩

theorem Located.replace (h : Located p name es pre i value post) (new : ElementValue) :
    replaceElement? p name new es = .ok (some (pre ++ (i, new) :: post)) := by
  obtain ⟨rfl, hnamed, hfirst⟩ := h
  induction pre with
  | nil => simp [replaceElement?, hnamed, bind, Except.bind, pure, Except.pure]
  | cons e pre ih =>
    obtain ⟨text, htext, hne⟩ := hfirst e (List.mem_cons_self ..)
    obtain ⟨j, v⟩ := e
    have hrest := ih fun e he => hfirst e (List.mem_cons_of_mem _ he)
    simp only [List.cons_append, replaceElement?, htext, bind, Except.bind, if_neg hne, hrest,
      pure, Except.pure, Option.map_some]

theorem Located.lookup (h : Located p name es pre i value post) :
    lookup p name es = .ok (some value) := by
  obtain ⟨rfl, hnamed, hfirst⟩ := h
  induction pre with
  | nil => simp [AnnotationEntry.lookup, hnamed, bind, Except.bind, pure, Except.pure]
  | cons e pre ih =>
    obtain ⟨text, htext, hne⟩ := hfirst e (List.mem_cons_self ..)
    obtain ⟨j, v⟩ := e
    have hrest := ih fun e he => hfirst e (List.mem_cons_of_mem _ he)
    simp only [List.cons_append, AnnotationEntry.lookup, htext, bind, Except.bind, if_neg hne, hrest]

/-- Strings are read from an array of constants. -/
theorem stringItems_ok {items : List ElementValue} {texts : List String}
    (h : items.mapM (stringItem p name) = .ok texts) :
    ∃ indices, items = ElementValue.strings indices ∧
      List.Forall₂ (fun s i => p.utf8 i = .ok s) texts indices := by
  have hitems := mapM_ok_iff.1 h
  clear h
  induction hitems with
  | nil => exact ⟨[], rfl, .nil⟩
  | @cons item text items texts hitem _ ih =>
    obtain ⟨indices, rfl, hindices⟩ := ih
    cases item with
    | const tag i =>
      rw [stringItem] at hitem
      split at hitem
      · next htag =>
        subst htag
        exact ⟨i :: indices, rfl, .cons hitem hindices⟩
      · cases hitem
    | _ => cases hitem

theorem stringsElement_some {a : AnnotationEntry} {texts : List String}
    (h : a.stringsElement? p name = .ok (some texts)) :
    ∃ pre i indices post, Located p name a.elements pre i (.array (ElementValue.strings indices)) post ∧
      List.Forall₂ (fun s i => p.utf8 i = .ok s) texts indices := by
  obtain ⟨value?, hvalue, h⟩ := bind_ok_iff.1 h
  cases value? with
  | none => cases h
  | some value =>
    obtain ⟨pre, i, post, hes⟩ := lookup_some hvalue
    cases value with
    | array items =>
      obtain ⟨texts', htexts, h⟩ := bind_ok_iff.1 h
      cases h
      obtain ⟨indices, rfl, hindices⟩ := stringItems_ok htexts
      exact ⟨pre, i, indices, post, hes, hindices⟩
    | _ => cases h

/-- A table whose one array of strings starts like that of another starts with its strings. -/
theorem strings_prefix {is js : List UInt16} {s u : List UInt8} (hle : is.length ≤ js.length)
    (h : (ElementValue.strings js).flatMap ElementValue.bytes ++ s =
      (ElementValue.strings is).flatMap ElementValue.bytes ++ u) : is <+: js := by
  induction is generalizing js with
  | nil => exact List.nil_prefix
  | cons i is ih =>
    cases js with
    | nil => simp at hle
    | cons j js =>
      have hbytes (k : UInt16) (ks : List UInt16) :
          (ElementValue.strings (k :: ks)).flatMap ElementValue.bytes =
            (ElementValue.stringTag :: word16 k) ++
              (ElementValue.strings ks).flatMap ElementValue.bytes := by
        simp [ElementValue.strings, ElementValue.bytes]
      rw [hbytes, hbytes, List.append_assoc, List.append_assoc] at h
      obtain ⟨hhead, htail⟩ := List.append_inj h (by simp)
      obtain rfl := word16_injective (List.cons.inj hhead).2
      exact List.cons_prefix_cons.2 ⟨rfl, ih (by simpa using hle) htail⟩

/-- The annotation with another array of strings under one of its names. -/
def withStrings (a : AnnotationEntry) (pre : List (UInt16 × ElementValue)) (i : UInt16)
    (indices : List UInt16) (post : List (UInt16 × ElementValue)) : AnnotationEntry :=
  { a with elements := pre ++ (i, .array (ElementValue.strings indices)) :: post }

theorem bytes_withStrings (a : AnnotationEntry) (pre : List (UInt16 × ElementValue)) (i : UInt16)
    (indices : List UInt16) (post : List (UInt16 × ElementValue)) :
    (a.withStrings pre i indices post).bytes =
      word16 a.typeIndex ++ digits 2 (pre.length + (post.length + 1)) ++
        pre.flatMap ElementValue.elementBytes ++ word16 i ++ [ElementValue.arrayTag] ++
        digits 2 indices.length ++ (ElementValue.strings indices).flatMap ElementValue.bytes ++
        post.flatMap ElementValue.elementBytes := by
  simp [withStrings, bytes_eq, countedBytes, ElementValue.elementBytes, ElementValue.bytes,
    ElementValue.itemsBytes_eq, ElementValue.strings]

/-- Every string takes three bytes of an annotation. -/
theorem length_withStrings (a : AnnotationEntry) (pre : List (UInt16 × ElementValue)) (i : UInt16)
    (indices : List UInt16) (post : List (UInt16 × ElementValue)) :
    (a.withStrings pre i indices post).bytes.length =
      (a.withStrings pre i [] post).bytes.length + 3 * indices.length := by
  have hstrings : ((ElementValue.strings indices).flatMap ElementValue.bytes).length =
      3 * indices.length := by
    simp [ElementValue.strings, ElementValue.bytes, List.length_flatMap, Function.comp_def,
      Nat.mul_comm]
  have hnone : ((ElementValue.strings []).flatMap ElementValue.bytes).length = 0 := rfl
  simp only [bytes_withStrings, List.length_append, length_digits, hstrings, hnone]
  omega

/-- A table that starts like another, but for one array of strings, starts with its strings. -/
theorem withStrings_front {a : AnnotationEntry} {before after : List AnnotationEntry}
    {pre post : List (UInt16 × ElementValue)} {i : UInt16} {is js : List UInt16}
    {s u : List UInt8} (his : is.length < 256 ^ 2)
    (h : tableBytes (before ++ a.withStrings pre i js post :: after) ++ s =
      tableBytes (before ++ a.withStrings pre i is post :: after) ++ u) : is <+: js := by
  unfold tableBytes countedBytes at h
  simp only [List.length_append, List.length_cons, List.flatMap_append, List.flatMap_cons,
    bytes_withStrings, List.append_assoc, List.append_cancel_left_eq] at h
  obtain ⟨hcount, h⟩ := List.append_inj h (by simp)
  rw [digits_eq_iff, Nat.mod_eq_of_lt his] at hcount
  exact strings_prefix (hcount ▸ Nat.mod_le ..) h

end AnnotationEntry

end JarPruning
