import JarPruning.ClassFile.Annotation
import JarPruning.Proofs.ClassFile.Format

/-!
Annotation tables and their bytes. The depth that reading has to follow is bounded by the length of
what it reads, so a table is read back from its bytes whatever it nests.
-/
namespace JarPruning

open Reader BigEndian

/-- A value whose counts fit their fields. -/
inductive ElementValue.Fits : ElementValue → Prop
  | const {tag : UInt8} {index : UInt16} (known : ElementValue.isConstTag tag) :
    Fits (.const tag index)
  | enum {typeName constName : UInt16} : Fits (.enum typeName constName)
  | classInfo {index : UInt16} : Fits (.classInfo index)
  | nested {a : AnnotationEntry} (count : a.elements.length < 256 ^ 2)
    (elements : ∀ e ∈ a.elements, Fits e.2) : Fits (.nested a)
  | array {items : List ElementValue} (count : items.length < 256 ^ 2)
    (each : ∀ v ∈ items, Fits v) : Fits (.array items)

structure AnnotationEntry.Fits (a : AnnotationEntry) : Prop where
  count : a.elements.length < 256 ^ 2
  elements : ∀ e ∈ a.elements, e.2.Fits

namespace ElementValue

def elementBytes (e : UInt16 × ElementValue) : List UInt8 := word16 e.1 ++ e.2.bytes

theorem elementsBytes_eq (es : List (UInt16 × ElementValue)) :
    elementsBytes es = es.flatMap elementBytes := by
  induction es with
  | nil => simp [elementsBytes]
  | cons e es ih => simp [elementsBytes, elementBytes, ih]

theorem itemsBytes_eq (items : List ElementValue) : itemsBytes items = items.flatMap bytes := by
  induction items with
  | nil => simp [itemsBytes]
  | cons v items ih => simp [itemsBytes, ih]

theorem bytes_pos (v : ElementValue) : 0 < v.bytes.length := by
  cases v <;> simp [bytes]

end ElementValue

theorem AnnotationEntry.bytes_eq (a : AnnotationEntry) :
    a.bytes = word16 a.typeIndex ++ countedBytes ElementValue.elementBytes a.elements := by
  obtain ⟨t, es⟩ := a
  simp [AnnotationEntry.bytes, countedBytes, ElementValue.elementsBytes_eq]

/-- What lies in a counted table is shorter than the table. -/
theorem length_le_countedBytes {α : Type} {f : α → List UInt8} {l : List α} {a : α}
    (h : a ∈ l) : (f a).length + 2 ≤ (countedBytes f l).length := by
  obtain ⟨l₁, l₂, rfl⟩ := List.append_of_mem h
  simp [countedBytes]
  omega

namespace AnnotationEntry

theorem readWith_reads {value : Reader ElementValue} {a : AnnotationEntry} (h : a.Fits)
    (hv : ∀ e ∈ a.elements, Reads value e.2.bytes e.2) :
    Reads (readWith value) a.bytes a := by
  obtain ⟨t, es⟩ := a
  rw [bytes_eq]
  have helement (e : UInt16 × ElementValue) (he : e ∈ es) :
      Reads (do let name ← Reader.word16; return (name, ← value)) (ElementValue.elementBytes e) e :=
    (word16_reads e.1).bind (hv e he).map
  exact (word16_reads t).bind (counted_reads helement h.count).map

theorem readWith_finds {value : Reader ElementValue}
    (hv : Finds value fun v front => front = v.bytes ∧ v.Fits) :
    Finds (readWith value) fun a front => front = a.bytes ∧ a.Fits := by
  have helement : Finds (do let name ← Reader.word16; return (name, ← value))
      fun e front => front = ElementValue.elementBytes e ∧ e.2.Fits := by
    refine word16_finds.bind fun name front hn => hv.bind fun v back h => Finds.pure ?_
    subst hn
    obtain ⟨rfl, hv⟩ := h
    exact ⟨by simp [ElementValue.elementBytes], hv⟩
  refine word16_finds.bind fun t front ht => (counted_finds helement).bind fun es back h =>
    Finds.pure ?_
  subst ht
  obtain ⟨rfl, hcount, hes⟩ := h
  exact ⟨by rw [bytes_eq, List.append_nil], hcount, hes⟩

end AnnotationEntry

namespace ElementValue

theorem read_reads {depth : Nat} {v : ElementValue} (h : v.Fits)
    (hdepth : v.bytes.length ≤ depth) : Reads (read depth) v.bytes v := by
  induction depth generalizing v with
  | zero =>
    have := v.bytes_pos
    omega
  | succ depth ih =>
    unfold read
    cases h with
    | @const tag index htag =>
      refine (word8_reads tag).bind ?_
      rw [if_pos htag]
      exact (word16_reads index).map
    | @enum typeName constName =>
      exact (word8_reads enumTag).bind ((word16_reads typeName).bind (word16_reads constName).map)
    | @classInfo index => exact (word8_reads classTag).bind (word16_reads index).map
    | @nested a hcount hes =>
      have hlength : a.bytes.length ≤ depth := by simpa [bytes] using hdepth
      have helements (e : UInt16 × ElementValue) (he : e ∈ a.elements) :
          Reads (read depth) e.2.bytes e.2 := by
        have hle := length_le_countedBytes (f := elementBytes) he
        rw [AnnotationEntry.bytes_eq, List.length_append] at hlength
        have helement : (elementBytes e).length = 2 + e.2.bytes.length := by simp [elementBytes]
        exact ih (hes e he) (by omega)
      exact (word8_reads annotationTag).bind
        (AnnotationEntry.readWith_reads ⟨hcount, hes⟩ helements).map
    | @array items hcount hitems =>
      have hbytes : (ElementValue.array items).bytes = [arrayTag] ++ countedBytes bytes items := by
        simp [bytes, itemsBytes_eq, countedBytes]
      rw [hbytes, List.length_append, List.length_singleton] at hdepth
      have heach (v : ElementValue) (hv : v ∈ items) : Reads (read depth) v.bytes v := by
        have hle := length_le_countedBytes (f := bytes) hv
        exact ih (hitems v hv) (by omega)
      rw [hbytes]
      exact (word8_reads arrayTag).bind (counted_reads heach hcount).map

theorem read_finds (depth : Nat) : Finds (read depth) fun v front => front = v.bytes ∧ v.Fits := by
  induction depth with
  | zero => exact Finds.fail
  | succ depth ih =>
    unfold read
    refine word8_finds.bind fun tag front ht => ?_
    subst ht
    show Finds _ fun (v : ElementValue) back => tag :: back = v.bytes ∧ v.Fits
    split
    · next htag =>
      refine word16_finds.bind fun index back hi => Finds.pure ?_
      subst hi
      exact ⟨by simp [bytes], .const htag⟩
    split
    · next htag =>
      subst htag
      refine word16_finds.bind fun typeName f₁ h₁ => word16_finds.bind fun constName f₂ h₂ =>
        Finds.pure ?_
      subst h₁ h₂
      exact ⟨by simp [bytes], .enum⟩
    split
    · next htag =>
      subst htag
      refine word16_finds.bind fun index back hi => Finds.pure ?_
      subst hi
      exact ⟨by simp [bytes], .classInfo⟩
    split
    · next htag =>
      subst htag
      refine (AnnotationEntry.readWith_finds ih).bind fun a back h => Finds.pure ?_
      obtain ⟨rfl, ha⟩ := h
      exact ⟨by simp [bytes], .nested ha.count ha.elements⟩
    split
    · next htag =>
      subst htag
      refine (counted_finds ih).bind fun items back h => Finds.pure ?_
      obtain ⟨rfl, hcount, hitems⟩ := h
      exact ⟨by simp [bytes, itemsBytes_eq, countedBytes], .array hcount hitems⟩
    · exact Finds.fail

end ElementValue

namespace AnnotationEntry

/-- A table whose counts fit their fields. -/
structure TableFits (table : List AnnotationEntry) : Prop where
  count : table.length < 256 ^ 2
  entries : ∀ a ∈ table, a.Fits

/-- A table fits with one of its annotations replaced. -/
theorem TableFits.replace {before after : List AnnotationEntry} {old new : AnnotationEntry}
    (h : TableFits (before ++ old :: after)) (hnew : new.Fits) :
    TableFits (before ++ new :: after) where
  count := by simpa using h.count
  entries a ha := by
    obtain ha | ha := List.mem_append.1 ha
    · exact h.entries a (List.mem_append_left _ ha)
    obtain rfl | ha := List.mem_cons.1 ha
    · exact hnew
    · exact h.entries a (List.mem_append_right _ (List.mem_cons_of_mem _ ha))

theorem readTable_tableBytes {table : List AnnotationEntry} (h : TableFits table) :
    readTable (tableBytes table) = .ok table := by
  refine Reads.whole (counted_reads (fun a ha => ?_) h.count) _
  refine readWith_reads (h.entries a ha) fun e he => ?_
  have htable := length_le_countedBytes (f := bytes) ha
  have hentry := length_le_countedBytes (f := ElementValue.elementBytes) he
  rw [bytes_eq, List.length_append] at htable
  have helement : (ElementValue.elementBytes e).length = 2 + e.2.bytes.length := by
    simp [ElementValue.elementBytes]
  exact ElementValue.read_reads ((h.entries a ha).elements e he)
    (by unfold tableBytes; omega)

theorem of_readTable {payload : List UInt8} {table : List AnnotationEntry}
    (h : readTable payload = .ok table) : payload = tableBytes table ∧ TableFits table := by
  obtain ⟨hpayload, hcount, hentries⟩ :=
    Finds.whole (counted_finds (readWith_finds (ElementValue.read_finds _))) h
  exact ⟨hpayload, hcount, hentries⟩

end AnnotationEntry

end JarPruning
