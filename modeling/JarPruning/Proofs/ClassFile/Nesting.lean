import JarPruning.Proofs.ClassFile.Annotation

/-!
Annotation tables told without the reader. What a table may hold is said of every value that occurs
in it, however deep; reading finds exactly the tables of that kind, each from its own bytes.
-/
namespace JarPruning

namespace ElementValue

/-- The values that stand directly in a value. -/
def parts : ElementValue → List ElementValue
  | .nested a => a.elements.map (·.2)
  | .array items => items
  | .const _ _ | .enum _ _ | .classInfo _ => []

/-- A value occurs in a value: as that value, or in a part of it. -/
inductive Occurs (v : ElementValue) : ElementValue → Prop
  | here : Occurs v v
  | part {u w : ElementValue} (member : u ∈ w.parts) (inside : Occurs v u) : Occurs v w

/-- The tag of a constant is one of nine letters, and the parts of a value can be counted in two
bytes. -/
structure Sound (v : ElementValue) : Prop where
  tag : ∀ tag index, v = .const tag index → ∃ c ∈ "BCDFIJSZs".toList, tag.toNat = c.toNat
  count : v.parts.length ≤ 65535

theorem isConstTag_iff {tag : UInt8} :
    isConstTag tag = true ↔ ∃ c ∈ "BCDFIJSZs".toList, tag.toNat = c.toNat := by
  have hletters : "BCDFIJSZs".toList = ['B', 'C', 'D', 'F', 'I', 'J', 'S', 'Z', 's'] := by decide
  rw [hletters]
  simp [isConstTag, ← UInt8.toNat_inj]

/-- The parts of a value are written within its bytes. -/
theorem length_bytes_lt {u w : ElementValue} (h : u ∈ w.parts) :
    u.bytes.length < w.bytes.length := by
  cases w with
  | nested a =>
    obtain ⟨e, he, rfl⟩ := List.mem_map.1 h
    have hle := length_le_countedBytes (f := elementBytes) he
    simp only [bytes, AnnotationEntry.bytes_eq, List.length_cons, List.length_append]
    simp only [elementBytes, List.length_append] at hle
    omega
  | array items =>
    have hle := length_le_countedBytes (f := bytes) (l := items) h
    simp only [countedBytes, List.length_append] at hle
    simp only [bytes, itemsBytes_eq, List.length_cons, List.length_append]
    omega
  | _ => cases h

theorem Fits.parts {u w : ElementValue} (h : w.Fits) (hu : u ∈ w.parts) : u.Fits := by
  cases h with
  | nested count elements =>
    obtain ⟨e, he, rfl⟩ := List.mem_map.1 hu
    exact elements e he
  | array count each => exact each u hu
  | _ => cases hu

theorem Fits.sound {v : ElementValue} (h : v.Fits) : v.Sound := by
  cases h with
  | const known =>
    refine ⟨fun tag index heq => ?_, Nat.zero_le _⟩
    cases heq
    exact isConstTag_iff.1 known
  | nested count elements =>
    refine ⟨fun tag index heq => (by cases heq), ?_⟩
    rw [ElementValue.parts, List.length_map]
    exact Nat.le_of_lt_succ count
  | array count each => exact ⟨fun tag index heq => (by cases heq), Nat.le_of_lt_succ count⟩
  | _ => exact ⟨fun tag index heq => (by cases heq), Nat.zero_le _⟩

/-- A value that is sound fits if its parts fit. -/
theorem Sound.fits {v : ElementValue} (h : v.Sound) (hparts : ∀ u ∈ v.parts, u.Fits) : v.Fits := by
  cases v with
  | const tag index => exact .const (isConstTag_iff.2 (h.tag tag index rfl))
  | enum typeName constName => exact .enum
  | classInfo index => exact .classInfo
  | nested a =>
    have hcount := h.count
    rw [ElementValue.parts, List.length_map] at hcount
    exact .nested (Nat.lt_succ_of_le hcount) fun e he => hparts e.2 (List.mem_map_of_mem he)
  | array items => exact .array (Nat.lt_succ_of_le h.count) hparts

/-- A value fits if all that occurs in it is sound. -/
theorem fits_iff {v : ElementValue} : v.Fits ↔ ∀ u, Occurs u v → u.Sound := by
  constructor
  · intro h u hu
    induction hu with
    | here => exact h.sound
    | part member _ ih => exact ih (h.parts member)
  · intro h
    induction hn : v.bytes.length using Nat.strongRecOn generalizing v with
    | ind n ih =>
      refine (h v .here).fits fun u hu => ?_
      exact ih u.bytes.length (hn ▸ length_bytes_lt hu) (fun w hw => h w (.part hu hw)) rfl

end ElementValue

namespace AnnotationEntry

open ElementValue (Occurs Sound)

/-- A table that a class file can hold. -/
structure TableSound (table : List AnnotationEntry) : Prop where
  count : table.length ≤ 65535
  elements : ∀ a ∈ table, a.elements.length ≤ 65535
  values : ∀ a ∈ table, ∀ e ∈ a.elements, ∀ v, Occurs v e.2 → v.Sound

theorem tableFits_iff {table : List AnnotationEntry} : TableFits table ↔ TableSound table := by
  constructor
  · intro h
    exact ⟨Nat.le_of_lt_succ h.count, fun a ha => Nat.le_of_lt_succ (h.entries a ha).count,
      fun a ha e he => ElementValue.fits_iff.1 ((h.entries a ha).elements e he)⟩
  · intro h
    exact ⟨Nat.lt_succ_of_le h.count, fun a ha => ⟨Nat.lt_succ_of_le (h.elements a ha),
      fun e he => ElementValue.fits_iff.2 (h.values a ha e he)⟩⟩

/-- Reading a table undoes writing it, and writing undoes reading. -/
theorem readTable_eq_ok_iff {payload : List UInt8} {table : List AnnotationEntry} :
    readTable payload = .ok table ↔ TableSound table ∧ tableBytes table = payload := by
  constructor
  · intro h
    obtain ⟨rfl, hfits⟩ := of_readTable h
    exact ⟨tableFits_iff.1 hfits, rfl⟩
  · rintro ⟨hsound, rfl⟩
    exact readTable_tableBytes (tableFits_iff.2 hsound)

end AnnotationEntry

end JarPruning
