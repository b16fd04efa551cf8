import JarPruning.Proofs.ClassFile.Reading
import JarPruning.Proofs.Text.ModifiedUtf8

/-!
Class files and their bytes. Reading finds nothing but the bytes of what it answers, and reads the
bytes of a class file as that class file if every count and length fits its field.
-/
namespace JarPruning

open Reader

/-! Attributes and members. -/

def Attribute.Fits (a : Attribute) : Prop := a.payload.length < 256 ^ 4

theorem Attribute.read_reads {a : Attribute} (h : a.Fits) : Reads Attribute.read a.bytes a := by
  have hread := (word16_reads a.name).bind (f := fun name => do
      let payload ← Reader.take (← Reader.number 4)
      return (⟨name, payload⟩ : Attribute))
    ((number_reads h).bind (take_reads a.payload).map)
  unfold Attribute.bytes
  rwa [List.append_assoc]

theorem Attribute.read_finds :
    Finds Attribute.read fun a front => front = a.bytes ∧ a.Fits := by
  refine word16_finds.bind fun name front hname => (number_finds 4).bind fun n back hn =>
    (take_finds n).bind fun payload rest hp => Finds.pure ?_
  obtain rfl := hname
  obtain ⟨rfl, hn⟩ := hn
  obtain ⟨rfl, rfl⟩ := hp
  exact ⟨by simp [Attribute.bytes], hn⟩

structure MemberEntry.Fits (m : MemberEntry) : Prop where
  count : m.attributes.length < 256 ^ 2
  attributes : ∀ a ∈ m.attributes, a.Fits

theorem MemberEntry.read_reads {m : MemberEntry} (h : m.Fits) :
    Reads MemberEntry.read m.bytes m := by
  have hattributes := counted_reads (fun a ha => Attribute.read_reads (h.attributes a ha)) h.count
  have hread := (word16_reads m.access).bind (f := fun access => do
      let name ← Reader.word16
      let descriptor ← Reader.word16
      let attributes ← Reader.counted Attribute.read
      return (⟨access, name, descriptor, attributes⟩ : MemberEntry))
    ((word16_reads m.name).bind ((word16_reads m.descriptor).bind hattributes.map))
  unfold MemberEntry.bytes
  rwa [List.append_assoc, List.append_assoc]

theorem MemberEntry.read_finds :
    Finds MemberEntry.read fun m front => front = m.bytes ∧ m.Fits := by
  refine word16_finds.bind fun access f₁ h₁ => word16_finds.bind fun name f₂ h₂ =>
    word16_finds.bind fun descriptor f₃ h₃ =>
    (counted_finds Attribute.read_finds).bind fun attributes f₄ h₄ => Finds.pure ?_
  obtain rfl := h₁
  obtain rfl := h₂
  obtain rfl := h₃
  obtain ⟨rfl, hcount, hattributes⟩ := h₄
  exact ⟨by simp [MemberEntry.bytes], hcount, hattributes⟩

/-! Constants. -/

/-- Whether a constant stands for its bytes: a text has to be what they decode to. -/
def Constant.IsSpelled : Constant → Prop
  | .unusable => False
  | .utf8 text bytes => bytes.length < 256 ^ 2 ∧ ModifiedUtf8.decode bytes = .ok text
  | _ => True

theorem Reader.Reads.offset {β : Type} {f : Nat → Reader β} {bytes : List UInt8} {b : β}
    (h : ∀ n, Reads (f n) bytes b) : Reads (Reader.offset >>= f) bytes b :=
  fun rest offset => h offset rest offset

theorem Reader.Finds.offset {β : Type} {f : Nat → Reader β} {p : β → List UInt8 → Prop}
    (h : ∀ n, Finds (f n) p) : Finds (Reader.offset >>= f) p :=
  fun c _ _ hr => h c.offset hr

namespace Constant

theorem readText_reads {text : String} {bytes : List UInt8} (hl : bytes.length < 256 ^ 2)
    (h : ModifiedUtf8.decode bytes = .ok text) (start : Nat) :
    Reads (readText start) (BigEndian.digits 2 bytes.length ++ bytes) (.utf8 text bytes) := by
  refine (number_reads hl).bind ((take_reads bytes).ends ?_)
  rw [h]
  exact Reads.pure _

theorem readText_finds (start : Nat) :
    Finds (readText start) fun c front => ∃ text bytes, c = .utf8 text bytes ∧
      front = BigEndian.digits 2 bytes.length ++ bytes ∧ c.IsSpelled := by
  refine (number_finds 2).bind fun n front hn => (take_finds n).bind fun bytes back hb => ?_
  obtain ⟨rfl, hn⟩ := hn
  obtain ⟨rfl, rfl⟩ := hb
  cases hd : ModifiedUtf8.decode back with
  | error fault => exact Finds.throw
  | ok text => exact Finds.pure ⟨text, back, rfl, by simp, hn, hd⟩

theorem read_reads {c : Constant} (h : c.IsSpelled) : Reads read c.bytes c := by
  unfold read
  refine Reads.offset fun start => ?_
  cases c with
  | unusable => exact h.elim
  | utf8 text bytes => exact (word8_reads 1).bind (readText_reads h.1 h.2 start)
  | integer value => exact (word8_reads 3).bind (word32_reads value.toUInt32).map
  | float bits => exact (word8_reads 4).bind (word32_reads bits).map
  | long value => exact (word8_reads 5).bind (word64_reads value.toUInt64).map
  | double bits => exact (word8_reads 6).bind (word64_reads bits).map
  | classInfo name => exact (word8_reads 7).bind (word16_reads name).map
  | string text => exact (word8_reads 8).bind (word16_reads text).map
  | fieldRef owner nt =>
    exact (word8_reads 9).bind ((word16_reads owner).bind (word16_reads nt).map)
  | methodRef owner nt =>
    exact (word8_reads 10).bind ((word16_reads owner).bind (word16_reads nt).map)
  | interfaceMethodRef owner nt =>
    exact (word8_reads 11).bind ((word16_reads owner).bind (word16_reads nt).map)
  | nameAndType name descriptor =>
    exact (word8_reads 12).bind ((word16_reads name).bind (word16_reads descriptor).map)
  | methodHandle kind reference =>
    exact (word8_reads 15).bind ((word8_reads kind).bind (word16_reads reference).map)
  | methodType descriptor => exact (word8_reads 16).bind (word16_reads descriptor).map
  | dynamic bootstrap nt =>
    exact (word8_reads 17).bind ((word16_reads bootstrap).bind (word16_reads nt).map)
  | invokeDynamic bootstrap nt =>
    exact (word8_reads 18).bind ((word16_reads bootstrap).bind (word16_reads nt).map)
  | module name => exact (word8_reads 19).bind (word16_reads name).map
  | package name => exact (word8_reads 20).bind (word16_reads name).map

theorem one_finds {α : Type} {r : Reader α} {f : α → List UInt8} (k : α → Constant)
    (tag : UInt8) (h : Finds r fun a front => front = f a)
    (hk : ∀ a, (k a).bytes = tag :: f a) (hs : ∀ a, (k a).IsSpelled) :
    Finds (do return k (← r)) fun c back => tag :: back = c.bytes ∧ c.IsSpelled := by
  refine h.bind fun a front ha => Finds.pure ?_
  subst ha
  exact ⟨by rw [hk, List.append_nil], hs a⟩

theorem two_finds {α β : Type} {r : Reader α} {r' : Reader β} {f : α → List UInt8}
    {f' : β → List UInt8} (k : α → β → Constant) (tag : UInt8)
    (h : Finds r fun a front => front = f a) (h' : Finds r' fun b front => front = f' b)
    (hk : ∀ a b, (k a b).bytes = tag :: (f a ++ f' b)) (hs : ∀ a b, (k a b).IsSpelled) :
    Finds (do return k (← r) (← r')) fun c back => tag :: back = c.bytes ∧ c.IsSpelled := by
  refine h.bind fun a front ha => h'.bind fun b back hb => Finds.pure ?_
  subst ha hb
  exact ⟨by rw [hk, List.append_nil], hs a b⟩

theorem read_finds : Finds read fun c front => front = c.bytes ∧ c.IsSpelled := by
  unfold read
  refine Finds.offset fun start => word8_finds.bind fun tag front h => ?_
  subst h
  show Finds _ fun (c : Constant) back => tag :: back = c.bytes ∧ c.IsSpelled
  split
  · refine (readText_finds start).mono fun c back h => ?_
    obtain ⟨text, bytes, rfl, rfl, hs⟩ := h
    exact ⟨rfl, hs⟩
  · exact one_finds (fun w => .integer w.toInt32) 3 word32_finds (fun _ => by simp [bytes])
      fun _ => trivial
  · exact one_finds .float 4 word32_finds (fun _ => rfl) fun _ => trivial
  · exact one_finds (fun w => .long w.toInt64) 5 word64_finds (fun _ => by simp [bytes])
      fun _ => trivial
  · exact one_finds .double 6 word64_finds (fun _ => rfl) fun _ => trivial
  · exact one_finds .classInfo 7 word16_finds (fun _ => rfl) fun _ => trivial
  · exact one_finds .string 8 word16_finds (fun _ => rfl) fun _ => trivial
  · exact two_finds .fieldRef 9 word16_finds word16_finds (fun _ _ => rfl) fun _ _ => trivial
  · exact two_finds .methodRef 10 word16_finds word16_finds (fun _ _ => rfl) fun _ _ => trivial
  · exact two_finds .interfaceMethodRef 11 word16_finds word16_finds (fun _ _ => rfl)
      fun _ _ => trivial
  · exact two_finds .nameAndType 12 word16_finds word16_finds (fun _ _ => rfl)
      fun _ _ => trivial
  · exact two_finds .methodHandle 15 word8_finds word16_finds (fun _ _ => rfl)
      fun _ _ => trivial
  · exact one_finds .methodType 16 word16_finds (fun _ => rfl) fun _ => trivial
  · exact two_finds .dynamic 17 word16_finds word16_finds (fun _ _ => rfl) fun _ _ => trivial
  · exact two_finds .invokeDynamic 18 word16_finds word16_finds (fun _ _ => rfl)
      fun _ _ => trivial
  · exact one_finds .module 19 word16_finds (fun _ => rfl) fun _ => trivial
  · exact one_finds .package 20 word16_finds (fun _ => rfl) fun _ => trivial
  · exact Finds.throw

end Constant

/-! Constant pools. -/

namespace ConstantPool

/-- Constants as they fill slots: a wide one is followed by an unusable slot. -/
inductive Slots : List Constant → Prop
  | nil : Slots []
  | narrow {c : Constant} {cs : List Constant} (spelled : c.IsSpelled) (narrow : c.isWide = false)
      (rest : Slots cs) : Slots (c :: cs)
  | wide {c : Constant} {cs : List Constant} (spelled : c.IsSpelled) (wide : c.isWide = true)
      (rest : Slots cs) : Slots (c :: .unusable :: cs)

theorem readEntries_reads {cs : List Constant} (h : Slots cs) :
    Reads (readEntries cs.length) (cs.flatMap Constant.bytes) cs := by
  induction h with
  | nil => exact Reads.pure []
  | @narrow c cs hc hn hcs ih =>
    rw [List.length_cons, readEntries, List.flatMap_cons]
    refine (Constant.read_reads hc).bind ?_
    rw [hn]
    exact ih.map
  | @wide c cs hc hw hcs ih =>
    rw [List.length_cons, List.length_cons, readEntries, List.flatMap_cons, List.flatMap_cons]
    refine (Constant.read_reads hc).bind ?_
    rw [hw]
    exact ih.map

theorem readEntries_finds (n : Nat) :
    Finds (readEntries n) fun cs front =>
      front = cs.flatMap Constant.bytes ∧ cs.length = n ∧ Slots cs := by
  induction n using Nat.strongRecOn with
  | ind n ih =>
    cases n with
    | zero => exact Finds.pure ⟨rfl, rfl, .nil⟩
    | succ n =>
      rw [readEntries]
      refine Constant.read_finds.bind fun c front hc => ?_
      obtain ⟨rfl, hc⟩ := hc
      cases hw : c.isWide with
      | false =>
        refine (ih n (by omega)).bind fun cs back h => Finds.pure ?_
        obtain ⟨rfl, rfl, hs⟩ := h
        exact ⟨by simp, rfl, .narrow hc hw hs⟩
      | true =>
        cases n with
        | zero => exact Finds.fail
        | succ n =>
          refine (ih n (by omega)).bind fun cs back h => Finds.pure ?_
          obtain ⟨rfl, rfl, hs⟩ := h
          exact ⟨by simp [Constant.bytes], rfl, .wide hc hw hs⟩

/-- A pool that reading could answer. -/
structure Fits (pool : ConstantPool) : Prop where
  size : pool.entries.size < 256 ^ 2
  slots : ∃ cs, pool.entries.toList = .unusable :: cs ∧ Slots cs

theorem Slots.spelled {cs : List Constant} (h : Slots cs) {c : Constant} (hc : c ∈ cs) :
    c = .unusable ∨ c.IsSpelled := by
  induction h with
  | nil => cases hc
  | narrow hspelled _ _ ih =>
    obtain rfl | hc := List.mem_cons.1 hc
    · exact .inr hspelled
    · exact ih hc
  | wide hspelled _ _ ih =>
    obtain rfl | hc := List.mem_cons.1 hc
    · exact .inr hspelled
    obtain rfl | hc := List.mem_cons.1 hc
    · exact .inl rfl
    · exact ih hc

theorem utf8_ok {pool : ConstantPool} {i : UInt16} {text : String} (h : pool.utf8 i = .ok text) :
    ∃ bytes, pool.entries[i.toNat]? = some (.utf8 text bytes) := by
  obtain ⟨c, hc, h⟩ := bind_ok_iff.1 h
  unfold entry at hc
  cases hget : pool.entries[i.toNat]? with
  | none => simp [hget] at hc
  | some d =>
    cases d with
    | utf8 t bytes =>
      rw [hget] at hc
      cases hc
      cases h
      exact ⟨bytes, rfl⟩
    | _ =>
      rw [hget] at hc
      cases hc <;> cases h

/-- A text has no more characters than its constant can have bytes. -/
theorem Fits.length_utf8 {pool : ConstantPool} (h : pool.Fits) {i : UInt16} {text : String}
    (ht : pool.utf8 i = .ok text) : text.toList.length < 256 ^ 2 := by
  obtain ⟨bytes, hget⟩ := utf8_ok ht
  obtain ⟨cs, hcs, hslots⟩ := h.slots
  rw [← Array.getElem?_toList, hcs] at hget
  have hmem := List.mem_of_getElem? hget
  obtain hc | hc := List.mem_cons.1 hmem
  · cases hc
  obtain hc | ⟨hlength, hdecode⟩ := hslots.spelled hc
  · cases hc
  · exact Nat.lt_of_le_of_lt (ModifiedUtf8.length_decode_le hdecode) hlength

theorem read_reads {pool : ConstantPool} (h : pool.Fits) : Reads read pool.bytes pool := by
  obtain ⟨cs, hcs, hslots⟩ := h.slots
  have hsize : pool.entries.size = cs.length + 1 := by
    rw [← Array.length_toList, hcs, List.length_cons]
  have hpool : pool = ⟨(.unusable :: cs).toArray⟩ := by
    rw [← hcs]
  unfold read bytes
  refine (number_reads h.size).bind ?_
  rw [hsize, hcs, List.flatMap_cons, hpool]
  exact (readEntries_reads hslots).map

theorem read_finds : Finds read fun pool front => front = pool.bytes ∧ pool.Fits := by
  unfold read
  refine (number_finds 2).bind fun n front hn => ?_
  obtain ⟨rfl, hn⟩ := hn
  cases n with
  | zero => exact Finds.fail
  | succ n =>
    refine (readEntries_finds n).bind fun cs back h => Finds.pure ?_
    obtain ⟨rfl, rfl, hs⟩ := h
    exact ⟨by simp [bytes, Constant.bytes], by simpa using hn, cs, rfl, hs⟩

end ConstantPool

/-! Class files. -/

namespace ClassFile

open BigEndian

/-- Everything before the attributes of the class fits. -/
structure Framed (c : ClassFile) : Prop where
  pool : c.pool.Fits
  interfaces : c.interfaces.length < 256 ^ 2
  fieldCount : c.fields.length < 256 ^ 2
  fields : ∀ f ∈ c.fields, f.Fits
  methodCount : c.methods.length < 256 ^ 2
  methods : ∀ m ∈ c.methods, m.Fits

structure Fits (c : ClassFile) : Prop extends Framed c where
  attributeCount : c.attributes.length < 256 ^ 2
  attributes : ∀ a ∈ c.attributes, a.Fits

/-- The bytes before the attributes of the class. -/
def frameBytes (c : ClassFile) : List UInt8 :=
  digits 4 magic ++ word16 c.minor ++ word16 c.major ++ c.pool.bytes ++ word16 c.access ++
    word16 c.thisClass ++ word16 c.superClass ++ countedBytes word16 c.interfaces ++
    countedBytes MemberEntry.bytes c.fields ++ countedBytes MemberEntry.bytes c.methods

theorem bytes_eq (c : ClassFile) :
    c.bytes = c.frameBytes ++ countedBytes Attribute.bytes c.attributes := rfl

def readFrame : Reader (List Attribute → ClassFile) := do
  let found ← Reader.number 4
  unless found = magic do throw ⟨0, .magic found⟩
  let minor ← Reader.word16
  let major ← Reader.word16
  let pool ← ConstantPool.read
  let access ← Reader.word16
  let thisClass ← Reader.word16
  let superClass ← Reader.word16
  let interfaces ← Reader.counted Reader.word16
  let fields ← Reader.counted MemberEntry.read
  let methods ← Reader.counted MemberEntry.read
  return fun attributes =>
    { minor, major, pool, access, thisClass, superClass, interfaces, fields, methods, attributes }

theorem read_eq :
    read = readFrame >>= fun frame => do return frame (← Reader.counted Attribute.read) := by
  unfold read readFrame
  rw [bind_assoc]
  congr 1
  funext found
  split <;> simp only [bind_assoc, pure_bind]

theorem readFrame_reads {c : ClassFile} (h : c.Framed) :
    Reads readFrame c.frameBytes fun attributes => { c with attributes } := by
  unfold readFrame frameBytes
  simp only [List.append_assoc]
  refine (number_reads (by decide)).bind ?_
  rw [if_pos rfl]
  refine (word16_reads c.minor).bind ((word16_reads c.major).bind
    ((ConstantPool.read_reads h.pool).bind ((word16_reads c.access).bind
      ((word16_reads c.thisClass).bind ((word16_reads c.superClass).bind
        ((counted_reads (fun w _ => word16_reads w) h.interfaces).bind
          ((counted_reads (fun f hf => MemberEntry.read_reads (h.fields f hf))
              h.fieldCount).bind ?_)))))))
  exact (counted_reads (fun m hm => MemberEntry.read_reads (h.methods m hm)) h.methodCount).map

theorem readFrame_finds :
    Finds readFrame fun frame front => ∃ c : ClassFile, c.Framed ∧ front = c.frameBytes ∧
      frame = fun attributes => { c with attributes } := by
  unfold readFrame
  refine (number_finds 4).bind fun found f₁ h₁ => ?_
  obtain ⟨rfl, -⟩ := h₁
  by_cases hm : found = magic
  · subst hm
    rw [if_pos rfl]
    refine word16_finds.bind fun minor f₂ h₂ => word16_finds.bind fun major f₃ h₃ =>
      ConstantPool.read_finds.bind fun pool f₄ h₄ => word16_finds.bind fun access f₅ h₅ =>
      word16_finds.bind fun thisClass f₆ h₆ => word16_finds.bind fun superClass f₇ h₇ =>
      (counted_finds (word16_finds.mono fun _ _ h => ⟨h, trivial⟩)).bind
        fun interfaces f₈ h₈ => (counted_finds MemberEntry.read_finds).bind fun fields f₉ h₉ =>
      (counted_finds MemberEntry.read_finds).bind fun methods f₁₀ h₁₀ => Finds.pure ?_
    obtain rfl := h₂
    obtain rfl := h₃
    obtain ⟨rfl, hpool⟩ := h₄
    obtain rfl := h₅
    obtain rfl := h₆
    obtain rfl := h₇
    obtain ⟨rfl, hinterfaces, -⟩ := h₈
    obtain ⟨rfl, hfieldCount, hfields⟩ := h₉
    obtain ⟨rfl, hmethodCount, hmethods⟩ := h₁₀
    refine ⟨⟨minor, major, pool, access, thisClass, superClass, interfaces, fields, methods, []⟩,
      ⟨hpool, hinterfaces, hfieldCount, hfields, hmethodCount, hmethods⟩, ?_, rfl⟩
    simp [frameBytes]
  · rw [if_neg hm]
    exact (Finds.throw (p := fun _ _ => False)).bind fun _ _ h => h.elim

theorem frame_of_readFrame {c d : ClassFile} (hc : c.Framed) (hd : d.Framed)
    {s t : List UInt8} (h : c.frameBytes ++ s = d.frameBytes ++ t) :
    s = t ∧ d = { c with attributes := d.attributes } := by
  have hreads := readFrame_reads hc s 0
  rw [h, readFrame_reads hd t 0] at hreads
  simp only [Except.ok.injEq, Prod.mk.injEq, Cursor.mk.injEq] at hreads
  obtain ⟨hframe, hrest, -⟩ := hreads
  exact ⟨hrest.symm, congrFun hframe d.attributes⟩

theorem read_finds : Finds read fun c front => front = c.bytes ∧ c.Fits := by
  rw [read_eq]
  refine readFrame_finds.bind fun frame front h =>
    (counted_finds Attribute.read_finds).bind fun attributes back ha => Finds.pure ?_
  obtain ⟨c, hc, rfl, rfl⟩ := h
  obtain ⟨rfl, hcount, hattributes⟩ := ha
  rw [List.append_nil]
  exact ⟨rfl, ⟨hc.pool, hc.interfaces, hc.fieldCount, hc.fields, hc.methodCount, hc.methods⟩,
    hcount, hattributes⟩

theorem read_reads {c : ClassFile} (h : c.Fits) : Reads read c.bytes c := by
  rw [read_eq, bytes_eq]
  exact (readFrame_reads h.toFramed).bind
    (counted_reads (fun a ha => Attribute.read_reads (h.attributes a ha)) h.attributeCount).map

/-- A class file is all of the bytes it is read from, and its name resolves. -/
theorem of_ofBytes {bytes : List UInt8} {c : ClassFile} (h : ofBytes bytes = .ok c) :
    bytes = c.bytes ∧ c.Fits ∧ ∃ name, c.name = .ok name := by
  unfold ofBytes at h
  cases hread : read.whole .trailingAfterClass bytes with
  | error e => simp [hread, bind, Except.bind] at h
  | ok d =>
    cases hname : d.name with
    | error e => simp [hread, hname, bind, Except.bind] at h
    | ok name =>
      simp only [hread, hname, bind, Except.bind, pure, Except.pure, Except.ok.injEq] at h
      obtain ⟨hbytes, hfits⟩ := read_finds.whole hread
      exact ⟨h ▸ hbytes, h ▸ hfits, name, h ▸ hname⟩

/-- A class file that fits is read back from its bytes. -/
theorem ofBytes_bytes {c : ClassFile} (h : c.Fits) {name : String} (hname : c.name = .ok name) :
    ofBytes c.bytes = .ok c := by
  unfold ofBytes
  rw [(read_reads h).whole]
  simp only [bind, Except.bind, hname]
  rfl

end ClassFile

end JarPruning
