import JarPruning.Metadata.Signature
import JarPruning.Proofs.Member.Grammar

/-!
Signatures derived from records. What a record refers to at a type position is told by a relation
over its fields and a type table; a signature that is derived is the text of the types it refers
to, and is read back as a method with that many parameters.
-/
namespace JarPruning.Metadata

open FieldNumber
open Descriptor (TypeDescriptor Element methodChars)

/-- What a record refers to at a type position: a type inline, else one of the table by its id,
else nothing. -/
inductive Refers (types : TypeTable) (record : Message) (fields : TypeFields) :
    Option Message → Prop
  | inline {type : Message} (h : record.message? fields.direct = .ok (some type)) :
    Refers types record fields (some type)
  | byId {id : Int32} {type : Message} (h : record.message? fields.direct = .ok none)
    (hid : record.int? fields.byId = some id) (hpos : 0 ≤ id)
    (htype : types[id.toInt.toNat]? = some type) : Refers types record fields (some type)
  | absent (h : record.message? fields.direct = .ok none)
    (hid : record.int? fields.byId = none) : Refers types record fields none

namespace ClassId

/-! The descriptors of classes. -/

theorem chars_of_primitive {p : String × String} (h : p ∈ primitives) :
    ∃ e : Element, e.EndsOnce ∧ p.2.toList = e.chars := by
  have hchars : ∀ p ∈ primitives, ∃ e ∈ [Element.boolean, .char, .byte, .short, .int, .float,
      .long, .double], p.2.toList = e.chars := by decide
  obtain ⟨e, he, hp⟩ := hchars p h
  refine ⟨e, ?_, hp⟩
  rintro name rfl
  simp at he

theorem not_mem_append {c : Char} {a b : String} (ha : c ∉ a.toList) (hb : c ∉ b.toList) :
    c ∉ (a ++ b).toList := by
  simpa [not_or] using And.intro ha hb

/-- The names that stand for classes have no semicolon; they are put together from a package and
a class. -/
theorem name_of_class : ∀ p ∈ classes, ';' ∉ p.2.toList := by
  simp only [classes, List.forall_mem_append, List.forall_mem_map, List.forall_mem_flatMap,
    List.mem_range, toString]
  refine ⟨⟨⟨⟨⟨?named, ?lang⟩, ?util⟩, ?iterable⟩, ?function⟩, ?companion⟩
  case named => decide
  case lang =>
    have hclasses : ∀ c ∈ ["String", "CharSequence", "Throwable", "Cloneable", "Number",
        "Comparable", "Enum"], ';' ∉ c.toList := by decide
    exact fun c hc => not_mem_append (by decide) (hclasses c hc)
  case util =>
    have hclasses : ∀ c ∈ ["Iterator", "Collection", "List", "Set", "Map", "ListIterator"],
        ';' ∉ c.toList := by decide
    intro c hc
    have hname : ';' ∉ ("java/util/" ++ c).toList := not_mem_append (by decide) (hclasses c hc)
    simpa using hname
  case iterable => decide
  case function =>
    have hnumbers : ∀ n < 23, ';' ∉ n.repr.toList := by decide
    intro n hn
    have hname : ';' ∉ ("kotlin/jvm/functions/Function" ++ n.repr).toList :=
      not_mem_append (by decide) (hnumbers n hn)
    have hreflected : ';' ∉ "kotlin/reflect/KFunction".toList := by decide
    simp only [List.forall_mem_cons]
    exact ⟨hname, hreflected, List.forall_mem_nil _⟩
  case companion =>
    have hclasses : ∀ c ∈ ["Char", "Byte", "Short", "Int", "Float", "Long", "Double", "String",
        "Enum"], ';' ∉ c.toList := by decide
    exact fun c hc => not_mem_append (not_mem_append (by decide) (hclasses c hc)) (by decide)

theorem chars_of_mapped {p : String × String} (h : p ∈ mapped) :
    ∃ t : TypeDescriptor, t.Readable ∧ p.2.toList = t.chars := by
  rcases List.mem_append.1 h with h | h
  · rcases List.mem_append.1 h with h | h
    · obtain ⟨q, hq, hp⟩ := List.mem_flatMap.1 h
      obtain ⟨e, he, hchars⟩ := chars_of_primitive hq
      rcases List.mem_cons.1 hp with rfl | hp
      · exact ⟨⟨0, e⟩, ⟨Nat.zero_le _, he⟩, hchars⟩
      · obtain rfl := List.mem_singleton.1 hp
        exact ⟨⟨1, e⟩, ⟨(by decide : 1 ≤ 255), he⟩,
          by simp [toString, hchars, TypeDescriptor.chars]⟩
    · obtain rfl := List.mem_singleton.1 h
      exact ⟨.void, TypeDescriptor.readable_void, rfl⟩
  · obtain ⟨q, hq, rfl⟩ := List.mem_map.1 h
    exact ⟨.ofClass q.2, TypeDescriptor.readable_ofClass (name_of_class q hq),
      by simp [toString, TypeDescriptor.chars_ofClass]⟩

/-- A class id without a semicolon has the descriptor of a type. -/
theorem chars_of_descriptor {id : String} (h : ';' ∉ id.toList) :
    ∃ t : TypeDescriptor, t.Readable ∧ (descriptor id).toList = t.chars := by
  cases hlookup : mapped.lookup id with
  | some d =>
    obtain ⟨before, after, hmapped, -⟩ := List.lookup_eq_some_iff.1 hlookup
    have hmem : (id, d) ∈ mapped := by
      rw [hmapped]
      exact List.mem_append_right _ (List.mem_cons_self ..)
    rw [descriptor, hlookup]
    exact chars_of_mapped hmem
  | none =>
    have hname : ';' ∉ (internalName id).toList := by
      simp only [internalName, String.toList_ofList, List.mem_map, not_exists, not_and]
      intro c hc
      split
      · decide
      · exact fun heq => h (heq ▸ hc)
    rw [descriptor, hlookup]
    exact ⟨.ofClass (internalName id), TypeDescriptor.readable_ofClass hname,
      by simp [toString, TypeDescriptor.chars_ofClass]⟩

/-- The descriptors of class ids in a row are those of types. -/
theorem exists_types {ids : List String} (h : ∀ id ∈ ids, ';' ∉ id.toList) :
    ∃ ts : List TypeDescriptor, ts.length = ids.length ∧ (∀ t ∈ ts, t.Readable) ∧
      (String.join (ids.map descriptor)).toList = ts.flatMap TypeDescriptor.chars := by
  induction ids with
  | nil => exact ⟨[], rfl, List.forall_mem_nil _, rfl⟩
  | cons id ids ih =>
    obtain ⟨hid, hids⟩ := List.forall_mem_cons.1 h
    obtain ⟨t, ht, hchars⟩ := chars_of_descriptor hid
    obtain ⟨ts, hlength, hts, hjoin⟩ := ih hids
    refine ⟨t :: ts, by simp [hlength], List.forall_mem_cons.2 ⟨ht, hts⟩, ?_⟩
    rw [List.map_cons, String.join_cons, String.toList_append, hchars, hjoin, List.flatMap_cons]

/-- A method with the descriptors of class ids is read with as many parameters. -/
theorem exists_shape {ids : List String} {result : String}
    (h : ∀ id ∈ ids ++ [result], ';' ∉ id.toList) :
    ∃ shape, MethodShape.of ("(" ++ String.join (ids.map descriptor) ++ ")" ++ descriptor result) =
        .ok shape ∧ shape.parameterCount = ids.length := by
  obtain ⟨hids, hresult⟩ := List.forall_mem_append.1 h
  obtain ⟨ts, hlength, hts, hjoin⟩ := exists_types hids
  obtain ⟨t, ht, hchars⟩ := chars_of_descriptor (hresult result (List.mem_singleton_self _))
  have htext : "(" ++ String.join (ids.map descriptor) ++ ")" ++ descriptor result =
      String.ofList (methodChars ts t) := by
    rw [← String.toList_inj]
    simp only [String.toList_append, hjoin, hchars, String.toList_ofList, methodChars]
    simp
  rw [htext, ← hlength]
  exact Descriptor.exists_shape_of_methodChars hts ht

end ClassId

theorem TypeTable.type_ok_iff {types : TypeTable} {id : Int32} {type : Message} :
    types.type id = .ok type ↔ 0 ≤ id ∧ types[id.toInt.toNat]? = some type := by
  unfold TypeTable.type
  by_cases h : id < 0
  · simp [h, Int32.not_le.2 h]
  · simp only [h, ↓reduceIte, Int32.not_lt.1 h, true_and]
    cases types[id.toInt.toNat]? <;> simp

namespace Resolver

variable {r : Resolver} {record : Message} {fields : TypeFields}

theorem typeMessage?_ok_iff {type : Option Message} :
    r.typeMessage? record fields = .ok type ↔ Refers r.types record fields type := by
  unfold typeMessage?
  rw [bind_ok_iff]
  constructor
  · rintro ⟨inline, hinline, h⟩
    cases inline with
    | some t =>
      cases h
      exact .inline hinline
    | none =>
      cases hid : record.int? fields.byId with
      | none =>
        rw [hid] at h
        cases h
        exact .absent hinline hid
      | some id =>
        simp only [hid] at h
        obtain ⟨t, ht, h⟩ := bind_ok_iff.1 h
        cases h
        obtain ⟨hpos, htype⟩ := TypeTable.type_ok_iff.1 ht
        exact .byId hinline hid hpos htype
  · intro h
    cases h with
    | inline h => exact ⟨_, h, rfl⟩
    | byId h hid hpos htype =>
      refine ⟨_, h, ?_⟩
      simp only [hid, TypeTable.type_ok_iff.2 ⟨hpos, htype⟩]
      rfl
    | absent h hid =>
      refine ⟨_, h, ?_⟩
      simp only [hid]
      rfl

/-- The class id that a record has at a type position, if it refers to a type there. -/
inductive Holds (r : Resolver) (record : Message) (fields : TypeFields) : Option String → Prop
  | absent (h : Refers r.types record fields none) : Holds r record fields none
  | named {type : Message} {index : Int32} {id : String}
    (h : Refers r.types record fields (some type)) (hindex : type.int? typeClassName = some index)
    (hid : r.strings.get index = .ok id) : Holds r record fields (some id)

/-- The record refers to a type without a class name. -/
def Unnamed (r : Resolver) (record : Message) (fields : TypeFields) : Prop :=
  ∃ type, Refers r.types record fields (some type) ∧ type.int? typeClassName = none

/-- What a text at a type position stands for. -/
theorem typeText_cases {text : TypeText} (h : r.typeText record fields = .ok text) :
    (text = .absent ∧ r.Holds record fields none) ∨
      (text = .unmapped ∧ r.Unnamed record fields) ∨
      ∃ id, text = .mapped (ClassId.descriptor id) ∧ r.Holds record fields (some id) := by
  obtain ⟨type, htype, h⟩ := bind_ok_iff.1 h
  have href := typeMessage?_ok_iff.1 htype
  cases type with
  | none =>
    cases h
    exact .inl ⟨rfl, .absent href⟩
  | some type =>
    cases hindex : type.int? typeClassName with
    | none =>
      simp only [hindex] at h
      cases h
      exact .inr (.inl ⟨rfl, type, href, hindex⟩)
    | some index =>
      simp only [hindex] at h
      obtain ⟨id, hid, h⟩ := bind_ok_iff.1 h
      cases h
      exact .inr (.inr ⟨id, rfl, .named href hindex hid⟩)

theorem typeText_of_unnamed (h : r.Unnamed record fields) :
    r.typeText record fields = .ok .unmapped := by
  obtain ⟨type, htype, hindex⟩ := h
  refine bind_ok_iff.2 ⟨some type, typeMessage?_ok_iff.2 htype, ?_⟩
  simp only [hindex]
  rfl

theorem holds_of_mapped {d : String} (h : r.typeText record fields = .ok (.mapped d)) :
    ∃ id, r.Holds record fields (some id) ∧ d = ClassId.descriptor id := by
  rcases typeText_cases h with ⟨ht, -⟩ | ⟨ht, -⟩ | ⟨id, ht, hid⟩
  · cases ht
  · cases ht
  · exact ⟨id, hid, TypeText.mapped.inj ht⟩

/-! Texts in a row. -/

/-- A row that is joined without a text has a type without a class name, and one that is joined
to a text has none. -/
theorem join_ok {ts : List TypeText} {text : Option String} (h : join ts = .ok text) :
    (text = none ∧ .unmapped ∈ ts) ∨
      ∃ ds, text = some (String.join ds) ∧ ts = ds.map .mapped := by
  induction ts generalizing text with
  | nil =>
    cases h
    exact .inr ⟨[], by simp [String.join_nil], rfl⟩
  | cons t ts ih =>
    cases t with
    | absent => cases h
    | unmapped =>
      cases h
      exact .inl ⟨rfl, List.mem_cons_self ..⟩
    | mapped d =>
      obtain ⟨rest, hrest, rfl⟩ := Parse.map_ok h
      rcases ih hrest with ⟨rfl, hmem⟩ | ⟨ds, rfl, rfl⟩
      · exact .inl ⟨rfl, List.mem_cons_of_mem _ hmem⟩
      · exact .inr ⟨d :: ds, by rw [String.join_cons]; rfl, rfl⟩

/-- A method has no descriptor because of a type without a class name only. -/
theorem methodDescriptor_ok {ts : List TypeText} {t : TypeText} {text : Option String}
    (h : methodDescriptor ts t = .ok text) :
    (text = none ∧ (.unmapped ∈ ts ∨ t = .unmapped)) ∨
      ∃ ds d, text = some ("(" ++ String.join ds ++ ")" ++ d) ∧ ts = ds.map .mapped ∧
        t = .mapped d := by
  obtain ⟨parameters, hparameters, htext⟩ := bind_ok_iff.1 h
  rcases join_ok hparameters with ⟨rfl, hmem⟩ | ⟨ds, rfl, hts⟩
  · cases htext
    exact .inl ⟨rfl, .inl hmem⟩
  · cases t with
    | absent => cases htext
    | unmapped =>
      cases htext
      exact .inl ⟨rfl, .inr rfl⟩
    | mapped d =>
      cases htext
      exact .inr ⟨ds, d, rfl, hts, rfl⟩

/-- What a signature that is not stored is derived from. -/
theorem function?_ok {answer : Option Signature}
    (hstored : ∀ signature, record.message? FieldNumber.signature = .ok (some signature) →
      signature.int? memberDescriptor = none)
    (h : r.function? record = .ok answer) :
    ∃ types receiver parameters result name text, r.localTypes record = .ok types ∧
      types.receiver record = .ok receiver ∧
      types.parameters record functionParameter = .ok parameters ∧
      types.typeText record functionReturn = .ok result ∧
      methodDescriptor (receiver ++ parameters) result = .ok text ∧
      answer = text.map (⟨name, ·⟩) := by
  obtain ⟨types, htypes, h⟩ := bind_ok_iff.1 h
  obtain ⟨signature, hsignature, h⟩ := bind_ok_iff.1 h
  have hindex : signatureIndex? signature memberDescriptor = none := by
    cases signature with
    | none => rfl
    | some signature => exact hstored signature hsignature
  simp only [hindex] at h
  -- A stored name or the record's own: what is derived is the same.
  have hderived : ∃ name, (do
      let receiver ← types.receiver record
      let parameters ← types.parameters record functionParameter
      let result ← types.typeText record functionReturn
      return (← methodDescriptor (receiver ++ parameters) result).map (⟨name, ·⟩)) =
        Except.ok answer := by
    split at h <;> exact (bind_ok_iff.1 h).imp fun _ h => h.2
  obtain ⟨name, h⟩ := hderived
  obtain ⟨receiver, hreceiver, h⟩ := bind_ok_iff.1 h
  obtain ⟨parameters, hparameters, h⟩ := bind_ok_iff.1 h
  obtain ⟨result, hresult, h⟩ := bind_ok_iff.1 h
  obtain ⟨text, htext, h⟩ := bind_ok_iff.1 h
  cases h
  exact ⟨types, receiver, parameters, result, name, text, htypes, hreceiver, hparameters, hresult,
    htext, rfl⟩

theorem localTypes_ok {types : Resolver} (h : r.localTypes record = .ok types) :
    ∃ own, TypeTable.ofContainer record = .ok own ∧
      types = { r with types := if own.isEmpty then r.types else own } := by
  obtain ⟨own, hown, h⟩ := bind_ok_iff.1 h
  cases h
  refine ⟨own, hown, ?_⟩
  split <;> rfl

theorem receiver_ok {ts : List TypeText} (h : r.receiver record = .ok ts) :
    ∃ t, r.typeText record functionReceiver = .ok t ∧ ts = if t = .absent then [] else [t] := by
  obtain ⟨t, ht, h⟩ := bind_ok_iff.1 h
  refine ⟨t, ht, ?_⟩
  cases t <;> cases h <;> rfl

theorem parameters_ok {number : UInt32} {ts : List TypeText}
    (h : r.parameters record number = .ok ts) :
    ∃ ps, record.messages number = .ok ps ∧
      List.Forall₂ (fun p t => r.typeText p parameterType = .ok t) ps ts := by
  obtain ⟨ps, hps, h⟩ := bind_ok_iff.1 h
  exact ⟨ps, hps, mapM_ok_iff.1 h⟩

theorem eq_unmapped_iff {t : TypeText} (h : r.typeText record fields = .ok t) :
    .unmapped = t ↔ r.Unnamed record fields := by
  constructor
  · rintro rfl
    rcases typeText_cases h with ⟨ht, -⟩ | ⟨-, hunnamed⟩ | ⟨_, ht, -⟩
    · cases ht
    · exact hunnamed
    · cases ht
  · intro hunnamed
    rw [typeText_of_unnamed hunnamed] at h
    exact Except.ok.inj h

theorem unmapped_mem_receiver {ts : List TypeText} (h : r.receiver record = .ok ts) :
    .unmapped ∈ ts ↔ r.Unnamed record functionReceiver := by
  obtain ⟨t, ht, rfl⟩ := receiver_ok h
  rw [← eq_unmapped_iff ht]
  split
  · next habsent => simp [habsent]
  · exact List.mem_singleton

theorem unmapped_mem_parameters {ps : List Message} {ts : List TypeText}
    (h : List.Forall₂ (fun p t => r.typeText p parameterType = .ok t) ps ts) :
    .unmapped ∈ ts ↔ ∃ p ∈ ps, r.Unnamed p parameterType := by
  constructor
  · intro hmem
    obtain ⟨p, hp, ht⟩ := forall₂_mem_right h hmem
    exact ⟨p, hp, (eq_unmapped_iff ht).1 rfl⟩
  · rintro ⟨p, hp, hunnamed⟩
    obtain ⟨t, hmem, ht⟩ := forall₂_mem_left h hp
    exact (eq_unmapped_iff ht).2 hunnamed ▸ hmem

theorem ids_of_receiver {ds : List String} (h : r.receiver record = .ok (ds.map .mapped)) :
    ∃ id : Option String, r.Holds record functionReceiver id ∧
      ds = id.toList.map ClassId.descriptor := by
  obtain ⟨t, ht, hds⟩ := receiver_ok h
  rcases typeText_cases ht with ⟨rfl, habsent⟩ | ⟨rfl, -⟩ | ⟨id, rfl, hid⟩
  · exact ⟨none, habsent, List.map_eq_nil_iff.1 hds⟩
  · obtain ⟨d, -, hd⟩ := List.map_eq_singleton_iff.1 hds
    cases hd
  · obtain ⟨d, rfl, hd⟩ := List.map_eq_singleton_iff.1 hds
    exact ⟨some id, hid, congrArg (fun d => [d]) (TypeText.mapped.inj hd)⟩

theorem ids_of_parameters {ps : List Message} {ds : List String}
    (h : List.Forall₂ (fun p t => r.typeText p parameterType = .ok t) ps (ds.map .mapped)) :
    ∃ ids, List.Forall₂ (fun p id => r.Holds p parameterType (some id)) ps ids ∧
      ds = ids.map ClassId.descriptor := by
  induction ds generalizing ps with
  | nil =>
    cases h
    exact ⟨[], .nil, rfl⟩
  | cons d ds ih =>
    obtain _ | ⟨hd, hds⟩ := h
    obtain ⟨id, hid, rfl⟩ := holds_of_mapped hd
    obtain ⟨ids, hids, rfl⟩ := ih hds
    exact ⟨id :: ids, .cons hid hids, rfl⟩

/-- A function whose record stores no descriptor has no signature if its receiver, a parameter or
its result is of a type without a class name, and only then; its own type table is looked up if it
has types. Its descriptor is otherwise that of its types in a row, and while no class id has a
semicolon it is read with a parameter for each, the receiver among them. -/
theorem signature_derived {answer : Option Signature}
    (hstored : ∀ signature, record.message? FieldNumber.signature = .ok (some signature) →
      signature.int? memberDescriptor = none)
    (h : r.function? record = .ok answer) :
    ∃ own ps, TypeTable.ofContainer record = .ok own ∧
      record.messages functionParameter = .ok ps ∧
      let types : Resolver := { r with types := if own.isEmpty then r.types else own }
      (answer = none ↔ types.Unnamed record functionReceiver ∨
        (∃ p ∈ ps, types.Unnamed p parameterType) ∨ types.Unnamed record functionReturn) ∧
      ∀ s, answer = some s → ∃ receiver parameters result,
        types.Holds record functionReceiver receiver ∧
        List.Forall₂ (fun p id => types.Holds p parameterType (some id)) ps parameters ∧
        types.Holds record functionReturn (some result) ∧
        s.descriptor =
          "(" ++ String.join ((receiver.toList ++ parameters).map ClassId.descriptor) ++ ")" ++
            ClassId.descriptor result ∧
        ((∀ id ∈ receiver.toList ++ parameters ++ [result], ';' ∉ id.toList) →
          ∃ shape, MethodShape.of s.descriptor = .ok shape ∧
            shape.parameterCount = ps.length + if receiver.isSome then 1 else 0) := by
  obtain ⟨types, receiver, parameters, result, name, text, htypes, hreceiver, hparameters, hresult,
    htext, rfl⟩ := function?_ok hstored h
  obtain ⟨own, hown, rfl⟩ := localTypes_ok htypes
  obtain ⟨ps, hps, hts⟩ := parameters_ok hparameters
  refine ⟨own, ps, hown, hps, ?_⟩
  intro types
  have hunnamed : (.unmapped ∈ receiver ++ parameters ∨ .unmapped = result) ↔
      types.Unnamed record functionReceiver ∨ (∃ p ∈ ps, types.Unnamed p parameterType) ∨
        types.Unnamed record functionReturn := by
    rw [List.mem_append, unmapped_mem_receiver hreceiver, unmapped_mem_parameters hts,
      eq_unmapped_iff hresult, or_assoc]
  rw [← hunnamed]
  rcases methodDescriptor_ok htext with ⟨rfl, hmem⟩ | ⟨ds, d, rfl, hds, rfl⟩
  · exact ⟨iff_of_true rfl (hmem.imp_right Eq.symm), fun _ hs => by cases hs⟩
  · constructor
    · simp [hds]
    · intro s hs
      cases hs
      obtain ⟨ds₁, ds₂, rfl, rfl, rfl⟩ := List.append_eq_map_iff.1 hds
      obtain ⟨id, hid, rfl⟩ := ids_of_receiver hreceiver
      obtain ⟨ids, hids, rfl⟩ := ids_of_parameters hts
      obtain ⟨last, hlast, rfl⟩ := holds_of_mapped hresult
      rw [← List.map_append]
      refine ⟨id, ids, last, hid, hids, hlast, rfl, fun hend => ?_⟩
      obtain ⟨shape, hshape, hcount⟩ := ClassId.exists_shape hend
      refine ⟨shape, hshape, ?_⟩
      rw [hcount, List.length_append, hids.length_eq, Nat.add_comm]
      cases id <;> rfl

/-- An extension function whose receiver is in a type table of its own; its parameter and its
result are inline. -/
def extension : Message where
  fields := [⟨2, .varint 0⟩, ⟨3, .block [48, 3]⟩, ⟨6, .block [26, 2, 48, 1]⟩, ⟨8, .varint 0⟩,
    ⟨30, .block [10, 2, 48, 2]⟩]

def extensionResolver : Resolver where
  strings := ⟨[], ["f", "kotlin/Int", "a/B", "kotlin/Unit"]⟩
  types := []

theorem extension_name {index : Int32} {id : String}
    (h : extensionResolver.strings.get index = .ok id) : ';' ∉ id.toList := by
  have hstrings : ∀ id ∈ ["f", "kotlin/Int", "a/B", "kotlin/Unit"], ';' ∉ id.toList := by decide
  simp only [extensionResolver, StringTable.get, StringTable.recordAt?, StringTable.stored] at h
  split at h
  · cases h
  · split at h
    · next hstring =>
      cases h
      exact hstrings id (List.mem_of_getElem? hstring)
    · cases h

/-- The extension function takes its receiver and its parameter. -/
theorem signature_derived_extension :
    (∀ signature, extension.message? FieldNumber.signature = .ok (some signature) →
      signature.int? memberDescriptor = none) ∧
    extensionResolver.function? extension = .ok (some ⟨"f", "(La/B;I)V"⟩) ∧
    ∃ own ps receiver, TypeTable.ofContainer extension = .ok own ∧
      extension.messages functionParameter = .ok ps ∧
      Holds { extensionResolver with
        types := if own.isEmpty then extensionResolver.types else own } extension
        functionReceiver receiver ∧
      ∃ shape, MethodShape.of "(La/B;I)V" = .ok shape ∧
        shape.parameterCount = ps.length + if receiver.isSome then 1 else 0 := by
  have hstored : ∀ signature, extension.message? FieldNumber.signature = .ok (some signature) →
      signature.int? memberDescriptor = none := by
    intro signature h
    have hnone : extension.message? FieldNumber.signature = .ok none := rfl
    rw [hnone] at h
    cases h
  have hfunction : extensionResolver.function? extension = .ok (some ⟨"f", "(La/B;I)V"⟩) := by
    with_unfolding_all rfl
  obtain ⟨own, ps, hown, hps, -, hsome⟩ := signature_derived hstored hfunction
  obtain ⟨receiver, parameters, result, hreceiver, hparameters, hresult, -, hshape⟩ :=
    hsome _ rfl
  have hname {record : Message} {fields : TypeFields} {id : String}
      (h : Holds { extensionResolver with
        types := if own.isEmpty then extensionResolver.types else own } record fields (some id)) :
      ';' ∉ id.toList := by
    cases h with
    | named _ _ hid => exact extension_name hid
  refine ⟨hstored, hfunction, own, ps, receiver, hown, hps, hreceiver, hshape ?_⟩
  simp only [List.forall_mem_append, List.forall_mem_singleton]
  refine ⟨⟨?_, ?_⟩, hname hresult⟩
  · intro id hid
    obtain rfl := Option.mem_toList.1 hid
    exact hname hreceiver
  · intro id hid
    obtain ⟨p, -, hid⟩ := forall₂_mem_right hparameters hid
    exact hname hid

end Resolver

end JarPruning.Metadata
