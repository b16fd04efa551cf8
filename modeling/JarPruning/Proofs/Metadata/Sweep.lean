import JarPruning.Proofs.Metadata.Room

/-!
The parts of a removal one after another. A part that reports a removal shows it in the
occurrences of its field, and no other part looks at that field.
-/
namespace JarPruning.Metadata

namespace Sweep

variable {m m' : Message} {number : UInt32} {changes : Changes}

/-- A record in a field, and what is judged of it. -/
def Judged (judge : Message → Except Fault Verdict) (value : WireValue) (v : Verdict) : Prop :=
  ∃ b record, value = .block b ∧ Message.ofBytes b = .ok record ∧ judge record = .ok v

/-- Whether the record in a value stays. -/
def keeps (judge : Message → Except Fault Verdict) : WireValue → Bool
  | .block b =>
    match Message.ofBytes b >>= judge with
    | .ok v => v.keep
    | .error _ => true
  | _ => true

theorem Judged.keeps {judge : Message → Except Fault Verdict} {value : WireValue} {v : Verdict}
    (h : Judged judge value v) : Sweep.keeps judge value = v.keep := by
  obtain ⟨b, record, rfl, hrecord, hv⟩ := h
  simp only [Sweep.keeps, hrecord, bind, Except.bind, hv]

theorem records_ok_iff {judge : Message → Except Fault Verdict} :
    records number judge m = .ok (m', changes) ↔
      ∃ vs, List.Forall₂ (Judged judge) (m.occurrences number) vs ∧
        m' = m.keepValues number (keeps judge) ∧ changes = Verdict.total vs := by
  have hkeeps {vs : List Verdict} (h : List.Forall₂ (Judged judge) (m.occurrences number) vs) :
      m.retain number (vs.map (·.keep)) = m.keepValues number (keeps judge) := by
    rw [← Message.retain_eq]
    congr 1
    generalize m.occurrences number = values at h
    induction h with
    | nil => rfl
    | cons hv _ ih => rw [List.map_cons, List.map_cons, ih, hv.keeps]
  have hjudged (value : WireValue) (v : Verdict) : Judged judge value v ↔
      ∃ record, (match value with
        | .block b => Message.ofBytes b
        | _ => .error (.notMessage number)) = .ok record ∧ judge record = .ok v := by
    cases value <;> simp [Judged]
  have hrecords (vs : List Verdict) : (m.messages number >>= fun rs => rs.mapM judge) = .ok vs ↔
      List.Forall₂ (Judged judge) (m.occurrences number) vs := by
    unfold Message.messages
    rw [mapM_mapM_ok_iff]
    exact ⟨fun h => h.imp fun value v => (hjudged value v).2,
      fun h => h.imp fun value v => (hjudged value v).1⟩
  have hbind : records number judge m =
      (m.messages number >>= fun rs => rs.mapM judge) >>= fun vs =>
        .ok (m.retain number (vs.map (·.keep)), Verdict.total vs) := by
    rw [bind_assoc]
    rfl
  rw [hbind, bind_ok_iff]
  constructor
  · rintro ⟨vs, hvs, h⟩
    cases h
    exact ⟨vs, (hrecords vs).1 hvs, hkeeps ((hrecords vs).1 hvs), rfl⟩
  · rintro ⟨vs, hvs, rfl, rfl⟩
    exact ⟨vs, (hrecords vs).2 hvs, by rw [hkeeps hvs]⟩

/-- Whether a number stays. -/
def keepsInt (judge : Int32 → Except Fault Verdict) (i : Int32) : Bool :=
  match judge i with
  | .ok v => v.keep
  | .error _ => true

theorem elements_ok_iff {judge : Int32 → Except Fault Verdict} :
    elements number judge m = .ok (m', changes) ↔
      ∃ l vs, m.ints number = .ok l ∧ List.Forall₂ (fun i v => judge i = .ok v) l vs ∧
        m' = m.keepInts number (keepsInt judge) ∧ changes = Verdict.total vs := by
  have hkept {l : List Int32} {vs : List Verdict}
      (h : List.Forall₂ (fun i v => judge i = .ok v) l vs) :
      ((l.zip vs).filter (·.2.keep)).map (·.1) = l.filter (keepsInt judge) := by
    induction h with
    | nil => rfl
    | @cons i v l vs hv _ ih =>
      have hkeep : keepsInt judge i = v.keep := by simp [keepsInt, hv]
      rw [List.zip_cons_cons]
      cases hk : v.keep with
      | true =>
        rw [List.filter_cons_of_pos (by exact hk), List.map_cons, ih,
          List.filter_cons_of_pos (hkeep ▸ hk)]
      | false =>
        rw [List.filter_cons_of_neg (by simp [hk]), ih,
          List.filter_cons_of_neg (by simp [hkeep, hk])]
  have hmessage {l : List Int32} (h : m.ints number = .ok l) :
      (if (l.filter (keepsInt judge)).length = l.length then m
        else m.setPacked number (l.filter (keepsInt judge))) =
        m.keepInts number (keepsInt judge) := by
    rw [Message.keepInts, h]
  unfold elements
  rw [bind_ok_iff]
  constructor
  · rintro ⟨l, hl, h⟩
    obtain ⟨vs, hvs, h⟩ := bind_ok_iff.1 h
    cases h
    have hvs := mapM_ok_iff.1 hvs
    refine ⟨l, vs, hl, hvs, ?_, rfl⟩
    rw [hkept hvs]
    exact hmessage hl
  · rintro ⟨l, vs, hl, hvs, rfl, rfl⟩
    refine ⟨l, hl, bind_ok_iff.2 ⟨vs, mapM_ok_iff.2 hvs, ?_⟩⟩
    dsimp only
    rw [hkept hvs, ← hmessage hl]
    rfl

/-- The companion's name stays unless it is gone. -/
theorem companion_ok {j : Judge} (h : companion j m = .ok (m', changes)) :
    m' = m ∧ changes.removed = [] ∨
      (m.int? FieldNumber.classCompanion).isSome ∧ m' = m.remove FieldNumber.classCompanion ∧
        changes.removed ≠ [] := by
  unfold companion at h
  split at h
  · cases h
    exact .inl ⟨rfl, rfl⟩
  · next index hindex =>
    obtain ⟨v, hv, h⟩ := bind_ok_iff.1 h
    cases h
    have hhonest := Judge.honest_className hv
    cases hk : v.keep with
    | true => exact .inl ⟨by rw [if_pos rfl], hhonest.1 hk⟩
    | false =>
      refine .inr ⟨by rw [hindex]; rfl, by rw [if_neg (by simp)], fun hnil => ?_⟩
      rw [hhonest.2 hnil] at hk
      cases hk

/-! Parts. -/

/-- A part of a removal, and the field that it looks at. -/
structure Part where
  number : UInt32
  sweep : Sweep

/-- A part looks at its field alone, shows there what it reports, and leaves a message in its
room. -/
structure Part.Sound (p : Part) : Prop where
  elsewhere : ∀ {m m' changes}, p.sweep m = .ok (m', changes) →
    ∀ n, n ≠ p.number → m'.occurrences n = m.occurrences n
  shorter : ∀ {m m' changes}, p.sweep m = .ok (m', changes) →
    m'.fields.length ≤ m.fields.length
  shows : ∀ {m m' changes}, p.sweep m = .ok (m', changes) → changes.removed ≠ [] →
    m'.occurrences p.number ≠ m.occurrences p.number
  room : ∀ {m m' changes}, p.sweep m = .ok (m', changes) → m'.room ≤ m.room
  fits : ∀ {m m' changes}, p.sweep m = .ok (m', changes) → m.Fits →
    10 * m.bytes.length < UInt64.size → m'.Fits

/-- A verdict that reports a removal drops what it was passed on. -/
theorem exists_dropped {α : Type} {judged : α → Verdict → Prop} (keep : α → Bool)
    (hhonest : ∀ {a v}, judged a v → v.Honest ∧ keep a = v.keep) {as : List α} {vs : List Verdict}
    (h : List.Forall₂ judged as vs) (hremoved : (Verdict.total vs).removed ≠ []) :
    (as.filter keep).length < as.length := by
  rw [Verdict.total_removed] at hremoved
  induction h with
  | nil => exact absurd rfl hremoved
  | @cons a v as vs hv _ ih =>
    obtain ⟨hv, hkeep⟩ := hhonest hv
    have hle := List.length_filter_le keep as
    cases hk : v.keep with
    | true =>
      rw [List.flatMap_cons, hv.1 hk, List.nil_append] at hremoved
      rw [List.filter_cons_of_pos (hkeep ▸ hk), List.length_cons, List.length_cons]
      have := ih hremoved
      omega
    | false =>
      rw [List.filter_cons_of_neg (by simp [hkeep, hk]), List.length_cons]
      omega

theorem records_sound {judge : Message → Except Fault Verdict}
    (hnested : FieldNumber.classNested ≠ number) (hsealed : FieldNumber.classSealed ≠ number)
    (hhonest : ∀ {record v}, judge record = .ok v → v.Honest) :
    Part.Sound ⟨number, records number judge⟩ where
  elsewhere := by
    intro m m' changes h n hn
    obtain ⟨vs, -, rfl, -⟩ := records_ok_iff.1 h
    exact Message.occurrences_keepValues_of_ne _ hn
  shorter := by
    intro m m' changes h
    obtain ⟨vs, -, rfl, -⟩ := records_ok_iff.1 h
    exact Message.length_keepValues_le _
  shows := by
    intro m m' changes h hremoved heq
    obtain ⟨vs, hvs, rfl, rfl⟩ := records_ok_iff.1 h
    have hlt := exists_dropped (keeps judge)
      (fun hv => ⟨by obtain ⟨b, record, -, -, hv⟩ := hv; exact hhonest hv, hv.keeps⟩) hvs hremoved
    rw [Message.occurrences_keepValues] at heq
    exact Nat.ne_of_lt hlt (congrArg List.length heq)
  room := by
    intro m m' changes h
    obtain ⟨vs, -, rfl, -⟩ := records_ok_iff.1 h
    exact m.room_keepValues_le hnested hsealed _
  fits := by
    intro m m' changes h hfits _
    obtain ⟨vs, -, rfl, -⟩ := records_ok_iff.1 h
    exact Message.fits_keepValues _ hfits

theorem elements_sound {judge : Int32 → Except Fault Verdict}
    (hnumber : number = FieldNumber.classNested ∨ number = FieldNumber.classSealed)
    (hhonest : ∀ {i v}, judge i = .ok v → v.Honest) :
    Part.Sound ⟨number, elements number judge⟩ where
  elsewhere := by
    intro m m' changes h n hn
    obtain ⟨l, vs, hl, -, rfl, -⟩ := elements_ok_iff.1 h
    rw [Message.keepInts, hl]
    dsimp only
    split
    · rfl
    · exact Message.occurrences_setPacked_of_ne _ hn
  shorter := by
    intro m m' changes h
    obtain ⟨l, vs, hl, -, rfl, -⟩ := elements_ok_iff.1 h
    rw [Message.keepInts, hl]
    dsimp only
    split
    · exact Nat.le_refl _
    · exact Message.length_setPacked_le hl (List.length_filter_le ..)
  shows := by
    intro m m' changes h hremoved heq
    obtain ⟨l, vs, hl, hvs, rfl, rfl⟩ := elements_ok_iff.1 h
    have hlt := exists_dropped (keepsInt judge)
      (fun hv => ⟨hhonest hv, by simp [keepsInt, hv]⟩) hvs hremoved
    rw [Message.keepInts, hl] at heq
    dsimp only at heq
    rw [if_neg (Nat.ne_of_lt hlt)] at heq
    have hints : (m.setPacked number (l.filter (keepsInt judge))).ints number = m.ints number := by
      rw [Message.ints, heq, Message.ints]
    rw [Message.ints_setPacked, hl] at hints
    rw [Except.ok.inj hints] at hlt
    omega
  room := by
    intro m m' changes h
    obtain ⟨l, vs, hl, -, rfl, -⟩ := elements_ok_iff.1 h
    rw [Message.keepInts, hl]
    dsimp only
    split
    · exact Nat.le_refl _
    · exact Message.room_setPacked_le hnumber hl (List.length_filter_le ..)
  fits := by
    intro m m' changes h hfits hsize
    obtain ⟨l, vs, hl, -, rfl, -⟩ := elements_ok_iff.1 h
    rw [Message.keepInts, hl]
    dsimp only
    split
    · exact hfits
    · exact Message.fits_setPacked (by rcases hnumber with rfl | rfl <;> decide) hl
        (List.length_filter_le ..) hfits hsize

theorem companion_sound (j : Judge) :
    Part.Sound ⟨FieldNumber.classCompanion, companion j⟩ where
  elsewhere := by
    intro m m' changes h n hn
    obtain ⟨rfl, -⟩ | ⟨-, rfl, -⟩ := companion_ok h
    · rfl
    · rw [Message.remove_eq, Message.occurrences_keepValues_of_ne _ hn]
  shorter := by
    intro m m' changes h
    obtain ⟨rfl, -⟩ | ⟨-, rfl, -⟩ := companion_ok h
    · exact Nat.le_refl _
    · rw [Message.remove_eq]
      exact Message.length_keepValues_le _
  shows := by
    intro m m' changes h hremoved heq
    obtain ⟨-, hnone⟩ | ⟨hsome, rfl, -⟩ := companion_ok h
    · exact hremoved hnone
    · rw [Message.remove_eq, Message.occurrences_keepValues] at heq
      rw [Message.int?, ← heq] at hsome
      simp at hsome
  room := by
    intro m m' changes h
    obtain ⟨rfl, -⟩ | ⟨-, rfl, -⟩ := companion_ok h
    · exact Nat.le_refl _
    · rw [Message.remove_eq]
      exact m.room_keepValues_le (by decide) (by decide) _
  fits := by
    intro m m' changes h hfits _
    obtain ⟨rfl, -⟩ | ⟨-, rfl, -⟩ := companion_ok h
    · exact hfits
    · rw [Message.remove_eq]
      exact Message.fits_keepValues _ hfits

/-- Parts in a row, no two for one field. -/
structure Parts (parts : List Part) : Prop where
  each : ∀ p ∈ parts, p.Sound
  distinct : (parts.map (·.number)).Nodup

theorem Parts.tail {p : Part} {parts : List Part} (h : Parts (p :: parts)) : Parts parts :=
  ⟨fun q hq => h.each q (List.mem_cons_of_mem _ hq), (List.nodup_cons.1 h.distinct).2⟩

theorem sequence_cons_ok {sweep : Sweep} {sweeps : List Sweep}
    (h : sequence (sweep :: sweeps) m = .ok (m', changes)) :
    ∃ m₁ c₁ c₂, sweep m = .ok (m₁, c₁) ∧ sequence sweeps m₁ = .ok (m', c₂) ∧
      changes = c₁ ++ c₂ := by
  rw [sequence] at h
  obtain ⟨⟨m₁, c₁⟩, h₁, h⟩ := bind_ok_iff.1 h
  obtain ⟨⟨m₂, c₂⟩, h₂, h⟩ := bind_ok_iff.1 h
  cases h
  exact ⟨m₁, c₁, c₂, h₁, h₂, rfl⟩

theorem sequence_elsewhere {parts : List Part} (hs : ∀ p ∈ parts, p.Sound)
    (h : sequence (parts.map (·.sweep)) m = .ok (m', changes)) {n : UInt32}
    (hn : n ∉ parts.map (·.number)) : m'.occurrences n = m.occurrences n := by
  induction parts generalizing m changes with
  | nil =>
    cases h
    rfl
  | cons p parts ih =>
    obtain ⟨m₁, c₁, c₂, h₁, h₂, rfl⟩ := sequence_cons_ok h
    rw [List.map_cons, List.mem_cons, not_or] at hn
    rw [ih (fun q hq => hs q (List.mem_cons_of_mem _ hq)) h₂ hn.2,
      (hs p (List.mem_cons_self ..)).elsewhere h₁ n hn.1]

/-- A removal that reports something leaves another message, and no longer one. -/
theorem sequence_shows {parts : List Part} (hs : Parts parts)
    (h : sequence (parts.map (·.sweep)) m = .ok (m', changes)) :
    m'.fields.length ≤ m.fields.length ∧
      (changes.removed ≠ [] → ∃ n, m'.occurrences n ≠ m.occurrences n) := by
  induction parts generalizing m changes with
  | nil =>
    cases h
    exact ⟨Nat.le_refl _, fun hremoved => absurd rfl hremoved⟩
  | cons p parts ih =>
    obtain ⟨m₁, c₁, c₂, h₁, h₂, rfl⟩ := sequence_cons_ok h
    have hpart := hs.each p (List.mem_cons_self ..)
    have hnumber : p.number ∉ parts.map (·.number) := (List.nodup_cons.1 hs.distinct).1
    obtain ⟨hlength, hshows⟩ := ih hs.tail h₂
    refine ⟨Nat.le_trans hlength (hpart.shorter h₁), fun hremoved => ?_⟩
    by_cases hc : c₁.removed = []
    · by_contra hnone
      simp only [not_exists, not_not] at hnone
      have hlater : c₂.removed ≠ [] := by
        intro hnil
        exact hremoved (show c₁.removed ++ c₂.removed = [] by rw [hc, hnil]; rfl)
      obtain ⟨n, hn⟩ := hshows hlater
      by_cases hp : n = p.number
      · subst hp
        exact hn (sequence_elsewhere hs.tail.each h₂ hnumber)
      · exact hn (by rw [hnone n, hpart.elsewhere h₁ n hp])
    · refine ⟨p.number, ?_⟩
      rw [sequence_elsewhere hs.tail.each h₂ hnumber]
      exact hpart.shows h₁ hc

theorem sequence_room {parts : List Part} (hs : ∀ p ∈ parts, p.Sound)
    (h : sequence (parts.map (·.sweep)) m = .ok (m', changes)) : m'.room ≤ m.room := by
  induction parts generalizing m changes with
  | nil =>
    cases h
    exact Nat.le_refl _
  | cons p parts ih =>
    obtain ⟨m₁, c₁, c₂, h₁, h₂, rfl⟩ := sequence_cons_ok h
    exact Nat.le_trans (ih (fun q hq => hs q (List.mem_cons_of_mem _ hq)) h₂)
      ((hs p (List.mem_cons_self ..)).room h₁)

theorem sequence_fits {parts : List Part} (hs : ∀ p ∈ parts, p.Sound)
    (h : sequence (parts.map (·.sweep)) m = .ok (m', changes)) (hfits : m.Fits)
    (hroom : 10 * m.room < UInt64.size) : m'.Fits := by
  induction parts generalizing m changes with
  | nil =>
    cases h
    exact hfits
  | cons p parts ih =>
    obtain ⟨m₁, c₁, c₂, h₁, h₂, rfl⟩ := sequence_cons_ok h
    have hpart := hs p (List.mem_cons_self ..)
    have hbytes := m.length_bytes_le_room
    have hlater := hpart.room h₁
    exact ih (fun q hq => hs q (List.mem_cons_of_mem _ hq)) h₂
      (hpart.fits h₁ hfits (by omega)) (by omega)

open FieldNumber

/-- The parts of the removal from a class. -/
def classParts (j : Judge) : List Part := [
  ⟨classConstructor, records classConstructor j.constructor⟩,
  ⟨classFunction, records classFunction (j.function (some j.owner))⟩,
  ⟨classProperty, records classProperty j.property⟩,
  ⟨classEnumEntry, records classEnumEntry j.enumEntry⟩,
  ⟨classNested, elements classNested (j.className j.nestedName .nested)⟩,
  ⟨classSealed, elements classSealed (j.className ClassId.internalName .sealedSubclass)⟩,
  ⟨classCompanion, companion j⟩]

def packageParts (j : Judge) : List Part := [
  ⟨packageFunction, records packageFunction (j.function none)⟩,
  ⟨packageProperty, records packageProperty j.property⟩]

theorem classParts_parts (j : Judge) : Parts (classParts j) where
  each := by
    simp only [classParts, List.forall_mem_cons, List.not_mem_nil, false_implies, implies_true,
      and_true]
    exact ⟨records_sound (by decide) (by decide) Judge.honest_constructor,
      records_sound (by decide) (by decide) Judge.honest_function,
      records_sound (by decide) (by decide) Judge.honest_property,
      records_sound (by decide) (by decide) Judge.honest_enumEntry,
      elements_sound (.inl rfl) Judge.honest_className,
      elements_sound (.inr rfl) Judge.honest_className, companion_sound j⟩
  distinct := by
    show [classConstructor, classFunction, classProperty, classEnumEntry, classNested,
      classSealed, classCompanion].Nodup
    decide

theorem packageParts_parts (j : Judge) : Parts (packageParts j) where
  each := by
    simp only [packageParts, List.forall_mem_cons, List.not_mem_nil, false_implies, implies_true,
      and_true]
    exact ⟨records_sound (by decide) (by decide) Judge.honest_function,
      records_sound (by decide) (by decide) Judge.honest_property⟩
  distinct := by
    show [packageFunction, packageProperty].Nodup
    decide

end Sweep

open Metadata.Sweep

/-- What records of the payload are judged by. -/
def Payload.judge (p : Payload) (owner : String) (t : Tracker) (types : TypeTable) : Judge :=
  ⟨owner, t, ⟨p.strings, types⟩⟩

/-- The parts of the removal from a payload. -/
def Payload.parts (p : Payload) (owner : String) (t : Tracker) (types : TypeTable) : List Part :=
  if p.kind = .classFile then classParts (p.judge owner t types)
  else packageParts (p.judge owner t types)

theorem Payload.parts_parts (p : Payload) (owner : String) (t : Tracker) (types : TypeTable) :
    Parts (p.parts owner t types) := by
  unfold parts
  split
  · exact classParts_parts _
  · exact packageParts_parts _

theorem Payload.sweep_ok_iff {p p' : Payload} {owner : String} {t : Tracker} {changes : Changes} :
    p.sweep owner t = .ok (p', changes) ↔
      ∃ types container, TypeTable.ofContainer p.container = .ok types ∧
        sequence ((p.parts owner t types).map (·.sweep)) p.container = .ok (container, changes) ∧
        p' = { p with container } := by
  have hsequence (types : TypeTable) :
      (if p.kind = .classFile then ofClass (p.judge owner t types)
        else ofPackage (p.judge owner t types)) =
        sequence ((p.parts owner t types).map (·.sweep)) := by
    unfold parts
    split <;> rfl
  unfold sweep
  rw [bind_ok_iff]
  constructor
  · rintro ⟨types, htypes, h⟩
    obtain ⟨⟨container, c⟩, hc, h⟩ := bind_ok_iff.1 h
    cases h
    exact ⟨types, container, htypes, hsequence types ▸ hc, rfl⟩
  · rintro ⟨types, container, htypes, h, rfl⟩
    rw [← hsequence types] at h
    exact ⟨types, htypes, bind_ok_iff.2 ⟨_, h, rfl⟩⟩

end JarPruning.Metadata
