import JarPruning.Proofs.Metadata.Records
import JarPruning.Proofs.Metadata.Roundtrip

/-!
The weight of metadata: as often as it can lose something. A removal that reports something makes
the container lighter. Strings that do not tell their packing may be read in another way once they
are packed anew, but no more than once.
-/
namespace JarPruning.Metadata

open FieldNumber

namespace Message

/-- The fields, and the names in the lists of classes. -/
def weight (m : Message) : Nat := m.fields.length + m.count classNested + m.count classSealed

variable {m m' : Message} {number : UInt32}

theorem length_fields_le (m : Message) : m.fields.length ≤ m.bytes.length := by
  unfold bytes
  induction m.fields with
  | nil => exact Nat.le_refl _
  | cons f fields ih =>
    have hkey := Varint.length_encode_pos (f.number.toNat * 8 + f.value.wireType)
    rw [List.flatMap_cons, List.length_append, List.length_cons, WireField.bytes, List.length_append]
    omega

theorem weight_le (m : Message) : m.weight ≤ 3 * m.bytes.length := by
  have hfields := m.length_fields_le
  have hnested := m.count_le classNested
  have hsealed := m.count_le classSealed
  unfold weight
  omega

/-- A message that lost occurrences of a field lost fields. -/
theorem length_keepValues_lt {keep : WireValue → Bool}
    (h : ((m.occurrences number).filter keep).length < (m.occurrences number).length) :
    (m.keepValues number keep).fields.length < m.fields.length := by
  refine Nat.lt_of_le_of_ne (length_keepValues_le keep) fun heq => ?_
  have hsame : (m.keepValues number keep).fields = m.fields :=
    List.filter_sublist.eq_of_length heq
  have hoccurrences := @occurrences_keepValues m number keep
  rw [← hoccurrences, occurrences, hsame] at h
  exact absurd h (Nat.lt_irrefl _)

end Message

namespace Sweep

variable {m m' : Message} {number : UInt32} {changes : Changes}

/-- A part that reports a removal makes the message lighter. -/
def Part.Lightens (p : Part) : Prop :=
  ∀ ⦃m m' changes⦄, p.sweep m = .ok (m', changes) → changes.removed ≠ [] → m'.weight < m.weight

theorem records_lighten {judge : Message → Except Fault Verdict}
    (hnested : classNested ≠ number) (hsealed : classSealed ≠ number)
    (hhonest : ∀ {record v}, judge record = .ok v → v.Honest) :
    Part.Lightens ⟨number, records number judge⟩ := by
  intro m m' changes h hremoved
  obtain ⟨vs, hvs, rfl, rfl⟩ := records_ok_iff.1 h
  have hfewer := exists_dropped (keeps judge)
    (fun hv => ⟨by obtain ⟨b, record, -, -, hv⟩ := hv; exact hhonest hv, hv.keeps⟩) hvs hremoved
  have hlength := Message.length_keepValues_lt hfewer
  unfold Message.weight
  rw [Message.count_congr (Message.occurrences_keepValues_of_ne _ hnested),
    Message.count_congr (Message.occurrences_keepValues_of_ne _ hsealed)]
  omega

/-- A list that lost a number is shorter, and the other lists are as long as they were. -/
theorem elements_counts {judge : Int32 → Except Fault Verdict}
    (hhonest : ∀ {i v}, judge i = .ok v → v.Honest)
    (h : elements number judge m = .ok (m', changes)) (hremoved : changes.removed ≠ []) :
    m'.fields.length ≤ m.fields.length ∧ m'.count number < m.count number ∧
      ∀ n, n ≠ number → m'.count n = m.count n := by
  obtain ⟨l, vs, hl, hvs, rfl, rfl⟩ := elements_ok_iff.1 h
  have hfewer := exists_dropped (keepsInt judge)
    (fun hv => ⟨hhonest hv, by simp [keepsInt, hv]⟩) hvs hremoved
  have hset : m.keepInts number (keepsInt judge) =
      m.setPacked number (l.filter (keepsInt judge)) := by
    rw [Message.keepInts, hl]
    exact if_neg (Nat.ne_of_lt hfewer)
  rw [hset, Message.count_of_ints hl, Message.count_of_ints (Message.ints_setPacked _)]
  exact ⟨Message.length_setPacked_le hl (Nat.le_of_lt hfewer), hfewer,
    fun n hn => Message.count_congr (Message.occurrences_setPacked_of_ne _ hn)⟩

theorem elements_lighten {judge : Int32 → Except Fault Verdict}
    (hnumber : number = classNested ∨ number = classSealed)
    (hhonest : ∀ {i v}, judge i = .ok v → v.Honest) :
    Part.Lightens ⟨number, elements number judge⟩ := by
  intro m m' changes h hremoved
  obtain ⟨hfields, hcount, helsewhere⟩ := elements_counts hhonest h hremoved
  unfold Message.weight
  rcases hnumber with rfl | rfl
  · rw [helsewhere classSealed (by decide)]
    omega
  · rw [helsewhere classNested (by decide)]
    omega

theorem companion_lightens (j : Judge) :
    Part.Lightens ⟨classCompanion, companion j⟩ := by
  intro m m' changes h hremoved
  rcases companion_ok h with ⟨-, hnone⟩ | ⟨hsome, rfl, -⟩
  · exact absurd hnone hremoved
  · have hoccurs : m.occurrences classCompanion ≠ [] := by
      intro hnil
      simp [Message.int?, hnil] at hsome
    have hlength : (m.keepValues classCompanion fun _ => false).fields.length < m.fields.length := by
      refine Message.length_keepValues_lt ?_
      rw [List.filter_eq_nil_iff.2 (by simp)]
      exact List.length_pos_of_ne_nil hoccurs
    rw [Message.remove_eq]
    unfold Message.weight
    rw [Message.count_congr (Message.occurrences_keepValues_of_ne _ (by decide)),
      Message.count_congr (Message.occurrences_keepValues_of_ne _ (by decide))]
    omega

theorem sequence_lightens {parts : List Part} (hquiet : ∀ p ∈ parts, p.Quiet)
    (hlightens : ∀ p ∈ parts, p.Lightens)
    (h : sequence (parts.map (·.sweep)) m = .ok (m', changes)) :
    m'.weight ≤ m.weight ∧ (changes.removed ≠ [] → m'.weight < m.weight) := by
  induction parts generalizing m changes with
  | nil =>
    cases h
    exact ⟨Nat.le_refl _, fun hremoved => absurd rfl hremoved⟩
  | cons p parts ih =>
    obtain ⟨m₁, c₁, c₂, h₁, h₂, rfl⟩ := sequence_cons_ok h
    obtain ⟨hle, hlt⟩ := ih (fun q hq => hquiet q (List.mem_cons_of_mem _ hq))
      (fun q hq => hlightens q (List.mem_cons_of_mem _ hq)) h₂
    by_cases hc : c₁.removed = []
    · obtain rfl := hquiet p (List.mem_cons_self ..) h₁ hc
      refine ⟨hle, fun hremoved => hlt fun hnil => hremoved ?_⟩
      show c₁.removed ++ c₂.removed = []
      rw [hc, hnil, List.append_nil]
    · have hfirst := hlightens p (List.mem_cons_self ..) h₁ hc
      exact ⟨by omega, fun _ => by omega⟩

end Sweep

namespace Payload

open Metadata.Sweep

variable {kind : Kind} {d1 d2 : List String} {p p' : Payload} {owner : String} {t : Tracker}
  {changes : Changes}

theorem parts_lighten (p : Payload) (owner : String) (t : Tracker) (types : TypeTable) :
    ∀ q ∈ p.parts owner t types, q.Lightens := by
  unfold parts
  split
  · simp only [classParts, List.forall_mem_cons, List.not_mem_nil, false_implies, implies_true,
      and_true]
    exact ⟨records_lighten (by decide) (by decide) Judge.honest_constructor,
      records_lighten (by decide) (by decide) Judge.honest_function,
      records_lighten (by decide) (by decide) Judge.honest_property,
      records_lighten (by decide) (by decide) Judge.honest_enumEntry,
      elements_lighten (.inl rfl) Judge.honest_className,
      elements_lighten (.inr rfl) Judge.honest_className, companion_lightens _⟩
  · simp only [packageParts, List.forall_mem_cons, List.not_mem_nil, false_implies, implies_true,
      and_true]
    exact ⟨records_lighten (by decide) (by decide) Judge.honest_function,
      records_lighten (by decide) (by decide) Judge.honest_property⟩

theorem sweep_lightens (h : p.sweep owner t = .ok (p', changes)) (hremoved : changes.removed ≠ []) :
    p'.container.weight < p.container.weight := by
  obtain ⟨types, container, -, hsequence, rfl⟩ := sweep_ok_iff.1 h
  exact (sequence_lightens (p.parts_quiet owner t types) (p.parts_lighten owner t types)
    hsequence).2 hremoved

/-- More than strings that do not tell their packing may weigh once they are packed anew. -/
def rereadLimit (d1 : List String) : Nat := 246 * (d1.flatMap (·.toList)).length + 139

/-- The weight of packed strings. Those that do not tell their packing weigh more than what they may
be taken for once they are packed anew. -/
def weightOf (kind : Kind) (d1 d2 : List String) : Nat :=
  match decode kind d1 d2 with
  | .ok p => p.container.weight + if Packing.Told d1 then 0 else rereadLimit d1
  | .error _ => 0

theorem weightOf_ok (h : decode kind d1 d2 = .ok p) :
    weightOf kind d1 d2 = p.container.weight + if Packing.Told d1 then 0 else rereadLimit d1 := by
  rw [weightOf, h]

theorem weight_le_of_decode (h : decode kind d1 d2 = .ok p) :
    p.container.weight ≤ 3 * (d1.flatMap (·.toList)).length := by
  have hsizes := sizes_of_decode h
  have hweight := p.container.weight_le
  omega

theorem weightOf_le (kind : Kind) (d1 d2 : List String) :
    weightOf kind d1 d2 ≤ 249 * (d1.flatMap (·.toList)).length + 139 := by
  cases h : decode kind d1 d2 with
  | error e =>
    rw [weightOf, h]
    exact Nat.zero_le _
  | ok p =>
    have hweight := weight_le_of_decode h
    rw [weightOf_ok h, rereadLimit]
    split <;> omega

/-- Packed strings that lost a record are lighter. -/
theorem weightOf_encode_lt (h : decode kind d1 d2 = .ok p) (hmoderate : Moderate d1)
    (hs : p.sweep owner t = .ok (p', changes)) (hremoved : changes.removed ≠ []) :
    weightOf kind p'.encode d2 < weightOf kind d1 d2 := by
  have htold' : Packing.Told p'.encode := Packing.told_encode _ _
  rw [weightOf_ok h]
  by_cases htold : Packing.Told d1
  · have hlighter := sweep_lightens hs hremoved
    have hfits := sweep_fits h hmoderate hs
    obtain ⟨types, container, -, -, rfl⟩ := sweep_ok_iff.1 hs
    rw [weightOf_ok (decode_encode h htold hfits), if_pos htold, if_pos htold']
    exact hlighter
  · rw [if_neg htold]
    cases hdecode : decode kind p'.encode d2 with
    | error e =>
      rw [weightOf, hdecode]
      exact Nat.lt_of_lt_of_le (Nat.succ_pos _) (Nat.le_add_left ..)
    | ok p'' =>
      -- What the new strings are taken for has nothing in common with the payload but its size.
      have hweight := weight_le_of_decode hdecode
      have hchars := p'.length_chars_encode_le
      have hroom := Nat.le_trans (room_sweep_le hs) (room_le_of_decode h)
      rw [weightOf_ok hdecode, if_pos htold', rereadLimit]
      omega

end Payload

end JarPruning.Metadata
