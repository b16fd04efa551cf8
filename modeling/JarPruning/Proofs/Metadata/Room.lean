import JarPruning.Proofs.Metadata.Removal

/-!
The room that a container takes. A removal packs the lists of classes anew, which may take more bytes
than they were read from, but never more than their lengths allow. So there is a bound on the bytes
that no removal raises.
-/
namespace JarPruning.Metadata

open FieldNumber

namespace Message

/-- How many numbers a repeated field has, if it can be read. -/
def count (m : Message) (number : UInt32) : Nat :=
  match m.ints number with
  | .ok l => l.length
  | .error _ => 0

/-- The bytes of a field. -/
def span (m : Message) (number : UInt32) : Nat :=
  ((m.occurrences number).flatMap fun value => WireField.bytes ⟨number, value⟩).length

/-- What a repeated field may take beyond its bytes when it is packed anew. -/
def slack (m : Message) (number : UInt32) : Nat := 20 * m.count number + 11 - m.span number

/-- The bytes of a message, with what the lists of classes may take beyond. -/
def room (m : Message) : Nat := m.bytes.length + m.slack classNested + m.slack classSealed

variable {m m' : Message} {number : UInt32}

theorem count_of_ints {l : List Int32} (h : m.ints number = .ok l) : m.count number = l.length := by
  rw [count, h]

theorem count_congr (h : m'.occurrences number = m.occurrences number) :
    m'.count number = m.count number := by
  unfold count ints
  rw [h]

theorem count_le (m : Message) (number : UInt32) : m.count number ≤ m.bytes.length := by
  cases h : m.ints number with
  | error e => simp [count, h]
  | ok l =>
    rw [count_of_ints h]
    exact length_ints_le h

theorem slack_congr (h : m'.occurrences number = m.occurrences number) :
    m'.slack number = m.slack number := by
  unfold slack span
  rw [count_congr h, h]

theorem length_bytes_le_room (m : Message) : m.bytes.length ≤ m.room :=
  Nat.le_trans (Nat.le_add_right ..) (Nat.le_add_right ..)

theorem room_le (m : Message) : m.room ≤ 41 * m.bytes.length + 22 := by
  have hnested := m.count_le classNested
  have hsealed := m.count_le classSealed
  unfold room slack
  omega

/-- The bytes of a field and of those beside it. -/
theorem length_bytes_eq (m : Message) (number : UInt32) :
    m.bytes.length = (m.remove number).bytes.length + m.span number := by
  obtain ⟨fields⟩ := m
  show (fields.flatMap WireField.bytes).length =
    ((fields.filter (·.number ≠ number)).flatMap WireField.bytes).length +
      (((fields.filter (·.number = number)).map (·.value)).flatMap
        fun value => WireField.bytes ⟨number, value⟩).length
  induction fields with
  | nil => rfl
  | cons f fields ih =>
    by_cases hf : f.number = number
    · subst hf
      rw [List.filter_cons_of_neg (by simp), List.filter_cons_of_pos (by simp), List.map_cons,
        List.flatMap_cons, List.flatMap_cons, List.length_append, List.length_append, ih]
      exact Nat.add_left_comm ..
    · rw [List.filter_cons_of_pos (by simpa using hf), List.filter_cons_of_neg (by simpa using hf),
        List.flatMap_cons, List.flatMap_cons, List.length_append, List.length_append, ih]
      omega

theorem remove_setPacked (m : Message) (number : UInt32) (values : List Int32) :
    (m.setPacked number values).remove number = m.remove number := by
  unfold setPacked
  split
  · simp [remove]
  · exact congrArg Message.mk (replaceFirst_others _ _)

theorem span_setPacked_le (m : Message) (number : UInt32) (values : List Int32) :
    (m.setPacked number values).span number ≤ 20 * values.length + 11 := by
  rw [span, occurrences_setPacked]
  split
  · exact Nat.zero_le _
  · rw [List.flatMap_cons, List.flatMap_nil, List.append_nil]
    exact length_bytes_packed_le number values

/-- Numbers that are packed anew take no more than those that were there might take. -/
theorem setPacked_slack {l values : List Int32} (h : m.ints number = .ok l)
    (hle : values.length ≤ l.length) :
    (m.setPacked number values).bytes.length + (m.setPacked number values).slack number ≤
      m.bytes.length + m.slack number := by
  have hbefore := m.length_bytes_eq number
  have hafter := (m.setPacked number values).length_bytes_eq number
  have hspan := m.span_setPacked_le number values
  rw [remove_setPacked] at hafter
  unfold slack
  rw [count_of_ints h, count_of_ints (ints_setPacked values)]
  omega

theorem room_keepValues_le (m : Message) (hnested : classNested ≠ number)
    (hsealed : classSealed ≠ number) (keep : WireValue → Bool) :
    (m.keepValues number keep).room ≤ m.room := by
  have hbytes := m.length_bytes_keepValues_le number keep
  unfold room
  rw [slack_congr (occurrences_keepValues_of_ne _ hnested),
    slack_congr (occurrences_keepValues_of_ne _ hsealed)]
  omega

theorem room_setPacked_le {l values : List Int32}
    (hnumber : number = classNested ∨ number = classSealed) (h : m.ints number = .ok l)
    (hle : values.length ≤ l.length) :
    (m.setPacked number values).room ≤ m.room := by
  have hown := setPacked_slack h hle
  have helsewhere (n : UInt32) (hn : n ≠ number) :
      (m.setPacked number values).slack n = m.slack n :=
    slack_congr (occurrences_setPacked_of_ne values hn)
  unfold room
  rcases hnumber with rfl | rfl
  · rw [helsewhere classSealed (by decide)]
    omega
  · rw [helsewhere classNested (by decide)]
    omega

end Message

end JarPruning.Metadata
