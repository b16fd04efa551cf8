import Mathlib.Data.List.Basic
import JarPruning.Proofs.Metadata.Removal

/-!
Edits of one field of a message. The occurrences of the field are afterwards those that the edit says,
where it says; every other field stands as it stood, and is read as it was.
-/
namespace JarPruning.Metadata.Message

variable {m m' : Message} {number n : UInt32}

theorem block?_congr (h : m'.occurrences number = m.occurrences number) :
    m'.block? number = m.block? number := by
  unfold block?
  rw [h]

theorem messages_congr (h : m'.occurrences number = m.occurrences number) :
    m'.messages number = m.messages number := by
  unfold messages
  rw [h]

/-- Both have the same fields but for those of a number, in the same order, and so the same answers for
every other number. -/
structure SameBut (number : UInt32) (m m' : Message) : Prop where
  others : m'.fields.filter (·.number ≠ number) = m.fields.filter (·.number ≠ number)
  int? : ∀ n ≠ number, m'.int? n = m.int? n
  block? : ∀ n ≠ number, m'.block? n = m.block? n
  messages : ∀ n ≠ number, m'.messages n = m.messages n
  ints : ∀ n ≠ number, m'.ints n = m.ints n

theorem sameBut_of_others
    (h : m'.fields.filter (·.number ≠ number) = m.fields.filter (·.number ≠ number)) :
    SameBut number m m' := by
  have hoccurrences (n : UInt32) (hn : n ≠ number) : m'.occurrences n = m.occurrences n := by
    unfold occurrences
    rw [← filter_of_ne hn m'.fields, h, filter_of_ne hn]
  exact ⟨h, fun n hn => int?_congr (hoccurrences n hn), fun n hn => block?_congr (hoccurrences n hn),
    fun n hn => messages_congr (hoccurrences n hn), fun n hn => ints_congr (hoccurrences n hn)⟩

/-! Removal. -/

theorem has_remove (m : Message) (number : UInt32) : (m.remove number).has number = false := by
  simp [has, remove]

theorem remove_same (m : Message) (number : UInt32) : SameBut number m (m.remove number) := by
  apply sameBut_of_others
  simp [remove]

/-! Packing. -/

theorem setPacked_same (m : Message) (number : UInt32) (values : List Int32) :
    SameBut number m (m.setPacked number values) := by
  unfold setPacked
  split
  · exact remove_same m number
  · exact sameBut_of_others (replaceFirst_others _ m.fields)

/-- Where the occurrences of a field stand. -/
def positions (m : Message) (number : UInt32) : List Nat :=
  m.fields.findIdxs (·.number = number)

/-- What is put in stands where the first occurrence stood, and at the end if there was none. -/
theorem findIdxs_replaceFirst (value : WireValue) (fields : List WireField) (start : Nat) :
    (replaceFirst number ⟨number, value⟩ fields).findIdxs (·.number = number) start =
      [fields.findIdx (·.number = number) + start] := by
  induction fields generalizing start with
  | nil => simp [replaceFirst]
  | cons f fields ih =>
    rw [replaceFirst, List.findIdx_cons]
    split
    · next hf =>
      have hrest : (fields.filter (·.number ≠ number)).findIdxs (·.number = number) (start + 1) = [] :=
        List.findIdxs_eq_nil_iff.2 (by simp)
      rw [List.findIdxs_cons, hrest]
      simp [hf]
    · next hf =>
      rw [List.findIdxs_cons, ih]
      simp [hf, Nat.add_assoc, Nat.add_comm 1]

theorem positions_setPacked (m : Message) (number : UInt32) (values : List Int32) :
    (m.setPacked number values).positions number =
      if values.isEmpty then [] else [m.fields.findIdx (·.number = number)] := by
  unfold setPacked positions
  split
  · exact List.findIdxs_eq_nil_iff.2 (by simp [remove])
  · exact findIdxs_replaceFirst _ m.fields 0

/-! Choosing by position. -/

/-- The values at the positions where `keep` says so, and at those beyond `keep`. -/
def keptValues (keep : List Bool) (values : List WireValue) : List WireValue :=
  (values.zipIdx.filter fun v => keep.getD v.2 true).map (·.1)

theorem keptValues_nil (values : List WireValue) : keptValues [] values = values := by
  simp [keptValues]

theorem keptValues_cons (k : Bool) (keep : List Bool) (v : WireValue) (values : List WireValue) :
    keptValues (k :: keep) (v :: values) =
      if k then v :: keptValues keep values else keptValues keep values := by
  unfold keptValues
  rw [List.zipIdx_cons', List.filter_cons, List.filter_map]
  cases k <;> simp [Function.comp_def]

theorem retainFields_others (keep : List Bool) (fields : List WireField) :
    (retainFields number keep fields).filter (·.number ≠ number) =
      fields.filter (·.number ≠ number) := by
  fun_induction retainFields number keep fields with
  | case1 => rfl
  | case2 => rfl
  | case3 keep f fields hf ih =>
    rw [List.filter_cons_of_neg (by simp [hf]), List.filter_cons_of_neg (by simp [hf]), ih]
  | case4 k keep f fields hf hk ih => rw [List.filter_cons_of_neg (by simp [hf]), ih]
  | case5 k keep f fields hf ih =>
    rw [List.filter_cons_of_pos (by simpa using hf), List.filter_cons_of_pos (by simpa using hf), ih]

theorem retain_same (m : Message) (number : UInt32) (keep : List Bool) :
    SameBut number m (m.retain number keep) :=
  sameBut_of_others (retainFields_others keep m.fields)

theorem retainFields_kept (keep : List Bool) (fields : List WireField) :
    ((retainFields number keep fields).filter (·.number = number)).map (·.value) =
      keptValues keep ((fields.filter (·.number = number)).map (·.value)) := by
  fun_induction retainFields number keep fields with
  | case1 => rfl
  | case2 => rw [keptValues_nil]
  | case3 keep f fields hf ih =>
    rw [List.filter_cons_of_pos (by simpa using hf), List.filter_cons_of_pos (by simpa using hf),
      List.map_cons, List.map_cons, keptValues_cons, if_pos rfl, ih]
  | case4 k keep f fields hf hk ih =>
    rw [List.filter_cons_of_pos (by simpa using hf), List.map_cons, keptValues_cons, if_neg hk, ih]
  | case5 k keep f fields hf ih =>
    rw [List.filter_cons_of_neg (by simpa using hf), List.filter_cons_of_neg (by simpa using hf), ih]

theorem occurrences_retain (m : Message) (number : UInt32) (keep : List Bool) :
    (m.retain number keep).occurrences number = keptValues keep (m.occurrences number) :=
  retainFields_kept keep m.fields

/-- Numbers that are packed are read back from the one place where the field first stood, or at the
end; what is chosen by position is what is left; what is removed is gone. No edit touches another
field. -/
theorem edits_one_field (m : Message) (number : UInt32) (values : List Int32) (keep : List Bool) :
    ((m.setPacked number values).ints number = .ok values ∧
      (m.setPacked number values).positions number =
        (if values.isEmpty then [] else [m.fields.findIdx (·.number = number)]) ∧
      SameBut number m (m.setPacked number values)) ∧
    ((m.retain number keep).occurrences number = keptValues keep (m.occurrences number) ∧
      SameBut number m (m.retain number keep)) ∧
    ((m.remove number).has number = false ∧ SameBut number m (m.remove number)) :=
  ⟨⟨ints_setPacked values, positions_setPacked m number values, setPacked_same m number values⟩,
    ⟨occurrences_retain m number keep, retain_same m number keep⟩,
    has_remove m number, remove_same m number⟩

/-- The second of two occurrences is beyond what is said, and stays. -/
example :
    Message.retain ⟨[⟨7, .block [1, 2]⟩, ⟨8, .varint 4⟩, ⟨7, .varint 3⟩]⟩ 7 [false] =
      ⟨[⟨8, .varint 4⟩, ⟨7, .varint 3⟩]⟩ := by
  decide

end JarPruning.Metadata.Message
