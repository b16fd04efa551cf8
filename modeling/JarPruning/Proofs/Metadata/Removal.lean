import JarPruning.Metadata.Removal
import JarPruning.Proofs.Metadata.Wire

/-!
What removal leaves of a container. Each part of it looks at the occurrences of one field and
touches no other, so what one part removed is still gone when all are through.
-/
namespace JarPruning.Metadata

/-! Values of a field. -/

namespace Message

/-- The message without the occurrences of a field that `keep` rejects. -/
def keepValues (number : UInt32) (keep : WireValue → Bool) (m : Message) : Message :=
  ⟨m.fields.filter fun f => f.number ≠ number || keep f.value⟩

/-- The message without the numbers of a repeated field that `keep` rejects. -/
def keepInts (number : UInt32) (keep : Int32 → Bool) (m : Message) : Message :=
  match m.ints number with
  | .ok l => if (l.filter keep).length = l.length then m else m.setPacked number (l.filter keep)
  | .error _ => m

variable {m m' : Message} {number n : UInt32}

theorem ints_congr (h : m'.occurrences number = m.occurrences number) :
    m'.ints number = m.ints number := by
  unfold ints
  rw [h]

theorem int?_congr (h : m'.occurrences number = m.occurrences number) :
    m'.int? number = m.int? number := by
  unfold int?
  rw [h]

theorem retainFields_map (keep : WireValue → Bool) (fields : List WireField) :
    retainFields number (((fields.filter (·.number = number)).map (·.value)).map keep) fields =
      fields.filter fun f => f.number ≠ number || keep f.value := by
  induction fields with
  | nil => simp [retainFields]
  | cons f fields ih =>
    by_cases hn : f.number = number
    · rw [List.filter_cons_of_pos (by simpa using hn), List.map_cons, List.map_cons, retainFields,
        if_pos hn]
      cases hk : keep f.value
      · rw [if_neg (by simp), ih, List.filter_cons_of_neg (by simp [hn, hk])]
      · rw [if_pos rfl, ih, List.filter_cons_of_pos (by simp [hk])]
    · rw [List.filter_cons_of_neg (by simpa using hn), List.filter_cons_of_pos (by simp [hn])]
      cases hkeep : ((fields.filter (·.number = number)).map (·.value)).map keep with
      | nil =>
        rw [hkeep] at ih
        rw [retainFields, ← ih]
        · cases fields <;> simp [retainFields]
        · simp
      | cons k ks =>
        rw [hkeep] at ih
        rw [retainFields, if_neg hn, ih]

theorem retain_eq (keep : WireValue → Bool) :
    m.retain number ((m.occurrences number).map keep) = m.keepValues number keep :=
  congrArg Message.mk (retainFields_map keep m.fields)

theorem remove_eq : m.remove number = m.keepValues number fun _ => false := by
  simp [remove, keepValues]

theorem occurrences_keepValues (keep : WireValue → Bool) :
    (m.keepValues number keep).occurrences number = (m.occurrences number).filter keep := by
  unfold occurrences keepValues
  rw [List.filter_filter, List.filter_map, List.filter_filter]
  congr 1
  refine List.filter_congr fun f _ => ?_
  by_cases hn : f.number = number <;> simp [hn]

theorem occurrences_keepValues_of_ne (keep : WireValue → Bool) (h : n ≠ number) :
    (m.keepValues number keep).occurrences n = m.occurrences n := by
  unfold occurrences keepValues
  rw [List.filter_filter]
  congr 1
  refine List.filter_congr fun f _ => ?_
  by_cases hn : f.number = n
  · subst hn
    simp [h]
  · simp [hn]

theorem filter_of_ne (h : n ≠ number) (fields : List WireField) :
    (fields.filter (·.number ≠ number)).filter (·.number = n) = fields.filter (·.number = n) := by
  rw [List.filter_filter]
  refine List.filter_congr fun f _ => ?_
  by_cases hf : f.number = n
  · simp [hf, h]
  · simp [hf]

theorem replaceFirst_others (value : WireValue) (fields : List WireField) :
    (replaceFirst number ⟨number, value⟩ fields).filter (·.number ≠ number) =
      fields.filter (·.number ≠ number) := by
  induction fields with
  | nil => simp [replaceFirst]
  | cons f fields ih =>
    rw [replaceFirst]
    split
    · next hf => simp [hf]
    · next hf =>
      rw [List.filter_cons_of_pos (by simpa using hf), ih, List.filter_cons_of_pos (by simpa using hf)]

theorem replaceFirst_filter_of_ne (value : WireValue) (h : n ≠ number) (fields : List WireField) :
    (replaceFirst number ⟨number, value⟩ fields).filter (·.number = n) =
      fields.filter (·.number = n) := by
  rw [← filter_of_ne h, replaceFirst_others, filter_of_ne h]

theorem replaceFirst_filter (value : WireValue) (fields : List WireField) :
    (replaceFirst number ⟨number, value⟩ fields).filter (·.number = number) =
      [⟨number, value⟩] := by
  induction fields with
  | nil => simp [replaceFirst]
  | cons f fields ih =>
    rw [replaceFirst]
    split
    · rw [List.filter_cons_of_pos (by simp), List.filter_filter]
      simp
    · next hf => rw [List.filter_cons_of_neg (by simp [hf]), ih]

theorem occurrences_setPacked_of_ne (values : List Int32) (h : n ≠ number) :
    (m.setPacked number values).occurrences n = m.occurrences n := by
  unfold setPacked
  split
  · rw [remove_eq, occurrences_keepValues_of_ne _ h]
  · exact congrArg (List.map _) (replaceFirst_filter_of_ne _ h m.fields)

theorem occurrences_setPacked (values : List Int32) :
    (m.setPacked number values).occurrences number =
      if values.isEmpty then [] else [packed values] := by
  unfold setPacked
  split
  · rw [remove_eq, occurrences_keepValues]
    simp
  · exact congrArg (List.map _) (replaceFirst_filter (packed values) m.fields)

theorem toInt32_of_extended (v : Int32) : v.toInt64.toUInt64.toUInt32.toInt32 = v := by
  apply Int32.toBitVec_inj.1
  have hbits : (v.toInt64.toUInt64.toUInt32.toInt32).toBitVec =
      (v.toBitVec.signExtend 64).setWidth 32 := rfl
  rw [hbits]
  ext i hi
  have hlong : i < 64 := by omega
  simp [BitVec.getElem_signExtend, hi, hlong]

theorem intsOf_packed (number : UInt32) (values : List Int32) :
    intsOf number (packed values) = .ok values := by
  have hreads (v : UInt64) : Parse.Reads Varint.decode (Varint.encode v.toNat) v := by
    have hv := Varint.decode_encode v.toNat_lt
    rwa [UInt64.ofNat_toNat] at hv
  have hall : Parse.all Varint.decode Varint.decode_shortens
      ((values.map fun v => v.toInt64.toUInt64).flatMap fun v => Varint.encode v.toNat) =
        .ok (values.map fun v => v.toInt64.toUInt64) :=
    Parse.all_flatMap fun v _ => hreads v
  rw [List.flatMap_map] at hall
  rw [packed, intsOf, hall]
  simp only [Except.map, List.map_map]
  exact congrArg Except.ok (List.map_id'' toInt32_of_extended values)

theorem ints_setPacked (values : List Int32) :
    (m.setPacked number values).ints number = .ok values := by
  unfold ints
  rw [occurrences_setPacked]
  cases values with
  | nil => rfl
  | cons v values =>
    have hread := intsOf_packed number (v :: values)
    simp [hread, bind, Except.bind, pure, Except.pure]

theorem keepInts_eq_self {l : List Int32} (hl : m.ints number = .ok l) {keep : Int32 → Bool}
    (hkeep : ∀ i ∈ l, keep i = true) : m.keepInts number keep = m := by
  rw [keepInts, hl]
  dsimp only
  rw [List.filter_eq_self.2 hkeep, if_pos rfl]

theorem ints_keepInts {l : List Int32} (hl : m.ints number = .ok l) (keep : Int32 → Bool) :
    (m.keepInts number keep).ints number = .ok (l.filter keep) := by
  rw [keepInts, hl]
  dsimp only
  split
  · next hlength => rw [hl, List.filter_eq_self.2 (List.length_filter_eq_length_iff.1 hlength)]
  · exact ints_setPacked _

/-- A repeated field that has a number has an occurrence. -/
theorem occurrences_ne_nil_of_ints {l : List Int32} (h : m.ints number = .ok l) (hl : l ≠ []) :
    m.occurrences number ≠ [] := by
  intro hnil
  rw [ints, hnil] at h
  cases h
  exact hl rfl

theorem length_replaceFirst_le (new : WireField) {fields : List WireField}
    (h : fields.filter (·.number = number) ≠ []) :
    (replaceFirst number new fields).length ≤ fields.length := by
  induction fields with
  | nil => simp at h
  | cons f fields ih =>
    rw [replaceFirst]
    split
    · have := List.length_filter_le (fun g : WireField => decide (g.number ≠ number)) fields
      rw [List.length_cons, List.length_cons]
      omega
    · next hf =>
      rw [List.filter_cons_of_neg (by simpa using hf)] at h
      have := ih h
      rw [List.length_cons, List.length_cons]
      omega

theorem length_keepValues_le (keep : WireValue → Bool) :
    (m.keepValues number keep).fields.length ≤ m.fields.length :=
  List.length_filter_le ..

theorem length_setPacked_le {l values : List Int32} (h : m.ints number = .ok l)
    (hle : values.length ≤ l.length) :
    (m.setPacked number values).fields.length ≤ m.fields.length := by
  unfold setPacked
  split
  · rw [remove_eq]
    exact length_keepValues_le _
  · next hvalues =>
    have hl : l ≠ [] := by
      intro hnil
      rw [hnil, List.length_nil, Nat.le_zero, List.length_eq_zero_iff] at hle
      exact hvalues (List.isEmpty_iff.2 hle)
    refine length_replaceFirst_le _ fun hnil => occurrences_ne_nil_of_ints h hl ?_
    rw [occurrences, hnil]
    rfl

/-! Sizes. -/

theorem length_intsOf_le {value : WireValue} {l : List Int32} (h : intsOf number value = .ok l) :
    l.length ≤ value.bytes.length := by
  cases value with
  | varint v =>
    cases h
    exact Varint.length_encode_pos _
  | block b =>
    obtain ⟨vs, hvs, rfl⟩ := map_ok_iff.1 h
    have := Parse.length_all_le hvs
    rw [List.length_map, WireValue.bytes, delimited, List.length_append]
    omega
  | fixed64 _ => cases h
  | fixed32 _ => cases h

/-- Every number takes a byte at least. -/
theorem length_ints_le {l : List Int32} (h : m.ints number = .ok l) :
    l.length ≤ m.bytes.length := by
  obtain ⟨ls, hls, h⟩ := bind_ok_iff.1 h
  cases h
  rw [mapM_ok_iff] at hls
  clear h
  obtain ⟨fields⟩ := m
  unfold bytes
  unfold occurrences at hls
  dsimp only at hls ⊢
  induction fields generalizing ls with
  | nil =>
    cases hls
    exact Nat.le_refl _
  | cons f fields ih =>
    rw [List.flatMap_cons, List.length_append]
    by_cases hf : f.number = number
    · rw [List.filter_cons_of_pos (by simpa using hf), List.map_cons] at hls
      obtain _ | ⟨hl, hls⟩ := hls
      have hone := length_intsOf_le hl
      have hrest := ih _ hls
      rw [List.flatten_cons, List.length_append, WireField.bytes, List.length_append]
      omega
    · rw [List.filter_cons_of_neg (by simpa using hf)] at hls
      have hrest := ih _ hls
      omega

theorem length_bytes_filter_le (keep : WireField → Bool) (fields : List WireField) :
    ((fields.filter keep).flatMap WireField.bytes).length ≤
      (fields.flatMap WireField.bytes).length := by
  induction fields with
  | nil => exact Nat.le_refl _
  | cons f fields ih =>
    rw [List.filter_cons]
    split
    · rw [List.flatMap_cons, List.flatMap_cons, List.length_append, List.length_append]
      omega
    · rw [List.flatMap_cons, List.length_append]
      omega

theorem length_bytes_keepValues_le (m : Message) (number : UInt32) (keep : WireValue → Bool) :
    (m.keepValues number keep).bytes.length ≤ m.bytes.length :=
  length_bytes_filter_le _ _

theorem fits_keepValues (keep : WireValue → Bool) (h : m.Fits) :
    (m.keepValues number keep).Fits := fun f hf => h f (List.mem_of_mem_filter hf)

/-- The bytes of a packed block. -/
theorem packed_eq (values : List Int32) :
    ∃ block, packed values = .block block ∧ block.length ≤ 10 * values.length := by
  refine ⟨_, rfl, ?_⟩
  induction values with
  | nil => exact Nat.le_refl _
  | cons v values ih =>
    have hsize : UInt64.size ≤ 128 ^ 10 := by decide
    have hv := v.toInt64.toUInt64.toNat_lt
    have := Varint.length_encode_le v.toInt64.toUInt64.toNat 10 (by omega) (by omega)
    rw [List.flatMap_cons, List.length_append, List.length_cons]
    omega

theorem length_bytes_packed_le (number : UInt32) (values : List Int32) :
    (WireField.bytes ⟨number, packed values⟩).length ≤ 20 * values.length + 11 := by
  obtain ⟨block, hpacked, hblock⟩ := packed_eq values
  have hkey : (Varint.encode (number.toNat * 8 + 2)).length ≤ 10 := by
    have hnumber := number.toNat_lt
    have hsize : 2 ^ 36 ≤ 128 ^ 10 := by decide
    exact Varint.length_encode_le _ 10 (by omega) (by omega)
  have hlength := Varint.length_encode_le_succ block.length
  rw [hpacked, WireField.bytes, WireValue.bytes, delimited, List.length_append, List.length_append]
  show (Varint.encode (number.toNat * 8 + 2)).length + _ ≤ _
  omega

theorem mem_replaceFirst {new f : WireField} {fields : List WireField}
    (h : f ∈ replaceFirst number new fields) : f = new ∨ f ∈ fields := by
  induction fields with
  | nil => exact .inl (List.mem_singleton.1 h)
  | cons g fields ih =>
    rw [replaceFirst] at h
    split at h
    · obtain rfl | h := List.mem_cons.1 h
      · exact .inl rfl
      · exact .inr (List.mem_cons_of_mem _ (List.mem_of_mem_filter h))
    · obtain rfl | h := List.mem_cons.1 h
      · exact .inr (List.mem_cons_self ..)
      · exact (ih h).imp_right (List.mem_cons_of_mem _)

theorem fits_setPacked {l values : List Int32} (hnumber : number ≠ 0) (h : m.ints number = .ok l)
    (hle : values.length ≤ l.length) (hfits : m.Fits)
    (hsize : 10 * m.bytes.length < UInt64.size) : (m.setPacked number values).Fits := by
  have hl := length_ints_le h
  unfold setPacked
  split
  · rw [remove_eq]
    exact fits_keepValues _ hfits
  · intro f hf
    obtain rfl | hf := mem_replaceFirst hf
    · obtain ⟨block, hpacked, hblock⟩ := packed_eq values
      refine ⟨hnumber, ?_⟩
      show (packed values).Fits
      rw [hpacked]
      show block.length < UInt64.size
      omega
    · exact hfits f hf

end Message

/-! Verdicts. -/

namespace Verdict

theorem foldl_changes (vs : List Verdict) (c : Changes) :
    vs.foldl (fun c v => c ++ v.changes) c =
      ⟨c.removed ++ vs.flatMap (·.changes.removed), c.methods ++ vs.flatMap (·.changes.methods),
        c.fields ++ vs.flatMap (·.changes.fields),
        c.mismatches ++ vs.flatMap (·.changes.mismatches)⟩ := by
  induction vs generalizing c with
  | nil => simp
  | cons v vs ih =>
    rw [List.foldl_cons, ih]
    show Changes.mk _ _ _ _ = _
    simp only [List.flatMap_cons, ← List.append_assoc]
    rfl

theorem total_removed (vs : List Verdict) :
    (total vs).removed = vs.flatMap (·.changes.removed) := by
  rw [total, foldl_changes]
  rfl

theorem total_methods (vs : List Verdict) :
    (total vs).methods = vs.flatMap (·.changes.methods) := by
  rw [total, foldl_changes]
  rfl

theorem total_fields (vs : List Verdict) :
    (total vs).fields = vs.flatMap (·.changes.fields) := by
  rw [total, foldl_changes]
  rfl

/-- A verdict reports a removal if and only if it drops. -/
def Honest (v : Verdict) : Prop := v.keep = true ↔ v.changes.removed = []

theorem honest_keep : Honest {} := ⟨fun _ => rfl, fun _ => rfl⟩

theorem honest_drop (removed : Removed) (methods : List Member) (fields : List FieldTarget) :
    (drop removed methods fields).Honest := by
  constructor <;> intro h <;> cases h

end Verdict

namespace Judge

variable {j : Judge} {v : Verdict}

theorem honest_function {owner : Option String} {record : Message}
    (h : j.function owner record = .ok v) : v.Honest := by
  unfold function at h
  obtain ⟨s, -, h⟩ := bind_ok_iff.1 h
  cases s with
  | none =>
    cases h
    exact Verdict.honest_keep
  | some s =>
    dsimp only at h
    split at h
    · cases h
      exact Verdict.honest_drop ..
    · cases h
      exact Verdict.honest_keep

theorem honest_constructor {record : Message} (h : j.constructor record = .ok v) :
    v.Honest := by
  unfold constructor at h
  obtain ⟨s, -, h⟩ := bind_ok_iff.1 h
  cases s with
  | none =>
    cases h
    exact Verdict.honest_keep
  | some s =>
    dsimp only at h
    split at h
    · cases h
      exact Verdict.honest_drop ..
    · cases h
      exact Verdict.honest_keep

/-- Whether a property goes. -/
def propertyGone (j : Judge) (p : PropertySignature) : Bool :=
  ((backingField? p).any fun f => (j.fieldVerdict p.name f).1) || (accessors p).any j.isGone

theorem property_ok {record : Message} (h : j.property record = .ok v) :
    ∃ p, j.resolver.property record = .ok p ∧ v.keep = !j.propertyGone p ∧
      v.changes.removed = (if j.propertyGone p then [.property p.name] else []) ∧
      v.changes.methods = (if j.propertyGone p then members p else []) ∧
      v.changes.fields = if j.propertyGone p then (backingField? p).toList else [] := by
  unfold property at h
  obtain ⟨p, hp, h⟩ := bind_ok_iff.1 h
  refine ⟨p, hp, ?_⟩
  cases hf : backingField? p with
  | none =>
    have hgone : (accessors p).any j.isGone = j.propertyGone p := by simp [propertyGone, hf]
    simp only [hf, Bool.false_or, hgone] at h
    cases hp : j.propertyGone p <;> simp only [hp] at h <;> cases h <;> exact ⟨rfl, rfl, rfl, rfl⟩
  | some f =>
    have hgone : ((j.fieldVerdict p.name f).1 || (accessors p).any j.isGone) = j.propertyGone p := by
      simp [propertyGone, hf]
    simp only [hf, hgone] at h
    cases hp : j.propertyGone p <;> simp only [hp] at h <;> cases h <;> exact ⟨rfl, rfl, rfl, rfl⟩

theorem honest_property {record : Message} (h : j.property record = .ok v) : v.Honest := by
  obtain ⟨p, -, hkeep, hremoved, -⟩ := property_ok h
  unfold Verdict.Honest
  rw [hkeep, hremoved]
  cases j.propertyGone p <;> simp

theorem honest_enumEntry {record : Message} (h : j.enumEntry record = .ok v) : v.Honest := by
  unfold enumEntry at h
  split at h
  · cases h
    exact Verdict.honest_keep
  · obtain ⟨name, -, h⟩ := bind_ok_iff.1 h
    split at h
    · cases h
      exact Verdict.honest_drop ..
    · cases h
      exact Verdict.honest_keep

theorem honest_className {full : String → String} {removed : String → Removed} {index : Int32}
    (h : j.className full removed index = .ok v) : v.Honest := by
  unfold className at h
  obtain ⟨name, -, h⟩ := bind_ok_iff.1 h
  dsimp only at h
  split at h
  · cases h
    exact Verdict.honest_drop ..
  · cases h
    exact Verdict.honest_keep

end Judge

end JarPruning.Metadata
