import JarPruning.Proofs.Metadata.Idle

/-!
What a removal leaves of a container, read off the fields that were there: some records are missing,
and lists of names may be packed anew. What is reported is what is missing, name by name, and a
second removal finds nothing.
-/
namespace JarPruning.Metadata

open FieldNumber

/-- What is taken from a container: fields by themselves, and the numbers left of the lists that are
packed anew. -/
structure Trim where
  stays : WireField → Bool
  packs : UInt32 → Option (List Int32)

namespace Trim

/-- What is left of fields, in their order. A list that is packed anew stands where its first field
stood, if a number of it is left; `seen` are the lists that stand already. -/
def fields (t : Trim) : (seen : List UInt32) → List WireField → List WireField
  | _, [] => []
  | seen, f :: fs =>
    match t.packs f.number with
    | some kept =>
      let rest := t.fields (f.number :: seen) fs
      if f.number ∈ seen ∨ kept = [] then rest else ⟨f.number, Message.packed kept⟩ :: rest
    | none => if t.stays f then f :: t.fields seen fs else t.fields seen fs

def apply (t : Trim) (m : Message) : Message := ⟨t.fields [] m.fields⟩

/-- Nothing is taken from the fields of a number. -/
structure Spares (t : Trim) (number : UInt32) : Prop where
  unpacked : t.packs number = none
  stay : ∀ f : WireField, f.number = number → t.stays f = true

/-- Both take the same from the fields of a number. -/
structure AgreesAt (t t' : Trim) (number : UInt32) : Prop where
  packs : t'.packs number = t.packs number
  stays : ∀ f : WireField, f.number = number → t'.stays f = t.stays f

def nothing : Trim := ⟨fun _ => true, fun _ => none⟩

/-- Takes the fields of a number that `keep` rejects, too. -/
def drop (t : Trim) (number : UInt32) (keep : WireValue → Bool) : Trim :=
  { t with stays := fun f => t.stays f && (f.number ≠ number || keep f.value) }

/-- Packs the list of a number anew, too. -/
def pack (t : Trim) (number : UInt32) (kept : List Int32) : Trim :=
  { t with packs := fun n => if n = number then some kept else t.packs n }

variable {t t' : Trim} {number n : UInt32} {keep : WireValue → Bool} {kept : List Int32}
  {m : Message} {seen : List UInt32}

theorem fields_packed {f : WireField} {fs : List WireField} (h : t.packs f.number = some kept) :
    t.fields seen (f :: fs) =
      if f.number ∈ seen ∨ kept = [] then t.fields (f.number :: seen) fs
      else ⟨f.number, Message.packed kept⟩ :: t.fields (f.number :: seen) fs := by
  rw [fields, h]

theorem fields_unpacked {f : WireField} {fs : List WireField} (h : t.packs f.number = none) :
    t.fields seen (f :: fs) =
      if t.stays f then f :: t.fields seen fs else t.fields seen fs := by
  rw [fields, h]

theorem spares_nothing (number : UInt32) : nothing.Spares number := ⟨rfl, fun _ _ => rfl⟩

theorem Spares.agree (h : t.Spares number) (hagrees : t.AgreesAt t' number) :
    t'.Spares number :=
  ⟨hagrees.packs.trans h.unpacked, fun f hf => (hagrees.stays f hf).trans (h.stay f hf)⟩

theorem agreesAt_drop (h : n ≠ number) : t.AgreesAt (t.drop number keep) n where
  packs := rfl
  stays f hf := by simp [drop, hf, h]

theorem agreesAt_pack (h : n ≠ number) : t.AgreesAt (t.pack number kept) n where
  packs := if_neg h
  stays _ _ := rfl

theorem fields_nothing (seen : List UInt32) (fs : List WireField) :
    nothing.fields seen fs = fs := by
  induction fs generalizing seen with
  | nil => rfl
  | cons f fs ih =>
    show f :: nothing.fields seen fs = f :: fs
    rw [ih]

theorem apply_nothing (m : Message) : nothing.apply m = m :=
  congrArg Message.mk (fields_nothing [] m.fields)

theorem filter_fields (h : t.Spares n) (seen : List UInt32) (fs : List WireField) :
    (t.fields seen fs).filter (·.number = n) = fs.filter (·.number = n) := by
  induction fs generalizing seen with
  | nil => rfl
  | cons f fs ih =>
    by_cases hf : f.number = n
    · rw [fields_unpacked (hf ▸ h.unpacked), if_pos (h.stay f hf),
        List.filter_cons_of_pos (by simpa using hf), ih,
        List.filter_cons_of_pos (by simpa using hf)]
    rw [List.filter_cons_of_neg (by simpa using hf)]
    cases hpacks : t.packs f.number with
    | some kept =>
      rw [fields_packed hpacks]
      split
      · exact ih _
      · rw [List.filter_cons_of_neg (by simpa using hf), ih]
    | none =>
      rw [fields_unpacked hpacks]
      split
      · rw [List.filter_cons_of_neg (by simpa using hf), ih]
      · exact ih _

theorem occurrences_apply (h : t.Spares n) (m : Message) :
    (t.apply m).occurrences n = m.occurrences n :=
  congrArg (List.map _) (filter_fields h [] m.fields)

/-! Taking more. -/

theorem fields_drop (h : t.packs number = none) (seen : List UInt32) (fs : List WireField) :
    (t.fields seen fs).filter (fun f => f.number ≠ number || keep f.value) =
      (t.drop number keep).fields seen fs := by
  induction fs generalizing seen with
  | nil => rfl
  | cons f fs ih =>
    have hpacks : (t.drop number keep).packs f.number = t.packs f.number := rfl
    have hstays : (t.drop number keep).stays f =
        (t.stays f && (f.number ≠ number || keep f.value)) := rfl
    cases hf : t.packs f.number with
    | some kept =>
      have hne : f.number ≠ number := by
        rintro rfl
        cases hf.symm.trans h
      rw [fields_packed hf, fields_packed (hpacks.trans hf)]
      split
      · exact ih _
      · rw [List.filter_cons_of_pos (by simp [hne]), ih]
    | none =>
      rw [fields_unpacked hf, fields_unpacked (hpacks.trans hf), hstays]
      cases t.stays f with
      | false => exact ih _
      | true => rw [if_pos rfl, Bool.true_and, List.filter_cons, ih]

theorem apply_drop (h : t.packs number = none) (m : Message) :
    (t.apply m).keepValues number keep = (t.drop number keep).apply m :=
  congrArg Message.mk (fields_drop h [] m.fields)

theorem fields_pack_rest (h : t.Spares number) {seen seen' : List UInt32}
    (hsame : ∀ n, n ≠ number → (n ∈ seen ↔ n ∈ seen')) (hdone : number ∈ seen' ∨ kept = [])
    (fs : List WireField) :
    (t.fields seen fs).filter (fun f => f.number ≠ number) =
      (t.pack number kept).fields seen' fs := by
  induction fs generalizing seen seen' with
  | nil => rfl
  | cons f fs ih =>
    by_cases hf : f.number = number
    · have hpacked : (t.pack number kept).packs f.number = some kept := if_pos hf
      rw [fields_unpacked (hf ▸ h.unpacked), if_pos (h.stay f hf), fields_packed hpacked,
        if_pos (hf ▸ hdone), List.filter_cons_of_neg (by simp [hf])]
      exact ih (fun n hn => by simp [hsame n hn, hf, hn]) (.inl (by simp [hf]))
    have hpacks : (t.pack number kept).packs f.number = t.packs f.number := if_neg hf
    have hstays : (t.pack number kept).stays f = t.stays f := rfl
    cases hold : t.packs f.number with
    | some kept' =>
      have hrest : (t.fields (f.number :: seen) fs).filter (fun f => f.number ≠ number) =
          (t.pack number kept).fields (f.number :: seen') fs :=
        ih (fun n hn => by simp [hsame n hn]) (hdone.imp_left (List.mem_cons_of_mem _))
      rw [fields_packed hold, fields_packed (hpacks.trans hold)]
      simp only [hsame _ hf]
      split
      · exact hrest
      · rw [List.filter_cons_of_pos (by simpa using hf), hrest]
    | none =>
      rw [fields_unpacked hold, fields_unpacked (hpacks.trans hold), hstays]
      split
      · rw [List.filter_cons_of_pos (by simpa using hf), ih hsame hdone]
      · exact ih hsame hdone

theorem fields_pack (h : t.Spares number) (hkept : kept ≠ []) {seen seen' : List UInt32}
    (hsame : ∀ n, n ≠ number → (n ∈ seen ↔ n ∈ seen')) (hnew : number ∉ seen')
    {fs : List WireField} (hfs : fs.filter (·.number = number) ≠ []) :
    Message.replaceFirst number ⟨number, Message.packed kept⟩ (t.fields seen fs) =
      (t.pack number kept).fields seen' fs := by
  induction fs generalizing seen seen' with
  | nil => exact absurd rfl hfs
  | cons f fs ih =>
    by_cases hf : f.number = number
    · have hpacked : (t.pack number kept).packs f.number = some kept := if_pos hf
      have hfirst : ¬ (f.number ∈ seen' ∨ kept = []) := by simp [hf, hnew, hkept]
      rw [fields_unpacked (hf ▸ h.unpacked), if_pos (h.stay f hf), fields_packed hpacked,
        if_neg hfirst, Message.replaceFirst, if_pos hf, hf,
        fields_pack_rest h (show ∀ n, n ≠ number → (n ∈ seen ↔ n ∈ number :: seen') from
          fun n hn => by simp [hsame n hn, hn]) (.inl (List.mem_cons_self ..))]
    rw [List.filter_cons_of_neg (by simpa using hf)] at hfs
    have hpacks : (t.pack number kept).packs f.number = t.packs f.number := if_neg hf
    have hstays : (t.pack number kept).stays f = t.stays f := rfl
    cases hold : t.packs f.number with
    | some kept' =>
      have hrest : Message.replaceFirst number ⟨number, Message.packed kept⟩
          (t.fields (f.number :: seen) fs) = (t.pack number kept).fields (f.number :: seen') fs :=
        ih (fun n hn => by simp [hsame n hn]) (by simp [Ne.symm hf, hnew]) hfs
      rw [fields_packed hold, fields_packed (hpacks.trans hold)]
      simp only [hsame _ hf]
      split
      · exact hrest
      · rw [Message.replaceFirst, if_neg hf, hrest]
    | none =>
      rw [fields_unpacked hold, fields_unpacked (hpacks.trans hold), hstays]
      split
      · rw [Message.replaceFirst, if_neg hf, ih hsame hnew hfs]
      · exact ih hsame hnew hfs

theorem apply_pack (h : t.Spares number) (hm : m.occurrences number ≠ []) :
    (t.apply m).setPacked number kept = (t.pack number kept).apply m := by
  unfold Message.setPacked
  split
  · next hnone =>
    refine congrArg Message.mk (fields_pack_rest h (fun _ _ => Iff.rfl) (.inr ?_) m.fields)
    exact List.isEmpty_iff.1 hnone
  · next hsome =>
    have hfs : m.fields.filter (·.number = number) ≠ [] := fun hnone => hm (by
      rw [Message.occurrences, hnone]
      rfl)
    exact congrArg Message.mk (fields_pack h (fun hnone => hsome (List.isEmpty_iff.2 hnone))
      (fun _ _ => Iff.rfl) List.not_mem_nil hfs)

end Trim

/-! What is reported. -/

/-- How the fields of a number are treated: as records one by one, as a list of names, or as a
name. -/
inductive Manner where
  | records | list | name

def Kind.manner? (kind : Kind) (number : UInt32) : Option Manner :=
  if kind = .classFile then
    if number ∈ [classConstructor, classFunction, classProperty, classEnumEntry] then some .records
    else if number ∈ [classNested, classSealed] then some .list
    else if number = classCompanion then some .name
    else none
  else if number ∈ [packageFunction, packageProperty] then some .records
  else none

namespace Removed

/-- The field in which it stood. -/
def number (kind : Kind) : Removed → UInt32
  | .function _ => Payload.functionNumber kind
  | .constructor _ => classConstructor
  | .property _ => Payload.propertyNumber kind
  | .enumEntry _ => classEnumEntry
  | .nested _ => classNested
  | .sealedSubclass _ => classSealed
  | .companion _ => classCompanion

/-- The report is about the record. -/
def NamesRecord (r : Resolver) (record : Message) : Removed → Prop
  | .function s => r.function? record = .ok (some s)
  | .constructor s => r.constructor? record = .ok (some s)
  | .property name => ∃ p, r.property record = .ok p ∧ p.name = name
  | .enumEntry name => ∃ i, record.int? enumEntryName = some i ∧ r.strings.get i = .ok name
  | _ => False

/-- The report is about the class whose name has the index. -/
def NamesClass (owner : String) (r : Resolver) (i : Int32) : Removed → Prop
  | .nested full => ∃ name, r.strings.get i = .ok name ∧ full = s!"{owner}${name}"
  | .sealedSubclass full => ∃ name, r.strings.get i = .ok name ∧ full = ClassId.internalName name
  | .companion full => ∃ name, r.strings.get i = .ok name ∧ full = s!"{owner}${name}"
  | _ => False

end Removed

/-- A verdict that keeps reports nothing, and one that drops reports one thing. -/
inductive Verdict.Exact (names : Removed → Prop) (v : Verdict) : Prop
  | keep (kept : v.keep = true) (silent : v.changes.removed = [])
  | drop {e : Removed} (dropped : v.keep = false) (reported : v.changes.removed = [e])
    (named : names e)

namespace Judge

variable {j : Judge} {v : Verdict} {record : Message} {kind : Kind}

/-- What is reported of a record in a field of the number. -/
def Reports (j : Judge) (kind : Kind) (number : UInt32) (record : Message) (e : Removed) : Prop :=
  e.number kind = number ∧ e.NamesRecord j.resolver record

theorem exact_function {owner : Option String} (h : j.function owner record = .ok v) :
    v.Exact (j.Reports kind (Payload.functionNumber kind) record) := by
  obtain ⟨s?, hs, h⟩ := bind_ok_iff.1 h
  cases s? with
  | none =>
    cases h
    exact .keep rfl rfl
  | some s =>
    dsimp only at h
    split at h
    · cases h
      exact .drop rfl rfl ⟨rfl, hs⟩
    · cases h
      exact .keep rfl rfl

theorem exact_constructor (h : j.constructor record = .ok v) :
    v.Exact (j.Reports kind classConstructor record) := by
  obtain ⟨s?, hs, h⟩ := bind_ok_iff.1 h
  cases s? with
  | none =>
    cases h
    exact .keep rfl rfl
  | some s =>
    dsimp only at h
    split at h
    · cases h
      exact .drop rfl rfl ⟨rfl, hs⟩
    · cases h
      exact .keep rfl rfl

theorem exact_property (h : j.property record = .ok v) :
    v.Exact (j.Reports kind (Payload.propertyNumber kind) record) := by
  obtain ⟨p, hp, hkeep, hremoved, -⟩ := property_ok h
  cases hgone : j.propertyGone p with
  | false =>
    rw [hgone] at hkeep hremoved
    exact .keep hkeep hremoved
  | true =>
    rw [hgone] at hkeep hremoved
    exact .drop hkeep hremoved ⟨rfl, p, hp, rfl⟩

theorem exact_enumEntry (h : j.enumEntry record = .ok v) :
    v.Exact (j.Reports kind classEnumEntry record) := by
  unfold enumEntry at h
  split at h
  · cases h
    exact .keep rfl rfl
  · next i hi =>
    obtain ⟨name, hname, h⟩ := bind_ok_iff.1 h
    split at h
    · cases h
      exact .drop rfl rfl ⟨rfl, i, hi, hname⟩
    · cases h
      exact .keep rfl rfl

/-- What is reported of a name in a field of the number. -/
def ReportsClass (j : Judge) (kind : Kind) (number : UInt32) (i : Int32) (e : Removed) : Prop :=
  e.number kind = number ∧ e.NamesClass j.owner j.resolver i

theorem exact_className {full : String → String} {removed : String → Removed} {number : UInt32}
    {i : Int32} (h : j.className full removed i = .ok v)
    (hnames : ∀ name, j.resolver.strings.get i = .ok name →
      j.ReportsClass kind number i (removed (full name))) :
    v.Exact (j.ReportsClass kind number i) := by
  obtain ⟨name, hname, h⟩ := bind_ok_iff.1 h
  dsimp only at h
  split at h
  · cases h
    exact .drop rfl rfl (hnames name hname)
  · cases h
    exact .keep rfl rfl

end Judge

/-- What is taken from the fields of a number, and what is reported of them. -/
inductive Trim.Reported (owner : String) (r : Resolver) (m : Message) (t : Trim)
    (number : UInt32) : Option Manner → List Removed → Prop
  | untouched (spared : t.Spares number) : Reported owner r m t number none []
  | records {es : List Removed} (unpacked : t.packs number = none)
    (each : List.Forall₂ (fun f e => ∃ b record, f.value = .block b ∧
        Message.ofBytes b = .ok record ∧ e.NamesRecord r record)
      (m.fields.filter fun f => f.number = number && !t.stays f) es) :
    Reported owner r m t number (some .records) es
  | whole {numbers : List Int32} (read : m.ints number = .ok numbers)
    (spared : t.Spares number) : Reported owner r m t number (some .list) []
  | packed {numbers : List Int32} {keep : Int32 → Bool} {es : List Removed}
    (read : m.ints number = .ok numbers)
    (each : List.Forall₂ (fun i e => e.NamesClass owner r i) (numbers.filter fun i => !keep i) es)
    (lost : es ≠ []) (packs : t.packs number = some (numbers.filter keep)) :
    Reported owner r m t number (some .list) es
  | named (spared : t.Spares number) : Reported owner r m t number (some .name) []
  | unnamed {i : Int32} {e : Removed} (unpacked : t.packs number = none)
    (gone : ∀ f : WireField, f.number = number → t.stays f = false)
    (read : m.int? number = some i) (each : e.NamesClass owner r i) :
    Reported owner r m t number (some .name) [e]

theorem Trim.Reported.agree {owner : String} {r : Resolver} {m : Message} {t t' : Trim}
    {number : UInt32} {manner : Option Manner} {es : List Removed}
    (h : t.Reported owner r m number manner es) (hagrees : t.AgreesAt t' number) :
    t'.Reported owner r m number manner es := by
  cases h with
  | untouched hspared => exact .untouched (hspared.agree hagrees)
  | records hunpacked heach =>
    refine .records (hagrees.packs.trans hunpacked) ?_
    have hsame : (m.fields.filter fun f => f.number = number && !t'.stays f) =
        m.fields.filter fun f => f.number = number && !t.stays f := by
      refine List.filter_congr fun f _ => ?_
      by_cases hf : f.number = number
      · rw [hagrees.stays f hf]
      · simp [hf]
    rwa [hsame]
  | whole hread hspared => exact .whole hread (hspared.agree hagrees)
  | packed hread heach hlost hpacks =>
    exact .packed hread heach hlost (hagrees.packs.trans hpacks)
  | named hspared => exact .named (hspared.agree hagrees)
  | unnamed hunpacked hgone hread heach =>
    exact .unnamed (hagrees.packs.trans hunpacked)
      (fun f hf => (hagrees.stays f hf).trans (hgone f hf)) hread heach

namespace Sweep

variable {m m' n : Message} {changes : Changes} {number : UInt32} {kind : Kind}
  {j : Judge}

/-- What is dropped is reported, in its order. -/
theorem total_reports {α : Type} {judged : α → Verdict → Prop} {names : α → Removed → Prop}
    (keep : α → Bool) (hexact : ∀ {a v}, judged a v → v.Exact (names a) ∧ keep a = v.keep)
    {as : List α} {vs : List Verdict} (h : List.Forall₂ judged as vs) :
    List.Forall₂ names (as.filter fun a => !keep a) (Verdict.total vs).removed := by
  rw [Verdict.total_removed]
  induction h with
  | nil => exact .nil
  | @cons a v as vs hv _ ih =>
    obtain ⟨hexact, hkeep⟩ := hexact hv
    rw [List.flatMap_cons]
    cases hexact with
    | keep hkept hsilent =>
      rw [List.filter_cons_of_neg (by simp [hkeep, hkept]), hsilent]
      exact ih
    | drop hdropped hreported hnamed =>
      rw [List.filter_cons_of_pos (by simp [hkeep, hdropped]), hreported]
      exact .cons hnamed ih

/-- A part takes from the fields of its number alone, and reports what it takes. -/
def Part.Trims (j : Judge) (kind : Kind) (p : Part) : Prop :=
  ∀ ⦃m m' : Message⦄ ⦃t : Trim⦄ ⦃changes : Changes⦄, t.Spares p.number →
    p.sweep (t.apply m) = .ok (m', changes) →
      (∀ e ∈ changes.removed, e.number kind = p.number) ∧ ∃ t' : Trim, m' = t'.apply m ∧
        (∀ n, n ≠ p.number → t.AgreesAt t' n) ∧
        t'.Reported j.owner j.resolver m p.number (kind.manner? p.number) changes.removed

theorem records_trims {judge : Message → Except Fault Verdict}
    (hmanner : kind.manner? number = some .records)
    (hexact : ∀ {record v}, judge record = .ok v → v.Exact (j.Reports kind number record)) :
    Part.Trims j kind ⟨number, records number judge⟩ := by
  intro m m' t changes hspares h
  obtain ⟨vs, hvs, rfl, rfl⟩ := records_ok_iff.1 h
  dsimp only at hspares ⊢
  rw [Trim.occurrences_apply hspares] at hvs
  have hreports : List.Forall₂ (fun value e => ∃ b record, value = .block b ∧
      Message.ofBytes b = .ok record ∧ j.Reports kind number record e)
      ((m.occurrences number).filter fun value => !keeps judge value)
      (Verdict.total vs).removed := total_reports (keeps judge) (fun hv => ⟨by
      obtain ⟨b, record, hb, hrecord, hv⟩ := hv
      cases hexact hv with
      | keep hkept hsilent => exact .keep hkept hsilent
      | drop hdropped hreported hnamed =>
        exact .drop hdropped hreported ⟨b, record, hb, hrecord, hnamed⟩, hv.keeps⟩) hvs
  refine ⟨fun e he => ?_, t.drop number (keeps judge), Trim.apply_drop hspares.unpacked m,
    fun n hn => Trim.agreesAt_drop hn, ?_⟩
  · obtain ⟨value, -, b, record, -, -, hnumber, -⟩ := forall₂_mem_right hreports he
    exact hnumber
  rw [hmanner]
  refine .records hspares.unpacked ?_
  have hfields : (m.fields.filter fun f => f.number = number &&
      !(t.drop number (keeps judge)).stays f) =
        (m.fields.filter (·.number = number)).filter fun f => !keeps judge f.value := by
    rw [List.filter_filter]
    refine List.filter_congr fun f _ => ?_
    by_cases hf : f.number = number
    · simp [Trim.drop, hf, hspares.stay f hf]
    · simp [hf]
  rw [hfields]
  unfold Message.occurrences at hreports
  rw [List.filter_map, List.forall₂_map_left_iff] at hreports
  exact hreports.imp fun f e ⟨b, record, hb, hrecord, _, hnamed⟩ => ⟨b, record, hb, hrecord, hnamed⟩

theorem elements_trims {judge : Int32 → Except Fault Verdict}
    (hmanner : kind.manner? number = some .list)
    (hexact : ∀ {i v}, judge i = .ok v → v.Exact (j.ReportsClass kind number i)) :
    Part.Trims j kind ⟨number, elements number judge⟩ := by
  intro m m' t changes hspares h
  obtain ⟨l, vs, hl, hvs, rfl, rfl⟩ := elements_ok_iff.1 h
  dsimp only at hspares ⊢
  have hints : m.ints number = .ok l :=
    (Message.ints_congr (Trim.occurrences_apply hspares m)).symm.trans hl
  have hreports := total_reports (keepsInt judge)
    (fun hv => ⟨hexact hv, by simp [keepsInt, hv]⟩) hvs
  rw [hmanner]
  refine ⟨fun e he => ?_, ?_⟩
  · obtain ⟨i, -, hnumber, -⟩ := forall₂_mem_right hreports he
    exact hnumber
  rw [Message.keepInts, hl]
  dsimp only
  split
  · next hlength =>
    have hall := List.length_filter_eq_length_iff.1 hlength
    have hnone : (l.filter fun i => !keepsInt judge i) = [] :=
      List.filter_eq_nil_iff.2 fun i hi => by simp [hall i hi]
    rw [hnone] at hreports
    rw [List.forall₂_nil_left_iff.1 hreports]
    exact ⟨t, rfl, fun _ _ => ⟨rfl, fun _ _ => rfl⟩, .whole hints hspares⟩
  · next hlength =>
    have hl : l ≠ [] := by
      rintro rfl
      exact hlength rfl
    refine ⟨t.pack number (l.filter (keepsInt judge)),
      Trim.apply_pack hspares (Message.occurrences_ne_nil_of_ints hints hl),
      fun n hn => Trim.agreesAt_pack hn,
      .packed hints (hreports.imp fun _ _ h => h.2) (fun hnone => hlength ?_) (if_pos rfl)⟩
    rw [hnone] at hreports
    have hempty := List.forall₂_nil_right_iff.1 hreports
    rw [List.filter_eq_nil_iff] at hempty
    exact congrArg List.length (List.filter_eq_self.2 fun i hi => by simpa using hempty i hi)

theorem companion_trims (hmanner : kind.manner? classCompanion = some .name) :
    Part.Trims j kind ⟨classCompanion, companion j⟩ := by
  intro m m' t changes hspares h
  dsimp only at hspares h ⊢
  have hint := Message.int?_congr (Trim.occurrences_apply hspares m)
  have hwhole : ∃ t' : Trim, t.apply m = t'.apply m ∧
      (∀ n, n ≠ classCompanion → t.AgreesAt t' n) ∧
        t'.Reported j.owner j.resolver m classCompanion (some .name) [] :=
    ⟨t, rfl, fun _ _ => ⟨rfl, fun _ _ => rfl⟩, .named hspares⟩
  rw [hmanner]
  unfold companion at h
  split at h
  · cases h
    exact ⟨by simp, hwhole⟩
  · next i hi =>
    obtain ⟨v, hv, h⟩ := bind_ok_iff.1 h
    cases h
    have hexact : v.Exact (j.ReportsClass kind classCompanion i) :=
      Judge.exact_className hv fun name hname => ⟨rfl, name, hname, rfl⟩
    cases hexact with
    | keep hkept hsilent =>
      rw [if_pos hkept, hsilent]
      exact ⟨by simp, hwhole⟩
    | drop hdropped hreported hnamed =>
      rw [if_neg (by simp [hdropped]), hreported, Message.remove_eq]
      refine ⟨by simp [hnamed.1], _, Trim.apply_drop hspares.unpacked m,
        fun n hn => Trim.agreesAt_drop hn, .unnamed hspares.unpacked ?_ (hint ▸ hi) hnamed.2⟩
      intro f hf
      simp [Trim.drop, hf]

/-- Parts in a row each take from their own fields, and report what they take. -/
theorem sequence_trims {parts : List Part} (hs : (parts.map (·.number)).Nodup)
    (hparts : ∀ p ∈ parts, p.Trims j kind) {t : Trim}
    (hspares : ∀ n ∈ parts.map (·.number), t.Spares n)
    (h : sequence (parts.map (·.sweep)) (t.apply m) = .ok (m', changes)) :
    (∀ e ∈ changes.removed, e.number kind ∈ parts.map (·.number)) ∧
      ∃ t' : Trim, m' = t'.apply m ∧ (∀ n, n ∉ parts.map (·.number) → t.AgreesAt t' n) ∧
        ∀ n ∈ parts.map (·.number), t'.Reported j.owner j.resolver m n (kind.manner? n)
          (changes.removed.filter fun e => e.number kind = n) := by
  induction parts generalizing t changes with
  | nil =>
    cases h
    exact ⟨by simp, t, rfl, fun _ _ => ⟨rfl, fun _ _ => rfl⟩, by simp⟩
  | cons p parts ih =>
    obtain ⟨m₁, c₁, c₂, h₁, h₂, rfl⟩ := sequence_cons_ok h
    obtain ⟨hhere, hs⟩ := List.nodup_cons.1 hs
    obtain ⟨hfirst, hrest⟩ := List.forall_mem_cons.1 hparts
    obtain ⟨hspared, hspares⟩ := List.forall_mem_cons.1 hspares
    obtain ⟨hlabels, t₁, rfl, hagrees₁, hreported₁⟩ := hfirst hspared h₁
    have hne {n : UInt32} (hn : n ∈ parts.map (·.number)) : n ≠ p.number := by
      rintro rfl
      exact hhere hn
    obtain ⟨hlabels', t₂, rfl, hagrees₂, hreported₂⟩ := ih hs hrest
      (fun n hn => (hspares n hn).agree (hagrees₁ n (hne hn))) h₂
    -- What the first part reports stands apart from what the others report.
    have hown : (c₁ ++ c₂).removed.filter (fun e => e.number kind = p.number) = c₁.removed := by
      show (c₁.removed ++ c₂.removed).filter _ = _
      rw [List.filter_append, List.filter_eq_self.2 fun e he => decide_eq_true (hlabels e he),
        List.filter_eq_nil_iff.2 fun e he => by simpa using hne (hlabels' e he), List.append_nil]
    have hother {n : UInt32} (hn : n ∈ parts.map (·.number)) :
        (c₁ ++ c₂).removed.filter (fun e => e.number kind = n) =
          c₂.removed.filter fun e => e.number kind = n := by
      show (c₁.removed ++ c₂.removed).filter _ = _
      rw [List.filter_append, List.filter_eq_nil_iff.2 fun e he => by
        simpa [hlabels e he] using (hne hn).symm, List.nil_append]
    refine ⟨fun e he => ?_, t₂, rfl, fun n hn => ?_, fun n hn => ?_⟩
    · obtain he | he := List.mem_append.1 (show e ∈ c₁.removed ++ c₂.removed from he)
      · exact hlabels e he ▸ List.mem_cons_self ..
      · exact List.mem_cons_of_mem _ (hlabels' e he)
    · rw [List.map_cons, List.mem_cons, not_or] at hn
      have hfirst := hagrees₁ n hn.1
      have hlater := hagrees₂ n hn.2
      exact ⟨hlater.packs.trans hfirst.packs,
        fun f hf => (hlater.stays f hf).trans (hfirst.stays f hf)⟩
    · obtain rfl | hn := List.mem_cons.1 hn
      · rw [hown]
        exact hreported₁.agree (hagrees₂ p.number hhere)
      · rw [hother hn]
        exact hreported₂ n hn

/-! Removing again. -/

/-- What a part left, the same part leaves. -/
def Part.Repeats (p : Part) : Prop :=
  ∀ ⦃m m' n : Message⦄ ⦃changes : Changes⦄, p.sweep m = .ok (m', changes) →
    n.occurrences p.number = m'.occurrences p.number → p.sweep.Idle n

theorem records_repeats {judge : Message → Except Fault Verdict}
    (hhonest : ∀ {record v}, judge record = .ok v → v.Honest) :
    Part.Repeats ⟨number, records number judge⟩ := by
  intro m m' n changes h hn
  obtain ⟨vs, hvs, rfl, -⟩ := records_ok_iff.1 h
  dsimp only at hn
  rw [Message.occurrences_keepValues] at hn
  have hjudged : ∀ value ∈ n.occurrences number, ∃ v, Judged judge value v ∧ v.Idle := by
    intro value hvalue
    rw [hn] at hvalue
    obtain ⟨hvalue, hkeeps⟩ := List.mem_filter.1 hvalue
    obtain ⟨v, -, hv⟩ := forall₂_mem_left hvs hvalue
    rw [hv.keeps] at hkeeps
    obtain ⟨b, record, hb, hrecord, hjudge⟩ := hv
    exact ⟨v, ⟨b, record, hb, hrecord, hjudge⟩, hkeeps, (hhonest hjudge).1 hkeeps⟩
  obtain ⟨vs', hvs', hidle⟩ := exists_forall₂ hjudged
  exact records_idle hvs' hidle

theorem elements_repeats {judge : Int32 → Except Fault Verdict}
    (hhonest : ∀ {i v}, judge i = .ok v → v.Honest) :
    Part.Repeats ⟨number, elements number judge⟩ := by
  intro m m' n changes h hn
  obtain ⟨l, vs, hl, hvs, rfl, -⟩ := elements_ok_iff.1 h
  have hl' : n.ints number = .ok (l.filter (keepsInt judge)) :=
    (Message.ints_congr hn).trans (Message.ints_keepInts hl _)
  have hjudged : ∀ i ∈ l.filter (keepsInt judge), ∃ v, judge i = .ok v ∧ v.Idle := by
    intro i hi
    obtain ⟨hi, hkeeps⟩ := List.mem_filter.1 hi
    obtain ⟨v, -, hv⟩ := forall₂_mem_left hvs hi
    simp only [keepsInt, hv] at hkeeps
    exact ⟨v, hv, hkeeps, (hhonest hv).1 hkeeps⟩
  obtain ⟨vs', hvs', hidle⟩ := exists_forall₂ hjudged
  refine ⟨_, elements_ok_iff.2 ⟨_, vs', hl', hvs', ?_, rfl⟩, total_idle hidle⟩
  exact (Message.keepInts_eq_self hl' fun i hi => (List.mem_filter.1 hi).2).symm

theorem companion_repeats (j : Judge) : Part.Repeats ⟨classCompanion, companion j⟩ := by
  intro m m' n changes h hn
  dsimp only at h hn ⊢
  have hint := Message.int?_congr hn
  obtain ⟨rfl, hquiet⟩ | ⟨-, rfl, -⟩ := companion_ok h
  · unfold companion at h
    cases hi : m'.int? classCompanion with
    | none =>
      refine ⟨{}, ?_, rfl⟩
      unfold companion
      rw [hint, hi]
      rfl
    | some i =>
      rw [hi] at h
      obtain ⟨v, hv, h⟩ := bind_ok_iff.1 h
      obtain ⟨-, rfl⟩ := Prod.mk.inj (Except.ok.inj h)
      refine ⟨v.changes, ?_, hquiet⟩
      unfold companion
      rw [hint, hi]
      refine bind_ok_iff.2 ⟨v, hv, ?_⟩
      rw [if_pos ((Judge.honest_className hv).2 hquiet)]
      rfl
  · refine ⟨{}, ?_, rfl⟩
    have hnone : n.int? classCompanion = none := by
      rw [Message.remove_eq, Message.occurrences_keepValues] at hn
      simp [Message.int?, hn]
    unfold companion
    rw [hnone]
    rfl

theorem sequence_repeats {parts : List Part} (hs : Parts parts) (hparts : ∀ p ∈ parts, p.Repeats)
    (h : sequence (parts.map (·.sweep)) m = .ok (m', changes)) :
    (sequence (parts.map (·.sweep))).Idle m' := by
  refine sequence_idle fun sweep hsweep => ?_
  obtain ⟨p, hp, rfl⟩ := List.mem_map.1 hsweep
  obtain ⟨m₁, m₂, c, hrun, -, hafter, -⟩ := sequence_part hs h hp
  exact hparts p hp hrun hafter

end Sweep

open Metadata.Sweep

namespace Payload

variable {p p' : Payload} {owner : String} {t : Tracker} {changes : Changes}

theorem parts_trims (p : Payload) (owner : String) (t : Tracker) (types : TypeTable) :
    ∀ q ∈ p.parts owner t types, q.Trims (p.judge owner t types) p.kind := by
  unfold parts
  split
  · next hkind =>
    have hfunction : functionNumber p.kind = classFunction := if_pos hkind
    have hproperty : propertyNumber p.kind = classProperty := if_pos hkind
    simp only [classParts, List.forall_mem_cons, List.not_mem_nil, false_implies, implies_true,
      and_true]
    refine ⟨records_trims ?_ Judge.exact_constructor,
      records_trims ?_ fun h => hfunction ▸ Judge.exact_function h,
      records_trims ?_ fun h => hproperty ▸ Judge.exact_property h,
      records_trims ?_ Judge.exact_enumEntry,
      elements_trims ?_ fun h =>
        Judge.exact_className h fun name hname => ⟨rfl, name, hname, rfl⟩,
      elements_trims ?_ fun h =>
        Judge.exact_className h fun name hname => ⟨rfl, name, hname, rfl⟩,
      companion_trims ?_⟩
    all_goals rw [hkind]; rfl
  · next hkind =>
    have hfunction : functionNumber p.kind = packageFunction := if_neg hkind
    have hproperty : propertyNumber p.kind = packageProperty := if_neg hkind
    simp only [packageParts, List.forall_mem_cons, List.not_mem_nil, false_implies, implies_true,
      and_true]
    refine ⟨records_trims ?_ fun h => hfunction ▸ Judge.exact_function h,
      records_trims ?_ fun h => hproperty ▸ Judge.exact_property h⟩
    all_goals rw [Kind.manner?, if_neg hkind]; rfl

/-- What no part looks at is not treated in any way. -/
theorem manner?_eq_none (p : Payload) (owner : String) (t : Tracker) (types : TypeTable)
    {number : UInt32} (h : number ∉ (p.parts owner t types).map (·.number)) :
    p.kind.manner? number = none := by
  unfold parts at h
  unfold Kind.manner?
  split at h
  · next hkind =>
    simp only [classParts, List.map_cons, List.map_nil, List.mem_cons, List.not_mem_nil, or_false,
      not_or] at h
    simp [hkind, h]
  · next hkind =>
    simp only [packageParts, List.map_cons, List.map_nil, List.mem_cons, List.not_mem_nil, or_false,
      not_or] at h
    simp [hkind, h]

theorem parts_repeat (p : Payload) (owner : String) (t : Tracker) (types : TypeTable) :
    ∀ q ∈ p.parts owner t types, q.Repeats := by
  unfold parts
  split
  · simp only [classParts, List.forall_mem_cons, List.not_mem_nil, false_implies, implies_true,
      and_true]
    exact ⟨records_repeats Judge.honest_constructor, records_repeats Judge.honest_function,
      records_repeats Judge.honest_property, records_repeats Judge.honest_enumEntry,
      elements_repeats Judge.honest_className, elements_repeats Judge.honest_className,
      companion_repeats _⟩
  · simp only [packageParts, List.forall_mem_cons, List.not_mem_nil, false_implies, implies_true,
      and_true]
    exact ⟨records_repeats Judge.honest_function, records_repeats Judge.honest_property⟩

/-- A removal that reports something shows. -/
theorem removed_eq_nil_iff (h : p.sweep owner t = .ok (p', changes)) :
    changes.removed = [] ↔ p'.container = p.container := by
  constructor
  · intro hquiet
    rw [sweep_quiet h hquiet]
  · intro hsame
    by_contra hremoved
    obtain ⟨types, container, -, hsequence, rfl⟩ := sweep_ok_iff.1 h
    obtain ⟨n, hn⟩ := (sequence_shows (p.parts_parts owner t types) hsequence).2 hremoved
    exact hn (congrArg (Message.occurrences · n) hsame)

/-- What a removal left, a second removal under the same tracker leaves. -/
theorem sweep_repeats (h : p.sweep owner t = .ok (p', changes)) :
    ∃ again, p'.sweep owner t = .ok (p', again) ∧ again.removed = [] := by
  obtain ⟨-, -, -, htypes'⟩ := sweep_keeps h
  obtain ⟨types, container, htypes, hsequence, rfl⟩ := sweep_ok_iff.1 h
  obtain ⟨again, hagain, hquiet⟩ := sequence_repeats (p.parts_parts owner t types)
    (p.parts_repeat owner t types) hsequence
  exact ⟨again, sweep_ok_iff.2 ⟨types, _, htypes'.trans htypes, hagain, rfl⟩, hquiet⟩

/-- A removal leaves the fields of a container as they were, but for records, a companion's name and
lists of names that are packed anew, or go if no name is left; each thing that goes is reported, and
a second removal finds nothing. -/
theorem trimmed_of_sweep (h : p.sweep owner t = .ok (p', changes)) :
    ∃ (types : TypeTable) (trim : Trim), TypeTable.ofContainer p.container = .ok types ∧
      p' = { p with container := trim.apply p.container } ∧
      (∀ number, trim.Reported owner ⟨p.strings, types⟩ p.container number (p.kind.manner? number)
        (changes.removed.filter fun e => e.number p.kind = number)) ∧
      (changes.removed = [] ↔ p'.container = p.container) ∧
      ∃ again, p'.sweep owner t = .ok (p', again) ∧ again.removed = [] := by
  have hshows := removed_eq_nil_iff h
  have hagain := sweep_repeats h
  obtain ⟨types, container, htypes, hsequence, rfl⟩ := sweep_ok_iff.1 h
  rw [← Trim.apply_nothing p.container] at hsequence
  obtain ⟨hlabels, trim, rfl, hagrees, hreported⟩ :=
    sequence_trims (p.parts_parts owner t types).distinct (p.parts_trims owner t types)
      (fun n _ => Trim.spares_nothing n) hsequence
  refine ⟨types, trim, htypes, rfl, fun number => ?_, hshows, hagain⟩
  by_cases hnumber : number ∈ (p.parts owner t types).map (·.number)
  · exact hreported number hnumber
  · have hnone : changes.removed.filter (fun e => e.number p.kind = number) = [] :=
      List.filter_eq_nil_iff.2 fun e he => by
        simpa using fun heq : e.number p.kind = number => hnumber (heq ▸ hlabels e he)
    rw [hnone, p.manner?_eq_none owner t types hnumber]
    exact .untouched ((Trim.spares_nothing number).agree (hagrees number hnumber))

/-- A class with a function `m()V`, a companion `B`, and nested classes. -/
def declared (nested : List WireField) : Payload where
  kind := .classFile
  strings := ⟨[], ["B", "C", "m", "()V"]⟩
  container := ⟨⟨classCompanion, .varint 0⟩ ::
    ⟨classFunction, .block [0xA2, 0x06, 4, 0x08, 2, 0x10, 3]⟩ :: nested⟩
  types := []
  packing := .bytes

/-- Two nested classes, and a field that stands between them. -/
def nestedPair : List WireField :=
  [⟨classNested, .varint 0⟩, ⟨20, .varint 7⟩, ⟨classNested, .varint 1⟩]

/-- The function and one of the classes are gone. -/
def depleted : Tracker := { classes := ["A$B"], methods := [("A", ⟨"m", "()V"⟩)] }

theorem trimmed_of_sweep_declared : ∃ p' changes,
    (declared nestedPair).sweep "A" depleted = .ok (p', changes) ∧
      p'.container = ⟨[⟨classNested, .block [1]⟩, ⟨20, .varint 7⟩]⟩ ∧
      changes.removed = [.function ⟨"m", "()V"⟩, .nested "A$B", .companion "A$B"] ∧
      (∃ trim : Trim, p'.container = trim.apply (declared nestedPair).container) ∧
      ∃ again, p'.sweep "A" depleted = .ok (p', again) ∧ again.removed = [] := by
  have h : (declared nestedPair).sweep "A" depleted = .ok
      ({ declared nestedPair with container := ⟨[⟨classNested, .block [1]⟩, ⟨20, .varint 7⟩]⟩ },
        { removed := [.function ⟨"m", "()V"⟩, .nested "A$B", .companion "A$B"]
          methods := [⟨⟨"m$default", "(LA;ILjava/lang/Object;)V"⟩, 4104⟩] }) := by
    decide +kernel
  obtain ⟨types, trim, -, htrim, -, -, hagain⟩ := trimmed_of_sweep h
  exact ⟨_, _, h, rfl, rfl, ⟨trim, congrArg Payload.container htrim⟩, hagain⟩

/-- When its only name goes, a list is not packed anew: nothing is left of it. -/
theorem unlisted_of_sweep : ∃ p' changes,
    (declared [⟨classNested, .varint 0⟩]).sweep "A" depleted = .ok (p', changes) ∧
      p'.container.occurrences classNested ≠
        (declared [⟨classNested, .varint 0⟩]).container.occurrences classNested ∧
      ∀ kept, p'.container.occurrences classNested ≠ [Message.packed kept] := by
  have h : (declared [⟨classNested, .varint 0⟩]).sweep "A" depleted = .ok
      ({ declared [⟨classNested, .varint 0⟩] with container := ⟨[]⟩ },
        { removed := [.function ⟨"m", "()V"⟩, .nested "A$B", .companion "A$B"]
          methods := [⟨⟨"m$default", "(LA;ILjava/lang/Object;)V"⟩, 4104⟩] }) := by
    decide +kernel
  exact ⟨_, _, h, by decide, fun kept => by simp [Message.occurrences]⟩

end Payload

end JarPruning.Metadata
