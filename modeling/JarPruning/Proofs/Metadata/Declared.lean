import JarPruning.Proofs.Metadata.Records

/-!
Where the members come from that a removal reports. Each goes with a record, and the record goes
with a member that is gone.
-/
namespace JarPruning.Metadata

/-- A member that a removal reports. -/
def Changes.Reports (c : Changes) : Member ⊕ FieldTarget → Prop
  | .inl m => m ∈ c.methods
  | .inr f => f ∈ c.fields

theorem Changes.reports_append {a b : Changes} {x : Member ⊕ FieldTarget} :
    (a ++ b).Reports x ↔ a.Reports x ∨ b.Reports x := by
  cases x <;> exact List.mem_append

theorem Changes.not_reports_empty (x : Member ⊕ FieldTarget) : ¬ Changes.Reports {} x := by
  cases x <;> exact List.not_mem_nil

theorem Verdict.reports_total {vs : List Verdict} {x : Member ⊕ FieldTarget} :
    (total vs).Reports x ↔ ∃ v ∈ vs, v.changes.Reports x := by
  cases x with
  | inl m =>
    show m ∈ (total vs).methods ↔ _
    rw [total_methods, List.mem_flatMap]
    rfl
  | inr f =>
    show f ∈ (total vs).fields ↔ _
    rw [total_fields, List.mem_flatMap]
    rfl

/-- What a record declares: methods and a field, each of which takes the record along, and methods
that go along with it. -/
structure Declaration where
  methods : List Signature
  field : Option FieldTarget
  following : List Member

namespace Declaration

/-- A member of the declaration is gone. -/
def goes (d : Declaration) (owner : String) (t : Tracker) : Bool :=
  d.methods.any (t.containsMethod owner) || d.field.any fun f => (t.field? owner f.key).isSome

/-- What goes along with the declaration. -/
def Takes (d : Declaration) : Member ⊕ FieldTarget → Prop
  | .inl m => m ∈ d.following
  | .inr f => d.field = some f

def ofFunction (s : Signature) (owner : Option String) (hasReceiver : Bool) : Declaration :=
  ⟨[s], none, (s.defaultFunction? owner hasReceiver).toList⟩

def ofConstructor (s : Signature) : Declaration := ⟨[s], none, s.defaultConstructor?.toList⟩

def ofProperty (p : PropertySignature) : Declaration :=
  ⟨Judge.accessors p, Judge.backingField? p, Judge.members p⟩

end Declaration

namespace Judge

variable {j : Judge} {record : Message} {v : Verdict} {x : Member ⊕ FieldTarget}

theorem method_reports {s? : Option Signature} {removed : Signature → Removed}
    {following : Signature → Option Member}
    (h : (match s? with
      | none => pure {}
      | some s =>
        if j.isGone s then pure (.drop (removed s) (following s).toList []) else pure {} :
        Except Fault Verdict) = .ok v) (hx : v.changes.Reports x) :
    ∃ s, s? = some s ∧ (Declaration.mk [s] none (following s).toList).goes j.owner j.tracker ∧
      (Declaration.mk [s] none (following s).toList).Takes x := by
  cases s? with
  | none =>
    cases h
    exact absurd hx (Changes.not_reports_empty x)
  | some s =>
    dsimp only at h
    split at h
    · next hgone =>
      cases h
      refine ⟨s, rfl, ?_, ?_⟩
      · simpa [Declaration.goes, isGone] using hgone
      · cases x with
        | inl m => exact hx
        | inr f => cases hx
    · cases h
      exact absurd hx (Changes.not_reports_empty x)

theorem function_reports {owner : Option String} (h : j.function owner record = .ok v)
    (hx : v.changes.Reports x) : ∃ s, j.resolver.function? record = .ok (some s) ∧
      (Declaration.ofFunction s owner (FieldNumber.functionReceiver.isSet record)).goes j.owner
        j.tracker ∧
      (Declaration.ofFunction s owner (FieldNumber.functionReceiver.isSet record)).Takes x := by
  obtain ⟨s?, hs, h⟩ := bind_ok_iff.1 h
  obtain ⟨s, rfl, hgoes, htakes⟩ := method_reports h hx
  exact ⟨s, hs, hgoes, htakes⟩

theorem constructor_reports (h : j.constructor record = .ok v) (hx : v.changes.Reports x) :
    ∃ s, j.resolver.constructor? record = .ok (some s) ∧
      (Declaration.ofConstructor s).goes j.owner j.tracker ∧
      (Declaration.ofConstructor s).Takes x := by
  obtain ⟨s?, hs, h⟩ := bind_ok_iff.1 h
  obtain ⟨s, rfl, hgoes, htakes⟩ := method_reports h hx
  exact ⟨s, hs, hgoes, htakes⟩

theorem goes_ofProperty (j : Judge) (p : PropertySignature) :
    (Declaration.ofProperty p).goes j.owner j.tracker = j.propertyGone p := by
  have hfield (f : FieldTarget) : (j.fieldVerdict p.name f).1 =
      (j.tracker.field? j.owner f.key).isSome := by
    unfold fieldVerdict
    cases j.tracker.field? j.owner f.key <;> rfl
  unfold Declaration.goes propertyGone
  simp only [hfield]
  exact Bool.or_comm _ _

theorem property_reports (h : j.property record = .ok v) (hx : v.changes.Reports x) :
    ∃ p, j.resolver.property record = .ok p ∧
      (Declaration.ofProperty p).goes j.owner j.tracker ∧ (Declaration.ofProperty p).Takes x := by
  obtain ⟨p, hp, -, -, hmethods, hfields⟩ := property_ok h
  refine ⟨p, hp, ?_⟩
  rw [goes_ofProperty]
  cases hgone : j.propertyGone p with
  | false =>
    rw [hgone] at hmethods hfields
    cases x with
    | inl m =>
      rw [Changes.Reports, hmethods] at hx
      cases hx
    | inr f =>
      rw [Changes.Reports, hfields] at hx
      cases hx
  | true =>
    rw [hgone, if_pos rfl] at hmethods hfields
    refine ⟨rfl, ?_⟩
    cases x with
    | inl m =>
      rw [Changes.Reports, hmethods] at hx
      exact hx
    | inr f =>
      rw [Changes.Reports, hfields] at hx
      exact Option.mem_toList.1 hx

/-- A function that goes takes its companion along. -/
theorem function_takes {owner : Option String} {s : Signature} (h : j.function owner record = .ok v)
    (hs : j.resolver.function? record = .ok (some s)) :
    v.keep = true ∨ (Declaration.ofFunction s owner
      (FieldNumber.functionReceiver.isSet record)).following ⊆ v.changes.methods := by
  simp only [function, hs, bind, Except.bind] at h
  split at h
  all_goals cases h
  · exact .inr fun _ hn => hn
  · exact .inl rfl

theorem constructor_takes {s : Signature} (h : j.constructor record = .ok v)
    (hs : j.resolver.constructor? record = .ok (some s)) :
    v.keep = true ∨ (Declaration.ofConstructor s).following ⊆ v.changes.methods := by
  simp only [constructor, hs, bind, Except.bind] at h
  split at h
  all_goals cases h
  · exact .inr fun _ hn => hn
  · exact .inl rfl

theorem enumEntry_reports (h : j.enumEntry record = .ok v) : ¬ v.changes.Reports x := by
  unfold enumEntry at h
  split at h
  · cases h
    exact Changes.not_reports_empty x
  · obtain ⟨name, -, h⟩ := bind_ok_iff.1 h
    split at h
    all_goals
      cases h
      cases x <;> exact List.not_mem_nil

theorem className_reports {full : String → String} {removed : String → Removed} {index : Int32}
    (h : j.className full removed index = .ok v) : ¬ v.changes.Reports x := by
  unfold className at h
  obtain ⟨name, -, h⟩ := bind_ok_iff.1 h
  dsimp only at h
  split at h
  all_goals
    cases h
    cases x <;> exact List.not_mem_nil

end Judge

namespace Sweep

variable {m m' : Message} {number : UInt32} {changes : Changes} {x : Member ⊕ FieldTarget}

theorem records_reports {judge : Message → Except Fault Verdict}
    (h : records number judge m = .ok (m', changes)) (hx : changes.Reports x) :
    ∃ record v, m.Holds number record ∧ judge record = .ok v ∧ v.changes.Reports x := by
  obtain ⟨vs, hvs, -, rfl⟩ := records_ok_iff.1 h
  obtain ⟨v, hv, hx⟩ := Verdict.reports_total.1 hx
  obtain ⟨value, hvalue, b, record, rfl, hrecord, hjudge⟩ := forall₂_mem_right hvs hv
  exact ⟨record, v, ⟨b, hvalue, hrecord⟩, hjudge, hx⟩

theorem elements_reports {judge : Int32 → Except Fault Verdict}
    (hjudge : ∀ i v, judge i = .ok v → ¬ v.changes.Reports x)
    (h : elements number judge m = .ok (m', changes)) : ¬ changes.Reports x := by
  obtain ⟨l, vs, -, hvs, -, rfl⟩ := elements_ok_iff.1 h
  intro hx
  obtain ⟨v, hv, hx⟩ := Verdict.reports_total.1 hx
  obtain ⟨i, -, hi⟩ := forall₂_mem_right hvs hv
  exact hjudge i v hi hx

theorem companion_reports {j : Judge} (h : companion j m = .ok (m', changes)) :
    ¬ changes.Reports x := by
  unfold companion at h
  split at h
  · cases h
    exact Changes.not_reports_empty x
  · obtain ⟨v, hv, h⟩ := bind_ok_iff.1 h
    cases h
    exact Judge.className_reports hv

/-- What parts in a row report is reported by one of them, which finds its field as it was at the
start. -/
theorem sequence_reports {parts : List Part} (hs : Parts parts)
    (h : sequence (parts.map (·.sweep)) m = .ok (m', changes)) (hx : changes.Reports x) :
    ∃ p ∈ parts, ∃ m₁ m₂ c, p.sweep m₁ = .ok (m₂, c) ∧
      m₁.occurrences p.number = m.occurrences p.number ∧ c.Reports x := by
  induction parts generalizing m changes with
  | nil =>
    cases h
    exact absurd hx (Changes.not_reports_empty x)
  | cons q parts ih =>
    obtain ⟨m₁, c₁, c₂, h₁, h₂, rfl⟩ := sequence_cons_ok h
    have hnumber : q.number ∉ parts.map (·.number) := (List.nodup_cons.1 hs.distinct).1
    obtain hx | hx := Changes.reports_append.1 hx
    · exact ⟨q, List.mem_cons_self .., m, m₁, c₁, h₁, rfl, hx⟩
    · obtain ⟨p, hp, n₁, n₂, c, hsweep, hbefore, hx⟩ := ih hs.tail h₂ hx
      have hne : p.number ≠ q.number := by
        intro heq
        exact hnumber (heq ▸ List.mem_map_of_mem hp)
      have hfirst := (hs.each q (List.mem_cons_self ..)).elsewhere h₁ p.number hne
      exact ⟨p, List.mem_cons_of_mem _ hp, n₁, n₂, c, hsweep, hbefore.trans hfirst, hx⟩

theorem holds_congr {n : Message} (h : n.occurrences number = m.occurrences number)
    {record : Message} (hn : n.Holds number record) : m.Holds number record := by
  obtain ⟨b, hb, hrecord⟩ := hn
  exact ⟨b, h ▸ hb, hrecord⟩

end Sweep

namespace Payload

open FieldNumber Metadata.Sweep

variable {p p' : Payload} {owner : String} {t : Tracker} {changes : Changes}
  {x : Member ⊕ FieldTarget} {types : TypeTable}

/-- The class that a companion function takes first: functions of a file belong to none. -/
def companionOwner (kind : Kind) (owner : String) : Option String :=
  if kind = .classFile then some owner else none

/-- The declarations of a payload that go with members of the class. -/
inductive Declares (p : Payload) (owner : String) (types : TypeTable) : Declaration → Prop
  | function {record : Message} {s : Signature}
    (held : p.container.Holds (functionNumber p.kind) record)
    (resolved : Resolver.function? ⟨p.strings, types⟩ record = .ok (some s)) :
    Declares p owner types
      (.ofFunction s (companionOwner p.kind owner) (FieldNumber.functionReceiver.isSet record))
  | constructor {record : Message} {s : Signature} (ofClass : p.kind = .classFile)
    (held : p.container.Holds classConstructor record)
    (resolved : Resolver.constructor? ⟨p.strings, types⟩ record = .ok (some s)) :
    Declares p owner types (.ofConstructor s)
  | property {record : Message} {s : PropertySignature}
    (held : p.container.Holds (propertyNumber p.kind) record)
    (resolved : Resolver.property ⟨p.strings, types⟩ record = .ok s) :
    Declares p owner types (.ofProperty s)

theorem function_part (p : Payload) (owner : String) (t : Tracker) (types : TypeTable) :
    ⟨functionNumber p.kind, records (functionNumber p.kind)
      ((p.judge owner t types).function (companionOwner p.kind owner))⟩ ∈ p.parts owner t types := by
  by_cases hkind : p.kind = .classFile
  · rw [parts, functionNumber, companionOwner, if_pos hkind, if_pos hkind, if_pos hkind]
    simp [classParts, judge]
  · rw [parts, functionNumber, companionOwner, if_neg hkind, if_neg hkind, if_neg hkind]
    simp [packageParts]

theorem constructor_part (p : Payload) (hkind : p.kind = .classFile) (owner : String) (t : Tracker)
    (types : TypeTable) :
    ⟨classConstructor, records classConstructor (p.judge owner t types).constructor⟩ ∈
      p.parts owner t types := by
  rw [parts, if_pos hkind]
  simp [classParts]

/-- What a removal reports goes along with a declaration, one of whose members is gone. -/
theorem sweep_reports (h : p.sweep owner t = .ok (p', changes))
    (htypes : TypeTable.ofContainer p.container = .ok types) (hx : changes.Reports x) :
    ∃ d, p.Declares owner types d ∧ d.goes owner t = true ∧ d.Takes x := by
  obtain ⟨types', container, htypes', hsequence, rfl⟩ := sweep_ok_iff.1 h
  cases htypes.symm.trans htypes'
  obtain ⟨q, hq, m₁, m₂, c, hsweep, hbefore, hx⟩ :=
    sequence_reports (p.parts_parts owner t types) hsequence hx
  have hfunction {number : UInt32} {companionOwner? : Option String}
      (hnumber : number = functionNumber p.kind)
      (howner : companionOwner? = companionOwner p.kind owner)
      (hsweep : records number ((p.judge owner t types).function companionOwner?) m₁ =
        .ok (m₂, c)) (hbefore : m₁.occurrences number = p.container.occurrences number) :
      ∃ d, p.Declares owner types d ∧ d.goes owner t = true ∧ d.Takes x := by
    subst hnumber howner
    obtain ⟨record, v, hheld, hv, hx⟩ := records_reports hsweep hx
    obtain ⟨s, hs, hgoes, htakes⟩ := Judge.function_reports hv hx
    exact ⟨_, .function (holds_congr hbefore hheld) hs, hgoes, htakes⟩
  have hproperty {number : UInt32} (hnumber : number = propertyNumber p.kind)
      (hsweep : records number (p.judge owner t types).property m₁ = .ok (m₂, c))
      (hbefore : m₁.occurrences number = p.container.occurrences number) :
      ∃ d, p.Declares owner types d ∧ d.goes owner t = true ∧ d.Takes x := by
    subst hnumber
    obtain ⟨record, v, hheld, hv, hx⟩ := records_reports hsweep hx
    obtain ⟨s, hs, hgoes, htakes⟩ := Judge.property_reports hv hx
    exact ⟨_, .property (holds_congr hbefore hheld) hs, hgoes, htakes⟩
  by_cases hkind : p.kind = .classFile
  · rw [parts, if_pos hkind] at hq
    simp only [classParts, List.mem_cons, List.not_mem_nil, or_false] at hq
    obtain rfl | rfl | rfl | rfl | rfl | rfl | rfl := hq
    · obtain ⟨record, v, hheld, hv, hx⟩ := records_reports hsweep hx
      obtain ⟨s, hs, hgoes, htakes⟩ := Judge.constructor_reports hv hx
      exact ⟨_, .constructor hkind (holds_congr hbefore hheld) hs, hgoes, htakes⟩
    · exact hfunction (by rw [functionNumber, if_pos hkind])
        (by rw [companionOwner, if_pos hkind]; rfl) hsweep hbefore
    · exact hproperty (by rw [propertyNumber, if_pos hkind]) hsweep hbefore
    · obtain ⟨record, v, -, hv, hx⟩ := records_reports hsweep hx
      exact absurd hx (Judge.enumEntry_reports hv)
    · exact absurd hx (elements_reports (fun _ _ => Judge.className_reports) hsweep)
    · exact absurd hx (elements_reports (fun _ _ => Judge.className_reports) hsweep)
    · exact absurd hx (companion_reports hsweep)
  · rw [parts, if_neg hkind] at hq
    simp only [packageParts, List.mem_cons, List.not_mem_nil, or_false] at hq
    obtain rfl | rfl := hq
    · exact hfunction (by rw [functionNumber, if_neg hkind])
        (by rw [companionOwner, if_neg hkind]) hsweep hbefore
    · exact hproperty (by rw [propertyNumber, if_neg hkind]) hsweep hbefore

/-- A removal adds no declaration. -/
theorem Declares.of_sweep (h : p.sweep owner t = .ok (p', changes))
    (htypes : TypeTable.ofContainer p.container = .ok types) {self : String} {d : Declaration}
    (hd : p'.Declares self types d) : p.Declares self types d := by
  obtain ⟨hkind, hstrings, -, -⟩ := sweep_keeps h
  cases hd with
  | function hheld hresolved =>
    rw [hkind] at hheld ⊢
    rw [hstrings] at hresolved
    exact .function (sweep_function h htypes hheld).1 hresolved
  | constructor hclass hheld hresolved =>
    rw [hkind] at hclass
    rw [hstrings] at hresolved
    exact .constructor hclass (sweep_constructor h hclass htypes hheld).1 hresolved
  | property hheld hresolved =>
    rw [hkind] at hheld
    rw [hstrings] at hresolved
    exact .property (sweep_property h htypes hheld).1 hresolved

/-- No member of a declaration that is left is gone. -/
theorem Declares.stays (h : p.sweep owner t = .ok (p', changes))
    (htypes : TypeTable.ofContainer p.container = .ok types) {d : Declaration}
    (hd : p'.Declares owner types d) : d.goes owner t = false := by
  obtain ⟨hkind, hstrings, -, -⟩ := sweep_keeps h
  cases hd with
  | function hheld hresolved =>
    rw [hkind] at hheld
    rw [hstrings] at hresolved
    have hhere := (sweep_function h htypes hheld).2 _ hresolved
    simp [Declaration.goes, Declaration.ofFunction, hhere]
  | constructor hclass hheld hresolved =>
    rw [hkind] at hclass
    rw [hstrings] at hresolved
    have hhere := (sweep_constructor h hclass htypes hheld).2 _ hresolved
    simp [Declaration.goes, Declaration.ofConstructor, hhere]
  | property hheld hresolved =>
    rw [hkind] at hheld
    rw [hstrings] at hresolved
    have hhere := (sweep_property h htypes hheld).2 _ hresolved
    rwa [← Judge.goes_ofProperty] at hhere

/-- A declaration is left, or what goes along with it is reported. -/
theorem Declares.sweep (h : p.sweep owner t = .ok (p', changes))
    (htypes : TypeTable.ofContainer p.container = .ok types) {d : Declaration}
    (hd : p.Declares owner types d) : p'.Declares owner types d ∨
      d.following ⊆ changes.methods ∧ d.field.toList ⊆ changes.fields := by
  obtain ⟨types', container, htypes', hsequence, rfl⟩ := sweep_ok_iff.1 h
  cases htypes.symm.trans htypes'
  have hparts := p.parts_parts owner t types
  cases hd with
  | function hheld hresolved =>
    obtain ⟨v, hv, hleft, hmethods, -⟩ :=
      sequence_judges hparts hsequence (p.function_part owner t types) hheld
    obtain hkeep | hfollowing := Judge.function_takes hv hresolved
    · exact .inl (.function (hleft hkeep) hresolved)
    · exact .inr ⟨fun n hn => hmethods (hfollowing hn), List.nil_subset _⟩
  | constructor hclass hheld hresolved =>
    obtain ⟨v, hv, hleft, hmethods, -⟩ :=
      sequence_judges hparts hsequence (p.constructor_part hclass owner t types) hheld
    obtain hkeep | hfollowing := Judge.constructor_takes hv hresolved
    · exact .inl (.constructor hclass (hleft hkeep) hresolved)
    · exact .inr ⟨fun n hn => hmethods (hfollowing hn), List.nil_subset _⟩
  | @property record s hheld hresolved =>
    by_cases hleft : container.Holds (propertyNumber p.kind) record
    · exact .inl (.property hleft hresolved)
    · obtain ⟨s', hs', hmethods, hfields⟩ := sweep_property_gone h htypes hheld hleft
      cases hresolved.symm.trans hs'
      exact .inr ⟨hmethods, hfields⟩

end Payload

end JarPruning.Metadata
