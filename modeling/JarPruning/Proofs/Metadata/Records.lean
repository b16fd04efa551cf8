import JarPruning.Proofs.Metadata.Payload

/-!
The records that a removal leaves. Each was there before and was judged to stay, so no member that
decides about it is gone; and it is resolved against the same strings and types as before.
-/
namespace JarPruning.Metadata

/-- The record stands among the occurrences of the field. -/
def Message.Holds (m : Message) (number : UInt32) (record : Message) : Prop :=
  ∃ b, WireValue.block b ∈ m.occurrences number ∧ Message.ofBytes b = .ok record

/-- Whether every record of the field is as `p` says. -/
def Message.allHeld (m : Message) (number : UInt32) (p : Message → Bool) : Bool :=
  (m.occurrences number).all fun
    | .block b => (Message.ofBytes b).toOption.all p
    | _ => true

theorem Message.allHeld_iff {m : Message} {number : UInt32} {p : Message → Bool} :
    m.allHeld number p = true ↔ ∀ record, m.Holds number record → p record = true := by
  unfold allHeld
  rw [List.all_eq_true]
  constructor
  · rintro h record ⟨b, hb, hrecord⟩
    simpa [hrecord, Except.toOption] using h _ hb
  · intro h value hvalue
    cases value with
    | block b =>
      cases hb : Message.ofBytes b with
      | error e => simp [hb, Except.toOption]
      | ok record => simpa [hb, Except.toOption] using h record ⟨b, hvalue, hb⟩
    | _ => rfl

namespace Sweep

variable {m m' : Message} {changes : Changes}

/-- A part among others meets its field as it was at the start, and leaves it as it is at the end. The
members that it reports are reported. -/
theorem sequence_part {parts : List Part} (hs : Parts parts)
    (h : sequence (parts.map (·.sweep)) m = .ok (m', changes)) {p : Part} (hp : p ∈ parts) :
    ∃ m₁ m₂ c, p.sweep m₁ = .ok (m₂, c) ∧
      m₁.occurrences p.number = m.occurrences p.number ∧
      m'.occurrences p.number = m₂.occurrences p.number ∧
      c.methods ⊆ changes.methods ∧ c.fields ⊆ changes.fields := by
  induction parts generalizing m changes with
  | nil => cases hp
  | cons q parts ih =>
    obtain ⟨m₁, c₁, c₂, h₁, h₂, rfl⟩ := sequence_cons_ok h
    have hnumber : q.number ∉ parts.map (·.number) := (List.nodup_cons.1 hs.distinct).1
    rcases List.mem_cons.1 hp with rfl | hp
    · exact ⟨m, m₁, c₁, h₁, rfl, sequence_elsewhere hs.tail.each h₂ hnumber,
        List.subset_append_left .., List.subset_append_left ..⟩
    · obtain ⟨n₁, n₂, c, hsweep, hbefore, hafter, hmethods, hfields⟩ := ih hs.tail h₂ hp
      have hne : p.number ≠ q.number := by
        intro heq
        exact hnumber (heq ▸ List.mem_map_of_mem hp)
      have hfirst := (hs.each q (List.mem_cons_self ..)).elsewhere h₁ p.number hne
      exact ⟨n₁, n₂, c, hsweep, hbefore.trans hfirst, hafter,
        List.subset_append_of_subset_right _ hmethods,
        List.subset_append_of_subset_right _ hfields⟩

/-- A record that is left was there, and was judged to stay. -/
theorem sequence_holds {parts : List Part} (hs : Parts parts)
    (h : sequence (parts.map (·.sweep)) m = .ok (m', changes)) {number : UInt32}
    {judge : Message → Except Fault Verdict}
    (hp : ⟨number, records number judge⟩ ∈ parts) {record : Message}
    (hrecord : m'.Holds number record) :
    m.Holds number record ∧ ∃ v, judge record = .ok v ∧ v.keep = true := by
  obtain ⟨m₁, m₂, c, hsweep, hbefore, hafter, -⟩ := sequence_part hs h hp
  obtain ⟨vs, hvs, rfl, -⟩ := records_ok_iff.1 hsweep
  obtain ⟨b, hb, hread⟩ := hrecord
  dsimp only at hbefore hafter
  rw [hafter, Message.occurrences_keepValues] at hb
  obtain ⟨hb, hkeeps⟩ := List.mem_filter.1 hb
  obtain ⟨v, -, hjudged⟩ := forall₂_mem_left hvs hb
  have hkeep := hjudged.keeps
  obtain ⟨b', record', hblock, hread', hv⟩ := hjudged
  cases hblock
  cases hread.symm.trans hread'
  exact ⟨⟨b, hbefore ▸ hb, hread⟩, _, hv, hkeep.symm.trans hkeeps⟩

/-- A record that was there is left unless it was judged to go, and the members that go with it are
reported. -/
theorem sequence_judges {parts : List Part} (hs : Parts parts)
    (h : sequence (parts.map (·.sweep)) m = .ok (m', changes)) {number : UInt32}
    {judge : Message → Except Fault Verdict}
    (hp : ⟨number, records number judge⟩ ∈ parts) {record : Message}
    (hrecord : m.Holds number record) :
    ∃ v, judge record = .ok v ∧ (v.keep = true → m'.Holds number record) ∧
      v.changes.methods ⊆ changes.methods ∧ v.changes.fields ⊆ changes.fields := by
  obtain ⟨m₁, m₂, c, hsweep, hbefore, hafter, hmethods, hfields⟩ := sequence_part hs h hp
  obtain ⟨vs, hvs, rfl, rfl⟩ := records_ok_iff.1 hsweep
  rw [Verdict.total_methods] at hmethods
  rw [Verdict.total_fields] at hfields
  obtain ⟨b, hb, hread⟩ := hrecord
  dsimp only at hbefore hafter
  rw [← hbefore] at hb
  obtain ⟨v, hv, hjudged⟩ := forall₂_mem_left hvs hb
  have hkeep := hjudged.keeps
  obtain ⟨b', record', hblock, hread', hverdict⟩ := hjudged
  cases hblock
  cases hread.symm.trans hread'
  refine ⟨v, hverdict, fun hstays => ⟨b, ?_, hread⟩,
    fun n hn => hmethods (List.mem_flatMap.2 ⟨v, hv, hn⟩),
    fun f hf => hfields (List.mem_flatMap.2 ⟨v, hv, hf⟩)⟩
  rw [hafter, Message.occurrences_keepValues]
  exact List.mem_filter.2 ⟨hb, hkeep.trans hstays⟩

/-- A part that reports no removal leaves the message as it was. -/
def Part.Quiet (p : Part) : Prop :=
  ∀ ⦃m m' changes⦄, p.sweep m = .ok (m', changes) → changes.removed = [] → m' = m

/-- Where nothing is reported, everything was judged to stay. -/
theorem filter_eq_self_of_quiet {α : Type} {judged : α → Verdict → Prop} (keep : α → Bool)
    (hhonest : ∀ {a v}, judged a v → v.Honest ∧ keep a = v.keep) {as : List α} {vs : List Verdict}
    (h : List.Forall₂ judged as vs) (hquiet : (Verdict.total vs).removed = []) :
    as.filter keep = as := by
  rw [Verdict.total_removed] at hquiet
  induction h with
  | nil => rfl
  | @cons a v as vs hv _ ih =>
    obtain ⟨hfirst, hrest⟩ := List.append_eq_nil_iff.1 hquiet
    obtain ⟨hv, hkeep⟩ := hhonest hv
    rw [List.filter_cons_of_pos (hkeep.trans (hv.2 hfirst)), ih hrest]

theorem records_quiet {number : UInt32} {judge : Message → Except Fault Verdict}
    (hhonest : ∀ {record v}, judge record = .ok v → v.Honest) :
    Part.Quiet ⟨number, records number judge⟩ := by
  intro m m' changes h hquiet
  obtain ⟨vs, hvs, rfl, rfl⟩ := records_ok_iff.1 h
  have hall := filter_eq_self_of_quiet (keeps judge)
    (fun hv => ⟨by obtain ⟨b, record, -, -, hv⟩ := hv; exact hhonest hv, hv.keeps⟩) hvs hquiet
  refine congrArg Message.mk (List.filter_eq_self.2 fun f hf => ?_)
  by_cases hnumber : f.number = number
  · have hvalue : f.value ∈ m.occurrences number :=
      List.mem_map_of_mem (List.mem_filter.2 ⟨hf, decide_eq_true hnumber⟩)
    simp [List.filter_eq_self.1 hall _ hvalue]
  · simp [hnumber]

theorem elements_quiet {number : UInt32} {judge : Int32 → Except Fault Verdict}
    (hhonest : ∀ {i v}, judge i = .ok v → v.Honest) :
    Part.Quiet ⟨number, elements number judge⟩ := by
  intro m m' changes h hquiet
  obtain ⟨l, vs, hl, hvs, rfl, rfl⟩ := elements_ok_iff.1 h
  have hall := filter_eq_self_of_quiet (keepsInt judge)
    (fun hv => ⟨hhonest hv, by simp [keepsInt, hv]⟩) hvs hquiet
  rw [Message.keepInts, hl]
  exact if_pos (congrArg List.length hall)

theorem companion_quiet (j : Judge) :
    Part.Quiet ⟨FieldNumber.classCompanion, companion j⟩ := by
  intro m m' changes h hquiet
  rcases companion_ok h with ⟨rfl, -⟩ | ⟨-, -, hremoved⟩
  · rfl
  · exact absurd hquiet hremoved

theorem sequence_quiet {parts : List Part} (hparts : ∀ p ∈ parts, p.Quiet)
    (h : sequence (parts.map (·.sweep)) m = .ok (m', changes)) (hquiet : changes.removed = []) :
    m' = m := by
  induction parts generalizing m changes with
  | nil =>
    cases h
    rfl
  | cons p parts ih =>
    obtain ⟨m₁, c₁, c₂, h₁, h₂, rfl⟩ := sequence_cons_ok h
    obtain ⟨hfirst, hrest⟩ := List.append_eq_nil_iff.1
      (show c₁.removed ++ c₂.removed = [] from hquiet)
    obtain rfl := hparts p (List.mem_cons_self ..) h₁ hfirst
    exact ih (fun q hq => hparts q (List.mem_cons_of_mem _ hq)) h₂ hrest

end Sweep

namespace Judge

variable {j : Judge} {v : Verdict} {record : Message} {s : Signature}

theorem function_stays {owner : Option String} (h : j.function owner record = .ok v)
    (hv : v.keep = true) (hs : j.resolver.function? record = .ok (some s)) :
    j.isGone s = false := by
  by_contra hgone
  rw [Bool.not_eq_false] at hgone
  simp only [function, hs, bind, Except.bind, hgone, if_true, pure, Except.pure,
    Except.ok.injEq] at h
  subst h
  cases hv

theorem constructor_stays (h : j.constructor record = .ok v) (hv : v.keep = true)
    (hs : j.resolver.constructor? record = .ok (some s)) : j.isGone s = false := by
  by_contra hgone
  rw [Bool.not_eq_false] at hgone
  simp only [constructor, hs, bind, Except.bind, hgone, if_true, pure, Except.pure,
    Except.ok.injEq] at h
  subst h
  cases hv

theorem enumEntry_stays (h : j.enumEntry record = .ok v) (hv : v.keep = true) {index : Int32}
    {name : String} (hindex : record.int? FieldNumber.enumEntryName = some index)
    (hname : j.resolver.strings.get index = .ok name) :
    j.tracker.containsField j.owner ⟨name, "()"⟩ = false := by
  by_contra hgone
  rw [Bool.not_eq_false] at hgone
  simp only [enumEntry, hindex, hname, bind, Except.bind, hgone, if_true, pure, Except.pure,
    Except.ok.injEq] at h
  subst h
  cases hv

theorem property_stays (h : j.property record = .ok v) (hv : v.keep = true)
    {p : PropertySignature} (hp : j.resolver.property record = .ok p) :
    j.propertyGone p = false := by
  obtain ⟨p', hp', hkeep, -⟩ := property_ok h
  cases hp.symm.trans hp'
  rw [hv] at hkeep
  cases hgone : j.propertyGone p with
  | false => rfl
  | true =>
    rw [hgone] at hkeep
    cases hkeep

end Judge

namespace Payload

open FieldNumber Metadata.Sweep

variable {p p' : Payload} {owner : String} {t : Tracker} {changes : Changes} {record : Message}

/-- Where the functions of a container stand. -/
def functionNumber (kind : Kind) : UInt32 :=
  if kind = .classFile then classFunction else packageFunction

def propertyNumber (kind : Kind) : UInt32 :=
  if kind = .classFile then classProperty else packageProperty

theorem ofContainer_congr {m m' : Message} (h : m'.occurrences typeTable = m.occurrences typeTable) :
    TypeTable.ofContainer m' = TypeTable.ofContainer m := by
  simp only [TypeTable.ofContainer, Message.message?, Message.block?, h]

/-- A removal touches nothing that records are resolved against. -/
theorem sweep_keeps (h : p.sweep owner t = .ok (p', changes)) :
    p'.kind = p.kind ∧ p'.strings = p.strings ∧ p'.types = p.types ∧
      TypeTable.ofContainer p'.container = TypeTable.ofContainer p.container := by
  obtain ⟨types, container, -, hsequence, rfl⟩ := sweep_ok_iff.1 h
  refine ⟨rfl, rfl, rfl, ofContainer_congr ?_⟩
  refine sequence_elsewhere (p.parts_parts owner t types).each hsequence ?_
  unfold parts
  split
  · show typeTable ∉ [classConstructor, classFunction, classProperty, classEnumEntry, classNested,
      classSealed, classCompanion]
    decide
  · show typeTable ∉ [packageFunction, packageProperty]
    decide

theorem parts_quiet (p : Payload) (owner : String) (t : Tracker) (types : TypeTable) :
    ∀ q ∈ p.parts owner t types, q.Quiet := by
  unfold parts
  split
  · simp only [classParts, List.forall_mem_cons, List.not_mem_nil, false_implies, implies_true,
      and_true]
    exact ⟨records_quiet Judge.honest_constructor, records_quiet Judge.honest_function,
      records_quiet Judge.honest_property, records_quiet Judge.honest_enumEntry,
      elements_quiet Judge.honest_className, elements_quiet Judge.honest_className,
      companion_quiet _⟩
  · simp only [packageParts, List.forall_mem_cons, List.not_mem_nil, false_implies, implies_true,
      and_true]
    exact ⟨records_quiet Judge.honest_function, records_quiet Judge.honest_property⟩

/-- A removal that reports nothing leaves the payload as it was. -/
theorem sweep_quiet (h : p.sweep owner t = .ok (p', changes)) (hquiet : changes.removed = []) :
    p' = p := by
  obtain ⟨types, container, -, hsequence, rfl⟩ := sweep_ok_iff.1 h
  rw [sequence_quiet (p.parts_quiet owner t types) hsequence hquiet]

theorem sweep_function (h : p.sweep owner t = .ok (p', changes)) {types : TypeTable}
    (htypes : TypeTable.ofContainer p.container = .ok types)
    (hrecord : p'.container.Holds (functionNumber p.kind) record) :
    p.container.Holds (functionNumber p.kind) record ∧
      ∀ s, Resolver.function? ⟨p.strings, types⟩ record = .ok (some s) →
        t.containsMethod owner s = false := by
  obtain ⟨types', container, htypes', hsequence, rfl⟩ := sweep_ok_iff.1 h
  cases htypes.symm.trans htypes'
  have hparts := p.parts_parts owner t types
  by_cases hkind : p.kind = .classFile
  · have hmem : ⟨classFunction, records classFunction
        ((p.judge owner t types).function (some owner))⟩ ∈ p.parts owner t types := by
      rw [parts, if_pos hkind]
      simp [classParts, judge]
    rw [functionNumber, if_pos hkind] at hrecord ⊢
    obtain ⟨hholds, v, hv, hkeep⟩ := sequence_holds hparts hsequence hmem hrecord
    exact ⟨hholds, fun s hs => Judge.function_stays hv hkeep hs⟩
  · have hmem : ⟨packageFunction, records packageFunction
        ((p.judge owner t types).function none)⟩ ∈ p.parts owner t types := by
      rw [parts, if_neg hkind]
      simp [packageParts]
    rw [functionNumber, if_neg hkind] at hrecord ⊢
    obtain ⟨hholds, v, hv, hkeep⟩ := sequence_holds hparts hsequence hmem hrecord
    exact ⟨hholds, fun s hs => Judge.function_stays hv hkeep hs⟩

theorem property_part (p : Payload) (owner : String) (t : Tracker) (types : TypeTable) :
    ⟨propertyNumber p.kind, records (propertyNumber p.kind) (p.judge owner t types).property⟩ ∈
      p.parts owner t types := by
  by_cases hkind : p.kind = .classFile
  · rw [parts, if_pos hkind, propertyNumber, if_pos hkind]
    simp [classParts]
  · rw [parts, if_neg hkind, propertyNumber, if_neg hkind]
    simp [packageParts]

theorem sweep_property (h : p.sweep owner t = .ok (p', changes)) {types : TypeTable}
    (htypes : TypeTable.ofContainer p.container = .ok types)
    (hrecord : p'.container.Holds (propertyNumber p.kind) record) :
    p.container.Holds (propertyNumber p.kind) record ∧
      ∀ s, Resolver.property ⟨p.strings, types⟩ record = .ok s →
        (p.judge owner t types).propertyGone s = false := by
  obtain ⟨types', container, htypes', hsequence, rfl⟩ := sweep_ok_iff.1 h
  cases htypes.symm.trans htypes'
  obtain ⟨hholds, v, hv, hkeep⟩ := sequence_holds (p.parts_parts owner t types) hsequence
    (p.property_part owner t types) hrecord
  exact ⟨hholds, fun s hs => Judge.property_stays hv hkeep hs⟩

/-- A property that goes takes its methods and its backing field along. -/
theorem sweep_property_gone (h : p.sweep owner t = .ok (p', changes)) {types : TypeTable}
    (htypes : TypeTable.ofContainer p.container = .ok types)
    (hrecord : p.container.Holds (propertyNumber p.kind) record)
    (hgone : ¬ p'.container.Holds (propertyNumber p.kind) record) :
    ∃ s, Resolver.property ⟨p.strings, types⟩ record = .ok s ∧
      Judge.members s ⊆ changes.methods ∧ (Judge.backingField? s).toList ⊆ changes.fields := by
  obtain ⟨types', container, htypes', hsequence, rfl⟩ := sweep_ok_iff.1 h
  cases htypes.symm.trans htypes'
  obtain ⟨v, hv, hkeeps, hmethods, hfields⟩ := sequence_judges (p.parts_parts owner t types)
    hsequence (p.property_part owner t types) hrecord
  obtain ⟨s, hs, hkeep, -, hmembers, hfield⟩ := Judge.property_ok hv
  cases hjudged : (p.judge owner t types).propertyGone s with
  | false => exact absurd (hkeeps (by rw [hkeep, hjudged]; rfl)) hgone
  | true =>
    rw [hjudged, if_pos rfl] at hmembers hfield
    exact ⟨s, hs, hmembers ▸ hmethods, hfield ▸ hfields⟩

theorem sweep_constructor (h : p.sweep owner t = .ok (p', changes)) (hkind : p.kind = .classFile)
    {types : TypeTable} (htypes : TypeTable.ofContainer p.container = .ok types)
    (hrecord : p'.container.Holds classConstructor record) :
    p.container.Holds classConstructor record ∧
      ∀ s, Resolver.constructor? ⟨p.strings, types⟩ record = .ok (some s) →
        t.containsMethod owner s = false := by
  obtain ⟨types', container, htypes', hsequence, rfl⟩ := sweep_ok_iff.1 h
  cases htypes.symm.trans htypes'
  have hmem : ⟨classConstructor, records classConstructor (p.judge owner t types).constructor⟩ ∈
      p.parts owner t types := by
    rw [parts, if_pos hkind]
    simp [classParts]
  obtain ⟨hholds, v, hv, hkeep⟩ :=
    sequence_holds (p.parts_parts owner t types) hsequence hmem hrecord
  exact ⟨hholds, fun s hs => Judge.constructor_stays hv hkeep hs⟩

theorem sweep_enumEntry (h : p.sweep owner t = .ok (p', changes)) (hkind : p.kind = .classFile)
    (hrecord : p'.container.Holds classEnumEntry record) :
    p.container.Holds classEnumEntry record ∧
      ∀ index name, record.int? enumEntryName = some index → p.strings.get index = .ok name →
        t.containsField owner ⟨name, "()"⟩ = false := by
  obtain ⟨types, container, -, hsequence, rfl⟩ := sweep_ok_iff.1 h
  have hmem : ⟨classEnumEntry, records classEnumEntry (p.judge owner t types).enumEntry⟩ ∈
      p.parts owner t types := by
    rw [parts, if_pos hkind]
    simp [classParts]
  obtain ⟨hholds, v, hv, hkeep⟩ :=
    sequence_holds (p.parts_parts owner t types) hsequence hmem hrecord
  exact ⟨hholds, fun index name hindex hname => Judge.enumEntry_stays hv hkeep hindex hname⟩

end Payload

end JarPruning.Metadata
