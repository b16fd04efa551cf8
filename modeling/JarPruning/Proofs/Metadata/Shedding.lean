import JarPruning.Proofs.Member.Tracker
import JarPruning.Proofs.Metadata.Idle

/-!
Removals under two trackers. A record goes if one of its questions to the tracker is answered with yes,
so the tracker that holds more leaves less, record by record and number by number.
-/
namespace JarPruning.Metadata

namespace Message

variable {m m' n n' : Message} {lists : List UInt32} {number : UInt32}

/-- What one message lost of a field of another: occurrences or, where it packs a list, numbers. -/
inductive LosesAt (lists : List UInt32) (number : UInt32) (m m' : Message) : Prop
  | occurrences (plain : number ∉ lists)
    (sub : (m'.occurrences number).Sublist (m.occurrences number)) : LosesAt lists number m m'
  | numbers {is is' : List Int32} (listed : number ∈ lists) (read : m.ints number = .ok is)
    (read' : m'.ints number = .ok is') (sub : is'.Sublist is) : LosesAt lists number m m'

theorem LosesAt.congr (h : LosesAt lists number m m')
    (hm : n.occurrences number = m.occurrences number)
    (hm' : n'.occurrences number = m'.occurrences number) : LosesAt lists number n n' := by
  cases h with
  | occurrences hplain hsub => exact .occurrences hplain (by rwa [hm, hm'])
  | numbers hlisted hread hread' hsub =>
    exact .numbers hlisted ((ints_congr hm).trans hread) ((ints_congr hm').trans hread') hsub

end Message

/-- What the second keeps, the first keeps. -/
def Milder {α : Type} (judge judge' : α → Except Fault Verdict) : Prop :=
  ∀ ⦃a v v'⦄, judge a = .ok v → judge' a = .ok v' → v'.keep = true → v.keep = true

namespace Judge

variable {j j' : Judge} {v v' : Verdict}

/-- Judges of one class that is not gone, of which the second holds more members for gone. -/
structure Le (j j' : Judge) : Prop where
  owner : j'.owner = j.owner
  resolver : j'.resolver = j.resolver
  tracker : j.tracker.Le j'.tracker
  here : j'.tracker.containsClass j.owner = false

namespace Le

theorem isGone (h : Le j j') {s : Signature} (hs : j'.isGone s = false) : j.isGone s = false := by
  rw [Judge.isGone, h.owner] at hs
  exact Bool.eq_false_iff.2 fun hgone => by cases hs.symm.trans (h.tracker.methods _ _ hgone)

/-- With the class not gone, a field is held by itself. -/
theorem field?_isSome (h : Le j j') {key : FieldKey}
    (hkey : (j.tracker.field? j.owner key).isSome = true) :
    (j'.tracker.field? j.owner key).isSome = true := by
  have hheld : j.tracker.containsField j.owner key = true := Bool.or_eq_true_iff.2 (.inr hkey)
  have hheld' := h.tracker.fields _ _ hheld
  rwa [Tracker.containsField, h.here, Bool.false_or] at hheld'

theorem fieldVerdict_fst (j : Judge) (property : String) (f : FieldTarget) :
    (j.fieldVerdict property f).1 = (j.tracker.field? j.owner f.key).isSome := by
  unfold fieldVerdict
  cases j.tracker.field? j.owner f.key <;> rfl

theorem propertyGone (h : Le j j') {p : PropertySignature} (hp : j'.propertyGone p = false) :
    j.propertyGone p = false := by
  obtain ⟨hfield, haccessors⟩ := Bool.or_eq_false_iff.1 hp
  refine Bool.or_eq_false_iff.2 ⟨?_, ?_⟩
  · cases hbacking : backingField? p with
    | none => rfl
    | some f =>
      rw [hbacking, Option.any_some, fieldVerdict_fst, h.owner] at hfield
      rw [Option.any_some, fieldVerdict_fst]
      exact Bool.eq_false_iff.2 fun hgone => by cases hfield.symm.trans (h.field?_isSome hgone)
  · refine List.any_eq_false.2 fun s hs => ?_
    have hstays := Bool.eq_false_iff.2 (List.any_eq_false.1 haccessors s hs)
    rw [h.isGone hstays]
    exact Bool.false_ne_true

theorem function (h : Le j j') (owner : Option String) :
    Milder (j.function owner) (j'.function owner) := by
  intro record v v' hv hv' hkeep
  obtain ⟨s?, hs, hv⟩ := bind_ok_iff.1 hv
  cases s? with
  | none =>
    cases hv
    rfl
  | some s =>
    have hgone := h.isGone (function_stays hv' hkeep (h.resolver ▸ hs))
    simp only [hgone, Bool.false_eq_true, if_false] at hv
    cases hv
    rfl

theorem constructor (h : Le j j') : Milder j.constructor j'.constructor := by
  intro record v v' hv hv' hkeep
  obtain ⟨s?, hs, hv⟩ := bind_ok_iff.1 hv
  cases s? with
  | none =>
    cases hv
    rfl
  | some s =>
    have hgone := h.isGone (constructor_stays hv' hkeep (h.resolver ▸ hs))
    simp only [hgone, Bool.false_eq_true, if_false] at hv
    cases hv
    rfl

theorem property (h : Le j j') : Milder j.property j'.property := by
  intro record v v' hv hv' hkeep
  obtain ⟨p, hp, hstays, -⟩ := property_ok hv
  rw [hstays, h.propertyGone (property_stays hv' hkeep (h.resolver ▸ hp))]
  rfl

theorem enumEntry (h : Le j j') : Milder j.enumEntry j'.enumEntry := by
  intro record v v' hv hv' hkeep
  unfold Judge.enumEntry at hv
  split at hv
  · cases hv
    rfl
  · next index hindex =>
    obtain ⟨name, hname, hv⟩ := bind_ok_iff.1 hv
    have hstays := enumEntry_stays hv' hkeep hindex (h.resolver ▸ hname)
    rw [h.owner] at hstays
    have hhere : j.tracker.containsField j.owner ⟨name, "()"⟩ = false := Bool.eq_false_iff.2
      fun hgone => by cases hstays.symm.trans (h.tracker.fields _ _ hgone)
    rw [if_neg (by simp [hhere])] at hv
    cases hv
    rfl

theorem className (h : Le j j') (full : String → String) (removed : String → Removed) :
    Milder (j.className full removed) (j'.className full removed) := by
  intro index v v' hv hv' hkeep
  obtain ⟨name, hname, hv⟩ := bind_ok_iff.1 hv
  obtain ⟨name', hname', hv'⟩ := bind_ok_iff.1 hv'
  rw [h.resolver] at hname'
  obtain rfl := Except.ok.inj (hname.symm.trans hname')
  dsimp only at hv hv'
  split at hv'
  · cases hv'
    cases hkeep
  · next hstays =>
    rw [if_neg fun hgone => hstays (h.tracker.classes _ hgone)] at hv
    cases hv
    rfl

theorem nestedName (h : Le j j') : j'.nestedName = j.nestedName := by
  funext name
  rw [Judge.nestedName, h.owner, Judge.nestedName]

end Le

end Judge

namespace Sweep

open Message (LosesAt)

variable {m m' n n' : Message} {changes changes' : Changes} {number : UInt32}
  {lists : List UInt32}

/-- What passes the second test is among what passes the first. -/
theorem filter_sublist_of_imp {α : Type} {l : List α} {f g : α → Bool}
    (h : ∀ a ∈ l, g a = true → f a = true) : (l.filter g).Sublist (l.filter f) := by
  have hboth : l.filter g = (l.filter f).filter g := by
    rw [List.filter_filter]
    refine List.filter_congr fun a ha => ?_
    cases hg : g a with
    | true => rw [h a ha hg, Bool.and_true]
    | false => rfl
  rw [hboth]
  exact List.filter_sublist

/-- Parts that look at the same field, the second of which leaves less of it. -/
structure Part.Sheds (lists : List UInt32) (p q : Part) : Prop where
  number : q.number = p.number
  left : ∀ {m m' n n' changes changes'}, p.sweep m = .ok (m', changes) →
    q.sweep n = .ok (n', changes') → n.occurrences p.number = m.occurrences p.number →
      LosesAt lists p.number m' n'
  /-- Where the second finds nothing to remove, neither does the first. -/
  rests : ∀ {m m' n' changes changes'}, p.sweep m = .ok (m', changes) →
    q.sweep m = .ok (n', changes') → changes'.removed = [] → changes.removed = []

theorem removed_eq_nil {α : Type} {judged judged' : α → Verdict → Prop} (keep keep' : α → Bool)
    (hhonest : ∀ {a v}, judged a v → v.Honest ∧ keep a = v.keep)
    (hhonest' : ∀ {a v}, judged' a v → v.Honest ∧ keep' a = v.keep) {as : List α}
    {vs vs' : List Verdict} (h : List.Forall₂ judged as vs) (h' : List.Forall₂ judged' as vs')
    (himp : ∀ a ∈ as, keep' a = true → keep a = true) (hquiet : (Verdict.total vs').removed = []) :
    (Verdict.total vs).removed = [] := by
  by_contra hremoved
  have hlt := exists_dropped keep hhonest h hremoved
  have hle := (filter_sublist_of_imp himp).length_le
  rw [filter_eq_self_of_quiet keep' hhonest' h' hquiet] at hle
  omega

theorem keeps_of_milder {judge judge' : Message → Except Fault Verdict} (h : Milder judge judge')
    {values : List WireValue} {vs vs' : List Verdict} (hvs : List.Forall₂ (Judged judge) values vs)
    (hvs' : List.Forall₂ (Judged judge') values vs') :
    ∀ value ∈ values, keeps judge' value = true → keeps judge value = true := by
  intro value hvalue hkeeps
  obtain ⟨v, -, hv⟩ := forall₂_mem_left hvs hvalue
  obtain ⟨v', -, hv'⟩ := forall₂_mem_left hvs' hvalue
  rw [hv'.keeps] at hkeeps
  rw [hv.keeps]
  obtain ⟨b, record, rfl, hrecord, hjudge⟩ := hv
  obtain ⟨b', record', hb, hrecord', hjudge'⟩ := hv'
  cases hb
  obtain rfl := Except.ok.inj (hrecord.symm.trans hrecord')
  exact h hjudge hjudge' hkeeps

theorem records_sheds {judge judge' : Message → Except Fault Verdict} (hplain : number ∉ lists)
    (h : Milder judge judge') (hhonest : ∀ {record v}, judge record = .ok v → v.Honest)
    (hhonest' : ∀ {record v}, judge' record = .ok v → v.Honest) :
    Part.Sheds lists ⟨number, records number judge⟩
      ⟨number, records number judge'⟩ where
  number := rfl
  left := by
    intro m m' n n' changes changes' hm hn hsame
    obtain ⟨vs, hvs, rfl, -⟩ := records_ok_iff.1 hm
    obtain ⟨vs', hvs', rfl, -⟩ := records_ok_iff.1 hn
    dsimp only at hsame
    rw [hsame] at hvs'
    refine .occurrences hplain ?_
    dsimp only
    rw [Message.occurrences_keepValues, Message.occurrences_keepValues, hsame]
    exact filter_sublist_of_imp (keeps_of_milder h hvs hvs')
  rests := by
    intro m m' n' changes changes' hm hn hquiet
    obtain ⟨vs, hvs, -, rfl⟩ := records_ok_iff.1 hm
    obtain ⟨vs', hvs', -, rfl⟩ := records_ok_iff.1 hn
    exact removed_eq_nil (keeps judge) (keeps judge')
      (fun hv => ⟨by obtain ⟨b, record, -, -, hv⟩ := hv; exact hhonest hv, hv.keeps⟩)
      (fun hv => ⟨by obtain ⟨b, record, -, -, hv⟩ := hv; exact hhonest' hv, hv.keeps⟩)
      hvs hvs' (keeps_of_milder h hvs hvs') hquiet

theorem keepsInt_of_milder {judge judge' : Int32 → Except Fault Verdict} (h : Milder judge judge')
    {l : List Int32} {vs vs' : List Verdict} (hvs : List.Forall₂ (fun i v => judge i = .ok v) l vs)
    (hvs' : List.Forall₂ (fun i v => judge' i = .ok v) l vs') :
    ∀ i ∈ l, keepsInt judge' i = true → keepsInt judge i = true := by
  intro i hi hkeeps
  obtain ⟨v, -, hv⟩ := forall₂_mem_left hvs hi
  obtain ⟨v', -, hv'⟩ := forall₂_mem_left hvs' hi
  simp only [keepsInt, hv'] at hkeeps
  simp only [keepsInt, hv]
  exact h hv hv' hkeeps

theorem elements_sheds {judge judge' : Int32 → Except Fault Verdict} (hlisted : number ∈ lists)
    (h : Milder judge judge') (hhonest : ∀ {i v}, judge i = .ok v → v.Honest)
    (hhonest' : ∀ {i v}, judge' i = .ok v → v.Honest) :
    Part.Sheds lists ⟨number, elements number judge⟩
      ⟨number, elements number judge'⟩ where
  number := rfl
  left := by
    intro m m' n n' changes changes' hm hn hsame
    obtain ⟨l, vs, hl, hvs, rfl, -⟩ := elements_ok_iff.1 hm
    obtain ⟨l', vs', hl', hvs', rfl, -⟩ := elements_ok_iff.1 hn
    obtain rfl := Except.ok.inj (hl'.symm.trans ((Message.ints_congr hsame).trans hl))
    exact .numbers hlisted (Message.ints_keepInts hl _) (Message.ints_keepInts hl' _)
      (filter_sublist_of_imp (keepsInt_of_milder h hvs hvs'))
  rests := by
    intro m m' n' changes changes' hm hn hquiet
    obtain ⟨l, vs, hl, hvs, -, rfl⟩ := elements_ok_iff.1 hm
    obtain ⟨l', vs', hl', hvs', -, rfl⟩ := elements_ok_iff.1 hn
    obtain rfl := Except.ok.inj (hl'.symm.trans hl)
    exact removed_eq_nil (keepsInt judge) (keepsInt judge')
      (fun hv => ⟨hhonest hv, by simp [keepsInt, hv]⟩)
      (fun hv => ⟨hhonest' hv, by simp [keepsInt, hv]⟩) hvs hvs' (keepsInt_of_milder h hvs hvs') hquiet

theorem companion_sheds {j j' : Judge} (h : j.Le j')
    (hplain : FieldNumber.classCompanion ∉ lists) :
    Part.Sheds lists ⟨FieldNumber.classCompanion, companion j⟩
      ⟨FieldNumber.classCompanion, companion j'⟩ where
  number := rfl
  left := by
    intro m m' n n' changes changes' hm hn hsame
    dsimp only at hm hn hsame ⊢
    refine .occurrences hplain ?_
    have hint := Message.int?_congr hsame
    unfold companion at hm hn
    rw [hint] at hn
    cases hindex : m.int? FieldNumber.classCompanion with
    | none =>
      rw [hindex] at hm hn
      cases hm
      cases hn
      rw [hsame]
    | some index =>
      rw [hindex] at hm hn
      obtain ⟨v, hv, hm⟩ := bind_ok_iff.1 hm
      obtain ⟨v', hv', hn⟩ := bind_ok_iff.1 hn
      rw [h.nestedName] at hv'
      cases hm
      cases hn
      cases hkeep' : v'.keep with
      | true =>
        rw [h.className _ _ hv hv' hkeep', if_pos rfl, if_pos rfl, hsame]
      | false =>
        rw [if_neg Bool.false_ne_true, Message.remove_eq, Message.occurrences_keepValues]
        simp
  rests := by
    intro m m' n' changes changes' hm hn hquiet
    dsimp only at hm hn
    unfold companion at hm hn
    cases hindex : m.int? FieldNumber.classCompanion with
    | none =>
      rw [hindex] at hm
      cases hm
      rfl
    | some index =>
      rw [hindex] at hm hn
      obtain ⟨v, hv, hm⟩ := bind_ok_iff.1 hm
      obtain ⟨v', hv', hn⟩ := bind_ok_iff.1 hn
      rw [h.nestedName] at hv'
      cases hm
      cases hn
      exact (Judge.honest_className hv).1
        (h.className _ _ hv hv' ((Judge.honest_className hv').2 hquiet))

/-- Fields that no part looks at stay, and what is left of the others is less. -/
theorem sequence_sheds {parts parts' : List Part} (hs : Parts parts) (hs' : Parts parts')
    (h : List.Forall₂ (Part.Sheds lists) parts parts')
    (hlists : ∀ number ∈ lists, number ∈ parts.map (·.number))
    (hm : sequence (parts.map (·.sweep)) m = .ok (m', changes))
    (hn : sequence (parts'.map (·.sweep)) m = .ok (n', changes')) (number : UInt32) :
    LosesAt lists number m' n' := by
  have hnumbers : parts'.map (·.number) = parts.map (·.number) := by
    clear hs hs' hlists hm hn
    induction h with
    | nil => rfl
    | cons hp _ ih => rw [List.map_cons, List.map_cons, hp.number, ih]
  by_cases hmem : number ∈ parts.map (·.number)
  · obtain ⟨p, hp, rfl⟩ := List.mem_map.1 hmem
    obtain ⟨q, hq, hsheds⟩ := forall₂_mem_left h hp
    obtain ⟨m₁, m₂, c, hsweep, hbefore, hafter, -⟩ := sequence_part hs hm hp
    obtain ⟨n₁, n₂, c', hsweep', hbefore', hafter', -⟩ := sequence_part hs' hn hq
    rw [hsheds.number] at hbefore' hafter'
    exact (hsheds.left hsweep hsweep' (hbefore'.trans hbefore.symm)).congr hafter hafter'
  · refine .occurrences (fun hlisted => hmem (hlists _ hlisted)) ?_
    rw [sequence_elsewhere hs.each hm hmem, sequence_elsewhere hs'.each hn (hnumbers ▸ hmem)]

theorem sequence_rests {parts parts' : List Part} (hquiet : ∀ p ∈ parts, p.Quiet)
    (hquiet' : ∀ p ∈ parts', p.Quiet) (h : List.Forall₂ (Part.Sheds lists) parts parts')
    (hm : sequence (parts.map (·.sweep)) m = .ok (m', changes))
    (hn : sequence (parts'.map (·.sweep)) m = .ok (n', changes')) (hnone : changes'.removed = []) :
    changes.removed = [] := by
  induction h generalizing m changes changes' with
  | nil =>
    cases hm
    rfl
  | cons hp _ ih =>
    obtain ⟨hfirst, hlater⟩ := List.forall_mem_cons.1 hquiet
    obtain ⟨hfirst', hlater'⟩ := List.forall_mem_cons.1 hquiet'
    obtain ⟨m₁, c₁, c₂, h₁, h₂, rfl⟩ := sequence_cons_ok hm
    obtain ⟨n₁, c₁', c₂', h₁', h₂', rfl⟩ := sequence_cons_ok hn
    obtain ⟨hnone₁, hnone₂⟩ := List.append_eq_nil_iff.1
      (show c₁'.removed ++ c₂'.removed = [] from hnone)
    have hrests := hp.rests h₁ h₁' hnone₁
    obtain rfl := hfirst h₁ hrests
    obtain rfl := hfirst' h₁' hnone₁
    show c₁.removed ++ c₂.removed = []
    rw [hrests, ih hlater hlater' h₂ h₂' hnone₂, List.append_nil]

end Sweep

open Metadata.Sweep FieldNumber

/-- The fields that pack lists of names. -/
def Kind.listNumbers (kind : Kind) : List UInt32 :=
  if kind = .classFile then [classNested, classSealed] else []

/-- The second payload is the first without some of its records and without some of the names in its
lists. -/
structure Payload.Sheds (p p' : Payload) : Prop where
  frame : p' = { p with container := p'.container }
  left : ∀ number, p.container.LosesAt p.kind.listNumbers number p'.container

/-- The parts of a removal under two trackers. -/
theorem Payload.parts_shed (p : Payload) {owner : String} {t₁ t₂ : Tracker} (hle : t₁.Le t₂)
    (hhere : t₂.containsClass owner = false) (types : TypeTable) :
    List.Forall₂ (Part.Sheds p.kind.listNumbers) (p.parts owner t₁ types)
      (p.parts owner t₂ types) := by
  have hj : (p.judge owner t₁ types).Le (p.judge owner t₂ types) := ⟨rfl, rfl, hle, hhere⟩
  unfold parts Kind.listNumbers
  split
  · exact .cons (records_sheds (by decide) hj.constructor Judge.honest_constructor
        Judge.honest_constructor) <|
      .cons (records_sheds (by decide) (hj.function _) Judge.honest_function
        Judge.honest_function) <|
      .cons (records_sheds (by decide) hj.property Judge.honest_property Judge.honest_property) <|
      .cons (records_sheds (by decide) hj.enumEntry Judge.honest_enumEntry
        Judge.honest_enumEntry) <|
      .cons (elements_sheds (by decide) (hj.className ..) Judge.honest_className
        Judge.honest_className) <|
      .cons (elements_sheds (by decide) (hj.className ..) Judge.honest_className
        Judge.honest_className) <|
      .cons (companion_sheds hj (by decide)) .nil
  · exact .cons (records_sheds (by decide) (hj.function _) Judge.honest_function
        Judge.honest_function) <|
      .cons (records_sheds (by decide) hj.property Judge.honest_property Judge.honest_property) .nil

/-- Of two trackers that do not hold the class, the one that holds more leaves less of a payload. -/
theorem Payload.sweep_sheds {p p₁ p₂ : Payload} {owner : String} {t₁ t₂ : Tracker}
    {changes₁ changes₂ : Changes} (hle : t₁.Le t₂) (hhere : t₂.containsClass owner = false)
    (h₁ : p.sweep owner t₁ = .ok (p₁, changes₁)) (h₂ : p.sweep owner t₂ = .ok (p₂, changes₂)) :
    p₁.Sheds p₂ ∧ (changes₂.removed = [] → changes₁.removed = []) := by
  obtain ⟨types, m₁, htypes, hsequence₁, rfl⟩ := sweep_ok_iff.1 h₁
  obtain ⟨types', m₂, htypes', hsequence₂, rfl⟩ := sweep_ok_iff.1 h₂
  obtain rfl := Except.ok.inj (htypes.symm.trans htypes')
  have hparts := p.parts_shed hle hhere types
  refine ⟨⟨rfl, sequence_sheds (p.parts_parts owner t₁ types) (p.parts_parts owner t₂ types) hparts
    ?_ hsequence₁ hsequence₂⟩, sequence_rests (p.parts_quiet owner t₁ types)
      (p.parts_quiet owner t₂ types) hparts hsequence₁ hsequence₂⟩
  unfold parts Kind.listNumbers
  split
  · show ∀ number ∈ [classNested, classSealed], number ∈ [classConstructor, classFunction,
      classProperty, classEnumEntry, classNested, classSealed, classCompanion]
    simp
  · simp

/-- What a removal leaves is less than what was there. -/
theorem Payload.sheds_sweep {p p' : Payload} {owner : String} {t : Tracker} {changes : Changes}
    (hhere : t.containsClass owner = false) (h : p.sweep owner t = .ok (p', changes)) :
    p.Sheds p' := by
  obtain ⟨c, hidle, -⟩ := (Payload.sweep_cleared h).1
  exact (sweep_sheds (.empty t) hhere hidle h).1

end JarPruning.Metadata
