import JarPruning.Proofs.Metadata.Records

/-!
Removals under an empty tracker. What could be judged once can be judged again, and with nothing
gone every record stays.
-/
namespace JarPruning.Metadata

/-- A verdict by which nothing goes. -/
def Verdict.Idle (v : Verdict) : Prop := v.keep = true ∧ v.changes.removed = []

theorem Verdict.idle_keep : Idle {} := ⟨rfl, rfl⟩

namespace Judge

variable {j : Judge} {v : Verdict}

/-- The judge when nothing is gone. -/
def cleared (j : Judge) : Judge := { j with tracker := {} }

theorem isGone_cleared (j : Judge) (s : Signature) : j.cleared.isGone s = false := rfl

theorem function_cleared {owner : Option String} {record : Message}
    (h : j.function owner record = .ok v) :
    ∃ v', j.cleared.function owner record = .ok v' ∧ v'.Idle := by
  obtain ⟨s, hs, -⟩ := bind_ok_iff.1 h
  refine ⟨{}, bind_ok_iff.2 ⟨s, hs, ?_⟩, Verdict.idle_keep⟩
  cases s <;> rfl

theorem constructor_cleared {record : Message} (h : j.constructor record = .ok v) :
    ∃ v', j.cleared.constructor record = .ok v' ∧ v'.Idle := by
  obtain ⟨s, hs, -⟩ := bind_ok_iff.1 h
  refine ⟨{}, bind_ok_iff.2 ⟨s, hs, ?_⟩, Verdict.idle_keep⟩
  cases s <;> rfl

theorem propertyGone_cleared (j : Judge) (p : PropertySignature) :
    j.cleared.propertyGone p = false := by
  unfold propertyGone
  rw [Bool.or_eq_false_iff]
  refine ⟨?_, List.any_eq_false.2 fun s _ => by simp [isGone_cleared]⟩
  cases backingField? p <;> rfl

theorem property_cleared {record : Message} (h : j.property record = .ok v) :
    ∃ v', j.cleared.property record = .ok v' ∧ v'.Idle := by
  obtain ⟨p, hp, -⟩ := bind_ok_iff.1 h
  obtain ⟨v', hv'⟩ : ∃ v', j.cleared.property record = .ok v' :=
    ⟨_, bind_ok_iff.2 ⟨p, hp, rfl⟩⟩
  obtain ⟨p', -, hkeep, hremoved, -⟩ := property_ok hv'
  rw [propertyGone_cleared] at hkeep hremoved
  exact ⟨v', hv', hkeep, hremoved⟩

theorem enumEntry_cleared {record : Message} (h : j.enumEntry record = .ok v) :
    ∃ v', j.cleared.enumEntry record = .ok v' ∧ v'.Idle := by
  refine ⟨{}, ?_, Verdict.idle_keep⟩
  unfold enumEntry at h ⊢
  split at h
  · rfl
  · obtain ⟨name, hname, -⟩ := bind_ok_iff.1 h
    exact bind_ok_iff.2 ⟨name, hname, rfl⟩

theorem className_cleared {full : String → String} {removed : String → Removed} {index : Int32}
    (h : j.className full removed index = .ok v) :
    ∃ v', j.cleared.className full removed index = .ok v' ∧ v'.Idle := by
  obtain ⟨name, hname, -⟩ := bind_ok_iff.1 h
  exact ⟨{}, bind_ok_iff.2 ⟨name, hname, rfl⟩, Verdict.idle_keep⟩

end Judge

namespace Sweep

variable {m m' n : Message} {changes : Changes} {number : UInt32}

/-- A sweep that finds nothing to remove. -/
def Idle (sweep : Sweep) (m : Message) : Prop :=
  ∃ changes, sweep m = .ok (m, changes) ∧ changes.removed = []

theorem total_idle {vs : List Verdict} (h : ∀ v ∈ vs, v.Idle) :
    (Verdict.total vs).removed = [] := by
  rw [Verdict.total_removed, List.flatMap_eq_nil_iff]
  exact fun v hv => (h v hv).2

theorem sequence_idle {sweeps : List Sweep} (h : ∀ sweep ∈ sweeps, sweep.Idle m) :
    (sequence sweeps).Idle m := by
  induction sweeps with
  | nil => exact ⟨{}, rfl, rfl⟩
  | cons sweep sweeps ih =>
    obtain ⟨c₁, h₁, hc₁⟩ := h sweep (List.mem_cons_self ..)
    obtain ⟨c₂, h₂, hc₂⟩ := ih fun s hs => h s (List.mem_cons_of_mem _ hs)
    refine ⟨c₁ ++ c₂, bind_ok_iff.2 ⟨_, h₁, bind_ok_iff.2 ⟨_, h₂, rfl⟩⟩, ?_⟩
    show c₁.removed ++ c₂.removed = []
    rw [hc₁, hc₂]
    rfl

/-- What a part did, the same part under an empty tracker has nothing to do with, neither before
nor after. -/
structure Part.Clears (p q : Part) : Prop where
  before : ∀ {m m' changes n}, p.sweep m = .ok (m', changes) →
    n.occurrences p.number = m.occurrences p.number → q.sweep.Idle n
  after : ∀ {m m' changes n}, p.sweep m = .ok (m', changes) →
    n.occurrences p.number = m'.occurrences p.number → q.sweep.Idle n

theorem records_idle {judge : Message → Except Fault Verdict} {vs : List Verdict}
    (h : List.Forall₂ (Judged judge) (n.occurrences number) vs) (hvs : ∀ v ∈ vs, v.Idle) :
    (records number judge).Idle n := by
  refine ⟨_, records_ok_iff.2 ⟨vs, h, ?_, rfl⟩, total_idle hvs⟩
  refine congrArg Message.mk (List.filter_eq_self.2 fun f hf => ?_).symm
  by_cases hnumber : f.number = number
  · have hvalue : f.value ∈ n.occurrences number :=
      List.mem_map_of_mem (List.mem_filter.2 ⟨hf, decide_eq_true hnumber⟩)
    obtain ⟨v, hv, hjudged⟩ := forall₂_mem_left h hvalue
    simp [hjudged.keeps.trans (hvs v hv).1]
  · simp [hnumber]

theorem records_clears {judge judge' : Message → Except Fault Verdict}
    (hclear : ∀ {record v}, judge record = .ok v → ∃ v', judge' record = .ok v' ∧ v'.Idle) :
    Part.Clears ⟨number, records number judge⟩
      ⟨number, records number judge'⟩ := by
  have hidle {n : Message} (h : ∀ value ∈ n.occurrences number, ∃ v, Judged judge value v) :
      (records number judge').Idle n := by
    have hjudged : ∀ value ∈ n.occurrences number, ∃ v', Judged judge' value v' ∧ v'.Idle := by
      intro value hvalue
      obtain ⟨v, b, record, rfl, hrecord, hv⟩ := h value hvalue
      obtain ⟨v', hv', hvidle⟩ := hclear hv
      exact ⟨v', ⟨b, record, rfl, hrecord, hv'⟩, hvidle⟩
    obtain ⟨vs, hvs, hidle⟩ := exists_forall₂ hjudged
    exact records_idle hvs hidle
  have hread {values : List WireValue} {vs : List Verdict}
      (h : List.Forall₂ (Judged judge) values vs) : ∀ value ∈ values, ∃ v, Judged judge value v := by
    intro value hvalue
    obtain ⟨v, -, hv⟩ := forall₂_mem_left h hvalue
    exact ⟨v, hv⟩
  constructor
  · intro m m' changes n h hn
    obtain ⟨vs, hvs, -, -⟩ := records_ok_iff.1 h
    exact hidle fun value hvalue => hread hvs value (hn ▸ hvalue)
  · intro m m' changes n h hn
    obtain ⟨vs, hvs, rfl, -⟩ := records_ok_iff.1 h
    refine hidle fun value hvalue => hread hvs value ?_
    dsimp only at hn
    rw [hn, Message.occurrences_keepValues] at hvalue
    exact List.mem_of_mem_filter hvalue

theorem elements_clears {judge judge' : Int32 → Except Fault Verdict}
    (hclear : ∀ {i v}, judge i = .ok v → ∃ v', judge' i = .ok v' ∧ v'.Idle) :
    Part.Clears ⟨number, elements number judge⟩
      ⟨number, elements number judge'⟩ := by
  have hidle {n : Message} {l : List Int32} (hl : n.ints number = .ok l)
      (h : ∀ i ∈ l, ∃ v, judge i = .ok v) : (elements number judge').Idle n := by
    have hjudged : ∀ i ∈ l, ∃ v', judge' i = .ok v' ∧ v'.Idle := fun i hi =>
      let ⟨_, hv⟩ := h i hi
      hclear hv
    obtain ⟨vs, hvs, hidle⟩ := exists_forall₂ hjudged
    refine ⟨_, elements_ok_iff.2 ⟨l, vs, hl, hvs, ?_, rfl⟩, total_idle hidle⟩
    refine (Message.keepInts_eq_self hl fun i hi => ?_).symm
    obtain ⟨v', hv', hvidle⟩ := hjudged i hi
    simpa [keepsInt, hv'] using hvidle.1
  have hread {l : List Int32} {vs : List Verdict}
      (h : List.Forall₂ (fun i v => judge i = .ok v) l vs) : ∀ i ∈ l, ∃ v, judge i = .ok v := by
    intro i hi
    obtain ⟨v, -, hv⟩ := forall₂_mem_left h hi
    exact ⟨v, hv⟩
  constructor
  · intro m m' changes n h hn
    obtain ⟨l, vs, hl, hvs, -, -⟩ := elements_ok_iff.1 h
    exact hidle ((Message.ints_congr hn).trans hl) (hread hvs)
  · intro m m' changes n h hn
    obtain ⟨l, vs, hl, hvs, rfl, -⟩ := elements_ok_iff.1 h
    exact hidle ((Message.ints_congr hn).trans (Message.ints_keepInts hl _)) fun i hi =>
      hread hvs i (List.mem_of_mem_filter hi)

theorem companion_clears {j : Judge} :
    Part.Clears ⟨FieldNumber.classCompanion, companion j⟩
      ⟨FieldNumber.classCompanion, companion j.cleared⟩ := by
  have hnone {n : Message} (h : n.int? FieldNumber.classCompanion = none) :
      (companion j.cleared).Idle n := by
    refine ⟨{}, ?_, rfl⟩
    unfold companion
    rw [h]
    rfl
  have hsame {m m' n : Message} {changes : Changes} (h : companion j m = .ok (m', changes))
      (hn : n.occurrences FieldNumber.classCompanion = m.occurrences FieldNumber.classCompanion) :
      (companion j.cleared).Idle n := by
    cases hindex : m.int? FieldNumber.classCompanion with
    | none => exact hnone ((Message.int?_congr hn).trans hindex)
    | some index =>
      unfold companion at h
      rw [hindex] at h
      obtain ⟨v, hv, -⟩ := bind_ok_iff.1 h
      obtain ⟨v', hv', hkeep, hremoved⟩ := Judge.className_cleared hv
      refine ⟨v'.changes, ?_, hremoved⟩
      unfold companion
      rw [Message.int?_congr hn, hindex]
      refine bind_ok_iff.2 ⟨v', hv', ?_⟩
      rw [hkeep]
      rfl
  constructor
  · intro m m' changes n h hn
    exact hsame h hn
  · intro m m' changes n h hn
    obtain ⟨rfl, -⟩ | ⟨-, rfl, -⟩ := companion_ok h
    · exact hsame h hn
    · refine hnone ?_
      dsimp only at hn
      rw [Message.remove_eq, Message.occurrences_keepValues] at hn
      simp [Message.int?, hn]

theorem sequence_cleared {parts cleared : List Part} (hs : Parts parts)
    (hclears : List.Forall₂ Part.Clears parts cleared)
    (h : sequence (parts.map (·.sweep)) m = .ok (m', changes)) :
    (sequence (cleared.map (·.sweep))).Idle m ∧ (sequence (cleared.map (·.sweep))).Idle m' := by
  have hpart : ∀ sweep ∈ cleared.map (·.sweep), sweep.Idle m ∧ sweep.Idle m' := by
    intro sweep hsweep
    obtain ⟨q, hq, rfl⟩ := List.mem_map.1 hsweep
    obtain ⟨p, hp, hpq⟩ := forall₂_mem_right hclears hq
    obtain ⟨m₁, m₂, c, hrun, hbefore, hafter, -⟩ := sequence_part hs h hp
    exact ⟨hpq.before hrun hbefore.symm, hpq.after hrun hafter⟩
  exact ⟨sequence_idle fun s hs => (hpart s hs).1, sequence_idle fun s hs => (hpart s hs).2⟩

end Sweep

open Metadata.Sweep

/-- A payload that was swept has nothing to lose when nothing is gone, neither as it was nor as it
is now. -/
theorem Payload.sweep_cleared {p p' : Payload} {owner : String} {t : Tracker} {changes : Changes}
    (h : p.sweep owner t = .ok (p', changes)) :
    (∃ c, p.sweep owner {} = .ok (p, c) ∧ c.removed = []) ∧
      ∃ c, p'.sweep owner {} = .ok (p', c) ∧ c.removed = [] := by
  obtain ⟨hkind, hstrings, -, htypes'⟩ := Payload.sweep_keeps h
  obtain ⟨types, container, htypes, hsequence, rfl⟩ := sweep_ok_iff.1 h
  have hclears : List.Forall₂ Part.Clears (p.parts owner t types) (p.parts owner {} types) := by
    unfold parts
    split
    · exact .cons (records_clears Judge.constructor_cleared) <|
        .cons (records_clears Judge.function_cleared) <|
        .cons (records_clears Judge.property_cleared) <|
        .cons (records_clears Judge.enumEntry_cleared) <|
        .cons (elements_clears Judge.className_cleared) <|
        .cons (elements_clears Judge.className_cleared) <| .cons companion_clears .nil
    · exact .cons (records_clears Judge.function_cleared) <|
        .cons (records_clears Judge.property_cleared) .nil
  obtain ⟨⟨c₁, h₁, hc₁⟩, c₂, h₂, hc₂⟩ :=
    sequence_cleared (p.parts_parts owner t types) hclears hsequence
  exact ⟨⟨c₁, sweep_ok_iff.2 ⟨types, _, htypes, h₁, rfl⟩, hc₁⟩,
    ⟨c₂, sweep_ok_iff.2 ⟨types, _, htypes'.trans htypes, h₂, rfl⟩, hc₂⟩⟩

end JarPruning.Metadata
