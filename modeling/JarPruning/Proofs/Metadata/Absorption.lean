import JarPruning.Proofs.Metadata.Shedding

/-!
A removal absorbs every removal made before for less: what it leaves does not tell whether there
was one. The parts of a removal act on fields of their own, so parts of two removals commute.
-/
namespace JarPruning.Metadata

namespace Message

variable {m : Message} {a b number : UInt32}

/-! Edits of two fields commute. -/

theorem keepValues_comm (f g : WireValue → Bool) (m : Message) :
    (m.keepValues a f).keepValues b g = (m.keepValues b g).keepValues a f := by
  simp only [keepValues, List.filter_filter, Bool.and_comm]

theorem replaceFirst_keepValues (hne : a ≠ b) (value : WireValue) (keep : WireValue → Bool)
    (fields : List WireField) :
    (replaceFirst a ⟨a, value⟩ fields).filter (fun f => f.number ≠ b || keep f.value) =
      replaceFirst a ⟨a, value⟩ (fields.filter fun f => f.number ≠ b || keep f.value) := by
  induction fields with
  | nil => simp [replaceFirst, hne]
  | cons f fields ih =>
    by_cases ha : f.number = a
    · have hb : f.number ≠ b := ha ▸ hne
      simp [replaceFirst, ha, hne, List.filter_filter, Bool.and_comm]
    · cases hkeep : (f.number ≠ b || keep f.value : Bool) with
      | true => simp only [replaceFirst, if_neg ha, List.filter_cons, hkeep, if_true, ih]
      | false =>
        simp only [replaceFirst, if_neg ha, List.filter_cons, hkeep, Bool.false_eq_true, if_false,
          ih]

theorem setPacked_keepValues (hne : a ≠ b) (values : List Int32) (keep : WireValue → Bool)
    (m : Message) :
    (m.setPacked a values).keepValues b keep = (m.keepValues b keep).setPacked a values := by
  unfold setPacked
  split
  · rw [remove_eq, remove_eq, keepValues_comm]
  · exact congrArg Message.mk (replaceFirst_keepValues hne _ keep m.fields)

/-- A field that occurs is replaced where it stands. -/
theorem replaceFirst_comm (hne : a ≠ b) (x y : WireValue) {fields : List WireField}
    (ha : ∃ f ∈ fields, f.number = a) (hb : ∃ f ∈ fields, f.number = b) :
    replaceFirst b ⟨b, y⟩ (replaceFirst a ⟨a, x⟩ fields) =
      replaceFirst a ⟨a, x⟩ (replaceFirst b ⟨b, y⟩ fields) := by
  have hothers {c d : UInt32} (hcd : c ≠ d) (z : WireValue) (fields : List WireField) :
      (replaceFirst c ⟨c, z⟩ fields).filter (·.number ≠ d) =
        replaceFirst c ⟨c, z⟩ (fields.filter (·.number ≠ d)) := by
    simpa using replaceFirst_keepValues hcd z (fun _ => false) fields
  induction fields with
  | nil => simp at ha
  | cons f fields ih =>
    by_cases hfa : f.number = a
    · have hfb : f.number ≠ b := hfa ▸ hne
      simp only [replaceFirst, if_pos hfa, if_neg hfb, if_neg hne, hothers hne.symm]
    · by_cases hfb : f.number = b
      · simp only [replaceFirst, if_neg hfa, if_pos hfb, if_neg hne.symm, hothers hne]
      · have hthere {c : UInt32} (hc : f.number ≠ c) (h : ∃ g ∈ f :: fields, g.number = c) :
            ∃ g ∈ fields, g.number = c := by
          obtain ⟨g, hg, hnumber⟩ := h
          obtain rfl | hg := List.mem_cons.1 hg
          · exact absurd hnumber hc
          · exact ⟨g, hg, hnumber⟩
        simp only [replaceFirst, if_neg hfa, if_neg hfb, ih (hthere hfa ha) (hthere hfb hb)]

theorem exists_of_ints {l : List Int32} (h : m.ints number = .ok l) (hl : l ≠ []) :
    ∃ f ∈ m.fields, f.number = number := by
  have hoccurs := occurrences_ne_nil_of_ints h hl
  obtain ⟨value, hvalue⟩ := List.exists_mem_of_ne_nil _ hoccurs
  obtain ⟨f, hf, -⟩ := List.mem_map.1 hvalue
  obtain ⟨hf, hnumber⟩ := List.mem_filter.1 hf
  exact ⟨f, hf, of_decide_eq_true hnumber⟩

theorem setPacked_comm (hne : a ≠ b) {la lb : List Int32} (ha : m.ints a = .ok la) (hla : la ≠ [])
    (hb : m.ints b = .ok lb) (hlb : lb ≠ []) (x y : List Int32) :
    (m.setPacked a x).setPacked b y = (m.setPacked b y).setPacked a x := by
  have hempty {c : UInt32} {z : List Int32} (hz : z.isEmpty = true) (n : Message) :
      n.setPacked c z = n.keepValues c fun _ => false := by
    rw [setPacked, if_pos hz, remove_eq]
  by_cases hx : x.isEmpty = true
  · rw [hempty hx, hempty hx, setPacked_keepValues hne.symm]
  · by_cases hy : y.isEmpty = true
    · rw [hempty hy, hempty hy, setPacked_keepValues hne]
    · simp only [setPacked, if_neg hx, if_neg hy,
        replaceFirst_comm hne _ _ (exists_of_ints ha hla) (exists_of_ints hb hlb)]

/-- What a part of a removal does to its field: it drops values, or numbers of a list. -/
inductive Cut where
  | values (keep : WireValue → Bool)
  | ints (keep : Int32 → Bool)

def cut (m : Message) (number : UInt32) : Cut → Message
  | .values keep => m.keepValues number keep
  | .ints keep => m.keepInts number keep

/-- Numbers that are dropped are dropped from a list that is not empty. -/
theorem keepInts_cases (m : Message) (number : UInt32) (keep : Int32 → Bool) :
    m.keepInts number keep = m ∧ (∀ n : Message, n.ints number = m.ints number →
        n.keepInts number keep = n) ∨
      ∃ l, m.ints number = .ok l ∧ l ≠ [] ∧
        ∀ n : Message, n.ints number = .ok l →
          n.keepInts number keep = n.setPacked number (l.filter keep) := by
  cases hl : m.ints number with
  | error fault =>
    refine .inl ⟨by rw [keepInts, hl], fun n hn => by rw [keepInts, hn]⟩
  | ok l =>
    by_cases hlength : (l.filter keep).length = l.length
    · refine .inl ⟨by simp only [keepInts, hl, if_pos hlength], fun n hn => ?_⟩
      simp only [keepInts, hn, if_pos hlength]
    · refine .inr ⟨l, rfl, fun hnil => hlength (by simp [hnil]), fun n hn => ?_⟩
      simp only [keepInts, hn, if_neg hlength]

theorem occurrences_cut_of_ne (m : Message) (c : Cut) (hne : b ≠ a) :
    (m.cut a c).occurrences b = m.occurrences b := by
  cases c with
  | values keep => exact occurrences_keepValues_of_ne keep hne
  | ints keep =>
    obtain ⟨hsame, -⟩ | ⟨l, hl, -, hdrops⟩ := m.keepInts_cases a keep
    · rw [cut, hsame]
    · rw [cut, hdrops m hl, occurrences_setPacked_of_ne _ hne]

theorem keepInts_keepValues (hne : a ≠ b) (f : Int32 → Bool) (g : WireValue → Bool) (m : Message) :
    (m.keepInts a f).keepValues b g = (m.keepValues b g).keepInts a f := by
  have hints : (m.keepValues b g).ints a = m.ints a :=
    ints_congr (occurrences_keepValues_of_ne g hne)
  obtain ⟨hsame, hall⟩ | ⟨l, hl, -, hdrops⟩ := m.keepInts_cases a f
  · rw [hsame, hall _ hints]
  · rw [hdrops m hl, hdrops _ (hints.trans hl), setPacked_keepValues hne]

theorem cut_comm (hne : a ≠ b) (f g : Cut) (m : Message) :
    (m.cut a f).cut b g = (m.cut b g).cut a f := by
  cases f with
  | values f =>
    cases g with
    | values g => exact keepValues_comm f g m
    | ints g => exact (keepInts_keepValues hne.symm g f m).symm
  | ints f =>
    cases g with
    | values g => exact keepInts_keepValues hne f g m
    | ints g =>
      have hintsA : (m.keepInts b g).ints a = m.ints a :=
        ints_congr (m.occurrences_cut_of_ne (.ints g) hne)
      have hintsB : (m.keepInts a f).ints b = m.ints b :=
        ints_congr (m.occurrences_cut_of_ne (.ints f) hne.symm)
      simp only [cut]
      obtain ⟨hsame, hall⟩ | ⟨la, hla, hneA, hdropsA⟩ := m.keepInts_cases a f
      · rw [hsame, hall _ hintsA]
      obtain ⟨hsame, hall⟩ | ⟨lb, hlb, hneB, hdropsB⟩ := m.keepInts_cases b g
      · rw [hsame, hall _ hintsB]
      rw [hdropsA _ (hintsA.trans hla), hdropsB _ (hintsB.trans hlb), hdropsA _ hla, hdropsB _ hlb,
        setPacked_comm hne hla hneA hlb hneB]

/-! An edit that drops more absorbs one that drops less. -/

theorem keepValues_absorbs {f g : WireValue → Bool}
    (h : ∀ value ∈ m.occurrences number, g value = true → f value = true) :
    (m.keepValues number f).keepValues number g = m.keepValues number g := by
  simp only [keepValues, List.filter_filter]
  refine congrArg Message.mk (List.filter_congr fun field hfield => ?_)
  by_cases hnumber : field.number = number
  · have hmem : field.value ∈ m.occurrences number :=
      List.mem_map_of_mem (List.mem_filter.2 ⟨hfield, decide_eq_true hnumber⟩)
    cases hg : g field.value with
    | true => simp [hnumber, h _ hmem hg]
    | false => simp [hnumber]
  · simp [hnumber]

theorem replaceFirst_replaceFirst (x y : WireValue) (fields : List WireField) :
    replaceFirst number ⟨number, y⟩ (replaceFirst number ⟨number, x⟩ fields) =
      replaceFirst number ⟨number, y⟩ fields := by
  induction fields with
  | nil => simp [replaceFirst]
  | cons f fields ih =>
    by_cases hf : f.number = number
    · simp [replaceFirst, hf]
    · simp only [replaceFirst, if_neg hf, ih]

theorem setPacked_setPacked {values : List Int32} (hvalues : values ≠ []) (values' : List Int32)
    (m : Message) : (m.setPacked number values).setPacked number values' =
      m.setPacked number values' := by
  have hfull : ¬ values.isEmpty = true := by simpa using hvalues
  by_cases hempty : values'.isEmpty = true
  · simp only [setPacked, if_neg hfull, if_pos hempty, remove, replaceFirst_others]
  · simp only [setPacked, if_neg hfull, if_neg hempty, replaceFirst_replaceFirst]

theorem keepInts_absorbs {f g : Int32 → Bool} {l : List Int32} (hl : m.ints number = .ok l)
    (h : ∀ i ∈ l, g i = true → f i = true) :
    (m.keepInts number f).keepInts number g = m.keepInts number g := by
  have hboth : (l.filter f).filter g = l.filter g := by
    rw [List.filter_filter]
    refine List.filter_congr fun i hi => ?_
    cases hg : g i with
    | true => simp [h i hi hg]
    | false => simp
  by_cases hlength : (l.filter f).length = l.length
  · simp only [keepInts, hl, if_pos hlength]
  · have hfewer : (l.filter g).length ≠ l.length := by
      have := List.length_filter_le f l
      have := List.length_filter_le g (l.filter f)
      rw [hboth] at this
      omega
    have hfirst : m.keepInts number f = m.setPacked number (l.filter f) := by
      simp only [keepInts, hl, if_neg hlength]
    have hsecond : m.keepInts number g = m.setPacked number (l.filter g) := by
      simp only [keepInts, hl, if_neg hfewer]
    rw [hfirst, hsecond, keepInts, ints_setPacked]
    dsimp only
    rw [hboth]
    split
    · next hsame =>
      have hkept : (l.filter f).filter g = l.filter f :=
        List.filter_eq_self.2 (List.length_filter_eq_length_iff.1 (by rw [hboth, hsame]))
      rw [← hboth, hkept]
    · next hless =>
      refine setPacked_setPacked (fun hnil => hless ?_) _ m
      rw [← hboth, hnil]
      rfl

end Message

/-- The second judge answers wherever the first does. -/
def Covers {α : Type} (judge judge' : α → Except Fault Verdict) : Prop :=
  ∀ ⦃a v⦄, judge a = .ok v → ∃ v', judge' a = .ok v'

namespace Judge

variable {j j' : Judge}

theorem covers_function (h : j'.resolver = j.resolver) (owner : Option String) :
    Covers (j.function owner) (j'.function owner) := by
  intro record v hv
  obtain ⟨s?, hs, -⟩ := bind_ok_iff.1 hv
  unfold function
  rw [h, hs]
  cases s? with
  | none => exact ⟨_, rfl⟩
  | some s =>
    simp only [bind, Except.bind]
    split <;> exact ⟨_, rfl⟩

theorem covers_constructor (h : j'.resolver = j.resolver) : Covers j.constructor j'.constructor := by
  intro record v hv
  obtain ⟨s?, hs, -⟩ := bind_ok_iff.1 hv
  unfold constructor
  rw [h, hs]
  cases s? with
  | none => exact ⟨_, rfl⟩
  | some s =>
    simp only [bind, Except.bind]
    split <;> exact ⟨_, rfl⟩

theorem covers_property (h : j'.resolver = j.resolver) : Covers j.property j'.property := by
  intro record v hv
  obtain ⟨p, hp, -⟩ := bind_ok_iff.1 hv
  unfold property
  rw [h, hp]
  exact ⟨_, rfl⟩

theorem covers_enumEntry (h : j'.resolver = j.resolver) : Covers j.enumEntry j'.enumEntry := by
  intro record v hv
  unfold enumEntry at hv ⊢
  cases hindex : record.int? FieldNumber.enumEntryName with
  | none => exact ⟨_, rfl⟩
  | some index =>
    rw [hindex] at hv
    obtain ⟨name, hname, -⟩ := bind_ok_iff.1 hv
    simp only [h, hname, bind, Except.bind]
    split <;> exact ⟨_, rfl⟩

theorem covers_className (h : j'.resolver = j.resolver) (full : String → String)
    (removed : String → Removed) : Covers (j.className full removed) (j'.className full removed) := by
  intro index v hv
  obtain ⟨name, hname, -⟩ := bind_ok_iff.1 hv
  unfold className
  simp only [h, hname, bind, Except.bind]
  split <;> exact ⟨_, rfl⟩

end Judge

namespace Sweep

open Message (Cut)

variable {m m' n : Message} {changes : Changes} {number : UInt32}

/-! Parts that commute. -/

/-- A part cuts its field, and how is told by the field. -/
def Part.Cuts (p : Part) : Prop :=
  ∀ ⦃m m' changes⦄, p.sweep m = .ok (m', changes) → ∃ c : Cut, m' = m.cut p.number c ∧
    ∀ n : Message, n.occurrences p.number = m.occurrences p.number →
      p.sweep n = .ok (n.cut p.number c, changes)

theorem records_cuts (judge : Message → Except Fault Verdict) :
    Part.Cuts ⟨number, records number judge⟩ := by
  intro m m' changes h
  obtain ⟨vs, hvs, rfl, rfl⟩ := records_ok_iff.1 h
  refine ⟨.values (keeps judge), rfl, fun n hn => records_ok_iff.2 ⟨vs, ?_, rfl, rfl⟩⟩
  rw [hn]
  exact hvs

theorem elements_cuts (judge : Int32 → Except Fault Verdict) :
    Part.Cuts ⟨number, elements number judge⟩ := by
  intro m m' changes h
  obtain ⟨l, vs, hl, hvs, rfl, rfl⟩ := elements_ok_iff.1 h
  exact ⟨.ints (keepsInt judge), rfl, fun n hn =>
    elements_ok_iff.2 ⟨l, vs, (Message.ints_congr hn).trans hl, hvs, rfl, rfl⟩⟩

theorem keepValues_all (m : Message) (number : UInt32) : m.keepValues number (fun _ => true) = m := by
  simp [Message.keepValues]

theorem companion_cuts (j : Judge) : Part.Cuts ⟨FieldNumber.classCompanion, companion j⟩ := by
  intro m m' changes h
  dsimp only at h ⊢
  unfold companion at h ⊢
  cases hindex : m.int? FieldNumber.classCompanion with
  | none =>
    rw [hindex] at h
    cases h
    refine ⟨.values fun _ => true, (keepValues_all m _).symm, fun n hn => ?_⟩
    rw [Message.int?_congr hn, hindex, Message.cut, keepValues_all]
    rfl
  | some index =>
    rw [hindex] at h
    obtain ⟨v, hv, h⟩ := bind_ok_iff.1 h
    cases h
    have hcut (n : Message) : (if v.keep then n else n.remove FieldNumber.classCompanion) =
        n.cut FieldNumber.classCompanion (.values fun _ => v.keep) := by
      cases v.keep with
      | true => exact (keepValues_all n _).symm
      | false => exact Message.remove_eq
    refine ⟨.values fun _ => v.keep, hcut m, fun n hn => ?_⟩
    rw [Message.int?_congr hn, hindex, ← hcut]
    exact bind_ok_iff.2 ⟨v, hv, rfl⟩

/-- Parts for two fields can be taken in either order. -/
theorem Part.Cuts.diamond {p q : Part} (hp : p.Cuts) (hq : q.Cuts) (hne : p.number ≠ q.number)
    {m₁ m₂ : Message} {c₁ c₂ : Changes} (h₁ : p.sweep m = .ok (m₁, c₁))
    (h₂ : q.sweep m = .ok (m₂, c₂)) :
    ∃ m₃, p.sweep m₂ = .ok (m₃, c₁) ∧ q.sweep m₁ = .ok (m₃, c₂) := by
  obtain ⟨f, rfl, hf⟩ := hp h₁
  obtain ⟨g, rfl, hg⟩ := hq h₂
  refine ⟨(m.cut q.number g).cut p.number f, hf _ (m.occurrences_cut_of_ne g hne), ?_⟩
  rw [hg _ (m.occurrences_cut_of_ne f hne.symm), Message.cut_comm hne]

theorem sequence_diamond {q : Part} {parts : List Part} (hparts : ∀ p ∈ parts, p.Cuts)
    (hq : q.Cuts) (hne : q.number ∉ parts.map (·.number)) {m₁ m₂ : Message} {c₁ c₂ : Changes}
    (h₁ : sequence (parts.map (·.sweep)) m = .ok (m₁, c₁)) (h₂ : q.sweep m = .ok (m₂, c₂)) :
    ∃ m₃ c, sequence (parts.map (·.sweep)) m₂ = .ok (m₃, c) ∧ q.sweep m₁ = .ok (m₃, c₂) := by
  induction parts generalizing m m₂ c₁ with
  | nil =>
    cases h₁
    exact ⟨m₂, {}, rfl, h₂⟩
  | cons p parts ih =>
    rw [List.map_cons, List.mem_cons, not_or] at hne
    obtain ⟨n₁, d₁, d₂, hfirst, hrest, -⟩ := sequence_cons_ok h₁
    obtain ⟨n₃, hp, hq'⟩ :=
      (hparts p (List.mem_cons_self ..)).diamond hq (Ne.symm hne.1) hfirst h₂
    obtain ⟨m₃, c, hlater, hlast⟩ :=
      ih (fun p hp => hparts p (List.mem_cons_of_mem _ hp)) hne.2 hrest hq'
    refine ⟨m₃, d₁ ++ c, ?_, hlast⟩
    exact bind_ok_iff.2 ⟨_, hp, bind_ok_iff.2 ⟨_, hlater, rfl⟩⟩

/-! Parts that absorb others. -/

/-- The second part leaves the same, whether or not the first has been there before. -/
structure Part.Absorbed (p q : Part) : Prop where
  number : q.number = p.number
  absorbs : ∀ ⦃m m' changes⦄, p.sweep m = .ok (m', changes) →
    ∃ n c c', q.sweep m = .ok (n, c) ∧ q.sweep m' = .ok (n, c')

theorem exists_verdicts {α : Type} {judged : α → Verdict → Prop} {as : List α} {vs : List Verdict}
    (h : List.Forall₂ judged as vs) (judged' : α → Verdict → Prop)
    (himp : ∀ a ∈ as, ∀ v, judged a v → ∃ v', judged' a v') :
    ∃ vs', List.Forall₂ judged' as vs' := by
  induction h with
  | nil => exact ⟨[], .nil⟩
  | cons hv _ ih =>
    obtain ⟨v', hv'⟩ := himp _ (List.mem_cons_self ..) _ hv
    obtain ⟨vs', hvs'⟩ := ih fun a ha => himp a (List.mem_cons_of_mem _ ha)
    exact ⟨v' :: vs', .cons hv' hvs'⟩

/-- The verdicts on what a filter leaves. -/
theorem exists_verdicts_filter {α : Type} {judged : α → Verdict → Prop} {as : List α}
    {vs : List Verdict} (h : List.Forall₂ judged as vs) (keep : α → Bool) :
    ∃ vs', List.Forall₂ judged (as.filter keep) vs' := by
  induction h with
  | nil => exact ⟨[], .nil⟩
  | @cons a v as vs hv _ ih =>
    obtain ⟨vs', hvs'⟩ := ih
    cases hkeep : keep a with
    | true => exact ⟨v :: vs', by rw [List.filter_cons_of_pos hkeep]; exact .cons hv hvs'⟩
    | false => exact ⟨vs', by rwa [List.filter_cons_of_neg (by simp [hkeep])]⟩

variable {judge judge' : Message → Except Fault Verdict}

theorem records_absorbed (h : Milder judge judge') (hcovers : Covers judge judge') :
    Part.Absorbed ⟨number, records number judge⟩
      ⟨number, records number judge'⟩ where
  number := rfl
  absorbs := by
    intro m m' changes hm
    obtain ⟨vs, hvs, rfl, -⟩ := records_ok_iff.1 hm
    obtain ⟨vs', hvs'⟩ := exists_verdicts hvs (Judged judge') fun value _ v hv => by
      obtain ⟨b, record, rfl, hrecord, hjudge⟩ := hv
      obtain ⟨v', hv'⟩ := hcovers hjudge
      exact ⟨v', b, record, rfl, hrecord, hv'⟩
    obtain ⟨vs'', hvs''⟩ := exists_verdicts_filter hvs' (keeps judge)
    refine ⟨_, _, _, records_ok_iff.2 ⟨vs', hvs', rfl, rfl⟩, records_ok_iff.2 ⟨vs'', ?_, ?_, rfl⟩⟩
    · rwa [Message.occurrences_keepValues]
    · exact (Message.keepValues_absorbs (keeps_of_milder h hvs hvs')).symm

theorem elements_absorbed {judge judge' : Int32 → Except Fault Verdict} (h : Milder judge judge')
    (hcovers : Covers judge judge') :
    Part.Absorbed ⟨number, elements number judge⟩
      ⟨number, elements number judge'⟩ where
  number := rfl
  absorbs := by
    intro m m' changes hm
    obtain ⟨l, vs, hl, hvs, rfl, -⟩ := elements_ok_iff.1 hm
    obtain ⟨vs', hvs'⟩ :=
      exists_verdicts hvs (fun i v => judge' i = .ok v) fun i _ v hv => hcovers hv
    obtain ⟨vs'', hvs''⟩ := exists_verdicts_filter hvs' (keepsInt judge)
    refine ⟨_, _, _, elements_ok_iff.2 ⟨l, vs', hl, hvs', rfl, rfl⟩,
      elements_ok_iff.2 ⟨_, vs'', Message.ints_keepInts hl _, hvs'', ?_, rfl⟩⟩
    exact (Message.keepInts_absorbs hl (keepsInt_of_milder h hvs hvs')).symm

theorem companion_absorbed {j j' : Judge} (h : j.Le j') :
    Part.Absorbed ⟨FieldNumber.classCompanion, companion j⟩
      ⟨FieldNumber.classCompanion, companion j'⟩ where
  number := rfl
  absorbs := by
    intro m m' changes hm
    dsimp only at hm ⊢
    have hnone {j : Judge} {n : Message} (hn : n.int? FieldNumber.classCompanion = none) :
        companion j n = .ok (n, {}) := by
      unfold companion
      rw [hn]
      rfl
    unfold companion at hm
    cases hindex : m.int? FieldNumber.classCompanion with
    | none =>
      rw [hindex] at hm
      cases hm
      exact ⟨m, {}, {}, hnone hindex, hnone hindex⟩
    | some index =>
      rw [hindex] at hm
      obtain ⟨v, hv, hm⟩ := bind_ok_iff.1 hm
      cases hm
      obtain ⟨v', hv'⟩ := Judge.covers_className h.resolver _ _ hv
      rw [← h.nestedName] at hv'
      have hlate (n : Message) (hn : n.int? FieldNumber.classCompanion = some index) :
          companion j' n = .ok (if v'.keep then n else n.remove FieldNumber.classCompanion,
            v'.changes) := by
        unfold companion
        rw [hn]
        exact bind_ok_iff.2 ⟨v', hv', rfl⟩
      cases hkeep : v.keep with
      | true =>
        rw [if_pos rfl]
        exact ⟨_, _, _, hlate m hindex, hlate m hindex⟩
      | false =>
        have hdrop : v'.keep = false := by
          cases hkeep' : v'.keep with
          | false => rfl
          | true =>
            rw [h.nestedName] at hv'
            rw [h.className _ _ hv hv' hkeep'] at hkeep
            cases hkeep
        have hgone : (m.remove FieldNumber.classCompanion).int? FieldNumber.classCompanion = none := by
          rw [Message.int?, Message.remove_eq, Message.occurrences_keepValues]
          simp
        have hlast := hlate m hindex
        rw [hdrop, if_neg Bool.false_ne_true] at hlast
        rw [if_neg Bool.false_ne_true]
        exact ⟨_, _, {}, hlast, hnone hgone⟩

/-- A row of parts absorbs a row of parts for the same fields. -/
theorem sequence_absorbed {parts parts' : List Part} (hcuts : ∀ p ∈ parts, p.Cuts)
    (hcuts' : ∀ p ∈ parts', p.Cuts) (hdistinct : (parts.map (·.number)).Nodup)
    (h : List.Forall₂ Part.Absorbed parts parts')
    (hm : sequence (parts.map (·.sweep)) m = .ok (m', changes)) :
    ∃ n c c', sequence (parts'.map (·.sweep)) m = .ok (n, c) ∧
      sequence (parts'.map (·.sweep)) m' = .ok (n, c') := by
  induction h generalizing m m' changes with
  | nil =>
    cases hm
    exact ⟨m, {}, {}, rfl, rfl⟩
  | @cons p q parts parts' hpq _ ih =>
    rw [List.map_cons, List.nodup_cons] at hdistinct
    obtain ⟨m₁, c₁, c₂, hfirst, hrest, -⟩ := sequence_cons_ok hm
    obtain ⟨n₁, d₁, d₂, hq, hq₁⟩ := hpq.absorbs hfirst
    -- The first part of the second row can be taken before the rest of the first row.
    obtain ⟨n₂, d, hrest', hq'⟩ := sequence_diamond (fun p hp => hcuts p (List.mem_cons_of_mem _ hp))
      (hcuts' q (List.mem_cons_self ..)) (by rw [hpq.number]; exact hdistinct.1) hrest hq₁
    obtain ⟨n, e, e', hlate, hlate'⟩ := ih (fun p hp => hcuts p (List.mem_cons_of_mem _ hp))
      (fun p hp => hcuts' p (List.mem_cons_of_mem _ hp)) hdistinct.2 hrest'
    exact ⟨n, d₁ ++ e, d₂ ++ e', bind_ok_iff.2 ⟨_, hq, bind_ok_iff.2 ⟨_, hlate, rfl⟩⟩,
      bind_ok_iff.2 ⟨_, hq', bind_ok_iff.2 ⟨_, hlate', rfl⟩⟩⟩

end Sweep

namespace Payload

open Metadata.Sweep

variable {p p' : Payload} {owner : String} {t t' : Tracker} {changes : Changes}

theorem parts_cut (p : Payload) (owner : String) (t : Tracker) (types : TypeTable) :
    ∀ q ∈ p.parts owner t types, q.Cuts := by
  unfold parts
  split
  · simp only [classParts, List.forall_mem_cons, List.not_mem_nil, false_implies, implies_true,
      and_true]
    exact ⟨records_cuts _, records_cuts _, records_cuts _, records_cuts _, elements_cuts _,
      elements_cuts _, companion_cuts _⟩
  · simp only [packageParts, List.forall_mem_cons, List.not_mem_nil, false_implies, implies_true,
      and_true]
    exact ⟨records_cuts _, records_cuts _⟩

theorem parts_absorbed (p : Payload) (hle : t.Le t') (hhere : t'.containsClass owner = false)
    (types : TypeTable) :
    List.Forall₂ Part.Absorbed (p.parts owner t types) (p.parts owner t' types) := by
  have hjudge : (p.judge owner t types).Le (p.judge owner t' types) := ⟨rfl, rfl, hle, hhere⟩
  have hresolver := hjudge.resolver
  unfold parts
  split
  · have hnested : Part.Absorbed
        ⟨FieldNumber.classNested, elements FieldNumber.classNested
          ((p.judge owner t types).className (p.judge owner t types).nestedName .nested)⟩
        ⟨FieldNumber.classNested, elements FieldNumber.classNested
          ((p.judge owner t' types).className (p.judge owner t' types).nestedName .nested)⟩ := by
      rw [hjudge.nestedName]
      exact elements_absorbed (hjudge.className _ _) (Judge.covers_className hresolver _ _)
    exact .cons (records_absorbed hjudge.constructor (Judge.covers_constructor hresolver)) <|
      .cons (records_absorbed (hjudge.function _) (Judge.covers_function hresolver _)) <|
      .cons (records_absorbed hjudge.property (Judge.covers_property hresolver)) <|
      .cons (records_absorbed hjudge.enumEntry (Judge.covers_enumEntry hresolver)) <|
      .cons hnested <|
      .cons (elements_absorbed (hjudge.className _ _) (Judge.covers_className hresolver _ _)) <|
      .cons (companion_absorbed hjudge) .nil
  · exact .cons (records_absorbed (hjudge.function _) (Judge.covers_function hresolver _)) <|
      .cons (records_absorbed hjudge.property (Judge.covers_property hresolver)) .nil

/-- A removal for more leaves the same, whether or not one for less went before. -/
theorem sweep_absorbed (hle : t.Le t') (hhere : t'.containsClass owner = false)
    (h : p.sweep owner t = .ok (p', changes)) :
    ∃ q c c', p.sweep owner t' = .ok (q, c) ∧ p'.sweep owner t' = .ok (q, c') := by
  obtain ⟨types, container, htypes, hsequence, rfl⟩ := sweep_ok_iff.1 h
  obtain ⟨n, c, c', hn, hn'⟩ := sequence_absorbed (p.parts_cut owner t types)
    (p.parts_cut owner t' types) (p.parts_parts owner t types).distinct
    (p.parts_absorbed hle hhere types) hsequence
  have htypes' := (sweep_keeps h).2.2.2.trans htypes
  exact ⟨{ p with container := n }, c, c', sweep_ok_iff.2 ⟨types, n, htypes, hn, rfl⟩,
    sweep_ok_iff.2 ⟨types, n, htypes', hn', rfl⟩⟩

end Payload

end JarPruning.Metadata
