import JarPruning.Metadata.StringTable
import JarPruning.Proofs.Except
import JarPruning.Proofs.Text.ModifiedUtf8

/-!
String tables and the lists of records that they stand for. A record takes as many indices as its
range says; looking one up is reading the list in which it is repeated as often. What a record
makes of a text is told by relations, one a rewriting.
-/
namespace JarPruning.Metadata.StringTable

/-! Lookup. -/

/-- The list that the ranges stand for: every record as often as it has indices. -/
def expanded (records : List Record) : List Record :=
  records.flatMap fun r => List.replicate r.range r

/-- What remains of a list behind the copies in front. -/
theorem getElem?_replicate_append {α : Type} {a : α} {n i : Nat} {rest : List α} :
    (List.replicate n a ++ rest)[i]? = if i < n then some a else rest[i - n]? := by
  split
  · next h => rw [List.getElem?_append_left (by simpa using h), List.getElem?_replicate, if_pos h]
  · next h =>
    rw [List.getElem?_append_right (by simpa using h), List.length_replicate]

theorem recordAt?_eq_getElem? (records : List Record) (i : Nat) :
    recordAt? records i = (expanded records)[i]? := by
  induction records generalizing i with
  | nil => rfl
  | cons r records ih =>
    rw [expanded, List.flatMap_cons, getElem?_replicate_append, recordAt?, ih]
    rfl

/-- The records beside the ends of their ranges, counted on from `start`. -/
def ends (start : Nat) : List Record → List (Record × Nat)
  | [] => []
  | r :: records => (r, start + r.range) :: ends (start + r.range) records

/-- The record that covers an index is the first whose range ends behind it. A record without
indices is never the first. -/
theorem find?_ends (records : List Record) (start i : Nat) :
    ((ends start records).find? fun p => start + i < p.2).map (·.1) = recordAt? records i := by
  induction records generalizing start i with
  | nil => rfl
  | cons r records ih =>
    rw [ends, List.find?_cons, recordAt?]
    by_cases h : i < r.range
    · simp [h]
    · have hstart : start + i = start + r.range + (i - r.range) := by omega
      simp only [h, Nat.add_lt_add_iff_left, decide_false, ↓reduceIte]
      rw [hstart, ih]

/-! Rewriting. -/

/-- The part of a text from a begin to an end; the whole text unless they are in order and within
it. -/
inductive Cut : List Int32 → List Char → List Char → Prop
  | part {first last : Int32} {more : List Int32} {before part after : List Char}
    (hfirst : first.toInt = before.length) (hlast : last.toInt = (before ++ part).length) :
    Cut (first :: last :: more) (before ++ part ++ after) part
  | outside {first last : Int32} {more : List Int32} {cs : List Char}
    (h : ¬(0 ≤ first ∧ first ≤ last ∧ last.toInt ≤ cs.length)) :
    Cut (first :: last :: more) cs cs
  | unbounded {bounds : List Int32} {cs : List Char} (h : bounds.length < 2) : Cut bounds cs cs

theorem cut_cutOut (bounds : List Int32) (cs : List Char) : Cut bounds cs (cutOut bounds cs) := by
  match bounds with
  | [] | [_] => exact .unbounded (by simp)
  | first :: last :: more =>
    by_cases h : 0 ≤ first ∧ first ≤ last ∧ last.toInt.toNat ≤ cs.length
    · obtain ⟨hpos, hle, hlength⟩ := h
      rw [cutOut, if_pos ⟨hpos, hle, hlength⟩]
      rw [Int32.le_iff_toInt_le, Int32.toInt_zero] at hpos
      rw [Int32.le_iff_toInt_le] at hle
      have hfront : (cs.take last.toInt.toNat).length = last.toInt.toNat :=
        List.length_take_of_le hlength
      have hbegin : ((cs.take last.toInt.toNat).take first.toInt.toNat).length =
          first.toInt.toNat := List.length_take_of_le (by omega)
      have hcut : Cut (first :: last :: more)
          ((cs.take last.toInt.toNat).take first.toInt.toNat ++
            (cs.take last.toInt.toNat).drop first.toInt.toNat ++ cs.drop last.toInt.toNat)
          ((cs.take last.toInt.toNat).drop first.toInt.toNat) :=
        .part (by omega) (by rw [List.take_append_drop]; omega)
      rwa [List.take_append_drop, List.take_append_drop] at hcut
    · rw [cutOut, if_neg h]
      exact .outside fun ⟨hpos, hle, hlength⟩ => h ⟨hpos, hle, by omega⟩

theorem Cut.eq_cutOut {bounds : List Int32} {cs part : List Char} (h : Cut bounds cs part) :
    cutOut bounds cs = part := by
  cases h with
  | @part first last more before part after hfirst hlast =>
    have hbegin : first.toInt.toNat = before.length := by omega
    have hend : last.toInt.toNat = (before ++ part).length := by omega
    have hin : 0 ≤ first ∧ first ≤ last ∧
        last.toInt.toNat ≤ (before ++ part ++ after).length := by
      simp only [Int32.le_iff_toInt_le, Int32.toInt_zero, List.length_append] at *
      omega
    rw [cutOut, if_pos hin, hbegin, hend, List.take_left, List.drop_left]
  | outside h =>
    rw [cutOut, if_neg]
    rintro ⟨hpos, hle, hlength⟩
    refine h ⟨hpos, hle, ?_⟩
    simp only [Int32.le_iff_toInt_le, Int32.toInt_zero] at hpos hle
    omega
  | unbounded h =>
    match bounds with
    | [] | [_] => rfl

/-- The exchange of a character for another. Both are given by their codes, and nothing is
exchanged unless both codes are those of characters. -/
inductive Exchange : List Int32 → List Char → List Char → Prop
  | chars {old new : Int32} {a b : Char} {more : List Int32} {cs : List Char}
    (hold : old.toUInt32.toNat = a.toNat) (hnew : new.toUInt32.toNat = b.toNat) :
    Exchange (old :: new :: more) cs (cs.map fun c => if c = a then b else c)
  | invalid {old new : Int32} {more : List Int32} {cs : List Char}
    (h : ¬∃ a b : Char, old.toUInt32.toNat = a.toNat ∧ new.toUInt32.toNat = b.toNat) :
    Exchange (old :: new :: more) cs cs
  | fewer {codes : List Int32} {cs : List Char} (h : codes.length < 2) : Exchange codes cs cs

theorem charOf?_eq_some_iff {code : Int32} {c : Char} :
    charOf? code = some c ↔ code.toUInt32.toNat = c.toNat := by
  simp only [charOf?]
  constructor
  · intro h
    split at h
    · next hvalid => rw [← Option.some.inj h, Utf16.toNat_ofNat hvalid]
    · cases h
  · intro h
    have hvalid : code.toUInt32.toNat.isValidChar := h ▸ c.valid
    rw [if_pos hvalid, h, Char.ofNat_toNat]

theorem exchange_exchange (codes : List Int32) (cs : List Char) :
    Exchange codes cs (exchange codes cs) := by
  match codes with
  | [] | [_] => exact .fewer (by simp)
  | old :: new :: more =>
    rw [exchange]
    split
    · next a b hold hnew =>
      exact .chars (charOf?_eq_some_iff.1 hold) (charOf?_eq_some_iff.1 hnew)
    · next h =>
      refine .invalid ?_
      rintro ⟨a, b, hold, hnew⟩
      exact h a b (charOf?_eq_some_iff.2 hold) (charOf?_eq_some_iff.2 hnew)

theorem Exchange.eq_exchange {codes : List Int32} {cs cs' : List Char}
    (h : Exchange codes cs cs') : exchange codes cs = cs' := by
  cases h with
  | chars hold hnew =>
    rw [exchange, charOf?_eq_some_iff.2 hold, charOf?_eq_some_iff.2 hnew]
    rfl
  | invalid h =>
    rw [exchange]
    split
    · next a b hold hnew =>
      exact absurd ⟨a, b, charOf?_eq_some_iff.1 hold, charOf?_eq_some_iff.1 hnew⟩ h
    · rfl
  | fewer h =>
    match codes with
    | [] | [_] => rfl

/-- What an operation makes of a text: 1 takes an internal class name, 2 a descriptor, which loses
its first and last character. -/
inductive Operation : Int32 → List Char → List Char → Prop
  | internal {cs : List Char} : Operation 1 cs (replaceChar '$' '.' cs)
  | descriptor {first last : Char} {inside : List Char} :
    Operation 2 (first :: inside ++ [last]) (replaceChar '$' '.' inside)
  | short {cs : List Char} (h : cs.length < 2) : Operation 2 cs (replaceChar '$' '.' cs)
  | other {operation : Int32} {cs : List Char} (hone : operation ≠ 1) (htwo : operation ≠ 2) :
    Operation operation cs cs

theorem operation_operate (operation : Int32) (cs : List Char) :
    Operation operation cs (operate operation cs) := by
  unfold operate
  by_cases hone : operation = 1
  · rw [if_pos hone, hone]
    exact .internal
  · rw [if_neg hone]
    by_cases htwo : operation = 2
    · rw [if_pos htwo, htwo]
      by_cases hlength : 2 ≤ cs.length
      · rw [if_pos hlength]
        obtain _ | ⟨first, rest⟩ := cs
        · cases hlength
        · have hrest : rest ≠ [] := by
            rintro rfl
            simp at hlength
          have h : Operation 2 (first :: rest.dropLast ++ [rest.getLast hrest])
              (replaceChar '$' '.' rest.dropLast) := .descriptor
          rwa [List.cons_append, List.dropLast_append_getLast] at h
      · rw [if_neg hlength]
        exact .short (Nat.lt_of_not_le hlength)
    · rw [if_neg htwo]
      exact .other hone htwo

theorem Operation.eq_operate {operation : Int32} {cs cs' : List Char}
    (h : Operation operation cs cs') : operate operation cs = cs' := by
  cases h with
  | internal => rfl
  | @descriptor first last inside =>
    have hlength : 2 ≤ (first :: inside ++ [last]).length := by simp
    rw [operate, if_neg (by decide), if_pos rfl, if_pos hlength]
    simp
  | short h => rw [operate, if_neg (by decide), if_pos rfl, if_neg (Nat.not_le.2 h)]
  | other hone htwo => rw [operate, if_neg hone, if_neg htwo]

/-- What a record makes of a text: it is cut, a character is exchanged in what is left, and the
operation is applied to that. -/
def Record.Rewrites (r : Record) (base result : String) : Prop :=
  ∃ part cs, Cut r.substring base.toList part ∧ Exchange r.replacement part cs ∧
    Operation r.operation cs result.toList

theorem Record.edit_eq_iff {r : Record} {base result : String} :
    String.ofList (r.edit base.toList) = result ↔ r.Rewrites base result := by
  constructor
  · rintro rfl
    refine ⟨_, _, cut_cutOut _ _, exchange_exchange _ _, ?_⟩
    rw [String.toList_ofList]
    exact operation_operate _ _
  · rintro ⟨part, cs, hcut, hexchange, hoperation⟩
    rw [edit, hcut.eq_cutOut, hexchange.eq_exchange, hoperation.eq_operate, String.ofList_toList]

/-! Strings. -/

/-- The text that a record brings itself: its literal, else the predefined string it names. -/
inductive Record.Owns (r : Record) : String → Prop
  | literal {s : String} (h : r.literal = some s) : Owns r s
  | predefined {n : Int32} {s : String} (hliteral : r.literal = none)
    (hn : r.predefined = some n) (hpos : 0 ≤ n)
    (h : StringTable.predefined[n.toInt.toNat]? = some s) : Owns r s

theorem Record.own?_eq_some_iff {r : Record} {s : String} : r.own? = some s ↔ r.Owns s := by
  rw [own?, Option.orElse_eq_orElse, Option.orElse_eq_or]
  constructor
  · intro h
    cases hliteral : r.literal with
    | some literal =>
      rw [hliteral, Option.some_or] at h
      exact .literal (hliteral.trans h)
    | none =>
      rw [hliteral, Option.none_or] at h
      obtain ⟨n, hn, h⟩ := Option.bind_eq_some_iff.1 h
      split at h
      · cases h
      · next hpos => exact .predefined hliteral hn (Int32.not_lt.1 hpos) h
  · intro h
    cases h with
    | literal h => rw [h, Option.some_or]
    | predefined hliteral hn hpos h =>
      rw [hliteral, hn, Option.none_or, Option.bind_some, if_neg (Int32.not_lt.2 hpos), h]

theorem Record.own?_eq_none_iff {r : Record} : r.own? = none ↔ ∀ s, ¬r.Owns s := by
  simp only [Option.eq_none_iff_forall_not_mem, Option.mem_def, own?_eq_some_iff]

/-- The text that a record's string at an index comes from: its own, else the stored string. -/
inductive Record.Base (r : Record) (strings : List String) (i : Nat) : String → Prop
  | own {s : String} (h : r.Owns s) : Base r strings i s
  | stored {s : String} (hown : ∀ s, ¬r.Owns s) (h : strings[i]? = some s) : Base r strings i s

theorem Record.base_iff {r : Record} {strings : List String} {i : Nat} {base : String} :
    r.own?.or strings[i]? = some base ↔ r.Base strings i base := by
  cases hown : r.own? with
  | some s =>
    have howns : r.Owns s := own?_eq_some_iff.1 hown
    rw [Option.some_or]
    constructor
    · rintro ⟨⟩
      exact .own howns
    · intro h
      cases h with
      | own h => rw [← hown, own?_eq_some_iff.2 h]
      | stored hnone => exact absurd howns (hnone s)
  | none =>
    have hnone := own?_eq_none_iff.1 hown
    rw [Option.none_or]
    constructor
    · exact .stored hnone
    · intro h
      cases h with
      | own h => exact absurd h (hnone base)
      | stored _ h => exact h

/-- What the message of a record says. A range that is not told is 1. -/
structure Record.Reads (m : Message) (r : Record) : Prop where
  range : (r.range : Int) = ((m.int? 1).getD 1).toInt
  predefined : r.predefined = m.int? 2
  operation : r.operation = (m.int? 3).getD 0
  substring : m.ints 4 = .ok r.substring
  replacement : m.ints 5 = .ok r.replacement
  literal : m.string? 6 = .ok r.literal

theorem Record.reads_of_ofMessage {m : Message} {r : Record} (h : ofMessage m = .ok r) :
    Reads m r := by
  unfold ofMessage at h
  simp only at h
  split at h
  · cases h
  · next hpos =>
    obtain ⟨literal, hliteral, h⟩ := bind_ok_iff.1 h
    obtain ⟨substring, hsubstring, h⟩ := bind_ok_iff.1 h
    obtain ⟨replacement, hreplacement, h⟩ := bind_ok_iff.1 h
    cases h
    have hrange : 0 ≤ ((m.int? 1).getD 1).toInt := by
      simpa [Int32.lt_iff_toInt_lt] using hpos
    exact ⟨Int.toNat_of_nonneg hrange, rfl, rfl, hsubstring, hreplacement, hliteral⟩

variable {t : StringTable} {i : Int32}

theorem get_of_neg (h : i < 0) : t.get i = .error (.negativeString i) := if_pos h

theorem get_of_recordAt? {r : Record} (hpos : 0 ≤ i)
    (h : recordAt? t.records i.toInt.toNat = some r) :
    t.get i = match r.own?.or t.strings[i.toInt.toNat]? with
      | some base => .ok (String.ofList (r.edit base.toList))
      | none => .error (.noString i.toInt.toNat) := by
  rw [get, if_neg (Int32.not_lt.2 hpos)]
  simp only [h]
  cases r.own? with
  | some base => rfl
  | none =>
    rw [Option.none_or, stored]
    cases t.strings[i.toInt.toNat]? <;> rfl

theorem get_of_none (hpos : 0 ≤ i) (h : recordAt? t.records i.toInt.toNat = none) :
    t.get i = match t.strings[i.toInt.toNat]? with
      | some s => .ok s
      | none => .error (.noString i.toInt.toNat) := by
  rw [get, if_neg (Int32.not_lt.2 hpos)]
  simp only [h]
  rfl

theorem get_ok_iff_of_some {r : Record} (hpos : 0 ≤ i)
    (h : recordAt? t.records i.toInt.toNat = some r) {s : String} :
    t.get i = .ok s ↔ ∃ base, r.Base t.strings i.toInt.toNat base ∧ r.Rewrites base s := by
  simp only [get_of_recordAt? hpos h, ← Record.base_iff, ← Record.edit_eq_iff]
  cases r.own?.or t.strings[i.toInt.toNat]? <;> simp

theorem get_ok_iff_of_none (hpos : 0 ≤ i) (h : recordAt? t.records i.toInt.toNat = none)
    {s : String} : t.get i = .ok s ↔ t.strings[i.toInt.toNat]? = some s := by
  rw [get_of_none hpos h]
  cases t.strings[i.toInt.toNat]? <;> simp

theorem get_error_iff : (∃ e, t.get i = .error e) ↔
    i < 0 ∨ t.strings.length ≤ i.toInt.toNat ∧
      ∀ r, recordAt? t.records i.toInt.toNat = some r → ∀ s, ¬r.Owns s := by
  by_cases hneg : i < 0
  · simp [get_of_neg hneg, hneg]
  · have hpos := Int32.not_lt.1 hneg
    simp only [hneg, false_or, ← List.getElem?_eq_none_iff]
    cases h : recordAt? t.records i.toInt.toNat with
    | none =>
      rw [get_of_none hpos h]
      cases t.strings[i.toInt.toNat]? <;> simp
    | some r =>
      rw [get_of_recordAt? hpos h]
      simp only [Option.some.injEq, forall_eq', ← Record.own?_eq_none_iff]
      cases r.own? <;> cases t.strings[i.toInt.toNat]? <;> simp

/-- Looking for the first record that ends behind an index is reading the list of the records, each
as often as its range says, and a string is what that record makes of its text. Behind the list it
is the stored string as it is, and it is missing only if the index is negative or there is no stored
string where no record brings a text itself. -/
theorem get_expanded {types : Message} {strings : List String}
    (h : ofMessage types strings = .ok t) :
    (∃ messages, types.messages 1 = .ok messages ∧
      List.Forall₂ Record.Reads messages t.records) ∧
    (∀ i, ((ends 0 t.records).find? fun p => i < p.2).map (·.1) = (expanded t.records)[i]?) ∧
    (∀ (i : Int32) (r : Record), 0 ≤ i → (expanded t.records)[i.toInt.toNat]? = some r →
      ∀ s, t.get i = .ok s ↔ ∃ base, r.Base strings i.toInt.toNat base ∧ r.Rewrites base s) ∧
    (∀ i : Int32, 0 ≤ i → (expanded t.records).length ≤ i.toInt.toNat →
      ∀ s, t.get i = .ok s ↔ strings[i.toInt.toNat]? = some s) ∧
    ∀ i : Int32, (∃ e, t.get i = .error e) ↔
      i < 0 ∨ strings.length ≤ i.toInt.toNat ∧
        ∀ r, (expanded t.records)[i.toInt.toNat]? = some r → ∀ s, ¬r.Owns s := by
  obtain ⟨messages, hmessages, h⟩ := bind_ok_iff.1 h
  obtain ⟨records, hrecords, h⟩ := bind_ok_iff.1 h
  cases h
  refine ⟨⟨messages, hmessages, ?_⟩, ?_, ?_, ?_, ?_⟩
  · exact (mapM_ok_iff.1 hrecords).imp fun _ _ h => Record.reads_of_ofMessage h
  · intro i
    rw [← recordAt?_eq_getElem?, ← find?_ends records 0 i]
    simp only [Nat.zero_add]
  · intro i r hpos hr s
    exact get_ok_iff_of_some hpos ((recordAt?_eq_getElem? ..).trans hr)
  · intro i hpos hlength s
    exact get_ok_iff_of_none hpos
      ((recordAt?_eq_getElem? ..).trans (List.getElem?_eq_none_iff.2 hlength))
  · intro i
    simp only [get_error_iff, recordAt?_eq_getElem?]

/-- Records of two, no and one index. -/
def threeRecords : Message where
  fields := [⟨1, .block [8, 2, 24, 1]⟩, ⟨1, .block [8, 0, 50, 1, 120]⟩, ⟨1, .block [16, 8]⟩]

def threeRanges : StringTable where
  records := [⟨2, none, none, 1, [], []⟩, ⟨0, some "x", none, 0, [], []⟩,
    ⟨1, none, some 8, 0, [], []⟩]
  strings := ["a/B$C", "d$e", "", "f$g"]

/-- The first record covers two strings, the second none and the third one. The string behind them
is stored as it is, and the one behind that is missing. -/
theorem get_expanded_ranges : ofMessage threeRecords threeRanges.strings = .ok threeRanges ∧
    threeRanges.get 1 = .ok "d.e" ∧ threeRanges.get 2 = .ok "kotlin/Int" ∧
    threeRanges.get 3 = .ok "f$g" ∧ ∃ e, threeRanges.get 4 = .error e := by
  have hread : ofMessage threeRecords threeRanges.strings = .ok threeRanges := by
    with_unfolding_all rfl
  obtain ⟨-, -, hrecord, hstored, hmissing⟩ := get_expanded hread
  refine ⟨hread, (hrecord 1 _ (by decide) rfl _).2 ⟨"d$e", ?_, ?_⟩,
    (hrecord 2 _ (by decide) rfl _).2 ⟨"kotlin/Int", ?_, ?_⟩,
    (hstored 3 (by decide) (by decide) _).2 rfl,
    (hmissing 4).2 (.inr ⟨by decide, fun r hr => by cases hr⟩)⟩
  · exact Record.base_iff.1 rfl
  · exact Record.edit_eq_iff.1 (by decide)
  · exact Record.base_iff.1 rfl
  · exact Record.edit_eq_iff.1 (by decide)

end JarPruning.Metadata.StringTable
