import JarPruning.Proofs.ClassFile.Format

/-!
Reading and writing class files undo one another. What reading answers is described slot by slot,
without the reader: the slots that hold nothing are the first one and those behind a wide constant.
-/
namespace JarPruning

namespace ConstantPool

/-- Nothing stands in slot 0 and in the slots behind wide constants, and only there. -/
structure WellFormed (pool : ConstantPool) : Prop where
  size : pool.entries.size ≤ 65535
  first : pool.entries[0]? = some .unusable
  unusable : ∀ i, pool.entries[i + 1]? = some .unusable ↔
    ∃ c, pool.entries[i]? = some c ∧ c.isWide = true
  texts : ∀ text bytes, .utf8 text bytes ∈ pool.entries →
    bytes.length ≤ 65535 ∧ ModifiedUtf8.decode bytes = .ok text

theorem Slots.head_ne {cs : List Constant} (h : Slots cs) : cs[0]? ≠ some .unusable := by
  intro hget
  cases h with
  | nil => cases hget
  | narrow spelled =>
    cases hget
    exact spelled.elim
  | wide spelled =>
    cases hget
    exact spelled.elim

theorem Slots.unusable_iff {cs : List Constant} (h : Slots cs) (i : Nat) :
    cs[i + 1]? = some .unusable ↔ ∃ c, cs[i]? = some c ∧ c.isWide = true := by
  induction h generalizing i with
  | nil => simp
  | @narrow c cs _ hnarrow hcs ih =>
    cases i with
    | zero => simp [hnarrow, hcs.head_ne]
    | succ i => simpa using ih i
  | @wide c cs _ hwide hcs ih =>
    match i with
    | 0 => simp [hwide]
    | 1 => simp [Constant.isWide, hcs.head_ne]
    | i + 2 => simpa using ih i

/-- Constants with an empty slot exactly behind each wide one are slots filled in order. -/
theorem Slots.of_unusable_iff {cs : List Constant}
    (hspelled : ∀ c ∈ cs, c = .unusable ∨ c.IsSpelled) (hhead : cs[0]? ≠ some .unusable)
    (hiff : ∀ i, cs[i + 1]? = some .unusable ↔ ∃ c, cs[i]? = some c ∧ c.isWide = true) :
    Slots cs := by
  -- A wide constant is taken together with the slot behind it.
  induction hn : cs.length using Nat.strongRecOn generalizing cs with
  | ind n ih =>
    cases cs with
    | nil => exact .nil
    | cons c cs =>
      have hc : c.IsSpelled := by
        rcases hspelled c (List.mem_cons_self ..) with rfl | hc
        · exact absurd rfl hhead
        · exact hc
      cases hwide : c.isWide with
      | false =>
        refine .narrow hc hwide (ih cs.length (by simp [← hn]) ?_ ?_ ?_ rfl)
        · exact fun d hd => hspelled d (List.mem_cons_of_mem _ hd)
        · intro hget
          obtain ⟨d, hd, hw⟩ := (hiff 0).1 hget
          cases hd
          simp [hwide] at hw
        · exact fun i => by simpa using hiff (i + 1)
      | true =>
        have hnext : (c :: cs)[0 + 1]? = some .unusable := (hiff 0).2 ⟨c, rfl, hwide⟩
        cases cs with
        | nil => cases hnext
        | cons d cs =>
          cases hnext
          refine .wide hc hwide (ih cs.length (by simp only [← hn, List.length_cons]; omega) ?_ ?_ ?_ rfl)
          · intro d hd
            exact hspelled d (List.mem_cons_of_mem _ (List.mem_cons_of_mem _ hd))
          · intro hget
            obtain ⟨d, hd, hw⟩ := (hiff 1).1 hget
            cases hd
            cases hw
          · exact fun i => by simpa using hiff (i + 2)

/-- The pools that fit are the well-formed ones. -/
theorem fits_iff {pool : ConstantPool} : pool.Fits ↔ pool.WellFormed := by
  obtain ⟨⟨entries⟩⟩ := pool
  constructor
  · intro h
    obtain ⟨cs, rfl, hslots⟩ := h.slots
    refine ⟨Nat.le_of_lt_succ h.size, rfl, fun i => ?_, fun text bytes hmem => ?_⟩
    · cases i with
      | zero => simpa [Constant.isWide] using hslots.head_ne
      | succ i => simpa using hslots.unusable_iff i
    · obtain hc | hc := List.mem_cons.1 (Array.mem_toList_iff.2 hmem)
      · cases hc
      obtain hc | ⟨hlength, hdecode⟩ := hslots.spelled hc
      · cases hc
      · exact ⟨Nat.le_of_lt_succ hlength, hdecode⟩
  · intro h
    have hfirst : entries[0]? = some .unusable := by simpa using h.first
    cases entries with
    | nil => cases hfirst
    | cons c cs =>
      cases hfirst
      refine ⟨Nat.lt_succ_of_le h.size, cs, rfl, Slots.of_unusable_iff ?_ ?_ ?_⟩
      · intro d hd
        cases d with
        | unusable => exact .inl rfl
        | utf8 text bytes =>
          obtain ⟨hlength, hdecode⟩ := h.texts text bytes (by simp [hd])
          exact .inr ⟨Nat.lt_succ_of_le hlength, hdecode⟩
        | _ => exact .inr trivial
      · intro hget
        obtain ⟨d, hd, hw⟩ := (h.unusable 0).1 (by simpa using hget)
        cases hd
        cases hw
      · exact fun i => by simpa using h.unusable (i + 1)

end ConstantPool

namespace ClassFile

/-- What a class file needs to stand for its bytes: a well-formed pool, counts of two bytes,
lengths of four, and a name. -/
structure WellFormed (c : ClassFile) : Prop where
  pool : c.pool.WellFormed
  interfaces : c.interfaces.length ≤ 65535
  fields : c.fields.length ≤ 65535
  methods : c.methods.length ≤ 65535
  attributes : c.attributes.length ≤ 65535
  memberAttributes : ∀ m ∈ c.fields ++ c.methods, m.attributes.length ≤ 65535
  payloads : ∀ a ∈ c.attributes ++ (c.fields ++ c.methods).flatMap MemberEntry.attributes,
    a.payload.length < 2 ^ 32
  name : ∃ name, c.name = .ok name

theorem wellFormed_iff {c : ClassFile} :
    c.WellFormed ↔ c.Fits ∧ ∃ name, c.name = .ok name := by
  constructor
  · intro h
    have hmember : ∀ m ∈ c.fields ++ c.methods, m.Fits := fun m hm =>
      ⟨Nat.lt_succ_of_le (h.memberAttributes m hm), fun a ha =>
        h.payloads a (List.mem_append_right _ (List.mem_flatMap.2 ⟨m, hm, ha⟩))⟩
    refine ⟨⟨⟨ConstantPool.fits_iff.2 h.pool, Nat.lt_succ_of_le h.interfaces,
      Nat.lt_succ_of_le h.fields, fun m hm => hmember m (List.mem_append_left _ hm),
      Nat.lt_succ_of_le h.methods, fun m hm => hmember m (List.mem_append_right _ hm)⟩,
      Nat.lt_succ_of_le h.attributes, fun a ha => h.payloads a (List.mem_append_left _ ha)⟩,
      h.name⟩
  · rintro ⟨h, hname⟩
    have hmember : ∀ m ∈ c.fields ++ c.methods, m.Fits := by
      intro m hm
      rcases List.mem_append.1 hm with hm | hm
      · exact h.fields m hm
      · exact h.methods m hm
    refine ⟨ConstantPool.fits_iff.1 h.pool, Nat.le_of_lt_succ h.interfaces,
      Nat.le_of_lt_succ h.fieldCount, Nat.le_of_lt_succ h.methodCount,
      Nat.le_of_lt_succ h.attributeCount, fun m hm => Nat.le_of_lt_succ (hmember m hm).count,
      fun a ha => ?_, hname⟩
    rcases List.mem_append.1 ha with ha | ha
    · exact h.attributes a ha
    · obtain ⟨m, hm, ha⟩ := List.mem_flatMap.1 ha
      exact (hmember m hm).attributes a ha

/-- Reading answers exactly the well-formed class files, each from the bytes that writing it
gives: the two undo one another. -/
theorem ofBytes_eq_ok_iff (bytes : List UInt8) (c : ClassFile) :
    ofBytes bytes = .ok c ↔ c.WellFormed ∧ c.bytes = bytes := by
  constructor
  · intro h
    obtain ⟨rfl, hfits⟩ := of_ofBytes h
    exact ⟨wellFormed_iff.2 hfits, rfl⟩
  · rintro ⟨h, rfl⟩
    obtain ⟨hfits, name, hname⟩ := wellFormed_iff.1 h
    exact ofBytes_bytes hfits hname

end ClassFile

end JarPruning
