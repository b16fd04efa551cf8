import JarPruning.Proofs.Except
import JarPruning.Text.ModifiedUtf8

/-!
Encoded texts as sequences of bytes, one sequence a unit. What decoding accepts is what can be cut
into sequences, and it can be cut in one way only.
-/
namespace JarPruning.ModifiedUtf8

/-! Small numbers as bytes and as units, with bounds in figures. -/

theorem toNat_byte {n : Nat} (h : n < 256) : (UInt8.ofNat n).toNat = n :=
  UInt8.toNat_ofNat_of_lt' h

theorem toNat_unit {n : Nat} (h : n < 0x10000) : (UInt16.ofNat n).toNat = n :=
  UInt16.toNat_ofNat_of_lt' h

theorem byte_inj {m n : Nat} (hm : m < 256) (hn : n < 256) (h : UInt8.ofNat m = UInt8.ofNat n) :
    m = n := by
  have := congrArg UInt8.toNat h
  rwa [toNat_byte hm, toNat_byte hn] at this

/-- A sequence of one, two or three bytes and the unit that its payload bits spell. -/
inductive Sequence where
  | one (n : Fin 0x80)
  | two (n : Fin 0x800)
  | three (n : Fin 0x10000)
  deriving DecidableEq, Repr

namespace Sequence

def unit : Sequence → UInt16
  | .one n => UInt16.ofNat n
  | .two n => UInt16.ofNat n
  | .three n => UInt16.ofNat n

def bytes : Sequence → List UInt8
  | .one n => [UInt8.ofNat n]
  | .two n => [UInt8.ofNat (0xC0 + n / 64), UInt8.ofNat (0x80 + n % 64)]
  | .three n => [UInt8.ofNat (0xE0 + n / 4096), UInt8.ofNat (0x80 + n / 64 % 64),
      UInt8.ofNat (0x80 + n % 64)]

/-- The sequence that encoding gives a unit. -/
def shortest (u : UInt16) : Sequence :=
  if h : 0 < u.toNat ∧ u.toNat < 0x80 then .one ⟨u.toNat, h.2⟩
  else if h : u.toNat < 0x800 then .two ⟨u.toNat, h⟩
  else .three ⟨u.toNat, u.toNat_lt⟩

@[simp] theorem bytes_shortest (u : UInt16) : (shortest u).bytes = ofUnit u := by
  unfold shortest ofUnit
  dsimp only
  split
  · rfl
  split <;> rfl

@[simp] theorem unit_shortest (u : UInt16) : (shortest u).unit = u := by
  unfold shortest
  split
  · exact UInt16.ofNat_toNat
  split <;> exact UInt16.ofNat_toNat

/-- A sequence is the shortest of its unit unless it is a raw zero byte, or two bytes for a unit
that fits one, or three for one that fits two. -/
theorem shortest_unit_iff {q : Sequence} : shortest q.unit = q ↔
    q ≠ .one 0 ∧ (∀ n, q = .two n → ¬ (1 ≤ n.val ∧ n.val ≤ 0x7F)) ∧
      ∀ n, q = .three n → ¬ n.val < 0x800 := by
  cases q with
  | one n =>
    have hn := toNat_unit (n := n.val) (by omega)
    have hzero : n = 0 ↔ n.val = 0 := Fin.ext_iff
    grind [shortest, unit]
  | two n =>
    have hn := toNat_unit (n := n.val) (by omega)
    grind [shortest, unit]
  | three n =>
    have hn := toNat_unit n.isLt
    grind [shortest, unit]

/-- The first sequence of a byte string and what follows it are determined. -/
theorem bytes_append_inj {q q' : Sequence} {rest rest' : List UInt8}
    (h : q.bytes ++ rest = q'.bytes ++ rest') : q = q' ∧ rest = rest' := by
  -- The lead byte tells how many bytes there are, and the bytes tell the payload.
  cases q <;> cases q' <;>
    simp only [bytes, List.cons_append, List.nil_append, List.cons.injEq] at h
  case one.one n n' =>
    obtain ⟨ha, rfl⟩ := h
    have := byte_inj (by omega) (by omega) ha
    exact ⟨by rw [Fin.ext this], rfl⟩
  case two.two n n' =>
    obtain ⟨ha, hb, rfl⟩ := h
    have := byte_inj (by omega) (by omega) ha
    have := byte_inj (by omega) (by omega) hb
    exact ⟨congrArg _ (Fin.ext (by omega)), rfl⟩
  case three.three n n' =>
    obtain ⟨ha, hb, hc, rfl⟩ := h
    have := byte_inj (by omega) (by omega) ha
    have := byte_inj (by omega) (by omega) hb
    have := byte_inj (by omega) (by omega) hc
    exact ⟨congrArg _ (Fin.ext (by omega)), rfl⟩
  all_goals
    have := byte_inj (by omega) (by omega) h.1
    omega

/-- A byte string can be cut into sequences in one way only. -/
theorem flatMap_bytes_inj {ss ss' : List Sequence} (h : ss.flatMap bytes = ss'.flatMap bytes) :
    ss = ss' := by
  induction ss generalizing ss' with
  | nil =>
    cases ss' with
    | nil => rfl
    | cons q' ss' => cases q' <;> simp [bytes] at h
  | cons q ss ih =>
    cases ss' with
    | nil => cases q <;> simp [bytes] at h
    | cons q' ss' =>
      rw [List.flatMap_cons, List.flatMap_cons] at h
      obtain ⟨rfl, hrest⟩ := bytes_append_inj h
      rw [ih hrest]

theorem continuationBits_ofNat {n : Nat} (h : n < 64) :
    continuationBits (UInt8.ofNat (0x80 + n)) = .ok n := by
  rw [continuationBits, toNat_byte (by omega), if_pos (by omega)]
  exact congrArg _ (by omega)

/-- Decoding takes a sequence from the front as its unit. -/
theorem units_bytes (q : Sequence) (rest : List UInt8) :
    units (q.bytes ++ rest) = (units rest).map (q.unit :: ·) := by
  have hmap (u : UInt16) : (units rest).map (u :: ·) = do return u :: (← units rest) := by
    cases units rest <;> rfl
  rw [hmap]
  cases q with
  | one n =>
    have ha := toNat_byte (n := n.val) (by omega)
    rw [bytes, List.singleton_append, units.eq_def]
    dsimp only
    rw [ha, if_pos n.isLt, unit]
  | two n =>
    have ha := toNat_byte (n := 0xC0 + n.val / 64) (by omega)
    have hb := continuationBits_ofNat (n := n.val % 64) (by omega)
    have hvalue : (0xC0 + n.val / 64) % 32 * 64 + n.val % 64 = n.val := by omega
    rw [bytes, List.cons_append, List.singleton_append, units]
    rw [ha, if_neg (by omega), if_pos (by omega)]
    simp only [hb, bind, Except.bind, hvalue, unit]
  | three n =>
    have ha := toNat_byte (n := 0xE0 + n.val / 4096) (by omega)
    have hb := continuationBits_ofNat (n := n.val / 64 % 64) (by omega)
    have hc := continuationBits_ofNat (n := n.val % 64) (by omega)
    have hvalue : (0xE0 + n.val / 4096) % 16 * 4096 + n.val / 64 % 64 * 64 + n.val % 64 =
        n.val := by omega
    rw [bytes, List.cons_append, List.cons_append, List.singleton_append, units]
    rw [ha, if_neg (by omega), if_neg (by omega), if_pos (by omega)]
    simp only [hb, hc, bind, Except.bind, hvalue, unit]

theorem units_flatMap_bytes (ss : List Sequence) :
    units (ss.flatMap bytes) = .ok (ss.map unit) := by
  induction ss with
  | nil => simp [units]
  | cons q ss ih =>
    rw [List.flatMap_cons, units_bytes, ih]
    rfl

/-- Every sequence has a byte. -/
theorem length_le_flatMap_bytes (ss : List Sequence) : ss.length ≤ (ss.flatMap bytes).length := by
  induction ss with
  | nil => exact Nat.le_refl _
  | cons q ss ih =>
    have hq : 1 ≤ q.bytes.length := by cases q <;> simp [bytes]
    rw [List.flatMap_cons, List.length_append, List.length_cons]
    omega

/-- What decoding accepts can be cut into sequences. -/
theorem exists_of_units {bytes : List UInt8} {us : List UInt16} (h : units bytes = .ok us) :
    ∃ ss : List Sequence, ss.flatMap Sequence.bytes = bytes := by
  have hcontinuation {b : UInt8} {n : Nat} (hb : continuationBits b = .ok n) :
      b.toNat = 0x80 + n ∧ n < 64 := by
    unfold continuationBits at hb
    split at hb
    · cases hb
      omega
    · cases hb
  have hbyte {b : UInt8} {n : Nat} (hn : n = b.toNat) : UInt8.ofNat n = b := by
    rw [hn, UInt8.ofNat_toNat]
  fun_induction units bytes generalizing us with
  | case1 => exact ⟨[], rfl⟩
  | case2 a rest ha ih =>
    obtain ⟨us', hus, -⟩ := bind_ok_iff.1 h
    obtain ⟨ss, rfl⟩ := ih hus
    exact ⟨.one ⟨a.toNat, ha⟩ :: ss, by simp [Sequence.bytes]⟩
  | case3 => cases h
  | case4 a hone htwo b rest ih =>
    obtain ⟨low, hlow, h⟩ := bind_ok_iff.1 h
    obtain ⟨us', hus, -⟩ := bind_ok_iff.1 h
    obtain ⟨ss, rfl⟩ := ih hus
    obtain ⟨hb, hlt⟩ := hcontinuation hlow
    refine ⟨.two ⟨a.toNat % 32 * 64 + low, by omega⟩ :: ss, ?_⟩
    simp only [List.flatMap_cons, Sequence.bytes, List.cons_append, List.nil_append]
    rw [hbyte (b := a) (by omega), hbyte (b := b) (by omega)]
  | case5 => cases h
  | case6 =>
    obtain ⟨middle, -, h⟩ := bind_ok_iff.1 h
    cases h
  | case7 a hone htwo hthree b c rest ih =>
    obtain ⟨middle, hmiddle, h⟩ := bind_ok_iff.1 h
    obtain ⟨low, hlow, h⟩ := bind_ok_iff.1 h
    obtain ⟨us', hus, -⟩ := bind_ok_iff.1 h
    obtain ⟨ss, rfl⟩ := ih hus
    obtain ⟨hb, hlt⟩ := hcontinuation hmiddle
    obtain ⟨hc, hlt'⟩ := hcontinuation hlow
    refine ⟨.three ⟨a.toNat % 16 * 4096 + middle * 64 + low, by omega⟩ :: ss, ?_⟩
    simp only [List.flatMap_cons, Sequence.bytes, List.cons_append, List.nil_append]
    rw [hbyte (b := a) (by omega), hbyte (b := b) (by omega), hbyte (b := c) (by omega)]
  | case8 => cases h

/-- The only zero byte is a sequence of its own, and lead bytes end at `0xEF`. -/
theorem mem_bytes {q : Sequence} {b : UInt8} (h : b ∈ q.bytes) :
    (b = 0 → q = .one 0) ∧ b ≤ 0xEF := by
  have hzero {n : Nat} (hn : n < 256) (h : UInt8.ofNat n = 0) : n = 0 :=
    byte_inj hn (by decide) h
  have hle {n : Nat} (hn : n ≤ 0xEF) : UInt8.ofNat n ≤ 0xEF := by
    rw [UInt8.le_iff_toNat_le, toNat_byte (by omega)]
    exact hn
  cases q with
  | one n =>
    obtain rfl := List.mem_singleton.1 h
    exact ⟨fun h => congrArg one (Fin.ext (hzero (by omega) h)), hle (by omega)⟩
  | two n =>
    simp only [bytes, List.mem_cons, List.not_mem_nil, or_false] at h
    rcases h with rfl | rfl
    all_goals exact ⟨fun h => absurd (hzero (by omega) h) (by omega), hle (by omega)⟩
  | three n =>
    simp only [bytes, List.mem_cons, List.not_mem_nil, or_false] at h
    rcases h with rfl | rfl | rfl
    all_goals exact ⟨fun h => absurd (hzero (by omega) h) (by omega), hle (by omega)⟩

end Sequence

end JarPruning.ModifiedUtf8
