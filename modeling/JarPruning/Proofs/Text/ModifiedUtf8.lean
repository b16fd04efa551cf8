import JarPruning.Proofs.Text.Sequence

/-!
Every text survives its encoding. Bytes that decode survive too if every sequence in them is the
shortest of its unit and no surrogate stands alone, and only then.
-/
namespace JarPruning

namespace Utf16

theorem decodeLossy_cons {u : UInt16} (h : isHigh u = false) (rest : List UInt16) :
    decodeLossy (u :: rest) = single u :: decodeLossy rest := by
  cases rest with
  | nil => simp [decodeLossy]
  | cons v rest => simp [decodeLossy, h]

theorem toNat_ofNat {n : Nat} (h : n.isValidChar) : (Char.ofNat n).toNat = n := by
  unfold Char.ofNat
  rw [dif_pos h]
  rfl

/-- A character is one unit that is no surrogate, or a pair of them. -/
theorem ofChar_cases (c : Char) :
    (∃ u, ofChar c = [u] ∧ isHigh u = false ∧ isLow u = false ∧ single u = c) ∨
      ∃ u v, ofChar c = [u, v] ∧ isHigh u = true ∧ isLow v = true ∧ pair u v = c := by
  have hvalid : c.toNat < 0xD800 ∨ 0xDFFF < c.toNat ∧ c.toNat < 0x110000 := c.valid
  unfold ofChar
  split
  · next hbasic =>
    have hunit : (UInt16.ofNat c.toNat).toNat = c.toNat := ModifiedUtf8.toNat_unit hbasic
    have hhigh : isHigh (UInt16.ofNat c.toNat) = false := by
      simp only [isHigh, hunit, Bool.and_eq_false_iff, decide_eq_false_iff_not]
      omega
    have hlow : isLow (UInt16.ofNat c.toNat) = false := by
      simp only [isLow, hunit, Bool.and_eq_false_iff, decide_eq_false_iff_not]
      omega
    exact .inl ⟨_, rfl, hhigh, hlow, by simp [single, hhigh, hlow, hunit]⟩
  · next hbeyond =>
    have hn : c.toNat - 0x10000 < 0x100000 := by omega
    have hh : (UInt16.ofNat (0xD800 + (c.toNat - 0x10000) / 0x400)).toNat =
        0xD800 + (c.toNat - 0x10000) / 0x400 := ModifiedUtf8.toNat_unit (by omega)
    have hl : (UInt16.ofNat (0xDC00 + (c.toNat - 0x10000) % 0x400)).toNat =
        0xDC00 + (c.toNat - 0x10000) % 0x400 := ModifiedUtf8.toNat_unit (by omega)
    have hhigh : isHigh (UInt16.ofNat (0xD800 + (c.toNat - 0x10000) / 0x400)) = true := by
      simp only [isHigh, hh, Bool.and_eq_true, decide_eq_true_eq]
      omega
    have hlow : isLow (UInt16.ofNat (0xDC00 + (c.toNat - 0x10000) % 0x400)) = true := by
      simp only [isLow, hl, Bool.and_eq_true, decide_eq_true_eq]
      omega
    have hcode : 0x10000 + (0xD800 + (c.toNat - 0x10000) / 0x400 - 0xD800) * 0x400 +
        (0xDC00 + (c.toNat - 0x10000) % 0x400 - 0xDC00) = c.toNat := by omega
    exact .inr ⟨_, _, rfl, hhigh, hlow, by rw [pair, hh, hl, hcode, Char.ofNat_toNat]⟩

theorem decodeLossy_ofChar (c : Char) (rest : List UInt16) :
    decodeLossy (ofChar c ++ rest) = c :: decodeLossy rest := by
  rcases ofChar_cases c with ⟨u, hc, hhigh, -, hsingle⟩ | ⟨u, v, hc, hhigh, hlow, hpair⟩
  · rw [hc, List.singleton_append, decodeLossy_cons hhigh, hsingle]
  · simp only [hc, List.cons_append, List.nil_append, decodeLossy, hhigh, hlow, Bool.and_self,
      ↓reduceIte, hpair]

theorem decodeLossy_ofChars (cs : List Char) : decodeLossy (ofChars cs) = cs := by
  induction cs with
  | nil => rfl
  | cons c cs ih =>
    rw [ofChars, List.flatMap_cons, decodeLossy_ofChar]
    exact congrArg (c :: ·) ih

/-- Units in which every surrogate stands in a pair. -/
inductive Paired : List UInt16 → Prop where
  | nil : Paired []
  | single {u : UInt16} {us : List UInt16} (high : isHigh u = false) (low : isLow u = false)
      (rest : Paired us) : Paired (u :: us)
  | pair {u v : UInt16} {us : List UInt16} (high : isHigh u = true) (low : isLow v = true)
      (rest : Paired us) : Paired (u :: v :: us)

theorem paired_ofChars (cs : List Char) : Paired (ofChars cs) := by
  induction cs with
  | nil => exact .nil
  | cons c cs ih =>
    rw [ofChars, List.flatMap_cons]
    rcases ofChar_cases c with ⟨u, hc, hhigh, hlow, -⟩ | ⟨u, v, hc, hhigh, hlow, -⟩
    · rw [hc]
      exact .single hhigh hlow ih
    · rw [hc]
      exact .pair hhigh hlow ih

theorem ofChar_single {u : UInt16} (hhigh : isHigh u = false) (hlow : isLow u = false) :
    ofChar (single u) = [u] := by
  have hu := u.toNat_lt
  simp only [isHigh, isLow, Bool.and_eq_false_iff, decide_eq_false_iff_not] at hhigh hlow
  have hvalid : u.toNat.isValidChar := by
    unfold Nat.isValidChar
    omega
  have hsingle : single u = Char.ofNat u.toNat := by
    rw [single, if_neg]
    simp only [isHigh, isLow, Bool.or_eq_true, Bool.and_eq_true, decide_eq_true_eq]
    omega
  rw [hsingle, ofChar, toNat_ofNat hvalid, if_pos hu, UInt16.ofNat_toNat]

theorem ofChar_pair {u v : UInt16} (hhigh : isHigh u = true) (hlow : isLow v = true) :
    ofChar (pair u v) = [u, v] := by
  simp only [isHigh, isLow, Bool.and_eq_true, decide_eq_true_eq] at hhigh hlow
  have hvalid :
      (0x10000 + (u.toNat - 0xD800) * 0x400 + (v.toNat - 0xDC00)).isValidChar := by
    unfold Nat.isValidChar
    omega
  have hu : 0xD800 + (0x10000 + (u.toNat - 0xD800) * 0x400 + (v.toNat - 0xDC00) - 0x10000) /
      0x400 = u.toNat := by omega
  have hv : 0xDC00 + (0x10000 + (u.toNat - 0xD800) * 0x400 + (v.toNat - 0xDC00) - 0x10000) %
      0x400 = v.toNat := by omega
  rw [pair, ofChar, toNat_ofNat hvalid, if_neg (by omega)]
  dsimp only
  rw [hu, hv, UInt16.ofNat_toNat, UInt16.ofNat_toNat]

/-- Decoding loses nothing of units in which every surrogate stands in a pair, and of no others. -/
theorem ofChars_decodeLossy_iff {us : List UInt16} : ofChars (decodeLossy us) = us ↔ Paired us := by
  constructor
  · intro h
    exact h ▸ paired_ofChars _
  · intro h
    induction h with
    | nil => rfl
    | single hhigh hlow _ ih =>
      rw [decodeLossy_cons hhigh, ofChars, List.flatMap_cons, ofChar_single hhigh hlow,
        List.singleton_append]
      exact congrArg _ ih
    | pair hhigh hlow _ ih =>
      rw [decodeLossy, hhigh, hlow, Bool.and_self, if_pos rfl, ofChars, List.flatMap_cons,
        ofChar_pair hhigh hlow]
      exact congrArg (_ :: _ :: ·) ih

theorem length_decodeLossy_le (us : List UInt16) : (decodeLossy us).length ≤ us.length := by
  fun_induction decodeLossy us with
  | case1 => exact Nat.le_refl _
  | case2 u => exact Nat.le_refl _
  | case3 u v rest hpair ih =>
    rw [List.length_cons, List.length_cons, List.length_cons]
    omega
  | case4 u v rest hsingle ih =>
    rw [List.length_cons, List.length_cons]
    exact Nat.succ_le_succ ih

end Utf16

namespace ModifiedUtf8

theorem length_units_le {bytes : List UInt8} {us : List UInt16} (h : units bytes = .ok us) :
    us.length ≤ bytes.length := by
  obtain ⟨ss, rfl⟩ := Sequence.exists_of_units h
  rw [Sequence.units_flatMap_bytes] at h
  cases h
  rw [List.length_map]
  exact Sequence.length_le_flatMap_bytes ss

/-- A text has no more characters than bytes. -/
theorem length_decode_le {bytes : List UInt8} {text : String} (h : decode bytes = .ok text) :
    text.toList.length ≤ bytes.length := by
  obtain ⟨us, hus, h⟩ := bind_ok_iff.1 h
  cases h
  rw [String.toList_ofList]
  exact Nat.le_trans (Utf16.length_decodeLossy_le us) (length_units_le hus)

theorem flatMap_shortest (us : List UInt16) :
    (us.map Sequence.shortest).flatMap Sequence.bytes = us.flatMap ofUnit := by
  simp only [List.flatMap_map, Sequence.bytes_shortest]

theorem units_flatMap (us : List UInt16) : units (us.flatMap ofUnit) = .ok us := by
  rw [← flatMap_shortest, Sequence.units_flatMap_bytes, List.map_map]
  simp only [Function.comp_def, Sequence.unit_shortest, List.map_id']

theorem decode_encode (s : String) : decode (encode s) = .ok s := by
  rw [decode, encode, units_flatMap]
  simp only [bind, Except.bind, pure, Except.pure, Utf16.decodeLossy_ofChars, String.ofList_toList]

theorem length_encode (s : String) : (encode s).length = encodedLength s := by
  unfold encode encodedLength
  induction s.toList with
  | nil => rfl
  | cons c cs ih =>
    rw [Utf16.ofChars, List.flatMap_cons, List.flatMap_append, List.length_append, List.foldr_cons]
    have hchar : ((Utf16.ofChar c).flatMap ofUnit).length = charLength c := by
      unfold charLength
      induction Utf16.ofChar c with
      | nil => rfl
      | cons u us ih =>
        rw [List.flatMap_cons, List.length_append, length_ofUnit, ih, List.foldr_cons]
    rw [hchar]
    exact congrArg (charLength c + ·) ih

/-- No byte of an encoding is zero, and lead bytes end at `0xEF`. -/
theorem mem_encode {text : String} {b : UInt8} (h : b ∈ encode text) : b ≠ 0 ∧ b ≤ 0xEF := by
  rw [encode, ← flatMap_shortest] at h
  obtain ⟨q, hq, hb⟩ := List.mem_flatMap.1 h
  obtain ⟨u, -, rfl⟩ := List.mem_map.1 hq
  obtain ⟨hzero, hle⟩ := Sequence.mem_bytes hb
  have hshortest : Sequence.shortest (Sequence.shortest u).unit = Sequence.shortest u := by
    rw [Sequence.unit_shortest]
  exact ⟨fun h => (Sequence.shortest_unit_iff.1 hshortest).1 (hzero h), hle⟩

/-- Sequences as encoding writes them: no raw zero byte, no sequence longer than its unit needs
and no surrogate without its partner. -/
structure Canonical (ss : List Sequence) : Prop where
  zero : 0 ∉ ss.flatMap Sequence.bytes
  two : ∀ n, .two n ∈ ss → ¬ (1 ≤ n.val ∧ n.val ≤ 0x7F)
  three : ∀ n, .three n ∈ ss → ¬ n.val < 0x800
  paired : Utf16.Paired (ss.map Sequence.unit)

theorem canonical_iff {ss : List Sequence} : Canonical ss ↔
    (∀ q ∈ ss, Sequence.shortest q.unit = q) ∧ Utf16.Paired (ss.map Sequence.unit) := by
  constructor
  · intro h
    refine ⟨fun q hq => Sequence.shortest_unit_iff.2 ⟨?_, ?_, ?_⟩, h.paired⟩
    · rintro rfl
      exact h.zero (List.mem_flatMap.2 ⟨_, hq, List.mem_singleton.2 rfl⟩)
    · rintro n rfl
      exact h.two n hq
    · rintro n rfl
      exact h.three n hq
  · rintro ⟨h, hpaired⟩
    refine ⟨fun hzero => ?_, fun n hn => ?_, fun n hn => ?_, hpaired⟩
    · obtain ⟨q, hq, hb⟩ := List.mem_flatMap.1 hzero
      exact (Sequence.shortest_unit_iff.1 (h q hq)).1 ((Sequence.mem_bytes hb).1 rfl)
    · exact (Sequence.shortest_unit_iff.1 (h _ hn)).2.1 n rfl
    · exact (Sequence.shortest_unit_iff.1 (h _ hn)).2.2 n rfl

/-- Encoding what was decoded gives the bytes back if, and only if, their sequences are
canonical. -/
theorem encode_eq_iff {ss : List Sequence} {text : String}
    (h : decode (ss.flatMap Sequence.bytes) = .ok text) :
    encode text = ss.flatMap Sequence.bytes ↔ Canonical ss := by
  have htext : text.toList = Utf16.decodeLossy (ss.map Sequence.unit) := by
    obtain ⟨us, hus, h⟩ := bind_ok_iff.1 h
    rw [Sequence.units_flatMap_bytes] at hus
    cases hus
    cases h
    exact String.toList_ofList ..
  rw [canonical_iff, ← Utf16.ofChars_decodeLossy_iff, encode, htext]
  constructor
  · intro heq
    have hunits := units_flatMap (Utf16.ofChars (Utf16.decodeLossy (ss.map Sequence.unit)))
    rw [heq, Sequence.units_flatMap_bytes] at hunits
    have hback := (Except.ok.inj hunits).symm
    rw [hback, ← flatMap_shortest] at heq
    have hss := Sequence.flatMap_bytes_inj heq
    rw [List.map_map] at hss
    exact ⟨List.map_inj_left.1 (hss.trans (List.map_id ss).symm), hback⟩
  · rintro ⟨hshortest, hback⟩
    rw [hback, ← flatMap_shortest, List.map_map]
    exact congrArg _ ((List.map_congr_left hshortest).trans (List.map_id ss))

/-- Texts survive their encoding, whose length is known without it and whose bytes are none of
them zero or above `0xEF`. Bytes that decode can be cut into sequences in one way, and are the
encoding of their text if, and only if, those sequences are canonical. -/
theorem encoding_exact :
    (∀ text, decode (encode text) = .ok text ∧ encodedLength text = (encode text).length ∧
      ∀ b ∈ encode text, b ≠ 0 ∧ b ≤ 0xEF) ∧
    ∀ bytes text, decode bytes = .ok text → ∃ ss : List Sequence,
      ss.flatMap Sequence.bytes = bytes ∧
      (∀ ss' : List Sequence, ss'.flatMap Sequence.bytes = bytes → ss' = ss) ∧
      (encode text = bytes ↔ Canonical ss) := by
  refine ⟨fun text => ⟨decode_encode text, (length_encode text).symm, fun b => mem_encode⟩, ?_⟩
  intro bytes text h
  obtain ⟨us, hus, -⟩ := bind_ok_iff.1 h
  obtain ⟨ss, rfl⟩ := Sequence.exists_of_units hus
  exact ⟨ss, rfl, fun ss' => Sequence.flatMap_bytes_inj, encode_eq_iff h⟩

/-- A zero unit and a pair of surrogates come back as they were; a surrogate that stands alone
becomes the replacement character. -/
theorem encoding_exact_surrogates :
    (decode [0xC0, 0x80, 0xED, 0xA0, 0xBD, 0xED, 0xB8, 0x80] = .ok "\x00😀" ∧
      encode "\x00😀" = [0xC0, 0x80, 0xED, 0xA0, 0xBD, 0xED, 0xB8, 0x80]) ∧
    decode [0xED, 0xA0, 0xBD] = .ok "\uFFFD" ∧ encode "\uFFFD" ≠ [0xED, 0xA0, 0xBD] := by
  have hpair : decode [0xC0, 0x80, 0xED, 0xA0, 0xBD, 0xED, 0xB8, 0x80] = .ok "\x00😀" := by decide
  have hlone : decode [0xED, 0xA0, 0xBD] = .ok "\uFFFD" := by decide
  obtain ⟨ss, -, hpairCut, hpairIff⟩ := encoding_exact.2 _ _ hpair
  obtain ⟨ss', -, hloneCut, hloneIff⟩ := encoding_exact.2 _ _ hlone
  obtain rfl := hpairCut [.two 0, .three 0xD83D, .three 0xDE00] rfl
  obtain rfl := hloneCut [.three 0xD83D] rfl
  refine ⟨⟨hpair, hpairIff.2 (canonical_iff.2 ⟨by decide, ?_⟩)⟩, hlone, fun h => ?_⟩
  · exact .single rfl rfl (.pair rfl rfl .nil)
  · rcases (hloneIff.1 h).paired with _ | ⟨hhigh, -, -⟩
    cases hhigh

end ModifiedUtf8

end JarPruning
