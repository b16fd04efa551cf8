import JarPruning.Proofs.Metadata.Roundtrip

/-!
What the strings of a packed payload hold. Cut into strings that fit, they are the marker and one
character for each byte, or for each digit of the payload to the base 128; and they unpack to the
payload unless the first character, without a marker, is the one that marks bytes.
-/
namespace JarPruning.Metadata.Packing

/-! Digits. -/

theorem littleEndian_cons (b : UInt8) (bytes : List UInt8) :
    littleEndian (b :: bytes) = b.toNat + 256 * littleEndian bytes := by
  rw [littleEndian, List.reverse_cons, BigEndian.value_concat, Nat.mul_comm, Nat.add_comm]
  rfl

/-- The lowest digits of a number to the base 128, lowest first. -/
def digits128 (count n : Nat) : List Nat := (List.range count).map fun i => n / 128 ^ i % 128

theorem digits128_succ (count n : Nat) :
    digits128 (count + 1) n = n % 128 :: digits128 count (n / 128) := by
  unfold digits128
  rw [List.range_succ_eq_map, List.map_cons, List.map_map, Nat.pow_zero, Nat.div_one]
  refine congrArg _ (List.map_congr_left fun i _ => ?_)
  rw [Function.comp_apply, Nat.pow_succ', Nat.div_div_eq_div_mul]

/-- A payload in groups of seven bits: the digits of the number whose bytes it has, as many as hold
all its bits. -/
def groups (payload : List UInt8) : List Nat :=
  digits128 ((8 * payload.length + 6) / 7) (littleEndian payload)

/-- `acc` holds the `bits` lowest bits of the number whose other bits are those of the bytes. -/
theorem toSeptets_eq_digits {acc bits : Nat} (hbits : bits < 7) (hacc : acc < 2 ^ bits)
    (bytes : List UInt8) :
    toSeptets acc bits bytes =
      digits128 ((bits + 8 * bytes.length + 6) / 7) (acc + 2 ^ bits * littleEndian bytes) := by
  induction bytes generalizing acc bits with
  | nil =>
    have hzero : littleEndian [] = 0 := rfl
    rw [toSeptets, hzero, Nat.mul_zero, Nat.add_zero, List.length_nil]
    split
    · next h =>
      subst h
      rfl
    · next h =>
      have hcount : (bits + 8 * 0 + 6) / 7 = 0 + 1 := by omega
      rw [hcount, digits128_succ]
      rfl
  | cons b bytes ih =>
    have hb := b.toNat_lt
    rw [littleEndian_cons, List.length_cons]
    generalize hrest : littleEndian bytes = rest at ih ⊢
    by_cases hsix : bits = 6
    · subst hsix
      have hcount : (6 + 8 * (bytes.length + 1) + 6) / 7 = (0 + 8 * bytes.length + 6) / 7 + 1 + 1 := by
        omega
      have hlow : (acc + 2 ^ 6 * (b.toNat + 256 * rest)) % 128 = (acc + b.toNat * 64) % 128 := by omega
      have hnext : (acc + 2 ^ 6 * (b.toNat + 256 * rest)) / 128 =
          (acc + b.toNat * 64) / 128 + 128 * rest := by omega
      have hlow' : ((acc + b.toNat * 64) / 128 + 128 * rest) % 128 =
          (acc + b.toNat * 64) / 128 % 128 := by omega
      have hnext' : ((acc + b.toNat * 64) / 128 + 128 * rest) / 128 =
          (acc + b.toNat * 64) / 128 / 128 + 2 ^ 0 * rest := by omega
      rw [hcount, digits128_succ, digits128_succ, hlow, hnext, hlow', hnext', toSeptets_cons_six,
        ih (by decide) (by omega)]
    · have hcount : (bits + 8 * (bytes.length + 1) + 6) / 7 =
          (bits + 1 + 8 * bytes.length + 6) / 7 + 1 := by omega
      have hsplit : acc + 2 ^ bits * (b.toNat + 256 * rest) =
          acc + b.toNat * 2 ^ bits + 128 * (2 ^ (bits + 1) * rest) := by
        interval_cases bits <;> omega
      have hlow : (acc + 2 ^ bits * (b.toNat + 256 * rest)) % 128 =
          (acc + b.toNat * 2 ^ bits) % 128 := by omega
      have hnext : (acc + 2 ^ bits * (b.toNat + 256 * rest)) / 128 =
          (acc + b.toNat * 2 ^ bits) / 128 + 2 ^ (bits + 1) * rest := by omega
      have hsmall : (acc + b.toNat * 2 ^ bits) / 128 < 2 ^ (bits + 1) := by
        interval_cases bits <;> omega
      rw [hcount, digits128_succ, hlow, hnext, toSeptets_cons hsix, ih (by omega) hsmall]

theorem toSeptets_eq_groups (payload : List UInt8) : toSeptets 0 0 payload = groups payload := by
  rw [toSeptets_eq_digits (by decide) (by decide), groups]
  simp

/-! Strings. -/

/-- A string is closed behind a character, and one that is open at the end holds a character. -/
theorem chunks_ne_empty {buffer : List Char} {length : Nat} {cs : List Char} :
    ∀ s ∈ chunks buffer length cs, s ≠ "" := by
  induction cs generalizing buffer length with
  | nil =>
    rw [chunks]
    split
    · exact List.forall_mem_nil _
    · next hopen =>
      intro s hs
      rw [List.mem_singleton.1 hs]
      simpa using hopen
  | cons c cs ih =>
    rw [chunks]
    split
    · intro s hs
      obtain rfl | hs := List.mem_cons.1 hs
      · simp
      · exact ih s hs
    · exact ih

/-- The marker, if there is one. -/
def marker : Packing → List Char
  | .bytes => [byteMarker]
  | .septets true => [septetMarker]
  | .septets false => []

/-- The codes of the characters behind the marker: the bytes, or the digits plus one modulo 128. -/
def codes : Packing → List UInt8 → List Nat
  | .bytes, payload => payload.map UInt8.toNat
  | .septets _, payload => (groups payload).map fun s => (s + 1) % 128

theorem chars_eq (p : Packing) (payload : List UInt8) :
    p.chars payload = p.marker ++ (p.codes payload).map Char.ofNat := by
  cases p with
  | bytes =>
    rw [codes, List.map_map]
    rfl
  | septets marked =>
    rw [chars, codes, List.map_map, toSeptets_eq_groups]
    cases marked <;> rfl

/-- Characters of two bytes each fill a string behind the marker and go on in another. -/
theorem encode_replicate {b : UInt8} {c : Char} (hchar : Char.ofNat b.toNat = c)
    (hlength : ModifiedUtf8.charLength c = 2) {m : Nat} (hm : 2 * (m + 2) = chunkLimit) (n : Nat) :
    encode .bytes (List.replicate (m + (n + 1)) b) =
      String.ofList (byteMarker :: List.replicate (m + 1) c) :: chunks [] 0 (List.replicate n c) := by
  have hmarker : ModifiedUtf8.charLength byteMarker = 2 := by decide
  have hsum : ((byteMarker :: List.replicate m c).map ModifiedUtf8.charLength).sum = 2 + m * 2 := by
    rw [List.map_cons, List.map_replicate, List.sum_cons, List.sum_replicate_nat, hmarker, hlength]
  have hchars : chars .bytes (List.replicate (m + (n + 1)) b) =
      (byteMarker :: List.replicate m c) ++ c :: List.replicate n c := by
    rw [chars, List.map_replicate, hchar, ← List.replicate_append_replicate, List.replicate_succ]
    rfl
  rw [encode, hchars, chunks_filled (by omega) (by omega), List.reverse_nil, List.nil_append,
    List.cons_append, ← List.replicate_succ']

/-- No string is empty or longer than a constant can be, and one behind the other they are the marker
and a character for each byte or digit. -/
theorem encode_cuts (p : Packing) (payload : List UInt8) :
    (∀ s ∈ p.encode payload, s ≠ "" ∧ ModifiedUtf8.encodedLength s ≤ 65535) ∧
      String.join (p.encode payload) =
        String.ofList (p.marker ++ (p.codes payload).map Char.ofNat) := by
  constructor
  · intro s hs
    have hfits : ModifiedUtf8.encodedLength s < 65536 := encode_fits p payload s hs
    exact ⟨chunks_ne_empty s hs, by omega⟩
  · apply String.toList_injective
    rw [String.toList_join, String.toList_ofList, ← chars_eq]
    exact flatMap_encode p payload

/-- Many bytes that are each a character of two bytes take more than one string. -/
theorem encode_cuts_long :
    String.ofList (byteMarker :: List.replicate 32766 '\x80') ∈
        encode .bytes (List.replicate 40000 0x80) ∧
      String.ofList (byteMarker :: List.replicate 32766 '\x80') ≠ "" ∧
      ModifiedUtf8.encodedLength (String.ofList (byteMarker :: List.replicate 32766 '\x80')) ≤
        65535 := by
  have hfirst := encode_replicate (b := 0x80) (c := '\x80') rfl (by decide)
    (show 2 * (32765 + 2) = chunkLimit from rfl) 7234
  have hmem : String.ofList (byteMarker :: List.replicate 32766 '\x80') ∈
      encode .bytes (List.replicate 40000 0x80) := hfirst ▸ List.mem_cons_self ..
  exact ⟨hmem, (encode_cuts .bytes _).1 _ hmem⟩

/-! Unpacking. -/

theorem and_low_bits_eq_iff (b : UInt8) : b &&& 0x7F = 0x7F ↔ b.toNat % 128 = 127 := by
  rw [← UInt8.toNat_inj, UInt8.toNat_and]
  exact iff_of_eq (congrArg (· = 127) (Nat.and_two_pow_sub_one_eq_mod b.toNat 7))

theorem head?_chars_septets (b : UInt8) (bytes : List UInt8) :
    (chars (.septets false) (b :: bytes)).head? = some (septetChar (b.toNat % 128)) := by
  obtain ⟨tail, htail⟩ := toSeptets_head b bytes
  simp [chars, htail]

theorem map_char_codes {l : List Nat} (h : ∀ n ∈ l, n < 256) :
    l.map Char.ofNat = (l.map UInt8.ofNat).map fun b => Char.ofNat b.toNat := by
  rw [List.map_map]
  refine List.map_congr_left fun n hn => ?_
  rw [Function.comp_apply, UInt8.toNat_ofNat', Nat.mod_eq_of_lt (h n hn)]

/-- A payload whose first group is written as the marker of the bytes is unpacked to the codes behind
it, as bytes. -/
theorem decode_disguised {b : UInt8} (hb : b.toNat % 128 = 127) (bytes : List UInt8) :
    decode (encode (.septets false) (b :: bytes)) =
      .ok (((codes (.septets false) (b :: bytes)).drop 1).map UInt8.ofNat, .bytes) := by
  have hmarks : septetChar (b.toNat % 128) = byteMarker :=
    (septetChar_eq_byteMarker_iff _).2 (by omega)
  have hchunks : ofChunks (encode (.septets false) (b :: bytes)) = .bytes := by
    unfold ofChunks encode
    rw [head?_chunks, List.reverse_nil, List.nil_append, head?_chars_septets, hmarks]
    exact if_pos rfl
  have hcodes : ∀ n ∈ (codes (.septets false) (b :: bytes)).drop 1, n < 256 := by
    intro n hn
    obtain ⟨s, -, rfl⟩ := List.mem_map.1 (List.mem_of_mem_drop hn)
    omega
  refine decode_ok_iff.2 ⟨hchunks, ?_⟩
  rw [flatMap_encode, chars_eq, marker, List.nil_append, ← List.map_drop, map_char_codes hcodes]
  exact mapM_map_ok fun b _ => byteOf_char b

/-- Two groups, of which the first is the marker and the second one less than the byte. -/
example : decode (encode (.septets false) [0xFF]) = .ok ([2], .bytes) := by
  decide

/-- Packing is undone, except where the first group of seven bits, unmarked, is written as the marker
of the bytes. -/
theorem decode_encode_iff (p : Packing) (payload : List UInt8) :
    decode (p.encode payload) = .ok (payload, p) ↔
      ¬ (p = .septets false ∧ ∃ b bytes, payload = b :: bytes ∧ b &&& 0x7F = 0x7F) := by
  constructor
  · rintro h ⟨rfl, b, bytes, rfl, hb⟩
    rw [decode_disguised ((and_low_bits_eq_iff b).1 hb)] at h
    simp at h
  · intro h
    apply decode_encode
    apply ofChunks_encode
    rintro rfl hmarker
    cases payload with
    | nil => cases hmarker
    | cons b bytes =>
      rw [head?_chars_septets, Option.some.injEq, septetChar_eq_byteMarker_iff] at hmarker
      exact h ⟨rfl, b, bytes, rfl, (and_low_bits_eq_iff b).2 (by omega)⟩

end JarPruning.Metadata.Packing
