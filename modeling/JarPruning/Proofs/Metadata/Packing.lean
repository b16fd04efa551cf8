import Mathlib.Tactic.IntervalCases
import JarPruning.Metadata.Packing
import JarPruning.Proofs.Metadata.Wire
import JarPruning.Proofs.Text.ModifiedUtf8

/-!
Packed payloads. Strings that are the first of those a payload is packed into unpack to the first
bytes of the payload, and every string fits a constant.
-/
namespace JarPruning.Metadata.Packing

/-! Septets. -/

theorem toSeptets_cons_six (acc : Nat) (b : UInt8) (bytes : List UInt8) :
    toSeptets acc 6 (b :: bytes) =
      (acc + b.toNat * 64) % 128 :: (acc + b.toNat * 64) / 128 % 128 ::
        toSeptets ((acc + b.toNat * 64) / 128 / 128) 0 bytes := by
  simp [toSeptets, Nat.shiftLeft_eq]

theorem toSeptets_cons {bits : Nat} (h : bits ≠ 6) (acc : Nat) (b : UInt8) (bytes : List UInt8) :
    toSeptets acc bits (b :: bytes) =
      (acc + b.toNat * 2 ^ bits) % 128 ::
        toSeptets ((acc + b.toNat * 2 ^ bits) / 128) (bits + 1) bytes := by
  simp [toSeptets, Nat.shiftLeft_eq, h]

theorem ofSeptets_cons {bits : Nat} (h : bits ≠ 0) (acc s : Nat) (rest : List Nat) :
    ofSeptets acc bits (s :: rest) =
      UInt8.ofNat (acc + s * 2 ^ bits) :: ofSeptets ((acc + s * 2 ^ bits) / 256) (bits - 1) rest := by
  simp [ofSeptets, Nat.shiftLeft_eq, h]

theorem ofNat_eq_of_mod {n : Nat} {b : UInt8} (h : n % 256 = b.toNat) : UInt8.ofNat n = b := by
  apply UInt8.toNat_inj.1
  rwa [UInt8.toNat_ofNat']

/-- Where `bits` bits of the last byte are still to be written, the `8 - bits` others are still to
be given out. -/
theorem ofSeptets_toSeptets_of_bits (bytes : List UInt8) :
    ofSeptets 0 0 (toSeptets 0 0 bytes) = bytes ∧
      ∀ bits acc out, 0 < bits → bits < 7 → acc < 2 ^ bits → out < 2 ^ (8 - bits) →
        ofSeptets out (8 - bits) (toSeptets acc bits bytes) =
          UInt8.ofNat (out + acc * 2 ^ (8 - bits)) :: bytes := by
  induction bytes with
  | nil =>
    refine ⟨rfl, fun bits acc out hpos hlt hacc hout => ?_⟩
    have hsmall : acc % 128 = acc := by
      have := Nat.pow_le_pow_right (n := 2) (by decide) (Nat.le_of_lt hlt)
      exact Nat.mod_eq_of_lt (by omega)
    rw [toSeptets, if_neg (by omega), ofSeptets_cons (by omega), hsmall]
    rfl
  | cons b bytes ih =>
    obtain ⟨ih₀, ih⟩ := ih
    have hb := b.toNat_lt
    constructor
    · rw [toSeptets_cons (by decide), ofSeptets, if_pos rfl, Nat.shiftLeft_eq]
      have := ih 1 ((0 + b.toNat * 2 ^ 0) / 128) (0 + (0 + b.toNat * 2 ^ 0) % 128 * 2 ^ 0)
        (by decide) (by decide) (by omega) (by omega)
      rw [this]
      exact congrArg (· :: bytes) (ofNat_eq_of_mod (by omega))
    · intro bits acc out hpos hlt hacc hout
      by_cases hsix : bits = 6
      · subst hsix
        rw [toSeptets_cons_six, ofSeptets_cons (by decide), ofSeptets_cons (by decide)]
        have hacc' : (acc + b.toNat * 64) / 128 / 128 = 0 := by omega
        have hout' : ((out + (acc + b.toNat * 64) % 128 * 2 ^ (8 - 6)) / 256 +
            (acc + b.toNat * 64) / 128 % 128 * 2 ^ (8 - 6 - 1)) / 256 = 0 := by omega
        rw [hacc', hout']
        show _ :: _ :: ofSeptets 0 0 (toSeptets 0 0 bytes) = _
        rw [ih₀]
        refine congrArg₂ _ (ofNat_eq_of_mod ?_) (congrArg (· :: bytes) (ofNat_eq_of_mod ?_))
        · rw [UInt8.toNat_ofNat']
          omega
        · omega
      · have hnext : 8 - bits - 1 = 8 - (bits + 1) := by omega
        rw [toSeptets_cons hsix, ofSeptets_cons (by omega), hnext,
          ih (bits + 1) _ _ (by omega) (by omega)]
        · refine congrArg₂ _ (ofNat_eq_of_mod ?_) (congrArg (· :: bytes) (ofNat_eq_of_mod ?_))
          · rw [UInt8.toNat_ofNat']
            interval_cases bits <;> omega
          · interval_cases bits <;> omega
        · interval_cases bits <;> omega
        · interval_cases bits <;> omega

theorem ofSeptets_toSeptets (bytes : List UInt8) : ofSeptets 0 0 (toSeptets 0 0 bytes) = bytes :=
  (ofSeptets_toSeptets_of_bits bytes).1

theorem toSeptets_lt {acc bits : Nat} {bytes : List UInt8} :
    ∀ s ∈ toSeptets acc bits bytes, s < 128 := by
  induction bytes generalizing acc bits with
  | nil =>
    rw [toSeptets]
    split
    · simp
    · simp
      omega
  | cons b bytes ih =>
    rw [toSeptets]
    split
    · intro s hs
      obtain rfl | hs := List.mem_cons.1 hs
      · omega
      obtain rfl | hs := List.mem_cons.1 hs
      · omega
      exact ih s hs
    · intro s hs
      obtain rfl | hs := List.mem_cons.1 hs
      · omega
      exact ih s hs

theorem ofSeptets_prefix {acc bits : Nat} {l m : List Nat} (h : l <+: m) :
    ofSeptets acc bits l <+: ofSeptets acc bits m := by
  obtain ⟨more, rfl⟩ := h
  induction l generalizing acc bits with
  | nil => exact List.nil_prefix
  | cons s l ih =>
    rw [List.cons_append, ofSeptets, ofSeptets]
    split
    · exact ih
    · exact List.cons_prefix_cons.2 ⟨rfl, ih⟩

/-! Characters. -/

theorem toNat_ofNat_of_lt {n : Nat} (h : n < 256) : (Char.ofNat n).toNat = n :=
  Utf16.toNat_ofNat (.inl (by omega))

theorem byteOf_char (b : UInt8) : byteOf (Char.ofNat b.toNat) = .ok b := by
  have hb := b.toNat_lt
  have hchar : (Char.ofNat b.toNat).toNat = b.toNat := toNat_ofNat_of_lt (by omega)
  rw [byteOf, hchar, if_pos hb, UInt8.ofNat_toNat]

theorem septetOf_char {s : Nat} (h : s < 128) : septetOf (septetChar s) = .ok s := by
  have hchar : (septetChar s).toNat = (s + 1) % 128 :=
    toNat_ofNat_of_lt (by omega)
  rw [septetOf, hchar, if_pos (by omega), charSeptet, hchar]
  congr 1
  omega

theorem mapM_map_ok {α β : Type} {f : α → Except Fault β} {g : β → α} {bs : List β}
    (hf : ∀ b ∈ bs, f (g b) = .ok b) : (bs.map g).mapM f = .ok bs := by
  rw [mapM_ok_iff, List.forall₂_map_left_iff]
  exact List.forall₂_same.2 hf

/-- Reading the first of some written items gives the first items. -/
theorem mapM_front {α β : Type} {f : α → Except Fault β} {g : β → α} {l : List α} {bs as : List β}
    (hf : ∀ b ∈ bs, f (g b) = .ok b) (hpre : l <+: bs.map g) (h : l.mapM f = .ok as) :
    as <+: bs := by
  obtain ⟨cs, hcs, rfl⟩ := List.prefix_map_iff.1 hpre
  rw [mapM_map_ok fun b hb => hf b (hcs.subset hb)] at h
  cases h
  exact hcs

/-! Chunks. -/

theorem flatMap_chunks (buffer : List Char) (length : Nat) (cs : List Char) :
    (chunks buffer length cs).flatMap (·.toList) = buffer.reverse ++ cs := by
  induction cs generalizing buffer length with
  | nil =>
    rw [chunks]
    split
    · next h => simp [List.isEmpty_iff.1 h]
    · simp
  | cons c cs ih =>
    rw [chunks]
    split
    · simp [ih]
    · simp [ih]

/-- The first string starts with the first character. -/
theorem head?_chunks (buffer : List Char) (length : Nat) (cs : List Char) :
    (chunks buffer length cs).head?.bind (·.toList.head?) = (buffer.reverse ++ cs).head? := by
  induction cs generalizing buffer length with
  | nil =>
    rw [chunks]
    split
    · next h => simp [List.isEmpty_iff.1 h]
    · simp
  | cons c cs ih =>
    rw [chunks]
    split
    · simp [List.head?_append]
    · simp [ih]

theorem flatMap_encode (p : Packing) (payload : List UInt8) :
    (p.encode payload).flatMap (·.toList) = p.chars payload := flatMap_chunks [] 0 _

/-- The packing can be told from the strings, unless an unmarked septet looks like the marker of
the bytes. -/
theorem ofChunks_encode {p : Packing} {payload : List UInt8}
    (h : p = .septets false → (p.chars payload).head? ≠ some byteMarker) :
    ofChunks (p.encode payload) = p := by
  unfold ofChunks encode
  rw [head?_chunks, List.reverse_nil, List.nil_append]
  cases p with
  | bytes => simp [chars]
  | septets marked =>
    cases marked with
    | true =>
      have hne : septetMarker ≠ byteMarker := by decide
      simp [chars, hne]
    | false =>
      cases hc : (chars (.septets false) payload).head? with
      | none => rfl
      | some c =>
        have hbyte : c ≠ byteMarker := fun hb => h rfl (hb ▸ hc)
        have hmem : c ∈ (toSeptets 0 0 payload).map septetChar := List.mem_of_mem_head? hc
        obtain ⟨s, -, rfl⟩ := List.mem_map.1 hmem
        have hmarker : septetChar s ≠ septetMarker := by
          intro heq
          have hnat := congrArg Char.toNat heq
          rw [septetChar, toNat_ofNat_of_lt (by omega)] at hnat
          have hlarge : septetMarker.toNat = 65535 := rfl
          omega
        simp [hbyte, hmarker]

theorem decode_ok_iff {strings : List String} {bytes : List UInt8} {p : Packing} :
    decode strings = .ok (bytes, p) ↔ ofChunks strings = p ∧
      match p with
      | .bytes => ((strings.flatMap (·.toList)).drop 1).mapM byteOf = .ok bytes
      | .septets marked => ∃ septets,
        (if marked then (strings.flatMap (·.toList)).drop 1
          else strings.flatMap (·.toList)).mapM septetOf = .ok septets ∧
        ofSeptets 0 0 septets = bytes := by
  unfold decode
  cases hp : ofChunks strings with
  | bytes =>
    rw [bind_ok_iff]
    constructor
    · rintro ⟨bs, hbs, h⟩
      cases h
      exact ⟨rfl, hbs⟩
    · rintro ⟨rfl, h⟩
      exact ⟨bytes, h, rfl⟩
  | septets marked =>
    rw [bind_ok_iff]
    constructor
    · rintro ⟨septets, hseptets, h⟩
      cases h
      exact ⟨rfl, septets, hseptets, rfl⟩
    · rintro ⟨rfl, septets, hseptets, rfl⟩
      exact ⟨septets, hseptets, rfl⟩

/-- Unpacking the first of the strings that a payload is packed into. -/
theorem decode_prefix {strings : List String} {bytes payload : List UInt8} {p : Packing}
    (h : decode strings = .ok (bytes, p)) (hpre : strings <+: p.encode payload) :
    bytes <+: payload := by
  have hchars : strings.flatMap (·.toList) <+: p.chars payload := by
    obtain ⟨more, hmore⟩ := hpre
    rw [← flatMap_encode, ← hmore, List.flatMap_append]
    exact List.prefix_append ..
  have hdrop : (strings.flatMap (·.toList)).drop 1 <+: (p.chars payload).drop 1 := by
    obtain ⟨more, hmore⟩ := hchars
    rw [← hmore]
    cases strings.flatMap (·.toList) with
    | nil => exact List.nil_prefix
    | cons c cs => exact List.prefix_append ..
  obtain ⟨-, h⟩ := decode_ok_iff.1 h
  cases p with
  | bytes => exact mapM_front (fun b _ => byteOf_char b) hdrop h
  | septets marked =>
    obtain ⟨septets, hseptets, rfl⟩ := h
    rw [← ofSeptets_toSeptets payload]
    have hread (s : Nat) (hs : s ∈ toSeptets 0 0 payload) : septetOf (septetChar s) = .ok s :=
      septetOf_char (toSeptets_lt s hs)
    cases marked with
    | true => exact ofSeptets_prefix (mapM_front hread hdrop hseptets)
    | false => exact ofSeptets_prefix (mapM_front hread hchars hseptets)

/-- Strings with the characters of a payload unpack to it, wherever they were cut. -/
theorem decode_of_chars {strings : List String} {payload : List UInt8} {p : Packing}
    (hchars : strings.flatMap (·.toList) = p.chars payload) (h : ofChunks strings = p) :
    decode strings = .ok (payload, p) := by
  rw [decode_ok_iff, hchars]
  refine ⟨h, ?_⟩
  cases p with
  | bytes => exact mapM_map_ok fun b _ => byteOf_char b
  | septets marked =>
    refine ⟨toSeptets 0 0 payload, ?_, ofSeptets_toSeptets payload⟩
    have hread (s : Nat) (hs : s ∈ toSeptets 0 0 payload) : septetOf (septetChar s) = .ok s :=
      septetOf_char (toSeptets_lt s hs)
    cases marked with
    | true => exact mapM_map_ok hread
    | false => exact mapM_map_ok hread

/-- Packing is undone unless the first septet, unmarked, looks like the marker of the bytes. -/
theorem decode_encode {p : Packing} {payload : List UInt8}
    (h : ofChunks (p.encode payload) = p) : decode (p.encode payload) = .ok (payload, p) :=
  decode_of_chars (flatMap_encode p payload) h

/-- A string is closed behind the character that fills it. -/
theorem chunks_filled {buffer : List Char} {length : Nat} {cs : List Char} {c : Char}
    (hopen : length + (cs.map ModifiedUtf8.charLength).sum < chunkLimit)
    (hfull : chunkLimit ≤
      length + (cs.map ModifiedUtf8.charLength).sum + ModifiedUtf8.charLength c)
    (rest : List Char) :
    chunks buffer length (cs ++ c :: rest) =
      String.ofList (buffer.reverse ++ cs ++ [c]) :: chunks [] 0 rest := by
  induction cs generalizing buffer length with
  | nil =>
    rw [List.map_nil, List.sum_nil, Nat.add_zero] at hfull
    rw [List.nil_append, chunks, if_pos hfull, List.append_nil, List.reverse_cons]
  | cons d cs ih =>
    rw [List.map_cons, List.sum_cons] at hopen hfull
    rw [List.cons_append, chunks, if_neg (by omega), ih (by omega) (by omega)]
    simp

/-! Lengths. -/

theorem encodedLength_ofList (cs : List Char) :
    ModifiedUtf8.encodedLength (String.ofList cs) =
      cs.foldr (fun c n => ModifiedUtf8.charLength c + n) 0 := by
  rw [ModifiedUtf8.encodedLength, String.toList_ofList]

theorem foldr_charLength (cs : List Char) :
    cs.foldr (fun c n => ModifiedUtf8.charLength c + n) 0 =
      (cs.map ModifiedUtf8.charLength).sum := by
  induction cs with
  | nil => rfl
  | cons c cs ih => rw [List.foldr_cons, ih, List.map_cons, List.sum_cons]

theorem foldr_charLength_reverse (cs : List Char) :
    cs.reverse.foldr (fun c n => ModifiedUtf8.charLength c + n) 0 =
      cs.foldr (fun c n => ModifiedUtf8.charLength c + n) 0 := by
  rw [foldr_charLength, foldr_charLength, List.map_reverse, List.sum_reverse]

theorem chunks_fit {buffer : List Char} {length : Nat} {cs : List Char}
    (hlength : buffer.foldr (fun c n => ModifiedUtf8.charLength c + n) 0 = length)
    (hopen : length < chunkLimit) (hcs : ∀ c ∈ cs, ModifiedUtf8.charLength c ≤ 2) :
    ∀ s ∈ chunks buffer length cs, ModifiedUtf8.encodedLength s < 256 ^ 2 := by
  have hlimit : chunkLimit = 65534 := rfl
  induction cs generalizing buffer length with
  | nil =>
    rw [chunks]
    split
    · simp
    · intro s hs
      rw [List.mem_singleton.1 hs, encodedLength_ofList, foldr_charLength_reverse, hlength]
      omega
  | cons c cs ih =>
    have hc := hcs c (List.mem_cons_self ..)
    have hcs' : ∀ c ∈ cs, ModifiedUtf8.charLength c ≤ 2 :=
      fun c hc => hcs c (List.mem_cons_of_mem _ hc)
    have hnext : (c :: buffer).foldr (fun c n => ModifiedUtf8.charLength c + n) 0 =
        length + ModifiedUtf8.charLength c := by
      rw [List.foldr_cons, hlength, Nat.add_comm]
    rw [chunks]
    split
    · intro s hs
      obtain rfl | hs := List.mem_cons.1 hs
      · rw [encodedLength_ofList, foldr_charLength_reverse, hnext]
        omega
      · exact ih rfl (by decide) hcs' s hs
    · next hlt => exact ih hnext (by omega) hcs'

theorem charLength_ofNat {n : Nat} (h : n < 256) : ModifiedUtf8.charLength (Char.ofNat n) ≤ 2 := by
  have hn := toNat_ofNat_of_lt h
  have hunit : (UInt16.ofNat n).toNat = n := by
    rw [UInt16.toNat_ofNat', Nat.mod_eq_of_lt (by omega)]
  unfold ModifiedUtf8.charLength Utf16.ofChar
  rw [hn, if_pos (by omega)]
  simp only [List.foldr_cons, List.foldr_nil, ModifiedUtf8.unitLength, hunit]
  split
  · omega
  · rw [if_pos (by omega)]

/-- Every string that a payload is packed into fits a constant. -/
theorem encode_fits (p : Packing) (payload : List UInt8) :
    ∀ s ∈ p.encode payload, ModifiedUtf8.encodedLength s < 256 ^ 2 := by
  have hseptets : ∀ c ∈ (toSeptets 0 0 payload).map septetChar, ModifiedUtf8.charLength c ≤ 2 := by
    intro c hc
    obtain ⟨s, -, rfl⟩ := List.mem_map.1 hc
    exact charLength_ofNat (by omega)
  cases p with
  | bytes =>
    refine chunks_fit rfl (by decide) fun c hc => ?_
    obtain rfl | hc := List.mem_cons.1 hc
    · decide
    · obtain ⟨b, -, rfl⟩ := List.mem_map.1 hc
      exact charLength_ofNat b.toNat_lt
  | septets marked =>
    cases marked with
    | false => exact chunks_fit rfl (by decide) hseptets
    | true =>
      have hopen : ¬chunkLimit ≤ 0 + ModifiedUtf8.charLength septetMarker := by decide
      show ∀ s ∈ chunks [] 0 (septetMarker :: _), _
      rw [chunks, if_neg hopen]
      exact chunks_fit (by decide) (by decide) hseptets

theorem length_toSeptets_le (acc bits : Nat) (bytes : List UInt8) :
    (toSeptets acc bits bytes).length ≤ 2 * bytes.length + 1 := by
  induction bytes generalizing acc bits with
  | nil =>
    rw [toSeptets]
    split <;> simp
  | cons b bytes ih =>
    rw [toSeptets]
    split
    · have := ih ((acc + b.toNat <<< bits) / 128 / 128) 0
      simp only [List.length_cons]
      omega
    · have := ih ((acc + b.toNat <<< bits) / 128) (bits + 1)
      simp only [List.length_cons]
      omega

theorem length_chars_le (p : Packing) (payload : List UInt8) :
    (p.chars payload).length ≤ 2 * payload.length + 2 := by
  cases p with
  | bytes =>
    simp only [chars, List.length_cons, List.length_map]
    omega
  | septets marked =>
    have := length_toSeptets_le 0 0 payload
    cases marked <;> simp [chars] <;> omega

/-- A string that is closed has many characters. -/
theorem length_chunks_le {buffer : List Char} {length : Nat} {cs : List Char}
    (hlength : length ≤ 3 * buffer.length)
    (hcs : ∀ c ∈ cs, ModifiedUtf8.charLength c ≤ 3) :
    (chunks buffer length cs).length * 21844 ≤ buffer.length + cs.length + 21844 := by
  have hlimit : chunkLimit = 65534 := rfl
  induction cs generalizing buffer length with
  | nil =>
    rw [chunks]
    split <;> simp
  | cons c cs ih =>
    have hc := hcs c (List.mem_cons_self ..)
    have hcs' : ∀ c ∈ cs, ModifiedUtf8.charLength c ≤ 3 :=
      fun c hc => hcs c (List.mem_cons_of_mem _ hc)
    rw [chunks]
    split
    case isTrue hfull =>
      have hrest := ih (show 0 ≤ 3 * ([] : List Char).length from Nat.le_refl 0) hcs'
      rw [List.length_nil, Nat.zero_add] at hrest
      rw [hlimit] at hfull
      rw [List.length_cons, List.length_cons, Nat.succ_mul]
      refine Nat.add_le_add_right ?_ 21844
      generalize (chunks [] 0 cs).length = count at hrest ⊢
      omega
    case isFalse =>
      have hnext : length + ModifiedUtf8.charLength c ≤ 3 * (c :: buffer).length := by
        rw [List.length_cons]
        omega
      have hrest := ih hnext hcs'
      simp only [List.length_cons] at hrest ⊢
      omega

/-- There are far fewer strings than bytes. -/
theorem length_encode_le (p : Packing) (payload : List UInt8) :
    (p.encode payload).length * 21844 ≤ 2 * payload.length + 2 + 21844 := by
  have hchars := length_chars_le p payload
  have hlengths : ∀ c ∈ p.chars payload, ModifiedUtf8.charLength c ≤ 3 := by
    intro c hc
    have hseptets : c ∈ (toSeptets 0 0 payload).map septetChar →
        ModifiedUtf8.charLength c ≤ 3 := by
      intro hc
      obtain ⟨s, -, rfl⟩ := List.mem_map.1 hc
      exact Nat.le_trans (charLength_ofNat (by omega)) (by decide)
    cases p with
    | bytes =>
      obtain rfl | hc := List.mem_cons.1 hc
      · decide
      · obtain ⟨b, -, rfl⟩ := List.mem_map.1 hc
        exact Nat.le_trans (charLength_ofNat b.toNat_lt) (by decide)
    | septets marked =>
      obtain hc | hc := List.mem_append.1 hc
      · cases marked with
        | false => cases hc
        | true =>
          obtain rfl := List.mem_singleton.1 hc
          decide
      · exact hseptets hc
  have hchunks := length_chunks_le (show 0 ≤ 3 * ([] : List Char).length from Nat.le_refl 0) hlengths
  rw [List.length_nil] at hchunks
  unfold encode
  omega

end JarPruning.Metadata.Packing
