import JarPruning.Proofs.Metadata.Payload

/-!
Payloads that are packed as they were read. Reading gives them back, unless the first character is
the marker of the bytes and was not seen as one, because the first string was empty.
-/
namespace JarPruning.Metadata

/-! The first byte of a payload is the first septet, but for its highest bit. -/

namespace Varint

theorem groups_head {limit n : Nat} {bytes rest : List UInt8}
    (h : groups (limit + 1) bytes = .ok (n, rest)) :
    ∃ b tail, bytes = b :: tail ∧ n % 128 = b.toNat % 128 := by
  cases bytes with
  | nil => cases h
  | cons b bytes =>
    refine ⟨b, bytes, rfl, ?_⟩
    rw [groups] at h
    split at h
    · cases h
      rfl
    · obtain ⟨⟨m, r⟩, -, h⟩ := map_ok_iff.1 h
      cases h
      omega

theorem encode_head (n : Nat) : ∃ b tail, encode n = b :: tail ∧ b.toNat % 128 = n % 128 := by
  rw [encode]
  split
  · refine ⟨_, _, rfl, ?_⟩
    rw [UInt8.toNat_ofNat']
    omega
  · refine ⟨_, _, rfl, ?_⟩
    rw [UInt8.toNat_ofNat']
    omega

end Varint

theorem takeDelimited_head {bytes block rest : List UInt8}
    (h : takeDelimited bytes = .ok (block, rest)) :
    ∃ b tail, bytes = b :: tail ∧ b.toNat % 128 = block.length % 128 := by
  obtain ⟨⟨v, mid⟩, hv, hblock⟩ := bind_ok_iff.1 h
  obtain ⟨⟨n, mid'⟩, hn, hv⟩ := map_ok_iff.1 hv
  cases hv
  obtain ⟨b, tail, rfl, hb⟩ := Varint.groups_head hn
  refine ⟨b, tail, rfl, ?_⟩
  rw [(of_takeBlock hblock).2, UInt64.toNat_ofNat']
  omega

theorem delimited_head (block : List UInt8) :
    ∃ b tail, delimited block = b :: tail ∧ b.toNat % 128 = block.length % 128 := by
  obtain ⟨b, tail, hb, hmod⟩ := Varint.encode_head block.length
  exact ⟨b, tail ++ block, by rw [delimited, hb, List.cons_append], hmod⟩

namespace Packing

theorem toSeptets_head (b : UInt8) (bytes : List UInt8) :
    ∃ tail, toSeptets 0 0 (b :: bytes) = b.toNat % 128 :: tail := by
  have hzero : 0 + b.toNat * 2 ^ 0 = b.toNat := by omega
  rw [toSeptets_cons (by decide), hzero]
  exact ⟨_, rfl⟩

theorem ofSeptets_head {septets : List Nat} {b : UInt8} {bytes : List UInt8}
    (h : ofSeptets 0 0 septets = b :: bytes) :
    ∃ s tail, septets = s :: tail ∧ b.toNat % 128 = s % 128 := by
  cases septets with
  | nil => cases h
  | cons s septets =>
    refine ⟨s, septets, rfl, ?_⟩
    rw [ofSeptets, if_pos rfl] at h
    cases septets with
    | nil => cases h
    | cons s' septets =>
      rw [ofSeptets_cons (by decide)] at h
      obtain ⟨rfl, -⟩ := List.cons.inj h
      rw [UInt8.toNat_ofNat', Nat.shiftLeft_eq]
      omega

/-- The marker of the bytes is the first character of the first string if it is the first
character at all. -/
def Told (strings : List String) : Prop :=
  ofChunks strings = .septets false → (strings.flatMap (·.toList)).head? ≠ some byteMarker

instance (strings : List String) : Decidable (Told strings) :=
  inferInstanceAs (Decidable (_ → _))

/-- Strings that were packed begin with a string that is not empty. -/
theorem told_encode (p : Packing) (payload : List UInt8) : Told (p.encode payload) := by
  intro hunmarked hhead
  rw [flatMap_encode] at hhead
  have hfirst : (p.encode payload).head?.bind (·.toList.head?) = some byteMarker := by
    rw [encode, head?_chunks]
    exact hhead
  rw [ofChunks, hfirst] at hunmarked
  cases hunmarked

theorem septetChar_eq_byteMarker_iff (s : Nat) :
    septetChar s = byteMarker ↔ s % 128 = 127 := by
  constructor
  · intro h
    have hnat := congrArg Char.toNat h
    rw [septetChar, toNat_ofNat_of_lt (by omega)] at hnat
    have hzero : byteMarker.toNat = 0 := rfl
    omega
  · intro h
    have hzero : (s + 1) % 128 = 0 := by omega
    rw [septetChar, hzero]
    rfl

theorem of_septetOf {c : Char} {s : Nat} (h : septetOf c = .ok s) : c = septetChar s ∧ s < 128 := by
  unfold septetOf at h
  split at h
  · next hc =>
    cases h
    unfold charSeptet septetChar
    have hmod : ((c.toNat + 127) % 128 + 1) % 128 = c.toNat := by omega
    rw [hmod, Char.ofNat_toNat]
    exact ⟨rfl, by omega⟩
  · cases h

/-- Septets that were read without a marker begin with the marker of the bytes if all bits of the
first are set. -/
theorem head?_eq_byteMarker_iff {strings : List String} {bytes : List UInt8}
    (h : decode strings = .ok (bytes, .septets false)) {b : UInt8} {tail : List UInt8}
    (hb : bytes = b :: tail) :
    (strings.flatMap (·.toList)).head? = some byteMarker ↔ b.toNat % 128 = 127 := by
  obtain ⟨-, septets, hseptets, hbytes⟩ := decode_ok_iff.1 h
  obtain ⟨s, rest, rfl, hs⟩ := ofSeptets_head (hbytes.trans hb)
  have hall := mapM_ok_iff.1 hseptets
  simp only [Bool.false_eq_true, if_false] at hall
  obtain ⟨c, cs, hc, -, hcs⟩ := List.forall₂_cons_right_iff.1 hall
  rw [hcs, List.head?_cons, Option.some.injEq, (of_septetOf hc).1, septetChar_eq_byteMarker_iff, hs]

theorem head_of_told {strings : List String} {bytes : List UInt8}
    (h : decode strings = .ok (bytes, .septets false)) (htold : Told strings) {b : UInt8}
    {tail : List UInt8} (hb : bytes = b :: tail) : b.toNat % 128 ≠ 127 :=
  fun hlast => htold (decode_ok_iff.1 h).1 ((head?_eq_byteMarker_iff h hb).2 hlast)

end Packing

namespace Payload

variable {kind : Kind} {d1 d2 : List String} {p : Payload} {container : Message}

/-- A payload that is packed without a marker does not begin like bytes. -/
theorem head_chars_ne (h : decode kind d1 d2 = .ok p) (htold : Packing.Told d1)
    (hunmarked : p.packing = .septets false) :
    (p.packing.chars (delimited p.types ++ container.bytes)).head? ≠ some Packing.byteMarker := by
  obtain ⟨bytes, rest, table, hbytes, htypes, -⟩ := decode_ok_iff.1 h
  obtain ⟨b, tail, hb, hmod⟩ := takeDelimited_head htypes
  obtain ⟨b', tail', hb', hmod'⟩ := delimited_head p.types
  obtain ⟨septets, hseptets⟩ := Packing.toSeptets_head b' (tail' ++ container.bytes)
  have hne := Packing.head_of_told (hunmarked ▸ hbytes) htold hb
  rw [hunmarked, hb', List.cons_append]
  simp only [Packing.chars, hseptets]
  intro heq
  have hmarker := (Packing.septetChar_eq_byteMarker_iff _).1 (Option.some.inj heq)
  omega

/-- The packing of a payload shows in the strings that it is packed into. -/
theorem ofChunks_encode (h : decode kind d1 d2 = .ok p) (htold : Packing.Told d1) :
    Packing.ofChunks ({ p with container } : Payload).encode = p.packing :=
  Packing.ofChunks_encode (head_chars_ne (p := p) h htold)

/-- A payload is read from strings that have its characters and tell how it is packed. -/
theorem decode_of_chars {table : Message}
    (hchars : d1.flatMap (·.toList) =
      p.packing.chars (delimited p.types ++ p.container.bytes))
    (hpacking : Packing.ofChunks d1 = p.packing) (htypes : p.types.length < UInt64.size)
    (htable : Message.ofBytes p.types = .ok table)
    (hstrings : StringTable.ofMessage table d2 = .ok p.strings) (hfits : p.container.Fits) :
    decode p.kind d1 d2 = .ok p :=
  decode_ok_iff.2 ⟨_, p.container.bytes, table, Packing.decode_of_chars hchars hpacking,
    takeDelimited_reads htypes _, htable, hstrings, Message.ofBytes_bytes hfits, rfl⟩

/-- A payload is read back from the strings that it is packed into, whatever its container. -/
theorem decode_encode (h : decode kind d1 d2 = .ok p) (htold : Packing.Told d1)
    (hfits : container.Fits) :
    decode kind ({ p with container } : Payload).encode d2 = .ok { p with container } := by
  have hpacking : Packing.ofChunks ({ p with container } : Payload).encode = p.packing :=
    ofChunks_encode h htold
  obtain ⟨bytes, rest, table, -, htypes, htable, hstrings, -, rfl⟩ := decode_ok_iff.1 h
  exact decode_of_chars (Packing.flatMap_encode _ _) hpacking (length_of_takeDelimited htypes)
    htable hstrings hfits

/-- A payload that was not told from its first string begins, packed anew, like bytes. -/
theorem ofChunks_encode_untold (h : decode kind d1 d2 = .ok p) (huntold : ¬ Packing.Told d1) :
    p.packing = .septets false ∧
      Packing.ofChunks ({ p with container } : Payload).encode = .bytes := by
  obtain ⟨bytes, rest, table, hbytes, htypes, -⟩ := decode_ok_iff.1 h
  unfold Packing.Told at huntold
  push Not at huntold
  obtain ⟨hchunks, hmarker⟩ := huntold
  have hpacking : p.packing = .septets false := (Packing.decode_ok_iff.1 hbytes).1.symm.trans hchunks
  obtain ⟨b, tail, hb, hmod⟩ := takeDelimited_head htypes
  obtain ⟨b', tail', hb', hmod'⟩ := delimited_head p.types
  -- The first group is the one that is written as the marker, before and after.
  have hlast : b.toNat % 128 = 127 :=
    (Packing.head?_eq_byteMarker_iff (hpacking ▸ hbytes) hb).1 hmarker
  obtain ⟨septets, hseptets⟩ := Packing.toSeptets_head b' (tail' ++ container.bytes)
  refine ⟨hpacking, ?_⟩
  unfold encode Packing.ofChunks Packing.encode
  rw [Packing.head?_chunks, hpacking, hb', List.cons_append]
  have hmarks : Packing.septetChar (b'.toNat % 128) = Packing.byteMarker :=
    (Packing.septetChar_eq_byteMarker_iff _).2 (by omega)
  simp [Packing.chars, hseptets, hmarks]

/-- Whether the payload of `chunks` is packed like `p`, has its strings and has this container. -/
def Edited (kind : Kind) (chunks d2 : List String) (p : Payload) (container : Message) : Prop :=
  ∃ q, decode kind chunks d2 = .ok q ∧ q.packing = p.packing ∧
    (∀ i, q.strings.get i = p.strings.get i) ∧ q.container = container

/-- An edit of the container is read back, and nothing else has changed, if and only if the strings
that were read told how they were packed. -/
theorem edited_iff_told (h : decode kind d1 d2 = .ok p) (hfits : container.Fits) :
    Edited kind ({ p with container } : Payload).encode d2 p container ↔ Packing.Told d1 := by
  constructor
  · rintro ⟨q, hq, hpacking, -⟩
    by_contra huntold
    have hmarked : p.packing = .septets false ∧
        Packing.ofChunks ({ p with container } : Payload).encode = .bytes :=
      ofChunks_encode_untold h huntold
    obtain ⟨bytes, rest, table, hunpacked, -⟩ := decode_ok_iff.1 hq
    have hread := (Packing.decode_ok_iff.1 hunpacked).1
    rw [hmarked.2, hpacking, hmarked.1] at hread
    cases hread
  · intro htold
    exact ⟨_, decode_encode h htold hfits, rfl, fun _ => rfl, rfl⟩

/-- A payload without types and with one field. -/
def flaggedStrings : List String := Packing.bytes.encode [0, 24, 6]

/-- Types of 127 bytes and no container, in groups of seven bits. The first group is written as the
marker of the bytes. -/
def groupedText : String :=
  String.ofList (([0, 85, 117, 4] ++ List.replicate 143 1).map Char.ofNat)

/-- A payload with one field, to which a declaration is added. -/
theorem edited_flagged : ∃ p, decode .classFile flaggedStrings ["A"] = .ok p ∧
    Edited .classFile
      ({ p with container := ⟨[⟨3, .varint 6⟩, ⟨9, .block [8, 0]⟩]⟩ } : Payload).encode ["A"] p
      ⟨[⟨3, .varint 6⟩, ⟨9, .block [8, 0]⟩]⟩ := by
  have hdecode : decode .classFile flaggedStrings ["A"] =
      .ok ⟨.classFile, ⟨[], ["A"]⟩, ⟨[⟨3, .varint 6⟩]⟩, [], .bytes⟩ := by decide +kernel
  have hfits : Message.Fits ⟨[⟨3, .varint 6⟩, ⟨9, .block [8, 0]⟩]⟩ := by
    intro f hf
    simp only [List.mem_cons, List.not_mem_nil, or_false] at hf
    obtain rfl | rfl := hf
    · exact ⟨by decide, trivial⟩
    · exact ⟨by decide, show 2 < UInt64.size by decide⟩
  exact ⟨_, hdecode, (edited_iff_told hdecode hfits).2 (Packing.told_encode .bytes _)⟩

/-- What is packed anew is read byte for byte, as fields that no message has. -/
theorem unreadable_if_untold : ∃ p, decode .classFile ["", groupedText] [] = .ok p ∧
    Message.Fits ⟨[]⟩ ∧
    ¬ Edited .classFile ({ p with container := ⟨[]⟩ } : Payload).encode [] p ⟨[]⟩ := by
  have hdecode : decode .classFile ["", groupedText] [] =
      .ok ⟨.classFile, ⟨[], []⟩, ⟨[]⟩, [42, 125] ++ List.replicate 125 0, .septets false⟩ := by
    decide +kernel
  have hagain : decode .classFile
      (⟨.classFile, ⟨[], []⟩, ⟨[]⟩, [42, 125] ++ List.replicate 125 0, .septets false⟩ :
        Payload).encode [] = .error (.fieldKey 1) := by
    decide +kernel
  refine ⟨_, hdecode, nofun, ?_⟩
  rintro ⟨q, hq, -⟩
  cases hagain.symm.trans hq

end Payload

end JarPruning.Metadata
