import JarPruning.Proofs.Metadata.Wire

/-!
How wire messages stand in bytes. A varint may be longer than it has to be, and of its tenth byte
some bits do not count; everything else is spelled in one way. So what was read is written as it
stood if and only if each of its varints was spelled as it is written.
-/
namespace JarPruning.Metadata

/-- The step reads what is spelled, and nothing else. -/
def Parse.Spells {α σ : Type} (step : Parse α) (bytes : σ → List UInt8) (value : σ → α) : Prop :=
  ∀ ⦃input a rest⦄, step input = .ok (a, rest) ↔ ∃ s, bytes s ++ rest = input ∧ value s = a

theorem Parse.Spells.all_ok_iff {α σ : Type} {step : Parse α} {bytes : σ → List UInt8}
    {value : σ → α} (hspells : step.Spells bytes value) {h : step.Shortens} {input : List UInt8}
    {as : List α} :
    all step h input = .ok as ↔ ∃ ss : List σ, ss.flatMap bytes = input ∧ ss.map value = as := by
  constructor
  · intro hall
    fun_induction all step h input generalizing as with
    | case1 =>
      cases hall
      exact ⟨[], rfl, rfl⟩
    | case2 b input e he => cases hall
    | case3 b input a rest hstep hshort ih =>
      obtain ⟨as', has', rfl⟩ := map_ok_iff.1 hall
      obtain ⟨s, hs, rfl⟩ := hspells.1 hstep
      obtain ⟨ss, rfl, rfl⟩ := ih has'
      exact ⟨s :: ss, by rw [List.flatMap_cons, hs], rfl⟩
  · rintro ⟨ss, rfl, rfl⟩
    induction ss with
    | nil => exact all_nil
    | cons s ss ih =>
      rw [List.flatMap_cons, all_ok (hspells.2 ⟨s, rfl, rfl⟩), ih]
      rfl

/-- Two parts that are not longer than two others make up the same only if each is the same. -/
theorem append_eq_append_iff_of_length_le {α : Type} {a b c d : List α}
    (hleft : a.length ≤ b.length) (hright : c.length ≤ d.length) :
    a ++ c = b ++ d ↔ a = b ∧ c = d := by
  constructor
  · intro h
    have hlength := congrArg List.length h
    rw [List.length_append, List.length_append] at hlength
    exact List.append_inj h (by omega)
  · rintro ⟨rfl, rfl⟩
    rfl

/-! Varints. -/

namespace Varint

/-- The bytes of a varint: all but the last have the highest bit set. -/
structure Spelling where
  front : List UInt8
  last : UInt8
  continued : ∀ b ∈ front, 128 ≤ b.toNat
  ended : last.toNat < 128
  short : front.length < 10

namespace Spelling

def bytes (s : Spelling) : List UInt8 := s.front ++ [s.last]

/-- The bytes without their highest bits are digits to the base 128, lowest first. Of the number 64
bits count. -/
def value (s : Spelling) : UInt64 :=
  UInt64.ofNat (s.bytes.foldr (fun b n => b.toNat % 128 + 128 * n) 0)

/-- The varint is spelled as it is written. -/
def Plain (s : Spelling) : Prop := s.bytes = encode s.value.toNat

instance (s : Spelling) : Decidable s.Plain := inferInstanceAs (Decidable (_ = _))

end Spelling

theorem groups_ok_iff {limit n : Nat} {input rest : List UInt8} :
    groups limit input = .ok (n, rest) ↔
      ∃ front last, front ++ last :: rest = input ∧ (∀ b ∈ front, 128 ≤ b.toNat) ∧
        last.toNat < 128 ∧ front.length < limit ∧
        (front ++ [last]).foldr (fun b n => b.toNat % 128 + 128 * n) 0 = n := by
  constructor
  · intro h
    fun_induction groups limit input generalizing n rest with
    | case1 => cases h
    | case2 => cases h
    | case3 limit b input hb =>
      cases h
      exact ⟨[], b, rfl, List.forall_mem_nil _, hb, Nat.succ_pos _, by simp [Nat.mod_eq_of_lt hb]⟩
    | case4 limit b input hb ih =>
      obtain ⟨⟨m, r⟩, hm, h⟩ := map_ok_iff.1 h
      cases h
      obtain ⟨front, last, rfl, hcontinued, hended, hshort, rfl⟩ := ih hm
      refine ⟨b :: front, last, rfl, ?_, hended, Nat.succ_lt_succ hshort, rfl⟩
      exact List.forall_mem_cons.2 ⟨Nat.le_of_not_lt hb, hcontinued⟩
  · rintro ⟨front, last, rfl, hcontinued, hended, hshort, rfl⟩
    induction front generalizing limit with
    | nil =>
      obtain ⟨limit, rfl⟩ := Nat.exists_eq_succ_of_ne_zero (Nat.ne_of_gt hshort)
      rw [List.nil_append, groups, if_pos hended]
      simp [Nat.mod_eq_of_lt hended]
    | cons b front ih =>
      obtain ⟨hb, hcontinued⟩ := List.forall_mem_cons.1 hcontinued
      obtain ⟨limit, rfl⟩ := Nat.exists_eq_succ_of_ne_zero (Nat.ne_of_gt (Nat.zero_lt_of_lt hshort))
      rw [List.cons_append, groups, if_neg (Nat.not_lt.2 hb),
        ih hcontinued (Nat.lt_of_succ_lt_succ hshort)]
      rfl

theorem decode_spells : decode.Spells Spelling.bytes Spelling.value := by
  intro input v rest
  unfold decode
  rw [map_ok_iff]
  constructor
  · rintro ⟨⟨n, r⟩, hn, h⟩
    cases h
    obtain ⟨front, last, rfl, hcontinued, hended, hshort, rfl⟩ := groups_ok_iff.1 hn
    exact ⟨⟨front, last, hcontinued, hended, hshort⟩, by simp [Spelling.bytes], rfl⟩
  · rintro ⟨s, rfl, rfl⟩
    refine ⟨(_, rest), groups_ok_iff.2 ⟨s.front, s.last, ?_, s.continued, s.ended, s.short, rfl⟩, rfl⟩
    simp [Spelling.bytes]

theorem Spelling.length_encode_le (s : Spelling) : (encode s.value.toNat).length ≤ s.bytes.length :=
  length_encode_le_of_decode (decode_spells.2 ⟨s, List.append_nil _, rfl⟩)

end Varint

/-! Fields. -/

namespace WireValue

/-- The bytes of a value. Those of a number of fixed width follow from the number. -/
inductive Spelling where
  | varint (spelling : Varint.Spelling)
  | fixed64 (value : UInt64)
  | block (length : Varint.Spelling) (bytes : List UInt8)
    (told : length.value.toNat = bytes.length)
  | fixed32 (value : UInt32)

namespace Spelling

def value : Spelling → WireValue
  | .varint s => .varint s.value
  | .fixed64 value => .fixed64 value
  | .block _ bytes _ => .block bytes
  | .fixed32 value => .fixed32 value

def bytes : Spelling → List UInt8
  | .varint s => s.bytes
  | .fixed64 value => (WireValue.fixed64 value).bytes
  | .block length bytes _ => length.bytes ++ bytes
  | .fixed32 value => (WireValue.fixed32 value).bytes

def varints : Spelling → List Varint.Spelling
  | .varint s => [s]
  | .block length _ _ => [length]
  | .fixed64 _ | .fixed32 _ => []

theorem length_value_le (s : Spelling) : s.value.bytes.length ≤ s.bytes.length := by
  cases s with
  | varint s => exact s.length_encode_le
  | block length block told =>
    have hlength := length.length_encode_le
    rw [told] at hlength
    simp only [value, bytes, WireValue.bytes, delimited, List.length_append]
    omega
  | fixed64 number => exact Nat.le_refl _
  | fixed32 number => exact Nat.le_refl _

theorem value_bytes_eq_iff (s : Spelling) :
    s.value.bytes = s.bytes ↔ ∀ v ∈ s.varints, v.Plain := by
  cases s with
  | varint s => simp [value, bytes, varints, WireValue.bytes, Varint.Spelling.Plain, eq_comm]
  | block length block told =>
    simp [value, bytes, varints, WireValue.bytes, Varint.Spelling.Plain, delimited, told, eq_comm]
  | fixed64 number => exact iff_of_true rfl (List.forall_mem_nil _)
  | fixed32 number => exact iff_of_true rfl (List.forall_mem_nil _)

end Spelling

/-- A block of fixed width has the digits of the number that it spells. -/
theorem takeBlock_digits {width : Nat} {input block rest : List UInt8}
    (h : takeBlock width input = .ok (block, rest)) :
    (BigEndian.digits width (littleEndian block)).reverse ++ rest = input ∧
      littleEndian block < 256 ^ width := by
  obtain ⟨rfl, rfl⟩ := of_takeBlock h
  have hdigits := BigEndian.digits_value block.reverse
  have hlt := BigEndian.value_lt block.reverse
  rw [List.length_reverse] at hdigits hlt
  rw [littleEndian, hdigits, List.reverse_reverse]
  exact ⟨rfl, hlt⟩

theorem read_ok_iff {type number : Nat} {input rest : List UInt8} {v : WireValue} :
    WireValue.read type number input = .ok (v, rest) ↔
      ∃ s : Spelling, s.value.wireType = type ∧ s.bytes ++ rest = input ∧ s.value = v := by
  constructor
  · intro h
    unfold WireValue.read at h
    split at h
    · obtain ⟨⟨n, r⟩, hn, h⟩ := map_ok_iff.1 h
      cases h
      obtain ⟨s, rfl, rfl⟩ := Varint.decode_spells.1 hn
      exact ⟨.varint s, rfl, rfl, rfl⟩
    · obtain ⟨⟨block, r⟩, hblock, h⟩ := map_ok_iff.1 h
      cases h
      obtain ⟨hdigits, hlt⟩ := takeBlock_digits hblock
      refine ⟨.fixed64 (UInt64.ofNat (littleEndian block)), rfl, ?_, rfl⟩
      rw [Spelling.bytes, WireValue.bytes, UInt64.toNat_ofNat',
        Nat.mod_eq_of_lt (show littleEndian block < 2 ^ 64 from hlt), hdigits]
    · obtain ⟨⟨block, r⟩, hblock, h⟩ := map_ok_iff.1 h
      cases h
      obtain ⟨⟨n, mid⟩, hn, hblock⟩ := bind_ok_iff.1 hblock
      obtain ⟨s, rfl, rfl⟩ := Varint.decode_spells.1 hn
      obtain ⟨rfl, hlength⟩ := of_takeBlock hblock
      exact ⟨.block s block hlength.symm, rfl, List.append_assoc .., rfl⟩
    · obtain ⟨⟨block, r⟩, hblock, h⟩ := map_ok_iff.1 h
      cases h
      obtain ⟨hdigits, hlt⟩ := takeBlock_digits hblock
      refine ⟨.fixed32 (UInt32.ofNat (littleEndian block)), rfl, ?_, rfl⟩
      rw [Spelling.bytes, WireValue.bytes, UInt32.toNat_ofNat',
        Nat.mod_eq_of_lt (show littleEndian block < 2 ^ 32 from hlt), hdigits]
    · cases h
  · rintro ⟨s, rfl, rfl, rfl⟩
    cases s with
    | varint s => exact map_ok_iff.2 ⟨_, Varint.decode_spells.2 ⟨s, rfl, rfl⟩, rfl⟩
    | fixed64 value => exact read_reads (v := .fixed64 value) trivial number rest
    | block length block told =>
      refine map_ok_iff.2 ⟨(block, rest), bind_ok_iff.2 ⟨(length.value, block ++ rest), ?_, ?_⟩, rfl⟩
      · exact Varint.decode_spells.2 ⟨length, (List.append_assoc ..).symm, rfl⟩
      · show takeBlock length.value.toNat (block ++ rest) = _
        rw [told]
        exact takeBlock_reads block rest
    | fixed32 value => exact read_reads (v := .fixed32 value) trivial number rest

end WireValue

namespace WireField

/-- The bytes of a field. -/
structure Spelling where
  number : UInt32
  key : Varint.Spelling
  value : WireValue.Spelling
  numbered : number ≠ 0
  told : key.value.toNat = number.toNat * 8 + value.value.wireType

namespace Spelling

def field (s : Spelling) : WireField := ⟨s.number, s.value.value⟩

def bytes (s : Spelling) : List UInt8 := s.key.bytes ++ s.value.bytes

def varints (s : Spelling) : List Varint.Spelling := s.key :: s.value.varints

theorem field_bytes (s : Spelling) :
    s.field.bytes = Varint.encode s.key.value.toNat ++ s.value.value.bytes := by
  rw [s.told]
  rfl

theorem length_field_le (s : Spelling) : s.field.bytes.length ≤ s.bytes.length := by
  have hkey := s.key.length_encode_le
  have hvalue := s.value.length_value_le
  rw [field_bytes, bytes, List.length_append, List.length_append]
  omega

theorem field_bytes_eq_iff (s : Spelling) :
    s.field.bytes = s.bytes ↔ ∀ v ∈ s.varints, v.Plain := by
  rw [field_bytes, bytes,
    append_eq_append_iff_of_length_le s.key.length_encode_le s.value.length_value_le,
    s.value.value_bytes_eq_iff, varints, List.forall_mem_cons]
  exact and_congr_left' eq_comm

end Spelling

theorem read_spells : WireField.read.Spells Spelling.bytes Spelling.field := by
  have hsize : UInt32.size = 2 ^ 32 := rfl
  intro input f rest
  rw [read_ok_iff]
  constructor
  · rintro ⟨key, mid, hkey, hnumber, hf, hvalue⟩
    obtain ⟨k, rfl, rfl⟩ := Varint.decode_spells.1 hkey
    obtain ⟨v, htype, rfl, hv⟩ := WireValue.read_ok_iff.1 hvalue
    have hnat : f.number.toNat = k.value.toNat / 8 := by
      rw [hf, UInt32.toNat_ofNat', Nat.mod_eq_of_lt (by omega)]
    have hnumbered : f.number ≠ 0 := by
      intro hzero
      rw [hzero] at hnat
      exact hnumber (.inl hnat.symm)
    exact ⟨⟨f.number, k, v, hnumbered, by omega⟩, List.append_assoc .., congrArg (mk f.number) hv⟩
  · rintro ⟨s, rfl, rfl⟩
    have htype : s.value.value.wireType < 8 := by cases s.value.value <;> simp [WireValue.wireType]
    have hlt := s.number.toNat_lt
    have hpositive : s.number.toNat ≠ 0 := fun hzero => s.numbered (UInt32.toNat_inj.1 hzero)
    have hdiv : s.key.value.toNat / 8 = s.number.toNat := by
      have := s.told
      omega
    have hmod : s.key.value.toNat % 8 = s.value.value.wireType := by
      have := s.told
      omega
    refine ⟨s.key.value, s.value.bytes ++ rest,
      Varint.decode_spells.2 ⟨s.key, (List.append_assoc ..).symm, rfl⟩, by omega, ?_, ?_⟩
    · rw [hdiv, UInt32.ofNat_toNat]
      rfl
    · exact WireValue.read_ok_iff.2 ⟨s.value, hmod.symm, rfl, rfl⟩

end WireField

/-! Messages. -/

namespace Message

/-- The bytes of a message. -/
structure Spelling where
  fields : List WireField.Spelling

namespace Spelling

def message (s : Spelling) : Message := ⟨s.fields.map (·.field)⟩

def bytes (s : Spelling) : List UInt8 := s.fields.flatMap (·.bytes)

/-- Every varint in the bytes: the keys, the lengths of blocks and the values. -/
def varints (s : Spelling) : List Varint.Spelling := s.fields.flatMap (·.varints)

theorem message_cons_bytes (f : WireField.Spelling) (fields : List WireField.Spelling) :
    (message ⟨f :: fields⟩).bytes = f.field.bytes ++ (message ⟨fields⟩).bytes := rfl

theorem bytes_cons (f : WireField.Spelling) (fields : List WireField.Spelling) :
    bytes ⟨f :: fields⟩ = f.bytes ++ bytes ⟨fields⟩ := rfl

theorem varints_cons (f : WireField.Spelling) (fields : List WireField.Spelling) :
    varints ⟨f :: fields⟩ = f.varints ++ varints ⟨fields⟩ := rfl

theorem length_message_le (s : Spelling) : s.message.bytes.length ≤ s.bytes.length := by
  obtain ⟨fields⟩ := s
  induction fields with
  | nil => exact Nat.le_refl _
  | cons f fields ih =>
    have hfirst := f.length_field_le
    rw [message_cons_bytes, bytes_cons, List.length_append, List.length_append]
    omega

theorem message_bytes_eq_iff (s : Spelling) :
    s.message.bytes = s.bytes ↔ ∀ v ∈ s.varints, v.Plain := by
  obtain ⟨fields⟩ := s
  induction fields with
  | nil => exact iff_of_true rfl (List.forall_mem_nil _)
  | cons f fields ih =>
    rw [message_cons_bytes, bytes_cons, varints_cons,
      append_eq_append_iff_of_length_le f.length_field_le (length_message_le ⟨fields⟩), ih,
      f.field_bytes_eq_iff, List.forall_mem_append]

end Spelling

theorem ofBytes_ok_iff {input : List UInt8} {m : Message} :
    ofBytes input = .ok m ↔ ∃ s : Spelling, s.bytes = input ∧ s.message = m := by
  unfold ofBytes
  rw [map_ok_iff]
  constructor
  · rintro ⟨fields, hfields, rfl⟩
    obtain ⟨ss, rfl, rfl⟩ := WireField.read_spells.all_ok_iff.1 hfields
    exact ⟨⟨ss⟩, rfl, rfl⟩
  · rintro ⟨s, rfl, rfl⟩
    exact ⟨_, WireField.read_spells.all_ok_iff.2 ⟨s.fields, rfl, rfl⟩, rfl⟩

/-- No message has a shorter spelling than its own. -/
theorem length_bytes_le_of_ofBytes {input : List UInt8} {m : Message}
    (h : ofBytes input = .ok m) : m.bytes.length ≤ input.length := by
  obtain ⟨s, rfl, rfl⟩ := ofBytes_ok_iff.1 h
  exact s.length_message_le

/-- Messages that have no field number zero, and no block whose length is beyond 64 bits, are read back
when they are written. What is read takes no more bytes when it is written, is read back, and stands
as it stood if and only if every varint was spelled as it is written. -/
theorem rewritten_iff_plain (m : Message) (input : List UInt8) :
    (m.Fits → ofBytes m.bytes = .ok m) ∧
    (ofBytes input = .ok m →
      m.bytes.length ≤ input.length ∧ ofBytes m.bytes = .ok m ∧
      (∃ s : Spelling, s.bytes = input) ∧
      ∀ s : Spelling, s.bytes = input → (m.bytes = input ↔ ∀ v ∈ s.varints, v.Plain)) := by
  refine ⟨ofBytes_bytes, fun h => ⟨length_bytes_le_of_ofBytes h, ?_, ?_, ?_⟩⟩
  · exact ofBytes_bytes (fits_of_ofBytes h)
  · obtain ⟨s, hs, -⟩ := ofBytes_ok_iff.1 h
    exact ⟨s, hs⟩
  · rintro s rfl
    have hmessage : s.message = m := by
      have hread := ofBytes_ok_iff.2 ⟨s, rfl, rfl⟩
      rw [h] at hread
      exact (Except.ok.inj hread).symm
    rw [← hmessage]
    exact s.message_bytes_eq_iff

/-- A block whose key has a byte more than it needs. -/
def paddedSpelling : Spelling :=
  ⟨[⟨1, ⟨[0x8A], 0, by simp, by decide, by decide⟩,
    .block ⟨[], 2, List.forall_mem_nil _, by decide, by decide⟩ [0x96, 0x01] (by decide), by decide,
    by decide⟩]⟩

/-- A message with a block is read back, and from longer bytes, too, which it is not written as. -/
theorem rewritten_padded :
    ofBytes (bytes ⟨[⟨1, .block [0x96, 0x01]⟩]⟩) = .ok ⟨[⟨1, .block [0x96, 0x01]⟩]⟩ ∧
      ofBytes [0x8A, 0x00, 0x02, 0x96, 0x01] = .ok ⟨[⟨1, .block [0x96, 0x01]⟩]⟩ ∧
      bytes ⟨[⟨1, .block [0x96, 0x01]⟩]⟩ ≠ [0x8A, 0x00, 0x02, 0x96, 0x01] := by
  have hfits : Fits ⟨[⟨1, .block [0x96, 0x01]⟩]⟩ := by
    intro f hf
    rw [List.mem_singleton.1 hf]
    exact ⟨by decide, show 2 < UInt64.size by decide⟩
  have hread : ofBytes [0x8A, 0x00, 0x02, 0x96, 0x01] = .ok ⟨[⟨1, .block [0x96, 0x01]⟩]⟩ :=
    ofBytes_ok_iff.2 ⟨paddedSpelling, rfl, rfl⟩
  obtain ⟨-, -, -, hiff⟩ := (rewritten_iff_plain _ _).2 hread
  refine ⟨(rewritten_iff_plain _ []).1 hfits, hread, fun hsame => ?_⟩
  have hplain := (hiff paddedSpelling rfl).1 hsame _ (List.mem_cons_self ..)
  have hkey : Varint.encode 10 = [10] := by
    rw [Varint.encode]
    rfl
  have hpadded : [0x8A, 0] = Varint.encode 10 := hplain
  rw [hkey] at hpadded
  cases hpadded

end Message

end JarPruning.Metadata
