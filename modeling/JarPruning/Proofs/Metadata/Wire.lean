import JarPruning.Metadata.Message
import JarPruning.Proofs.Bytes.BigEndian
import JarPruning.Proofs.Except

/-!
Wire messages and their bytes. What is read does not depend on what follows it, so a message read
from the front of bytes is the front of the message read from all of them.
-/
namespace JarPruning.Metadata

theorem map_ok_iff {ε α β : Type} {x : Except ε α} {f : α → β} {b : β} :
    x.map f = .ok b ↔ ∃ a, x = .ok a ∧ f a = b := by
  cases x <;> simp [Except.map]

namespace Parse

variable {α β : Type} {step : Parse α}

/-- What the step reads does not depend on what follows. -/
def Local (step : Parse α) : Prop :=
  ∀ ⦃bytes a rest⦄, step bytes = .ok (a, rest) →
    ∀ more, step (bytes ++ more) = .ok (a, rest ++ more)

/-- The step reads `bytes` as `a`, whatever follows. -/
def Reads (step : Parse α) (bytes : List UInt8) (a : α) : Prop :=
  ∀ rest, step (bytes ++ rest) = .ok (a, rest)

theorem Local.bind {f : α → Parse β} (h : Local step) (hf : ∀ a, Local (f a)) :
    Local fun bytes => step bytes >>= fun p => f p.1 p.2 := by
  intro bytes b rest hb more
  obtain ⟨⟨a, mid⟩, ha, hb⟩ := bind_ok_iff.1 hb
  exact bind_ok_iff.2 ⟨_, h ha more, hf a hb more⟩

theorem Local.map (h : Local step) (f : α → β) :
    Local fun bytes => (step bytes).map fun p => (f p.1, p.2) := by
  intro bytes b rest hb more
  obtain ⟨⟨a, mid⟩, ha, hb⟩ := map_ok_iff.1 hb
  cases hb
  exact map_ok_iff.2 ⟨_, h ha more, rfl⟩

theorem all_nil {h : step.Shortens} : all step h [] = .ok [] := by
  rw [all]

/-- One step and the steps after it. -/
theorem all_ok {h : step.Shortens} {bytes rest : List UInt8} {a : α} (hs : step bytes = .ok (a, rest)) :
    all step h bytes = (all step h rest).map (a :: ·) := by
  cases bytes with
  | nil => exact absurd (h hs) (Nat.not_lt_zero _)
  | cons b bytes =>
    rw [all]
    split
    · next he =>
      rw [hs] at he
      cases he
    · next he =>
      rw [hs] at he
      cases he
      rfl

theorem all_append {h : step.Shortens} (hlocal : step.Local) {bytes more : List UInt8}
    {as : List α} (hall : all step h bytes = .ok as) :
    all step h (bytes ++ more) = (all step h more).map (as ++ ·) := by
  fun_induction all step h bytes generalizing as with
  | case1 =>
    cases hall
    rw [List.nil_append]
    cases all step h more <;> rfl
  | case2 b bytes e he => cases hall
  | case3 b bytes a rest hs hshort ih =>
    obtain ⟨as', has', rfl⟩ := map_ok_iff.1 hall
    rw [all_ok (hlocal hs more), ih has']
    cases all step h more <;> rfl

theorem all_flatMap {h : step.Shortens} {f : α → List UInt8} {as : List α}
    (hf : ∀ a ∈ as, step.Reads (f a) a) : all step h (as.flatMap f) = .ok as := by
  induction as with
  | nil => exact all_nil
  | cons a as ih =>
    rw [List.flatMap_cons, all_ok (hf a (List.mem_cons_self ..) _),
      ih fun b hb => hf b (List.mem_cons_of_mem _ hb)]
    rfl

/-- Each item that is read came from the front of what remained. -/
theorem all_forall {h : step.Shortens} {p : α → Prop} {bytes : List UInt8} {as : List α}
    (hall : all step h bytes = .ok as)
    (hstep : ∀ {bs a rest}, bs.length ≤ bytes.length → step bs = .ok (a, rest) → p a) :
    ∀ a ∈ as, p a := by
  fun_induction all step h bytes generalizing as with
  | case1 =>
    cases hall
    simp
  | case2 b bytes e he => cases hall
  | case3 b bytes a rest hs hshort ih =>
    obtain ⟨as', has', rfl⟩ := map_ok_iff.1 hall
    intro a' ha'
    obtain rfl | ha' := List.mem_cons.1 ha'
    · exact hstep (Nat.le_refl _) hs
    · exact ih has' (fun hle => hstep (by omega)) a' ha'

theorem length_all_le {h : step.Shortens} {bytes : List UInt8} {as : List α}
    (hall : all step h bytes = .ok as) : as.length ≤ bytes.length := by
  fun_induction all step h bytes generalizing as with
  | case1 =>
    cases hall
    exact Nat.le_refl _
  | case2 b bytes e he => cases hall
  | case3 b bytes a rest hs hshort ih =>
    obtain ⟨as', has', rfl⟩ := map_ok_iff.1 hall
    have := ih has'
    rw [List.length_cons]
    omega

end Parse

open Parse (Local Reads)

/-! Varints. -/

namespace Varint

theorem groups_local (limit : Nat) : Local (groups limit) := by
  intro bytes n rest h more
  fun_induction groups limit bytes generalizing n rest with
  | case1 => cases h
  | case2 => cases h
  | case3 limit b bs hb =>
    cases h
    rw [List.cons_append, groups, if_pos hb]
  | case4 limit b bs hb ih =>
    obtain ⟨⟨m, r⟩, hm, h⟩ := map_ok_iff.1 h
    cases h
    rw [List.cons_append, groups, if_neg hb, ih hm]
    rfl

theorem decode_local : Local decode := (groups_local 10).map UInt64.ofNat

theorem groups_encode {limit n : Nat} (h : n < 128 ^ limit) (hlimit : 0 < limit) :
    Reads (groups limit) (encode n) n := by
  intro rest
  induction limit generalizing n with
  | zero => omega
  | succ limit ih =>
    have hpow : 128 ^ (limit + 1) = 128 * 128 ^ limit := Nat.pow_succ'
    rw [encode]
    split
    · next hn =>
      have hb : (UInt8.ofNat n).toNat = n := by
        rw [UInt8.toNat_ofNat', Nat.mod_eq_of_lt (by omega)]
      rw [List.singleton_append, groups, if_pos (by omega), hb]
    · next hn =>
      have hb : (UInt8.ofNat (n % 128 + 128)).toNat = n % 128 + 128 := by
        rw [UInt8.toNat_ofNat', Nat.mod_eq_of_lt (by omega)]
      have hpositive : 0 < limit := by
        rcases limit with _ | limit
        · simp at h
          omega
        · omega
      have hsum : (n % 128 + 128) % 128 + 128 * (n / 128) = n := by omega
      rw [List.cons_append, groups, if_neg (by omega), ih (by omega) hpositive, hb]
      simp only [Except.map, hsum]

theorem decode_encode {n : Nat} (h : n < UInt64.size) :
    Reads decode (encode n) (UInt64.ofNat n) := by
  intro rest
  have hsize : UInt64.size ≤ 128 ^ 10 := by decide
  rw [decode, groups_encode (by omega) (by omega) rest]
  rfl

theorem groups_bound {limit n : Nat} {bytes rest : List UInt8}
    (h : groups limit bytes = .ok (n, rest)) :
    ∃ k, 0 < k ∧ bytes.length = k + rest.length ∧ n < 128 ^ k := by
  fun_induction groups limit bytes generalizing n rest with
  | case1 => cases h
  | case2 => cases h
  | case3 limit b bs hb =>
    cases h
    exact ⟨1, by omega, by rw [List.length_cons, Nat.add_comm], by omega⟩
  | case4 limit b bs hb ih =>
    obtain ⟨⟨m, r⟩, hm, h⟩ := map_ok_iff.1 h
    cases h
    obtain ⟨k, hk, hlength, hlt⟩ := ih hm
    have hpow : 128 ^ (k + 1) = 128 * 128 ^ k := Nat.pow_succ'
    exact ⟨k + 1, by omega, by rw [List.length_cons]; omega, by omega⟩

theorem length_encode_le (n limit : Nat) (h : n < 128 ^ limit) (hlimit : 0 < limit) :
    (encode n).length ≤ limit := by
  induction limit generalizing n with
  | zero => omega
  | succ limit ih =>
    have hpow : 128 ^ (limit + 1) = 128 * 128 ^ limit := Nat.pow_succ'
    rw [encode]
    split
    · simp
    · next hn =>
      have hpositive : 0 < limit := by
        rcases limit with _ | limit
        · simp at h
          omega
        · omega
      have := ih (n / 128) (by omega) hpositive
      rw [List.length_cons]
      omega

/-- No number has a shorter spelling than its own. -/
theorem length_encode_le_of_decode {bytes rest : List UInt8} {v : UInt64}
    (h : decode bytes = .ok (v, rest)) : (encode v.toNat).length + rest.length ≤ bytes.length := by
  obtain ⟨⟨n, r⟩, hn, h⟩ := map_ok_iff.1 h
  cases h
  obtain ⟨k, hk, hlength, hlt⟩ := groups_bound hn
  have hv : (UInt64.ofNat n).toNat ≤ n := by
    rw [UInt64.toNat_ofNat']
    exact Nat.mod_le _ _
  have := length_encode_le _ k (Nat.lt_of_le_of_lt hv hlt) hk
  omega

theorem length_encode_le_succ (n : Nat) : (encode n).length ≤ n + 1 := by
  have hpow : n < 128 ^ (n + 1) :=
    Nat.lt_of_lt_of_le (Nat.lt_pow_self (by decide)) (Nat.pow_le_pow_right (by decide) (by omega))
  exact length_encode_le n (n + 1) hpow (by omega)

theorem length_encode_pos (n : Nat) : 0 < (encode n).length := by
  rw [encode]
  split <;> simp

end Varint

/-! Blocks. -/

theorem takeBlock_local (length : Nat) : Local (takeBlock length) := by
  intro bytes block rest h more
  unfold takeBlock at h ⊢
  split at h
  · next p hcut =>
    cases h
    obtain ⟨rfl, rfl⟩ := cut?_eq_some_iff.1 hcut
    rw [List.append_assoc, cut?_append]
  · cases h

theorem takeBlock_reads (block : List UInt8) : Reads (takeBlock block.length) block block := by
  intro rest
  rw [takeBlock, cut?_append]

theorem of_takeBlock {length : Nat} {bytes block rest : List UInt8}
    (h : takeBlock length bytes = .ok (block, rest)) :
    bytes = block ++ rest ∧ block.length = length := by
  unfold takeBlock at h
  split at h
  · next p hcut =>
    cases h
    exact cut?_eq_some_iff.1 hcut
  · cases h

theorem takeDelimited_local : Local takeDelimited :=
  Varint.decode_local.bind fun n => takeBlock_local n.toNat

theorem takeDelimited_reads {block : List UInt8} (h : block.length < UInt64.size) :
    Reads takeDelimited (delimited block) block := by
  intro rest
  have hlength : (UInt64.ofNat block.length).toNat = block.length := by
    rw [UInt64.toNat_ofNat', Nat.mod_eq_of_lt h]
  rw [takeDelimited, delimited, List.append_assoc, Varint.decode_encode h]
  simp only [bind, Except.bind, hlength]
  exact takeBlock_reads block rest

theorem length_of_takeDelimited {bytes block rest : List UInt8}
    (h : takeDelimited bytes = .ok (block, rest)) : block.length < UInt64.size := by
  obtain ⟨⟨n, mid⟩, -, h⟩ := bind_ok_iff.1 h
  rw [(of_takeBlock h).2]
  exact n.toNat_lt

theorem length_delimited_le_of_takeDelimited {bytes block rest : List UInt8}
    (h : takeDelimited bytes = .ok (block, rest)) :
    (delimited block).length + rest.length ≤ bytes.length := by
  obtain ⟨⟨n, mid⟩, hn, h⟩ := bind_ok_iff.1 h
  have hsize := Varint.length_encode_le_of_decode hn
  obtain ⟨rfl, hblock⟩ := of_takeBlock h
  rw [delimited, hblock]
  rw [List.length_append] at hsize ⊢
  omega

/-! Fields. -/

/-- A value whose length, if it has one, fits its field. -/
def WireValue.Fits : WireValue → Prop
  | .block bytes => bytes.length < UInt64.size
  | .varint _ | .fixed64 _ | .fixed32 _ => True

structure WireField.Fits (f : WireField) : Prop where
  number : f.number ≠ 0
  value : f.value.Fits

namespace WireValue

theorem read_local (type number : Nat) : Local (WireValue.read type number) := by
  intro bytes v rest h more
  unfold WireValue.read at h ⊢
  split
  · exact (Varint.decode_local.map WireValue.varint) h more
  · exact ((takeBlock_local 8).map fun b => WireValue.fixed64 (UInt64.ofNat (littleEndian b)))
      h more
  · exact (takeDelimited_local.map WireValue.block) h more
  · exact ((takeBlock_local 4).map fun b => WireValue.fixed32 (UInt32.ofNat (littleEndian b)))
      h more
  · simp at h

theorem read_fits {type number : Nat} {bytes rest : List UInt8} {v : WireValue}
    (h : WireValue.read type number bytes = .ok (v, rest)) : v.Fits := by
  unfold WireValue.read at h
  split at h
  · obtain ⟨_, -, h⟩ := map_ok_iff.1 h
    cases h
    trivial
  · obtain ⟨_, -, h⟩ := map_ok_iff.1 h
    cases h
    trivial
  · obtain ⟨_, hblock, h⟩ := map_ok_iff.1 h
    cases h
    exact length_of_takeDelimited hblock
  · obtain ⟨_, -, h⟩ := map_ok_iff.1 h
    cases h
    trivial
  · cases h

theorem littleEndian_reverse (width n : Nat) :
    littleEndian (BigEndian.digits width n).reverse = n % 256 ^ width := by
  rw [littleEndian, List.reverse_reverse, BigEndian.value_digits]

theorem read_reads {v : WireValue} (h : v.Fits) (number : Nat) :
    Reads (WireValue.read v.wireType number) v.bytes v := by
  intro rest
  cases v with
  | varint value =>
    show (Varint.decode _).map _ = _
    rw [bytes, Varint.decode_encode value.toNat_lt, UInt64.ofNat_toNat]
    rfl
  | fixed64 value =>
    have hblock := takeBlock_reads (BigEndian.digits 8 value.toNat).reverse rest
    rw [List.length_reverse, BigEndian.length_digits] at hblock
    simp only [wireType, WireValue.read, bytes, hblock, Except.map, littleEndian_reverse]
    have hvalue : value.toNat < 256 ^ 8 := value.toNat_lt
    rw [Nat.mod_eq_of_lt hvalue, UInt64.ofNat_toNat]
  | block bytes =>
    show (takeDelimited _).map _ = _
    rw [WireValue.bytes, takeDelimited_reads h]
    rfl
  | fixed32 value =>
    have hblock := takeBlock_reads (BigEndian.digits 4 value.toNat).reverse rest
    rw [List.length_reverse, BigEndian.length_digits] at hblock
    simp only [wireType, WireValue.read, bytes, hblock, Except.map, littleEndian_reverse]
    have hvalue : value.toNat < 256 ^ 4 := value.toNat_lt
    rw [Nat.mod_eq_of_lt hvalue, UInt32.ofNat_toNat]

end WireValue

namespace WireField

theorem read_ok_iff {bytes rest : List UInt8} {f : WireField} :
    WireField.read bytes = .ok (f, rest) ↔
      ∃ key mid, Varint.decode bytes = .ok (key, mid) ∧
        ¬(key.toNat / 8 = 0 ∨ UInt32.size ≤ key.toNat / 8) ∧
        f.number = UInt32.ofNat (key.toNat / 8) ∧
        WireValue.read (key.toNat % 8) (key.toNat / 8) mid = .ok (f.value, rest) := by
  unfold WireField.read
  rw [bind_ok_iff]
  constructor
  · rintro ⟨⟨key, mid⟩, hkey, h⟩
    dsimp only at h
    split at h
    · cases h
    · next hnumber =>
      obtain ⟨⟨v, r⟩, hv, h⟩ := bind_ok_iff.1 h
      cases h
      exact ⟨key, mid, hkey, hnumber, rfl, hv⟩
  · rintro ⟨key, mid, hkey, hnumber, hf, hv⟩
    obtain ⟨number, value⟩ := f
    cases hf
    refine ⟨(key, mid), hkey, ?_⟩
    dsimp only
    rw [if_neg hnumber]
    exact bind_ok_iff.2 ⟨_, hv, rfl⟩

theorem read_local : Local WireField.read := by
  intro bytes f rest h more
  obtain ⟨key, mid, hkey, hnumber, hf, hv⟩ := read_ok_iff.1 h
  exact read_ok_iff.2 ⟨key, mid ++ more, Varint.decode_local hkey more, hnumber, hf,
    WireValue.read_local _ _ hv more⟩

theorem read_fits {bytes rest : List UInt8} {f : WireField}
    (h : WireField.read bytes = .ok (f, rest)) : f.Fits := by
  obtain ⟨key, mid, -, hnumber, hf, hv⟩ := read_ok_iff.1 h
  refine ⟨fun hzero => hnumber (.inl ?_), WireValue.read_fits hv⟩
  have hsize : UInt32.size = 2 ^ 32 := rfl
  have hnat := congrArg UInt32.toNat (hf.symm.trans hzero)
  rwa [UInt32.toNat_ofNat', Nat.mod_eq_of_lt (by omega), UInt32.toNat_zero] at hnat

theorem read_reads {f : WireField} (h : f.Fits) : Reads WireField.read f.bytes f := by
  intro rest
  have htype : f.value.wireType < 8 := by cases f.value <;> simp [WireValue.wireType]
  have hnumber := f.number.toNat_lt
  have hpositive : f.number.toNat ≠ 0 := fun hzero => h.number (UInt32.toNat_inj.1 hzero)
  have hsize : UInt32.size = 4294967296 := rfl
  have hsize' : UInt64.size = 18446744073709551616 := rfl
  have hkey : (UInt64.ofNat (f.number.toNat * 8 + f.value.wireType)).toNat =
      f.number.toNat * 8 + f.value.wireType := by
    rw [UInt64.toNat_ofNat', Nat.mod_eq_of_lt (by omega)]
  have hdiv : (f.number.toNat * 8 + f.value.wireType) / 8 = f.number.toNat := by omega
  have hmod : (f.number.toNat * 8 + f.value.wireType) % 8 = f.value.wireType := by omega
  rw [bytes, List.append_assoc]
  refine read_ok_iff.2 ⟨_, _, Varint.decode_encode (by omega) _, ?_, ?_, ?_⟩
  · rw [hkey, hdiv]
    omega
  · rw [hkey, hdiv, UInt32.ofNat_toNat]
  · rw [hkey, hdiv, hmod]
    exact WireValue.read_reads h.value _ rest

end WireField

/-! Messages. -/

namespace Message

/-- A message that reading could answer. -/
def Fits (m : Message) : Prop := ∀ f ∈ m.fields, f.Fits

theorem ofBytes_bytes {m : Message} (h : m.Fits) : ofBytes m.bytes = .ok m := by
  rw [ofBytes, bytes, Parse.all_flatMap fun f hf => WireField.read_reads (h f hf)]
  rfl

theorem fits_of_ofBytes {bytes : List UInt8} {m : Message} (h : ofBytes bytes = .ok m) :
    m.Fits := by
  obtain ⟨fields, hfields, rfl⟩ := map_ok_iff.1 h
  exact Parse.all_forall hfields fun _ hf => WireField.read_fits hf

/-- The fields at the front of bytes are the first fields of all. -/
theorem ofBytes_append {bytes more : List UInt8} {m m' : Message} (h : ofBytes bytes = .ok m)
    (h' : ofBytes (bytes ++ more) = .ok m') : m.fields <+: m'.fields := by
  obtain ⟨fields, hfields, rfl⟩ := map_ok_iff.1 h
  obtain ⟨fields', hfields', rfl⟩ := map_ok_iff.1 h'
  rw [Parse.all_append WireField.read_local hfields] at hfields'
  obtain ⟨extra, -, rfl⟩ := map_ok_iff.1 hfields'
  exact List.prefix_append ..

end Message

end JarPruning.Metadata
