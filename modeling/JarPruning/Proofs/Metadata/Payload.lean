import JarPruning.Proofs.Metadata.Packing
import JarPruning.Proofs.Metadata.Spelling
import JarPruning.Proofs.Metadata.Sweep

/-!
Payloads of metadata annotations. A payload that lost a record is packed into strings that do not
even start with those it was read from.
-/
namespace JarPruning.Metadata.Payload

open Metadata.Sweep

variable {kind : Kind} {d1 d2 : List String} {p p' : Payload} {owner : String} {t : Tracker}
  {changes : Changes}

/-- The parts that packed strings are read in. -/
theorem decode_ok_iff : decode kind d1 d2 = .ok p ↔
    ∃ bytes rest table, Packing.decode d1 = .ok (bytes, p.packing) ∧
      takeDelimited bytes = .ok (p.types, rest) ∧ Message.ofBytes p.types = .ok table ∧
      StringTable.ofMessage table d2 = .ok p.strings ∧ Message.ofBytes rest = .ok p.container ∧
      p.kind = kind := by
  unfold decode
  constructor
  · intro h
    obtain ⟨⟨bytes, packing⟩, hbytes, h⟩ := bind_ok_iff.1 h
    obtain ⟨⟨types, rest⟩, htypes, h⟩ := bind_ok_iff.1 h
    obtain ⟨table, htable, h⟩ := bind_ok_iff.1 h
    obtain ⟨strings, hstrings, h⟩ := bind_ok_iff.1 h
    obtain ⟨container, hcontainer, h⟩ := bind_ok_iff.1 h
    cases h
    exact ⟨bytes, rest, table, hbytes, htypes, htable, hstrings, hcontainer, rfl⟩
  · rintro ⟨bytes, rest, table, hbytes, htypes, htable, hstrings, hcontainer, rfl⟩
    refine bind_ok_iff.2 ⟨_, hbytes, bind_ok_iff.2 ⟨_, htypes, bind_ok_iff.2 ⟨_, htable,
      bind_ok_iff.2 ⟨_, hstrings, bind_ok_iff.2 ⟨_, hcontainer, rfl⟩⟩⟩⟩⟩

/-- As many characters as the strings of an annotation can have. -/
def Moderate (d1 : List String) : Prop := (d1.flatMap (·.toList)).length < 2 ^ 32

theorem length_mapM {α β : Type} {f : α → Except Fault β} {l : List α} {bs : List β}
    (h : l.mapM f = .ok bs) : bs.length = l.length :=
  (mapM_ok_iff.1 h).length_eq.symm

theorem length_ofSeptets_le (acc bits : Nat) (l : List Nat) :
    (Packing.ofSeptets acc bits l).length ≤ l.length := by
  induction l generalizing acc bits with
  | nil => exact Nat.le_refl _
  | cons s l ih =>
    rw [Packing.ofSeptets]
    split
    · have := ih (acc + s <<< bits) 7
      rw [List.length_cons]
      omega
    · have := ih ((acc + s <<< bits) / 256) (bits - 1)
      rw [List.length_cons, List.length_cons]
      omega

theorem length_unpacked_le {bytes : List UInt8} {packing : Packing}
    (h : Packing.decode d1 = .ok (bytes, packing)) :
    bytes.length ≤ (d1.flatMap (·.toList)).length := by
  obtain ⟨-, h⟩ := Packing.decode_ok_iff.1 h
  cases packing with
  | bytes =>
    have := length_mapM h
    rw [List.length_drop] at this
    omega
  | septets marked =>
    obtain ⟨septets, hseptets, rfl⟩ := h
    have hle := length_ofSeptets_le 0 0 septets
    have hlength := length_mapM hseptets
    cases marked <;> simp only [Bool.false_eq_true, ↓reduceIte, List.length_drop] at hlength <;>
      omega

theorem sizes_of_decode (h : decode kind d1 d2 = .ok p) :
    (delimited p.types).length + p.container.bytes.length ≤ (d1.flatMap (·.toList)).length := by
  obtain ⟨bytes, rest, table, hbytes, htypes, -, -, hcontainer, -⟩ := decode_ok_iff.1 h
  have := length_unpacked_le hbytes
  have := length_delimited_le_of_takeDelimited htypes
  have := Message.length_bytes_le_of_ofBytes hcontainer
  omega

/-- The room of a payload, whose types are copied as they are. -/
def room (p : Payload) : Nat := (delimited p.types).length + p.container.room

/-- A removal leaves a payload in its room. -/
theorem room_sweep_le (h : p.sweep owner t = .ok (p', changes)) : p'.room ≤ p.room := by
  obtain ⟨types, container, -, hsequence, rfl⟩ := sweep_ok_iff.1 h
  exact Nat.add_le_add_left (sequence_room (p.parts_parts owner t types).each hsequence) _

theorem room_le_of_decode (h : decode kind d1 d2 = .ok p) :
    p.room ≤ 41 * (d1.flatMap (·.toList)).length + 22 := by
  have hsizes := sizes_of_decode h
  have hroom := p.container.room_le
  unfold room
  omega

theorem length_payload_le_room (p : Payload) :
    (delimited p.types ++ p.container.bytes).length ≤ p.room := by
  rw [List.length_append]
  exact Nat.add_le_add_left p.container.length_bytes_le_room _

/-- The characters that a payload is packed into. -/
theorem length_chars_encode_le (p : Payload) :
    (p.encode.flatMap (·.toList)).length ≤ 2 * p.room + 2 := by
  have hchars := Packing.length_chars_le p.packing (delimited p.types ++ p.container.bytes)
  have hroom := p.length_payload_le_room
  rw [encode, Packing.flatMap_encode]
  omega

/-- A payload in half a gigabyte of room is packed into no more strings than an array can count. -/
theorem length_encode_le (h : p.room ≤ 2 ^ 29) : p.encode.length ≤ 65535 := by
  have hstrings := Packing.length_encode_le p.packing (delimited p.types ++ p.container.bytes)
  have hroom := p.length_payload_le_room
  unfold encode
  omega

theorem sweep_fits (h : decode kind d1 d2 = .ok p) (hmoderate : Moderate d1)
    (hs : p.sweep owner t = .ok (p', changes)) : p'.container.Fits := by
  have hroom := room_le_of_decode h
  unfold Moderate at hmoderate
  unfold room at hroom
  obtain ⟨bytes, rest, table, -, -, -, -, hcontainer, -⟩ := decode_ok_iff.1 h
  obtain ⟨types, container, htypes, hsequence, rfl⟩ := sweep_ok_iff.1 hs
  have hsize : UInt64.size = 2 ^ 64 := rfl
  exact sequence_fits (p.parts_parts owner t types).each hsequence
    (Message.fits_of_ofBytes hcontainer) (by omega)

/-- What a payload reads of strings that start the strings of another payload with its types. -/
theorem container_prefix (h : decode kind d1 d2 = .ok p) {container : Message}
    (hfits : container.Fits)
    (hpre : d1 <+: ({ p with container } : Payload).encode) :
    p.container.fields <+: container.fields := by
  obtain ⟨bytes, rest, table, hbytes, htypes, -, -, hcontainer, -⟩ := decode_ok_iff.1 h
  obtain ⟨more, hmore⟩ := Packing.decode_prefix hbytes hpre
  have hlonger := takeDelimited_local htypes more
  rw [hmore, takeDelimited_reads (length_of_takeDelimited htypes)] at hlonger
  simp only [Except.ok.injEq, Prod.mk.injEq, true_and] at hlonger
  exact Message.ofBytes_append hcontainer (hlonger ▸ Message.ofBytes_bytes hfits)

theorem not_prefix_of_sweep (h : decode kind d1 d2 = .ok p) (hmoderate : Moderate d1)
    (hs : p.sweep owner t = .ok (p', changes)) (hremoved : changes.removed ≠ []) :
    ¬d1 <+: p'.encode := by
  intro hpre
  have hfits := sweep_fits h hmoderate hs
  obtain ⟨types, container, htypes, hsequence, rfl⟩ := sweep_ok_iff.1 hs
  obtain ⟨hlength, hshows⟩ := sequence_shows (p.parts_parts owner t types) hsequence
  obtain ⟨n, hn⟩ := hshows hremoved
  have hprefix := container_prefix h hfits hpre
  have hfields := hprefix.eq_of_length_le hlength
  exact hn (by rw [Message.occurrences, Message.occurrences, hfields])

end JarPruning.Metadata.Payload
