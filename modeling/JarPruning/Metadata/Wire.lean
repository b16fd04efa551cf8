import JarPruning.Bytes.BigEndian
import JarPruning.Bytes.Cut
import JarPruning.Metadata.Fault

/-!
The primitive values of wire messages: varints, which hold seven bits a byte, lowest first, and
the four kinds of field value. A varint has at most ten bytes, and of the tenth only the lowest bit
counts.
-/
namespace JarPruning.Metadata

abbrev Parse (α : Type) := List UInt8 → Except Fault (α × List UInt8)

/-- A step that always consumes something. -/
def Parse.Shortens {α : Type} (step : Parse α) : Prop :=
  ∀ ⦃bytes a rest⦄, step bytes = .ok (a, rest) → rest.length < bytes.length

/-- Repeats a step until nothing is left. -/
def Parse.all {α : Type} (step : Parse α) (h : step.Shortens) (bytes : List UInt8) :
    Except Fault (List α) :=
  match bytes with
  | [] => .ok []
  | b :: bytes =>
    match hs : step (b :: bytes) with
    | .error e => .error e
    | .ok (a, rest) =>
      have := h hs
      (Parse.all step h rest).map (a :: ·)
termination_by bytes.length
decreasing_by exact this

namespace Varint

def encode (n : Nat) : List UInt8 :=
  if n < 128 then [UInt8.ofNat n] else UInt8.ofNat (n % 128 + 128) :: encode (n / 128)

/-- The number spelled by at most `limit` bytes. -/
def groups : (limit : Nat) → Parse Nat
  | 0, _ => .error .longVarint
  | _ + 1, [] => .error .truncatedVarint
  | limit + 1, b :: rest =>
    if b.toNat < 128 then .ok (b.toNat, rest)
    else (groups limit rest).map fun (n, r) => (b.toNat % 128 + 128 * n, r)

def decode : Parse UInt64 := fun bytes =>
  (groups 10 bytes).map fun (n, rest) => (UInt64.ofNat n, rest)

theorem groups_length {limit : Nat} {bytes rest : List UInt8} {n : Nat}
    (h : groups limit bytes = .ok (n, rest)) : rest.length < bytes.length := by
  fun_induction groups limit bytes generalizing n with
  | case1 => simp at h
  | case2 => simp at h
  | case3 limit b bs hb =>
    simp only [Except.ok.injEq, Prod.mk.injEq] at h
    simp [h.2]
  | case4 limit b bs hb ih =>
    cases hg : groups limit bs with
    | error e => simp [hg, Except.map] at h
    | ok p =>
      obtain ⟨m, r⟩ := p
      simp only [hg, Except.map, Except.ok.injEq, Prod.mk.injEq] at h
      obtain ⟨-, rfl⟩ := h
      have := ih hg
      simp only [List.length_cons]
      omega

theorem decode_shortens : decode.Shortens := by
  intro bytes v rest h
  unfold decode at h
  cases hg : groups 10 bytes with
  | error e => simp [hg, Except.map] at h
  | ok p =>
    obtain ⟨m, r⟩ := p
    simp only [hg, Except.map, Except.ok.injEq, Prod.mk.injEq] at h
    obtain ⟨-, rfl⟩ := h
    exact groups_length hg

end Varint

/-- A block of a known length. -/
def takeBlock (length : Nat) : Parse (List UInt8) := fun bytes =>
  match cut? length bytes with
  | some p => .ok p
  | none => .error (.truncatedField length)

theorem takeBlock_length {length : Nat} {bytes block rest : List UInt8}
    (h : takeBlock length bytes = .ok (block, rest)) : rest.length ≤ bytes.length := by
  unfold takeBlock at h
  split at h
  · simp only [Except.ok.injEq] at h
    rename_i p hc
    subst h
    simp [(cut?_eq_some_iff.1 hc).1]
  · simp at h

/-- A block behind its length. -/
def takeDelimited : Parse (List UInt8) := fun bytes => do
  let (length, rest) ← Varint.decode bytes
  takeBlock length.toNat rest

def delimited (block : List UInt8) : List UInt8 := Varint.encode block.length ++ block

/-- A number in a block of fixed width, least significant byte first. -/
def littleEndian (block : List UInt8) : Nat := BigEndian.value block.reverse

inductive WireValue where
  | varint (value : UInt64)
  | fixed64 (value : UInt64)
  | block (bytes : List UInt8)
  | fixed32 (value : UInt32)
  deriving DecidableEq, Repr

namespace WireValue

/-- The number in the low three bits of a field's key. -/
def wireType : WireValue → Nat
  | .varint _ => 0
  | .fixed64 _ => 1
  | .block _ => 2
  | .fixed32 _ => 5

def bytes : WireValue → List UInt8
  | .varint value => Varint.encode value.toNat
  | .fixed64 value => (BigEndian.digits 8 value.toNat).reverse
  | .block bytes => delimited bytes
  | .fixed32 value => (BigEndian.digits 4 value.toNat).reverse

/-- Reads the value of field `number` that has the given wire type. -/
def read (type number : Nat) : Parse WireValue := fun bytes =>
  match type with
  | 0 => (Varint.decode bytes).map fun (v, rest) => (.varint v, rest)
  | 1 => (takeBlock 8 bytes).map fun (b, rest) => (.fixed64 (UInt64.ofNat (littleEndian b)), rest)
  | 2 => (takeDelimited bytes).map fun (b, rest) => (.block b, rest)
  | 5 => (takeBlock 4 bytes).map fun (b, rest) => (.fixed32 (UInt32.ofNat (littleEndian b)), rest)
  | _ => .error (.wireType type number)

end WireValue

end JarPruning.Metadata
