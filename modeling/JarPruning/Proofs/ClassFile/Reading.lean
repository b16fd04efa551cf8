import JarPruning.ClassFile.Format
import JarPruning.Proofs.Bytes.BigEndian

/-!
Readers and what they read. A reader reads a byte string as a value if it does so whatever
follows; it finds only what a grammar allows if each of its answers was in front that way.
-/
namespace JarPruning

namespace Reader

variable {α β : Type}

/-- `r` takes `bytes` from the front, whatever follows, and answers `a`. -/
def Reads (r : Reader α) (bytes : List UInt8) (a : α) : Prop :=
  ∀ rest offset, r.run ⟨bytes ++ rest, offset⟩ = .ok (a, ⟨rest, offset + bytes.length⟩)

/-- What `r` answers was in front, and is as `p` says. -/
def Finds (r : Reader α) (p : α → List UInt8 → Prop) : Prop :=
  ∀ ⦃c a c'⦄, r.run c = .ok (a, c') → ∃ front, c.rest = front ++ c'.rest ∧ p a front

namespace Reads

theorem pure (a : α) : Reads (Pure.pure a) [] a := fun _ _ => rfl

theorem bind {r : Reader α} {f : α → Reader β} {front back : List UInt8} {a : α} {b : β}
    (hr : Reads r front a) (hf : Reads (f a) back b) :
    Reads (r >>= f) (front ++ back) b := by
  intro rest offset
  rw [StateT.run_bind, List.append_assoc, hr]
  show (f a).run _ = _
  rw [hf, List.length_append, Nat.add_assoc]

/-- What follows reads nothing more. -/
theorem ends {r : Reader α} {f : α → Reader β} {bytes : List UInt8} {a : α} {b : β}
    (hr : Reads r bytes a) (hf : Reads (f a) [] b) : Reads (r >>= f) bytes b := by
  have := hr.bind hf
  rwa [List.append_nil] at this

/-- A reader that ends by naming what it read. -/
theorem map {r : Reader α} {f : α → β} {bytes : List UInt8} {a : α} (hr : Reads r bytes a) :
    Reads (r >>= fun a => Pure.pure (f a)) bytes (f a) :=
  hr.ends (pure (f a))

theorem front {r : Reader α} {bytes : List UInt8} {a : α} (hr : Reads r bytes a)
    (rest : List UInt8) : r.front (bytes ++ rest) = .ok a := by
  unfold Reader.front
  rw [hr]
  rfl

theorem whole {r : Reader α} {bytes : List UInt8} {a : α} (hr : Reads r bytes a)
    (trailing : Reason) : r.whole trailing bytes = .ok a := by
  have hrun := hr [] 0
  rw [List.append_nil] at hrun
  unfold Reader.whole
  rw [hrun]
  rfl

end Reads

namespace Finds

theorem pure {a : α} {p : α → List UInt8 → Prop} (h : p a []) : Finds (Pure.pure a) p := by
  intro c a' c' hr
  cases hr
  exact ⟨[], rfl, h⟩

theorem throw {p : α → List UInt8 → Prop} {e : Fault} :
    Finds (MonadExcept.throw e) p := by
  intro c a c' hr
  cases hr

theorem fail {p : α → List UInt8 → Prop} {reason : Reason} : Finds (fail reason) p := by
  intro c a c' hr
  cases hr

theorem bind {r : Reader α} {f : α → Reader β} {p : α → List UInt8 → Prop}
    {q : β → List UInt8 → Prop} (hr : Finds r p)
    (hf : ∀ a front, p a front → Finds (f a) fun b back => q b (front ++ back)) :
    Finds (r >>= f) q := by
  intro c b c' h
  rw [StateT.run_bind] at h
  cases ha : r.run c with
  | error e => simp [ha, Bind.bind, Except.bind] at h
  | ok s =>
    obtain ⟨a, c₁⟩ := s
    simp only [ha, Bind.bind, Except.bind] at h
    obtain ⟨front, hfront, hp⟩ := hr ha
    obtain ⟨back, hback, hq⟩ := hf a front hp h
    exact ⟨front ++ back, by rw [hfront, hback, List.append_assoc], hq⟩

theorem mono {r : Reader α} {p q : α → List UInt8 → Prop} (hr : Finds r p)
    (h : ∀ a front, p a front → q a front) : Finds r q := by
  intro c a c' hc
  obtain ⟨front, hfront, hp⟩ := hr hc
  exact ⟨front, hfront, h a front hp⟩

theorem whole {r : Reader α} {p : α → List UInt8 → Prop} (hr : Finds r p) {trailing : Reason}
    {bytes : List UInt8} {a : α} (h : r.whole trailing bytes = .ok a) : p a bytes := by
  unfold Reader.whole at h
  cases hc : r.run ⟨bytes, 0⟩ with
  | error e => simp [hc, Bind.bind, Except.bind] at h
  | ok s =>
    obtain ⟨a', c'⟩ := s
    simp only [hc, Bind.bind, Except.bind] at h
    obtain ⟨front, hfront, hp⟩ := hr hc
    cases hempty : c'.rest with
    | nil =>
      simp only [hempty, List.isEmpty_nil, ↓reduceIte, Pure.pure, Except.pure,
        Except.ok.injEq] at h
      rw [hempty, List.append_nil] at hfront
      dsimp only at hfront
      rwa [hfront, ← h]
    | cons b rest => simp [hempty] at h

theorem front {r : Reader α} {p : α → List UInt8 → Prop} (hr : Finds r p)
    {bytes : List UInt8} {a : α} (h : r.front bytes = .ok a) :
    ∃ front rest, bytes = front ++ rest ∧ p a front := by
  unfold Reader.front at h
  cases hc : r.run ⟨bytes, 0⟩ with
  | error e => simp [hc, Bind.bind, Except.bind] at h
  | ok s =>
    obtain ⟨a', c'⟩ := s
    simp only [hc, Bind.bind, Except.bind, Pure.pure, Except.pure, Except.ok.injEq] at h
    obtain ⟨front, hfront, hp⟩ := hr hc
    exact ⟨front, c'.rest, hfront, h ▸ hp⟩

end Finds

open BigEndian

theorem take_reads (bytes : List UInt8) : Reads (take bytes.length) bytes bytes := by
  intro rest offset
  simp only [StateT.run, take, cut?_append]

theorem take_finds (n : Nat) :
    Finds (take n) fun bytes front => front = bytes ∧ bytes.length = n := by
  intro c bytes c' h
  simp only [StateT.run, take] at h
  split at h
  · next front rest hcut =>
    cases h
    obtain ⟨hrest, hlength⟩ := cut?_eq_some_iff.1 hcut
    exact ⟨bytes, hrest, rfl, hlength⟩
  · cases h

theorem number_reads {width n : Nat} (h : n < 256 ^ width) :
    Reads (number width) (digits width n) n := by
  have htake := take_reads (digits width n)
  rw [length_digits] at htake
  have hmap := htake.map (f := value)
  rwa [value_digits, Nat.mod_eq_of_lt h] at hmap

theorem number_finds (width : Nat) :
    Finds (number width) fun n front => front = digits width n ∧ n < 256 ^ width := by
  refine (take_finds width).bind fun bytes front h => Finds.pure ?_
  obtain ⟨rfl, rfl⟩ := h
  exact ⟨by rw [List.append_nil, digits_value], value_lt front⟩

theorem word8_reads (b : UInt8) : Reads word8 [b] b := by
  have h := (@number_reads 1 _ b.toNat_lt).map (f := UInt8.ofNat)
  rwa [UInt8.ofNat_toNat, show digits 1 b.toNat = [b] by simp [digits]] at h

theorem word8_finds : Finds word8 fun b front => front = [b] := by
  refine (number_finds 1).bind fun n front h => Finds.pure ?_
  obtain ⟨rfl, -⟩ := h
  simp [digits]

theorem word16_reads (w : UInt16) : Reads word16 (BigEndian.word16 w) w := by
  have h := (@number_reads 2 _ w.toNat_lt).map (f := UInt16.ofNat)
  rwa [UInt16.ofNat_toNat] at h

theorem word16_finds : Finds word16 fun w front => front = BigEndian.word16 w := by
  refine (number_finds 2).bind fun n front h => Finds.pure ?_
  obtain ⟨rfl, hn⟩ := h
  have hword : n < 2 ^ 16 := hn
  rw [List.append_nil, BigEndian.word16, UInt16.toNat_ofNat', Nat.mod_eq_of_lt hword]

theorem word32_reads (w : UInt32) : Reads word32 (BigEndian.word32 w) w := by
  have h := (@number_reads 4 _ w.toNat_lt).map (f := UInt32.ofNat)
  rwa [UInt32.ofNat_toNat] at h

theorem word32_finds : Finds word32 fun w front => front = BigEndian.word32 w := by
  refine (number_finds 4).bind fun n front h => Finds.pure ?_
  obtain ⟨rfl, hn⟩ := h
  have hword : n < 2 ^ 32 := hn
  rw [List.append_nil, BigEndian.word32, UInt32.toNat_ofNat', Nat.mod_eq_of_lt hword]

theorem word64_reads (w : UInt64) : Reads word64 (BigEndian.word64 w) w := by
  have hw := w.toNat_lt
  have hhigh : w.toNat / 256 ^ 4 < 256 ^ 4 := by omega
  have hlow : w.toNat % 256 ^ 4 < 256 ^ 4 := by omega
  have hsplit : w.toNat / 256 ^ 4 * 256 ^ 4 + w.toNat % 256 ^ 4 = w.toNat := by omega
  have h := Reads.bind
    (f := fun high => do return UInt64.ofNat (high * UInt32.size + (← number 4)))
    (number_reads hhigh) (number_reads hlow).map
  have hsize : UInt32.size = 256 ^ 4 := rfl
  rw [← digits_add hhigh hlow, hsize, hsplit, UInt64.ofNat_toNat] at h
  exact h

theorem word64_finds : Finds word64 fun w front => front = BigEndian.word64 w := by
  refine (number_finds 4).bind fun high front hh => (number_finds 4).bind fun low back hl =>
    Finds.pure ?_
  obtain ⟨rfl, hhigh⟩ := hh
  obtain ⟨rfl, hlow⟩ := hl
  have hsize : UInt32.size = 256 ^ 4 := rfl
  have hsum : (UInt64.ofNat (high * UInt32.size + low)).toNat = high * 256 ^ 4 + low := by
    rw [UInt64.toNat_ofNat', hsize, Nat.mod_eq_of_lt (by omega)]
  rw [List.append_nil, BigEndian.word64, hsum]
  exact (digits_add hhigh hlow).symm

/-- Bytes of items one after another. -/
theorem times_reads {r : Reader α} {f : α → List UInt8} {l : List α}
    (h : ∀ a ∈ l, Reads r (f a) a) : Reads (times l.length r) (l.flatMap f) l := by
  induction l with
  | nil => exact Reads.pure []
  | cons a l ih =>
    rw [List.length_cons, times, List.flatMap_cons]
    exact (h a (List.mem_cons_self ..)).bind
      ((ih fun b hb => h b (List.mem_cons_of_mem _ hb)).map (f := (a :: ·)))

theorem times_finds {r : Reader α} {f : α → List UInt8} {p : α → Prop}
    (h : Finds r fun a front => front = f a ∧ p a) (n : Nat) :
    Finds (times n r) fun l front => front = l.flatMap f ∧ l.length = n ∧ ∀ a ∈ l, p a := by
  induction n with
  | zero => exact Finds.pure ⟨rfl, rfl, by simp⟩
  | succ n ih =>
    rw [times]
    refine h.bind fun a front ha => ih.bind fun l back hl => Finds.pure ?_
    obtain ⟨rfl, ha⟩ := ha
    obtain ⟨rfl, rfl, hl⟩ := hl
    refine ⟨by simp, rfl, fun b hb => ?_⟩
    obtain rfl | hb := List.mem_cons.1 hb
    · exact ha
    · exact hl b hb

theorem counted_reads {r : Reader α} {f : α → List UInt8} {l : List α}
    (h : ∀ a ∈ l, Reads r (f a) a) (hl : l.length < 256 ^ 2) :
    Reads (counted r) (countedBytes f l) l :=
  (number_reads hl).bind (times_reads h)

theorem counted_finds {r : Reader α} {f : α → List UInt8} {p : α → Prop}
    (h : Finds r fun a front => front = f a ∧ p a) :
    Finds (counted r) fun l front =>
      front = countedBytes f l ∧ l.length < 256 ^ 2 ∧ ∀ a ∈ l, p a := by
  refine (number_finds 2).bind fun n front hn => (times_finds h n).mono fun l back hl => ?_
  obtain ⟨rfl, hn⟩ := hn
  obtain ⟨rfl, rfl, hl⟩ := hl
  exact ⟨rfl, hn, hl⟩

end Reader

end JarPruning
