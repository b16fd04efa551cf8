import JarPruning.Proofs.ClassFile.Format

/-!
Readers on a byte string and on a part of it from the front. Both runs go in lockstep until the
shorter string runs out, so a class file cut short is told from every other fault.
-/
namespace JarPruning

namespace Reader

variable {α β : Type}

/-- `r` asks for more bytes than are left of `bytes`, and reports the place where it does. -/
def RunsOut (r : Reader α) (bytes : List UInt8) (offset : Nat) : Prop :=
  ∃ k n, r.run ⟨bytes, offset⟩ = .error ⟨k, .unexpectedEnd n⟩ ∧ k ≤ offset + bytes.length ∧
    offset + bytes.length < k + n

/-- Where `r` succeeds on a byte string, it does on each front of it what it does on the whole, or
runs out of bytes. -/
def Lockstep (r : Reader α) : Prop :=
  ∀ ⦃front back offset a c⦄, r.run ⟨front ++ back, offset⟩ = .ok (a, c) →
    (∃ rest, c.rest = rest ++ back ∧ c.offset + rest.length = offset + front.length ∧
      r.run ⟨front, offset⟩ = .ok (a, ⟨rest, c.offset⟩)) ∨ RunsOut r front offset

namespace Lockstep

theorem pure (a : α) : Lockstep (Pure.pure a) := by
  intro front back offset b c h
  cases h
  exact .inl ⟨front, rfl, rfl, rfl⟩

theorem throw (e : Fault) : Lockstep (MonadExcept.throw e : Reader α) := by
  intro front back offset a c h
  cases h

theorem fail (reason : Reason) : Lockstep (fail reason : Reader α) := by
  intro front back offset a c h
  cases h

theorem offset : Lockstep offset := by
  intro front back start n c h
  cases h
  exact .inl ⟨front, rfl, rfl, rfl⟩

theorem bind {r : Reader α} {f : α → Reader β} (hr : Lockstep r) (hf : ∀ a, Lockstep (f a)) :
    Lockstep (r >>= f) := by
  intro front back offset b c h
  rw [StateT.run_bind] at h
  obtain ⟨⟨a, c₁⟩, ha, hb⟩ := bind_ok_iff.1 h
  rcases hr ha with ⟨rest, hrest, hplace, hfront⟩ | ⟨k, n, herror, hk, hn⟩
  · obtain ⟨_, start⟩ := c₁
    dsimp only at hrest hplace hfront
    subst hrest
    -- The second reader starts at the same place in both runs, with `back` behind one of them.
    rcases hf a hb with ⟨rest', hrest', hplace', hback⟩ | ⟨k, n, herror, hk, hn⟩
    · exact .inl ⟨rest', hrest', by omega, by rw [StateT.run_bind, hfront]; exact hback⟩
    · exact .inr ⟨k, n, by rw [StateT.run_bind, hfront]; exact herror, by omega, by omega⟩
  · exact .inr ⟨k, n, by rw [StateT.run_bind, herror]; rfl, hk, hn⟩

/-- A reader that ends by naming what it read. -/
theorem map {r : Reader α} (hr : Lockstep r) (f : α → β) :
    Lockstep (r >>= fun a => Pure.pure (f a)) :=
  hr.bind fun a => pure (f a)

theorem take (n : Nat) : Lockstep (take n) := by
  intro front back offset bytes c h
  simp only [StateT.run, Reader.take] at h
  split at h
  · next _ rest hcut =>
    cases h
    obtain ⟨happend, hlength⟩ := cut?_eq_some_iff.1 hcut
    by_cases hn : n ≤ front.length
    · obtain ⟨rest', hfront⟩ : bytes <+: front :=
        List.prefix_of_prefix_length_le ⟨rest, happend.symm⟩ (List.prefix_append front back)
          (hlength ▸ hn)
      have hrest : rest = rest' ++ back := by
        rw [← hfront, List.append_assoc] at happend
        exact (List.append_cancel_left happend).symm
      refine .inl ⟨rest', hrest, ?_, ?_⟩
      · rw [← hfront, List.length_append, hlength, Nat.add_assoc]
      · simp only [StateT.run, Reader.take, cut?_eq_some_iff.2 ⟨hfront.symm, hlength⟩]
    · have hnone : cut? n front = none := cut?_eq_none_iff.2 (Nat.lt_of_not_le hn)
      refine .inr ⟨offset, n, ?_, Nat.le_add_right .., by omega⟩
      simp only [StateT.run, Reader.take, hnone]
  · cases h

theorem number (width : Nat) : Lockstep (number width) := (take width).map _

theorem word8 : Lockstep word8 := (number 1).map _

theorem word16 : Lockstep word16 := (number 2).map _

theorem word32 : Lockstep word32 := (number 4).map _

theorem word64 : Lockstep word64 := (number 4).bind fun _ => (number 4).map _

theorem times {r : Reader α} (hr : Lockstep r) (n : Nat) : Lockstep (times n r) := by
  induction n with
  | zero => exact pure []
  | succ n ih => exact hr.bind fun _ => ih.map _

theorem counted {r : Reader α} (hr : Lockstep r) : Lockstep (counted r) :=
  (number 2).bind hr.times

end Lockstep

end Reader

open Reader

theorem Attribute.read_lockstep : Lockstep Attribute.read :=
  Lockstep.word16.bind fun _ => (Lockstep.number 4).bind fun n => (Lockstep.take n).map _

theorem MemberEntry.read_lockstep : Lockstep MemberEntry.read :=
  Lockstep.word16.bind fun _ => Lockstep.word16.bind fun _ => Lockstep.word16.bind fun _ =>
    Attribute.read_lockstep.counted.map _

namespace Constant

theorem readText_lockstep (start : Nat) : Lockstep (readText start) := by
  refine (Lockstep.number 2).bind fun n => (Lockstep.take n).bind fun bytes => ?_
  cases ModifiedUtf8.decode bytes with
  | ok text => exact Lockstep.pure _
  | error fault => exact Lockstep.throw _

theorem two_lockstep {α β : Type} {r : Reader α} {r' : Reader β} (hr : Lockstep r)
    (hr' : Lockstep r') (k : α → β → Constant) : Lockstep (do return k (← r) (← r')) :=
  hr.bind fun _ => hr'.map _

theorem read_lockstep : Lockstep Constant.read := by
  refine Lockstep.offset.bind fun start => Lockstep.word8.bind fun tag => ?_
  split
  · exact readText_lockstep start
  · exact Lockstep.word32.map _
  · exact Lockstep.word32.map _
  · exact Lockstep.word64.map _
  · exact Lockstep.word64.map _
  · exact Lockstep.word16.map _
  · exact Lockstep.word16.map _
  · exact two_lockstep .word16 .word16 _
  · exact two_lockstep .word16 .word16 _
  · exact two_lockstep .word16 .word16 _
  · exact two_lockstep .word16 .word16 _
  · exact two_lockstep .word8 .word16 _
  · exact Lockstep.word16.map _
  · exact two_lockstep .word16 .word16 _
  · exact two_lockstep .word16 .word16 _
  · exact Lockstep.word16.map _
  · exact Lockstep.word16.map _
  · exact Lockstep.throw _

end Constant

namespace ConstantPool

/-- The entries are fewer than the slots when some are wide: a round fills one slot or two. -/
theorem readEntries_lockstep (slots : Nat) : Lockstep (readEntries slots) := by
  induction slots using Nat.strongRecOn with
  | ind slots ih =>
    cases slots with
    | zero => exact Lockstep.pure []
    | succ slots =>
      rw [readEntries]
      refine Constant.read_lockstep.bind fun c => ?_
      split
      · cases slots with
        | zero => exact Lockstep.fail _
        | succ slots => exact (ih slots (by omega)).map _
      · exact (ih slots (by omega)).map _

theorem read_lockstep : Lockstep ConstantPool.read := by
  refine (Lockstep.number 2).bind fun n => ?_
  cases n with
  | zero => exact Lockstep.fail _
  | succ slots => exact (readEntries_lockstep slots).map _

end ConstantPool

namespace ClassFile

theorem read_lockstep : Lockstep ClassFile.read := by
  refine (Lockstep.number 4).bind fun found => ?_
  split
  on_goal 2 => refine (Lockstep.throw _).bind fun _ => ?_
  -- Both branches go on with what follows the magic number.
  all_goals
    exact Lockstep.word16.bind fun _ => Lockstep.word16.bind fun _ =>
      ConstantPool.read_lockstep.bind fun _ => Lockstep.word16.bind fun _ =>
      Lockstep.word16.bind fun _ => Lockstep.word16.bind fun _ =>
      Lockstep.word16.counted.bind fun _ => MemberEntry.read_lockstep.counted.bind fun _ =>
      MemberEntry.read_lockstep.counted.bind fun _ => Attribute.read_lockstep.counted.map _

/-- A class file is all of its bytes and nothing else: cut short it ends too early, at a read that
asks for more than is left, and behind it nothing may follow. -/
theorem ofBytes_unextendable {bytes : List UInt8} {c : ClassFile} (h : ofBytes bytes = .ok c) :
    (∀ front back, front ++ back = bytes → back ≠ [] → ∃ k n,
      ofBytes front = .error ⟨k, .unexpectedEnd n⟩ ∧ k ≤ front.length ∧ front.length < k + n) ∧
    ∀ extra, extra ≠ [] → ofBytes (bytes ++ extra) = .error ⟨bytes.length, .trailingAfterClass⟩ := by
  obtain ⟨rfl, hfits, -⟩ := of_ofBytes h
  refine ⟨fun front back happend hback => ?_, fun extra hextra => ?_⟩
  · have hrun := read_reads hfits [] 0
    rw [List.append_nil, ← happend] at hrun
    rcases read_lockstep hrun with ⟨rest, hrest, -, -⟩ | ⟨k, n, herror, hk, hn⟩
    · exact absurd (List.append_eq_nil_iff.1 hrest.symm).2 hback
    · rw [Nat.zero_add] at hk hn
      refine ⟨k, n, ?_, hk, hn⟩
      rw [ofBytes, whole, herror]
      rfl
  · have hempty : extra.isEmpty = false := List.isEmpty_eq_false_iff.2 hextra
    rw [ofBytes, whole, read_reads hfits extra 0]
    simp only [bind, Except.bind, hempty, Nat.zero_add]
    rfl

/-- A class with a constant of two slots and a method with an attribute. -/
def wideClass : ClassFile where
  minor := 0
  major := 52
  pool := ⟨#[.unusable, .ofText "A", .classInfo 1, .long 3, .unusable, .ofText "m", .ofText "()V"]⟩
  access := 0
  thisClass := 2
  superClass := 0
  interfaces := []
  fields := []
  methods := [⟨0, 5, 6, [⟨1, [0, 1, 2]⟩]⟩]
  attributes := []

/-- Cut inside the wide constant, and with a byte too many. -/
theorem ofBytes_unextendable_wide : ofBytes wideClass.bytes = .ok wideClass ∧
    (∃ k n, ofBytes (wideClass.bytes.take 24) = .error ⟨k, .unexpectedEnd n⟩ ∧ k ≤ 24 ∧
      24 < k + n) ∧
    ofBytes (wideClass.bytes ++ [0]) = .error ⟨wideClass.bytes.length, .trailingAfterClass⟩ := by
  have hread : ofBytes wideClass.bytes = .ok wideClass := by decide +kernel
  obtain ⟨hcut, htrailing⟩ := ofBytes_unextendable hread
  have hlength : (wideClass.bytes.take 24).length = 24 := by decide
  have hfront := hcut (wideClass.bytes.take 24) (wideClass.bytes.drop 24)
    (List.take_append_drop ..) (by decide)
  rw [hlength] at hfront
  exact ⟨hread, hfront, htrailing [0] (by decide)⟩

end ClassFile

end JarPruning
