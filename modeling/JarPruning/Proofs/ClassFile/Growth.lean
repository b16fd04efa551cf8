import JarPruning.Bytecode.Stub
import JarPruning.ClassFile.Annotation
import JarPruning.Proofs.ClassFile.Supply
import JarPruning.Proofs.Text.ModifiedUtf8

/-!
Growing constant pools. Additions put constants behind those that are there, so every index that
resolved goes on resolving to the same, and a pool that fits its class file goes on fitting.
-/
namespace JarPruning

namespace ConstantPool

/-- `q` is `p` with more constants behind. -/
structure Grows (p q : ConstantPool) : Prop where
  entries : ∃ cs, q.entries.toList = p.entries.toList ++ cs ∧
    ∀ c ∈ cs, c.IsSpelled ∧ c.isWide = false
  size : q.entries.size ≤ max p.entries.size capacity

namespace Grows

variable {p q r : ConstantPool}

theorem refl (p : ConstantPool) : Grows p p := ⟨⟨[], by simp⟩, Nat.le_max_left _ _⟩

theorem trans (h : Grows p q) (h' : Grows q r) : Grows p r := by
  obtain ⟨cs, hcs, hspelled⟩ := h.entries
  obtain ⟨ds, hds, hspelled'⟩ := h'.entries
  refine ⟨⟨cs ++ ds, by rw [hds, hcs, List.append_assoc], fun c hc => ?_⟩, ?_⟩
  · obtain hc | hc := List.mem_append.1 hc
    · exact hspelled c hc
    · exact hspelled' c hc
  · have := h.size
    have := h'.size
    omega

theorem slots_append {cs ds : List Constant} (h : Slots cs)
    (hds : ∀ c ∈ ds, c.IsSpelled ∧ c.isWide = false) : Slots (cs ++ ds) := by
  induction h with
  | nil =>
    induction ds with
    | nil => exact .nil
    | cons d ds ih =>
      obtain ⟨hspelled, hnarrow⟩ := hds d (List.mem_cons_self ..)
      exact .narrow hspelled hnarrow (ih fun c hc => hds c (List.mem_cons_of_mem _ hc))
  | narrow hspelled hnarrow _ ih => exact .narrow hspelled hnarrow ih
  | wide hspelled hwide _ ih => exact .wide hspelled hwide ih

theorem fits (h : Grows p q) (hp : p.Fits) : q.Fits := by
  obtain ⟨cs, hcs, hspelled⟩ := h.entries
  obtain ⟨ds, hds, hslots⟩ := hp.slots
  refine ⟨?_, ds ++ cs, by rw [hcs, hds]; rfl, slots_append hslots hspelled⟩
  have := h.size
  have := hp.size
  unfold capacity at *
  omega

theorem isPrefix (h : Grows p q) : p.entries.toList <+: q.entries.toList := by
  obtain ⟨cs, hcs, -⟩ := h.entries
  exact ⟨cs, hcs.symm⟩

theorem front (h : Grows p q) : Extends p q := h.isPrefix

theorem getElem? (h : Grows p q) {i : Nat} {c : Constant} (hc : p.entries[i]? = some c) :
    q.entries[i]? = some c :=
  h.front.getElem? hc

theorem utf8 (h : Grows p q) (i : UInt16) : Persists (p.utf8 i) (q.utf8 i) := h.front.utf8 i

theorem integer (h : Grows p q) (i : UInt16) : Persists (p.integer i) (q.integer i) :=
  h.front.integer i

theorem className (h : Grows p q) (i : UInt16) : Persists (p.className i) (q.className i) :=
  h.front.className i

theorem nameAndType (h : Grows p q) (i : UInt16) :
    Persists (p.nameAndType i) (q.nameAndType i) :=
  h.front.nameAndType i

theorem memberRef (h : Grows p q) (i : UInt16) : Persists (p.memberRef i) (q.memberRef i) :=
  h.front.memberRef i

theorem methodHandle? (h : Grows p q) (i : UInt16) :
    Persists (p.methodHandle? i) (q.methodHandle? i) :=
  h.front.methodHandle? i

theorem invokeDynamic (h : Grows p q) (i : UInt16) :
    Persists (p.invokeDynamic i) (q.invokeDynamic i) :=
  h.front.invokeDynamic i

theorem hasText (h : Grows p q) {i : UInt16} {text : String} (ht : p.hasText i text) :
    q.hasText i text :=
  h.front.hasText ht

theorem reaches (h : Grows p q) {i : UInt16} (hi : p.Reaches i) : q.Reaches i := h.front.reaches hi

theorem hasText_eq (h : Grows p q) {i : UInt16} (hi : p.Reaches i) (text : String) :
    q.hasText i text = p.hasText i text :=
  h.front.hasText_eq hi text

theorem isAnnotations (h : Grows p q) {a : Attribute} (ha : a.isAnnotations p = true) :
    a.isAnnotations q = true := by
  obtain ha | ha := Bool.or_eq_true_iff.1 ha
  · exact Bool.or_eq_true_iff.2 (.inl (h.hasText ha))
  · exact Bool.or_eq_true_iff.2 (.inr (h.hasText ha))

end Grows

end ConstantPool

/-- Whatever `r` reads, `r'` reads too. -/
def Reader.Persist {α : Type} (r r' : Reader α) : Prop := ∀ c, Persists (r.run c) (r'.run c)

namespace Reader.Persist

variable {α β : Type}

theorem refl (r : Reader α) : Persist r r := fun _ => .refl _

theorem lift {x y : Except Fault α} (h : Persists x y) : Persist (liftM x) (liftM y) :=
  fun c => h.bind fun a _ => .refl (.ok (a, c))

theorem bind {r r' : Reader α} {f f' : α → Reader β} (h : Persist r r')
    (hf : ∀ a, Persist (f a) (f' a)) : Persist (r >>= f) (r' >>= f') := by
  intro c
  rw [StateT.run_bind, StateT.run_bind]
  exact (h c).bind fun p _ => hf p.1 p.2

theorem times {r r' : Reader α} (h : Persist r r') (n : Nat) :
    Persist (Reader.times n r) (Reader.times n r') := by
  induction n with
  | zero => exact refl _
  | succ n ih => exact h.bind fun _ => ih.bind fun _ => refl _

theorem counted {r r' : Reader α} (h : Persist r r') :
    Persist (Reader.counted r) (Reader.counted r') :=
  (refl _).bind fun n => h.times n

theorem front {r r' : Reader α} (h : Persist r r') (bytes : List UInt8) :
    Persists (r.front bytes) (r'.front bytes) :=
  (h _).bind fun _ _ => .refl _

end Reader.Persist

namespace ConstantPool

/-- An addition that only puts constants behind. -/
def Adds {ε α : Type} (x : EStateM ε ConstantPool α) : Prop :=
  ∀ ⦃p a q⦄, x.run p = .ok a q → Grows p q

namespace Adds

variable {ε α β : Type}

theorem pure (a : α) : Adds (ε := ε) (Pure.pure a) := by
  intro p b q h
  cases h
  exact .refl p

theorem bind {x : EStateM ε ConstantPool α} {f : α → EStateM ε ConstantPool β} (hx : Adds x)
    (hf : ∀ a, Adds (f a)) : Adds (x >>= f) := by
  intro p b r h
  obtain ⟨a, q, hp, hq⟩ := run_bind_ok h
  exact (hx hp).trans (hf a hq)

theorem get {f : ConstantPool → EStateM ε ConstantPool β} (hf : ∀ p, Adds (f p)) :
    Adds (MonadState.get >>= f) := by
  intro p b q h
  exact hf p h

theorem push {c : Constant} (hc : c.IsSpelled) (hn : c.isWide = false) :
    Adds (ConstantPool.push c) := by
  intro p i q h
  obtain ⟨hroom, -, rfl⟩ := push_ok h
  refine ⟨⟨[c], by simp, by simp [hc, hn]⟩, ?_⟩
  simp only [Array.size_push]
  omega

theorem findOr {p : ConstantPool → Constant → Bool} {add : Extension UInt16} (h : Adds add) :
    Adds (ConstantPool.findOr p add) := by
  unfold ConstantPool.findOr
  refine get fun pool => ?_
  split
  · exact pure _
  · exact h

end Adds

/-- A text that fits a constant. -/
def FitsText (text : String) : Prop := (ModifiedUtf8.encode text).length < 256 ^ 2

theorem ofText_isSpelled {text : String} (h : FitsText text) : (Constant.ofText text).IsSpelled :=
  ⟨h, ModifiedUtf8.decode_encode text⟩

theorem addUtf8_adds {text : String} (h : FitsText text) : Adds (addUtf8 text) :=
  .findOr (.push (ofText_isSpelled h) rfl)

theorem addClass_adds {name : String} (h : FitsText name) : Adds (addClass name) :=
  .findOr ((addUtf8_adds h).bind fun _ => .push trivial rfl)

theorem addString_adds {text : String} (h : FitsText text) : Adds (addString text) :=
  .findOr ((addUtf8_adds h).bind fun _ => .push trivial rfl)

theorem addNameAndType_adds {s : Signature} (hname : FitsText s.name)
    (hdescriptor : FitsText s.descriptor) : Adds (addNameAndType s) :=
  .findOr ((addUtf8_adds hname).bind fun _ => (addUtf8_adds hdescriptor).bind fun _ =>
    .push trivial rfl)

theorem addMethodRef_adds {owner : String} {s : Signature} (howner : FitsText owner)
    (hname : FitsText s.name) (hdescriptor : FitsText s.descriptor) :
    Adds (addMethodRef owner s) :=
  .findOr ((addClass_adds howner).bind fun _ =>
    (addNameAndType_adds hname hdescriptor).bind fun _ => .push trivial rfl)

end ConstantPool

theorem MemberEntry.of_resolve {pool : ConstantPool} {entry : MemberEntry} {m : Member}
    (h : entry.resolve pool = .ok m) : pool.utf8 entry.name = .ok m.name ∧
      pool.utf8 entry.descriptor = .ok m.descriptor ∧ m.access = entry.access := by
  obtain ⟨name, hname, h⟩ := bind_ok_iff.1 h
  obtain ⟨descriptor, hdescriptor, h⟩ := bind_ok_iff.1 h
  cases h
  exact ⟨hname, hdescriptor, rfl⟩

end JarPruning
