import JarPruning.ClassFile.ConstantPool.Extension
import JarPruning.Proofs.ClassFile.Format

/-!
Lookups in a constant pool and in the pools that have more entries behind. What resolves goes on
resolving to the same. What does not resolve stays so if everything that is looked at on the way is
there: an index beyond the pool can come to name an entry that is added later.
-/
namespace JarPruning

/-- The entries that a constant refers to. -/
def Constant.references : Constant → List UInt16
  | .classInfo i | .string i | .methodType i | .module i | .package i => [i]
  | .fieldRef i j | .methodRef i j | .interfaceMethodRef i j | .nameAndType i j => [i, j]
  | .methodHandle _ i | .dynamic _ i | .invokeDynamic _ i => [i]
  | .unusable | .utf8 _ _ | .integer _ | .float _ | .long _ | .double _ => []

namespace ConstantPool

/-- The entries of `p` are the first entries of `q`. -/
def Extends (p q : ConstantPool) : Prop := p.entries.toList <+: q.entries.toList

/-- Whether there is an entry at the index, usable or not. -/
def Reaches (pool : ConstantPool) (i : UInt16) : Prop := i.toNat < pool.entries.size

instance (pool : ConstantPool) (i : UInt16) : Decidable (pool.Reaches i) :=
  inferInstanceAs (Decidable (_ < _))

/-- There is an entry at the index, and whatever it refers to is in the pool. -/
structure Holds (pool : ConstantPool) (i : UInt16) : Prop where
  reaches : pool.Reaches i
  references : ∀ c, pool.entry i = .ok c → ∀ j ∈ c.references, pool.Reaches j

/-- Whatever the constant refers to is in the pool, and so is what that refers to in turn. No lookup
that starts with the constant goes any further. -/
def Anchors (pool : ConstantPool) (c : Constant) : Prop := ∀ i ∈ c.references, pool.Holds i

variable {p q r : ConstantPool}

theorem hasText_iff {i : UInt16} {text : String} :
    p.hasText i text = true ↔ p.utf8 i = .ok text := by
  unfold hasText
  cases p.utf8 i with
  | error e => simp
  | ok t => simp

theorem entry_ok_iff {i : UInt16} {c : Constant} :
    p.entry i = .ok c ↔ p.entries[i.toNat]? = some c ∧ c ≠ .unusable := by
  unfold entry
  cases p.entries[i.toNat]? with
  | none => simp
  | some d => cases d <;> cases c <;> simp

theorem mem_of_entry {i : UInt16} {c : Constant} (h : p.entry i = .ok c) :
    c ∈ p.entries.toList :=
  Array.mem_toList_iff.2 (Array.mem_of_getElem? (entry_ok_iff.1 h).1)

theorem utf8_ok_iff {i : UInt16} {text : String} :
    p.utf8 i = .ok text ↔ ∃ bytes, p.entries[i.toNat]? = some (.utf8 text bytes) := by
  refine ⟨utf8_ok, fun ⟨bytes, h⟩ => ?_⟩
  exact bind_ok_iff.2 ⟨_, entry_ok_iff.2 ⟨h, Constant.noConfusion⟩, rfl⟩

theorem className_ok_iff {i : UInt16} {name : String} :
    p.className i = .ok name ↔
      ∃ j, p.entries[i.toNat]? = some (.classInfo j) ∧ p.utf8 j = .ok name := by
  unfold className
  rw [bind_ok_iff]
  constructor
  · rintro ⟨c, hc, h⟩
    cases c with
    | classInfo j => exact ⟨j, (entry_ok_iff.1 hc).1, h⟩
    | _ => cases h
  · rintro ⟨j, hget, hname⟩
    exact ⟨_, entry_ok_iff.2 ⟨hget, Constant.noConfusion⟩, hname⟩

theorem nameAndType_ok_iff {i : UInt16} {s : Signature} :
    p.nameAndType i = .ok s ↔ ∃ j k, p.entries[i.toNat]? = some (.nameAndType j k) ∧
      p.utf8 j = .ok s.name ∧ p.utf8 k = .ok s.descriptor := by
  unfold nameAndType
  rw [bind_ok_iff]
  constructor
  · rintro ⟨c, hc, h⟩
    cases c with
    | nameAndType j k =>
      obtain ⟨name, hname, h⟩ := bind_ok_iff.1 h
      obtain ⟨descriptor, hdescriptor, h⟩ := bind_ok_iff.1 h
      cases h
      exact ⟨j, k, (entry_ok_iff.1 hc).1, hname, hdescriptor⟩
    | _ => cases h
  · rintro ⟨j, k, hget, hname, hdescriptor⟩
    exact ⟨_, entry_ok_iff.2 ⟨hget, Constant.noConfusion⟩,
      bind_ok_iff.2 ⟨_, hname, bind_ok_iff.2 ⟨_, hdescriptor, rfl⟩⟩⟩

theorem memberOf_ok_iff {i j : UInt16} {owner : String} {s : Signature} {isInterface : Bool} :
    p.memberOf i j isInterface = .ok ⟨s, owner, isInterface⟩ ↔
      p.className i = .ok owner ∧ p.nameAndType j = .ok s := by
  unfold memberOf
  constructor
  · intro h
    obtain ⟨name, hname, h⟩ := bind_ok_iff.1 h
    obtain ⟨signature, hsignature, h⟩ := bind_ok_iff.1 h
    cases h
    exact ⟨hname, hsignature⟩
  · rintro ⟨hname, hsignature⟩
    exact bind_ok_iff.2 ⟨_, hname, bind_ok_iff.2 ⟨_, hsignature, rfl⟩⟩

theorem reaches_of_utf8 {i : UInt16} {text : String} (h : p.utf8 i = .ok text) : p.Reaches i := by
  obtain ⟨bytes, hget⟩ := utf8_ok_iff.1 h
  exact (Array.getElem?_eq_some_iff.1 hget).1

/-! What resolves leads nowhere beyond the pool. -/

theorem holds_of_utf8 {i : UInt16} {text : String} (h : p.utf8 i = .ok text) : p.Holds i := by
  refine ⟨reaches_of_utf8 h, fun c hc j hj => ?_⟩
  obtain ⟨bytes, hget⟩ := utf8_ok_iff.1 h
  obtain rfl := Option.some.inj (hget.symm.trans (entry_ok_iff.1 hc).1)
  cases hj

theorem holds_of_className {i : UInt16} {name : String} (h : p.className i = .ok name) :
    p.Holds i := by
  obtain ⟨j, hget, hname⟩ := className_ok_iff.1 h
  refine ⟨(Array.getElem?_eq_some_iff.1 hget).1, fun c hc => ?_⟩
  obtain rfl := Option.some.inj (hget.symm.trans (entry_ok_iff.1 hc).1)
  exact List.forall_mem_singleton.2 (reaches_of_utf8 hname)

theorem holds_of_nameAndType {i : UInt16} {s : Signature} (h : p.nameAndType i = .ok s) :
    p.Holds i := by
  obtain ⟨j, k, hget, hname, hdescriptor⟩ := nameAndType_ok_iff.1 h
  refine ⟨(Array.getElem?_eq_some_iff.1 hget).1, fun c hc => ?_⟩
  obtain rfl := Option.some.inj (hget.symm.trans (entry_ok_iff.1 hc).1)
  exact List.forall_mem_cons.2 ⟨reaches_of_utf8 hname,
    List.forall_mem_singleton.2 (reaches_of_utf8 hdescriptor)⟩

namespace Extends

theorem refl (p : ConstantPool) : Extends p p := List.prefix_rfl

theorem trans (h : Extends p q) (h' : Extends q r) : Extends p r := List.IsPrefix.trans h h'

theorem size_le (h : Extends p q) : p.entries.size ≤ q.entries.size := List.IsPrefix.length_le h

theorem reaches (h : Extends p q) {i : UInt16} (hi : p.Reaches i) : q.Reaches i :=
  Nat.lt_of_lt_of_le hi h.size_le

theorem getElem? (h : Extends p q) {i : Nat} {c : Constant} (hc : p.entries[i]? = some c) :
    q.entries[i]? = some c := by
  obtain ⟨cs, hcs⟩ := h
  rw [← Array.getElem?_toList] at hc ⊢
  obtain ⟨hi, -⟩ := List.getElem?_eq_some_iff.1 hc
  rw [← hcs, List.getElem?_append_left hi, hc]

/-! What resolves goes on resolving. -/

theorem entry (h : Extends p q) (i : UInt16) : Persists (p.entry i) (q.entry i) := by
  intro c hc
  obtain ⟨hget, husable⟩ := entry_ok_iff.1 hc
  exact entry_ok_iff.2 ⟨h.getElem? hget, husable⟩

theorem utf8 (h : Extends p q) (i : UInt16) : Persists (p.utf8 i) (q.utf8 i) :=
  (h.entry i).bind fun _ _ => .refl _

theorem integer (h : Extends p q) (i : UInt16) : Persists (p.integer i) (q.integer i) :=
  (h.entry i).bind fun _ _ => .refl _

theorem className (h : Extends p q) (i : UInt16) : Persists (p.className i) (q.className i) := by
  refine (h.entry i).bind fun c _ => ?_
  cases c <;> first | exact h.utf8 _ | exact .refl _

theorem nameAndType (h : Extends p q) (i : UInt16) :
    Persists (p.nameAndType i) (q.nameAndType i) := by
  refine (h.entry i).bind fun c _ => ?_
  cases c <;>
    first
    | exact (h.utf8 _).bind fun _ _ => (h.utf8 _).bind fun _ _ => .refl _
    | exact .refl _

theorem memberOf (h : Extends p q) (owner nt : UInt16) (isInterface : Bool) :
    Persists (p.memberOf owner nt isInterface) (q.memberOf owner nt isInterface) :=
  (h.className owner).bind fun _ _ => (h.nameAndType nt).bind fun _ _ => .refl _

theorem memberRef (h : Extends p q) (i : UInt16) : Persists (p.memberRef i) (q.memberRef i) := by
  refine (h.entry i).bind fun c _ => ?_
  cases c <;> first | exact h.memberOf _ _ _ | exact .refl _

theorem methodHandle? (h : Extends p q) (i : UInt16) :
    Persists (p.methodHandle? i) (q.methodHandle? i) := by
  refine (h.entry i).bind fun c _ => ?_
  cases c <;> first | exact (h.memberRef _).bind fun _ _ => .refl _ | exact .refl _

theorem invokeDynamic (h : Extends p q) (i : UInt16) :
    Persists (p.invokeDynamic i) (q.invokeDynamic i) :=
  (h.entry i).bind fun _ _ => .refl _

theorem hasText (h : Extends p q) {i : UInt16} {text : String} (ht : p.hasText i text) :
    q.hasText i text :=
  hasText_iff.2 (h.utf8 i text (hasText_iff.1 ht))

/-! What is there says the same. -/

theorem entry_eq (h : Extends p q) {i : UInt16} (hi : p.Reaches i) : q.entry i = p.entry i := by
  unfold ConstantPool.entry
  rw [Array.getElem?_eq_getElem hi, h.getElem? (Array.getElem?_eq_getElem hi)]

theorem utf8_eq (h : Extends p q) {i : UInt16} (hi : p.Reaches i) : q.utf8 i = p.utf8 i := by
  unfold ConstantPool.utf8
  rw [h.entry_eq hi]

theorem hasText_eq (h : Extends p q) {i : UInt16} (hi : p.Reaches i) (text : String) :
    q.hasText i text = p.hasText i text := by
  unfold ConstantPool.hasText
  rw [h.utf8_eq hi]

theorem className_eq (h : Extends p q) {i : UInt16} (hi : p.Holds i) :
    q.className i = p.className i := by
  unfold ConstantPool.className
  rw [h.entry_eq hi.reaches]
  cases hc : p.entry i with
  | error e => rfl
  | ok c =>
    have hreferences := hi.references c hc
    cases c with
    | classInfo j => exact h.utf8_eq (hreferences j (List.mem_singleton_self j))
    | _ => rfl

theorem nameAndType_eq (h : Extends p q) {i : UInt16} (hi : p.Holds i) :
    q.nameAndType i = p.nameAndType i := by
  unfold ConstantPool.nameAndType
  rw [h.entry_eq hi.reaches]
  cases hc : p.entry i with
  | error e => rfl
  | ok c =>
    have hreferences := hi.references c hc
    cases c with
    | nameAndType j k =>
      show (do return (⟨← q.utf8 j, ← q.utf8 k⟩ : Signature)) = _
      rw [h.utf8_eq (hreferences j (by simp [Constant.references])),
        h.utf8_eq (hreferences k (by simp [Constant.references]))]
      rfl
    | _ => rfl

theorem memberOf_eq (h : Extends p q) {i j : UInt16} (hi : p.Holds i) (hj : p.Holds j)
    (isInterface : Bool) : q.memberOf i j isInterface = p.memberOf i j isInterface := by
  unfold ConstantPool.memberOf
  rw [h.className_eq hi, h.nameAndType_eq hj]

theorem anchors (h : Extends p q) {c : Constant} (hc : p.Anchors c) : q.Anchors c := by
  intro i hi
  obtain ⟨hreaches, hreferences⟩ := hc i hi
  refine ⟨h.reaches hreaches, fun d hd j hj => h.reaches (hreferences d ?_ j hj)⟩
  rwa [h.entry_eq hreaches] at hd

end Extends

end ConstantPool

end JarPruning
