import JarPruning.Proofs.Pass.Ledgers
import JarPruning.Proofs.Pass.Runs
import JarPruning.Proofs.Pass.Unaltered

/-!
What a class and its memory agree on through a run: no two methods have the same name and
descriptor, and a method that is remembered as stubbed still asks for its stub.
-/
namespace JarPruning

open ConstantPool (Grows)

namespace Prune

variable {policy : Policy} {l l' : Ledger} {c c' : ClassFile}

structure Consistent (policy : Policy) (l : Ledger) (c : ClassFile) : Prop where
  differ : MethodsDiffer c.pool c.methods
  stubbed : ∀ entry ∈ c.methods, ∀ m, entry.resolve c.pool = .ok m →
    l.memory.stubbed.contains m.toSignature = true → Asks policy c.pool entry m

theorem MethodsDiffer.unique {pool : ConstantPool} {entries : List MemberEntry}
    (h : MethodsDiffer pool entries) {a b : MemberEntry} (ha : a ∈ entries) (hb : b ∈ entries)
    {m n : Member} (hm : a.resolve pool = .ok m) (hn : b.resolve pool = .ok n)
    (heq : m.toSignature = n.toSignature) : a = b := by
  induction entries with
  | nil => cases ha
  | cons entry entries ih =>
    obtain ⟨hfirst, hrest⟩ := List.pairwise_cons.1 h
    obtain rfl | hain := List.mem_cons.1 ha <;> obtain rfl | hbin := List.mem_cons.1 hb
    · rfl
    · exact absurd heq (hfirst b hbin m n hm hn)
    · exact absurd heq.symm (hfirst a hain n m hn hm)
    · exact ih hrest hain hbin

/-- Methods derived from methods that differ differ. -/
theorem MethodsDiffer.derived {p q : ConstantPool} {entries sub es : List MemberEntry}
    (h : MethodsDiffer p entries) (hsub : List.Sublist sub entries)
    (hall : List.Forall₂ (Derived policy p) sub es) (hgrows : Grows p q) : MethodsDiffer q es := by
  have hdiffer := h.sublist hsub
  clear h hsub
  induction hall with
  | nil => exact .nil
  | @cons a b as bs hab habs ih =>
    obtain ⟨hfirst, hrest⟩ := List.pairwise_cons.1 hdiffer
    refine List.pairwise_cons.2 ⟨fun b' hb' m n hm hn => ?_, ih hrest⟩
    obtain ⟨a', ha', hab'⟩ := forall₂_mem_right habs hb'
    obtain ⟨m', hm', hbm⟩ := hab.resolve hgrows
    obtain ⟨n', hn', hbn⟩ := hab'.resolve hgrows
    obtain rfl := Except.ok.inj (hm.symm.trans hbm)
    obtain rfl := Except.ok.inj (hn.symm.trans hbn)
    exact hfirst a' ha' m n hm' hn'

theorem Consistent.last (h : Consistent policy l c) (r : Rewriting policy l c) :
    Consistent policy r.last c where
  differ := h.differ
  stubbed entry hentry m hm hkey := by
    obtain hkey | ⟨entry', hentry', m', hasks, heq⟩ := r.stubbed_asks hkey
    · exact h.stubbed entry hentry m hm hkey
    · obtain rfl := h.differ.unique hentry hentry' hm hasks.1 heq.symm
      obtain rfl := Except.ok.inj (hm.symm.trans hasks.1)
      exact hasks

theorem Asks.derived {p q : ConstantPool} {entry entry' : MemberEntry} {m : Member}
    (h : Asks policy p entry m) (hderived : Derived policy p entry entry') (hgrows : Grows p q) :
    Asks policy q entry' m := by
  obtain ⟨hm, hconstructor, e, d, hd, hstubs⟩ := h
  obtain ⟨m', hm', hresolve⟩ := hderived.resolve hgrows
  obtain rfl := Except.ok.inj (hm.symm.trans hm')
  have hkeep : policy.strips d = false := by
    unfold Policy.stubs at hstubs
    unfold Policy.strips
    rw [of_decide_eq_true hstubs]
    rfl
  exact ⟨hresolve, hconstructor, e, d, hderived.annotated hgrows hd hkeep, hstubs⟩

/-- A pass leaves what it writes consistent with what it remembers. -/
theorem Consistent.rewritten (h : Consistent policy l c) (r : Rewriting policy l c)
    (hc : c.Framed) (hpool : c'.pool = r.pool) (hmethods : c'.methods = r.methods) :
    Consistent policy r.last c' := by
  obtain ⟨sub, hsub, hall⟩ := methods_derived r.ofMethods r.installed
  have hgrows := r.pool_grows hc
  constructor
  · rw [hpool, hmethods]
    exact h.differ.derived hsub hall hgrows
  · rw [hpool, hmethods]
    intro entry' hentry' m' hm' hkey
    obtain ⟨entry, hentry, hderived⟩ := forall₂_mem_right hall hentry'
    obtain ⟨m, hm, hresolve⟩ := hderived.resolve hgrows
    obtain rfl := Except.ok.inj (hm'.symm.trans hresolve)
    exact ((h.last r).stubbed entry (hsub.mem hentry) m' hm hkey).derived hderived hgrows

/-- The class that is read from what a pass wrote is what it wrote, but perhaps for the
attributes of the class. -/
theorem Rewriting.reread (r : Rewriting policy l c) (hc : c.Framed)
    (h : ClassFile.ofBytes r.result.bytes = .ok c') :
    c' = { r.result with attributes := c'.attributes } := by
  obtain ⟨hbytes, hfits, -⟩ := ClassFile.of_ofBytes h
  rw [ClassFile.bytes_eq, ClassFile.bytes_eq] at hbytes
  exact (ClassFile.frame_of_readFrame (r.framed hc) hfits.toFramed hbytes).2

/-- What a run keeps of every class. -/
def consistency (policy : Policy) : Claims where
  good _ := True
  holds _ _ l bytes := ∀ c, ClassFile.ofBytes bytes = .ok c → Consistent policy l c
  gone _ _ := True

theorem Consistent.expire (h : Consistent policy l c) : Consistent policy l.expire c :=
  ⟨h.differ, h.stubbed⟩

theorem consistency_kept (policy : Policy) (made : Begun → Prop) :
    (consistency policy).Kept policy made where
  pass {o passed l bytes l' out} _ _ hholds hpass := by
    obtain ⟨c, hc, hpassed⟩ := pass_ok hpass
    have hconsistent := (hholds c hc).expire
    have hfits := (ClassFile.of_ofBytes hc).2.1
    refine ⟨trivial, hpassed.tracker_le, ?_⟩
    cases hpassed with
    | discarded _ _ => trivial
    | modified r _ =>
      intro c' hc'
      have hc'' := r.reread hfits.toFramed hc'
      refine hconsistent.rewritten r hfits.toFramed ?_ ?_ <;> rw [hc''] <;> rfl
    | unchanged r _ =>
      intro c' hc'
      cases hc.symm.trans hc'
      exact hconsistent.last r
  grow _ _ hholds c hc := ⟨(hholds c hc).differ, (hholds c hc).stubbed⟩
  goneGrow _ _ _ := trivial

/-- A pass that leaves a class as it was had nothing to do with its members. -/
theorem Rewriting.members_rest (r : Rewriting policy l c) (hc : c.Framed)
    (hdiffer : MethodsDiffer c.pool c.methods)
    (hsame : r.changed = false ∨ r.result.bytes = c.bytes) :
    r.afterMethods.tracker = l.tracker ∧ r.stubbed = c.pool ∧
      countedBytes Attribute.bytes r.attributes = countedBytes Attribute.bytes c.attributes ∧
      (∀ f ∈ c.fields, ∃ m ms, FieldRests policy r.name c.pool l f m ms) ∧
      ∀ entry ∈ c.methods, ∃ m ms,
        MethodRests policy r.name c.pool r.bootstraps l entry m ms := by
  obtain ⟨hfields, hmethods, hattributes, hpool⟩ := r.of_same hc hsame
  have hofFields := r.ofFields
  rw [hfields] at hofFields
  obtain ⟨hledger, hrest⟩ := fields_rest hofFields
  have hofMethods := r.ofMethods
  have hinstalled := r.installed
  rw [hledger] at hofMethods
  rw [hmethods] at hinstalled
  obtain ⟨htracker, hrest'⟩ := methods_rest hdiffer hofMethods hinstalled
  exact ⟨htracker, hpool, hattributes, hrest, hrest'⟩

theorem quiet_tracker {entry : String} {bytes : List UInt8}
    (h : ∀ c, ClassFile.ofBytes bytes = .ok c → Consistent policy l c)
    (hpass : pass policy entry bytes l = .ok (l', .unchanged)) : l'.tracker = l.tracker := by
  obtain ⟨c, hc, hpassed⟩ := pass_ok hpass
  obtain ⟨r, rfl, hsame⟩ := hpassed.of_unchanged
  rw [r.last_ledger.1]
  exact (r.members_rest (ClassFile.of_ofBytes hc).2.1.toFramed (h c hc).differ hsame).1

end Prune

end JarPruning
