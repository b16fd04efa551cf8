import JarPruning.Proofs.Pass.Frame

/-!
What a list of attributes is annotated with. An annotation that is not stripped is still there when
the attributes are read again, in a pool that has grown and beside an edited body.
-/
namespace JarPruning

open ConstantPool (Grows)
open AnnotationEntry (readTable)

/-- Some annotation table among the attributes holds the annotation, of this type. -/
def Annotated (pool : ConstantPool) (as : List Attribute) (e : AnnotationEntry) (d : String) :
    Prop :=
  ∃ a ∈ as, a.isAnnotations pool = true ∧
    ∃ table, readTable a.payload = .ok table ∧ e ∈ table ∧ e.descriptor pool = .ok d

namespace Marked

variable {p q pool : ConstantPool} {as : List Attribute} {ms : List Marked} {e : AnnotationEntry}
  {d : String} {drop : String → Bool}

theorem Read.mem_entries_iff {m : Marked} (h : m.Read pool) :
    (e, d) ∈ m.entries ↔ m.source.isAnnotations pool = true ∧
      ∃ table, readTable m.source.payload = .ok table ∧ e ∈ table ∧ e.descriptor pool = .ok d := by
  cases h with
  | plain hplain =>
    constructor
    · intro he
      cases he
    · rintro ⟨hmarked, -⟩
      cases hplain.symm.trans hmarked
  | @table a named hmarked hspelled hresolved =>
    constructor
    · exact fun he => ⟨hmarked, _, hspelled, List.mem_map_of_mem he, hresolved _ he⟩
    · rintro ⟨-, table, htable, he, hd⟩
      cases hspelled.symm.trans htable
      obtain ⟨f, hf, rfl⟩ := List.mem_map.1 he
      rw [← Except.ok.inj ((hresolved f hf).symm.trans hd)]
      exact hf

theorem mem_all_iff (h : marks pool as = .ok ms) : (e, d) ∈ all ms ↔ Annotated pool as e d := by
  obtain ⟨rfl, hreads⟩ := marks_ok_iff.1 h
  rw [mem_all]
  constructor
  · rintro ⟨m, hm, he⟩
    obtain ⟨hmarked, htable⟩ := (hreads m hm).mem_entries_iff.1 he
    exact ⟨m.source, List.mem_map_of_mem hm, hmarked, htable⟩
  · rintro ⟨a, ha, hmarked, htable⟩
    obtain ⟨m, hm, rfl⟩ := List.mem_map.1 ha
    exact ⟨m, hm, (hreads m hm).mem_entries_iff.2 ⟨hmarked, htable⟩⟩

/-- What was read of an annotation table fits. -/
theorem fits_of_mem (h : marks pool as = .ok ms) (he : (e, d) ∈ all ms) : e.Fits := by
  obtain ⟨a, -, -, table, htable, hin, -⟩ := (mem_all_iff h).1 he
  exact (AnnotationEntry.of_readTable htable).2.entries e hin

theorem anyOf_iff (h : marks pool as = .ok ms) (ask : String → Bool) :
    anyOf ask ms = true ↔ ∃ e d, Annotated pool as e d ∧ ask d = true := by
  unfold anyOf
  rw [List.any_eq_true]
  constructor
  · rintro ⟨⟨e, d⟩, he, hd⟩
    exact ⟨e, d, (mem_all_iff h).1 he, hd⟩
  · rintro ⟨e, d, he, hd⟩
    exact ⟨(e, d), (mem_all_iff h).2 he, hd⟩

/-- A table of which a part is kept fits as it did. -/
theorem Read.kept_fits {m : Marked} (h : m.Read pool) (hmarked : m.table.isSome) :
    AnnotationEntry.TableFits ((kept drop m.entries).map (·.1)) := by
  obtain ⟨-, hcount, hentries⟩ := h.payload hmarked
  have hsublist : List.Sublist ((kept drop m.entries).map (·.1)) (m.entries.map (·.1)) :=
    List.filter_sublist.map _
  exact ⟨Nat.lt_of_le_of_lt hsublist.length_le hcount, fun a ha => hentries a (hsublist.mem ha)⟩

end Marked

namespace Annotated

variable {p q pool : ConstantPool} {as : List Attribute} {ms : List Marked} {e : AnnotationEntry}
  {d : String} {drop : String → Bool}

theorem grow (h : Annotated p as e d) (hgrows : Grows p q) : Annotated q as e d := by
  obtain ⟨a, ha, hmarked, table, htable, he, hd⟩ := h
  exact ⟨a, ha, hgrows.isAnnotations hmarked, table, htable, he, hgrows.utf8 _ _ hd⟩

theorem stripAll (hms : marks pool as = .ok ms) (h : Annotated pool as e d)
    (hkeep : drop d = false) : Annotated pool (Marked.stripAll drop ms).1 e d := by
  obtain ⟨-, hreads⟩ := marks_ok_iff.1 hms
  obtain ⟨m, hm, he⟩ := Marked.mem_all.1 ((Marked.mem_all_iff hms).2 h)
  obtain ⟨hmarked, table, htable, hin, hd⟩ := (hreads m hm).mem_entries_iff.1 he
  have hkept : (e, d) ∈ Marked.kept drop m.entries :=
    List.mem_filter.2 ⟨he, by rw [hkeep]; rfl⟩
  generalize hr : m.strip drop = r
  have hstripped := Marked.strip_stripped drop m
  rw [hr] at hstripped
  have hmem {a : Attribute} (ha : r.1 = some a) : a ∈ (Marked.stripAll drop ms).1 :=
    List.mem_flatMap.2 ⟨m, hm, by rw [hr, ha]; exact List.mem_singleton_self a⟩
  cases hstripped with
  | whole _ => exact ⟨m.source, hmem rfl, hmarked, table, htable, hin, hd⟩
  | emptied _ hnone _ =>
    rw [hnone] at hkept
    cases hkept
  | thinned htabled _ _ =>
    exact ⟨_, hmem rfl, hmarked, _, AnnotationEntry.readTable_tableBytes
      ((hreads m hm).kept_fits htabled), List.mem_map_of_mem hkept, hd⟩

/-- Editing a body touches no annotation. -/
theorem editPayload {entry : MemberEntry} {position : Nat} {edit : List UInt8 → List UInt8}
    (h : Annotated pool entry.attributes e d)
    (hplain : ∀ a, entry.attributes[position]? = some a → a.isAnnotations pool = false) :
    Annotated pool (Walk.editPayload position edit entry).attributes e d := by
  obtain ⟨a, ha, hmarked, htable⟩ := h
  obtain ⟨i, hi⟩ := List.mem_iff_getElem?.1 ha
  refine ⟨a, List.mem_iff_getElem?.2 ⟨i, ?_⟩, hmarked, htable⟩
  have hne : position ≠ i := by
    rintro rfl
    cases (hplain a hi).symm.trans hmarked
  simp [Walk.editPayload, hi, hne]

end Annotated

namespace Prune

variable {policy : Policy} {self : String} {pool : ConstantPool} {bootstraps : List Bootstrap}

open Walk (KeptMethod Patch)

/-- An annotation that is not stripped stays on a method, whatever becomes of the body. -/
theorem annotated_edited {entry : MemberEntry} {ms : List Marked} {e : AnnotationEntry}
    {d : String} (hread : marks pool entry.attributes = .ok ms)
    (h : Annotated pool entry.attributes e d) (hkeep : policy.strips d = false)
    (edit : List UInt8 → List UInt8) :
    Annotated pool (edited (codeOf pool (left policy entry ms)) edit
      (left policy entry ms)).attributes e d := by
  have hleft : Annotated pool (left policy entry ms).attributes e d := h.stripAll hread hkeep
  cases hcode : codeOf pool (left policy entry ms) with
  | none => exact hleft
  | some position =>
    refine hleft.editPayload fun a ha => ?_
    obtain ⟨a', ha', hnamed⟩ := codeOf_some hcode
    obtain rfl : a' = a := Option.some.inj (ha'.symm.trans ha)
    exact Attribute.not_isAnnotations_of_isNamed hnamed (by decide) (by decide)

/-- A method as a pass leaves it: stripped, and with its body edited. -/
inductive Derived (policy : Policy) (pool : ConstantPool) (entry : MemberEntry) :
    MemberEntry → Prop
  | intro {m : Member} {ms : List Marked} (resolved : entry.resolve pool = .ok m)
    (read : marks pool entry.attributes = .ok ms) (edit : List UInt8 → List UInt8) :
    Derived policy pool entry (edited (codeOf pool (left policy entry ms)) edit
      (left policy entry ms))

theorem edited_header (code : Option Nat) (edit : List UInt8 → List UInt8) (entry : MemberEntry) :
    (edited code edit entry).access = entry.access ∧ (edited code edit entry).name = entry.name ∧
      (edited code edit entry).descriptor = entry.descriptor := by
  cases code <;> exact ⟨rfl, rfl, rfl⟩

theorem resolve_grow {p q : ConstantPool} (hgrows : Grows p q) {entry entry' : MemberEntry}
    {m : Member} (haccess : entry'.access = entry.access) (hname : entry'.name = entry.name)
    (hdescriptor : entry'.descriptor = entry.descriptor) (h : entry.resolve p = .ok m) :
    entry'.resolve q = .ok m := by
  obtain ⟨name, hn, h⟩ := bind_ok_iff.1 h
  obtain ⟨descriptor, hd, h⟩ := bind_ok_iff.1 h
  unfold MemberEntry.resolve
  rw [haccess, hname, hdescriptor, hgrows.utf8 _ _ hn, hgrows.utf8 _ _ hd]
  exact h

/-- A method resolves to the same member as what was derived from it. -/
theorem Derived.resolve {p q : ConstantPool} {entry entry' : MemberEntry}
    (h : Derived policy p entry entry') (hgrows : Grows p q) :
    ∃ m, entry.resolve p = .ok m ∧ entry'.resolve q = .ok m := by
  obtain ⟨hm, -, edit⟩ := h
  obtain ⟨haccess, hname, hdescriptor⟩ := edited_header _ _ _
  exact ⟨_, hm, resolve_grow hgrows haccess hname hdescriptor hm⟩

theorem Derived.annotated {p q : ConstantPool} {entry entry' : MemberEntry}
    (h : Derived policy p entry entry') (hgrows : Grows p q) {e : AnnotationEntry} {d : String}
    (hd : Annotated p entry.attributes e d) (hkeep : policy.strips d = false) :
    Annotated q entry'.attributes e d := by
  obtain ⟨-, hread, edit⟩ := h
  exact (annotated_edited hread hd hkeep edit).grow hgrows

/-- A method that is kept is derived from what it was, once its stub is installed. -/
theorem MethodStep.derived {l : Ledger} {entry e : MemberEntry} {m : Member} {ms : List Marked}
    {ft : Fate} {k : KeptMethod} {p q : ConstantPool}
    (h : MethodStep policy self pool bootstraps l entry m ms ft)
    (hk : (afterFate policy self pool l entry m ms ft).2.1 = some k)
    (he : (Walk.installStub k).run p = .ok e q) : Derived policy pool entry e := by
  cases ft with
  | delete => cases hk
  | stub =>
    cases hk
    obtain ⟨-, rfl, -⟩ | ⟨position, descriptor, payload, hcode, -, -, rfl⟩ := installStub_ok he
    · have hid : Derived policy pool entry _ := .intro h.resolved h.read id
      rwa [edited_id] at hid
    · have hedit : Derived policy pool entry _ := .intro h.resolved h.read fun _ => payload
      rwa [show codeOf pool (left policy entry ms) = some position from hcode] at hedit
  | keep patches =>
    cases hk
    obtain ⟨-, rfl, -⟩ | ⟨_, _, _, hcode, -⟩ := installStub_ok he
    · dsimp only
      rw [patched_eq]
      exact .intro h.resolved h.read _
    · cases hcode

/-- What is kept of methods, beside those it was derived from. -/
theorem methods_derived {l l' : Ledger} {entries : List MemberEntry} {ks : List KeptMethod}
    {es : List MemberEntry} {changed : Bool} {p q : ConstantPool}
    (h : methods policy self pool bootstraps l entries = .ok (l', ks, changed))
    (hinstalled : (Walk.installStubs ks).run p = .ok es q) :
    ∃ sub, List.Sublist sub entries ∧ List.Forall₂ (Derived policy pool) sub es := by
  induction entries generalizing l ks changed es p with
  | nil =>
    cases h
    cases hinstalled
    exact ⟨[], .slnil, .nil⟩
  | cons entry entries ih =>
    obtain ⟨r, ks', c, hstep, hrest, rfl, -⟩ := methods_cons_ok h
    obtain ⟨m, ms, ft, hm, rfl⟩ := method_ok hstep
    cases hk : (afterFate policy self pool l entry m ms ft).2.1 with
    | none =>
      rw [hk] at hinstalled
      obtain ⟨sub, hsub, hall⟩ := ih hrest hinstalled
      exact ⟨sub, hsub.cons entry, hall⟩
    | some k =>
      rw [hk] at hinstalled
      obtain ⟨e, es', p', he, hes, rfl⟩ := installStubs_cons_ok hinstalled
      obtain ⟨sub, hsub, hall⟩ := ih hrest hes
      exact ⟨entry :: sub, hsub.cons_cons entry, .cons (hm.derived hk he) hall⟩

end Prune

end JarPruning
