import JarPruning.Proofs.Pass.Links
import JarPruning.Proofs.Pass.Repacked
import JarPruning.Proofs.Pass.Rest

/-!
What a pass writes fits the format. Stripping and thinning shorten attributes, patching keeps their
lengths, stubs are short, and the constant pool only grows up to its capacity.
-/
namespace JarPruning

open BigEndian
open ConstantPool (Grows)

theorem length_countedBytes_sublist {α : Type} {f : α → List UInt8} {l m : List α}
    (h : List.Sublist l m) : (countedBytes f l).length ≤ (countedBytes f m).length := by
  have hbytes : (l.flatMap f).length ≤ (m.flatMap f).length := by
    induction h with
    | slnil => exact Nat.le_refl _
    | cons a _ ih =>
      rw [List.flatMap_cons, List.length_append]
      omega
    | cons_cons a _ ih =>
      rw [List.flatMap_cons, List.flatMap_cons, List.length_append, List.length_append]
      omega
  simp only [countedBytes, List.length_append, length_digits]
  omega

namespace Marked

variable {pool : ConstantPool} {drop : String → Bool} {ms : List Marked}

/-- Stripping makes no attribute longer. -/
theorem Read.length_strip_le {m : Marked} (h : m.Read pool) {a : Attribute}
    (ha : (m.strip drop).1 = some a) : a.payload.length ≤ m.source.payload.length := by
  generalize hr : m.strip drop = r at ha
  have hstripped := strip_stripped drop m
  rw [hr] at hstripped
  cases hstripped with
  | whole _ =>
    cases ha
    exact Nat.le_refl _
  | emptied _ _ _ => cases ha
  | thinned hmarked _ _ =>
    cases ha
    rw [(h.payload hmarked).1]
    exact length_countedBytes_sublist (f := AnnotationEntry.bytes)
      ((List.filter_sublist (p := fun e => !drop e.2) (l := m.entries)).map (·.1))

theorem Read.strip_fits {m : Marked} (h : m.Read pool) (hm : m.source.Fits) {a : Attribute}
    (ha : (m.strip drop).1 = some a) : a.Fits :=
  Nat.lt_of_le_of_lt (h.length_strip_le ha) hm

theorem stripAll_fits (h : ∀ m ∈ ms, m.Read pool) (hms : ∀ m ∈ ms, m.source.Fits) :
    ∀ a ∈ (stripAll drop ms).1, a.Fits := by
  intro a ha
  obtain ⟨m, hm, ha⟩ := List.mem_flatMap.1 ha
  exact (h m hm).strip_fits (hms m hm) (Option.mem_toList.1 ha)

end Marked

namespace Link

variable {pool : ConstantPool} {a : Attribute} {link : Link}

theorem length_thinRows_le {α : Type} {read : Reader (Walk.Row α)} {p : Walk.Row α → Prop}
    (hread : Reader.Finds read fun row front => front = row.raw ∧ p row)
    {table : List (Walk.Row α)} (h : rows read a = .ok table) (keep : α → Bool) :
    (thinRows keep table a).1.payload.length ≤ a.payload.length := by
  unfold thinRows
  dsimp only
  split
  · exact Nat.le_refl _
  · obtain ⟨front, rest, hpayload, rfl, -⟩ := (Reader.counted_finds hread).front h
    rw [hpayload, List.length_append]
    exact Nat.le_trans (length_countedBytes_sublist (f := Walk.Row.raw) List.filter_sublist)
      (Nat.le_add_right ..)

/-- Thinning makes no attribute longer. -/
theorem Read.length_thin_le (h : Read pool a link) (t : Tracker) (self : String) :
    (link.thin t self a).1.payload.length ≤ a.payload.length := by
  cases h with
  | outer _ _ => exact Nat.le_refl _
  | host _ _ => exact Nat.le_refl _
  | none _ _ => exact Nat.le_refl _
  | inner _ hread => exact length_thinRows_le (Walk.readInnerRow_finds pool) hread _
  | listed _ _ hread => exact length_thinRows_le (Walk.readReferenceRow_finds pool) hread _

end Link

namespace Prune

open Walk (KeptMethod Patch)

variable {policy : Policy} {self : String} {pool : ConstantPool} {bootstraps : List Bootstrap}

theorem left_fits {entry : MemberEntry} {ms : List Marked}
    (hread : marks pool entry.attributes = .ok ms) (h : entry.Fits) :
    (left policy entry ms).Fits := by
  obtain ⟨hsource, hreads⟩ := marks_ok_iff.1 hread
  have hcount := h.count
  have hattributes := h.attributes
  rw [hsource, List.length_map] at hcount
  rw [hsource] at hattributes
  exact ⟨Nat.lt_of_le_of_lt (Marked.length_stripAll_le ..) hcount,
    Marked.stripAll_fits hreads fun m hm => hattributes _ (List.mem_map_of_mem hm)⟩

theorem fields_fit {l l' : Ledger} {fs fs' : List MemberEntry} {changed : Bool}
    (h : fields policy self pool l fs = .ok (l', fs', changed)) (hfs : ∀ f ∈ fs, f.Fits) :
    ∀ f ∈ fs', f.Fits := by
  induction fs generalizing l fs' changed with
  | nil =>
    cases h
    exact hfs
  | cons f fs ih =>
    obtain ⟨r, fs₁, c, hstep, hrest, rfl, -⟩ := fields_cons_ok h
    have hlater := ih hrest fun f hf => hfs f (List.mem_cons_of_mem _ hf)
    cases hstep with
    | drop _ _ _ => exact hlater
    | keep _ hread _ _ =>
      intro f' hf'
      obtain rfl | hf' := List.mem_cons.1 hf'
      · exact left_fits hread (hfs f (List.mem_cons_self ..))
      · exact hlater f' hf'

theorem edited_fits {entry : MemberEntry} {code : Option Nat} {edit : List UInt8 → List UInt8}
    (h : entry.Fits)
    (hedit : ∀ position a, code = some position → entry.attributes[position]? = some a →
      (edit a.payload).length < 256 ^ 4) : (edited code edit entry).Fits := by
  cases code with
  | none => exact h
  | some position =>
    refine ⟨by simpa [edited, Walk.editPayload] using h.count, fun a ha => ?_⟩
    obtain ⟨i, hi⟩ := List.mem_iff_getElem?.1 ha
    simp only [edited, Walk.editPayload, List.getElem?_modify] at hi
    obtain ⟨a', ha', rfl⟩ := Option.map_eq_some_iff.1 hi
    split
    · next heq =>
      subst heq
      exact hedit position a' rfl ha'
    · exact h.attributes a' (List.mem_of_getElem? ha')

/-- Patches of a method lie inside its body. -/
theorem MethodStep.patches_inside {l : Ledger} {entry : MemberEntry} {m : Member}
    {ms : List Marked} {patches : List Patch} {position : Nat} {a : Attribute}
    (h : MethodStep policy self pool bootstraps l entry m ms (.keep patches))
    (hcode : codeOf pool (left policy entry ms) = some position)
    (ha : (left policy entry ms).attributes[position]? = some a) :
    ∀ p ∈ patches, Body.codeStart + p.offset + 3 ≤ a.payload.length := by
  have hfated := h.fated
  rw [hcode, Option.bind_some, ha] at hfated
  cases hfated with
  | already _ _ => simp
  | bare _ _ _ hempty => cases hempty
  | walked _ _ _ hbody hscanned hmeets =>
    cases hbody
    unfold bodyFate at hmeets
    split at hmeets
    · cases hmeets
    · rw [← Fate.keep.inj hmeets]
      split
      · exact patch_inside hscanned
      · simp

theorem method_fits {l : Ledger} {entry : MemberEntry} {m : Member} {ms : List Marked} {ft : Fate}
    (h : MethodStep policy self pool bootstraps l entry m ms ft) (hentry : entry.Fits) :
    ∀ k ∈ (afterFate policy self pool l entry m ms ft).2.1.toList, k.entry.Fits := by
  have hleft : (left policy entry ms).Fits := left_fits h.read hentry
  intro k hk
  cases ft with
  | delete => cases hk
  | stub =>
    obtain rfl := List.mem_singleton.1 hk
    exact hleft
  | keep patches =>
    obtain rfl := List.mem_singleton.1 hk
    rw [patched_eq]
    refine edited_fits hleft fun position a hcode ha => ?_
    rw [length_applyPatches (h.patches_inside hcode ha)]
    exact hleft.attributes a (List.mem_of_getElem? ha)

theorem methods_fit {l l' : Ledger} {entries : List MemberEntry} {ks : List KeptMethod}
    {changed : Bool} (h : methods policy self pool bootstraps l entries = .ok (l', ks, changed))
    (hfit : ∀ entry ∈ entries, entry.Fits) : ∀ k ∈ ks, k.entry.Fits := by
  induction entries generalizing l ks changed with
  | nil =>
    cases h
    simp
  | cons entry entries ih =>
    obtain ⟨r, ks', c, hstep, hrest, rfl, -⟩ := methods_cons_ok h
    obtain ⟨m, ms, ft, hm, rfl⟩ := method_ok hstep
    intro k hk
    obtain hk | hk := List.mem_append.1 hk
    · exact method_fits hm (hfit entry (List.mem_cons_self ..)) k hk
    · exact ih hrest (fun e he => hfit e (List.mem_cons_of_mem _ he)) k hk

theorem installStub_fits {k : KeptMethod} {e : MemberEntry} {p q : ConstantPool}
    (h : (Walk.installStub k).run p = .ok e q) (hk : k.entry.Fits) : e.Fits := by
  obtain ⟨-, rfl, rfl⟩ | ⟨position, descriptor, payload, -, -, hpayload, rfl⟩ := installStub_ok h
  · exact hk
  · have hlength := Stub.payload_length hpayload
    have hfits : (edited (some position) (fun _ => payload) k.entry).Fits :=
      edited_fits hk fun _ _ _ _ => by omega
    exact hfits

theorem installStub_adds (k : KeptMethod) : ConstantPool.Adds (Walk.installStub k) := by
  intro p e q h
  obtain ⟨-, -, rfl⟩ | ⟨position, descriptor, payload, -, -, hpayload, -⟩ := installStub_ok h
  · exact .refl _
  · exact Stub.payload_adds _ _ hpayload

theorem installStubs_adds (ks : List KeptMethod) : ConstantPool.Adds (Walk.installStubs ks) := by
  induction ks with
  | nil => exact .pure _
  | cons k ks ih => exact (installStub_adds k).bind fun _ => ih.bind fun _ => .pure _

theorem installStubs_fit {ks : List KeptMethod} {es : List MemberEntry} {p q : ConstantPool}
    (h : (Walk.installStubs ks).run p = .ok es q) (hks : ∀ k ∈ ks, k.entry.Fits) :
    ∀ e ∈ es, e.Fits := by
  induction ks generalizing es p with
  | nil =>
    cases h
    simp
  | cons k ks ih =>
    obtain ⟨e, es', p', he, hes, rfl⟩ := installStubs_cons_ok h
    intro e' he'
    obtain rfl | he' := List.mem_cons.1 he'
    · exact installStub_fits he (hks k (List.mem_cons_self ..))
    · exact ih hes (fun k hk => hks k (List.mem_cons_of_mem _ hk)) e' he'

namespace Rewriting

variable {l : Ledger} {c : ClassFile}

theorem installed_fit (r : Rewriting policy l c) (hc : c.Framed) :
    (∀ e ∈ r.methods, e.Fits) ∧ Grows c.pool r.stubbed :=
  ⟨installStubs_fit r.installed (methods_fit r.ofMethods hc.methods),
    installStubs_adds _ r.installed⟩

/-- What becomes of the metadata of a class. -/
theorem ofMetadata_cases (r : Rewriting policy l c) :
    (r.last = r.afterMethods ∧ r.new = [] ∧ r.pool = r.stubbed ∧
      ∀ a, metadataOf r.marked = some a →
        MetadataRests r.name r.afterMethods.tracker r.stubbed a) ∨
      ∃ a b kind d1 d2 payload changes, metadataOf r.marked = some a ∧ r.new = [b] ∧
        r.last = r.afterMethods.schedule changes ∧
        Repacked r.name r.afterMethods r.stubbed a b r.pool kind d1 d2 payload changes := by
  have h := r.ofMetadata
  cases hmetadata : metadataOf r.marked with
  | none =>
    rw [hmetadata] at h
    simp only [replacements, pure, Except.pure, Except.ok.injEq, Prod.mk.injEq] at h
    obtain ⟨hl, hnew, hpool⟩ := h
    exact .inl ⟨hl.symm, hnew.symm, hpool.symm, by simp⟩
  | some a =>
    rw [hmetadata] at h
    obtain ⟨hrests, hl, hnew, hpool⟩ | ⟨b, kind, d1, d2, payload, changes, hrepacked, hl, hnew⟩ :=
      metadata_ok h
    · exact .inl ⟨hl, hnew, hpool, fun a ha => Option.some.inj ha ▸ hrests⟩
    · exact .inr ⟨a, b, kind, d1, d2, payload, changes, rfl, hnew, hl, hrepacked⟩

theorem stubbed_grows (r : Rewriting policy l c) (hc : c.Framed) : Grows r.stubbed r.pool := by
  obtain ⟨-, -, hpool, -⟩ | ⟨a, b, kind, d1, d2, payload, changes, -, -, -, hrepacked⟩ :=
    r.ofMetadata_cases
  · rw [hpool]
    exact .refl _
  · exact (hrepacked.restrung ((r.installed_fit hc).2.fits hc.pool)).1

theorem pool_grows (r : Rewriting policy l c) (hc : c.Framed) : Grows c.pool r.pool :=
  (r.installed_fit hc).2.trans (r.stubbed_grows hc)

/-- Everything that is written before the attributes of the class fits. -/
theorem framed (r : Rewriting policy l c) (hc : c.Framed) : r.result.Framed where
  pool := (r.pool_grows hc).fits hc.pool
  interfaces := hc.interfaces
  fieldCount := Nat.lt_of_le_of_lt (length_fields_le r.ofFields) hc.fieldCount
  fields := fields_fit r.ofFields hc.fields
  methodCount := by
    have hlength := length_installStubs r.installed
    have hle := length_methods_le r.ofMethods
    have := hc.methodCount
    show r.methods.length < _
    omega
  methods := (r.installed_fit hc).1

end Rewriting

end Prune

end JarPruning
