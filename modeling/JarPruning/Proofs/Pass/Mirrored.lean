import JarPruning.Proofs.Metadata.Records
import JarPruning.Proofs.Metadata.Roundtrip
import JarPruning.Proofs.Pass.Ledgers
import JarPruning.Proofs.Pass.Parts
import JarPruning.Proofs.Pass.Sole

/-!
Metadata beside the members of its class. A member that a pass drops is in the tracker when the
records are judged, so a record that is left still stands for a member that is there.
-/
namespace JarPruning

open ConstantPool (Grows)
open Metadata (Kind Message Payload TypeTable Resolver Packing)
open Metadata.FieldNumber

namespace ClassFile

variable {c : ClassFile}

/-- Some method of the class has this name and descriptor. -/
def HasMethod (c : ClassFile) (s : Signature) : Prop :=
  ∃ entry ∈ c.methods, ∃ m, entry.resolve c.pool = .ok m ∧ m.toSignature = s

def HasField (c : ClassFile) (name : String) : Prop :=
  ∃ f ∈ c.fields, ∃ m, f.resolve c.pool = .ok m ∧ m.name = name

instance (c : ClassFile) (s : Signature) : Decidable (c.HasMethod s) :=
  decidable_of_iff (∃ entry ∈ c.methods,
    (entry.resolve c.pool).toOption.any (·.toSignature = s) = true) <| by
    unfold HasMethod
    refine exists_congr fun entry => and_congr_right fun _ => ?_
    cases entry.resolve c.pool <;> simp [Except.toOption]

instance (c : ClassFile) (name : String) : Decidable (c.HasField name) :=
  decidable_of_iff (∃ f ∈ c.fields, (f.resolve c.pool).toOption.any (·.name = name) = true) <| by
    unfold HasField
    refine exists_congr fun f => and_congr_right fun _ => ?_
    cases f.resolve c.pool <;> simp [Except.toOption]

/-- Every function, constructor and enum entry that the payload declares is a member of the
class. A function or constructor without a signature of its own stands for none. -/
structure Mirrors (c : ClassFile) (p : Payload) (types : TypeTable) : Prop where
  functions : ∀ record, p.container.Holds (Payload.functionNumber p.kind) record →
    ∀ s, Resolver.function? ⟨p.strings, types⟩ record = .ok (some s) → c.HasMethod s
  constructors : p.kind = .classFile → ∀ record, p.container.Holds classConstructor record →
    ∀ s, Resolver.constructor? ⟨p.strings, types⟩ record = .ok (some s) → c.HasMethod s
  enumEntries : p.kind = .classFile → ∀ record, p.container.Holds classEnumEntry record →
    ∀ index name, record.int? enumEntryName = some index → p.strings.get index = .ok name →
      c.HasField name

/-- Whether the method that a record stands for, if it stands for one, is there. -/
def stands (c : ClassFile) (method? : Except Metadata.Fault (Option Signature)) : Bool :=
  match method? with
  | .ok (some s) => decide (c.HasMethod s)
  | _ => true

theorem stands_iff {method? : Except Metadata.Fault (Option Signature)} :
    c.stands method? = true ↔ ∀ s, method? = .ok (some s) → c.HasMethod s := by
  rcases method? with _ | _ | s <;> simp [stands]

/-- Whether the enum entry that a record stands for is there. -/
def standsField (c : ClassFile) (p : Payload) (record : Message) : Bool :=
  match (record.int? enumEntryName).map p.strings.get with
  | some (.ok name) => decide (c.HasField name)
  | _ => true

theorem standsField_iff {p : Payload} {record : Message} : c.standsField p record = true ↔
    ∀ index name, record.int? enumEntryName = some index → p.strings.get index = .ok name →
      c.HasField name := by
  unfold standsField
  cases hindex : record.int? enumEntryName with
  | none => simp
  | some index =>
    cases hname : p.strings.get index with
    | error e =>
      simp only [Option.map_some, hname, true_iff]
      intro index' name hindex' hget
      cases hindex'
      cases hname.symm.trans hget
    | ok name =>
      simp only [Option.map_some, hname, decide_eq_true_eq]
      constructor
      · intro h index' name' hindex' hget
        cases hindex'
        cases hname.symm.trans hget
        exact h
      · exact fun h => h index name rfl hname

def mirrors (c : ClassFile) (p : Payload) (types : TypeTable) : Bool :=
  p.container.allHeld (Payload.functionNumber p.kind)
      (fun record => c.stands (Resolver.function? ⟨p.strings, types⟩ record)) &&
    (p.kind != .classFile ||
      p.container.allHeld classConstructor
          (fun record => c.stands (Resolver.constructor? ⟨p.strings, types⟩ record)) &&
        p.container.allHeld classEnumEntry (c.standsField p))

theorem mirrors_iff {p : Payload} {types : TypeTable} :
    c.mirrors p types = true ↔ c.Mirrors p types := by
  simp only [mirrors, Bool.and_eq_true, Bool.or_eq_true, bne_iff_ne, Message.allHeld_iff,
    stands_iff, standsField_iff]
  constructor
  · rintro ⟨hfunctions, hclass⟩
    exact ⟨hfunctions, fun hkind => (hclass.resolve_left (not_not.2 hkind)).1,
      fun hkind => (hclass.resolve_left (not_not.2 hkind)).2⟩
  · intro h
    refine ⟨h.functions, ?_⟩
    by_cases hkind : p.kind = .classFile
    · exact .inr ⟨h.constructors hkind, h.enumEntries hkind⟩
    · exact .inl hkind

instance (c : ClassFile) (p : Payload) (types : TypeTable) : Decidable (c.Mirrors p types) :=
  decidable_of_iff _ mirrors_iff

end ClassFile

namespace Prune

open Walk (KeptMethod)

variable {policy : Policy} {self : String} {pool : ConstantPool} {bootstraps : List Bootstrap}
  {l l' : Ledger}

/-! Members. -/

/-- A field that a pass meets is in the tracker afterwards, or it is kept under its name. -/
theorem fields_account {fs fs' : List MemberEntry} {changed : Bool}
    (h : fields policy self pool l fs = .ok (l', fs', changed)) :
    ∀ f ∈ fs, ∃ m, f.resolve pool = .ok m ∧
      (l'.tracker.containsField self ⟨m.name, "()"⟩ = true ∨
        ∃ f' ∈ fs', f'.access = f.access ∧ f'.name = f.name ∧ f'.descriptor = f.descriptor) := by
  induction fs generalizing l fs' changed with
  | nil => simp
  | cons f fs ih =>
    obtain ⟨r, fs₁, c, hstep, hfs, rfl, -⟩ := fields_cons_ok h
    intro g hg
    rcases List.mem_cons.1 hg with rfl | hg
    · cases hstep with
      | @drop m _ hresolved _ _ =>
        refine ⟨m, hresolved, .inl ((fields_ledger hfs).1.fields _ _ ?_)⟩
        simp [Ledger.dropField, FieldTarget.key]
      | @keep m _ hresolved _ _ _ =>
        exact ⟨m, hresolved, .inr ⟨_, List.mem_append_left _ (List.mem_singleton_self _),
          rfl, rfl, rfl⟩⟩
    · obtain ⟨m, hm, hgone | ⟨f', hf', hsame⟩⟩ := ih hfs g hg
      · exact ⟨m, hm, .inl hgone⟩
      · exact ⟨m, hm, .inr ⟨f', List.mem_append_right _ hf', hsame⟩⟩

/-- A method that a pass meets is in the tracker afterwards, or another is derived from it. -/
theorem methods_account {entries es : List MemberEntry} {ks : List KeptMethod} {changed : Bool}
    {p q : ConstantPool} (h : methods policy self pool bootstraps l entries = .ok (l', ks, changed))
    (hinstalled : (Walk.installStubs ks).run p = .ok es q) :
    ∀ entry ∈ entries, ∃ m, entry.resolve pool = .ok m ∧
      (l'.tracker.containsMethod self m.toSignature = true ∨
        ∃ e ∈ es, Derived policy pool entry e) := by
  induction entries generalizing l ks changed es p with
  | nil => simp
  | cons entry entries ih =>
    obtain ⟨r, ks', c, hstep, hrest, rfl, -⟩ := methods_cons_ok h
    obtain ⟨m, ms, ft, hm, rfl⟩ := method_ok hstep
    intro g hg
    cases hk : (afterFate policy self pool l entry m ms ft).2.1 with
    | none =>
      rw [hk] at hinstalled
      rcases List.mem_cons.1 hg with rfl | hg
      · refine ⟨m, hm.resolved, .inl ((methods_ledger hrest).1.methods _ _ ?_)⟩
        cases ft with
        | delete => simp [afterFate, Ledger.dropMethod]
        | stub => cases hk
        | keep _ => cases hk
      · exact ih hrest hinstalled g hg
    | some k =>
      rw [hk] at hinstalled
      obtain ⟨e, es', p', he, hes, rfl⟩ := installStubs_cons_ok hinstalled
      rcases List.mem_cons.1 hg with rfl | hg
      · exact ⟨m, hm.resolved, .inr ⟨e, List.mem_cons_self .., hm.derived hk he⟩⟩
      · obtain ⟨n, hn, hgone | ⟨e', he', hderived⟩⟩ := ih hrest hes g hg
        · exact ⟨n, hn, .inl hgone⟩
        · exact ⟨n, hn, .inr ⟨e', List.mem_cons_of_mem _ he', hderived⟩⟩

/-- Every member of `c` that the tracker does not hold is a member of `c'`. -/
structure Outlives (t : Tracker) (owner : String) (c c' : ClassFile) : Prop where
  methods : ∀ s, c.HasMethod s → t.containsMethod owner s = false → c'.HasMethod s
  fields : ∀ name, c.HasField name → t.containsField owner ⟨name, "()"⟩ = false →
    c'.HasField name

theorem Rewriting.outlives {c : ClassFile} (r : Rewriting policy l c) (hc : c.Framed) :
    Outlives r.last.tracker r.name c r.result := by
  rw [r.last_ledger.1]
  constructor
  · rintro s ⟨entry, hentry, m, hm, rfl⟩ hstays
    obtain ⟨n, hn, hgone | ⟨e, he, hderived⟩⟩ :=
      methods_account r.ofMethods r.installed entry hentry
    · cases hm.symm.trans hn
      rw [hstays] at hgone
      cases hgone
    · obtain ⟨n', hn', hresolve⟩ := hderived.resolve (r.pool_grows hc)
      cases hm.symm.trans hn'
      exact ⟨e, he, m, hresolve, rfl⟩
  · rintro name ⟨f, hf, m, hm, rfl⟩ hstays
    obtain ⟨n, hn, hgone | ⟨f', hf', haccess, hname, hdescriptor⟩⟩ :=
      fields_account r.ofFields f hf
    · cases hm.symm.trans hn
      have hlater := (methods_ledger r.ofMethods).1.fields _ _ hgone
      rw [hstays] at hlater
      cases hlater
    · exact ⟨f', hf', m, resolve_grow (r.pool_grows hc) haccess hname hdescriptor hm, rfl⟩

/-! The metadata annotation. -/

namespace Rewriting

variable {c : ClassFile} {a : AnnotationEntry}

/-- What a pass makes of a metadata annotation that packs a payload. -/
structure Resweeps (r : Rewriting policy l c) (a : AnnotationEntry) (kind : Kind)
    (d1 d2 : List String) (p p' : Payload) (types : TypeTable) : Prop where
  decoded : Payload.decode kind d1 d2 = .ok p
  typed : TypeTable.ofContainer p.container = .ok types
  swept : ∃ changes, p.sweep r.name r.last.tracker = .ok (p', changes)
  written : r.new = [] ∧ p' = p ∨
    ∃ b, r.new = [b] ∧ AnnotationEntry.Restrung r.stubbed r.pool "d1" d1 p'.encode a b

variable {kind : Kind} {d1 d2 : List String}

theorem resweeps (r : Rewriting policy l c) (hc : c.Framed) (hsole : c.SoleMetadata a)
    (hparts : Pruner.metadataParts c.pool a = .ok (kind, d1, d2))
    (heditable : kind.isEditable = true) (hpacked : d1 ≠ []) :
    ∃ p p' types, r.Resweeps a kind d1 d2 p p' types := by
  have hgrows := (r.installed_fit hc).2
  have hstubbed := metadataParts_persists hgrows a _ hparts
  have hmetadata := r.metadataOf_sole hsole
  rcases r.ofMetadata_cases with
    ⟨-, hnew, -, hrests⟩ | ⟨a', b, kind', d1', d2', payload, changes, ha', hnew, -, hrepacked⟩
  · obtain ⟨payload, changes, hswept, hquiet⟩ :=
      (hrests a hmetadata).2 kind d1 d2 ⟨hstubbed, heditable, hpacked⟩
    obtain ⟨p, hdecode, hsweep⟩ := swept_ok hswept
    obtain ⟨types, _, htypes, -⟩ := Payload.sweep_ok_iff.1 hsweep
    rw [← r.last_ledger.1] at hsweep
    exact ⟨p, payload, types, hdecode, htypes, ⟨changes, hsweep⟩,
      .inl ⟨hnew, Payload.sweep_quiet hsweep hquiet⟩⟩
  · obtain rfl := Option.some.inj (hmetadata.symm.trans ha')
    obtain ⟨rfl, rfl, rfl⟩ : kind = kind' ∧ d1 = d1' ∧ d2 = d2' := by
      simpa using hstubbed.symm.trans hrepacked.parts
    obtain ⟨p, hdecode, hsweep⟩ := swept_ok hrepacked.swept
    obtain ⟨types, _, htypes, -⟩ := Payload.sweep_ok_iff.1 hsweep
    rw [← r.last_ledger.1] at hsweep
    exact ⟨p, payload, types, hdecode, htypes, ⟨changes, hsweep⟩,
      .inr ⟨b, hnew, (hrepacked.restrung (hgrows.fits hc.pool)).2⟩⟩

/-- An annotation without packed strings is left alone. -/
theorem new_of_bare (r : Rewriting policy l c) (hc : c.Framed) (hsole : c.SoleMetadata a)
    (hparts : Pruner.metadataParts c.pool a = .ok (kind, [], d2)) : r.new = [] := by
  have hstubbed := metadataParts_persists (r.installed_fit hc).2 a _ hparts
  rcases r.ofMetadata_cases with
    ⟨-, hnew, -⟩ | ⟨a', b, kind', d1', d2', payload, changes, ha', -, -, hrepacked⟩
  · exact hnew
  · obtain rfl := Option.some.inj ((r.metadataOf_sole hsole).symm.trans ha')
    cases hstubbed.symm.trans hrepacked.parts
    exact absurd rfl hrepacked.packed

theorem Resweeps.new_fits {r : Rewriting policy l c} {p p' : Payload} {types : TypeTable}
    (h : r.Resweeps a kind d1 d2 p p' types) (ha : a.Fits) (hfew : p'.encode.length ≤ 65535) :
    ∀ b ∈ r.new, b.Fits := by
  intro b hb
  rcases h.written with ⟨hnew, -⟩ | ⟨b', hnew, hrestrung⟩
  · rw [hnew] at hb
    cases hb
  · rw [hnew] at hb
    obtain rfl := List.mem_singleton.1 hb
    exact hrestrung.fits ha (Nat.lt_succ_of_le hfew)

/-- After a pass the class has its metadata annotation again, of the kind that it was and with the
stored strings that it had, and it packs what the pass left of the payload. -/
theorem resweeps_result (r : Rewriting policy l c) (hc : c.Fits) (hsole : c.SoleMetadata a)
    (hparts : Pruner.metadataParts c.pool a = .ok (kind, d1, d2))
    (heditable : kind.isEditable = true) (htold : Packing.Told d1) {p p' : Payload}
    {types : TypeTable} (h : r.Resweeps a kind d1 d2 p p' types) (hnews : ∀ b ∈ r.new, b.Fits) :
    ∃ a' d1', r.result.SoleMetadata a' ∧
      Pruner.metadataParts r.pool a' = .ok (kind, d1', d2) ∧
      Payload.decode kind d1' d2 = .ok p' ∧ TypeTable.ofContainer p'.container = .ok types := by
  obtain ⟨changes, hsweep⟩ := h.swept
  obtain ⟨-, -, -, htypes⟩ := Payload.sweep_keeps hsweep
  have hgrows := (r.installed_fit hc.toFramed).2
  rcases h.written with ⟨hnew, rfl⟩ | ⟨b, hnew, hrestrung⟩
  · have hsole' := r.soleMetadata hc.toFramed (a := a) (by simp [hnew]) (by simp [hnew]) hsole
    rw [hnew] at hsole'
    exact ⟨a, d1, hsole', metadataParts_persists (r.pool_grows hc.toFramed) a _ hparts,
      h.decoded, h.typed⟩
  · have hsole' := r.soleMetadata hc.toFramed hnews
      (by simpa [hnew] using hrestrung.typeIndex) hsole
    rw [hnew] at hsole'
    have hpool := hgrows.fits hc.pool
    have hfits := Payload.sweep_fits h.decoded (hrestrung.moderate hpool hsole.fits) hsweep
    obtain ⟨-, container, -, -, rfl⟩ := Payload.sweep_ok_iff.1 hsweep
    refine ⟨b, _, hsole', ?_, Payload.decode_encode h.decoded htold hfits, htypes.trans h.typed⟩
    exact metadataParts_restrung hrestrung (r.stubbed_grows hc.toFramed)
      (metadataParts_persists hgrows a _ hparts) heditable

end Rewriting

end Prune

/-- The class file that a pass over `c` leaves; none if the class is unwanted. What was written is
read back if every attribute fits. -/
def PassOutcome.Leaves (out : PassOutcome) (c c' : ClassFile) : Prop :=
  match out with
  | .unwanted => False
  | .unchanged => c' = c
  | .modified bytes =>
    bytes = c'.bytes ∧ ((∀ a ∈ c'.attributes, a.Fits) → ClassFile.ofBytes bytes = .ok c')

/-- Declarations that a removal leaves are still members of a class that has the members which are
not gone. -/
theorem ClassFile.Mirrors.sweep {c c' : ClassFile} {p p' : Payload} {types : TypeTable}
    {owner : String} {t : Tracker} {changes : Metadata.Changes} (h : c.Mirrors p types)
    (hmembers : Prune.Outlives t owner c c') (hsweep : p.sweep owner t = .ok (p', changes))
    (htypes : TypeTable.ofContainer p.container = .ok types) : c'.Mirrors p' types := by
  obtain ⟨hkind, hstrings, -, -⟩ := Payload.sweep_keeps hsweep
  constructor
  · intro record hrecord s hs
    rw [hkind] at hrecord
    rw [hstrings] at hs
    obtain ⟨hheld, hstays⟩ := Payload.sweep_function hsweep htypes hrecord
    exact hmembers.methods s (h.functions record hheld s hs) (hstays s hs)
  · intro hclass record hrecord s hs
    rw [hkind] at hclass
    rw [hstrings] at hs
    obtain ⟨hheld, hstays⟩ := Payload.sweep_constructor hsweep hclass htypes hrecord
    exact hmembers.methods s (h.constructors hclass record hheld s hs) (hstays s hs)
  · intro hclass record hrecord index name hindex hname
    rw [hkind] at hclass
    rw [hstrings] at hname
    obtain ⟨hheld, hstays⟩ := Payload.sweep_enumEntry hsweep hclass hrecord
    exact hmembers.fields name (h.enumEntries hclass record hheld index name hindex hname)
      (hstays index name hindex hname)

namespace Pass

variable {policy : Policy} {entry : String} {bytes : List UInt8} {s s' : Session}
  {out : PassOutcome} {c : ClassFile} {a : AnnotationEntry} {kind : Kind} {d1 d2 : List String}

/-- A pass that keeps the class rewrites it, or leaves it as it was. -/
theorem rewriting_of_run (hc : ClassFile.ofBytes bytes = .ok c)
    (hrun : (run policy entry bytes).run s = .ok out s') (hkept : out ≠ .unwanted) :
    ∃ r : Prune.Rewriting policy s.ledger.expire c, r.last = s'.ledger ∧
      (out = .unchanged ∨ out = .modified r.result.bytes) := by
  obtain ⟨b, hpass, rfl, hledger⟩ := (pass_follows policy entry bytes s).of_ok hrun
  obtain ⟨c', hc', hpassed⟩ := Prune.pass_ok hpass
  cases hc.symm.trans hc'
  cases hpassed with
  | discarded _ _ => exact absurd rfl hkept
  | modified r _ => exact ⟨r, hledger.symm, .inr rfl⟩
  | unchanged r _ => exact ⟨r, hledger.symm, .inl rfl⟩

/-- What a pass leaves of a class and of the payload in its metadata: nothing changed, or the
payload lost what the tracker holds, and the class, which is not gone itself, no other member. -/
inductive Sweeps (t : Tracker) (owner : String) (c : ClassFile) (p : Payload) :
    ClassFile → Payload → Prop
  | same : Sweeps t owner c p c p
  | swept {c' : ClassFile} {p' : Payload} {changes : Metadata.Changes}
    (here : t.containsClass owner = false) (members : Prune.Outlives t owner c c')
    (sweep : p.sweep owner t = .ok (p', changes)) :
    Sweeps t owner c p c' p'

/-- A pass leaves the class with its metadata annotation, of the same kind, and with a payload that
can be read if there was one. -/
theorem leaves_metadata {owner : String} (hc : ClassFile.ofBytes bytes = .ok c)
    (howner : c.name = .ok owner) (hsole : c.SoleMetadata a)
    (hparts : Pruner.metadataParts c.pool a = .ok (kind, d1, d2))
    (heditable : kind.isEditable = true) (htold : Packing.Told d1)
    (hfew : ∀ p p' changes, Payload.decode kind d1 d2 = .ok p →
      p.sweep owner s'.tracker = .ok (p', changes) → p'.encode.length ≤ 65535)
    (hrun : (run policy entry bytes).run s = .ok out s') (hkept : out ≠ .unwanted) :
    ∃ c' a' d1', out.Leaves c c' ∧ c'.SoleMetadata a' ∧
      Pruner.metadataParts c'.pool a' = .ok (kind, d1', d2) ∧
      (d1 = [] ∧ d1' = [] ∨ ∃ p p' types, Payload.decode kind d1 d2 = .ok p ∧
        TypeTable.ofContainer p.container = .ok types ∧ Payload.decode kind d1' d2 = .ok p' ∧
        TypeTable.ofContainer p'.container = .ok types ∧ Sweeps s'.tracker owner c p c' p') := by
  obtain ⟨r, hlast, hout⟩ := rewriting_of_run hc hrun hkept
  have hfits := (ClassFile.of_ofBytes hc).2.1
  have htracker : r.last.tracker = s'.tracker := congrArg Ledger.tracker hlast
  obtain rfl : r.name = owner := Except.ok.inj (r.surveyed.named.symm.trans howner)
  have hleaves (hnew : ∀ b ∈ r.new, b.Fits) :
      (PassOutcome.modified r.result.bytes).Leaves c r.result :=
    ⟨rfl, fun hattributes => r.ofBytes_result hfits ⟨hattributes, hnew⟩⟩
  by_cases hpacked : d1 = []
  · subst hpacked
    have hnew := r.new_of_bare hfits.toFramed hsole hparts
    rcases hout with rfl | rfl
    · exact ⟨c, a, [], rfl, hsole, hparts, .inl ⟨rfl, rfl⟩⟩
    · have hsole' := r.soleMetadata hfits.toFramed (a := a) (by simp [hnew]) (by simp [hnew]) hsole
      rw [hnew] at hsole'
      exact ⟨r.result, a, [], hleaves (by simp [hnew]), hsole',
        Prune.metadataParts_persists (r.pool_grows hfits.toFramed) a _ hparts, .inl ⟨rfl, rfl⟩⟩
  · obtain ⟨p, p', types, h⟩ := r.resweeps hfits.toFramed hsole hparts heditable hpacked
    obtain ⟨changes, hsweep⟩ := h.swept
    have hcount := hfew p p' changes h.decoded (htracker ▸ hsweep)
    rcases hout with rfl | rfl
    · exact ⟨c, a, d1, rfl, hsole, hparts,
        .inr ⟨p, p, types, h.decoded, h.typed, h.decoded, h.typed, .same⟩⟩
    · have hnew := h.new_fits hsole.fits hcount
      obtain ⟨a', d1', hsole', hparts', hdecode, htypes⟩ :=
        r.resweeps_result hfits hsole hparts heditable htold h hnew
      refine ⟨r.result, a', d1', hleaves hnew, hsole', hparts',
        .inr ⟨p, p', types, h.decoded, h.typed, hdecode, htypes, ?_⟩⟩
      exact .swept (htracker ▸ r.here) (htracker ▸ r.outlives hfits.toFramed) (htracker ▸ hsweep)

/-- Metadata stays consistent with the bytecode: if every function, constructor and enum entry that
is declared is a member of the class, the same holds of what a pass leaves. -/
theorem mirrors_of_run {owner : String} (hc : ClassFile.ofBytes bytes = .ok c)
    (howner : c.name = .ok owner) (hsole : c.SoleMetadata a)
    (hparts : Pruner.metadataParts c.pool a = .ok (kind, d1, d2))
    (heditable : kind.isEditable = true) (htold : Packing.Told d1)
    (hfew : ∀ p p' changes, Payload.decode kind d1 d2 = .ok p →
      p.sweep owner s'.tracker = .ok (p', changes) → p'.encode.length ≤ 65535)
    (hmirrors : ∀ p types, Payload.decode kind d1 d2 = .ok p →
      TypeTable.ofContainer p.container = .ok types → c.Mirrors p types)
    (hrun : (run policy entry bytes).run s = .ok out s') (hkept : out ≠ .unwanted) :
    ∃ c' a' d1', out.Leaves c c' ∧ c'.SoleMetadata a' ∧
      Pruner.metadataParts c'.pool a' = .ok (kind, d1', d2) ∧
      (d1 = [] ∧ d1' = [] ∨ ∃ p types, Payload.decode kind d1' d2 = .ok p ∧
        TypeTable.ofContainer p.container = .ok types ∧ c'.Mirrors p types) := by
  obtain ⟨c', a', d1', hleaves, hsole', hparts', hpayload⟩ :=
    leaves_metadata hc howner hsole hparts heditable htold hfew hrun hkept
  refine ⟨c', a', d1', hleaves, hsole', hparts', hpayload.imp_right ?_⟩
  rintro ⟨p, p', types, hdecode, htypes, hdecode', htypes', hsweeps⟩
  refine ⟨p', types, hdecode', htypes', ?_⟩
  cases hsweeps with
  | same => exact hmirrors p types hdecode htypes
  | swept _ hmembers hsweep => exact (hmirrors p types hdecode htypes).sweep hmembers hsweep htypes

/-- The metadata of a class that declares what the strings at `chunks` pack. -/
def declaringMetadata (chunks : List UInt16) : AnnotationEntry :=
  ⟨15, [(9, .const 0x49 10), (11, .array (chunks.map (.const 0x73))),
    (12, .array ([3, 5, 8, 13, 14, 4, 16, 17].map (.const 0x73)))]⟩

/-- A class with a field `f` and a method `m`, which are marked, and a method `n`. -/
def declaringClass (texts : List String) (chunks : List UInt16) : ClassFile where
  minor := 0
  major := 52
  pool := ⟨#[.unusable, .ofText "A", .classInfo 1, .ofText "m", .ofText "f", .ofText "()V",
    .ofText "RuntimeVisibleAnnotations", .ofText "LD;", .ofText "n", .ofText "k", .integer 1,
    .ofText "d1", .ofText "d2", .ofText "g", .ofText "kotlin/Unit", .ofText "Lkotlin/Metadata;",
    .ofText "(I)V", .ofText "I"] ++ (texts.map Constant.ofText).toArray⟩
  access := 0
  thisClass := 2
  superClass := 0
  interfaces := []
  fields := [⟨8, 4, 17, [⟨6, AnnotationEntry.tableBytes [⟨7, []⟩]⟩]⟩]
  methods := [⟨9, 3, 5, [⟨6, AnnotationEntry.tableBytes [⟨7, []⟩]⟩]⟩, ⟨9, 8, 16, []⟩]
  attributes := [⟨6, AnnotationEntry.tableBytes [declaringMetadata chunks]⟩]

def textOf (codes : List Nat) : String := String.ofList (codes.map Char.ofNat)

/-- Byte for byte, the functions `m` and `n` and the enum entry `f`. -/
def functionsText : String := textOf
  [0, 0, 0x4A, 7, 0xA2, 6, 4, 8, 0, 16, 1, 0x4A, 7, 0xA2, 6, 4, 8, 2, 16, 6, 0x6A, 2, 8, 5]

/-- Bytes in groups of seven bits, the first group written as a zero character. The container starts
in the first character of the tail. Read byte for byte, the characters declare a function `g`. -/
def groupsText (tail : List Nat) : String := textOf <|
  [0, 53, 117, 4, 1, 1, 1, 26, 46] ++ List.replicate 46 1 ++
    [74, 6, 16, 3, 26, 2, 48, 4, 10, 82] ++ List.replicate 81 1 ++ tail

def declaringStrings : List String :=
  ["m", "()V", "n", "g", "kotlin/Unit", "f", "(I)V", "I"]

theorem ofBytes_functions : ClassFile.ofBytes (declaringClass [functionsText] [18]).bytes =
    .ok (declaringClass [functionsText] [18]) := by
  decide +kernel

theorem name_functions : (declaringClass [functionsText] [18]).name = .ok "A" := by
  decide +kernel

theorem soleMetadata_functions :
    (declaringClass [functionsText] [18]).SoleMetadata (declaringMetadata [18]) := by
  decide +kernel

theorem metadataParts_functions : Pruner.metadataParts (declaringClass [functionsText] [18]).pool
    (declaringMetadata [18]) = .ok (.classFile, [functionsText], declaringStrings) := by
  decide +kernel

/-- The bytes are marked. -/
theorem told_functions : Packing.Told [functionsText] := fun h => absurd h (by decide +kernel)

def marking : Policy := { delete := ["LD;"] }

/-- Whether a pass wrote a class and the payload that is left of `d1` takes few strings. -/
def writesFew (d1 : List String) : EStateM.Result ClassFailure Session PassOutcome → Bool
  | .ok (.modified _) s =>
    match Payload.decode .classFile d1 declaringStrings with
    | .ok p => (p.sweep "A" s.tracker).toOption.all fun r => decide (r.1.encode.length ≤ 65535)
    | .error _ => false
  | _ => false

theorem few_of_writesFew {d1 : List String} (h : writesFew d1 (.ok out s') = true) :
    out ≠ .unwanted ∧ ∀ p p' changes, Payload.decode .classFile d1 declaringStrings = .ok p →
      p.sweep "A" s'.tracker = .ok (p', changes) → p'.encode.length ≤ 65535 := by
  cases out with
  | modified _ =>
    refine ⟨nofun, fun p p' changes hdecode hsweep => ?_⟩
    simpa [writesFew, hdecode, hsweep, Except.toOption] using h
  | _ => cases h

/-- What a test says of the payload of `d1`, if it can be read. -/
def ofPayload? (test : Payload → TypeTable → Bool) (d1 : List String) : Option Bool :=
  match Payload.decode .classFile d1 declaringStrings with
  | .ok p => (TypeTable.ofContainer p.container).toOption.map (test p)
  | .error _ => none

theorem of_ofPayload? {test : Payload → TypeTable → Bool} {d1 : List String} {b : Bool}
    (h : ofPayload? test d1 = some b) :
    ∃ p types, Payload.decode .classFile d1 declaringStrings = .ok p ∧
      TypeTable.ofContainer p.container = .ok types ∧ test p types = b := by
  unfold ofPayload? at h
  cases hdecode : Payload.decode .classFile d1 declaringStrings with
  | error => simp [hdecode] at h
  | ok p =>
    cases htypes : TypeTable.ofContainer p.container with
    | error => simp [hdecode, htypes, Except.toOption] at h
    | ok types => exact ⟨p, types, rfl, htypes, by simpa [hdecode, htypes, Except.toOption] using h⟩

/-- Whether a pass wrote these bytes. -/
def writes (bytes : List UInt8) : EStateM.Result ClassFailure Session PassOutcome → Bool
  | .ok out _ => out = .modified bytes
  | .error _ _ => false

theorem of_writes {r : EStateM.Result ClassFailure Session PassOutcome}
    (h : writes bytes r = true) : ∃ s', r = .ok (.modified bytes) s' := by
  cases r with
  | ok out s' => exact ⟨s', by simpa [writes] using h⟩
  | error => cases h

theorem writesFew_functions : writesFew [functionsText]
    ((run marking "A.class" (declaringClass [functionsText] [18]).bytes).run {}) = true := by
  decide +kernel

theorem mirrors_of_run_functions : ∃ out s' c' a' d1',
    (run marking "A.class" (declaringClass [functionsText] [18]).bytes).run {} = .ok out s' ∧
      out.Leaves (declaringClass [functionsText] [18]) c' ∧ c'.SoleMetadata a' ∧
      Pruner.metadataParts c'.pool a' = .ok (.classFile, d1', declaringStrings) ∧
      ∃ p types, Payload.decode .classFile d1' declaringStrings = .ok p ∧
        TypeTable.ofContainer p.container = .ok types ∧ c'.Mirrors p types := by
  have hfew := writesFew_functions
  obtain ⟨p, types, hdecode, htypes, hmirrors⟩ : ∃ p types,
      Payload.decode .classFile [functionsText] declaringStrings = .ok p ∧
        TypeTable.ofContainer p.container = .ok types ∧
        (declaringClass [functionsText] [18]).mirrors p types = true :=
    of_ofPayload? (by decide +kernel)
  cases hrun : (run marking "A.class" (declaringClass [functionsText] [18]).bytes).run {} with
  | error e s' =>
    rw [hrun] at hfew
    cases hfew
  | ok out s' =>
    rw [hrun] at hfew
    obtain ⟨hkept, hfew⟩ := few_of_writesFew hfew
    obtain ⟨c', a', d1', hleaves, hsole, hparts, ⟨hnil, -⟩ | hpayload⟩ :=
      mirrors_of_run ofBytes_functions name_functions soleMetadata_functions metadataParts_functions
        rfl told_functions hfew (fun p' types' hdecode' htypes' => by
        cases hdecode.symm.trans hdecode'
        cases htypes.symm.trans htypes'
        exact ClassFile.mirrors_iff.1 hmirrors) hrun hkept
    · cases hnil
    · exact ⟨out, s', c', a', d1', rfl, hleaves, hsole, hparts, hpayload⟩

/-- The first string is empty, so the payload is read as groups; packed anew it starts with the
zero character of the first group, and is read byte for byte. -/
theorem strays_if_untold :
    let tail := [41, 59, 33, 85, 2, 3, 9, 1, 65, 9, 1]
    let before := declaringClass ["", groupsText tail] [18, 19]
    let after : ClassFile :=
      { declaringClass ["", groupsText tail, groupsText [1]] [20] with
        fields := [], methods := [⟨9, 8, 16, []⟩] }
    (ClassFile.ofBytes before.bytes = .ok before ∧ before.name = .ok "A" ∧
      before.SoleMetadata (declaringMetadata [18, 19]) ∧
      Pruner.metadataParts before.pool (declaringMetadata [18, 19]) =
        .ok (.classFile, ["", groupsText tail], declaringStrings) ∧
      ∃ p types, Payload.decode .classFile ["", groupsText tail] declaringStrings = .ok p ∧
        TypeTable.ofContainer p.container = .ok types ∧ before.Mirrors p types) ∧
    (∃ s', (run marking "A.class" before.bytes).run {} = .ok (.modified after.bytes) s') ∧
    ClassFile.ofBytes after.bytes = .ok after ∧ after.SoleMetadata (declaringMetadata [20]) ∧
    Pruner.metadataParts after.pool (declaringMetadata [20]) =
      .ok (.classFile, [groupsText [1]], declaringStrings) ∧
    ∃ p types, Payload.decode .classFile [groupsText [1]] declaringStrings = .ok p ∧
      TypeTable.ofContainer p.container = .ok types ∧ ¬ after.Mirrors p types := by
  intro tail before after
  have hbefore : ofPayload? before.mirrors ["", groupsText tail] = some true := by decide +kernel
  have hafter : ofPayload? after.mirrors [groupsText [1]] = some false := by decide +kernel
  obtain ⟨p, types, hdecode, htypes, hmirrors⟩ := of_ofPayload? hbefore
  obtain ⟨p', types', hdecode', htypes', hstrays⟩ := of_ofPayload? hafter
  refine ⟨⟨by decide +kernel, by decide +kernel, by decide +kernel, by decide +kernel,
    p, types, hdecode, htypes, ClassFile.mirrors_iff.1 hmirrors⟩, of_writes (by decide +kernel),
    by decide +kernel, by decide +kernel, by decide +kernel,
    p', types', hdecode', htypes', fun h => nomatch hstrays.symm.trans (ClassFile.mirrors_iff.2 h)⟩

end Pass

end JarPruning
