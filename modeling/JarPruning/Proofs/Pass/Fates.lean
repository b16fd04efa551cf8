import JarPruning.Proofs.Bytecode.Balance
import JarPruning.Proofs.Pass.Completion
import JarPruning.Proofs.Pass.Recorded
import JarPruning.Proofs.Pass.Mirrored

/-!
The fate of a method is one decision about what it says and what is gone when the walk comes to it. In
which order its annotations stand, and in which tables, has no part in it.
-/
namespace JarPruning

open ConstantPool (Grows)

/-- Steps over a list one after another, each from where the one before it ended. -/
inductive Along {σ α β : Type} (step : σ → α → β → σ → Prop) : σ → List α → List β → σ → Prop
  | nil {s : σ} : Along step s [] [] s
  | cons {s t u : σ} {a : α} {b : β} {as : List α} {bs : List β} (first : step s a b t)
    (rest : Along step t as bs u) : Along step s (a :: as) (b :: bs) u

/-- What is gone, or a stub, behind a method that met its fate. -/
def Fate.ledger (l : Ledger) (owner : String) (m : Member) : Fate → Ledger
  | .delete => l.dropMethod owner m
  | .stub => l.stubMethod m
  | .keep _ => l

namespace Along

variable {σ α β : Type} {step : σ → α → β → σ → Prop} {s t t' : σ} {as : List α}
  {bs bs' : List β}

/-- Steps that can be taken over one list can be taken over another that is related to it. -/
theorem transfer {R : α → α → Prop} (hstep : ∀ s a a' b t, R a a' → step s a b t → step s a' b t)
    {as' : List α} (has : List.Forall₂ R as as') (h : Along step s as bs t) :
    Along step s as' bs t := by
  induction h generalizing as' with
  | nil =>
    cases has
    exact .nil
  | cons hfirst _ ih =>
    obtain _ | ⟨ha, has⟩ := has
    exact .cons (hstep _ _ _ _ _ ha hfirst) (ih has)

/-- Steps that are determined lead one way. -/
theorem unique (hstep : ∀ s a b b' t t', step s a b t → step s a b' t' → b = b' ∧ t = t')
    (h : Along step s as bs t) (h' : Along step s as bs' t') : bs = bs' ∧ t = t' := by
  induction h generalizing bs' with
  | nil =>
    cases h'
    exact ⟨rfl, rfl⟩
  | cons hfirst _ ih =>
    obtain _ | ⟨hfirst', hrest'⟩ := h'
    obtain ⟨rfl, rfl⟩ := hstep _ _ _ _ _ _ hfirst hfirst'
    obtain ⟨rfl, rfl⟩ := ih hrest'
    exact ⟨rfl, rfl⟩

end Along

namespace Prune

open Walk (KeptMethod Patch)

/-! What a method says. -/

section

variable (policy : Policy) (pool : ConstantPool) (bootstraps : List Bootstrap) (entry : MemberEntry)

/-- The policy gives a role to one of the annotations. -/
def Bears (role : Role) : Prop :=
  ∃ e d, Annotated pool entry.attributes e d ∧ policy.role? d = some role

/-- The first body has the instruction, and this is what the instruction refers to. -/
def Refers (i : Instruction) (site : Site) : Prop :=
  ∃ a ss, entry.attributes.find? (·.isNamed pool "Code") = some a ∧
    sites pool bootstraps a.payload = .ok ss ∧ (i, site) ∈ ss

/-- The body decides nothing: it is a stub already, or is to be one. -/
def Exempt (l : Ledger) (m : Member) : Prop :=
  l.memory.stubbed.contains m.toSignature = true ∨
    m.isConstructor = false ∧ Bears policy pool entry .stub

end

/-- How the fate of a method is decided, `l` being what is gone. -/
structure Decided (policy : Policy) (owner : String) (pool : ConstantPool)
    (bootstraps : List Bootstrap) (l : Ledger) (entry : MemberEntry) (m : Member) (ft : Fate) :
    Prop where
  delete : ft = .delete ↔ l.methodGone owner owner m.toSignature = true ∨
    Bears policy pool entry .delete ∨ ¬ Exempt policy pool entry l m ∧
      ∃ i site, Refers pool bootstraps entry i site ∧ site.isFatal l owner m.isConstructor = true
  stub : ft = .stub ↔ ft ≠ .delete ∧ Exempt policy pool entry l m ∧
    l.memory.stubbed.contains m.toSignature = false
  patches {patches : List Patch} (kept : ft = .keep patches) : ∀ p ∈ patches,
    ∃ i op t, Refers pool bootstraps entry i (.access op t) ∧ p.offset = i.offset
  patched {patches : List Patch} (kept : ft = .keep patches) : ∀ i op t,
    Refers pool bootstraps entry i (.access op t) → t.descriptor ≠ "" →
      ∃ bytes, Neutral.replacement? op t.descriptor = some bytes ∧
        (⟨i.offset, bytes⟩ ∈ patches ↔
          ¬ Exempt policy pool entry l m ∧ l.fieldGone owner t.owner t.name = true)

section

variable {policy : Policy} {owner : String} {pool : ConstantPool} {bootstraps : List Bootstrap}
  {l : Ledger} {entry : MemberEntry} {m : Member} {ms : List Marked} {ft : Fate}

theorem anyOf_role_iff (hms : marks pool entry.attributes = .ok ms) (role : Role) :
    Marked.anyOf (fun d => policy.role? d = some role) ms = true ↔ Bears policy pool entry role := by
  rw [Marked.anyOf_iff hms]
  simp only [decide_eq_true_eq]
  rfl

/-- Stripping leaves the first body. -/
theorem code_left (hms : marks pool entry.attributes = .ok ms) :
    (codeOf pool (left policy entry ms)).bind ((left policy entry ms).attributes[·]?) =
      entry.attributes.find? (·.isNamed pool "Code") := by
  obtain ⟨hsource, hreads⟩ := marks_ok_iff.1 hms
  have hfind : (left policy entry ms).attributes.find? (·.isNamed pool "Code") =
      (ms.map Marked.source).find? (·.isNamed pool "Code") :=
    find?_stripAll (by decide) (by decide) hreads
  rw [← hsource] at hfind
  rw [← hfind]
  exact List.find?_eq_bind_findIdx?_getElem?.symm

/-- A reference to a field whose descriptor is not empty can be overwritten. -/
theorem Refers.replacement {i : Instruction} {op : UInt8} {t : MemberRef}
    (h : Refers pool bootstraps entry i (.access op t)) (hdescriptor : t.descriptor ≠ "") :
    ∃ bytes, Neutral.replacement? op t.descriptor = some bytes := by
  obtain ⟨a, ss, -, hsites, hmem⟩ := h
  have hread := (sites_ok_iff.1 hsites).2 _ hmem
  rw [Site.read_access hread]
  exact Neutral.replacement?_of_isFieldAccess (Site.opcode_of_access hread) hdescriptor

theorem bodyFate_eq_delete_iff {constructs : Bool} {ss : List (Instruction × Site)} :
    bodyFate l owner constructs ss = .delete ↔
      ∃ i site, (i, site) ∈ ss ∧ site.isFatal l owner constructs = true := by
  have hany : (ss.any fun s => s.2.isFatal l owner constructs) = true ↔
      ∃ i site, (i, site) ∈ ss ∧ site.isFatal l owner constructs = true := by
    rw [List.any_eq_true]
    exact Prod.exists
  rw [← hany]
  unfold bodyFate
  split
  · next hfatal => exact iff_of_true rfl hfatal
  · next hfatal => exact iff_of_false (by simp) hfatal

/-- A body that is kept is overwritten where it accesses a field that is gone; if it is not that of a
constructor, there is no such place. -/
theorem mem_of_bodyFate {constructs : Bool} {ss : List (Instruction × Site)} {patches : List Patch}
    (h : bodyFate l owner constructs ss = .keep patches) {p : Patch} :
    p ∈ patches ↔ ∃ i op t, (i, .access op t) ∈ ss ∧ l.fieldGone owner t.owner t.name = true ∧
      p.offset = i.offset ∧ Neutral.replacement? op t.descriptor = some p.bytes := by
  unfold bodyFate at h
  split at h
  · cases h
  next hspared =>
  have hpatches := Fate.keep.inj h
  cases constructs with
  | true =>
    rw [if_pos rfl] at hpatches
    rw [← hpatches, List.mem_filterMap]
    constructor
    · rintro ⟨⟨i, site⟩, hmem, hp⟩
      obtain ⟨op, t, rfl, hgone, hoffset, hbytes⟩ := Site.patch?_some hp
      exact ⟨i, op, t, hmem, hgone, hoffset, hbytes⟩
    · rintro ⟨i, op, t, hmem, hgone, hoffset, hbytes⟩
      refine ⟨_, hmem, ?_⟩
      simp only [Site.patch?, hgone, if_true, hbytes, ← hoffset, Option.map_some]
  | false =>
    rw [if_neg Bool.false_ne_true] at hpatches
    rw [← hpatches]
    refine iff_of_false List.not_mem_nil ?_
    rintro ⟨i, op, t, hmem, hgone, -⟩
    exact hspared (List.any_eq_true.2 ⟨_, hmem, by simp [Site.isFatal, hgone]⟩)

/-- A method that nothing speaks against and whose body is not looked at, if it has one, is kept as
it is. -/
theorem Decided.rests (hhere : l.methodGone owner owner m.toSignature = false)
    (hwanted : ¬ Bears policy pool entry .delete)
    (hbody : l.memory.stubbed.contains m.toSignature = true ∨ ¬ Exempt policy pool entry l m ∧
      ∀ i site, ¬ Refers pool bootstraps entry i site) :
    Decided policy owner pool bootstraps l entry m (.keep []) where
  delete := by
    refine iff_of_false (by simp) ?_
    rintro (hgone | hbears | ⟨hnot, i, site, hrefers, -⟩)
    · rw [hhere] at hgone
      cases hgone
    · exact hwanted hbears
    · rcases hbody with hstubbed | ⟨-, hnone⟩
      · exact hnot (.inl hstubbed)
      · exact hnone i site hrefers
  stub := by
    refine iff_of_false (by simp) ?_
    rintro ⟨-, hexempt, hfresh⟩
    rcases hbody with hstubbed | ⟨hnot, -⟩
    · rw [hstubbed] at hfresh
      cases hfresh
    · exact hnot hexempt
  patches hkept := by
    obtain rfl := Fate.keep.inj hkept
    simp
  patched hkept i op t hrefers hdescriptor := by
    obtain rfl := Fate.keep.inj hkept
    obtain ⟨bytes, hbytes⟩ := hrefers.replacement hdescriptor
    refine ⟨bytes, hbytes, iff_of_false List.not_mem_nil ?_⟩
    rintro ⟨hnot, -⟩
    rcases hbody with hstubbed | ⟨-, hnone⟩
    · exact hnot (.inl hstubbed)
    · exact hnone _ _ hrefers

/-- The fate of a method whose body is walked. -/
theorem Decided.walks {a : Attribute} {ss : List (Instruction × Site)}
    (hhere : l.methodGone owner owner m.toSignature = false)
    (hwanted : ¬ Bears policy pool entry .delete) (hexempt : ¬ Exempt policy pool entry l m)
    (hcode : entry.attributes.find? (·.isNamed pool "Code") = some a)
    (hsites : sites pool bootstraps a.payload = .ok ss) :
    Decided policy owner pool bootstraps l entry m (bodyFate l owner m.isConstructor ss) := by
  have hrefers (i : Instruction) (site : Site) :
      Refers pool bootstraps entry i site ↔ (i, site) ∈ ss := by
    constructor
    · rintro ⟨a', ss', hcode', hsites', hmem⟩
      obtain rfl := Option.some.inj (hcode.symm.trans hcode')
      obtain rfl := Except.ok.inj (hsites.symm.trans hsites')
      exact hmem
    · exact fun hmem => ⟨a, ss, hcode, hsites, hmem⟩
  refine ⟨?_, ?_, fun hkept p hp => ?_, fun hkept i op t hi hdescriptor => ?_⟩
  · rw [bodyFate_eq_delete_iff]
    simp only [hhere, Bool.false_eq_true, hwanted, hexempt, not_false_eq_true, true_and, false_or,
      hrefers]
  · exact iff_of_false (bodyFate_ne_stub _ _ _ _) fun h => hexempt h.2.1
  · obtain ⟨i, op, t, hmem, -, hoffset, -⟩ := (mem_of_bodyFate hkept).1 hp
    exact ⟨i, op, t, (hrefers _ _).2 hmem, hoffset⟩
  · obtain ⟨bytes, hbytes⟩ := hi.replacement hdescriptor
    refine ⟨bytes, hbytes, ?_⟩
    rw [mem_of_bodyFate hkept]
    constructor
    · rintro ⟨i', op', t', hmem, hgone, hoffset, -⟩
      -- Only one instruction stands at the offset.
      cases sites_unique hsites hmem ((hrefers _ _).1 hi) hoffset.symm
      exact ⟨hexempt, hgone⟩
    · rintro ⟨-, hgone⟩
      exact ⟨i, op, t, (hrefers _ _).1 hi, hgone, rfl, hbytes⟩

/-- A method with a fate met what decides it. -/
theorem MethodStep.decided (h : MethodStep policy owner pool bootstraps l entry m ms ft) :
    Decided policy owner pool bootstraps l entry m ft := by
  have hdeletes : Marked.anyOf policy.deletes ms = true ↔ Bears policy pool entry .delete :=
    anyOf_role_iff h.read .delete
  have hasks : asksForStub policy m ms = true ↔
      m.isConstructor = false ∧ Bears policy pool entry .stub := by
    rw [asksForStub, Bool.and_eq_true, Bool.not_eq_true']
    exact and_congr_right fun _ => anyOf_role_iff h.read .stub
  have hwanted (hstays : Stays policy owner l m ms) : ¬ Bears policy pool entry .delete := by
    rw [← hdeletes, hstays.wanted]
    exact Bool.false_ne_true
  have hexempt (hfresh : l.memory.stubbed.contains m.toSignature = false)
      (hwhole : asksForStub policy m ms = false) : ¬ Exempt policy pool entry l m := by
    rintro (hstubbed | hstub)
    · rw [hfresh] at hstubbed
      cases hstubbed
    · rw [hasks.2 hstub] at hwhole
      cases hwhole
  have hfated := h.fated
  rw [code_left h.read] at hfated
  cases hfated with
  | gone hgoes =>
    rw [hdeletes] at hgoes
    refine ⟨iff_of_true rfl (hgoes.imp_right .inl), iff_of_false (by simp) (by simp), ?_, ?_⟩
    · intro _ hkept
      cases hkept
    · intro _ hkept
      cases hkept
  | already hstays hstubbed => exact .rests hstays.here (hwanted hstays) (.inl hstubbed)
  | stub hstays hfresh hstub =>
    have hexempt : Exempt policy pool entry l m := .inr (hasks.1 hstub)
    refine ⟨iff_of_false (by simp) ?_, iff_of_true rfl ⟨by simp, hexempt, hfresh⟩, ?_, ?_⟩
    · rintro (hgone | hbears | ⟨hnot, -⟩)
      · rw [hstays.here] at hgone
        cases hgone
      · exact hwanted hstays hbears
      · exact hnot hexempt
    · intro _ hkept
      cases hkept
    · intro _ hkept
      cases hkept
  | bare hstays hfresh hwhole hempty =>
    refine .rests hstays.here (hwanted hstays) (.inr ⟨hexempt hfresh hwhole, ?_⟩)
    rintro i site ⟨a, -, hcode, -⟩
    cases hempty.symm.trans hcode
  | walked hstays hfresh hwhole hcode hsites hmeets =>
    rw [← hmeets]
    exact .walks hstays.here (hwanted hstays) (hexempt hfresh hwhole) hcode hsites

end

/-! The walk over the members. -/

section

variable (policy : Policy) (owner : String) (pool : ConstantPool) (bootstraps : List Bootstrap)

/-- What becomes of a method: it is deleted, kept with patches in its first body, or kept with a stub
for its first body, if it has one. Annotations are stripped in any case. -/
inductive Becomes (entry : MemberEntry) (m : Member) : Fate → Option MemberEntry → Prop
  | deleted : Becomes entry m .delete none
  | kept {ms : List Marked} {patches : List Patch} (read : marks pool entry.attributes = .ok ms) :
    Becomes entry m (.keep patches) (some (edited (codeOf pool (left policy entry ms))
      (Walk.applyPatches · patches) (left policy entry ms)))
  | stubbed {ms : List Marked} {payload : List UInt8} (read : marks pool entry.attributes = .ok ms)
    (written : codeOf pool (left policy entry ms) ≠ none →
      ∃ p q, (Stub.payload m.descriptor m.isStatic).run p = .ok payload q) :
    Becomes entry m .stub (some (edited (codeOf pool (left policy entry ms)) (fun _ => payload)
      (left policy entry ms)))

/-- A walk comes to a method with a ledger, decides on its fate, and goes on with another. -/
inductive MethodMet (l : Ledger) (entry : MemberEntry) : Fate × Option MemberEntry → Ledger → Prop
  | intro {m : Member} {ft : Fate} {e? : Option MemberEntry} (resolved : entry.resolve pool = .ok m)
    (decided : Decided policy owner pool bootstraps l entry m ft)
    (becomes : Becomes policy pool entry m ft e?) :
    MethodMet l entry (ft, e?) (ft.ledger l owner m)

/-- A walk comes to a field. -/
inductive FieldMet (l : Ledger) (f : MemberEntry) : Option MemberEntry → Ledger → Prop
  | dropped {m : Member} (resolved : f.resolve pool = .ok m)
    (goes : l.fieldGone owner owner m.name = true ∨ Bears policy pool f .delete) :
    FieldMet l f none (l.dropField owner m)
  | kept {m : Member} {ms : List Marked} (resolved : f.resolve pool = .ok m)
    (read : marks pool f.attributes = .ok ms)
    (stays : ¬ (l.fieldGone owner owner m.name = true ∨ Bears policy pool f .delete)) :
    FieldMet l f (some (left policy f ms)) l

/-- The fate of a method by itself. -/
inductive MethodFated (l : Ledger) (entry : MemberEntry) (ft : Fate) : Ledger → Prop
  | intro {m : Member} {ms : List Marked}
    (step : MethodStep policy owner pool bootstraps l entry m ms ft) :
    MethodFated l entry ft (ft.ledger l owner m)

end

section

variable {policy : Policy} {owner : String} {pool : ConstantPool} {bootstraps : List Bootstrap}
  {l l' : Ledger}

theorem afterFate_ledger (entry : MemberEntry) (m : Member) (ms : List Marked) (ft : Fate) :
    (afterFate policy owner pool l entry m ms ft).1 = ft.ledger l owner m := by
  cases ft <;> rfl

theorem fields_met {fs fs' : List MemberEntry} {changed : Bool}
    (h : fields policy owner pool l fs = .ok (l', fs', changed)) :
    ∃ met, Along (FieldMet policy owner pool) l fs met l' ∧ fs' = met.reduceOption := by
  induction fs generalizing l fs' changed with
  | nil =>
    cases h
    exact ⟨[], .nil, rfl⟩
  | cons f fs ih =>
    obtain ⟨r, fs₁, c, hstep, hfs, rfl, -⟩ := fields_cons_ok h
    obtain ⟨met, hmet, rfl⟩ := ih hfs
    refine ⟨r.2.1 :: met, ?_, by cases r.2.1 <;> rfl⟩
    cases hstep with
    | drop hresolved hread hgoes =>
      rw [show Marked.anyOf policy.deletes _ = true ↔ _ from anyOf_role_iff hread .delete] at hgoes
      exact .cons (.dropped hresolved hgoes) hmet
    | keep hresolved hread hhere hwanted =>
      refine .cons (.kept hresolved hread ?_) hmet
      rw [← show Marked.anyOf policy.deletes _ = true ↔ _ from anyOf_role_iff hread .delete, hhere,
        hwanted]
      simp

/-- A method that is kept is what its fate makes of it. -/
theorem MethodStep.becomes {entry e : MemberEntry} {m : Member} {ms : List Marked} {ft : Fate}
    {k : KeptMethod} {p q : ConstantPool}
    (h : MethodStep policy owner pool bootstraps l entry m ms ft)
    (hk : (afterFate policy owner pool l entry m ms ft).2.1 = some k)
    (he : (Walk.installStub k).run p = .ok e q) (hgrows : Grows pool p) :
    Becomes policy pool entry m ft (some e) := by
  cases ft with
  | delete => cases hk
  | keep patches =>
    cases hk
    obtain ⟨-, rfl, -⟩ | ⟨_, _, _, hnone, -⟩ := installStub_ok he
    · dsimp only
      rw [patched_eq]
      exact .kept h.read
    · cases hnone
  | stub =>
    cases hk
    obtain ⟨hnone, rfl, -⟩ | ⟨position, descriptor, payload, hcode, hdescriptor, hpayload, rfl⟩ :=
      installStub_ok he
    · have hbare : Becomes policy pool entry m .stub (some (edited
          (codeOf pool (left policy entry ms)) (fun _ => []) (left policy entry ms))) :=
        .stubbed h.read fun hcode => absurd hnone hcode
      rwa [show codeOf pool (left policy entry ms) = none from hnone] at hbare
    · obtain ⟨-, hresolved, haccess⟩ := MemberEntry.of_resolve h.resolved
      obtain rfl := Except.ok.inj (hdescriptor.symm.trans (hgrows.utf8 _ _ hresolved))
      change (Stub.payload m.descriptor (Access.isStatic entry.access)).run p = _ at hpayload
      rw [← haccess] at hpayload
      have hstubbed : Becomes policy pool entry m .stub (some (edited
          (codeOf pool (left policy entry ms)) (fun _ => payload) (left policy entry ms))) :=
        .stubbed h.read fun _ => ⟨p, q, hpayload⟩
      rwa [show codeOf pool (left policy entry ms) = some position from hcode] at hstubbed

theorem methods_met {entries es : List MemberEntry} {ks : List KeptMethod} {changed : Bool}
    {p q : ConstantPool} (h : methods policy owner pool bootstraps l entries = .ok (l', ks, changed))
    (hinstalled : (Walk.installStubs ks).run p = .ok es q) (hgrows : Grows pool p) :
    ∃ met, Along (MethodMet policy owner pool bootstraps) l entries met l' ∧
      es = met.filterMap (·.2) ∧
      Along (MethodFated policy owner pool bootstraps) l entries (met.map (·.1)) l' := by
  induction entries generalizing l ks changed es p with
  | nil =>
    cases h
    cases hinstalled
    exact ⟨[], .nil, rfl, .nil⟩
  | cons entry entries ih =>
    obtain ⟨r, ks', c, hstep, hrest, rfl, -⟩ := methods_cons_ok h
    obtain ⟨m, ms, ft, hm, rfl⟩ := method_ok hstep
    rw [afterFate_ledger] at hrest
    cases hk : (afterFate policy owner pool l entry m ms ft).2.1 with
    | none =>
      rw [hk] at hinstalled
      obtain ⟨met, hmet, rfl, hfated⟩ := ih hrest hinstalled hgrows
      -- Only a method that is deleted leaves nothing.
      cases ft with
      | delete =>
        exact ⟨(.delete, none) :: met, .cons (.intro hm.resolved hm.decided .deleted) hmet, rfl,
          .cons (.intro hm) hfated⟩
      | stub => cases hk
      | keep _ => cases hk
    | some k =>
      rw [hk] at hinstalled
      obtain ⟨e, es', p', he, hes, rfl⟩ := installStubs_cons_ok hinstalled
      obtain ⟨met, hmet, rfl, hfated⟩ := ih hrest hes (hgrows.trans (installStub_adds k he))
      exact ⟨(ft, some e) :: met,
        .cons (.intro hm.resolved hm.decided (hm.becomes hk he hgrows)) hmet, rfl,
        .cons (.intro hm) hfated⟩

end

/-! Annotations in another order. -/

/-- A method with the same annotations, in any order and in any tables, and with the same first
body. -/
structure Reordered (pool : ConstantPool) (e e' : MemberEntry) : Prop where
  header : SameHeader e e'
  annotations : ∃ ms ms', marks pool e.attributes = .ok ms ∧ marks pool e'.attributes = .ok ms' ∧
    (Marked.all ms').Perm (Marked.all ms)
  code : (e'.attributes.find? (·.isNamed pool "Code")).map Attribute.payload =
    (e.attributes.find? (·.isNamed pool "Code")).map Attribute.payload

/-- Kept methods that get the same stub, if any. -/
structure SameStub (k k' : KeptMethod) : Prop where
  access : k'.entry.access = k.entry.access
  descriptor : k'.entry.descriptor = k.entry.descriptor
  stub : k'.stubAt.isSome = k.stubAt.isSome

section

variable {policy : Policy} {owner : String} {pool : ConstantPool} {bootstraps : List Bootstrap}
  {l l' : Ledger} {e e' : MemberEntry} {m : Member} {ms ms' : List Marked} {ft : Fate}

theorem anyOf_perm (h : (Marked.all ms').Perm (Marked.all ms)) (ask : String → Bool) :
    Marked.anyOf ask ms' = Marked.anyOf ask ms :=
  h.any_eq

/-- Only what the annotations ask for decides, and the bytes of the body. -/
theorem Fated.congr {code code' : Option Attribute}
    (hany : ∀ ask, Marked.anyOf ask ms' = Marked.anyOf ask ms)
    (hcode : code'.map Attribute.payload = code.map Attribute.payload)
    (h : Fated policy owner pool bootstraps l m ms code ft) :
    Fated policy owner pool bootstraps l m ms' code' ft := by
  have hstays (h : Stays policy owner l m ms) : Stays policy owner l m ms' :=
    ⟨h.here, (hany _).trans h.wanted⟩
  have hasks : asksForStub policy m ms' = asksForStub policy m ms := by
    rw [asksForStub, hany, asksForStub]
  cases h with
  | gone hgoes =>
    rw [← hany] at hgoes
    exact .gone hgoes
  | already h hstubbed => exact .already (hstays h) hstubbed
  | stub h hfresh hstub => exact .stub (hstays h) hfresh (hasks.trans hstub)
  | bare h hfresh hwhole hempty =>
    rw [hempty] at hcode
    exact .bare (hstays h) hfresh (hasks.trans hwhole) (Option.map_eq_none_iff.1 hcode)
  | walked h hfresh hwhole hbody hsites hmeets =>
    rw [hbody, Option.map_some] at hcode
    obtain ⟨a, rfl, hpayload⟩ := Option.map_eq_some_iff.1 hcode
    rw [← hpayload] at hsites
    exact .walked (hstays h) hfresh (hasks.trans hwhole) rfl hsites hmeets

/-- A method meets the same fate when its annotations stand in another order. -/
theorem Reordered.step (h : Reordered pool e e')
    (hstep : MethodStep policy owner pool bootstraps l e m ms ft) :
    ∃ ms', MethodStep policy owner pool bootstraps l e' m ms' ft := by
  obtain ⟨ms₁, ms', hms₁, hms', hperm⟩ := h.annotations
  obtain rfl := Except.ok.inj (hstep.read.symm.trans hms₁)
  have hfated := hstep.fated
  rw [code_left hstep.read] at hfated
  refine ⟨ms', ?_, hms', ?_⟩
  · have hresolved := hstep.resolved
    unfold MemberEntry.resolve at hresolved ⊢
    rwa [h.header.access, h.header.name, h.header.descriptor]
  · rw [code_left hms']
    exact hfated.congr (anyOf_perm hperm) h.code

theorem isSome_codeOf (hms : marks pool e.attributes = .ok ms) :
    (codeOf pool (left policy e ms)).isSome =
      (e.attributes.find? (·.isNamed pool "Code")).isSome := by
  have hleft : (codeOf pool (left policy e ms)).bind ((left policy e ms).attributes[·]?) = _ :=
    code_left hms
  rw [← hleft]
  cases hcode : codeOf pool (left policy e ms) with
  | none => rfl
  | some position =>
    obtain ⟨a, ha, -⟩ := codeOf_some hcode
    simp [ha]

/-- What is kept of a method differs in nothing that its stub depends on. -/
theorem Reordered.sameStub (h : Reordered pool e e') (hms : marks pool e.attributes = .ok ms)
    (hms' : marks pool e'.attributes = .ok ms') {k : KeptMethod}
    (hk : (afterFate policy owner pool l e m ms ft).2.1 = some k) :
    ∃ k', (afterFate policy owner pool l e' m ms' ft).2.1 = some k' ∧ SameStub k k' := by
  cases ft with
  | delete => cases hk
  | stub =>
    cases hk
    refine ⟨_, rfl, h.header.access, h.header.descriptor, ?_⟩
    have hcode := congrArg Option.isSome h.code
    rw [Option.isSome_map, Option.isSome_map] at hcode
    exact (isSome_codeOf hms').trans (hcode.trans (isSome_codeOf hms).symm)
  | keep patches =>
    cases hk
    refine ⟨_, rfl, ?_, ?_, rfl⟩
    · dsimp only
      rw [patched_eq, patched_eq, (edited_header _ _ _).1, (edited_header _ _ _).1]
      exact h.header.access
    · dsimp only
      rw [patched_eq, patched_eq, (edited_header _ _ _).2.2, (edited_header _ _ _).2.2]
      exact h.header.descriptor

theorem Reordered.fated (h : Reordered pool e e')
    (hfated : MethodFated policy owner pool bootstraps l e ft l') :
    MethodFated policy owner pool bootstraps l e' ft l' := by
  obtain ⟨hstep⟩ := hfated
  obtain ⟨ms', hstep'⟩ := h.step hstep
  exact .intro hstep'

/-- A walk over methods whose annotations stand in another order takes the same way. -/
theorem methods_reordered {entries entries' : List MemberEntry} {ks : List KeptMethod}
    {changed : Bool} (hreordered : List.Forall₂ (Reordered pool) entries entries')
    (h : methods policy owner pool bootstraps l entries = .ok (l', ks, changed)) :
    ∃ ks' changed', methods policy owner pool bootstraps l entries' = .ok (l', ks', changed') ∧
      List.Forall₂ SameStub ks ks' := by
  induction hreordered generalizing l ks changed with
  | nil =>
    cases h
    exact ⟨[], false, rfl, .nil⟩
  | @cons e e' entries entries' he _ ih =>
    obtain ⟨r, ks₁, c, hmethod, hrest, rfl, -⟩ := methods_cons_ok h
    obtain ⟨m, ms, ft, hstep, rfl⟩ := method_ok hmethod
    obtain ⟨ms', hstep'⟩ := he.step hstep
    rw [afterFate_ledger] at hrest
    obtain ⟨ks', c', hrest', hsame⟩ := ih hrest
    rw [← afterFate_ledger e' m ms'] at hrest'
    refine ⟨_, _, methods_cons hstep'.method_eq hrest', ?_⟩
    cases hk : (afterFate policy owner pool l e m ms ft).2.1 with
    | none =>
      cases ft with
      | delete => exact hsame
      | stub => cases hk
      | keep _ => cases hk
    | some k =>
      obtain ⟨k', hk', hkk'⟩ := he.sameStub hstep.read hstep'.read hk
      rw [hk']
      exact .cons hkk' hsame

theorem installStubs_same {ks ks' : List KeptMethod} {es : List MemberEntry} {p q : ConstantPool}
    (h : List.Forall₂ SameStub ks ks') (hinstalled : (Walk.installStubs ks).run p = .ok es q) :
    ∃ es', (Walk.installStubs ks').run p = .ok es' q := by
  induction h generalizing es p with
  | nil =>
    cases hinstalled
    exact ⟨[], rfl⟩
  | @cons k k' ks ks' hk _ ih =>
    obtain ⟨e, es₁, p', he, hes, -⟩ := installStubs_cons_ok hinstalled
    obtain ⟨es', hes'⟩ := ih hes
    have hstub := hk.stub
    obtain ⟨hnone, -, rfl⟩ | ⟨position, descriptor, payload, hposition, hdescriptor, hpayload, -⟩ :=
      installStub_ok he
    · rw [hnone, Option.isSome_none, Option.isSome_eq_false_iff, Option.isNone_iff_eq_none] at hstub
      refine ⟨k'.entry :: es', installStubs_cons ?_ hes'⟩
      unfold Walk.installStub
      rw [hstub]
      rfl
    · rw [hposition, Option.isSome_some, Option.isSome_iff_exists] at hstub
      obtain ⟨position', hposition'⟩ := hstub
      rw [← hk.descriptor] at hdescriptor
      rw [← hk.access] at hpayload
      exact ⟨_, installStubs_cons (installStub_at hposition' hdescriptor hpayload) hes'⟩

end

section

variable {policy : Policy} {owner : String} {pool : ConstantPool} {bootstraps : List Bootstrap}
  {l : Ledger} {c c' : ClassFile}

theorem MethodFated.unique {entry : MemberEntry} {ft ft' : Fate} {l₁ l₂ : Ledger}
    (h : MethodFated policy owner pool bootstraps l entry ft l₁)
    (h' : MethodFated policy owner pool bootstraps l entry ft' l₂) : ft = ft' ∧ l₁ = l₂ := by
  obtain ⟨hstep⟩ := h
  obtain ⟨hstep'⟩ := h'
  obtain rfl := Except.ok.inj (hstep.resolved.symm.trans hstep'.resolved)
  obtain rfl := Except.ok.inj (hstep.read.symm.trans hstep'.read)
  obtain rfl := Except.ok.inj (hstep.fated.fate_eq.symm.trans hstep'.fated.fate_eq)
  exact ⟨rfl, rfl⟩

namespace Rewriting

/-- What a pass that keeps a class meets on its way. -/
theorem met (r : Rewriting policy l c) : ∃ fields methods,
    Along (FieldMet policy r.name c.pool) l c.fields fields r.afterFields ∧
    Along (MethodMet policy r.name c.pool r.bootstraps) r.afterFields c.methods methods
      r.afterMethods ∧
    Along (MethodFated policy r.name c.pool r.bootstraps) r.afterFields c.methods
      (methods.map (·.1)) r.afterMethods ∧
    r.fields = fields.reduceOption ∧ r.methods = methods.filterMap (·.2) := by
  obtain ⟨fields, hfields, hleft⟩ := fields_met r.ofFields
  obtain ⟨methods, hmethods, hkept, hfates⟩ :=
    methods_met r.ofMethods r.installed (.refl _)
  exact ⟨fields, methods, hfields, hmethods, hfates, hleft, hkept⟩

/-- A pass that keeps a class keeps it when annotations of methods stand in another order. -/
theorem reordered (r : Rewriting policy l c) (hc' : c' = { c with methods := c'.methods })
    (hreordered : List.Forall₂ (Reordered c.pool) c.methods c'.methods) :
    ∃ r' : Rewriting policy l c', r'.name = r.name ∧ r'.bootstraps = r.bootstraps ∧
      r'.fields = r.fields ∧ r'.afterFields = r.afterFields ∧ r'.afterMethods = r.afterMethods ∧
      r'.last = r.last := by
  obtain ⟨ks', changed', hmethods, hsame⟩ := methods_reordered hreordered r.ofMethods
  obtain ⟨es', hinstalled⟩ := installStubs_same hsame r.installed
  generalize c'.methods = es at hc' hmethods
  subst hc'
  exact ⟨{ r with
    kept := ks', methods := es', methodsChanged := changed'
    surveyed := ⟨r.surveyed.named, r.surveyed.header, r.surveyed.read⟩
    linked := r.linked
    ofFields := r.ofFields, ofBootstraps := r.ofBootstraps, ofMethods := hmethods
    installed := hinstalled, ofMetadata := r.ofMetadata, ofAttributes := r.ofAttributes },
    rfl, rfl, rfl, rfl, rfl, rfl⟩

theorem unique (r r' : Rewriting policy l c) : r.last = r'.last ∧ r.result = r'.result := by
  have hsame := Except.ok.inj (r.run_eq.symm.trans r'.run_eq)
  simp only [Prod.mk.injEq, Walk.Outcome.rewritten.injEq] at hsame
  exact ⟨hsame.1, hsame.2.1⟩

end Rewriting

end

end Prune

/-- The fields and methods of what a pass leaves of a class. -/
inductive PassOutcome.LeavesMembers (c : ClassFile) (fs ms : List MemberEntry) : PassOutcome → Prop
  | unchanged (fields : c.fields = fs) (methods : c.methods = ms) : LeavesMembers c fs ms .unchanged
  | modified {c' : ClassFile} (fields : c'.fields = fs) (methods : c'.methods = ms)
    (read : ∀ c'', ClassFile.ofBytes c'.bytes = .ok c'' → c''.fields = fs ∧ c''.methods = ms) :
    LeavesMembers c fs ms (.modified c'.bytes)

namespace Pass

open Prune (FieldMet MethodMet Reordered Rewriting)

variable {policy : Policy} {entry : String} {bytes : List UInt8} {s s' : Session}
  {out : PassOutcome} {c : ClassFile}

theorem leavesMembers_of_run (hc : ClassFile.ofBytes bytes = .ok c)
    (hrun : (run policy entry bytes).run s = .ok out s') (hkept : out ≠ .unwanted) :
    ∃ r : Rewriting policy s.ledger.expire c, r.last = s'.ledger ∧
      out.LeavesMembers c r.fields r.methods := by
  obtain ⟨b, hpass, rfl, hledger⟩ := (pass_follows policy entry bytes s).of_ok hrun
  obtain ⟨c', hc', hpassed⟩ := Prune.pass_ok hpass
  obtain rfl := Except.ok.inj (hc.symm.trans hc')
  have hfits := (ClassFile.of_ofBytes hc).2.1.toFramed
  cases hpassed with
  | discarded _ _ => exact absurd rfl hkept
  | modified r _ =>
    have hread (c'' : ClassFile) (hc'' : ClassFile.ofBytes r.result.bytes = .ok c'') :
        c''.fields = r.fields ∧ c''.methods = r.methods := by
      rw [r.reread hfits hc'']
      exact ⟨rfl, rfl⟩
    exact ⟨r, hledger.symm, .modified rfl rfl hread⟩
  | unchanged r hsame =>
    obtain ⟨hfields, hmethods, -⟩ := r.of_same hfits hsame
    exact ⟨r, hledger.symm, .unchanged hfields.symm hmethods.symm⟩

/-- What a pass makes of a class that it can rewrite. -/
theorem outcome_of_rewriting (hc : ClassFile.ofBytes bytes = .ok c) (entry : String)
    (r : Rewriting policy s.ledger.expire c) : ∃ s', (run policy entry bytes).run s =
      .ok (if r.changed && r.result.bytes != bytes then .modified r.result.bytes else .unchanged) s' ∧
      s'.ledger = r.last := by
  have hpass : Prune.pass policy entry bytes s.ledger = .ok (r.last,
      if r.changed && r.result.bytes != bytes then .modified r.result.bytes else .unchanged) :=
    bind_ok_iff.2 ⟨c, mapError_ok_iff.2 hc, bind_ok_iff.2 ⟨r.name,
      mapError_ok_iff.2 r.surveyed.named, bind_ok_iff.2 ⟨_, r.run_eq, rfl⟩⟩⟩
  have hfollows := pass_follows policy entry bytes s
  rw [hpass] at hfollows
  obtain ⟨_, s', hrun, rfl, hledger⟩ := hfollows
  exact ⟨s', hrun, hledger⟩

/-- A class that a pass can rewrite is kept by it. -/
theorem run_of_rewriting (hc : ClassFile.ofBytes bytes = .ok c) (entry : String)
    (r : Rewriting policy s.ledger.expire c) :
    ∃ out s', (run policy entry bytes).run s = .ok out s' ∧ out ≠ .unwanted ∧ s'.ledger = r.last := by
  obtain ⟨s', hrun, hledger⟩ := outcome_of_rewriting hc entry r
  refine ⟨_, s', hrun, ?_, hledger⟩
  split <;> simp

/-- What a pass changes it writes. -/
theorem modified_of_rewriting (hc : ClassFile.ofBytes bytes = .ok c) (entry : String)
    (r : Rewriting policy s.ledger.expire c) (hchanged : r.changed = true)
    (hbytes : r.result.bytes ≠ bytes) :
    ∃ s', (run policy entry bytes).run s = .ok (.modified r.result.bytes) s' ∧
      s'.ledger = r.last := by
  obtain ⟨s', hrun, hledger⟩ := outcome_of_rewriting hc entry r
  rw [hchanged, Bool.true_and, if_pos (bne_iff_ne.2 hbytes)] at hrun
  exact ⟨s', hrun, hledger⟩

/-- A pass that keeps a class decides on each of its methods, in their order, from what is gone when it
comes to it, and takes the same decisions if annotations of methods stand in another order. -/
theorem fates_of_run (hc : ClassFile.ofBytes bytes = .ok c)
    (hrun : (run policy entry bytes).run s = .ok out s') (hkept : out ≠ .unwanted) :
    ∃ name bootstraps l l' fields methods, c.name = .ok name ∧ Walk.bootstraps c = .ok bootstraps ∧
      Along (FieldMet policy name c.pool) s.ledger.expire c.fields fields l ∧
      Along (MethodMet policy name c.pool bootstraps) l c.methods methods l' ∧
      out.LeavesMembers c fields.reduceOption (methods.filterMap (·.2)) ∧
      s'.tracker = l'.tracker ∧ s'.memory.stubbed = l'.memory.stubbed ∧
      ∀ entry' bytes' c', ClassFile.ofBytes bytes' = .ok c' → c' = { c with methods := c'.methods } →
        List.Forall₂ (Reordered c.pool) c.methods c'.methods →
          ∃ out' s'' methods', (run policy entry' bytes').run s = .ok out' s'' ∧
            s''.ledger = s'.ledger ∧
            Along (MethodMet policy name c.pool bootstraps) l c'.methods methods' l' ∧
            methods'.map (·.1) = methods.map (·.1) ∧
            out'.LeavesMembers c' fields.reduceOption (methods'.filterMap (·.2)) := by
  obtain ⟨r, hlast, hleaves⟩ := leavesMembers_of_run hc hrun hkept
  obtain ⟨fields, methods, hfields, hmethods, hfates, hfieldsLeft, hmethodsLeft⟩ := r.met
  rw [hfieldsLeft, hmethodsLeft] at hleaves
  have htracker : s'.tracker = r.last.tracker := congrArg Ledger.tracker hlast.symm
  have hstubbed : s'.memory.stubbed = r.last.memory.stubbed :=
    congrArg (fun l : Ledger => l.memory.stubbed) hlast.symm
  refine ⟨r.name, r.bootstraps, _, _, fields, methods, r.surveyed.named, r.bootstraps_unlinked,
    hfields, hmethods, hleaves, htracker.trans r.last_ledger.1, hstubbed.trans r.last_ledger.2,
    fun entry' bytes' c' hc' hmethodsOnly hreordered => ?_⟩
  obtain ⟨r', hname, hbootstraps, hfieldsSame, hafterFields, hafterMethods, hlast'⟩ :=
    r.reordered hmethodsOnly hreordered
  obtain ⟨out', s'', hrun', hkept', hledger⟩ := run_of_rewriting hc' entry' r'
  obtain ⟨r'', -, hleaves'⟩ := leavesMembers_of_run hc' hrun' hkept'
  have hresult := (r''.unique r').2
  rw [show r''.fields = r'.fields from congrArg ClassFile.fields hresult,
    show r''.methods = r'.methods from congrArg ClassFile.methods hresult] at hleaves'
  obtain ⟨fields', methods', -, hmethods', hfates', -, hmethodsLeft'⟩ := r'.met
  have hpool : c'.pool = c.pool := by rw [hmethodsOnly]
  rw [hpool, hname, hbootstraps, hafterFields, hafterMethods] at hmethods' hfates'
  have hagain := hfates.transfer (fun _ _ _ _ _ h hfated => h.fated hfated) hreordered
  have hsame := (hfates'.unique (fun _ _ _ _ _ _ h h' => h.unique h') hagain).1
  rw [hfieldsSame, hfieldsLeft, hmethodsLeft'] at hleaves'
  exact ⟨out', s'', methods', hrun', hledger.trans (hlast'.trans hlast), hmethods', hsame, hleaves'⟩

/-- A field to delete, a method that reads it, a constructor that sets it, and a method to stub, whose
annotations have these types. -/
def decidingClass (types : List UInt16) : ClassFile where
  minor := 0
  major := 52
  pool := ⟨#[.unusable, .ofText "A", .classInfo 1, .ofText "f", .ofText "I",
    .ofText "RuntimeVisibleAnnotations", .ofText "LD;", .ofText "m", .ofText "()V",
    .ofText "Code", .nameAndType 3 4, .fieldRef 2 10, .ofText "n", .ofText "LS;", .ofText "LX;",
    .ofText "<init>"]⟩
  access := 0
  thisClass := 2
  superClass := 0
  interfaces := []
  fields := [⟨8, 3, 4, [⟨5, AnnotationEntry.tableBytes [⟨6, []⟩]⟩]⟩]
  methods :=
    [⟨8, 7, 8, [⟨9, Body.bytes ⟨1, 0, [Opcode.getstatic, 0, 11, Opcode.pop, Opcode.ret]⟩⟩]⟩,
     ⟨0, 15, 8, [⟨9, Body.bytes ⟨1, 1, [Opcode.iconst0, Opcode.putstatic, 0, 11, Opcode.ret]⟩⟩]⟩,
     ⟨8, 12, 8, [⟨9, Body.bytes ⟨0, 0, [Opcode.nop, Opcode.ret]⟩⟩,
      ⟨5, AnnotationEntry.tableBytes (types.map (⟨·, []⟩))⟩]⟩]
  attributes := []

def deciding : Policy := { delete := ["LD;"], stub := ["LS;"] }

theorem deciding_reordered : List.Forall₂ (Reordered (decidingClass [13, 14]).pool)
    (decidingClass [13, 14]).methods (decidingClass [14, 13]).methods := by
  have hplain {e : MemberEntry} {a : Attribute} (ha : e.attributes = [a])
      (hmarks : marks (decidingClass [13, 14]).pool [a] = .ok [⟨a, none⟩]) :
      Reordered (decidingClass [13, 14]).pool e e :=
    ⟨⟨rfl, rfl, rfl⟩, ⟨_, _, ha ▸ hmarks, ha ▸ hmarks, .refl _⟩, rfl⟩
  refine .cons (hplain rfl rfl) (.cons (hplain rfl rfl) (.cons ⟨⟨rfl, rfl, rfl⟩, ?_, rfl⟩ .nil))
  exact ⟨[⟨_, none⟩, ⟨_, some [(⟨13, []⟩, "LS;"), (⟨14, []⟩, "LX;")]⟩],
    [⟨_, none⟩, ⟨_, some [(⟨14, []⟩, "LX;"), (⟨13, []⟩, "LS;")]⟩], rfl, rfl, .swap ..⟩

/-- The class goes through a pass, whichever annotation of its last method stands first. -/
theorem fates_of_run_deciding : ∃ out s' l l' methods,
    (run deciding "A.class" (decidingClass [13, 14]).bytes).run {} = .ok out s' ∧
      Along (MethodMet deciding "A" (decidingClass [13, 14]).pool []) l
        (decidingClass [13, 14]).methods methods l' ∧
      s'.tracker = l'.tracker ∧ ∃ out' s'' methods',
        (run deciding "A.class" (decidingClass [14, 13]).bytes).run {} = .ok out' s'' ∧
          s''.ledger = s'.ledger ∧ methods'.map (·.1) = methods.map (·.1) ∧
          Along (MethodMet deciding "A" (decidingClass [13, 14]).pool []) l
            (decidingClass [14, 13]).methods methods' l' := by
  obtain ⟨written, s', hrun⟩ :=
    of_wrote (r := (run deciding "A.class" (decidingClass [13, 14]).bytes).run {})
      (by decide +kernel)
  obtain ⟨name, bootstraps, l, l', fields, methods, hname, hbootstraps, -, hmethods, -, htracker, -,
    hagain⟩ := fates_of_run (c := decidingClass [13, 14]) (by decide +kernel) hrun (by simp)
  obtain rfl : name = "A" := Except.ok.inj (hname.symm.trans (by decide +kernel))
  obtain rfl : bootstraps = [] := (Except.ok.inj hbootstraps).symm
  obtain ⟨out', s'', methods', hrun', hledger, hmethods', hfates, -⟩ :=
    hagain "A.class" (decidingClass [14, 13]).bytes (decidingClass [14, 13]) (by decide +kernel) rfl
      deciding_reordered
  exact ⟨_, s', l, l', methods, hrun, hmethods, htracker, out', s'', methods', hrun', hledger, hfates,
    hmethods'⟩

end Pass

end JarPruning
