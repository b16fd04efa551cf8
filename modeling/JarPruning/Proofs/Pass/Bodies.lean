import JarPruning.Proofs.Pass.Remains

/-!
What passes leave of the bodies of a class. A method that asks for a stub has the stub that the
first pass wrote, which is told by what the class was before; in every other body accesses to fields
that are gone were overwritten.
-/
namespace JarPruning

open ConstantPool (Grows)

/-- What stands in the first attribute with code. -/
def MemberEntry.body? (pool : ConstantPool) (entry : MemberEntry) : Option (List UInt8) :=
  (entry.attributes.find? (·.isNamed pool "Code")).map Attribute.payload

/-- The stub of the method in a class with the pool `pool`: it was written when nothing had been added
to that but what stubs add. -/
def StubOf (pool : ConstantPool) (m : Member) (payload : List UInt8) : Prop :=
  ∃ p, (p = pool ∨ ∃ code, Stub.throwingCode.run pool = .ok code p) ∧
    (Stub.payload m.descriptor m.isStatic).run p = .ok payload p

theorem StubOf.unique {pool : ConstantPool} {m : Member} {payload payload' : List UInt8}
    (h : StubOf pool m payload) (h' : StubOf pool m payload') : payload = payload' := by
  obtain ⟨p, hp, hrun⟩ := h
  obtain ⟨p', hp', hrun'⟩ := h'
  obtain ⟨shape, hshape, -, hwritten⟩ := Stub.payload_ok_iff.1 hrun
  obtain ⟨shape', hshape', -, hwritten'⟩ := Stub.payload_ok_iff.1 hrun'
  cases hshape.symm.trans hshape'
  cases hwritten with
  | returns hvoid _ =>
    cases hwritten' with
    | returns _ _ => rfl
    | throws hvalue _ => cases hvoid.symm.trans hvalue
  | throws hvalue hcode =>
    cases hwritten' with
    | returns hvoid _ => cases hvoid.symm.trans hvalue
    | throws _ hcode' =>
      -- A stub that throws is written where what it needs was added, if it was not there already.
      have hadded {p : ConstantPool} {code : List UInt8} (hcode : Stub.throwingCode.run p = .ok code p)
          (hp : p = pool ∨ ∃ code, Stub.throwingCode.run pool = .ok code p) :
          ∃ code, Stub.throwingCode.run pool = .ok code p := by
        obtain rfl | hp := hp
        · exact ⟨code, hcode⟩
        · exact hp
      obtain ⟨_, hfirst⟩ := hadded hcode hp
      obtain ⟨_, hfirst'⟩ := hadded hcode' hp'
      cases hfirst.symm.trans hfirst'
      cases hcode.symm.trans hcode'
      rfl

namespace Prune

open Ledger (Onward)

variable {policy : Policy} {p q : ConstantPool} {bootstraps : List Bootstrap} {l u : Ledger}
  {owner : String} {c₀ c : ClassFile} {entry e : MemberEntry} {m : Member} {ms : List Marked}
  {ft : Fate}

theorem body?_edited (hread : marks p entry.attributes = .ok ms) (hentry : entry.Grounded p)
    (hgrows : Grows p q) (edit : List UInt8 → List UInt8) :
    (edited (codeOf p (left policy entry ms)) edit (left policy entry ms)).body? q =
      (entry.body? p).map edit := by
  rw [MemberEntry.body?, code_edited hread hentry hgrows, MemberEntry.body?, Option.map_map,
    Option.map_map]
  rfl

theorem MemberStems.asks_iff (h : MemberStems policy p entry q e) (hm : e.resolve q = .ok m) :
    Asks policy q e m ↔ Asks policy p entry m := by
  constructor
  · rintro ⟨-, hconstructor, a, d, ha, hd⟩
    exact ⟨h.resolves m hm, hconstructor, a, d, h.annotated a d ha, hd⟩
  · rintro ⟨-, hconstructor, a, d, ha, hd⟩
    exact ⟨hm, hconstructor, a, d, h.keeps a d ha (Policy.strips_of_stubs hd), hd⟩

/-- What one pass leaves of a body. -/
inductive BodyLeft (policy : Policy) (owner : String) (pool : ConstantPool)
    (bootstraps : List Bootstrap) (l : Ledger) (entry : MemberEntry) (m : Member) :
    Option (List UInt8) → Option (List UInt8) → Prop
  | bare : BodyLeft policy owner pool bootstraps l entry m none none
  | already {payload : List UInt8} (stubbed : l.memory.stubbed.contains m.toSignature = true) :
    BodyLeft policy owner pool bootstraps l entry m (some payload) (some payload)
  | replaced {payload stub : List UInt8} (asks : Asks policy pool entry m)
    (fresh : l.memory.stubbed.contains m.toSignature = false) :
    BodyLeft policy owner pool bootstraps l entry m (some payload) (some stub)
  | walked {payload payload' : List UInt8} (whole : ¬ Asks policy pool entry m)
    (fresh : l.memory.stubbed.contains m.toSignature = false)
    (left : Overwritten pool bootstraps
      (fun t => m.isConstructor = true ∧ l.fieldGone owner t.owner t.name = true) payload payload') :
    BodyLeft policy owner pool bootstraps l entry m (some payload) (some payload')

theorem MethodStep.body_left (h : MethodStep policy owner p bootstraps l entry m ms ft)
    (hbecomes : Becomes policy p entry m ft (some e)) (hentry : entry.Grounded p)
    (hgrows : Grows p q) :
    BodyLeft policy owner p bootstraps l entry m (entry.body? p) (e.body? q) ∧
      (Asks policy p entry m → (ft.ledger l owner m).memory.stubbed.contains m.toSignature = true) := by
  have hfated := h.fated
  rw [code_left h.read] at hfated
  cases hbecomes with
  | kept hread =>
    obtain rfl := Except.ok.inj (h.read.symm.trans hread)
    rw [body?_edited h.read hentry hgrows]
    cases hfated with
    | already _ hstubbed =>
      refine ⟨?_, fun _ => hstubbed⟩
      cases entry.body? p with
      | none => exact .bare
      | some payload => exact .already hstubbed
    | bare _ _ hwhole hempty =>
      rw [MemberEntry.body?, hempty]
      refine ⟨.bare, fun hasks => ?_⟩
      cases hwhole.symm.trans ((asksForStub_iff h.resolved h.read).2 hasks)
    | @walked a _ _ _ hfresh hwhole hbody hscanned hmeets =>
      rw [MemberEntry.body?, hbody]
      have hnot : ¬ Asks policy p entry m := fun hasks => by
        cases hwhole.symm.trans ((asksForStub_iff h.resolved h.read).2 hasks)
      exact ⟨.walked hnot hfresh (overwritten_of_bodyFate hscanned hmeets).1,
        fun hasks => absurd hasks hnot⟩
  | stubbed hread _ =>
    obtain rfl := Except.ok.inj (h.read.symm.trans hread)
    have hasks := (asksForStub_iff h.resolved h.read).1 hfated.asks
    rw [body?_edited h.read hentry hgrows]
    refine ⟨?_, fun _ => l.stubbed_stubMethod m⟩
    have hfresh : l.memory.stubbed.contains m.toSignature = false := by
      cases hfated with
      | stub _ hfresh _ => exact hfresh
      | walked _ _ _ _ _ hmeets => exact absurd hmeets (bodyFate_ne_stub _ _ _ _)
    cases entry.body? p with
    | none => exact .bare
    | some payload => exact .replaced hasks hfresh

/-! Classes. -/

/-- Where no two methods have the same signature, none of them was finished as the shadow of
another. -/
theorem MethodsFinished.of_mem {asked : List Signature} {entries : List MemberEntry}
    (h : MethodsFinished policy p bootstraps asked entries) (hdiffer : MethodsDiffer p entries)
    (hnew : ∀ e ∈ entries, ∀ m, e.resolve p = .ok m → m.toSignature ∉ asked)
    (he : e ∈ entries) : ∃ m ms asked', MethodFinished policy p bootstraps asked' e m ms ∧
      m.toSignature ∉ asked' := by
  induction h with
  | nil => cases he
  | @cons asked entry entries m ms hfirst _ ih =>
    obtain ⟨hapart, hdiffer⟩ := List.pairwise_cons.1 hdiffer
    obtain rfl | he := List.mem_cons.1 he
    · exact ⟨m, ms, asked, hfirst, hnew e (List.mem_cons_self ..) m hfirst.resolved⟩
    · refine ih hdiffer (fun e' he' n hn => ?_) he
      unfold askedAfter
      split
      · rw [List.mem_cons, not_or]
        exact ⟨(hapart e' he' m n hfirst.resolved hn).symm,
          hnew e' (List.mem_cons_of_mem _ he') n hn⟩
      · exact hnew e' (List.mem_cons_of_mem _ he') n hn

theorem body?_grow (he : e.Grounded p) (hgrows : Grows p q) : e.body? q = e.body? p := by
  have hcode : codeOf q e = codeOf p e := codeOf_names hgrows he rfl
  unfold codeOf Walk.codePosition? at hcode
  rw [MemberEntry.body?, MemberEntry.body?, List.find?_eq_bind_findIdx?_getElem?,
    List.find?_eq_bind_findIdx?_getElem?, hcode]

theorem codeOf_of_body? {payload : List UInt8} (h : e.body? p = some payload) :
    ∃ position a, codeOf p e = some position ∧ e.attributes[position]? = some a ∧
      a.payload = payload := by
  obtain ⟨a, ha, rfl⟩ := Option.map_eq_some_iff.1 h
  rw [List.find?_eq_bind_findIdx?_getElem?] at ha
  obtain ⟨position, hposition, ha⟩ := Option.bind_eq_some_iff.1 ha
  exact ⟨position, a, hposition, ha, rfl⟩

/-- What remains of the body that the method `m` had in the class `c₀`, called `owner`. -/
inductive BodyRemains (policy : Policy) (W : Loss → Prop) (owner : String) (c₀ : ClassFile)
    (bootstraps : List Bootstrap) (entry : MemberEntry) (m : Member) :
    Option (List UInt8) → Option (List UInt8) → Prop
  | bare : BodyRemains policy W owner c₀ bootstraps entry m none none
  | stubbed {payload stub : List UInt8} (asks : Asks policy c₀.pool entry m)
    (written : StubOf c₀.pool m stub) :
    BodyRemains policy W owner c₀ bootstraps entry m (some payload) (some stub)
  | walked {payload payload' : List UInt8} (whole : ¬ Asks policy c₀.pool entry m)
    (left : Overwritten c₀.pool bootstraps (fun t => m.isConstructor = true ∧
      ∃ x, W x ∧ x.HitsField c₀ owner t.owner t.name) payload payload') :
    BodyRemains policy W owner c₀ bootstraps entry m (some payload) (some payload')

/-- After some passes every method that asks for a stub is known to have it, and each body is what
remains of a body. -/
structure Bodies (policy : Policy) (W : Loss → Prop) (owner : String) (c₀ : ClassFile) (l : Ledger)
    (c : ClassFile) : Prop where
  asked : ∀ e ∈ c.methods, ∀ m, Asks policy c.pool e m →
    l.memory.stubbed.contains m.toSignature = true
  remain : ∀ bootstraps, Walk.bootstraps c₀ = .ok bootstraps → ∀ e ∈ c.methods,
    ∃ e₀ ∈ c₀.methods, ∃ m, e.resolve c.pool = .ok m ∧ MemberStems policy c₀.pool e₀ c.pool e ∧
      BodyRemains policy W owner c₀ bootstraps e₀ m (e₀.body? c₀.pool) (e.body? c.pool)

namespace Rewriting

/-- The pass left the method `e` of `entry`, which is the member `m`, when the ledger was `u`. -/
structure LeftOf (r : Rewriting policy l c) (e entry : MemberEntry) (m : Member) (u : Ledger) :
    Prop where
  mem : entry ∈ c.methods
  stems : ∀ q, Grows c.pool q → e.resolve q = .ok m ∧ MemberStems policy c.pool entry q e
  grounded : e.Grounded c.pool
  asked : Asks policy c.pool entry m → r.last.memory.stubbed.contains m.toSignature = true
  before : Onward r.name l u
  after : Onward r.name u r.last
  body : BodyLeft policy r.name c.pool r.bootstraps u entry m (entry.body? c.pool) (e.body? r.pool)

theorem leftOf (r : Rewriting policy l c) (hc : c.Framed) (hlegible : c.Legible)
    (he : e ∈ r.methods) : ∃ entry m u, r.LeftOf e entry m u := by
  obtain ⟨entry, hentry, u, m, ms, ft, hu, hstep, hbecomes, hlast⟩ := r.of_mem_methods he
  have hheader := hbecomes.header
  have hground := hlegible.methods entry hentry
  obtain ⟨hbody, hasked⟩ := hstep.body_left hbecomes hground (r.pool_grows hc)
  exact ⟨entry, m, u, {
    mem := hentry
    stems := fun q hq => ⟨resolve_grow hq hheader.access hheader.name hheader.descriptor
      hstep.resolved, (hstep.stems hbecomes hground hq hlast.stubs).toMemberStems⟩
    grounded := hbecomes.grounded hground
    asked := fun hasks => hlast.stubs _ (hasked hasks)
    before := hu
    after := (Onward.fate u m ft).trans hlast
    body := hbody }⟩

/-- A method that asks for a stub has it after the first pass. -/
theorem stubOf_first (r : Rewriting policy l c) (hc : c.Framed) (hgrounded : c.Grounded)
    (hdiffer : MethodsDiffer c.pool c.methods)
    (hfresh : ∀ key, l.memory.stubbed.contains key = false) (he : e ∈ r.methods)
    (hm : e.resolve r.stubbed = .ok m) (hasks : Asks policy r.stubbed e m) {payload : List UInt8}
    (hbody : e.body? r.stubbed = some payload) : StubOf c.pool m payload := by
  obtain ⟨-, -, -, hfinished⟩ := r.members_finish hc hgrounded (.inl hfresh)
  obtain ⟨sub, hsub, hall⟩ := methods_derived r.ofMethods r.installed
  obtain ⟨n, ms, asked, hmethod, hnew⟩ := (hfinished r.stubbed (.refl _)).2.of_mem
    (hdiffer.derived hsub hall (r.installed_fit hc).2) (fun _ _ _ _ => List.not_mem_nil) he
  obtain rfl := Except.ok.inj (hm.symm.trans hmethod.resolved)
  cases hmethod.body with
  | shadowed hbefore => exact absurd hbefore hnew
  | stubbed _ hagain =>
    obtain ⟨position, a, hposition, ha, rfl⟩ := codeOf_of_body? hbody
    obtain ⟨a', ha', hrun⟩ := hagain position hposition
    obtain rfl := Option.some.inj (ha.symm.trans ha')
    refine ⟨r.stubbed, installStubs_pool hc.pool r.installed, ?_⟩
    rw [Member.isStatic, (MemberEntry.of_resolve hm).2.2]
    exact hrun
  | walked hwhole _ =>
    cases hwhole.symm.trans ((asksForStub_iff hm hmethod.calm.read).2 hasks)

end Rewriting

namespace Bodies

variable {W : Loss → Prop}

theorem ledger {l' : Ledger} (h : Bodies policy W owner c₀ l c)
    (hstubs : StubbedStay l.memory.stubbed l'.memory.stubbed) : Bodies policy W owner c₀ l' c where
  asked e he m hasks := hstubs _ (h.asked e he m hasks)
  remain := h.remain

theorem expire (h : Bodies policy W owner c₀ l c) : Bodies policy W owner c₀ l.expire c :=
  h.ledger fun _ hs => hs

theorem asked_result (r : Rewriting policy l c) (hc : c.Framed) (hlegible : c.Legible)
    (he : e ∈ r.methods) (hasks : Asks policy r.pool e m) :
    r.last.memory.stubbed.contains m.toSignature = true := by
  obtain ⟨entry, n, u, hleft⟩ := r.leftOf hc hlegible he
  obtain ⟨hn, hstems⟩ := hleft.stems _ (r.pool_grows hc)
  obtain rfl := Except.ok.inj (hasks.1.symm.trans hn)
  exact hleft.asked ((hstems.asks_iff hn).1 hasks)

/-- What the first pass leaves of the bodies. -/
theorem first (r : Rewriting policy l c) (hc : c.Framed) (hgrounded : c.Grounded)
    (hlegible : c.Legible) (hconsistent : Consistent policy l c)
    (hfresh : ∀ key, l.memory.stubbed.contains key = false) (hlast : r.last.Within W c) :
    Bodies policy W r.name c r.last r.result where
  asked e he m hasks := asked_result r hc hlegible he hasks
  remain bootstraps hread e he := by
    obtain rfl := Except.ok.inj (r.bootstraps_unlinked.symm.trans hread)
    obtain ⟨entry, m, u, hleft⟩ := r.leftOf hc hlegible he
    obtain ⟨hm, hstems⟩ := hleft.stems _ (r.pool_grows hc)
    refine ⟨entry, hleft.mem, m, hm, hstems, ?_⟩
    have hstub (hasks : Asks policy c.pool entry m) {payload : List UInt8}
        (hpayload : e.body? r.pool = some payload) : StubOf c.pool m payload := by
      obtain ⟨hm', hstems'⟩ := hleft.stems _ (r.installed_fit hc).2
      refine r.stubOf_first hc hgrounded hconsistent.differ hfresh he hm'
        ((hstems'.asks_iff hm').2 hasks) ?_
      rw [body?_grow hleft.grounded (r.installed_fit hc).2,
        ← body?_grow hleft.grounded (r.pool_grows hc), hpayload]
    have hbody := hleft.body
    show BodyRemains policy W r.name c r.bootstraps entry m (entry.body? c.pool) (e.body? r.pool)
    generalize entry.body? c.pool = b at hbody ⊢
    generalize e.body? r.pool = b' at hbody hstub ⊢
    cases hbody with
    | bare => exact .bare
    | already hstubbed =>
      have hasks := (hconsistent.last r).stubbed entry hleft.mem m (hstems.resolves m hm)
        (hleft.after.stubs _ hstubbed)
      exact .stubbed hasks (hstub hasks rfl)
    | replaced hasks _ => exact .stubbed hasks (hstub hasks rfl)
    | walked hwhole _ hover =>
      exact .walked hwhole
        (hover.mono fun t ht => ⟨ht.1, hlast.fieldGone (hleft.after.fields _ _ ht.2)⟩)

/-- What a later pass leaves of the bodies. -/
theorem next (r : Rewriting policy l c) (h : Bodies policy W r.name c₀ l c) (hc : c.Framed)
    (hlegible : c.Legible) (hgrows : Grows c₀.pool c.pool)
    (hbootstraps : Walk.bootstraps c₀ = .ok r.bootstraps) (hlast : r.last.Within W c₀) :
    Bodies policy W r.name c₀ r.last r.result where
  asked e he m hasks := asked_result r hc hlegible he hasks
  remain bootstraps hread e he := by
    obtain rfl := Except.ok.inj (hbootstraps.symm.trans hread)
    obtain ⟨entry, m, u, hleft⟩ := r.leftOf hc hlegible he
    obtain ⟨hm, hstem⟩ := hleft.stems _ (r.pool_grows hc)
    obtain ⟨e₀, he₀, n, hn, hstem₀, hremains⟩ := h.remain _ hread entry hleft.mem
    obtain rfl := Except.ok.inj ((hstem.resolves m hm).symm.trans hn)
    refine ⟨e₀, he₀, m, hm, hstem₀.trans hstem, ?_⟩
    have hbody := hleft.body
    show BodyRemains policy W r.name c₀ r.bootstraps e₀ m (e₀.body? c₀.pool) (e.body? r.pool)
    generalize entry.body? c.pool = b at hbody hremains
    generalize e.body? r.pool = b' at hbody ⊢
    cases hbody with
    | bare => exact hremains
    | already _ => exact hremains
    | replaced hasks hfresh =>
      cases hfresh.symm.trans (hleft.before.stubs _ (h.asked entry hleft.mem m hasks))
    | walked hwhole _ hover =>
      generalize e₀.body? c₀.pool = b₀ at hremains ⊢
      cases hremains with
      | stubbed hasks _ => exact absurd ((hstem₀.asks_iff hn).2 hasks) hwhole
      | walked hwhole₀ hover₀ =>
        refine .walked hwhole₀ (hover₀.trans (hover.mono fun t ht => ⟨ht.1, ?_⟩) hgrows)
        exact hlast.fieldGone (hleft.after.fields _ _ ht.2)

end Bodies

end Prune

end JarPruning
