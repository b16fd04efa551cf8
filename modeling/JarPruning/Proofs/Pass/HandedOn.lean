import JarPruning.Proofs.Metadata.Roundtrip
import JarPruning.Proofs.Pass.Callers
import JarPruning.Proofs.Pass.Still

/-!
Methods that a pass hands on to the next: the companions of what it deletes, and the methods of what it
removes from the metadata. Whether or not they were due already, the class has none of them after the
next pass, and the callers that the next pass walks are gone with them.
-/
namespace JarPruning

/-- What holds behind a way and not before it came with a step. -/
theorem Along.crosses {σ α β : Type} {step : σ → α → β → σ → Prop} {P : σ → Prop} {s t : σ}
    {as : List α} {bs : List β} (h : Along step s as bs t) (ht : P t) :
    P s ∨ ∃ a b u v, (a, b) ∈ as.zip bs ∧ step u a b v ∧ ¬ P u ∧ P v := by
  induction h with
  | nil => exact .inl ht
  | @cons s u _ a b _ _ hfirst _ ih =>
    obtain hu | ⟨a', b', u', v', hmem, hstep⟩ := ih ht
    · by_cases hs : P s
      · exact .inl hs
      · exact .inr ⟨a, b, s, u, List.mem_cons_self .., hfirst, hs, hu⟩
    · exact .inr ⟨a', b', u', v', List.mem_cons_of_mem _ hmem, hstep⟩

namespace Prune.Rewriting

open Ledger (Onward)

variable {policy : Policy} {l : Ledger} {c : ClassFile} {n : Member}

/-- The methods that a pass hands on, due already or not. -/
inductive Hands (r : Rewriting policy l c) : Member → Prop
  | companion {methods : List (Fate × Option MemberEntry)} {entry : MemberEntry} {m n : Member}
    (walk : Along (MethodMet policy r.name c.pool r.bootstraps) r.afterFields c.methods methods
      r.afterMethods) (deleted : (entry, .delete, none) ∈ c.methods.zip methods)
    (resolved : entry.resolve c.pool = .ok m) (follows : n ∈ Ledger.companions r.name m) : Hands r n
  | record {a : AnnotationEntry} {kind : Metadata.Kind} {d1 d2 : List String}
    {payload : Metadata.Payload} {changes : Metadata.Changes} {n : Member}
    (metadata : metadataOf r.marked = some a) (described : Described r.stubbed a kind d1 d2)
    (swept : swept r.name r.afterMethods.tracker kind d1 d2 = .ok (payload, changes))
    (lost : changes.removed ≠ []) (follows : n ∈ changes.methods) : Hands r n

/-- What becomes of the metadata is told by what is swept from it. -/
theorem last_of_swept (r : Rewriting policy l c) {a : AnnotationEntry} {kind : Metadata.Kind}
    {d1 d2 : List String} {payload : Metadata.Payload} {changes : Metadata.Changes}
    (ha : metadataOf r.marked = some a) (hdescribed : Described r.stubbed a kind d1 d2)
    (hswept : swept r.name r.afterMethods.tracker kind d1 d2 = .ok (payload, changes))
    (hlost : changes.removed ≠ []) : r.last = r.afterMethods.schedule changes := by
  obtain ⟨-, -, -, hrests⟩ | ⟨a', b, kind', d1', d2', payload', changes', ha', -, hlast, hrepacked⟩ :=
    r.ofMetadata_cases
  · obtain ⟨payload', changes', hswept', hnone⟩ := (hrests a ha).2 kind d1 d2 hdescribed
    obtain ⟨-, rfl⟩ : payload = payload' ∧ changes = changes' := by
      simpa using hswept.symm.trans hswept'
    exact absurd hnone hlost
  · obtain rfl := Option.some.inj (ha.symm.trans ha')
    obtain ⟨rfl, rfl, rfl⟩ := hdescribed.unique hrepacked.toDescribed
    obtain ⟨-, rfl⟩ : payload = payload' ∧ changes = changes' := by
      simpa using hswept.symm.trans hrepacked.swept
    exact hlast

/-- What a pass hands on is gone or due when it ends. -/
theorem Hands.gone {r : Rewriting policy l c} (h : r.Hands n) :
    r.last.methodGone r.name r.name n.toSignature = true := by
  cases h with
  | companion hwalk hdeleted hresolved hfollows =>
    obtain ⟨u, v, -, ⟨hresolved', -, -⟩, hv⟩ :=
      hwalk.step_at Onward.refl Onward.trans MethodMet.onward hdeleted
    obtain rfl := Except.ok.inj (hresolved.symm.trans hresolved')
    refine r.onward_last.methods _ _ (hv.methods _ _ ?_)
    rw [show Fate.ledger u r.name _ .delete = u.dropMethod r.name _ from rfl,
      Ledger.methodGone_dropMethod]
    have hany : ((Ledger.companions r.name _).any fun n' => n'.toSignature = n.toSignature) = true :=
      List.any_eq_true.2 ⟨n, hfollows, decide_eq_true rfl⟩
    simp [hany]
  | record hmetadata hdescribed hswept hlost hfollows =>
    rw [r.last_of_swept hmetadata hdescribed hswept hlost]
    exact Ledger.methodGone_schedule hfollows

/-- What is due when a pass ends was due when it began, or was handed on. -/
theorem due_last (r : Rewriting policy l c) {s : Signature}
    (h : r.last.memory.dueMethods.contains s = true) :
    l.memory.dueMethods.contains s = true ∨ ∃ n, r.Hands n ∧ n.toSignature = s := by
  have hmembers (hdue : r.afterMethods.memory.dueMethods.contains s = true) :
      l.memory.dueMethods.contains s = true ∨ ∃ n, r.Hands n ∧ n.toSignature = s := by
    obtain ⟨fields, methods, hfields, hmethods, -⟩ := r.met
    obtain hdue | ⟨entry, ⟨ft, e?⟩, u, v, hmem, hstep, hbefore, hafter⟩ :=
      hmethods.crosses (P := fun l => l.memory.dueMethods.contains s = true) hdue
    · obtain hdue | ⟨_, _, u, v, -, hstep, hbefore, hafter⟩ :=
        hfields.crosses (P := fun l => l.memory.dueMethods.contains s = true) hdue
      · exact .inl hdue
      · cases hstep with
        | dropped _ _ => exact absurd hafter hbefore
        | kept _ _ _ => exact absurd hafter hbefore
    · obtain ⟨hresolved, -, hbecomes⟩ := hstep
      cases hbecomes with
      | kept _ => exact absurd hafter hbefore
      | stubbed _ _ => exact absurd hafter hbefore
      | deleted =>
        simp only [Fate.ledger, Ledger.dropMethod, GraceSet.contains_insertAll,
          GraceSet.contains_remove, hbefore, Bool.false_and, Bool.false_or] at hafter
        obtain ⟨n, hn, hkey⟩ := List.any_eq_true.1 hafter
        exact .inr ⟨n, .companion hmethods hmem hresolved hn, of_decide_eq_true hkey⟩
  obtain ⟨hlast, -⟩ | ⟨a, b, kind, d1, d2, payload, changes, ha, -, hlast, hrepacked⟩ :=
    r.ofMetadata_cases
  · exact hmembers (hlast ▸ h)
  · rw [hlast, Ledger.schedule, GraceSet.contains_insertAll, Bool.or_eq_true] at h
    obtain hdue | hnew := h
    · exact hmembers hdue
    · obtain ⟨n, hn, hkey⟩ := List.any_eq_true.1 hnew
      exact .inr ⟨n, .record ha hrepacked.toDescribed hrepacked.swept hrepacked.lost hn,
        of_decide_eq_true hkey⟩

end Prune.Rewriting

/-- The bytes of a class after passes over `bytes`. -/
def ClassOutcome.left (bytes : List UInt8) : ClassOutcome → List UInt8
  | .rewritten written _ => written
  | .unchanged | .unwanted => bytes

namespace Pass

open Prune (Exempt FieldMet MethodMet Refers Rewriting)

/-- Passes over a class that remembers nothing at first, one on what the other left. In between other
classes may be deleted, and members of other classes. -/
inductive Course (policy : Policy) (entry : String) (start : List UInt8) :
    List UInt8 → Session → Prop
  | begin {s : Session} (fresh : s.memory = {}) : Course policy entry start start s
  | pass {bytes : List UInt8} {s s' : Session} {out : PassOutcome}
    (before : Course policy entry start bytes s)
    (run : (run policy entry bytes).run s = .ok out s') (kept : out ≠ .unwanted) :
    Course policy entry start (out.left bytes) s'
  | wait {bytes : List UInt8} {s t : Session} (before : Course policy entry start bytes s)
    (memory : t.memory = s.memory) (grown : s.tracker.Le t.tracker) :
    Course policy entry start bytes t

section

variable {policy : Policy} {entry : String} {start bytes : List UInt8} {s s' t t' : Session}
  {out out' : PassOutcome}

/-- Until a class is settled, its passes are such a course. -/
theorem Course.settle (h : Course policy entry start bytes s) {budget done : Nat} {r : Settled}
    (hrun : (Pass.settle policy entry budget done bytes).run s = .ok (some r) s') :
    Course policy entry start r.bytes s' := by
  induction budget generalizing done bytes s with
  | zero =>
    cases hrun
    exact h
  | succ budget ih =>
    obtain ⟨out, s₁, hpass, hrest⟩ := run_bind_ok hrun
    cases out with
    | unwanted => cases hrest
    | unchanged =>
      cases hrest
      exact h.pass hpass (by simp)
    | modified written => exact ih (h.pass hpass (by simp)) hrest

/-- A class of which no pass that counts changed anything is left as it was. -/
theorem settle_counts {budget done : Nat} {r : Settled}
    (hrun : (settle policy entry budget done bytes).run s = .ok (some r) s') :
    (if r.stable then 1 else 0) + done ≤ r.passes ∧
      ((if r.stable then 1 else 0) + done < r.passes ∨ r.bytes = bytes) := by
  induction budget generalizing done bytes s with
  | zero =>
    cases hrun
    exact ⟨by simp, .inr rfl⟩
  | succ budget ih =>
    obtain ⟨out, s₁, hpass, hrest⟩ := run_bind_ok hrun
    cases out with
    | unwanted => cases hrest
    | unchanged =>
      cases hrest
      exact ⟨by simp; omega, .inr rfl⟩
    | modified written =>
      have hcount := (ih hrest).1
      exact ⟨by omega, .inl (by omega)⟩

/-- So is a run of passes as a whole, and another run goes on from there. -/
theorem Course.runAll (h : Course policy entry start bytes s) {maxPasses : Nat}
    {out : ClassOutcome} (hrun : (Pass.runAll policy maxPasses entry bytes).run s = .ok out s')
    (hkept : out ≠ .unwanted) : Course policy entry start (out.left bytes) s' := by
  obtain ⟨r?, s₁, hsettle, hrest⟩ := run_bind_ok hrun
  cases r? with
  | none =>
    cases hrest
    exact absurd rfl hkept
  | some r =>
    have hend : s'.memory = s₁.memory ∧ s'.tracker = s₁.tracker ∧
        out = if r.isRewritten then .rewritten r.bytes r.passes else .unchanged := by
      cases hstable : r.stable <;> cases hrewritten : r.isRewritten <;>
        simp only [hstable, hrewritten] at hrest <;> cases hrest <;> exact ⟨rfl, rfl, rfl⟩
    obtain ⟨hmemory, htracker, rfl⟩ := hend
    have hcourse : Course policy entry start r.bytes s' :=
      (h.settle hsettle).wait hmemory (htracker ▸ .refl _)
    split
    · exact hcourse
    · next hrewritten =>
      simp only [Settled.isRewritten, decide_eq_true_eq] at hrewritten
      rwa [(settle_counts hsettle).2.resolve_left hrewritten] at hcourse

/-- The names of the attributes of methods go on leading to entries of the pool. -/
theorem Course.grounded (h : Course policy entry start bytes s) {c : ClassFile}
    (hstart : ∀ c₀, ClassFile.ofBytes start = .ok c₀ → ∀ e ∈ c₀.methods, e.Grounded c₀.pool)
    (hc : ClassFile.ofBytes bytes = .ok c) : ∀ e ∈ c.methods, e.Grounded c.pool := by
  induction h generalizing c with
  | begin _ => exact hstart c hc
  | pass _ hrun hkept ih =>
    obtain ⟨c₁, hc₁⟩ := reads_of_run hrun
    obtain ⟨r, -, hleaves⟩ := leaves_of_run hc₁ hrun hkept
    exact (hleaves c hc).grounded (ih hc₁)
  | wait _ _ _ ih => exact ih hc

/-- A method that is the member `x` is deleted. -/
def MethodGoes (pool : ConstantPool) (x : Signature) (entry : MemberEntry)
    (met : Fate × Option MemberEntry) : Prop :=
  ∀ m, entry.resolve pool = .ok m → m.toSignature = x → met.1 = .delete

/-- A method that is walked and calls the member `x` of its own class is deleted. -/
def CallerGoes (policy : Policy) (owner : String) (pool : ConstantPool)
    (bootstraps : List Bootstrap) (x : Signature) (l : Ledger) (caller : MemberEntry)
    (met : Fate × Option MemberEntry) : Prop :=
  ∀ m i t, caller.resolve pool = .ok m → ¬ Exempt policy pool caller l m →
    Refers pool bootstraps caller i (.invoke t) → t.owner = owner → t.toSignature = x →
      met.1 = .delete

/-- A method that a pass hands on is no method of the class after the next pass, and every caller that
the next pass walks is deleted, if the attributes of all methods had names to begin with. -/
theorem gone_after_next (hcourse : Course policy entry start bytes s)
    (hrun : (run policy entry bytes).run s = .ok out s') (hkept : out ≠ .unwanted)
    (hmemory : t.memory = s'.memory) (hgrown : s'.tracker.Le t.tracker)
    (hnext : (run policy entry (out.left bytes)).run t = .ok out' t') (hkept' : out' ≠ .unwanted) :
    ∃ c c₁, ∃ r : Rewriting policy s.ledger.expire c, ∃ bootstraps l l' fields methods,
      ClassFile.ofBytes bytes = .ok c ∧ r.last = s'.ledger ∧
      ClassFile.ofBytes (out.left bytes) = .ok c₁ ∧ c₁.name = .ok r.name ∧
      Walk.bootstraps c₁ = .ok bootstraps ∧
      Along (FieldMet policy r.name c₁.pool) t.ledger.expire c₁.fields fields l ∧
      Along (fun l caller met l' => MethodMet policy r.name c₁.pool bootstraps l caller met l' ∧
        (∀ x, r.Hands x → MethodGoes c₁.pool x.toSignature caller met) ∧
        ((∀ c₀, ClassFile.ofBytes start = .ok c₀ → ∀ e ∈ c₀.methods, e.Grounded c₀.pool) →
          ∀ x, r.Hands x → CallerGoes policy r.name c₁.pool bootstraps x.toSignature l caller met))
        l c₁.methods methods l' ∧
      out'.LeavesMembers c₁ fields.reduceOption (methods.filterMap (·.2)) ∧
      ∀ x, r.Hands x → ∀ c₂, ClassFile.ofBytes (out'.left (out.left bytes)) = .ok c₂ →
        ¬ c₂.HasMethod x.toSignature := by
  obtain ⟨c, hc⟩ := reads_of_run hrun
  obtain ⟨c₁, hc₁⟩ := reads_of_run hnext
  obtain ⟨r, hlast, hleaves⟩ := leaves_of_run hc hrun hkept
  obtain ⟨r₁, -, hleaves₁⟩ := leaves_of_run hc₁ hnext hkept'
  obtain ⟨r₂, -, hmembers⟩ := leavesMembers_of_run hc₁ hnext hkept'
  have hleft := hleaves c₁ hc₁
  have hname : r₂.name = r.name := hleft.name_eq
  have hmemory' : t.ledger.expire.memory = r.last.memory.expire :=
    congrArg Memory.expire (hmemory.trans (congrArg Ledger.memory hlast).symm)
  have hgrown' : r.last.tracker.Le t.ledger.expire.tracker :=
    (congrArg Ledger.tracker hlast) ▸ hgrown
  obtain ⟨fields, methods, hfields, hmethods, -, hfieldsLeft, hmethodsLeft⟩ := r₂.met
  have honward : Ledger.Onward r.name t.ledger.expire r₂.afterFields := hname ▸ r₂.onward_fields
  rw [hfieldsLeft, hmethodsLeft] at hmembers
  rw [hname] at hfields hmethods
  refine ⟨c, c₁, r, r₂.bootstraps, r₂.afterFields, r₂.afterMethods, fields, methods, hc, hlast, hc₁,
    hleft.named, r₂.bootstraps_unlinked, hfields, ?_, hmembers, fun x hx c₂ hc₂ =>
      hleft.not_hasMethod (hleaves₁ c₂ hc₂) hmemory' hgrown' hx.gone⟩
  refine hmethods.enrich (R := Ledger.Onward r.name) .refl .trans MethodMet.onward
    fun hu hcaller hmet => ⟨?_, ?_⟩
  · rintro x hx m hm hsame
    exact hleft.deletes_gone hmemory' hgrown' (hsame ▸ hx.gone) (honward.trans hu) hcaller hmet hm
  · intro hstart x hx m i t hm hwalked hrefers howner htarget
    exact hleft.deletes (hcourse.grounded hstart hc) hmemory' hgrown' hx.gone (honward.trans hu)
      hcaller hmet hm hwalked hrefers howner htarget

end

def companionDescriptor : String := "(LA;ILjava/lang/Object;)V"

def companionCall : MemberRef := ⟨⟨"f$default", companionDescriptor⟩, "A", false⟩

/-- A class with a function `f`, its companion `f$default` and a function `h`. -/
def companionClass (methods : List MemberEntry) : ClassFile where
  minor := 0
  major := 52
  pool := ⟨#[.unusable, .ofText "A", .classInfo 1, .ofText "f", .ofText "()V", .ofText "f$default",
    .ofText companionDescriptor, .ofText "h", .ofText "Code", .ofText "RuntimeVisibleAnnotations",
    .ofText "LD;", .nameAndType 5 6, .methodRef 2 11]⟩
  access := 0
  thisClass := 2
  superClass := 0
  interfaces := []
  fields := []
  methods := methods
  attributes := []

/-- The method `h`, which calls `f$default`. -/
def companionCaller : MemberEntry :=
  ⟨1, 7, 4, [⟨8, Body.bytes ⟨3, 1, [0x2a, 3, 1, 0xb8, 0, 12, Opcode.ret]⟩⟩]⟩

def companionBefore : ClassFile := companionClass
  [companionCaller, ⟨9, 5, 6, []⟩, ⟨1, 3, 4, [⟨9, AnnotationEntry.tableBytes [⟨10, []⟩]⟩]⟩]

def companionBetween : ClassFile := companionClass [companionCaller, ⟨9, 5, 6, []⟩]

set_option maxRecDepth 2000 in
theorem refers_companionCaller : Refers companionBetween.pool [] companionCaller
    ⟨3, 0xb8, [0, 12]⟩ (.invoke companionCall) :=
  ⟨_, [(⟨0, 0x2a, []⟩, .plain), (⟨1, 3, []⟩, .plain), (⟨2, 1, []⟩, .plain),
    (⟨3, 0xb8, [0, 12]⟩, .invoke companionCall), (⟨6, Opcode.ret, []⟩, .plain)], rfl,
    by with_unfolding_all rfl, by simp⟩

/-- Whether a pass deletes `f`, with the companion due behind it, and the next pass the rest. -/
def dropsCompanion : Bool :=
  match (run marking "A.class" companionBefore.bytes).run {} with
  | .ok out s => decide (out = .modified companionBetween.bytes) &&
    s.ledger.memory.dueMethods.contains companionCall.toSignature &&
    s.ledger.expire.memory.stubbed.isEmpty &&
    match (run marking "A.class" companionBetween.bytes).run s with
    | .ok out' _ => decide (out' = .modified (companionClass []).bytes)
    | .error _ _ => false
  | .error _ _ => false

theorem of_dropsCompanion (h : dropsCompanion = true) : ∃ s₁ s₂,
    (run marking "A.class" companionBefore.bytes).run {} =
        .ok (.modified companionBetween.bytes) s₁ ∧
      (run marking "A.class" companionBetween.bytes).run s₁ =
        .ok (.modified (companionClass []).bytes) s₂ ∧
      s₁.ledger.memory.dueMethods.contains companionCall.toSignature = true ∧
      s₁.ledger.expire.memory.stubbed.isEmpty = true := by
  unfold dropsCompanion at h
  split at h
  · next out s₁ hrun =>
    simp only [Bool.and_eq_true, decide_eq_true_eq] at h
    obtain ⟨⟨⟨rfl, hdue⟩, hstubbed⟩, h⟩ := h
    split at h
    · next out' s₂ hrun' =>
      obtain rfl := of_decide_eq_true h
      exact ⟨s₁, s₂, hrun, hrun', hdue, hstubbed⟩
    · cases h
  · cases h

/-- The companion and its caller go with the second pass. -/
theorem gone_after_next_companion : ∃ s₁ s₂,
    ∃ r : Rewriting marking ({} : Session).ledger.expire companionBefore, ∃ x,
    (run marking "A.class" companionBefore.bytes).run {} =
        .ok (.modified companionBetween.bytes) s₁ ∧
      (run marking "A.class" companionBetween.bytes).run s₁ =
        .ok (.modified (companionClass []).bytes) s₂ ∧
      r.last = s₁.ledger ∧ r.Hands x ∧ x.toSignature = companionCall.toSignature ∧
      ¬ (companionClass []).HasMethod x.toSignature ∧
      ∃ l met l', MethodMet marking "A" companionBetween.pool [] l companionCaller met l' ∧
        met.1 = .delete := by
  obtain ⟨s₁, s₂, hrun, hnext, hdue, hstubbed⟩ := of_dropsCompanion (by decide +kernel)
  obtain ⟨c, c₁, r, bootstraps, l, l', fields, methods, hc, hlast, hc₁, hname, hbootstraps, hfields,
    hmethods, -, hgone⟩ :=
    gone_after_next (.begin rfl) hrun (by simp) rfl (.refl _) hnext (by simp)
  have hbefore : ClassFile.ofBytes companionBefore.bytes = .ok companionBefore := by decide +kernel
  have hbetween : ClassFile.ofBytes companionBetween.bytes = .ok companionBetween := by
    decide +kernel
  obtain rfl := Except.ok.inj (hbefore.symm.trans hc)
  obtain rfl := Except.ok.inj (hbetween.symm.trans hc₁)
  obtain rfl : [] = bootstraps := Except.ok.inj hbootstraps
  rw [show r.name = "A" from Except.ok.inj (hname.symm.trans (by decide +kernel))] at hmethods
  -- Nothing was due when the first pass began, so what is due behind it was handed on.
  obtain hdue | ⟨x, hx, hsignature⟩ := r.due_last (hlast ▸ hdue)
  · cases hdue
  have hafter := hgone x hx (companionClass []) (by decide +kernel)
  cases hfields with | nil =>
  cases hmethods with | cons hcaller _ =>
  obtain ⟨hmet, -, hgoes⟩ := hcaller
  have hgrounded : ∀ c₀, ClassFile.ofBytes companionBefore.bytes = .ok c₀ →
      ∀ e ∈ c₀.methods, e.Grounded c₀.pool := by
    intro c₀ hc₀
    obtain rfl := Except.ok.inj (hbefore.symm.trans hc₀)
    decide +kernel
  have hwalked : ¬ Exempt marking companionBetween.pool companionCaller s₁.ledger.expire
      ⟨⟨"h", "()V"⟩, 1⟩ := by
    rintro (hcontains | ⟨-, e, d, ⟨a, ha, htable, -⟩, -⟩)
    · rw [GraceSet.isEmpty, List.isEmpty_iff] at hstubbed
      simp [GraceSet.contains, hstubbed] at hcontains
    · obtain rfl := List.mem_singleton.1 ha
      exact absurd htable (by decide +kernel)
  exact ⟨s₁, s₂, r, x, hrun, hnext, hlast, hx, hsignature, hafter, _, _, _, hmet,
    hgoes hgrounded x hx _ _ _ (by with_unfolding_all rfl) hwalked refers_companionCaller rfl
      hsignature.symm⟩

/-! Why the attributes have to have names. One that leads nowhere when a pass comes to a method may lead
to `Code` behind it, since the strings of metadata that is packed anew are added to the pool. Here the
first pass deletes `q` and `f`, so that `f$default` is due. The second deletes `q$default` and removes
the property of which it was the getter; it hands the setter `f$default` on again, which is due
already, and packs the payload into a string and a rest, which is `Code`. The third comes to the body
of `h`, which calls `f$default`, when that is no longer due. -/

section

open Metadata (Changes Message Packing Payload WireField delimited)
open ConstantPool (Grows FitsText)

def latentStrings : List String := ["q$default", "f$default", companionDescriptor]

/-- A property with the getter `q$default` and the setter `f$default`. -/
def accessorRecord : Message :=
  ⟨[⟨2, .varint 0⟩, ⟨100, .block [26, 4, 8, 0, 16, 2, 34, 4, 8, 1, 16, 2]⟩]⟩

def accessorField : WireField := ⟨10, .block accessorRecord.bytes⟩

def latentPayload (filling : List UInt8) (records : List WireField) : Payload where
  kind := .classFile
  strings := ⟨[], latentStrings⟩
  container := ⟨records ++ [⟨15, .block filling⟩]⟩
  types := []
  packing := .bytes

/-- What fills a string behind the head of a payload without records, and `Code` after that. -/
def filler : List UInt8 := List.replicate 65523 120 ++ [120, 67, 111, 100, 101]

def fillText : String := String.ofList (List.replicate 260 'x')

/-- The head of the payload with the property. -/
def latentHead : String :=
  textOf [0, 0, 0x52, 17, 0x10, 0, 0xA2, 6, 12, 26, 4, 8, 0, 16, 2, 34, 4, 8, 1, 16, 2,
    0x7A, 0xF8, 0xFF, 3]

def latentTexts : List String := [latentHead] ++ List.replicate 252 fillText ++ ["xxxxCode"]

/-- The first string of the payload without the property. -/
def filledText : String :=
  String.ofList ([0, 0, 0x7A, 0xF8, 0xFF, 3].map Char.ofNat ++ List.replicate 65523 'x' ++ ['x'])

theorem length_filler : filler.length = 65528 := by
  rw [filler, List.length_append, List.length_replicate]
  rfl

theorem chars_latent (records : List WireField) :
    Packing.bytes.chars (delimited [] ++ (latentPayload filler records).container.bytes) =
      [0, 0].map Char.ofNat ++ (Message.bytes ⟨records⟩).map (fun b => Char.ofNat b.toNat) ++
        [0x7A, 0xF8, 0xFF, 3].map Char.ofNat ++ List.replicate 65523 'x' ++
          'x' :: ['C', 'o', 'd', 'e'] := by
  have hlength : Metadata.Varint.encode 65528 = [0xF8, 0xFF, 3] := by with_unfolding_all rfl
  have hkey : Metadata.Varint.encode 122 = [122] := by with_unfolding_all rfl
  have hempty : delimited [] = [0] := by with_unfolding_all rfl
  have hbytes : (latentPayload filler records).container.bytes =
      Message.bytes ⟨records⟩ ++ [122, 0xF8, 0xFF, 3] ++ filler := by
    simp [latentPayload, Message.bytes, WireField.bytes, Metadata.WireValue.bytes,
      Metadata.WireValue.wireType, delimited, hlength, hkey, length_filler]
  have hfiller : filler.map (fun b => Char.ofNat b.toNat) =
      List.replicate 65523 'x' ++ 'x' :: ['C', 'o', 'd', 'e'] := by
    rw [filler, List.map_append, List.map_replicate]
    rfl
  rw [hbytes, hempty, Packing.chars, List.map_append, List.map_append, List.map_append, hfiller,
    ← List.append_assoc]
  generalize List.replicate 65523 'x' = xs
  simp only [List.append_assoc]
  rfl

theorem flatMap_latentTexts : latentTexts.flatMap (·.toList) =
    Packing.bytes.chars
      (delimited [] ++ (latentPayload filler [accessorField]).container.bytes) := by
  have hhead : [0, 0].map Char.ofNat ++
        (Message.bytes ⟨[accessorField]⟩).map (fun b => Char.ofNat b.toNat) ++
      [0x7A, 0xF8, 0xFF, 3].map Char.ofNat =
    [0, 0, 0x52, 17, 0x10, 0, 0xA2, 6, 12, 26, 4, 8, 0, 16, 2, 34, 4, 8, 1, 16, 2,
      0x7A, 0xF8, 0xFF, 3].map Char.ofNat := by with_unfolding_all decide
  have hlast : "xxxxCode".toList = List.replicate 3 'x' ++ 'x' :: ['C', 'o', 'd', 'e'] := by
    decide
  have hfill : (List.replicate 252 fillText).flatMap (·.toList) =
      List.replicate (252 * 260) 'x' := by
    have hone : fillText.toList = List.replicate 260 'x' := String.toList_ofList
    rw [List.flatMap_replicate, hone]
    exact List.flatten_replicate_replicate
  have hall : List.replicate (252 * 260) 'x' ++ List.replicate 3 'x' = List.replicate 65523 'x' :=
    List.replicate_append_replicate
  rw [chars_latent, hhead, latentTexts, List.flatMap_append, List.flatMap_append, hfill,
    List.flatMap_singleton, List.flatMap_singleton, latentHead, textOf, String.toList_ofList, hlast,
    ← hall]
  simp only [List.append_assoc]

theorem encode_latent : (latentPayload filler []).encode = [filledText, "Code"] := by
  have hx : ModifiedUtf8.charLength 'x' = 1 := by decide
  have hsum (n : Nat) : (([0, 0, 0x7A, 0xF8, 0xFF, 3].map Char.ofNat ++
      List.replicate n 'x').map ModifiedUtf8.charLength).sum = 10 + n := by
    rw [List.map_append, List.sum_append, List.map_replicate, List.sum_replicate_nat, hx,
      Nat.mul_one]
    rfl
  show Packing.chunks [] 0
    (Packing.bytes.chars (delimited [] ++ (latentPayload filler []).container.bytes)) = _
  rw [chars_latent]
  have hopen : 0 + (([0, 0, 0x7A, 0xF8, 0xFF, 3].map Char.ofNat ++
      List.replicate 65523 'x').map ModifiedUtf8.charLength).sum < Packing.chunkLimit := by
    rw [hsum]
    decide
  have hfull : Packing.chunkLimit ≤ 0 + (([0, 0, 0x7A, 0xF8, 0xFF, 3].map Char.ofNat ++
      List.replicate 65523 'x').map ModifiedUtf8.charLength).sum +
        ModifiedUtf8.charLength 'x' := by
    rw [hsum, hx]
    decide
  exact (Packing.chunks_filled hopen hfull ['C', 'o', 'd', 'e']).trans
    (congrArg (_ :: ·) (by decide))

theorem fits_latent {records : List WireField} (h : ∀ f ∈ records, f.Fits) :
    (latentPayload filler records).container.Fits := by
  intro f hf
  obtain hf | hf := List.mem_append.1 hf
  · exact h f hf
  · obtain rfl := List.mem_singleton.1 hf
    exact ⟨by decide, show filler.length < UInt64.size by rw [length_filler]; decide⟩

theorem decode_latentTexts : Payload.decode .classFile latentTexts latentStrings =
    .ok (latentPayload filler [accessorField]) := by
  have hpacking : Packing.ofChunks latentTexts = .bytes := by
    show Packing.ofChunks (_ :: _) = _
    decide
  have htable : Message.ofBytes [] = .ok ⟨[]⟩ := by with_unfolding_all rfl
  refine Payload.decode_of_chars (p := latentPayload filler [accessorField]) flatMap_latentTexts
    hpacking (by decide) htable (by decide) (fits_latent fun f hf => ?_)
  obtain rfl := List.mem_singleton.1 hf
  exact ⟨by decide, show accessorRecord.bytes.length < _ by with_unfolding_all decide⟩

theorem decode_filled : Payload.decode .classFile [filledText, "Code"] latentStrings =
    .ok (latentPayload filler []) := by
  have hfits : (latentPayload filler []).container.Fits := fits_latent nofun
  rw [← encode_latent]
  exact Payload.decode_encode decode_latentTexts (fun h => by cases (show Packing.bytes = _ from h))
    hfits

/-- The setter of the property, which is also the companion of `f`. -/
def latentSetter : Member := ⟨companionCall.toSignature, 0⟩

def latentChanges : Changes where
  removed := [.property "q$default"]
  methods := [⟨⟨"q$default", companionDescriptor⟩, 0⟩, latentSetter]

/-- The texts of a class whose metadata names a getter and a setter of a property. -/
def latentNames : List String :=
  ["A", "q", "()V", "f", "h", "q$default", "f$default", companionDescriptor,
    "RuntimeVisibleAnnotations", "LD;", "Lkotlin/Metadata;", "d1", "d2", latentHead, "xxxxCode"]

/-- Its constants, and more texts behind them. -/
def latentConstants (texts : List String) : List Constant :=
  (latentNames ++ [fillText]).map .ofText ++
    [Constant.classInfo 1, .nameAndType 7 8, .methodRef 17 18] ++ texts.map .ofText

def latentPool (texts : List String) : ConstantPool :=
  ⟨(Constant.unusable :: latentConstants texts).toArray⟩

def latentMetadata (chunks : List UInt16) : AnnotationEntry :=
  ⟨11, [(12, .array (ElementValue.strings chunks)), (13, .array (ElementValue.strings [6, 7, 8]))]⟩

def latentGetter : MemberEntry := ⟨9, 6, 8, []⟩

/-- A method that is marked, `q` or `f`. -/
def latentMarked (name : UInt16) : MemberEntry :=
  ⟨1, name, 3, [⟨9, AnnotationEntry.tableBytes [⟨10, []⟩]⟩]⟩

/-- The method `h`, with a body under a name that the pool does not have at first. -/
def latentCaller : MemberEntry :=
  ⟨1, 5, 3, [⟨21, Body.bytes ⟨3, 1, [0x2a, 3, 1, 0xb8, 0, 19, Opcode.ret]⟩⟩]⟩

def latentMethods : List MemberEntry := [latentGetter, latentMarked 2, latentMarked 4, latentCaller]

def latentClass (texts : List String) (methods : List MemberEntry) (chunks : List UInt16) :
    ClassFile where
  minor := 0
  major := 52
  pool := latentPool texts
  access := 0
  thisClass := 17
  superClass := 0
  interfaces := []
  fields := []
  methods := methods
  attributes := [⟨9, AnnotationEntry.tableBytes [latentMetadata chunks]⟩]

/-- What is gone and due after the first pass, and after the methods of the second. -/
def latentFirst : Ledger :=
  ((⟨{}, {}⟩ : Ledger).dropMethod "A" ⟨⟨"q", "()V"⟩, 1⟩).dropMethod "A" ⟨⟨"f", "()V"⟩, 1⟩

def latentSecond : Ledger :=
  latentFirst.expire.dropMethod "A" ⟨⟨"q$default", companionDescriptor⟩, 9⟩

/-- What each pass sweeps, whatever stands in the last field. -/
theorem sweep_latent (filling : List UInt8) :
    (latentPayload filling [accessorField]).sweep "A" latentFirst.tracker =
        .ok (latentPayload filling [accessorField], {}) ∧
      (latentPayload filling [accessorField]).sweep "A" latentSecond.tracker =
        .ok (latentPayload filling [], latentChanges) ∧
      (latentPayload filling []).sweep "A" latentSecond.tracker =
        .ok (latentPayload filling [], {}) := by
  refine ⟨?_, ?_, ?_⟩ <;> with_unfolding_all rfl

/-- What each pass makes of the methods. -/
theorem methods_latent :
    Prune.methods marking "A" (latentPool []) [] ⟨{}, {}⟩ latentMethods =
        .ok (latentFirst, [⟨latentGetter, none⟩, ⟨latentCaller, none⟩], true) ∧
      Prune.methods marking "A" (latentPool []) [] latentFirst.expire
          [latentGetter, latentCaller] =
        .ok (latentSecond, [⟨latentCaller, none⟩], true) ∧
      Prune.methods marking "A" (latentPool [filledText, "Code"]) []
          (latentSecond.schedule latentChanges).expire [latentCaller] =
        .ok ((latentSecond.schedule latentChanges).expire, [⟨latentCaller, none⟩], false) := by
  refine ⟨?_, ?_, ?_⟩ <;> with_unfolding_all rfl

set_option maxRecDepth 2000 in
theorem refers_latent (text : String) : Refers (latentPool [text, "Code"]) [] latentCaller
    ⟨3, 0xb8, [0, 19]⟩ (.invoke companionCall) := by
  refine ⟨⟨21, Body.bytes ⟨3, 1, [0x2a, 3, 1, 0xb8, 0, 19, Opcode.ret]⟩⟩,
    [(⟨0, 0x2a, []⟩, .plain), (⟨1, 3, []⟩, .plain), (⟨2, 1, []⟩, .plain),
      (⟨3, 0xb8, [0, 19]⟩, .invoke companionCall), (⟨6, Opcode.ret, []⟩, .plain)], ?_, ?_, by simp⟩
  · with_unfolding_all rfl
  · with_unfolding_all rfl

theorem fits_filledText : FitsText filledText := by
  have h := Packing.encode_fits .bytes
    (delimited [] ++ (latentPayload filler []).container.bytes) filledText
    (show filledText ∈ (latentPayload filler []).encode from
      encode_latent ▸ List.mem_cons_self ..)
  rwa [← ModifiedUtf8.length_encode] at h

theorem size_filledText : 300 < filledText.utf8ByteSize := by
  have hone : (String.ofList ['x']).utf8ByteSize = 1 := by decide
  have hmany (n : Nat) : n ≤ (String.ofList (List.replicate n 'x')).utf8ByteSize := by
    induction n with
    | zero => simp
    | succ n ih =>
      rw [List.replicate_succ', String.ofList_append, String.utf8ByteSize_append, hone]
      omega
  have h (n : Nat) (hn : 300 < n) : 300 < (String.ofList ([0, 0, 0x7A, 0xF8, 0xFF, 3].map Char.ofNat
      ++ List.replicate n 'x' ++ ['x'])).utf8ByteSize := by
    rw [String.ofList_append, String.ofList_append, String.utf8ByteSize_append,
      String.utf8ByteSize_append]
    have := hmany n
    omega
  exact h 65523 (by decide)

/-- Texts that the pool does not have are added behind the others. -/
theorem repack_latent {text : String} (hlong : 300 < text.utf8ByteSize) (chunks : List UInt16) :
    (Pruner.repack (latentMetadata chunks) [text, "Code"]).run (latentPool []) =
      .ok (latentMetadata [20, 21]) (latentPool [text, "Code"]) := by
  have hshort : ∀ t ∈ latentNames ++ [fillText], t.utf8ByteSize ≤ 300 ∧ t ≠ "Code" := by
    decide +kernel
  have hnew : ∀ s ∈ [text, "Code"], ∀ c ∈ (latentPool []).entries,
      ConstantPool.isText s (latentPool []) c = false := by
    intro s hs c hc
    have hc : c ∈ Constant.unusable :: latentConstants [] := List.mem_toArray.1 hc
    rw [latentConstants, List.map_nil, List.append_nil, List.mem_cons, List.mem_append,
      List.mem_map] at hc
    simp only [List.mem_cons, List.not_mem_nil, or_false] at hc
    obtain rfl | ⟨t, ht, rfl⟩ | rfl | rfl | rfl := hc
    · rfl
    · obtain ⟨hsize, hcode⟩ := hshort t ht
      refine beq_false_of_ne fun h => ?_
      obtain rfl | rfl : s = text ∨ s = "Code" := by simpa using hs
      · exact absurd hlong (by rw [← h]; omega)
      · exact hcode h
    · rfl
    · rfl
    · rfl
  have hdistinct : [text, "Code"].Nodup := by
    have hne : text ≠ "Code" := fun h => absurd hlong (by rw [h]; decide)
    simp [hne]
  have hlocated : AnnotationEntry.Located (latentPool [text, "Code"]) "d1"
      (latentMetadata chunks).elements [] 12 (.array (ElementValue.strings chunks))
      [(13, .array (ElementValue.strings [6, 7, 8]))] := ⟨rfl, by with_unfolding_all rfl, nofun⟩
  exact Prune.repack_run hlocated
    (ElementValue.ofStrings_new hnew hdistinct (show 20 + 2 ≤ 65535 by decide))

theorem latentPool_fits {texts : List String} (hfit : ∀ s ∈ texts, FitsText s)
    (hfew : texts.length ≤ 2) : (latentPool texts).Fits := by
  have htext {s : String} (h : FitsText s) :
      (Constant.ofText s).IsSpelled ∧ (Constant.ofText s).isWide = false :=
    ⟨ConstantPool.ofText_isSpelled h, rfl⟩
  have hfill : FitsText fillText := by
    have hlength (n : Nat) :
        (ModifiedUtf8.encode (String.ofList (List.replicate n 'x'))).length = n := by
      rw [ModifiedUtf8.length_encode, Packing.encodedLength_ofList, Packing.foldr_charLength,
        List.map_replicate, List.sum_replicate_nat]
      exact Nat.mul_one n
    exact Nat.lt_of_le_of_lt (hlength 260).le (by decide)
  have hnames : ∀ s ∈ latentNames, (ModifiedUtf8.encode s).length < 256 ^ 2 := by decide
  have hgrows : Grows ⟨#[.unusable]⟩ (latentPool texts) := by
    refine ⟨⟨latentConstants texts, rfl, fun c hc => ?_⟩, ?_⟩
    · simp only [latentConstants, List.mem_append, List.mem_map, List.mem_singleton] at hc
      obtain (⟨s, hs | rfl, rfl⟩ | hc) | ⟨s, hs, rfl⟩ := hc
      · exact htext (hnames s hs)
      · exact htext hfill
      · simp only [List.mem_cons, List.not_mem_nil, or_false] at hc
        obtain rfl | rfl | rfl := hc <;> exact ⟨trivial, rfl⟩
      · exact htext (hfit s hs)
    · have : (latentPool texts).entries.size = 20 + texts.length := by
        simp [latentPool, latentConstants, latentNames]
        omega
      rw [this]
      exact Nat.le_trans (show _ ≤ 65535 by omega) (Nat.le_max_right _ _)
  exact hgrows.fits ⟨by decide, [], rfl, .nil⟩

theorem length_latentMetadata (chunks : List UInt16) :
    (AnnotationEntry.tableBytes [latentMetadata chunks]).length = 25 + 3 * chunks.length := by
  have hstrings (is : List UInt16) :
      (ElementValue.itemsBytes (ElementValue.strings is)).length = 3 * is.length := by
    induction is with
    | nil => rfl
    | cons i is ih =>
      simp [ElementValue.strings, ElementValue.itemsBytes, ElementValue.bytes] at ih ⊢
      omega
  simp [AnnotationEntry.tableBytes, latentMetadata, AnnotationEntry.bytes,
    ElementValue.elementsBytes, ElementValue.bytes, hstrings, countedBytes]
  omega

theorem latentClass_fits {texts : List String} {methods : List MemberEntry} {chunks : List UInt16}
    (hpool : (latentPool texts).Fits) (hmethods : ∀ m ∈ methods, m ∈ latentMethods)
    (hfew : methods.length ≤ 4) (hchunks : chunks.length < 256 ^ 2) :
    (latentClass texts methods chunks).Fits where
  pool := hpool
  interfaces := Nat.zero_lt_succ _
  fieldCount := Nat.zero_lt_succ _
  fields := nofun
  methodCount := Nat.lt_of_le_of_lt hfew (by decide)
  methods m hm := by
    have hfits : ∀ m ∈ latentMethods, m.attributes.length < 256 ^ 2 ∧
        ∀ a ∈ m.attributes, a.payload.length < 256 ^ 4 := by decide
    exact ⟨(hfits m (hmethods m hm)).1, (hfits m (hmethods m hm)).2⟩
  attributeCount := show 1 < 256 ^ 2 by decide
  attributes a ha := by
    obtain rfl := List.mem_singleton.1 ha
    show (AnnotationEntry.tableBytes [latentMetadata chunks]).length < 256 ^ 4
    rw [length_latentMetadata]
    omega

theorem latentMetadata_fits {chunks : List UInt16} (h : chunks.length < 256 ^ 2) :
    (latentMetadata chunks).Fits := by
  have hstrings {is : List UInt16} (h : is.length < 256 ^ 2) :
      (ElementValue.array (ElementValue.strings is)).Fits := by
    refine .array ?_ ?_
    · rwa [ElementValue.strings, List.length_map]
    · intro v hv
      obtain ⟨i, -, rfl⟩ := List.mem_map.1 hv
      exact .const rfl
  refine ⟨show 2 < 256 ^ 2 by decide, fun e he => ?_⟩
  simp only [latentMetadata, List.mem_cons, List.not_mem_nil, or_false] at he
  obtain rfl | rfl := he
  · exact hstrings h
  · exact hstrings (by decide)

variable {texts : List String} {methods : List MemberEntry} {chunks : List UInt16}

theorem surveyed_latent (hchunks : chunks.length < 256 ^ 2) :
    Prune.Surveyed marking (latentClass texts methods chunks) "A" ⟨"A", none, []⟩
      [⟨⟨9, AnnotationEntry.tableBytes [latentMetadata chunks]⟩,
        some [(latentMetadata chunks, Pruner.metadataDescriptor)]⟩] := by
  refine ⟨by with_unfolding_all rfl, by with_unfolding_all rfl,
    marks_ok_iff.2 ⟨rfl, fun m hm => ?_⟩⟩
  obtain rfl := List.mem_singleton.1 hm
  refine .table (by with_unfolding_all rfl) ?_ fun e he => ?_
  · exact AnnotationEntry.readTable_tableBytes
      ⟨show 1 < 256 ^ 2 by decide, by simpa using latentMetadata_fits hchunks⟩
  · obtain rfl := List.mem_singleton.1 he
    show (latentPool texts).utf8 11 = _
    with_unfolding_all rfl

/-- A pass over such a class, from what it does with the methods and the metadata. -/
def latentRewriting (kept : List MemberEntry) (hchunks : chunks.length < 256 ^ 2)
    {l after last : Ledger} (hclasses : l.tracker.classes = []) {changed replaced : Bool}
    {new : List AnnotationEntry} {pool : ConstantPool} {attributes : List Attribute}
    (hmethods : Prune.methods marking "A" (latentPool texts) [] l methods =
      .ok (after, kept.map fun entry => ⟨entry, none⟩, changed))
    (hmetadata : Prune.replacements "A" after (latentPool texts) (some (latentMetadata chunks)) =
      .ok (last, new, pool))
    (hattributes : Walk.replaceAll pool new
      [⟨9, AnnotationEntry.tableBytes [latentMetadata chunks]⟩] = .ok (attributes, replaced)) :
    Rewriting marking l (latentClass texts methods chunks) where
  name := "A"
  header := ⟨"A", none, []⟩
  marked := [⟨⟨9, AnnotationEntry.tableBytes [latentMetadata chunks]⟩,
        some [(latentMetadata chunks, Pruner.metadataDescriptor)]⟩]
  links := [(⟨9, AnnotationEntry.tableBytes [latentMetadata chunks]⟩, .none)]
  fields := []
  bootstraps := []
  kept := kept.map fun entry => ⟨entry, none⟩
  methods := kept
  new := new
  attributes := attributes
  afterFields := l
  afterMethods := after
  last := last
  stubbed := latentPool texts
  pool := pool
  fieldsChanged := false
  methodsChanged := changed
  replaced := replaced
  surveyed := surveyed_latent hchunks
  undoomed := by simp [Prune.headerDoomed, Tracker.containsClass, hclasses]
  wanted := by rfl
  linked := by
    refine readLinks_ok_iff.2 ⟨rfl, fun p hp => ?_⟩
    obtain rfl := List.mem_singleton.1 hp
    have hname : (latentPool texts).utf8 9 = .ok "RuntimeVisibleAnnotations" := by
      with_unfolding_all rfl
    exact .none hname (by decide)
  spared p hp := by
    obtain rfl := List.mem_singleton.1 hp
    rfl
  ofFields := rfl
  ofBootstraps := by with_unfolding_all rfl
  ofMethods := hmethods
  installed := Prune.installStubs_none _ _
  ofMetadata := hmetadata
  ofAttributes := hattributes

theorem latent_described {d1 : List String} (hsome : d1 ≠ [])
    (h : List.Forall₂ (fun s i => (latentPool texts).utf8 i = .ok s) d1 chunks) :
    Prune.Described (latentPool texts) (latentMetadata chunks) .classFile d1 latentStrings := by
  have hd1 : (latentPool texts).utf8 12 = .ok "d1" := by with_unfolding_all rfl
  have hd2 : (latentPool texts).utf8 13 = .ok "d2" := by with_unfolding_all rfl
  have hstrings : List.Forall₂ (fun s i => (latentPool texts).utf8 i = .ok s) latentStrings
      [6, 7, 8] :=
    .cons (by with_unfolding_all rfl) (.cons (by with_unfolding_all rfl)
      (.cons (by with_unfolding_all rfl) .nil))
  have hitems : (ElementValue.strings chunks).mapM
      (AnnotationEntry.stringItem (latentPool texts) "d1") = .ok d1 :=
    AnnotationEntry.stringItems_strings h
  have hitems' : (ElementValue.strings [6, 7, 8]).mapM
      (AnnotationEntry.stringItem (latentPool texts) "d2") = .ok latentStrings :=
    AnnotationEntry.stringItems_strings hstrings
  refine ⟨?_, rfl, hsome⟩
  simp [Pruner.metadataParts, Pruner.stringsOf, AnnotationEntry.intElement?,
    AnnotationEntry.stringsElement?, AnnotationEntry.element?, AnnotationEntry.lookup,
    latentMetadata, hd1, hd2, hitems, hitems', bind, Except.bind, pure, Except.pure,
    Metadata.Kind.ofCode, Metadata.Kind.isEditable]

def latentChunks : List UInt16 := [14] ++ List.replicate 252 16 ++ [15]

theorem latentTexts_read :
    List.Forall₂ (fun s i => (latentPool []).utf8 i = .ok s) latentTexts latentChunks := by
  have hfill (n : Nat) : List.Forall₂ (fun s i => (latentPool []).utf8 i = .ok s)
      (List.replicate n fillText) (List.replicate n 16) := by
    induction n with
    | zero => exact .nil
    | succ n ih => exact .cons (by with_unfolding_all rfl) ih
  exact List.rel_append (List.rel_append (.cons (by with_unfolding_all rfl) .nil) (hfill 252))
    (.cons (by with_unfolding_all rfl) .nil)

theorem chunks_latent : latentChunks.length < 256 ^ 2 := by
  rw [latentChunks, List.length_append, List.length_append, List.length_replicate]
  decide

/-! The class before each of the three passes. -/

def latentBefore : ClassFile := latentClass [] latentMethods latentChunks

def latentBetween : ClassFile := latentClass [] [latentGetter, latentCaller] latentChunks

def latentAfter : ClassFile := latentClass [filledText, "Code"] [latentCaller] [20, 21]

theorem latent_ofBytes : ClassFile.ofBytes latentBefore.bytes = .ok latentBefore ∧
    ClassFile.ofBytes latentBetween.bytes = .ok latentBetween ∧
    ClassFile.ofBytes latentAfter.bytes = .ok latentAfter := by
  have hpool : (latentPool []).Fits := latentPool_fits nofun (by decide)
  have hpool' : (latentPool [filledText, "Code"]).Fits := by
    refine latentPool_fits (fun s hs => ?_) (by simp)
    obtain rfl | rfl : s = filledText ∨ s = "Code" := by simpa using hs
    · exact fits_filledText
    · exact show (ModifiedUtf8.encode "Code").length < 256 ^ 2 by decide
  have hname (texts : List String) (methods : List MemberEntry) (chunks : List UInt16) :
      (latentClass texts methods chunks).name = .ok "A" := by with_unfolding_all rfl
  refine ⟨?_, ?_, ?_⟩
  · exact ClassFile.ofBytes_bytes (latentClass_fits hpool (fun _ h => h) (by decide) chunks_latent)
      (hname _ _ _)
  · exact ClassFile.ofBytes_bytes (latentClass_fits hpool (by decide) (by decide) chunks_latent)
      (hname _ _ _)
  · exact ClassFile.ofBytes_bytes
      (latentClass_fits hpool' (by decide) (by decide) (by decide)) (hname _ _ _)

/-- What the passes do with the metadata: nothing, the property removed, nothing. -/
theorem replacements_latent :
    Prune.replacements "A" latentFirst (latentPool []) (some (latentMetadata latentChunks)) =
        .ok (latentFirst, [], latentPool []) ∧
      Prune.Repacked "A" latentSecond (latentPool []) (latentMetadata latentChunks)
        (latentMetadata [20, 21]) (latentPool [filledText, "Code"]) .classFile latentTexts
        latentStrings (latentPayload filler []) latentChanges ∧
      Prune.replacements "A" (latentSecond.schedule latentChanges).expire
          (latentPool [filledText, "Code"]) (some (latentMetadata [20, 21])) =
        .ok ((latentSecond.schedule latentChanges).expire, [], latentPool [filledText, "Code"]) := by
  obtain ⟨hfirst, hsecond, hthird⟩ := sweep_latent filler
  have hbefore := latent_described (List.cons_ne_nil _ _) latentTexts_read
  have hafter : Prune.Described (latentPool [filledText, "Code"]) (latentMetadata [20, 21])
      .classFile [filledText, "Code"] latentStrings := by
    generalize filledText = text
    exact latent_described (List.cons_ne_nil _ _)
      (.cons (by with_unfolding_all rfl) (.cons (by with_unfolding_all rfl) .nil))
  refine ⟨Prune.replacements_run ?_, ?_, Prune.replacements_run ?_⟩
  · rintro _ ⟨⟩
    exact hbefore.rests (Prune.swept_of_sweep decode_latentTexts hfirst) rfl
  · refine ⟨hbefore, Prune.swept_of_sweep decode_latentTexts hsecond, List.cons_ne_nil _ _, ?_⟩
    rw [encode_latent]
    exact repack_latent size_filledText _
  · rintro _ ⟨⟩
    exact hafter.rests (Prune.swept_of_sweep decode_filled hthird) rfl

/-- The attributes of the class are written back with the new metadata. -/
theorem replaceAll_latent : Walk.replaceAll (latentPool [filledText, "Code"])
    [latentMetadata [20, 21]] [⟨9, AnnotationEntry.tableBytes [latentMetadata latentChunks]⟩] =
      .ok (latentAfter.attributes, true) := by
  have hmarked (text : String) : Attribute.isAnnotations (latentPool [text, "Code"])
      ⟨9, AnnotationEntry.tableBytes [latentMetadata latentChunks]⟩ = true := by
    with_unfolding_all rfl
  have htable : AnnotationEntry.readTable
      (AnnotationEntry.tableBytes [latentMetadata latentChunks]) = .ok [latentMetadata latentChunks] :=
    AnnotationEntry.readTable_tableBytes
      ⟨show 1 < 256 ^ 2 by decide, by simpa using latentMetadata_fits chunks_latent⟩
  have hdiffers : [latentMetadata [20, 21]] ≠ [latentMetadata latentChunks] := by
    with_unfolding_all decide
  have hreplaced : Walk.replaceIn? (latentMetadata [20, 21]) [latentMetadata latentChunks] =
      some [latentMetadata [20, 21]] := if_pos rfl
  simp only [Walk.replaceAll, Walk.replaceAnnotations, hmarked, if_true, htable, hreplaced, hdiffers,
    if_false, bind, Except.bind]
  rfl

/-- A member that is due already is not renewed when it is handed on again. A caller of it that has no
body before the metadata is packed anew has one behind, and stays. -/
theorem caller_outlives_handed : ∃ s₁ s₂ s₃,
    ∃ r : Rewriting marking s₁.ledger.expire latentBetween,
    (run marking "A.class" latentBefore.bytes).run {} = .ok (.modified latentBetween.bytes) s₁ ∧
      (run marking "A.class" latentBetween.bytes).run s₁ = .ok (.modified latentAfter.bytes) s₂ ∧
      (run marking "A.class" latentAfter.bytes).run s₂ = .ok .unchanged s₃ ∧
      r.last = s₂.ledger ∧ r.Hands latentSetter ∧
      ClassFile.ofBytes latentAfter.bytes = .ok latentAfter ∧ latentCaller ∈ latentAfter.methods ∧
      ∃ m, latentCaller.resolve latentAfter.pool = .ok m ∧
        ¬ Exempt marking latentAfter.pool latentCaller s₂.ledger.expire m ∧
        ∃ i t, Refers latentAfter.pool [] latentCaller i (.invoke t) ∧ t.owner = "A" ∧
          t.toSignature = latentSetter.toSignature := by
  obtain ⟨hbefore, hbetween, hafter⟩ := latent_ofBytes
  obtain ⟨hmethods₁, hmethods₂, hmethods₃⟩ := methods_latent
  obtain ⟨hmetadata₁, hmetadata₂, hmetadata₃⟩ := replacements_latent
  have hdistinct {c c' : ClassFile} (hc : ClassFile.ofBytes c.bytes = .ok c)
      (hc' : ClassFile.ofBytes c'.bytes = .ok c') (hne : c.methods ≠ c'.methods) :
      c.bytes ≠ c'.bytes := fun h =>
    hne (congrArg ClassFile.methods (Except.ok.inj (hc.symm.trans (h ▸ hc'))))
  let r₁ : Rewriting marking (⟨{}, {}⟩ : Ledger) latentBefore :=
    latentRewriting [latentGetter, latentCaller] chunks_latent rfl hmethods₁ hmetadata₁ rfl
  obtain ⟨s₁, hrun₁, hlast₁⟩ := modified_of_rewriting (s := {}) hbefore "A.class" r₁ rfl
    (hdistinct hbetween hbefore (show [latentGetter, latentCaller] ≠ latentMethods by decide))
  let r₂ : Rewriting marking latentFirst.expire latentBetween :=
    latentRewriting [latentCaller] chunks_latent rfl hmethods₂ hmetadata₂.metadata_eq
      replaceAll_latent
  obtain ⟨r₂, hlast, hhands, hresult, hchanged⟩ :
      ∃ r : Rewriting marking s₁.ledger.expire latentBetween,
      r.last = latentSecond.schedule latentChanges ∧ r.Hands latentSetter ∧
      r.result = latentAfter ∧ r.changed = true := by
    rw [hlast₁]
    refine ⟨r₂, rfl, ?_, rfl, rfl⟩
    exact .record rfl hmetadata₂.toDescribed hmetadata₂.swept hmetadata₂.lost (by decide)
  obtain ⟨s₂, hrun₂, hlast₂⟩ := modified_of_rewriting (s := s₁) hbetween "A.class" r₂ hchanged
    (hresult ▸ hdistinct hafter hbetween
      (show [latentCaller] ≠ [latentGetter, latentCaller] by decide))
  have hledger₂ : s₂.ledger = latentSecond.schedule latentChanges := hlast₂.trans hlast
  obtain ⟨r₃, hresult₃⟩ :
      ∃ r : Rewriting marking s₂.ledger.expire latentAfter, r.result = latentAfter := by
    rw [hledger₂]
    exact ⟨latentRewriting [latentCaller] (by decide) rfl hmethods₃ hmetadata₃ rfl, rfl⟩
  obtain ⟨s₃, hrun₃, -⟩ := unchanged_of_rewriting (s := s₂) hafter "A.class" r₃ hresult₃
  refine ⟨s₁, s₂, s₃, r₂, hrun₁, hresult ▸ hrun₂, hrun₃, hlast₂.symm, hhands, hafter,
    List.mem_singleton_self _, ⟨⟨"h", "()V"⟩, 1⟩, ?_, ?_, _, _, refers_latent filledText, rfl, rfl⟩
  · show latentCaller.resolve (latentPool [filledText, "Code"]) = _
    generalize filledText = text
    with_unfolding_all rfl
  · have hmarked (text : String) : ∀ a ∈ latentCaller.attributes,
        a.isAnnotations (latentPool [text, "Code"]) = false := fun a ha => by
      obtain rfl := List.mem_singleton.1 ha
      with_unfolding_all rfl
    rw [hledger₂]
    rintro (hstubbed | ⟨-, e, d, ⟨a, ha, htable, -⟩, -⟩)
    · exact absurd hstubbed (by decide)
    · exact absurd ((hmarked filledText a ha).symm.trans htable) nofun

end

end Pass

end JarPruning
