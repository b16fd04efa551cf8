import JarPruning.ClassFile.Walk
import JarPruning.Proofs.ClassFile.Growth

/-!
What a walk is answered. A visitor answers from a state that every report may change, so what it
decides is told by the list of all reports of a walk, each with the answer it got.
-/
namespace JarPruning

variable {ε δ σ α β : Type}

/-- A report to a visitor, with the answer where there is one. -/
inductive Answered where
  | header (h : ClassHeader)
  | annotationOnClass (descriptor : String) (a : AnnotationEntry) (answer : Disposition)
  | outerClass (link : OuterLink)
  | innerClass (link : InnerLink) (answer : Disposition)
  | classReference (kind : ReferenceKind) (name : String) (answer : Disposition)
  | field (f : Member)
  | annotationOnField (f : Member) (descriptor : String) (answer : Disposition)
  | fieldEnd (f : Member) (answer : Disposition)
  | method (m : Member)
  | annotationOnMethod (m : Member) (descriptor : String) (answer : Disposition)
  | code (m : Member) (answer : Bool)
  | invoke (m : Member) (opcode : UInt8) (target : MemberRef)
  | access (m : Member) (opcode : UInt8) (target : MemberRef) (answer : Option (Vector UInt8 3))
  | invokeDynamic (m : Member) (handles : List HandleRef)
  | methodEnd (m : Member) (answer : MethodDisposition)

namespace Visitor

/-- In the state `s` the visitor gives the answer to the report, and is in the state `t` then. -/
def Gives (v : Visitor σ) (s t : σ) : Answered → Prop
  | .header h => (v.header h).run s = ((), t)
  | .annotationOnClass d a answer => (v.annotationOnClass d a).run s = (answer, t)
  | .outerClass link => (v.outerClass link).run s = ((), t)
  | .innerClass link answer => (v.innerClass link).run s = (answer, t)
  | .classReference kind name answer => (v.classReference kind name).run s = (answer, t)
  | .field f => (v.field f).run s = ((), t)
  | .annotationOnField f d answer => (v.annotationOnField f d).run s = (answer, t)
  | .fieldEnd f answer => (v.fieldEnd f).run s = (answer, t)
  | .method m => (v.method m).run s = ((), t)
  | .annotationOnMethod m d answer => (v.annotationOnMethod m d).run s = (answer, t)
  | .code m answer => (v.code m).run s = (answer, t)
  | .invoke m op target => (v.invoke m op target).run s = ((), t)
  | .access m op target answer => (v.access m op target).run s = (answer, t)
  | .invokeDynamic m hs => (v.invokeDynamic m hs).run s = ((), t)
  | .methodEnd m answer => (v.methodEnd m).run s = (answer, t)

/-- The visitor gives all these answers, one after another. -/
inductive GivesAll (v : Visitor σ) : List Answered → σ → σ → Prop
  | nil {s : σ} : GivesAll v [] s s
  | cons {r : Answered} {rs : List Answered} {s t u : σ} (first : v.Gives s t r)
    (rest : GivesAll v rs t u) : GivesAll v (r :: rs) s u

/-- The end puts constants behind those that are there, and does nothing else to them. -/
def Appends (v : Visitor σ) : Prop :=
  ∀ ⦃p s r t⦄, (v.finish p).run s = .ok r t → p.entries.toList <+: r.2.entries.toList

theorem GivesAll.append {v : Visitor σ} {rs rs' : List Answered} {s t u : σ}
    (h : v.GivesAll rs s t) (h' : v.GivesAll rs' t u) : v.GivesAll (rs ++ rs') s u := by
  induction h with
  | nil => exact h'
  | cons hfirst _ ih => exact .cons hfirst (ih h')

end Visitor

/-- A run that begins with a computation without a state. -/
theorem run_check_bind_ok {c : Except ε α} {f : α → EStateM ε σ β} {s t : σ} {b : β}
    (h : (Walk.check c >>= f).run s = .ok b t) : ∃ a, c = .ok a ∧ (f a).run s = .ok b t := by
  cases c with
  | error e => cases h
  | ok a => exact ⟨a, rfl, h⟩

/-- Where `x` succeeds, the visitor was asked for a list of answers; `post` ties these to the
result. -/
def Asks (v : Visitor σ) (x : EStateM ε σ α) (post : List Answered → α → Prop) : Prop :=
  ∀ ⦃s a t⦄, x.run s = .ok a t → ∃ rs, v.GivesAll rs s t ∧ post rs a

namespace Asks

variable {v : Visitor σ} {post : List Answered → α → Prop} {post' : List Answered → β → Prop}

theorem pure {a : α} (h : post [] a) : Asks (ε := ε) v (Pure.pure a) post := by
  intro s b t hrun
  cases hrun
  exact ⟨[], .nil, h⟩

theorem bind {x : EStateM ε σ α} {f : α → EStateM ε σ β} (h : Asks v x post)
    (hf : ∀ rs a, post rs a → Asks v (f a) fun rs' b => post' (rs ++ rs') b) :
    Asks v (x >>= f) post' := by
  intro s b u hrun
  obtain ⟨a, t, hx, hrun⟩ := run_bind_ok hrun
  obtain ⟨rs, hrs, hpost⟩ := h hx
  obtain ⟨rs', hrs', hpost'⟩ := hf rs a hpost hrun
  exact ⟨rs ++ rs', hrs.append hrs', hpost'⟩

/-- A step that asks nothing. -/
theorem check {c : Except ε α} {f : α → EStateM ε σ β}
    (hf : ∀ a, c = .ok a → Asks v (f a) post') : Asks v (Walk.check c >>= f) post' := by
  cases c with
  | error e =>
    intro s b t hrun
    cases hrun
  | ok a => exact hf a rfl

/-- A step that makes one report. -/
theorem visit {x : StateM σ α} {f : α → EStateM ε σ β} (report : α → Answered)
    (hx : ∀ s, v.Gives s (x.run s).2 (report (x.run s).1))
    (hf : ∀ a, Asks v (f a) fun rs b => post' (report a :: rs) b) :
    Asks v (Walk.visit x >>= f) post' := by
  intro s b t hrun
  obtain ⟨rs, hrs, hpost⟩ := hf (x.run s).1 hrun
  exact ⟨_, .cons (hx s) hrs, hpost⟩

theorem mono {x : EStateM ε σ α} {weaker : List Answered → α → Prop} (h : Asks v x post)
    (hpost : ∀ rs a, post rs a → weaker rs a) : Asks v x weaker := by
  intro s a t hrun
  obtain ⟨rs, hrs, hp⟩ := h hrun
  exact ⟨rs, hrs, hpost rs a hp⟩

theorem of_adapt {x : EStateM ε σ α} {f : ε → δ} (h : Asks v x post) :
    Asks v (x.adaptExcept f) post := by
  intro s a t hrun
  cases hx : x.run s with
  | error e u =>
    simp only [EStateM.run] at hx
    simp [EStateM.run, EStateM.adaptExcept, hx] at hrun
  | ok b u =>
    have hsame : (EStateM.Result.ok b u : EStateM.Result δ σ α) = .ok a t := by
      rw [← hrun]
      simp only [EStateM.run] at hx
      simp only [EStateM.run, EStateM.adaptExcept, hx]
    cases hsame
    exact h hx

end Asks

/-- Lists in which each item was handled on its own: what was asked, what came of it, if anything
did, and whether that counts as a change. -/
inductive Each (handled : α → List Answered → Option β → Bool → Prop) :
    List α → List Answered → List β → Bool → Prop
  | nil : Each handled [] [] [] false
  | cons {a : α} {as : List α} {rs rs' : List Answered} {b? : Option β} {bs : List β}
    {changed later : Bool} (first : handled a rs b? changed) (rest : Each handled as rs' bs later) :
    Each handled (a :: as) (rs ++ rs') (b?.toList ++ bs) (changed || later)

namespace Each

variable {R : α → List Answered → Option β → Bool → Prop}

/-- A loop handles each item as its step does. -/
theorem of_loop {v : Visitor σ} (step : α → EStateM ε σ (Option β × Bool))
    {loop : List α → EStateM ε σ (List β × Bool)} (hnil : loop [] = pure ([], false))
    (hcons : ∀ a as, loop (a :: as) = do
      let (b?, changed) ← step a
      let (bs, later) ← loop as
      return (b?.toList ++ bs, changed || later))
    (hstep : ∀ a, Asks v (step a) fun rs r => R a rs r.1 r.2) (as : List α) :
    Asks v (loop as) fun rs r => Each R as rs r.1 r.2 := by
  induction as with
  | nil =>
    rw [hnil]
    exact .pure .nil
  | cons a as ih =>
    rw [hcons]
    apply (hstep a).bind
    intro rs b hb
    apply ih.bind
    intro rs' bs hbs
    apply Asks.pure
    rw [List.append_nil]
    exact .cons hb hbs

theorem eq_of_unchanged {R : α → List Answered → Option α → Bool → Prop} {as bs : List α}
    {rs : List Answered} {changed : Bool} (h : Each R as rs bs changed) (hchanged : changed = false)
    (hR : ∀ a rs b? changed, R a rs b? changed → changed = false → b? = some a) : bs = as := by
  induction h with
  | nil => rfl
  | cons hfirst _ ih =>
    obtain ⟨hone, hlater⟩ := Bool.or_eq_false_iff.1 hchanged
    rw [hR _ _ _ _ hfirst hone, ih hlater]
    rfl

end Each

end JarPruning
