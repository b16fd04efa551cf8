import JarPruning.ClassFile.Walk

/-!
What a walk keeps of its visitor's state. A property that every report keeps holds at the end of a
walk, and also where it fails.
-/
namespace JarPruning

variable {ε δ σ α β : Type}

/-- Whatever holds of the state before a run holds of it at the end, however it ends. -/
def Keeps (P : σ → Prop) (x : EStateM ε σ α) : Prop :=
  ∀ s, P s → match x.run s with
    | .ok _ s' => P s'
    | .error _ s' => P s'

/-- A step that cannot fail keeps a property of the state. -/
def KeepsAlways (P : σ → Prop) (x : StateM σ α) : Prop := ∀ s, P s → P (x.run s).2

namespace KeepsAlways

variable {P : σ → Prop}

theorem pure (a : α) : KeepsAlways P (Pure.pure a : StateM σ α) := fun _ h => h

theorem bind {x : StateM σ α} {f : α → StateM σ β} (hx : KeepsAlways P x)
    (hf : ∀ a, KeepsAlways P (f a)) : KeepsAlways P (x >>= f) :=
  fun s hs => hf _ _ (hx s hs)

theorem get {f : σ → StateM σ α} (hf : ∀ s, KeepsAlways P (f s)) :
    KeepsAlways P (MonadState.get >>= f) := fun s hs => hf s s hs

theorem modified {f : σ → σ} (h : ∀ s, P s → P (f s)) :
    KeepsAlways P (modify f : StateM σ Unit) := fun s hs => h s hs

end KeepsAlways

namespace Keeps

variable {P : σ → Prop}

theorem pure (a : α) : Keeps P (Pure.pure a : EStateM ε σ α) := fun _ h => h

theorem throw (e : ε) : Keeps P (MonadExcept.throw e : EStateM ε σ α) := fun _ h => h

theorem bind {x : EStateM ε σ α} {f : α → EStateM ε σ β} (hx : Keeps P x)
    (hf : ∀ a, Keeps P (f a)) : Keeps P (x >>= f) := by
  intro s hs
  have hxs := hx s hs
  simp only [EStateM.run, Bind.bind, EStateM.bind] at hxs ⊢
  cases hrun : x s with
  | error e s' =>
    rw [hrun] at hxs
    exact hxs
  | ok a s' =>
    rw [hrun] at hxs
    exact hf a s' hxs

theorem check (c : Except ε α) : Keeps P (Walk.check c : EStateM ε σ α) := by
  cases c with
  | error e => exact .throw e
  | ok a => exact .pure a

theorem visit {x : StateM σ α} (h : KeepsAlways P x) : Keeps P (Walk.visit x : EStateM ε σ α) :=
  fun s hs => h s hs

theorem get {f : σ → EStateM ε σ α} (hf : ∀ s, Keeps P (f s)) :
    Keeps P (MonadState.get >>= f) := fun s hs => hf s s hs

theorem adapt {x : EStateM ε σ α} (h : Keeps P x) (f : ε → δ) : Keeps P (x.adaptExcept f) := by
  intro s hs
  have hxs := h s hs
  simp only [EStateM.run, EStateM.adaptExcept] at hxs ⊢
  cases hrun : x s <;> rw [hrun] at hxs <;> exact hxs

theorem ite {x y : EStateM ε σ α} {c : Prop} [Decidable c] (hx : Keeps P x) (hy : Keeps P y) :
    Keeps P (if c then x else y) := by
  split
  · exact hx
  · exact hy

end Keeps

/-- Every report to the visitor keeps the property. -/
structure Visitor.Keeps (P : σ → Prop) (v : Visitor σ) : Prop where
  header : ∀ h, KeepsAlways P (v.header h)
  annotationOnClass : ∀ d a, KeepsAlways P (v.annotationOnClass d a)
  outerClass : ∀ link, KeepsAlways P (v.outerClass link)
  innerClass : ∀ link, KeepsAlways P (v.innerClass link)
  classReference : ∀ kind name, KeepsAlways P (v.classReference kind name)
  field : ∀ f, KeepsAlways P (v.field f)
  annotationOnField : ∀ f d, KeepsAlways P (v.annotationOnField f d)
  fieldEnd : ∀ f, KeepsAlways P (v.fieldEnd f)
  method : ∀ m, KeepsAlways P (v.method m)
  annotationOnMethod : ∀ m d, KeepsAlways P (v.annotationOnMethod m d)
  code : ∀ m, KeepsAlways P (v.code m)
  invoke : ∀ m op t, KeepsAlways P (v.invoke m op t)
  access : ∀ m op t, KeepsAlways P (v.access m op t)
  invokeDynamic : ∀ m hs, KeepsAlways P (v.invokeDynamic m hs)
  methodEnd : ∀ m, KeepsAlways P (v.methodEnd m)
  finish : ∀ pool, JarPruning.Keeps P (v.finish pool)

namespace Walk

variable {P : σ → Prop} {v : Visitor σ}

theorem retain_keeps {ask : α → Step σ Disposition} (h : ∀ a, Keeps P (ask a)) (as : List α) :
    Keeps P (retain ask as) := by
  induction as with
  | nil => exact .pure _
  | cons a as ih => exact (h a).bind fun _ => ih.bind fun _ => .pure _

theorem retainRead_keeps (read : Reader α) {ask : α → StateM σ Disposition}
    (h : ∀ a, KeepsAlways P (ask a)) (count : Nat) (cursor : Cursor) :
    Keeps P (retainRead read ask count cursor) := by
  induction count generalizing cursor with
  | zero => exact .pure _
  | succ count ih =>
    exact (Keeps.check _).bind fun b => (Keeps.visit (h b.1)).bind fun _ =>
      (ih b.2).bind fun _ => .pure _

theorem annotationTables_keeps (pool : ConstantPool)
    {decide : String → AnnotationEntry → StateM σ Disposition}
    (h : ∀ d a, KeepsAlways P (decide d a)) (as : List Attribute) :
    Keeps P (annotationTables pool decide as) := by
  have htable (a : Attribute) : Keeps P (annotationTable pool decide a) :=
    (Keeps.check _).bind fun _ =>
      (retain_keeps (fun e => (Keeps.check _).bind fun d => Keeps.visit (h d e)) _).bind
        fun _ => .pure _
  induction as with
  | nil => exact .pure _
  | cons a as ih =>
    unfold annotationTables
    split
    · exact (htable a).bind fun _ => ih.bind fun _ => .pure _
    · exact ih.bind fun _ => .pure _

theorem rowTable_keeps (read : Reader (Row α)) {ask : α → StateM σ Disposition}
    (h : ∀ a, KeepsAlways P (ask a)) (a : Attribute) : Keeps P (rowTable read ask a) :=
  (Keeps.check _).bind fun _ =>
    (retainRead_keeps read (fun row => h row.value) _ _).bind fun _ => .pure _

theorem link_keeps (hv : v.Keeps P) (pool : ConstantPool) (a : Attribute) :
    Keeps P (link v pool a) := by
  refine (Keeps.check _).bind fun name => ?_
  refine .ite ((Keeps.check _).bind fun o => (Keeps.visit (hv.outerClass o)).bind fun _ => .pure _) ?_
  refine .ite (rowTable_keeps _ hv.innerClass a) ?_
  refine .ite ((Keeps.check _).bind fun h =>
    (Keeps.visit (hv.classReference .nestHost h.value)).bind fun _ => .pure _) ?_
  refine .ite (rowTable_keeps _ (hv.classReference .nestMember) a) ?_
  exact .ite (rowTable_keeps _ (hv.classReference .permittedSubclass) a) (.pure _)

theorem links_keeps (hv : v.Keeps P) (pool : ConstantPool) (as : List Attribute) :
    Keeps P (links v pool as) := by
  induction as with
  | nil => exact .pure _
  | cons a as ih => exact (link_keeps hv pool a).bind fun _ => ih.bind fun _ => .pure _

theorem field_keeps (hv : v.Keeps P) (pool : ConstantPool) (entry : MemberEntry) :
    Keeps P (field v pool entry) := by
  refine (Keeps.check _).bind fun member => (Keeps.visit (hv.field member)).bind fun _ => ?_
  refine (annotationTables_keeps pool (fun d _ => hv.annotationOnField member d) _).bind
    fun _ => ?_
  refine (Keeps.visit (hv.fieldEnd member)).bind fun answer => ?_
  cases answer <;> exact .pure _

theorem fields_keeps (hv : v.Keeps P) (pool : ConstantPool) (fs : List MemberEntry) :
    Keeps P (fields v pool fs) := by
  induction fs with
  | nil => exact .pure _
  | cons f fs ih => exact (field_keeps hv pool f).bind fun _ => ih.bind fun _ => .pure _

theorem instruction_keeps (hv : v.Keeps P) (pool : ConstantPool) (bootstraps : List Bootstrap)
    (member : Member) (i : Instruction) : Keeps P (instruction v pool bootstraps member i) := by
  refine .ite ((Keeps.check _).bind fun t =>
    (Keeps.visit (hv.access member i.opcode t)).bind fun _ => .pure _) ?_
  refine .ite ((Keeps.check _).bind fun t =>
    (Keeps.visit (hv.invoke member i.opcode t)).bind fun _ => .pure _) ?_
  exact .ite ((Keeps.check _).bind fun hs =>
    (Keeps.visit (hv.invokeDynamic member hs)).bind fun _ => .pure _) (.pure _)

theorem instructions_keeps (hv : v.Keeps P) (pool : ConstantPool) (bootstraps : List Bootstrap)
    (member : Member) (is : List Instruction) :
    Keeps P (instructions v pool bootstraps member is) := by
  induction is with
  | nil => exact .pure _
  | cons i is ih =>
    exact (instruction_keeps hv pool bootstraps member i).bind fun _ => ih.bind fun _ => .pure _

theorem body_keeps (hv : v.Keeps P) (pool : ConstantPool) (bootstraps : List Bootstrap)
    (member : Member) (payload : List UInt8) : Keeps P (body v pool bootstraps member payload) := by
  refine (Keeps.visit (hv.code member)).bind fun walked => .ite ?_ (.pure _)
  exact (Keeps.check _).bind fun scanned => instructions_keeps hv pool bootstraps member scanned

/-- What a walk does with a method once it has seen all of it. -/
theorem methodEnd_keeps (hv : v.Keeps P) (member : Member) (patches : List Patch)
    (code : Option Nat) (entry : MemberEntry) (stripped : Bool) :
    Keeps P (do
      match ← visit (v.methodEnd member) with
      | .delete => return (none, true)
      | .stub => return (some ⟨entry, code⟩, code.isSome || stripped)
      | .keep =>
        match code with
        | some position =>
          return (some ⟨editPayload position (applyPatches · patches) entry, none⟩,
            !patches.isEmpty || stripped)
        | none => return (some ⟨entry, none⟩, stripped) : Step σ (Option KeptMethod × Bool)) := by
  refine (Keeps.visit (hv.methodEnd member)).bind fun answer => ?_
  cases answer with
  | delete => exact .pure _
  | stub => exact .pure _
  | keep => cases code <;> exact .pure _

theorem method_keeps (hv : v.Keeps P) (pool : ConstantPool) (bootstraps : List Bootstrap)
    (entry : MemberEntry) : Keeps P (method v pool bootstraps entry) := by
  refine (Keeps.check _).bind fun member => (Keeps.visit (hv.method member)).bind fun _ => ?_
  refine (annotationTables_keeps pool (fun d _ => hv.annotationOnMethod member d) _).bind
    fun kept => ?_
  dsimp only
  split
  · exact (body_keeps hv pool bootstraps member _).bind fun _ => methodEnd_keeps hv member _ _ _ _
  · exact (Keeps.pure _).bind fun _ => methodEnd_keeps hv member _ _ _ _

theorem methods_keeps (hv : v.Keeps P) (pool : ConstantPool) (bootstraps : List Bootstrap)
    (ms : List MemberEntry) : Keeps P (methods v pool bootstraps ms) := by
  induction ms with
  | nil => exact .pure _
  | cons m ms ih =>
    exact (method_keeps hv pool bootstraps m).bind fun _ => ih.bind fun _ => .pure _

theorem finish_keeps (hv : v.Keeps P) (name : String) (c : ClassFile) (methods : List KeptMethod)
    (changed : Bool) : Keeps P (finish v name c methods changed) := by
  unfold finish
  split
  · exact .throw _
  · refine (hv.finish _).bind fun _ => .get fun s => ?_
    split
    · exact .pure _
    · exact (Keeps.check _).bind fun _ => .pure _

/-- A walk keeps what its visitor keeps. -/
theorem run_keeps (hv : v.Keeps P) (c : ClassFile) : Keeps P (run v c) := by
  refine (Keeps.check _).bind fun name => (Keeps.check _).bind fun h =>
    (Keeps.visit (hv.header h)).bind fun _ => ?_
  refine ((annotationTables_keeps c.pool hv.annotationOnClass _).adapt _).bind fun _ => .get fun s => ?_
  split
  · exact .pure _
  refine ((links_keeps hv c.pool _).adapt _).bind fun _ => .get fun s => ?_
  split
  · exact .pure _
  refine (Keeps.adapt ?_ _).bind fun _ => finish_keeps hv _ _ _ _
  exact (fields_keeps hv _ _).bind fun _ => (Keeps.check _).bind fun _ =>
    (methods_keeps hv _ _ _).bind fun _ => .pure _

end Walk

end JarPruning
