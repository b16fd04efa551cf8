import JarPruning.Proofs.Keeps
import JarPruning.Proofs.Pass.Closed
import JarPruning.Proofs.Pass.Settling

/-!
Budgets that are used up show in the log. Nothing but a run of passes that ends while its class is
still changing is reported as such, so a run with a budget beyond the weight of its archive reports
none.
-/
namespace JarPruning

/-- Whether a run of passes is reported to have used up its budget. -/
def LogEvent.isStillChanging : LogEvent → Bool
  | .classStillChanging _ _ => true
  | _ => false

/-- The reports of classes that were still changing. -/
def stillChanging (log : Array LogEvent) : List LogEvent := log.toList.filter (·.isStillChanging)

theorem stillChanging_push (log : Array LogEvent) {e : LogEvent} (h : e.isStillChanging = false) :
    stillChanging (log.push e) = stillChanging log := by
  simp [stillChanging, h]

namespace Pruner

variable {policy : Policy} {reports : List LogEvent}

/-- These are the reports so far. -/
def Reported (reports : List LogEvent) (s : State) : Prop := stillChanging s.log = reports

theorem Reported.push {s : State} (h : Reported reports s) {e : LogEvent}
    (he : e.isStillChanging = false) : stillChanging (s.log.push e) = reports :=
  (stillChanging_push s.log he).trans h

theorem logAll_keeps (events : List LogEvent) (h : ∀ e ∈ events, e.isStillChanging = false) :
    KeepsAlways (Reported reports) (logAll events) := by
  intro s hs
  show stillChanging (events.foldl Array.push s.log) = reports
  have hlog : stillChanging s.log = reports := hs
  clear hs
  generalize s.log = log at hlog
  induction events generalizing log with
  | nil => exact hlog
  | cons e events ih =>
    exact ih (fun e he => h e (List.mem_cons_of_mem _ he)) (log.push e)
      ((stillChanging_push log (h e (List.mem_cons_self ..))).trans hlog)

theorem pruneMetadata_keeps (pool : ConstantPool) (a : AnnotationEntry) :
    Keeps (Reported reports) (pruneMetadata pool a) := by
  refine .get fun s => (Keeps.check _).bind fun parts => ?_
  obtain ⟨kind, d1, d2⟩ := parts
  dsimp only
  split
  · refine (Keeps.visit fun s hs => ?_).bind fun _ => .pure _
    cases kind <;> exact Reported.push hs rfl
  split
  · exact .pure _
  refine (Keeps.check _).bind fun swept => ?_
  refine (Keeps.visit (logAll_keeps _ ?_)).bind fun _ => ?_
  · intro e he
    obtain ⟨m, -, rfl⟩ := List.mem_map.1 he
    rfl
  split
  · exact .pure _
  refine (Keeps.visit (logAll_keeps _ ?_)).bind fun _ => ?_
  · intro e he
    obtain ⟨m, -, rfl⟩ := List.mem_map.1 he
    rfl
  refine (Keeps.visit (x := schedule swept.2) fun s hs => hs).bind fun _ => ?_
  split
  · exact .pure _
  · exact .throw _

theorem log_keeps {e : LogEvent} (he : e.isStillChanging = false) :
    KeepsAlways (Reported reports) (log e) := .modified fun _ hs => hs.push he

theorem header_keeps (h : ClassHeader) : KeepsAlways (Reported reports) (header h) := by
  refine .bind (.modified fun _ hs => hs) fun _ => .get fun s => ?_
  dsimp only
  split
  · exact .modified fun _ hs => hs
  split
  · exact .bind (log_keeps rfl) fun _ => .modified fun _ hs => hs
  · exact .pure _

theorem annotationOnClass_keeps (d : String) (a : AnnotationEntry) :
    KeepsAlways (Reported reports) (annotationOnClass policy d a) := by
  refine .get fun s => ?_
  split
  · exact .bind (.modified fun _ hs => hs) fun _ => .pure _
  split
  · exact .bind (.modified fun _ hs => hs) fun _ => .pure _
  · exact .bind (log_keeps rfl) fun _ => .pure _
  · exact .bind (log_keeps rfl) fun _ => .pure _
  · exact .pure _

theorem outerClass_keeps (link : OuterLink) :
    KeepsAlways (Reported reports) (outerClass link) := by
  refine .get fun s => ?_
  split
  · exact .bind (log_keeps rfl) fun _ => .modified fun _ hs => hs
  · exact .pure _

theorem innerClass_keeps (link : InnerLink) :
    KeepsAlways (Reported reports) (innerClass link) := by
  refine .get fun s => ?_
  split
  · split
    · exact .bind (.modified fun _ hs => hs) fun _ => .pure _
    · exact .pure _
  split
  · exact .bind (log_keeps rfl) fun _ => .pure _
  · exact .pure _

theorem classReference_keeps (kind : ReferenceKind) (name : String) :
    KeepsAlways (Reported reports) (classReference kind name) := by
  refine .get fun s => ?_
  split
  · cases kind with
    | nestHost => exact .bind (.modified fun _ hs => hs) fun _ => .pure _
    | nestMember => exact .pure _
    | permittedSubclass => exact .pure _
  · exact .pure _

theorem annotationOnField_keeps (f : Member) (d : String) :
    KeepsAlways (Reported reports) (annotationOnField policy f d) := by
  refine .get fun s => ?_
  split
  · exact .bind (.modified fun _ hs => hs) fun _ => .pure _
  · exact .bind (log_keeps rfl) fun _ => .pure _
  · exact .bind (log_keeps rfl) fun _ => .pure _
  · exact .pure _

theorem fieldEnd_keeps (f : Member) : KeepsAlways (Reported reports) (fieldEnd f) := by
  refine .get fun s => ?_
  split
  · exact .bind (log_keeps rfl) fun _ => .bind (.modified fun _ hs => hs) fun _ => .pure _
  · exact .pure _

theorem annotationOnMethod_keeps (m : Member) (d : String) :
    KeepsAlways (Reported reports) (annotationOnMethod policy m d) := by
  refine .get fun s => ?_
  split
  · exact .bind (.modified fun _ hs => hs) fun _ => .pure _
  · split
    · split
      · exact .bind (log_keeps rfl) fun _ => .pure _
      · exact .bind (.modified fun _ hs => hs) fun _ => .pure _
    · exact .pure _
  · exact .bind (log_keeps rfl) fun _ => .pure _
  · exact .pure _

theorem deleteCaller_keeps (m : Member) (reference : Reference) :
    KeepsAlways (Reported reports) (deleteCaller m reference) := by
  refine .get fun s => ?_
  split
  · exact .bind (log_keeps rfl) fun _ => .modified fun _ hs => hs
  · exact .pure _

theorem access_keeps (m : Member) (op : UInt8) (target : MemberRef) :
    KeepsAlways (Reported reports) (access m op target) := by
  refine .get fun s => ?_
  split
  · split
    · exact .bind (log_keeps rfl) fun _ => .pure _
    · exact (deleteCaller_keeps m _).bind fun _ => .pure _
  · exact .pure _

theorem methodEnd_keeps (m : Member) : KeepsAlways (Reported reports) (methodEnd m) := by
  refine .get fun s => ?_
  split
  · refine .bind (.modified fun _ hs => hs) fun _ => ?_
    have hcompanion : KeepsAlways (Reported reports) (scheduleCompanion m) := by
      unfold scheduleCompanion
      split
      · exact .modified fun _ hs => hs
      · exact log_keeps rfl
    exact hcompanion.bind fun _ => (log_keeps rfl).bind fun _ =>
      .bind (.modified fun _ hs => hs) fun _ => .pure _
  · exact .bind (log_keeps rfl) fun _ => .bind (.modified fun _ hs => hs) fun _ => .pure _
  · exact .pure _
  · exact .pure _

/-- Nothing that a pass reports is a class that is still changing. -/
theorem visitor_keeps (policy : Policy) (reports : List LogEvent) :
    (visitor policy).Keeps (Reported reports) where
  header := header_keeps
  annotationOnClass := annotationOnClass_keeps
  outerClass := outerClass_keeps
  innerClass := innerClass_keeps
  classReference := classReference_keeps
  field _ := .modified fun _ hs => hs
  annotationOnField := annotationOnField_keeps
  fieldEnd := fieldEnd_keeps
  method _ := .modified fun _ hs => hs
  annotationOnMethod := annotationOnMethod_keeps
  code _ := .get fun _ => .pure _
  invoke m _ target := by
    refine .get fun s => ?_
    split
    · exact deleteCaller_keeps m _
    · exact .pure _
  access := access_keeps
  invokeDynamic m handles := by
    refine .get fun s => ?_
    split
    · exact deleteCaller_keeps m _
    · exact .pure _
  methodEnd := methodEnd_keeps
  finish pool := by
    refine .get fun s => ?_
    split
    · split
      · exact .pure _
      · exact pruneMetadata_keeps pool _
    · exact .pure _

end Pruner

/-- A run that adds these reports to the log. -/
def SessionReported (reports : List LogEvent) (s : Session) : Prop := stillChanging s.log = reports

def WorldReported (reports : List LogEvent) (w : World) : Prop := stillChanging w.log = reports

namespace Pass

variable {policy : Policy} {reports : List LogEvent}

theorem recordClass_reported {s : Session} (h : SessionReported reports s) (name : String) :
    SessionReported reports (recordClass s name) := by
  unfold recordClass SessionReported
  dsimp only
  split
  · exact (stillChanging_push s.log rfl).trans h
  · exact h

theorem run_keeps (policy : Policy) (entry : String) (bytes : List UInt8) :
    Keeps (SessionReported reports) (run policy entry bytes) := by
  intro s hs
  have hwalk (c : ClassFile) := Walk.run_keeps (Pruner.visitor_keeps policy reports) c
    { s with memory := s.memory.expire } hs
  simp only [run, EStateM.run] at hwalk ⊢
  cases ClassFile.ofBytes bytes with
  | error fault => exact hs
  | ok c =>
    have hwalk := hwalk c
    dsimp only
    cases hrun : Walk.run (Pruner.visitor policy) c
        { toSession := { s with memory := s.memory.expire } } with
    | error e t =>
      rw [hrun] at hwalk
      exact hwalk
    | ok out t =>
      rw [hrun] at hwalk
      cases out with
      | discarded => exact recordClass_reported hwalk t.className
      | rewritten c' changed => exact hwalk

theorem settle_keeps (policy : Policy) (entry : String) (budget done : Nat) (bytes : List UInt8) :
    Keeps (SessionReported reports) (settle policy entry budget done bytes) := by
  induction budget generalizing done bytes with
  | zero => exact .pure _
  | succ budget ih =>
    refine (run_keeps policy entry bytes).bind fun out => ?_
    cases out with
    | unwanted => exact .pure _
    | unchanged => exact .pure _
    | modified bytes => exact ih (done + 1) bytes

/-- A run of passes that ends stable is not reported. -/
theorem runAll_reported (policy : Policy) (maxPasses : Nat) (entry : String) (bytes : List UInt8)
    {s : Session} (hs : SessionReported reports s)
    (hstable : ∀ l r, Prune.settle policy entry maxPasses 0 bytes s.ledger = .ok (l, some r) →
      r.stable = true) :
    match (runAll policy maxPasses entry bytes).run s with
    | .ok _ s' => SessionReported reports s'
    | .error _ s' => SessionReported reports s' := by
  have hsettle := settle_keeps policy entry maxPasses 0 bytes s hs
  have hfollows := settle_follows policy entry maxPasses 0 bytes s
  simp only [runAll, EStateM.run, bind, EStateM.bind] at hsettle hfollows ⊢
  cases hrun : settle policy entry maxPasses 0 bytes s with
  | error e t =>
    rw [hrun] at hsettle
    exact hsettle
  | ok r? t =>
    rw [hrun] at hsettle
    obtain ⟨⟨l, _⟩, hpure, rfl, -⟩ := hfollows.of_ok hrun
    cases r? with
    | none => exact hsettle
    | some r =>
      simp only [hstable l r hpure, if_true]
      cases r.isRewritten with
      | true => exact (stillChanging_push t.log rfl).trans hsettle
      | false => exact hsettle

end Pass

namespace Sweep

variable {settings : Settings} {reports : List LogEvent}

/-- How a run over an archive ends: with these reports, whether it fails or not. -/
def EndsReported {α : Type} (reports : List LogEvent) : EStateM.Result ClassFailure World α → Prop
  | .ok _ w => WorldReported reports w
  | .error _ w => WorldReported reports w

theorem visit_reported {s : Slot} {w : World} (hw : WorldReported reports w)
    (hstable : ∀ r ∈ Prune.visitSettled settings s w.tracker, r.stable = true) :
    EndsReported reports ((visit settings s).run w) := by
  unfold Prune.visitSettled at hstable
  simp only [visit, EStateM.run]
  cases hlive : s.isLive with
  | false => exact hw
  | true =>
    rw [hlive, if_pos rfl] at hstable
    have hrun := Pass.runAll_reported settings.policy settings.maxPasses s.entry.name
      s.entry.contents (s := { toWorld := w, memory := s.memory }) hw fun l r hr => by
        refine hstable r ?_
        rw [show Prune.settle settings.policy s.entry.name settings.maxPasses 0 s.entry.contents
          ⟨w.tracker, s.memory⟩ = .ok (l, some r) from hr]
        exact List.mem_singleton_self r
    simp only [EStateM.run] at hrun
    rw [if_pos rfl]
    cases hends : Pass.runAll settings.policy settings.maxPasses s.entry.name s.entry.contents
        { toWorld := w, memory := s.memory } with
    | error e t =>
      rw [hends] at hrun
      exact hrun
    | ok out t =>
      rw [hends] at hrun
      exact hrun

theorem once_reported {slots : List Slot} {w : World} (hw : WorldReported reports w)
    (hstable : ∀ r ∈ Prune.onceSettled settings slots w.tracker, r.stable = true) :
    EndsReported reports ((once settings slots).run w) := by
  induction slots generalizing w with
  | nil => exact hw
  | cons s rest ih =>
    rw [Prune.onceSettled] at hstable
    have hvisit := visit_reported hw fun r hr => hstable r (List.mem_append_left _ hr)
    have hfollows := visit_follows settings s w
    simp only [once, EStateM.run, bind, EStateM.bind] at hvisit ih ⊢
    cases hrun : visit settings s w with
    | error e w' =>
      rw [hrun] at hvisit
      exact hvisit
    | ok b w' =>
      rw [hrun] at hvisit
      obtain ⟨⟨t, s', changed⟩, hpure, rfl, rfl⟩ := hfollows.of_ok hrun
      rw [hpure] at hstable
      have hrest := ih hvisit fun r hr => hstable r (List.mem_append_right _ hr)
      dsimp only
      cases honce : once settings rest w' with
      | error e w'' =>
        rw [honce] at hrest
        exact hrest
      | ok b w'' =>
        rw [honce] at hrest
        exact hrest

theorem settle_reported {budget : Nat} (done : Nat) {slots : List Slot} {w : World}
    (hw : WorldReported reports w)
    (hstable : ∀ r ∈ Prune.sweepsSettled settings budget slots w.tracker, r.stable = true) :
    EndsReported reports ((settle settings budget done slots).run w) := by
  induction budget generalizing done slots w with
  | zero => exact hw
  | succ budget ih =>
    rw [Prune.sweepsSettled] at hstable
    have honce := once_reported hw fun r hr => hstable r (List.mem_append_left _ hr)
    have hfollows := once_follows settings slots w
    simp only [settle, EStateM.run, bind, EStateM.bind] at honce ih ⊢
    cases hrun : once settings slots w with
    | error e w' =>
      rw [hrun] at honce
      exact honce
    | ok b w' =>
      rw [hrun] at honce
      obtain ⟨⟨t, slots', changed⟩, hpure, rfl, rfl⟩ := hfollows.of_ok hrun
      cases changed with
      | false => exact honce
      | true =>
        rw [hpure] at hstable
        exact ih (done + 1) honce fun r hr => hstable r (List.mem_append_right _ hr)

/-- Whether a run over an archive fails, or ends because a sweep changed nothing. -/
def FailsOrSettles : EStateM.Result ClassFailure World Settled → Prop
  | .ok r _ => r.stable = true
  | .error _ _ => True

/-- The fixed point is always reached. With a budget beyond the weight of the entries, which is linear
in their sizes (`Prune.slotsWeight_le_length`), whatever the policy, a run fails or ends because a
sweep changed nothing, and no run of passes within it is reported to have used up its budget. -/
theorem settles_of_weight_lt {entries : List Entry} {settings : Settings} {w : World}
    (hone : ∀ e ∈ entries, e.isClass = true → ∀ c, ClassFile.ofBytes e.contents = .ok c →
      Prune.OneMetadata c)
    (hmax : Prune.slotsWeight (slots entries) < settings.maxPasses)
    (hfits : WritesFit settings (slots entries) w.tracker) :
    FailsOrSettles ((run settings (slots entries)).run w) ∧
      EndsReported (stillChanging w.log) ((run settings (slots entries)).run w) := by
  obtain ⟨hstable, hsettled⟩ := Prune.sweeps_settle 0 hfits (fun s hs => by
    obtain ⟨e, he, rfl⟩ := List.mem_map.1 hs
    exact fun hlive => hone e he (Bool.and_eq_true_iff.1 hlive).1) hmax.le hmax
  have hreported := settle_reported 0 (w := w) rfl hstable
  have hfollows := sweeps_follows settings settings.maxPasses 0 (slots entries) w
  simp only [run, EStateM.run, bind, EStateM.bind] at hreported ⊢
  cases hrun : settle settings settings.maxPasses 0 (slots entries) w with
  | error e w' =>
    rw [hrun] at hreported
    exact ⟨trivial, hreported⟩
  | ok r w' =>
    rw [hrun] at hreported
    obtain ⟨⟨t, r'⟩, hpure, rfl, -⟩ := hfollows.of_ok hrun
    have hr := hsettled t r hpure
    simp only [hr, if_true]
    exact ⟨hr, hreported⟩

/-- Members go in both classes and in the metadata of one, and the run has budget to spare. -/
theorem settles_of_weight_lt_caller : Prune.slotsWeight (slots callerEntries) < 300 ∧ ∃ r w',
    (run unhurried (slots callerEntries)).run {} = .ok r w' ∧ r.slots.countP (·.isLive) = 2 ∧
      w'.tracker.containsMethod "B" ⟨"n", "()V"⟩ = true ∧ r.stable = true ∧
        WorldReported (stillChanging #[]) w' := by
  have hmax : Prune.slotsWeight (slots callerEntries) < 300 := by decide +kernel
  obtain ⟨r, w', hrun, -, hlive, hgone⟩ := run_callerEntries
  have hsettles : FailsOrSettles ((run unhurried (slots callerEntries)).run {}) ∧
      EndsReported (stillChanging #[]) ((run unhurried (slots callerEntries)).run {}) :=
    settles_of_weight_lt (fun e he hclass c hc => (small_callerEntries e he hclass c hc).one) hmax
      (writesFit_of_small small_callerEntries)
  rw [hrun] at hsettles
  exact ⟨hmax, r, w', hrun, hlive, hgone, hsettles⟩

end Sweep

end JarPruning
