import JarPruning.Proofs.Pass.Closure
import JarPruning.Proofs.Pass.Mirrored
import JarPruning.Proofs.Pass.Room

/-!
Deletion closure of runs. A run that ends because a sweep changed nothing leaves every class closed
under the final tracker.
-/
namespace JarPruning

namespace Prune

/-- What a run keeps of every class as long as all it writes fits. -/
def oneness : Claims where
  good _ := True
  holds _ _ _ bytes := ∀ c, ClassFile.ofBytes bytes = .ok c → OneMetadata c
  gone _ _ := True

theorem oneness_kept (policy : Policy) : oneness.Kept policy (Begun.Fits policy) where
  pass {o passed l bytes l' out} hmade _ hholds hpass := by
    obtain ⟨c, hc, hpassed⟩ := pass_ok hpass
    refine ⟨trivial, hpassed.tracker_le, ?_⟩
    cases hpassed with
    | discarded _ _ => trivial
    | modified r _ =>
      intro c' hc'
      have hfits := (ClassFile.of_ofBytes hc).2.1
      cases hc'.symm.trans (r.ofBytes_result hfits (hmade c hc r))
      exact r.result_oneMetadata hfits.toFramed (hmade c hc r) (hholds c hc)
    | unchanged _ _ => exact hholds
  grow _ _ hholds := hholds
  goneGrow _ _ _ := trivial

theorem max_of_stable {settings : Settings} {slots : List Slot} {t t' : Tracker}
    {r : Sweep.Settled} (h : sweeps settings settings.maxPasses 0 slots t = .ok (t', r))
    (hstable : r.stable = true) : 0 < settings.maxPasses := by
  refine Nat.pos_of_ne_zero fun hzero => ?_
  rw [hzero] at h
  cases h
  cases hstable

/-- A class at the end of a run that ended stable. -/
theorem settled_closed {policy : Policy} {t : Tracker} {entry : String} {bytes : List UInt8}
    {memory memory' : Memory} {c : ClassFile} (hc : ClassFile.ofBytes bytes = .ok c)
    (hconsistent : Consistent policy ⟨t, memory⟩ c) (hone : OneMetadata c)
    (h : pass policy entry bytes ⟨t, memory⟩ = .ok (⟨t, memory'⟩, .unchanged)) :
    ∃ name, c.Closed policy t name := by
  obtain ⟨c', hc', hpassed⟩ := pass_ok h
  cases hc.symm.trans hc'
  obtain ⟨r, -, hsame⟩ := hpassed.of_unchanged
  exact ⟨r.name, r.closed (ClassFile.of_ofBytes hc).2.1 hone hconsistent.expire hsame⟩

end Prune

namespace Sweep

/-- When a run ends because a sweep changed nothing, nothing in any class that is left leads to
anything that the run deleted. -/
theorem closed_of_stable {settings : Settings} {entries : List Entry} {w w' : World}
    {r : Settled}
    (hdiffer : ∀ e ∈ entries, e.isClass = true → ∀ c, ClassFile.ofBytes e.contents = .ok c →
      Prune.MethodsDiffer c.pool c.methods)
    (hone : ∀ e ∈ entries, e.isClass = true → ∀ c, ClassFile.ofBytes e.contents = .ok c →
      Prune.OneMetadata c)
    (hrun : (run settings (slots entries)).run w = .ok r w') (hstable : r.stable = true) :
    ∀ s ∈ r.slots, s.isLive = true → ∃ c, ClassFile.ofBytes s.entry.contents = .ok c ∧
      (WritesFit settings (slots entries) w.tracker ∨ Prune.OneMetadata c →
        ∃ name, c.Closed settings.policy w'.tracker name) := by
  obtain ⟨⟨t, r'⟩, hsweeps, hr, ht⟩ :=
    (sweepRun_follows settings (slots entries) w).of_ok hrun
  dsimp only at hr ht
  subst hr ht
  have hmax := Prune.max_of_stable hsweeps hstable
  have hrests := Claims.sweeps_quiet
    (Prune.consistency_kept settings.policy fun _ => True) rfl hmax
    (fun hholds hpass => Prune.quiet_tracker hholds hpass) (fun _ _ => trivial) trivial
    (slots_of fun e he hclass c hc => ⟨hdiffer e he hclass c hc, fun _ _ _ _ hkey => nomatch hkey⟩)
    hstable hsweeps
  intro s hs hlive
  obtain ⟨o, -, hrest⟩ := forall₂_mem_right hrests hs
  obtain ⟨passed, memory, hconsistent, -, hpass⟩ := hrest hlive
  obtain ⟨c, hc, -⟩ := Prune.pass_ok hpass
  refine ⟨c, hc, fun honeOrFits => Prune.settled_closed hc (hconsistent c hc) ?_ hpass⟩
  obtain hfits | honeEnd := honeOrFits
  · obtain ⟨-, -, hall⟩ := Claims.sweeps_keep (Prune.oneness_kept settings.policy) rfl hmax hfits
      trivial (slots_of hone) (.inr hmax) hsweeps
    obtain ⟨o', -, hof⟩ := forall₂_mem_right hall hs
    obtain ⟨ho', hdeleted⟩ := hof.alive hlive
    exact hof.live ho' hdeleted c hc
  · exact honeEnd

/-- A class with a method that calls the method `m` of another. -/
def callerClass : ClassFile where
  minor := 0
  major := 52
  pool := ⟨#[.unusable, .ofText "B", .classInfo 1, .ofText "A", .classInfo 3, .ofText "m",
    .ofText "()V", .nameAndType 5 6, .methodRef 4 7, .ofText "n", .ofText "Code"]⟩
  access := 0
  thisClass := 2
  superClass := 0
  interfaces := []
  fields := []
  methods := [⟨8, 9, 6, [⟨10, Body.bytes ⟨0, 0, [Opcode.invokestatic, 0, 8, Opcode.ret]⟩⟩]⟩]
  attributes := []

/-- The class that is called has metadata. -/
def calledClass : ClassFile := Pass.declaringClass [Pass.functionsText] [18]

def callerEntries : List Entry :=
  [.plain "B.class" callerClass.bytes, .plain "A.class" calledClass.bytes]

def unhurried : Settings := ⟨Pass.marking, 300, false⟩

theorem forall_callerEntries {P : ClassFile → Prop} (hcaller : P callerClass)
    (hcalled : P calledClass) : ∀ e ∈ callerEntries, e.isClass = true → ∀ c,
      ClassFile.ofBytes e.contents = .ok c → P c := by
  have hread : ClassFile.ofBytes (Entry.plain "B.class" callerClass.bytes).contents =
      .ok callerClass := by decide +kernel
  have hread' : ClassFile.ofBytes (Entry.plain "A.class" calledClass.bytes).contents =
      .ok calledClass := by decide +kernel
  intro e he _ c hc
  simp only [callerEntries, List.mem_cons, List.not_mem_nil, or_false] at he
  obtain rfl | rfl := he
  · exact Except.ok.inj (hread.symm.trans hc) ▸ hcaller
  · exact Except.ok.inj (hread'.symm.trans hc) ▸ hcalled

/-- Neither class has two methods of one signature. -/
theorem differ_callerEntries : ∀ e ∈ callerEntries, e.isClass = true → ∀ c,
    ClassFile.ofBytes e.contents = .ok c → Prune.MethodsDiffer c.pool c.methods := by
  refine forall_callerEntries (List.pairwise_singleton ..) (List.pairwise_pair.2 fun m n hm hn => ?_)
  cases hm
  cases hn
  decide

theorem small_callerEntries : ∀ e ∈ callerEntries, e.isClass = true → ∀ c,
    ClassFile.ofBytes e.contents = .ok c → c.Small := by
  refine forall_callerEntries ((ClassFile.NoMetadata.of_bare rfl).small (by decide +kernel)) ?_
  exact Pass.soleMetadata_functions.small Pass.metadataParts_functions (by decide +kernel)
    (by decide +kernel)

/-- Whether a run ended stable with both classes left and the calling method deleted. -/
def endsWithoutCaller : EStateM.Result ClassFailure World Settled → Bool
  | .ok r w =>
    r.stable && r.slots.countP (·.isLive) == 2 && w.tracker.containsMethod "B" ⟨"n", "()V"⟩
  | .error _ _ => false

theorem of_endsWithoutCaller {settings : Settings} {entries : List Entry}
    (h : endsWithoutCaller ((run settings (slots entries)).run {}) = true) : ∃ r w',
      (run settings (slots entries)).run {} = .ok r w' ∧ r.stable = true ∧
        r.slots.countP (·.isLive) = 2 ∧ w'.tracker.containsMethod "B" ⟨"n", "()V"⟩ = true := by
  cases hrun : (run settings (slots entries)).run {} with
  | error e w' =>
    rw [hrun] at h
    cases h
  | ok r w' =>
    rw [hrun] at h
    simp only [endsWithoutCaller, Bool.and_eq_true, beq_iff_eq] at h
    exact ⟨r, w', rfl, h.1.1, h.1.2, h.2⟩

/-- The calling method goes in the second sweep, after the method that it calls. -/
theorem run_callerEntries : ∃ r w', (run unhurried (slots callerEntries)).run {} = .ok r w' ∧
    r.stable = true ∧ r.slots.countP (·.isLive) = 2 ∧
      w'.tracker.containsMethod "B" ⟨"n", "()V"⟩ = true :=
  of_endsWithoutCaller (by decide +kernel)

theorem closed_of_stable_caller : ∃ r w',
    (run unhurried (slots callerEntries)).run {} = .ok r w' ∧
      w'.tracker.containsMethod "B" ⟨"n", "()V"⟩ = true ∧ r.slots.countP (·.isLive) = 2 ∧
      ∀ s ∈ r.slots, s.isLive = true → ∃ c, ClassFile.ofBytes s.entry.contents = .ok c ∧
        ∃ name, c.Closed unhurried.policy w'.tracker name := by
  obtain ⟨r, w', hrun, hstable, hlive, hgone⟩ := run_callerEntries
  refine ⟨r, w', hrun, hgone, hlive, fun s hs hs' => ?_⟩
  obtain ⟨c, hc, hclosed⟩ := closed_of_stable differ_callerEntries
    (fun e he hclass c hc => (small_callerEntries e he hclass c hc).one) hrun hstable s hs hs'
  exact ⟨c, hc, hclosed (.inl (writesFit_of_small small_callerEntries))⟩

end Sweep

end JarPruning
