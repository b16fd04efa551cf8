import JarPruning.Proofs.Pass.Completion
import JarPruning.Proofs.Pass.Room

/-!
Runs over what a run left. Every pass finishes the class that it keeps, whether or not the run ended
stable, so a second run with the same settings finds nothing to do.
-/
namespace JarPruning

namespace Prune

/-- A class in which no reference dangles, before the first pass and after each: at first no stub is
remembered, and every pass finishes the class. -/
inductive Completes (policy : Policy) (memory : Memory) (bytes : List UInt8) : Bool → Prop
  | fresh (known : ∀ c, ClassFile.ofBytes bytes = .ok c → c.Grounded ∧ c.Told)
    (bare : ∀ key, memory.stubbed.contains key = false) : Completes policy memory bytes false
  | done {passed : Bool} {c : ClassFile} (read : ClassFile.ofBytes bytes = .ok c)
    (known : c.Grounded ∧ c.Told) (finished : c.Finished policy) :
    Completes policy memory bytes passed

def completion (policy : Policy) : Claims where
  good _ := True
  holds passed _ l bytes := Completes policy l.memory bytes passed
  gone _ _ := True

theorem completion_kept (policy : Policy) : (completion policy).Kept policy (Begun.Fits policy) where
  pass {o passed l bytes l' out} hmade _ hholds hpass := by
    obtain ⟨c, hc, hpassed⟩ := pass_ok hpass
    obtain ⟨⟨hgrounded, htold⟩, hstart⟩ : (c.Grounded ∧ c.Told) ∧
        ((∀ key, l.expire.memory.stubbed.contains key = false) ∨ c.Finished policy) := by
      cases hholds with
      | fresh hknown hbare => exact ⟨hknown c hc, .inl hbare⟩
      | done hread hknown hfinished =>
        cases hc.symm.trans hread
        exact ⟨hknown, .inr hfinished⟩
    have hfits := (ClassFile.of_ofBytes hc).2.1
    refine ⟨trivial, hpassed.tracker_le, ?_⟩
    cases hpassed with
    | discarded _ _ => trivial
    | modified r _ =>
      have hnew := hmade c hc r
      obtain ⟨hfinished, hknown⟩ := r.finishes hfits hnew.new hgrounded htold hstart
      exact .done (r.ofBytes_result hfits hnew) hknown hfinished
    | unchanged r hsame =>
      refine .done hc ⟨hgrounded, htold⟩ ?_
      obtain hsame | hsame := hsame
      · exact r.finished_of_unchanged hfits.toFramed hgrounded hstart hsame
      · have hread := r.ofBytes_result hfits (hmade c hc r)
        rw [hsame, ← (ClassFile.of_ofBytes hc).1] at hread
        have hresult : r.result = c := Except.ok.inj (hread.symm.trans hc)
        have hfinished := (r.finishes hfits (hmade c hc r).new hgrounded htold hstart).1
        rwa [hresult] at hfinished
  grow _ _ hholds := hholds
  goneGrow _ _ _ := trivial

/-- A run over a finished class makes one pass. -/
theorem settle_finished {policy : Policy} {c : ClassFile} {bytes : List UInt8}
    (hc : ClassFile.ofBytes bytes = .ok c) (h : c.Finished policy) (entry : String) {budget : Nat}
    (hbudget : 0 < budget) : ∃ l, settle policy entry budget 0 bytes ⟨{}, {}⟩ =
      .ok (l, some ⟨bytes, 1, true⟩) ∧ l.tracker = {} := by
  obtain ⟨budget, rfl⟩ : ∃ b, budget = b + 1 := ⟨budget - 1, by omega⟩
  obtain ⟨l, hpass, hl⟩ := h.pass_unchanged hc entry
  refine ⟨l, ?_, hl⟩
  rw [settle, hpass]
  rfl

theorem visit_finished {settings : Settings} (hmax : 0 < settings.maxPasses) (entry : Entry)
    (h : entry.isClass = true → ∃ c, ClassFile.ofBytes entry.contents = .ok c ∧
      c.Finished settings.policy) :
    ∃ memory, visit settings { entry } {} = .ok ({}, { entry, memory }, false) := by
  unfold visit
  cases hlive : ({ entry } : Slot).isLive with
  | false => exact ⟨{}, rfl⟩
  | true =>
    obtain ⟨c, hc, hfinished⟩ := h (by simpa [Slot.isLive] using hlive)
    obtain ⟨l, hsettle, hl⟩ := settle_finished hc hfinished entry.name hmax
    refine ⟨l.memory, ?_⟩
    simp only [if_true, hsettle, bind, Except.bind, hl]
    rfl

theorem once_finished {settings : Settings} (hmax : 0 < settings.maxPasses) {entries : List Entry}
    (h : ∀ e ∈ entries, e.isClass = true → ∃ c, ClassFile.ofBytes e.contents = .ok c ∧
      c.Finished settings.policy) :
    ∃ slots, once settings (Sweep.slots entries) {} = .ok ({}, slots, false) ∧
      slots.map (·.entry) = entries ∧ ∀ s ∈ slots, s.deleted = false ∧ s.rewritten = false := by
  induction entries with
  | nil => exact ⟨[], rfl, rfl, by simp⟩
  | cons e entries ih =>
    obtain ⟨memory, hvisit⟩ := visit_finished hmax e (h e (List.mem_cons_self ..))
    obtain ⟨slots, honce, hentries, hkept⟩ := ih fun e he => h e (List.mem_cons_of_mem _ he)
    refine ⟨{ entry := e, memory } :: slots, ?_, by rw [List.map_cons, hentries],
      List.forall_mem_cons.2 ⟨⟨rfl, rfl⟩, hkept⟩⟩
    change once settings ({ entry := e } :: Sweep.slots entries) {} = _
    rw [once, hvisit]
    simp only [bind, Except.bind, honce]
    rfl

end Prune

namespace Sweep

/-- The entries that a run left. -/
def Settled.entries (r : Settled) : List Entry := (r.slots.filter fun s => !s.deleted).map (·.entry)

/-- A run over the entries that a run left, with nothing gone at the start, makes one sweep, which
deletes nothing and rewrites nothing. -/
theorem run_again {settings : Settings} {entries : List Entry} {w w' : World} {r : Settled}
    (hmax : 0 < settings.maxPasses)
    (hgrounded : ∀ e ∈ entries, e.isClass = true → ∀ c, ClassFile.ofBytes e.contents = .ok c →
      c.Grounded ∧ c.Told)
    (hfits : WritesFit settings (slots entries) w.tracker)
    (hrun : (run settings (slots entries)).run w = .ok r w') (v : World) (hv : v.tracker = {}) :
    ∃ r' v', (run settings (slots r.entries)).run v = .ok r' v' ∧ r'.stable = true ∧
      r'.sweeps = 1 ∧ r'.slots.map (·.entry) = r.entries ∧
        (∀ s ∈ r'.slots, s.deleted = false ∧ s.rewritten = false) ∧ v'.tracker = {} := by
  obtain ⟨⟨t, r⟩, hsweeps, rfl, -⟩ :=
    (sweepRun_follows settings (slots entries) w).of_ok hrun
  obtain ⟨-, -, hall⟩ := Claims.sweeps_keep (Prune.completion_kept settings.policy) rfl hmax hfits
    trivial (slots_of fun e he hclass => .fresh (hgrounded e he hclass) fun _ => rfl) (.inr hmax)
    hsweeps
  have hfinished : ∀ e ∈ r.entries, e.isClass = true →
      ∃ c, ClassFile.ofBytes e.contents = .ok c ∧ c.Finished settings.policy := by
    intro e he hclass
    obtain ⟨s, hs, rfl⟩ := List.mem_map.1 he
    obtain ⟨hs, hkept⟩ := List.mem_filter.1 hs
    obtain ⟨o, -, hof⟩ := forall₂_mem_right hall hs
    obtain ⟨ho, hdeleted⟩ := hof.alive (by rw [Slot.isLive, hclass, hkept]; rfl)
    cases hof.live ho hdeleted with
    | done hread _ hfinished => exact ⟨_, hread, hfinished⟩
  obtain ⟨slots', honce, hentries, hkept⟩ := Prune.once_finished hmax hfinished
  have hagain : Prune.sweeps settings settings.maxPasses 0 (slots r.entries) v.tracker =
      .ok ({}, ⟨slots', 1, true⟩) := by
    obtain ⟨n, hn⟩ : ∃ n, settings.maxPasses = n + 1 := ⟨settings.maxPasses - 1, by omega⟩
    rw [hn, Prune.sweeps, hv, honce]
    rfl
  have hfollows := sweepRun_follows settings (slots r.entries) v
  rw [hagain] at hfollows
  obtain ⟨r', v', hrun', rfl, htracker⟩ := hfollows
  exact ⟨_, v', hrun', rfl, rfl, hentries, hkept, htracker⟩

/-- A class with a method to be stubbed, and with more constants behind those that it needs. -/
def stubbedClass (more : List Constant) : ClassFile where
  minor := 0
  major := 52
  pool := ⟨#[.unusable, .ofText "A", .classInfo 1, .ofText "v", .ofText "()I",
    .ofText "RuntimeVisibleAnnotations", .ofText "LS;", .ofText "Code"] ++ more.toArray⟩
  access := 0
  thisClass := 2
  superClass := 0
  interfaces := []
  fields := []
  methods := [⟨8, 3, 4, [⟨5, AnnotationEntry.tableBytes [⟨6, []⟩]⟩,
    ⟨7, Body.bytes ⟨1, 0, [0x03, 0xAC]⟩⟩]⟩]
  attributes := []

def stubbedEntries (more : List Constant) : List Entry :=
  [.plain "A.class" (stubbedClass more).bytes]

def stubbing : Settings := ⟨{ stub := ["LS;"] }, 1, false⟩

/-- Whether a run used up its budget. -/
def endsUnstable : EStateM.Result ClassFailure World Settled → Bool
  | .ok r _ => !r.stable
  | .error _ _ => false

theorem run_again_stubbed : ∃ r w', (run stubbing (slots (stubbedEntries []))).run {} = .ok r w' ∧
    r.stable = false ∧ ∃ r' v', (run stubbing (slots r.entries)).run {} = .ok r' v' ∧
      r'.stable = true ∧ r'.sweeps = 1 ∧ r'.slots.map (·.entry) = r.entries ∧
        (∀ s ∈ r'.slots, s.deleted = false ∧ s.rewritten = false) ∧ v'.tracker = {} := by
  have hread : ∀ e ∈ stubbedEntries [], ∀ c, ClassFile.ofBytes e.contents = .ok c →
      stubbedClass [] = c := by
    intro e he c hc
    have hread : ClassFile.ofBytes (Entry.plain "A.class" (stubbedClass []).bytes).contents =
        .ok (stubbedClass []) := by decide +kernel
    rw [List.mem_singleton.1 he] at hc
    exact Except.ok.inj (hread.symm.trans hc)
  have hnone : (stubbedClass []).NoMetadata := .of_bare rfl
  have hends : endsUnstable ((run stubbing (slots (stubbedEntries []))).run {}) = true := by
    decide +kernel
  cases hrun : (run stubbing (slots (stubbedEntries []))).run {} with
  | error e w' =>
    rw [hrun] at hends
    cases hends
  | ok r w' =>
    rw [hrun] at hends
    refine ⟨r, w', rfl, by simpa [endsUnstable] using hends,
      run_again (by decide) (fun e he _ c hc => ?_) (writesFit_of_small fun e he _ c hc => ?_) hrun
        {} rfl⟩
    · obtain rfl := hread e he c hc
      exact ⟨⟨by decide +kernel, by decide +kernel, by decide +kernel⟩, hnone.told⟩
    · obtain rfl := hread e he c hc
      exact hnone.small (by decide +kernel)

/-- Whether a run and one over the entries that it left both end, the second with other bytes. -/
def rewritesAgain (settings : Settings) (entries : List Entry) : Bool :=
  match (run settings (slots entries)).run {} with
  | .ok r _ =>
    match (run settings (slots r.entries)).run {} with
    | .ok r' _ => r'.slots.map (·.entry.contents) ≠ r.entries.map (·.contents)
    | .error _ _ => false
  | .error _ _ => false

theorem of_rewritesAgain {settings : Settings} {entries : List Entry}
    (h : rewritesAgain settings entries = true) :
    ∃ r w' r' v', (run settings (slots entries)).run {} = .ok r w' ∧
      (run settings (slots r.entries)).run {} = .ok r' v' ∧ r'.slots.map (·.entry) ≠ r.entries := by
  unfold rewritesAgain at h
  split at h
  · next r w' hrun =>
    split at h
    · next r' v' hrun' =>
      refine ⟨r, w', r', v', hrun, hrun', fun hsame => ?_⟩
      rw [← hsame, List.map_map] at h
      simp [Function.comp_def] at h
    · cases h
  · cases h

/-- The constant of a class leads to the entry behind the last. A stub puts the name of its
exception there, so the second run finds that constant, and the first had added its own. -/
theorem rewrites_again_if_dangling : ∃ r w' r' v',
    (run stubbing (slots (stubbedEntries [.classInfo 9]))).run {} = .ok r w' ∧
      (run stubbing (slots r.entries)).run {} = .ok r' v' ∧ r'.slots.map (·.entry) ≠ r.entries :=
  of_rewritesAgain (by decide +kernel)

end Sweep

end JarPruning
