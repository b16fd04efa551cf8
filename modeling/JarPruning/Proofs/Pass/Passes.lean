import JarPruning.Pass.Sweep
import JarPruning.Proofs.Except
import JarPruning.Proofs.Pass.Walked

/-!
Passes and sweeps as functions of the ledger: which passes a run makes, and what it leaves. The
runs with a log follow them.
-/
namespace JarPruning

namespace Prune

/-- One pass over the bytes of a class. -/
def pass (policy : Policy) (entry : String) (bytes : List UInt8) (l : Ledger) :
    Except ClassFailure (Ledger × PassOutcome) := do
  let c ← (ClassFile.ofBytes bytes).mapError (.malformed entry)
  let name ← c.name.mapError (.malformed "<unknown>")
  match ← run policy l.expire c with
  | (l, .discarded) => return ({ l with tracker := (l.tracker.addClass name).2 }, .unwanted)
  | (l, .rewritten c changed) =>
    return (l, if changed && c.bytes != bytes then .modified c.bytes else .unchanged)

def settle (policy : Policy) (entry : String) :
    (budget done : Nat) → List UInt8 → Ledger →
      Except ClassFailure (Ledger × Option Pass.Settled)
  | 0, done, bytes, l => return (l, some ⟨bytes, done, false⟩)
  | budget + 1, done, bytes, l => do
    match ← pass policy entry bytes l with
    | (l, .unwanted) => return (l, none)
    | (l, .unchanged) => return (l, some ⟨bytes, done + 1, true⟩)
    | (l, .modified bytes) => settle policy entry budget (done + 1) bytes l

/-- What a run of passes makes of a class. -/
def outcome : Option Pass.Settled → ClassOutcome
  | none => .unwanted
  | some r => if r.isRewritten then .rewritten r.bytes r.passes else .unchanged

def visit (settings : Settings) (s : Slot) (t : Tracker) :
    Except ClassFailure (Tracker × Slot × Bool) :=
  if s.isLive then do
    let (l, r?) ← settle settings.policy s.entry.name settings.maxPasses 0 s.entry.contents
      ⟨t, s.memory⟩
    return (l.tracker, s.settle l.memory (outcome r?))
  else return (t, s, false)

def once (settings : Settings) :
    List Slot → Tracker → Except ClassFailure (Tracker × List Slot × Bool)
  | [], t => return (t, [], false)
  | s :: rest, t => do
    let (t, s, changed) ← visit settings s t
    let (t, rest, restChanged) ← once settings rest t
    return (t, s :: rest, changed || restChanged)

def sweeps (settings : Settings) :
    (budget done : Nat) → List Slot → Tracker →
      Except ClassFailure (Tracker × Sweep.Settled)
  | 0, done, slots, t => return (t, ⟨slots, done, false⟩)
  | budget + 1, done, slots, t => do
    let (t, slots, changed) ← once settings slots t
    if changed then sweeps settings budget (done + 1) slots t
    else return (t, ⟨slots, done + 1, true⟩)

end Prune

/-! The runs that keep a log. -/

theorem ClassFile.name_of_ofBytes {bytes : List UInt8} {c : ClassFile}
    (h : ClassFile.ofBytes bytes = .ok c) : ∃ name, c.name = .ok name := by
  unfold ClassFile.ofBytes at h
  cases hread : ClassFile.read.whole .trailingAfterClass bytes with
  | error e => simp [hread, bind, Except.bind] at h
  | ok d =>
    cases hname : d.name with
    | error e => simp [hread, hname, bind, Except.bind] at h
    | ok name =>
      simp only [hread, hname, bind, Except.bind, pure, Except.pure, Except.ok.injEq] at h
      exact ⟨name, h ▸ hname⟩

theorem pass_follows (policy : Policy) (entry : String) (bytes : List UInt8) (s : Session) :
    Follows (Pass.run policy entry bytes) s (Prune.pass policy entry bytes s.ledger)
      (fun b out s' => out = b.2 ∧ s'.ledger = b.1) := by
  unfold Prune.pass
  cases hc : ClassFile.ofBytes bytes with
  | error fault =>
    refine ⟨s, ?_⟩
    simp only [Pass.run, EStateM.run, hc]
  | ok c =>
    obtain ⟨name, hname⟩ := ClassFile.name_of_ofBytes hc
    have hwalk : Follows (Walk.run (Pruner.visitor policy) c)
        { s with memory := s.memory.expire } (Prune.run policy s.ledger.expire c) _ :=
      walk_follows policy c { s with memory := s.memory.expire } rfl rfl
    simp only [mapError_ok, hname, bind, Except.bind]
    cases hrun : Prune.run policy s.ledger.expire c with
    | error e =>
      rw [hrun] at hwalk
      obtain ⟨t, ht⟩ := hwalk
      refine ⟨t.toSession, ?_⟩
      simp only [Pass.run, EStateM.run, hc] at ht ⊢
      rw [ht]
    | ok b =>
      rw [hrun] at hwalk
      obtain ⟨o, t, ht, rfl, hledger, hself⟩ := hwalk
      obtain ⟨l, o⟩ := b
      obtain rfl : t.ledger = l := hledger
      obtain rfl : name = t.className := by
        rw [hname] at hself
        exact Except.ok.inj hself
      cases o with
      | discarded =>
        refine ⟨.unwanted, Pass.recordClass t.toSession t.className, ?_, rfl, rfl⟩
        simp only [Pass.run, EStateM.run, hc] at ht ⊢
        rw [ht]
      | rewritten c' changed =>
        refine ⟨_, t.toSession, ?_, rfl, rfl⟩
        simp only [Pass.run, EStateM.run, hc] at ht ⊢
        rw [ht]

theorem settle_follows (policy : Policy) (entry : String) (budget done : Nat)
    (bytes : List UInt8) (s : Session) :
    Follows (Pass.settle policy entry budget done bytes) s
      (Prune.settle policy entry budget done bytes s.ledger)
      (fun b r s' => r = b.2 ∧ s'.ledger = b.1) := by
  induction budget generalizing done bytes s with
  | zero => exact Follows.pure ⟨rfl, rfl⟩
  | succ budget ih =>
    rw [Pass.settle, Prune.settle]
    refine Follows.bind (pass_follows policy entry bytes s) fun b out s' h => ?_
    obtain ⟨l, out⟩ := b
    obtain ⟨rfl, rfl⟩ := h
    cases out with
    | unwanted => exact Follows.pure ⟨rfl, rfl⟩
    | unchanged => exact Follows.pure ⟨rfl, rfl⟩
    | modified bytes => exact ih (done + 1) bytes s'

theorem runAll_follows (policy : Policy) (maxPasses : Nat) (entry : String)
    (bytes : List UInt8) (s : Session) :
    Follows (Pass.runAll policy maxPasses entry bytes) s
      (Prune.settle policy entry maxPasses 0 bytes s.ledger)
      (fun b out s' => out = Prune.outcome b.2 ∧ s'.ledger = b.1) := by
  unfold Pass.runAll
  rw [← bind_pure (Prune.settle _ _ _ _ _ _)]
  refine Follows.bind (settle_follows policy entry maxPasses 0 bytes s) fun b r s' h => ?_
  obtain ⟨rfl, hledger⟩ := h
  obtain ⟨l, r?⟩ := b
  cases r? with
  | none => exact Follows.pure ⟨rfl, hledger⟩
  | some r =>
    have hout : Prune.outcome (some r) =
        if r.isRewritten then .rewritten r.bytes r.passes else .unchanged := rfl
    dsimp only
    cases r.stable with
    | true =>
      show Follows (if r.isRewritten then _ else _) _ _ _
      split
      · next h => exact Follows.of_run rfl ⟨by rw [hout, if_pos h], hledger⟩
      · next h => exact Follows.of_run rfl ⟨by rw [hout, if_neg h], hledger⟩
    | false =>
      show Follows (_ >>= fun _ => if r.isRewritten then _ else _) _ _ _
      split
      · next h => exact Follows.of_run rfl ⟨by rw [hout, if_pos h], hledger⟩
      · next h => exact Follows.of_run rfl ⟨by rw [hout, if_neg h], hledger⟩

theorem visit_follows (settings : Settings) (s : Slot) (w : World) :
    Follows (Sweep.visit settings s) w (Prune.visit settings s w.tracker)
      (fun b r w' => r = b.2 ∧ w'.tracker = b.1) := by
  unfold Prune.visit
  have hsettle := runAll_follows settings.policy settings.maxPasses s.entry.name
    s.entry.contents { toWorld := w, memory := s.memory }
  change Follows _ _ (Prune.settle _ _ _ _ _ ⟨w.tracker, s.memory⟩) _ at hsettle
  cases hlive : s.isLive with
  | false =>
    refine Follows.of_run (a := (s, false)) ?_ ⟨rfl, rfl⟩
    simp [Sweep.visit, EStateM.run, hlive]
  | true =>
    show Follows _ _ (Prune.settle _ _ _ _ _ _ >>= _) _
    cases hp : Prune.settle settings.policy s.entry.name settings.maxPasses 0 s.entry.contents
        ⟨w.tracker, s.memory⟩ with
    | error e =>
      rw [hp] at hsettle
      obtain ⟨t, ht⟩ := hsettle
      refine ⟨t.toWorld, ?_⟩
      simp only [EStateM.run] at ht
      simp only [Sweep.visit, EStateM.run, hlive, ↓reduceIte, ht]
    | ok b =>
      rw [hp] at hsettle
      obtain ⟨out, t, ht, rfl, hledger⟩ := hsettle
      obtain ⟨l, r⟩ := b
      obtain rfl : t.ledger = l := hledger
      refine Follows.of_run (a := s.settle t.memory (Prune.outcome r)) ?_
        ⟨rfl, rfl⟩
      simp only [EStateM.run] at ht
      simp only [Sweep.visit, EStateM.run, hlive, ↓reduceIte, ht]

theorem once_follows (settings : Settings) (slots : List Slot) (w : World) :
    Follows (Sweep.once settings slots) w (Prune.once settings slots w.tracker)
      (fun b r w' => r = b.2 ∧ w'.tracker = b.1) := by
  induction slots generalizing w with
  | nil => exact Follows.pure ⟨rfl, rfl⟩
  | cons s rest ih =>
    rw [Sweep.once, Prune.once]
    refine Follows.bind (visit_follows settings s w) fun b r w' h => ?_
    obtain ⟨t, s, changed⟩ := b
    obtain ⟨rfl, rfl⟩ := h
    refine Follows.bind (ih w') fun b r w'' h => ?_
    obtain ⟨rfl, hw⟩ := h
    exact Follows.pure ⟨rfl, hw⟩

theorem sweeps_follows (settings : Settings) (budget done : Nat) (slots : List Slot)
    (w : World) :
    Follows (Sweep.settle settings budget done slots) w
      (Prune.sweeps settings budget done slots w.tracker)
      (fun b r w' => r = b.2 ∧ w'.tracker = b.1) := by
  induction budget generalizing done slots w with
  | zero => exact Follows.pure ⟨rfl, rfl⟩
  | succ budget ih =>
    rw [Sweep.settle, Prune.sweeps]
    refine Follows.bind (once_follows settings slots w) fun b r w' h => ?_
    obtain ⟨t, slots, changed⟩ := b
    obtain ⟨rfl, rfl⟩ := h
    cases changed with
    | true => exact ih (done + 1) slots w'
    | false => exact Follows.pure ⟨rfl, rfl⟩

/-- A run over an archive does what the sweeps as a function do. -/
theorem sweepRun_follows (settings : Settings) (slots : List Slot) (w : World) :
    Follows (Sweep.run settings slots) w
      (Prune.sweeps settings settings.maxPasses 0 slots w.tracker)
      (fun b r w' => r = b.2 ∧ w'.tracker = b.1) := by
  unfold Sweep.run
  rw [← bind_pure (Prune.sweeps _ _ _ _ _)]
  refine Follows.bind (sweeps_follows settings settings.maxPasses 0 slots w)
    fun b r w' h => ?_
  obtain ⟨rfl, hw⟩ := h
  cases b.2.stable with
  | true => exact Follows.of_run rfl ⟨rfl, hw⟩
  | false => exact Follows.of_run rfl ⟨rfl, hw⟩

end JarPruning
