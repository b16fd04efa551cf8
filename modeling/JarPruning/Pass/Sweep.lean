import JarPruning.Archive.Basic
import JarPruning.Config.Settings
import JarPruning.Pass.Basic

/-!
Sweeps over an archive. A sweep filters every class once; all classes share one tracker, so what
one class loses is gone for the others too, and sweeps follow each other until one changes nothing.
-/
namespace JarPruning

/-- An entry and what has become of it. -/
structure Slot where
  entry : Entry
  memory : Memory := {}
  rewritten : Bool := false
  deleted : Bool := false
  deriving Repr

namespace Slot

/-- Whether a sweep looks at the entry. -/
def isLive (s : Slot) : Bool := s.entry.isClass && !s.deleted

/-- The slot after its class was filtered, and whether that changed it. -/
def settle (s : Slot) (memory : Memory) : ClassOutcome → Slot × Bool
  | .unchanged => ({ s with memory }, false)
  | .rewritten contents _ =>
    ({ s with memory, entry := { s.entry with contents }, rewritten := true }, true)
  | .unwanted => ({ s with memory, deleted := true }, true)

end Slot

namespace Sweep

def visit (settings : Settings) (s : Slot) : EStateM ClassFailure World (Slot × Bool) := fun w =>
  if s.isLive then
    match Pass.runAll settings.policy settings.maxPasses s.entry.name s.entry.contents
        { toWorld := w, memory := s.memory } with
    | .ok outcome session => .ok (s.settle session.memory outcome) session.toWorld
    | .error e session => .error e session.toWorld
  else .ok (s, false) w

/-- One sweep: the slots after it, and whether it changed any. -/
def once (settings : Settings) : List Slot → EStateM ClassFailure World (List Slot × Bool)
  | [] => return ([], false)
  | s :: rest => do
    let (s, changed) ← visit settings s
    let (rest, restChanged) ← once settings rest
    return (s :: rest, changed || restChanged)

/-- How a run of sweeps ended. -/
structure Settled where
  slots : List Slot
  sweeps : Nat
  stable : Bool
  deriving Repr

/-- Sweeps until one changes nothing or the budget is used up. `done` sweeps have gone before. -/
def settle (settings : Settings) : (budget done : Nat) → List Slot →
    EStateM ClassFailure World Settled
  | 0, done, slots => return ⟨slots, done, false⟩
  | budget + 1, done, slots => do
    let (slots, changed) ← once settings slots
    if changed then settle settings budget (done + 1) slots
    else return ⟨slots, done + 1, true⟩

def run (settings : Settings) (slots : List Slot) : EStateM ClassFailure World Settled := do
  let r ← settle settings settings.maxPasses 0 slots
  unless r.stable do
    modify fun w => { w with
      log := w.log.push (.archiveStillChanging settings.maxPasses w.tracker.classCount) }
  return r

end Sweep

end JarPruning
