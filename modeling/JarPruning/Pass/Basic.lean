import JarPruning.ClassFile.Format
import JarPruning.Pass.Pruner

/-! One pass over a class, and passes until the class is stable. -/
namespace JarPruning

/-- What a pass makes of a class. -/
inductive PassOutcome where
  | unwanted
  | modified (bytes : List UInt8)
  | unchanged
  deriving DecidableEq, Repr

/-- What a run of passes makes of a class. -/
inductive ClassOutcome where
  | unwanted
  | rewritten (bytes : List UInt8) (passes : Nat)
  | unchanged
  deriving DecidableEq, Repr

namespace Pass

/-- Records a class that is gone, and says so if it is news. -/
def recordClass (s : Session) (name : String) : Session :=
  let (new, tracker) := s.tracker.addClass name
  { s with tracker, log := if new then s.log.push (.deletedClass name) else s.log }

/-- Reads a class, prunes it and writes it. Changes made before a failure stay. -/
def run (policy : Policy) (entry : String) (bytes : List UInt8) :
    EStateM ClassFailure Session PassOutcome := fun s =>
  match ClassFile.ofBytes bytes with
  | .error fault => .error (.malformed entry fault) s
  | .ok c =>
    match (Walk.run (Pruner.visitor policy) c).run { s with memory := s.memory.expire } with
    | .error e s => .error e s.toSession
    | .ok .discarded s => .ok .unwanted (recordClass s.toSession s.className)
    | .ok (.rewritten c changed) s =>
      let written := c.bytes
      .ok (if changed && written != bytes then .modified written else .unchanged) s.toSession

/-- How a run of passes ended. -/
structure Settled where
  bytes : List UInt8
  passes : Nat
  stable : Bool
  deriving DecidableEq, Repr

/-- Passes until one changes nothing or the budget is used up; none if the class is unwanted.
`done` passes have gone before. -/
def settle (policy : Policy) (entry : String) : (budget done : Nat) → List UInt8 →
    EStateM ClassFailure Session (Option Settled)
  | 0, done, bytes => return some ⟨bytes, done, false⟩
  | budget + 1, done, bytes => do
    match ← run policy entry bytes with
    | .unwanted => return none
    | .unchanged => return some ⟨bytes, done + 1, true⟩
    | .modified bytes => settle policy entry budget (done + 1) bytes

def logEvent (e : LogEvent) : EStateM ClassFailure Session Unit :=
  modify fun s => { s with log := s.log.push e }

/-- Whether one of the passes that a run counts rewrote the class. -/
def Settled.isRewritten (r : Settled) : Bool := (if r.stable then 1 else 0) < r.passes

def runAll (policy : Policy) (maxPasses : Nat) (entry : String) (bytes : List UInt8) :
    EStateM ClassFailure Session ClassOutcome := do
  match ← settle policy entry maxPasses 0 bytes with
  | none => return .unwanted
  | some r =>
    unless r.stable do logEvent (.classStillChanging entry maxPasses)
    if r.isRewritten then
      logEvent (.classRewritten entry r.passes)
      return .rewritten r.bytes r.passes
    else return .unchanged

end Pass

end JarPruning
