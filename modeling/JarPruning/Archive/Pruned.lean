import JarPruning.Pass.Sweep

/-! The archive that remains when its classes are filtered, and the figures of that. -/
namespace JarPruning

/-- The figures of a filtered archive. -/
structure Report where
  /-- How many entries remain. -/
  entries : Nat
  classesRewritten : Nat
  classesDeleted : Nat
  sweeps : Nat
  deriving DecidableEq, Repr

/-- A filtered archive: what has become of each entry. -/
structure Pruned where
  settled : Sweep.Settled
  comment : List UInt8
  deriving Repr

namespace Pruned

def slots (p : Pruned) : List Slot := p.settled.slots

/-- The entries that remain, in their order. -/
def kept (p : Pruned) : List Slot := p.slots.filter fun s => !s.deleted

/-- Either entries keep how they are stored, their times and their permissions, or nothing but
names and contents counts. -/
def archive (preserve : Bool) (p : Pruned) : Archive where
  entries := p.kept.map fun s => if preserve then s.entry else .plain s.entry.name s.entry.contents
  comment := p.comment

def report (p : Pruned) : Report where
  entries := p.kept.length
  classesRewritten := p.kept.countP (·.rewritten)
  classesDeleted := p.slots.countP (·.deleted)
  sweeps := p.settled.sweeps

end Pruned

def Archive.prune (settings : Settings) (a : Archive) : EStateM ClassFailure World Pruned := do
  let settled ← Sweep.run settings (a.entries.map fun entry => { entry })
  return { settled, comment := a.comment }

end JarPruning
