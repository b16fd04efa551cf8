import JarPruning.Member.Target

/-!
Sets whose members leave unless they are removed in time: a member survives one expiry and is
dropped by the next. Members stay in the order of their insertion, and no two have equal keys.
-/
namespace JarPruning

/-- A member and the number of expiries it still survives. -/
structure Held (α : Type) where
  item : α
  grace : Nat
  deriving Repr

structure GraceSet (α : Type) where
  held : List (Held α) := []
  deriving Repr

namespace GraceSet

variable {α κ : Type} [Keyed α κ] [DecidableEq κ]

/-- The expiries that a new member survives. -/
def grace : Nat := 1

def items (s : GraceSet α) : List α := s.held.map (·.item)

def isEmpty (s : GraceSet α) : Bool := s.held.isEmpty

def contains (s : GraceSet α) (key : κ) : Bool := s.held.any fun h => Keyed.key h.item = key

/-- Whether the key was new, and the set with it. A member that is there already is not renewed. -/
def insert (s : GraceSet α) (a : α) : Bool × GraceSet α :=
  if s.contains (Keyed.key a) then (false, s) else (true, ⟨s.held ++ [⟨a, grace⟩]⟩)

/-- Whether the key was there, and the set without it. -/
def remove (s : GraceSet α) (key : κ) : Bool × GraceSet α :=
  (s.contains key, ⟨s.held.filter fun h => Keyed.key h.item ≠ key⟩)

def insertAll (s : GraceSet α) (as : List α) : GraceSet α :=
  as.foldl (fun s a => (s.insert a).2) s

omit [Keyed α κ] [DecidableEq κ] in
/-- Uses up one expiry of every member and drops those that have none left. -/
def expire (s : GraceSet α) : GraceSet α :=
  ⟨s.held.filterMap fun h => if h.grace = 0 then none else some { h with grace := h.grace - 1 }⟩

end GraceSet

end JarPruning
