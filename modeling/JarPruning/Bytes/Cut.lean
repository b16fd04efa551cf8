/-! Cutting a list at a length it must reach. -/
namespace JarPruning

/-- The first `n` items and the rest; none if there are fewer than `n`. -/
def cut? {α : Type} : Nat → List α → Option (List α × List α)
  | 0, l => some ([], l)
  | _ + 1, [] => none
  | n + 1, a :: l => (cut? n l).map fun (front, rest) => (a :: front, rest)

theorem cut?_append {α : Type} (front rest : List α) :
    cut? front.length (front ++ rest) = some (front, rest) := by
  induction front with
  | nil => rfl
  | cons a front ih => simp [cut?, ih]

theorem cut?_eq_some_iff {α : Type} {n : Nat} {l front rest : List α} :
    cut? n l = some (front, rest) ↔ l = front ++ rest ∧ front.length = n := by
  constructor
  · intro h
    induction n generalizing l front with
    | zero => simp_all [cut?]
    | succ n ih =>
      cases l with
      | nil => simp [cut?] at h
      | cons a l =>
        simp only [cut?, Option.map_eq_some_iff] at h
        obtain ⟨⟨f, r⟩, hf, he⟩ := h
        cases he
        obtain ⟨rfl, rfl⟩ := ih hf
        simp
  · rintro ⟨rfl, rfl⟩
    exact cut?_append front rest

theorem cut?_eq_none_iff {α : Type} {n : Nat} {l : List α} : cut? n l = none ↔ l.length < n := by
  induction n generalizing l with
  | zero => simp [cut?]
  | succ n ih => cases l <;> simp [cut?, ih]

end JarPruning
