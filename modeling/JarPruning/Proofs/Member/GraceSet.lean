import JarPruning.Member.GraceSet

/-! What a set of expiring members contains after each of its operations, and what these answer. -/
namespace JarPruning.GraceSet

variable {α κ : Type} [Keyed α κ] [DecidableEq κ]

theorem contains_iff {s : GraceSet α} {key : κ} :
    s.contains key = true ↔ ∃ h ∈ s.held, Keyed.key h.item = key := by
  simp [contains]

theorem contains_iff_items {s : GraceSet α} {key : κ} :
    s.contains key = true ↔ ∃ a ∈ s.items, Keyed.key a = key := by
  rw [contains_iff, items]
  constructor
  · rintro ⟨h, hmem, hkey⟩
    exact ⟨h.item, List.mem_map_of_mem hmem, hkey⟩
  · rintro ⟨a, hmem, hkey⟩
    obtain ⟨h, hheld, rfl⟩ := List.mem_map.1 hmem
    exact ⟨h, hheld, hkey⟩

theorem insert_of_contains {s : GraceSet α} {a : α} (h : s.contains (Keyed.key a) = true) :
    (s.insert a).2 = s := by
  rw [insert, if_pos h]

theorem held_insert_of_new {s : GraceSet α} {a : α} (h : s.contains (Keyed.key a) = false) :
    (s.insert a).2.held = s.held ++ [⟨a, grace⟩] := by
  rw [insert, if_neg (Bool.eq_false_iff.1 h)]

theorem insert_fst_iff {s : GraceSet α} {a : α} :
    (s.insert a).1 = true ↔ s.contains (Keyed.key a) = false := by
  cases h : s.contains (Keyed.key a) <;> simp [insert, h]

/-- What a removal answers can be read off the numbers of members before and after it. -/
theorem remove_fst_iff {s : GraceSet α} {key : κ} :
    (s.remove key).1 = true ↔ (s.remove key).2.items.length ≠ s.items.length := by
  rw [items, items, List.length_map, List.length_map, remove, Ne, List.length_filter_eq_length_iff,
    contains_iff]
  simp

omit [Keyed α κ] [DecidableEq κ] in
theorem items_expire (s : GraceSet α) :
    s.expire.items = (s.held.filter fun h => h.grace ≠ 0).map (·.item) := by
  rw [items, expire]
  induction s.held with
  | nil => rfl
  | cons h hs ih => by_cases hg : h.grace = 0 <;> simp [hg, ih]

theorem contains_insert (s : GraceSet α) (a : α) (key : κ) :
    (s.insert a).2.contains key = (s.contains key || decide (Keyed.key a = key)) := by
  unfold insert
  split
  · next h =>
    by_cases hk : Keyed.key a = key
    · subst hk
      simp [h]
    · simp [hk]
  · simp [contains]

theorem contains_insertAll (s : GraceSet α) (as : List α) (key : κ) :
    (s.insertAll as).contains key =
      (s.contains key || as.any fun a => decide (Keyed.key a = key)) := by
  unfold insertAll
  induction as generalizing s with
  | nil => simp
  | cons a as ih => rw [List.foldl_cons, ih, contains_insert, List.any_cons, Bool.or_assoc]

theorem contains_remove (s : GraceSet α) (key key' : κ) :
    (s.remove key).2.contains key' = (s.contains key' && decide (key' ≠ key)) := by
  rw [Bool.eq_iff_iff, Bool.and_eq_true, contains_iff, contains_iff]
  constructor
  · rintro ⟨h, hmem, rfl⟩
    obtain ⟨hmem, hne⟩ := List.mem_filter.1 hmem
    exact ⟨⟨h, hmem, rfl⟩, by simpa using hne⟩
  · rintro ⟨⟨h, hmem, rfl⟩, hne⟩
    exact ⟨h, List.mem_filter.2 ⟨hmem, by simpa using hne⟩, rfl⟩

theorem contains_expire_iff {s : GraceSet α} {key : κ} :
    s.expire.contains key = true ↔ ∃ h ∈ s.held, Keyed.key h.item = key ∧ h.grace ≠ 0 := by
  rw [contains_iff]
  constructor
  · rintro ⟨g, hmem, rfl⟩
    obtain ⟨g', hmem', hg⟩ := List.mem_filterMap.1 hmem
    split at hg
    · cases hg
    · next hgrace =>
      cases hg
      exact ⟨g', hmem', rfl, hgrace⟩
  · rintro ⟨g, hmem, rfl, hgrace⟩
    exact ⟨{ g with grace := g.grace - 1 }, List.mem_filterMap.2 ⟨g, hmem, if_neg hgrace⟩, rfl⟩

theorem contains_of_expire {s : GraceSet α} {key : κ} (h : s.expire.contains key = true) :
    s.contains key = true := by
  obtain ⟨g, hmem, hkey, -⟩ := contains_expire_iff.1 h
  exact contains_iff.2 ⟨g, hmem, hkey⟩

/-- What leaves the second set with the next expiry was in the first already. -/
def Renews (s s' : GraceSet α) : Prop := ∀ h ∈ s'.held, h.grace = 0 → h ∈ s.held

namespace Renews

variable {s s' s'' : GraceSet α}

omit [Keyed α κ] [DecidableEq κ] in
theorem refl (s : GraceSet α) : Renews s s := fun _ hmem _ => hmem

omit [Keyed α κ] [DecidableEq κ] in
theorem trans (h : Renews s s') (h' : Renews s' s'') : Renews s s'' :=
  fun g hmem hgrace => h g (h' g hmem hgrace) hgrace

/-- New members have their grace. -/
theorem insert (s : GraceSet α) (a : α) : Renews s (s.insert a).2 := by
  intro g hmem hgrace
  unfold GraceSet.insert at hmem
  split at hmem
  · exact hmem
  · rcases List.mem_append.1 hmem with hmem | hmem
    · exact hmem
    · obtain rfl := List.mem_singleton.1 hmem
      cases hgrace

theorem insertAll (s : GraceSet α) (as : List α) : Renews s (s.insertAll as) := by
  induction as generalizing s with
  | nil => exact refl s
  | cons a as ih => exact (insert s a).trans (ih _)

theorem remove (s : GraceSet α) (key : κ) : Renews s (s.remove key).2 :=
  fun _ hmem _ => (List.mem_filter.1 hmem).1

/-- A member is there after the next expiry, or was there from the start. -/
theorem contains (h : Renews s s') {key : κ} (hkey : s'.contains key = true) :
    s'.expire.contains key = true ∨ s.contains key = true := by
  obtain ⟨g, hmem, rfl⟩ := contains_iff.1 hkey
  by_cases hgrace : g.grace = 0
  · exact .inr (contains_iff.2 ⟨g, h g hmem hgrace, rfl⟩)
  · exact .inl (contains_expire_iff.2 ⟨g, hmem, rfl, hgrace⟩)

end Renews

end JarPruning.GraceSet
