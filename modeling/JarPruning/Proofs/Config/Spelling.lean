import JarPruning.Config.Policy
import Mathlib.Data.List.TakeWhile

/-!
How annotations are named in a configuration. Blanks around a name do not count; what is left is
a descriptor or a class name with dots, and both spell the same descriptor.
-/
namespace JarPruning

namespace Blank

/-- A text with the blanks around it, and what is left of it: nothing, or a text that begins and
ends with something else. -/
inductive Trims : List Char → List Char → Prop
  | intro {before core after : List Char} (hbefore : ∀ c ∈ before, isBlank c = true)
    (hafter : ∀ c ∈ after, isBlank c = true) (hfirst : ∀ c ∈ core.head?, isBlank c = false)
    (hlast : ∀ c ∈ core.getLast?, isBlank c = false) : Trims (before ++ core ++ after) core

theorem dropWhile_eq_self {p : Char → Bool} {cs : List Char} (h : ∀ c ∈ cs.head?, p c = false) :
    cs.dropWhile p = cs := by
  cases cs with
  | nil => rfl
  | cons c cs => rw [List.dropWhile_cons_of_neg (by simp [h c rfl])]

theorem head?_dropWhile {p : Char → Bool} {cs : List Char} :
    ∀ c ∈ (cs.dropWhile p).head?, p c = false := by
  intro c hc
  have h := List.head?_dropWhile_not p cs
  rw [hc] at h
  exact h

theorem trims_trimChars (cs : List Char) : Trims cs (trimChars cs) := by
  -- The blanks behind are those in front of the reversed text.
  have hback : cs.dropWhile isBlank =
      trimChars cs ++ ((cs.dropWhile isBlank).reverse.takeWhile isBlank).reverse := by
    rw [trimChars, ← List.reverse_append, List.takeWhile_append_dropWhile, List.reverse_reverse]
  have hfirst : ∀ c ∈ (trimChars cs).head?, isBlank c = false := by
    intro c hc
    have hhead : c ∈ (cs.dropWhile isBlank).head? := by
      rw [hback, List.head?_append, hc]
      rfl
    exact head?_dropWhile c hhead
  have hlast : ∀ c ∈ (trimChars cs).getLast?, isBlank c = false := by
    intro c hc
    rw [trimChars, List.getLast?_reverse] at hc
    exact head?_dropWhile c hc
  have htrims : Trims (cs.takeWhile isBlank ++ trimChars cs ++
      ((cs.dropWhile isBlank).reverse.takeWhile isBlank).reverse) (trimChars cs) :=
    .intro (fun c hc => List.mem_takeWhile_imp hc)
      (fun c hc => List.mem_takeWhile_imp (List.mem_reverse.1 hc)) hfirst hlast
  rwa [List.append_assoc, ← hback, List.takeWhile_append_dropWhile] at htrims

theorem Trims.trimChars_eq {cs core : List Char} (h : Trims cs core) : trimChars cs = core := by
  obtain ⟨hbefore, hafter, hfirst, hlast⟩ := h
  rename_i before after
  have hfront :
      (before ++ core ++ after).dropWhile isBlank = (core ++ after).dropWhile isBlank := by
    rw [List.append_assoc, List.dropWhile_append_of_pos hbefore]
  cases core with
  | nil =>
    have hnone : after.dropWhile isBlank = [] := List.dropWhile_eq_nil_iff.2 hafter
    rw [trimChars, hfront, List.nil_append, hnone]
    rfl
  | cons c core =>
    have hkept : (c :: core ++ after).dropWhile isBlank = c :: core ++ after :=
      dropWhile_eq_self hfirst
    have hend : (c :: core).reverse.dropWhile isBlank = (c :: core).reverse :=
      dropWhile_eq_self (by rwa [List.head?_reverse])
    rw [trimChars, hfront, hkept, List.reverse_append,
      List.dropWhile_append_of_pos fun c hc => hafter c (List.mem_reverse.1 hc), hend,
      List.reverse_reverse]

end Blank

namespace Policy

/-! Class names. -/

/-- A part of a class name. -/
structure IsPart (part : List Char) : Prop where
  filled : part ≠ []
  dots : '.' ∉ part
  plain : ∀ c ∈ part, c ≠ '/' ∧ c ≠ ';' ∧ c ≠ '['

/-- The descriptor that a text stands for: itself, or that of the class which it names by parts
with dots between them. -/
inductive Spells : List Char → List Char → Prop
  | descriptor {inside : List Char} (h : inside ≠ []) :
    Spells ('L' :: inside ++ [';']) ('L' :: inside ++ [';'])
  | className {part : List Char} {parts : List (List Char)} (h : ∀ p ∈ part :: parts, IsPart p) :
    Spells (part ++ parts.flatMap ('.' :: ·)) ('L' :: (part ++ parts.flatMap ('/' :: ·)) ++ [';'])

theorem partsFilled_append {part rest : List Char} (h : '.' ∉ part) :
    partsFilled false (part ++ rest) = partsFilled false rest := by
  induction part with
  | nil => rfl
  | cons c part ih =>
    obtain ⟨hc, hpart⟩ := not_or.1 (mt List.mem_cons.2 h)
    rw [List.cons_append, partsFilled, if_neg (Ne.symm hc), ih hpart]

theorem partsFilled_part {part rest : List Char} (hfilled : part ≠ []) (h : '.' ∉ part) :
    partsFilled true (part ++ rest) = partsFilled false rest := by
  obtain _ | ⟨c, part⟩ := part
  · exact absurd rfl hfilled
  · obtain ⟨hc, hpart⟩ := not_or.1 (mt List.mem_cons.2 h)
    rw [List.cons_append, partsFilled, if_neg (Ne.symm hc), partsFilled_append hpart]

theorem partsFilled_parts {parts : List (List Char)}
    (h : ∀ p ∈ parts, p ≠ [] ∧ '.' ∉ p) : partsFilled false (parts.flatMap ('.' :: ·)) = true := by
  induction parts with
  | nil => rfl
  | cons part parts ih =>
    obtain ⟨⟨hfilled, hdots⟩, hparts⟩ := List.forall_mem_cons.1 h
    rw [List.flatMap_cons, List.cons_append, partsFilled, if_pos rfl,
      partsFilled_part hfilled hdots, ih hparts]
    rfl

/-- The parts of a text that begins with a part, and of what follows the beginning of one. -/
theorem exists_parts (cs : List Char) :
    (partsFilled true cs = true → ∃ part parts, (∀ p ∈ part :: parts, p ≠ [] ∧ '.' ∉ p) ∧
      cs = part ++ parts.flatMap ('.' :: ·)) ∧
    (partsFilled false cs = true → ∃ (part : List Char) (parts : List (List Char)), '.' ∉ part ∧
      (∀ p ∈ parts, p ≠ [] ∧ '.' ∉ p) ∧ cs = part ++ parts.flatMap ('.' :: ·)) := by
  -- Behind a dot the second statement needs the first, behind any other character the first needs
  -- the second, so the two go through together only.
  induction cs with
  | nil => exact ⟨fun h => (by cases h), fun _ => ⟨[], [], by simp, by simp, rfl⟩⟩
  | cons c cs ih =>
    obtain ⟨ihdot, ihpart⟩ := ih
    by_cases hc : c = '.'
    · subst hc
      refine ⟨fun h => (by cases h), fun h => ?_⟩
      rw [partsFilled, if_pos rfl] at h
      obtain ⟨part, parts, hparts, hcs⟩ := ihdot (by simpa using h)
      exact ⟨[], part :: parts, by simp, hparts, by rw [hcs]; rfl⟩
    · simp only [partsFilled, if_neg hc]
      refine ⟨fun h => ?_, fun h => ?_⟩
      · obtain ⟨part, parts, hpart, hparts, hcs⟩ := ihpart h
        refine ⟨c :: part, parts, List.forall_mem_cons.2 ⟨⟨by simp, ?_⟩, hparts⟩, by rw [hcs]; rfl⟩
        exact fun hmem => (List.mem_cons.1 hmem).elim (fun h => hc h.symm) hpart
      · obtain ⟨part, parts, hpart, hparts, hcs⟩ := ihpart h
        refine ⟨c :: part, parts, ?_, hparts, by rw [hcs]; rfl⟩
        exact fun hmem => (List.mem_cons.1 hmem).elim (fun h => hc h.symm) hpart

theorem partsFilled_iff {cs : List Char} :
    partsFilled true cs = true ↔ ∃ part parts, (∀ p ∈ part :: parts, p ≠ [] ∧ '.' ∉ p) ∧
      cs = part ++ parts.flatMap ('.' :: ·) := by
  constructor
  · exact (exists_parts cs).1
  · rintro ⟨part, parts, h, rfl⟩
    obtain ⟨⟨hfilled, hdots⟩, hparts⟩ := List.forall_mem_cons.1 h
    rw [partsFilled_part hfilled hdots, partsFilled_parts hparts]

/-- The class name with slashes. -/
def slashed (cs : List Char) : List Char := cs.map fun c => if c = '.' then '/' else c

theorem slashed_part {part : List Char} (h : '.' ∉ part) : slashed part = part := by
  have hkept : ∀ c ∈ part, (if c = '.' then '/' else c) = id c := by
    intro c hc
    refine if_neg ?_
    rintro rfl
    exact h hc
  rw [slashed, List.map_congr_left hkept, List.map_id]

theorem slashed_parts {parts : List (List Char)} (h : ∀ p ∈ parts, '.' ∉ p) :
    slashed (parts.flatMap ('.' :: ·)) = parts.flatMap ('/' :: ·) := by
  induction parts with
  | nil => rfl
  | cons part parts ih =>
    obtain ⟨hpart, hparts⟩ := List.forall_mem_cons.1 h
    have hcons : slashed ('.' :: part) = '/' :: slashed part := rfl
    rw [List.flatMap_cons, List.flatMap_cons, slashed, List.map_append]
    exact congrArg₂ (· ++ ·) (hcons.trans (by rw [slashed_part hpart])) (ih hparts)

theorem isDescriptor_iff {cs : List Char} :
    isDescriptor cs = true ↔ ∃ inside, inside ≠ [] ∧ cs = 'L' :: inside ++ [';'] := by
  simp only [isDescriptor, Bool.and_eq_true, beq_iff_eq, decide_eq_true_eq]
  constructor
  · rintro ⟨⟨hhead, hlast⟩, hlength⟩
    obtain ⟨front, rfl⟩ := List.getLast?_eq_some_iff.1 hlast
    obtain _ | ⟨c, inside⟩ := front
    · cases hhead
    · cases hhead
      refine ⟨inside, ?_, rfl⟩
      rintro rfl
      exact absurd hlength (by decide)
  · rintro ⟨inside, hinside, rfl⟩
    have hlength : 0 < inside.length := List.length_pos_iff.2 hinside
    exact ⟨⟨rfl, List.getLast?_concat ..⟩, by simpa using hlength⟩

theorem plain_iff {cs : List Char} :
    (cs.any fun c => c = '/' || c = ';' || c = '[') = false ↔
      ∀ c ∈ cs, c ≠ '/' ∧ c ≠ ';' ∧ c ≠ '[' := by
  simp [List.any_eq_false, and_assoc]

theorem plain_parts {part : List Char} {parts : List (List Char)} :
    ((part ++ parts.flatMap ('.' :: ·)).any fun c => c = '/' || c = ';' || c = '[') = false ↔
      ∀ p ∈ part :: parts, ∀ c ∈ p, c ≠ '/' ∧ c ≠ ';' ∧ c ≠ '[' := by
  have hdot : '.' ≠ '/' ∧ '.' ≠ ';' ∧ '.' ≠ '[' := by decide
  rw [plain_iff, List.forall_mem_append, List.forall_mem_cons, List.forall_mem_flatMap]
  simp only [List.forall_mem_cons, and_iff_right hdot]

/-- A text spells its descriptor in one of two ways: as it is, or with slashes for its dots. -/
theorem spells_iff {cs ds : List Char} : Spells cs ds ↔
    (isDescriptor cs = true ∧ ds = cs) ∨
      isDescriptor cs = false ∧ (cs.any fun c => c = '/' || c = ';' || c = '[') = false ∧
        partsFilled true cs = true ∧ ds = 'L' :: slashed cs ++ [';'] := by
  have hslashed {part : List Char} {parts : List (List Char)}
      (h : ∀ p ∈ part :: parts, '.' ∉ p) :
      slashed (part ++ parts.flatMap ('.' :: ·)) = part ++ parts.flatMap ('/' :: ·) := by
    obtain ⟨hpart, hparts⟩ := List.forall_mem_cons.1 h
    rw [← slashed_parts hparts, slashed, List.map_append]
    exact congrArg (· ++ _) (slashed_part hpart)
  constructor
  · intro h
    cases h with
    | descriptor hinside => exact .inl ⟨isDescriptor_iff.2 ⟨_, hinside, rfl⟩, rfl⟩
    | @className part parts h =>
      have hplain := plain_parts.2 fun p hp => (h p hp).plain
      refine .inr ⟨Bool.eq_false_iff.2 fun hdescriptor => ?_, hplain,
        partsFilled_iff.2 ⟨part, parts, fun p hp => ⟨(h p hp).filled, (h p hp).dots⟩, rfl⟩,
        by rw [hslashed fun p hp => (h p hp).dots]⟩
      obtain ⟨inside, -, hcs⟩ := isDescriptor_iff.1 hdescriptor
      refine (plain_iff.1 hplain ';' ?_).2.1 rfl
      rw [hcs]
      exact List.mem_append_right _ (List.mem_singleton_self _)
  · rintro (⟨h, rfl⟩ | ⟨-, hplain, hfilled, rfl⟩)
    · obtain ⟨inside, hinside, rfl⟩ := isDescriptor_iff.1 h
      exact .descriptor hinside
    · obtain ⟨part, parts, hparts, rfl⟩ := partsFilled_iff.1 hfilled
      rw [hslashed fun p hp => (hparts p hp).2]
      exact .className fun p hp =>
        ⟨(hparts p hp).1, (hparts p hp).2, plain_parts.1 hplain p hp⟩

/-- A name spells a descriptor, whatever blanks are around it. -/
theorem descriptor_eq_ok_iff {name d : String} :
    descriptor name = .ok d ↔ ∃ core, Blank.Trims name.toList core ∧ Spells core d.toList := by
  have htrims : (∃ core, Blank.Trims name.toList core ∧ Spells core d.toList) ↔
      Spells (Blank.trimChars name.toList) d.toList := by
    constructor
    · rintro ⟨core, htrims, h⟩
      rwa [htrims.trimChars_eq]
    · exact fun h => ⟨_, Blank.trims_trimChars _, h⟩
  have hok (cs : List Char) :
      (Except.ok (String.ofList cs) : Except Fault String) = .ok d ↔ d.toList = cs := by
    rw [Except.ok.injEq, ← String.toList_inj, String.toList_ofList, eq_comm]
  rw [htrims, spells_iff, descriptor]
  generalize Blank.trimChars name.toList = core
  cases isDescriptor core with
  | true => simp [hok]
  | false =>
    cases core.any fun c => c = '/' || c = ';' || c = '[' with
    | true => simp
    | false =>
      cases partsFilled true core with
      | false => simp
      | true =>
        simp only [Bool.false_eq_true, ↓reduceIte, Bool.not_true, Bool.or_self, hok, slashed,
          false_and, false_or, true_and]

end Policy

end JarPruning
