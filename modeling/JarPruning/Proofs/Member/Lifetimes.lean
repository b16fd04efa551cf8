import JarPruning.Proofs.Member.GraceSet
import Mathlib.Data.List.Nodup

/-!
A set of expiring members told by the calls that led to it. Its members are those of the accepted
insertions that no later call took back: none removed them, and at most one was an expiry.
-/
namespace JarPruning

theorem Member.key_eq_iff {m m' : Member} :
    Keyed.key m = Keyed.key m' ↔ m.name = m'.name ∧ m.descriptor = m'.descriptor :=
  Iff.of_eq (Signature.mk.injEq ..)

theorem FieldTarget.key_eq_iff {f f' : FieldTarget} :
    Keyed.key f = Keyed.key f' ↔ f.name = f'.name ∧ f.extension = f'.extension :=
  Iff.of_eq (FieldKey.mk.injEq ..)

namespace GraceSet

/-- A call that changes a set of members `α` with keys `κ`. -/
inductive Call (α κ : Type) where
  | insert (a : α)
  | remove (key : κ)
  | expire
  deriving DecidableEq, Repr

variable {α κ : Type}

/-- A history is cut at its first call or behind it. -/
theorem exists_cut_cons {c d : Call α κ} {calls behind : List (Call α κ)}
    {p : List (Call α κ) → Prop} :
    (∃ before, c :: calls = before ++ d :: behind ∧ p before) ↔
      (c = d ∧ calls = behind ∧ p []) ∨
        ∃ before, calls = before ++ d :: behind ∧ p (c :: before) := by
  constructor
  · rintro ⟨before, heq, hp⟩
    cases before with
    | nil =>
      obtain ⟨rfl, rfl⟩ := List.cons_eq_cons.1 heq
      exact .inl ⟨rfl, rfl, hp⟩
    | cons c' before =>
      obtain ⟨rfl, rfl⟩ := List.cons_eq_cons.1 heq
      exact .inr ⟨before, rfl, hp⟩
  · rintro (⟨rfl, rfl, hp⟩ | ⟨before, rfl, hp⟩)
    · exact ⟨[], rfl, hp⟩
    · exact ⟨c :: before, rfl, hp⟩

def Call.expires : Call α κ → Bool
  | .expire => true
  | _ => false

variable [DecidableEq κ]

def Call.removes (key : κ) : Call α κ → Bool
  | .remove k => k = key
  | _ => false

/-- Whether some calls leave a member in that survives a number of expiries. -/
def spare (calls : List (Call α κ)) (key : κ) (grace : Nat) : Bool :=
  !calls.any (·.removes key) && decide (calls.countP Call.expires ≤ grace)

section Spare

variable {calls : List (Call α κ)} {key : κ} {g : Nat}

theorem spare_iff :
    spare calls key g = true ↔ .remove key ∉ calls ∧ calls.countP Call.expires ≤ g := by
  have hremoves (c : Call α κ) : c.removes key = true ↔ c = .remove key := by
    cases c <;> simp [Call.removes]
  have hany : calls.any (·.removes key) = true ↔ .remove key ∈ calls := by
    simp only [List.any_eq_true, hremoves, exists_eq_right]
  rw [spare, Bool.and_eq_true, Bool.not_eq_true', ← Bool.not_eq_true, hany, decide_eq_true_iff]

@[simp] theorem spare_nil : spare ([] : List (Call α κ)) key g = true := by simp [spare]

@[simp] theorem spare_insert (a : α) : spare (.insert a :: calls) key g = spare calls key g := by
  rw [Bool.eq_iff_iff, spare_iff, spare_iff]
  simp [Call.expires]

@[simp] theorem spare_remove (k : κ) :
    spare (.remove k :: calls) key g = (decide (key ≠ k) && spare calls key g) := by
  rw [Bool.eq_iff_iff, Bool.and_eq_true, spare_iff, spare_iff]
  simp [Call.expires, and_assoc]

/-- An expiry takes out a member without grace and uses up one expiry of any other. -/
@[simp] theorem spare_expire :
    spare (.expire :: calls) key g = (decide (g ≠ 0) && spare calls key (g - 1)) := by
  rw [Bool.eq_iff_iff, Bool.and_eq_true, spare_iff, spare_iff, List.countP_cons_of_pos rfl]
  have hgrace : calls.countP Call.expires + 1 ≤ g ↔
      g ≠ 0 ∧ calls.countP Call.expires ≤ g - 1 := by omega
  simp [hgrace, and_left_comm]

end Spare

variable [Keyed α κ]

def Call.apply (s : GraceSet α) : Call α κ → GraceSet α
  | .insert a => (s.insert a).2
  | .remove key => (s.remove key).2
  | .expire => s.expire

/-- The set after some calls. -/
def run (s : GraceSet α) (calls : List (Call α κ)) : GraceSet α := calls.foldl Call.apply s

theorem run_cons (s : GraceSet α) (c : Call α κ) (calls : List (Call α κ)) :
    run s (c :: calls) = run (c.apply s) calls := rfl

theorem run_append (s : GraceSet α) (calls behind : List (Call α κ)) :
    run s (calls ++ behind) = run (run s calls) behind := List.foldl_append

/-- The insertions that a set accepts, each with the calls behind it. -/
def accepted (s : GraceSet α) : List (Call α κ) → List (α × List (Call α κ))
  | [] => []
  | .insert a :: calls =>
    if s.contains (Keyed.key a) then accepted s calls
    else (a, calls) :: accepted (s.insert a).2 calls
  | .remove key :: calls => accepted (s.remove key).2 calls
  | .expire :: calls => accepted s.expire calls

/-- The members of a set that some calls leave in. -/
def remaining (s : GraceSet α) (calls : List (Call α κ)) : List α :=
  (s.held.filter fun h => spare calls (Keyed.key h.item) h.grace).map (·.item)

/-- The members that some calls put in and leave in. -/
def arrivals (s : GraceSet α) (calls : List (Call α κ)) : List α :=
  ((accepted s calls).filter fun p => spare p.2 (Keyed.key p.1) grace).map (·.1)

section Steps

variable {s : GraceSet α} {a : α}

/-- No call brings two members with equal keys together. -/
theorem nodup_apply (h : (s.items.map Keyed.key).Nodup) (c : Call α κ) :
    ((c.apply s).items.map Keyed.key).Nodup := by
  cases c with
  | insert a =>
    cases hcontains : s.contains (Keyed.key a) with
    | true => rwa [Call.apply, insert_of_contains hcontains]
    | false =>
      have hnew : Keyed.key a ∉ s.items.map Keyed.key := by
        intro hmem
        rw [contains_iff_items.2 (List.mem_map.1 hmem)] at hcontains
        cases hcontains
      rw [Call.apply, items, held_insert_of_new hcontains, List.map_append, List.map_append]
      show (s.items.map Keyed.key ++ [Keyed.key a]).Nodup
      rw [← List.concat_eq_append]
      exact List.Nodup.concat hnew h
  | remove key => exact h.sublist ((List.filter_sublist.map _).map _)
  | expire =>
    rw [Call.apply, items_expire]
    exact h.sublist ((List.filter_sublist.map _).map _)

theorem remaining_insert (h : s.contains (Keyed.key a) = false) (calls : List (Call α κ)) :
    remaining (s.insert a).2 calls = remaining s (.insert a :: calls) ++
      (if spare calls (Keyed.key a) grace then [a] else []) := by
  rw [remaining, held_insert_of_new h, List.filter_append, List.map_append, remaining]
  simp only [spare_insert]
  cases hspare : spare calls (Keyed.key a) grace <;> simp [hspare]

theorem remaining_remove (s : GraceSet α) (key : κ) (calls : List (Call α κ)) :
    remaining (s.remove key).2 calls = remaining s (.remove key :: calls) := by
  simp only [remaining, remove, List.filter_filter, spare_remove, Bool.and_comm]

theorem remaining_expire (s : GraceSet α) (calls : List (Call α κ)) :
    remaining s.expire calls = remaining s (.expire :: calls) := by
  rw [remaining, remaining, expire]
  induction s.held with
  | nil => rfl
  | cons h hs ih =>
    by_cases hg : h.grace = 0
    · simpa [hg] using ih
    · cases hspare : spare calls (Keyed.key h.item) (h.grace - 1) <;> simpa [hg, hspare] using ih

/-- What a set holds after some calls was there before and stays, or comes in and stays. -/
theorem items_run (s : GraceSet α) (calls : List (Call α κ)) :
    (run s calls).items = remaining s calls ++ arrivals s calls := by
  -- Over every set: an accepted insertion moves its member from the arrivals to what remains.
  induction calls generalizing s with
  | nil => simp [run, remaining, arrivals, accepted, items]
  | cons c calls ih =>
    rw [run_cons, ih]
    cases c with
    | insert a =>
      cases hcontains : s.contains (Keyed.key a) with
      | true =>
        rw [Call.apply, insert_of_contains hcontains]
        simp [remaining, arrivals, accepted, hcontains]
      | false =>
        rw [Call.apply, remaining_insert hcontains, List.append_assoc]
        cases hspare : spare calls (Keyed.key a) grace <;>
          simp [arrivals, accepted, hcontains, hspare]
    | remove key => rw [Call.apply, remaining_remove, arrivals, arrivals, accepted]
    | expire => rw [Call.apply, remaining_expire, arrivals, arrivals, accepted]

/-- An insertion is accepted if the calls in front of it leave no member with its key. -/
theorem mem_accepted_iff {calls behind : List (Call α κ)} :
    (a, behind) ∈ accepted s calls ↔
      ∃ before, calls = before ++ .insert a :: behind ∧
        (run s before).contains (Keyed.key a) = false := by
  fun_induction accepted s calls with
  | case1 s => simp
  | case2 s b calls hcontains ih =>
    have hhead : ¬(.insert b = (.insert a : Call α κ) ∧ calls = behind ∧
        (run s ([] : List (Call α κ))).contains (Keyed.key a) = false) := by
      rintro ⟨heq, -, hnew⟩
      cases heq
      exact Bool.false_ne_true (hnew.symm.trans hcontains)
    rw [exists_cut_cons, or_iff_right hhead, ih]
    simp only [run_cons, Call.apply, insert_of_contains hcontains]
  | case3 s b calls hcontains ih =>
    have hhead : (a, behind) = (b, calls) ↔ .insert b = (.insert a : Call α κ) ∧
        calls = behind ∧ (run s ([] : List (Call α κ))).contains (Keyed.key a) = false := by
      constructor
      · rintro ⟨⟩
        exact ⟨rfl, rfl, Bool.eq_false_iff.2 hcontains⟩
      · rintro ⟨⟨⟩, rfl, -⟩
        rfl
    rw [exists_cut_cons, List.mem_cons, hhead, ih]
    rfl
  | case4 s key calls ih =>
    rw [exists_cut_cons, ih]
    simp [run_cons, Call.apply]
  | case5 s calls ih =>
    rw [exists_cut_cons, ih]
    simp [run_cons, Call.apply]

theorem nodup_run (h : (s.items.map Keyed.key).Nodup) (calls : List (Call α κ)) :
    ((run s calls).items.map Keyed.key).Nodup := by
  induction calls generalizing s with
  | nil => exact h
  | cons c calls ih => exact ih (nodup_apply h c)

end Steps

section Histories

variable {calls : List (Call α κ)}

theorem items_run_empty : (run {} calls).items = arrivals {} calls := by
  rw [items_run]
  rfl

theorem contains_run_iff {key : κ} :
    (run {} calls).contains key = true ↔ ∃ before a behind,
      calls = before ++ .insert a :: behind ∧ Keyed.key a = key ∧
      (run {} before).contains key = false ∧
      .remove key ∉ behind ∧ behind.countP Call.expires ≤ 1 := by
  rw [contains_iff_items, items_run_empty, arrivals]
  constructor
  · rintro ⟨_, harrived, rfl⟩
    obtain ⟨⟨a, behind⟩, hmem, rfl⟩ := List.mem_map.1 harrived
    obtain ⟨haccepted, hspare⟩ := List.mem_filter.1 hmem
    obtain ⟨before, hcalls, hnew⟩ := mem_accepted_iff.1 haccepted
    exact ⟨before, a, behind, hcalls, rfl, hnew, spare_iff.1 hspare⟩
  · rintro ⟨before, a, behind, hcalls, rfl, hnew, hspare⟩
    have hmem : (a, behind) ∈ accepted {} calls := mem_accepted_iff.2 ⟨before, hcalls, hnew⟩
    exact ⟨a, List.mem_map.2 ⟨_, List.mem_filter.2 ⟨hmem, spare_iff.2 hspare⟩, rfl⟩, rfl⟩

theorem run_refused {s : GraceSet α} {a : α}
    (h : (run s calls).contains (Keyed.key a) = true) (behind : List (Call α κ)) :
    run s (calls ++ .insert a :: behind) = run s (calls ++ behind) := by
  rw [run_append, run_cons, Call.apply, insert_of_contains h, run_append]

end Histories

/-- Methods are alike if name and descriptor agree, fields if name and extension do. Whatever calls
an empty set has been through, no two of its members are alike. It contains a member iff one alike
was inserted while there was none, no call behind removed it and at most one was an expiry. An
insertion tells whether the member is new, a removal whether it was there, which is when the number
of members changes. An insertion that is refused changes nothing, so it renews no member. And the
members are in the order in which they were accepted. -/
theorem members_of_calls :
    (∀ m m' : Member,
      Keyed.key m = Keyed.key m' ↔ m.name = m'.name ∧ m.descriptor = m'.descriptor) ∧
    (∀ f f' : FieldTarget,
      Keyed.key f = Keyed.key f' ↔ f.name = f'.name ∧ f.extension = f'.extension) ∧
    ∀ (α κ : Type) [Keyed α κ] [DecidableEq κ] (calls : List (Call α κ)),
      ((run {} calls).items.map Keyed.key).Nodup ∧
      (∀ key, (run {} calls).contains key = true ↔ ∃ before a behind,
        calls = before ++ .insert a :: behind ∧ Keyed.key a = key ∧
        (run {} before).contains key = false ∧
        .remove key ∉ behind ∧ behind.countP Call.expires ≤ 1) ∧
      (∀ a, ((run {} calls).insert a).1 = true ↔
        (run {} calls).contains (Keyed.key a) = false) ∧
      (∀ key,
        (((run {} calls).remove key).1 = true ↔ (run {} calls).contains key = true) ∧
        (((run {} calls).remove key).1 = true ↔
          ((run {} calls).remove key).2.items.length ≠ (run {} calls).items.length)) ∧
      (∀ a behind, (run {} calls).contains (Keyed.key a) = true →
        run {} (calls ++ .insert a :: behind) = run {} (calls ++ behind)) ∧
      (run {} calls).items = arrivals {} calls := by
  refine ⟨fun m m' => Member.key_eq_iff, fun f f' => FieldTarget.key_eq_iff, ?_⟩
  intro α κ _ _ calls
  have hempty : (({} : GraceSet α).items.map Keyed.key).Nodup := List.nodup_nil
  refine ⟨nodup_run hempty calls, fun key => contains_run_iff, fun a => insert_fst_iff,
    fun key => ⟨Iff.rfl, remove_fst_iff⟩, ?_, items_run_empty⟩
  intro a behind hthere
  exact run_refused hthere behind

/-- A field inserted again under another descriptor after its first expiry leaves with the second
one all the same. -/
theorem members_of_calls_field :
    let x : FieldTarget := ⟨"x", "I", "()"⟩
    let calls : List (Call FieldTarget FieldKey) := [.insert x, .expire]
    (run {} calls).contains x.key = true ∧
      run {} (calls ++ [.insert ⟨"x", "J", "()"⟩, .expire]) = run {} (calls ++ [.expire]) ∧
      (run {} (calls ++ [.expire])).items = [] := by
  intro x calls
  obtain ⟨-, -, -, -, hrefused, -⟩ := members_of_calls.2.2 FieldTarget FieldKey calls
  have hthere : (run {} calls).contains x.key = true := by decide
  exact ⟨hthere, hrefused ⟨"x", "J", "()"⟩ [.expire] hthere, rfl⟩

end GraceSet
end JarPruning
