import Mathlib.Data.List.Forall2

/-!
Computations that may fail: what it takes for one to succeed, and when another succeeds with it.
-/
namespace JarPruning

section

variable {ε δ α β : Type}

theorem bind_ok_iff {x : Except ε α} {f : α → Except ε β} {b : β} :
    x >>= f = .ok b ↔ ∃ a, x = .ok a ∧ f a = .ok b := by
  cases x with
  | error e => simp [Bind.bind, Except.bind]
  | ok a => simp [Bind.bind, Except.bind]

theorem mapError_ok (f : ε → δ) (a : α) : (Except.ok a : Except ε α).mapError f = .ok a := rfl

theorem mapError_error (f : ε → δ) (e : ε) :
    (Except.error e : Except ε α).mapError f = .error (f e) := rfl

theorem mapError_ok_iff {x : Except ε α} {f : ε → δ} {a : α} :
    x.mapError f = .ok a ↔ x = .ok a := by
  cases x with
  | error e => simp [mapError_error]
  | ok a => simp [mapError_ok]

/-- Mapping over a list succeeds item by item. -/
theorem mapM_ok_iff {f : α → Except ε β} {l : List α} {bs : List β} :
    l.mapM f = .ok bs ↔ List.Forall₂ (fun a b => f a = .ok b) l bs := by
  induction l generalizing bs with
  | nil =>
    constructor
    · intro h
      cases h
      exact .nil
    · intro h
      cases h
      rfl
  | cons a l ih =>
    rw [List.mapM_cons, bind_ok_iff]
    constructor
    · rintro ⟨b, hb, h⟩
      obtain ⟨bs', hbs', h⟩ := bind_ok_iff.1 h
      cases h
      exact .cons hb (ih.1 hbs')
    · intro h
      obtain _ | ⟨hb, hbs⟩ := h
      exact ⟨_, hb, bind_ok_iff.2 ⟨_, ih.2 hbs, rfl⟩⟩

/-- Mapping the answers of a mapping. -/
theorem mapM_mapM_ok_iff {γ : Type} {f : α → Except ε β} {g : β → Except ε γ} {l : List α}
    {cs : List γ} : (l.mapM f >>= fun bs => bs.mapM g) = .ok cs ↔
      List.Forall₂ (fun a c => ∃ b, f a = .ok b ∧ g b = .ok c) l cs := by
  rw [bind_ok_iff]
  constructor
  · rintro ⟨bs, hbs, hcs⟩
    rw [mapM_ok_iff] at hbs hcs
    induction hbs generalizing cs with
    | nil =>
      cases hcs
      exact .nil
    | cons hb _ ih =>
      obtain _ | ⟨hc, hcs⟩ := hcs
      exact .cons ⟨_, hb, hc⟩ (ih hcs)
  · intro h
    induction h with
    | nil => exact ⟨[], rfl, rfl⟩
    | cons hc _ ih =>
      obtain ⟨b, hb, hc⟩ := hc
      obtain ⟨bs, hbs, hcs⟩ := ih
      rw [mapM_ok_iff] at hbs hcs
      exact ⟨b :: bs, mapM_ok_iff.2 (.cons hb hbs), mapM_ok_iff.2 (.cons hc hcs)⟩

/-- Mapping that keeps each item beside its answer. -/
theorem paired_ok_iff {f : α → Except ε β} {l : List α} {ps : List (α × β)} :
    (l.mapM fun a => do return (a, ← f a)) = .ok ps ↔
      l = ps.map (·.1) ∧ ∀ p ∈ ps, f p.1 = .ok p.2 := by
  rw [mapM_ok_iff]
  constructor
  · intro h
    induction h with
    | nil => exact ⟨rfl, by simp⟩
    | cons hp _ ih =>
      obtain ⟨b, hb, hp⟩ := bind_ok_iff.1 hp
      cases hp
      exact ⟨by rw [ih.1, List.map_cons], by simpa [hb] using ih.2⟩
  · rintro ⟨rfl, h⟩
    rw [List.forall₂_map_left_iff, List.forall₂_same]
    exact fun p hp => bind_ok_iff.2 ⟨p.2, h p hp, rfl⟩

/-- Items that each have an answer have a list of answers. -/
theorem exists_forall₂ {R : α → β → Prop} {P : β → Prop} {as : List α}
    (h : ∀ a ∈ as, ∃ b, R a b ∧ P b) : ∃ bs, List.Forall₂ R as bs ∧ ∀ b ∈ bs, P b := by
  induction as with
  | nil => exact ⟨[], .nil, by simp⟩
  | cons a as ih =>
    obtain ⟨⟨b, hab, hb⟩, hrest⟩ := List.forall_mem_cons.1 h
    obtain ⟨bs, hall, hbs⟩ := ih hrest
    exact ⟨b :: bs, .cons hab hall, List.forall_mem_cons.2 ⟨hb, hbs⟩⟩

theorem forall₂_mem_left {R : α → β → Prop} {as : List α} {bs : List β} (h : List.Forall₂ R as bs)
    {a : α} (ha : a ∈ as) : ∃ b ∈ bs, R a b := by
  induction h with
  | nil => cases ha
  | @cons a' b _ _ hab _ ih =>
    obtain rfl | ha := List.mem_cons.1 ha
    · exact ⟨b, List.mem_cons_self .., hab⟩
    · obtain ⟨b', hb', h⟩ := ih ha
      exact ⟨b', List.mem_cons_of_mem _ hb', h⟩

theorem forall₂_mem_right {R : α → β → Prop} {as : List α} {bs : List β} (h : List.Forall₂ R as bs)
    {b : β} (hb : b ∈ bs) : ∃ a ∈ as, R a b :=
  forall₂_mem_left h.flip hb

end

/-- A run of two steps is a run of the first and then of the second. -/
theorem run_bind_ok {ε σ α β : Type} {x : EStateM ε σ α} {f : α → EStateM ε σ β} {s t : σ}
    {b : β} (h : (x >>= f).run s = .ok b t) :
    ∃ a s', x.run s = .ok a s' ∧ (f a).run s' = .ok b t := by
  cases hx : x.run s with
  | error e s' =>
    simp only [EStateM.run] at hx
    simp [EStateM.run, Bind.bind, EStateM.bind, hx] at h
  | ok a s' =>
    simp only [EStateM.run] at hx h ⊢
    simp only [Bind.bind, EStateM.bind, hx] at h
    exact ⟨a, s', rfl, h⟩

theorem run_bind_of_ok {ε σ α β : Type} {x : EStateM ε σ α} {f : α → EStateM ε σ β} {s s' : σ}
    {a : α} {result : EStateM.Result ε σ β} (hx : x.run s = .ok a s') (hf : (f a).run s' = result) :
    (x >>= f).run s = result := by
  rw [EStateM.run_bind, hx]
  exact hf

/-- Whatever `x` answers, `y` answers too. -/
def Persists {ε α : Type} (x y : Except ε α) : Prop := ∀ a, x = .ok a → y = .ok a

namespace Persists

variable {ε α β : Type}

theorem refl (x : Except ε α) : Persists x x := fun _ h => h

theorem bind {x y : Except ε α} {f g : α → Except ε β} (h : Persists x y)
    (hf : ∀ a, x = .ok a → Persists (f a) (g a)) : Persists (x >>= f) (y >>= g) := by
  intro b hb
  cases hx : x with
  | error e => simp [hx, Bind.bind, Except.bind] at hb
  | ok a =>
    rw [hx] at hb
    rw [h a hx]
    exact hf a hx b hb

theorem mapM {f g : α → Except ε β} {l : List α} (h : ∀ a ∈ l, Persists (f a) (g a)) :
    Persists (l.mapM f) (l.mapM g) := by
  induction l with
  | nil => exact refl _
  | cons a l ih =>
    rw [List.mapM_cons, List.mapM_cons]
    refine bind (h a (List.mem_cons_self ..)) fun b _ => ?_
    exact bind (ih fun a ha => h a (List.mem_cons_of_mem _ ha)) fun bs _ => refl _

end Persists

end JarPruning
