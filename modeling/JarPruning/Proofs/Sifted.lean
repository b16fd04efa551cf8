import JarPruning.Proofs.Pass.Due

/-!
Lists that are left of lists. Each element is lost, or something is left of it, in the order of the
elements.
-/
namespace JarPruning

inductive Sifted {α β : Type} (lost : α → Prop) (left : α → β → Prop) : List α → List β → Prop
  | nil : Sifted lost left [] []
  | drop {a : α} {as : List α} {bs : List β} (gone : lost a) (rest : Sifted lost left as bs) :
    Sifted lost left (a :: as) bs
  | keep {a : α} {b : β} {as : List α} {bs : List β} (first : left a b)
    (rest : Sifted lost left as bs) : Sifted lost left (a :: as) (b :: bs)

namespace Sifted

variable {α β γ : Type} {lost lost' : α → Prop} {left left' : α → β → Prop} {as : List α}
  {bs : List β} {cs : List γ}

theorem refl {lost : α → Prop} {left : α → α → Prop} (h : ∀ a, left a a) (as : List α) :
    Sifted lost left as as := by
  induction as with
  | nil => exact .nil
  | cons a as ih => exact .keep (h a) ih

theorem mono (h : Sifted lost left as bs) (hlost : ∀ a, lost a → lost' a)
    (hleft : ∀ a b, left a b → left' a b) : Sifted lost' left' as bs := by
  induction h with
  | nil => exact .nil
  | drop hgone _ ih => exact .drop (hlost _ hgone) ih
  | keep hfirst _ ih => exact .keep (hleft _ _ hfirst) ih

/-- What is lost of what was left is lost of what it was left of. -/
theorem trans {lostB : β → Prop} {leftB : β → γ → Prop} {lost' : α → Prop} {left' : α → γ → Prop}
    (h : Sifted lost left as bs) (h' : Sifted lostB leftB bs cs) (hlost : ∀ a, lost a → lost' a)
    (hlostB : ∀ a b, left a b → lostB b → lost' a)
    (hleft : ∀ a b c, left a b → leftB b c → left' a c) : Sifted lost' left' as cs := by
  induction h generalizing cs with
  | nil =>
    cases h'
    exact .nil
  | drop hgone _ ih => exact .drop (hlost _ hgone) (ih h')
  | keep hfirst _ ih =>
    cases h' with
    | drop hgone hrest => exact .drop (hlostB _ _ hfirst hgone) (ih hrest)
    | keep hnext hrest => exact .keep (hleft _ _ _ hfirst hnext) (ih hrest)

theorem mem_left (h : Sifted lost left as bs) {a : α} (ha : a ∈ as) :
    lost a ∨ ∃ b ∈ bs, left a b := by
  induction h with
  | nil => cases ha
  | drop hgone _ ih =>
    obtain rfl | ha := List.mem_cons.1 ha
    · exact .inl hgone
    · exact ih ha
  | keep hfirst _ ih =>
    obtain rfl | ha := List.mem_cons.1 ha
    · exact .inr ⟨_, List.mem_cons_self .., hfirst⟩
    · exact (ih ha).imp_right fun ⟨b, hb, hleft⟩ => ⟨b, List.mem_cons_of_mem _ hb, hleft⟩

/-- Two lists that are left of one correspond, if nothing that is left in one is lost for the
other. -/
theorem agree {lostC : α → Prop} {leftC : α → γ → Prop} (h : Sifted lost left as bs)
    (h' : Sifted lostC leftC as cs) (hb : ∀ a, ∀ b ∈ bs, left a b → ¬ lostC a)
    (hc : ∀ a, ∀ c ∈ cs, leftC a c → ¬ lost a) :
    List.Forall₂ (fun b c => ∃ a ∈ as, left a b ∧ leftC a c) bs cs := by
  induction h generalizing cs with
  | nil =>
    cases h'
    exact .nil
  | drop hgone _ ih =>
    cases h' with
    | drop _ hrest =>
      refine (ih hrest hb hc).imp fun b c h => ?_
      obtain ⟨a, ha, hboth⟩ := h
      exact ⟨a, List.mem_cons_of_mem _ ha, hboth⟩
    | keep hfirst _ => exact absurd hgone (hc _ _ (List.mem_cons_self ..) hfirst)
  | keep hfirst _ ih =>
    cases h' with
    | drop hgone _ => exact absurd hgone (hb _ _ (List.mem_cons_self ..) hfirst)
    | keep hother hrest =>
      refine .cons ⟨_, List.mem_cons_self .., hfirst, hother⟩ ?_
      refine (ih hrest (fun a b h => hb a b (List.mem_cons_of_mem _ h))
        fun a c h => hc a c (List.mem_cons_of_mem _ h)).imp fun b c h => ?_
      obtain ⟨a, ha, hboth⟩ := h
      exact ⟨a, List.mem_cons_of_mem _ ha, hboth⟩

end Sifted

/-- Lists that correspond to one correspond to each other. -/
theorem forall₂_trans {α β γ : Type} {R : α → β → Prop} {S : β → γ → Prop} {T : α → γ → Prop}
    (htrans : ∀ a b c, R a b → S b c → T a c) {as : List α} {bs : List β} {cs : List γ}
    (h : List.Forall₂ R as bs) (h' : List.Forall₂ S bs cs) : List.Forall₂ T as cs := by
  induction h generalizing cs with
  | nil =>
    cases h'
    exact .nil
  | cons hfirst _ ih =>
    obtain _ | ⟨hnext, hrest⟩ := h'
    exact .cons (htrans _ _ _ hfirst hnext) (ih hrest)

/-- What corresponds is known to be in the lists. -/
theorem forall₂_imp_mem {α β : Type} {R S : α → β → Prop} {as : List α} {bs : List β}
    (h : List.Forall₂ R as bs) (himp : ∀ a ∈ as, ∀ b ∈ bs, R a b → S a b) :
    List.Forall₂ S as bs := by
  obtain ⟨hlength, hzip⟩ := List.forall₂_iff_zip.1 h
  refine List.forall₂_iff_zip.2 ⟨hlength, fun hab => ?_⟩
  obtain ⟨ha, hb⟩ := List.of_mem_zip hab
  exact himp _ ha _ hb (hzip hab)

/-- What a walk leaves of its elements, told by its steps. -/
theorem Along.sifted {σ α β γ : Type} {step : σ → α → β → σ → Prop} {R : σ → σ → Prop} {s t : σ}
    {as : List α} {bs : List β} {lost : α → Prop} {left : α → γ → Prop} (f : β → Option γ)
    (hrefl : ∀ s, R s s) (htrans : ∀ {s t u}, R s t → R t u → R s u)
    (hstep : ∀ {s a b t}, step s a b t → R s t) (h : Along step s as bs t)
    (hlost : ∀ {u a b v}, a ∈ as → step u a b v → R v t → f b = none → lost a)
    (hleft : ∀ {u a b v c}, a ∈ as → R s u → step u a b v → R v t → f b = some c → left a c) :
    Sifted lost left as (bs.filterMap f) := by
  induction h with
  | nil => exact .nil
  | @cons s v t a b as bs hfirst hrest ih =>
    have hlater := Along.keeps hrefl htrans hstep hrest
    have ih := ih (fun ha hu hv => hlost (List.mem_cons_of_mem _ ha) hu hv) fun ha hs hu hv =>
      hleft (List.mem_cons_of_mem _ ha) (htrans (hstep hfirst) hs) hu hv
    cases hb : f b with
    | none =>
      rw [List.filterMap_cons_none hb]
      exact .drop (hlost (List.mem_cons_self ..) hfirst hlater hb) ih
    | some c =>
      rw [List.filterMap_cons_some hb]
      exact .keep (hleft (List.mem_cons_self ..) (hrefl _) hfirst hlater hb) ih

end JarPruning
