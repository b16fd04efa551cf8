import JarPruning.ClassFile.Walk

/-!
Runs with a state beside computations without one. A run follows a computation if it fails with
the same error, and otherwise ends with an answer and a state that are tied to the computed value.
-/
namespace JarPruning

variable {ε δ σ α β γ κ : Type}

/-- The run of `x` from `s` ends as `c` does; `post` ties the ends together. -/
def Follows (x : EStateM ε σ α) (s : σ) (c : Except ε β) (post : β → α → σ → Prop) : Prop :=
  match c with
  | .ok b => ∃ a s', x.run s = .ok a s' ∧ post b a s'
  | .error e => ∃ s', x.run s = .error e s'

namespace Follows

theorem of_run {x : EStateM ε σ α} {s s' : σ} {a : α} {b : β} {post : β → α → σ → Prop}
    (h : x.run s = .ok a s') (hp : post b a s') : Follows x s (.ok b) post :=
  ⟨a, s', h, hp⟩

theorem pure {s : σ} {a : α} {b : β} {post : β → α → σ → Prop} (h : post b a s) :
    Follows (ε := ε) (Pure.pure a) s (Pure.pure b) post :=
  of_run rfl h

theorem throw {s : σ} {e : ε} {post : β → α → σ → Prop} :
    Follows (MonadExcept.throw e : EStateM ε σ α) s (MonadExcept.throw e : Except ε β) post :=
  ⟨s, rfl⟩

theorem bind {x : EStateM ε σ α} {f : α → EStateM ε σ γ} {s : σ} {c : Except ε β}
    {g : β → Except ε κ} {post : β → α → σ → Prop} {post' : κ → γ → σ → Prop}
    (h : Follows x s c post)
    (hf : ∀ b a s', post b a s' → Follows (f a) s' (g b) post') :
    Follows (x >>= f) s (c >>= g) post' := by
  cases c with
  | error e =>
    obtain ⟨s', hs⟩ := h
    refine ⟨s', ?_⟩
    simp only [EStateM.run] at hs
    simp only [EStateM.run, Bind.bind, EStateM.bind, hs]
  | ok b =>
    obtain ⟨a, s', hs, hp⟩ := h
    have hrun : (x >>= f).run s = (f a).run s' := by
      simp only [EStateM.run] at hs ⊢
      simp only [Bind.bind, EStateM.bind, hs]
    have := hf b a s' hp
    unfold Follows at this ⊢
    rw [hrun]
    exact this

theorem mono {x : EStateM ε σ α} {s : σ} {c : Except ε β} {post post' : β → α → σ → Prop}
    (h : Follows x s c post) (hp : ∀ b a s', post b a s' → post' b a s') :
    Follows x s c post' := by
  cases c with
  | error e => exact h
  | ok b =>
    obtain ⟨a, s', hs, hq⟩ := h
    exact ⟨a, s', hs, hp b a s' hq⟩

theorem check {s : σ} {c : Except ε β} :
    Follows (Walk.check c) s c (fun b a s' => a = b ∧ s' = s) := by
  cases c with
  | error e => exact ⟨s, rfl⟩
  | ok b => exact ⟨b, s, rfl, rfl, rfl⟩

theorem checked {f : β → EStateM ε σ γ} {g : β → Except ε κ} {b : β} {s : σ}
    {post : κ → γ → σ → Prop} (h : Follows (f b) s (g b) post) :
    Follows (Walk.check (.ok b) >>= f) s (.ok b >>= g) post :=
  h

/-- A step that cannot fail goes along with a computation that has nothing to do. -/
theorem visit {x : StateM σ α} {f : α → EStateM ε σ γ} {s : σ} {c : Except ε κ}
    {post : κ → γ → σ → Prop} (h : Follows (f (x.run s).1) (x.run s).2 c post) :
    Follows (Walk.visit x >>= f) s c post := by
  have hrun : (Walk.visit x >>= f).run s = (f (x.run s).1).run (x.run s).2 := rfl
  unfold Follows at h ⊢
  rw [hrun]
  exact h

theorem get {f : σ → EStateM ε σ γ} {s : σ} {c : Except ε κ} {post : κ → γ → σ → Prop}
    (h : Follows (f s) s c post) : Follows (MonadState.get >>= f) s c post := by
  have hrun : (MonadState.get >>= f).run s = (f s).run s := rfl
  unfold Follows at h ⊢
  rw [hrun]
  exact h

theorem adapt {x : EStateM ε σ α} {s : σ} {c : Except ε β} {post : β → α → σ → Prop} (f : ε → δ)
    (h : Follows x s c post) : Follows (x.adaptExcept f) s (c.mapError f) post := by
  cases c with
  | error e =>
    obtain ⟨s', hs⟩ := h
    refine ⟨s', ?_⟩
    simp only [EStateM.run] at hs
    simp only [EStateM.run, EStateM.adaptExcept, hs]
  | ok b =>
    obtain ⟨a, s', hs, hp⟩ := h
    refine ⟨a, s', ?_, hp⟩
    simp only [EStateM.run] at hs
    simp only [EStateM.run, EStateM.adaptExcept, hs]

/-- A successful run tells that the computation succeeds. -/
theorem of_ok {x : EStateM ε σ α} {s s' : σ} {a : α} {c : Except ε β}
    {post : β → α → σ → Prop} (h : Follows x s c post) (hr : x.run s = .ok a s') :
    ∃ b, c = .ok b ∧ post b a s' := by
  cases c with
  | error e =>
    obtain ⟨t, ht⟩ := h
    simp [hr] at ht
  | ok b =>
    obtain ⟨a', t, ht, hp⟩ := h
    rw [hr] at ht
    cases ht
    exact ⟨b, rfl, hp⟩

end Follows

end JarPruning
