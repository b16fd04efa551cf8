import JarPruning.Proofs.ClassFile.Element

/-!
Constant pools in which no reference dangles. What resolves in such a pool, and what does not, stays
so however the pool grows, and a constant that was added once is found at the same index again.
-/
namespace JarPruning

namespace ConstantPool

/-- No reference of an entry leads beyond the pool. -/
def Grounded (pool : ConstantPool) : Prop :=
  ∀ c ∈ pool.entries.toList, ∀ i ∈ c.references, pool.Reaches i

instance (pool : ConstantPool) : Decidable pool.Grounded :=
  -- Named, since the indices of entries are a finite type that can also be searched as a whole.
  @List.decidableBAll Constant (fun c => ∀ i ∈ c.references, pool.Reaches i)
    (fun c => List.decidableBAll pool.Reaches c.references) pool.entries.toList

variable {p q r : ConstantPool}

/-! Additions that last. -/

/-- An addition all of whose new constants have a property. -/
def Brings {α : Type} (kind : Constant → Prop) (x : Extension α) : Prop :=
  ∀ ⦃p a q⦄, x.run p = .ok a q →
    ∃ cs, q.entries.toList = p.entries.toList ++ cs ∧ ∀ c ∈ cs, kind c

namespace Brings

variable {α β : Type} {kind : Constant → Prop}

theorem pure (a : α) : Brings kind (Pure.pure a) := by
  intro p b q h
  cases h
  exact ⟨[], by simp, by simp⟩

theorem bind {x : Extension α} {f : α → Extension β} (hx : Brings kind x)
    (hf : ∀ a, Brings kind (f a)) : Brings kind (x >>= f) := by
  intro p b r h
  obtain ⟨a, q, hp, hq⟩ := run_bind_ok h
  obtain ⟨cs, hcs, hkind⟩ := hx hp
  obtain ⟨ds, hds, hkind'⟩ := hf a hq
  refine ⟨cs ++ ds, by rw [hds, hcs, List.append_assoc], fun c hc => ?_⟩
  obtain hc | hc := List.mem_append.1 hc
  · exact hkind c hc
  · exact hkind' c hc

theorem push {c : Constant} (hc : kind c) : Brings kind (push c) := by
  intro p i q h
  obtain ⟨-, -, rfl⟩ := push_ok h
  exact ⟨[c], by simp, by simpa using hc⟩

theorem findOr {test : ConstantPool → Constant → Bool} {add : Extension UInt16}
    (h : Brings kind add) : Brings kind (findOr test add) := by
  intro p i q hrun
  obtain ⟨p', r, hr, hrun⟩ := run_bind_ok hrun
  cases hr
  split at hrun
  · cases hrun
    exact ⟨[], by simp, by simp⟩
  · exact h hrun

theorem get {f : ConstantPool → Extension β} (hf : ∀ p, Brings kind (f p)) :
    Brings kind (MonadState.get >>= f) := fun p _ _ h => hf p h

theorem throw (fault : Fault) : Brings kind (MonadExcept.throw fault : Extension α) := by
  intro p a q h
  cases h

theorem mapM {γ : Type} {f : γ → Extension α} (h : ∀ c, Brings kind (f c)) (l : List γ) :
    Brings kind (l.mapM f) := by
  induction l with
  | nil => exact pure []
  | cons c l ih =>
    rw [List.mapM_cons]
    exact (h c).bind fun _ => ih.bind fun _ => pure _

theorem addUtf8 (hkind : ∀ t bytes, kind (.utf8 t bytes)) (text : String) :
    Brings kind (addUtf8 text) := findOr (push (hkind ..))

/-- Constants without references leave a pool grounded. -/
theorem grounded {x : Extension α} (h : Brings (fun c => c.references = []) x) {a : α}
    (hp : p.Grounded) (hrun : x.run p = .ok a q) : q.Grounded := by
  obtain ⟨cs, hcs, hkind⟩ := h hrun
  have hfront : Extends p q := ⟨cs, hcs.symm⟩
  intro c hc i hi
  rw [hcs] at hc
  obtain hc | hc := List.mem_append.1 hc
  · exact hfront.reaches (hp c hc i hi)
  · rw [hkind c hc] at hi
    cases hi

end Brings

/-- An addition after which the pool is grounded, and which from then on finds what it added. -/
structure Lasting {ε α : Type} (x : EStateM ε ConstantPool α) (p : ConstantPool) (a : α)
    (q : ConstantPool) : Prop where
  grows : Grows p q
  grounded : q.Grounded
  again : ∀ r, Grows q r → x.run r = .ok a r

def Lasts {ε α : Type} (x : EStateM ε ConstantPool α) : Prop :=
  ∀ ⦃p a q⦄, p.Fits → p.Grounded → x.run p = .ok a q → Lasting x p a q

namespace Lasts

variable {ε α β : Type}

theorem pure (a : α) : Lasts (ε := ε) (Pure.pure a) := by
  intro p b q _ hp h
  cases h
  exact ⟨.refl p, hp, fun r _ => rfl⟩

theorem bind {x : EStateM ε ConstantPool α} {f : α → EStateM ε ConstantPool β} (hx : Lasts x)
    (hf : ∀ a, Lasts (f a)) : Lasts (x >>= f) := by
  intro p b q hfits hp h
  obtain ⟨a, p', hrun, h⟩ := run_bind_ok h
  have hfirst := hx hfits hp hrun
  have hsecond := hf a (hfirst.grows.fits hfits) hfirst.grounded h
  exact ⟨hfirst.grows.trans hsecond.grows, hsecond.grounded, fun r hr =>
    run_bind_of_ok (hfirst.again r (hsecond.grows.trans hr)) (hsecond.again r hr)⟩

end Lasts

theorem Grounded.anchors (hp : p.Grounded) {c : Constant} (hc : c ∈ p.entries.toList) :
    p.Anchors c :=
  fun i hi => ⟨hp c hc i hi, fun _ hd => hp _ (mem_of_entry hd)⟩

theorem Grounded.of_appended {d : Nat} (hp : p.Grounded) (h : Appended d p q) : q.Grounded := by
  intro c hc i hi
  obtain hold | ⟨-, hanchored⟩ := h.fresh c hc
  · exact h.front.reaches (hp c hold i hi)
  · exact (hanchored i hi).reaches

/-- What is added on request is found again. -/
theorem Request.lasts (request : Request) (hadds : Adds request.add) : Lasts request.add := by
  intro p i q hfits hp hrun
  have hsize : p.entries.size ≤ capacity := Nat.le_of_lt_succ hfits.size
  exact ⟨hadds hrun, hp.of_appended (request.appended_of_run hsize hrun), fun r hr =>
    run_of_anchored hsize (fun c hc _ => hp.anchors hc) hrun hr.front⟩

theorem addClass_lasts {name : String} (h : FitsText name) : Lasts (addClass name) :=
  Request.lasts (.classInfo name) (addClass_adds h)

theorem addString_lasts {text : String} (h : FitsText text) : Lasts (addString text) :=
  Request.lasts (.string text) (addString_adds h)

theorem addMethodRef_lasts {owner : String} {s : Signature} (howner : FitsText owner)
    (hname : FitsText s.name) (hdescriptor : FitsText s.descriptor) :
    Lasts (addMethodRef owner s) :=
  Request.lasts (.methodRef owner s) (addMethodRef_adds howner hname hdescriptor)

end ConstantPool

end JarPruning
