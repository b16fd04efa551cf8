import JarPruning.Proofs.Pass.Due

/-!
Callers of methods that are gone or due. A pass that comes to such a caller deletes it, unless its body
is a stub or is to be one; so what a pass leaves calls, from bodies that the next pass walks, nothing
that was gone or due when the pass began.
-/
namespace JarPruning

open ConstantPool (Grows)

/-- A call is read as it was read before the pool grew, whatever the bootstrap methods. -/
theorem Site.read_invoke {p q : ConstantPool} {bootstraps bootstraps' : List Bootstrap}
    {i : Instruction} {site : Site} {t : MemberRef} (hgrows : Grows p q)
    (h : Site.read p bootstraps i = .ok site) (h' : Site.read q bootstraps' i = .ok (.invoke t)) :
    site = .invoke t := by
  have hmember : Persists (i.operand16 >>= p.memberRef) (i.operand16 >>= q.memberRef) :=
    (Persists.refl _).bind fun index _ => hgrows.memberRef index
  unfold Site.read at h h'
  split at h'
  · obtain ⟨_, _, h'⟩ := bind_ok_iff.1 h'
    cases h'
  next haccess =>
  rw [if_neg haccess] at h
  split at h'
  · next hinvoke =>
    rw [if_pos hinvoke] at h
    obtain ⟨t₀, ht₀, h⟩ := bind_ok_iff.1 h
    obtain ⟨t₁, ht₁, h'⟩ := bind_ok_iff.1 h'
    obtain rfl := Except.ok.inj ((hmember t₀ ht₀).symm.trans ht₁)
    cases h
    cases h'
    rfl
  · split at h'
    · obtain ⟨_, _, h'⟩ := bind_ok_iff.1 h'
      cases h'
    · cases h'

/-- The calls of a body that could be walked are those that it had before the pool grew. -/
theorem mem_sites_invoke {p q : ConstantPool} {bootstraps bootstraps' : List Bootstrap}
    {payload : List UInt8} {ss ss' : List (Instruction × Site)} {i : Instruction} {t : MemberRef}
    (hgrows : Grows p q) (h : sites p bootstraps payload = .ok ss)
    (h' : sites q bootstraps' payload = .ok ss') (hmem : (i, .invoke t) ∈ ss') :
    (i, .invoke t) ∈ ss := by
  obtain ⟨hscan, hread⟩ := sites_ok_iff.1 h
  obtain ⟨hscan', hread'⟩ := sites_ok_iff.1 h'
  have hsame : ss.map Prod.fst = ss'.map Prod.fst := Except.ok.inj (hscan.symm.trans hscan')
  have hi : i ∈ ss.map Prod.fst := hsame ▸ List.mem_map_of_mem hmem
  obtain ⟨⟨_, site⟩, hs, rfl⟩ := List.mem_map.1 hi
  obtain rfl := Site.read_invoke hgrows (hread _ hs) (hread' _ hmem)
  exact hs

namespace Along

variable {σ α β γ : Type} {step : σ → α → β → σ → Prop} {step' : σ → α → γ → σ → Prop}
  {R : σ → σ → Prop} {s t t' : σ} {as : List α} {bs : List β}

/-- Two accounts of one way are one account, if the second leads wherever the first does. -/
theorem both {f : β → γ} (hsame : ∀ {s a b t t'}, step s a b t → step' s a (f b) t' → t' = t)
    (h : Along step s as bs t) (h' : Along step' s as (bs.map f) t') :
    Along (fun s a b t => step s a b t ∧ step' s a (f b) t) s as bs t := by
  induction h generalizing t' with
  | nil => exact .nil
  | cons hfirst _ ih =>
    obtain _ | ⟨hfirst', hrest'⟩ := h'
    obtain rfl := hsame hfirst hfirst'
    exact .cons ⟨hfirst, hfirst'⟩ (ih hrest')

/-- What follows of a step from what is kept up to it holds of every step. -/
theorem enrich {P : σ → α → β → Prop} (hrefl : ∀ s, R s s)
    (htrans : ∀ {s t u}, R s t → R t u → R s u) (hstep : ∀ {s a b t}, step s a b t → R s t)
    (h : Along step s as bs t) (hP : ∀ {u a b v}, R s u → a ∈ as → step u a b v → P u a b) :
    Along (fun u a b v => step u a b v ∧ P u a b) s as bs t := by
  induction h with
  | nil => exact .nil
  | cons hfirst _ ih =>
    refine .cons ⟨hfirst, hP (hrefl _) (List.mem_cons_self ..) hfirst⟩ (ih fun hu ha huv => ?_)
    exact hP (htrans (hstep hfirst) hu) (List.mem_cons_of_mem _ ha) huv

end Along

namespace Prune

open Ledger (Onward)

variable {policy policy₁ : Policy} {owner : String} {pool q : ConstantPool}
  {bootstraps bootstraps' : List Bootstrap} {l l₁ u v : Ledger} {c c₁ : ClassFile}
  {entry e : MemberEntry} {m : Member} {ms : List Marked} {i : Instruction} {t : MemberRef}
  {s : Signature}

/-- The body of a method that was stripped and edited. -/
theorem code_edited (hread : marks pool entry.attributes = .ok ms) (hentry : entry.Grounded pool)
    (hgrows : Grows pool q) (edit : List UInt8 → List UInt8) :
    (edited (codeOf pool (left policy entry ms)) edit (left policy entry ms)).attributes.find?
        (·.isNamed q "Code") =
      (entry.attributes.find? (·.isNamed pool "Code")).map
        fun a => { a with payload := edit a.payload } := by
  have hcode : codeOf q (edited (codeOf pool (left policy entry ms)) edit (left policy entry ms)) =
      codeOf pool (left policy entry ms) :=
    codeOf_names hgrows (grounded_left hentry hread) (names_edited _ edit _)
  have hbody :
      (codeOf pool (left policy entry ms)).bind ((left policy entry ms).attributes[·]?) = _ :=
    code_left hread
  rw [← hbody, List.find?_eq_bind_findIdx?_getElem?]
  change (codeOf q (edited (codeOf pool (left policy entry ms)) edit _)).bind _ = _
  rw [hcode]
  cases hposition : codeOf pool (left policy entry ms) with
  | none => rfl
  | some position =>
    obtain ⟨a, ha, -⟩ := codeOf_some hposition
    rw [Option.bind_some, Option.bind_some, getElem?_edited _ ha, ha, Option.map_some]

/-- The body that is kept of a method, if it was looked at, is the body that it had, overwritten. -/
theorem MethodStep.kept_code {patches : List Walk.Patch}
    (h : MethodStep policy owner pool bootstraps l entry m ms (.keep patches))
    (hfresh : l.memory.stubbed.contains m.toSignature = false) (hentry : entry.Grounded pool)
    (hgrows : Grows pool q) {a' : Attribute}
    (ha' : (edited (codeOf pool (left policy entry ms)) (Walk.applyPatches · patches)
      (left policy entry ms)).attributes.find? (·.isNamed q "Code") = some a') :
    ∃ a ss, entry.attributes.find? (·.isNamed pool "Code") = some a ∧
      a'.payload = Walk.applyPatches a.payload patches ∧
        sites pool bootstraps a.payload = .ok ss ∧
          bodyFate l owner m.isConstructor ss = .keep patches := by
  rw [code_edited h.read hentry hgrows] at ha'
  obtain ⟨a, ha, rfl⟩ := Option.map_eq_some_iff.1 ha'
  have hfated := h.fated
  rw [code_left h.read, ha] at hfated
  cases hfated with
  | already _ hstubbed => cases hfresh.symm.trans hstubbed
  | bare _ _ _ hempty => cases hempty
  | walked _ _ _ hbody hscanned hmeets =>
    obtain rfl := Option.some.inj hbody
    exact ⟨_, _, ha, rfl, hscanned, hmeets⟩

/-- What is kept of a method whose body was looked at calls nothing that it did not call before. -/
theorem MethodStep.refers_kept {patches : List Walk.Patch}
    (h : MethodStep policy owner pool bootstraps l entry m ms (.keep patches))
    (hfresh : l.memory.stubbed.contains m.toSignature = false) (hentry : entry.Grounded pool)
    (hgrows : Grows pool q)
    (hrefers : Refers q bootstraps' (edited (codeOf pool (left policy entry ms))
      (Walk.applyPatches · patches) (left policy entry ms)) i (.invoke t)) :
    Refers pool bootstraps entry i (.invoke t) := by
  obtain ⟨a', ss', ha', hss', hmem⟩ := hrefers
  obtain ⟨a, ss, ha, hpayload, hss, hmeets⟩ := h.kept_code hfresh hentry hgrows ha'
  rw [hpayload] at hss'
  obtain ⟨ss₁, hss₁, hall⟩ := sites_again hss hmeets
  refine ⟨a, ss, ha, hss, ?_⟩
  obtain hin | hplain := hall _ (mem_sites_invoke hgrows hss₁ hss' hmem)
  · exact hin
  · cases hplain

/-- A method that stays calls, if it does not become a stub, nothing that is gone. -/
theorem MethodStep.spares {ft : Fate}
    (h : MethodStep policy owner pool bootstraps l entry m ms ft)
    (hbecomes : Becomes policy pool entry m ft (some e)) (hentry : entry.Grounded pool)
    (hgrows : Grows pool q)
    (hfresh : (ft.ledger l owner m).memory.stubbed.contains m.toSignature = false)
    (hrefers : Refers q bootstraps' e i (.invoke t)) :
    l.methodGone owner t.owner t.toSignature = false := by
  cases hbecomes with
  | kept hread =>
    obtain rfl := Except.ok.inj (h.read.symm.trans hread)
    have hcalls := h.refers_kept hfresh hentry hgrows hrefers
    have hstays := mt h.decided.delete.2 (by simp)
    push Not at hstays
    have hwalked : ¬ Exempt policy pool entry l m := by
      rintro (hstubbed | hstub)
      · cases (show l.memory.stubbed.contains m.toSignature = false from hfresh).symm.trans hstubbed
      · have hnot := mt h.decided.stub.2 (by simp)
        push Not at hnot
        exact hnot (by simp) (.inr hstub) hfresh
    exact Bool.eq_false_iff.2 (hstays.2.2 hwalked i _ hcalls)
  | stubbed _ _ => cases (l.stubbed_stubMethod m).symm.trans hfresh

theorem Becomes.grounded {ft : Fate} (h : Becomes policy pool entry m ft (some e))
    (hentry : entry.Grounded pool) : e.Grounded pool := by
  cases h with
  | kept hread => exact grounded_edited (grounded_left hentry hread) _ _
  | stubbed hread _ => exact grounded_edited (grounded_left hentry hread) _ _

theorem MethodFated.step {ft : Fate} (h : MethodFated policy owner pool bootstraps u entry ft v)
    (hm : entry.resolve pool = .ok m) :
    v = ft.ledger u owner m ∧ ∃ ms, MethodStep policy owner pool bootstraps u entry m ms ft := by
  obtain ⟨hstep⟩ := h
  obtain rfl := Except.ok.inj (hm.symm.trans hstep.resolved)
  exact ⟨rfl, _, hstep⟩

namespace Rewriting

/-- What a pass leaves of the methods, each with the step that left it. -/
theorem of_mem_methods (r : Rewriting policy l c) (he : e ∈ r.methods) :
    ∃ entry ∈ c.methods, ∃ u m ms ft, Onward r.name l u ∧
      MethodStep policy r.name c.pool r.bootstraps u entry m ms ft ∧
      Becomes policy c.pool entry m ft (some e) ∧ Onward r.name (ft.ledger u r.name m) r.last := by
  obtain ⟨-, methods, -, hmet, hfated, -, hmethods⟩ := r.met
  rw [hmethods, List.mem_filterMap] at he
  obtain ⟨⟨ft, e?⟩, hmem, rfl⟩ := he
  have hboth := hmet.both (fun h h' => by obtain ⟨hm, -, -⟩ := h; exact (h'.step hm).1) hfated
  obtain ⟨entry, hentry, hzip⟩ := hboth.mem_zip hmem
  obtain ⟨u, v, hu, ⟨hstep, hstep'⟩, hv⟩ := hboth.step_at Onward.refl Onward.trans
    (fun h => h.1.onward) hzip
  obtain ⟨hresolved, -, hbecomes⟩ := hstep
  obtain ⟨-, ms, hmethod⟩ := hstep'.step hresolved
  exact ⟨entry, hentry, u, _, ms, ft, r.onward_fields.trans hu, hmethod, hbecomes,
    hv.trans r.onward_last⟩

namespace Leaves

variable {r : Rewriting policy l c}

theorem grounded (h : r.Leaves c₁) (hmethods : ∀ e ∈ c.methods, e.Grounded c.pool) :
    ∀ e ∈ c₁.methods, e.Grounded c₁.pool := by
  intro e he a ha
  rw [h.methods] at he
  obtain ⟨entry, hentry, _, _, _, _, -, -, hbecomes, -⟩ := r.of_mem_methods he
  exact h.pool.reaches (hbecomes.grounded (hmethods entry hentry) a ha)

/-- The methods of the class that a pass left call, but for stubs, nothing that was gone or due when
it began. -/
theorem spares (h : r.Leaves c₁) (hmethods : ∀ e ∈ c.methods, e.Grounded c.pool)
    (he : e ∈ c₁.methods) (hm : e.resolve c₁.pool = .ok m)
    (hfresh : r.last.memory.stubbed.contains m.toSignature = false)
    (hrefers : Refers c₁.pool bootstraps e i (.invoke t)) :
    l.methodGone r.name t.owner t.toSignature = false := by
  rw [h.methods] at he
  obtain ⟨entry, hentry, u, n, ms, ft, hu, hstep, hbecomes, hlast⟩ := r.of_mem_methods he
  have hheader := hbecomes.header
  have hsame := resolve_grow h.pool hheader.access hheader.name hheader.descriptor hstep.resolved
  obtain rfl : n = m := Except.ok.inj (hsame.symm.trans hm)
  have hfresh' := Bool.eq_false_iff.2 fun hstubbed => by
    cases hfresh.symm.trans (hlast.stubs _ hstubbed)
  have hhere := hstep.spares hbecomes (hmethods entry hentry) h.pool hfresh' hrefers
  exact Bool.eq_false_iff.2 fun hgone => by cases hhere.symm.trans (hu.methods _ _ hgone)

/-- A method that calls, on its own class, something that was gone or due after one pass is deleted
in the next, if that walks it. -/
theorem deletes (h : r.Leaves c₁) (hmethods : ∀ e ∈ c.methods, e.Grounded c.pool)
    (hmemory : l₁.memory = r.last.memory.expire) (hgrown : r.last.tracker.Le l₁.tracker)
    (hgone : r.last.methodGone r.name r.name s = true) (hu : Onward r.name l₁ u)
    (he : e ∈ c₁.methods) {met : Fate × Option MemberEntry}
    (hmet : MethodMet policy₁ r.name c₁.pool bootstraps u e met v)
    (hm : e.resolve c₁.pool = .ok m) (hwalked : ¬ Exempt policy₁ c₁.pool e u m)
    (hrefers : Refers c₁.pool bootstraps e i (.invoke t)) (howner : t.owner = r.name)
    (htarget : t.toSignature = s) : met.1 = .delete := by
  subst htarget
  obtain ⟨hresolved, hdecided, -⟩ := hmet
  obtain rfl := Except.ok.inj (hm.symm.trans hresolved)
  obtain hgone | hgone := r.onward.method_next hmemory hgrown hgone
  · refine hdecided.delete.2 (.inr (.inr ⟨hwalked, i, _, hrefers, ?_⟩))
    show u.methodGone r.name t.owner t.toSignature = true
    rw [howner]
    exact hu.methods _ _ hgone
  · have hfresh : r.last.memory.stubbed.contains m.toSignature = false :=
      Bool.eq_false_iff.2 fun hstubbed => hwalked (.inl (hu.stubs _ (by rw [hmemory]; exact hstubbed)))
    have hhere := h.spares hmethods he hm hfresh hrefers
    rw [howner] at hhere
    cases hhere.symm.trans hgone

/-- A method that was gone or due after one pass and stands in the class is deleted in the next. -/
theorem deletes_gone (h : r.Leaves c₁) (hmemory : l₁.memory = r.last.memory.expire)
    (hgrown : r.last.tracker.Le l₁.tracker)
    (hgone : r.last.methodGone r.name r.name m.toSignature = true) (hu : Onward r.name l₁ u)
    (he : e ∈ c₁.methods) {met : Fate × Option MemberEntry}
    (hmet : MethodMet policy₁ r.name c₁.pool bootstraps u e met v)
    (hm : e.resolve c₁.pool = .ok m) : met.1 = .delete := by
  obtain ⟨hresolved, hdecided, -⟩ := hmet
  obtain rfl := Except.ok.inj (hm.symm.trans hresolved)
  obtain hgone | hgone := r.onward.method_next hmemory hgrown hgone
  · exact hdecided.delete.2 (.inl (hu.methods _ _ hgone))
  · obtain ⟨-, hhere⟩ := h.hasMethod ⟨e, he, m, hm, rfl⟩
    cases hhere.symm.trans hgone

end Leaves

end Rewriting

end Prune

end JarPruning
