import JarPruning.Proofs.Pass.Stems

/-!
Bodies in which accesses were overwritten. What passes make of a body one after another, one
overwriting makes of it at once; and a body that has no access left to a field that is gone tells
which accesses were overwritten.
-/
namespace JarPruning

open ConstantPool (Grows)
open Instruction (overwritten spread)
open Walk (applyPatches)

/-- The patches that overwrite instructions. -/
def Instruction.patches (ps : List (Instruction × Option (Vector UInt8 3))) : List Walk.Patch :=
  ps.filterMap fun p => p.2.map (⟨p.1.offset, ·⟩)

/-- Instructions that are overwritten one after another, or at once. -/
theorem Body.applyPatches_again {payload : List UInt8}
    {ps qs rs : List (Instruction × Option (Vector UInt8 3))}
    (h : Body.instructions payload = .ok (ps.map (·.1)))
    (hps : ∀ p ∈ ps, ∀ v, p.2 = some v → p.1.Spreads v)
    (hqs : qs.map (·.1) = ps.flatMap overwritten)
    (hqs' : ∀ q ∈ qs, ∀ v, q.2 = some v → q.1.operands.length = 2)
    (hrs : rs.map (·.1) = ps.map (·.1))
    (hrs' : ∀ r ∈ rs, ∀ v, r.2 = some v → r.1.operands.length = 2)
    (hsame : rs.flatMap overwritten = qs.flatMap overwritten) :
    applyPatches (applyPatches payload (Instruction.patches ps)) (Instruction.patches qs) =
      applyPatches payload (Instruction.patches rs) := by
  obtain ⟨b, hb, hscan⟩ := bind_ok_iff.1 h
  obtain ⟨-, rest, rfl⟩ := Body.ofPayload_ok_iff.1 hb
  have hagain := Instruction.scanFrom_overwritten hps hscan
  rw [← hqs] at hagain
  rw [← hrs] at hscan
  unfold Instruction.patches
  rw [applyPatches_overwritten (fun p hp v hv => (hps p hp v hv).operands) (hrs ▸ hscan)
    b.length_header, ← hqs, applyPatches_overwritten hqs' hagain b.length_header,
    applyPatches_overwritten hrs' hscan b.length_header, hsame]

namespace Site

/-- What overwrites which of the sites of a body. -/
abbrev Overwriting := Instruction × Site → Option (Vector UInt8 3)

def patches (f : Overwriting) (ss : List (Instruction × Site)) : List Walk.Patch :=
  ss.filterMap fun s => (f s).map (⟨s.1.offset, ·⟩)

/-- Only accesses to fields that are gone are overwritten, with what stands in for them. -/
def Neutralizes (gone : MemberRef → Prop) (f : Overwriting) : Prop :=
  ∀ s v, f s = some v → ∃ op t, s.2 = .access op t ∧ gone t ∧
    Neutral.replacement? op t.descriptor = some v

variable {gone gone' : MemberRef → Prop} {f g : Overwriting} {pool : ConstantPool}
  {bootstraps : List Bootstrap} {payload : List UInt8} {ss : List (Instruction × Site)}

theorem Neutralizes.mono (h : Neutralizes gone f) (hgone : ∀ t, gone t → gone' t) :
    Neutralizes gone' f := by
  intro s v hv
  obtain ⟨op, t, hsite, ht, hbytes⟩ := h s v hv
  exact ⟨op, t, hsite, hgone t ht, hbytes⟩

theorem Neutralizes.inert (h : Neutralizes gone f) (s : Instruction × Site) (v : Vector UInt8 3)
    (hv : f s = some v) : (∃ op t, s.2 = .access op t) ∧ ∀ b ∈ v.toList, Opcode.Inert b := by
  obtain ⟨op, t, hsite, -, hbytes⟩ := h s v hv
  exact ⟨⟨op, t, hsite⟩, Neutral.inert_of_replacement? hbytes⟩

theorem Neutralizes.sites (h : Neutralizes gone f) (hss : sites pool bootstraps payload = .ok ss) :
    sites pool bootstraps (applyPatches payload (patches f ss)) =
      .ok (ss.flatMap (Site.overwritten f)) :=
  sites_overwritten hss h.inert

theorem Neutralizes.spreads (h : Neutralizes gone f)
    (hss : JarPruning.sites pool bootstraps payload = .ok ss) {s : Instruction × Site} (hs : s ∈ ss)
    {v : Vector UInt8 3} (hv : f s = some v) :
    s.1.Spreads v := by
  obtain ⟨hscan, hread⟩ := sites_ok_iff.1 hss
  obtain ⟨⟨op, t, hsite⟩, hinert⟩ := h.inert s v hv
  exact ⟨Body.operands_of_isFieldAccess hscan (List.mem_map_of_mem hs)
    (Site.opcode_of_access (hsite ▸ hread s hs)), fun b hb => (hinert b hb).layout⟩

theorem mem_overwritten {s : Instruction × Site} (h : s ∈ ss.flatMap (Site.overwritten f)) :
    s ∈ ss ∧ f s = none ∨ s.2 = .plain := by
  obtain ⟨s₀, hs₀, hs⟩ := List.mem_flatMap.1 h
  unfold Site.overwritten at hs
  cases hv : f s₀ with
  | none =>
    rw [hv] at hs
    obtain rfl := List.mem_singleton.1 hs
    exact .inl ⟨hs₀, hv⟩
  | some v =>
    rw [hv] at hs
    obtain ⟨i, -, rfl⟩ := List.mem_map.1 hs
    exact .inr rfl

theorem mem_overwritten_of_none {s : Instruction × Site} (hs : s ∈ ss) (hf : f s = none) :
    s ∈ ss.flatMap (Site.overwritten f) := by
  refine List.mem_flatMap.2 ⟨s, hs, ?_⟩
  simp [Site.overwritten, hf]

/-- What is overwritten by one or the other. -/
def Overwriting.or (f g : Overwriting) : Overwriting := fun s => (f s).or (g s)

theorem Neutralizes.or (hf : Neutralizes gone f) (hg : Neutralizes gone g) :
    Neutralizes gone (f.or g) := by
  intro s v hv
  obtain hv | ⟨-, hv⟩ := Option.or_eq_some_iff.1 hv
  · exact hf s v hv
  · exact hg s v hv

theorem patches_eq (f : Overwriting) (ss : List (Instruction × Site)) :
    Instruction.patches (ss.map fun s => (s.1, f s)) = patches f ss := by
  rw [Instruction.patches, List.filterMap_map]
  rfl

theorem overwritten_fst (f : Overwriting) (ss : List (Instruction × Site)) :
    (ss.flatMap (Site.overwritten f)).map (·.1) =
      (ss.map fun s => (s.1, f s)).flatMap Instruction.overwritten := by
  rw [List.map_flatMap, List.flatMap_map]
  refine List.flatMap_congr fun s _ => ?_
  unfold Site.overwritten
  cases f s <;> simp [Instruction.overwritten, Function.comp_def]

/-- A body that is overwritten one way and then another is overwritten either way. -/
theorem Neutralizes.again (hf : Neutralizes gone f) (hg : Neutralizes gone g)
    (hss : JarPruning.sites pool bootstraps payload = .ok ss) :
    applyPatches (applyPatches payload (patches f ss))
        (patches g (ss.flatMap (Site.overwritten f))) =
      applyPatches payload (patches (f.or g) ss) := by
  have hmap (f : Overwriting) (ss : List (Instruction × Site)) :
      (ss.map fun s => (s.1, f s)).map (·.1) = ss.map (·.1) := by
    rw [List.map_map]
    rfl
  have hoperands {f : Overwriting} (hf : Neutralizes gone f) {payload : List UInt8}
      {ss : List (Instruction × Site)} (hss : JarPruning.sites pool bootstraps payload = .ok ss) :
      ∀ p ∈ ss.map fun s => (s.1, f s), ∀ v, p.2 = some v → p.1.Spreads v := by
    intro p hp v hv
    obtain ⟨s, hs, rfl⟩ := List.mem_map.1 hp
    exact hf.spreads hss hs hv
  rw [← patches_eq f, ← patches_eq g, ← patches_eq (f.or g)]
  refine Body.applyPatches_again ((sites_ok_iff.1 hss).1.trans (by rw [hmap])) (hoperands hf hss)
    ((hmap g _).trans (overwritten_fst f ss))
    (fun q hq v hv => (hoperands hg (hf.sites hss) q hq v hv).operands)
    ((hmap _ ss).trans (hmap f ss).symm)
    (fun r hr v hv => (hoperands (hf.or hg) hss r hr v hv).operands) ?_
  -- What the first overwrote has nothing left for the second.
  rw [List.flatMap_map, List.flatMap_map, List.flatMap_assoc]
  refine List.flatMap_congr fun s _ => ?_
  cases hv : f s with
  | none => simp [Site.overwritten, Overwriting.or, hv]
  | some v =>
    have hplain (i : Instruction) : g (i, .plain) = none := by
      refine Option.eq_none_iff_forall_ne_some.2 fun w hw => ?_
      obtain ⟨op, t, hsite, -⟩ := hg _ w hw
      cases hsite
    simp [Site.overwritten, Overwriting.or, hv, hplain, Instruction.overwritten, List.flatMap_map]

end Site

open Site (Overwriting Neutralizes patches)

/-- A body that is left of another: accesses to fields that are gone were overwritten. -/
inductive Overwritten (pool : ConstantPool) (bootstraps : List Bootstrap) (gone : MemberRef → Prop)
    (payload : List UInt8) : List UInt8 → Prop
  | intro {ss : List (Instruction × Site)} {f : Overwriting}
    (read : sites pool bootstraps payload = .ok ss) (neutralizes : Neutralizes gone f) :
    Overwritten pool bootstraps gone payload (applyPatches payload (patches f ss))

namespace Overwritten

variable {p q : ConstantPool} {bootstraps : List Bootstrap} {gone gone' : MemberRef → Prop}
  {payload payload₁ payload₂ : List UInt8}

theorem mono (h : Overwritten p bootstraps gone payload payload₁) (hgone : ∀ t, gone t → gone' t) :
    Overwritten p bootstraps gone' payload payload₁ := by
  obtain ⟨hread, hneutralizes⟩ := h
  exact ⟨hread, hneutralizes.mono hgone⟩

/-- What is left of the sites: nothing new, and all but accesses to fields that are gone. -/
theorem sites_left (h : Overwritten p bootstraps gone payload payload₁)
    {ss : List (Instruction × Site)} (hss : sites p bootstraps payload = .ok ss) :
    ∃ ss₁, sites p bootstraps payload₁ = .ok ss₁ ∧ (∀ s ∈ ss₁, s ∈ ss ∨ s.2 = .plain) ∧
      ∀ s ∈ ss, s ∈ ss₁ ∨ ∃ op t, s.2 = .access op t ∧ gone t := by
  obtain @⟨ss', f, hread, hneutralizes⟩ := h
  cases hss.symm.trans hread
  refine ⟨_, hneutralizes.sites hss, fun s hs => (Site.mem_overwritten hs).imp_left And.left,
    fun s hs => ?_⟩
  cases hv : f s with
  | none => exact .inl (Site.mem_overwritten_of_none hs hv)
  | some v =>
    obtain ⟨op, t, hsite, hgone, -⟩ := hneutralizes s v hv
    exact .inr ⟨op, t, hsite, hgone⟩

theorem trans (h : Overwritten p bootstraps gone payload payload₁)
    (h' : Overwritten q bootstraps gone payload₁ payload₂) (hgrows : Grows p q) :
    Overwritten p bootstraps gone payload payload₂ := by
  obtain @⟨ss, f, hread, hf⟩ := h
  obtain @⟨ss₁, g, hread₁, hg⟩ := h'
  have hagain := sites_persist hgrows bootstraps _ _ (hf.sites hread)
  cases hagain.symm.trans hread₁
  rw [hf.again hg hread]
  exact ⟨hread, hf.or hg⟩

/-- No access is left that could be overwritten. -/
def Clear (pool : ConstantPool) (bootstraps : List Bootstrap) (gone : MemberRef → Prop)
    (payload : List UInt8) : Prop :=
  ∀ ss, sites pool bootstraps payload = .ok ss → ∀ s ∈ ss, ∀ op t, s.2 = .access op t → gone t →
    Neutral.replacement? op t.descriptor = none

/-- Two bodies left of one are the same if no access is left in them that could be overwritten. -/
theorem eq_of_clear (h₁ : Overwritten p bootstraps gone payload payload₁)
    (h₂ : Overwritten p bootstraps gone payload payload₂) (hclear₁ : Clear p bootstraps gone payload₁)
    (hclear₂ : Clear p bootstraps gone payload₂) : payload₁ = payload₂ := by
  obtain @⟨ss, f, hread, hf⟩ := h₁
  obtain @⟨ss', g, hread', hg⟩ := h₂
  cases hread.symm.trans hread'
  have hboth {f g : Overwriting} (hf : Neutralizes gone f) (hg : Neutralizes gone g)
      (hclear : Clear p bootstraps gone (applyPatches payload (patches g ss)))
      {s : Instruction × Site} (hs : s ∈ ss) {v : Vector UInt8 3} (hv : f s = some v) :
      g s = some v := by
    obtain ⟨op, t, hsite, hgone, hbytes⟩ := hf s v hv
    cases hw : g s with
    | none =>
      have hnone := hclear _ (hg.sites hread) s (Site.mem_overwritten_of_none hs hw) op t hsite hgone
      cases hbytes.symm.trans hnone
    | some w =>
      obtain ⟨op', t', hsite', -, hbytes'⟩ := hg s w hw
      cases hsite.symm.trans hsite'
      rw [← hbytes, ← hbytes']
  have hsame : patches f ss = patches g ss := by
    refine List.filterMap_congr fun s hs => ?_
    cases hv : f s with
    | some v => rw [hboth hf hg hclear₂ hs hv]
    | none =>
      cases hw : g s with
      | none => rfl
      | some w => cases hv.symm.trans (hboth hg hf hclear₁ hs hw)
  rw [hsame]

end Overwritten

namespace Prune

variable {policy : Policy} {p q : ConstantPool} {bootstraps : List Bootstrap} {l : Ledger}
  {owner : String}

/-- What a pass overwrites. -/
def overwrites (l : Ledger) (owner : String) : Overwriting := fun s =>
  (s.2.patch? l owner s.1).map Walk.Patch.bytes

theorem overwrites_eq_some {s : Instruction × Site} {v : Vector UInt8 3}
    (h : overwrites l owner s = some v) : ∃ op t, s.2 = .access op t ∧
      l.fieldGone owner t.owner t.name = true ∧ Neutral.replacement? op t.descriptor = some v := by
  obtain ⟨patch, hpatch, rfl⟩ := Option.map_eq_some_iff.1 h
  obtain ⟨op, t, hsite, hgone, -, hbytes⟩ := Site.patch?_some hpatch
  exact ⟨op, t, hsite, hgone, hbytes⟩

theorem patches_overwrites (l : Ledger) (owner : String) (ss : List (Instruction × Site)) :
    (ss.filterMap fun s => s.2.patch? l owner s.1) = patches (overwrites l owner) ss := by
  refine List.filterMap_congr fun s _ => ?_
  cases hp : s.2.patch? l owner s.1 with
  | none => simp [overwrites, hp]
  | some patch =>
    obtain ⟨-, -, -, -, hoffset, -⟩ := Site.patch?_some hp
    simp [overwrites, hp, ← hoffset]

/-- What a pass leaves of a body that it looks at: no site in it falls to what is gone. -/
theorem overwritten_of_bodyFate {payload : List UInt8} {ss : List (Instruction × Site)}
    {constructs : Bool} {ps : List Walk.Patch} (hss : sites p bootstraps payload = .ok ss)
    (hmeets : bodyFate l owner constructs ss = .keep ps) :
    Overwritten p bootstraps
        (fun t => constructs = true ∧ l.fieldGone owner t.owner t.name = true) payload
        (applyPatches payload ps) ∧
      ∃ ss', sites p bootstraps (applyPatches payload ps) = .ok ss' ∧ ∀ s ∈ ss',
        s.2.isFatal l owner constructs = false ∧ overwrites l owner s = none := by
  unfold bodyFate at hmeets
  split at hmeets
  · cases hmeets
  next hspared =>
  have hfatal : ∀ s ∈ ss, s.2.isFatal l owner constructs = false := by
    simpa [List.any_eq_true] using hspared
  have hneutralizes : Neutralizes (fun t => l.fieldGone owner t.owner t.name = true)
      (overwrites l owner) := fun s v hv => overwrites_eq_some hv
  rw [← Fate.keep.inj hmeets]
  cases constructs with
  | true =>
    rw [if_pos rfl, patches_overwrites]
    refine ⟨.intro hss (hneutralizes.mono fun _ hgone => ⟨rfl, hgone⟩), _, hneutralizes.sites hss,
      fun s hs => ?_⟩
    obtain ⟨hin, hnone⟩ | hplain := Site.mem_overwritten hs
    · exact ⟨hfatal s hin, hnone⟩
    · obtain ⟨i, site⟩ := s
      obtain rfl : site = .plain := hplain
      exact ⟨rfl, rfl⟩
  | false =>
    rw [if_neg Bool.false_ne_true]
    have hnone : patches (fun _ => none) ss = [] := List.filterMap_none ss
    have hsame : Overwritten p bootstraps
        (fun t => false = true ∧ l.fieldGone owner t.owner t.name = true) payload
        (applyPatches payload []) := hnone ▸ .intro hss nofun
    refine ⟨hsame, ss, hss, fun s hs => ⟨hfatal s hs, ?_⟩⟩
    -- Where an access would be overwritten in a constructor, it is fatal.
    refine Option.eq_none_iff_forall_ne_some.2 fun v hv => ?_
    obtain ⟨op, t, hsite, hgone, -⟩ := overwrites_eq_some hv
    have hspared := hfatal s hs
    rw [hsite, Site.isFatal, hgone] at hspared
    cases hspared

end Prune

end JarPruning
