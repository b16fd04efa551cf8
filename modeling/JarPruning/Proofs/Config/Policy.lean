import JarPruning.Proofs.Config.Spelling
import JarPruning.Proofs.Except
import Mathlib.Data.List.Induction

/-!
Policies as partitions. The lists of names are one list of listings, a role and a name each; a
policy that is filled from front to back holds what the listings so far say, and none of it is
lost where a lookup prefers one role to another, because no descriptor has two.
-/
namespace JarPruning

/-- The names listed for a role. -/
def RoleNames.of (names : RoleNames) : Role → List String
  | .remove => names.remove
  | .delete => names.delete
  | .stub => names.stub

theorem RoleNames.mem_merge {a b : RoleNames} {role : Role} {name : String} :
    name ∈ (a.merge b).of role ↔ name ∈ a.of role ∨ name ∈ b.of role := by
  cases role <;> simp [merge, of]

namespace Policy

/-- The descriptors that have a role. -/
def of (p : Policy) : Role → List String
  | .remove => p.remove
  | .delete => p.delete
  | .stub => p.stub

theorem mem_of_insert {p : Policy} {role role' : Role} {d e : String} :
    e ∈ (p.insert role d).of role' ↔ e ∈ p.of role' ∨ role' = role ∧ e = d := by
  cases role <;> cases role' <;> simp [insert, of, or_comm]

/-- No descriptor has two roles. -/
def IsPartition (p : Policy) : Prop :=
  ∀ role role' d, d ∈ p.of role → d ∈ p.of role' → role = role'

variable {p p' : Policy} {role role' : Role} {name d : String}

/-- A lookup finds a role that the descriptor has, or it has none. -/
theorem role?_cases (p : Policy) (d : String) :
    (∃ role, p.role? d = some role ∧ d ∈ p.of role) ∨
      p.role? d = none ∧ ∀ role, d ∉ p.of role := by
  unfold role?
  simp only [List.contains_iff_mem]
  by_cases hdelete : d ∈ p.delete
  · exact .inl ⟨.delete, if_pos hdelete, hdelete⟩
  rw [if_neg hdelete]
  by_cases hstub : d ∈ p.stub
  · exact .inl ⟨.stub, if_pos hstub, hstub⟩
  rw [if_neg hstub]
  by_cases hremove : d ∈ p.remove
  · exact .inl ⟨.remove, if_pos hremove, hremove⟩
  rw [if_neg hremove]
  refine .inr ⟨rfl, fun role => ?_⟩
  cases role with
  | remove => exact hremove
  | delete => exact hdelete
  | stub => exact hstub

theorem role?_eq_some_iff (h : p.IsPartition) : p.role? d = some role ↔ d ∈ p.of role := by
  rcases role?_cases p d with ⟨role', hrole, hmem⟩ | ⟨hrole, hnone⟩
  · rw [hrole, Option.some.injEq]
    exact ⟨fun heq => heq ▸ hmem, h role' role d hmem⟩
  · simp only [hrole, reduceCtorEq, hnone role]

/-- A name is added if its descriptor has no other role. -/
theorem add_ok_iff (h : p.IsPartition) : p.add role name = .ok p' ↔
    ∃ d, descriptor name = .ok d ∧ (∀ role', d ∈ p.of role' → role' = role) ∧
      p.insert role d = p' := by
  rw [add, bind_ok_iff]
  refine exists_congr fun d => and_congr_right fun _ => ?_
  rcases role?_cases p d with ⟨other, hrole, hmem⟩ | ⟨hrole, hnone⟩
  · have hother : (∀ role', d ∈ p.of role' → role' = role) ↔ other = role :=
      ⟨fun hsole => hsole other hmem, fun heq role' hmem' => heq ▸ h role' other d hmem' hmem⟩
    rw [hother, hrole]
    by_cases heq : other = role
    · simp [heq, pure, Except.pure]
    · simp [heq, throw, throwThe, MonadExceptOf.throw]
  · simp [hrole, hnone, pure, Except.pure]

/-! Listings. -/

/-- A role and a name that is listed for it. -/
abbrev Listing := Role × String

/-- The listings of some lists of names, in the order in which they are taken. -/
def listings (names : RoleNames) : List Listing :=
  names.remove.map (.remove, ·) ++ names.delete.map (.delete, ·) ++ names.stub.map (.stub, ·)

theorem mem_listings {names : RoleNames} :
    (role, name) ∈ listings names ↔ name ∈ names.of role := by
  cases role <;> simp [listings, RoleNames.of]

def filled (ls : List Listing) : Except Fault Policy :=
  ls.foldlM (fun p l => p.add l.1 l.2) {}

theorem ofNames_eq_filled (names : RoleNames) : ofNames names = filled (listings names) := by
  simp only [ofNames, addAll, filled, listings, List.foldlM_append, List.foldlM_map, bind_assoc]

theorem filled_concat (ls : List Listing) (l : Listing) :
    filled (ls ++ [l]) = filled ls >>= fun p => p.add l.1 l.2 := by
  simp only [filled, List.foldlM_append, List.foldlM_cons, List.foldlM_nil, bind_pure]

/-- Every name has a descriptor, and names that are listed for two roles have two. -/
structure Consistent (ls : List Listing) : Prop where
  named : ∀ l ∈ ls, ∃ d, descriptor l.2 = .ok d
  apart : ∀ l ∈ ls, ∀ l' ∈ ls, ∀ d, descriptor l.2 = .ok d → descriptor l'.2 = .ok d → l.1 = l'.1

theorem consistent_concat {ls : List Listing} : Consistent (ls ++ [(role, name)]) ↔
    Consistent ls ∧ ∃ d, descriptor name = .ok d ∧
      ∀ l ∈ ls, descriptor l.2 = .ok d → l.1 = role := by
  constructor
  · rintro ⟨hnamed, hapart⟩
    obtain ⟨hbefore, hlast⟩ := List.forall_mem_append.1 hnamed
    obtain ⟨d, hd⟩ := hlast _ (List.mem_singleton_self _)
    have hin {l : Listing} (hl : l ∈ ls) : l ∈ ls ++ [(role, name)] := List.mem_append_left _ hl
    refine ⟨⟨hbefore, fun l hl l' hl' => hapart l (hin hl) l' (hin hl')⟩, d, hd, fun l hl hld => ?_⟩
    exact hapart l (hin hl) (role, name) (by simp) d hld hd
  · rintro ⟨⟨hnamed, hapart⟩, d, hd, hlast⟩
    have hsame {e : String} (he : descriptor name = .ok e) : e = d :=
      Except.ok.inj (he.symm.trans hd)
    constructor
    · exact List.forall_mem_append.2 ⟨hnamed, List.forall_mem_singleton.2 ⟨d, hd⟩⟩
    · simp only [List.forall_mem_append, List.forall_mem_singleton]
      refine ⟨fun l hl => ⟨fun l' hl' => hapart l hl l' hl', fun e hle he => ?_⟩,
        fun l' hl' e he hle' => ?_, fun _ _ _ => trivial⟩
      · exact hlast l hl (hsame he ▸ hle)
      · exact (hlast l' hl' (hsame he ▸ hle')).symm

/-- The policy gives every listed name its role, and no other descriptor a role. -/
def Holds (p : Policy) (ls : List Listing) : Prop :=
  ∀ role d, d ∈ p.of role ↔ ∃ name, (role, name) ∈ ls ∧ descriptor name = .ok d

variable {ls : List Listing}

theorem Holds.isPartition (h : p.Holds ls) (hls : Consistent ls) : p.IsPartition := by
  intro role role' d hd hd'
  obtain ⟨name, hmem, hname⟩ := (h role d).1 hd
  obtain ⟨name', hmem', hname'⟩ := (h role' d).1 hd'
  exact hls.apart _ hmem _ hmem' d hname hname'

theorem Holds.insert (h : p.Holds ls) (hname : descriptor name = .ok d) :
    (p.insert role d).Holds (ls ++ [(role, name)]) := by
  intro role' e
  rw [mem_of_insert, h]
  constructor
  · rintro (⟨name', hmem, hname'⟩ | ⟨rfl, rfl⟩)
    · exact ⟨name', List.mem_append_left _ hmem, hname'⟩
    · exact ⟨name, by simp, hname⟩
  · rintro ⟨name', hmem, hname'⟩
    rcases List.mem_append.1 hmem with hmem | hmem
    · exact .inl ⟨name', hmem, hname'⟩
    · cases List.mem_singleton.1 hmem
      exact .inr ⟨rfl, Except.ok.inj (hname'.symm.trans hname)⟩

/-- Listings fill a policy if they are consistent, and only then, and it holds what they say. -/
theorem filled_spec (ls : List Listing) : (Consistent ls ↔ ∃ p, filled ls = .ok p) ∧
    ∀ p, filled ls = .ok p → p.Holds ls := by
  -- The last listing is added to a policy that holds the ones before it. Consistency makes that
  -- policy a partition, and only then does the lookup see every role that a descriptor has.
  induction ls using List.reverseRecOn with
  | nil =>
    refine ⟨iff_of_true ⟨by simp, by simp⟩ ⟨_, rfl⟩, fun p h => ?_⟩
    cases h
    intro role d
    cases role <;> simp [of]
  | append_singleton ls l ih =>
    obtain ⟨role, name⟩ := l
    obtain ⟨ihconsistent, ihholds⟩ := ih
    rw [filled_concat, consistent_concat]
    simp only [bind_ok_iff]
    constructor
    · constructor
      · rintro ⟨hls, d, hd, hlast⟩
        obtain ⟨p, hp⟩ := ihconsistent.1 hls
        refine ⟨p.insert role d, p, hp, (add_ok_iff ((ihholds p hp).isPartition hls)).2 ?_⟩
        refine ⟨d, hd, fun role' hmem => ?_, rfl⟩
        obtain ⟨name', hmem', hname'⟩ := (ihholds p hp role' d).1 hmem
        exact hlast _ hmem' hname'
      · rintro ⟨p', p, hp, hadd⟩
        have hls := ihconsistent.2 ⟨p, hp⟩
        obtain ⟨d, hd, hsole, -⟩ := (add_ok_iff ((ihholds p hp).isPartition hls)).1 hadd
        refine ⟨hls, d, hd, fun l hl hld => hsole l.1 ?_⟩
        exact (ihholds p hp l.1 d).2 ⟨l.2, hl, hld⟩
    · rintro p' ⟨p, hp, hadd⟩
      have hls := ihconsistent.2 ⟨p, hp⟩
      obtain ⟨d, hd, -, rfl⟩ := (add_ok_iff ((ihholds p hp).isPartition hls)).1 hadd
      exact (ihholds p hp).insert hd

/-! Lists of names. -/

variable {names names' : RoleNames}

theorem consistent_listings : Consistent (listings names) ↔
    (∀ role, ∀ name ∈ names.of role, ∃ d, descriptor name = .ok d) ∧
      ∀ role role' name name' d, name ∈ names.of role → name' ∈ names.of role' →
        descriptor name = .ok d → descriptor name' = .ok d → role = role' := by
  constructor
  · rintro ⟨hnamed, hapart⟩
    refine ⟨fun role name hname => hnamed (role, name) (mem_listings.2 hname), ?_⟩
    intro role role' name name' d hname hname'
    exact hapart (role, name) (mem_listings.2 hname) (role', name') (mem_listings.2 hname') d
  · rintro ⟨hnamed, hapart⟩
    refine ⟨fun l hl => hnamed l.1 l.2 (mem_listings.1 hl), ?_⟩
    intro l hl l' hl' d
    exact hapart l.1 l'.1 l.2 l'.2 d (mem_listings.1 hl) (mem_listings.1 hl')

theorem role?_ofNames_eq_some_iff (h : ofNames names = .ok p) :
    p.role? d = some role ↔ ∃ name ∈ names.of role, descriptor name = .ok d := by
  rw [ofNames_eq_filled] at h
  obtain ⟨hconsistent, hholds⟩ := filled_spec (listings names)
  rw [role?_eq_some_iff ((hholds p h).isPartition (hconsistent.2 ⟨p, h⟩)), hholds p h]
  simp only [mem_listings]

/-- What the lists say depends on the names in them and not on their order or number. -/
theorem exists_same_roles (hnames : ∀ role name, name ∈ names.of role ↔ name ∈ names'.of role)
    (h : ofNames names = .ok p) : ∃ p', ofNames names' = .ok p' ∧ ∀ d, p'.role? d = p.role? d := by
  have hconsistent : Consistent (listings names') := by
    have hbefore := (filled_spec (listings names)).1.2 ⟨p, by rwa [← ofNames_eq_filled]⟩
    simpa only [consistent_listings, hnames] using hbefore
  obtain ⟨p', hp'⟩ := (filled_spec (listings names')).1.1 hconsistent
  rw [← ofNames_eq_filled] at hp'
  refine ⟨p', hp', fun d => Option.ext fun role => ?_⟩
  simp only [role?_ofNames_eq_some_iff hp', role?_ofNames_eq_some_iff h, hnames]

/-- A policy is a partition of the descriptors that its lists of names spell. It exists if every
name spells one and no descriptor is spelled in two lists; a lookup answers the list that spells a
descriptor; and names in another order, named again or merged the other way round give the same
answers. A name spells its descriptor as it is or with dots, whatever blanks are around it. -/
theorem ofNames_partition (names : RoleNames) :
    ((∃ p, ofNames names = .ok p) ↔
      (∀ role, ∀ name ∈ names.of role, ∃ d, descriptor name = .ok d) ∧
      ∀ role role' name name' d, name ∈ names.of role → name' ∈ names.of role' →
        descriptor name = .ok d → descriptor name' = .ok d → role = role') ∧
    (∀ p, ofNames names = .ok p →
      (∀ d role, p.role? d = some role ↔ ∃ name ∈ names.of role, descriptor name = .ok d) ∧
      (∀ d, p.role? d = none ↔ ∀ role, ∀ name ∈ names.of role, descriptor name ≠ .ok d) ∧
      ∀ names' : RoleNames, (∀ role name, name ∈ names.of role ↔ name ∈ names'.of role) →
        ∃ p', ofNames names' = .ok p' ∧ ∀ d, p'.role? d = p.role? d) ∧
    (∀ more p, ofNames (names.merge more) = .ok p →
      ∃ p', ofNames (more.merge names) = .ok p' ∧ ∀ d, p'.role? d = p.role? d) ∧
    ∀ name d, descriptor name = .ok d ↔
      ∃ core, Blank.Trims name.toList core ∧ Spells core d.toList := by
  refine ⟨?_, fun p h => ⟨fun d role => role?_ofNames_eq_some_iff h, fun d => ?_,
    fun names' hnames => exists_same_roles hnames h⟩, fun more p h => ?_,
    fun name d => descriptor_eq_ok_iff⟩
  · rw [ofNames_eq_filled, ← (filled_spec _).1, consistent_listings]
  · simp only [Option.eq_none_iff_forall_not_mem, Option.mem_def, role?_ofNames_eq_some_iff h,
      not_exists, not_and, ne_eq]
  · refine exists_same_roles (fun role name => ?_) h
    rw [RoleNames.mem_merge, RoleNames.mem_merge, or_comm]

end Policy

end JarPruning
