import JarPruning.Proofs.Pass.Weight

/-!
A pass makes a class lighter. Members that go take their weight along, and a method is charged in
advance for the one stub that may ever make its body longer. A record that goes outweighs the
constants that name the strings of the repacked metadata.
-/
namespace JarPruning

open Attribute (weights)
open ConstantPool (Grows)
open Walk (KeptMethod)

def MemberEntry.weight (pool : ConstantPool) (entry : MemberEntry) : Nat :=
  weights pool entry.attributes + 1

theorem MemberEntry.weight_grow {p q : ConstantPool} (hgrows : Grows p q) (entry : MemberEntry) :
    entry.weight q ≤ entry.weight p :=
  Nat.succ_le_succ (Attribute.weights_grow hgrows _)

namespace Prune

variable {policy : Policy} {self : String} {pool p q : ConstantPool} {bootstraps : List Bootstrap}
  {l l' : Ledger} {stubbed stubbed' : GraceSet Member} {entry e : MemberEntry}

theorem left_weight (policy : Policy) {ms : List Marked}
    (hread : marks pool entry.attributes = .ok ms) :
    (left policy entry ms).weight pool + (Marked.stripAll policy.strips ms).2.toNat ≤
      entry.weight pool := by
  obtain ⟨hsource, hreads⟩ := marks_ok_iff.1 hread
  have hstrip := Marked.stripAll_weight policy.strips hreads
  rw [← hsource] at hstrip
  unfold MemberEntry.weight left
  dsimp only
  omega

/-! Fields. -/

def fieldsWeight (pool : ConstantPool) (fs : List MemberEntry) : Nat :=
  (fs.map (MemberEntry.weight pool)).sum

theorem fieldsWeight_grow (hgrows : Grows p q) (fs : List MemberEntry) :
    fieldsWeight q fs ≤ fieldsWeight p fs := by
  induction fs with
  | nil => exact Nat.le_refl _
  | cons f fs ih => exact Nat.add_le_add (f.weight_grow hgrows) ih

/-- Fields that are reported as changed are lighter. -/
theorem fields_weight {fs fs' : List MemberEntry} {changed : Bool}
    (h : fields policy self pool l fs = .ok (l', fs', changed)) :
    fieldsWeight pool fs' + changed.toNat ≤ fieldsWeight pool fs := by
  unfold fieldsWeight
  induction fs generalizing l fs' changed with
  | nil =>
    cases h
    exact Nat.le_refl _
  | cons f fs ih =>
    obtain ⟨r, fs₁, c, hstep, hfs, rfl, rfl⟩ := fields_cons_ok h
    have hrest := ih hfs
    have hor := or_toNat_le r.2.2 c
    rw [List.map_append, List.sum_append, List.map_cons, List.sum_cons]
    cases hstep with
    | drop _ _ _ =>
      have hpos : 0 < f.weight pool := Nat.succ_pos _
      simp only [Option.toList_none, List.map_nil, List.sum_nil, Bool.toNat_true] at hor ⊢
      omega
    | keep _ hread _ _ =>
      have hleft := left_weight policy hread
      unfold left at hleft
      simp only [Option.toList_some, List.map_cons, List.map_nil, List.sum_cons, List.sum_nil]
        at hor ⊢
      omega

/-! Methods. -/

/-- What a method is charged in advance: as much as the longest stub weighs. -/
def stubCharge : Nat := 70

/-- A method that was stubbed already has used up its charge. -/
def charge (pool : ConstantPool) (stubbed : GraceSet Member) (entry : MemberEntry) : Nat :=
  match entry.resolve pool with
  | .ok m => if stubbed.contains m.toSignature then 0 else stubCharge
  | .error _ => 0

def methodsWeight (pool : ConstantPool) (stubbed : GraceSet Member) (entries : List MemberEntry) :
    Nat :=
  (entries.map fun entry => entry.weight pool + charge pool stubbed entry).sum

theorem methodsWeight_cons (pool : ConstantPool) (stubbed : GraceSet Member) (entry : MemberEntry)
    (entries : List MemberEntry) : methodsWeight pool stubbed (entry :: entries) =
      entry.weight pool + charge pool stubbed entry + methodsWeight pool stubbed entries := rfl

theorem charge_resolved (stubbed : GraceSet Member) {m : Member}
    (h : entry.resolve pool = .ok m) :
    charge pool stubbed entry = if stubbed.contains m.toSignature then 0 else stubCharge := by
  rw [charge, h]

/-- What is stubbed in one set is stubbed in the other. -/
def StubbedStay (stubbed stubbed' : GraceSet Member) : Prop :=
  ∀ key : Signature, stubbed.contains key = true → stubbed'.contains key = true

theorem charge_le (h : StubbedStay stubbed stubbed') (pool : ConstantPool) (entry : MemberEntry) :
    charge pool stubbed' entry ≤ charge pool stubbed entry := by
  unfold charge
  cases entry.resolve pool with
  | error _ => exact Nat.le_refl _
  | ok m =>
    dsimp only
    by_cases hm : stubbed.contains m.toSignature = true
    · rw [if_pos hm, if_pos (h _ hm)]
    · rw [if_neg hm]
      split
      · exact Nat.zero_le _
      · exact Nat.le_refl _

theorem methodsWeight_le (h : StubbedStay stubbed stubbed') (pool : ConstantPool)
    (entries : List MemberEntry) :
    methodsWeight pool stubbed' entries ≤ methodsWeight pool stubbed entries := by
  induction entries with
  | nil => exact Nat.le_refl _
  | cons entry entries ih =>
    have hfirst := charge_le h pool entry
    rw [methodsWeight_cons, methodsWeight_cons]
    omega

/-- Entries that resolve are charged alike in a pool that has grown. -/
theorem methodsWeight_grow (stubbed : GraceSet Member) (hgrows : Grows p q)
    {entries : List MemberEntry} (h : ∀ entry ∈ entries, ∃ m, entry.resolve p = .ok m) :
    methodsWeight q stubbed entries ≤ methodsWeight p stubbed entries := by
  induction entries with
  | nil => exact Nat.le_refl _
  | cons entry entries ih =>
    obtain ⟨m, hm⟩ := h entry (List.mem_cons_self ..)
    have hweight := entry.weight_grow hgrows
    have hrest := ih fun e he => h e (List.mem_cons_of_mem _ he)
    rw [methodsWeight_cons, methodsWeight_cons, charge_resolved stubbed hm,
      charge_resolved stubbed (resolve_grow hgrows rfl rfl rfl hm)]
    omega

theorem afterFate_stubbed (policy : Policy) (self : String) (pool : ConstantPool) (l : Ledger)
    (entry : MemberEntry) (m : Member) (ms : List Marked) (ft : Fate) : StubbedStay l.memory.stubbed
      (afterFate policy self pool l entry m ms ft).1.memory.stubbed := by
  intro key hkey
  cases ft with
  | delete => exact hkey
  | keep _ => exact hkey
  | stub =>
    show (l.memory.stubbed.insert m).2.contains key = true
    rw [GraceSet.contains_insert, hkey, Bool.true_or]

theorem methods_stubbed {entries : List MemberEntry} {ks : List KeptMethod} {changed : Bool}
    (h : methods policy self pool bootstraps l entries = .ok (l', ks, changed)) :
    StubbedStay l.memory.stubbed l'.memory.stubbed := by
  induction entries generalizing l ks changed with
  | nil =>
    cases h
    exact fun _ hkey => hkey
  | cons entry entries ih =>
    obtain ⟨r, ks', c, hstep, hrest, -, -⟩ := methods_cons_ok h
    obtain ⟨m, ms, ft, -, rfl⟩ := method_ok hstep
    exact fun key hkey => ih hrest key (afterFate_stubbed policy self pool l entry m ms ft key hkey)

theorem edited_weight (pool : ConstantPool) {position : Nat} {a : Attribute}
    (edit : List UInt8 → List UInt8) (ha : entry.attributes[position]? = some a) :
    (edited (some position) edit entry).weight pool + a.weight pool =
      entry.weight pool + ({ a with payload := edit a.payload } : Attribute).weight pool := by
  have hmodify := Attribute.weights_modify pool (fun a => { a with payload := edit a.payload }) ha
  unfold edited MemberEntry.weight
  dsimp only [Walk.editPayload]
  omega

/-- A body is no table. -/
theorem codeOf_plain {position : Nat} (h : codeOf pool entry = some position) :
    ∃ a, entry.attributes[position]? = some a ∧ a.isAnnotations pool = false := by
  obtain ⟨a, ha, hnamed⟩ := codeOf_some h
  exact ⟨a, ha, Attribute.not_isAnnotations_of_isNamed hnamed (by decide) (by decide)⟩

/-- Patches of a body make it lighter. -/
theorem MethodStep.patched_weight {m : Member} {ms : List Marked} {patches : List Walk.Patch}
    (h : MethodStep policy self pool bootstraps l entry m ms (.keep patches)) :
    (patched (left policy entry ms) (codeOf pool (left policy entry ms)) patches).weight pool +
        ((codeOf pool (left policy entry ms)).isSome && !patches.isEmpty).toNat ≤
      (left policy entry ms).weight pool := by
  rw [patched_eq]
  cases hcode : codeOf pool (left policy entry ms) with
  | none => exact Nat.le_refl _
  | some position =>
    obtain ⟨a, ha, hplain⟩ := codeOf_plain hcode
    have hweight := edited_weight pool (Walk.applyPatches · patches) ha
    have hlength := length_applyPatches (h.patches_inside hcode ha)
    have hfated := h.fated
    rw [hcode, Option.bind_some, ha] at hfated
    have hfewer : accesses (Walk.applyPatches a.payload patches) + (!patches.isEmpty).toNat ≤
        accesses a.payload := by
      cases hpatches : patches with
      | nil => exact Nat.le_refl _
      | cons p ps =>
        rw [hpatches] at hfated
        refine Nat.succ_le_of_lt ?_
        cases hfated with
        | walked _ _ _ hbody hscanned hmeets =>
          cases hbody
          unfold bodyFate at hmeets
          split at hmeets
          · cases hmeets
          have hkeep := Fate.keep.inj hmeets
          split at hkeep
          · rw [← hkeep]
            exact accesses_patched_lt hscanned (by rw [hkeep]; exact List.cons_ne_nil _ _)
          · cases hkeep
    rw [Attribute.weight_plain hplain, Attribute.weight_payload hplain, hlength] at hweight
    simp only [Option.isSome_some, Bool.true_and]
    omega

/-- A method that is kept and reported as changed is lighter. -/
theorem MethodStep.weight {m : Member} {ms : List Marked} {ft : Fate} {k : KeptMethod}
    (h : MethodStep policy self pool bootstraps l entry m ms ft)
    (hk : (afterFate policy self pool l entry m ms ft).2.1 = some k)
    (he : (Walk.installStub k).run p = .ok e q) :
    e.weight pool + charge pool (afterFate policy self pool l entry m ms ft).1.memory.stubbed e +
        (afterFate policy self pool l entry m ms ft).2.2.toNat ≤
      entry.weight pool + charge pool l.memory.stubbed entry := by
  obtain ⟨m', hm', hresolve⟩ := (h.derived hk he).resolve (.refl pool)
  cases h.resolved.symm.trans hm'
  have hleft := left_weight policy h.read
  cases ft with
  | delete => cases hk
  | keep patches =>
    cases hk
    obtain ⟨-, rfl, -⟩ | ⟨_, _, _, hcode, -⟩ := installStub_ok he
    · have hpatched := h.patched_weight
      have hor := or_toNat_le ((codeOf pool (left policy entry ms)).isSome && !patches.isEmpty)
        (Marked.stripAll policy.strips ms).2
      have hcharge := (charge_resolved l.memory.stubbed hresolve).trans
        (charge_resolved l.memory.stubbed h.resolved).symm
      simp only [afterFate] at hcharge ⊢
      omega
    · cases hcode
  | stub =>
    cases hk
    have hfresh : l.memory.stubbed.contains m.toSignature = false := by
      cases h.fated with
      | stub _ hfresh _ => exact hfresh
      | walked _ _ _ _ _ hmeets => exact absurd hmeets (bodyFate_ne_stub _ _ _ _)
    have hstubbed : (l.stubMethod m).memory.stubbed.contains m.toSignature = true := by
      show (l.memory.stubbed.insert m).2.contains m.toSignature = true
      rw [GraceSet.contains_insert]
      simp [Keyed.key]
    rw [charge_resolved _ h.resolved, charge_resolved _ hresolve, hfresh]
    simp only [afterFate, hstubbed, if_true, Bool.false_eq_true, if_false]
    obtain ⟨hcode, rfl, -⟩ | ⟨position, descriptor, payload, hcode, -, hpayload, rfl⟩ :=
      installStub_ok he
    · have hcode : codeOf pool (left policy entry ms) = none := hcode
      simp only [hcode, Option.isSome_none, Bool.false_or]
      omega
    · have hcode : codeOf pool (left policy entry ms) = some position := hcode
      obtain ⟨a, ha, -⟩ := codeOf_some hcode
      have hweight := edited_weight pool (fun _ => payload) ha
      have hpos := a.weight_pos pool
      have hsmall : ({ a with payload } : Attribute).weight pool ≤ 70 := by
        have hlength := Stub.payload_length hpayload
        have haccesses := accesses_le_length payload
        have hle := Attribute.weight_le pool { a with payload }
        dsimp only at hle
        omega
      have hflag := Bool.toNat_le ((codeOf pool (left policy entry ms)).isSome ||
        (Marked.stripAll policy.strips ms).2)
      dsimp only [edited] at hweight hflag ⊢
      unfold stubCharge
      omega

/-- Methods that are reported as changed are lighter. -/
theorem methods_weight {entries es : List MemberEntry} {ks : List KeptMethod} {changed : Bool}
    (h : methods policy self pool bootstraps l entries = .ok (l', ks, changed))
    (hinstalled : (Walk.installStubs ks).run p = .ok es q) :
    methodsWeight pool l'.memory.stubbed es + changed.toNat ≤
      methodsWeight pool l.memory.stubbed entries := by
  induction entries generalizing l ks es changed p with
  | nil =>
    cases h
    cases hinstalled
    exact Nat.le_refl _
  | cons entry entries ih =>
    obtain ⟨r, ks', c, hstep, hrest, rfl, rfl⟩ := methods_cons_ok h
    obtain ⟨m, ms, ft, hm, rfl⟩ := method_ok hstep
    have hgrown := methodsWeight_le (afterFate_stubbed policy self pool l entry m ms ft) pool entries
    have hor := or_toNat_le (afterFate policy self pool l entry m ms ft).2.2 c
    have hpos : 0 < entry.weight pool := Nat.succ_pos _
    rw [methodsWeight_cons]
    cases hk : (afterFate policy self pool l entry m ms ft).2.1 with
    | none =>
      rw [hk] at hinstalled
      have hlater := ih hrest hinstalled
      have hflag := Bool.toNat_le (afterFate policy self pool l entry m ms ft).2.2
      omega
    | some k =>
      rw [hk] at hinstalled
      obtain ⟨e, es', p', he, hes, rfl⟩ := installStubs_cons_ok hinstalled
      have hlater := ih hrest hes
      have hfirst := hm.weight hk he
      have hcharge := charge_le (methods_stubbed hrest) pool e
      rw [methodsWeight_cons]
      omega

end Prune

end JarPruning
