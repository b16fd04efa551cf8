import JarPruning.Proofs.ClassFile.Lookups

/-!
Constants on request. A pool is asked for a constant by the texts that it is to resolve to. The
answer is the first constant that resolves to them. If there is none, one is appended behind those of
its parts that the pool lacks, and asking again finds it there, unless an earlier constant that led
beyond the pool has come to resolve to the same.
-/
namespace JarPruning

/-- How many references lead from a constant to its texts, for the kinds that can be asked for. -/
def Constant.depth : Constant → Nat
  | .utf8 _ _ => 0
  | .methodRef _ _ => 2
  | _ => 1

namespace ConstantPool

variable {p q r : ConstantPool} {i j : UInt16} {d : Nat}

theorem push_ok {c : Constant} (h : (push c).run p = .ok i q) :
    p.entries.size < capacity ∧ i.toNat = p.entries.size ∧ q = ⟨p.entries.push c⟩ := by
  simp only [push, EStateM.run] at h
  split at h
  · cases h
  · next hroom =>
    cases h
    unfold capacity at *
    exact ⟨by omega, by rw [UInt16.toNat_ofNat', Nat.mod_eq_of_lt (by omega)], rfl⟩

theorem extends_push (p : ConstantPool) (c : Constant) : Extends p ⟨p.entries.push c⟩ :=
  ⟨[c], by simp⟩

/-- `q` is `p` with constants of less than a depth behind, none of which leads beyond `q`. -/
structure Appended (d : Nat) (p q : ConstantPool) : Prop where
  front : Extends p q
  size : q.entries.size ≤ capacity
  fresh : ∀ c ∈ q.entries.toList, c ∈ p.entries.toList ∨ c.depth < d ∧ q.Anchors c

namespace Appended

theorem refl (hsize : p.entries.size ≤ capacity) (d : Nat) : Appended d p p :=
  ⟨.refl p, hsize, fun _ hc => .inl hc⟩

theorem trans (h : Appended d p q) (h' : Appended d q r) : Appended d p r := by
  refine ⟨h.front.trans h'.front, h'.size, fun c hc => ?_⟩
  obtain hc | hc := h'.fresh c hc
  · obtain hc | ⟨hdepth, hanchored⟩ := h.fresh c hc
    · exact .inl hc
    · exact .inr ⟨hdepth, h'.front.anchors hanchored⟩
  · exact .inr hc

theorem mono {e : Nat} (h : Appended d p q) (hle : d ≤ e) : Appended e p q :=
  ⟨h.front, h.size, fun c hc => (h.fresh c hc).imp_right fun hnew =>
    ⟨Nat.lt_of_lt_of_le hnew.1 hle, hnew.2⟩⟩

theorem push {c : Constant} (hroom : p.entries.size < capacity) (hdepth : c.depth < d)
    (hanchored : p.Anchors c) : Appended d p ⟨p.entries.push c⟩ := by
  have hfront := extends_push p c
  refine ⟨hfront, by rw [Array.size_push]; omega, fun c' hc' => ?_⟩
  obtain hc' | rfl := Array.mem_push.1 (Array.mem_toList_iff.1 hc')
  · exact .inl (Array.mem_toList_iff.2 hc')
  · exact .inr ⟨hdepth, hfront.anchors hanchored⟩

end Appended

/-- What an addition comes to: constants behind the others and then a good answer, or a full pool. -/
def Outcome {α : Type} (d : Nat) (p : ConstantPool) (good : ConstantPool → α → Prop) :
    EStateM.Result Fault ConstantPool α → Prop
  | .ok a q => Appended d p q ∧ good q a
  | .error fault q => Appended d p q ∧ q.entries.size = capacity ∧ fault = ⟨0, .poolFull⟩

/-- From every pool that meets the precondition, the addition comes to such an outcome. -/
def Builds {α : Type} (d : Nat) (pre : ConstantPool → Prop) (x : Extension α)
    (post : ConstantPool → α → Prop) : Prop :=
  ∀ ⦃p⦄, p.entries.size ≤ capacity → pre p → Outcome d p post (x.run p)

namespace Builds

variable {α β : Type} {pre : ConstantPool → Prop} {post mid : ConstantPool → α → Prop}

theorem pure {a : α} (h : ∀ p, pre p → post p a) : Builds d pre (Pure.pure a) post :=
  fun p hsize hp => ⟨.refl hsize d, h p hp⟩

theorem bind {x : Extension α} {f : α → Extension β} {post : ConstantPool → β → Prop}
    (hx : Builds d pre x mid) (hf : ∀ a, Builds d (mid · a) (f a) post) :
    Builds d pre (x >>= f) post := by
  intro p hsize hp
  have hfirst := hx hsize hp
  rw [EStateM.run_bind]
  cases hrun : x.run p with
  | error fault q => rwa [hrun] at hfirst
  | ok a q =>
    rw [hrun] at hfirst
    obtain ⟨happended, hmid⟩ := hfirst
    have hsecond := hf a happended.size hmid
    dsimp only
    cases hrun' : (f a).run q with
    | error fault r =>
      rw [hrun'] at hsecond
      exact ⟨happended.trans hsecond.1, hsecond.2⟩
    | ok b r =>
      rw [hrun'] at hsecond
      exact ⟨happended.trans hsecond.1, hsecond.2⟩

/-- Whatever outlasts additions is carried past one that asks nothing of the pool. -/
theorem frame {kept : ConstantPool → Prop} {x : Extension α} (h : Builds d (fun _ => True) x post)
    (hkept : ∀ ⦃p q⦄, Extends p q → kept p → kept q) :
    Builds d kept x (fun q a => post q a ∧ kept q) := by
  intro p hsize hp
  have houtcome := h hsize trivial
  cases hrun : x.run p with
  | error fault q =>
    rw [hrun] at houtcome
    exact houtcome
  | ok a q =>
    rw [hrun] at houtcome
    exact ⟨houtcome.1, houtcome.2, hkept houtcome.1.front hp⟩

theorem mono {e : Nat} {x : Extension α} (h : Builds d pre x post) (hle : d ≤ e) :
    Builds e pre x post := by
  intro p hsize hp
  have houtcome := h hsize hp
  cases hrun : x.run p with
  | error fault q =>
    rw [hrun] at houtcome
    exact ⟨houtcome.1.mono hle, houtcome.2⟩
  | ok a q =>
    rw [hrun] at houtcome
    exact ⟨houtcome.1.mono hle, houtcome.2⟩

end Builds

theorem isMethodRef_iff {owner : String} {s : Signature} {c : Constant} :
    isMethodRef owner s p c = true ↔
      ∃ i j, c = .methodRef i j ∧ p.memberOf i j false = .ok ⟨s, owner, false⟩ := by
  cases c with
  | methodRef i j =>
    cases hmember : p.memberOf i j false with
    | error fault => simp [isMethodRef, hmember]
    | ok member => simp [isMethodRef, hmember]
  | _ => simp [isMethodRef]

/-- What a pool can be asked for. -/
inductive Request where
  | text (text : String)
  | classInfo (name : String)
  | string (text : String)
  | nameAndType (signature : Signature)
  | methodRef (owner : String) (signature : Signature)

namespace Request

/-- The addition that answers a request. -/
def add : Request → Extension UInt16
  | .text t => addUtf8 t
  | .classInfo name => addClass name
  | .string t => addString t
  | .nameAndType s => addNameAndType s
  | .methodRef owner s => addMethodRef owner s

/-- Whether a constant is of the kind asked for, whatever it resolves to. -/
def covers : Request → Constant → Bool
  | .text _, .utf8 _ _ | .classInfo _, .classInfo _ | .string _, .string _ |
    .nameAndType _, .nameAndType _ _ | .methodRef _ _, .methodRef _ _ => true
  | _, _ => false

/-- The index resolves to what is asked for, and the constant there is of the kind asked for. -/
def FoundAt : Request → ConstantPool → UInt16 → Prop
  | .text t, pool, i => pool.utf8 i = .ok t
  | .classInfo name, pool, i => pool.className i = .ok name
  | .string t, pool, i => ∃ j, pool.entry i = .ok (.string j) ∧ pool.utf8 j = .ok t
  | .nameAndType s, pool, i => pool.nameAndType i = .ok s
  | .methodRef owner s, pool, i =>
    (∃ j k, pool.entry i = .ok (.methodRef j k)) ∧ pool.memberRef i = .ok ⟨s, owner, false⟩

/-- The test by which an addition looks for what it answers. -/
def test : Request → ConstantPool → Constant → Bool
  | .text t => isText t
  | .classInfo name => isClass name
  | .string t => isString t
  | .nameAndType s => isNameAndType s
  | .methodRef owner s => isMethodRef owner s

/-- The constant that is to be appended, its parts being added first. -/
def parts : Request → Extension Constant
  | .text t => return .ofText t
  | .classInfo name => return .classInfo (← addUtf8 name)
  | .string t => return .string (← addUtf8 t)
  | .nameAndType s => return .nameAndType (← addUtf8 s.name) (← addUtf8 s.descriptor)
  | .methodRef owner s => return .methodRef (← addClass owner) (← addNameAndType s)

def depth : Request → Nat
  | .text _ => 0
  | .methodRef _ _ => 2
  | _ => 1

theorem add_eq (request : Request) :
    request.add = findOr request.test (request.parts >>= push) := by
  cases request <;> simp [add, test, parts, addUtf8, addClass, addString, addNameAndType, addMethodRef]

theorem run_add (request : Request) (p : ConstantPool) :
    request.add.run p =
      match p.find? (request.test p) with
      | some i => .ok i p
      | none => (request.parts >>= push).run p := by
  rw [add_eq]
  show EStateM.run (match p.find? (request.test p) with | some i => Pure.pure i | none => _) p = _
  cases p.find? (request.test p) <;> rfl

/-! Tests and what they look for. -/

variable {request : Request} {c : Constant}

theorem covers_of_test (h : request.test p c = true) : request.covers c = true := by
  cases request <;> cases c <;> first | rfl | cases h

theorem depth_of_covers (h : request.covers c = true) : c.depth = request.depth := by
  cases request <;> cases c <;> first | rfl | cases h

/-- An index resolves to what is asked for if the constant there passes. -/
theorem foundAt_iff : request.FoundAt p i ↔
    ∃ c, p.entries[i.toNat]? = some c ∧ request.test p c = true := by
  constructor
  · intro h
    cases request with
    | text t =>
      obtain ⟨bytes, hget⟩ := utf8_ok_iff.1 h
      exact ⟨_, hget, by simp [test, isText]⟩
    | classInfo name =>
      obtain ⟨j, hget, hname⟩ := className_ok_iff.1 h
      exact ⟨_, hget, hasText_iff.2 hname⟩
    | string t =>
      obtain ⟨j, hentry, htext⟩ := h
      exact ⟨_, (entry_ok_iff.1 hentry).1, hasText_iff.2 htext⟩
    | nameAndType s =>
      obtain ⟨j, k, hget, hname, hdescriptor⟩ := nameAndType_ok_iff.1 h
      exact ⟨_, hget, Bool.and_eq_true_iff.2 ⟨hasText_iff.2 hname, hasText_iff.2 hdescriptor⟩⟩
    | methodRef owner s =>
      obtain ⟨⟨j, k, hentry⟩, hmember⟩ := h
      rw [memberRef, hentry] at hmember
      exact ⟨_, (entry_ok_iff.1 hentry).1, isMethodRef_iff.2 ⟨j, k, rfl, hmember⟩⟩
  · rintro ⟨c, hget, htest⟩
    have hcovers := covers_of_test htest
    cases request with
    | text t =>
      cases c with
      | utf8 u bytes =>
        obtain rfl : u = t := by simpa [test, isText] using htest
        exact utf8_ok_iff.2 ⟨bytes, hget⟩
      | _ => cases hcovers
    | classInfo name =>
      cases c with
      | classInfo j => exact className_ok_iff.2 ⟨j, hget, hasText_iff.1 htest⟩
      | _ => cases hcovers
    | string t =>
      cases c with
      | string j =>
        exact ⟨j, entry_ok_iff.2 ⟨hget, Constant.noConfusion⟩, hasText_iff.1 htest⟩
      | _ => cases hcovers
    | nameAndType s =>
      cases c with
      | nameAndType j k =>
        obtain ⟨hj, hk⟩ := Bool.and_eq_true_iff.1 htest
        exact nameAndType_ok_iff.2 ⟨j, k, hget, hasText_iff.1 hj, hasText_iff.1 hk⟩
      | _ => cases hcovers
    | methodRef owner s =>
      obtain ⟨j, k, rfl, hmember⟩ := isMethodRef_iff.1 htest
      have hentry : p.entry i = .ok (.methodRef j k) :=
        entry_ok_iff.2 ⟨hget, Constant.noConfusion⟩
      refine ⟨⟨j, k, hentry⟩, ?_⟩
      rw [memberRef, hentry]
      exact hmember

/-- What passes goes on passing. -/
theorem test_of_extends (h : Extends p q) (hc : request.test p c = true) :
    request.test q c = true := by
  cases request with
  | text t => cases c <;> exact hc
  | classInfo name =>
    cases c with
    | classInfo i => exact h.hasText hc
    | _ => cases hc
  | string t =>
    cases c with
    | string i => exact h.hasText hc
    | _ => cases hc
  | nameAndType s =>
    cases c with
    | nameAndType i j =>
      obtain ⟨hi, hj⟩ := Bool.and_eq_true_iff.1 hc
      exact Bool.and_eq_true_iff.2 ⟨h.hasText hi, h.hasText hj⟩
    | _ => cases hc
  | methodRef owner s =>
    obtain ⟨i, j, rfl, hmember⟩ := isMethodRef_iff.1 hc
    exact isMethodRef_iff.2 ⟨i, j, rfl, h.memberOf i j false _ hmember⟩

/-- What does not lead beyond a pool comes to pass in no pool that starts like it. -/
theorem test_eq_of_extends (h : Extends p q) (hc : p.Anchors c) :
    request.test q c = request.test p c := by
  cases request with
  | text t => cases c <;> rfl
  | classInfo name =>
    cases c with
    | classInfo i => exact h.hasText_eq (hc i (by simp [Constant.references])).reaches name
    | _ => rfl
  | string t =>
    cases c with
    | string i => exact h.hasText_eq (hc i (by simp [Constant.references])).reaches t
    | _ => rfl
  | nameAndType s =>
    cases c with
    | nameAndType i j =>
      simp only [test, isNameAndType]
      rw [h.hasText_eq (hc i (by simp [Constant.references])).reaches,
        h.hasText_eq (hc j (by simp [Constant.references])).reaches]
    | _ => rfl
  | methodRef owner s =>
    cases c with
    | methodRef i j =>
      simp only [test, isMethodRef]
      rw [h.memberOf_eq (hc i (by simp [Constant.references])) (hc j (by simp [Constant.references]))]
    | _ => rfl

/-! The first constant that is as asked for. -/

theorem FoundAt.of_extends (h : request.FoundAt p i) (hfront : Extends p q) :
    request.FoundAt q i := by
  obtain ⟨c, hget, htest⟩ := foundAt_iff.1 h
  exact foundAt_iff.2 ⟨c, hfront.getElem? hget, test_of_extends hfront htest⟩

/-- The first index that resolves to what is asked for. -/
structure First (request : Request) (p : ConstantPool) (i : UInt16) : Prop where
  found : request.FoundAt p i
  earlier : ∀ j < i, ¬ request.FoundAt p j

theorem FoundAt.exists_first (h : request.FoundAt p i) : ∃ j ≤ i, request.First p j := by
  induction hn : i.toNat using Nat.strongRecOn generalizing i with
  | ind n ih =>
    by_cases hearlier : ∃ j < i, request.FoundAt p j
    · obtain ⟨j, hlt, hj⟩ := hearlier
      obtain ⟨k, hle, hk⟩ := ih j.toNat (hn ▸ UInt16.lt_iff_toNat_lt.1 hlt) hj rfl
      exact ⟨k, UInt16.le_trans hle (UInt16.le_of_lt hlt), hk⟩
    · exact ⟨i, UInt16.le_refl i, h, fun j hlt hj => hearlier ⟨j, hlt, hj⟩⟩

theorem First.find? (h : request.First p i) : p.find? (request.test p) = some i := by
  obtain ⟨c, hget, htest⟩ := foundAt_iff.1 h.found
  obtain ⟨hlt, hc⟩ := Array.getElem?_eq_some_iff.1 hget
  have hindex : p.entries.findIdx? (request.test p) = some i.toNat := by
    refine Array.findIdx?_eq_some_iff_getElem.2 ⟨hlt, hc ▸ htest, fun n hn hpasses => ?_⟩
    have htoNat : (UInt16.ofNat n).toNat = n := by
      rw [UInt16.toNat_ofNat', Nat.mod_eq_of_lt (Nat.lt_trans hn i.toNat_lt)]
    refine h.earlier (UInt16.ofNat n) (UInt16.lt_iff_toNat_lt.2 (by rwa [htoNat])) ?_
    refine foundAt_iff.2 ⟨_, ?_, hpasses⟩
    rw [htoNat, Array.getElem?_eq_getElem]
  rw [ConstantPool.find?, hindex, Option.map_some, UInt16.ofNat_toNat]

theorem first_of_find? (hsize : p.entries.size ≤ capacity)
    (h : p.find? (request.test p) = some i) : request.First p i := by
  obtain ⟨n, hn, rfl⟩ := Option.map_eq_some_iff.1 h
  obtain ⟨hlt, htest, hearlier⟩ := Array.findIdx?_eq_some_iff_getElem.1 hn
  have htoNat : (UInt16.ofNat n).toNat = n := by
    unfold capacity at hsize
    rw [UInt16.toNat_ofNat', Nat.mod_eq_of_lt (by omega)]
  have hget := Array.getElem?_eq_getElem hlt
  refine ⟨foundAt_iff.2 ⟨_, by rw [htoNat, hget], htest⟩, fun j hj hfound => ?_⟩
  obtain ⟨c, hget', hpasses⟩ := foundAt_iff.1 hfound
  obtain ⟨hlt', hc⟩ := Array.getElem?_eq_some_iff.1 hget'
  refine hearlier j.toNat ?_ (hc ▸ hpasses)
  rw [UInt16.lt_iff_toNat_lt, htoNat] at hj
  exact hj

theorem find?_eq_none_iff {test : Constant → Bool} :
    p.find? test = none ↔ ∀ c ∈ p.entries.toList, test c = false := by
  simp [ConstantPool.find?, Array.findIdx?_eq_none_iff]

/-- Where something is as asked for, nothing is added. -/
theorem First.run (h : request.First p i) : request.add.run p = .ok i p := by
  rw [run_add, h.find?]

theorem FoundAt.run (h : request.FoundAt p i) :
    ∃ j ≤ i, request.add.run p = .ok j p ∧ request.FoundAt p j := by
  obtain ⟨j, hle, hfirst⟩ := h.exists_first
  exact ⟨j, hle, hfirst.run, hfirst.found⟩

/-! What additions come to. -/

/-- A constant as asked for, that leads nowhere beyond the pool. -/
structure Ready (request : Request) (p : ConstantPool) (c : Constant) : Prop where
  passes : request.test p c = true
  anchored : p.Anchors c

theorem add_builds_of_parts (request : Request)
    (hparts : Builds request.depth (fun _ => True) request.parts request.Ready) :
    Builds (request.depth + 1) (fun _ => True) request.add request.FoundAt := by
  intro p hsize _
  rw [run_add]
  cases hfind : p.find? (request.test p) with
  | some i => exact ⟨.refl hsize _, (first_of_find? hsize hfind).found⟩
  | none =>
    refine ((hparts.mono (Nat.le_succ _)).bind fun c => ?_) hsize trivial
    intro q hsize hready
    have hdepth := depth_of_covers (covers_of_test hready.passes)
    by_cases hroom : q.entries.size < capacity
    · have happended : Appended (request.depth + 1) q ⟨q.entries.push c⟩ :=
        .push hroom (by omega) hready.anchored
      have hrun : (push c).run q = .ok (UInt16.ofNat q.entries.size) ⟨q.entries.push c⟩ :=
        if_neg (Nat.not_le.2 hroom)
      rw [hrun]
      refine ⟨happended, foundAt_iff.2 ⟨c, ?_, test_of_extends happended.front hready.passes⟩⟩
      unfold capacity at hroom
      rw [UInt16.toNat_ofNat', Nat.mod_eq_of_lt (by omega), Array.getElem?_push_size]
    · have hrun : (push c).run q = .error ⟨0, .poolFull⟩ q := if_pos (Nat.not_lt.1 hroom)
      rw [hrun]
      exact ⟨.refl hsize _, by omega, rfl⟩

theorem parts_text (t : String) :
    Builds 0 (fun _ => True) (parts (.text t)) (Ready (.text t)) :=
  .pure fun _ _ => ⟨by simp [test, isText, Constant.ofText],
    by simp [Anchors, Constant.ofText, Constant.references]⟩

theorem addUtf8_builds (t : String) : Builds 1 (fun _ => True) (addUtf8 t) (·.utf8 · = .ok t) :=
  add_builds_of_parts (.text t) (parts_text t)

theorem parts_classInfo (name : String) :
    Builds 1 (fun _ => True) (parts (.classInfo name)) (Ready (.classInfo name)) := by
  refine (addUtf8_builds name).bind fun i => .pure fun p hname => ?_
  exact ⟨hasText_iff.2 hname, List.forall_mem_singleton.2 (holds_of_utf8 hname)⟩

theorem addClass_builds (name : String) :
    Builds 2 (fun _ => True) (addClass name) (·.className · = .ok name) :=
  add_builds_of_parts (.classInfo name) (parts_classInfo name)

theorem parts_string (t : String) :
    Builds 1 (fun _ => True) (parts (.string t)) (Ready (.string t)) := by
  refine (addUtf8_builds t).bind fun i => .pure fun p htext => ?_
  exact ⟨hasText_iff.2 htext, List.forall_mem_singleton.2 (holds_of_utf8 htext)⟩

theorem parts_nameAndType (s : Signature) :
    Builds 1 (fun _ => True) (parts (.nameAndType s)) (Ready (.nameAndType s)) := by
  refine (addUtf8_builds s.name).bind fun i => ?_
  refine ((addUtf8_builds s.descriptor).frame fun p q h hname => h.utf8 i _ hname).bind fun j => ?_
  refine .pure fun p ⟨hdescriptor, hname⟩ => ⟨?_, ?_⟩
  · exact Bool.and_eq_true_iff.2 ⟨hasText_iff.2 hname, hasText_iff.2 hdescriptor⟩
  · exact List.forall_mem_cons.2 ⟨holds_of_utf8 hname,
      List.forall_mem_singleton.2 (holds_of_utf8 hdescriptor)⟩

theorem addNameAndType_builds (s : Signature) :
    Builds 2 (fun _ => True) (addNameAndType s) (·.nameAndType · = .ok s) :=
  add_builds_of_parts (.nameAndType s) (parts_nameAndType s)

theorem parts_methodRef (owner : String) (s : Signature) :
    Builds 2 (fun _ => True) (parts (.methodRef owner s)) (Ready (.methodRef owner s)) := by
  refine (addClass_builds owner).bind fun i => ?_
  refine ((addNameAndType_builds s).frame fun p q h howner => h.className i _ howner).bind fun j => ?_
  refine .pure fun p ⟨hsignature, howner⟩ => ⟨?_, ?_⟩
  · exact isMethodRef_iff.2 ⟨i, j, rfl, memberOf_ok_iff.2 ⟨howner, hsignature⟩⟩
  · exact List.forall_mem_cons.2 ⟨holds_of_className howner,
      List.forall_mem_singleton.2 (holds_of_nameAndType hsignature)⟩

theorem parts_builds (request : Request) :
    Builds request.depth (fun _ => True) request.parts request.Ready := by
  cases request with
  | text t => exact parts_text t
  | classInfo name => exact parts_classInfo name
  | string t => exact parts_string t
  | nameAndType s => exact parts_nameAndType s
  | methodRef owner s => exact parts_methodRef owner s

/-- An addition answers an index that resolves to what is asked for, or the pool is full. -/
theorem add_builds (request : Request) :
    Builds (request.depth + 1) (fun _ => True) request.add request.FoundAt :=
  add_builds_of_parts request (parts_builds request)

theorem appended_of_run (request : Request) (hsize : p.entries.size ≤ capacity)
    (hrun : request.add.run p = .ok i q) : Appended (request.depth + 1) p q := by
  have houtcome := request.add_builds hsize trivial
  rw [hrun] at houtcome
  exact houtcome.1

/-- No constant of the kind asked for leads beyond the pool. -/
def Anchored (request : Request) (pool : ConstantPool) : Prop :=
  ∀ c ∈ pool.entries.toList, request.covers c = true → pool.Anchors c

theorem Anchored.of_appended (h : request.Anchored p) (happended : Appended d p q) :
    request.Anchored q := by
  intro c hc hcovers
  obtain hc | ⟨-, hanchored⟩ := happended.fresh c hc
  · exact happended.front.anchors (h c hc hcovers)
  · exact hanchored

theorem First.of_extends (h : request.First q i) (hanchored : request.Anchored q)
    (hfront : Extends q r) : request.First r i := by
  refine ⟨h.found.of_extends hfront, fun j hj hfound => h.earlier j hj ?_⟩
  obtain ⟨c, hget, htest⟩ := foundAt_iff.1 hfound
  obtain ⟨d, hgeti, -⟩ := foundAt_iff.1 h.found
  have hlt : j.toNat < q.entries.size :=
    Nat.lt_trans (UInt16.lt_iff_toNat_lt.1 hj) (Array.getElem?_eq_some_iff.1 hgeti).1
  have hgetq := Array.getElem?_eq_getElem hlt
  obtain rfl := Option.some.inj ((hfront.getElem? hgetq).symm.trans hget)
  have hc := Array.mem_toList_iff.2 (Array.mem_of_getElem? hgetq)
  refine foundAt_iff.2 ⟨_, hgetq, ?_⟩
  rwa [← test_eq_of_extends hfront (hanchored _ hc (covers_of_test htest))]

/-- What did not pass does not come to pass, nor do parts, which are of other kinds. -/
theorem test_eq_false_of_appended (hanchored : request.Anchored p)
    (hnone : ∀ c ∈ p.entries.toList, request.test p c = false)
    (happended : Appended request.depth p q) (hfront : Extends q r)
    (hc : c ∈ q.entries.toList) : request.test r c = false := by
  cases htest : request.test r c with
  | false => rfl
  | true =>
    have hcovers := covers_of_test htest
    obtain hold | ⟨hdepth, -⟩ := happended.fresh c hc
    · have hfixed := hanchored c hold hcovers
      rw [test_eq_of_extends (happended.front.trans hfront) hfixed, hnone c hold] at htest
      cases htest
    · exact absurd (depth_of_covers hcovers) (Nat.ne_of_lt hdepth)

/-- Unless a constant of its kind led beyond the pool, what was added is the first as asked for. -/
theorem first_of_run (hsize : p.entries.size ≤ capacity) (hanchored : request.Anchored p)
    (hrun : request.add.run p = .ok i q) : request.First q i := by
  rw [run_add] at hrun
  cases hfind : p.find? (request.test p) with
  | some j =>
    rw [hfind] at hrun
    cases hrun
    exact first_of_find? hsize hfind
  | none =>
    rw [hfind] at hrun
    obtain ⟨c, p₁, hparts, hpush⟩ := run_bind_ok hrun
    have houtcome := parts_builds request hsize trivial
    rw [hparts] at houtcome
    obtain ⟨happended, hready⟩ := houtcome
    obtain ⟨-, hi, rfl⟩ := push_ok hpush
    have hfront := extends_push p₁ c
    have hget : (p₁.entries.push c)[i.toNat]? = some c := by rw [hi, Array.getElem?_push_size]
    have hpasses := test_of_extends hfront hready.passes
    -- Whatever stands earlier was there before or is a part.
    refine ⟨foundAt_iff.2 ⟨c, hget, hpasses⟩, fun j hj hfound => ?_⟩
    obtain ⟨c', hget', htest⟩ := foundAt_iff.1 hfound
    have hlt : j.toNat < p₁.entries.size := hi ▸ UInt16.lt_iff_toNat_lt.1 hj
    rw [Array.getElem?_push_lt hlt] at hget'
    have hc' : c' ∈ p₁.entries.toList := Option.some.inj hget' ▸ Array.getElem_mem_toList hlt
    have hnone := find?_eq_none_iff.1 hfind
    cases htest.symm.trans (test_eq_false_of_appended hanchored hnone happended hfront hc')

/-- Made again, in whatever pool starts with the one it left, the addition answers the same and adds
nothing. -/
theorem run_of_anchored (hsize : p.entries.size ≤ capacity) (hanchored : request.Anchored p)
    (hrun : request.add.run p = .ok i q) (hfront : Extends q r) :
    request.add.run r = .ok i r := by
  have hlater := hanchored.of_appended (request.appended_of_run hsize hrun)
  exact ((first_of_run hsize hanchored hrun).of_extends hlater hfront).run

/-- An addition answers what it was asked for, and fails only in a full pool that lacks it. Asked
again, in whatever pool starts with the one that was left, it has nothing to append, and answers the
same, or an earlier constant that led beyond the first pool. -/
theorem supplied_of_run (request : Request) (p : ConstantPool) (hsize : p.entries.size ≤ 65535) :
    match request.add.run p with
    | .ok i q => request.FoundAt q i ∧ Extends p q ∧ q.entries.size ≤ 65535 ∧
        ((∃ j, request.FoundAt p j) → q = p) ∧
        ∀ r, Extends q r → ∃ j ≤ i, request.add.run r = .ok j r ∧ request.FoundAt r j ∧
          (request.Anchored p → j = i)
    | .error fault q => fault = ⟨0, .poolFull⟩ ∧ q.entries.size = 65535 ∧ Extends p q ∧
        ∀ j, ¬ request.FoundAt p j := by
  have houtcome := add_builds request hsize trivial
  cases hrun : request.add.run p with
  | error fault q =>
    rw [hrun] at houtcome
    obtain ⟨happended, hfull, hfault⟩ := houtcome
    refine ⟨hfault, hfull, happended.front, fun j hj => ?_⟩
    obtain ⟨k, -, hidle, -⟩ := hj.run
    cases hrun.symm.trans hidle
  | ok i q =>
    rw [hrun] at houtcome
    obtain ⟨happended, hfound⟩ := houtcome
    refine ⟨hfound, happended.front, happended.size, fun ⟨j, hj⟩ => ?_, fun r hr => ?_⟩
    · obtain ⟨k, -, hidle, -⟩ := hj.run
      rw [hidle] at hrun
      cases hrun
      rfl
    · obtain ⟨j, hle, hfirst⟩ := (hfound.of_extends hr).exists_first
      refine ⟨j, hle, hfirst.run, hfirst.found, fun hanchored => ?_⟩
      cases hfirst.run.symm.trans (run_of_anchored hsize hanchored hrun hr)
      rfl

/-- A method constant, of a class that is there, is appended behind its name and type and found
again. -/
theorem supplied_of_run_methodRef :
    let request : Request := .methodRef "A" ⟨"f", "()V"⟩
    let p : ConstantPool := ⟨#[.unusable, .ofText "A", .classInfo 1]⟩
    p.entries.size ≤ 65535 ∧ ∃ q, request.add.run p = .ok 6 q ∧ request.FoundAt q 6 ∧
      ∀ r, Extends q r → request.add.run r = .ok 6 r := by
  intro request p
  have hrun : request.add.run p = .ok 6 ⟨p.entries ++ #[.ofText "f", .ofText "()V",
      .nameAndType 3 4, .methodRef 2 5]⟩ := by with_unfolding_all rfl
  have hsize : p.entries.size ≤ 65535 := by decide
  have hsupplied := supplied_of_run request p hsize
  rw [hrun] at hsupplied
  obtain ⟨hfound, -, -, -, hagain⟩ := hsupplied
  refine ⟨hsize, _, hrun, hfound, fun r hr => ?_⟩
  obtain ⟨j, -, hj, -, hsame⟩ := hagain r hr
  have hanchored : request.Anchored p := by
    intro c hc hcovers
    obtain rfl | rfl | rfl : c = .unusable ∨ c = .ofText "A" ∨ c = .classInfo 1 := by
      simpa [p] using hc
    all_goals cases hcovers
  rwa [hsame hanchored] at hj

/-- A class constant whose name is the next entry to be added comes to be found in place of the one
that was added. -/
theorem moves_if_dangling :
    let request : Request := .classInfo "A"
    let p : ConstantPool := ⟨#[.unusable, .classInfo 2]⟩
    let q : ConstantPool := ⟨#[.unusable, .classInfo 2, .ofText "A", .classInfo 2]⟩
    p.entries.size ≤ 65535 ∧ request.add.run p = .ok 3 q ∧ request.add.run q = .ok 1 q := by
  refine ⟨by decide, ?_, ?_⟩ <;> with_unfolding_all rfl

end Request

end ConstantPool

end JarPruning
