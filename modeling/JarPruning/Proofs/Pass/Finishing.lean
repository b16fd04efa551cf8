import JarPruning.Proofs.Pass.Finished

/-!
Passes finish members. What a pass leaves of a member asks for nothing more, and with every stub in
place it stays so however the pool grows.
-/
namespace JarPruning

open ConstantPool (Grows)

section

variable {p q : ConstantPool}

theorem handles_persist (h : Grows p q) (is : List UInt16) :
    Persists (Walk.handles p is) (Walk.handles q is) := by
  induction is with
  | nil => exact .refl _
  | cons i is ih => exact (h.methodHandle? i).bind fun _ _ => ih.bind fun _ _ => .refl _

theorem Site.read_persists (h : Grows p q) (bootstraps : List Bootstrap) (i : Instruction) :
    Persists (Site.read p bootstraps i) (Site.read q bootstraps i) := by
  have hmember : Persists (i.operand16 >>= p.memberRef) (i.operand16 >>= q.memberRef) :=
    (Persists.refl _).bind fun index _ => h.memberRef index
  have hcall : Persists (Walk.callSite p bootstraps i) (Walk.callSite q bootstraps i) := by
    refine (Persists.refl _).bind fun index _ => (h.invokeDynamic index).bind fun site _ => ?_
    obtain ⟨slot, nt⟩ := site
    dsimp only
    split
    · exact .refl _
    · exact handles_persist h _
  unfold Site.read
  split
  · exact hmember.bind fun _ _ => .refl _
  split
  · exact hmember.bind fun _ _ => .refl _
  split
  · exact hcall.bind fun _ _ => .refl _
  · exact .refl _

/-- A body refers to the same in a pool that has grown. -/
theorem sites_persist (h : Grows p q) (bootstraps : List Bootstrap) (payload : List UInt8) :
    Persists (sites p bootstraps payload) (sites q bootstraps payload) :=
  (Persists.refl _).bind fun _ _ => (Persists.refl _).bind fun _ _ => Persists.mapM fun i _ =>
    (Site.read_persists h bootstraps i).bind fun _ _ => .refl _

end

/-- The names of a member's attributes lead to entries of the pool. -/
def MemberEntry.Grounded (pool : ConstantPool) (entry : MemberEntry) : Prop :=
  ∀ a ∈ entry.attributes, pool.Reaches a.name

instance (pool : ConstantPool) (entry : MemberEntry) : Decidable (entry.Grounded pool) :=
  inferInstanceAs (Decidable (∀ a ∈ entry.attributes, pool.Reaches a.name))

namespace Marked

variable {p q : ConstantPool} {drop ask : String → Bool} {as : List Attribute} {ms ms' : List Marked}

theorem mem_stripAll {a : Attribute} (h : a ∈ (stripAll drop ms).1) :
    ∃ m ∈ ms, a.name = m.source.name := by
  obtain ⟨m, hm, ha⟩ := List.mem_flatMap.1 h
  exact ⟨m, hm, strip_name (Option.mem_toList.1 ha)⟩

/-- What is left after stripping is calm. -/
theorem Calm.of_kept {deletes : String → Bool} (hread : marks q as = .ok ms')
    (hall : all ms' = kept drop (all ms)) (hwanted : anyOf deletes ms = false) :
    Calm deletes drop q as ms' where
  read := hread
  wanted := by
    rw [anyOf, List.any_eq_false] at hwanted ⊢
    rw [hall]
    exact fun e he => hwanted e (List.mem_of_mem_filter he)
  whole e he := by
    rw [hall] at he
    simpa using (List.mem_filter.1 he).2

/-- What is not stripped is asked as before. -/
theorem anyOf_kept (h : ∀ d, ask d = true → drop d = false)
    (hall : all ms' = kept drop (all ms)) : anyOf ask ms' = anyOf ask ms := by
  rw [Bool.eq_iff_iff, anyOf, anyOf, List.any_eq_true, List.any_eq_true, hall]
  constructor
  · rintro ⟨e, he, hask⟩
    exact ⟨e, List.mem_of_mem_filter he, hask⟩
  · rintro ⟨e, he, hask⟩
    exact ⟨e, List.mem_filter.2 ⟨he, by rw [h _ hask]; rfl⟩, hask⟩

end Marked

theorem Policy.strips_of_stubs {policy : Policy} {d : String} (h : policy.stubs d = true) :
    policy.strips d = false := by
  simp only [stubs, strips, decide_eq_true_eq, decide_eq_false_iff_not] at h ⊢
  rw [h]
  simp

namespace Prune

open Walk (KeptMethod Patch)

variable {policy : Policy} {self : String} {pool p q r : ConstantPool}
  {bootstraps : List Bootstrap} {entry : MemberEntry} {ms : List Marked}

theorem grounded_left (h : entry.Grounded pool) (hread : marks pool entry.attributes = .ok ms) :
    (left policy entry ms).Grounded pool := by
  intro a ha
  obtain ⟨m, hm, hname⟩ := Marked.mem_stripAll ha
  rw [hname]
  refine h m.source ?_
  rw [(marks_ok_iff.1 hread).1]
  exact List.mem_map_of_mem hm

/-- Attributes under the names that they had, one by one. -/
theorem names_edited (code : Option Nat) (edit : List UInt8 → List UInt8) (entry : MemberEntry) :
    (edited code edit entry).attributes.map Attribute.name = entry.attributes.map Attribute.name := by
  cases code with
  | none => rfl
  | some position =>
    refine List.ext_getElem? fun i => ?_
    simp only [edited, Walk.editPayload, List.getElem?_map, List.getElem?_modify]
    cases entry.attributes[i]? with
    | none => rfl
    | some a => by_cases h : position = i <;> simp [h]

theorem grounded_edited (h : entry.Grounded pool) (code : Option Nat)
    (edit : List UInt8 → List UInt8) : (edited code edit entry).Grounded pool := by
  intro a ha
  have hname := List.mem_map_of_mem (f := Attribute.name) ha
  rw [names_edited] at hname
  obtain ⟨b, hb, hname⟩ := List.mem_map.1 hname
  exact hname ▸ h b hb

theorem findIdx?_congr {α : Type} {l : List α} {f g : α → Bool} (h : ∀ a ∈ l, f a = g a) :
    l.findIdx? f = l.findIdx? g := by
  induction l with
  | nil => rfl
  | cons a l ih =>
    rw [List.findIdx?_cons, List.findIdx?_cons, h a (List.mem_cons_self ..),
      ih fun b hb => h b (List.mem_cons_of_mem _ hb)]

/-- Which attribute is the body is told by the names. -/
theorem codeOf_names {e : MemberEntry} (hgrows : Grows pool r) (h : e.Grounded pool)
    (hnames : entry.attributes.map Attribute.name = e.attributes.map Attribute.name) :
    codeOf r entry = codeOf pool e := by
  have hcode (pool : ConstantPool) (e : MemberEntry) : codeOf pool e =
      (e.attributes.map Attribute.name).findIdx? fun i => pool.hasText i "Code" := by
    rw [List.findIdx?_map]
    rfl
  rw [hcode, hcode, hnames]
  refine findIdx?_congr fun i hi => ?_
  obtain ⟨a, ha, rfl⟩ := List.mem_map.1 hi
  exact hgrows.hasText_eq (h a ha) _

variable (policy) in
/-- Stripped and with its body edited, a member is annotated with what was not stripped. -/
theorem marks_edited (hread : marks pool entry.attributes = .ok ms) (h : entry.Grounded pool)
    (hgrows : Grows pool r) (edit : List UInt8 → List UInt8) :
    ∃ ms', marks r (edited (codeOf pool (left policy entry ms)) edit
        (left policy entry ms)).attributes = .ok ms' ∧
      Marked.all ms' = Marked.kept policy.strips (Marked.all ms) := by
  have hnames : (left policy entry ms).Grounded pool := grounded_left h hread
  have hleft := Marked.marks_stripAll hread hgrows hnames
  have hall : Marked.all (ms.filterMap (Marked.rest policy.strips)) =
      Marked.kept policy.strips (Marked.all ms) := Marked.all_rest (marks_ok_iff.1 hread).2
  cases hcode : codeOf pool (left policy entry ms) with
  | none => exact ⟨_, hleft, hall⟩
  | some position =>
    obtain ⟨a, ha, hnamed⟩ := codeOf_some hcode
    have hplain : ∀ b, (left policy entry ms).attributes[position]? = some b →
        b.isAnnotations r = false := by
      intro b hb
      obtain rfl : a = b := Option.some.inj (ha.symm.trans hb)
      exact Attribute.not_isAnnotations_of_isNamed (hgrows.hasText hnamed) (by decide) (by decide)
    obtain ⟨ms', hms', hsame⟩ := Marked.marks_modify
      (show ∀ a : Attribute, { a with payload := edit a.payload }.name = a.name from fun _ => rfl)
      hplain hleft
    exact ⟨ms', hms', hsame.trans hall⟩

theorem getElem?_edited {position : Nat} {a : Attribute} (edit : List UInt8 → List UInt8)
    (ha : entry.attributes[position]? = some a) :
    (edited (some position) edit entry).attributes[position]? =
      some { a with payload := edit a.payload } := by
  simp [edited, Walk.editPayload, ha]

/-! Methods. -/

section

variable {l : Ledger} {m : Member} {ft : Fate} {asked : List Signature}

/-- A method that stays is finished if its body is, in every pool from then on. -/
theorem MethodStep.edited_finished (h : MethodStep policy self pool bootstraps l entry m ms ft)
    (hstays : ft ≠ .delete) (hentry : entry.Grounded pool) (hgrows : Grows pool q)
    {edit : List UInt8 → List UInt8} {e : MemberEntry}
    (he : e = edited (codeOf pool (left policy entry ms)) edit (left policy entry ms))
    (hbody : ∀ r ms', Grows q r → codeOf r e = codeOf pool (left policy entry ms) →
      asksForStub policy m ms' = asksForStub policy m ms →
        BodyFinished policy r bootstraps asked e m ms') :
    ∀ r, Grows q r → ∃ ms', MethodFinished policy r bootstraps asked e m ms' ∧
      asksForStub policy m ms' = asksForStub policy m ms := by
  intro r hr
  subst he
  have hgrows' := hgrows.trans hr
  obtain ⟨ms', hms', hall⟩ := marks_edited policy h.read hentry hgrows' edit
  obtain ⟨haccess, hname, hdescriptor⟩ := edited_header (codeOf pool (left policy entry ms)) edit
    (left policy entry ms)
  have hasks : asksForStub policy m ms' = asksForStub policy m ms := by
    unfold asksForStub
    rw [Marked.anyOf_kept (fun d hd => Policy.strips_of_stubs hd) hall]
  have hcode := codeOf_names hgrows' (grounded_left hentry h.read)
    (names_edited (codeOf pool (left policy entry ms)) edit (left policy entry ms))
  exact ⟨ms', ⟨resolve_grow hgrows' haccess hname hdescriptor h.resolved,
    .of_kept hms' hall (h.fated.stays hstays).wanted, hbody r ms' hr hcode hasks⟩, hasks⟩

/-- Methods that a pass finishes: either it remembers no stubs but those that these signatures asked
for, or the methods are finished already, but for those whose signatures are gone. -/
inductive Prepared (policy : Policy) (owner : String) (pool : ConstantPool)
    (bootstraps : List Bootstrap) (l : Ledger) (asked : List Signature)
    (entries : List MemberEntry) : Prop
  | fresh (told : ∀ key, l.memory.stubbed.contains key = true → key ∈ asked)
  | finished {before : List Signature}
    (methods : MethodsFinished policy pool bootstraps before entries)
    (accounted : ∀ key ∈ before, key ∈ asked ∨ l.tracker.containsMethod owner key = true)

/-- A method of which the pass remembers a stub. -/
theorem Prepared.already {entries : List MemberEntry}
    (h : Prepared policy self pool bootstraps l asked (entry :: entries))
    (hm : entry.resolve pool = .ok m) (hms : marks pool entry.attributes = .ok ms)
    (hstays : Stays policy self l m ms) (hstubbed : l.memory.stubbed.contains m.toSignature = true) :
    m.toSignature ∈ asked ∨ MethodFinished policy pool bootstraps asked entry m ms := by
  cases h with
  | fresh htold => exact .inl (htold _ hstubbed)
  | finished hmethods haccounted =>
    obtain _ | @⟨_, _, _, m', ms', hfirst, -⟩ := hmethods
    cases hm.symm.trans hfirst.resolved
    cases hms.symm.trans hfirst.calm.read
    cases hfirst.body with
    | shadowed hbefore =>
      refine .inl ((haccounted _ hbefore).resolve_right fun hgone => ?_)
      have hhere := (Bool.or_eq_false_iff.1 hstays.here).1
      rw [hgone] at hhere
      cases hhere
    | stubbed hasks hagain =>
      exact .inr ⟨hm, hfirst.calm, .stubbed hasks hagain⟩
    | walked hwhole hscanned => exact .inr ⟨hm, hfirst.calm, .walked hwhole hscanned⟩

/-- A finished body stays finished in a pool that grows. -/
theorem BodyFinished.grow {ms' : List Marked}
    (h : BodyFinished policy pool bootstraps asked entry m ms) (hpool : pool.Fits)
    (hgrounded : pool.Grounded) (hgrows : Grows pool r) (hcode : codeOf r entry = codeOf pool entry)
    (hasks : asksForStub policy m ms' = asksForStub policy m ms) :
    BodyFinished policy r bootstraps asked entry m ms' := by
  cases h with
  | shadowed hbefore => exact .shadowed hbefore
  | stubbed hstub hagain =>
    refine .stubbed (hasks.trans hstub) fun position hposition => ?_
    obtain ⟨a, ha, hpayload⟩ := hagain position (hcode.symm.trans hposition)
    exact ⟨a, ha, (Stub.payload_lasts _ _ hpool hgrounded hpayload).again r hgrows⟩
  | walked hwhole hscanned =>
    refine .walked (hasks.trans hwhole) fun position hposition => ?_
    obtain ⟨a, ss, ha, hss⟩ := hscanned position (hcode.symm.trans hposition)
    exact ⟨a, ss, ha, sites_persist hgrows _ _ _ hss⟩

/-- A body that was walked can be walked again, patched or not, and refers to nothing new. -/
theorem sites_again {payload : List UInt8} {ss : List (Instruction × Site)} {constructs : Bool}
    {patches : List Patch} (hss : sites pool bootstraps payload = .ok ss)
    (hmeets : bodyFate l self constructs ss = .keep patches) :
    ∃ ss', sites pool bootstraps (Walk.applyPatches payload patches) = .ok ss' ∧
      ∀ s ∈ ss', s ∈ ss ∨ s.2 = .plain := by
  unfold bodyFate at hmeets
  split at hmeets
  · cases hmeets
  · rw [← Fate.keep.inj hmeets]
    split
    · obtain ⟨ss', hss', hall⟩ := sites_patched hss l self
      exact ⟨ss', hss', fun s hs => (hall s hs).imp And.left And.right⟩
    · exact ⟨ss, hss, fun _ hs => .inl hs⟩

/-- The body of a method that is not to be stubbed is finished. -/
theorem MethodStep.kept_body {entries : List MemberEntry} {patches : List Patch} {e : MemberEntry}
    {ms' : List Marked}
    (h : MethodStep policy self pool bootstraps l entry m ms (.keep patches))
    (hprepared : Prepared policy self pool bootstraps l asked (entry :: entries))
    (hpool : pool.Fits) (hgrounded : pool.Grounded) (hgrows : Grows pool r)
    (he : e = edited (codeOf pool (left policy entry ms)) (Walk.applyPatches · patches)
      (left policy entry ms))
    (hcode : codeOf r e = codeOf pool (left policy entry ms))
    (hasks : asksForStub policy m ms' = asksForStub policy m ms) :
    BodyFinished policy r bootstraps asked e m ms' := by
  cases h.fated with
  | already hstays hstubbed =>
    obtain hasked | hfinished := hprepared.already h.resolved h.read hstays hstubbed
    · exact .shadowed hasked
    · have hsame : e = entry := by
        rw [he, hfinished.left_eq]
        exact edited_id _ entry
      subst hsame
      rw [hfinished.left_eq] at hcode
      exact hfinished.body.grow hpool hgrounded hgrows hcode hasks
  | bare _ _ hwhole hempty =>
    refine .walked (hasks.trans hwhole) fun position hposition => ?_
    rw [hcode] at hposition
    obtain ⟨a, ha, -⟩ := codeOf_some hposition
    rw [hposition, Option.bind_some, ha] at hempty
    cases hempty
  | walked _ _ hwhole hbody hscanned hmeets =>
    refine .walked (hasks.trans hwhole) fun position hposition => ?_
    rw [hcode] at hposition
    rw [hposition, Option.bind_some] at hbody
    obtain ⟨ss', hss', -⟩ := sites_again hscanned hmeets
    rw [he, hposition]
    exact ⟨_, ss', getElem?_edited _ hbody, sites_persist hgrows _ _ _ hss'⟩

/-- A method that is kept is finished once its stub is installed. -/
theorem MethodStep.finishes {entries : List MemberEntry} {k : KeptMethod} {e : MemberEntry}
    (h : MethodStep policy self pool bootstraps l entry m ms ft)
    (hprepared : Prepared policy self pool bootstraps l asked (entry :: entries))
    (hentry : entry.Grounded pool) (hpool : pool.Fits) (hgrounded : pool.Grounded)
    (hgrows : Grows pool p) (hp : p.Grounded)
    (hk : (afterFate policy self pool l entry m ms ft).2.1 = some k)
    (he : (Walk.installStub k).run p = .ok e q) :
    Grows p q ∧ q.Grounded ∧ e.Grounded pool ∧ ∀ r, Grows q r →
      ∃ ms', MethodFinished policy r bootstraps asked e m ms' ∧
        asksForStub policy m ms' = asksForStub policy m ms := by
  have hleft : (left policy entry ms).Grounded pool := grounded_left hentry h.read
  cases ft with
  | delete => cases hk
  | stub =>
    have hasks := h.fated.asks
    cases hk
    obtain ⟨hcode, rfl, rfl⟩ | ⟨position, descriptor, payload, hcode, hdescriptor, hpayload, rfl⟩ :=
      installStub_ok he
    · change codeOf pool (left policy entry ms) = none at hcode
      refine ⟨.refl _, hp, hleft, h.edited_finished (by simp) hentry hgrows
        (edited_id _ _).symm fun r ms' _ hsame hasks' => ?_⟩
      refine .stubbed (hasks'.trans hasks) fun position hposition => ?_
      rw [hsame, hcode] at hposition
      cases hposition
    · change codeOf pool (left policy entry ms) = some position at hcode
      have hlasting := Stub.payload_lasts _ _ (hgrows.fits hpool) hp hpayload
      obtain rfl : descriptor = m.descriptor := Except.ok.inj <|
        hdescriptor.symm.trans (hgrows.utf8 _ _ (MemberEntry.of_resolve h.resolved).2.1)
      obtain ⟨a, ha, -⟩ := codeOf_some hcode
      refine ⟨hlasting.grows, hlasting.grounded,
        grounded_edited hleft (some position) fun _ => payload, ?_⟩
      have he : Walk.editPayload position (fun _ => payload) (left policy entry ms) =
          edited (codeOf pool (left policy entry ms)) (fun _ => payload) (left policy entry ms) := by
        rw [hcode]
        rfl
      refine h.edited_finished (by simp) hentry (hgrows.trans hlasting.grows) he
        fun r ms' hr hsame hasks' => .stubbed (hasks'.trans hasks) fun position' hposition => ?_
      rw [hsame, hcode] at hposition
      cases hposition
      exact ⟨_, getElem?_edited (fun _ => payload) ha, hlasting.again r hr⟩
  | keep patches =>
    cases hk
    obtain ⟨-, rfl, rfl⟩ | ⟨_, _, _, hcode, -⟩ := installStub_ok he
    · dsimp only
      rw [patched_eq]
      exact ⟨.refl _, hp, grounded_edited hleft _ _,
        h.edited_finished (by simp) hentry hgrows rfl fun r ms' hr hsame hasks' =>
          h.kept_body hprepared hpool hgrounded (hgrows.trans hr) rfl hsame hasks'⟩
    · cases hcode

theorem mem_askedAfter {key : Signature} (h : key ∈ asked) : key ∈ askedAfter policy m ms asked := by
  unfold askedAfter
  split
  · exact List.mem_cons_of_mem _ h
  · exact h

theorem Prepared.next {entries : List MemberEntry}
    (h : Prepared policy self pool bootstraps l asked (entry :: entries))
    (hm : MethodStep policy self pool bootstraps l entry m ms ft) (hstays : ft ≠ .delete) :
    Prepared policy self pool bootstraps (afterFate policy self pool l entry m ms ft).1
      (askedAfter policy m ms asked) entries := by
  have htracker : (afterFate policy self pool l entry m ms ft).1.tracker = l.tracker := by
    cases ft with
    | delete => exact absurd rfl hstays
    | stub => rfl
    | keep _ => rfl
  cases h with
  | fresh htold =>
    refine .fresh fun key hkey => ?_
    cases ft with
    | delete => exact absurd rfl hstays
    | keep _ => exact mem_askedAfter (htold key hkey)
    | stub =>
      have hinsert : (l.stubMethod m).memory.stubbed.contains key =
          (l.memory.stubbed.contains key || decide (m.toSignature = key)) :=
        GraceSet.contains_insert l.memory.stubbed m key
      change (l.stubMethod m).memory.stubbed.contains key = true at hkey
      rw [hinsert, Bool.or_eq_true, decide_eq_true_eq] at hkey
      obtain hkey | rfl := hkey
      · exact mem_askedAfter (htold key hkey)
      · rw [askedAfter, if_pos hm.fated.asks]
        exact List.mem_cons_self ..
  | finished hmethods haccounted =>
    obtain _ | @⟨_, _, _, m', ms', hfirst, hrest⟩ := hmethods
    cases hm.resolved.symm.trans hfirst.resolved
    cases hm.read.symm.trans hfirst.calm.read
    refine .finished hrest fun key hkey => ?_
    rw [htracker]
    unfold askedAfter at hkey ⊢
    split at hkey
    · next hasks =>
      rw [if_pos hasks]
      obtain rfl | hkey := List.mem_cons.1 hkey
      · exact .inl (List.mem_cons_self ..)
      · exact (haccounted key hkey).imp_left (List.mem_cons_of_mem _)
    · next hasks =>
      rw [if_neg hasks]
      exact haccounted key hkey

theorem Prepared.drop {entries : List MemberEntry}
    (h : Prepared policy self pool bootstraps l asked (entry :: entries))
    (hm : entry.resolve pool = .ok m) :
    Prepared policy self pool bootstraps (l.dropMethod self m) asked entries := by
  cases h with
  | fresh htold => exact .fresh htold
  | finished hmethods haccounted =>
    obtain _ | @⟨_, _, _, m', ms', hfirst, hrest⟩ := hmethods
    cases hm.symm.trans hfirst.resolved
    refine .finished hrest fun key hkey => ?_
    have hgone : (l.dropMethod self m).tracker.containsMethod self key =
        (l.tracker.containsMethod self key || (self == self && key == m.toSignature)) :=
      Tracker.containsMethod_addMethod ..
    rw [hgone]
    unfold askedAfter at hkey
    split at hkey
    · obtain rfl | hkey := List.mem_cons.1 hkey
      · exact .inr (by simp)
      · exact (haccounted key hkey).imp_right fun hgone => by rw [hgone, Bool.true_or]
    · exact (haccounted key hkey).imp_right fun hgone => by rw [hgone, Bool.true_or]

/-- The methods that a pass keeps are finished once all stubs are installed. -/
theorem methods_finish {entries es : List MemberEntry} {l' : Ledger} {ks : List KeptMethod}
    {changed : Bool} (h : methods policy self pool bootstraps l entries = .ok (l', ks, changed))
    (hinstalled : (Walk.installStubs ks).run p = .ok es q)
    (hprepared : Prepared policy self pool bootstraps l asked entries)
    (hentries : ∀ e ∈ entries, e.Grounded pool) (hpool : pool.Fits) (hgrounded : pool.Grounded)
    (hgrows : Grows pool p) (hp : p.Grounded) :
    Grows p q ∧ q.Grounded ∧ (∀ e ∈ es, e.Grounded pool) ∧
      ∀ r, Grows q r → MethodsFinished policy r bootstraps asked es := by
  induction entries generalizing l ks changed es p asked with
  | nil =>
    cases h
    cases hinstalled
    exact ⟨.refl _, hp, by simp, fun r _ => .nil asked⟩
  | cons entry entries ih =>
    obtain ⟨r, ks', c, hstep, hrest, rfl, -⟩ := methods_cons_ok h
    obtain ⟨m, ms, ft, hm, rfl⟩ := method_ok hstep
    have hlater : ∀ e ∈ entries, e.Grounded pool := fun e he => hentries e (List.mem_cons_of_mem _ he)
    cases hk : (afterFate policy self pool l entry m ms ft).2.1 with
    | none =>
      rw [hk] at hinstalled
      obtain rfl : ft = .delete := by
        cases ft with
        | delete => rfl
        | stub => cases hk
        | keep _ => cases hk
      exact ih hrest hinstalled (hprepared.drop hm.resolved) hlater hgrows hp
    | some k =>
      rw [hk] at hinstalled
      have hstays : ft ≠ .delete := by
        rintro rfl
        cases hk
      obtain ⟨e, es', p', he, hes, rfl⟩ := installStubs_cons_ok hinstalled
      obtain ⟨hgrows₁, hp₁, he₁, hfirst⟩ := hm.finishes hprepared
        (hentries entry (List.mem_cons_self ..)) hpool hgrounded hgrows hp hk he
      obtain ⟨hgrows₂, hq, hes₂, hfinished⟩ :=
        ih hrest hes (hprepared.next hm hstays) hlater (hgrows.trans hgrows₁) hp₁
      refine ⟨hgrows₁.trans hgrows₂, hq, List.forall_mem_cons.2 ⟨he₁, hes₂⟩, fun r hr => ?_⟩
      obtain ⟨ms', hmethod, hasks⟩ := hfirst r (hgrows₂.trans hr)
      refine .cons hmethod ?_
      unfold askedAfter at hfinished ⊢
      rw [hasks]
      exact hfinished r hr

end

/-! Fields. -/

/-- The fields that a pass keeps are finished. -/
theorem fields_finish {l l' : Ledger} {fs fs' : List MemberEntry} {changed : Bool}
    (h : fields policy self pool l fs = .ok (l', fs', changed)) (hfs : ∀ f ∈ fs, f.Grounded pool) :
    (∀ f ∈ fs', f.Grounded pool) ∧
      ∀ r, Grows pool r → ∀ f ∈ fs', ∃ m ms, FieldFinished policy r f m ms := by
  induction fs generalizing l fs' changed with
  | nil =>
    cases h
    exact ⟨by simp, by simp⟩
  | cons f fs ih =>
    obtain ⟨r, fs₁, c, hstep, hrest, rfl, -⟩ := fields_cons_ok h
    obtain ⟨hlater, hfinished⟩ := ih hrest fun f hf => hfs f (List.mem_cons_of_mem _ hf)
    cases hstep with
    | drop _ _ _ => exact ⟨hlater, hfinished⟩
    | @keep m ms hresolved hread _ hwanted =>
      have hf := hfs f (List.mem_cons_self ..)
      have hleft : (left policy f ms).Grounded pool := grounded_left hf hread
      refine ⟨List.forall_mem_cons.2 ⟨hleft, hlater⟩, fun r hr => ?_⟩
      refine List.forall_mem_cons.2 ⟨?_, hfinished r hr⟩
      exact ⟨m, _, resolve_grow hr rfl rfl rfl hresolved,
        .of_kept (Marked.marks_stripAll hread hr hleft) (Marked.all_rest (marks_ok_iff.1 hread).2)
          hwanted⟩

end Prune

end JarPruning
