import JarPruning.Proofs.Bytecode.Patching
import JarPruning.Proofs.Bytecode.Stub
import JarPruning.Proofs.Member.GraceSet
import JarPruning.Proofs.Pass.Steps

/-!
Passes that leave a class as it was. Members that come out of a pass unaltered were neither dropped
nor stripped, and their bodies call for no change, so the ledger says nothing against them.
-/
namespace JarPruning.Prune

open Walk (KeptMethod Patch Outcome)

variable {policy : Policy} {self : String} {pool : ConstantPool} {bootstraps : List Bootstrap}

/-! Fields. -/

/-- A field that a pass has nothing to do with. -/
structure FieldRests (policy : Policy) (owner : String) (pool : ConstantPool) (l : Ledger)
    (f : MemberEntry) (m : Member) (ms : List Marked) : Prop where
  resolved : f.resolve pool = .ok m
  read : marks pool f.attributes = .ok ms
  here : l.fieldGone owner owner m.name = false
  wanted : Marked.anyOf policy.deletes ms = false
  whole : ∀ e ∈ Marked.all ms, policy.strips e.2 = false

theorem length_fields_le {l l' : Ledger} {fs fs' : List MemberEntry} {changed : Bool}
    (h : fields policy self pool l fs = .ok (l', fs', changed)) : fs'.length ≤ fs.length := by
  induction fs generalizing l fs' changed with
  | nil =>
    cases h
    exact Nat.le_refl _
  | cons f fs ih =>
    obtain ⟨r, fs₁, c, -, hfs, rfl, -⟩ := fields_cons_ok h
    have hle := ih hfs
    have hone : r.2.1.toList.length ≤ 1 := by cases r.2.1 <;> simp
    rw [List.length_append, List.length_cons]
    omega

theorem fields_rest {l l' : Ledger} {fs : List MemberEntry} {changed : Bool}
    (h : fields policy self pool l fs = .ok (l', fs, changed)) :
    l' = l ∧ ∀ f ∈ fs, ∃ m ms, FieldRests policy self pool l f m ms := by
  induction fs generalizing changed with
  | nil =>
    cases h
    exact ⟨rfl, by simp⟩
  | cons f fs ih =>
    obtain ⟨r, fs₁, c, hstep, hfs, heq, -⟩ := fields_cons_ok h
    have hle := length_fields_le hfs
    cases hstep with
    | drop _ _ _ =>
      rw [Option.toList_none, List.nil_append] at heq
      rw [← heq, List.length_cons] at hle
      omega
    | @keep m ms hresolved hread hhere hwanted =>
      obtain ⟨hf, rfl⟩ := List.cons.inj heq
      obtain ⟨rfl, hall⟩ := ih hfs
      obtain ⟨hattributes, hreads⟩ := marks_ok_iff.1 hread
      have hsame : (Marked.stripAll policy.strips ms).1 = ms.map Marked.source := by
        rw [← hattributes]
        exact congrArg MemberEntry.attributes hf.symm
      refine ⟨rfl, fun f' hf' => ?_⟩
      obtain rfl | hf' := List.mem_cons.1 hf'
      · exact ⟨m, ms, hresolved, hread, hhere, hwanted,
          Marked.whole_of_stripAll hreads hsame⟩
      · exact hall f' hf'

theorem fields_eq_of_unchanged {l l' : Ledger} {fs fs' : List MemberEntry}
    (h : fields policy self pool l fs = .ok (l', fs', false)) : fs' = fs := by
  induction fs generalizing l fs' with
  | nil =>
    cases h
    rfl
  | cons f fs ih =>
    obtain ⟨r, fs₁, c, hstep, hfs, rfl, hflag⟩ := fields_cons_ok h
    obtain ⟨hr, rfl⟩ := Bool.or_eq_false_iff.1 hflag.symm
    rw [ih hfs]
    cases hstep with
    | drop _ _ _ => cases hr
    | @keep m ms _ hread _ _ =>
      rw [Marked.stripAll_eq_of_unchanged hr, ← (marks_ok_iff.1 hread).1]
      rfl

/-! Methods. -/

/-- A method that a pass has nothing to do with. -/
structure MethodRests (policy : Policy) (owner : String) (pool : ConstantPool)
    (bootstraps : List Bootstrap) (l : Ledger) (entry : MemberEntry) (m : Member)
    (ms : List Marked) : Prop where
  resolved : entry.resolve pool = .ok m
  read : marks pool entry.attributes = .ok ms
  stays : Stays policy owner l m ms
  whole : ∀ e ∈ Marked.all ms, policy.strips e.2 = false
  body : l.memory.stubbed.contains m.toSignature = true ∨ asksForStub policy m ms = true ∨
    ∀ position, codeOf pool entry = some position → ∃ a ss, entry.attributes[position]? = some a ∧
      sites pool bootstraps a.payload = .ok ss ∧ bodyFate l owner m.isConstructor ss = .keep []

theorem installStubs_cons_ok {k : KeptMethod} {ks : List KeptMethod} {es : List MemberEntry}
    {p q : ConstantPool} (h : (Walk.installStubs (k :: ks)).run p = .ok es q) :
    ∃ e es' p', (Walk.installStub k).run p = .ok e p' ∧
      (Walk.installStubs ks).run p' = .ok es' q ∧ es = e :: es' := by
  rw [Walk.installStubs] at h
  obtain ⟨e, p', he, h⟩ := run_bind_ok h
  obtain ⟨es', p'', hes, h⟩ := run_bind_ok h
  cases h
  exact ⟨e, es', p', he, hes, rfl⟩

/-- An installed method is the kept one, but for the body if that was to be a stub. -/
theorem installStub_ok {k : KeptMethod} {e : MemberEntry} {p q : ConstantPool}
    (h : (Walk.installStub k).run p = .ok e q) :
    k.stubAt = none ∧ e = k.entry ∧ q = p ∨
      ∃ position descriptor payload, k.stubAt = some position ∧
        p.utf8 k.entry.descriptor = .ok descriptor ∧
        (Stub.payload descriptor (Access.isStatic k.entry.access)).run p = .ok payload q ∧
        e = Walk.editPayload position (fun _ => payload) k.entry := by
  unfold Walk.installStub at h
  cases hk : k.stubAt with
  | none =>
    rw [hk] at h
    cases h
    exact .inl ⟨rfl, rfl, rfl⟩
  | some position =>
    rw [hk] at h
    obtain ⟨p', _, hp, h⟩ := run_bind_ok h
    cases hp
    cases hd : p.utf8 k.entry.descriptor with
    | error fault =>
      simp only [hd] at h
      cases h
    | ok descriptor =>
      simp only [hd] at h
      obtain ⟨payload, q', hpayload, h⟩ := run_bind_ok h
      cases h
      exact .inr ⟨position, descriptor, payload, rfl, rfl, hpayload, rfl⟩

/-- A stub that can be written is installed. -/
theorem installStub_at {k : KeptMethod} {position : Nat} {descriptor : String}
    {payload : List UInt8} {p q : ConstantPool} (hk : k.stubAt = some position)
    (hdescriptor : p.utf8 k.entry.descriptor = .ok descriptor)
    (hpayload : (Stub.payload descriptor (Access.isStatic k.entry.access)).run p = .ok payload q) :
    (Walk.installStub k).run p =
      .ok (Walk.editPayload position (fun _ => payload) k.entry) q := by
  have hget : (get : EStateM Stub.Fault ConstantPool ConstantPool).run p = .ok p p := rfl
  unfold Walk.installStub
  rw [hk]
  dsimp only
  rw [EStateM.run_bind, hget]
  simp only [hdescriptor]
  rw [EStateM.run_bind, hpayload]
  rfl

theorem installStubs_cons {k : KeptMethod} {ks : List KeptMethod} {e : MemberEntry}
    {es : List MemberEntry} {p p' q : ConstantPool} (h : (Walk.installStub k).run p = .ok e p')
    (hs : (Walk.installStubs ks).run p' = .ok es q) :
    (Walk.installStubs (k :: ks)).run p = .ok (e :: es) q := by
  rw [Walk.installStubs]
  simp only [EStateM.run] at h hs ⊢
  simp only [bind, EStateM.bind, h, hs, pure, EStateM.pure]

theorem length_installStubs {ks : List KeptMethod} {es : List MemberEntry}
    {p q : ConstantPool} (h : (Walk.installStubs ks).run p = .ok es q) :
    es.length = ks.length := by
  induction ks generalizing es p with
  | nil =>
    cases h
    rfl
  | cons k ks ih =>
    obtain ⟨e, es', p', -, hes, rfl⟩ := installStubs_cons_ok h
    rw [List.length_cons, List.length_cons, ih hes]

theorem length_methods_le {l l' : Ledger} {ms : List MemberEntry} {ks : List KeptMethod}
    {changed : Bool} (h : methods policy self pool bootstraps l ms = .ok (l', ks, changed)) :
    ks.length ≤ ms.length := by
  induction ms generalizing l ks changed with
  | nil =>
    cases h
    exact Nat.le_refl _
  | cons m ms ih =>
    obtain ⟨r, ks', c, -, hms, rfl, -⟩ := methods_cons_ok h
    have hle := ih hms
    have hone : r.2.1.toList.length ≤ 1 := by cases r.2.1 <;> simp
    rw [List.length_append, List.length_cons]
    omega

/-- The entry with the payload of its body edited, if it has one. -/
def edited (code : Option Nat) (edit : List UInt8 → List UInt8) (entry : MemberEntry) :
    MemberEntry :=
  match code with
  | some position => Walk.editPayload position edit entry
  | none => entry

theorem edited_id (code : Option Nat) (entry : MemberEntry) : edited code id entry = entry := by
  cases code with
  | none => rfl
  | some position =>
    exact congrArg (fun as => { entry with attributes := as })
      (List.modify_id position entry.attributes)

theorem patched_eq (entry : MemberEntry) (code : Option Nat) (patches : List Patch) :
    patched entry code patches = edited code (Walk.applyPatches · patches) entry := by
  cases code <;> rfl

theorem codeOf_some {entry : MemberEntry} {position : Nat} (h : codeOf pool entry = some position) :
    ∃ a, entry.attributes[position]? = some a ∧ a.isNamed pool "Code" = true := by
  obtain ⟨hlt, hcode, -⟩ := List.findIdx?_eq_some_iff_getElem.1 h
  exact ⟨_, List.getElem?_eq_getElem hlt, hcode⟩

/-- An edit of its body hides no annotation that a method lost. -/
theorem left_eq_of_edited {entry : MemberEntry} {ms : List Marked}
    {edit : List UInt8 → List UInt8} (hread : marks pool entry.attributes = .ok ms)
    (h : entry = edited (codeOf pool (left policy entry ms)) edit (left policy entry ms)) :
    left policy entry ms = entry ∧ ∀ e ∈ Marked.all ms, policy.strips e.2 = false := by
  obtain ⟨hsource, hreads⟩ := marks_ok_iff.1 hread
  have hsame : (Marked.stripAll policy.strips ms).1 = ms.map Marked.source := by
    cases hcode : codeOf pool (left policy entry ms) with
    | none =>
      rw [hcode] at h
      rw [← hsource]
      exact (congrArg MemberEntry.attributes h).symm
    | some position =>
      rw [hcode] at h
      refine Marked.stripAll_eq_of_modify hreads position _ (fun a ha => ?_)
        (hsource.symm.trans (congrArg MemberEntry.attributes h))
      obtain ⟨a', ha', hnamed⟩ := codeOf_some hcode
      obtain rfl : a' = a := Option.some.inj (ha'.symm.trans ha)
      exact Attribute.not_isAnnotations_of_isNamed hnamed (by decide) (by decide)
  refine ⟨?_, Marked.whole_of_stripAll hreads hsame⟩
  rw [left, hsame, ← hsource]

theorem left_eq_of_unchanged {entry : MemberEntry} {ms : List Marked}
    (hread : marks pool entry.attributes = .ok ms)
    (h : (Marked.stripAll policy.strips ms).2 = false) : left policy entry ms = entry := by
  rw [left, Marked.stripAll_eq_of_unchanged h, ← (marks_ok_iff.1 hread).1]

theorem methods_eq_of_unchanged {l l' : Ledger} {entries : List MemberEntry}
    {ks : List KeptMethod} (h : methods policy self pool bootstraps l entries = .ok (l', ks, false)) :
    ks = entries.map fun entry => ⟨entry, none⟩ := by
  induction entries generalizing l ks with
  | nil =>
    cases h
    rfl
  | cons entry entries ih =>
    obtain ⟨r, ks', c, hstep, hrest, rfl, hflag⟩ := methods_cons_ok h
    obtain ⟨hr, rfl⟩ := Bool.or_eq_false_iff.1 hflag.symm
    obtain ⟨m, ms, ft, hm, rfl⟩ := method_ok hstep
    rw [ih hrest, List.map_cons]
    cases ft with
    | delete => cases hr
    | stub =>
      obtain ⟨hcode, hstripped⟩ := Bool.or_eq_false_iff.1 hr
      have hleft := left_eq_of_unchanged hm.read hstripped
      have hnone : codeOf pool entry = none := by
        rw [hleft] at hcode
        simpa only [Option.isSome_eq_false_iff, Option.isNone_iff_eq_none] using hcode
      simp only [afterFate, hleft, hnone]
      rfl
    | keep patches =>
      obtain ⟨hpatched, hstripped⟩ := Bool.or_eq_false_iff.1 hr
      have hleft := left_eq_of_unchanged hm.read hstripped
      have hsame : patched entry (codeOf pool entry) patches = entry := by
        rw [hleft] at hpatched
        cases hcode : codeOf pool entry with
        | none => rfl
        | some position =>
          obtain rfl : patches = [] := by simpa [hcode] using hpatched
          exact edited_id (some position) entry
      simp only [afterFate, hleft, hsame]
      rfl

theorem installStubs_none (entries : List MemberEntry) (p : ConstantPool) :
    (Walk.installStubs (entries.map fun entry => ⟨entry, none⟩)).run p = .ok entries p := by
  induction entries with
  | nil => rfl
  | cons entry entries ih =>
    rw [List.map_cons, Walk.installStubs]
    simp only [EStateM.run] at ih
    simp [EStateM.run, bind, EStateM.bind, Walk.installStub, pure, EStateM.pure, ih]

/-- No two methods have the same name and descriptor. -/
def MethodsDiffer (pool : ConstantPool) (entries : List MemberEntry) : Prop :=
  entries.Pairwise fun a b => ∀ m n, a.resolve pool = .ok m → b.resolve pool = .ok n →
    m.toSignature ≠ n.toSignature

/-- A stub elsewhere changes nothing for a method. -/
theorem MethodRests.of_stubMethod {l : Ledger} {entry : MemberEntry} {m n : Member}
    {ms : List Marked} (h : MethodRests policy self pool bootstraps (l.stubMethod n) entry m ms)
    (hne : n.toSignature ≠ m.toSignature) :
    MethodRests policy self pool bootstraps l entry m ms where
  resolved := h.resolved
  read := h.read
  stays := ⟨h.stays.here, h.stays.wanted⟩
  whole := h.whole
  body := by
    have hcontains : (l.stubMethod n).memory.stubbed.contains m.toSignature =
        (l.memory.stubbed.contains m.toSignature || decide (n.toSignature = m.toSignature)) :=
      GraceSet.contains_insert l.memory.stubbed n m.toSignature
    rw [decide_eq_false hne, Bool.or_false] at hcontains
    rw [← hcontains]
    exact h.body

/-- A method that is kept with its body as it was has a body that calls for no change. -/
theorem body_rests {l : Ledger} {entry : MemberEntry} {m : Member} {ms : List Marked}
    {patches : List Patch} (h : MethodStep policy self pool bootstraps l entry m ms (.keep patches))
    (hleft : left policy entry ms = entry)
    (he : entry = edited (codeOf pool (left policy entry ms)) (Walk.applyPatches · patches)
      (left policy entry ms)) :
    l.memory.stubbed.contains m.toSignature = true ∨ asksForStub policy m ms = true ∨
      ∀ position, codeOf pool entry = some position →
        ∃ a ss, entry.attributes[position]? = some a ∧ sites pool bootstraps a.payload = .ok ss ∧
          bodyFate l self m.isConstructor ss = .keep [] := by
  have hfated := h.fated
  rw [hleft] at hfated he
  cases hfated with
  | already _ hstubbed => exact .inl hstubbed
  | bare _ _ _ hempty =>
    refine .inr (.inr fun position hposition => ?_)
    obtain ⟨a, ha, -⟩ := codeOf_some hposition
    rw [hposition, Option.bind_some, ha] at hempty
    cases hempty
  | @walked a ss _ _ _ _ hbody hscanned hmeets =>
    refine .inr (.inr fun position hposition => ?_)
    rw [hposition, Option.bind_some] at hbody
    refine ⟨a, ss, hbody, hscanned, ?_⟩
    rw [hposition] at he
    have hattributes := congrArg (fun e : MemberEntry => e.attributes[position]?) he
    have hpayload : Walk.applyPatches a.payload patches = a.payload := by
      simpa [edited, Walk.editPayload, List.getElem?_modify, hbody] using
        congrArg (Option.map Attribute.payload) hattributes.symm
    unfold bodyFate at hmeets ⊢
    split at hmeets
    · cases hmeets
    · next hfatal =>
      rw [if_neg hfatal]
      have hpatches := Fate.keep.inj hmeets
      congr 1
      split
      · next hconstructs =>
        rw [if_pos hconstructs] at hpatches
        rw [← hpatches] at hpayload
        exact patches_eq_nil hscanned hpayload
      · rfl

theorem methods_rest {l l' : Ledger} {entries : List MemberEntry} {ks : List KeptMethod}
    {changed : Bool} {p q : ConstantPool} (hdiffer : MethodsDiffer pool entries)
    (h : methods policy self pool bootstraps l entries = .ok (l', ks, changed))
    (hinstalled : (Walk.installStubs ks).run p = .ok entries q) :
    l'.tracker = l.tracker ∧
      ∀ entry ∈ entries, ∃ m ms, MethodRests policy self pool bootstraps l entry m ms := by
  induction entries generalizing l ks changed p with
  | nil =>
    cases h
    exact ⟨rfl, by simp⟩
  | cons entry entries ih =>
    obtain ⟨hfirst, hdiffer⟩ := List.pairwise_cons.1 hdiffer
    obtain ⟨r, ks', c, hstep, hrest, rfl, -⟩ := methods_cons_ok h
    obtain ⟨m, ms, ft, hm, rfl⟩ := method_ok hstep
    have hlength := length_installStubs hinstalled
    have hle := length_methods_le hrest
    have hsame (edit : List UInt8 → List UInt8)
        (he : entry = edited (codeOf pool (left policy entry ms)) edit (left policy entry ms)) :=
      left_eq_of_edited hm.read he
    cases ft with
    | delete =>
      simp only [afterFate, Option.toList_none, List.nil_append, List.length_cons] at hlength
      omega
    | stub =>
      obtain ⟨e, es, p', he, hes, heq⟩ := installStubs_cons_ok hinstalled
      obtain ⟨rfl, rfl⟩ := List.cons.inj heq
      obtain ⟨htracker, hall⟩ := ih hdiffer hrest hes
      refine ⟨htracker, fun entry' hmem => ?_⟩
      obtain rfl | hmem := List.mem_cons.1 hmem
      · have hwhole : ∀ e ∈ Marked.all ms, policy.strips e.2 = false := by
          obtain ⟨hcode, he, -⟩ | ⟨position, descriptor, payload, hcode, -, -, he⟩ :=
            installStub_ok he
          · exact (hsame id (by rw [show codeOf _ _ = none from hcode]; exact he)).2
          · exact (hsame (fun _ => payload)
              (by rw [show codeOf _ _ = some position from hcode]; exact he)).2
        exact ⟨m, ms, hm.resolved, hm.read, hm.fated.stays (by simp), hwhole,
          .inr (.inl hm.fated.asks)⟩
      · obtain ⟨n, ns, hn⟩ := hall entry' hmem
        exact ⟨n, ns, hn.of_stubMethod (hfirst entry' hmem m n hm.resolved hn.resolved)⟩
    | keep patches =>
      obtain ⟨e, es, p', he, hes, heq⟩ := installStubs_cons_ok hinstalled
      obtain ⟨rfl, rfl⟩ := List.cons.inj heq
      obtain ⟨htracker, hall⟩ := ih hdiffer hrest hes
      refine ⟨htracker, fun entry' hmem => ?_⟩
      obtain rfl | hmem := List.mem_cons.1 hmem
      · have he : entry' = edited (codeOf pool (left policy entry' ms))
            (Walk.applyPatches · patches) (left policy entry' ms) := by
          obtain ⟨-, he, -⟩ | ⟨_, _, _, hcode, -⟩ := installStub_ok he
          · rw [← patched_eq]
            exact he
          · cases hcode
        obtain ⟨hleft, hwhole⟩ := hsame _ he
        refine ⟨m, ms, hm.resolved, hm.read, hm.fated.stays (by simp), hwhole, ?_⟩
        exact body_rests hm hleft he
      · exact hall entry' hmem

end JarPruning.Prune
