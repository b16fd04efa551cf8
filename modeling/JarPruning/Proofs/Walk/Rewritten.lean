import JarPruning.ClassFile.Script
import JarPruning.Proofs.Walk.Edits

/-!
A walk does what its visitor decides. The class that comes out of a walk is the one that went in,
with each of its parts edited as the visitor answered about it, and the walk tells whether any
answer called for a change.
-/
namespace JarPruning.Walk

open ConstantPool (Grows)

variable {σ : Type} {v : Visitor σ} {pool last : ConstantPool} {bootstraps : List Bootstrap}

/-! Methods. -/

/-- Attributes around the first that is a body. -/
structure FirstCode (pool : ConstantPool) (attributes front : List Attribute) (a : Attribute)
    (back : List Attribute) : Prop where
  split : attributes = front ++ a :: back
  earlier : ∀ b ∈ front, b.isNamed pool "Code" = false
  named : a.isNamed pool "Code" = true

/-- Attributes whose first body, if there is one, changes where bytes were answered. -/
inductive CodeEdit (pool : ConstantPool) (bootstraps : List Bootstrap) (m : Member)
    (attributes : List Attribute) : List Answered → List Attribute → Bool → Prop
  | bare (lacks : ∀ a ∈ attributes, a.isNamed pool "Code" = false) :
    CodeEdit pool bootstraps m attributes [] attributes false
  | coded {front back : List Attribute} {a : Attribute} {rs : List Answered}
    {payload : List UInt8} {patched : Bool} (first : FirstCode pool attributes front a back)
    (body : BodyEdit pool bootstraps m a.payload rs payload patched) :
    CodeEdit pool bootstraps m attributes rs (front ++ { a with payload } :: back) patched

/-- A method that is deleted, kept with its body changed where bytes were answered, or kept with a
stub for its first body. -/
inductive MethodEdit (pool last : ConstantPool) (bootstraps : List Bootstrap)
    (entry : MemberEntry) : List Answered → Option MemberEntry → Bool → Prop
  | deleted {m : Member} {tables rs : List Answered} {attributes attributes' : List Attribute}
    {stripped patched : Bool} (resolved : entry.resolve pool = .ok m)
    (annotations : Each (TableEdit pool fun d _ => .annotationOnMethod m d) entry.attributes tables
      attributes stripped)
    (code : CodeEdit pool bootstraps m attributes rs attributes' patched) :
    MethodEdit pool last bootstraps entry (.method m :: tables ++ rs ++ [.methodEnd m .delete])
      none true
  | kept {m : Member} {tables rs : List Answered} {attributes attributes' : List Attribute}
    {stripped patched : Bool} (resolved : entry.resolve pool = .ok m)
    (annotations : Each (TableEdit pool fun d _ => .annotationOnMethod m d) entry.attributes tables
      attributes stripped)
    (code : CodeEdit pool bootstraps m attributes rs attributes' patched) :
    MethodEdit pool last bootstraps entry (.method m :: tables ++ rs ++ [.methodEnd m .keep])
      (some { entry with attributes := attributes' }) (patched || stripped)
  | bare {m : Member} {tables : List Answered} {attributes : List Attribute} {stripped : Bool}
    (resolved : entry.resolve pool = .ok m)
    (annotations : Each (TableEdit pool fun d _ => .annotationOnMethod m d) entry.attributes tables
      attributes stripped)
    (lacks : ∀ a ∈ attributes, a.isNamed pool "Code" = false) :
    MethodEdit pool last bootstraps entry (.method m :: tables ++ [.methodEnd m .stub])
      (some { entry with attributes }) stripped
  | stubbed {m : Member} {tables rs : List Answered} {attributes front back : List Attribute}
    {a : Attribute} {payload stub : List UInt8} {stripped patched : Bool} {p q : ConstantPool}
    (resolved : entry.resolve pool = .ok m)
    (annotations : Each (TableEdit pool fun d _ => .annotationOnMethod m d) entry.attributes tables
      attributes stripped)
    (first : FirstCode pool attributes front a back)
    (body : BodyEdit pool bootstraps m a.payload rs payload patched)
    (written : (Stub.payload m.descriptor m.isStatic).run p = .ok stub q)
    (before : Grows pool p) (after : q.entries.toList <+: last.entries.toList) :
    MethodEdit pool last bootstraps entry (.method m :: tables ++ rs ++ [.methodEnd m .stub])
      (some { entry with attributes := front ++ { a with payload := stub } :: back }) true

theorem codePosition?_eq_none {attributes : List Attribute}
    (h : codePosition? pool attributes = none) :
    ∀ a ∈ attributes, a.isNamed pool "Code" = false := by
  simpa using List.findIdx?_eq_none_iff.1 h

theorem firstCode_of_codePosition? {attributes : List Attribute} {position : Nat}
    (h : codePosition? pool attributes = some position) :
    ∃ front a back, FirstCode pool attributes front a back ∧ position = front.length ∧
      attributes[position]? = some a := by
  obtain ⟨hlt, hcode, hearlier⟩ := List.findIdx?_eq_some_iff_getElem.1 h
  refine ⟨attributes.take position, attributes[position], attributes.drop (position + 1),
    ⟨?_, fun b hb => ?_, hcode⟩, (List.length_take_of_le hlt.le).symm,
    List.getElem?_eq_getElem hlt⟩
  · rw [List.getElem_cons_drop, List.take_append_drop]
  · obtain ⟨i, hi, rfl⟩ := List.mem_take_iff_getElem.1 hb
    simpa using hearlier i (lt_min_iff.1 hi).1

theorem FirstCode.editPayload {attributes front back : List Attribute} {a : Attribute}
    (h : FirstCode pool attributes front a back) (entry : MemberEntry)
    (edit : List UInt8 → List UInt8) :
    editPayload front.length edit { entry with attributes } =
      { entry with attributes := front ++ { a with payload := edit a.payload } :: back } := by
  rw [Walk.editPayload, h.split, List.modify_eq_take_drop, List.take_left, List.drop_left]
  rfl

/-- What installing its stub makes of a method, if it was kept. -/
inductive Installs (p q : ConstantPool) : Option KeptMethod → Option MemberEntry → Prop
  | none (same : q = p) : Installs p q none none
  | some {k : KeptMethod} {e : MemberEntry} (installed : (installStub k).run p = .ok e q) :
    Installs p q (some k) (some e)

/-- A method that is edited as was decided, once its stub is installed. -/
def MethodDecided (pool last : ConstantPool) (bootstraps : List Bootstrap) (entry : MemberEntry)
    (rs : List Answered) (kept? : Option KeptMethod) (changed : Bool) : Prop :=
  ∀ ⦃p q e?⦄, Installs p q kept? e? → Grows pool p →
    q.entries.toList <+: last.entries.toList →
      MethodEdit pool last bootstraps entry rs e? changed

section

variable {entry : MemberEntry} {m : Member} {tables rs : List Answered}
  {attributes : List Attribute} {stripped changed : Bool}

theorem MethodDecided.of_none (h : MethodEdit pool last bootstraps entry rs none changed) :
    MethodDecided pool last bootstraps entry rs none changed := by
  intro p q e? hinstalls _ _
  cases hinstalls
  exact h

theorem MethodDecided.of_unstubbed {e : MemberEntry}
    (h : MethodEdit pool last bootstraps entry rs (some e) changed) :
    MethodDecided pool last bootstraps entry rs (some ⟨e, none⟩) changed := by
  intro p q e? hinstalls _ _
  cases hinstalls with
  | some hinstalled =>
    cases hinstalled
    exact h

theorem MethodDecided.of_stubbed {front back : List Attribute} {a : Attribute}
    {payload : List UInt8} {patched : Bool} (hm : entry.resolve pool = .ok m)
    (hannotations : Each (TableEdit pool fun d _ => .annotationOnMethod m d) entry.attributes tables
      attributes stripped)
    (hfirst : FirstCode pool attributes front a back)
    (hbody : BodyEdit pool bootstraps m a.payload rs payload patched) :
    MethodDecided pool last bootstraps entry (.method m :: tables ++ rs ++ [.methodEnd m .stub])
      (some ⟨{ entry with attributes }, some front.length⟩) true := by
  intro p q e? hinstalls hgrows hlast
  cases hinstalls with
  | some hinstalled =>
    obtain ⟨hnone, -⟩ | ⟨position, descriptor, stub, hposition, hdescriptor, hstub, rfl⟩ :=
      Prune.installStub_ok hinstalled
    · cases hnone
    obtain rfl := Option.some.inj hposition
    obtain ⟨-, hresolved, haccess⟩ := MemberEntry.of_resolve hm
    obtain rfl := Except.ok.inj (hdescriptor.symm.trans (hgrows.utf8 _ _ hresolved))
    rw [hfirst.editPayload entry]
    refine .stubbed hm hannotations hfirst hbody ?_ hgrows hlast
    rw [Member.isStatic, haccess]
    exact hstub

/-- The end of a method without a body. -/
theorem MethodDecided.of_bare (hm : entry.resolve pool = .ok m)
    (hannotations : Each (TableEdit pool fun d _ => .annotationOnMethod m d) entry.attributes tables
      attributes stripped)
    (hlacks : ∀ a ∈ attributes, a.isNamed pool "Code" = false) (last : ConstantPool)
    (bootstraps : List Bootstrap) (answer : MethodDisposition) :
    MethodDecided pool last bootstraps entry (.method m :: tables ++ [.methodEnd m answer])
      (match answer with
        | .delete => none
        | .stub | .keep => some ⟨{ entry with attributes }, none⟩)
      (match answer with
        | .delete => true
        | .stub | .keep => stripped) := by
  have hbare : CodeEdit pool bootstraps m attributes [] attributes false := .bare hlacks
  cases answer with
  | delete => exact .of_none (by simpa using MethodEdit.deleted hm hannotations hbare)
  | stub => exact .of_unstubbed (.bare hm hannotations hlacks)
  | keep => exact .of_unstubbed (by simpa using MethodEdit.kept hm hannotations hbare)

end

theorem method_asks (last : ConstantPool) (entry : MemberEntry) :
    Asks v (method v pool bootstraps entry) fun rs r =>
      MethodDecided pool last bootstraps entry rs r.1 r.2 := by
  apply Asks.check
  intro m hm
  apply Asks.visit (fun _ => .method m) (fun _ => rfl)
  intro _
  apply (annotationTables_asks (fun d _ => .annotationOnMethod m d) (fun _ _ _ => rfl)
    entry.attributes).bind
  rintro tables ⟨attributes, stripped⟩ hr
  dsimp only at hr ⊢
  cases hcode : codePosition? pool attributes with
  | none =>
    have hlacks := codePosition?_eq_none hcode
    have hnone : Asks v (pure [] : Step σ (List Patch)) fun rs patches => rs = [] ∧ patches = [] :=
      .pure ⟨rfl, rfl⟩
    apply hnone.bind
    rintro _ _ ⟨rfl, rfl⟩
    apply Asks.visit (.methodEnd m) (fun _ => rfl)
    intro answer
    have hend := MethodDecided.of_bare hm hr hlacks last bootstraps answer
    cases answer <;> exact .pure (by simpa using hend)
  | some position =>
    obtain ⟨front, a, back, hfirst, rfl, ha⟩ := firstCode_of_codePosition? hcode
    rw [Option.bind_some, ha]
    apply (body_asks a.payload).bind
    intro rs patches hbody
    apply Asks.visit (.methodEnd m) (fun _ => rfl)
    intro answer
    have hedit := CodeEdit.coded hfirst hbody
    cases answer with
    | delete =>
      apply Asks.pure
      apply MethodDecided.of_none
      simpa using MethodEdit.deleted hm hr hedit
    | stub =>
      apply Asks.pure
      simpa using MethodDecided.of_stubbed hm hr hfirst hbody
    | keep =>
      apply Asks.pure
      apply MethodDecided.of_unstubbed
      rw [hfirst.editPayload entry]
      simpa using MethodEdit.kept hm hr hedit

theorem methods_asks (last : ConstantPool) (ms : List MemberEntry) :
    Asks v (methods v pool bootstraps ms) fun rs r =>
      Each (MethodDecided pool last bootstraps) ms rs r.1 r.2 :=
  Each.of_loop (method v pool bootstraps) rfl (fun _ _ => rfl) (method_asks last) ms

/-- Stubs are installed one after another, each in the method that was to have it. -/
theorem methods_installed {entries es : List MemberEntry} {rs : List Answered}
    {ks : List KeptMethod} {changed : Bool} {p q : ConstantPool}
    (h : Each (MethodDecided pool last bootstraps) entries rs ks changed)
    (hinstalled : (installStubs ks).run p = .ok es q) (hgrows : Grows pool p)
    (hlast : q.entries.toList <+: last.entries.toList) :
    Each (MethodEdit pool last bootstraps) entries rs es changed := by
  induction h generalizing es p with
  | nil =>
    cases hinstalled
    exact .nil
  | @cons entry entries rs rs' k? ks changed later hdecided _ ih =>
    cases k? with
    | none =>
      have hentry := hdecided (.none rfl) hgrows
        ((Prune.installStubs_adds ks hinstalled).isPrefix.trans hlast)
      exact .cons hentry (ih hinstalled hgrows)
    | some k =>
      obtain ⟨e, es', p', he, hes, rfl⟩ := Prune.installStubs_cons_ok hinstalled
      have hentry := hdecided (.some he) hgrows
        ((Prune.installStubs_adds ks hes).isPrefix.trans hlast)
      exact .cons hentry (ih hes (hgrows.trans (Prune.installStub_adds k he)))

theorem MethodEdit.eq_of_unchanged {entry : MemberEntry} {rs : List Answered}
    {e? : Option MemberEntry} {changed : Bool}
    (h : MethodEdit pool last bootstraps entry rs e? changed) (hchanged : changed = false) :
    e? = some entry := by
  cases h with
  | deleted _ _ _ => cases hchanged
  | stubbed _ _ _ _ _ _ _ => cases hchanged
  | bare _ hannotations _ =>
    rw [hannotations.eq_of_unchanged hchanged fun _ _ _ _ => TableEdit.eq_of_unchanged]
  | kept _ hannotations hcode =>
    obtain ⟨hpatched, hstripped⟩ := Bool.or_eq_false_iff.1 hchanged
    obtain rfl := hannotations.eq_of_unchanged hstripped fun _ _ _ _ => TableEdit.eq_of_unchanged
    cases hcode with
    | bare _ => rfl
    | coded hfirst hbody => rw [hbody.eq_of_unchanged hpatched, ← hfirst.split]

/-! Class annotations. -/

/-- Attributes in which annotations are replaced one after another. -/
inductive Replaces (pool : ConstantPool) :
    List AnnotationEntry → List Attribute → List Attribute → Bool → Prop
  | nil {as : List Attribute} : Replaces pool [] as as false
  | cons {new : AnnotationEntry} {news : List AnnotationEntry} {as as' as'' : List Attribute}
    {changed later : Bool} (first : Prune.Replaced pool new as as' changed)
    (rest : Replaces pool news as' as'' later) :
    Replaces pool (new :: news) as as'' (changed || later)

theorem replaces_of_replaceAll {news : List AnnotationEntry} {as as' : List Attribute}
    {changed : Bool} (h : replaceAll pool news as = .ok (as', changed)) :
    Replaces pool news as as' changed := by
  induction news generalizing as changed with
  | nil =>
    cases h
    exact .nil
  | cons new news ih =>
    obtain ⟨⟨as₁, changed₁⟩, hfirst, h⟩ := bind_ok_iff.1 h
    obtain ⟨⟨as₂, later⟩, hrest, h⟩ := bind_ok_iff.1 h
    cases h
    exact .cons (Prune.replaceAnnotations_ok hfirst) (ih hrest)

theorem Replaces.eq_of_unchanged {news : List AnnotationEntry} {as as' : List Attribute}
    {changed : Bool} (h : Replaces pool news as as' changed) (hchanged : changed = false) :
    as' = as := by
  induction h with
  | nil => rfl
  | cons hfirst _ ih =>
    obtain ⟨hone, hlater⟩ := Bool.or_eq_false_iff.1 hchanged
    rw [ih hlater, hfirst.eq_of_unchanged hone]

/-! The whole class. -/

/-- A class whose parts are edited as was answered about them; the rest of it is as it was. -/
inductive ClassEdit (c : ClassFile) (news : List AnnotationEntry) :
    List Answered → ClassFile → Bool → Prop
  | intro {h : ClassHeader} {last : ConstantPool} {bootstraps : List Bootstrap}
    {tables links fs ms : List Answered} {stripped thinned attributes : List Attribute}
    {fields methods : List MemberEntry}
    {strips thins fieldsChanged methodsChanged replaces : Bool}
    (headed : header c = .ok h)
    (annotated : Each (TableEdit c.pool .annotationOnClass) c.attributes tables stripped strips)
    (linked : Each (LinkEdit c.pool) stripped links thinned thins)
    (ofFields : Each (FieldEdit c.pool) c.fields fs fields fieldsChanged)
    (bound : Walk.bootstraps { c with attributes := thinned } = .ok bootstraps)
    (ofMethods : Each (MethodEdit c.pool last bootstraps) c.methods ms methods methodsChanged)
    (replaced : Replaces last news thinned attributes replaces) :
    ClassEdit c news (.header h :: tables ++ links ++ fs ++ ms)
      { c with pool := last, fields, methods, attributes }
      (strips || thins || (fieldsChanged || methodsChanged) || replaces)

/-- A walk that reports no change leaves all but the constants as they were. -/
theorem ClassEdit.eq_of_unchanged {c c' : ClassFile} {news : List AnnotationEntry}
    {rs : List Answered} {changed : Bool} (h : ClassEdit c news rs c' changed)
    (hchanged : changed = false) : c' = { c with pool := c'.pool } := by
  cases h with
  | intro _ hannotated hlinked hfields _ hmethods hreplaced =>
    simp only [Bool.or_eq_false_iff] at hchanged
    obtain ⟨⟨⟨hstrips, hthins⟩, hfieldsChanged, hmethodsChanged⟩, hreplaces⟩ := hchanged
    obtain rfl := hannotated.eq_of_unchanged hstrips fun _ _ _ _ => TableEdit.eq_of_unchanged
    obtain rfl := hlinked.eq_of_unchanged hthins fun _ _ _ _ => LinkEdit.eq_of_unchanged
    obtain rfl := hreplaced.eq_of_unchanged hreplaces
    obtain rfl := hfields.eq_of_unchanged hfieldsChanged fun _ _ _ _ => FieldEdit.eq_of_unchanged
    obtain rfl := hmethods.eq_of_unchanged hmethodsChanged fun _ _ _ _ => MethodEdit.eq_of_unchanged
    rfl

/-- A class that is rewritten was not discarded on the way. -/
theorem kept_of_rewritten {x : EStateM ClassFailure σ Outcome} {c' : ClassFile} {changed : Bool}
    {s t : σ}
    (h : (do if v.isDiscarded (← get) then return .discarded else x :
      EStateM ClassFailure σ Outcome).run s = .ok (.rewritten c' changed) t) :
    x.run s = .ok (.rewritten c' changed) t := by
  replace h : (if v.isDiscarded s then pure .discarded else x :
    EStateM ClassFailure σ Outcome).run s = .ok (.rewritten c' changed) t := h
  cases hdiscarded : v.isDiscarded s with
  | true =>
    rw [hdiscarded] at h
    cases h
  | false =>
    rw [hdiscarded] at h
    exact h

theorem finish_rewritten {name : String} {c c' : ClassFile} {ks : List KeptMethod}
    {changed changed' : Bool} {s t : σ}
    (h : (finish v name c ks changed).run s = .ok (.rewritten c' changed') t) :
    ∃ methods p last news attributes replaces, (installStubs ks).run c.pool = .ok methods p ∧
      (v.finish p).run s = .ok (news, last) t ∧
        Replaces last news c.attributes attributes replaces ∧
          c' = { c with pool := last, methods, attributes } ∧ changed' = (changed || replaces) := by
  unfold finish at h
  cases hinstalled : (installStubs ks).run c.pool with
  | error fault p =>
    rw [hinstalled] at h
    cases h
  | ok methods p =>
    rw [hinstalled] at h
    obtain ⟨⟨news, last⟩, u, hfinish, h⟩ := run_bind_ok h
    obtain ⟨⟨attributes, replaces⟩, hreplaced, h⟩ := run_check_bind_ok (kept_of_rewritten h)
    cases h
    exact ⟨methods, p, last, news, attributes, replaces, rfl, hfinish,
      replaces_of_replaceAll (mapError_ok_iff.1 hreplaced), rfl, rfl⟩

theorem members_asks (c : ClassFile) (last : ConstantPool) :
    Asks v (members v c) fun rs r => ∃ fs ms fieldsChanged methodsChanged bootstraps,
      Walk.bootstraps c = .ok bootstraps ∧ rs = fs ++ ms ∧
        Each (FieldEdit c.pool) c.fields fs r.1 fieldsChanged ∧
          Each (MethodDecided c.pool last bootstraps) c.methods ms r.2.1 methodsChanged ∧
            r.2.2 = (fieldsChanged || methodsChanged) := by
  apply (fields_asks c.pool c.fields).bind
  intro fs r hfields
  apply Asks.check
  intro bootstraps hbootstraps
  apply (methods_asks last c.methods).bind
  intro ms r' hmethods
  apply Asks.pure
  rw [List.append_nil]
  exact ⟨fs, ms, r.2, r'.2, bootstraps, hbootstraps, rfl, hfields, hmethods, rfl⟩

/-- A class that comes out of a walk is the class that went in, edited as the visitor answered. The
walk reports a change just if an answer called for one. -/
theorem rewritten_of_run (happends : v.Appends) {c c' : ClassFile} {changed : Bool} {s s' : σ}
    (hrun : (run v c).run s = .ok (.rewritten c' changed) s') :
    ∃ answers t p news, v.GivesAll answers s t ∧ (v.finish p).run t = .ok (news, c'.pool) s' ∧
      c.pool.entries.toList <+: c'.pool.entries.toList ∧ ClassEdit c news answers c' changed ∧
        (changed = false → c' = { c with pool := c'.pool }) := by
  unfold run at hrun
  obtain ⟨name, -, hrun⟩ := run_check_bind_ok hrun
  dsimp only at hrun
  obtain ⟨h, hheader, hrun⟩ := run_check_bind_ok hrun
  obtain ⟨⟨⟩, s₁, hheaded, hrun⟩ := run_bind_ok hrun
  obtain ⟨⟨stripped, strips⟩, s₂, hstripped, hrun⟩ := run_bind_ok hrun
  obtain ⟨tables, htables, hannotated⟩ := (annotationTables_asks .annotationOnClass
    (fun _ _ _ => rfl) c.attributes).of_adapt hstripped
  obtain ⟨⟨thinned, thins⟩, s₃, hthinned, hrun⟩ := run_bind_ok (kept_of_rewritten hrun)
  obtain ⟨links, hlinks, hlinked⟩ := (links_asks c.pool stripped).of_adapt hthinned
  obtain ⟨⟨fields, ks, membersChanged⟩, t, hmembers, hrun⟩ := run_bind_ok (kept_of_rewritten hrun)
  obtain ⟨methods, p, last, news, attributes, replaces, hinstalled, hfinish, hreplaced, rfl, rfl⟩ :=
    finish_rewritten hrun
  obtain ⟨rs, hrs, fs, ms, fieldsChanged, methodsChanged, bootstraps, hbootstraps, rfl, hfields,
    hmethods, rfl⟩ := (members_asks { c with attributes := thinned } last).of_adapt hmembers
  have hgrows := Prune.installStubs_adds ks hinstalled
  have hlast : p.entries.toList <+: last.entries.toList := happends hfinish
  have hedit : ClassEdit c news (.header h :: tables ++ links ++ fs ++ ms)
      { c with pool := last, fields, methods, attributes }
      (strips || thins || (fieldsChanged || methodsChanged) || replaces) :=
    .intro (mapError_ok_iff.1 hheader) hannotated hlinked hfields hbootstraps
      (methods_installed hmethods hinstalled (.refl _) hlast) hreplaced
  refine ⟨_, t, p, news, ?_, hfinish, hgrows.isPrefix.trans hlast, hedit, hedit.eq_of_unchanged⟩
  have hreported : v.GivesAll [.header h] s s₁ := by
    cases hheaded
    exact .cons rfl .nil
  simpa using hreported.append (htables.append (hlinks.append hrs))

/-- Whether a walk reported a change. -/
def changes : EStateM.Result ClassFailure σ Outcome → Bool
  | .ok (.rewritten _ changed) _ => changed
  | _ => false

theorem of_changes {r : EStateM.Result ClassFailure σ Outcome} (h : changes r = true) :
    ∃ c' s', r = .ok (.rewritten c' true) s' := by
  cases r with
  | error => cases h
  | ok o s' =>
    cases o with
    | discarded => cases h
    | rewritten c' changed =>
      obtain rfl : changed = true := h
      exact ⟨c', s', rfl⟩

theorem appends_of_script {script : Script} (h : script.replace = []) :
    script.visitor.Appends := by
  intro p s r t hrun
  have hfinish : (script.visitor.finish p).run s =
      .ok ([], p) { s with events := s.events.push .finish } := by
    cases script
    dsimp only at h
    subst h
    rfl
  rw [hfinish] at hrun
  cases hrun
  exact List.prefix_refl _

/-- A field with an annotation, a method that reads the field, and one that answers a number. -/
def mixedClass : ClassFile where
  minor := 0
  major := 52
  pool := ⟨#[.unusable, .ofText "A", .classInfo 1, .ofText "f", .ofText "I",
    .ofText "RuntimeVisibleAnnotations", .ofText "LD;", .ofText "m", .ofText "()V",
    .ofText "Code", .nameAndType 3 4, .fieldRef 2 10, .ofText "n", .ofText "()I"]⟩
  access := 0
  thisClass := 2
  superClass := 0
  interfaces := []
  fields := [⟨8, 3, 4, [⟨5, AnnotationEntry.tableBytes [⟨6, []⟩]⟩]⟩]
  methods := [⟨8, 7, 8, [⟨9, Body.bytes ⟨1, 0, [Opcode.getstatic, 0, 11, 0x57, Opcode.ret]⟩⟩]⟩,
    ⟨8, 12, 13, [⟨9, Body.bytes ⟨1, 0, [3, 0xAC]⟩⟩]⟩]
  attributes := []

/-- Strips the annotation, does away with the access to the field and stubs the other method. -/
def mixedScript : Script := { strip := ["LD;"], neutralize := ["f"], stub := ["n"] }

theorem rewritten_of_run_script : mixedScript.visitor.Appends ∧ ∃ c' s',
    (run mixedScript.visitor mixedClass).run {} = .ok (.rewritten c' true) s' ∧
      ∃ answers t p news, mixedScript.visitor.GivesAll answers {} t ∧
        (mixedScript.visitor.finish p).run t = .ok (news, c'.pool) s' ∧
          mixedClass.pool.entries.toList <+: c'.pool.entries.toList ∧
            ClassEdit mixedClass news answers c' true ∧
              (true = false → c' = { mixedClass with pool := c'.pool }) := by
  have happends : mixedScript.visitor.Appends := appends_of_script rfl
  obtain ⟨c', s', hrun⟩ := of_changes (r := (run mixedScript.visitor mixedClass).run {})
    (by decide +kernel)
  exact ⟨happends, c', s', hrun, rewritten_of_run happends hrun⟩

end JarPruning.Walk
