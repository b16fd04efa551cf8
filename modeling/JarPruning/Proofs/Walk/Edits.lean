import JarPruning.Proofs.Bytecode.Overwritten
import JarPruning.Proofs.Pass.Attributes
import JarPruning.Proofs.Walk.Answers

/-!
What answers make of the parts of a class. Each part is edited as it was decided about it and
about nothing else: tables lose the items that were discarded, bodies change where bytes were
answered, and members are kept, dropped or stubbed.
-/
namespace JarPruning.Walk

open AnnotationEntry (readTable tableBytes)
open ConstantPool (Grows)
open Instruction (overwritten spread)

variable {σ α : Type} {v : Visitor σ} {pool : ConstantPool}

/-- What was asked about and not discarded. -/
def spared (asked : List (α × Disposition)) : List α :=
  (asked.filter fun q => q.2 = .keep).map (·.1)

theorem Disposition.ne_keep_iff {answer : Disposition} : answer ≠ .keep ↔ answer = .discard := by
  cases answer <;> simp

theorem length_spared_le (asked : List (α × Disposition)) :
    (spared asked).length ≤ asked.length := by
  rw [spared, List.length_map]
  exact List.length_filter_le ..

theorem length_spared_eq_iff {asked : List (α × Disposition)} :
    (spared asked).length = asked.length ↔ ∀ q ∈ asked, q.2 = .keep := by
  rw [spared, List.length_map, List.length_filter_eq_length_iff]
  simp only [decide_eq_true_eq]

theorem length_spared_ne_iff {asked : List (α × Disposition)} :
    (spared asked).length ≠ asked.length ↔ ∃ q ∈ asked, q.2 = .discard := by
  rw [Ne, length_spared_eq_iff]
  simp only [not_forall, exists_prop, ← Disposition.ne_keep_iff, ne_eq]

theorem spared_eq_nil_iff {asked : List (α × Disposition)} :
    spared asked = [] ↔ ∀ q ∈ asked, q.2 = .discard := by
  simp [spared, List.filter_eq_nil_iff, ← Disposition.ne_keep_iff]

theorem spared_subset (asked : List (α × Disposition)) : spared asked ⊆ asked.map (·.1) :=
  List.map_subset _ List.filter_sublist.subset

/-! Annotation tables. -/

/-- What is left of an annotation table. -/
inductive TableLeft (a : Attribute) (asked : List ((AnnotationEntry × String) × Disposition)) :
    Option Attribute → Bool → Prop
  | whole (all : ∀ q ∈ asked, q.2 = .keep) : TableLeft a asked (some a) false
  | emptied (some : asked ≠ []) (all : ∀ q ∈ asked, q.2 = .discard) : TableLeft a asked none true
  | thinned {payload : List UInt8} (stays : ∃ q ∈ asked, q.2 = .keep)
    (goes : ∃ q ∈ asked, q.2 = .discard)
    (spelled : readTable payload = .ok ((spared asked).map (·.1))) :
    TableLeft a asked (some { a with payload }) true

/-- An attribute, whose annotations are asked about if it is a table of such. -/
inductive TableEdit (pool : ConstantPool)
    (report : String → AnnotationEntry → Disposition → Answered) (a : Attribute) :
    List Answered → Option Attribute → Bool → Prop
  | plain (unmarked : a.isAnnotations pool = false) : TableEdit pool report a [] (some a) false
  | table {asked : List ((AnnotationEntry × String) × Disposition)} {a? : Option Attribute}
    {changed : Bool} (marked : a.isAnnotations pool = true)
    (spelled : readTable a.payload = .ok (asked.map (·.1.1)))
    (named : ∀ q ∈ asked, q.1.1.descriptor pool = .ok q.1.2)
    (left : TableLeft a asked a? changed) :
    TableEdit pool report a (asked.map fun q => report q.1.2 q.1.1 q.2) a? changed

section

variable {decide : String → AnnotationEntry → StateM σ Disposition}
  (report : String → AnnotationEntry → Disposition → Answered)

theorem retain_asks
    (hreport : ∀ d e s, v.Gives s ((decide d e).run s).2 (report d e ((decide d e).run s).1))
    (table : List AnnotationEntry) :
    Asks v (retain (fun e => do visit (decide (← check (e.descriptor pool)) e)) table)
      fun rs kept => ∃ asked : List ((AnnotationEntry × String) × Disposition),
        asked.map (·.1.1) = table ∧ (∀ q ∈ asked, q.1.1.descriptor pool = .ok q.1.2) ∧
          rs = asked.map (fun q => report q.1.2 q.1.1 q.2) ∧
            kept = (spared asked).map (·.1) := by
  induction table with
  | nil => exact .pure ⟨[], rfl, by simp, rfl, rfl⟩
  | cons e table ih =>
    rw [retain, bind_assoc]
    apply Asks.check
    intro d hd
    apply Asks.visit (report d e) (hreport d e)
    intro answer
    apply ih.bind
    rintro rs kept ⟨asked, rfl, hnamed, rfl, rfl⟩
    apply Asks.pure
    refine ⟨((e, d), answer) :: asked, rfl, ?_, by simp, ?_⟩
    · simpa [hd] using hnamed
    · cases answer with
      | keep => rfl
      | discard => rfl

/-- What is written of a table is the table without what was discarded. -/
theorem tableLeft_of {a : Attribute} {asked : List ((AnnotationEntry × String) × Disposition)}
    (hread : readTable a.payload = .ok (asked.map (·.1.1))) :
    let kept := (spared asked).map (·.1)
    let r := if kept.length = (asked.map (·.1.1)).length then (some a, false)
      else if kept.isEmpty then (none, true)
      else (some { a with payload := tableBytes kept }, true)
    TableLeft a asked r.1 r.2 := by
  simp only [List.length_map, List.isEmpty_map, List.isEmpty_iff]
  by_cases hall : (spared asked).length = asked.length
  · rw [if_pos hall]
    exact .whole (length_spared_eq_iff.1 hall)
  rw [if_neg hall]
  have hgoes := length_spared_ne_iff.1 hall
  by_cases hnone : spared asked = []
  · rw [if_pos hnone]
    obtain ⟨q, hq, -⟩ := hgoes
    exact .emptied (List.ne_nil_of_mem hq) (spared_eq_nil_iff.1 hnone)
  · rw [if_neg hnone]
    have hstays : ∃ q ∈ asked, q.2 = .keep := by
      simpa [spared_eq_nil_iff, ← Disposition.ne_keep_iff] using hnone
    obtain ⟨-, hcount, hentries⟩ := AnnotationEntry.of_readTable hread
    apply TableLeft.thinned hstays hgoes
    apply AnnotationEntry.readTable_tableBytes
    constructor
    · rw [List.length_map] at hcount ⊢
      exact Nat.lt_of_le_of_lt (length_spared_le asked) hcount
    · intro e he
      have hmem := List.map_subset (·.1) (spared_subset asked) he
      rw [List.map_map] at hmem
      exact hentries e hmem

theorem annotationTable_asks
    (hreport : ∀ d e s, v.Gives s ((decide d e).run s).2 (report d e ((decide d e).run s).1))
    {a : Attribute} (ha : a.isAnnotations pool = true) :
    Asks v (annotationTable pool decide a) fun rs r => TableEdit pool report a rs r.1 r.2 := by
  apply Asks.check
  intro table htable
  apply (retain_asks report hreport table).bind
  rintro rs kept ⟨asked, rfl, hnamed, rfl, rfl⟩
  apply Asks.pure
  rw [List.append_nil]
  exact .table ha htable hnamed (tableLeft_of htable)

theorem annotationTables_asks
    (hreport : ∀ d e s, v.Gives s ((decide d e).run s).2 (report d e ((decide d e).run s).1))
    (as : List Attribute) :
    Asks v (annotationTables pool decide as)
      fun rs r => Each (TableEdit pool report) as rs r.1 r.2 := by
  apply Each.of_loop fun a => if a.isAnnotations pool then annotationTable pool decide a
    else pure (some a, false)
  · rfl
  · intro a as
    rw [annotationTables]
    split
    · rfl
    · rw [pure_bind]
  · intro a
    by_cases ha : a.isAnnotations pool = true
    · rw [if_pos ha]
      exact annotationTable_asks report hreport ha
    · rw [if_neg ha]
      exact .pure (.plain (by simpa using ha))

end

theorem TableEdit.eq_of_unchanged {report : String → AnnotationEntry → Disposition → Answered}
    {a : Attribute} {rs : List Answered} {a? : Option Attribute} {changed : Bool}
    (h : TableEdit pool report a rs a? changed) (hchanged : changed = false) : a? = some a := by
  cases h with
  | plain _ => rfl
  | table _ _ _ hleft =>
    cases hleft with
    | whole _ => rfl
    | emptied _ _ => cases hchanged
    | thinned _ _ _ => cases hchanged

/-! Links. -/

/-- What is left of a table of rows. -/
inductive RowsLeft (read : Reader (Row α)) (a : Attribute) (asked : List (Row α × Disposition)) :
    Attribute → Bool → Prop
  | whole (all : ∀ q ∈ asked, q.2 = .keep) : RowsLeft read a asked a false
  | thinned {payload : List UInt8} (goes : ∃ q ∈ asked, q.2 = .discard)
    (spelled : payload = countedBytes Row.raw (spared asked))
    (again : Link.rows read ⟨a.name, payload⟩ = .ok (spared asked)) :
    RowsLeft read a asked { a with payload } true

/-- An attribute, and what is asked about the classes that it names. -/
inductive LinkEdit (pool : ConstantPool) (a : Attribute) :
    List Answered → Option Attribute → Bool → Prop
  | outer {link : OuterLink} (named : pool.utf8 a.name = .ok "EnclosingMethod")
    (read : (readOuterLink pool).front a.payload = .ok link) :
    LinkEdit pool a [.outerClass link] (some a) false
  | inner {asked : List (Row InnerLink × Disposition)} {a' : Attribute} {changed : Bool}
    (named : pool.utf8 a.name = .ok "InnerClasses")
    (read : Link.rows (readInnerRow pool) a = .ok (asked.map (·.1)))
    (left : RowsLeft (readInnerRow pool) a asked a' changed) :
    LinkEdit pool a (asked.map fun q => .innerClass q.1.value q.2) (some a') changed
  | host {row : Row String} {answer : Disposition} (named : pool.utf8 a.name = .ok "NestHost")
    (read : (readReferenceRow pool).front a.payload = .ok row) :
    LinkEdit pool a [.classReference .nestHost row.value answer] (some a) false
  | listed {name : String} {kind : ReferenceKind} {asked : List (Row String × Disposition)}
    {a' : Attribute} {changed : Bool} (named : pool.utf8 a.name = .ok name)
    (lists : (name, kind) ∈
      [("NestMembers", .nestMember), ("PermittedSubclasses", .permittedSubclass)])
    (read : Link.rows (readReferenceRow pool) a = .ok (asked.map (·.1)))
    (left : RowsLeft (readReferenceRow pool) a asked a' changed) :
    LinkEdit pool a (asked.map fun q => .classReference kind q.1.value q.2) (some a') changed
  | plain {name : String} (named : pool.utf8 a.name = .ok name)
    (plain : name ∉ ["EnclosingMethod", "InnerClasses", "NestHost", "NestMembers",
      "PermittedSubclasses"]) : LinkEdit pool a [] (some a) false

theorem retainRead_asks {read : Reader (Row α)} {ask : α → StateM σ Disposition}
    (report : α → Disposition → Answered)
    (hreport : ∀ b s, v.Gives s ((ask b).run s).2 (report b ((ask b).run s).1)) (count : Nat)
    (cursor : Cursor) :
    Asks v (retainRead read (fun row => ask row.value) count cursor)
      fun rs kept => ∃ asked : List (Row α × Disposition),
        (∃ cursor', (Reader.times count read).run cursor = .ok (asked.map (·.1), cursor')) ∧
          asked.length = count ∧ rs = asked.map (fun q => report q.1.value q.2) ∧
            kept = spared asked := by
  induction count generalizing cursor with
  | zero => exact .pure ⟨[], ⟨cursor, rfl⟩, rfl, rfl, rfl⟩
  | succ count ih =>
    apply Asks.check
    intro row hrow
    apply Asks.visit (report row.1.value) (hreport row.1.value)
    intro answer
    apply (ih row.2).bind
    rintro rs kept ⟨asked, ⟨cursor', hrows⟩, rfl, rfl, rfl⟩
    apply Asks.pure
    refine ⟨(row.1, answer) :: asked, ⟨cursor', ?_⟩, rfl, by simp, ?_⟩
    · rw [Reader.times, StateT.run_bind]
      refine bind_ok_iff.2 ⟨row, hrow, ?_⟩
      rw [StateT.run_bind]
      exact bind_ok_iff.2 ⟨_, hrows, rfl⟩
    · cases answer with
      | keep => rfl
      | discard => rfl

theorem rowTable_asks {read : Reader (Row α)} {p : Row α → Prop}
    (hfinds : Reader.Finds read fun row front => front = row.raw ∧ p row)
    (hreads : ∀ row, p row → Reader.Reads read row.raw row) {ask : α → StateM σ Disposition}
    (report : α → Disposition → Answered)
    (hreport : ∀ b s, v.Gives s ((ask b).run s).2 (report b ((ask b).run s).1)) (a : Attribute) :
    Asks v (rowTable read ask a) fun rs r => ∃ asked : List (Row α × Disposition),
      Link.rows read a = .ok (asked.map (·.1)) ∧ rs = asked.map (fun q => report q.1.value q.2) ∧
        RowsLeft read a asked r.1 r.2 := by
  apply Asks.check
  intro head hhead
  apply (retainRead_asks report hreport head.1 head.2).bind
  rintro rs kept ⟨asked, ⟨cursor', hrows⟩, hlength, rfl, rfl⟩
  apply Asks.pure
  have hread : Link.rows read a = .ok (asked.map (·.1)) := by
    unfold Link.rows Reader.front Reader.counted
    rw [StateT.run_bind, bind_assoc]
    exact bind_ok_iff.2 ⟨head, hhead, bind_ok_iff.2 ⟨_, hrows, rfl⟩⟩
  refine ⟨asked, hread, List.append_nil _, ?_⟩
  rw [← hlength]
  by_cases hall : (spared asked).length = asked.length
  · rw [if_pos hall]
    exact .whole (length_spared_eq_iff.1 hall)
  · rw [if_neg hall]
    obtain ⟨-, -, -, -, hcount, hrow⟩ := (Reader.counted_finds hfinds).front hread
    rw [List.length_map] at hcount
    apply RowsLeft.thinned (length_spared_ne_iff.1 hall) rfl
    apply Link.rows_countedBytes
    · intro row hmem
      exact hreads row (hrow row (spared_subset asked hmem))
    · exact Nat.lt_of_le_of_lt (length_spared_le asked) hcount

theorem link_asks (pool : ConstantPool) (a : Attribute) :
    Asks v (link v pool a) fun rs r => LinkEdit pool a rs (some r.1) r.2 := by
  unfold link
  apply Asks.check
  intro name hname
  split
  · next hn =>
    subst hn
    apply Asks.check
    intro outer houter
    apply Asks.visit (fun _ => .outerClass outer) (fun _ => rfl)
    intro _
    exact .pure (.outer hname houter)
  next h₁ =>
  split
  · next hn =>
    subst hn
    apply (rowTable_asks (readInnerRow_finds pool) (fun _ => readInnerRow_reads) .innerClass
      (fun _ _ => rfl) a).mono
    rintro rs r ⟨asked, hread, rfl, hleft⟩
    exact .inner hname hread hleft
  next h₂ =>
  split
  · next hn =>
    subst hn
    apply Asks.check
    intro row hrow
    apply Asks.visit (.classReference .nestHost row.value) (fun _ => rfl)
    intro answer
    exact .pure (.host hname hrow)
  next h₃ =>
  have hlisted (kind : ReferenceKind) (hkind : (name, kind) ∈
      [("NestMembers", .nestMember), ("PermittedSubclasses", .permittedSubclass)]) :
      Asks v (rowTable (readReferenceRow pool) (v.classReference kind) a)
        fun rs r => LinkEdit pool a rs (some r.1) r.2 := by
    apply (rowTable_asks (readReferenceRow_finds pool) (fun _ => readReferenceRow_reads)
      (.classReference kind) (fun _ _ => rfl) a).mono
    rintro rs r ⟨asked, hread, rfl, hleft⟩
    exact .listed hname hkind hread hleft
  split
  · next hn => exact hlisted .nestMember (by simp [hn])
  next h₄ =>
  split
  · next hn => exact hlisted .permittedSubclass (by simp [hn])
  next h₅ =>
  exact .pure (.plain hname (by simp [h₁, h₂, h₃, h₄, h₅]))

theorem links_asks (pool : ConstantPool) (as : List Attribute) :
    Asks v (links v pool as) fun rs r => Each (LinkEdit pool) as rs r.1 r.2 := by
  apply Each.of_loop fun a => do
    let r ← link v pool a
    return (some r.1, r.2)
  · rfl
  · intro a as
    rw [links]
    simp only [bind_assoc, pure_bind]
    rfl
  · intro a
    apply (link_asks pool a).bind
    intro rs r hr
    apply Asks.pure
    rw [List.append_nil]
    exact hr

theorem LinkEdit.eq_of_unchanged {a : Attribute} {rs : List Answered} {a? : Option Attribute}
    {changed : Bool} (h : LinkEdit pool a rs a? changed) (hchanged : changed = false) :
    a? = some a := by
  cases h with
  | outer _ _ => rfl
  | host _ _ => rfl
  | plain _ _ => rfl
  | inner _ _ hleft =>
    cases hleft with
    | whole _ => rfl
    | thinned _ _ _ => cases hchanged
  | listed _ _ _ hleft =>
    cases hleft with
    | whole _ => rfl
    | thinned _ _ _ => cases hchanged

/-! Fields. -/

/-- A field that is kept without the annotations that were discarded, or dropped. -/
inductive FieldEdit (pool : ConstantPool) (entry : MemberEntry) :
    List Answered → Option MemberEntry → Bool → Prop
  | kept {f : Member} {tables : List Answered} {attributes : List Attribute} {stripped : Bool}
    (resolved : entry.resolve pool = .ok f)
    (annotations : Each (TableEdit pool fun d _ => .annotationOnField f d) entry.attributes tables
      attributes stripped) :
    FieldEdit pool entry (.field f :: tables ++ [.fieldEnd f .keep])
      (some { entry with attributes }) stripped
  | dropped {f : Member} {tables : List Answered} {attributes : List Attribute} {stripped : Bool}
    (resolved : entry.resolve pool = .ok f)
    (annotations : Each (TableEdit pool fun d _ => .annotationOnField f d) entry.attributes tables
      attributes stripped) :
    FieldEdit pool entry (.field f :: tables ++ [.fieldEnd f .discard]) none true

theorem field_asks (pool : ConstantPool) (entry : MemberEntry) :
    Asks v (field v pool entry) fun rs r => FieldEdit pool entry rs r.1 r.2 := by
  apply Asks.check
  intro f hf
  apply Asks.visit (fun _ => .field f) (fun _ => rfl)
  intro _
  apply (annotationTables_asks (fun d _ => .annotationOnField f d) (fun _ _ _ => rfl)
    entry.attributes).bind
  intro rs r hr
  apply Asks.visit (.fieldEnd f) (fun _ => rfl)
  intro answer
  cases answer with
  | keep => exact .pure (.kept hf hr)
  | discard => exact .pure (.dropped hf hr)

theorem fields_asks (pool : ConstantPool) (fs : List MemberEntry) :
    Asks v (fields v pool fs) fun rs r => Each (FieldEdit pool) fs rs r.1 r.2 :=
  Each.of_loop (field v pool) rfl (fun _ _ => rfl) (field_asks pool) fs

theorem FieldEdit.eq_of_unchanged {entry : MemberEntry} {rs : List Answered}
    {e? : Option MemberEntry} {changed : Bool} (h : FieldEdit pool entry rs e? changed)
    (hchanged : changed = false) : e? = some entry := by
  cases h with
  | kept _ hannotations =>
    rw [hannotations.eq_of_unchanged hchanged fun _ _ _ _ => TableEdit.eq_of_unchanged]
  | dropped _ _ => cases hchanged

/-! Bodies. -/

/-- What is asked about an instruction, and the bytes answered. -/
inductive InstructionAsked (pool : ConstantPool) (bootstraps : List Bootstrap) (m : Member)
    (i : Instruction) : List Answered → Option (Vector UInt8 3) → Prop
  | access {target : MemberRef} {answer : Option (Vector UInt8 3)}
    (opcode : Opcode.isFieldAccess i.opcode = true)
    (resolved : i.operand16 >>= pool.memberRef = .ok target) :
    InstructionAsked pool bootstraps m i [.access m i.opcode target answer] answer
  | invoke {target : MemberRef} (opcode : Opcode.isInvoke i.opcode = true)
    (resolved : i.operand16 >>= pool.memberRef = .ok target) :
    InstructionAsked pool bootstraps m i [.invoke m i.opcode target] none
  | bind {hs : List HandleRef} (opcode : i.opcode = Opcode.invokedynamic)
    (resolved : callSite pool bootstraps i = .ok hs) :
    InstructionAsked pool bootstraps m i [.invokeDynamic m hs] none
  | plain (access : Opcode.isFieldAccess i.opcode = false)
    (invoke : Opcode.isInvoke i.opcode = false) (dynamic : i.opcode ≠ Opcode.invokedynamic) :
    InstructionAsked pool bootstraps m i [] none

/-- What is asked about instructions in turn. -/
inductive CodeAsked (pool : ConstantPool) (bootstraps : List Bootstrap) (m : Member) :
    List (Instruction × Option (Vector UInt8 3)) → List Answered → Prop
  | nil : CodeAsked pool bootstraps m [] []
  | cons {p : Instruction × Option (Vector UInt8 3)}
    {ps : List (Instruction × Option (Vector UInt8 3))} {rs rs' : List Answered}
    (first : InstructionAsked pool bootstraps m p.1 rs p.2)
    (rest : CodeAsked pool bootstraps m ps rs') :
    CodeAsked pool bootstraps m (p :: ps) (rs ++ rs')

/-- The bytes that were answered for an instruction, or its own. -/
def answeredBytes (p : Instruction × Option (Vector UInt8 3)) : List UInt8 :=
  p.2.elim p.1.bytes Vector.toList

/-- A body in which three bytes change wherever bytes were answered. -/
inductive BodyEdit (pool : ConstantPool) (bootstraps : List Bootstrap) (m : Member)
    (payload : List UInt8) : List Answered → List UInt8 → Bool → Prop
  | skipped : BodyEdit pool bootstraps m payload [.code m false] payload false
  | walked {header rest : List UInt8} {ps : List (Instruction × Option (Vector UInt8 3))}
    {rs : List Answered} (scanned : Body.instructions payload = .ok (ps.map (·.1)))
    (front : header.length = Body.codeStart)
    (spelled : payload = header ++ (ps.map (·.1)).flatMap Instruction.bytes ++ rest)
    (asked : CodeAsked pool bootstraps m ps rs)
    (windows : ∀ p ∈ ps, p.2.isSome → p.1.bytes.length = 3) :
    BodyEdit pool bootstraps m payload (.code m true :: rs)
      (header ++ ps.flatMap answeredBytes ++ rest) (ps.any fun p => p.2.isSome)

theorem flatMap_overwritten_bytes (ps : List (Instruction × Option (Vector UInt8 3))) :
    (ps.flatMap overwritten).flatMap Instruction.bytes = ps.flatMap answeredBytes := by
  induction ps with
  | nil => rfl
  | cons p ps ih =>
    obtain ⟨i, answer⟩ := p
    rw [List.flatMap_cons, List.flatMap_append, ih, List.flatMap_cons]
    cases answer with
    | none => simp [overwritten, answeredBytes]
    | some bytes =>
      rw [show overwritten (i, some bytes) = spread i.offset bytes from rfl,
        Instruction.bytes_spread]
      rfl

theorem CodeAsked.access {bootstraps : List Bootstrap} {m : Member}
    {ps : List (Instruction × Option (Vector UInt8 3))} {rs : List Answered}
    (h : CodeAsked pool bootstraps m ps rs) {p : Instruction × Option (Vector UInt8 3)}
    (hp : p ∈ ps) (hsome : p.2.isSome) : Opcode.isFieldAccess p.1.opcode = true := by
  induction h with
  | nil => cases hp
  | @cons q qs _ _ hfirst _ ih =>
    obtain rfl | hp := List.mem_cons.1 hp
    · obtain ⟨i, answer⟩ := p
      cases hfirst with
      | access hopcode _ => exact hopcode
      | invoke _ _ => cases hsome
      | bind _ _ => cases hsome
      | plain _ _ _ => cases hsome
    · exact ih hp

section

variable {bootstraps : List Bootstrap} {m : Member}

theorem instruction_asks (i : Instruction) :
    Asks v (instruction v pool bootstraps m i) fun rs patch =>
      ∃ answer, InstructionAsked pool bootstraps m i rs answer ∧
        patch = answer.map (⟨i.offset, ·⟩) := by
  unfold instruction
  split
  · next hopcode =>
    apply Asks.check
    intro target htarget
    apply Asks.visit (.access m i.opcode target) (fun _ => rfl)
    intro answer
    exact .pure ⟨answer, .access hopcode htarget, rfl⟩
  next haccess =>
  split
  · next hopcode =>
    apply Asks.check
    intro target htarget
    apply Asks.visit (fun _ => .invoke m i.opcode target) (fun _ => rfl)
    intro _
    exact .pure ⟨none, .invoke hopcode htarget, rfl⟩
  next hinvoke =>
  split
  · next hopcode =>
    apply Asks.check
    intro hs hhs
    apply Asks.visit (fun _ => .invokeDynamic m hs) (fun _ => rfl)
    intro _
    exact .pure ⟨none, .bind hopcode hhs, rfl⟩
  next hdynamic =>
  exact .pure ⟨none, .plain (by simpa using haccess) (by simpa using hinvoke) hdynamic, rfl⟩

theorem instructions_asks (is : List Instruction) :
    Asks v (instructions v pool bootstraps m is) fun rs patches =>
      ∃ ps : List (Instruction × Option (Vector UInt8 3)), ps.map (·.1) = is ∧
        CodeAsked pool bootstraps m ps rs ∧
          patches = ps.filterMap fun p => p.2.map (⟨p.1.offset, ·⟩) := by
  induction is with
  | nil => exact .pure ⟨[], rfl, .nil, rfl⟩
  | cons i is ih =>
    apply (instruction_asks i).bind
    rintro rs patch ⟨answer, hfirst, rfl⟩
    apply ih.bind
    rintro rs' patches ⟨ps, rfl, hrest, rfl⟩
    apply Asks.pure
    refine ⟨(i, answer) :: ps, rfl, ?_, ?_⟩
    · rw [List.append_nil]
      exact .cons (p := (i, answer)) hfirst hrest
    · cases answer <;> rfl

theorem body_asks (payload : List UInt8) :
    Asks v (body v pool bootstraps m payload) fun rs patches =>
      BodyEdit pool bootstraps m payload rs (applyPatches payload patches) !patches.isEmpty := by
  apply Asks.visit (.code m) (fun _ => rfl)
  intro wanted
  cases wanted with
  | false => exact .pure .skipped
  | true =>
    apply Asks.check
    intro is his
    apply (instructions_asks is).mono
    rintro rs patches ⟨ps, rfl, hasked, rfl⟩
    -- Bytes are answered for accesses to fields only, and these take three bytes.
    have hwindows : ∀ p ∈ ps, ∀ bytes, p.2 = some bytes → p.1.operands.length = 2 := by
      intro p hp bytes hbytes
      have haccess := hasked.access hp (by rw [hbytes]; rfl)
      exact Body.operands_of_isFieldAccess his (List.mem_map_of_mem hp) haccess
    obtain ⟨header, rest, hheader, hpayload, hpatched⟩ := Body.applyPatches_bytes his hwindows
    have hany : (!(ps.filterMap fun p => p.2.map (Patch.mk p.1.offset)).isEmpty) =
        ps.any fun p => p.2.isSome := by
      rw [Bool.eq_iff_iff]
      simp [List.filterMap_eq_nil_iff, Option.isSome_iff_ne_none]
    rw [hpatched, flatMap_overwritten_bytes, hany]
    apply BodyEdit.walked his hheader hpayload hasked
    intro p hp hsome
    obtain ⟨bytes, hbytes⟩ := Option.isSome_iff_exists.1 hsome
    rw [Instruction.bytes, List.length_cons, hwindows p hp bytes hbytes]

theorem BodyEdit.eq_of_unchanged {payload payload' : List UInt8} {rs : List Answered}
    {changed : Bool} (h : BodyEdit pool bootstraps m payload rs payload' changed)
    (hchanged : changed = false) : payload' = payload := by
  cases h with
  | skipped => rfl
  | @walked header rest ps rs hscanned hfront hspelled hasked hwindows =>
    have hnone : ps.flatMap answeredBytes = (ps.map (·.1)).flatMap Instruction.bytes := by
      rw [List.flatMap_map]
      refine List.flatMap_congr fun p hp => ?_
      have := List.any_eq_false.1 hchanged p hp
      rw [answeredBytes, Option.not_isSome_iff_eq_none.1 this]
      rfl
    rw [hnone, ← hspelled]

end

end JarPruning.Walk
