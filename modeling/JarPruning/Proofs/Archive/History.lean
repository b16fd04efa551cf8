import JarPruning.Archive.Pruned
import JarPruning.Proofs.Pass.Passes
import JarPruning.Proofs.Pass.Recorded

/-!
What remains of an archive, told by the passes over its classes. A class that some pass finds unwanted
is gone, and every other holds what the last pass wrote that wrote anything.
-/
namespace JarPruning

/-! The passes that are made. -/

/-- The bytes that passes write, in their order. -/
def PassOutcome.written : List PassOutcome → List (List UInt8) :=
  List.filterMap fun
    | .modified bytes => some bytes
    | .unwanted | .unchanged => none

namespace Pass

/-- The outcomes of the passes that a run over a class makes. -/
def made (policy : Policy) (entry : String) :
    (budget : Nat) → List UInt8 → Session → List PassOutcome
  | 0, _, _ => []
  | budget + 1, bytes, s =>
    match (run policy entry bytes).run s with
    | .ok (.modified bytes) s => .modified bytes :: made policy entry budget bytes s
    | .ok out _ => [out]
    | .error _ _ => []

end Pass

namespace Sweep

/-- The passes that a sweep makes over an entry. -/
def visitMade (settings : Settings) (s : Slot) (w : World) : List PassOutcome :=
  if s.isLive then
    Pass.made settings.policy s.entry.name settings.maxPasses s.entry.contents
      { toWorld := w, memory := s.memory }
  else []

/-- The passes that a sweep makes, entry by entry. -/
def onceMade (settings : Settings) : List Slot → World → List (List PassOutcome)
  | [], _ => []
  | s :: rest, w =>
    visitMade settings s w ::
      match (visit settings s).run w with
      | .ok _ w => onceMade settings rest w
      | .error _ _ => []

/-- The passes that a run of sweeps makes, entry by entry. -/
def settleMade (settings : Settings) : (budget : Nat) → List Slot → World → List (List PassOutcome)
  | 0, slots, _ => slots.map fun _ => []
  | budget + 1, slots, w =>
    match (once settings slots).run w with
    | .ok (slots', true) w' =>
      List.zipWith (· ++ ·) (onceMade settings slots w) (settleMade settings budget slots' w')
    | _ => onceMade settings slots w

end Sweep

/-- The passes that are made over an archive, entry by entry. -/
def Archive.made (settings : Settings) (a : Archive) (w : World) : List (List PassOutcome) :=
  Sweep.settleMade settings settings.maxPasses (a.entries.map fun entry => { entry }) w

/-! What becomes of entries. -/

/-- What is written for an entry that went through these passes. Where times are not preserved, names
and contents alone count, and nothing is held by directories. -/
structure Entry.Becomes (preserve : Bool) (e : Entry) (made : List PassOutcome) (e' : Entry) :
    Prop where
  name : e'.name = e.name
  aside : e.isClass = false → made = []
  contents : e'.contents = if preserve = false ∧ e.isDirectory = true then []
    else (PassOutcome.written made).getLast?.getD e.contents
  frame : preserve = true → e' = { e with contents := e'.contents }

/-- What remains of entries that went through these passes. -/
inductive Remains (preserve : Bool) : List Entry → List (List PassOutcome) → List Entry → Prop
  | nil : Remains preserve [] [] []
  | gone {e : Entry} {es es' : List Entry} {made : List PassOutcome}
    {mades : List (List PassOutcome)} (class_ : e.isClass = true) (unwanted : .unwanted ∈ made)
    (rest : Remains preserve es mades es') : Remains preserve (e :: es) (made :: mades) es'
  | kept {e e' : Entry} {es es' : List Entry} {made : List PassOutcome}
    {mades : List (List PassOutcome)} (wanted : .unwanted ∉ made)
    (becomes : e.Becomes preserve made e') (rest : Remains preserve es mades es') :
    Remains preserve (e :: es) (made :: mades) (e' :: es')

/-- What a slot says of its entry and of the passes over it. -/
structure Slot.Accounts (e : Entry) (made : List PassOutcome) (s : Slot) : Prop where
  entry : s.entry = { e with contents := s.entry.contents }
  aside : e.isClass = false → made = []
  deleted : s.deleted = true ↔ .unwanted ∈ made
  contents : s.deleted = false →
    s.entry.contents = (PassOutcome.written made).getLast?.getD e.contents
  rewritten : s.deleted = false → (s.rewritten = true ↔ PassOutcome.written made ≠ [])

/-- What slots say, in their order. -/
inductive Sweep.Account : List Entry → List (List PassOutcome) → List Slot → Prop
  | nil : Account [] [] []
  | cons {e : Entry} {es : List Entry} {made : List PassOutcome} {mades : List (List PassOutcome)}
    {s : Slot} {slots : List Slot} (first : s.Accounts e made) (rest : Account es mades slots) :
    Account (e :: es) (made :: mades) (s :: slots)

namespace PassOutcome

theorem written_append (made made' : List PassOutcome) :
    written (made ++ made') = written made ++ written made' :=
  List.filterMap_append

theorem written_cons_modified (bytes : List UInt8) (made : List PassOutcome) :
    written (.modified bytes :: made) = bytes :: written made := rfl

/-- The last bytes written are the last of all. -/
theorem getLast?_written_append (made made' : List PassOutcome) (bytes : List UInt8) :
    (written (made ++ made')).getLast?.getD bytes =
      (written made').getLast?.getD ((written made).getLast?.getD bytes) := by
  rw [written_append, List.getLast?_append]
  cases (written made').getLast? <;> rfl

end PassOutcome

namespace Pass

variable {policy : Policy} {entry : String}

/-- A run over a class ends with what its passes wrote last, and tells how many there were. -/
theorem settle_made {budget done : Nat} {bytes : List UInt8} {s s' : Session} {r? : Option Settled}
    (h : (settle policy entry budget done bytes).run s = .ok r? s') :
    (r? = none ↔ .unwanted ∈ made policy entry budget bytes s) ∧ ∀ r, r? = some r →
      r.bytes = (PassOutcome.written (made policy entry budget bytes s)).getLast?.getD bytes ∧
      r.passes = done + (PassOutcome.written (made policy entry budget bytes s)).length +
        if r.stable then 1 else 0 := by
  induction budget generalizing done bytes s with
  | zero =>
    cases h
    simp [made, PassOutcome.written]
  | succ budget ih =>
    obtain ⟨out, s₁, hrun, h⟩ := run_bind_ok h
    cases out with
    | unwanted =>
      cases h
      simp [made, hrun]
    | unchanged =>
      cases h
      simp [made, hrun, PassOutcome.written]
    | modified bytes' =>
      obtain ⟨hnone, hsome⟩ := ih h
      rw [made, hrun]
      refine ⟨by simpa using hnone, fun r hr => ?_⟩
      obtain ⟨hbytes, hpasses⟩ := hsome r hr
      rw [PassOutcome.written_cons_modified, List.getLast?_cons, List.length_cons]
      exact ⟨hbytes, by omega⟩

/-- What a run over a class comes to, told by its passes. -/
inductive Comes (made : List PassOutcome) : ClassOutcome → Prop
  | unwanted (gone : .unwanted ∈ made) : Comes made .unwanted
  | rewritten {bytes : List UInt8} {passes : Nat} (wanted : .unwanted ∉ made)
    (last : (PassOutcome.written made).getLast? = some bytes) : Comes made (.rewritten bytes passes)
  | unchanged (wanted : .unwanted ∉ made) (nothing : PassOutcome.written made = []) :
    Comes made .unchanged

theorem runAll_ok {maxPasses : Nat} {bytes : List UInt8} {s s' : Session} {out : ClassOutcome}
    (h : (runAll policy maxPasses entry bytes).run s = .ok out s') :
    ∃ r? s₁, (settle policy entry maxPasses 0 bytes).run s = .ok r? s₁ ∧ out = Prune.outcome r? := by
  obtain ⟨r?, s₁, hsettle, h⟩ := run_bind_ok h
  refine ⟨r?, s₁, hsettle, ?_⟩
  cases r? with
  | none =>
    cases h
    rfl
  | some r =>
    have hend {s : Session} (h : (if r.isRewritten then do
          logEvent (.classRewritten entry r.passes)
          return .rewritten r.bytes r.passes
        else return .unchanged : EStateM ClassFailure Session ClassOutcome).run s = .ok out s') :
        out = Prune.outcome (some r) := by
      unfold Prune.outcome
      split at h
      · next hr =>
        cases h
        exact (if_pos hr).symm
      · next hr =>
        cases h
        exact (if_neg hr).symm
    dsimp only at h
    split at h
    · exact hend h
    · obtain ⟨-, s₂, -, h⟩ := run_bind_ok h
      exact hend h

theorem runAll_made {maxPasses : Nat} {bytes : List UInt8} {s s' : Session} {out : ClassOutcome}
    (h : (runAll policy maxPasses entry bytes).run s = .ok out s') :
    Comes (made policy entry maxPasses bytes s) out := by
  obtain ⟨r?, s₁, hsettle, rfl⟩ := runAll_ok h
  obtain ⟨hnone, hsome⟩ := settle_made hsettle
  cases r? with
  | none => exact .unwanted (hnone.1 rfl)
  | some r =>
    obtain ⟨hbytes, hpasses⟩ := hsome r rfl
    have hwanted : .unwanted ∉ made policy entry maxPasses bytes s := fun hgone => by
      cases hnone.2 hgone
    rw [show Prune.outcome (some r) =
      if r.isRewritten then .rewritten r.bytes r.passes else .unchanged from rfl]
    split
    · next hrewritten =>
      unfold Settled.isRewritten at hrewritten
      rw [decide_eq_true_eq, hpasses] at hrewritten
      have hne : PassOutcome.written (made policy entry maxPasses bytes s) ≠ [] :=
        List.ne_nil_of_length_pos (by omega)
      refine .rewritten hwanted ?_
      rw [hbytes, List.getLast?_eq_some_getLast hne]
      rfl
    · next hquiet =>
      unfold Settled.isRewritten at hquiet
      rw [decide_eq_true_eq, hpasses] at hquiet
      exact .unchanged hwanted (List.length_eq_zero_iff.1 (by omega))

end Pass

/-- A slot goes on accounting for the passes over its entry. -/
theorem Slot.Accounts.settle {e : Entry} {made made' : List PassOutcome} {s : Slot}
    {out : ClassOutcome} (h : s.Accounts e made) (hclass : e.isClass = true)
    (hdeleted : s.deleted = false) (hout : Pass.Comes made' out) (memory : Memory) :
    (s.settle memory out).1.Accounts e (made ++ made') := by
  have hbefore : .unwanted ∉ made := fun hgone => by
    rw [h.deleted.2 hgone] at hdeleted
    cases hdeleted
  have haside : e.isClass = false → made ++ made' = [] := fun hnone => by
    rw [hclass] at hnone
    cases hnone
  cases hout with
  | unwanted hgone =>
    exact ⟨h.entry, haside, iff_of_true rfl (List.mem_append_right _ hgone), fun h => (nomatch h),
      fun h => (nomatch h)⟩
  | @rewritten bytes _ hwanted hlast =>
    have hwritten : PassOutcome.written made' ≠ [] := fun hnil => by
      rw [hnil] at hlast
      cases hlast
    refine ⟨?_, haside, ?_, fun _ => ?_, fun _ => iff_of_true rfl ?_⟩
    · show { s.entry with contents := bytes } = { e with contents := bytes }
      rw [h.entry]
    · exact iff_of_false (by simp [Slot.settle, hdeleted]) (by simp [hbefore, hwanted])
    · rw [PassOutcome.getLast?_written_append, hlast]
      rfl
    · rw [PassOutcome.written_append]
      exact List.append_ne_nil_of_right_ne_nil _ hwritten
  | unchanged hwanted hnothing =>
    refine ⟨h.entry, haside, ?_, fun _ => ?_, fun _ => ?_⟩
    · exact iff_of_false (by simp [Slot.settle, hdeleted]) (by simp [hbefore, hwanted])
    · rw [PassOutcome.getLast?_written_append, hnothing]
      exact h.contents hdeleted
    · rw [PassOutcome.written_append, hnothing, List.append_nil]
      exact h.rewritten hdeleted

theorem Slot.Accounts.becomes {e : Entry} {made : List PassOutcome} {s : Slot}
    (h : s.Accounts e made) (hdeleted : s.deleted = false) (preserve : Bool) :
    e.Becomes preserve made
      (if preserve then s.entry else .plain s.entry.name s.entry.contents) := by
  have hname : s.entry.name = e.name := by rw [h.entry]
  cases preserve with
  | true => exact ⟨hname, h.aside, h.contents hdeleted, fun _ => h.entry⟩
  | false =>
    rw [if_neg Bool.false_ne_true, Entry.plain, hname]
    split
    · next hdirectory =>
      exact ⟨rfl, h.aside, (if_pos ⟨rfl, hdirectory⟩).symm, fun h => (nomatch h)⟩
    · next hfile =>
      refine ⟨rfl, h.aside, ?_, fun h => (nomatch h)⟩
      rw [if_neg fun hboth => hfile hboth.2]
      exact h.contents hdeleted

namespace Sweep

variable {settings : Settings}

theorem accounts_of_visit {e : Entry} {made : List PassOutcome} {s s' : Slot} {changed : Bool}
    {w w' : World} (ho : s.Accounts e made)
    (h : (visit settings s).run w = .ok (s', changed) w') :
    s'.Accounts e (made ++ visitMade settings s w) := by
  unfold visit visitMade at *
  cases hlive : s.isLive with
  | false =>
    simp only [EStateM.run, hlive, Bool.false_eq_true, if_false, EStateM.Result.ok.injEq,
      Prod.mk.injEq] at h ⊢
    obtain ⟨⟨rfl, -⟩, -⟩ := h
    rwa [List.append_nil]
  | true =>
    obtain ⟨hclass, hdeleted⟩ := Bool.and_eq_true_iff.1 hlive
    have hclass : e.isClass = true := by
      rw [ho.entry] at hclass
      exact hclass
    rw [Bool.not_eq_true'] at hdeleted
    simp only [EStateM.run, hlive, if_true] at h ⊢
    split at h
    · next out session hrun =>
      simp only [EStateM.Result.ok.injEq] at h
      rw [show s' = (s.settle session.memory out).1 from (congrArg Prod.fst h.1).symm]
      exact ho.settle hclass hdeleted (Pass.runAll_made hrun) session.memory
    · cases h

/-- A sweep visits entry by entry. -/
theorem account_of_once {es : List Entry} {mades : List (List PassOutcome)} {slots slots' : List Slot}
    {changed : Bool} {w w' : World} (ho : Account es mades slots)
    (h : (once settings slots).run w = .ok (slots', changed) w') :
    Account es (List.zipWith (· ++ ·) mades (onceMade settings slots w)) slots' := by
  induction ho generalizing slots' changed w with
  | nil =>
    cases h
    exact .nil
  | cons hfirst _ ih =>
    obtain ⟨⟨s', c⟩, w₁, hvisit, h⟩ := run_bind_ok h
    obtain ⟨⟨slots₁, c'⟩, w₂, hrest, h⟩ := run_bind_ok h
    cases h
    rw [onceMade, hvisit]
    exact .cons (accounts_of_visit hfirst hvisit) (ih hrest)

theorem length_onceMade_le (slots : List Slot) (w : World) :
    (onceMade settings slots w).length ≤ slots.length := by
  induction slots generalizing w with
  | nil => exact Nat.le_refl _
  | cons s slots ih =>
    rw [onceMade, List.length_cons, List.length_cons]
    split
    · exact Nat.succ_le_succ (ih _)
    · exact Nat.succ_le_succ (Nat.zero_le _)

theorem length_settleMade_le (budget : Nat) (slots : List Slot) (w : World) :
    (settleMade settings budget slots w).length ≤ slots.length := by
  cases budget with
  | zero => rw [settleMade, List.length_map]
  | succ budget =>
    have hle : (onceMade settings slots w).length ≤ slots.length := length_onceMade_le slots w
    rw [settleMade]
    split
    · rw [List.length_zipWith]
      exact Nat.le_trans (Nat.min_le_left ..) hle
    · exact hle

theorem zipWith_append_assoc {α : Type} (ls ms ns : List (List α)) :
    List.zipWith (· ++ ·) (List.zipWith (· ++ ·) ls ms) ns =
      List.zipWith (· ++ ·) ls (List.zipWith (· ++ ·) ms ns) := by
  induction ls generalizing ms ns with
  | nil => rfl
  | cons l ls ih =>
    cases ms with
    | nil => rfl
    | cons m ms =>
      cases ns with
      | nil => rfl
      | cons n ns => simp [ih]

theorem zipWith_nils {α β : Type} (as : List β) {ls : List (List α)} (h : ls.length ≤ as.length) :
    List.zipWith (· ++ ·) (as.map fun _ => []) ls = ls := by
  induction as generalizing ls with
  | nil => rw [List.length_eq_zero_iff.1 (Nat.le_zero.1 h), List.zipWith_nil_right]
  | cons a as ih =>
    cases ls with
    | nil => rfl
    | cons l ls =>
      rw [List.map_cons, List.zipWith_cons_cons, List.nil_append, ih (Nat.le_of_succ_le_succ h)]

theorem Account.idle {es : List Entry} {mades : List (List PassOutcome)} {slots : List Slot}
    (h : Account es mades slots) :
    List.zipWith (· ++ ·) mades (slots.map fun _ => []) = mades := by
  induction h with
  | nil => rfl
  | cons _ _ ih => rw [List.map_cons, List.zipWith_cons_cons, List.append_nil, ih]

/-- Sweeps follow each other, and with them the passes over each entry. -/
theorem account_of_settle {es : List Entry} {mades : List (List PassOutcome)} {slots : List Slot}
    {budget done : Nat} {r : Settled} {w w' : World} (ho : Account es mades slots)
    (h : (settle settings budget done slots).run w = .ok r w') :
    Account es (List.zipWith (· ++ ·) mades (settleMade settings budget slots w)) r.slots := by
  induction budget generalizing mades done slots w with
  | zero =>
    cases h
    rw [settleMade, ho.idle]
    exact ho
  | succ budget ih =>
    obtain ⟨⟨slots', changed⟩, w₁, honce, h⟩ := run_bind_ok h
    have hafter := account_of_once ho honce
    rw [settleMade, honce]
    cases changed with
    | true =>
      rw [← zipWith_append_assoc]
      exact ih hafter h
    | false =>
      cases h
      exact hafter

theorem account_begin (es : List Entry) :
    Account es (es.map fun _ => []) (es.map fun entry => { entry }) := by
  induction es with
  | nil => exact .nil
  | cons e es ih =>
    exact .cons ⟨rfl, fun _ => rfl, by simp, fun _ => rfl, by simp [PassOutcome.written]⟩ ih

theorem run_ok {slots : List Slot} {r : Settled} {w w' : World}
    (h : (run settings slots).run w = .ok r w') :
    ∃ w₁, (settle settings settings.maxPasses 0 slots).run w = .ok r w₁ := by
  obtain ⟨r', w₁, hsettle, h⟩ := run_bind_ok h
  dsimp only at h
  split at h
  · cases h
    exact ⟨_, hsettle⟩
  · obtain ⟨-, w₂, -, h⟩ := run_bind_ok h
    cases h
    exact ⟨_, hsettle⟩

theorem account_of_run {es : List Entry} {r : Settled} {w w' : World}
    (h : (run settings (es.map fun entry => { entry })).run w = .ok r w') :
    Account es (settleMade settings settings.maxPasses (es.map fun entry => { entry }) w)
      r.slots := by
  obtain ⟨w₁, hsettle⟩ := run_ok h
  have hend := account_of_settle (account_begin es) hsettle
  have hlength : (settleMade settings settings.maxPasses (es.map fun entry => { entry }) w).length ≤
      (es.map fun entry : Entry => ({ entry } : Slot)).length :=
    length_settleMade_le settings.maxPasses _ w
  rw [List.length_map] at hlength
  rwa [zipWith_nils es hlength] at hend

end Sweep

namespace Sweep.Account

variable {es : List Entry} {mades : List (List PassOutcome)} {slots : List Slot}

/-- What remains is what the slots hold that are not deleted. -/
theorem remains (h : Account es mades slots) (preserve : Bool) : Remains preserve es mades
    ((slots.filter fun s => !s.deleted).map fun s =>
      if preserve then s.entry else .plain s.entry.name s.entry.contents) := by
  induction h with
  | nil => exact .nil
  | @cons e es made mades s slots hfirst _ ih =>
    cases hdeleted : s.deleted with
    | true =>
      rw [List.filter_cons_of_neg (by simp [hdeleted])]
      have hgone := hfirst.deleted.1 hdeleted
      refine .gone ?_ hgone ih
      by_contra hclass
      rw [hfirst.aside (by simpa using hclass)] at hgone
      cases hgone
    | false =>
      rw [List.filter_cons_of_pos (by simp [hdeleted]), List.map_cons]
      refine .kept (fun hgone => ?_) ?_ ih
      · rw [hfirst.deleted.2 hgone] at hdeleted
        cases hdeleted
      · exact hfirst.becomes hdeleted preserve

theorem length (h : Account es mades slots) : slots.length = es.length := by
  induction h with
  | nil => rfl
  | cons _ _ ih => rw [List.length_cons, List.length_cons, ih]

/-- Slots are deleted and rewritten as the passes say. -/
theorem countP_eq (h : Account es mades slots) {test : List PassOutcome → Bool} {mark : Slot → Bool}
    (heq : ∀ e made s, Slot.Accounts e made s → mark s = test made) :
    slots.countP mark = mades.countP test := by
  induction h with
  | nil => rfl
  | cons hfirst _ ih => rw [List.countP_cons, List.countP_cons, ih, heq _ _ _ hfirst]

end Sweep.Account

namespace Archive

/-- An archive is filtered to what its passes leave of it, and the report counts just that. -/
theorem remains_of_prune {settings : Settings} {a : Archive} {w w' : World} {p : Pruned}
    (h : (a.prune settings).run w = .ok p w') :
    Remains settings.preserveTimestamps a.entries (a.made settings w)
      (p.archive settings.preserveTimestamps).entries ∧
    p.report.entries + p.report.classesDeleted = a.entries.length ∧
    p.report.entries = (p.archive settings.preserveTimestamps).entries.length ∧
    p.report.classesDeleted = (a.made settings w).countP (fun made => .unwanted ∈ made) ∧
    p.report.classesRewritten = (a.made settings w).countP fun made =>
      .unwanted ∉ made ∧ PassOutcome.written made ≠ [] := by
  obtain ⟨r, w₁, hrun, h⟩ := run_bind_ok h
  cases h
  have haccount := Sweep.account_of_run hrun
  refine ⟨haccount.remains settings.preserveTimestamps, ?_, ?_, ?_, ?_⟩
  · show (r.slots.filter fun s => !s.deleted).length + r.slots.countP (·.deleted) = _
    rw [← haccount.length, ← List.countP_eq_length_filter, Nat.add_comm]
    simpa using (List.length_eq_countP_add_countP fun s : Slot => s.deleted).symm
  · exact (List.length_map ..).symm
  · refine haccount.countP_eq fun e made s hs => ?_
    rw [Bool.eq_iff_iff, decide_eq_true_eq]
    exact hs.deleted
  · show (r.slots.filter fun s => !s.deleted).countP (·.rewritten) = _
    rw [List.countP_filter]
    refine haccount.countP_eq fun e made s hs => ?_
    rw [Bool.eq_iff_iff, decide_eq_true_eq, ← hs.deleted]
    cases hdeleted : s.deleted with
    | true => simp
    | false => simpa using hs.rewritten hdeleted

/-- A class that is unwanted as a whole. -/
def unwantedClass : ClassFile :=
  { Pass.readerClass with
    pool := ⟨Pass.readerClass.pool.entries.set! 1 (.ofText "B")⟩
    attributes := [⟨5, AnnotationEntry.tableBytes [⟨6, []⟩]⟩] }

def deleting : Settings := ⟨Pass.marking, 3, false⟩

def mixed : Archive where
  entries := [.plain "B.class" unwantedClass.bytes, .plain "A.class" Pass.readerClass.bytes,
    .plain "a.txt" [0x61]]

/-- What a run reports and writes. -/
def endOf? : EStateM.Result ClassFailure World Pruned → Option (Report × List Entry)
  | .ok p _ => some (p.report, (p.archive false).entries)
  | .error _ _ => none

theorem remains_of_prune_mixed : ∃ p w', (mixed.prune deleting).run {} = .ok p w' ∧
    p.report = ⟨2, 1, 1, 2⟩ ∧
    Remains false mixed.entries (mixed.made deleting {}) (p.archive false).entries ∧
    p.report.classesDeleted =
      (mixed.made deleting {}).countP fun made => .unwanted ∈ made := by
  have hends : ((endOf? ((mixed.prune deleting).run {})).map Prod.fst) =
      some ⟨2, 1, 1, 2⟩ := by
    decide +kernel
  cases hrun : (mixed.prune deleting).run {} with
  | error e w' =>
    rw [hrun] at hends
    cases hends
  | ok p w' =>
    rw [hrun] at hends
    obtain ⟨hremains, -, -, hdeleted, -⟩ := remains_of_prune hrun
    exact ⟨p, w', rfl, Option.some.inj hends, hremains, hdeleted⟩

/-- A directory whose name ends as those of another system do, and which holds bytes. -/
def directory : Archive where
  entries := [⟨"lib\\", [0x70], .stored, .first, 0o755⟩]

/-- Where times are not preserved, what a directory holds is lost. -/
theorem empties_directory : ∃ p w', (directory.prune deleting).run {} = .ok p w' ∧
    ∃ e e', directory.entries = [e] ∧ (p.archive false).entries = [e'] ∧
      e.isDirectory = true ∧ e'.name = e.name ∧ e'.contents ≠ e.contents := by
  have hends : endOf? ((directory.prune deleting).run {}) =
      some (⟨1, 0, 0, 1⟩, [⟨"lib\\", [], .stored, .first, 0o755⟩]) := by
    decide +kernel
  cases hrun : (directory.prune deleting).run {} with
  | error e w' =>
    rw [hrun] at hends
    cases hends
  | ok p w' =>
    rw [hrun] at hends
    exact ⟨p, w', rfl, _, _, rfl, congrArg Prod.snd (Option.some.inj hends), by decide +kernel,
      rfl, (List.cons_ne_nil _ _).symm⟩

end Archive

end JarPruning
