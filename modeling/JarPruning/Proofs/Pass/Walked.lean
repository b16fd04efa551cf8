import JarPruning.Proofs.Follows
import JarPruning.Proofs.Pass.Prune

/-!
The walk with the pruning visitor follows the pass as a function: same errors, same outcome, same
tracker and memory. Only what is logged is left out.
-/
namespace JarPruning

open Walk (Step Outcome KeptMethod Patch)

/-! Annotation tables, for a visitor whose answer depends on the descriptor alone. -/

section Tables

variable {σ : Type} {decide : String → AnnotationEntry → StateM σ Disposition}
  {drop : String → Bool}

/-- The state after asking about annotations in turn. -/
def askedAbout (decide : String → AnnotationEntry → StateM σ Disposition) (s : σ)
    (named : List (AnnotationEntry × String)) : σ :=
  named.foldl (fun s e => ((decide e.2 e.1).run s).2) s

theorem retain_follows (pool : ConstantPool)
    (hdrop : ∀ d e s, ((decide d e).run s).1 = if drop d then .discard else .keep)
    (table : List AnnotationEntry) (s : σ) :
    Follows
      (Walk.retain (fun e => do Walk.visit (decide (← Walk.check (e.descriptor pool)) e)) table) s
      (table.mapM fun e => do return (e, ← e.descriptor pool))
      (fun named kept s' => kept = (named.filter fun e => !drop e.2).map (·.1) ∧
        named.length = table.length ∧ s' = askedAbout decide s named) := by
  induction table generalizing s with
  | nil => exact .pure ⟨rfl, rfl, rfl⟩
  | cons e table ih =>
    rw [List.mapM_cons, Walk.retain]
    simp only [bind_assoc, pure_bind]
    refine Follows.bind Follows.check fun d _ s' h => ?_
    obtain ⟨rfl, rfl⟩ := h
    refine Follows.visit ?_
    refine Follows.bind (ih _) fun named kept s'' h => ?_
    obtain ⟨rfl, hlength, rfl⟩ := h
    refine Follows.pure ⟨?_, by simp [hlength], rfl⟩
    rw [hdrop]
    cases hd : drop _ <;> simp [hd]

theorem annotationTable_follows (pool : ConstantPool)
    (hdrop : ∀ d e s, ((decide d e).run s).1 = if drop d then .discard else .keep)
    (a : Attribute) (ha : a.isAnnotations pool) (s : σ) :
    Follows (Walk.annotationTable pool decide a) s (Marked.read pool a)
      (fun m r s' => r = m.strip drop ∧ s' = askedAbout decide s m.entries) := by
  unfold Walk.annotationTable Marked.read
  rw [if_pos ha]
  refine Follows.bind Follows.check fun _ table s' h => ?_
  obtain ⟨rfl, rfl⟩ := h
  show Follows (Walk.retain _ table >>= _) _ _ _
  refine Follows.bind (retain_follows pool hdrop table s') fun named kept s'' h => ?_
  obtain ⟨rfl, hlength, rfl⟩ := h
  refine Follows.pure ⟨?_, rfl⟩
  simp only [Marked.strip, List.length_map, hlength, List.isEmpty_map]

theorem annotationTables_follows (pool : ConstantPool)
    (hdrop : ∀ d e s, ((decide d e).run s).1 = if drop d then .discard else .keep)
    (as : List Attribute) (s : σ) :
    Follows (Walk.annotationTables pool decide as) s (marks pool as)
      (fun ms r s' => r = Marked.stripAll drop ms ∧ s' = askedAbout decide s (Marked.all ms)) := by
  induction as generalizing s with
  | nil => exact .pure ⟨rfl, rfl⟩
  | cons a as ih =>
    unfold marks
    rw [Walk.annotationTables, List.mapM_cons]
    have htail (m : Marked) (s' : σ) (hs : s' = askedAbout decide s m.entries) :
        Follows
          (Walk.annotationTables pool decide as >>= fun later =>
            pure ((m.strip drop).1.toList ++ later.1, (m.strip drop).2 || later.2)) s'
          (do return m :: (← as.mapM (Marked.read pool)))
          (fun ms r s'' => r = Marked.stripAll drop ms ∧
            s'' = askedAbout decide s (Marked.all ms)) := by
      refine Follows.bind (ih _) fun ms r s'' h => ?_
      obtain ⟨rfl, rfl⟩ := h
      refine Follows.pure ⟨by simp [Marked.stripAll], ?_⟩
      simp [hs, askedAbout, Marked.all, List.foldl_append]
    split
    · next ha =>
      refine Follows.bind (annotationTable_follows pool hdrop a ha s) fun m r s' h => ?_
      obtain ⟨rfl, hs⟩ := h
      exact htail m s' hs
    · next ha =>
      rw [Marked.read, if_neg ha]
      exact htail ⟨a, none⟩ s rfl

end Tables

namespace Pruner

def State.ledger (s : State) : Ledger := ⟨s.tracker, s.memory⟩

/-- Nothing but the ledger, the log and the flags of a member changes. -/
structure Moves (s : State) (l : Ledger) (s' : State) : Prop where
  ledger : s'.ledger = l
  className : s'.className = s.className
  unwanted : s'.unwanted = s.unwanted
  metadata : s'.metadata = s.metadata

/-- What stays while the walk is at one member: only its own flags and the log change. -/
abbrev Frame (s s' : State) : Prop := Moves s s.ledger s'

theorem Frame.refl (s : State) : Frame s s := ⟨rfl, rfl, rfl, rfl⟩

theorem Moves.trans {s s' s'' : State} {l l' : Ledger} (h : Moves s l s')
    (h' : Moves s' l' s'') : Moves s l' s'' :=
  ⟨h'.ledger, h'.className.trans h.className, h'.unwanted.trans h.unwanted,
    h'.metadata.trans h.metadata⟩

theorem Frame.trans {s s' s'' : State} (h : Frame s s') (h' : Frame s' s'') : Frame s s'' :=
  ⟨h'.ledger.trans h.ledger, h'.className.trans h.className, h'.unwanted.trans h.unwanted,
    h'.metadata.trans h.metadata⟩

@[simp] theorem State.isUnwantedMethod_eq (s : State) (owner : String) (m : Signature) :
    s.isUnwantedMethod owner m = s.ledger.methodGone s.className owner m := rfl

@[simp] theorem State.isUnwantedField_eq (s : State) (owner name : String) :
    s.isUnwantedField owner name = s.ledger.fieldGone s.className owner name := rfl

@[simp] theorem State.isUnwantedHandle_eq (s : State) (h : HandleRef) :
    s.isUnwantedHandle h = s.ledger.handleGone s.className h := rfl

/-! Fields. -/

theorem annotationOnField_disposition (policy : Policy) (f : Member) (d : String) (s : State) :
    ((annotationOnField policy f d).run s).1 =
      if policy.strips d then .discard else .keep := by
  unfold annotationOnField Policy.strips
  cases policy.role? d with
  | none => rfl
  | some role => cases role <;> rfl

theorem annotationOnField_state (policy : Policy) (f : Member) (d : String) (s : State) :
    let s' := ((annotationOnField policy f d).run s).2
    Frame s s' ∧ s'.deleteField = (s.deleteField || policy.deletes d) := by
  unfold annotationOnField Policy.deletes
  cases policy.role? d with
  | none => exact ⟨.refl s, (Bool.or_false _).symm⟩
  | some role =>
    cases role with
    | delete => exact ⟨⟨rfl, rfl, rfl, rfl⟩, (Bool.or_true _).symm⟩
    | remove => exact ⟨⟨rfl, rfl, rfl, rfl⟩, (Bool.or_false _).symm⟩
    | stub => exact ⟨⟨rfl, rfl, rfl, rfl⟩, (Bool.or_false _).symm⟩

theorem askedAbout_field (policy : Policy) (f : Member) (s : State)
    (named : List (AnnotationEntry × String)) :
    let s' := askedAbout (fun d _ => annotationOnField policy f d) s named
    Frame s s' ∧ s'.deleteField = (s.deleteField || named.any fun e => policy.deletes e.2) := by
  induction named generalizing s with
  | nil => exact ⟨.refl s, (Bool.or_false _).symm⟩
  | cons e named ih =>
    obtain ⟨hf, hd⟩ := annotationOnField_state policy f e.2 s
    obtain ⟨hf', hd'⟩ := ih ((annotationOnField policy f e.2).run s).2
    exact ⟨hf.trans hf', by rw [List.any_cons, ← Bool.or_assoc, ← hd]; exact hd'⟩

theorem fieldEnd_run (f : Member) (s : State) :
    (fieldEnd f).run s =
      if s.deleteField then
        (.discard, { s with
          log := s.log.push
            (.deletedField s.className { name := f.name, descriptor := f.descriptor })
          tracker := (s.ledger.dropField s.className f).tracker
          memory := (s.ledger.dropField s.className f).memory })
      else (.keep, s) := by
  unfold fieldEnd
  show (if s.deleteField then _ else _ : StateM State Disposition) s = _
  split <;> rfl

theorem field_follows (policy : Policy) (pool : ConstantPool) (f : MemberEntry) (s : State) :
    Follows (Walk.field (visitor policy) pool f) s
      (Prune.field policy s.className pool s.ledger f)
      (fun b a s' => a = b.2 ∧ Moves s b.1 s') := by
  unfold Walk.field Prune.field
  refine Follows.bind Follows.check fun _ member s' h => ?_
  obtain ⟨rfl, rfl⟩ := h
  refine Follows.visit ?_
  refine Follows.bind (annotationTables_follows pool
    (fun d _ => annotationOnField_disposition policy member d) f.attributes _) fun ms r t h => ?_
  obtain ⟨rfl, rfl⟩ := h
  obtain ⟨hframe, hdelete⟩ := askedAbout_field policy member
    (((visitor policy).field member).run s').2 (Marked.all ms)
  generalize askedAbout (fun d _ => annotationOnField policy member d)
    (((visitor policy).field member).run s').2 (Marked.all ms) = t at hframe hdelete
  have hframe : Frame s' t :=
    ⟨hframe.ledger, hframe.className, hframe.unwanted, hframe.metadata⟩
  have hdelete : t.deleteField = (s'.ledger.fieldGone s'.className s'.className member.name ||
    Marked.anyOf policy.deletes ms) := hdelete
  show Follows (Walk.visit (fieldEnd member) >>= _) t _ _
  refine Follows.visit ?_
  rw [fieldEnd_run, ← hdelete, ← hframe.ledger, ← hframe.className]
  cases t.deleteField with
  | true => exact Follows.pure ⟨rfl, rfl, hframe.className, hframe.unwanted, hframe.metadata⟩
  | false => exact Follows.pure ⟨rfl, rfl, hframe.className, hframe.unwanted, hframe.metadata⟩

theorem fields_follows (policy : Policy) (pool : ConstantPool) (fs : List MemberEntry)
    (s : State) :
    Follows (Walk.fields (visitor policy) pool fs) s
      (Prune.fields policy s.className pool s.ledger fs)
      (fun b a s' => a = b.2 ∧ Moves s b.1 s') := by
  induction fs generalizing s with
  | nil => exact .pure ⟨rfl, Frame.refl s⟩
  | cons f fs ih =>
    rw [Walk.fields, Prune.fields]
    refine Follows.bind (field_follows policy pool f s) fun b a s' h => ?_
    obtain ⟨rfl, hm⟩ := h
    obtain ⟨l, f?, changed⟩ := b
    obtain rfl : s'.ledger = l := hm.ledger
    rw [← hm.className]
    refine Follows.bind (ih s') fun b' a' s'' h => ?_
    obtain ⟨rfl, hm'⟩ := h
    exact Follows.pure ⟨rfl, hm.trans hm'⟩

/-! Links to other classes. -/

/-- Only the flag of the class may rise. -/
structure Dooms (doomed : Bool) (s s' : State) : Prop where
  ledger : s'.ledger = s.ledger
  className : s'.className = s.className
  metadata : s'.metadata = s.metadata
  unwanted : s'.unwanted = (s.unwanted || doomed)

theorem Dooms.none (s : State) : Dooms false s s := ⟨rfl, rfl, rfl, (Bool.or_false _).symm⟩

theorem Dooms.trans {s s' s'' : State} {b b' : Bool} (h : Dooms b s s') (h' : Dooms b' s' s'') :
    Dooms (b || b') s s'' :=
  ⟨h'.ledger.trans h.ledger, h'.className.trans h.className, h'.metadata.trans h.metadata,
    by rw [h'.unwanted, h.unwanted, Bool.or_assoc]⟩

section Rows

variable {α : Type} {read : Reader (Walk.Row α)} {ask : α → StateM State Disposition}
  (keep dooms : Tracker → String → α → Bool)

theorem retainRead_follows
    (hask : ∀ a s, ((ask a).run s).1 =
        (if keep s.tracker s.className a then .keep else .discard) ∧
      Dooms (dooms s.tracker s.className a) s ((ask a).run s).2)
    (n : Nat) (cursor : Cursor) (s : State) :
    Follows (Walk.retainRead read (fun row => ask row.value) n cursor) s
      ((Reader.times n read).run cursor)
      (fun rows kept s' =>
        kept = rows.1.filter (fun row => keep s.tracker s.className row.value) ∧
        rows.1.length = n ∧
        Dooms (rows.1.any fun row => dooms s.tracker s.className row.value) s s') := by
  induction n generalizing cursor s with
  | zero => exact .pure ⟨rfl, rfl, .none s⟩
  | succ n ih =>
    rw [Walk.retainRead, Reader.times, StateT.run_bind]
    refine Follows.bind Follows.check fun _ row s' h => ?_
    obtain ⟨rfl, rfl⟩ := h
    refine Follows.visit ?_
    obtain ⟨hanswer, hdooms⟩ := hask row.1.value s'
    have htracker : ((ask row.1.value).run s').2.tracker = s'.tracker :=
      congrArg Ledger.tracker hdooms.ledger
    show Follows _ _ (StateT.run (Reader.times n read >>= _) row.2) _
    rw [StateT.run_bind]
    refine Follows.bind (ih row.2 _) fun rows kept s'' h => ?_
    obtain ⟨rfl, hlength, hlater⟩ := h
    rw [htracker, hdooms.className] at hlater ⊢
    refine Follows.pure ⟨?_, by simp [hlength], by simpa using hdooms.trans hlater⟩
    rw [hanswer]
    cases hk : keep s'.tracker s'.className row.1.value <;> simp [hk]

theorem rowTable_follows
    (hask : ∀ a s, ((ask a).run s).1 =
        (if keep s.tracker s.className a then .keep else .discard) ∧
      Dooms (dooms s.tracker s.className a) s ((ask a).run s).2)
    (a : Attribute) (s : State) :
    Follows (Walk.rowTable read ask a) s (Link.rows read a)
      (fun rows r s' =>
        r = Link.thinRows (keep s.tracker s.className) rows a ∧
        Dooms (rows.any fun row => dooms s.tracker s.className row.value) s s') := by
  unfold Walk.rowTable Link.rows Reader.front Reader.counted
  rw [StateT.run_bind, bind_assoc]
  refine Follows.bind Follows.check fun _ count s' h => ?_
  obtain ⟨rfl, rfl⟩ := h
  refine Follows.bind (retainRead_follows keep dooms hask count.1 count.2 s') fun rows kept s'' h => ?_
  obtain ⟨rfl, hlength, hdooms⟩ := h
  refine Follows.pure ⟨?_, hdooms⟩
  simp only [Link.thinRows, hlength]

end Rows

theorem outerClass_dooms (link : OuterLink) (s : State) :
    Dooms ((Link.outer link).dooms s.tracker s.className) s ((outerClass link).run s).2 := by
  show Dooms _ s (StateT.run (if _ then _ else _ : StateM State Unit) s).2
  rw [Link.dooms]
  split
  · next h => exact ⟨rfl, rfl, rfl, by rw [h, Bool.or_true]; rfl⟩
  · next h =>
    rw [Bool.not_eq_true] at h
    rw [h]
    exact .none s

/-- Whether the row of a nested class stays. -/
def keepsInner (t : Tracker) (self : String) (row : InnerLink) : Bool :=
  row.inner = self || !t.containsClass row.inner

def innerDooms (t : Tracker) (self : String) (row : InnerLink) : Bool :=
  row.inner = self && row.outer.any t.containsClass

theorem innerClass_follows (link : InnerLink) (s : State) :
    ((innerClass link).run s).1 =
        (if keepsInner s.tracker s.className link then .keep else .discard) ∧
      Dooms (innerDooms s.tracker s.className link) s ((innerClass link).run s).2 := by
  have hrun : (innerClass link).run s =
      if link.inner = s.className then
        (.keep, if link.outer.any s.tracker.containsClass then { s with unwanted := true } else s)
      else if s.tracker.containsClass link.inner then
        (.discard, { s with
          log := s.log.push (.droppedInner s.className link.inner link.simpleName) })
      else (.keep, s) := by
    unfold innerClass
    show StateT.run (if _ then _ else _ : StateM State Disposition) s = _
    split
    · show StateT.run (if link.outer.any s.tracker.containsClass then _ else _ :
        StateM State Disposition) s = _
      split <;> rfl
    · split <;> rfl
  rw [hrun, keepsInner, innerDooms]
  by_cases hself : link.inner = s.className
  · simp only [hself, ↓reduceIte, decide_true, Bool.true_or, Bool.true_and, true_and]
    split
    · next h => exact ⟨rfl, rfl, rfl, by rw [h, Bool.or_true]⟩
    · next h =>
      rw [Bool.not_eq_true] at h
      rw [h]
      exact .none s
  · simp only [hself, ↓reduceIte, decide_false, Bool.false_or, Bool.false_and]
    cases hgone : s.tracker.containsClass link.inner with
    | true => exact ⟨rfl, rfl, rfl, rfl, (Bool.or_false _).symm⟩
    | false => exact ⟨rfl, .none s⟩

theorem classReference_host (name : String) (s : State) :
    Dooms ((Link.host name).dooms s.tracker s.className) s
      ((classReference .nestHost name).run s).2 := by
  show Dooms _ s (StateT.run (if _ then _ else _ : StateM State Disposition) s).2
  rw [Link.dooms]
  split
  · next h => exact ⟨rfl, rfl, rfl, by rw [h, Bool.or_true]; rfl⟩
  · next h =>
    rw [Bool.not_eq_true] at h
    rw [h]
    exact .none s

theorem classReference_run (kind : ReferenceKind) (name : String) (s : State) :
    (classReference kind name).run s =
      if s.tracker.containsClass name then
        match kind with
        | .nestHost => (.keep, { s with unwanted := true })
        | .nestMember | .permittedSubclass => (.discard, s)
      else (.keep, s) := by
  unfold classReference
  show StateT.run (if _ then _ else _ : StateM State Disposition) s = _
  split
  · cases kind <;> rfl
  · rfl

theorem classReference_listed (kind : ReferenceKind) (hkind : kind ≠ .nestHost) (name : String)
    (s : State) :
    ((classReference kind name).run s).1 =
        (if !s.tracker.containsClass name then .keep else .discard) ∧
      Dooms false s ((classReference kind name).run s).2 := by
  rw [classReference_run]
  cases s.tracker.containsClass name with
  | true =>
    cases kind with
    | nestHost => exact absurd rfl hkind
    | nestMember => exact ⟨rfl, .none s⟩
    | permittedSubclass => exact ⟨rfl, .none s⟩
  | false => exact ⟨rfl, .none s⟩

theorem link_follows (policy : Policy) (pool : ConstantPool) (a : Attribute) (s : State) :
    Follows (Walk.link (visitor policy) pool a) s (Link.read pool a)
      (fun l r s' => r = l.thin s.tracker s.className a ∧
        Dooms (l.dooms s.tracker s.className) s s') := by
  have hlisted (kind : ReferenceKind) (hkind : kind ≠ .nestHost) :
      Follows (Walk.rowTable (Walk.readReferenceRow pool) ((visitor policy).classReference kind) a)
        s (do return Link.listed (← Link.rows (Walk.readReferenceRow pool) a))
        (fun l r s' => r = l.thin s.tracker s.className a ∧
          Dooms (l.dooms s.tracker s.className) s s') := by
    rw [← bind_pure (Walk.rowTable _ _ _)]
    refine Follows.bind (rowTable_follows (fun t _ name => !t.containsClass name)
      (fun _ _ _ => false) (classReference_listed kind hkind) a s) fun rows r s' h => ?_
    obtain ⟨rfl, hdooms⟩ := h
    have hnone : (rows.any fun _ => false) = false := List.any_eq_false.2 (by simp)
    exact Follows.pure ⟨rfl, by rwa [hnone] at hdooms⟩
  unfold Walk.link Link.read
  refine Follows.bind Follows.check fun _ name s' h => ?_
  obtain ⟨rfl, rfl⟩ := h
  split
  · refine Follows.bind Follows.check fun _ link s'' h => ?_
    obtain ⟨rfl, rfl⟩ := h
    exact Follows.visit (Follows.pure ⟨rfl, outerClass_dooms link s''⟩)
  split
  · rw [← bind_pure (Walk.rowTable _ _ _)]
    refine Follows.bind (rowTable_follows keepsInner innerDooms innerClass_follows a s') fun rows r s'' h => ?_
    obtain ⟨rfl, hdooms⟩ := h
    exact Follows.pure ⟨rfl, hdooms⟩
  split
  · refine Follows.bind Follows.check fun _ host s'' h => ?_
    obtain ⟨rfl, rfl⟩ := h
    exact Follows.visit (Follows.pure ⟨rfl, classReference_host host.value s''⟩)
  split
  · exact hlisted .nestMember (by simp)
  split
  · exact hlisted .permittedSubclass (by simp)
  exact Follows.pure ⟨rfl, .none s'⟩

theorem links_follows (policy : Policy) (pool : ConstantPool) (as : List Attribute) (s : State) :
    Follows (Walk.links (visitor policy) pool as) s (Prune.readLinks pool as)
      (fun ps r s' =>
        let thinned := ps.map fun p => p.2.thin s.tracker s.className p.1
        r = (thinned.map (·.1), thinned.any (·.2)) ∧
        Dooms (ps.any fun p => p.2.dooms s.tracker s.className) s s') := by
  induction as generalizing s with
  | nil => exact .pure ⟨rfl, .none s⟩
  | cons a as ih =>
    unfold Prune.readLinks
    rw [Walk.links, List.mapM_cons, bind_assoc]
    refine Follows.bind (link_follows policy pool a s) fun l r s' h => ?_
    obtain ⟨rfl, hdooms⟩ := h
    have htracker : s'.tracker = s.tracker := congrArg Ledger.tracker hdooms.ledger
    rw [pure_bind]
    refine Follows.bind (ih s') fun ps r s'' h => ?_
    obtain ⟨rfl, hlater⟩ := h
    rw [htracker, hdooms.className] at hlater ⊢
    exact Follows.pure ⟨rfl, hdooms.trans hlater⟩

/-! Methods. -/

/-- What becomes of an action under annotations that ask for deletion or a stub. -/
def annotated (constructs deletes stubs : Bool) (a : MethodAction) : MethodAction :=
  if deletes then .delete else if a = .keep ∧ stubs ∧ !constructs then .stub else a

theorem annotationOnMethod_disposition (policy : Policy) (m : Member) (d : String) (s : State) :
    ((annotationOnMethod policy m d).run s).1 =
      if policy.strips d then .discard else .keep := by
  unfold annotationOnMethod Policy.strips
  cases policy.role? d with
  | none => rfl
  | some role =>
    cases role with
    | delete => rfl
    | remove => rfl
    | stub =>
      show (StateT.run (if _ then _ else _ : StateM State Disposition) s).1 = _
      split
      · show (StateT.run (if _ then _ else _ : StateM State Disposition) s).1 = _
        split <;> rfl
      · rfl

theorem annotated_annotated (constructs d s d' s' : Bool) (a : MethodAction) :
    annotated constructs d' s' (annotated constructs d s a) =
      annotated constructs (d || d') (s || s') a := by
  revert constructs d s d' s'
  cases a <;> decide

theorem annotated_none (constructs : Bool) (a : MethodAction) :
    annotated constructs false false a = a := by
  simp [annotated]

theorem annotationOnMethod_state (policy : Policy) (m : Member) (d : String) (s : State) :
    let s' := ((annotationOnMethod policy m d).run s).2
    Frame s s' ∧
      s'.action = annotated m.isConstructor (policy.deletes d) (policy.stubs d) s.action := by
  unfold annotationOnMethod Policy.deletes Policy.stubs
  cases policy.role? d with
  | none => exact ⟨.refl s, (annotated_none _ _).symm⟩
  | some role =>
    cases role with
    | delete => exact ⟨⟨rfl, rfl, rfl, rfl⟩, rfl⟩
    | remove => exact ⟨⟨rfl, rfl, rfl, rfl⟩, (annotated_none _ _).symm⟩
    | stub =>
      show let s' := (StateT.run (if s.action = .keep then _ else _ : StateM State Disposition) s).2
        Frame s s' ∧ s'.action = annotated m.isConstructor false true s.action
      split
      · next hkeep =>
        show let s' := (StateT.run (if m.isConstructor then _ else _ :
            StateM State Disposition) s).2
          Frame s s' ∧ s'.action = annotated m.isConstructor false true s.action
        cases hc : m.isConstructor with
        | true => exact ⟨⟨rfl, rfl, rfl, rfl⟩, by simp [annotated]; rfl⟩
        | false => exact ⟨⟨rfl, rfl, rfl, rfl⟩, by simp [annotated, hkeep]; rfl⟩
      · next hkeep => exact ⟨.refl s, by simp [annotated, hkeep]; rfl⟩

theorem askedAbout_method (policy : Policy) (m : Member) (s : State)
    (named : List (AnnotationEntry × String)) :
    let s' := askedAbout (fun d _ => annotationOnMethod policy m d) s named
    Frame s s' ∧
      s'.action = annotated m.isConstructor (named.any fun e => policy.deletes e.2)
        (named.any fun e => policy.stubs e.2) s.action := by
  induction named generalizing s with
  | nil => exact ⟨.refl s, (annotated_none _ _).symm⟩
  | cons e named ih =>
    obtain ⟨hf, ha⟩ := annotationOnMethod_state policy m e.2 s
    obtain ⟨hf', ha'⟩ := ih ((annotationOnMethod policy m e.2).run s).2
    refine ⟨hf.trans hf', ?_⟩
    rw [List.any_cons, List.any_cons, ← annotated_annotated, ← ha]
    exact ha'

/-- How the action goes on once an instruction is fatal or not. -/
def walkedOn (fatal : Bool) (a : MethodAction) : MethodAction :=
  if fatal ∧ a = .keep then .delete else a

theorem deleteCaller_state (m : Member) (r : Reference) (s : State) :
    let s' := ((deleteCaller m r).run s).2
    Frame s s' ∧ s'.action = walkedOn true s.action := by
  show let s' := (StateT.run (if s.action = .keep then _ else _ : StateM State Unit) s).2
    Frame s s' ∧ s'.action = walkedOn true s.action
  split
  · next h => exact ⟨⟨rfl, rfl, rfl, rfl⟩, by rw [h]; rfl⟩
  · next h => exact ⟨.refl s, by simp [walkedOn, h]; rfl⟩

/-- What an instruction does to a walk. -/
structure Steps (constructs : Bool) (i : Instruction) (site : Site) (s : State)
    (patch : Option Patch) (s' : State) : Prop where
  frame : Frame s s'
  action : s'.action = walkedOn (site.isFatal s.ledger s.className constructs) s.action
  patch : s'.action = .keep →
    patch = if constructs then site.patch? s.ledger s.className i else none

theorem access_steps (m : Member) (i : Instruction) (target : MemberRef) (s : State) :
    let r := (access m i.opcode target).run s
    Steps m.isConstructor i (.access i.opcode target) s (r.1.map (⟨i.offset, ·⟩)) r.2 := by
  show let r := StateT.run (if s.action = .keep ∧ s.isUnwantedField target.owner target.name
      then _ else _ : StateM State (Option (Vector UInt8 3))) s
    Steps m.isConstructor i (.access i.opcode target) s (r.1.map (⟨i.offset, ·⟩)) r.2
  rw [State.isUnwantedField_eq]
  split
  · next h =>
    obtain ⟨hkeep, hgone⟩ := h
    show let r := StateT.run (if m.isConstructor then _ else _ :
        StateM State (Option (Vector UInt8 3))) s
      Steps m.isConstructor i (.access i.opcode target) s (r.1.map (⟨i.offset, ·⟩)) r.2
    cases hc : m.isConstructor with
    | true =>
      refine ⟨⟨rfl, rfl, rfl, rfl⟩, rfl, fun _ => ?_⟩
      simp only [Site.patch?, hgone, ↓reduceIte]
      rfl
    | false =>
      obtain ⟨hframe, haction⟩ := deleteCaller_state m (.accesses target) s
      refine ⟨hframe, ?_, fun _ => rfl⟩
      simp only [Site.isFatal, hgone, Bool.not_false, Bool.and_true]
      exact haction
  · next h =>
    refine ⟨.refl s, ?_, fun hkeep => ?_⟩
    · show s.action = _
      by_cases hkeep : s.action = .keep
      · have hgone : s.ledger.fieldGone s.className target.owner target.name = false := by
          simpa [hkeep] using h
        simp [walkedOn, Site.isFatal, hgone]
      · simp [walkedOn, hkeep]
    · replace hkeep : s.action = .keep := hkeep
      have hgone : s.ledger.fieldGone s.className target.owner target.name = false := by
        simpa [hkeep] using h
      simp only [Site.patch?, hgone]
      cases m.isConstructor <;> rfl

theorem invoke_steps (m : Member) (i : Instruction) (target : MemberRef) (s : State) :
    Steps m.isConstructor i (.invoke target) s none ((invoke m i.opcode target).run s).2 := by
  show Steps m.isConstructor i (.invoke target) s none
    (StateT.run (if s.isUnwantedMethod target.owner target.toSignature then _ else _ :
      StateM State Unit) s).2
  rw [State.isUnwantedMethod_eq]
  split
  · next h =>
    obtain ⟨hframe, haction⟩ := deleteCaller_state m (.invokes target) s
    exact ⟨hframe, by rw [Site.isFatal, h]; exact haction, fun _ => by simp [Site.patch?]⟩
  · next h =>
    rw [Bool.not_eq_true] at h
    exact ⟨.refl s, by rw [Site.isFatal, h]; rfl, fun _ => by simp [Site.patch?]⟩

theorem invokeDynamic_run (m : Member) (handles : List HandleRef) (s : State) :
    (invokeDynamic m handles).run s =
      match handles.find? (s.ledger.handleGone s.className) with
      | some h => (deleteCaller m (.binds h.target)).run s
      | none => ((), s) := by
  show StateT.run (match handles.find? (s.ledger.handleGone s.className) with
    | some h => deleteCaller m (.binds h.target)
    | none => pure ()) s = _
  cases handles.find? (s.ledger.handleGone s.className) <;> rfl

theorem invokeDynamic_steps (m : Member) (i : Instruction) (handles : List HandleRef)
    (s : State) :
    Steps m.isConstructor i (.bind handles) s none ((invokeDynamic m handles).run s).2 := by
  rw [invokeDynamic_run]
  cases hfind : handles.find? (s.ledger.handleGone s.className) with
  | some h =>
    have hany : handles.any (s.ledger.handleGone s.className) = true :=
      List.any_eq_true.2 ⟨h, List.mem_of_find?_eq_some hfind, List.find?_some hfind⟩
    obtain ⟨hframe, haction⟩ := deleteCaller_state m (.binds h.target) s
    exact ⟨hframe, by rw [Site.isFatal, hany]; exact haction, fun _ => by simp [Site.patch?]⟩
  | none =>
    have hany : handles.any (s.ledger.handleGone s.className) = false := by
      simpa using hfind
    exact ⟨.refl s, by rw [Site.isFatal, hany]; rfl, fun _ => by simp [Site.patch?]⟩

theorem instruction_follows (policy : Policy) (pool : ConstantPool) (bootstraps : List Bootstrap)
    (m : Member) (i : Instruction) (s : State) :
    Follows (Walk.instruction (visitor policy) pool bootstraps m i) s
      (Site.read pool bootstraps i)
      (fun site patch s' => Steps m.isConstructor i site s patch s') := by
  unfold Walk.instruction Site.read
  split
  · refine Follows.bind Follows.check fun _ target s' h => ?_
    obtain ⟨rfl, rfl⟩ := h
    exact Follows.visit (Follows.pure (access_steps m i target s'))
  split
  · refine Follows.bind Follows.check fun _ target s' h => ?_
    obtain ⟨rfl, rfl⟩ := h
    exact Follows.visit (Follows.pure (invoke_steps m i target s'))
  split
  · refine Follows.bind Follows.check fun _ handles s' h => ?_
    obtain ⟨rfl, rfl⟩ := h
    exact Follows.visit (Follows.pure (invokeDynamic_steps m i handles s'))
  · refine Follows.pure ⟨.refl s, rfl, fun _ => by simp [Site.patch?]⟩

theorem walkedOn_walkedOn (f f' : Bool) (a : MethodAction) :
    walkedOn f' (walkedOn f a) = walkedOn (f || f') a := by
  revert f f'
  cases a <;> decide

theorem keep_of_walkedOn {f : Bool} {a : MethodAction} (h : walkedOn f a = .keep) :
    a = .keep := by
  revert h
  revert f
  cases a <;> decide

theorem instructions_follows (policy : Policy) (pool : ConstantPool)
    (bootstraps : List Bootstrap) (m : Member) (is : List Instruction) (s : State) :
    Follows (Walk.instructions (visitor policy) pool bootstraps m is) s
      (is.mapM fun i => do return (i, ← Site.read pool bootstraps i))
      (fun ss patches s' => Frame s s' ∧
        s'.action =
          walkedOn (ss.any fun p => p.2.isFatal s.ledger s.className m.isConstructor) s.action ∧
        (s'.action = .keep → patches =
          if m.isConstructor then ss.filterMap fun p => p.2.patch? s.ledger s.className p.1
          else [])) := by
  induction is generalizing s with
  | nil => exact .pure ⟨.refl s, rfl, fun _ => by simp⟩
  | cons i is ih =>
    rw [Walk.instructions, List.mapM_cons, bind_assoc]
    refine Follows.bind (instruction_follows policy pool bootstraps m i s) fun site p s' h => ?_
    rw [pure_bind]
    refine Follows.bind (ih s') fun ss ps s'' hs => ?_
    obtain ⟨hframe, haction, hpatches⟩ := hs
    rw [h.frame.ledger, h.frame.className] at haction hpatches
    rw [h.action, walkedOn_walkedOn] at haction
    refine Follows.pure ⟨h.frame.trans hframe, haction, fun hkeep => ?_⟩
    have hkeep' : s'.action = .keep := by
      rw [h.action]
      rw [haction, ← walkedOn_walkedOn] at hkeep
      exact keep_of_walkedOn hkeep
    rw [h.patch hkeep', hpatches hkeep]
    cases m.isConstructor with
    | true =>
      simp only [↓reduceIte, List.filterMap_cons]
      cases site.patch? s.ledger s.className i <;> rfl
    | false => rfl

/-- The flags and patches at the end of a method that meets its fate. -/
def Decided : Fate → List Patch → MethodAction → Prop
  | .delete, _, a => a = .delete
  | .stub, _, a => a = .stub
  | .keep wanted, patches, a => (a = .keep ∨ a = .alreadyStubbed) ∧ patches = wanted

theorem body_follows (policy : Policy) (pool : ConstantPool) (bootstraps : List Bootstrap)
    (m : Member) (payload : List UInt8) (s : State) (hkeep : s.action = .keep) :
    Follows (Walk.body (visitor policy) pool bootstraps m payload) s
      (do
        let ss ← sites pool bootstraps payload
        return Prune.bodyFate s.ledger s.className m.isConstructor ss)
      (fun fate patches s' => Frame s s' ∧ Decided fate patches s'.action) := by
  have hsites : sites pool bootstraps payload =
      (do Instruction.scan (← Body.ofPayload payload).code) >>= fun scanned =>
        scanned.mapM fun i => do return (i, ← Site.read pool bootstraps i) := by
    rw [bind_assoc]
    rfl
  rw [hsites, bind_assoc]
  unfold Walk.body
  refine Follows.visit ?_
  have hcode : ((visitor policy).code m).run s = (true, s) := by
    show (decide (s.action = .keep), s) = (true, s)
    rw [hkeep]
    rfl
  rw [hcode]
  show Follows (Walk.check _ >>= _) s _ _
  refine Follows.bind Follows.check fun _ scanned s' h => ?_
  obtain ⟨rfl, rfl⟩ := h
  rw [← bind_pure (Walk.instructions _ _ _ _ _)]
  refine Follows.bind (instructions_follows policy pool bootstraps m scanned s')
    fun ss patches s'' h => ?_
  obtain ⟨hframe, haction, hpatches⟩ := h
  rw [hkeep] at haction
  refine Follows.pure ⟨hframe, ?_⟩
  rw [Prune.bodyFate]
  cases hfatal : ss.any fun p => p.2.isFatal s'.ledger s'.className m.isConstructor with
  | true => exact haction.trans (by rw [hfatal]; rfl)
  | false =>
    rw [hfatal] at haction
    exact ⟨.inl haction, hpatches haction⟩

theorem scheduleCompanion_moves (m : Member) (s : State) :
    Moves s
      { s.ledger with memory := { s.memory with
        dueMethods := s.memory.dueMethods.insertAll (Ledger.companions s.className m) } }
      ((scheduleCompanion m).run s).2 := by
  unfold scheduleCompanion Ledger.companions
  split
  · exact ⟨rfl, rfl, rfl, rfl⟩
  · exact ⟨rfl, rfl, rfl, rfl⟩

theorem methodEnd_delete (m : Member) (s : State) (h : s.action = .delete) :
    ((methodEnd m).run s).1 = .delete ∧
      Moves s (s.ledger.dropMethod s.className m) ((methodEnd m).run s).2 := by
  obtain ⟨session, className, unwanted, metadata, deleteField, action⟩ := s
  obtain rfl : action = .delete := h
  have hcompanion := scheduleCompanion_moves m
    ⟨{ session with memory := { session.memory with
        dueMethods := (session.memory.dueMethods.remove m.toSignature).2 } },
      className, unwanted, metadata, deleteField, .delete⟩
  generalize ht : StateT.run (scheduleCompanion m) _ = t at hcompanion
  have hrun : (methodEnd m).run ⟨session, className, unwanted, metadata, deleteField, .delete⟩ =
      (.delete, { t.2 with
        log := t.2.log.push (.deletedMethod className m.toSignature)
        tracker := t.2.tracker.addMethod t.2.className m.toSignature }) := by
    rw [← ht]
    rfl
  rw [hrun]
  refine ⟨rfl, ?_, hcompanion.className, hcompanion.unwanted, hcompanion.metadata⟩
  have htracker : t.2.tracker = session.tracker := congrArg Ledger.tracker hcompanion.ledger
  have hmemory : t.2.memory = _ := congrArg Ledger.memory hcompanion.ledger
  show (⟨t.2.tracker.addMethod t.2.className m.toSignature, t.2.memory⟩ : Ledger) = _
  rw [hcompanion.className, htracker, hmemory]
  rfl

theorem methodEnd_stub (m : Member) (s : State) (h : s.action = .stub) :
    ((methodEnd m).run s).1 = .stub ∧
      Moves s (s.ledger.stubMethod m) ((methodEnd m).run s).2 := by
  obtain ⟨session, className, unwanted, metadata, deleteField, action⟩ := s
  obtain rfl : action = .stub := h
  exact ⟨rfl, rfl, rfl, rfl, rfl⟩

theorem methodEnd_keep (m : Member) (s : State)
    (h : s.action = .keep ∨ s.action = .alreadyStubbed) :
    (methodEnd m).run s = (.keep, s) := by
  obtain ⟨session, className, unwanted, metadata, deleteField, action⟩ := s
  obtain h | h := h
  · obtain rfl : action = .keep := h
    rfl
  · obtain rfl : action = .alreadyStubbed := h
    rfl

theorem method_start (m : Member) (s : State) :
    let s' := ((method m).run s).2
    Frame s s' ∧ s'.action =
      if s.ledger.methodGone s.className s.className m.toSignature then .delete
      else if s.ledger.memory.stubbed.contains m.toSignature then .alreadyStubbed
      else .keep :=
  ⟨⟨rfl, rfl, rfl, rfl⟩, rfl⟩

theorem body_skipped (policy : Policy) (pool : ConstantPool) (bootstraps : List Bootstrap)
    (m : Member) (payload : List UInt8) (s : State) (hkeep : s.action ≠ .keep) :
    Follows (Walk.body (visitor policy) pool bootstraps m payload) s (.ok ())
      (fun _ patches s' => patches = [] ∧ s' = s) := by
  unfold Walk.body
  refine Follows.visit ?_
  have hcode : ((visitor policy).code m).run s = (false, s) := by
    show (decide (s.action = .keep), s) = (false, s)
    rw [decide_eq_false hkeep]
  rw [hcode]
  exact Follows.pure ⟨rfl, rfl⟩

/-- The action after the annotations, and the body if it is walked, decide the fate. -/
theorem fate_follows {γ κ : Type} (policy : Policy) (pool : ConstantPool)
    (bootstraps : List Bootstrap) (m : Member) (ms : List Marked) (s : State)
    (hasked : s.action =
      annotated m.isConstructor (Marked.anyOf policy.deletes ms) (Marked.anyOf policy.stubs ms)
        (if s.ledger.methodGone s.className s.className m.toSignature then .delete
        else if s.ledger.memory.stubbed.contains m.toSignature then .alreadyStubbed
        else .keep))
    (code : Option Attribute) {k : List Patch → Step State γ} {g : Fate → Except Fault κ}
    {post : κ → γ → State → Prop}
    (hk : ∀ fate patches s', Frame s s' → Decided fate patches s'.action →
      Follows (k patches) s' (g fate) post) :
    Follows
      (match code with
      | some a => Walk.body (visitor policy) pool bootstraps m a.payload >>= k
      | none => pure [] >>= k) s
      (Prune.fate policy s.className pool bootstraps s.ledger m ms code >>= g) post := by
  have hskip (fate : Fate) (hne : s.action ≠ .keep) (hdecided : Decided fate [] s.action) :
      Follows
        (match code with
        | some a => Walk.body (visitor policy) pool bootstraps m a.payload >>= k
        | none => pure [] >>= k) s (pure fate >>= g) post := by
    cases code with
    | none => exact hk fate [] s (.refl s) hdecided
    | some a =>
      refine Follows.bind (c := .ok ()) (g := fun _ => g fate)
        (body_skipped policy pool bootstraps m a.payload s hne) fun _ patches s' h => ?_
      obtain ⟨rfl, rfl⟩ := h
      exact hk fate [] s' (.refl s') hdecided
  unfold Prune.fate Prune.asksForStub
  by_cases hgone : s.ledger.methodGone s.className s.className m.toSignature ||
      Marked.anyOf policy.deletes ms
  · rw [if_pos hgone]
    have haction : s.action = .delete := by
      rw [hasked]
      cases hd : Marked.anyOf policy.deletes ms with
      | true => rfl
      | false =>
        rw [hd, Bool.or_false] at hgone
        simp [annotated, hgone]
    exact hskip .delete (by simp [haction]) haction
  rw [if_neg hgone]
  rw [Bool.not_eq_true, Bool.or_eq_false_iff] at hgone
  rw [hgone.1, hgone.2] at hasked
  by_cases hstubbed : s.ledger.memory.stubbed.contains m.toSignature
  · rw [if_pos hstubbed]
    have haction : s.action = .alreadyStubbed := by
      rw [hasked]
      simp [annotated, hstubbed]
    exact hskip (.keep []) (by simp [haction]) ⟨.inr haction, rfl⟩
  rw [if_neg hstubbed]
  by_cases hstubs : !m.isConstructor && Marked.anyOf policy.stubs ms
  · rw [if_pos hstubs]
    rw [Bool.and_eq_true, Bool.not_eq_true'] at hstubs
    have haction : s.action = .stub := by
      rw [hasked]
      simp [annotated, hstubbed, hstubs.1, hstubs.2]
    exact hskip .stub (by simp [haction]) haction
  rw [if_neg hstubs]
  have haction : s.action = .keep := by
    rw [hasked]
    cases hs : Marked.anyOf policy.stubs ms <;> cases hc : m.isConstructor <;>
      simp_all [annotated]
  cases code with
  | none => exact hk (.keep []) [] s (.refl s) ⟨.inl haction, rfl⟩
  | some a =>
    exact Follows.bind (body_follows policy pool bootstraps m a.payload s haction)
      fun fate patches s' h => hk fate patches s' h.1 h.2

theorem method_follows (policy : Policy) (pool : ConstantPool) (bootstraps : List Bootstrap)
    (entry : MemberEntry) (s : State) :
    Follows (Walk.method (visitor policy) pool bootstraps entry) s
      (Prune.method policy s.className pool bootstraps s.ledger entry)
      (fun b a s' => a = b.2 ∧ Moves s b.1 s') := by
  unfold Walk.method Prune.method
  refine Follows.bind Follows.check fun _ member s' h => ?_
  obtain ⟨rfl, rfl⟩ := h
  refine Follows.visit ?_
  refine Follows.bind (annotationTables_follows pool
    (fun d _ => annotationOnMethod_disposition policy member d) entry.attributes _)
    fun ms r t h => ?_
  obtain ⟨rfl, rfl⟩ := h
  obtain ⟨hstart, haction⟩ := method_start member s'
  obtain ⟨hframe, hasked⟩ := askedAbout_method policy member
    (((visitor policy).method member).run s').2 (Marked.all ms)
  generalize askedAbout (fun d _ => annotationOnMethod policy member d)
    (((visitor policy).method member).run s').2 (Marked.all ms) = t at hframe hasked
  replace hframe : Frame s' t := hstart.trans hframe
  replace hasked := hasked.trans (congrArg _ haction)
  rw [← hframe.ledger, ← hframe.className] at hasked ⊢
  generalize Marked.stripAll policy.strips ms = r
  obtain ⟨attributes, stripped⟩ := r
  dsimp only
  refine fate_follows policy pool bootstraps member ms t hasked _
    fun fate patches t' hframe' hdecided => ?_
  replace hframe := hframe.trans hframe'
  refine Follows.visit ?_
  cases fate with
  | delete =>
    obtain ⟨hdisp, hmoves⟩ := methodEnd_delete member t' hdecided
    rw [show (visitor policy).methodEnd = methodEnd from rfl, hdisp]
    rw [hframe'.ledger, hframe'.className] at hmoves
    exact Follows.pure ⟨rfl, Moves.trans hframe hmoves⟩
  | stub =>
    obtain ⟨hdisp, hmoves⟩ := methodEnd_stub member t' hdecided
    rw [show (visitor policy).methodEnd = methodEnd from rfl, hdisp]
    rw [hframe'.ledger] at hmoves
    exact Follows.pure ⟨rfl, Moves.trans hframe hmoves⟩
  | keep wanted =>
    obtain ⟨haction, rfl⟩ := hdecided
    rw [show (visitor policy).methodEnd = methodEnd from rfl, methodEnd_keep member t' haction]
    have hmoves : Moves s' t.ledger t' := ⟨hframe'.ledger, hframe.2, hframe.3, hframe.4⟩
    cases Walk.codePosition? pool attributes with
    | some position => exact Follows.pure ⟨rfl, hmoves⟩
    | none => exact Follows.pure ⟨rfl, hmoves⟩

theorem methods_follows (policy : Policy) (pool : ConstantPool) (bootstraps : List Bootstrap)
    (ms : List MemberEntry) (s : State) :
    Follows (Walk.methods (visitor policy) pool bootstraps ms) s
      (Prune.methods policy s.className pool bootstraps s.ledger ms)
      (fun b a s' => a = b.2 ∧ Moves s b.1 s') := by
  induction ms generalizing s with
  | nil => exact .pure ⟨rfl, Frame.refl s⟩
  | cons m ms ih =>
    rw [Walk.methods, Prune.methods]
    refine Follows.bind (method_follows policy pool bootstraps m s) fun b a s' h => ?_
    obtain ⟨rfl, hm⟩ := h
    obtain ⟨l, m?, changed⟩ := b
    obtain rfl : s'.ledger = l := hm.ledger
    rw [← hm.className]
    refine Follows.bind (ih s') fun b' a' s'' h => ?_
    obtain ⟨rfl, hm'⟩ := h
    exact Follows.pure ⟨rfl, hm.trans hm'⟩

theorem members_follows (policy : Policy) (c : ClassFile) (s : State) :
    Follows (Walk.members (visitor policy) c) s
      (Prune.members policy s.className s.ledger c)
      (fun b a s' => a = b.2 ∧ Moves s b.1 s') := by
  unfold Walk.members Prune.members
  refine Follows.bind (fields_follows policy c.pool c.fields s) fun b a s' h => ?_
  obtain ⟨rfl, hm⟩ := h
  obtain ⟨l, fields, changed⟩ := b
  obtain rfl : s'.ledger = l := hm.ledger
  rw [← hm.className]
  refine Follows.bind Follows.check fun _ bootstraps s'' h => ?_
  obtain ⟨rfl, rfl⟩ := h
  refine Follows.bind (methods_follows policy c.pool bootstraps c.methods s'')
    fun b' a' s' h => ?_
  obtain ⟨rfl, hm'⟩ := h
  exact Follows.pure ⟨rfl, hm.trans hm'⟩

/-! Metadata. -/

theorem pruneMetadata_follows (pool : ConstantPool) (a : AnnotationEntry) (s : State) :
    Follows (pruneMetadata pool a) s (Prune.metadata s.className s.ledger pool a)
      (fun b r s' => r = b.2 ∧ Moves s b.1 s') := by
  unfold pruneMetadata Prune.metadata
  refine Follows.get ?_
  refine Follows.bind Follows.check fun _ parts s' h => ?_
  obtain ⟨rfl, rfl⟩ := h
  obtain ⟨kind, d1, d2⟩ := parts
  dsimp only
  cases hedit : kind.isEditable with
  | false =>
    refine Follows.visit (Follows.pure ⟨rfl, ?_⟩)
    unfold logUnedited
    split <;> exact ⟨rfl, rfl, rfl, rfl⟩
  | true =>
    cases hempty : d1.isEmpty with
    | true => exact Follows.pure ⟨rfl, Frame.refl s'⟩
    | false =>
      refine Follows.bind Follows.check fun _ swept s'' h => ?_
      obtain ⟨rfl, rfl⟩ := h
      obtain ⟨payload, changes⟩ := swept
      dsimp only
      refine Follows.visit ?_
      cases hchanges : changes.isEmpty with
      | true => exact Follows.pure ⟨rfl, ⟨rfl, rfl, rfl, rfl⟩⟩
      | false =>
        refine Follows.visit (Follows.visit ?_)
        cases (repack a payload.encode).run pool with
        | ok a pool => exact Follows.pure ⟨rfl, ⟨rfl, rfl, rfl, rfl⟩⟩
        | error fault pool => exact Follows.throw

theorem finish_follows (pool : ConstantPool) (s : State) (hwanted : s.unwanted = false) :
    Follows (finish pool) s (Prune.replacements s.className s.ledger pool s.metadata)
      (fun b r s' => r = b.2 ∧ Moves s b.1 s') := by
  unfold finish Prune.replacements
  refine Follows.get ?_
  cases s.metadata with
  | none => exact Follows.pure ⟨rfl, Frame.refl s⟩
  | some a =>
    rw [hwanted]
    exact pruneMetadata_follows pool a s

/-! The class. -/

theorem annotationOnClass_disposition (policy : Policy) (d : String) (a : AnnotationEntry)
    (s : State) :
    ((annotationOnClass policy d a).run s).1 =
      if Prune.stripsFromClass policy d then .discard else .keep := by
  unfold annotationOnClass Prune.stripsFromClass Policy.strips
  show (StateT.run (if d = metadataDescriptor then _ else _ : StateM State Disposition) s).1 = _
  by_cases hd : d = metadataDescriptor
  · simp [hd]
    rfl
  · rw [if_neg hd, decide_eq_true hd]
    cases policy.role? d with
    | none => rfl
    | some role => cases role <;> rfl

/-- What the annotations of a class tell a walk. -/
structure Marks (policy : Policy) (named : List (AnnotationEntry × String)) (s s' : State) :
    Prop where
  ledger : s'.ledger = s.ledger
  className : s'.className = s.className
  unwanted : s'.unwanted = (s.unwanted || named.any fun e => Prune.deletesClass policy e.2)
  metadata : s'.metadata =
    ((named.filter fun e => e.2 = metadataDescriptor).map (·.1)).getLast?.or s.metadata

theorem annotationOnClass_marks (policy : Policy) (e : AnnotationEntry × String) (s : State) :
    Marks policy [e] s ((annotationOnClass policy e.2 e.1).run s).2 := by
  unfold annotationOnClass
  show Marks policy [e] s
    (StateT.run (if e.2 = metadataDescriptor then _ else _ : StateM State Disposition) s).2
  by_cases hd : e.2 = metadataDescriptor
  · rw [if_pos hd]
    exact ⟨rfl, rfl, by simp [Prune.deletesClass, hd]; rfl, by simp [hd]; rfl⟩
  · rw [if_neg hd]
    cases hr : policy.role? e.2 with
    | none =>
      exact ⟨rfl, rfl, by simp [Prune.deletesClass, Policy.deletes, hr]; rfl, by simp [hd]; rfl⟩
    | some role =>
      cases role with
      | delete =>
        exact ⟨rfl, rfl, by simp [Prune.deletesClass, Policy.deletes, hr, hd]; rfl,
          by simp [hd]; rfl⟩
      | remove =>
        exact ⟨rfl, rfl, by simp [Prune.deletesClass, Policy.deletes, hr]; rfl,
          by simp [hd]; rfl⟩
      | stub =>
        exact ⟨rfl, rfl, by simp [Prune.deletesClass, Policy.deletes, hr]; rfl,
          by simp [hd]; rfl⟩

theorem askedAbout_class (policy : Policy) (named : List (AnnotationEntry × String))
    (s : State) : Marks policy named s (askedAbout (annotationOnClass policy) s named) := by
  induction named generalizing s with
  | nil => exact ⟨rfl, rfl, (Bool.or_false _).symm, rfl⟩
  | cons e named ih =>
    have hfirst := annotationOnClass_marks policy e s
    have hrest := ih ((annotationOnClass policy e.2 e.1).run s).2
    refine ⟨hrest.ledger.trans hfirst.ledger, hrest.className.trans hfirst.className, ?_, ?_⟩
    · refine hrest.unwanted.trans ?_
      rw [hfirst.unwanted, List.any_cons, List.any_cons, List.any_nil, Bool.or_false,
        Bool.or_assoc]
    · refine hrest.metadata.trans ?_
      rw [hfirst.metadata, List.filter_cons, List.filter_cons, List.filter_nil]
      split
      · rw [List.map_cons, List.map_cons, List.map_nil, List.getLast?_cons, List.getLast?_cons]
        cases ((named.filter _).map _).getLast? <;> rfl
      · simp

theorem header_run (h : ClassHeader) (s : State) :
    let s' := { s with className := h.name }
    (header h).run s =
      if s.tracker.containsClass h.name then discardClass.run s'
      else
        match (h.superName.toList ++ h.interfaces).find? s.tracker.containsClass with
        | some parent => (log (.unwantedParent h.name parent) >>= fun _ => discardClass).run s'
        | none => ((), s') := by
  show StateT.run (if s.tracker.containsClass h.name then discardClass
    else match (h.superName.toList ++ h.interfaces).find? s.tracker.containsClass with
      | some parent => log (.unwantedParent h.name parent) >>= fun _ => discardClass
      | none => pure ()) { s with className := h.name } = _
  cases s.tracker.containsClass h.name with
  | true => rfl
  | false => cases (h.superName.toList ++ h.interfaces).find? s.tracker.containsClass <;> rfl

/-- What the header tells a walk. -/
theorem header_state (h : ClassHeader) (s : State) :
    let s' := ((header h).run s).2
    s'.ledger = s.ledger ∧ s'.className = h.name ∧ s'.metadata = s.metadata ∧
      s'.unwanted = (s.unwanted || Prune.headerDoomed s.tracker h) := by
  rw [header_run]
  unfold Prune.headerDoomed
  cases s.tracker.containsClass h.name with
  | true => exact ⟨rfl, rfl, rfl, (Bool.or_true _).symm⟩
  | false =>
    cases hfind : (h.superName.toList ++ h.interfaces).find? s.tracker.containsClass with
    | some parent =>
      have hany : (h.superName.toList ++ h.interfaces).any s.tracker.containsClass = true :=
        List.any_eq_true.2 ⟨parent, List.mem_of_find?_eq_some hfind, List.find?_some hfind⟩
      exact ⟨rfl, rfl, rfl, by rw [hany, Bool.or_true, Bool.or_true]; rfl⟩
    | none =>
      have hany : (h.superName.toList ++ h.interfaces).any s.tracker.containsClass = false := by
        simpa using hfind
      exact ⟨rfl, rfl, rfl, by rw [hany, Bool.or_false, Bool.or_false]; rfl⟩

theorem walkFinish_follows (policy : Policy) (c : ClassFile) (methods : List KeptMethod)
    (changed : Bool) (s : State) (hwanted : s.unwanted = false) :
    Follows (Walk.finish (visitor policy) s.className c methods changed) s
      (Prune.finish s.className s.ledger c s.metadata methods changed)
      (fun b o s' => o = b.2 ∧ Moves s b.1 s') := by
  unfold Walk.finish Prune.finish
  cases (Walk.installStubs methods).run c.pool with
  | error fault pool => exact Follows.throw
  | ok methods pool =>
    refine Follows.bind (finish_follows pool s hwanted) fun b r s' h => ?_
    obtain ⟨rfl, hm⟩ := h
    obtain ⟨l, new, pool⟩ := b
    refine Follows.get ?_
    have hkept : (visitor policy).isDiscarded s' = false := hm.unwanted.trans hwanted
    rw [hkept]
    refine Follows.bind Follows.check fun _ replaced s'' h => ?_
    obtain ⟨rfl, rfl⟩ := h
    exact Follows.pure ⟨rfl, hm⟩

theorem header_name {c : ClassFile} {h : ClassHeader} (hh : Walk.header c = .ok h) :
    c.name = .ok h.name := by
  unfold Walk.header at hh
  cases hs : Walk.optionalIndex c.superClass c.pool.className with
  | error e => simp [hs, bind, Except.bind] at hh
  | ok superName =>
    cases hi : c.interfaces.mapM c.pool.className with
    | error e => simp [hs, hi, bind, Except.bind] at hh
    | ok interfaces =>
      cases hn : c.name with
      | error e => simp [hs, hi, hn, bind, Except.bind] at hh
      | ok name =>
        simp only [hs, hi, hn, bind, Except.bind, pure, Except.pure, Except.ok.injEq] at hh
        rw [← hh]

end Pruner

open Pruner in
/-- A walk with the pruning visitor, from a fresh state, does what the pass as a function does. -/
theorem walk_follows (policy : Policy) (c : ClassFile) (s : State)
    (hwanted : s.unwanted = false) (hmetadata : s.metadata = none) :
    Follows (Walk.run (visitor policy) c) s (Prune.run policy s.ledger c)
      (fun b o s' => o = b.2 ∧ s'.ledger = b.1 ∧ c.name = .ok s'.className) := by
  unfold Walk.run Prune.run
  cases hname : c.name with
  | error fault => exact Follows.throw
  | ok name =>
  refine Follows.checked ?_
  cases hheader : Walk.header c with
  | error fault => exact Follows.throw
  | ok h =>
  obtain rfl : h.name = name := by
    rw [header_name hheader] at hname
    exact Except.ok.inj hname
  refine Follows.checked ?_
  refine Follows.visit ?_
  obtain ⟨hledger, hself, hfresh, hheaded⟩ := header_state h s
  generalize hs' : (StateT.run (header h) s).2 = s' at hledger hself hfresh hheaded
  show Follows _ (StateT.run (header h) s).2 _ _
  rw [hs']
  rw [hwanted, Bool.false_or] at hheaded
  refine Follows.bind (Follows.adapt _ (annotationTables_follows c.pool
    (annotationOnClass_disposition policy) c.attributes s')) fun ms r s'' hs'' => ?_
  obtain ⟨rfl, hasked⟩ := hs''
  obtain ⟨hledger', hself', hunwanted, hlast⟩ := askedAbout_class policy (Marked.all ms) s'
  rw [← hasked, hledger] at hledger'
  rw [← hasked, hself] at hself'
  rw [← hasked, hfresh, hmetadata, Option.or_none] at hlast
  rw [← hasked, hheaded] at hunwanted
  clear hasked hheaded hledger hself hfresh hs' hwanted hmetadata
  replace hunwanted : s''.unwanted =
    (Prune.headerDoomed s.ledger.tracker h || Marked.anyOf (Prune.deletesClass policy) ms) :=
    hunwanted
  replace hlast : s''.metadata = Prune.metadataOf ms := hlast
  generalize Marked.stripAll (Prune.stripsFromClass policy) ms = r
  obtain ⟨attributes, stripped⟩ := r
  rw [← hledger'] at hunwanted ⊢
  rw [← hself'] at hname ⊢
  refine Follows.get ?_
  show Follows (if s''.unwanted then _ else _) _ _ _
  dsimp only
  rw [← hunwanted]
  cases hwanted : s''.unwanted with
  | true => exact Follows.pure ⟨rfl, rfl, rfl⟩
  | false =>
  refine Follows.bind (Follows.adapt _ (links_follows policy c.pool attributes s''))
    fun links r t ht => ?_
  obtain ⟨rfl, hdooms⟩ := ht
  refine Follows.get ?_
  show Follows (if t.unwanted then _ else _) _ _ _
  have htracker : s''.ledger.tracker = s''.tracker := rfl
  rw [htracker, ← Bool.false_or (links.any _), ← hwanted, ← hdooms.unwanted, ← hlast,
    ← hdooms.metadata, ← hdooms.ledger, ← hdooms.className]
  cases hwanted' : t.unwanted with
  | true => exact Follows.pure ⟨rfl, rfl, rfl⟩
  | false =>
  refine Follows.bind (Follows.adapt _ (members_follows policy _ t)) fun b r t' hm => ?_
  obtain ⟨rfl, hm⟩ := hm
  obtain ⟨l, fields, methods, changed⟩ := b
  obtain rfl : t'.ledger = l := hm.ledger
  dsimp only
  rw [← hm.className, ← hm.metadata]
  refine Follows.mono (walkFinish_follows policy _ methods _ t' (hm.unwanted.trans hwanted'))
    fun b o t'' ho => ?_
  obtain ⟨rfl, hm'⟩ := ho
  exact ⟨rfl, hm'.ledger, by rw [hm'.className]⟩

end JarPruning
