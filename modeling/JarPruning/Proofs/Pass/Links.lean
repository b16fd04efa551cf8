import JarPruning.Proofs.ClassFile.Growth
import JarPruning.Proofs.Pass.Marks

/-!
Links between classes. A row is what it was read from, so a table that lost a row shows it in its
first bytes.
-/
namespace JarPruning

open BigEndian

theorem Walk.readInnerRow_finds (pool : ConstantPool) :
    Reader.Finds (Walk.readInnerRow pool) fun row front =>
      front = row.raw ∧ row.raw.length = 8 ∧ Walk.innerLink pool row.raw = .ok row.value := by
  refine (Reader.take_finds 8).bind fun raw front h => ?_
  obtain ⟨rfl, hlength⟩ := h
  intro c row c' h
  cases hlink : Walk.innerLink pool front with
  | error e => simp [hlink, StateT.run, bind, StateT.bind, Except.bind, liftM, monadLift,
      MonadLift.monadLift, StateT.lift] at h
  | ok link =>
    simp only [hlink, StateT.run, bind, StateT.bind, Except.bind, liftM, monadLift,
      MonadLift.monadLift, StateT.lift] at h
    cases h
    exact ⟨[], rfl, List.append_nil _, hlength, hlink⟩

theorem Walk.readReferenceRow_finds (pool : ConstantPool) :
    Reader.Finds (Walk.readReferenceRow pool) fun row front =>
      front = row.raw ∧ ∃ index, row.raw = word16 index ∧
        pool.className index = .ok row.value := by
  refine Reader.word16_finds.bind fun index front h => ?_
  subst h
  intro c row c' h
  cases hname : pool.className index with
  | error e => simp [hname, StateT.run, bind, StateT.bind, Except.bind, liftM, monadLift,
      MonadLift.monadLift, StateT.lift] at h
  | ok name =>
    simp only [hname, StateT.run, bind, StateT.bind, Except.bind, liftM, monadLift,
      MonadLift.monadLift, StateT.lift] at h
    cases h
    exact ⟨[], rfl, List.append_nil _, index, rfl, hname⟩

theorem Walk.readInnerRow_reads {pool : ConstantPool} {row : Walk.Row InnerLink}
    (h : row.raw.length = 8 ∧ Walk.innerLink pool row.raw = .ok row.value) :
    Reader.Reads (Walk.readInnerRow pool) row.raw row := by
  obtain ⟨hlength, hlink⟩ := h
  have htake := Reader.take_reads row.raw
  rw [hlength] at htake
  refine htake.ends fun rest offset => ?_
  simp only [hlink]
  rfl

theorem Walk.readReferenceRow_reads {pool : ConstantPool} {row : Walk.Row String}
    (h : ∃ index, row.raw = word16 index ∧ pool.className index = .ok row.value) :
    Reader.Reads (Walk.readReferenceRow pool) row.raw row := by
  obtain ⟨raw, value⟩ := row
  obtain ⟨index, rfl, hname⟩ := h
  refine (Reader.word16_reads index).ends fun rest offset => ?_
  simp only [hname]
  rfl

namespace Link

/-- Rows are read back from the table that is written of them. -/
theorem rows_countedBytes {α : Type} {read : Reader (Walk.Row α)} {table : List (Walk.Row α)}
    (h : ∀ row ∈ table, Reader.Reads read row.raw row) (hcount : table.length < 256 ^ 2)
    (name : UInt16) : rows read ⟨name, countedBytes Walk.Row.raw table⟩ = .ok table := by
  simpa [rows] using (Reader.counted_reads h hcount).front []

/-- What an attribute's name makes of it. -/
inductive Read (pool : ConstantPool) (a : Attribute) : Link → Prop
  | outer {link : OuterLink} (named : pool.utf8 a.name = .ok "EnclosingMethod")
    (read : (Walk.readOuterLink pool).front a.payload = .ok link) : Read pool a (.outer link)
  | inner {table : List (Walk.Row InnerLink)} (named : pool.utf8 a.name = .ok "InnerClasses")
    (read : rows (Walk.readInnerRow pool) a = .ok table) : Read pool a (.inner table)
  | host {row : Walk.Row String} (named : pool.utf8 a.name = .ok "NestHost")
    (read : (Walk.readReferenceRow pool).front a.payload = .ok row) : Read pool a (.host row.value)
  | listed {name : String} {table : List (Walk.Row String)} (named : pool.utf8 a.name = .ok name)
    (lists : name = "NestMembers" ∨ name = "PermittedSubclasses")
    (read : rows (Walk.readReferenceRow pool) a = .ok table) : Read pool a (.listed table)
  | none {name : String} (named : pool.utf8 a.name = .ok name)
    (plain : name ∉ ["EnclosingMethod", "InnerClasses", "NestHost", "NestMembers",
      "PermittedSubclasses"]) : Read pool a .none

theorem read_ok {pool : ConstantPool} {a : Attribute} {link : Link}
    (h : Link.read pool a = .ok link) : Read pool a link := by
  unfold Link.read at h
  obtain ⟨name, hname, h⟩ := bind_ok_iff.1 h
  split at h
  · next hn =>
    subst hn
    obtain ⟨link, hlink, h⟩ := bind_ok_iff.1 h
    cases h
    exact .outer hname hlink
  next h₁ =>
  split at h
  · next hn =>
    subst hn
    obtain ⟨table, htable, h⟩ := bind_ok_iff.1 h
    cases h
    exact .inner hname htable
  next h₂ =>
  split at h
  · next hn =>
    subst hn
    obtain ⟨row, hrow, h⟩ := bind_ok_iff.1 h
    cases h
    exact .host hname hrow
  next h₃ =>
  split at h
  · next hn =>
    obtain ⟨table, htable, h⟩ := bind_ok_iff.1 h
    cases h
    exact .listed hname (.inl hn) htable
  next h₄ =>
  split at h
  · next hn =>
    obtain ⟨table, htable, h⟩ := bind_ok_iff.1 h
    cases h
    exact .listed hname (.inr hn) htable
  next h₅ =>
  cases h
  exact .none hname (by simp [h₁, h₂, h₃, h₄, h₅])

theorem Read.ok {pool : ConstantPool} {a : Attribute} {link : Link} (h : Read pool a link) :
    Link.read pool a = .ok link := by
  unfold Link.read
  cases h with
  | outer hname hread => simp [hname, hread, bind, Except.bind, pure, Except.pure]
  | inner hname hread => simp [hname, hread, bind, Except.bind, pure, Except.pure]
  | host hname hread => simp [hname, hread, bind, Except.bind, pure, Except.pure]
  | listed hname hlists hread =>
    obtain rfl | rfl := hlists <;> simp [hname, hread, bind, Except.bind, pure, Except.pure]
  | none hname hplain =>
    simp only [List.mem_cons, List.not_mem_nil, or_false, not_or] at hplain
    obtain ⟨h₁, h₂, h₃, h₄, h₅⟩ := hplain
    simp [hname, h₁, h₂, h₃, h₄, h₅, bind, Except.bind, pure, Except.pure]

theorem read_ok_iff {pool : ConstantPool} {a : Attribute} {link : Link} :
    Link.read pool a = .ok link ↔ Read pool a link := ⟨read_ok, Read.ok⟩

theorem Read.named {pool : ConstantPool} {a : Attribute} {link : Link} (h : Read pool a link) :
    ∃ name, pool.utf8 a.name = .ok name := by
  cases h <;> exact ⟨_, ‹_›⟩

theorem optionalIndex_persists {α : Type} {i : UInt16} {f g : UInt16 → Except Fault α}
    (h : Persists (f i) (g i)) :
    Persists (Walk.optionalIndex i f) (Walk.optionalIndex i g) := by
  unfold Walk.optionalIndex
  split
  · exact .refl _
  · intro a ha
    cases hf : f i with
    | error e => simp [hf, Except.map] at ha
    | ok b =>
      rw [hf] at ha
      rw [h b hf]
      exact ha

theorem innerLink_persists {p q : ConstantPool} (h : ConstantPool.Grows p q) (raw : List UInt8) :
    Persists (Walk.innerLink p raw) (Walk.innerLink q raw) := by
  unfold Walk.innerLink
  split
  · exact (h.className _).bind fun _ _ =>
      (optionalIndex_persists (h.className _)).bind fun _ _ =>
        (optionalIndex_persists (h.utf8 _)).bind fun _ _ => .refl _
  · exact .refl _

theorem readInnerRow_persist {p q : ConstantPool} (h : ConstantPool.Grows p q) :
    Reader.Persist (Walk.readInnerRow p) (Walk.readInnerRow q) :=
  (Reader.Persist.refl _).bind fun raw =>
    (Reader.Persist.lift (innerLink_persists h raw)).bind fun _ => .refl _

theorem readReferenceRow_persist {p q : ConstantPool} (h : ConstantPool.Grows p q) :
    Reader.Persist (Walk.readReferenceRow p) (Walk.readReferenceRow q) :=
  (Reader.Persist.refl _).bind fun index =>
    (Reader.Persist.lift (h.className index)).bind fun _ => .refl _

theorem readOuterLink_persist {p q : ConstantPool} (h : ConstantPool.Grows p q) :
    Reader.Persist (Walk.readOuterLink p) (Walk.readOuterLink q) :=
  (Reader.Persist.refl _).bind fun index =>
    (Reader.Persist.lift (h.className index)).bind fun _ => (Reader.Persist.refl _).bind fun index =>
      (Reader.Persist.lift (optionalIndex_persists (h.nameAndType index))).bind fun _ => .refl _

/-- A link reads the same in a pool that has grown. -/
theorem Read.grow {p q : ConstantPool} {a : Attribute} {link : Link} (h : Read p a link)
    (hgrows : ConstantPool.Grows p q) : Read q a link := by
  cases h with
  | outer hname hread =>
    exact .outer (hgrows.utf8 _ _ hname) ((readOuterLink_persist hgrows).front _ _ hread)
  | inner hname hread =>
    exact .inner (hgrows.utf8 _ _ hname) ((readInnerRow_persist hgrows).counted.front _ _ hread)
  | host hname hread =>
    exact .host (hgrows.utf8 _ _ hname) ((readReferenceRow_persist hgrows).front _ _ hread)
  | listed hname hlists hread =>
    exact .listed (hgrows.utf8 _ _ hname) hlists
      ((readReferenceRow_persist hgrows).counted.front _ _ hread)
  | none hname hplain => exact .none (hgrows.utf8 _ _ hname) hplain

/-- Whether a row leads to another class, which is gone. -/
def listsGone (t : Tracker) (self : String) : Link → Bool
  | .inner rows => rows.any fun row => row.value.inner ≠ self && t.containsClass row.value.inner
  | .listed rows => rows.any fun row => t.containsClass row.value
  | .outer _ | .host _ | .none => false

/-- A table of rows that lost one is not even the front of what it was. -/
theorem thinRows_front {α : Type} {read : Reader (Walk.Row α)} {p : Walk.Row α → Prop}
    (hread : Reader.Finds read fun row front => front = row.raw ∧ p row) {a : Attribute}
    {table : List (Walk.Row α)} (h : rows read a = .ok table) {keep : α → Bool}
    {s u : List UInt8} (hfront : (thinRows keep table a).1.payload ++ s = a.payload ++ u) :
    thinRows keep table a = (a, false) ∧ ∀ row ∈ table, keep row.value = true := by
  unfold thinRows at hfront ⊢
  dsimp only at hfront ⊢
  by_cases hlength : (table.filter fun row => keep row.value).length = table.length
  · rw [if_pos hlength]
    exact ⟨rfl, fun row hrow => List.length_filter_eq_length_iff.1 hlength row hrow⟩
  · rw [if_neg hlength] at hfront
    obtain ⟨front, rest, hpayload, rfl, hcount, -⟩ := (Reader.counted_finds hread).front h
    have hle := List.length_filter_le (fun row : Walk.Row α => keep row.value) table
    rw [hpayload, List.append_assoc] at hfront
    exact absurd (countedBytes_length_eq (by omega) hcount hfront) hlength

theorem thin_front {pool : ConstantPool} {a : Attribute} {link : Link} (h : Read pool a link)
    {t : Tracker} {self : String} {s u : List UInt8}
    (hfront : (link.thin t self a).1.payload ++ s = a.payload ++ u) :
    link.thin t self a = (a, false) ∧ link.listsGone t self = false := by
  cases h with
  | outer _ _ => exact ⟨rfl, rfl⟩
  | host _ _ => exact ⟨rfl, rfl⟩
  | none _ _ => exact ⟨rfl, rfl⟩
  | inner _ hread =>
    obtain ⟨hthin, hkeep⟩ := thinRows_front (Walk.readInnerRow_finds pool) hread hfront
    refine ⟨hthin, ?_⟩
    simp only [listsGone, List.any_eq_false]
    intro row hrow
    have := hkeep row hrow
    by_cases hself : row.value.inner = self <;> simp_all
  | listed _ _ hread =>
    obtain ⟨hthin, hkeep⟩ := thinRows_front (Walk.readReferenceRow_finds pool) hread hfront
    refine ⟨hthin, ?_⟩
    simp only [listsGone, List.any_eq_false]
    intro row hrow
    have := hkeep row hrow
    simp_all

theorem thin_name (link : Link) (t : Tracker) (self : String) (a : Attribute) :
    (link.thin t self a).1.name = a.name := by
  cases link with
  | outer _ => rfl
  | host _ => rfl
  | none => rfl
  | inner rows =>
    simp only [thin, thinRows]
    split <;> rfl
  | listed rows =>
    simp only [thin, thinRows]
    split <;> rfl

end Link

/-- A link stands beside the attribute it was read from. -/
theorem readLinks_ok_iff {pool : ConstantPool} {as : List Attribute}
    {links : List (Attribute × Link)} :
    Prune.readLinks pool as = .ok links ↔
      as = links.map (·.1) ∧ ∀ p ∈ links, Link.Read pool p.1 p.2 := by
  unfold Prune.readLinks
  rw [paired_ok_iff]
  simp only [Link.read_ok_iff]

end JarPruning
