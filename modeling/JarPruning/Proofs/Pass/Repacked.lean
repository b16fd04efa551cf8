import JarPruning.Proofs.ClassFile.Element
import JarPruning.Proofs.Metadata.Payload
import JarPruning.Proofs.Pass.Prune

/-!
What a pass does with a metadata annotation. One that loses records gets strings that do not even
start with those it had, so its table is not the front of what it was.
-/
namespace JarPruning

open ConstantPool (Grows FitsText)

namespace AnnotationEntry

/-- Annotations that differ in the strings under one name. -/
inductive Restrung (p q : ConstantPool) (name : String) (old new : List String) :
    AnnotationEntry → AnnotationEntry → Prop
  | intro {a : AnnotationEntry} {pre post : List (UInt16 × ElementValue)} {i : UInt16}
    {is js : List UInt16}
    (located : Located p name a.elements pre i (.array (ElementValue.strings is)) post)
    (read : List.Forall₂ (fun s i => p.utf8 i = .ok s) old is)
    (written : List.Forall₂ (fun s i => q.utf8 i = .ok s) new js) :
    Restrung p q name old new a (a.withStrings pre i js post)

variable {p q : ConstantPool} {name : String} {old new : List String} {a b : AnnotationEntry}

theorem Located.withStrings {pre post : List (UInt16 × ElementValue)} {i : UInt16}
    {is : List UInt16}
    (h : Located p name a.elements pre i (.array (ElementValue.strings is)) post) :
    a = a.withStrings pre i is post := by
  obtain ⟨t, es⟩ := a
  obtain rfl : es = _ := h.split
  rfl

theorem Located.fits {pre post : List (UInt16 × ElementValue)} {i : UInt16} {is : List UInt16}
    (h : Located p name a.elements pre i (.array (ElementValue.strings is)) post) (ha : a.Fits) :
    is.length < 256 ^ 2 := by
  have hmem : (i, .array (ElementValue.strings is)) ∈ a.elements := by
    rw [h.split]
    exact List.mem_append_right _ (List.mem_cons_self ..)
  have hfits := ha.elements _ hmem
  cases hfits with
  | array hcount _ => rwa [ElementValue.strings, List.length_map] at hcount

/-- An annotation grows or shrinks with the number of its strings. -/
theorem Restrung.length_bytes (h : Restrung p q name old new a b) :
    b.bytes.length + 3 * old.length = a.bytes.length + 3 * new.length := by
  obtain @⟨pre, post, i, is, js, hlocated, hread, hwritten⟩ := h
  have ha := congrArg (fun a => (bytes a).length) hlocated.withStrings
  simp only [length_withStrings a pre i is post] at ha
  rw [length_withStrings, hread.length_eq, hwritten.length_eq, ha]
  omega

/-- No string of a pool has more characters than its length can count. -/
theorem length_strings_le (hp : p.Fits) {is : List UInt16}
    (h : List.Forall₂ (fun s i => p.utf8 i = .ok s) old is) :
    (old.flatMap (·.toList)).length ≤ is.length * (256 ^ 2 - 1) := by
  induction h with
  | nil => simp
  | cons hs _ ih =>
    have := hp.length_utf8 hs
    rw [List.flatMap_cons, List.length_append, List.length_cons, Nat.succ_mul]
    omega

/-- The strings of an annotation have moderately many characters. -/
theorem Restrung.moderate (h : Restrung p q name old new a b) (hp : p.Fits) (ha : a.Fits) :
    Metadata.Payload.Moderate old := by
  obtain ⟨hlocated, hread, -⟩ := h
  have hlength := length_strings_le hp hread
  have := Nat.mul_le_mul_right (256 ^ 2 - 1) (Nat.le_of_lt_succ (hlocated.fits ha))
  unfold Metadata.Payload.Moderate
  omega

theorem prefix_of_indices {is js : List UInt16}
    (hold : List.Forall₂ (fun s i => q.utf8 i = .ok s) old is)
    (hnew : List.Forall₂ (fun s i => q.utf8 i = .ok s) new js) (h : is <+: js) : old <+: new := by
  induction hold generalizing new js with
  | nil => exact List.nil_prefix
  | cons hs _ ih =>
    obtain ⟨more, rfl⟩ := h
    obtain _ | ⟨ht, hnew⟩ := hnew
    obtain rfl := Except.ok.inj (hs.symm.trans ht)
    exact List.cons_prefix_cons.2 ⟨rfl, ih hnew ⟨more, rfl⟩⟩

theorem Restrung.front (h : Restrung p q name old new a b) (hgrows : Grows p q) (ha : a.Fits)
    {before after : List AnnotationEntry} {s u : List UInt8}
    (hfront : tableBytes (before ++ b :: after) ++ s = tableBytes (before ++ a :: after) ++ u) :
    old <+: new := by
  obtain ⟨hlocated, hread, hwritten⟩ := h
  rw [hlocated.withStrings] at hfront
  refine prefix_of_indices (hread.imp fun _ _ h => hgrows.utf8 _ _ h) hwritten ?_
  exact withStrings_front (hlocated.fits ha) hfront

end AnnotationEntry

namespace Prune

open AnnotationEntry (Restrung)

variable {self : String} {l l' : Ledger} {p q : ConstantPool} {a b : AnnotationEntry}

theorem stringsOf_ok {name : String} {texts : List String}
    (h : Pruner.stringsOf p a name = .ok texts) (hsome : texts ≠ []) :
    a.stringsElement? p name = .ok (some texts) := by
  obtain ⟨texts?, htexts, h⟩ := bind_ok_iff.1 h
  cases texts? with
  | none =>
    cases h
    exact absurd rfl hsome
  | some texts' =>
    cases h
    exact htexts

theorem repack_ok {chunks old : List String} (hp : p.Fits)
    (hold : Pruner.stringsOf p a "d1" = .ok old) (hsome : old ≠ [])
    (hfit : ∀ s ∈ chunks, FitsText s) (h : (Pruner.repack a chunks).run p = .ok b q) :
    Grows p q ∧ Restrung p q "d1" old chunks a b := by
  obtain ⟨pre, i, is, post, hlocated, hread⟩ :=
    AnnotationEntry.stringsElement_some (stringsOf_ok hold hsome)
  obtain ⟨v, p', hv, h⟩ := run_bind_ok h
  obtain ⟨hgrows, js, rfl, hwritten⟩ := ElementValue.ofStrings_ok hp hfit hv
  obtain ⟨p'', _, hp'', h⟩ := run_bind_ok h
  cases hp''
  rw [(hlocated.grow hgrows).replace] at h
  cases h
  exact ⟨hgrows, .intro hlocated hread hwritten⟩

/-- An annotation is repacked where its strings stood. -/
theorem repack_run {chunks : List String} {pre post : List (UInt16 × ElementValue)} {i : UInt16}
    {old : ElementValue} {js : List UInt16}
    (hlocated : AnnotationEntry.Located q "d1" a.elements pre i old post)
    (h : (ElementValue.ofStrings chunks).run p = .ok (.array (ElementValue.strings js)) q) :
    (Pruner.repack a chunks).run p = .ok (a.withStrings pre i js post) q := by
  have hget : (get : ConstantPool.Extension ConstantPool).run q = .ok q q := rfl
  unfold Pruner.repack
  rw [EStateM.run_bind, h]
  dsimp only
  unfold AnnotationEntry.setElement
  rw [EStateM.run_bind, hget]
  simp only [hlocated.replace]
  rfl

/-- What the metadata annotation says, if it is of a kind that is edited. -/
structure Described (pool : ConstantPool) (a : AnnotationEntry) (kind : Metadata.Kind)
    (d1 d2 : List String) : Prop where
  parts : Pruner.metadataParts pool a = .ok (kind, d1, d2)
  editable : kind.isEditable = true
  packed : d1 ≠ []

/-- A metadata annotation that loses nothing. -/
def MetadataRests (owner : String) (t : Tracker) (pool : ConstantPool) (a : AnnotationEntry) :
    Prop :=
  (∃ parts, Pruner.metadataParts pool a = .ok parts) ∧
    ∀ kind d1 d2, Described pool a kind d1 d2 →
      ∃ payload changes, swept owner t kind d1 d2 = .ok (payload, changes) ∧ changes.removed = []

/-- A metadata annotation that loses records. -/
structure Repacked (owner : String) (l : Ledger) (p : ConstantPool) (a b : AnnotationEntry)
    (q : ConstantPool) (kind : Metadata.Kind) (d1 d2 : List String) (payload : Metadata.Payload)
    (changes : Metadata.Changes) : Prop extends Described p a kind d1 d2 where
  swept : Prune.swept owner l.tracker kind d1 d2 = .ok (payload, changes)
  lost : changes.removed ≠ []
  run : (Pruner.repack a payload.encode).run p = .ok b q

/-- Strings that metadata has are those of its elements. -/
theorem metadataParts_strings {kind : Metadata.Kind} {d1 d2 : List String}
    (h : Pruner.metadataParts p a = .ok (kind, d1, d2)) (hsome : d1 ≠ []) :
    Pruner.stringsOf p a "d1" = .ok d1 ∧ Pruner.stringsOf p a "d2" = .ok d2 := by
  obtain ⟨code, -, hparts⟩ := bind_ok_iff.1 h
  dsimp only at hparts
  split at hparts
  · obtain ⟨d1', hd1, hparts⟩ := bind_ok_iff.1 hparts
    obtain ⟨d2', hd2, hparts⟩ := bind_ok_iff.1 hparts
    cases hparts
    exact ⟨hd1, hd2⟩
  · cases hparts
    exact absurd rfl hsome

theorem Described.strings {kind : Metadata.Kind} {d1 d2 : List String}
    (h : Described p a kind d1 d2) :
    Pruner.stringsOf p a "d1" = .ok d1 ∧ Pruner.stringsOf p a "d2" = .ok d2 :=
  metadataParts_strings h.parts h.packed

theorem Described.unique {kind kind' : Metadata.Kind} {d1 d1' d2 d2' : List String}
    (h : Described p a kind d1 d2) (h' : Described p a kind' d1' d2') :
    kind = kind' ∧ d1 = d1' ∧ d2 = d2' := by
  simpa using h.parts.symm.trans h'.parts

/-- Metadata of which nothing is swept rests. -/
theorem Described.rests {kind : Metadata.Kind} {d1 d2 : List String} {owner : String} {t : Tracker}
    {payload : Metadata.Payload} {changes : Metadata.Changes} (h : Described p a kind d1 d2)
    (hswept : swept owner t kind d1 d2 = .ok (payload, changes)) (hnone : changes.removed = []) :
    MetadataRests owner t p a := by
  refine ⟨⟨_, h.parts⟩, fun kind' d1' d2' h' => ?_⟩
  obtain ⟨rfl, rfl, rfl⟩ := h.unique h'
  exact ⟨payload, changes, hswept, hnone⟩

theorem metadata_ok {new : List AnnotationEntry}
    (h : metadata self l p a = .ok (l', new, q)) :
    (MetadataRests self l.tracker p a ∧ l' = l ∧ new = [] ∧ q = p) ∨
      ∃ b kind d1 d2 payload changes, Repacked self l p a b q kind d1 d2 payload changes ∧
        l' = l.schedule changes ∧ new = [b] := by
  unfold metadata at h
  obtain ⟨⟨kind, d1, d2⟩, hparts, h⟩ := bind_ok_iff.1 h
  replace hparts := mapError_ok_iff.1 hparts
  dsimp only at h
  split at h
  · next hbare =>
    cases h
    refine .inl ⟨⟨⟨_, hparts⟩, fun kind' d1' d2' hd => ?_⟩, rfl, rfl, rfl⟩
    obtain ⟨rfl, rfl, rfl⟩ : kind' = kind ∧ d1' = d1 ∧ d2' = d2 := by
      simpa using hd.parts.symm.trans hparts
    simp [hd.editable, hd.packed] at hbare
  next hpacked =>
  have hdescribed : Described p a kind d1 d2 := by
    simp only [Bool.or_eq_true, Bool.not_eq_true', List.isEmpty_iff, not_or,
      Bool.not_eq_false] at hpacked
    exact ⟨hparts, hpacked.1, hpacked.2⟩
  obtain ⟨⟨payload, changes⟩, hswept, h⟩ := bind_ok_iff.1 h
  dsimp only at h
  split at h
  · next hempty =>
    cases h
    exact .inl ⟨hdescribed.rests hswept (List.isEmpty_iff.1 hempty), rfl, rfl, rfl⟩
  · next hlost =>
    cases hrun : (Pruner.repack a payload.encode).run p with
    | error fault r =>
      rw [hrun] at h
      cases h
    | ok b r =>
      rw [hrun] at h
      cases h
      exact .inr ⟨b, kind, d1, d2, payload, changes,
        ⟨hdescribed, hswept, fun h => hlost (List.isEmpty_iff.2 h), hrun⟩, rfl, rfl⟩

variable {kind : Metadata.Kind} {d1 d2 : List String} {payload : Metadata.Payload}
  {changes : Metadata.Changes}

theorem swept_ok {t : Tracker} (h : swept self t kind d1 d2 = .ok (payload, changes)) :
    ∃ before, Metadata.Payload.decode kind d1 d2 = .ok before ∧
      before.sweep self t = .ok (payload, changes) :=
  bind_ok_iff.1 (mapError_ok_iff.1 h)

theorem swept_of_sweep {t : Tracker} {before : Metadata.Payload}
    (hdecode : Metadata.Payload.decode kind d1 d2 = .ok before)
    (hsweep : before.sweep self t = .ok (payload, changes)) :
    swept self t kind d1 d2 = .ok (payload, changes) :=
  mapError_ok_iff.2 (bind_ok_iff.2 ⟨before, hdecode, hsweep⟩)

/-- A metadata annotation that loses records is replaced. -/
theorem Repacked.metadata_eq (h : Repacked self l p a b q kind d1 d2 payload changes) :
    metadata self l p a = .ok (l.schedule changes, [b], q) := by
  have hedited : (!kind.isEditable || d1.isEmpty) = false := by simp [h.editable, h.packed]
  have hlost : changes.isEmpty = false := by simp [Metadata.Changes.isEmpty, h.lost]
  unfold metadata
  simp only [h.parts, h.swept, h.run, hedited, hlost, mapError_ok, bind, Except.bind]
  rfl

theorem Repacked.restrung (h : Repacked self l p a b q kind d1 d2 payload changes)
    (hp : p.Fits) : Grows p q ∧ Restrung p q "d1" d1 payload.encode a b := by
  refine repack_ok hp h.strings.1 h.packed (fun s hs => ?_) h.run
  have hfits := Metadata.Packing.encode_fits payload.packing _ s hs
  rwa [← ModifiedUtf8.length_encode] at hfits

/-- The strings of metadata have as many characters as the bytes of the annotation allow. -/
theorem length_parts_le (hp : p.Fits) (h : Pruner.metadataParts p a = .ok (kind, d1, d2)) :
    (d1.flatMap (·.toList)).length ≤ a.bytes.length * (256 ^ 2 - 1) := by
  by_cases hsome : d1 = []
  · subst hsome
    exact Nat.zero_le _
  obtain ⟨pre, i, is, post, hlocated, hread⟩ :=
    AnnotationEntry.stringsElement_some (stringsOf_ok (metadataParts_strings h hsome).1 hsome)
  have his : is.length ≤ a.bytes.length := by
    rw [hlocated.withStrings, AnnotationEntry.length_withStrings]
    omega
  exact Nat.le_trans (AnnotationEntry.length_strings_le hp hread) (Nat.mul_le_mul_right _ his)

/-- An annotation that fits has no more strings than an array can count. -/
theorem count_parts_lt (ha : a.Fits) (h : Pruner.metadataParts p a = .ok (kind, d1, d2)) :
    d1.length < 256 ^ 2 := by
  by_cases hsome : d1 = []
  · subst hsome
    decide
  obtain ⟨pre, i, is, post, hlocated, hread⟩ :=
    AnnotationEntry.stringsElement_some (stringsOf_ok (metadataParts_strings h hsome).1 hsome)
  rw [hread.length_eq]
  exact hlocated.fits ha

theorem Repacked.not_front (h : Repacked self l p a b q kind d1 d2 payload changes)
    (hp : p.Fits) (ha : a.Fits) (before after : List AnnotationEntry) (s u : List UInt8) :
    AnnotationEntry.tableBytes (before ++ b :: after) ++ s ≠
      AnnotationEntry.tableBytes (before ++ a :: after) ++ u := by
  intro hfront
  obtain ⟨hgrows, hrestrung⟩ := h.restrung hp
  have hpre := hrestrung.front hgrows ha hfront
  obtain ⟨before, hdecode, hsweep⟩ := swept_ok h.swept
  exact Metadata.Payload.not_prefix_of_sweep hdecode (hrestrung.moderate hp ha) hsweep h.lost hpre

end Prune

end JarPruning
