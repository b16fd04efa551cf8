import JarPruning.Proofs.Pass.Repacked

/-!
What a metadata annotation says in a pool that has grown, and with other packed strings. Only the
packed strings change: the kind and the stored strings stand under other names.
-/
namespace JarPruning

open ConstantPool (Grows)

namespace AnnotationEntry

variable {p q : ConstantPool} {name : String} {a b : AnnotationEntry}

theorem lookup_persists (h : Grows p q) (name : String) (es : List (UInt16 × ElementValue)) :
    Persists (lookup p name es) (lookup q name es) := by
  induction es with
  | nil => exact .refl _
  | cons e es ih =>
    obtain ⟨i, v⟩ := e
    rw [lookup, lookup]
    refine (h.utf8 i).bind fun text _ => ?_
    split
    · exact .refl _
    · exact ih

theorem intElement_persists (h : Grows p q) (a : AnnotationEntry) (name : String) :
    Persists (a.intElement? p name) (a.intElement? q name) := by
  refine (lookup_persists h name a.elements).bind fun value? _ => ?_
  rcases value? with _ | ⟨tag, index⟩ | _ | _ | _ | _
  · exact .refl _
  · dsimp only
    split
    · exact (h.integer index).bind fun _ _ => .refl _
    · exact .refl _
  all_goals exact .refl _

theorem stringItem_persists (h : Grows p q) (name : String) (v : ElementValue) :
    Persists (stringItem p name v) (stringItem q name v) := by
  cases v with
  | const tag index =>
    rw [stringItem, stringItem]
    split
    · exact h.utf8 index
    · exact .refl _
  | _ => exact .refl _

theorem stringsElement_persists (h : Grows p q) (a : AnnotationEntry) (name : String) :
    Persists (a.stringsElement? p name) (a.stringsElement? q name) := by
  refine (lookup_persists h name a.elements).bind fun value? _ => ?_
  rcases value? with _ | _ | _ | _ | _ | items
  case some.array =>
    exact (Persists.mapM fun v _ => stringItem_persists h name v).bind fun _ _ => .refl _
  all_goals exact .refl _

/-- An element of another name does not matter to a lookup. -/
theorem lookup_other {pre post : List (UInt16 × ElementValue)} {i : UInt16} {text : String}
    (hi : p.utf8 i = .ok text) (hne : text ≠ name) (v w : ElementValue) :
    lookup p name (pre ++ (i, v) :: post) = lookup p name (pre ++ (i, w) :: post) := by
  induction pre with
  | nil => simp [lookup, hi, hne, bind, Except.bind]
  | cons e pre ih =>
    obtain ⟨j, u⟩ := e
    rw [List.cons_append, List.cons_append, lookup, lookup, ih]

theorem stringItems_strings {texts : List String} {is : List UInt16}
    (h : List.Forall₂ (fun s i => p.utf8 i = .ok s) texts is) :
    (ElementValue.strings is).mapM (stringItem p name) = .ok texts := by
  rw [mapM_ok_iff, ElementValue.strings, List.forall₂_map_left_iff]
  refine h.flip.imp fun i s hs => ?_
  rw [stringItem, if_pos rfl]
  exact hs

variable {old new : List String}

/-- The other elements say what they said. -/
theorem Restrung.element_other (h : Restrung p q name old new a b) (hgrows : Grows p q)
    {other : String} (hne : other ≠ name) : b.element? q other = a.element? q other := by
  obtain ⟨hlocated, -, -⟩ := h
  unfold element?
  rw [hlocated.split]
  exact lookup_other (hgrows.utf8 _ _ hlocated.named) hne.symm _ _

/-- The strings under the name are the new ones. -/
theorem Restrung.strings (h : Restrung p q name old new a b) (hgrows : Grows p q) :
    b.stringsElement? q name = .ok (some new) := by
  cases h with
  | @intro pre post i is js hlocated hread hwritten =>
    have hnew : Located q name (a.withStrings pre i js post).elements pre i
        (.array (ElementValue.strings js)) post :=
      ⟨rfl, hgrows.utf8 _ _ hlocated.named, (hlocated.grow hgrows).first⟩
    refine bind_ok_iff.2 ⟨_, hnew.lookup, ?_⟩
    exact bind_ok_iff.2 ⟨_, stringItems_strings hwritten, rfl⟩

theorem Restrung.typeIndex (h : Restrung p q name old new a b) : b.typeIndex = a.typeIndex := by
  obtain ⟨-, -, -⟩ := h
  rfl

theorem Restrung.fits (h : Restrung p q name old new a b) (ha : a.Fits)
    (hnew : new.length < 256 ^ 2) : b.Fits := by
  obtain ⟨hlocated, -, hwritten⟩ := h
  have hcount := ha.count
  have helements := ha.elements
  rw [hlocated.split] at hcount helements
  refine ⟨by simpa [withStrings] using hcount, fun e he => ?_⟩
  rcases List.mem_append.1 he with he | he
  · exact helements e (List.mem_append_left _ he)
  rcases List.mem_cons.1 he with rfl | he
  · refine .array ?_ ?_
    · rw [ElementValue.strings, List.length_map, ← hwritten.length_eq]
      exact hnew
    · intro v hv
      obtain ⟨i, -, rfl⟩ := List.mem_map.1 hv
      exact .const rfl
  · exact helements e (List.mem_append_right _ (List.mem_cons_of_mem _ he))

end AnnotationEntry

namespace Prune

open AnnotationEntry (Restrung)

variable {p q : ConstantPool} {a b : AnnotationEntry} {kind : Metadata.Kind}
  {d1 d2 chunks : List String}

theorem stringsOf_persists (h : Grows p q) (a : AnnotationEntry) (name : String) :
    Persists (Pruner.stringsOf p a name) (Pruner.stringsOf q a name) :=
  (AnnotationEntry.stringsElement_persists h a name).bind fun _ _ => .refl _

theorem metadataParts_persists (h : Grows p q) (a : AnnotationEntry) :
    Persists (Pruner.metadataParts p a) (Pruner.metadataParts q a) := by
  refine (AnnotationEntry.intElement_persists h a "k").bind fun code _ => ?_
  dsimp only
  split
  · exact (stringsOf_persists h a "d1").bind fun _ _ =>
      (stringsOf_persists h a "d2").bind fun _ _ => .refl _
  · exact .refl _

/-- A repacked annotation has the new strings, and its kind and stored strings as before. -/
theorem metadataParts_restrung (h : Restrung p q "d1" d1 chunks a b) (hgrows : Grows p q)
    (hparts : Pruner.metadataParts p a = .ok (kind, d1, d2)) (heditable : kind.isEditable = true) :
    Pruner.metadataParts q b = .ok (kind, chunks, d2) := by
  have hgrown := metadataParts_persists hgrows a _ hparts
  obtain ⟨code, hcode, hgrown⟩ := bind_ok_iff.1 hgrown
  have hcode' : b.intElement? q "k" = .ok code := by
    unfold AnnotationEntry.intElement? at hcode ⊢
    rwa [h.element_other hgrows (by decide)]
  have hd2 : b.stringsElement? q "d2" = a.stringsElement? q "d2" := by
    unfold AnnotationEntry.stringsElement?
    rw [h.element_other hgrows (by decide)]
  refine bind_ok_iff.2 ⟨code, hcode', ?_⟩
  dsimp only at hgrown ⊢
  split at hgrown
  · next hkind =>
    obtain ⟨old, -, hgrown⟩ := bind_ok_iff.1 hgrown
    obtain ⟨stored, hstored, hgrown⟩ := bind_ok_iff.1 hgrown
    cases hgrown
    rw [if_pos hkind]
    refine bind_ok_iff.2 ⟨chunks, ?_, bind_ok_iff.2 ⟨d2, ?_, rfl⟩⟩
    · exact bind_ok_iff.2 ⟨_, h.strings hgrows, rfl⟩
    · unfold Pruner.stringsOf at hstored ⊢
      rwa [hd2]
  · next hkind =>
    cases hgrown
    exact absurd heditable hkind

end Prune

end JarPruning
