import JarPruning.Proofs.Metadata.Roundtrip
import JarPruning.Proofs.Pass.Ledgers
import JarPruning.Proofs.Pass.Parts
import JarPruning.Proofs.Pass.Runs
import JarPruning.Proofs.Pass.Sole

/-!
Classes of moderate size. A pass makes an attribute longer only where it packs metadata anew, by as
much as the strings are more. If the metadata of a class is moderate, its strings stay few, so
everything that a run writes fits its field.
-/
namespace JarPruning

open ConstantPool (Grows)
open Metadata (Kind Payload)

/-! Strings that stay few. -/

namespace Metadata.Payload

variable {kind : Kind} {d1 d2 : List String} {p p' : Payload} {owner : String} {t : Tracker}
  {changes : Changes}

/-- Strings whose payload has the room to be packed into few strings, however often it is. Those that
do not tell their packing are taken for another payload then, so they have less room. -/
def Snug (kind : Kind) (d1 d2 : List String) : Prop :=
  (d1.flatMap (·.toList)).length ≤ 2 ^ 17 ∨
    Packing.Told d1 ∧ ∀ p, decode kind d1 d2 = .ok p → p.room ≤ 2 ^ 29

theorem Snug.room_le (h : Snug kind d1 d2) (hdecode : decode kind d1 d2 = .ok p) :
    p.room ≤ 2 ^ 29 := by
  obtain hfew | ⟨-, hroom⟩ := h
  · have := room_le_of_decode hdecode
    omega
  · exact hroom p hdecode

/-- A payload that lost records is packed into few strings, which are snug again. -/
theorem Snug.sweep (h : Snug kind d1 d2) (hmoderate : Moderate d1)
    (hdecode : decode kind d1 d2 = .ok p) (hsweep : p.sweep owner t = .ok (p', changes)) :
    p'.encode.length ≤ 65535 ∧ Snug kind p'.encode d2 := by
  have hroom := room_sweep_le hsweep
  refine ⟨length_encode_le (Nat.le_trans hroom (h.room_le hdecode)), .inr ⟨Packing.told_encode _ _,
    fun q hq => ?_⟩⟩
  obtain hfew | ⟨htold, hall⟩ := h
  · have hchars := p'.length_chars_encode_le
    have hbefore := room_le_of_decode hdecode
    have hafter := room_le_of_decode hq
    omega
  · have hfits := sweep_fits hdecode hmoderate hsweep
    obtain ⟨types, container, -, -, rfl⟩ := sweep_ok_iff.1 hsweep
    cases (decode_encode hdecode htold hfits).symm.trans hq
    exact Nat.le_trans hroom (hall p hdecode)

end Metadata.Payload

/-! Attributes that stay short. -/

namespace Attribute

def lengths (as : List Attribute) : Nat := (as.map (·.payload.length)).sum

theorem lengths_cons (a : Attribute) (as : List Attribute) :
    lengths (a :: as) = a.payload.length + lengths as := rfl

theorem lengths_append (as bs : List Attribute) : lengths (as ++ bs) = lengths as + lengths bs := by
  rw [lengths, List.map_append, List.sum_append]
  rfl

theorem length_le_lengths {a : Attribute} {as : List Attribute} (h : a ∈ as) :
    a.payload.length ≤ lengths as := by
  obtain ⟨before, after, rfl⟩ := List.append_of_mem h
  rw [lengths_append, lengths_cons]
  omega

end Attribute

open Attribute (lengths)

theorem Marked.lengths_stripAll_le {pool : ConstantPool} {ms : List Marked} (drop : String → Bool)
    (h : ∀ m ∈ ms, m.Read pool) : lengths (stripAll drop ms).1 ≤ lengths (ms.map source) := by
  induction ms with
  | nil => exact Nat.le_refl _
  | cons m ms ih =>
    have hrest := ih fun m hm => h m (List.mem_cons_of_mem _ hm)
    rw [stripAll_cons, Attribute.lengths_append, List.map_cons, Attribute.lengths_cons]
    refine Nat.add_le_add ?_ hrest
    cases hm : (m.strip drop).1 with
    | none => exact Nat.zero_le _
    | some a => exact (h m (List.mem_cons_self ..)).length_strip_le hm

theorem Link.lengths_thinned_le {pool : ConstantPool} (t : Tracker) (self : String)
    {links : List (Attribute × Link)} (h : ∀ p ∈ links, Read pool p.1 p.2) :
    lengths (links.map fun p => (p.2.thin t self p.1).1) ≤ lengths (links.map (·.1)) := by
  induction links with
  | nil => exact Nat.le_refl _
  | cons p links ih =>
    exact Nat.add_le_add ((h p (List.mem_cons_self ..)).length_thin_le t self)
      (ih fun p hp => h p (List.mem_cons_of_mem _ hp))

/-- An annotation that was read lies in an attribute. -/
theorem Marked.length_le_of_mem {pool : ConstantPool} {as : List Attribute} {ms : List Marked}
    {e : AnnotationEntry} {d : String} (h : marks pool as = .ok ms) (he : (e, d) ∈ all ms) :
    e.bytes.length + 2 ≤ lengths as := by
  obtain ⟨a, ha, -, table, htable, hin, -⟩ := (mem_all_iff h).1 he
  have htabled := length_le_countedBytes (f := AnnotationEntry.bytes) hin
  have hle := Attribute.length_le_lengths ha
  rw [(AnnotationEntry.of_readTable htable).1] at hle
  exact Nat.le_trans htabled hle

namespace Prune

variable {policy : Policy} {l : Ledger} {c : ClassFile} {p q : ConstantPool}

/-- If one annotation is of the type of the new one, the attributes are longer by what the new one
is. -/
theorem Replaced.lengths {a new : AnnotationEntry} {as as' : List Attribute} {ms : List Marked}
    {changed : Bool} (h : Replaced q new as as' changed) (hms : JarPruning.marks q as = .ok ms)
    (hin : ∃ d, (a, d) ∈ Marked.all ms) (hsame : a.typeIndex = new.typeIndex)
    (hunique : ∀ e ∈ Marked.all ms, e.1.typeIndex = new.typeIndex → e.1 = a) :
    Attribute.lengths as' + a.bytes.length = Attribute.lengths as + new.bytes.length := by
  obtain ⟨rfl, hreads⟩ := marks_ok_iff.1 hms
  generalize has : ms.map Marked.source = as at h
  cases h with
  | absent hlacks =>
    obtain ⟨d, hin⟩ := hin
    obtain ⟨m, hm, he⟩ := Marked.mem_all.1 hin
    have hlack := (hlacks m.source (has ▸ List.mem_map_of_mem hm)).entries (hreads m hm)
    exact absurd hsame (hlack _ he)
  | @found pre post x before after old _ hmarked hspelled _ hold =>
    have hx : x ∈ ms.map Marked.source := by
      rw [has]
      exact List.mem_append_right _ (List.mem_cons_self ..)
    obtain ⟨m, hm, rfl⟩ := List.mem_map.1 hx
    obtain ⟨e, he, rfl⟩ : ∃ e ∈ m.entries, e.1 = old := by
      have hread := hreads m hm
      obtain ⟨source, table⟩ := m
      cases hread with
      | plain hplain => cases hplain.symm.trans hmarked
      | table _ hspelled' _ =>
        have htable := Except.ok.inj (hspelled'.symm.trans hspelled)
        exact List.mem_map.1 (htable ▸ List.mem_append_right _ (List.mem_cons_self ..))
    obtain rfl := hunique e (Marked.mem_all.2 ⟨m, hm, he⟩) hold
    rw [Attribute.lengths_append, Attribute.lengths_append, Attribute.lengths_cons,
      Attribute.lengths_cons, (AnnotationEntry.of_readTable hspelled).1]
    simp only [AnnotationEntry.tableBytes, countedBytes, List.flatMap_append, List.flatMap_cons,
      List.length_append, BigEndian.length_digits]
    omega

namespace Rewriting

theorem lengths_unlinked_le (r : Rewriting policy l c) :
    lengths (unlinked l c r.name r.links).attributes ≤ lengths c.attributes := by
  obtain ⟨hsource, hreads⟩ := r.marks_ok
  obtain ⟨hlinks, hlinked⟩ := r.links_ok
  have hstripped := Marked.lengths_stripAll_le (stripsFromClass policy) hreads
  rw [hlinks, ← hsource] at hstripped
  exact Nat.le_trans (Link.lengths_thinned_le l.tracker r.name hlinked) hstripped

end Rewriting

end Prune

namespace ClassFile

/-- What the attributes of a class may take, beside the strings of its metadata. -/
def lengthLimit : Nat := 2 ^ 32 - 2 ^ 18

/-- A class with room for everything that a pass may write into it. -/
inductive Roomy (c : ClassFile) : Prop
  | bare (none : c.NoMetadata) (short : lengths c.attributes ≤ lengthLimit)
  | annotated {a : AnnotationEntry} {kind : Kind} {d1 d2 : List String} (sole : c.SoleMetadata a)
    (parts : Pruner.metadataParts c.pool a = .ok (kind, d1, d2)) (snug : Payload.Snug kind d1 d2)
    (short : lengths c.attributes ≤ lengthLimit + 3 * d1.length)

theorem lengths_attributes_le (c : ClassFile) : lengths c.attributes ≤ c.bytes.length := by
  have htable : lengths c.attributes ≤ (c.attributes.flatMap Attribute.bytes).length := by
    induction c.attributes with
    | nil => exact Nat.le_refl _
    | cons a as ih =>
      rw [Attribute.lengths_cons, List.flatMap_cons, List.length_append]
      simp only [Attribute.bytes, List.length_append]
      omega
  rw [ClassFile.bytes_eq, List.length_append, countedBytes, List.length_append]
  omega

/-- A class file of less than four gigabytes, whose metadata, if there is any, can be read and has no
more than 131072 characters. -/
structure Small (c : ClassFile) : Prop where
  one : Prune.OneMetadata c
  size : c.bytes.length + 2 ^ 18 ≤ 2 ^ 32
  chars : ∀ a, c.SoleMetadata a → ∃ kind d1 d2,
    Pruner.metadataParts c.pool a = .ok (kind, d1, d2) ∧ (d1.flatMap (·.toList)).length ≤ 2 ^ 17

theorem NoMetadata.small {c : ClassFile} (h : c.NoMetadata)
    (hsize : c.bytes.length + 2 ^ 18 ≤ 2 ^ 32) : c.Small where
  one := h.one
  size := hsize
  chars := by
    rintro a ⟨ms, hms, hfilter⟩
    cases (h ms hms).symm.trans hfilter

theorem SoleMetadata.small {c : ClassFile} {a : AnnotationEntry} {kind : Kind} {d1 d2 : List String}
    (h : c.SoleMetadata a) (hparts : Pruner.metadataParts c.pool a = .ok (kind, d1, d2))
    (hchars : (d1.flatMap (·.toList)).length ≤ 2 ^ 17)
    (hsize : c.bytes.length + 2 ^ 18 ≤ 2 ^ 32) : c.Small where
  one := h.one
  size := hsize
  chars _ hb := h.unique hb ▸ ⟨kind, d1, d2, hparts, hchars⟩

theorem Small.roomy {c : ClassFile} (h : c.Small) : c.Roomy := by
  have hshort : lengths c.attributes ≤ lengthLimit :=
    Nat.le_sub_of_add_le (Nat.le_trans (Nat.add_le_add_right c.lengths_attributes_le _) h.size)
  have hcases : c.NoMetadata ∨ ∃ a, c.SoleMetadata a := by
    cases hms : marks c.pool c.attributes with
    | error e => exact .inl fun ms hok => nomatch hms.symm.trans hok
    | ok ms => exact h.one.none_or_sole hms
  obtain hnone | ⟨a, hsole⟩ := hcases
  · exact .bare hnone hshort
  · obtain ⟨kind, d1, d2, hparts, hfew⟩ := h.chars a hsole
    exact .annotated hsole hparts (.inl hfew) (Nat.le_add_right_of_le hshort)

/-- As few strings as an array can count leave room for every attribute. -/
theorem fits_of_lengths {as : List Attribute} {n : Nat} (hn : n ≤ 65535)
    (h : lengths as ≤ lengthLimit + 3 * n) : ∀ a ∈ as, a.Fits := by
  intro a ha
  have hle := Attribute.length_le_lengths ha
  show a.payload.length < 256 ^ 4
  unfold lengthLimit at h
  omega

end ClassFile

open ClassFile (Roomy)

namespace Prune.Rewriting

variable {policy : Policy} {l : Ledger} {c : ClassFile} {a : AnnotationEntry}

/-- The attributes are longer by what the new metadata is. -/
theorem lengths_replaced (r : Rewriting policy l c) (hc : c.Framed) (hsole : c.SoleMetadata a)
    {b : AnnotationEntry} (hnew : r.new = [b]) (htype : b.typeIndex = a.typeIndex) :
    lengths r.attributes + a.bytes.length ≤ lengths c.attributes + b.bytes.length := by
  obtain ⟨ms, hms, hall⟩ := r.marks_unlinked hc
  obtain ⟨ms₀, hms₀, hfilter⟩ := hsole
  cases hms₀.symm.trans r.surveyed.read
  have hmem : (a, Pruner.metadataDescriptor) ∈ Marked.all r.marked :=
    List.mem_of_mem_filter (hfilter ▸ List.mem_singleton_self _)
  have hlengths := (r.attributes_replaced hnew).lengths hms
    ⟨Pruner.metadataDescriptor, by
      rw [hall]
      exact List.mem_filter.2 ⟨hmem, by simp [stripsFromClass]⟩⟩ htype.symm fun e he hsame => by
      have hin : e ∈ Marked.all r.marked := List.mem_of_mem_filter (hall ▸ he)
      have hdescriptor : e.2 = Pruner.metadataDescriptor :=
        descriptor_of_typeIndex r.marks_ok.2 hin hmem (hsame.trans htype)
      have hone : e ∈ [(a, Pruner.metadataDescriptor)] :=
        hfilter ▸ List.mem_filter.2 ⟨hin, decide_eq_true hdescriptor⟩
      rw [List.mem_singleton.1 hone]
  have hle := r.lengths_unlinked_le
  omega

/-- What a pass writes into a class with room fits, and leaves it with room. -/
theorem roomy (r : Rewriting policy l c) (hc : c.Framed) (h : c.Roomy) :
    r.Fits ∧ r.result.Roomy := by
  have hunlinked := r.lengths_unlinked_le
  have hgrows := r.pool_grows hc
  cases h with
  | bare hnone hshort =>
    obtain ⟨-, hnew, -⟩ | ⟨a, b, kind, d1, d2, payload, changes, hmetadata, -⟩ := r.ofMetadata_cases
    · have hlengths : lengths r.attributes ≤ ClassFile.lengthLimit := by
        rw [(r.attributes_kept hnew).1]
        omega
      exact ⟨⟨ClassFile.fits_of_lengths (Nat.zero_le _) hlengths, by simp [hnew]⟩,
        .bare (r.noMetadata hc hnone hnew) hlengths⟩
    · cases (hnone.metadataOf r.surveyed.read).symm.trans hmetadata
  | @annotated a kind d1 d2 hsole hparts hsnug hshort =>
    have hcount : d1.length ≤ 65535 := Nat.le_of_lt_succ (count_parts_lt hsole.fits hparts)
    obtain ⟨-, hnew, -⟩ | ⟨a', b, kind', d1', d2', payload, changes, hmetadata, hnew, -, hrepacked⟩ :=
      r.ofMetadata_cases
    · have hlengths : lengths r.attributes ≤ ClassFile.lengthLimit + 3 * d1.length := by
        rw [(r.attributes_kept hnew).1]
        omega
      have hsole' := r.soleMetadata hc (by simp [hnew]) (by simp [hnew]) hsole
      rw [hnew] at hsole'
      exact ⟨⟨ClassFile.fits_of_lengths hcount hlengths, by simp [hnew]⟩,
        .annotated hsole' (metadataParts_persists hgrows a _ hparts) hsnug hlengths⟩
    · obtain rfl : a = a' := Option.some.inj ((r.metadataOf_sole hsole).symm.trans hmetadata)
      have hstubbed := (r.installed_fit hc).2
      have hpool := hstubbed.fits hc.pool
      obtain ⟨rfl, rfl, rfl⟩ : kind = kind' ∧ d1 = d1' ∧ d2 = d2' := by
        simpa using (metadataParts_persists hstubbed a _ hparts).symm.trans hrepacked.parts
      obtain ⟨hgrown, hrestrung⟩ := hrepacked.restrung hpool
      obtain ⟨before, hdecode, hsweep⟩ := swept_ok hrepacked.swept
      obtain ⟨hfew, hsnug'⟩ := hsnug.sweep (hrestrung.moderate hpool hsole.fits) hdecode hsweep
      have hb : b.Fits := hrestrung.fits hsole.fits (Nat.lt_succ_of_le hfew)
      have hnewFits : ∀ b' ∈ r.new, b'.Fits := by simpa [hnew] using hb
      have hlengths := r.lengths_replaced hc hsole hnew hrestrung.typeIndex
      have hbytes := hrestrung.length_bytes
      have hlengths' : lengths r.attributes ≤ ClassFile.lengthLimit + 3 * payload.encode.length := by
        omega
      have hsole' := r.soleMetadata hc hnewFits (by simp [hnew, hrestrung.typeIndex]) hsole
      rw [hnew] at hsole'
      exact ⟨⟨ClassFile.fits_of_lengths hfew hlengths', hnewFits⟩,
        .annotated hsole' (metadataParts_restrung hrestrung hgrown hrepacked.parts hrepacked.editable)
          hsnug' hlengths'⟩

end Prune.Rewriting

namespace Prune

/-- A pass that writes nothing too large for its field. -/
def Begun.Fits (policy : Policy) (b : Begun) : Prop :=
  ∀ c, ClassFile.ofBytes b.bytes = .ok c → ∀ r : Rewriting policy b.ledger.expire c, r.Fits

/-- What a run keeps of every class that has room. -/
def roominess : Claims where
  good _ := True
  holds _ _ _ bytes := ∀ c, ClassFile.ofBytes bytes = .ok c → c.Roomy
  gone _ _ := True

theorem roominess_kept (policy : Policy) : roominess.Kept policy fun _ => True where
  pass {o passed l bytes l' out} _ _ hholds hpass := by
    obtain ⟨c, hc, hpassed⟩ := pass_ok hpass
    have hfits := (ClassFile.of_ofBytes hc).2.1
    refine ⟨trivial, hpassed.tracker_le, ?_⟩
    cases hpassed with
    | discarded _ _ => trivial
    | modified r _ =>
      obtain ⟨hwrites, hroomy⟩ := r.roomy hfits.toFramed (hholds c hc)
      intro c' hc'
      cases hc'.symm.trans (r.ofBytes_result hfits hwrites)
      exact hroomy
    | unchanged _ _ => exact hholds
  grow _ _ hholds := hholds
  goneGrow _ _ _ := trivial

end Prune

namespace Sweep

/-- A run that writes nothing too large for its field, as one over small classes does
(`writesFit_of_small`). -/
def WritesFit (settings : Settings) (slots : List Slot) (t : Tracker) : Prop :=
  ∀ b ∈ Prune.sweepsBegun settings settings.maxPasses slots t, Prune.Begun.Fits settings.policy b

/-- A run over classes with room writes nothing too large for its field. -/
theorem writesFit_of_roomy {settings : Settings} {entries : List Entry} {t : Tracker}
    (h : ∀ e ∈ entries, e.isClass = true → ∀ c, ClassFile.ofBytes e.contents = .ok c → c.Roomy) :
    WritesFit settings (slots entries) t := by
  intro b hb c hc r
  have hmax : 0 < settings.maxPasses := by
    refine Nat.pos_of_ne_zero fun hzero => ?_
    rw [hzero] at hb
    cases hb
  obtain ⟨o, passed, -, hroomy⟩ := Claims.sweeps_begin (Prune.roominess_kept settings.policy) rfl
    hmax trivial (slots_of h) b hb
  exact (r.roomy (ClassFile.of_ofBytes hc).2.1.toFramed (hroomy c hc)).1

/-- What is small enough to begin with never becomes too large. -/
theorem writesFit_of_small {settings : Settings} {entries : List Entry} {t : Tracker}
    (h : ∀ e ∈ entries, e.isClass = true → ∀ c, ClassFile.ofBytes e.contents = .ok c → c.Small) :
    WritesFit settings (slots entries) t :=
  writesFit_of_roomy fun e he hclass c hc => (h e he hclass c hc).roomy

end Sweep

end JarPruning
