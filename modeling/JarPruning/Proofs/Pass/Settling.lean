import JarPruning.Proofs.Pass.Lighter
import JarPruning.Proofs.Pass.Room

/-!
Runs settle. Every pass that modifies a class makes it lighter and every change of a sweep is such a
pass or a class that goes, so a budget beyond the weight of an archive is never used up. The weight
itself is linear in the sizes of the entries.
-/
namespace JarPruning

open Attribute (weights)
open ConstantPool (Grows)

namespace Prune

variable {policy : Policy} {l : Ledger} {c : ClassFile} {p q : ConstantPool}

/-! Metadata. -/

/-- More than a metadata annotation of this size weighs in any pool that fits. -/
def weightLimit (a : AnnotationEntry) : Nat := 249 * (a.bytes.length * (256 ^ 2 - 1)) + 140

/-- The weight of what a metadata annotation says. One that cannot be read in the pool as it is may
become readable in a larger one. -/
def annotationWeight (pool : ConstantPool) (a : AnnotationEntry) : Nat :=
  match Pruner.metadataParts pool a with
  | .ok (kind, d1, d2) => Metadata.Payload.weightOf kind d1 d2
  | .error _ => weightLimit a

theorem annotationWeight_ok {a : AnnotationEntry} {kind : Metadata.Kind} {d1 d2 : List String}
    (h : Pruner.metadataParts p a = .ok (kind, d1, d2)) :
    annotationWeight p a = Metadata.Payload.weightOf kind d1 d2 := by
  rw [annotationWeight, h]

theorem annotationWeight_le (hp : p.Fits) (a : AnnotationEntry) :
    annotationWeight p a ≤ weightLimit a := by
  cases hparts : Pruner.metadataParts p a with
  | error e => rw [annotationWeight, hparts]
  | ok parts =>
    obtain ⟨kind, d1, d2⟩ := parts
    have hlength := length_parts_le hp hparts
    have hweight := Metadata.Payload.weightOf_le kind d1 d2
    rw [annotationWeight_ok hparts, weightLimit]
    omega

theorem annotationWeight_grow (hgrows : Grows p q) (hq : q.Fits) (a : AnnotationEntry) :
    annotationWeight q a ≤ annotationWeight p a := by
  cases hparts : Pruner.metadataParts p a with
  | error e =>
    rw [show annotationWeight p a = weightLimit a by rw [annotationWeight, hparts]]
    exact annotationWeight_le hq a
  | ok parts =>
    obtain ⟨kind, d1, d2⟩ := parts
    rw [annotationWeight_ok hparts, annotationWeight_ok (metadataParts_persists hgrows a _ hparts)]

/-- A repacked annotation is lighter. -/
theorem Repacked.weight {owner : String} {a b : AnnotationEntry} {kind : Metadata.Kind}
    {d1 d2 : List String} {payload : Metadata.Payload} {changes : Metadata.Changes}
    (h : Repacked owner l p a b q kind d1 d2 payload changes) (hp : p.Fits) (ha : a.Fits) :
    annotationWeight q b < annotationWeight p a := by
  obtain ⟨hgrows, hrestrung⟩ := h.restrung hp
  rw [annotationWeight_ok h.parts,
    annotationWeight_ok (metadataParts_restrung hrestrung hgrows h.parts h.editable)]
  obtain ⟨before, hdecode, hsweep⟩ := swept_ok h.swept
  exact Metadata.Payload.weightOf_encode_lt hdecode (hrestrung.moderate hp ha) hsweep h.lost

def metadataWeight (c : ClassFile) : Nat :=
  match marks c.pool c.attributes with
  | .ok ms => ((metadataOf ms).map (annotationWeight c.pool)).getD 0
  | .error _ => 0

theorem metadataWeight_of {ms : List Marked} (h : marks c.pool c.attributes = .ok ms) :
    metadataWeight c = ((metadataOf ms).map (annotationWeight c.pool)).getD 0 := by
  rw [metadataWeight, h]

theorem metadataWeight_none (h : c.NoMetadata) : metadataWeight c = 0 := by
  cases hms : marks c.pool c.attributes with
  | error e => rw [metadataWeight, hms]
  | ok ms =>
    rw [metadataWeight_of hms, h.metadataOf hms]
    rfl

theorem metadataWeight_sole {a : AnnotationEntry} (h : c.SoleMetadata a) :
    metadataWeight c = annotationWeight c.pool a := by
  obtain ⟨ms, hms, hfilter⟩ := h
  rw [metadataWeight_of hms, ClassFile.SoleMetadata.metadataOf ⟨ms, hms, hfilter⟩ hms]
  rfl

/-! The attributes of the class. -/

/-- A table counts its annotations, whichever they are. -/
theorem Replaced.weight {new : AnnotationEntry} {as as' : List Attribute} {changed : Bool}
    (h : Replaced p new as as' changed) (hnew : new.Fits) : weights p as' = weights p as := by
  cases h with
  | absent _ => rfl
  | @found pre post a before after old _ hmarked hspelled _ _ =>
    have hfits := (AnnotationEntry.of_readTable hspelled).2.replace hnew
    have hreplaced : ({ a with payload := AnnotationEntry.tableBytes _ } : Attribute).weight p = _ :=
      Attribute.weight_table hmarked (AnnotationEntry.readTable_tableBytes hfits)
    rw [Attribute.weights_append, Attribute.weights_append, Attribute.weights_cons,
      Attribute.weights_cons, hreplaced, Attribute.weight_table hmarked hspelled]
    simp

end Prune

open Prune

/-- The weight of a class, where these methods were stubbed before. -/
def ClassFile.weight (c : ClassFile) (stubbed : GraceSet Member) : Nat :=
  metadataWeight c + weights c.pool c.attributes + fieldsWeight c.pool c.fields +
    methodsWeight c.pool stubbed c.methods

namespace Prune.Rewriting

variable {policy : Policy} {l : Ledger} {c : ClassFile}

theorem unlinked_weight (r : Rewriting policy l c) :
    weights c.pool (unlinked l c r.name r.links).attributes + (r.stripped || r.thinned).toNat ≤
      weights c.pool c.attributes := by
  obtain ⟨hsource, hreads⟩ := r.marks_ok
  obtain ⟨hlinks, hlinked⟩ := r.links_ok
  have hstripped := Marked.stripAll_weight (stripsFromClass policy) hreads
  have hthinned := Link.thinned_weight l.tracker r.name hlinked
  rw [hlinks, ← hsource] at hstripped
  have hor := or_toNat_le r.stripped r.thinned
  simp only [stripped, thinned] at hor
  show weights c.pool (r.links.map fun p => (p.2.thin l.tracker r.name p.1).1) + _ ≤ _
  simp only [stripped, thinned]
  omega

/-- The attributes and the metadata of the class together. -/
theorem attributes_weight (r : Rewriting policy l c) (hc : c.Fits) (hone : OneMetadata c)
    (h : r.Fits) :
    metadataWeight r.result + weights r.pool r.attributes +
        (r.stripped || r.thinned || r.replaced).toNat ≤
      metadataWeight c + weights c.pool c.attributes := by
  have hunlinked := r.unlinked_weight
  have hgrows := r.pool_grows hc.toFramed
  have hgrown := Attribute.weights_grow hgrows (unlinked l c r.name r.links).attributes
  obtain ⟨-, hnew, -⟩ | ⟨a, b, kind, d1, d2, payload, changes, hmetadata, hnew, -, hrepacked⟩ :=
    r.ofMetadata_cases
  · obtain ⟨hattributes, hreplaced⟩ := r.attributes_kept hnew
    have hmetadata : metadataWeight r.result ≤ metadataWeight c := by
      obtain hnone | ⟨a, hsole⟩ := hone.none_or_sole r.surveyed.read
      · rw [metadataWeight_none (r.noMetadata hc.toFramed hnone hnew)]
        exact Nat.zero_le _
      · have hsole' := r.soleMetadata hc.toFramed h.new (by simp [hnew]) hsole
        rw [hnew] at hsole'
        rw [metadataWeight_sole hsole, metadataWeight_sole hsole']
        exact annotationWeight_grow hgrows (hgrows.fits hc.pool) _
    rw [hattributes, hreplaced, Bool.or_false]
    omega
  · have hsole := hone.sole r.surveyed.read hmetadata
    have hpool := (r.installed_fit hc.toFramed).2.fits hc.pool
    have htype : b.typeIndex = a.typeIndex := (hrepacked.restrung hpool).2.typeIndex
    have hsole' := r.soleMetadata hc.toFramed h.new (by simp [hnew, htype]) hsole
    rw [hnew] at hsole'
    have hlighter : metadataWeight r.result < metadataWeight c := by
      rw [metadataWeight_sole hsole, metadataWeight_sole hsole']
      exact Nat.lt_of_lt_of_le (hrepacked.weight hpool hsole.fits)
        (annotationWeight_grow (r.installed_fit hc.toFramed).2 hpool _)
    have hreplaced := (r.attributes_replaced hnew).weight
      (h.new b (by rw [hnew]; exact List.mem_singleton_self b))
    have hor := or_toNat_le (r.stripped || r.thinned) r.replaced
    have hflag := Bool.toNat_le r.replaced
    omega

theorem methods_resolve (r : Rewriting policy l c) :
    ∀ entry ∈ r.methods, ∃ m, entry.resolve c.pool = .ok m := by
  obtain ⟨sub, -, hall⟩ := methods_derived r.ofMethods r.installed
  intro entry hentry
  obtain ⟨entry', -, hderived⟩ := forall₂_mem_right hall hentry
  obtain ⟨m, -, hm⟩ := hderived.resolve (.refl c.pool)
  exact ⟨m, hm⟩

/-- A class is lighter after a pass that reports a change, and no pass makes it heavier. -/
theorem weight (r : Rewriting policy l c) (hc : c.Fits) (hone : OneMetadata c) (h : r.Fits) :
    r.result.weight r.last.memory.stubbed + r.changed.toNat ≤ c.weight l.memory.stubbed := by
  have hattributes := r.attributes_weight hc hone h
  have hfields := fields_weight r.ofFields
  have hmethods := methods_weight r.ofMethods r.installed
  have hgrows := r.pool_grows hc.toFramed
  have hfieldsGrown := fieldsWeight_grow hgrows r.fields
  have hmethodsGrown := methodsWeight_grow r.last.memory.stubbed hgrows r.methods_resolve
  rw [(fields_ledger r.ofFields).2, ← r.last_ledger.2] at hmethods
  have hflag : r.changed.toNat ≤ (r.stripped || r.thinned || r.replaced).toNat +
      (r.fieldsChanged.toNat + r.methodsChanged.toNat) := by
    unfold changed
    cases r.stripped <;> cases r.thinned <;> cases r.fieldsChanged <;> cases r.methodsChanged <;>
      cases r.replaced <;> decide
  show metadataWeight r.result + weights r.pool r.attributes + fieldsWeight r.pool r.fields +
    methodsWeight r.pool r.last.memory.stubbed r.methods + _ ≤ _
  unfold ClassFile.weight
  omega

theorem stubbed_stay (r : Rewriting policy l c) :
    StubbedStay l.memory.stubbed r.last.memory.stubbed := by
  rw [r.last_ledger.2, ← (fields_ledger r.ofFields).2]
  exact methods_stubbed r.ofMethods

end Prune.Rewriting

namespace Prune

variable {policy : Policy} {settings : Settings} {entry : String} {bytes : List UInt8}
  {l l' : Ledger} {t t' : Tracker}

def bytesWeight (bytes : List UInt8) (stubbed : GraceSet Member) : Nat :=
  match ClassFile.ofBytes bytes with
  | .ok c => c.weight stubbed
  | .error _ => 0

theorem bytesWeight_ok {c : ClassFile} (h : ClassFile.ofBytes bytes = .ok c)
    (stubbed : GraceSet Member) : bytesWeight bytes stubbed = c.weight stubbed := by
  rw [bytesWeight, h]

/-- What is read from the bytes has at most one metadata annotation. -/
def HasOneMetadata (bytes : List UInt8) : Prop :=
  ∀ c, ClassFile.ofBytes bytes = .ok c → OneMetadata c

/-- What a pass does to the weight of a class. -/
def Lightens (l : Ledger) (bytes : List UInt8) (l' : Ledger) : PassOutcome → Prop
  | .unwanted => True
  | .modified bytes' => HasOneMetadata bytes' ∧
      bytesWeight bytes' l'.memory.stubbed < bytesWeight bytes l.memory.stubbed
  | .unchanged => bytesWeight bytes l'.memory.stubbed ≤ bytesWeight bytes l.memory.stubbed

theorem pass_lightens {out : PassOutcome} (hfits : Begun.Fits policy ⟨entry, bytes, l⟩)
    (hone : HasOneMetadata bytes) (h : pass policy entry bytes l = .ok (l', out)) :
    Lightens l bytes l' out := by
  obtain ⟨c, hc, hpassed⟩ := pass_ok h
  have hcfits := (ClassFile.of_ofBytes hc).2.1
  cases hpassed with
  | discarded _ _ => trivial
  | modified r hnews =>
    have hread := r.ofBytes_result hcfits (hfits c hc r)
    have hweight := r.weight hcfits (hone c hc) (hfits c hc r)
    rw [hnews] at hweight
    refine ⟨fun c' hc' => ?_, ?_⟩
    · cases hc'.symm.trans hread
      exact r.result_oneMetadata hcfits.toFramed (hfits c hc r) (hone c hc)
    · rw [bytesWeight_ok hread, bytesWeight_ok hc]
      exact hweight
  | unchanged r _ =>
    have hmethods := methodsWeight_le r.stubbed_stay c.pool c.methods
    show bytesWeight bytes r.last.memory.stubbed ≤ _
    rw [bytesWeight_ok hc, bytesWeight_ok hc]
    exact Nat.add_le_add_left hmethods _

/-- A budget beyond the weight of a class is not used up, and each further pass that is counted has
made the class lighter. -/
theorem settle_settles {budget done : Nat} {r : Pass.Settled}
    (hfits : ∀ b ∈ settleBegun policy entry budget bytes l, Begun.Fits policy b)
    (hone : HasOneMetadata bytes) (hbudget : bytesWeight bytes l.memory.stubbed < budget)
    (h : settle policy entry budget done bytes l = .ok (l', some r)) :
    r.stable = true ∧ HasOneMetadata r.bytes ∧
      bytesWeight r.bytes l'.memory.stubbed + r.passes ≤
        bytesWeight bytes l.memory.stubbed + (done + 1) := by
  induction budget generalizing done bytes l with
  | zero => exact absurd hbudget (Nat.not_lt_zero _)
  | succ budget ih =>
    rw [settle] at h
    rw [settleBegun] at hfits
    cases hp : pass policy entry bytes l with
    | error e => simp [hp, bind, Except.bind] at h
    | ok b =>
      obtain ⟨l₁, out⟩ := b
      have hlightens := pass_lightens (hfits _ (List.mem_cons_self ..)) hone hp
      simp only [hp, bind, Except.bind] at h hfits
      cases out with
      | unwanted => cases h
      | unchanged =>
        cases h
        exact ⟨rfl, hone, Nat.add_le_add_right hlightens _⟩
      | modified bytes' =>
        obtain ⟨hone', hlighter⟩ := hlightens
        obtain ⟨hstable, hone'', hweight⟩ :=
          ih (fun b hb => hfits b (List.mem_cons_of_mem _ hb)) hone' (by omega) h
        exact ⟨hstable, hone'', by omega⟩

/-! Runs over an archive. -/

/-- The runs of passes that end with the class kept. -/
def visitSettled (settings : Settings) (s : Slot) (t : Tracker) : List Pass.Settled :=
  if s.isLive then
    match settle settings.policy s.entry.name settings.maxPasses 0 s.entry.contents
        ⟨t, s.memory⟩ with
    | .ok (_, r?) => r?.toList
    | .error _ => []
  else []

def onceSettled (settings : Settings) : List Slot → Tracker → List Pass.Settled
  | [], _ => []
  | s :: rest, t =>
    visitSettled settings s t ++
      match visit settings s t with
      | .ok (t, _, _) => onceSettled settings rest t
      | .error _ => []

/-- The runs of passes within sweeps, in their order. -/
def sweepsSettled (settings : Settings) : Nat → List Slot → Tracker → List Pass.Settled
  | 0, _, _ => []
  | budget + 1, slots, t =>
    onceSettled settings slots t ++
      match once settings slots t with
      | .ok (t, slots, true) => sweepsSettled settings budget slots t
      | _ => []

/-- The weight of a slot: that of its class, and one for the class itself. -/
def slotWeight (s : Slot) : Nat :=
  if s.isLive then bytesWeight s.entry.contents s.memory.stubbed + 1 else 0

theorem slotWeight_live {s : Slot} (h : s.isLive = true) :
    slotWeight s = bytesWeight s.entry.contents s.memory.stubbed + 1 := if_pos h

theorem slotWeight_gone {s : Slot} (h : s.isLive = false) : slotWeight s = 0 :=
  if_neg (Bool.eq_false_iff.1 h)

def slotsWeight (slots : List Slot) : Nat := (slots.map slotWeight).sum

theorem slotsWeight_cons (s : Slot) (slots : List Slot) :
    slotsWeight (s :: slots) = slotWeight s + slotsWeight slots := rfl

def SlotHasOneMetadata (s : Slot) : Prop := s.isLive = true → HasOneMetadata s.entry.contents

theorem visit_settles {s : Slot}
    (hfits : ∀ b ∈ visitBegun settings s t, Begun.Fits settings.policy b)
    (hone : SlotHasOneMetadata s) (hbudget : slotWeight s ≤ settings.maxPasses) :
    (∀ r ∈ visitSettled settings s t, r.stable = true) ∧
      ∀ t' s' changed, visit settings s t = .ok (t', s', changed) →
        SlotHasOneMetadata s' ∧ slotWeight s' + changed.toNat ≤ slotWeight s := by
  unfold visitSettled visit
  unfold visitBegun at hfits
  cases hlive : s.isLive with
  | false =>
    refine ⟨by simp, fun t' s' changed h => ?_⟩
    cases h
    exact ⟨hone, Nat.le_refl _⟩
  | true =>
    have hclass : s.entry.isClass = true := (Bool.and_eq_true_iff.1 hlive).1
    rw [slotWeight_live hlive] at hbudget
    rw [hlive, if_pos rfl] at hfits
    rw [if_pos rfl, if_pos rfl]
    cases hp : settle settings.policy s.entry.name settings.maxPasses 0 s.entry.contents
        ⟨t, s.memory⟩ with
    | error e => exact ⟨by simp, fun _ _ _ h => by cases h⟩
    | ok b =>
      obtain ⟨l, r?⟩ := b
      cases r? with
      | none =>
        refine ⟨by simp, fun t' s' changed h => ?_⟩
        cases h
        have hgone : ({ s with memory := l.memory, deleted := true } : Slot).isLive = false :=
          Bool.and_false _
        refine ⟨fun hlive' => absurd (hgone.symm.trans hlive') (by simp), ?_⟩
        rw [slotWeight_gone hgone, slotWeight_live hlive]
        exact Nat.le_add_left 1 _
      | some r =>
        obtain ⟨hstable, hone', hweight⟩ := settle_settles hfits (hone hlive) hbudget hp
        dsimp only at hweight
        refine ⟨by simpa using hstable, fun t' s' changed h => ?_⟩
        simp only [bind, Except.bind, pure, Except.pure, Except.ok.injEq, Prod.mk.injEq] at h
        obtain ⟨-, h⟩ := h
        change s.settle l.memory (if r.isRewritten then _ else _) = _ at h
        have hpasses := Claims.settle_passes hp
        cases hrewritten : r.isRewritten with
        | true =>
          rw [hrewritten] at h
          cases h
          refine ⟨fun _ => hone', ?_⟩
          have hmore : 1 < r.passes := by
            simpa [Pass.Settled.isRewritten, hstable] using hrewritten
          have hlive' : ({ s with
              memory := l.memory, entry := { s.entry with contents := r.bytes },
              rewritten := true } : Slot).isLive = true := hlive
          rw [slotWeight_live hlive', slotWeight_live hlive]
          simp only [Bool.toNat_true]
          omega
        | false =>
          rw [hrewritten] at h
          cases h
          obtain ⟨-, hbytes⟩ := Claims.settle_quiet (by omega) hp hrewritten
          rw [hstable, if_pos rfl] at hpasses
          have hlive' : ({ s with memory := l.memory } : Slot).isLive = true := hlive
          refine ⟨fun _ => hone hlive, ?_⟩
          rw [slotWeight_live hlive', slotWeight_live hlive]
          rw [hbytes] at hweight
          simp only [Bool.toNat_false]
          omega

theorem once_settles {slots : List Slot}
    (hfits : ∀ b ∈ onceBegun settings slots t, Begun.Fits settings.policy b)
    (hone : ∀ s ∈ slots, SlotHasOneMetadata s) (hbudget : slotsWeight slots ≤ settings.maxPasses) :
    (∀ r ∈ onceSettled settings slots t, r.stable = true) ∧
      ∀ t' slots' changed, once settings slots t = .ok (t', slots', changed) →
        (∀ s ∈ slots', SlotHasOneMetadata s) ∧
          slotsWeight slots' + changed.toNat ≤ slotsWeight slots := by
  induction slots generalizing t with
  | nil =>
    refine ⟨by simp [onceSettled], fun t' slots' changed h => ?_⟩
    cases h
    exact ⟨hone, Nat.le_refl _⟩
  | cons s rest ih =>
    rw [onceBegun] at hfits
    rw [slotsWeight_cons] at hbudget
    obtain ⟨hstable, hvisit⟩ := visit_settles
      (fun b hb => hfits b (List.mem_append_left _ hb)) (hone s (List.mem_cons_self ..)) (by omega)
    rw [onceSettled, once]
    cases hv : visit settings s t with
    | error e =>
      simp only [List.append_nil]
      exact ⟨hstable, fun _ _ _ h => by cases h⟩
    | ok b =>
      obtain ⟨t₁, s₁, changed₁⟩ := b
      simp only [hv] at hfits
      obtain ⟨hone₁, hweight₁⟩ := hvisit t₁ s₁ changed₁ hv
      obtain ⟨hstable₂, hrest⟩ := ih (t := t₁)
        (fun b hb => hfits b (List.mem_append_right _ hb))
        (fun s hs => hone s (List.mem_cons_of_mem _ hs)) (by omega)
      refine ⟨fun r hr => ?_, fun t' slots' changed h => ?_⟩
      · obtain hr | hr := List.mem_append.1 hr
        · exact hstable r hr
        · exact hstable₂ r hr
      · simp only [bind, Except.bind] at h
        cases hr : once settings rest t₁ with
        | error e => simp [hr] at h
        | ok b =>
          obtain ⟨t₂, rest', changed₂⟩ := b
          simp only [hr, pure, Except.pure, Except.ok.injEq, Prod.mk.injEq] at h
          obtain ⟨rfl, rfl, rfl⟩ := h
          obtain ⟨hone₂, hweight₂⟩ := hrest t₂ rest' changed₂ hr
          have hor := or_toNat_le changed₁ changed₂
          refine ⟨List.forall_mem_cons.2 ⟨hone₁, hone₂⟩, ?_⟩
          rw [slotsWeight_cons, slotsWeight_cons]
          omega

/-- A budget beyond the weight of an archive is not used up, neither by the sweeps nor by the passes
over any class. -/
theorem sweeps_settle {slots : List Slot} {budget : Nat} (done : Nat)
    (hfits : ∀ b ∈ sweepsBegun settings budget slots t, Begun.Fits settings.policy b)
    (hone : ∀ s ∈ slots, SlotHasOneMetadata s) (hmax : slotsWeight slots ≤ settings.maxPasses)
    (hbudget : slotsWeight slots < budget) :
    (∀ r ∈ sweepsSettled settings budget slots t, r.stable = true) ∧
      ∀ t' r, sweeps settings budget done slots t = .ok (t', r) → r.stable = true := by
  induction budget generalizing done slots t with
  | zero => exact absurd hbudget (Nat.not_lt_zero _)
  | succ budget ih =>
    rw [sweepsBegun] at hfits
    obtain ⟨hstable, honce⟩ := once_settles
      (fun b hb => hfits b (List.mem_append_left _ hb)) hone hmax
    rw [sweepsSettled, sweeps]
    cases ho : once settings slots t with
    | error e =>
      simp only [List.append_nil]
      exact ⟨hstable, fun _ _ h => by cases h⟩
    | ok b =>
      obtain ⟨t₁, slots₁, changed⟩ := b
      obtain ⟨hone₁, hweight⟩ := honce t₁ slots₁ changed ho
      simp only [ho] at hfits
      cases changed with
      | false =>
        simp only [List.append_nil]
        refine ⟨hstable, fun t' r h => ?_⟩
        cases h
        rfl
      | true =>
        rw [Bool.toNat_true] at hweight
        obtain ⟨hstable₁, hsweeps⟩ := ih (t := t₁) (done + 1)
          (fun b hb => hfits b (List.mem_append_right _ hb)) hone₁ (by omega) (by omega)
        refine ⟨fun r hr => ?_, hsweeps⟩
        obtain hr | hr := List.mem_append.1 hr
        · exact hstable r hr
        · exact hstable₁ r hr

end Prune

/-! Weights and sizes. -/

theorem sum_le_length_flatMap {α : Type} {f : α → Nat} {g : α → List UInt8} {k : Nat}
    (h : ∀ a, f a ≤ k * (g a).length) (l : List α) : (l.map f).sum ≤ k * (l.flatMap g).length := by
  induction l with
  | nil => exact Nat.zero_le _
  | cons a l ih =>
    rw [List.map_cons, List.sum_cons, List.flatMap_cons, List.length_append, Nat.mul_add]
    exact Nat.add_le_add (h a) ih

theorem Attribute.weights_le_length (pool : ConstantPool) (as : List Attribute) :
    weights pool as ≤ 3 * (as.flatMap Attribute.bytes).length := by
  refine sum_le_length_flatMap (fun a => ?_) as
  have hweight := a.weight_le pool
  have haccesses := accesses_le_length a.payload
  simp only [Attribute.bytes, List.length_append, BigEndian.length_word16, BigEndian.length_digits]
  omega

theorem MemberEntry.weight_le_length (pool : ConstantPool) (entry : MemberEntry) :
    entry.weight pool + 23 ≤ 3 * entry.bytes.length := by
  have hattributes := Attribute.weights_le_length pool entry.attributes
  simp only [weight, MemberEntry.bytes, countedBytes, List.length_append, BigEndian.length_word16,
    BigEndian.length_digits]
  omega

namespace Prune

theorem fieldsWeight_le_length (pool : ConstantPool) (fs : List MemberEntry) :
    fieldsWeight pool fs ≤ 3 * (fs.flatMap MemberEntry.bytes).length :=
  sum_le_length_flatMap (fun f => Nat.le_of_add_right_le (f.weight_le_length pool)) fs

theorem charge_le_stubCharge (pool : ConstantPool) (stubbed : GraceSet Member)
    (entry : MemberEntry) : charge pool stubbed entry ≤ stubCharge := by
  unfold charge
  split
  · split
    · exact Nat.zero_le _
    · exact Nat.le_refl _
  · exact Nat.zero_le _

/-- The eight bytes that every method has make up for its charge. -/
theorem methodsWeight_le_length (pool : ConstantPool) (stubbed : GraceSet Member)
    (entries : List MemberEntry) :
    methodsWeight pool stubbed entries ≤ 9 * (entries.flatMap MemberEntry.bytes).length := by
  refine sum_le_length_flatMap (fun entry => ?_) entries
  have hweight := entry.weight_le_length pool
  have hcharge := charge_le_stubCharge pool stubbed entry
  unfold stubCharge at hcharge
  omega

theorem metadataWeight_le_length {c : ClassFile} (hc : c.pool.Fits) :
    metadataWeight c ≤ 249 * (c.bytes.length * (256 ^ 2 - 1)) + 140 := by
  unfold metadataWeight
  cases hms : marks c.pool c.attributes with
  | error e => exact Nat.zero_le _
  | ok ms =>
    dsimp only
    cases ha : metadataOf ms with
    | none => exact Nat.zero_le _
    | some a =>
      have hlength := Marked.length_le_of_mem hms (metadataOf_mem ha)
      have hsize : a.bytes.length ≤ c.bytes.length := by
        have hattributes := c.lengths_attributes_le
        omega
      calc
        annotationWeight c.pool a ≤ weightLimit a := annotationWeight_le hc a
        _ ≤ 249 * (c.bytes.length * (256 ^ 2 - 1)) + 140 :=
          Nat.add_le_add_right (Nat.mul_le_mul_left _ (Nat.mul_le_mul_right _ hsize)) _

end Prune

theorem ClassFile.weight_le_length {c : ClassFile} (hc : c.pool.Fits) (stubbed : GraceSet Member) :
    c.weight stubbed ≤ 2 ^ 24 * c.bytes.length := by
  have hmetadata := metadataWeight_le_length hc
  have hattributes := Attribute.weights_le_length c.pool c.attributes
  have hfields := fieldsWeight_le_length c.pool c.fields
  have hmethods := methodsWeight_le_length c.pool stubbed c.methods
  have hbytes : (c.fields.flatMap MemberEntry.bytes).length +
      (c.methods.flatMap MemberEntry.bytes).length +
        (c.attributes.flatMap Attribute.bytes).length + 24 ≤ c.bytes.length := by
    simp only [ClassFile.bytes, countedBytes, ConstantPool.bytes, List.length_append,
      BigEndian.length_word16, BigEndian.length_digits]
    omega
  unfold ClassFile.weight
  omega

namespace Prune

theorem bytesWeight_le_length (bytes : List UInt8) (stubbed : GraceSet Member) :
    bytesWeight bytes stubbed ≤ 2 ^ 24 * bytes.length := by
  unfold bytesWeight
  cases hc : ClassFile.ofBytes bytes with
  | error e => exact Nat.zero_le _
  | ok c =>
    obtain ⟨hbytes, hfits, -⟩ := ClassFile.of_ofBytes hc
    rw [hbytes]
    exact ClassFile.weight_le_length hfits.toFramed.pool stubbed

/-- The weight of what a run starts with is linear in the sizes of the entries. -/
theorem slotsWeight_le_length (entries : List Entry) : slotsWeight (Sweep.slots entries) ≤
    (entries.map fun e => 2 ^ 24 * e.contents.length + 1).sum := by
  induction entries with
  | nil => exact Nat.le_refl _
  | cons e entries ih =>
    refine Nat.add_le_add ?_ ih
    cases hlive : ({ entry := e } : Slot).isLive with
    | true =>
      rw [slotWeight_live hlive]
      exact Nat.succ_le_succ (bytesWeight_le_length e.contents _)
    | false =>
      rw [slotWeight_gone hlive]
      exact Nat.zero_le _

end Prune

end JarPruning
