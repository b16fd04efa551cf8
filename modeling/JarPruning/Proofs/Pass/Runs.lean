import Mathlib.Data.List.Forall2
import JarPruning.Proofs.Member.Tracker
import JarPruning.Proofs.Pass.Passes

/-!
What a run over an archive preserves. A property of a class that every pass keeps, and that no
growth of the tracker spoils, holds of every class when the run is over; and the last sweep of a
stable run leaves each class by a pass that changed nothing.
-/
namespace JarPruning

/-- A pass that a run begins. -/
structure Begun where
  entry : String
  bytes : List UInt8
  ledger : Ledger

namespace Prune

def settleBegun (policy : Policy) (entry : String) : Nat → List UInt8 → Ledger → List Begun
  | 0, _, _ => []
  | budget + 1, bytes, l =>
    ⟨entry, bytes, l⟩ ::
      match pass policy entry bytes l with
      | .ok (l, .modified bytes) => settleBegun policy entry budget bytes l
      | _ => []

def visitBegun (settings : Settings) (s : Slot) (t : Tracker) : List Begun :=
  if s.isLive then
    settleBegun settings.policy s.entry.name settings.maxPasses s.entry.contents ⟨t, s.memory⟩
  else []

def onceBegun (settings : Settings) : List Slot → Tracker → List Begun
  | [], _ => []
  | s :: rest, t =>
    visitBegun settings s t ++
      match visit settings s t with
      | .ok (t, _, _) => onceBegun settings rest t
      | .error _ => []

/-- The passes that sweeps within a budget begin, in their order. -/
def sweepsBegun (settings : Settings) : Nat → List Slot → Tracker → List Begun
  | 0, _, _ => []
  | budget + 1, slots, t =>
    onceBegun settings slots t ++
      match once settings slots t with
      | .ok (t, slots, true) => sweepsBegun settings budget slots t
      | _ => []

end Prune

/-- What is claimed of a class before and after passes, and of one that is gone. -/
structure Claims where
  good : Tracker → Prop
  holds : (passed : Bool) → Slot → Ledger → List UInt8 → Prop
  gone : Slot → Tracker → Prop

namespace Claims

def afterPass (k : Claims) (o : Slot) (l : Ledger) (bytes : List UInt8) : PassOutcome → Prop
  | .unwanted => k.gone o l.tracker
  | .modified bytes => k.holds true o l bytes
  | .unchanged => k.holds true o l bytes

def afterPasses (k : Claims) (o : Slot) (l : Ledger) : Option Pass.Settled → Prop
  | none => k.gone o l.tracker
  | some r => k.holds true o l r.bytes

/-- Every pass that is made keeps the claims, and so does every growth of the tracker. -/
structure Kept (policy : Policy) (made : Begun → Prop) (k : Claims) : Prop where
  pass : ∀ {o passed l bytes l' out}, made ⟨o.entry.name, bytes, l⟩ → k.good l.tracker →
    k.holds passed o l bytes → Prune.pass policy o.entry.name bytes l = .ok (l', out) →
    k.good l'.tracker ∧ l.tracker.Le l'.tracker ∧ k.afterPass o l' bytes out
  grow : ∀ {o passed l bytes t}, k.good t → l.tracker.Le t → k.holds passed o l bytes →
    k.holds passed o { l with tracker := t } bytes
  goneGrow : ∀ {o t t'}, k.good t' → t.Le t' → k.gone o t → k.gone o t'

/-- What has become of the slot `o`. -/
structure Of (k : Claims) (t : Tracker) (passed : Bool) (o s : Slot) : Prop where
  entry : s.entry = { o.entry with contents := s.entry.contents }
  aside : o.isLive = false → s = o
  live : o.isLive → s.deleted = false → k.holds passed o ⟨t, s.memory⟩ s.entry.contents
  gone : o.isLive → s.deleted → k.gone o t

variable {policy : Policy} {made : Begun → Prop} {k : Claims}

theorem settle_keeps (hk : k.Kept policy made) {o : Slot} {budget done : Nat}
    {bytes : List UInt8} {l l' : Ledger} {passed : Bool} {r? : Option Pass.Settled}
    (hmade : ∀ b ∈ Prune.settleBegun policy o.entry.name budget bytes l, made b)
    (hgood : k.good l.tracker) (hholds : k.holds passed o l bytes)
    (hbudget : passed = true ∨ 0 < budget)
    (h : Prune.settle policy o.entry.name budget done bytes l = .ok (l', r?)) :
    k.good l'.tracker ∧ l.tracker.Le l'.tracker ∧ k.afterPasses o l' r? := by
  induction budget generalizing done bytes l passed with
  | zero =>
    obtain rfl : passed = true := by simpa using hbudget
    cases h
    exact ⟨hgood, .refl _, hholds⟩
  | succ budget ih =>
    rw [Prune.settle] at h
    rw [Prune.settleBegun] at hmade
    cases hp : Prune.pass policy o.entry.name bytes l with
    | error e => simp [hp, bind, Except.bind] at h
    | ok b =>
      obtain ⟨l₁, out⟩ := b
      obtain ⟨hgood', hle, hout⟩ := hk.pass (hmade _ (List.mem_cons_self ..)) hgood hholds hp
      simp only [hp, bind, Except.bind] at h hmade
      cases out with
      | unwanted =>
        cases h
        exact ⟨hgood', hle, hout⟩
      | unchanged =>
        cases h
        exact ⟨hgood', hle, hout⟩
      | modified bytes' =>
        obtain ⟨hgood'', hle', hout'⟩ :=
          ih (fun b hb => hmade b (List.mem_cons_of_mem _ hb)) hgood' hout (.inl rfl) h
        exact ⟨hgood'', hle.trans hle', hout'⟩

theorem settle_passes {entry : String} {budget done : Nat} {bytes : List UInt8}
    {l l' : Ledger} {r : Pass.Settled}
    (h : Prune.settle policy entry budget done bytes l = .ok (l', some r)) :
    done + (if r.stable then 1 else 0) ≤ r.passes := by
  induction budget generalizing done bytes l with
  | zero =>
    cases h
    simp
  | succ budget ih =>
    rw [Prune.settle] at h
    cases hp : Prune.pass policy entry bytes l with
    | error e => simp [hp, bind, Except.bind] at h
    | ok b =>
      obtain ⟨l₁, out⟩ := b
      simp only [hp, bind, Except.bind] at h
      cases out with
      | unwanted => cases h
      | unchanged =>
        cases h
        simp
      | modified bytes' =>
        have := ih h
        omega

/-- A class that no pass of a run rewrote was left unchanged by the first. -/
theorem settle_quiet {entry : String} {budget : Nat} {bytes : List UInt8} {l l' : Ledger}
    {r : Pass.Settled} (hbudget : 0 < budget)
    (h : Prune.settle policy entry budget 0 bytes l = .ok (l', some r))
    (hr : r.isRewritten = false) :
    Prune.pass policy entry bytes l = .ok (l', .unchanged) ∧ r.bytes = bytes := by
  obtain ⟨budget, rfl⟩ : ∃ b, budget = b + 1 := ⟨budget - 1, by omega⟩
  rw [Prune.settle] at h
  cases hp : Prune.pass policy entry bytes l with
  | error e => simp [hp, bind, Except.bind] at h
  | ok b =>
    obtain ⟨l₁, out⟩ := b
    simp only [hp, bind, Except.bind] at h
    cases out with
    | unwanted => cases h
    | unchanged =>
      cases h
      exact ⟨rfl, rfl⟩
    | modified bytes' =>
      have hpasses := settle_passes h
      have hfew : r.passes ≤ if r.stable then 1 else 0 := by
        simpa [Pass.Settled.isRewritten] using hr
      omega

theorem Of.grow (hk : k.Kept policy made) {t t' : Tracker} {passed : Bool} {o s : Slot}
    (hgood : k.good t') (hle : t.Le t') (h : k.Of t passed o s) : k.Of t' passed o s where
  entry := h.entry
  aside := h.aside
  live ho hs := hk.grow hgood hle (h.live ho hs)
  gone ho hs := hk.goneGrow hgood hle (h.gone ho hs)

theorem isLive_of_entry {o s : Slot} (h : s.entry = { o.entry with contents := s.entry.contents })
    (ho : o.isLive) : s.isLive = !s.deleted := by
  have hclass : s.entry.isClass = o.entry.isClass := by
    rw [h]
    rfl
  unfold Slot.isLive at ho ⊢
  rw [Bool.and_eq_true] at ho
  rw [hclass, ho.1, Bool.true_and]

/-- A slot that is live was live from the start, and its class is not gone. -/
theorem Of.alive {t : Tracker} {passed : Bool} {o s : Slot} (h : k.Of t passed o s)
    (hlive : s.isLive = true) : o.isLive = true ∧ s.deleted = false := by
  have ho : o.isLive := by
    cases ho : o.isLive with
    | true => rfl
    | false => rw [← ho, ← h.aside ho, hlive]
  rw [isLive_of_entry h.entry ho] at hlive
  exact ⟨ho, by simpa using hlive⟩

/-- A slot that was deleted was live from the start, and its class is gone. -/
theorem Of.lost {t : Tracker} {passed : Bool} {o s : Slot} (h : k.Of t passed o s)
    (hstart : o.deleted = false) (hdeleted : s.deleted = true) : o.isLive = true ∧ k.gone o t := by
  have ho : o.isLive := by
    by_contra ho
    rw [h.aside (Bool.eq_false_iff.2 ho), hstart] at hdeleted
    cases hdeleted
  exact ⟨ho, h.gone ho hdeleted⟩

theorem visit_keeps (hk : k.Kept policy made) {settings : Settings}
    (hpolicy : settings.policy = policy) (hmax : 0 < settings.maxPasses) {o s s' : Slot}
    {t t' : Tracker} {passed changed : Bool}
    (hmade : ∀ b ∈ Prune.visitBegun settings s t, made b) (hgood : k.good t)
    (hs : k.Of t passed o s) (h : Prune.visit settings s t = .ok (t', s', changed)) :
    k.good t' ∧ t.Le t' ∧ k.Of t' true o s' := by
  subst hpolicy
  unfold Prune.visit at h
  unfold Prune.visitBegun at hmade
  cases hlive : s.isLive with
  | false =>
    rw [hlive, if_neg (by simp)] at h
    cases h
    refine ⟨hgood, .refl _, hs.entry, hs.aside, fun ho hd => ?_, hs.gone⟩
    rw [isLive_of_entry hs.entry ho, hd] at hlive
    cases hlive
  | true =>
    rw [hlive, if_pos rfl] at h hmade
    obtain ⟨ho, hd⟩ := hs.alive hlive
    have hname : s.entry.name = o.entry.name := by
      rw [hs.entry]
    rw [hname] at h hmade
    cases hp : Prune.settle settings.policy o.entry.name settings.maxPasses 0 s.entry.contents
        ⟨t, s.memory⟩ with
    | error e => simp [hp, bind, Except.bind] at h
    | ok b =>
      obtain ⟨l, r?⟩ := b
      obtain ⟨hgood', hle, hr⟩ := settle_keeps hk hmade hgood (hs.live ho hd) (.inr hmax) hp
      simp only [hp, bind, Except.bind, pure, Except.pure, Except.ok.injEq, Prod.mk.injEq] at h
      obtain ⟨rfl, h⟩ := h
      refine ⟨hgood', hle, ?_⟩
      have hlost (h : o.isLive = false) : s' = o := absurd (h.symm.trans ho) (by simp)
      have hstays (hdeleted : s.deleted) : k.gone o l.tracker :=
        absurd (hd.symm.trans hdeleted) (by simp)
      cases r? with
      | none =>
        cases h
        exact ⟨hs.entry, hlost, fun _ hdeleted => (nomatch hdeleted), fun _ _ => hr⟩
      | some r =>
        change s.settle l.memory (if r.isRewritten then _ else _) = _ at h
        cases hrewritten : r.isRewritten with
        | true =>
          rw [hrewritten] at h
          cases h
          refine ⟨?_, hlost, fun _ _ => hr, fun _ => hstays⟩
          conv_lhs => rw [hs.entry]
        | false =>
          rw [hrewritten] at h
          cases h
          obtain ⟨-, hbytes⟩ := settle_quiet hmax hp hrewritten
          refine ⟨hs.entry, hlost, fun _ _ => ?_, fun _ => hstays⟩
          rw [← hbytes]
          exact hr

theorem once_keeps (hk : k.Kept policy made) {settings : Settings}
    (hpolicy : settings.policy = policy) (hmax : 0 < settings.maxPasses)
    {os slots slots' : List Slot} {t t' : Tracker} {passed changed : Bool}
    (hmade : ∀ b ∈ Prune.onceBegun settings slots t, made b) (hgood : k.good t)
    (hs : List.Forall₂ (k.Of t passed) os slots)
    (h : Prune.once settings slots t = .ok (t', slots', changed)) :
    k.good t' ∧ t.Le t' ∧ List.Forall₂ (k.Of t' true) os slots' := by
  induction slots generalizing os t slots' changed with
  | nil =>
    cases h
    cases hs
    exact ⟨hgood, .refl _, .nil⟩
  | cons s rest ih =>
    obtain _ | @⟨o, _, os, _, hs, hrest⟩ := hs
    rw [Prune.once] at h
    rw [Prune.onceBegun] at hmade
    cases hv : Prune.visit settings s t with
    | error e => simp [hv, bind, Except.bind] at h
    | ok b =>
      obtain ⟨t₁, s₁, changed₁⟩ := b
      simp only [hv, bind, Except.bind] at h hmade
      obtain ⟨hgood₁, hle₁, hs₁⟩ := visit_keeps hk hpolicy hmax
        (fun b hb => hmade b (List.mem_append_left _ hb)) hgood hs hv
      cases hr : Prune.once settings rest t₁ with
      | error e => simp [hr] at h
      | ok b =>
        obtain ⟨t₂, rest', changed₂⟩ := b
        simp only [hr, pure, Except.pure, Except.ok.injEq, Prod.mk.injEq] at h
        obtain ⟨rfl, rfl, rfl⟩ := h
        have hrest₁ : List.Forall₂ (k.Of t₁ passed) os rest :=
          hrest.imp fun _ _ h => h.grow hk hgood₁ hle₁
        obtain ⟨hgood₂, hle₂, hrest₂⟩ :=
          ih (fun b hb => hmade b (List.mem_append_right _ hb)) hgood₁ hrest₁ hr
        exact ⟨hgood₂, hle₁.trans hle₂, .cons (hs₁.grow hk hgood₂ hle₂) hrest₂⟩

theorem sweeps_keep (hk : k.Kept policy made) {settings : Settings}
    (hpolicy : settings.policy = policy) (hmax : 0 < settings.maxPasses) {budget done : Nat}
    {os slots : List Slot} {t t' : Tracker} {passed : Bool} {r : Sweep.Settled}
    (hmade : ∀ b ∈ Prune.sweepsBegun settings budget slots t, made b) (hgood : k.good t)
    (hs : List.Forall₂ (k.Of t passed) os slots) (hbudget : passed = true ∨ 0 < budget)
    (h : Prune.sweeps settings budget done slots t = .ok (t', r)) :
    k.good t' ∧ t.Le t' ∧ List.Forall₂ (k.Of t' true) os r.slots := by
  induction budget generalizing done slots t passed with
  | zero =>
    obtain rfl : passed = true := by simpa using hbudget
    cases h
    exact ⟨hgood, .refl _, hs⟩
  | succ budget ih =>
    rw [Prune.sweeps] at h
    rw [Prune.sweepsBegun] at hmade
    cases ho : Prune.once settings slots t with
    | error e => simp [ho, bind, Except.bind] at h
    | ok b =>
      obtain ⟨t₁, slots₁, changed⟩ := b
      simp only [ho, bind, Except.bind] at h hmade
      obtain ⟨hgood₁, hle₁, hs₁⟩ := once_keeps hk hpolicy hmax
        (fun b hb => hmade b (List.mem_append_left _ hb)) hgood hs ho
      cases changed with
      | false =>
        cases h
        exact ⟨hgood₁, hle₁, hs₁⟩
      | true =>
        obtain ⟨hgood₂, hle₂, hs₂⟩ :=
          ih (fun b hb => hmade b (List.mem_append_right _ hb)) hgood₁ hs₁ (.inl rfl) h
        exact ⟨hgood₂, hle₁.trans hle₂, hs₂⟩

/-! What the claims say of the passes that a run begins. -/

/-- The claims hold of the class that a pass begins with. -/
def Begins (k : Claims) (b : Begun) : Prop :=
  ∃ o passed, o.entry.name = b.entry ∧ k.holds passed o b.ledger b.bytes

section Begins

variable (hk : k.Kept policy fun _ => True)
include hk

theorem settle_begins {o : Slot} {budget : Nat} {bytes : List UInt8} {l : Ledger}
    {passed : Bool} (hgood : k.good l.tracker) (hholds : k.holds passed o l bytes) :
    ∀ b ∈ Prune.settleBegun policy o.entry.name budget bytes l, k.Begins b := by
  induction budget generalizing bytes l passed with
  | zero => exact List.forall_mem_nil _
  | succ budget ih =>
    rw [Prune.settleBegun]
    refine List.forall_mem_cons.2 ⟨⟨o, passed, rfl, hholds⟩, ?_⟩
    cases hp : Prune.pass policy o.entry.name bytes l with
    | error e => exact List.forall_mem_nil _
    | ok b =>
      obtain ⟨l₁, out⟩ := b
      obtain ⟨hgood₁, -, hout⟩ := hk.pass trivial hgood hholds hp
      cases out with
      | unwanted => exact List.forall_mem_nil _
      | unchanged => exact List.forall_mem_nil _
      | modified bytes₁ => exact ih hgood₁ hout

theorem visit_begins {settings : Settings} (hpolicy : settings.policy = policy) {o s : Slot}
    {t : Tracker} {passed : Bool} (hgood : k.good t) (hs : k.Of t passed o s) :
    ∀ b ∈ Prune.visitBegun settings s t, k.Begins b := by
  subst hpolicy
  unfold Prune.visitBegun
  split
  · next hlive =>
    obtain ⟨ho, hd⟩ := hs.alive hlive
    rw [show s.entry.name = o.entry.name by rw [hs.entry]]
    exact settle_begins hk hgood (hs.live ho hd)
  · exact List.forall_mem_nil _

theorem once_begins {settings : Settings} (hpolicy : settings.policy = policy)
    (hmax : 0 < settings.maxPasses) {os slots : List Slot} {t : Tracker} {passed : Bool}
    (hgood : k.good t) (hs : List.Forall₂ (k.Of t passed) os slots) :
    ∀ b ∈ Prune.onceBegun settings slots t, k.Begins b := by
  induction slots generalizing os t with
  | nil => exact List.forall_mem_nil _
  | cons s rest ih =>
    obtain _ | @⟨o, _, os, _, hs, hrest⟩ := hs
    rw [Prune.onceBegun]
    refine List.forall_mem_append.2 ⟨visit_begins hk hpolicy hgood hs, ?_⟩
    cases hv : Prune.visit settings s t with
    | error e => exact List.forall_mem_nil _
    | ok b =>
      obtain ⟨hgood₁, hle₁, -⟩ := visit_keeps hk hpolicy hmax (fun _ _ => trivial) hgood hs hv
      exact ih hgood₁ (hrest.imp fun _ _ h => h.grow hk hgood₁ hle₁)

/-- The claims hold wherever sweeps begin a pass. -/
theorem sweeps_begin {settings : Settings} (hpolicy : settings.policy = policy)
    (hmax : 0 < settings.maxPasses) {budget : Nat} {os slots : List Slot} {t : Tracker}
    {passed : Bool} (hgood : k.good t) (hs : List.Forall₂ (k.Of t passed) os slots) :
    ∀ b ∈ Prune.sweepsBegun settings budget slots t, k.Begins b := by
  induction budget generalizing slots t passed with
  | zero => exact List.forall_mem_nil _
  | succ budget ih =>
    rw [Prune.sweepsBegun]
    refine List.forall_mem_append.2 ⟨once_begins hk hpolicy hmax hgood hs, ?_⟩
    cases ho : Prune.once settings slots t with
    | error e => exact List.forall_mem_nil _
    | ok b =>
      obtain ⟨t₁, slots₁, changed⟩ := b
      obtain ⟨hgood₁, -, hs₁⟩ := once_keeps hk hpolicy hmax (fun _ _ => trivial) hgood hs ho
      cases changed with
      | false => exact List.forall_mem_nil _
      | true => exact ih hgood₁ hs₁

end Begins

/-- A live class that a pass from the tracker `t` leaves unchanged, and the tracker with it. -/
def AtRest (k : Claims) (policy : Policy) (made : Begun → Prop) (t : Tracker) (o s : Slot) :
    Prop :=
  s.isLive → ∃ passed memory, k.holds passed o ⟨t, memory⟩ s.entry.contents ∧
    made ⟨o.entry.name, s.entry.contents, ⟨t, memory⟩⟩ ∧
    Prune.pass policy o.entry.name s.entry.contents ⟨t, memory⟩ =
      .ok (⟨t, s.memory⟩, .unchanged)

theorem visit_quiet {settings : Settings} (hpolicy : settings.policy = policy)
    (hmax : 0 < settings.maxPasses)
    (hquiet : ∀ {o passed l bytes l'}, k.holds passed o l bytes →
      Prune.pass policy o.entry.name bytes l = .ok (l', .unchanged) → l'.tracker = l.tracker)
    {o s s' : Slot} {t t' : Tracker} {passed : Bool}
    (hmade : ∀ b ∈ Prune.visitBegun settings s t, made b)
    (hs : k.Of t passed o s) (h : Prune.visit settings s t = .ok (t', s', false)) :
    t' = t ∧ k.AtRest policy made t o s' := by
  subst hpolicy
  unfold Prune.visit at h
  unfold Prune.visitBegun at hmade
  cases hlive : s.isLive with
  | false =>
    rw [hlive, if_neg (by simp)] at h
    cases h
    exact ⟨rfl, fun h => absurd (hlive.symm.trans h) (by simp)⟩
  | true =>
    rw [hlive, if_pos rfl] at h hmade
    obtain ⟨ho, hd⟩ := hs.alive hlive
    have hname : s.entry.name = o.entry.name := by
      rw [hs.entry]
    rw [hname] at h hmade
    cases hp : Prune.settle settings.policy o.entry.name settings.maxPasses 0 s.entry.contents
        ⟨t, s.memory⟩ with
    | error e => simp [hp, bind, Except.bind] at h
    | ok b =>
      obtain ⟨l, r?⟩ := b
      simp only [hp, bind, Except.bind, pure, Except.pure, Except.ok.injEq, Prod.mk.injEq] at h
      obtain ⟨rfl, h⟩ := h
      cases r? with
      | none => cases h
      | some r =>
        change s.settle l.memory (if r.isRewritten then _ else _) = _ at h
        cases hrewritten : r.isRewritten with
        | true =>
          rw [hrewritten] at h
          cases h
        | false =>
          rw [hrewritten] at h
          cases h
          obtain ⟨hpass, -⟩ := settle_quiet hmax hp hrewritten
          have ht : l.tracker = t := hquiet (hs.live ho hd) hpass
          have hl : l = ⟨t, l.memory⟩ := by
            rw [← ht]
          have hbegun : ⟨o.entry.name, s.entry.contents, ⟨t, s.memory⟩⟩ ∈
              Prune.settleBegun settings.policy o.entry.name settings.maxPasses s.entry.contents
                ⟨t, s.memory⟩ := by
            obtain ⟨n, hn⟩ : ∃ n, settings.maxPasses = n + 1 := ⟨settings.maxPasses - 1, by omega⟩
            rw [hn]
            exact List.mem_cons_self ..
          refine ⟨ht, fun _ => ⟨passed, s.memory, hs.live ho hd, hmade _ hbegun, ?_⟩⟩
          rw [hl] at hpass
          exact hpass

theorem once_quiet {settings : Settings}
    (hpolicy : settings.policy = policy) (hmax : 0 < settings.maxPasses)
    (hquiet : ∀ {o passed l bytes l'}, k.holds passed o l bytes →
      Prune.pass policy o.entry.name bytes l = .ok (l', .unchanged) → l'.tracker = l.tracker)
    {os slots slots' : List Slot} {t t' : Tracker} {passed : Bool}
    (hmade : ∀ b ∈ Prune.onceBegun settings slots t, made b)
    (hs : List.Forall₂ (k.Of t passed) os slots)
    (h : Prune.once settings slots t = .ok (t', slots', false)) :
    t' = t ∧ List.Forall₂ (k.AtRest policy made t) os slots' := by
  induction slots generalizing os t slots' with
  | nil =>
    cases h
    cases hs
    exact ⟨rfl, .nil⟩
  | cons s rest ih =>
    obtain _ | @⟨o, _, os, _, hs, hrest⟩ := hs
    rw [Prune.once] at h
    rw [Prune.onceBegun] at hmade
    cases hv : Prune.visit settings s t with
    | error e => simp [hv, bind, Except.bind] at h
    | ok b =>
      obtain ⟨t₁, s₁, changed₁⟩ := b
      simp only [hv, bind, Except.bind] at h hmade
      cases hr : Prune.once settings rest t₁ with
      | error e => simp [hr] at h
      | ok b =>
        obtain ⟨t₂, rest', changed₂⟩ := b
        simp only [hr, pure, Except.pure, Except.ok.injEq, Prod.mk.injEq, Bool.or_eq_false_iff]
          at h
        obtain ⟨rfl, rfl, rfl, rfl⟩ := h
        obtain ⟨rfl, hs₁⟩ := visit_quiet hpolicy hmax hquiet
          (fun b hb => hmade b (List.mem_append_left _ hb)) hs hv
        obtain ⟨rfl, hrest₁⟩ :=
          ih (fun b hb => hmade b (List.mem_append_right _ hb)) hrest hr
        exact ⟨rfl, .cons hs₁ hrest₁⟩

/-- When sweeps end because one changed nothing, every class left is at rest. -/
theorem sweeps_quiet (hk : k.Kept policy made) {settings : Settings}
    (hpolicy : settings.policy = policy) (hmax : 0 < settings.maxPasses)
    (hquiet : ∀ {o passed l bytes l'}, k.holds passed o l bytes →
      Prune.pass policy o.entry.name bytes l = .ok (l', .unchanged) → l'.tracker = l.tracker)
    {budget done : Nat} {os slots : List Slot} {t t' : Tracker} {passed : Bool}
    {r : Sweep.Settled}
    (hmade : ∀ b ∈ Prune.sweepsBegun settings budget slots t, made b) (hgood : k.good t)
    (hs : List.Forall₂ (k.Of t passed) os slots) (hstable : r.stable = true)
    (h : Prune.sweeps settings budget done slots t = .ok (t', r)) :
    List.Forall₂ (k.AtRest policy made t') os r.slots := by
  induction budget generalizing done slots t passed with
  | zero =>
    cases h
    cases hstable
  | succ budget ih =>
    rw [Prune.sweeps] at h
    rw [Prune.sweepsBegun] at hmade
    cases ho : Prune.once settings slots t with
    | error e => simp [ho, bind, Except.bind] at h
    | ok b =>
      obtain ⟨t₁, slots₁, changed⟩ := b
      simp only [ho, bind, Except.bind] at h hmade
      cases changed with
      | false =>
        cases h
        obtain ⟨rfl, hs₁⟩ := once_quiet hpolicy hmax hquiet
          (fun b hb => hmade b (List.mem_append_left _ hb)) hs ho
        exact hs₁
      | true =>
        obtain ⟨hgood₁, -, hs₁⟩ := once_keeps hk hpolicy hmax
          (fun b hb => hmade b (List.mem_append_left _ hb)) hgood hs ho
        exact ih (fun b hb => hmade b (List.mem_append_right _ hb)) hgood₁ hs₁ h

end Claims

namespace Sweep

/-- The slots that a run starts with. -/
def slots (entries : List Entry) : List Slot := entries.map fun entry => { entry }

theorem slots_of {k : Claims} {t : Tracker} {entries : List Entry}
    (h : ∀ e ∈ entries, e.isClass = true → k.holds false { entry := e } ⟨t, {}⟩ e.contents) :
    List.Forall₂ (k.Of t false) (slots entries) (slots entries) := by
  unfold slots
  rw [List.forall₂_map_left_iff, List.forall₂_map_right_iff, List.forall₂_same]
  intro e he
  refine ⟨rfl, fun _ => rfl, fun hlive _ => h e he ?_, fun _ hdeleted => nomatch hdeleted⟩
  simpa [Slot.isLive] using hlive

end Sweep

end JarPruning
