import JarPruning.ClassFile.Walk
import JarPruning.Proofs.ClassFile.Reading
import JarPruning.Proofs.Except
import JarPruning.Proofs.Pass.Prune

/-!
Scanned instructions in their code, and bytes overwritten in a body.
-/
namespace JarPruning

namespace Instruction

/-- A scanned instruction stands in the code where its offset says. -/
theorem scanFrom_mem {base : Nat} {code : List UInt8} {is : List Instruction}
    (h : scanFrom base code = .ok is) {i : Instruction} (hi : i ∈ is) :
    ∃ before after, code = before ++ i.bytes ++ after ∧ i.offset = base + before.length := by
  fun_induction scanFrom base code generalizing is with
  | case1 => cases h; cases hi
  | case2 => cases h
  | case3 => cases h
  | case4 base op tail n hn operands rest hcut hshort ih =>
    obtain ⟨hcode, hlength⟩ := cut?_eq_some_iff.1 hcut
    cases hrest : scanFrom (base + 1 + n) rest with
    | error e => simp [hrest, Except.map] at h
    | ok is' =>
      simp only [hrest, Except.map, Except.ok.injEq] at h
      subst h
      obtain rfl | hi := List.mem_cons.1 hi
      · exact ⟨[], rest, by simp [bytes, hcode], rfl⟩
      · obtain ⟨before, after, hsplit, hoffset⟩ := ih hrest hi
        refine ⟨op :: operands ++ before, after, by simp [hcode, hsplit], ?_⟩
        rw [hoffset, List.length_append, List.length_cons, hlength]
        omega

end Instruction

namespace Body

theorem read_finds : Reader.Finds read fun b front =>
    ∃ header, front = header ++ b.code ∧ header.length = codeStart := by
  refine Reader.word16_finds.bind fun stack f₁ h₁ => Reader.word16_finds.bind fun locals f₂ h₂ =>
    (Reader.number_finds 4).bind fun n f₃ h₃ => (Reader.take_finds n).bind fun code f₄ h₄ =>
    Reader.Finds.pure ?_
  obtain rfl := h₁
  obtain rfl := h₂
  obtain ⟨rfl, -⟩ := h₃
  obtain ⟨rfl, rfl⟩ := h₄
  exact ⟨BigEndian.word16 stack ++ BigEndian.word16 locals ++ BigEndian.digits 4 f₄.length,
    by simp, by simp [codeStart]⟩

/-- The code lies in the payload behind its header. -/
theorem of_ofPayload {payload : List UInt8} {b : Body} (h : ofPayload payload = .ok b) :
    ∃ header rest, payload = header ++ b.code ++ rest ∧ header.length = codeStart := by
  obtain ⟨front, rest, hpayload, header, rfl, hlength⟩ := read_finds.front h
  exact ⟨header, rest, hpayload, hlength⟩

theorem length_patch_ge (payload : List UInt8) (offset : Nat) (replacement : List UInt8) :
    payload.length ≤ (patch payload offset replacement).length := by
  simp only [patch, List.length_append, List.length_take, List.length_drop]
  omega

theorem length_patch {payload : List UInt8} {offset : Nat} {replacement : List UInt8}
    (h : codeStart + offset + replacement.length ≤ payload.length) :
    (patch payload offset replacement).length = payload.length := by
  simp only [patch, List.length_append, List.length_take, List.length_drop]
  omega

theorem getElem?_patch {payload : List UInt8} {offset : Nat} {b : UInt8} {bs : List UInt8}
    (h : codeStart + offset ≤ payload.length) :
    (patch payload offset (b :: bs))[codeStart + offset]? = some b := by
  have hlength : (payload.take (codeStart + offset)).length = codeStart + offset :=
    List.length_take_of_le h
  rw [patch, List.append_assoc, List.getElem?_append_right (by omega), hlength, Nat.sub_self]
  rfl

end Body

open Walk (Patch)

theorem length_applyPatches_ge (payload : List UInt8) (patches : List Patch) :
    payload.length ≤ (Walk.applyPatches payload patches).length := by
  unfold Walk.applyPatches
  induction patches generalizing payload with
  | nil => exact Nat.le_refl _
  | cons p ps ih => exact Nat.le_trans (Body.length_patch_ge payload p.offset p.bytes.toList) (ih _)

/-- Sites are read from instructions of the code. -/
theorem sites_ok {pool : ConstantPool} {bootstraps : List Bootstrap} {payload : List UInt8}
    {ss : List (Instruction × Site)} (h : sites pool bootstraps payload = .ok ss) :
    ∃ b, Body.ofPayload payload = .ok b ∧ Instruction.scan b.code = .ok (ss.map (·.1)) ∧
      ∀ s ∈ ss, Site.read pool bootstraps s.1 = .ok s.2 := by
  unfold sites at h
  obtain ⟨b, hb, h⟩ := bind_ok_iff.1 h
  obtain ⟨is, his, h⟩ := bind_ok_iff.1 h
  obtain ⟨rfl, hread⟩ := paired_ok_iff.1 h
  exact ⟨b, hb, his, hread⟩

/-- The opcode of a site's instruction lies in the payload behind the header. -/
theorem sites_opcode {pool : ConstantPool} {bootstraps : List Bootstrap} {payload : List UInt8}
    {ss : List (Instruction × Site)} (h : sites pool bootstraps payload = .ok ss)
    {s : Instruction × Site} (hs : s ∈ ss) :
    payload[Body.codeStart + s.1.offset]? = some s.1.opcode := by
  obtain ⟨b, hb, hscan, -⟩ := sites_ok h
  obtain ⟨header, rest, hpayload, hheader⟩ := Body.of_ofPayload hb
  obtain ⟨before, after, hcode, hoffset⟩ :=
    Instruction.scanFrom_mem hscan (List.mem_map_of_mem hs)
  rw [hpayload, hcode, hoffset, ← hheader]
  simp [Instruction.bytes]

/-- A body keeps its length if every patch lies inside it. -/
theorem length_applyPatches {payload : List UInt8} {patches : List Patch}
    (h : ∀ p ∈ patches, Body.codeStart + p.offset + 3 ≤ payload.length) :
    (Walk.applyPatches payload patches).length = payload.length := by
  induction patches generalizing payload with
  | nil => rfl
  | cons p ps ih =>
    have hp : (Body.patch payload p.offset p.bytes.toList).length = payload.length := by
      have := h p (List.mem_cons_self ..)
      exact Body.length_patch (by rwa [Vector.length_toList])
    refine (ih fun p' hp' => ?_).trans hp
    rw [hp]
    exact h p' (List.mem_cons_of_mem _ hp')

/-- Every replacement starts with another opcode. -/
theorem Neutral.replacement?_head {op : UInt8} {descriptor : String} {bytes : Vector UInt8 3}
    (h : Neutral.replacement? op descriptor = some bytes) :
    ∃ b bs, bytes.toList = b :: bs ∧ b ≠ op := by
  have hpush {push : UInt8} (h : Neutral.pushDefault? descriptor = some push) :
      push ≠ Opcode.getstatic := by
    unfold Neutral.pushDefault? at h
    split at h <;> cases h <;> decide
  unfold Neutral.replacement? at h
  cases hd : Neutral.pushDefault? descriptor with
  | none => simp [hd] at h
  | some push =>
    have hdiscard (op : UInt8) (h : op = Opcode.putfield ∨ op = Opcode.putstatic) :
        Neutral.discard descriptor ≠ op := by
      unfold Neutral.discard
      obtain rfl | rfl := h <;> split <;> decide
    simp only [hd, Option.bind_eq_bind, Option.bind_some] at h
    split at h
    · next hop =>
      cases h
      exact ⟨_, _, rfl, hdiscard op (.inl hop)⟩
    split at h
    · next hop =>
      cases h
      exact ⟨_, _, rfl, hdiscard op (.inr hop)⟩
    split at h
    · next hop =>
      cases h
      exact ⟨_, _, rfl, by rw [hop]; decide⟩
    split at h
    · next hop =>
      cases h
      exact ⟨_, _, rfl, by rw [hop]; exact hpush hd⟩
    · cases h

theorem Site.read_access {pool : ConstantPool} {bootstraps : List Bootstrap} {i : Instruction}
    {op : UInt8} {target : MemberRef} (h : Site.read pool bootstraps i = .ok (.access op target)) :
    op = i.opcode := by
  unfold Site.read at h
  split at h
  · obtain ⟨t, -, h⟩ := bind_ok_iff.1 h
    cases h
    rfl
  split at h
  · obtain ⟨t, -, h⟩ := bind_ok_iff.1 h
    cases h
  split at h
  · obtain ⟨hs, -, h⟩ := bind_ok_iff.1 h
    cases h
  · cases h

theorem Site.opcode_of_access {pool : ConstantPool} {bootstraps : List Bootstrap}
    {i : Instruction} {op : UInt8} {target : MemberRef}
    (h : Site.read pool bootstraps i = .ok (.access op target)) :
    Opcode.isFieldAccess i.opcode = true := by
  unfold Site.read at h
  split at h
  · assumption
  split at h
  · obtain ⟨t, -, h⟩ := bind_ok_iff.1 h
    cases h
  split at h
  · obtain ⟨hs, -, h⟩ := bind_ok_iff.1 h
    cases h
  · cases h

theorem Site.operands_of_access {pool : ConstantPool} {bootstraps : List Bootstrap}
    {i : Instruction} {op : UInt8} {target : MemberRef}
    (h : Site.read pool bootstraps i = .ok (.access op target)) : 2 ≤ i.operands.length := by
  unfold Site.read at h
  split at h
  · obtain ⟨t, ht, h⟩ := bind_ok_iff.1 h
    obtain ⟨w, hw, -⟩ := bind_ok_iff.1 ht
    unfold Instruction.operand16 at hw
    split at hw
    · next a b rest hoperands =>
      rw [hoperands, List.length_cons, List.length_cons]
      omega
    · cases hw
  split at h
  · obtain ⟨t, -, h⟩ := bind_ok_iff.1 h
    cases h
  split at h
  · obtain ⟨hs, -, h⟩ := bind_ok_iff.1 h
    cases h
  · cases h

theorem Site.patch?_some {l : Ledger} {self : String} {i : Instruction} {site : Site} {p : Patch}
    (h : site.patch? l self i = some p) :
    ∃ op target, site = .access op target ∧ l.fieldGone self target.owner target.name = true ∧
      p.offset = i.offset ∧ Neutral.replacement? op target.descriptor = some p.bytes := by
  cases site with
  | access op target =>
    unfold Site.patch? at h
    dsimp only at h
    split at h
    · next hgone =>
      obtain ⟨bytes, hbytes, rfl⟩ := Option.map_eq_some_iff.1 h
      exact ⟨op, target, rfl, hgone, rfl, hbytes⟩
    · cases h
  | invoke _ => cases h
  | bind _ => cases h
  | plain => cases h

theorem patch_inside {pool : ConstantPool} {bootstraps : List Bootstrap} {payload : List UInt8}
    {ss : List (Instruction × Site)} (h : sites pool bootstraps payload = .ok ss) {l : Ledger}
    {self : String} : ∀ p ∈ ss.filterMap fun s => s.2.patch? l self s.1,
      Body.codeStart + p.offset + 3 ≤ payload.length := by
  intro p hp
  obtain ⟨s, hs, hp⟩ := List.mem_filterMap.1 hp
  obtain ⟨op, target, hsite, -, hoffset, -⟩ := Site.patch?_some hp
  obtain ⟨b, hb, hscan, hread⟩ := sites_ok h
  have hoperands := Site.operands_of_access (hsite ▸ hread s hs)
  obtain ⟨header, rest, hpayload, hheader⟩ := Body.of_ofPayload hb
  obtain ⟨before, after, hcode, hat⟩ := Instruction.scanFrom_mem hscan (List.mem_map_of_mem hs)
  rw [hpayload, hcode, hoffset, hat, ← hheader]
  simp only [Instruction.bytes, List.length_append, List.length_cons]
  omega

/-- A body that its patches leave as it was has none. -/
theorem patches_eq_nil {pool : ConstantPool} {bootstraps : List Bootstrap}
    {payload : List UInt8} {ss : List (Instruction × Site)}
    (h : sites pool bootstraps payload = .ok ss) {l : Ledger} {self : String}
    (heq : Walk.applyPatches payload (ss.filterMap fun s => s.2.patch? l self s.1) = payload) :
    (ss.filterMap fun s => s.2.patch? l self s.1) = [] := by
  obtain hnil | ⟨ps, p, hps⟩ := List.eq_nil_or_concat (ss.filterMap fun s => s.2.patch? l self s.1)
  · exact hnil
  obtain ⟨s, hs, hp⟩ : ∃ s ∈ ss, s.2.patch? l self s.1 = some p := by
    rw [← List.mem_filterMap, hps]
    simp
  obtain ⟨op, target, hsite, -, hoffset, hbytes⟩ := Site.patch?_some hp
  obtain ⟨-, -, -, hread⟩ := sites_ok h
  have hop : op = s.1.opcode := Site.read_access (hsite ▸ hread s hs)
  obtain ⟨b, bs, hlist, hne⟩ := Neutral.replacement?_head hbytes
  -- The last patch of all is what the body shows at its offset.
  have hopcode := sites_opcode h hs
  have hinside := (List.getElem?_eq_some_iff.1 hopcode).1
  have hge := length_applyPatches_ge payload ps
  have hlast : Walk.applyPatches payload (ps ++ [p]) =
      Body.patch (Walk.applyPatches payload ps) s.1.offset (b :: bs) := by
    rw [Walk.applyPatches, List.foldl_append, ← hoffset, ← hlist]
    rfl
  rw [hps, List.concat_eq_append, hlast] at heq
  rw [← heq, Body.getElem?_patch (by omega), Option.some.injEq] at hopcode
  exact absurd (hopcode.trans hop.symm) hne

end JarPruning
