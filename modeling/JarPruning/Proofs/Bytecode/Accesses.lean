import JarPruning.Proofs.Bytecode.Patching

/-!
Patches use up field accesses. A replacement has none, and it stands where one stood.
-/
namespace JarPruning

open Walk (Patch)

/-- How many bytes are opcodes of field accesses, or look like them. -/
def accesses (bytes : List UInt8) : Nat := bytes.countP Opcode.isFieldAccess

theorem accesses_append (l m : List UInt8) : accesses (l ++ m) = accesses l + accesses m :=
  List.countP_append

theorem accesses_le_length (bytes : List UInt8) : accesses bytes ≤ bytes.length :=
  List.countP_le_length

theorem Neutral.accesses_replacement? {op : UInt8} {descriptor : String} {bytes : Vector UInt8 3}
    (h : Neutral.replacement? op descriptor = some bytes) : accesses bytes.toList = 0 := by
  have hpush {push : UInt8} (h : Neutral.pushDefault? descriptor = some push) :
      Opcode.isFieldAccess push = false := by
    unfold Neutral.pushDefault? at h
    split at h <;> cases h <;> decide
  have hdiscard : Opcode.isFieldAccess (Neutral.discard descriptor) = false := by
    unfold Neutral.discard
    split <;> decide
  have hpop : Opcode.isFieldAccess Opcode.pop = false := by decide
  have hnop : Opcode.isFieldAccess Opcode.nop = false := by decide
  unfold Neutral.replacement? at h
  cases hd : Neutral.pushDefault? descriptor with
  | none => simp [hd] at h
  | some push =>
    have hpush := hpush hd
    simp only [hd, Option.bind_eq_bind, Option.bind_some] at h
    split at h
    · cases h
      simp [accesses, hdiscard, hpop, hnop]
    split at h
    · cases h
      simp [accesses, hdiscard, hnop]
    split at h
    · cases h
      simp [accesses, hpush, hpop, hnop]
    split at h
    · cases h
      simp [accesses, hpush, hnop]
    · cases h

/-- A patch takes the place of what it covers. -/
theorem Body.accesses_patch (payload : List UInt8) (offset : Nat) {replacement : List UInt8}
    (hnone : accesses replacement = 0) :
    accesses payload = accesses (patch payload offset replacement) +
      accesses ((payload.drop (codeStart + offset)).take replacement.length) := by
  have hsplit : payload = payload.take (codeStart + offset) ++
      ((payload.drop (codeStart + offset)).take replacement.length ++
        payload.drop (codeStart + offset + replacement.length)) := by
    have hrest : payload.drop (codeStart + offset + replacement.length) =
        (payload.drop (codeStart + offset)).drop replacement.length := by rw [List.drop_drop]
    rw [hrest, List.take_append_drop, List.take_append_drop]
  rw [patch, accesses_append, accesses_append, hnone]
  conv_lhs => rw [hsplit]
  rw [accesses_append, accesses_append]
  omega

/-- A patch over a field access leaves one less. -/
theorem Body.accesses_patch_lt {payload : List UInt8} {offset : Nat} {b op : UInt8}
    {bs : List UInt8} (hnone : accesses (b :: bs) = 0)
    (hop : payload[codeStart + offset]? = some op) (haccess : Opcode.isFieldAccess op = true) :
    accesses (patch payload offset (b :: bs)) < accesses payload := by
  rw [accesses_patch payload offset hnone]
  obtain ⟨hlt, hget⟩ := List.getElem?_eq_some_iff.1 hop
  have hcovered : (payload.drop (codeStart + offset)).take (b :: bs).length =
      op :: ((payload.drop (codeStart + offset + 1)).take bs.length) := by
    rw [List.drop_eq_getElem_cons hlt, hget, List.length_cons, List.take_succ_cons]
  rw [hcovered, accesses, accesses, List.countP_cons_of_pos haccess]
  omega

theorem accesses_applyPatches_le {payload : List UInt8} {patches : List Patch}
    (h : ∀ p ∈ patches, accesses p.bytes.toList = 0) :
    accesses (Walk.applyPatches payload patches) ≤ accesses payload := by
  induction patches generalizing payload with
  | nil => exact Nat.le_refl _
  | cons p ps ih =>
    have hfirst : accesses (Body.patch payload p.offset p.bytes.toList) ≤ accesses payload := by
      rw [Body.accesses_patch payload p.offset (h p (List.mem_cons_self ..))]
      exact Nat.le_add_right ..
    exact Nat.le_trans (ih fun q hq => h q (List.mem_cons_of_mem _ hq)) hfirst

/-- The patches of a body use up field accesses. -/
theorem accesses_patched_lt {pool : ConstantPool} {bootstraps : List Bootstrap}
    {payload : List UInt8} {ss : List (Instruction × Site)}
    (h : sites pool bootstraps payload = .ok ss) {l : Ledger} {self : String}
    (hsome : (ss.filterMap fun s => s.2.patch? l self s.1) ≠ []) :
    accesses (Walk.applyPatches payload (ss.filterMap fun s => s.2.patch? l self s.1)) <
      accesses payload := by
  obtain ⟨-, -, -, hread⟩ := sites_ok h
  have hnone : ∀ p ∈ ss.filterMap fun s => s.2.patch? l self s.1, accesses p.bytes.toList = 0 := by
    intro p hp
    obtain ⟨s, -, hp⟩ := List.mem_filterMap.1 hp
    obtain ⟨op, target, -, -, -, hbytes⟩ := Site.patch?_some hp
    exact Neutral.accesses_replacement? hbytes
  obtain ⟨p, ps, hps⟩ := List.exists_cons_of_ne_nil hsome
  obtain ⟨s, hs, hp⟩ : ∃ s ∈ ss, s.2.patch? l self s.1 = some p := by
    rw [← List.mem_filterMap, hps]
    exact List.mem_cons_self ..
  obtain ⟨op, target, hsite, -, hoffset, hbytes⟩ := Site.patch?_some hp
  have hop : op = s.1.opcode := Site.read_access (hsite ▸ hread s hs)
  have haccess : Opcode.isFieldAccess s.1.opcode = true := Site.opcode_of_access (hsite ▸ hread s hs)
  obtain ⟨b, bs, hlist, -⟩ := Neutral.replacement?_head hbytes
  rw [hps] at hnone ⊢
  have hfirst := hnone p (List.mem_cons_self ..)
  rw [hlist] at hfirst
  have hlt : accesses (Body.patch payload p.offset p.bytes.toList) < accesses payload := by
    rw [hlist]
    exact Body.accesses_patch_lt hfirst (hoffset ▸ sites_opcode h hs) haccess
  have hrest : accesses (Walk.applyPatches (Body.patch payload p.offset p.bytes.toList) ps) ≤
      accesses (Body.patch payload p.offset p.bytes.toList) :=
    accesses_applyPatches_le fun q hq => hnone q (List.mem_cons_of_mem p hq)
  exact Nat.lt_of_le_of_lt hrest hlt

end JarPruning
