import JarPruning.Proofs.Bytecode.Assembly
import JarPruning.Proofs.Bytecode.Stub

/-!
What stub bodies say. A body is read with room for the arguments, without handlers and attributes. Its
code is a lone return, or builds and throws an exception by constants that the pool it leaves resolves.
Writing it again takes no further constants.
-/
namespace JarPruning.Stub

open BigEndian (word16)
open Assembly (Command listing)
open ConstantPool

/-- The instruction at the offset loads the constant at the index. -/
def loading (offset : Nat) (index : UInt16) : Instruction :=
  if index.toNat < 256 then ⟨offset, Opcode.ldc, [UInt8.ofNat index.toNat]⟩
  else ⟨offset, Opcode.ldcW, word16 index⟩

/-- Creates an object, loads a text, calls a constructor with both and throws the object. -/
def throwingInstructions (owner text constructor : UInt16) : List Instruction :=
  let load := loading 4 text
  [⟨0, Opcode.new, word16 owner⟩, ⟨3, Opcode.dup, []⟩, load,
    ⟨4 + load.length, Opcode.invokespecial, word16 constructor⟩,
    ⟨4 + load.length + 3, Opcode.athrow, []⟩]

theorem scan_throwing (owner text constructor : UInt16) :
    Instruction.scan (throwing owner text constructor) =
      .ok (throwingInstructions owner text constructor) := by
  have hscan (load : Command) := Assembly.scanFrom_listing
    [.plain Opcode.new .constant (by decide) (word16 owner) (by simp; rfl),
      .plain Opcode.dup .bare (by decide) [] rfl, load,
      .plain Opcode.invokespecial .constant (by decide) (word16 constructor) (by simp; rfl),
      .plain Opcode.athrow .bare (by decide) [] rfl] 0
  unfold Instruction.scan throwing load throwingInstructions loading
  by_cases hshort : text.toNat < 256
  · have h := hscan (.plain Opcode.ldc .byte (by decide) [UInt8.ofNat text.toNat] rfl)
    rw [if_pos hshort, if_pos hshort]
    simpa [listing, Command.opcode, Command.operands, Instruction.bytes, Instruction.length] using h
  · have h := hscan (.plain Opcode.ldcW .constant (by decide) (word16 text) (by simp; rfl))
    rw [if_neg hshort, if_neg hshort]
    simpa [listing, Command.opcode, Command.operands, Instruction.bytes, Instruction.length] using h

/-- Code that throws, its constants resolving in the pool. -/
def Throws (pool : ConstantPool) (code : List UInt8) : Prop :=
  ∃ owner text constructor,
    Instruction.scan code = .ok (throwingInstructions owner text constructor) ∧
    pool.className owner = .ok "java/lang/UnsupportedOperationException" ∧
    (∃ i, pool.entry text = .ok (.string i) ∧ pool.utf8 i = .ok "Method has been deleted") ∧
    pool.memberRef constructor = .ok
      ⟨⟨"<init>", "(Ljava/lang/String;)V"⟩, "java/lang/UnsupportedOperationException", false⟩

theorem throws_of_run {p q : ConstantPool} {code : List UInt8} (hsize : p.entries.size ≤ capacity)
    (h : throwingCode.run p = .ok code q) : Extends p q ∧ Throws q code := by
  have houtcome := throwingCode_builds hsize trivial
  rw [h] at houtcome
  obtain ⟨happended, owner, text, constructor, rfl, howner, htext, hconstructor⟩ := houtcome
  exact ⟨happended.front, owner, text, constructor, scan_throwing owner text constructor, howner,
    htext, hconstructor.2⟩

theorem ofPayload_bytes {b : Body} (h : b.code.length < 256 ^ 4) :
    Body.ofPayload b.bytes = .ok b ∧
      b.bytes.drop (Body.codeStart + b.code.length) = [0, 0, 0, 0] := by
  refine ⟨Body.ofPayload_ok_iff.2 ⟨h, [0, 0, 0, 0], rfl⟩, ?_⟩
  rw [← b.length_header, ← List.length_append]
  exact List.drop_left

section

variable {shape : MethodShape} {isStatic : Bool} {p q r : ConstantPool} {bytes : List UInt8}

theorem Written.front (hsize : p.entries.size ≤ capacity) (h : Written p q shape isStatic bytes) :
    Extends p q := by
  cases h with
  | returns _ same => exact same ▸ .refl q
  | throws _ run => exact (throws_of_run hsize run).1

theorem Written.body (hsize : p.entries.size ≤ capacity)
    (hlocals : locals shape isStatic < UInt16.size) (h : Written p q shape isStatic bytes) :
    ∃ body, Body.ofPayload bytes = .ok body ∧
      body.maxLocals.toNat = locals shape isStatic ∧
      bytes.drop (Body.codeStart + body.code.length) = [0, 0, 0, 0] ∧
      if shape.returnsVoid then body.code = [Opcode.ret] ∧ q = p else Throws q body.code := by
  have hmaxLocals : (UInt16.ofNat (locals shape isStatic)).toNat = locals shape isStatic := by
    rw [UInt16.toNat_ofNat', Nat.mod_eq_of_lt hlocals]
  cases h with
  | returns void same =>
    obtain ⟨hread, hend⟩ := ofPayload_bytes
      (b := ⟨0, UInt16.ofNat (locals shape isStatic), [Opcode.ret]⟩) (show 1 < 256 ^ 4 by decide)
    refine ⟨_, hread, hmaxLocals, hend, ?_⟩
    rw [if_pos void]
    exact ⟨rfl, same⟩
  | @throws code value run =>
    have hlength := throwingCode_length run
    obtain ⟨hread, hend⟩ := ofPayload_bytes
      (b := ⟨3, UInt16.ofNat (locals shape isStatic), code⟩) (by dsimp only; omega)
    refine ⟨_, hread, hmaxLocals, hend, ?_⟩
    rw [if_neg (by simp [value])]
    exact (throws_of_run hsize run).2

/-- A body that was written can be written again without further constants. -/
theorem Written.again (hsize : p.entries.size ≤ capacity) (h : Written p q shape isStatic bytes)
    (hfront : Extends q r) : ∃ bytes', Written r r shape isStatic bytes' ∧
      (shape.returnsVoid ∨ Anchored p → bytes' = bytes) := by
  cases h with
  | returns void same => exact ⟨_, .returns void rfl, fun _ => rfl⟩
  | throws value run =>
    obtain ⟨code', hcode'⟩ := throwingCode_again hsize run hfront
    refine ⟨_, .throws value hcode', fun hsame => ?_⟩
    have hanchored := hsame.resolve_left (by simp [value])
    cases hcode'.symm.trans (throwingCode_same hsize hanchored run hfront)
    rfl

/-- Writing a body fails for its arguments or for the pool. -/
theorem payload_error {descriptor : String} {fault : Fault}
    (hshape : MethodShape.of descriptor = .ok shape) (hsize : p.entries.size ≤ capacity)
    (hrun : (payload descriptor isStatic).run p = .error fault q) :
    fault = .tooManyArguments ∧ UInt16.size ≤ locals shape isStatic ∧ q = p ∨
      fault = .format ⟨0, .poolFull⟩ ∧ q.entries.size = capacity ∧ Extends p q := by
  rw [payload_run hshape] at hrun
  by_cases hlocals : locals shape isStatic < UInt16.size
  · rw [if_pos hlocals] at hrun
    cases hvoid : shape.returnsVoid with
    | true =>
      rw [hvoid] at hrun
      cases hrun
    | false =>
      rw [hvoid] at hrun
      have houtcome := throwingCode_builds hsize trivial
      cases hcode : throwingCode.run p with
      | ok code q' =>
        rw [hcode] at hrun
        cases hrun
      | error fault' q' =>
        rw [hcode] at hrun houtcome
        cases hrun
        obtain ⟨happended, hfull, rfl⟩ := houtcome
        exact .inr ⟨rfl, hfull, happended.front⟩
  · rw [if_neg hlocals] at hrun
    cases hrun
    exact .inl ⟨rfl, Nat.not_lt.1 hlocals, rfl⟩

/-- A stub body has room for the arguments, neither handlers nor attributes, and code that returns or
throws. Written again in whatever pool starts with the one it left, it takes nothing more, and it comes
out the same unless a constant that led beyond the first pool has come to resolve. Only too many
arguments or a full pool leave a method without a stub. -/
theorem payload_valid {descriptor : String} {shape : MethodShape} (isStatic : Bool)
    {p : ConstantPool} (hshape : MethodShape.of descriptor = .ok shape)
    (hsize : p.entries.size ≤ 65535) :
    match (payload descriptor isStatic).run p with
    | .ok bytes q =>
      (∃ body, Body.ofPayload bytes = .ok body ∧
        body.maxLocals.toNat = shape.argumentSlots + (if isStatic then 0 else 1) ∧
        bytes.drop (Body.codeStart + body.code.length) = [0, 0, 0, 0] ∧
        if shape.returnsVoid then body.code = [Opcode.ret] ∧ q = p else Throws q body.code) ∧
      Extends p q ∧
      ∀ r, Extends q r → ∃ bytes', (payload descriptor isStatic).run r = .ok bytes' r ∧
        (shape.returnsVoid ∨ Anchored p → bytes' = bytes)
    | .error fault q =>
      fault = .tooManyArguments ∧
          65536 ≤ shape.argumentSlots + (if isStatic then 0 else 1) ∧ q = p ∨
        fault = .format ⟨0, .poolFull⟩ ∧ q.entries.size = 65535 ∧ Extends p q := by
  cases hrun : (payload descriptor isStatic).run p with
  | error fault q => exact payload_error hshape hsize hrun
  | ok bytes q =>
    obtain ⟨shape', hshape', hlocals, hwritten⟩ := payload_ok_iff.1 hrun
    obtain rfl : shape' = shape := Except.ok.inj (hshape'.symm.trans hshape)
    refine ⟨hwritten.body hsize hlocals, hwritten.front hsize, fun r hr => ?_⟩
    obtain ⟨bytes', hagain, hsame⟩ := hwritten.again hsize hr
    exact ⟨bytes', payload_ok_iff.2 ⟨shape', hshape, hlocals, hagain⟩, hsame⟩

end

/-- A stub that refers to a class constant that is there. -/
theorem payload_valid_number :
    let p : ConstantPool := ⟨#[.unusable, .ofText exceptionClass, .classInfo 1]⟩
    let bytes : List UInt8 :=
      [0, 3, 0, 2, 0, 0, 0, 10, 0xBB, 0, 2, 0x59, 0x12, 4, 0xB7, 0, 8, 0xBF, 0, 0, 0, 0]
    p.entries.size ≤ 65535 ∧ ∃ q, (payload "(J)I" true).run p = .ok bytes q ∧
      ∀ r, Extends q r → (payload "(J)I" true).run r = .ok bytes r := by
  intro p bytes
  have hrun : (payload "(J)I" true).run p = .ok bytes ⟨p.entries ++ #[.ofText exceptionText,
      .string 3, .ofText "<init>", .ofText "(Ljava/lang/String;)V", .nameAndType 5 6,
      .methodRef 2 7]⟩ := by with_unfolding_all rfl
  have hshape : MethodShape.of "(J)I" = .ok ⟨"J", "I", 1, 2, false⟩ := by with_unfolding_all rfl
  have hsize : p.entries.size ≤ 65535 := by decide
  have hgrounded : p.Grounded := by decide
  have hvalid := payload_valid true hshape hsize
  rw [hrun] at hvalid
  obtain ⟨-, -, hagain⟩ := hvalid
  refine ⟨hsize, _, hrun, fun r hr => ?_⟩
  obtain ⟨bytes', hbytes', hsame⟩ := hagain r hr
  have hanchored : Anchored p := ⟨fun c hc _ => hgrounded.anchors hc,
    fun c hc _ => hgrounded.anchors hc, fun c hc _ => hgrounded.anchors hc⟩
  rwa [hsame (.inr hanchored)] at hbytes'

/-- A class constant whose name is the next entry to be added is what the second stub throws. -/
theorem payload_moves_if_dangling :
    let p : ConstantPool := ⟨#[.unusable, .classInfo 2]⟩
    let bytes (owner : UInt8) : List UInt8 :=
      [0, 3, 0, 0, 0, 0, 0, 10, 0xBB, 0, owner, 0x59, 0x12, 5, 0xB7, 0, 9, 0xBF, 0, 0, 0, 0]
    p.entries.size ≤ 65535 ∧ ∃ q, (payload "()I" true).run p = .ok (bytes 3) q ∧
      (payload "()I" true).run q = .ok (bytes 1) q := by
  intro p bytes
  refine ⟨by decide, ⟨p.entries ++ #[.ofText exceptionClass, .classInfo 2, .ofText exceptionText,
    .string 4, .ofText "<init>", .ofText "(Ljava/lang/String;)V", .nameAndType 6 7, .methodRef 1 8]⟩, ?_, ?_⟩
  · with_unfolding_all rfl
  · with_unfolding_all rfl

end JarPruning.Stub
