import JarPruning.Bytecode.Body
import JarPruning.ClassFile.ConstantPool.Extension
import JarPruning.Member.Descriptor

/-!
Stub bodies: a void method returns at once, any other throws an exception that says that the
method is gone.
-/
namespace JarPruning.Stub

inductive Fault where
  | descriptor (text : String) (fault : Descriptor.Fault)
  | tooManyArguments
  | format (fault : JarPruning.Fault)
  deriving DecidableEq, Repr

def Fault.message : Fault → String
  | .descriptor text fault => s!"invalid method descriptor {text}: {fault.text}"
  | .tooManyArguments =>
    "too many method arguments: out of range integral type conversion attempted"
  | .format fault => fault.message

def exceptionClass : String := "java/lang/UnsupportedOperationException"

def exceptionText : String := "Method has been deleted"

def exceptionConstructor : Signature := ⟨"<init>", "(Ljava/lang/String;)V"⟩

/-- Loads the constant at an index, in two bytes if the index fits one. -/
def load (index : UInt16) : List UInt8 :=
  if index.toNat < 256 then [Opcode.ldc, UInt8.ofNat index.toNat]
  else Opcode.ldcW :: BigEndian.word16 index

def throwing (owner text constructor : UInt16) : List UInt8 :=
  Opcode.new :: BigEndian.word16 owner ++ Opcode.dup :: load text ++
    Opcode.invokespecial :: BigEndian.word16 constructor ++ [Opcode.athrow]

/-- The code that builds and throws the exception, its constants being in the pool. -/
def throwingCode : ConstantPool.Extension (List UInt8) := do
  let owner ← ConstantPool.addClass exceptionClass
  let text ← ConstantPool.addString exceptionText
  let constructor ← ConstantPool.addMethodRef exceptionClass exceptionConstructor
  return throwing owner text constructor

/-- The stack and the code of a stub. -/
def code (returnsVoid : Bool) : ConstantPool.Extension (UInt16 × List UInt8) :=
  if returnsVoid then pure (0, [Opcode.ret])
  else return (3, ← throwingCode)

/-- The `Code` payload of a stub. -/
def payload (descriptor : String) (isStatic : Bool) :
    EStateM Fault ConstantPool (List UInt8) := do
  match MethodShape.of descriptor with
  | .error fault => throw (.descriptor descriptor fault)
  | .ok shape =>
    let locals := shape.argumentSlots + if isStatic then 0 else 1
    unless locals < UInt16.size do throw .tooManyArguments
    let (maxStack, code) ← (code shape.returnsVoid).adaptExcept .format
    return Body.bytes ⟨maxStack, UInt16.ofNat locals, code⟩

end JarPruning.Stub
