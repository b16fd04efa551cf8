import JarPruning.ClassFile.ConstantPool
import JarPruning.Metadata.Removal

/-! What is said about the work while it goes on. -/
namespace JarPruning

inductive Level where
  | debug | info | warn | error
  deriving DecidableEq, Repr

def Level.text : Level → String
  | .debug => "DEBUG"
  | .info => "INFO"
  | .warn => "WARN"
  | .error => "ERROR"

/-- Why a method cannot stay: what its body refers to. -/
inductive Reference where
  | invokes (target : MemberRef)
  | accesses (target : MemberRef)
  | binds (target : MemberRef)
  deriving DecidableEq, Repr

def Reference.text : Reference → String
  | .invokes t =>
    let kind := if t.isInterface then "interface method" else "method"
    s!"invokes unwanted {kind} {t.owner}.{t.name}{t.descriptor}"
  | .accesses t => s!"accesses unwanted field {t.owner}.{t.name}"
  | .binds t => s!"binds unwanted {t.owner}.{t.name}"

inductive LogEvent where
  | unwantedParent (className parent : String)
  | enclosed (className owner : String)
  | droppedInner (className inner : String) (simpleName : Option String)
  | strippedClass (className annot : String)
  | classNotStubbed (className annot : String)
  | deletedClass (className : String)
  | strippedField (className field annot : String)
  | fieldNotStubbed (className field annot : String)
  | deletedField (className : String) (field : FieldTarget)
  | strippedMethod (className : String) (method : Signature) (annot : String)
  | constructorNotStubbed (className : String) (method : Signature)
  | unwantedReference (className : String) (method : Signature) (reference : Reference)
  | neutralized (className method : String) (target : MemberRef)
  | noCompanion (method : Signature)
  | deletedMethod (className : String) (method : Signature)
  | stubbedMethod (className : String) (method : Signature)
  | unknownMetadata (className : String) (code : Int32)
  | uneditedMetadata (className : String) (kind : Metadata.Kind)
  | mismatch (className : String) (mismatch : Metadata.Mismatch)
  | removedMetadata (className : String) (removed : Metadata.Removed)
  | classStillChanging (entry : String) (passes : Nat)
  | classRewritten (entry : String) (passes : Nat)
  | archiveStillChanging (passes deleted : Nat)
  | archiveDone (source target : String) (entries rewritten deleted passes : Nat)
  | archiveFailed (message : String)
  | noPolicy
  deriving DecidableEq, Repr

namespace LogEvent

def level : LogEvent → Level
  | .unwantedParent .. | .enclosed .. | .droppedInner .. | .unwantedReference .. | .neutralized ..
  | .noCompanion .. | .uneditedMetadata .. | .classRewritten .. => .debug
  | .strippedClass .. | .deletedClass .. | .strippedField .. | .deletedField ..
  | .strippedMethod .. | .deletedMethod .. | .stubbedMethod .. | .removedMetadata ..
  | .archiveDone .. => .info
  | .classNotStubbed .. | .fieldNotStubbed .. | .constructorNotStubbed .. | .unknownMetadata ..
  | .mismatch .. | .classStillChanging .. | .archiveStillChanging .. | .noPolicy => .warn
  | .archiveFailed .. => .error

def message : LogEvent → String
  | .unwantedParent c parent => s!"{c} extends unwanted {parent}"
  | .enclosed c owner => s!"{c} is enclosed by unwanted {owner}"
  | .droppedInner c inner simpleName =>
    let name := simpleName.getD "anonymous"
    s!"- Dropped inner class entry {inner} ({name}) from {c}"
  | .strippedClass c a => s!"- Removed annotation {a} from class {c}"
  | .classNotStubbed c a => s!"classes cannot be stubbed, ignoring {a} on {c}"
  | .deletedClass c => s!"- Deleted class {c}"
  | .strippedField c f a => s!"- Removed annotation {a} from field {c}.{f}"
  | .fieldNotStubbed c f a => s!"fields cannot be stubbed, ignoring {a} on {c}.{f}"
  | .deletedField c f => s!"- Deleted field {c}.{f.text}"
  | .strippedMethod c m a => s!"- Removed annotation {a} from method {c}.{m.text}"
  | .constructorNotStubbed c m => s!"constructors cannot be stubbed, keeping {c}.{m.text}"
  | .unwantedReference c m reference => s!"{c}.{m.text} {reference.text}"
  | .neutralized c m t => s!"- Neutralized access to {t.owner}.{t.name} in {c}.{m}"
  | .noCompanion m => s!"{m.text} is synthetic for {m.visibleName}, no default companion"
  | .deletedMethod c m => s!"- Deleted method {c}.{m.text}"
  | .stubbedMethod c m =>
    let kind := if m.isVoidFunction then "empty" else "throwing"
    s!"- Stubbed method {c}.{m.text} ({kind})"
  | .unknownMetadata c code => s!"unsupported Kotlin metadata kind {code} in {c}"
  | .uneditedMetadata c kind => s!"{c} carries {kind.text} metadata (k={kind.code}), left as is"
  | .mismatch c m => s!"signature mismatch in {c}: {m.text}"
  | .removedMetadata c removed => s!"- Removed metadata for {removed.text} from {c}"
  | .classStillChanging entry n =>
    s!"{entry} still changing after {n} passes, keeping the last result"
  | .classRewritten entry n => s!"{entry} rewritten in {n} passes"
  | .archiveStillChanging n deleted =>
    s!"classes still changing after {n} archive passes ({deleted} classes deleted so far)"
  | .archiveDone source target entries rewritten deleted passes =>
    s!"{source} -> {target}: {entries} entries, {rewritten} classes rewritten, {deleted} deleted, {passes} passes"
  | .archiveFailed m => m
  | .noPolicy => "no annotations configured, archives are copied unchanged"

/-- The event as a line of a log. -/
def line (e : LogEvent) : String := s!"{e.level.text} {e.message}"

end LogEvent

end JarPruning
