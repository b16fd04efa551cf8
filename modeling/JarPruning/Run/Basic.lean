import JarPruning.Archive.Naming
import JarPruning.CommandLine.Options
import JarPruning.Config.Document
import JarPruning.Run.Endpoint
import JarPruning.Run.Job

/-!
A run: the configuration is put together, targets are planned, the output directory is made, and
then one archive after the other is filtered. A failed archive does not keep the others from being
filtered, but it fails the run.
-/
namespace JarPruning

/-- Why a run fails. -/
inductive RunFailure where
  | unreadConfig (path : String) (fault : FileFault)
  | badDocument (path : String) (fault : Document.Fault)
  | badConfig (fault : ConfigFault)
  | noInput (path : String)
  | sharedTarget (first second target : String)
  | noOutputDir (path : String) (fault : FileFault)
  | badEndpoint (fault : Endpoint.Fault)
  | jobsFailed (failed total : Nat)
  deriving Repr

def RunFailure.message : RunFailure → String
  | .unreadConfig path fault => s!"failed to read config {path}: {fault.text}"
  | .badDocument path fault => s!"invalid config {path}: {fault.message}"
  | .badConfig fault => fault.message
  | .noInput path => s!"input not found: {path}"
  | .sharedTarget first second target => s!"inputs {first} and {second} both write {target}"
  | .noOutputDir path fault => s!"failed to create {path}: {fault.text}"
  | .badEndpoint fault => fault.message
  | .jobsFailed failed total => s!"{failed} of {total} archives failed"

/-- A run may fail, and what it said before stays. -/
abbrev Run (m : Type → Type) := ExceptT RunFailure (StateT Journal m)

namespace Run

variable {m : Type → Type} [Monad m] [FileStore m]

def log (e : LogEvent) : Run m Unit := ExceptT.lift (Job.note e)

def print (line : String) : Run m Unit := do
  modify fun j => { j with printed := j.printed.push line }

/-- What an operation of the file store gives; a refusal fails the run. -/
def orFail {α ε : Type} (failure : ε → RunFailure) (x : Except ε α) : Run m α :=
  match x with
  | .ok a => pure a
  | .error e => throw (failure e)

def readDocument (path : String) : Run m Document := do
  let text ← orFail (.unreadConfig path) (← FileStore.readText (m := m) path)
  orFail (.badDocument path) (Document.ofText text)

/-- Names of the document come before those of the command line; of other settings the command
line decides. -/
def settings (o : Options) : Run m Settings := do
  let document ← match o.config with
    | some path => readDocument path
    | none => pure {}
  let names := document.names.merge o.names
  let policy ← orFail (fun e => .badConfig (.policy e)) (Policy.ofNames names)
  if policy.isEmpty then log .noPolicy
  let maxPasses := (o.maxPasses.orElse fun _ => document.maxPasses).getD Settings.defaultMaxPasses
  let preserve := !o.reproducible && document.preserveTimestamps.getD true
  orFail .badConfig (Settings.ofPolicy policy maxPasses preserve)

/-- Pairs every input with its target; `planned` are the pairs before it. -/
def plan (outputDir : String) : (planned : List Job) → (inputs : List String) → Run m (List Job)
  | planned, [] => return planned
  | planned, source :: rest => do
    unless ← FileStore.isFile (m := m) source do throw (.noInput source)
    let target := Naming.filtered source outputDir
    match planned.find? (·.target = target) with
    | some other => throw (.sharedTarget other.source source target)
    | none => plan outputDir (planned ++ [{ source, target }]) rest

/-- Says how an archive fared; whether it failed. -/
def tell (quiet : Bool) (job : Job) : Except JobFailure Report → Run m Bool
  | .ok r => do
    unless quiet do
      let figures := s!"{r.classesRewritten} rewritten, {r.classesDeleted} deleted"
      print s!"{job.source} -> {job.target} ({figures})"
    return false
  | .error e => do
    log (.archiveFailed e.message)
    return true

def execute (o : Options) : Run m Unit := do
  let settings ← settings o
  let jobs ← plan o.outputDir [] o.inputs
  orFail (.noOutputDir o.outputDir) (← (FileStore.ensureDirectories (m := m) o.outputDir).run)
  match o.endpoint with
  | some address => orFail .badEndpoint (Endpoint.check address)
  | none => pure ()
  let outcomes ← jobs.mapM fun job => do return (job, ← ExceptT.lift (job.run settings))
  let failures ← outcomes.filterM fun (job, outcome) => tell o.quiet job outcome
  unless failures.isEmpty do throw (.jobsFailed failures.length jobs.length)

end Run

end JarPruning
