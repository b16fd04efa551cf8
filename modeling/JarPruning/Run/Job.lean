import JarPruning.Archive.Pruned
import JarPruning.Run.FileStore

/-! Filtering one archive file into another. -/
namespace JarPruning

/-- What a run has said so far. -/
structure Journal where
  log : Array LogEvent := #[]
  printed : Array String := #[]
  deriving Repr

/-- Why an archive file is not filtered. -/
inductive JobFailure where
  | unopened (source : String) (fault : FileFault)
  | unread (source : String) (fault : ContainerFault)
  | ofClass (failure : ClassFailure)
  | unwritten (target : String) (fault : FileFault)
  deriving DecidableEq, Repr

def JobFailure.message : JobFailure → String
  | .unopened source fault => s!"failed to open {source}: {fault.text}"
  | .unread source fault => s!"failed to read {source}: {fault.text}"
  | .ofClass failure => failure.message
  | .unwritten target fault =>
    s!"failed to write {target}: failed to persist temporary file: {fault.text}: {fault.text}"

structure Job where
  source : String
  target : String
  deriving DecidableEq, Repr

namespace Job

variable {m : Type → Type} [Monad m] [FileStore m]

def note (e : LogEvent) : StateT Journal m Unit := modify fun j => { j with log := j.log.push e }

/-- Filters an archive in a world of its own and keeps what it says. -/
def prune (settings : Settings) (a : Archive) : StateT Journal m (Except ClassFailure Pruned) := do
  match (a.prune settings).run { log := (← get).log } with
  | .ok pruned w => modify fun j => { j with log := w.log }; return .ok pruned
  | .error e w => modify fun j => { j with log := w.log }; return .error e

/-- Nothing is written unless all classes were filtered. -/
def run (settings : Settings) (job : Job) : StateT Journal m (Except JobFailure Report) := do
  match ← FileStore.readArchive (m := m) job.source with
  | .error e => return .error (.unopened job.source e)
  | .ok (.error e) => return .error (.unread job.source e)
  | .ok (.ok a) =>
    match ← prune settings a with
    | .error e => return .error (.ofClass e)
    | .ok pruned =>
      let filtered := pruned.archive settings.preserveTimestamps
      match ← FileStore.writeArchive (m := m) job.target filtered with
      | .error e => return .error (.unwritten job.target e)
      | .ok () =>
        let r := pruned.report
        note (.archiveDone job.source job.target r.entries r.classesRewritten r.classesDeleted
          r.sweeps)
        return .ok r

end Job

end JarPruning
