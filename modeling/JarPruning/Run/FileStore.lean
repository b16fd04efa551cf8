import JarPruning.Archive.Basic
import JarPruning.Archive.Naming
import JarPruning.Container.Fault

/-! What a run needs of the place where files are kept, and how it makes directories there. -/
namespace JarPruning

/-- Why the place refuses. -/
inductive FileFault where
  | absent
  | occupied
  | notDirectory
  | isDirectory
  | notText
  | other (text : String)
  deriving DecidableEq, Repr

def FileFault.text : FileFault → String
  | .absent => "No such file or directory (os error 2)"
  | .occupied => "File exists (os error 17)"
  | .notDirectory => "Not a directory (os error 20)"
  | .isDirectory => "Is a directory (os error 21)"
  | .notText => "stream did not contain valid UTF-8"
  | .other text => text

class FileStore (m : Type → Type) where
  isFile : String → m Bool
  isDirectory : String → m Bool
  readText : String → m (Except FileFault String)
  readArchive : String → m (Except FileFault (Except ContainerFault Archive))
  /-- Makes one directory, where the one it lies in is there and it is not. -/
  makeDirectory : String → m (Except FileFault Unit)
  /-- Puts an archive in the place of the file of that name, if there is one. -/
  writeArchive : String → Archive → m (Except FileFault Unit)

namespace FileStore

variable {m : Type → Type} [Monad m] [FileStore m]

/-- Makes a directory; one that is there is as good. -/
def ensureDirectory (path : String) : ExceptT FileFault m Unit := do
  match ← ExceptT.lift (makeDirectory (m := m) path) with
  | .ok () => pure ()
  | .error e => unless ← ExceptT.lift (isDirectory (m := m) path) do throw e

/-- The directories that a path leads through, the outermost first. -/
def directoriesAbove (path : String) : List String :=
  let start := if path.startsWith "/" then "/" else ""
  let parts := Naming.parts path
  (List.range' 1 (parts.length - 1)).map fun n => start ++ String.intercalate "/" (parts.take n)

/-- Makes a directory, and those above it where the want of one is in the way. -/
def ensureDirectories (path : String) : ExceptT FileFault m Unit := do
  try ensureDirectory path
  catch
    | .absent => do
      for above in directoriesAbove path do ensureDirectory above
      ensureDirectory path
    | e => throw e

end FileStore

end JarPruning
