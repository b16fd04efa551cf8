import JarPruning.Run.FileStore

/-! Files kept in memory, below one working directory. -/
namespace JarPruning

inductive FileContent where
  | archive (a : Archive)
  /-- Bytes that are no archive. -/
  | bytes (bytes : List UInt8)
  deriving DecidableEq, Repr

inductive FileNode where
  | directory
  | file (content : FileContent)
  deriving DecidableEq, Repr

/-- Nodes by their places, the parts of a path from the working directory. -/
structure FileTree where
  nodes : List (List String × FileNode) := []
  deriving DecidableEq, Repr

namespace FileTree

def node? (t : FileTree) (place : List String) : Option FileNode :=
  if place = [] then some .directory else t.nodes.lookup place

/-- Every part but the last must lead into a directory; the place reached need not exist. -/
def walk (t : FileTree) : (place parts : List String) → Except FileFault (List String)
  | place, [] => .ok place
  | place, part :: rest =>
    match t.node? place with
    | none => .error .absent
    | some (.file _) => .error .notDirectory
    | some .directory =>
      if part = "" ∨ part = "." then walk t place rest
      else if part = ".." then
        if place = [] then .error .absent else walk t place.dropLast rest
      else walk t (place ++ [part]) rest

/-- The parts of a path that lies below the working directory. -/
def parts (path : String) : Except FileFault (List String) :=
  if path.isEmpty || path.startsWith "/" then .error .absent else .ok (path.splitOn "/")

def place (t : FileTree) (path : String) : Except FileFault (List String) := do
  t.walk [] (← parts path)

def find (t : FileTree) (path : String) : Except FileFault FileNode := do
  match t.node? (← t.place path) with
  | some node => return node
  | none => throw .absent

def isFile (t : FileTree) (path : String) : Bool :=
  match t.find path with
  | .ok (.file _) => true
  | _ => false

def isDirectory (t : FileTree) (path : String) : Bool :=
  match t.find path with
  | .ok .directory => true
  | _ => false

def content (t : FileTree) (path : String) : Except FileFault FileContent := do
  match ← t.find path with
  | .directory => throw .isDirectory
  | .file content => return content

def readText (t : FileTree) (path : String) : Except FileFault String := do
  match ← t.content path with
  | .archive _ => throw .notText
  | .bytes bytes =>
    match String.fromUTF8? ⟨bytes.toArray⟩ with
    | some text => return text
    | none => throw .notText

def readArchive (t : FileTree) (path : String) :
    Except FileFault (Except ContainerFault Archive) := do
  match ← t.content path with
  | .archive a => return .ok a
  | .bytes _ => return .error .noEnd

/-- Replaces the node at a place, or adds it behind the others. -/
def put (t : FileTree) (place : List String) (node : FileNode) : FileTree :=
  if (t.nodes.lookup place).isSome then
    ⟨t.nodes.map fun (p, old) => (p, if p = place then node else old)⟩
  else ⟨t.nodes ++ [(place, node)]⟩

/-- Makes one directory. Slashes at the end of its path do not count, and the names for a directory
itself and the one above it are taken wherever they stand. -/
def makeDirectory (t : FileTree) (path : String) : Except FileFault FileTree := do
  match ((← parts path).reverse.dropWhile (· = "")) with
  | [] => throw .absent
  | name :: above =>
    let place ← t.walk [] above.reverse
    match t.node? place with
    | none => throw .absent
    | some (.file _) => throw .notDirectory
    | some .directory =>
      let taken := name = "." || name = ".." || (t.node? (place ++ [name])).isSome
      if taken then throw .occupied else return t.put (place ++ [name]) .directory

/-- A file cannot take the place of a directory. -/
def write (t : FileTree) (path : String) (content : FileContent) : Except FileFault FileTree := do
  let place ← t.place path
  match t.node? place with
  | some .directory => throw .isDirectory
  | _ => return t.put place (.file content)

/-- The files that are in this tree and not in another, by their paths. -/
def filesBeyond (t old : FileTree) : List (String × FileContent) :=
  t.nodes.filterMap fun (place, node) =>
    match node, old.node? place with
    | .file content, none => some (String.intercalate "/" place, content)
    | _, _ => none

/-- Carries out a change if it succeeds. -/
def update (change : FileTree → Except FileFault FileTree) :
    StateM FileTree (Except FileFault Unit) := fun t =>
    match change t with
    | .ok t => (.ok (), t)
    | .error e => (.error e, t)

instance : FileStore (StateM FileTree) where
  isFile path := return (← get).isFile path
  isDirectory path := return (← get).isDirectory path
  readText path := return (← get).readText path
  readArchive path := return (← get).readArchive path
  makeDirectory path := update (·.makeDirectory path)
  writeArchive path a := update (·.write path (.archive a))

/-- The tree with a directory and those above it. -/
def withDirectories (t : FileTree) (path : String) : Except FileFault FileTree :=
  match (FileStore.ensureDirectories (m := StateM FileTree) path).run t with
  | (.ok (), t) => .ok t
  | (.error e, _) => .error e

end FileTree

end JarPruning
