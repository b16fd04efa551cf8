/-! Where the filtered archive of an input goes. -/
namespace JarPruning.Naming

/-- The parts of a path that lead somewhere. -/
def parts (path : String) : List String :=
  (path.splitOn "/").filter fun part => part ≠ "" && part ≠ "."

/-- The name a path ends in, unless it ends by going up. -/
def fileName? (path : String) : Option String :=
  (parts path).getLast?.filter (· ≠ "..")

/-- A name up to its last dot; a dot that begins the name does not count. -/
def stem (name : String) : String :=
  let kept := ((name.toList.reverse.dropWhile (· ≠ '.')).drop 1).reverse
  if kept.isEmpty then name else String.ofList kept

def join (dir name : String) : String :=
  if dir.isEmpty || dir.endsWith "/" then dir ++ name else dir ++ "/" ++ name

/-- The path of the filtered archive in a directory. -/
def filtered (input dir : String) : String :=
  let name := ((fileName? input).map stem).getD "archive"
  join dir (name ++ "-filtered.jar")

end JarPruning.Naming
