import JarPruning.Container.Zip
import JarPruning.Run.Basic

/-! The command line. -/
namespace JarPruning.Shell

def faultOf (e : IO.Error) : FileFault :=
  match e with
  | .noFileOrDirectory .. => .absent
  | .alreadyExists .. => .occupied
  | .inappropriateType _ 20 _ => .notDirectory
  | .inappropriateType .. => .isDirectory
  | e => .other (toString e)

/-- Turns a failure of the system into a refusal. -/
def refusing {α : Type} (x : IO α) : IO (Except FileFault α) := do
  try return .ok (← x) catch e => return .error (faultOf e)

def isFile (path : String) : IO Bool := do
  try
    let info ← (← IO.FS.realPath path).metadata
    return info.type == .file
  catch _ => return false

def isDirectory (path : String) : IO Bool := do
  try (← IO.FS.realPath path).isDir catch _ => return false

def readText (path : String) : IO (Except FileFault String) := do
  match ← refusing (IO.FS.readBinFile path) with
  | .error e => return .error e
  | .ok bytes =>
    match String.fromUTF8? bytes with
    | some text => return .ok text
    | none => return .error .notText

/-- Writes beside the place first, so that nothing half written ever stands there. -/
def writeArchive (path : String) (a : Archive) : IO (Except FileFault Unit) := do
  if ← isDirectory path then return .error .isDirectory
  refusing do
    let beside := path ++ ".part"
    IO.FS.writeBinFile beside (Zip.write a)
    IO.FS.rename beside path

instance : FileStore IO where
  isFile := isFile
  isDirectory := isDirectory
  readText := readText
  readArchive path := do
    match ← refusing (IO.FS.readBinFile path) with
    | .error e => return .error e
    | .ok bytes => return .ok (Zip.read bytes)
  makeDirectory path := refusing (IO.FS.createDir path)
  writeArchive := writeArchive

def usage : String :=
  "Usage: jar-pruning [OPTIONS] --input <JAR>... --output-dir <DIR>\n\n" ++
  "Delete, stub or strip annotated members of JVM archives, keeping Kotlin metadata consistent.\n\n" ++
  "Options:\n" ++
  "      --input <JAR>...       Archives to filter\n" ++
  "      --output-dir <DIR>     Directory of the filtered archives\n" ++
  "      --config <FILE>        JSON file with annotations, maxPasses and preserveTimestamps\n" ++
  "      --delete <ANNOTATION>  Annotation marking elements to delete\n" ++
  "      --stub <ANNOTATION>    Annotation marking methods whose bodies become stubs\n" ++
  "      --remove <ANNOTATION>  Annotation stripped from every element that carries it\n" ++
  "      --max-passes <N>       Passes over a class and over an archive [default: 5]\n" ++
  "      --reproducible         Normalize timestamps and permissions\n" ++
  "      --otel <URL>           Collector endpoint for tracing spans\n" ++
  "      --quiet                Say nothing but warnings and errors\n" ++
  "  -h, --help                 Print help\n" ++
  "  -V, --version              Print version"

def UsageFault.text : UsageFault → String
  | .missingRequired => "a required option is missing"
  | .unknownArgument => "unexpected argument"
  | .noValue => "an option lacks its value"
  | .badValue => "a value is invalid"
  | .repeated => "an option is given twice"
  | .unneededValue => "a flag is given a value"

/-- Whether a message of the level is shown. -/
def isShown (quiet : Bool) : Level → Bool
  | .debug => false
  | .info => !quiet
  | .warn | .error => true

def refuse (r : Refusal) : IO Unit :=
  match r with
  | .help => IO.println usage
  | .version => IO.println "jar-pruning 0.1.0"
  | .usage f => IO.eprintln s!"error: {UsageFault.text f}"

def execute (options : Options) : IO UInt32 := do
  let (outcome, journal) ← (Run.execute (m := IO) options).run.run {}
  for e in journal.log do
    if isShown options.quiet e.level then IO.eprintln e.line
  for line in journal.printed do IO.println line
  match outcome with
  | .ok () => return 0
  | .error e =>
    IO.eprintln s!"Error: {e.message}"
    return 1

end JarPruning.Shell

open JarPruning in
def main (arguments : List String) : IO UInt32 := do
  match Options.ofArguments arguments with
  | .ok options => Shell.execute options
  | .error r =>
    Shell.refuse r
    return UInt32.ofNat r.exitCode
