import JarPruning.Config.Policy

/-!
The options of a command line. An option takes its values from the arguments behind it, or one
value from behind an equals sign; what it has taken is looked at when the next option comes or the
line ends, so of two faults the one in front decides.
-/
namespace JarPruning

/-- What a run is asked to do. -/
structure Options where
  inputs : List String
  outputDir : String
  config : Option String := none
  names : RoleNames := {}
  maxPasses : Option Nat := none
  reproducible : Bool := false
  endpoint : Option String := none
  quiet : Bool := false
  deriving DecidableEq, Repr

/-- Why a command line is refused. -/
inductive UsageFault where
  | missingRequired
  | unknownArgument
  | noValue
  | badValue
  | repeated
  /-- A flag with a value. -/
  | unneededValue
  deriving DecidableEq, Repr

/-- Why nothing is run. -/
inductive Refusal where
  | help
  | version
  | usage (fault : UsageFault)
  deriving DecidableEq, Repr

def Refusal.exitCode : Refusal → Nat
  | .help | .version => 0
  | .usage _ => 2

namespace CommandLine

/-- Options that take values. -/
inductive Parameter where
  | input
  | outputDir
  | config
  | role (role : Role)
  | maxPasses
  | endpoint
  deriving DecidableEq, Repr

inductive Flag where
  | reproducible | quiet | help | version
  deriving DecidableEq, Repr

inductive Known where
  | parameter (p : Parameter)
  | flag (f : Flag)
  deriving DecidableEq, Repr

/-- The option of a long name. -/
def known? : String → Option Known
  | "input" => some (.parameter .input)
  | "output-dir" => some (.parameter .outputDir)
  | "config" => some (.parameter .config)
  | "delete" => some (.parameter (.role .delete))
  | "stub" => some (.parameter (.role .stub))
  | "remove" => some (.parameter (.role .remove))
  | "max-passes" => some (.parameter .maxPasses)
  | "otel" => some (.parameter .endpoint)
  | "reproducible" => some (.flag .reproducible)
  | "quiet" => some (.flag .quiet)
  | "help" => some (.flag .help)
  | "version" => some (.flag .version)
  | _ => none

/-- The flag of a letter. -/
def short? : Char → Option Flag
  | 'h' => some .help
  | 'V' => some .version
  | _ => none

/-- Whether a parameter with so many values takes one more. -/
def Parameter.takesMore (p : Parameter) (count : Nat) : Bool := p = .input || count = 0

/-- What is gathered from the arguments in front. -/
structure Draft where
  inputs : List String := []
  outputDir : Option String := none
  config : Option String := none
  names : RoleNames := {}
  maxPasses : Option Nat := none
  reproducible : Bool := false
  endpoint : Option String := none
  quiet : Bool := false
  /-- The parameter that stands last, and its values. -/
  pending : Option (Parameter × List String) := none
  deriving DecidableEq, Repr

abbrev Step (α : Type) := Except Refusal α

def refuse {α : Type} (f : UsageFault) : Step α := .error (.usage f)

/-- A count that fits into 64 bits, with a plus sign or without. -/
def count? (s : String) : Option Nat :=
  let digits := match s.toList with
    | '+' :: rest => rest
    | cs => cs
  if digits.isEmpty || !digits.all Char.isDigit then none
  else
    let n := digits.foldl (fun n c => 10 * n + (c.toNat - '0'.toNat)) 0
    if n < UInt64.size then some n else none

def path (s : String) : Step String := if s.isEmpty then refuse .noValue else .ok s

def unset {α : Type} (x : Option α) : Step Unit := if x.isSome then refuse .repeated else .ok ()

namespace Draft

def addName (d : Draft) (role : Role) (name : String) : Draft :=
  { d with names := d.names.merge (match role with
    | .remove => { remove := [name] }
    | .delete => { delete := [name] }
    | .stub => { stub := [name] }) }

def take (d : Draft) (p : Parameter) (value : String) : Step Draft := do
  match p with
  | .input => return { d with inputs := d.inputs ++ [← path value] }
  | .outputDir => unset d.outputDir; return { d with outputDir := some (← path value) }
  | .config => unset d.config; return { d with config := some (← path value) }
  | .role role => return d.addName role value
  | .maxPasses =>
    unset d.maxPasses
    match count? value with
    | some n => return { d with maxPasses := some n }
    | none => refuse .badValue
  | .endpoint => unset d.endpoint; return { d with endpoint := some value }

/-- Looks at what the last parameter has taken. -/
def settle (d : Draft) : Step Draft :=
  match d.pending with
  | none => .ok d
  | some (p, values) =>
    if values.isEmpty then refuse .noValue
    else values.foldlM (fun d value => d.take p value) { d with pending := none }

def raise (d : Draft) : Flag → Step Draft
  | .help => .error .help
  | .version => .error .version
  | .reproducible =>
    if d.reproducible then refuse .repeated else .ok { d with reproducible := true }
  | .quiet => if d.quiet then refuse .repeated else .ok { d with quiet := true }

/-- Takes an argument that names no option. -/
def value (d : Draft) (argument : String) : Step Draft :=
  match d.pending with
  | some (p, values) =>
    if p.takesMore values.length then .ok { d with pending := some (p, values ++ [argument]) }
    else refuse .unknownArgument
  | none => refuse .unknownArgument

/-- Takes a long option, given by its name and the value behind the equals sign. -/
def long (d : Draft) (name : String) (attached : Option String) : Step Draft :=
  match known? name, attached with
  | none, _ => refuse .unknownArgument
  | some (.flag _), some _ => refuse .unneededValue
  | some (.flag f), none => do (← d.settle).raise f
  | some (.parameter p), some v => do (← d.settle).take p v
  | some (.parameter p), none => do return { ← d.settle with pending := some (p, []) }

/-- Takes flags of one letter each. -/
def short (d : Draft) : List Char → Step Draft
  | [] => .ok d
  | c :: rest =>
    match short? c with
    | some f => do short (← (← d.settle).raise f) rest
    | none => refuse .unknownArgument

/-- Takes an argument that is not the end of options. -/
def argument (d : Draft) (a : String) : Step Draft :=
  match a.toList with
  | '-' :: '-' :: rest =>
    let name := rest.takeWhile (· ≠ '=')
    let attached := match rest.dropWhile (· ≠ '=') with
      | [] => none
      | _ :: v => some (String.ofList v)
    d.long (String.ofList name) attached
  | '-' :: c :: rest => d.short (c :: rest)
  | _ => d.value a

def finish (d : Draft) : Step Options := do
  let d ← d.settle
  match d.outputDir with
  | none => refuse .missingRequired
  | some outputDir =>
    if d.inputs.isEmpty then refuse .missingRequired
    else return {
      inputs := d.inputs, outputDir, config := d.config, names := d.names,
      maxPasses := d.maxPasses, reproducible := d.reproducible, endpoint := d.endpoint,
      quiet := d.quiet }

/-- Behind two dashes alone no option is named, and nothing else may stand there. -/
def gather (d : Draft) : List String → Step Options
  | [] => d.finish
  | "--" :: rest => if rest.isEmpty then d.finish else refuse .unknownArgument
  | a :: rest => do gather (← d.argument a) rest

end Draft

end CommandLine

def Options.ofArguments (arguments : List String) : Except Refusal Options :=
  CommandLine.Draft.gather {} arguments

end JarPruning
