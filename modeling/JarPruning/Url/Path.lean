import JarPruning.Url.Percent

/-! Ways through directories: steps to a directory itself or the one above it are gone. -/
namespace JarPruning.Url.Path

/-- The steps between slashes. -/
def steps (isSlash : Char → Bool) : List Char → List (List Char)
  | [] => [[]]
  | c :: rest =>
    if isSlash c then [] :: steps isSlash rest
    else match steps isSlash rest with
      | step :: more => (c :: step) :: more
      | [] => [[c]]

/-- A dot may be written by its digits. -/
def dots : List Char → List Char
  | '%' :: '2' :: 'e' :: rest | '%' :: '2' :: 'E' :: rest => '.' :: dots rest
  | c :: rest => c :: dots rest
  | [] => []

def isStay (step : List Char) : Bool := dots step = ['.']

def isUp (step : List Char) : Bool := dots step = ['.', '.']

/-- A letter for a drive. -/
def drive? : List Char → Option Char
  | [c, d] => if c.isAlpha && (d = ':' || d = '|') then some c else none
  | _ => none

/-- The steps that are left of those to come, when `taken` are the steps before, the last of them
first. A way that ends in a directory has an empty step at its end. No way leads out of a drive. -/
def resolve (isFile : Bool) : (taken steps : List (List Char)) → List (List Char)
  | taken, [] => taken.reverse
  | taken, step :: rest =>
    let drive (step : List Char) := if isFile then drive? step else none
    let ended (taken : List (List Char)) := if rest.isEmpty then [] :: taken else taken
    if isUp step then
      let fixed := (taken.head?.bind drive).isSome
      resolve isFile (ended (if fixed then taken else taken.drop 1)) rest
    else if isStay step then resolve isFile (ended taken) rest
    else match if taken.isEmpty then drive step else none with
      | some c => resolve isFile [[c, ':']] rest
      | none => resolve isFile (step :: taken) rest

/-- Empty steps in front lead nowhere. -/
def dropEmpty : List (List Char) → List (List Char)
  | [] :: step :: rest => dropEmpty (step :: rest)
  | steps => steps

def text (steps : List (List Char)) : List Char := steps.flatMap ('/' :: ·)

end JarPruning.Url.Path
