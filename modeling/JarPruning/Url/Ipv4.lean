import JarPruning.Text.Hex

/-! Hosts given by number: up to four numbers, of which the last fills what the others leave. -/
namespace JarPruning.Url.Ipv4

def spelled? (radix : Nat) (digits : List Char) : Option Nat :=
  digits.foldlM (fun n c => do
    let d ← Hex.digitValue? c
    if d < radix then some (radix * n + d) else none) 0

/-- A number whose first characters tell its radix. -/
def number? : List Char → Option Nat
  | [] => none
  | '0' :: 'x' :: digits | '0' :: 'X' :: digits => spelled? 16 digits
  | '0' :: d :: digits => spelled? 8 (d :: digits)
  | digits => spelled? 10 digits

/-- The parts between dots; a dot at the end has no part behind it. -/
def parts (name : List Char) : List (List Char) :=
  let parts := ((String.ofList name).splitOn ".").map (·.toList)
  if parts.getLast? = some [] then parts.dropLast else parts

/-- Whether a name can only be meant as a number. -/
def endsInNumber (name : List Char) : Bool :=
  match (parts name).getLast? with
  | some last => (!last.isEmpty && last.all Char.isDigit) || (number? last).isSome
  | none => false

def read? (name : List Char) : Option Nat := do
  let numbers ← (parts name).mapM number?
  let last ← numbers.getLast?
  let first := numbers.dropLast
  let room := 4 - first.length
  if 4 < numbers.length || first.any (255 < ·) || 1 <<< (8 * room) ≤ last then none
  else some (first.foldl (fun n d => 256 * n + d) 0 <<< (8 * room) + last)

end JarPruning.Url.Ipv4
