import JarPruning.Url.Host
import JarPruning.Url.Path

/-! Reading addresses. -/
namespace JarPruning.Url

/-- The characters at either end of a text that do not belong to the address. -/
def isPadding (c : Char) : Bool := c.toNat ≤ 0x20

/-- Line breaks and tabs do not count anywhere. -/
def isIgnored (c : Char) : Bool := c = '\t' || c = '\n' || c = '\r'

def trim (cs : List Char) : List Char :=
  ((cs.dropWhile isPadding).reverse.dropWhile isPadding).reverse.filter (!isIgnored ·)

def isSchemeChar (c : Char) : Bool := c.isAlphanum || c = '+' || c = '-' || c = '.'

/-- The scheme in small letters, and the text behind its colon. -/
def scheme? (cs : List Char) : Option (String × List Char) :=
  match cs.span isSchemeChar with
  | (c :: scheme, ':' :: rest) =>
    if c.isAlpha then some (String.ofList ((c :: scheme).map Char.toLower), rest) else none
  | _ => none

/-! The authority. -/

def isSlash (kind : Kind) (c : Char) : Bool := c = '/' || (kind.isSpecial && c = '\\')

def endsAuthority (kind : Kind) (c : Char) : Bool := isSlash kind c || c = '?' || c = '#'

/-- Who asks, parted from the host at the last at sign. -/
def splitUser? (cs : List Char) : Option (List Char × List Char) :=
  let host := (cs.reverse.takeWhile (· ≠ '@')).reverse
  if host.length = cs.length then none else some (cs.take (cs.length - host.length - 1), host)

/-- A name and a password, of which either may be missing. -/
def userText (user : List Char) : List Char :=
  let (name, behind) := user.span (· ≠ ':')
  let encode := Percent.encode Percent.inUser
  let password := if behind.length < 2 then [] else ':' :: encode (behind.drop 1)
  if name.isEmpty && password.isEmpty then [] else encode name ++ password ++ ['@']

/-- The characters of the host; a colon in brackets is one of them. -/
def spanHost (kind : Kind) : (inside : Bool) → List Char → List Char × List Char
  | _, [] => ([], [])
  | inside, c :: rest =>
    if endsAuthority kind c || (c = ':' && !inside) then ([], c :: rest)
    else
      let (host, rest) := spanHost kind (if c = '[' then true else inside && c ≠ ']') rest
      (c :: host, rest)

/-- A port that goes without saying is left out. -/
def readPort (kind : Kind) (cs : List Char) : Except Fault (Option Nat × List Char) := do
  let (digits, rest) := cs.span Char.isDigit
  let port := digits.foldl (fun n c => 10 * n + (c.toNat - 48)) 0
  let ends := rest.head?.all fun c => c = '/' || c = '\\' || c = '?' || c = '#'
  if 65535 < port || !ends then throw .badPort
  return (if digits.isEmpty || kind = .special port then none else some port, rest)

def readAuthority (kind : Kind) (cs : List Char) : Except Fault (Authority × List Char) := do
  let (front, rest) := cs.span (!endsAuthority kind ·)
  let user? := splitUser? front
  if user? = some ([], []) && !rest.isEmpty then throw .emptyHost
  let (user, host) := user?.getD ([], front)
  let user := userText user
  let (host, rest) := spanHost kind false (host ++ rest)
  if kind.isSpecial && host.isEmpty then throw .emptyHost
  let host ← Host.read kind host
  if host.isEmpty && (!user.isEmpty || rest.head? = some ':') then throw .emptyHost
  match rest with
  | ':' :: rest => do
    let (port, rest) ← readPort kind rest
    return ({ user, host, port }, rest)
  | _ => return ({ user, host }, rest)

/-! The path and what follows it. -/

def endsPath (c : Char) : Bool := c = '?' || c = '#'

/-- The steps of a way, whose first slash may be missing. -/
def waySteps (kind : Kind) (way : List Char) : List (List Char) :=
  let inner := if way.head?.any (isSlash kind) then way.drop 1 else way
  let steps := (Path.steps (isSlash kind) inner).map (Percent.encode Percent.inPath)
  if way.isEmpty && !kind.isSpecial then [] else Path.resolve (kind = .file) [] steps

def fragmentText : List Char → List Char
  | [] => []
  | mark :: cs => mark :: Percent.encode Percent.inFragment cs

/-- The query and the fragment, from their marks on. -/
def behindText (kind : Kind) (cs : List Char) : List Char :=
  match cs with
  | '?' :: cs =>
    let (query, rest) := cs.span (· ≠ '#')
    '?' :: Percent.encode (Percent.inQuery kind.isSpecial) query ++ fragmentText rest
  | _ => fragmentText cs

def ofWay (scheme : String) (authority : Option Authority) (cs : List Char) : Url :=
  let kind := Kind.ofScheme scheme
  let (way, rest) := cs.span (!endsPath ·)
  { scheme, authority, isWay := true, path := Path.text (waySteps kind way)
    behind := behindText kind rest }

/-! Whole addresses. -/

/-- The host of a file is none if it is this machine or the letter of a drive. -/
def readFileHost (cs : List Char) : Except Fault (Host × List Char) := do
  let (host, rest) := cs.span (!endsAuthority .file ·)
  if host.isEmpty || (Path.drive? host).isSome then return (.name [], cs)
  let host ← Host.read .file host
  return (if host = .name "localhost".toList then .name [] else host, rest)

/-- The place of a file; one on a drive is on no other host. -/
def readFile (cs : List Char) : Except Fault Url := do
  let (host, cs) ← match cs with
    | c :: d :: cs =>
      if isSlash .file c && isSlash .file d then readFileHost cs else pure (.name [], c :: d :: cs)
    | _ => pure (.name [], cs)
  let (way, rest) := cs.span (!endsPath ·)
  let steps := waySteps .file way
  let host := if (steps.head?.bind Path.drive?).isSome then .name [] else host
  return {
    scheme := "file", authority := some { host }, isWay := true
    path := Path.text (Path.dropEmpty steps), behind := behindText .file rest }

def readSpecial (scheme : String) (kind : Kind) (cs : List Char) : Except Fault Url := do
  let (authority, rest) ← readAuthority kind (cs.dropWhile (isSlash kind))
  return ofWay scheme (some authority) rest

def readOther (scheme : String) (cs : List Char) : Except Fault Url :=
  match cs with
  | '/' :: '/' :: cs => do
    let (authority, rest) ← readAuthority .other cs
    return ofWay scheme (some authority) rest
  | '/' :: _ => return ofWay scheme none cs
  | _ =>
    let (path, rest) := cs.span (!endsPath ·)
    return {
      scheme, authority := none, isWay := false
      path := Percent.encode Percent.inAny path, behind := behindText .other rest }

def read (text : String) : Except Fault Url :=
  match scheme? (trim text.toList) with
  | none => .error .relative
  | some (scheme, rest) =>
    match Kind.ofScheme scheme with
    | .file => readFile rest
    | .special port => readSpecial scheme (.special port) rest
    | .other => readOther scheme rest

end JarPruning.Url
