import JarPruning.Text.Hex

/-! Addresses: a scheme, the authority that answers for it, a path, and what follows the path. -/
namespace JarPruning

namespace Url

/-- Why a text is no address. -/
inductive Fault where
  | relative
  | badPort
  | emptyHost
  | badIpv4
  | badIpv6
  | badHostChar
  | badDomain
  deriving DecidableEq, Repr

def Fault.text : Fault → String
  | .relative => "relative URL without a base"
  | .badPort => "invalid port number"
  | .emptyHost => "empty host"
  | .badIpv4 => "invalid IPv4 address"
  | .badIpv6 => "invalid IPv6 address"
  | .badHostChar => "invalid domain character"
  | .badDomain => "invalid international domain name"

/-- What a scheme asks of the rest of an address. -/
inductive Kind where
  | file
  /-- There is always a host, and this port need not be said. -/
  | special (port : Nat)
  | other
  deriving DecidableEq, Repr

def Kind.ofScheme (scheme : String) : Kind :=
  match scheme with
  | "file" => .file
  | "http" | "ws" => .special 80
  | "https" | "wss" => .special 443
  | "ftp" => .special 21
  | _ => .other

/-- Whether a backslash is as good as a slash. -/
def Kind.isSpecial (kind : Kind) : Bool := kind ≠ .other

inductive Host where
  | name (text : List Char)
  | ipv4 (n : Nat)
  /-- Eight words of 16 bits. -/
  | ipv6 (pieces : List Nat)
  deriving DecidableEq, Repr

def Host.isEmpty (h : Host) : Bool := h = .name []

def decimal (n : Nat) : List Char := Nat.toDigits 10 n

/-- Place and length of the first of the longest runs of zeros; a single zero is none. -/
def longestZeros (pieces : List Nat) : Nat × Nat :=
  (List.range pieces.length).foldl (fun best k =>
    let n := ((pieces.drop k).takeWhile (· = 0)).length
    if best.2 < n then (k, n) else best) (0, 1)

def ipv6Text (pieces : List Nat) : List Char :=
  let text (pieces : List Nat) := [':'].intercalate (pieces.map (Nat.toDigits 16))
  let (k, n) := longestZeros pieces
  if n = 1 then text pieces
  else text (pieces.take k) ++ [':', ':'] ++ text (pieces.drop (k + n))

def Host.text : Host → List Char
  | .name text => text
  | .ipv4 n => ['.'].intercalate ([24, 16, 8, 0].map fun k => decimal (n >>> k % 256))
  | .ipv6 pieces => ['['] ++ ipv6Text pieces ++ [']']

structure Authority where
  /-- Who asks, with the sign behind it. -/
  user : List Char := []
  host : Host := .name []
  port : Option Nat := none
  deriving DecidableEq, Repr

def Authority.text (a : Authority) : List Char :=
  a.user ++ a.host.text ++ a.port.elim [] fun n => ':' :: decimal n

end Url

structure Url where
  scheme : String
  authority : Option Url.Authority
  /-- Whether the path is a way through directories, with a slash in front unless it is empty. -/
  isWay : Bool
  path : List Char
  /-- The query and the fragment, with their marks. -/
  behind : List Char
  deriving DecidableEq, Repr

namespace Url

/-- An empty first step is not to be taken for an authority. -/
def pathText (u : Url) : List Char :=
  match u.authority, u.path with
  | none, '/' :: '/' :: _ => ['/', '.'] ++ u.path
  | _, _ => u.path

def text (u : Url) : String :=
  let authority := u.authority.elim [] fun a => ['/', '/'] ++ a.text
  u.scheme ++ ":" ++ String.ofList (authority ++ u.pathText ++ u.behind)

end Url

end JarPruning
