/-! Which texts can stand in a request for the place to send it to. -/
namespace JarPruning.Url.Request

inductive Fault where
  | tooLong
  | longScheme
  | badChar
  | badAuthority
  | badFormat
  deriving DecidableEq, Repr

def Fault.text : Fault → String
  | .tooLong => "uri too long"
  | .longScheme => "scheme too long"
  | .badChar => "invalid uri character"
  | .badAuthority => "invalid authority"
  | .badFormat => "invalid format"

def maxSize : Nat := 65534

def maxSchemeLength : Nat := 64

def maxColons : Nat := 8

def isAllowed (c : Char) : Bool :=
  c.isAlphanum ||
    ['!', '$', '&', '\x27', '(', ')', '*', '+', ',', '-', '.', ';', '=', '_', '~'].contains c

/-- What was seen of an authority. Colons and digits of bytes count only where they do not belong
to who asks or stand in brackets. -/
structure Seen where
  colons : Nat := 0
  opened : Bool := false
  closed : Bool := false
  percent : Bool := false
  /-- Whether nothing is behind the at sign yet. -/
  atSign : Bool := false
  deriving DecidableEq, Repr

namespace Seen

def pass (s : Seen) (c : Char) : Except Fault Seen :=
  let s := { s with atSign := c = '@' }
  match c with
  | ':' =>
    if maxColons ≤ s.colons then .error .badAuthority
    else .ok { s with colons := s.colons + 1 }
  | '[' => if s.percent || s.opened then .error .badAuthority else .ok { s with opened := true }
  | ']' =>
    if !s.opened || s.closed then .error .badAuthority
    else .ok { s with closed := true, colons := 0, percent := false }
  | '@' => .ok { s with colons := 0, percent := false }
  | '%' => .ok { s with percent := true }
  | c => if isAllowed c then .ok s else .error .badChar

def isWhole (s : Seen) : Bool :=
  s.opened = s.closed && s.colons ≤ 1 && !s.atSign && !s.percent

end Seen

def endsAuthority (c : Char) : Bool := c = '/' || c = '?' || c = '#'

/-- The authority in front of a text. -/
def authority (cs : List Char) : Except Fault (List Char) := do
  let front := cs.takeWhile (!endsAuthority ·)
  if (← front.foldlM Seen.pass {}).isWhole then return front else throw .badAuthority

/-- The text is a scheme with an authority and a path behind it. -/
def check (text : String) : Except Fault Unit := do
  if maxSize < text.utf8ByteSize then throw .tooLong
  match text.toList.span (· ≠ ':') with
  | (scheme, ':' :: '/' :: '/' :: rest) =>
    if maxSchemeLength < scheme.length then throw .longScheme
    if (← authority rest).isEmpty then throw .badFormat
  | _ =>
    let _ ← authority text.toList
    throw .badFormat

end JarPruning.Url.Request
