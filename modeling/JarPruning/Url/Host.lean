import JarPruning.Url.Basic
import JarPruning.Url.Domain
import JarPruning.Url.Ipv6
import JarPruning.Url.Percent

/-! Reading hosts. -/
namespace JarPruning.Url.Host

/-- A host in brackets. -/
def bracketed? (text : List Char) : Option (Except Fault Host) :=
  match text with
  | '[' :: inner =>
    if inner.getLast? ≠ some ']' then some (.error .badIpv6)
    else match Ipv6.read? (String.ofList inner.dropLast) with
      | some pieces => some (.ok (.ipv6 pieces))
      | none => some (.error .badIpv6)
  | _ => none

def ofDomain (text : List Char) : Except Fault Host := do
  let some decoded := String.fromUTF8? ⟨(Percent.decode text).toArray⟩ | throw .badDomain
  let some domain := Domain.text? decoded.toList | throw .badDomain
  if domain.isEmpty then throw .emptyHost
  if Ipv4.endsInNumber domain then
    let some n := Ipv4.read? domain | throw .badIpv4
    return .ipv4 n
  else return .name domain

/-- Whether a character is no part of a host that is taken as it is. -/
def isForbidden (c : Char) : Bool :=
  ['\x00', '\t', '\n', '\r', ' ', '#', '/', ':', '<', '>', '?', '@', '[', '\\', ']', '^',
    '|'].contains c

def verbatim (text : List Char) : Except Fault Host :=
  if text.any isForbidden then .error .badHostChar
  else .ok (.name (Percent.encode Percent.inAny text))

/-- Where there is always a host, it is a domain or a number. -/
def read (kind : Kind) (text : List Char) : Except Fault Host :=
  (bracketed? text).getD (if kind.isSpecial then ofDomain text else verbatim text)

end JarPruning.Url.Host
