import JarPruning.Decimal.Shortest
import JarPruning.Json.Basic

/-!
Numbers in JSON. Digits count while the number they spell fits into 64 bits; the digits after that
count only by how many they are. A number that is not whole is a double, computed by one product
or quotient with a power of ten.
-/
namespace JarPruning.Json.Number

def digitValue (c : Char) : Nat := c.toNat - '0'.toNat

/-- The number that the digits spell behind `n` as far as it fits, and how many do not fit. -/
def grow (n : Nat) : List Char → Nat × Nat
  | [] => (n, 0)
  | c :: rest =>
    let next := 10 * n + digitValue c
    if next < UInt64.size then grow next rest else (n, rest.length + 1)

def isDigit (c : Char) : Bool := '0' ≤ c && c ≤ '9'

/-- The digits of a whole number: no other follows a zero in front. -/
def wholeDigits (cs : List Char) : Except Malformed (Front (List Char)) :=
  let (digits, rest) := cs.span isDigit
  match digits with
  | [] => fail (if cs.isEmpty then .endInValue else .badNumber)
  | '0' :: _ :: _ => fail .badNumber
  | _ => .ok (digits, rest)

def someDigits (cs : List Char) : Except Malformed (Front (List Char)) :=
  let (digits, rest) := cs.span isDigit
  if digits.isEmpty then fail (if rest.isEmpty then .endInValue else .badNumber)
  else .ok (digits, rest)

/-- The digits behind the point; none if there is no point. -/
def fractionDigits? (cs : List Char) : Except Malformed (Front (Option (List Char))) :=
  match cs with
  | '.' :: rest => do
    let (digits, rest) ← someDigits rest
    return (some digits, rest)
  | _ => .ok (none, cs)

def spelled (digits : List Char) : Nat := digits.foldl (fun n c => 10 * n + digitValue c) 0

def exponent? (cs : List Char) : Except Malformed (Front (Option Int)) :=
  match cs with
  | e :: rest =>
    if e = 'e' || e = 'E' then do
      let (positive, rest) := match rest with
        | '+' :: rest => (true, rest)
        | '-' :: rest => (false, rest)
        | _ => (true, rest)
      let (digits, rest) ← someDigits rest
      let n := spelled digits
      return (some (if positive then n else -n), rest)
    else .ok (none, cs)
  | [] => .ok (none, cs)

/-- The greatest power of ten among the doubles. -/
def maxPower : Nat := 308

def tenTo (n : Nat) : Float := .ofScientific 1 false n

/-- The quotient by a power of ten, in steps of powers that are doubles. -/
def dividedByTenTo (x : Float) (n : Nat) : Float :=
  if n ≤ maxPower then x / tenTo n
  else if x == 0 then x
  else dividedByTenTo (x / tenTo maxPower) (n - maxPower)
termination_by n
decreasing_by simp only [maxPower] at *; omega

def magnitude (significand : Nat) (exponent : Int) : Except Malformed Float :=
  let x := (UInt64.ofNat significand).toFloat
  match exponent with
  | .negSucc n => .ok (dividedByTenTo x (n + 1))
  | .ofNat n =>
    if n ≤ maxPower then
      let product := x * tenTo n
      if product.isInf then fail .outOfRange else .ok product
    else if significand = 0 then .ok x
    else fail .outOfRange

def signed (negative : Bool) (x : Float) : Float := if negative then -x else x

/-- A whole number without sign; below zero it must fit into 64 bits with its sign. -/
def whole (negative : Bool) (n : Nat) : Number :=
  if !negative then .natural n
  else if n = 0 || UInt64.size / 2 < n then .float (-(UInt64.ofNat n).toFloat)
  else .negative n

/-- Reads a number behind its sign. -/
def readUnsigned (negative : Bool) (cs : List Char) : Except Malformed (Front Number) := do
  let (digits, rest) ← wholeDigits cs
  let (n, dropped) := grow 0 digits
  let (fraction, rest) ← fractionDigits? rest
  let (exponent, rest) ← exponent? rest
  if dropped = 0 && fraction.isNone && exponent.isNone then return (whole negative n, rest)
  else
    let behind := fraction.getD []
    let (n, unused) := grow n behind
    let taken := behind.length - unused
    let x ← magnitude n (exponent.getD 0 + dropped - taken)
    return (.float (signed negative x), rest)

def read (cs : List Char) : Except Malformed (Front Number) :=
  match cs with
  | '-' :: rest => readUnsigned true rest
  | _ => readUnsigned false cs

/-! Writing. -/

def zeros (n : Nat) : List Char := List.replicate n '0'

/-- The point stands behind the first digit, and the exponent has a sign. -/
def scientific (digits : List Char) (exponent : Int) : List Char :=
  let mantissa := match digits with
    | first :: second :: rest => first :: '.' :: second :: rest
    | _ => digits
  let sign := if exponent < 0 then '-' else '+'
  mantissa ++ ['e', sign] ++ Nat.toDigits 10 exponent.natAbs

/-- At least one digit stands on either side of the point; `exponent` is that of the first digit. -/
def positional (digits : List Char) (exponent : Int) : List Char :=
  match exponent with
  | .negSucc n => ['0', '.'] ++ zeros n ++ digits
  | .ofNat n =>
    let behind := digits.drop (n + 1)
    digits.take (n + 1) ++ zeros (n + 1 - digits.length) ++
      ['.'] ++ if behind.isEmpty then ['0'] else behind

/-- Whether a number whose first digit has this exponent is written without an exponent. -/
def isPositional (exponent : Int) : Bool := -5 ≤ exponent && exponent ≤ 15

def magnitudeText (x : Decimal.Scaled) : List Char :=
  let digits := Nat.toDigits 10 x.digits
  let exponent := x.exponent + digits.length - 1
  if isPositional exponent then positional digits exponent else scientific digits exponent

/-- The shortest text that reads back as the double. -/
def floatText (x : Float) : String :=
  let sign := if x.toBits >>> 63 = 0 then [] else ['-']
  let magnitude := match (Decimal.Binary.ofBits x.toBits).shortest? with
    | some d => magnitudeText d
    | none => ['0', '.', '0']
  String.ofList (sign ++ magnitude)

end JarPruning.Json.Number
