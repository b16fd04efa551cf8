/-! Documents of JSON: their values, places in them, and what is wrong with a text that is none. -/
namespace JarPruning.Json

/-- Whole numbers that fit into 64 bits stay whole; `negative n` is below zero by `n`. -/
inductive Number where
  | natural (n : Nat)
  | negative (n : Nat)
  | float (value : Float)
  deriving Repr

/-- Why a text is not the text of a value. -/
inductive Malformed where
  | endInList
  | endInObject
  | endInString
  | endInValue
  | noColon
  | noCommaInList
  | noCommaInObject
  | badLiteral
  | noValue
  | badEscape
  | badNumber
  | outOfRange
  | rawControl
  | badKey
  | loneSurrogate
  | unpairedSurrogate
  | trailingComma
  | tooDeep
  deriving DecidableEq, Repr

def Malformed.text : Malformed → String
  | .endInList => "EOF while parsing a list"
  | .endInObject => "EOF while parsing an object"
  | .endInString => "EOF while parsing a string"
  | .endInValue => "EOF while parsing a value"
  | .noColon => "expected `:`"
  | .noCommaInList => "expected `,` or `]`"
  | .noCommaInObject => "expected `,` or `\x7d`"
  | .badLiteral => "expected ident"
  | .noValue => "expected value"
  | .badEscape => "invalid escape"
  | .badNumber => "invalid number"
  | .outOfRange => "number out of range"
  | .rawControl => "control character (\\u0000-\\u001F) found while parsing a string"
  | .badKey => "key must be a string"
  | .loneSurrogate => "lone leading surrogate in hex escape"
  | .unpairedSurrogate => "unexpected end of hex escape"
  | .trailingComma => "trailing comma"
  | .tooDeep => "recursion limit exceeded"

/-- Where reading an object stopped, and why. -/
inductive ObjectCut where
  /-- Where a key was expected. -/
  | atKey (why : Malformed)
  /-- Behind a key, where its colon was expected. -/
  | behindKey (key : String) (why : Malformed)
  deriving DecidableEq, Repr

/-- What a text was read as. Reading goes from left to right and stops at the first place where the
text is not JSON, so only the last part of the last part, and so on, can be broken off. -/
inductive Value where
  | null
  | bool (b : Bool)
  | number (n : Number)
  | string (s : String)
  /-- `cut` tells what stands where the next item or the end was expected. -/
  | array (items : List Value) (cut : Option Malformed)
  /-- Members stay in their order, repeated ones included. -/
  | object (members : List (String × Value)) (cut : Option ObjectCut)
  | broken (why : Malformed)
  deriving Repr

/-- A step from a value to a part of it. -/
inductive Step where
  | item (index : Nat)
  | key (name : String)
  /-- To a member whose key cannot be read. -/
  | unknown
  deriving DecidableEq, Repr

/-- Steps from the whole document, outermost first. -/
abbrev Place := List Step

/-- The steps, with a dot before every one that is no index unless it is the first. -/
def Place.textFrom (first : Bool) : Place → String
  | [] => ""
  | .item index :: rest => s!"[{index}]" ++ textFrom false rest
  | .key name :: rest => (if first then name else "." ++ name) ++ textFrom false rest
  | .unknown :: rest => (if first then "?" else ".?") ++ textFrom false rest

def Place.text (p : Place) : String := if p = [] then "." else textFrom true p

/-- What the front of a text was read as, and the text behind it. -/
abbrev Front (α : Type) := α × List Char

def fail {α : Type} (why : Malformed) : Except Malformed α := .error why

def isBlank (c : Char) : Bool := c = ' ' || c = '\n' || c = '\t' || c = '\r'

def skipBlanks (cs : List Char) : List Char := cs.dropWhile isBlank

end JarPruning.Json
