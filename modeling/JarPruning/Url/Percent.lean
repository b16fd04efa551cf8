import JarPruning.Text.Hex

/-! Characters written as percent signs with the digits of their bytes, and which are to be. -/
namespace JarPruning.Url.Percent

def byteText (b : UInt8) : List Char := '%' :: (Hex.upper 2 b.toNat).toList

def encode (escaped : Char → Bool) (cs : List Char) : List Char :=
  cs.flatMap fun c => if escaped c then (String.utf8EncodeChar c).flatMap byteText else [c]

/-- The bytes that a text stands for; a percent sign without digits stands for itself. -/
def decode : List Char → List UInt8
  | [] => []
  | [c] => String.utf8EncodeChar c
  | [c, d] => String.utf8EncodeChar c ++ String.utf8EncodeChar d
  | c :: d :: e :: rest =>
    match if c = '%' then [d, e].mapM Hex.digitValue? else none with
    | some digits => UInt8.ofNat (digits.foldl (fun n d => 16 * n + d) 0) :: decode rest
    | none => String.utf8EncodeChar c ++ decode (d :: e :: rest)

def inAny (c : Char) : Bool := c.toNat < 0x20 || 0x7F ≤ c.toNat

def inFragment (c : Char) : Bool := inAny c || [' ', '"', '<', '>', '\x60'].contains c

def inQuery (special : Bool) (c : Char) : Bool :=
  inAny c || [' ', '"', '#', '<', '>'].contains c || (special && c = '\x27')

def inPath (c : Char) : Bool := inFragment c || ['#', '?', '\x7b', '\x7d'].contains c

def inUser (c : Char) : Bool :=
  inPath c || ['/', ':', ';', '=', '@', '[', '\\', ']', '^', '|'].contains c

end JarPruning.Url.Percent
