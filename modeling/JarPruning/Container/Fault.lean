/-! What can be wrong with the bytes of an archive. -/
namespace JarPruning

/-- Why a compressed block cannot be expanded. -/
inductive InflateFault where
  | truncated
  | blockKind
  | storedLength
  | codeLengths
  | symbol
  | distance
  deriving DecidableEq, Repr

def InflateFault.text : InflateFault → String
  | .truncated => "compressed data ends too early"
  | .blockKind => "unknown kind of block"
  | .storedLength => "length of a stored block does not match"
  | .codeLengths => "invalid code lengths"
  | .symbol => "invalid symbol"
  | .distance => "distance reaches too far back"

/-- Why a file is no archive. -/
inductive ContainerFault where
  /-- The record that ends every archive is missing. -/
  | noEnd
  | truncated
  | noEntryHeader
  | nameEncoding
  | compression (method : Nat)
  | inflate (name : String) (fault : InflateFault)
  | checksum (name : String)
  deriving DecidableEq, Repr

def ContainerFault.reason : ContainerFault → String
  | .noEnd => "Could not find EOCD"
  | .truncated => "a record ends too early"
  | .noEntryHeader => "a header of an entry is missing"
  | .nameEncoding => "the name of an entry is not UTF-8"
  | .compression method => s!"compression method {method} is not supported"
  | .inflate name fault => s!"{name}: {fault.text}"
  | .checksum name => s!"{name}: checksum does not match"

def ContainerFault.text (f : ContainerFault) : String := s!"invalid Zip archive: {f.reason}"

end JarPruning
