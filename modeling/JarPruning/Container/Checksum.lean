/-! The cyclic redundancy check of archive entries. -/
namespace JarPruning.Checksum

/-- The remainder after so many more bits that are zero. -/
def shift (remainder : UInt32) : Nat → UInt32
  | 0 => remainder
  | n + 1 =>
    let half := remainder >>> 1
    shift (if remainder &&& 1 = 1 then 0xEDB88320 ^^^ half else half) n

/-- The remainders of the bytes. -/
def table : Array UInt32 := (Array.range 256).map fun b => shift (UInt32.ofNat b) 8

def step (remainder : UInt32) (b : UInt8) : UInt32 :=
  table.getD ((remainder &&& 0xFF).toNat ^^^ b.toNat) 0 ^^^ (remainder >>> 8)

def ofBytes (bytes : List UInt8) : UInt32 := ~~~ bytes.foldl step (~~~ 0)

end JarPruning.Checksum
