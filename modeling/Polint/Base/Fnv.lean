import Polint.Base.Text

/-!
# A hash of bytes

The FNV-1a hash of 64 bits, and the sixteen hexadecimal digits it is written in.
-/

namespace Fnv

/-- The hash before any byte. -/
def fnvOffsetBasis : Nat := 0xcbf29ce484222325

/-- What the hash is multiplied by after each byte. -/
def fnvPrime : Nat := 0x100000001b3

/-- Takes one byte into the hash, which has 64 bits. -/
def fingerprintByte (hash : Nat) (byte : UInt8) : Nat :=
  (hash ^^^ byte.toNat) * fnvPrime % 2 ^ 64

/-- Takes bytes into the hash. -/
def fingerprintBytes (hash : Nat) (bytes : List UInt8) : Nat :=
  bytes.foldl fingerprintByte hash

/-- A hash in sixteen hexadecimal digits. -/
def hexDigits (hash : Nat) : Text :=
  List.replicate (16 - (Nat.toDigits 16 hash).length) '0' ++
    Nat.toDigits 16 hash

/-- The hash of parts, each closed by a mark. -/
def hashParts (mark : UInt8) (parts : List (List UInt8)) : Text :=
  hexDigits (parts.foldl
    (fun hash part => fingerprintByte (fingerprintBytes hash part) mark)
    fnvOffsetBasis)

theorem isHexDigit_of_mem_hexDigits {hash : Nat} {char : Char}
    (mem : char ∈ hexDigits hash) :
    char.isDigit ∨ ('a' ≤ char ∧ char ≤ 'f') := by
  rcases List.mem_append.mp mem with zero | digit
  · rw [List.eq_of_mem_replicate zero]
    decide
  · exact Text.isHexDigit_of_mem_toDigits digit

/-- A hash of 64 bits needs no more than the sixteen digits. -/
theorem length_hexDigits {hash : Nat} (below : hash < 2 ^ 64) :
    (hexDigits hash).length = 16 := by
  have short : (Nat.toDigits 16 hash).length ≤ 16 :=
    (Nat.length_toDigits_le_iff (by decide) (by decide)).mpr (by omega)
  rw [hexDigits, List.length_append, List.length_replicate]
  omega

end Fnv
