import Cowrie.Bytes

/-!
# Fields of `struct.pack` and `struct.unpack`

Network byte order (`!`), without padding. `H` and `I` are unsigned integers of two and four bytes,
`<n>s` is a string of exactly `n` bytes, cut off or filled up with zeros when it is packed. `none`
is a `struct.error`: a number that does not fit, or a buffer of the wrong size.

* `unpackUInt_intToBytes`: reading back a packed number.
-/

namespace Cowrie

/-- `H` (`k = 2`) and `I` (`k = 4`). -/
def packUInt (k : Nat) (n : Int) : Option Bytes :=
  if 0 ≤ n ∧ n < 256 ^ k then some (intToBytes k n.toNat) else none

/-- `<n>s`. -/
def packString (n : Nat) (b : Bytes) : Bytes := b.take n ++ List.replicate (n - b.length) 0

/-- A buffer that holds one number. -/
def unpackUInt (k : Nat) (b : Bytes) : Option Nat :=
  if b.length = k then some (intFromBytes b) else none

/-- A buffer that holds one string of `n` bytes. -/
def unpackString (n : Nat) (b : Bytes) : Option Bytes := if b.length = n then some b else none

theorem unpackUInt_intToBytes {k n : Nat} (h : n < 256 ^ k) :
    unpackUInt k (intToBytes k n) = some n := by
  unfold unpackUInt
  rw [if_pos (intToBytes_length k n), intFromBytes_intToBytes, Nat.mod_eq_of_lt h]

end Cowrie
