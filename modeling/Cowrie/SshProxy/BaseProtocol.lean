import Cowrie.Bytes

/-!
# Reading fields from a packet (`src/cowrie/ssh_proxy/protocols/base_protocol.py`)

`Packet` is the part of `BaseProtocol` that the `extract_*` methods read and write: the bytes not
yet consumed and the size that is counted down next to them. The size is an integer of its own
(it may go below zero), the methods never compare it with the data.
-/

namespace Cowrie.SshProxy

structure Packet where
  packetSize : Int
  data : Bytes
  deriving DecidableEq

namespace Packet

/-- A fresh `BaseProtocol`. -/
def empty : Packet := ⟨0, []⟩

/-- `extract_int`. -/
def extractInt (length : Nat) (p : Packet) : Nat × Packet :=
  (intFromBytes (p.data.take length), ⟨p.packetSize - length, p.data.drop length⟩)

/-- `extract_string`. -/
def extractString (p : Packet) : Bytes × Packet :=
  let (length, p) := p.extractInt 4
  (p.data.take length, ⟨p.packetSize - length, p.data.drop length⟩)

/-- `extract_bool`. -/
def extractBool (p : Packet) : Bool × Packet :=
  let (value, p) := p.extractInt 1
  (value != 0, p)

/-- `extract_data`: the rest of the packet, whatever the length field says. -/
def extractData (p : Packet) : Bytes × Packet :=
  let (length, p) := p.extractInt 4
  (p.data, ⟨length - p.data.length, []⟩)

end Packet

end Cowrie.SshProxy
