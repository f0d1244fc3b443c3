import Cowrie.Struct

/-!
# `sendPacket` (`src/cowrie/ssh_proxy/server_transport.py:298-328`, `src/cowrie/ssh/transport.py:151-182`)

Both servers override Twisted's method in the same words but for the byte of the message type, which
`HoneyPotSSHTransport` takes as `bytes((messageType,))` and `FrontendSSHTransport` as
`chr(messageType).encode()`. `sendPacketWith` is both, with these bytes as a parameter.

* `Transport` is what the method reads and writes. A message type that may not be sent during a key
  exchange is put aside. Compression, cipher and MAC are Twisted's and are functions here.
* `secureRandom` gives as many bytes as it is asked for. `none` is a `struct.error`.
* `Framed`: what a receiver of an unencrypted packet relies on.

Results:
* `framed_packet`: whatever the content, header and padding are right as long as the length fits.
* `honeyPot_framed`: so they are for `HoneyPotSSHTransport`.
* **`frontend_framed_iff`**: the proxy writes the same packet exactly for types below 128. From 128 on
  the type takes two bytes in UTF-8.
-/

namespace Cowrie.SshProxy

/-- The part of a transport that `sendPacket` needs. -/
structure Transport where
  /-- `_keyExchangeState` is not `_KEY_EXCHANGE_NONE`. -/
  keyExchange : Bool := false
  allowedKeyExchangeMessageType : UInt8 → Bool := fun _ => true
  blockedByKeyExchange : List (UInt8 × Bytes) := []
  /-- `compress` and then `flush`. -/
  outgoingCompression : Option (Bytes → Bytes) := none
  encBlockSize : Nat
  encBlockSize_pos : 0 < encBlockSize
  encrypt : Bytes → Bytes := id
  makeMAC : Nat → Bytes → Bytes := fun _ _ => []
  outgoingPacketSequence : Nat := 0
  /-- The arguments of `transport.write`. -/
  written : List Bytes := []

abbrev SecureRandom := (n : Nat) → { b : Bytes // b.length = n }

namespace Transport

def MSG_KEXINIT : UInt8 := 20

/-- The message is put aside until the key exchange is over. -/
def blocks (t : Transport) (messageType : UInt8) : Bool :=
  t.keyExchange && !t.allowedKeyExchangeMessageType messageType

def lenPad (bs totalSize : Nat) : Nat :=
  let lenPad := bs - totalSize % bs
  if lenPad < 4 then lenPad + bs else lenPad

/-- `struct.pack(b"!LB", totalSize + lenPad - 4, lenPad)`. -/
def header (totalSize lenPad : Nat) : Option Bytes := do
  let length ← packUInt 4 (totalSize + lenPad - 4 : Nat)
  let pad ← packUInt 1 lenPad
  return length ++ pad

def padding (secureRandom : SecureRandom) (messageType : UInt8) (lenPad : Nat) : Bytes :=
  if messageType = MSG_KEXINIT then List.replicate lenPad 0 else (secureRandom lenPad).1

def wrote (t : Transport) (encPacket : Bytes) : Transport :=
  { t with
    written := t.written ++ [encPacket]
    outgoingPacketSequence := t.outgoingPacketSequence + 1 }

def sendPacketWith (typeBytes : UInt8 → Bytes) (secureRandom : SecureRandom) (messageType : UInt8)
    (payload : Bytes) (t : Transport) : Option Transport :=
  if t.blocks messageType then
    some { t with blockedByKeyExchange := t.blockedByKeyExchange ++ [(messageType, payload)] }
  else do
    let payload := t.outgoingCompression.getD id (typeBytes messageType ++ payload)
    let totalSize := 5 + payload.length
    let lenPad := lenPad t.encBlockSize totalSize
    let packet := (← header totalSize lenPad) ++ payload ++ padding secureRandom messageType lenPad
    return t.wrote (t.encrypt packet ++ t.makeMAC t.outgoingPacketSequence packet)

end Transport

/-- `HoneyPotSSHTransport.sendPacket`. -/
def HoneyPotSSHTransport.sendPacket : SecureRandom → UInt8 → Bytes → Transport → Option Transport :=
  Transport.sendPacketWith fun messageType => [messageType]

/-- `FrontendSSHTransport.sendPacket`. -/
def FrontendSSHTransport.sendPacket : SecureRandom → UInt8 → Bytes → Transport → Option Transport :=
  Transport.sendPacketWith encodeChr

/-! ## The padding -/

/-- The least number of blocks that `n` bytes fit in, in bytes. -/
def roundUp (bs n : Nat) : Nat := (n + bs - 1) / bs * bs

theorem four_le_lenPad {bs : Nat} (hbs : 4 ≤ bs) (totalSize : Nat) :
    4 ≤ Transport.lenPad bs totalSize := by
  unfold Transport.lenPad
  simp only
  split_ifs <;> omega

/-- The packet fills the blocks that it needs with four bytes of padding. -/
theorem add_lenPad {bs : Nat} (hbs : 4 ≤ bs) (totalSize : Nat) :
    totalSize + Transport.lenPad bs totalSize = roundUp bs (totalSize + 4) := by
  have hmod := Nat.mod_lt totalSize (show 0 < bs by omega)
  have hdiv := Nat.div_add_mod totalSize bs
  have hblocks : ∀ k, totalSize + 4 ≤ k * bs → k * bs < totalSize + 4 + bs →
      k * bs = roundUp bs (totalSize + 4) := by
    intro k hle hlt
    have hk : (totalSize + 4 + bs - 1) / bs = k :=
      Nat.div_eq_of_lt_le (by omega) (by rw [Nat.succ_mul]; omega)
    rw [roundUp, hk]
  have hone : (totalSize / bs + 1) * bs = bs * (totalSize / bs) + bs := by ring
  have htwo : (totalSize / bs + 2) * bs = bs * (totalSize / bs) + bs + bs := by ring
  unfold Transport.lenPad
  simp only
  split_ifs with hpad
  · rw [← hblocks (totalSize / bs + 2) (by omega) (by omega)]
    omega
  · rw [← hblocks (totalSize / bs + 1) (by omega) (by omega)]
    omega

theorem lenPad_lt {bs : Nat} (hbs : 4 ≤ bs) (totalSize : Nat) :
    Transport.lenPad bs totalSize < bs + 4 := by
  have hmod := Nat.mod_lt totalSize (show 0 < bs by omega)
  unfold Transport.lenPad
  simp only
  split_ifs <;> omega

/-! ## What a receiver relies on -/

/-- The byte after the length field. -/
def paddingLength (packet : Bytes) : Nat := ((packet.drop 4).headD 0).toNat

/-- What is between the header and the padding. -/
def contentOf (packet : Bytes) : Bytes := (packet.drop 5).take (packet.length - 5 - paddingLength packet)

/-- A packet for a cipher with blocks of `bs` bytes, with the given content. -/
structure Framed (bs : Nat) (content packet : Bytes) : Prop where
  blocks : bs ∣ packet.length
  padding : 4 ≤ paddingLength packet ∧ paddingLength packet ≤ 255
  length : intFromBytes (packet.take 4) = (packet.drop 4).length
  content : contentOf packet = content

/-- Five bytes, if both numbers fit. -/
theorem header_eq {totalSize lenPad : Nat} (hpad : lenPad < 256) :
    Transport.header totalSize lenPad =
      if totalSize + lenPad - 4 < 2 ^ 32 then
        some (intToBytes 4 (totalSize + lenPad - 4) ++ [UInt8.ofNat lenPad])
      else none := by
  unfold Transport.header packUInt
  have hbyte : (0 : Int) ≤ (lenPad : Int) ∧ (lenPad : Int) < 256 ^ 1 := by omega
  rw [if_pos hbyte]
  by_cases hfits : totalSize + lenPad - 4 < 2 ^ 32
  · have hlength : (0 : Int) ≤ ((totalSize + lenPad - 4 : Nat) : Int) ∧
        ((totalSize + lenPad - 4 : Nat) : Int) < 256 ^ 4 := by omega
    rw [if_pos hfits, if_pos hlength]
    rfl
  · have hlength : ¬ ((0 : Int) ≤ ((totalSize + lenPad - 4 : Nat) : Int) ∧
        ((totalSize + lenPad - 4 : Nat) : Int) < 256 ^ 4) := by omega
    rw [if_neg hfits, if_neg hlength]
    rfl

/-- Header, content and padding. -/
theorem framed_packet {bs : Nat} {content padding : Bytes} (hbs : 4 ≤ bs ∧ bs ≤ 128)
    (hpadding : padding.length = Transport.lenPad bs (5 + content.length))
    (hfits : roundUp bs (content.length + 9) < 2 ^ 32 + 4) :
    ∃ head, Transport.header (5 + content.length) (Transport.lenPad bs (5 + content.length)) =
        some head ∧
      Framed bs content (head ++ content ++ padding) := by
  have hfour := four_le_lenPad hbs.1 (5 + content.length)
  have hlt := lenPad_lt hbs.1 (5 + content.length)
  have hblocks := add_lenPad hbs.1 (5 + content.length)
  rw [show 5 + content.length + 4 = content.length + 9 by omega] at hblocks
  generalize Transport.lenPad bs (5 + content.length) = pad at *
  have hbyte : (UInt8.ofNat pad).toNat = pad := by
    rw [UInt8.toNat_ofNat']
    omega
  refine ⟨_, (header_eq (by omega)).trans (if_pos (by omega)), ?_⟩
  rw [List.append_assoc, List.append_assoc]
  have hpad : paddingLength (intToBytes 4 (5 + content.length + pad - 4) ++
      ([UInt8.ofNat pad] ++ (content ++ padding))) = pad := by
    rw [paddingLength, List.drop_left' (intToBytes_length 4 _)]
    exact hbyte
  refine ⟨?_, by rw [hpad]; omega, ?_, ?_⟩
  · have hlen : (intToBytes 4 (5 + content.length + pad - 4) ++
        ([UInt8.ofNat pad] ++ (content ++ padding))).length = roundUp bs (content.length + 9) := by
      simp only [List.length_append, intToBytes_length, List.length_singleton]
      omega
    rw [hlen]
    exact ⟨_, Nat.mul_comm _ _⟩
  · rw [List.take_left' (intToBytes_length 4 _), List.drop_left' (intToBytes_length 4 _),
      intFromBytes_intToBytes, Nat.mod_eq_of_lt (by omega)]
    simp only [List.length_append, List.length_singleton]
    omega
  · have hcut : (intToBytes 4 (5 + content.length + pad - 4) ++
        ([UInt8.ofNat pad] ++ (content ++ padding))).length - 5 - pad = content.length := by
      simp only [List.length_append, intToBytes_length, List.length_singleton]
      omega
    rw [contentOf, hpad, hcut, ← List.append_assoc,
      List.drop_left' (by simp only [List.length_append, intToBytes_length, List.length_singleton]),
      List.take_left]

/-! ## The two servers -/

/-- No compression, no cipher and no MAC. -/
structure Plain (t : Transport) : Prop where
  compression : t.outgoingCompression = none
  cipher : ∀ packet, t.encrypt packet = packet
  mac : ∀ sequence packet, t.makeMAC sequence packet = []

theorem padding_length (secureRandom : SecureRandom) (messageType : UInt8) (lenPad : Nat) :
    (Transport.padding secureRandom messageType lenPad).length = lenPad := by
  unfold Transport.padding
  split_ifs
  · exact List.length_replicate
  · exact (secureRandom lenPad).2

section Send

variable {t : Transport} {typeBytes : UInt8 → Bytes} {messageType : UInt8}
  (secureRandom : SecureRandom) (payload : Bytes)

theorem sendPacketWith_blocked (hblocked : t.blocks messageType = true) :
    Transport.sendPacketWith typeBytes secureRandom messageType payload t =
      some { t with blockedByKeyExchange := t.blockedByKeyExchange ++ [(messageType, payload)] } :=
  if_pos hblocked

theorem sendPacketWith_open (ht : Plain t) (hopen : ¬ t.blocks messageType = true) :
    Transport.sendPacketWith typeBytes secureRandom messageType payload t =
      (Transport.header (5 + (typeBytes messageType ++ payload).length)
        (Transport.lenPad t.encBlockSize (5 + (typeBytes messageType ++ payload).length))).map
        fun head => t.wrote (head ++ (typeBytes messageType ++ payload) ++
          Transport.padding secureRandom messageType
            (Transport.lenPad t.encBlockSize (5 + (typeBytes messageType ++ payload).length))) := by
  unfold Transport.sendPacketWith
  rw [if_neg hopen, ht.compression]
  simp only [Option.getD_none, id_eq, ht.cipher, ht.mac, List.append_nil]
  rw [Option.map_eq_bind]
  rfl

/-- A packet that fits is written in a frame. -/
theorem sendPacketWith_framed (ht : Plain t) (hbs : 4 ≤ t.encBlockSize ∧ t.encBlockSize ≤ 128)
    (hopen : ¬ t.blocks messageType = true)
    (hfits : roundUp t.encBlockSize ((typeBytes messageType ++ payload).length + 9) < 2 ^ 32 + 4) :
    ∃ packet, Transport.sendPacketWith typeBytes secureRandom messageType payload t =
        some (t.wrote packet) ∧
      Framed t.encBlockSize (typeBytes messageType ++ payload) packet := by
  obtain ⟨head, hhead, hframed⟩ := framed_packet hbs (padding_length secureRandom messageType _) hfits
  exact ⟨_, by rw [sendPacketWith_open secureRandom payload ht hopen, hhead, Option.map_some], hframed⟩

/-- The length of any other is no four-byte number. -/
theorem sendPacketWith_none (ht : Plain t) (hbs : 4 ≤ t.encBlockSize ∧ t.encBlockSize ≤ 128)
    (hopen : ¬ t.blocks messageType = true)
    (hfits : ¬ roundUp t.encBlockSize ((typeBytes messageType ++ payload).length + 9) < 2 ^ 32 + 4) :
    Transport.sendPacketWith typeBytes secureRandom messageType payload t = none := by
  rw [sendPacketWith_open secureRandom payload ht hopen]
  generalize typeBytes messageType ++ payload = content at *
  have hblocks := add_lenPad hbs.1 (5 + content.length)
  have hlt := lenPad_lt hbs.1 (5 + content.length)
  rw [show 5 + content.length + 4 = content.length + 9 by omega] at hblocks
  rw [header_eq (by omega), if_neg (by omega)]
  rfl

end Send

/-- What `HoneyPotSSHTransport` sends, it frames. -/
theorem honeyPot_framed {t : Transport} {messageType : UInt8} {payload : Bytes}
    (secureRandom : SecureRandom) (ht : Plain t) (hbs : 4 ≤ t.encBlockSize ∧ t.encBlockSize ≤ 128)
    (hopen : ¬ t.blocks messageType = true)
    (hfits : roundUp t.encBlockSize (payload.length + 10) < 2 ^ 32 + 4) :
    ∃ packet, HoneyPotSSHTransport.sendPacket secureRandom messageType payload t =
        some (t.wrote packet) ∧
      Framed t.encBlockSize (messageType :: payload) packet :=
  @sendPacketWith_framed t (fun messageType => [messageType]) messageType secureRandom payload ht hbs hopen
    hfits

theorem encodeChr_append_eq_iff (messageType : UInt8) (payload : Bytes) :
    encodeChr messageType ++ payload = messageType :: payload ↔ messageType < 128 := by
  unfold encodeChr
  split_ifs with hsmall
  · exact iff_of_true rfl hsmall
  · refine iff_of_false (fun heq => ?_) hsmall
    have hlen := congrArg List.length heq
    simp only [List.length_append, List.length_cons, List.length_nil] at hlen
    omega

theorem wrote_injective (t : Transport) {packet sent : Bytes} (h : t.wrote packet = t.wrote sent) :
    packet = sent := by
  have hwritten : t.written ++ [packet] = t.written ++ [sent] := congrArg Transport.written h
  simpa using hwritten

/-- The proxy sends a message in a frame, as the honeypot does; or both put it aside. -/
def SendsAlike (secureRandom : SecureRandom) (messageType : UInt8) (payload : Bytes) (t : Transport) :
    Prop :=
  (t.blocks messageType = false →
    ∃ packet, FrontendSSHTransport.sendPacket secureRandom messageType payload t =
        some (t.wrote packet) ∧
      Framed t.encBlockSize (messageType :: payload) packet) ∧
  FrontendSSHTransport.sendPacket secureRandom messageType payload t =
    HoneyPotSSHTransport.sendPacket secureRandom messageType payload t

/-- **The proxy's packets** are right exactly for types of one byte in UTF-8, as long as the length
fits its field. -/
theorem frontend_framed_iff {t : Transport} {messageType : UInt8} {payload : Bytes}
    (secureRandom : SecureRandom) (ht : Plain t) (hbs : 8 ≤ t.encBlockSize ∧ t.encBlockSize ≤ 128) :
    SendsAlike secureRandom messageType payload t ↔
      t.blocks messageType = true ∨
        messageType < 128 ∧ roundUp t.encBlockSize (payload.length + 10) < 2 ^ 32 + 4 := by
  have hbs' : 4 ≤ t.encBlockSize ∧ t.encBlockSize ≤ 128 := ⟨by omega, hbs.2⟩
  unfold SendsAlike
  by_cases hblocks : t.blocks messageType = true
  · refine iff_of_true ⟨fun hopen => ?_, ?_⟩ (.inl hblocks)
    · rw [hblocks] at hopen
      cases hopen
    · exact (sendPacketWith_blocked secureRandom payload hblocks).trans
        (sendPacketWith_blocked secureRandom payload hblocks).symm
  rw [or_iff_right hblocks]
  constructor
  · rintro ⟨hframed, -⟩
    obtain ⟨packet, hsend, hpacket⟩ := hframed (Bool.eq_false_of_not_eq_true hblocks)
    by_cases hfits : roundUp t.encBlockSize ((encodeChr messageType ++ payload).length + 9) < 2 ^ 32 + 4
    · obtain ⟨sent, hsent, hframe⟩ := sendPacketWith_framed secureRandom payload ht hbs' hblocks hfits
      obtain rfl : packet = sent := wrote_injective t (Option.some.inj (hsend.symm.trans hsent))
      have hcontent : encodeChr messageType ++ payload = messageType :: payload :=
        hframe.content.symm.trans hpacket.content
      rw [hcontent] at hfits
      exact ⟨(encodeChr_append_eq_iff messageType payload).mp hcontent, hfits⟩
    · have hnone := sendPacketWith_none secureRandom payload ht hbs' hblocks hfits
      rw [FrontendSSHTransport.sendPacket, hnone] at hsend
      cases hsend
  · rintro ⟨hsmall, hfits⟩
    have halike : FrontendSSHTransport.sendPacket secureRandom messageType payload t =
        HoneyPotSSHTransport.sendPacket secureRandom messageType payload t := by
      unfold FrontendSSHTransport.sendPacket HoneyPotSSHTransport.sendPacket Transport.sendPacketWith
      rw [show encodeChr messageType = [messageType] from if_pos hsmall]
    refine ⟨fun _ => ?_, halike⟩
    rw [halike]
    exact honeyPot_framed secureRandom ht hbs' hblocks hfits

/-- Before any key exchange. -/
def plainTransport (bs : Nat) (hbs : 0 < bs) : Transport := { encBlockSize := bs, encBlockSize_pos := hbs }

theorem plain_plainTransport (bs : Nat) (hbs : 0 < bs) : Plain (plainTransport bs hbs) :=
  ⟨rfl, fun _ => rfl, fun _ _ => rfl⟩

/-- Padding of zeros. -/
def zeros : SecureRandom := fun n => ⟨List.replicate n 0, List.length_replicate⟩

theorem frontend_framed_ignore :
    SendsAlike zeros 2 [0, 0, 0, 0] (plainTransport 8 (by decide)) ↔
      (plainTransport 8 (by decide)).blocks 2 = true ∨
        (2 : UInt8) < 128 ∧ roundUp 8 (([0, 0, 0, 0] : Bytes).length + 10) < 2 ^ 32 + 4 :=
  frontend_framed_iff zeros (plain_plainTransport 8 (by decide)) (by decide)

/-- A message of type 192, which a server may define for itself. -/
theorem frontend_splits_type :
    ¬ SendsAlike zeros 192 [] (plainTransport 8 (by decide)) := by
  rintro ⟨-, halike⟩
  have hwritten := congrArg (fun s => s.map Transport.written) halike
  revert hwritten
  decide

end Cowrie.SshProxy
