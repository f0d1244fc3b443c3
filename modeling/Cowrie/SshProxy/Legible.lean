import Cowrie.Lib.Ensures
import Cowrie.SshProxy.SftpPackets

/-!
# When the SFTP sniffer raises

`SFTP.parse_packet` raises in two places: it reads a length from empty data at a packet boundary,
and `handle_packet` decodes what it writes to the log. `Legible` says which texts those are, packet
type by packet type.

* **`returns_handlePacket`**: `handle_packet` returns iff the texts it logs are UTF-8.
* **`parsePacket_none_iff`**: so does `parse_packet`, for the packets that the data completes.
-/

namespace Cowrie.SshProxy

open Cowrie.Lib

/-- The bytes are UTF-8. -/
def Text (b : Bytes) : Prop := (decode b).isSome

instance (b : Bytes) : Decidable (Text b) := inferInstanceAs (Decidable ((decode b).isSome = true))

/-- A text in front changes nothing. -/
theorem text_encode_append (s : String) (b : Bytes) : Text (encode s ++ b) ↔ Text b := by
  unfold Text
  rw [decode_append]
  cases decode b <;> simp

namespace Session

variable (sha256 : Bytes → String) (tag : String)

/-- The command an OPEN leaves. -/
def openCommand (pflags : List Char) (path old : Bytes) : Bytes :=
  if pflags[6]? = some '1' then encode "put " ++ path
  else if pflags[7]? = some '1' then encode "get " ++ path
  else old

/-- The log line of an OPEN is text. -/
def LegibleOpen (s : Session) : Prop :=
  Text (openCommand (formatBin 8 (s.packet.extractString.2.extractInt 4).1)
    s.packet.extractString.1 s.command)

/-- The log line of a CLOSE is text. -/
def LegibleClose (s : Session) : Prop :=
  s.handle = s.packet.extractString.1 → ¬ Bytes.contains (encode "get") s.command →
    Bytes.contains (encode "put") s.command → Text s.command

/-- The log line of a STATUS is text. -/
def LegibleStatus (s : Session) : Prop :=
  s.id = s.prevID →
    if (s.packet.extractInt 4).1 = 0 ∨ (s.packet.extractInt 4).1 = 1 then
      !Bytes.contains (encode "get") s.command && !Bytes.contains (encode "put") s.command →
        Text s.command
    else Text s.command ∧ Text (s.packet.extractInt 4).2.extractString.1

/-- What `handle_packet` logs of a packet of type `num` is text, once type and identifier are read. -/
def LegibleAs (s : Session) : Nat → Prop
  | 3 => LegibleOpen s
  | 4 => LegibleClose s
  | 16 => Text s.packet.extractString.1
  | 101 => LegibleStatus s
  | 201 => Text s.command
  | _ => True

/-- The session when type and identifier are read. -/
def headed (packet : Packet) (s : Session) : Session :=
  let (id, p) := (packet.extractInt 1).2.extractInt 4
  { s with packet := p, prevID := s.id, id := id, path := [] }

/-- What `handle_packet` logs of the packet is text. -/
def Legible (packet : Packet) (s : Session) : Prop :=
  LegibleAs (headed packet s) (packet.extractInt 1).1

variable {s : Session} {α : Type} {A : Prop} {Q : α → Session → Prop}

theorem returns_extract {β : Type} {f : Packet → β × Packet} {k : β → SftpM α}
    (h : Returns A (k (f s.packet).1) Q { s with packet := (f s.packet).2 }) :
    Returns A (extract f >>= k) Q s :=
  returns_step (exec_extract f s) h

theorem returns_decoded {b : Bytes} {Q : String → Session → Prop} (h : ∀ t, Q t s) :
    Returns (Text b) (decoded b) Q s := by
  unfold Returns Ensures Text
  rw [exec_decoded]
  cases decode b with
  | some t => exact ⟨rfl, h t⟩
  | none => simp

theorem exec_logMsg (text : String) (s : Session) :
    exec (logMsg text) s = (.ok ⟨⟩, { s with log := s.log ++ [.msg text] }) := rfl

theorem returns_logMsg {text : String} {Q : Unit → Session → Prop} (h : ∀ t, Q () t) :
    Returns True (logMsg text) Q s := returns_modify (h _)

theorem returns_logCommand {Q : Unit → Session → Prop} (h : ∀ t, Q () t) :
    Returns (Text s.command) (logCommand tag) Q s := by
  unfold logCommand
  refine returns_step (exec_get s) (returns_before ?_)
  exact returns_decoded fun t => returns_logMsg h

theorem returns_setCommand {command : Bytes} {Q : Unit → Session → Prop} (h : ∀ t, Q () t) :
    Returns True (setCommand command) Q s := returns_modify (h _)

/-! ## One lemma a packet type -/

variable {Q : Unit → Session → Prop}

theorem returns_extractAttrs {Q : Bytes → Session → Prop} (h : ∀ b t, Q b t) :
    Returns True extractAttrs Q s := by
  unfold extractAttrs
  refine returns_extract ?_
  dsimp only
  split
  · exact returns_extract (returns_pure (h _ _))
  · split
    · exact returns_extract (returns_extract (returns_pure (h _ _)))
    · exact returns_pure (h _ _)

theorem returns_handleOpen (h : ∀ t, Q () t) : Returns (LegibleOpen s) (handleOpen tag) Q s := by
  unfold handleOpen LegibleOpen openCommand
  refine returns_extract (returns_step (exec_modify _ _) (returns_extract ?_))
  dsimp only
  split
  · exact returns_step (exec_modify _ _) (returns_logCommand _ h)
  · split
    · exact returns_step (exec_modify _ _) (returns_logCommand _ h)
    · exact returns_step (exec_logMsg _ _) (returns_logCommand _ h)

theorem returns_storeUpload (hpath : s.path = []) (h : ∀ t, Q () t) :
    Returns (Text s.command) (storeUpload sha256 tag) Q s := by
  have hdec : exec (decoded s.path) s = (.ok "", s) := exec_decoded_some (by rw [hpath, decode_nil]) s
  unfold storeUpload
  refine returns_step (exec_get s) (returns_step hdec ?_)
  refine returns_step (exec_logMsg _ _) (returns_step (exec_get _) (returns_before ?_))
  refine returns_decoded fun command => ?_
  dsimp only
  split
  · exact returns_then (returns_modify (returns_modify (h _)))
  · exact returns_modify (h _)

theorem returns_handleClose (hpath : s.path = []) (h : ∀ t, Q () t) :
    Returns (LegibleClose s) (handleClose sha256 tag) Q s := by
  have hdec : decode s.path = some "" := by rw [hpath, decode_nil]
  unfold handleClose LegibleClose
  refine returns_step (exec_get s) (returns_extract ?_)
  refine returns_ite_true (fun _ => returns_step (exec_get _) ?_) fun _ => returns_pure (h _)
  dsimp only
  by_cases hget : Bytes.contains (encode "get") s.command
  · rw [if_pos hget]
    refine Returns.congr (A := True) ?_ ⟨fun _ hn => absurd hget hn, fun _ => trivial⟩
    exact returns_step (exec_get _) (returns_step (exec_decoded_some hdec _) (returns_logMsg h))
  · rw [if_neg hget]
    refine Returns.congr (returns_ite_true (fun _ => returns_storeUpload sha256 tag hpath h)
      fun _ => returns_pure (h _)) ?_
    exact ⟨fun ht _ => ht, fun ht => ht hget⟩

theorem returns_handleStatus (h : ∀ t, Q () t) : Returns (LegibleStatus s) (handleStatus tag) Q s := by
  unfold handleStatus LegibleStatus
  refine returns_step (exec_get s) (returns_ite_true (fun _ => returns_extract ?_) fun _ =>
    returns_pure (h _))
  refine returns_ite (fun _ => returns_ite_true (fun _ => returns_logCommand _ h) fun _ =>
    returns_pure (h _)) fun _ => returns_extract ?_
  refine returns_bind (returns_decoded fun command => returns_before ?_)
  exact returns_decoded fun message => returns_logMsg h

theorem returns_handleExtended (h : ∀ t, Q () t) : Returns True (handleExtended tag) Q s := by
  unfold handleExtended
  refine returns_extract (returns_extract (returns_step (exec_modify _ _) ?_))
  split
  · exact returns_setCommand h
  · split
    · exact returns_extract (returns_setCommand h)
    · split
      · exact returns_extract (returns_setCommand h)
      · exact returns_logMsg h

theorem returns_dispatch (hpath : s.path = []) (h : ∀ t, Q () t) (num : Nat) :
    Returns (LegibleAs s num) (dispatch sha256 tag num) Q s := by
  fun_cases dispatch sha256 tag num with
  | case1 => exact returns_handleOpen tag h
  | case2 => exact returns_handleClose sha256 tag hpath h
  | case3 => exact returns_pure (h _)
  | case4 =>
    refine returns_step (exec_get s) (returns_extract (Returns.congr (returns_ite_true (A := True)
      (fun _ => ?_) fun _ => returns_pure (h _)) (by simp [LegibleAs])))
    exact returns_extract (returns_extract (returns_modify (h _)))
  | case5 =>
    refine returns_extract (returns_step (exec_modify _ _) (returns_then ?_))
    exact returns_extractAttrs fun attrs t => returns_setCommand h
  | case6 => exact returns_extract (returns_modify (h _))
  | case7 =>
    refine returns_step (exec_get s) (returns_extract (Returns.congr (returns_ite_true (A := True)
      (fun _ => returns_step (exec_get _) ?_) fun _ => returns_pure (h _)) (by simp [LegibleAs])))
    exact returns_setCommand h
  | case8 => exact returns_extract (returns_setCommand h)
  | case9 => exact returns_extract (returns_setCommand h)
  | case10 => exact returns_extract (returns_setCommand h)
  | case11 =>
    refine returns_extract (returns_step (exec_modify _ _) (returns_step (exec_modify _ _) ?_))
    exact (returns_logCommand _ h).congr (text_encode_append _ _)
  | case12 => exact returns_extract (returns_extract (returns_setCommand h))
  | case13 => exact returns_handleStatus tag h
  | case14 =>
    refine returns_step (exec_get s) (returns_step (exec_get s) (Returns.congr (returns_ite_true
      (A := True) (fun _ => ?_) fun _ => returns_pure (h _)) (by simp [LegibleAs])))
    exact returns_extract (returns_modify (h _))
  | case15 => exact returns_handleExtended tag h
  | case16 => exact returns_logCommand _ h
  | case17 =>
    refine (returns_logMsg h).congr (iff_of_true trivial ?_)
    unfold LegibleAs
    split <;> trivial

/-- **`handle_packet` returns iff what it logs is text.** -/
theorem returns_handlePacket (parent : Parent) (packet : Packet) (h : ∀ t, Q () t) :
    Returns (Legible packet s) (handlePacket sha256 parent packet) Q s := by
  unfold handlePacket Legible
  refine returns_step (exec_modify _ _) (returns_extract (returns_step (exec_modify _ _) ?_))
  refine returns_extract (returns_step (exec_modify _ _) ?_)
  exact returns_dispatch sha256 _ rfl h _

end Session

namespace SFTP

variable (sha256 : Bytes → String)

/-- The bytes after a packet boundary: there are some, and if they are a packet, it is legible. -/
def LegibleStart (data : Bytes) (s : Session) : Prop :=
  data ≠ [] ∧ (startSize data = 0 → s.Legible ⟨0, data.drop 4⟩)

/-- The packets that `data` completes are legible. -/
def LegibleData (parent : Parent) (data : Bytes) (s : SFTP) : Prop :=
  let p := s.buffer parent
  if p.packetSize = 0 then LegibleStart data s.session
  else if p.packetSize < data.length then
    let packet : Packet := ⟨0, p.data ++ sliceTo data p.packetSize⟩
    s.session.Legible packet ∧ (sliceFrom data p.packetSize ≠ [] →
      LegibleStart (sliceFrom data p.packetSize)
        (exec (Session.handlePacket sha256 parent packet) s.session).2)
  else p.packetSize = data.length → s.session.Legible ⟨0, p.data ++ data⟩

theorem buffer_setBuffer (s : SFTP) (parent : Parent) (packet : Packet) :
    (s.setBuffer parent packet).buffer parent = packet := by
  cases parent <;> rfl

theorem session_setBuffer (s : SFTP) (parent : Parent) (packet : Packet) :
    (s.setBuffer parent packet).session = s.session := by
  cases parent <;> rfl

theorem handle_none_iff (parent : Parent) (s : SFTP) :
    (handle sha256 parent s).2 = none ↔ s.session.Legible (s.buffer parent) := by
  rw [← (Session.returns_handlePacket sha256 parent (s.buffer parent)
    (Q := fun _ _ => True) fun _ => trivial).iff]
  unfold handle exec
  dsimp only
  cases ((Session.handlePacket sha256 parent (s.buffer parent)).run.run s.session) with
  | mk r t => cases r <;> simp

theorem startPacket_none_iff (parent : Parent) (data : Bytes) (s : SFTP) :
    (startPacket sha256 parent data s).2 = none ↔ LegibleStart data s.session := by
  unfold startPacket LegibleStart
  by_cases hdata : data = []
  · simp [hdata]
  · by_cases hsize : startSize data = 0
    · simp only [hdata, hsize, if_false, if_true]
      rw [handle_none_iff, buffer_setBuffer, session_setBuffer]
      simp [hdata]
    · simp [hdata, hsize]

theorem session_handle (parent : Parent) (s : SFTP) :
    (handle sha256 parent s).1.session =
      (exec (Session.handlePacket sha256 parent (s.buffer parent)) s.session).2 := rfl

/-- The branch of a chunk that goes on past the packet. -/
theorem parsePacket_past {parent : Parent} {data : Bytes} {s : SFTP}
    (hzero : (s.buffer parent).packetSize ≠ 0) (hlt : (s.buffer parent).packetSize < data.length)
    {u : SFTP} (hu : u = s.setBuffer parent
      ⟨0, (s.buffer parent).data ++ sliceTo data (s.buffer parent).packetSize⟩) :
    (parsePacket sha256 parent data s).2 = none ↔
      (handle sha256 parent u).2 = none ∧ (sliceFrom data (s.buffer parent).packetSize ≠ [] →
        (startPacket sha256 parent (sliceFrom data (s.buffer parent).packetSize)
          (handle sha256 parent u).1).2 = none) := by
  unfold parsePacket
  dsimp only
  rw [if_neg hzero, if_pos hlt, ← hu]
  rcases handle sha256 parent u with ⟨t, _ | e⟩
  · by_cases hrest : sliceFrom data (s.buffer parent).packetSize = []
    · simp [hrest]
    · simp [hrest]
  · simp

/-- **`parse_packet` returns iff the packets that the data completes are legible.** -/
theorem parsePacket_none_iff (parent : Parent) (data : Bytes) (s : SFTP) :
    (parsePacket sha256 parent data s).2 = none ↔ LegibleData sha256 parent data s := by
  unfold LegibleData
  dsimp only
  by_cases hzero : (s.buffer parent).packetSize = 0
  · rw [if_pos hzero, ← startPacket_none_iff sha256 parent]
    unfold parsePacket
    dsimp only
    rw [if_pos hzero]
  · rw [if_neg hzero]
    by_cases hlt : (s.buffer parent).packetSize < data.length
    · rw [if_pos hlt, parsePacket_past sha256 hzero hlt rfl, handle_none_iff, startPacket_none_iff,
        session_handle, buffer_setBuffer, session_setBuffer]
    · rw [if_neg hlt]
      unfold parsePacket
      dsimp only
      rw [if_neg hzero, if_neg hlt]
      by_cases hsize : (s.buffer parent).packetSize = data.length
      · rw [if_pos (sub_eq_zero.mpr hsize), handle_none_iff, buffer_setBuffer, session_setBuffer,
          hsize, sub_self]
        simp
      · rw [if_neg (sub_ne_zero.mpr hsize)]
        simp [hsize]

end SFTP

end Cowrie.SshProxy
