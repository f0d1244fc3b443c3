import Cowrie.Lib.FileContents
import Cowrie.Lib.Program
import Cowrie.SshProxy.Sftp
import Mathlib.Tactic.NormNum

/-!
# What `handle_packet` does with the packets of a file transfer

The packets an SFTP client and server exchange over an open file, as bytes
(`sftp.py:30-75`), and the effect of `handle_packet` on each of them.

* `View` is what of a session decides about uploads; `Ends Session.view` states what a packet makes
  of it.
* `ends_open`, `ends_handle`, `ends_write`, `ends_status`, `ends_close`: one lemma a packet, the last
  for a CLOSE that stores nothing.
* **`ends_store`**: what closing an upload stores, and what it logs.
-/

namespace Cowrie.SshProxy

open Cowrie.Lib

/-- A string that fits into a packet. -/
abbrev SftpString := { b : Bytes // b.length < 2 ^ 32 }

/-- The `pflags` of `SSH_FXP_OPEN`. -/
structure PFlags where
  read : Bool
  write : Bool
  append : Bool
  creat : Bool
  trunc : Bool
  excl : Bool
  deriving DecidableEq, Repr

def PFlags.value (f : PFlags) : Nat :=
  f.read.toNat + 2 * f.write.toNat + 4 * f.append.toNat + 8 * f.creat.toNat + 16 * f.trunc.toNat +
    32 * f.excl.toNat

/-- A length and that many bytes. -/
def putString (b : Bytes) : Bytes := intToBytes 4 b.length ++ b

/-- The type and the identifier of a packet. -/
def header (num : UInt8) (id : UInt32) : Bytes := num :: intToBytes 4 id.toNat

def openPacket (id : UInt32) (path : SftpString) (pflags : PFlags) (attrs : Bytes) : Bytes :=
  header 3 id ++ (putString path ++ (intToBytes 4 pflags.value ++ attrs))

def closePacket (id : UInt32) (handle : SftpString) : Bytes := header 4 id ++ (putString handle ++ [])

def writePacket (id : UInt32) (handle : SftpString) (offset : UInt64) (data : Bytes) : Bytes :=
  header 6 id ++ (putString handle ++ (intToBytes 8 offset.toNat ++ putString data))

def handlePacketOf (id : UInt32) (handle : SftpString) : Bytes :=
  header 102 id ++ (putString handle ++ [])

def statusPacket (id : UInt32) (code : UInt32) (message : SftpString) (language : Bytes) : Bytes :=
  header 101 id ++ (intToBytes 4 code.toNat ++ (putString message ++ language))

/-! ## Reading fields -/

theorem extractInt_append {p : Packet} {k n : Nat} {rest : Bytes}
    (h : p.data = intToBytes k n ++ rest) (hn : n < 256 ^ k) :
    p.extractInt k = (n, ⟨p.packetSize - k, rest⟩) := by
  have hlen : (intToBytes k n).length = k := intToBytes_length k n
  unfold Packet.extractInt
  rw [h, List.take_append_of_le_length hlen.ge, List.drop_append_of_le_length hlen.ge,
    List.take_of_length_le hlen.le, List.drop_of_length_le hlen.le, intFromBytes_intToBytes,
    Nat.mod_eq_of_lt hn, List.nil_append]

theorem length_putString (b : Bytes) : (putString b).length = 4 + b.length := by
  rw [putString, List.length_append, intToBytes_length]

theorem extractString_putString {p : Packet} {b rest : Bytes} (h : p.data = putString b ++ rest)
    (hb : b.length < 2 ^ 32) :
    p.extractString = (b, ⟨p.packetSize - (putString b).length, rest⟩) := by
  have hint : p.extractInt 4 = (b.length, ⟨p.packetSize - 4, b ++ rest⟩) :=
    extractInt_append (by rw [h, putString, List.append_assoc]) (hb.trans_le (by norm_num))
  have hsize : p.packetSize - 4 - b.length = p.packetSize - (putString b).length := by
    rw [length_putString]
    omega
  unfold Packet.extractString
  rw [hint]
  simp only [List.take_left', List.drop_left', hsize]

theorem extractString_append {p : Packet} {b rest : Bytes} (h : p.data = putString b ++ rest)
    (hb : b.length < 2 ^ 32) :
    ∃ n, p.extractString = (b, ⟨n, rest⟩) :=
  ⟨_, extractString_putString h hb⟩

theorem extractData_append {p : Packet} {b : Bytes} (h : p.data = putString b) :
    ∃ n, p.extractData = (b, ⟨n, []⟩) := by
  have hlen : (intToBytes 4 b.length).length = 4 := intToBytes_length 4 _
  unfold Packet.extractData Packet.extractInt
  rw [h, putString]
  simp only [List.drop_append_of_le_length hlen.ge, List.drop_of_length_le hlen.le,
    List.nil_append]
  exact ⟨_, rfl⟩

namespace Session

theorem exec_extract {α : Type} (f : Packet → α × Packet) (s : Session) :
    exec (extract f) s = (.ok (f s.packet).1, { s with packet := (f s.packet).2 }) := rfl

theorem exec_extractInt {s : Session} {k n : Nat} {rest : Bytes}
    (h : s.packet.data = intToBytes k n ++ rest) (hn : n < 256 ^ k) :
    exec (extractInt k) s = (.ok n, { s with packet := ⟨s.packet.packetSize - k, rest⟩ }) := by
  unfold extractInt
  rw [exec_extract, extractInt_append h hn]

theorem exec_extractString {s : Session} {b rest : Bytes} (h : s.packet.data = putString b ++ rest)
    (hb : b.length < 2 ^ 32) :
    ∃ n, exec extractString s = (.ok b, { s with packet := ⟨n, rest⟩ }) := by
  obtain ⟨n, hn⟩ := extractString_append h hb
  unfold extractString
  rw [exec_extract, hn]
  exact ⟨n, rfl⟩

theorem exec_extractData {s : Session} {b : Bytes} (h : s.packet.data = putString b) :
    ∃ n, exec extractData s = (.ok b, { s with packet := ⟨n, []⟩ }) := by
  obtain ⟨n, hn⟩ := extractData_append h
  unfold extractData
  rw [exec_extract, hn]
  exact ⟨n, rfl⟩

/-- The state in which a packet is dispatched. -/
def arrived (s : Session) (id : UInt32) (packet : Packet) : Session :=
  { s with packet := packet, prevID := s.id, id := id.toNat, path := [] }

/-- Type and identifier are read first. -/
theorem exec_handlePacket (sha256 : Bytes → String) (parent : Parent) (num : UInt8) (id : UInt32)
    (rest : Bytes) (s : Session) :
    ∃ n, exec (handlePacket sha256 parent ⟨0, header num id ++ rest⟩) s =
      exec (dispatch sha256 parent.tag num.toNat) (s.arrived id ⟨n, rest⟩) := by
  have hnum : (⟨0, header num id ++ rest⟩ : Packet).data =
      intToBytes 1 num.toNat ++ (intToBytes 4 id.toNat ++ rest) := by
    simp [header, intToBytes]
  unfold handlePacket
  rw [exec_modify_bind, exec_bind_ok (exec_extractInt hnum num.toNat_lt), exec_modify_bind,
    exec_bind_ok (exec_extractInt rfl id.toNat_lt), exec_modify_bind]
  exact ⟨_, rfl⟩

/-! ## One lemma a packet -/

/-- What of a session decides about uploads. -/
structure View where
  id : Nat
  handle : Bytes
  command : Bytes
  theFile : Bytes
  downloads : List (String × Bytes)
  deriving DecidableEq

def view (s : Session) : View := ⟨s.id, s.handle, s.command, s.theFile, s.downloads⟩

/-- The command of an OPEN; with neither flag it is the old one. -/
def commandOf (pflags : PFlags) (path old : Bytes) : Bytes :=
  if pflags.write then encode "put " ++ path
  else if pflags.read then encode "get " ++ path
  else old

theorem formatBin_pflags (f : PFlags) :
    ((formatBin 8 f.value)[6]? = some '1' ↔ f.write = true) ∧
      ((formatBin 8 f.value)[7]? = some '1' ↔ f.read = true) := by
  obtain ⟨r, w, a, c, t, e⟩ := f
  revert r w a c t e
  decide +kernel

theorem pflags_value_lt (f : PFlags) : f.value < 256 ^ 4 := by
  obtain ⟨r, w, a, c, t, e⟩ := f
  revert r w a c t e
  decide +kernel

theorem exec_decoded (b : Bytes) (s : Session) :
    exec (decoded b) s =
      match decode b with
      | some t => (.ok t, s)
      | none => (.error .unicodeDecodeError, s) := by
  unfold decoded
  cases decode b with
  | some t => rfl
  | none => rfl

theorem exec_decoded_some {b : Bytes} {text : String} (h : decode b = some text) (s : Session) :
    exec (decoded b) s = (.ok text, s) := by
  rw [exec_decoded, h]

/-- Logging a command raises iff it is not text. -/
theorem ends_logCommand (tag : String) {s : Session} {v : View} (h : s.view = v) :
    Ends view (logCommand tag) s
      (match decode s.command with
        | some _ => .ok ()
        | none => .error .unicodeDecodeError) v := by
  unfold logCommand logMsg
  refine ends_get ?_
  have hdec := exec_decoded s.command s
  cases hc : decode s.command with
  | some c =>
    rw [hc] at hdec
    exact ends_bind_ok hdec ⟨rfl, h⟩
  | none =>
    rw [hc] at hdec
    unfold Ends
    rw [exec_bind_error hdec]
    exact ⟨rfl, h⟩

/-- What an OPEN makes of a session. -/
theorem ends_open (sha256 : Bytes → String) (id : UInt32) (path : SftpString) (pflags : PFlags)
    (attrs : Bytes) (s : Session) :
    Ends view (handlePacket sha256 .client ⟨0, openPacket id path pflags attrs⟩) s
      (match decode (commandOf pflags path s.command) with
        | some _ => .ok ()
        | none => .error .unicodeDecodeError)
      { s.view with
        id := id.toNat
        command := commandOf pflags path s.command
        theFile := if pflags.write then [] else s.theFile } := by
  obtain ⟨n, hn⟩ := exec_handlePacket sha256 .client 3 id
    (putString path ++ (intToBytes 4 pflags.value ++ attrs)) s
  unfold Ends
  unfold openPacket
  rw [hn]
  change Ends view (handleOpen "[CLIENT]") _ _ _
  obtain ⟨m, hm⟩ := exec_extractString
    (s := s.arrived id ⟨n, putString path ++ (intToBytes 4 pflags.value ++ attrs)⟩) rfl path.2
  obtain ⟨hwrite, hread⟩ := formatBin_pflags pflags
  unfold handleOpen
  refine ends_bind_ok hm (ends_modify_bind (ends_bind_ok (exec_extractInt rfl (pflags_value_lt pflags)) ?_))
  simp only [hwrite, hread]
  cases hw : pflags.write with
  | true =>
    simp only [if_true, commandOf, hw]
    refine ends_modify_bind ?_
    exact ends_logCommand _ rfl
  | false =>
    cases hr : pflags.read with
    | true =>
      simp only [Bool.false_eq_true, if_false, if_true, commandOf, hw, hr]
      refine ends_modify_bind ?_
      exact ends_logCommand _ rfl
    | false =>
      simp only [Bool.false_eq_true, if_false, commandOf, hw, hr]
      unfold logMsg
      refine ends_modify_bind ?_
      exact ends_logCommand _ rfl

/-- A HANDLE is taken over iff the last packet before it had its identifier. -/
theorem ends_handle (sha256 : Bytes → String) (id : UInt32) (handle : SftpString) (s : Session) :
    Ends view (handlePacket sha256 .server ⟨0, handlePacketOf id handle⟩) s (.ok ())
      { s.view with
        id := id.toNat
        handle := if id.toNat = s.id then handle else s.handle } := by
  obtain ⟨n, hn⟩ := exec_handlePacket sha256 .server 102 id (putString handle ++ []) s
  unfold Ends
  unfold handlePacketOf
  rw [hn]
  change Ends view (dispatch sha256 "[SERVER]" 102) _ _ _
  unfold dispatch
  refine ends_get (ends_get ?_)
  change Ends view (if id.toNat = s.id then _ else _) _ _ _
  by_cases h : id.toNat = s.id
  · rw [if_pos h]
    obtain ⟨m, hm⟩ := exec_extractString (s := s.arrived id ⟨n, putString handle ++ []⟩) rfl handle.2
    refine ends_bind_ok hm (ends_modify ?_)
    simp only [if_pos h]
    rfl
  · rw [if_neg h]
    refine ⟨rfl, ?_⟩
    simp only [if_neg h]
    rfl

/-- A WRITE on the current handle cuts the file off at the offset and appends the data. -/
theorem ends_write (sha256 : Bytes → String) (id : UInt32) (handle : SftpString) (offset : UInt64)
    (data : Bytes) (s : Session) :
    Ends view (handlePacket sha256 .client ⟨0, writePacket id handle offset data⟩) s (.ok ())
      { s.view with
        id := id.toNat
        theFile := if s.handle = handle then cutWrite s.theFile offset.toNat data
          else s.theFile } := by
  obtain ⟨n, hn⟩ := exec_handlePacket sha256 .client 6 id
    (putString handle ++ (intToBytes 8 offset.toNat ++ putString data)) s
  unfold Ends
  unfold writePacket
  rw [hn]
  change Ends view (dispatch sha256 "[CLIENT]" 6) _ _ _
  unfold dispatch
  obtain ⟨m, hm⟩ := exec_extractString
    (s := s.arrived id ⟨n, putString handle ++ (intToBytes 8 offset.toNat ++ putString data)⟩)
    rfl handle.2
  refine ends_get (ends_bind_ok hm ?_)
  change Ends view (if s.handle = handle then _ else _) _ _ _
  by_cases h : s.handle = handle
  · rw [if_pos h]
    refine ends_bind_ok (exec_extractInt rfl offset.toNat_lt) ?_
    obtain ⟨k, hk⟩ := exec_extractData
      (s := s.arrived id ⟨m - (8 : Nat), putString data⟩) rfl
    refine ends_bind_ok hk (ends_modify ?_)
    simp only [if_pos h]
    rfl
  · rw [if_neg h]
    refine ⟨rfl, ?_⟩
    simp only [if_neg h]
    rfl

/-- A STATUS changes nothing; it is logged without an exception if there is text to log. -/
theorem ends_status (sha256 : Bytes → String) (id : UInt32) (code : UInt32) (message : SftpString)
    (language : Bytes) {s : Session} (hcommand : (decode s.command).isSome)
    (hmessage : (decode message).isSome) :
    Ends view (handlePacket sha256 .server ⟨0, statusPacket id code message language⟩) s (.ok ())
      { s.view with id := id.toNat } := by
  obtain ⟨n, hn⟩ := exec_handlePacket sha256 .server 101 id
    (intToBytes 4 code.toNat ++ (putString message ++ language)) s
  obtain ⟨c, hc⟩ := Option.isSome_iff_exists.mp hcommand
  obtain ⟨m, hm⟩ := Option.isSome_iff_exists.mp hmessage
  unfold Ends
  unfold statusPacket
  rw [hn]
  change Ends view (handleStatus "[SERVER]") _ _ _
  unfold handleStatus
  refine ends_get ?_
  split
  · refine ends_bind_ok (exec_extractInt rfl code.toNat_lt) ?_
    split
    · split
      · have hlog : Ends view (logCommand ("[SERVER]" ++ " [SFTP] Entered Command: "))
            (s.arrived id ⟨n - (4 : Nat), putString message ++ language⟩) _ _ := ends_logCommand _ rfl
        simp only [arrived, hc] at hlog
        exact hlog
      · exact ⟨rfl, rfl⟩
    · obtain ⟨k, hk⟩ := exec_extractString
        (s := s.arrived id ⟨n - (4 : Nat), putString message ++ language⟩) rfl message.2
      refine ends_bind_ok hk ?_
      have hcommand' := exec_decoded_some hc (s.arrived id ⟨k, language⟩)
      have hmessage' := exec_decoded_some hm (s.arrived id ⟨k, language⟩)
      exact ends_bind_ok hcommand' (ends_bind_ok hmessage' (ends_modify rfl))
  · exact ⟨rfl, rfl⟩

/-- The command of an upload is a download's iff its path contains `get`. -/
theorem contains_get (path : Bytes) :
    Bytes.contains (encode "get") (encode "put " ++ path) =
      Bytes.contains (encode "get") path := by
  have hget : encode "get" = [103, 101, 116] := by decide +kernel
  have hput : encode "put " = [112, 117, 116, 32] := by decide +kernel
  unfold Bytes.contains
  rw [decide_eq_decide, hget, hput]
  simp [List.infix_cons_iff, List.cons_prefix_cons]

theorem contains_put (path : Bytes) : Bytes.contains (encode "put") (encode "put " ++ path) := by
  have hput : encode "put " = encode "put" ++ [32] := by decide +kernel
  rw [hput]
  exact decide_eq_true ⟨[], [32] ++ path, by rw [List.nil_append, List.append_assoc]⟩

/-- A CLOSE of `handle` takes the upload branch. -/
def Uploads (s : Session) (handle : Bytes) : Prop :=
  s.handle = handle ∧ ¬ Bytes.contains (encode "get") s.command ∧
    Bytes.contains (encode "put") s.command

/-- A CLOSE that is not taken for the end of an upload. -/
theorem ends_close (sha256 : Bytes → String) (id : UInt32) (handle : SftpString) {s : Session}
    (h : ¬ s.Uploads handle) :
    Ends view (handlePacket sha256 .client ⟨0, closePacket id handle⟩) s (.ok ())
      { s.view with id := id.toNat } := by
  obtain ⟨n, hn⟩ := exec_handlePacket sha256 .client 4 id (putString handle ++ []) s
  unfold Ends
  unfold closePacket
  rw [hn]
  change Ends view (handleClose sha256 "[CLIENT]") _ _ _
  obtain ⟨m, hm⟩ := exec_extractString (s := s.arrived id ⟨n, putString handle ++ []⟩) rfl handle.2
  unfold handleClose
  refine ends_get (ends_bind_ok hm ?_)
  change Ends view (if s.handle = handle then _ else _) _ _ _
  by_cases hhandle : s.handle = handle
  · rw [if_pos hhandle]
    refine ends_get ?_
    by_cases hget : Bytes.contains (encode "get") s.command
    · have hpath := exec_decoded_some decode_nil (s.arrived id ⟨m, []⟩)
      refine (if_pos hget).symm ▸ ends_get (ends_bind_ok hpath ?_)
      exact ends_modify rfl
    · have hput : ¬ Bytes.contains (encode "put") s.command := fun hput => h ⟨hhandle, hget, hput⟩
      refine (if_neg hget).symm ▸ (if_neg hput).symm ▸ ?_
      exact ⟨rfl, rfl⟩
  · rw [if_neg hhandle]
    exact ⟨rfl, rfl⟩

/-- The files of `download_path` once `contents` is stored under its digest. -/
def stored (sha256 : Bytes → String) (contents : Bytes) (downloads : List (String × Bytes)) :
    List (String × Bytes) :=
  if downloads.any (·.1 == sha256 contents) then downloads
  else downloads ++ [(sha256 contents, contents)]

/-- The name in the event of an upload. -/
def uploadName (command : String) : String := (command.splitOn " ").getLastD ""

theorem ends_storeUpload (sha256 : Bytes → String) (tag : String) {s : Session}
    {path command : String} (hpath : decode s.path = some path)
    (hcommand : decode s.command = some command) :
    Ends (fun u => (u.view, u.log.getLast?)) (storeUpload sha256 tag) s (.ok ())
      ({ s.view with downloads := stored sha256 s.theFile s.downloads },
        some (.fileUpload (uploadName command) (s.downloads.any (·.1 == sha256 s.theFile))
          (sha256 s.theFile) (sha256 s.theFile))) := by
  unfold storeUpload logMsg
  refine ends_get (ends_bind_ok (exec_decoded_some hpath s) (ends_modify_bind (ends_get ?_)))
  refine ends_bind_ok (exec_decoded_some hcommand _) ?_
  cases hduplicate : s.downloads.any (·.1 == sha256 s.theFile) with
  | true =>
    refine ends_modify ?_
    simp only [stored, hduplicate, List.getLast?_append]
    rfl
  | false =>
    refine ends_modify_bind (ends_modify ?_)
    simp only [stored, hduplicate, List.getLast?_append]
    rfl

/-- **The CLOSE of an upload** stores the buffer under its digest and logs that digest, with the
last word of the command. -/
theorem ends_store (sha256 : Bytes → String) (id : UInt32) (handle : SftpString) {s : Session}
    {command : String} (h : s.Uploads handle) (hcommand : decode s.command = some command) :
    Ends (fun u => (u.view, u.log.getLast?))
      (handlePacket sha256 .client ⟨0, closePacket id handle⟩) s (.ok ())
      ({ s.view with
          id := id.toNat
          downloads := stored sha256 s.theFile s.downloads },
        some (.fileUpload (uploadName command) (s.downloads.any (·.1 == sha256 s.theFile))
          (sha256 s.theFile) (sha256 s.theFile))) := by
  obtain ⟨n, hn⟩ := exec_handlePacket sha256 .client 4 id (putString handle ++ []) s
  obtain ⟨hhandle, hget, hput⟩ := h
  unfold Ends
  unfold closePacket
  rw [hn]
  change Ends (fun u => (u.view, u.log.getLast?)) (handleClose sha256 "[CLIENT]") _ _ _
  obtain ⟨m, hm⟩ := exec_extractString (s := s.arrived id ⟨n, putString handle ++ []⟩) rfl handle.2
  unfold handleClose
  refine ends_get (ends_bind_ok hm ?_)
  refine (if_pos hhandle).symm ▸ ends_get ?_
  refine (if_neg hget).symm ▸ (if_pos hput).symm ▸ ?_
  exact ends_storeUpload sha256 "[CLIENT]" (s := s.arrived id ⟨m, []⟩) decode_nil hcommand

end Session

end Cowrie.SshProxy
