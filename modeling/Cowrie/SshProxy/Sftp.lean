import Cowrie.SshProxy.BaseProtocol
import Mathlib.Data.Nat.Digits.Defs

/-!
# The SFTP sniffer of the SSH proxy (`src/cowrie/ssh_proxy/protocols/sftp.py`)

`SFTP.parsePacket` reassembles the packets of the two directions from channel data and hands each
one to `handlePacket`, which follows the session: the command an attacker issued, the handle the
server gave out, the file being uploaded.

* `Buffer` is `clientPacket` / `serverPacket`; `Session` is the rest of the object. `handle_packet`
  only reads the buffer of the packet it is called for, so `handlePacket` is a function on
  `Session` alone, and the two buffers are untouched by construction.
* `parse_packet` calls itself at most once, with the bytes after the end of a packet: the inner
  call finds `packetSize = 0` and leaves no data over. `startPacket` is that first branch.
* An exception leaves the state written so far: `Except` is layered over the state.
* `calls` is a ghost record of the calls of `handle_packet`: direction and `parentPacket.data`.
* The packet types are Twisted's `filetransfer.FXP_*`, listed in `sftp.py:40-75`.
* `sha256` (a hex digest) is a parameter; `downloads` holds the files of `download_path`.

Left out: the UUID and channel name (only `ssh.py` reads them).
-/

namespace Cowrie.SshProxy

inductive Parent
  | server
  | client
  deriving DecidableEq, Repr

/-- The prefix of log messages. -/
def Parent.tag : Parent → String
  | .server => "[SERVER]"
  | .client => "[CLIENT]"

inductive PyError
  | valueError
  | unicodeDecodeError
  deriving DecidableEq, Repr

/-- What `handle_packet` logs: a line of text, or the upload event. -/
inductive SftpLog
  | msg (text : String)
  | fileUpload (filename : String) (duplicate : Bool) (outfile : String) (shasum : String)
  deriving DecidableEq

/-- The state `handle_packet` works on. -/
structure Session where
  packet : Packet := .empty
  prevID : Nat := 0
  id : Nat := 0
  handle : Bytes := []
  path : Bytes := []
  command : Bytes := []
  theFile : Bytes := []
  offset : Nat := 0
  downloads : List (String × Bytes) := []
  log : List SftpLog := []
  deriving DecidableEq

/-- State and exceptions: a raise keeps the state. -/
abbrev SftpM (α : Type) := ExceptT PyError (StateM Session) α

/-- `f"{n:0{width}b}"`. -/
def formatBin (width n : Nat) : List Char :=
  ((Nat.toDigits 2 n).leftpad width '0')

/-- `int(digits, 2)`. -/
def intOfBin (digits : List Char) : Nat :=
  digits.foldl (fun n c => 2 * n + if c = '1' then 1 else 0) 0

namespace Session

/-- Run one of the `extract_*` methods. -/
def extract {α : Type} (f : Packet → α × Packet) : SftpM α :=
  modifyGet fun s => ((f s.packet).1, { s with packet := (f s.packet).2 })

def extractInt (length : Nat) : SftpM Nat := extract (·.extractInt length)

def extractString : SftpM Bytes := extract (·.extractString)

def extractData : SftpM Bytes := extract (·.extractData)

/-- `b.decode()`. -/
def decoded (b : Bytes) : SftpM String :=
  match decode b with
  | some s => pure s
  | none => throw .unicodeDecodeError

def logMsg (text : String) : SftpM Unit := modify fun s => { s with log := s.log ++ [.msg text] }

def setCommand (command : Bytes) : SftpM Unit := modify fun s => { s with command := command }

/-- `log.msg(prefix + self.command.decode())`. -/
def logCommand (tag : String) : SftpM Unit := do
  logMsg (tag ++ (← decoded (← get).command))

/-- `extract_attrs`: flag bits are read off the binary text of the flags, from the left. -/
def extractAttrs : SftpM Bytes := do
  let flags := formatBin 8 (← extractInt 4)
  if flags[5]? = some '1' then
    let perms := formatBin 9 (← extractInt 4)
    return encode ("chmod " ++ toString (intOfBin (perms.take 3)) ++
      toString (intOfBin ((perms.drop 3).take 3)) ++ toString (intOfBin (perms.drop 6)))
  else if flags[6]? = some '1' then
    let user ← extractInt 4
    let group ← extractInt 4
    return encode ("chown " ++ toString user ++ ":" ++ toString group)
  else
    return []

/-- `FXP_OPEN`. -/
def handleOpen (tag : String) : SftpM Unit := do
  let path ← extractString
  modify fun s => { s with path := path }
  let pflags := formatBin 8 (← extractInt 4)
  if pflags[6]? = some '1' then
    modify fun s => { s with command := encode "put " ++ s.path, theFile := [] }
  else if pflags[7]? = some '1' then
    modify fun s => { s with command := encode "get " ++ s.path }
  else
    logMsg (tag ++ "[SFTP] New SFTP pflag detected")
  logCommand (tag ++ " [SFTP] Entered Command: ")

/-- The upload branch of `FXP_CLOSE`: store the file under its digest. -/
def storeUpload (sha256 : Bytes → String) (tag : String) : SftpM Unit := do
  logMsg (tag ++ " [SFTP] Finished Uploading: " ++ (← decoded (← get).path))
  let s ← get
  let shasum := sha256 s.theFile
  let fname := ((← decoded s.command).splitOn " ").getLastD ""
  let duplicate := s.downloads.any (·.1 == shasum)
  if !duplicate then
    modify fun s => { s with downloads := s.downloads ++ [(shasum, s.theFile)] }
  modify fun s => { s with log := s.log ++ [.fileUpload fname duplicate shasum shasum] }

/-- `FXP_CLOSE`. -/
def handleClose (sha256 : Bytes → String) (tag : String) : SftpM Unit := do
  if (← get).handle = (← extractString) then
    let command := (← get).command
    if Bytes.contains (encode "get") command then
      logMsg (tag ++ " [SFTP] Finished Downloading: " ++ (← decoded (← get).path))
    else if Bytes.contains (encode "put") command then
      storeUpload sha256 tag

/-- `FXP_EXTENDED`. -/
def handleExtended (tag : String) : SftpM Unit := do
  let cmd ← extractString
  let path ← extractString
  modify fun s => { s with path := path }
  if cmd = encode "statvfs@openssh.com" then
    setCommand (encode "df " ++ path)
  else if cmd = encode "hardlink@openssh.com" then
    setCommand (encode "ln " ++ path ++ encode " " ++ (← extractString))
  else if cmd = encode "posix-rename@openssh.com" then
    setCommand (encode "mv " ++ path ++ encode " " ++ (← extractString))
  else
    logMsg (tag ++ "[SFTP] New SFTP Extended Command detected")

/-- `FXP_STATUS`. -/
def handleStatus (tag : String) : SftpM Unit := do
  let s ← get
  if s.id = s.prevID then
    let code ← extractInt 4
    if code = 0 ∨ code = 1 then
      if !Bytes.contains (encode "get") s.command && !Bytes.contains (encode "put") s.command then
        logCommand (tag ++ " [SFTP] Entered Command: ")
    else
      let message ← extractString
      logMsg (tag ++ " [SFTP] Failed Command: " ++ (← decoded s.command) ++ " Reason: " ++
        (← decoded message))

/-- The dispatch of `handle_packet` on the packet type. -/
def dispatch (sha256 : Bytes → String) (tag : String) : Nat → SftpM Unit
  | 3 => handleOpen tag
  | 4 => handleClose sha256 tag
  | 5 => pure ()
  | 6 => do
    if (← get).handle = (← extractString) then
      let offset ← extractInt 8
      let written ← extractData
      modify fun s => { s with offset := offset, theFile := s.theFile.take offset ++ written }
  | 9 => do
    let path ← extractString
    modify fun s => { s with path := path }
    setCommand ((← extractAttrs) ++ encode " " ++ path)
  | 11 => do
    let path ← extractString
    modify fun s => { s with path := path }
  | 12 => do
    if (← get).handle = (← extractString) then
      setCommand (encode "ls " ++ (← get).path)
  | 13 => do setCommand (encode "rm " ++ (← extractString))
  | 14 => do setCommand (encode "mkdir " ++ (← extractString))
  | 15 => do setCommand (encode "rmdir " ++ (← extractString))
  | 16 => do
    let path ← extractString
    modify fun s => { s with path := path }
    setCommand (encode "cd " ++ path)
    logCommand (tag ++ "[SFTP] Entered Command: ")
  | 20 => do
    let link ← extractString
    setCommand (encode "ln -s " ++ link ++ encode " " ++ (← extractString))
  | 101 => handleStatus tag
  | 102 => do
    if (← get).id = (← get).prevID then
      let handle ← extractString
      modify fun s => { s with handle := handle }
  | 200 => handleExtended tag
  | 201 => logCommand (tag ++ " [SFTP] Entered Command: ")
  | _ => logMsg "[SFTP] Unhandled packet: {sftp_num}"

/-- `handle_packet`, for the packet in `packet`. -/
def handlePacket (sha256 : Bytes → String) (parent : Parent) (packet : Packet) : SftpM Unit := do
  modify fun s => { s with packet := packet }
  let sftpNum ← extractInt 1
  modify fun s => { s with prevID := s.id }
  let id ← extractInt 4
  modify fun s => { s with id := id, path := [] }
  dispatch sha256 parent.tag sftpNum

end Session

/-- The object: the two reassembly buffers, the session, and the ghost record of calls. -/
structure SFTP where
  serverPacket : Packet := .empty
  clientPacket : Packet := .empty
  session : Session := {}
  calls : List (Parent × Bytes) := []

namespace SFTP

/-- `parentPacket`. -/
def buffer (s : SFTP) : Parent → Packet
  | .server => s.serverPacket
  | .client => s.clientPacket

def setBuffer (s : SFTP) (parent : Parent) (packet : Packet) : SFTP :=
  match parent with
  | .server => { s with serverPacket := packet }
  | .client => { s with clientPacket := packet }

/-- The call of `handle_packet` on the buffer of `parent`. -/
def handle (sha256 : Bytes → String) (parent : Parent) (s : SFTP) : SFTP × Option PyError :=
  let r := (Session.handlePacket sha256 parent (s.buffer parent)).run.run s.session
  ({ s with session := r.2, calls := s.calls ++ [(parent, (s.buffer parent).data)] },
    match r.1 with
    | .ok _ => none
    | .error e => some e)

/-- The bytes still missing after the first chunk of a packet (`sftp.py:110`). -/
def startSize (data : Bytes) : Int := intFromBytes (data.take 4) - (data.drop 4).length

/-- `parse_packet` when `packetSize` is 0 (`sftp.py:109-113`). `int(b"", 16)` raises. -/
def startPacket (sha256 : Bytes → String) (parent : Parent) (data : Bytes) (s : SFTP) :
    SFTP × Option PyError :=
  if data = [] then (s, some .valueError)
  else
    let s := s.setBuffer parent ⟨startSize data, data.drop 4⟩
    if startSize data = 0 then handle sha256 parent s else (s, none)

/-- `parse_packet`. A finished packet is handled before the bytes after it are looked at. -/
def parsePacket (sha256 : Bytes → String) (parent : Parent) (data : Bytes) (s : SFTP) :
    SFTP × Option PyError :=
  let p := s.buffer parent
  if p.packetSize = 0 then startPacket sha256 parent data s
  else if p.packetSize < data.length then
    match handle sha256 parent (s.setBuffer parent ⟨0, p.data ++ sliceTo data p.packetSize⟩) with
    | (s, some e) => (s, some e)
    | (s, none) =>
      let rest := sliceFrom data p.packetSize
      if rest = [] then (s, none) else startPacket sha256 parent rest s
  else
    let s := s.setBuffer parent ⟨p.packetSize - data.length, p.data ++ data⟩
    if p.packetSize - data.length = 0 then handle sha256 parent s else (s, none)

end SFTP

end Cowrie.SshProxy
