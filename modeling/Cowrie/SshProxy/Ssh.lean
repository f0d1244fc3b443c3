import Cowrie.Lib.Ensures
import Cowrie.SshProxy.Term

/-!
# The packet parser of the SSH proxy (`src/cowrie/ssh_proxy/protocols/ssh.py`)

`parseNumPacket` gets every decrypted packet of the two connections, follows the channels in a table
of its own, and passes the packet on.

* `Parent.server` is the connection of the attacker (the frontend, `self.server`), `Parent.client` the
  one to the backend (`self.client`). `sent` records what was given to `sendPacket` of either.
* `serverUp` and `clientUp`: the transport is there. `sendPacket` of one that is not (`self.client` is
  `None`, or has lost its `transport`) raises an `AttributeError`.
* A channel is an entry with optional keys. `get_channel` returns the entry itself, which the
  branches then change: here it returns its position. `channels.remove` removes the first entry that
  equals the one found; an equal entry before it would have been found instead of it.
* Texts for the log are left out except for the decoding in them, which may raise. So are the UUIDs
  and the timeout of the frontend.
* The options are those of the configuration; `packetLayout` is the table of message names, which is
  put together from three tables of Twisted.
-/

namespace Cowrie.SshProxy

open Cowrie.Lib

/-- The exceptions of `parse_num_packet`. -/
inductive Raised
  | keyError
  | attributeError
  | of (e : PyError)
  deriving DecidableEq, Repr

/-- The other end of the proxy. -/
def Parent.other : Parent → Parent
  | .server => .client
  | .client => .server

structure Config where
  forwarding : Bool
  sftpEnabled : Bool
  ttylog : Bool
  logRaw : Bool
  packetLayout : Nat → Option String
  sha256 : Bytes → String
  backendUser : String
  backendPass : String

/-- An entry of `self.channels`. -/
structure SSH.Channel where
  serverID : Option Nat := none
  clientID : Option Nat := none
  type : Bytes
  name : Option String := none
  session : Option ChannelSession := none
  closedServer : Bool := false
  closedClient : Bool := false

namespace SSH.Channel

/-- `channel["serverID"]` or `channel["clientID"]`. -/
def id (c : Channel) : Parent → Option Nat
  | .server => c.serverID
  | .client => c.clientID

def setId (c : Channel) (parent : Parent) (n : Nat) : Channel :=
  match parent with
  | .server => { c with serverID := some n }
  | .client => { c with clientID := some n }

/-- `channel[parent] = True`. -/
def close (c : Channel) : Parent → Channel
  | .server => { c with closedServer := true }
  | .client => { c with closedClient := true }

end SSH.Channel

structure SSH where
  packet : Packet := .empty
  channels : List SSH.Channel := []
  username : Bytes := []
  password : Bytes := []
  authType : Bytes := []
  sendOn : Bool := false
  expectPassword : Nat := 0
  serverUp : Bool := true
  clientUp : Bool := false
  sent : List (Parent × Nat × Bytes) := []

abbrev SshM (α : Type) := Prog Raised SSH α

/-- The first entry whose key is `n`; an entry without the key on the way raises. -/
def findChannel (key : SSH.Channel → Option Nat) (n : Nat) :
    List SSH.Channel → Except Raised (Nat × SSH.Channel)
  | [] => .error .keyError
  | c :: cs =>
    match key c with
    | none => .error .keyError
    | some m => if m = n then .ok (0, c) else (findChannel key n cs).map fun r => (r.1 + 1, r.2)

namespace SSH

def up (s : SSH) : Parent → Bool
  | .server => s.serverUp
  | .client => s.clientUp

/-- `get_channel`: a packet names a channel by the number the other end gave it. -/
def getChannel (n : Nat) (parent : Parent) (s : SSH) : Except Raised (Nat × Channel) :=
  findChannel (·.id parent.other) n s.channels

def setChannel (i : Nat) (c : Channel) (s : SSH) : SSH := { s with channels := s.channels.set i c }

def removeChannel (i : Nat) (s : SSH) : SSH := { s with channels := s.channels.eraseIdx i }

/-- `create_channel`. -/
def createChannel (parent : Parent) (n : Nat) (type : Bytes) (s : SSH) : SSH :=
  { s with channels := s.channels ++ [({ type := type } : Channel).setId parent n] }

/-- Run one of the `extract_*` methods. -/
def extract {α : Type} (f : Packet → α × Packet) : SshM α :=
  modifyGet fun s => ((f s.packet).1, { s with packet := (f s.packet).2 })

def extractInt (length : Nat) : SshM Nat := extract (·.extractInt length)

def extractString : SshM Bytes := extract (·.extractString)

def extractBool : SshM Bool := extract (·.extractBool)

/-- `sendPacket` of the frontend or of the backend. -/
def sendPacket (dest : Parent) (messageNum : Nat) (payload : Bytes) : SshM Unit := do
  query fun s => if s.up dest then .ok () else .error .attributeError
  modify fun s => { s with sent := s.sent ++ [(dest, messageNum, payload)] }

def setSendOn (on : Bool) : SshM Unit := modify fun s => { s with sendOn := on }

/-- `channel[key]`. -/
def keyOf (key : Option Nat) : SshM Nat := query fun _ => key.elim (.error .keyError) .ok

/-- `b.decode()`, for the log. -/
def decoded (b : Bytes) : SshM Unit :=
  query fun _ => if (decode b).isSome then .ok () else .error (.of .unicodeDecodeError)

/-- `PACKETLAYOUT[message_num]`, for the log. -/
def packetName (cfg : Config) (messageNum : Nat) : SshM Unit :=
  query fun _ => if (cfg.packetLayout messageNum).isSome then .ok () else .error .keyError

/-- `send_back`; the log line is written for the backend only. -/
def sendBack (cfg : Config) (parent : Parent) (messageNum : Nat) (payload : Bytes) : SshM Unit := do
  when (parent = .client) (packetName cfg messageNum)
  sendPacket parent messageNum payload

/-- `string_to_hex` and `bin_string_to_hex` of `util.py`. -/
def binStringToHex (message : Bytes) : Bytes := intToBytes 4 message.length ++ message

/-- `int_to_hex`. -/
def intToHex (value : Nat) : Bytes := intToBytes 4 value

/-! ## Messages of the transport layer and of user authentication -/

/-- `MSG_SERVICE_REQUEST`. -/
def serviceRequest : SshM Unit := do
  let service ← extractString
  when (service = encode "ssh-userauth") (setSendOn false)

/-- The loop over the extensions: names and values are only logged. -/
def extensions : Nat → SshM Unit
  | 0 => pure ()
  | n + 1 => do
    let _ ← extractString
    let _ ← extractString
    extensions n

/-- `MSG_EXT_INFO`. -/
def extInfo : SshM Unit := do
  let extensioncount ← extractInt 4
  extensions extensioncount
  setSendOn false

/-- `MSG_USERAUTH_REQUEST`. -/
def userauthRequest : SshM Unit := do
  setSendOn false
  let username ← extractString
  modify fun s => { s with username := username }
  let _ ← extractString
  let authType ← extractString
  modify fun s => { s with authType := authType }
  if authType = encode "password" then
    let _ ← extractBool
    let password ← extractString
    modify fun s => { s with password := password }
  else
    when (authType = encode "publickey")
      (sendPacket .server 51 (binStringToHex (encode "password") ++ [0]))

/-- `MSG_USERAUTH_FAILURE`: what it finds is only logged. -/
def userauthFailure : SshM Unit := do
  setSendOn false
  let _ ← extractString
  pure ()

/-- `b.lower()`. -/
def lower (b : Bytes) : Bytes := b.map fun x => if 65 ≤ x ∧ x ≤ 90 then x + 32 else x

/-- The loop over the prompts, from number `i` on. -/
def prompts (i : Nat) : Nat → SshM Unit
  | 0 => pure ()
  | n + 1 => do
    let request ← extractString
    let _ ← extractBool
    when (Bytes.contains (encode "password") (lower request))
      (modify fun s => { s with expectPassword := i })
    prompts (i + 1) n

/-- `MSG_USERAUTH_INFO_REQUEST`. -/
def infoRequest : SshM Unit := do
  setSendOn false
  modify fun s => { s with authType := encode "keyboard-interactive" }
  let _ ← extractString
  let _ ← extractString
  let _ ← extractString
  let numPrompts ← extractInt 4
  prompts 0 numPrompts

/-- The loop over the responses, from number `i` on. -/
def responses (i : Nat) : Nat → SshM Unit
  | 0 => pure ()
  | n + 1 => do
    let response ← extractString
    modify fun s => if i = s.expectPassword then { s with password := response } else s
    responses (i + 1) n

/-- `MSG_USERAUTH_INFO_RESPONSE`. -/
def infoResponse : SshM Unit := do
  setSendOn false
  let numResponses ← extractInt 4
  responses 0 numResponses

/-! ## Channels -/

/-- The name of a forwarding channel. -/
def forwardName (parent : Parent) (n : Nat) : String :=
  (match parent with
    | .server => "[LPRTF"
    | .client => "[RPRTF") ++ toString n ++ "]"

/-- The forwarding branch of `MSG_CHANNEL_OPEN`: the new entry is looked up again. -/
def openForwarding (cfg : Config) (parent : Parent) (type : Bytes) (n : Nat) : SshM Unit := do
  let _ ← extractInt 4
  let _ ← extractInt 4
  let _ ← extractString
  let _ ← extractInt 4
  let _ ← extractString
  let _ ← extractInt 4
  if cfg.forwarding then
    modify (createChannel parent n type)
    let r ← query (getChannel n parent.other)
    modify (setChannel r.1
      { r.2 with name := some (forwardName parent n), session := some .portForward })
  else
    setSendOn false
    sendBack cfg parent 92
      (intToHex n ++ intToHex 1 ++ binStringToHex (encode "open failed") ++ intToHex 0)

/-- `MSG_CHANNEL_OPEN`. Other types are only logged. -/
def channelOpen (cfg : Config) (parent : Parent) : SshM Unit := do
  let type ← extractString
  let n ← extractInt 4
  if type = encode "session" then modify (createChannel parent n type)
  else
    when (type = encode "direct-tcpip" ∨ type = encode "forwarded-tcpip")
      (openForwarding cfg parent type n)

/-- `MSG_CHANNEL_OPEN_CONFIRMATION`. -/
def openConfirmation (parent : Parent) : SshM Unit := do
  let n ← extractInt 4
  let r ← query (getChannel n parent)
  let sender ← extractInt 4
  modify (setChannel r.1 (r.2.setId parent sender))

/-- `MSG_CHANNEL_OPEN_FAILURE`. -/
def openFailure (parent : Parent) : SshM Unit := do
  let n ← extractInt 4
  let r ← query (getChannel n parent)
  modify (removeChannel r.1)

/-- `shell`. The name is set before the second key is read. -/
def requestShell (cfg : Config) (i : Nat) (channel : Channel) : SshM Unit := do
  let server ← keyOf channel.serverID
  let channel := { channel with name := some ("[TERM" ++ toString server ++ "]") }
  modify (setChannel i channel)
  let client ← keyOf channel.clientID
  modify (setChannel i { channel with
    session := some (.term { channelId := client, recording := { ttylogEnabled := cfg.ttylog } }) })

/-- `exec`. -/
def requestExec (cfg : Config) (i : Nat) (channel : Channel) : SshM Unit := do
  let server ← keyOf channel.serverID
  let channel := { channel with name := some ("[EXEC" ++ toString server ++ "]") }
  modify (setChannel i channel)
  let _ ← extractBool
  let command ← extractString
  modify (setChannel i { channel with
    session := some (.exec (ExecTerm.create server cfg.ttylog command)) })

/-- `subsystem`. -/
def requestSubsystem (cfg : Config) (parent : Parent) (i : Nat) (channel : Channel) : SshM Unit := do
  let _ ← extractBool
  let subsystem ← extractString
  if subsystem = encode "sftp" then
    if cfg.sftpEnabled then
      let server ← keyOf channel.serverID
      modify (setChannel i { channel with
        name := some ("[SFTP" ++ toString server ++ "]"), session := some (.sftp {}) })
    else
      setSendOn false
      let server ← keyOf channel.serverID
      sendBack cfg parent 100 (intToHex server)
  else decoded subsystem

/-- `env`. -/
def requestEnv : SshM Unit := do
  let _ ← extractBool
  let var ← extractString
  let value ← extractString
  decoded var
  decoded value

/-- The request types that are known to need no treatment. -/
def quietRequests : List String := ["window-change", "pty-req", "exit-status", "exit-signal"]

/-- `MSG_CHANNEL_REQUEST`. -/
def channelRequest (cfg : Config) (parent : Parent) : SshM Unit := do
  let n ← extractInt 4
  let r ← query (getChannel n parent)
  let type ← extractString
  if type = encode "shell" then requestShell cfg r.1 r.2
  else if type = encode "exec" then requestExec cfg r.1 r.2
  else if type = encode "subsystem" then requestSubsystem cfg parent r.1 r.2
  else if type = encode "env" then requestEnv
  else when (type ∉ quietRequests.map encode) (decoded type)

/-- `MSG_CHANNEL_CLOSE`: the entry goes when both ends have closed. -/
def channelClose (parent : Parent) : SshM Unit := do
  let n ← extractInt 4
  let r ← query (getChannel n parent)
  let channel := r.2.close parent
  modify (setChannel r.1 channel)
  when (channel.closedServer ∧ channel.closedClient) (modify (removeChannel r.1))

/-- `channel["session"].parse_packet(parent, self.extract_string())`; `None` has no such attribute. -/
def sessionData (cfg : Config) (parent : Parent) (i : Nat) (channel : Channel) : SshM Unit := do
  let session ← query fun _ => channel.session.elim (.error .attributeError) .ok
  let data ← extractString
  let r := session.parsePacket cfg.sha256 parent data
  modify (setChannel i { channel with session := some r.1 })
  query fun _ => r.2.elim (.ok ()) fun e => .error (.of e)

/-- `MSG_CHANNEL_DATA`. -/
def channelData (cfg : Config) (parent : Parent) : SshM Unit := do
  let n ← extractInt 4
  let r ← query (getChannel n parent)
  sessionData cfg parent r.1 r.2

/-- `MSG_CHANNEL_EXTENDED_DATA`. -/
def channelExtendedData (cfg : Config) (parent : Parent) : SshM Unit := do
  let n ← extractInt 4
  let r ← query (getChannel n parent)
  let _ ← extractInt 4
  sessionData cfg parent r.1 r.2

/-- `MSG_GLOBAL_REQUEST`. -/
def globalRequest (cfg : Config) (parent : Parent) : SshM Unit := do
  let type ← extractString
  when (type = encode "tcpip-forward" ∧ !cfg.forwarding) do
    setSendOn false
    sendBack cfg parent 82 []

/-! ## `parse_num_packet` -/

/-- The branch of a message number. -/
def dispatch (cfg : Config) (parent : Parent) : Nat → SshM Unit
  | 5 => serviceRequest
  | 53 => setSendOn false
  | 7 => extInfo
  | 50 => userauthRequest
  | 51 => userauthFailure
  | 52 => setSendOn false
  | 60 => infoRequest
  | 61 => infoResponse
  | 90 => channelOpen cfg parent
  | 91 => openConfirmation parent
  | 92 => openFailure parent
  | 98 => channelRequest cfg parent
  | 97 => channelClose parent
  | 94 => channelData cfg parent
  | 95 => channelExtendedData cfg parent
  | 80 => globalRequest cfg parent
  | _ => pure ()

/-- The last lines: the packet goes on to the other end. -/
def forward (parent : Parent) (messageNum : Nat) (payload : Bytes) : SshM Unit := do
  when ((← get).sendOn) (sendPacket parent.other messageNum payload)

def parseNumPacket (cfg : Config) (parent : Parent) (messageNum : Nat) (payload : Bytes) :
    SshM Unit := do
  modify fun s => { s with packet := ⟨payload.length, payload⟩, sendOn := true }
  when cfg.logRaw (packetName cfg messageNum)
  dispatch cfg parent messageNum
  forward parent messageNum payload

end SSH

end Cowrie.SshProxy
