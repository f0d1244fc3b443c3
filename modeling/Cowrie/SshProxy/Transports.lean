import Cowrie.Lib.Run
import Cowrie.SshProxy.Ssh

/-!
# The two transports of the SSH proxy (`src/cowrie/ssh_proxy/{server,client}_transport.py`)

An attacker's connection is a `FrontendSSHTransport`; it owns the parser and opens a connection to the
backend, a `BackendSSHTransport`. Each side holds encrypted packets in `delayedPackets` while the
other is not ready: the frontend until `backendConnected`, the backend while `frontendAuthenticated`
is not set.

* `Proxy` is both objects and the parser. `client` is `None` until the backend's `connectionMade`.
* One event is one call from outside: a decrypted packet for `dispatchMessage`, `_cbFinishedAuth` of
  `userauth.py`, `connectionMade`, `connectionSecure` or `connectionLost`. An exception ends the call
  and keeps the state written so far, as Twisted does (in the callback of a `Deferred` the connection
  survives it; in `dataReceived` it does not, so that fewer events follow than are allowed here).
* Whether both directions are encrypted is part of a packet's event; messages 50 to 79 and 5 and all
  unencrypted ones go to Twisted's own services, which are not modelled but for the success they
  report.
* `calls` records the calls of `parse_num_packet`, `arrived` those of the two `packet_buffer`, and
  `succeeded` that `_cbFinishedAuth` has set its flag.

Left out: the credentials an attacker tried, which are stored and not read, the connection to the
pool, and the log, except for the exit codes.
-/

namespace Cowrie.SshProxy

open Cowrie.Lib

/-- The object of the connection to the backend. -/
structure Backend where
  canAuth : Bool := false
  authDone : Bool := false
  delayedPackets : List (Nat × Bytes) := []
  exitCodes : List Nat := []
  deriving DecidableEq

structure Proxy where
  sshParse : SSH := {}
  backendConnected : Bool := false
  frontendAuthenticated : Bool := false
  delayedPackets : List (Nat × Bytes) := []
  client : Option Backend := none
  calls : List (Parent × Nat × Bytes) := []
  arrived : List (Parent × Nat × Bytes) := []
  succeeded : Bool := false

abbrev ProxyM (α : Type) := Prog Raised Proxy α

namespace Proxy

variable (cfg : Config)

/-- Run a method of the parser. -/
def parser {α : Type} (m : SshM α) : ProxyM α :=
  zoom (fun s : Proxy => s.sshParse) (fun s u => { s with sshParse := u }) m

/-- `sshParse.parse_num_packet(parent, message_num, payload)`. -/
def parseNumPacket (parent : Parent) (packet : Nat × Bytes) : ProxyM Unit := do
  modify fun s => { s with calls := s.calls ++ [(parent, packet)] }
  parser (SSH.parseNumPacket cfg parent packet.1 packet.2)

/-- `for packet in delayedPackets`. -/
def parseAll (parent : Parent) : List (Nat × Bytes) → ProxyM Unit
  | [] => pure ()
  | packet :: packets => do
    parseNumPacket cfg parent packet
    parseAll parent packets

/-- Change the object of the backend. -/
def modifyClient (f : Backend → Backend) : ProxyM Unit :=
  modify fun s => { s with client := s.client.map f }

/-- The payload of the request for user authentication. -/
def userauthPayload : Bytes :=
  SSH.binStringToHex (encode cfg.backendUser) ++ SSH.binStringToHex (encode "ssh-connection") ++
    SSH.binStringToHex (encode "password") ++ [0] ++ SSH.binStringToHex (encode cfg.backendPass)

/-- `authenticateBackend`, from the point where both ends are ready. -/
def connectBackend : ProxyM Unit := do
  parser (SSH.sendPacket .client 5 (SSH.binStringToHex (encode "ssh-userauth")))
  parser (SSH.sendPacket .client 50 (userauthPayload cfg))
  modify fun s => { s with backendConnected := true }
  parseAll cfg .server (← get).delayedPackets
  modify fun s => { s with delayedPackets := [] }
  modifyClient fun b => { b with authDone := true }

/-- `authenticateBackend`, a method of the backend's object. -/
def authenticateBackend : ProxyM Unit := do
  let s ← get
  when (s.frontendAuthenticated ∧ (s.client.map Backend.canAuth) = some true) (connectBackend cfg)

/-- `ProxySSHAuthServer._cbFinishedAuth` (`userauth.py:25-37`). -/
def cbFinishedAuth : ProxyM Unit := do
  parser (SSH.sendPacket .server 52 [])
  modify fun s => { s with frontendAuthenticated := true, succeeded := true }
  when ((← get).client.isSome) (authenticateBackend cfg)

/-- `FrontendSSHTransport.packet_buffer`. -/
def frontendBuffer (packet : Nat × Bytes) : ProxyM Unit := do
  modify fun s => { s with arrived := s.arrived ++ [(.server, packet)] }
  let s ← get
  if s.backendConnected = false ∨ s.delayedPackets ≠ [] then
    modify fun s => { s with delayedPackets := s.delayedPackets ++ [packet] }
  else parseNumPacket cfg .server packet

/-- `FrontendSSHTransport.dispatchMessage`. -/
def frontendDispatch (encrypted : Bool) (packet : Nat × Bytes) : ProxyM Unit :=
  if packet.1 = 5 then pure ()
  else if 50 ≤ packet.1 ∧ packet.1 ≤ 79 then
    modify fun s => { s with frontendAuthenticated := false }
  else when encrypted (frontendBuffer cfg packet)

/-- `BackendSSHTransport.connectionMade`. -/
def backendMade : ProxyM Unit :=
  modify fun s => { s with client := some {}, sshParse := { s.sshParse with clientUp := true } }

/-- `connectionSecure`. -/
def connectionSecure : ProxyM Unit := do
  modifyClient fun b => { b with canAuth := true }
  authenticateBackend cfg

/-- The packets that the backend's object holds. -/
def held (s : Proxy) : List (Nat × Bytes) := s.client.elim [] Backend.delayedPackets

/-- `BackendSSHTransport.packet_buffer`. -/
def backendBuffer (packet : Nat × Bytes) : ProxyM Unit := do
  modify fun s => { s with arrived := s.arrived ++ [(.client, packet)] }
  let s ← get
  if s.frontendAuthenticated = false then
    modifyClient fun b => { b with delayedPackets := b.delayedPackets ++ [packet] }
  else if s.held ≠ [] then
    modifyClient fun b => { b with delayedPackets := b.delayedPackets ++ [packet] }
    parseAll cfg .client (← get).held
    modifyClient fun b => { b with delayedPackets := [] }
  else parseNumPacket cfg .client packet

/-- The exit code in a channel request, if it is `exit-status`. -/
def exitStatus (payload : Bytes) : Option Nat :=
  let length := intFromBytes ((payload.drop 4).take 4)
  if ((payload.drop 4).drop 4).take length = encode "exit-status" then
    some (intFromBytes ((payload.drop (4 + (length + 4) + 1)).take 4))
  else none

/-- `BackendSSHTransport.dispatchMessage`. -/
def backendDispatch (encrypted : Bool) (packet : Nat × Bytes) : ProxyM Unit :=
  if packet.1 = 6 ∨ packet.1 = 52 then pure ()
  else do
    when (packet.1 = 98)
      (modifyClient fun b => { b with exitCodes := b.exitCodes ++ (exitStatus packet.2).toList })
    when encrypted (backendBuffer cfg packet)

/-! ## Events -/

inductive Event
  | frontendMessage (encrypted : Bool) (packet : Nat × Bytes)
  | finishedAuth
  | backendMade
  | backendSecure
  | backendMessage (encrypted : Bool) (packet : Nat × Bytes)
  | frontendLost
  | backendLost
  deriving DecidableEq

/-- What an event runs. -/
def handler : Event → ProxyM Unit
  | .frontendMessage encrypted packet => frontendDispatch cfg encrypted packet
  | .finishedAuth => cbFinishedAuth cfg
  | .backendMade => backendMade
  | .backendSecure => connectionSecure cfg
  | .backendMessage encrypted packet => backendDispatch cfg encrypted packet
  | .frontendLost => modify fun s => { s with sshParse := { s.sshParse with serverUp := false } }
  | .backendLost => modify fun s => { s with sshParse := { s.sshParse with clientUp := false } }

/-- The backend is connected once, and only then can anything come from it. -/
def possible (s : Proxy) : Event → Bool
  | .backendMade => s.client.isNone
  | .backendSecure | .backendMessage _ _ | .backendLost => s.client.isSome
  | _ => true

def step (s : Proxy) (e : Event) : Option Proxy :=
  if possible s e then some (exec (handler cfg e) s).2 else none

end Proxy

end Cowrie.SshProxy
