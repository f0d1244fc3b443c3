import Cowrie.Struct
import Cowrie.Pool.NatService

/-!
# The pool server (`src/backend_pool/pool_server.py`)

`dataReceived` of `PoolServer` on the bytes of one message, over a `PoolService` and the `NATService`
it shares with it.

* `Server.nat` is the NAT service: `PoolService.natBindings` are its bindings, `listening` its ports.
* An exception that leaves `dataReceived` is a `ServerError`, next to the state it leaves behind.
* `ServerConfig.natPublicIp` is `none` when `use_nat` is off: the attribute is not set then.
* `ServerEnv.ports` are the numbers the reactor has for new ports.

Left out: log messages, and the flag `initialised` of the factory, which nothing reads.
-/

namespace Cowrie.Pool

open PoolService

/-- What leaves `dataReceived`. -/
inductive ServerError
  | structError
  | indexError
  | unicodeDecodeError
  | keyError
  | attributeError
  | pool (e : PyError)
  deriving DecidableEq, Repr

/-- The values the server itself reads from the configuration file. -/
structure ServerConfig where
  natPublicIp : Option String
  guestSshPort : Int
  guestTelnetPort : Int
  deriving DecidableEq

/-- The outside world during one message. -/
structure ServerEnv where
  stop : StopEnv
  ports : Nat × Nat
  now : ℚ

structure Server where
  pool : PoolService
  listening : List Listener
  deriving DecidableEq

/-- Guests are reached through the NAT (`pool_server.py:110`, `pool_service.py:175`). -/
def Settings.natUsed (s : Settings) : Bool := (!s.localPool && s.useNat) || s.poolOnly

namespace Server

/-- The NAT service. -/
def nat (s : Server) : NATService := ⟨s.pool.natBindings, s.listening⟩

def setNat (s : Server) (nat : NATService) : Server :=
  { pool := { s.pool with natBindings := nat.bindings }, listening := nat.listening }

/-! ## Messages -/

/-- An operation that answers with a status code. -/
def status (op : UInt8) (code : Nat) : Bytes := op :: intToBytes 4 code

/-- `!II?`. -/
def unpackInit (b : Bytes) : Option (Nat × Nat × Bool) :=
  if b.length = 9 then
    some (intFromBytes (b.take 4), intFromBytes ((b.drop 4).take 4), b.drop 8 ≠ [0])
  else none

/-- The attacker's address in a request (`pool_server.py:80-84`). -/
def unpackRequest (b : Bytes) : Except ServerError Ip :=
  match unpackUInt 2 (b.take 2) with
  | none => .error .structError
  | some ipLen =>
    match unpackString ipLen (b.drop 2) with
    | none => .error .structError
    | some ip =>
      match decode ip with
      | some ip => .ok ip
      | none => .error .unicodeDecodeError

/-- `!cIIH<len(ip)>sHHH<len(snapshot)>s`: the lengths count characters. -/
def packGranted (guestId : Nat) (ip : String) (sshPort telnetPort : Int) (snapshot : String) :
    Except ServerError Bytes :=
  let packed := do
    let id ← packUInt 4 guestId
    let ipLen ← packUInt 2 ip.length
    let ssh ← packUInt 2 sshPort
    let telnet ← packUInt 2 telnetPort
    let snapshotLen ← packUInt 2 snapshot.length
    return status 114 0 ++ id ++ ipLen ++ packString ip.length (encode ip) ++ ssh ++ telnet ++
      snapshotLen ++ packString snapshot.length (encode snapshot)
  match packed with
  | some b => .ok b
  | none => .error .structError

/-! ## Operations -/

/-- `i`: the configuration of the pool. -/
def receiveInit (b : Bytes) (s : Server) : Server × Except ServerError Bytes :=
  match unpackInit b with
  | none => (s, .error .structError)
  | some (maxVm, vmUnusedTimeout, shareGuests) =>
    ({ s with pool := s.pool.setConfigs maxVm vmUnusedTimeout shareGuests }, .ok (status 105 0))

/-- `request_vm` stops the pool and gets as far as `free_all`. -/
def freesAll (env : StopEnv) (ip : Ip) (s : PoolService) : Bool :=
  (s.chooseGuest ip).isNone && s.anyVmUp && s.cancelLoop.isOk && env.destroyAll.isOk &&
    s.settings.natUsed

/-- `request_vm`, with what it does to the listening ports. -/
def requestVm (env : StopEnv) (ip : Ip) (s : Server) :
    Server × Except PyError (Nat × Ip × String) :=
  let r := s.pool.requestVm env ip
  ({ pool := r.1
     listening := if freesAll env ip s.pool then s.nat.freeAll.listening else s.listening }, r.2)

/-- The answer to a request that was granted. -/
def answer (config : ServerConfig) (env : ServerEnv) (guest : Nat × Ip × String) (s : Server) :
    Server × Except ServerError Bytes :=
  let (guestId, guestIp, snapshot) := guest
  if s.pool.settings.natUsed then
    let r := s.nat.requestBinding guestId env.ports
    (s.setNat r.1,
      match config.natPublicIp with
      | none => .error .attributeError
      | some publicIp => packGranted guestId publicIp r.2.1 r.2.2 snapshot)
  else
    (s, packGranted guestId guestIp config.guestSshPort config.guestTelnetPort snapshot)

/-- `r`: a guest for an attacker. -/
def receiveRequest (config : ServerConfig) (env : ServerEnv) (b : Bytes) (s : Server) :
    Server × Except ServerError Bytes :=
  match unpackRequest b with
  | .error e => (s, .error e)
  | .ok ip =>
    match requestVm env.stop ip s with
    | (s, .ok guest) => answer config env guest s
    | (s, .error .noAvailableVMs) => (s, .ok (status 114 1))
    | (s, .error e) => (s, .error (.pool e))

/-- `f` and `u`: the NAT binding is freed first, then `release` acts on the pool. -/
def receiveRelease (release : Nat → PoolService → PoolService) (b : Bytes) (s : Server) :
    Server × Except ServerError Bytes :=
  match unpackUInt 4 b with
  | none => (s, .error .structError)
  | some guestId =>
    if s.pool.settings.natUsed then
      match s.nat.freeBinding guestId with
      | none => (s, .error .keyError)
      | some nat =>
        let s := s.setNat nat
        ({ s with pool := release guestId s.pool }, .ok [])
    else ({ s with pool := release guestId s.pool }, .ok [])

/-- `dataReceived`, with the bytes it writes to the transport. -/
def dataReceived (config : ServerConfig) (env : ServerEnv) (data : Bytes) (s : Server) :
    Server × Except ServerError Bytes :=
  match data with
  | [] => (s, .error .indexError)
  | op :: b =>
    if op = 105 then receiveInit b s
    else if op = 114 then receiveRequest config env b s
    else if op = 102 then receiveRelease (freeVm env.now) b s
    else if op = 117 then receiveRelease reuseVm b s
    else (s, .ok [])

/-- The address a message asks a guest for. -/
def requested (data : Bytes) : Option Ip :=
  match data with
  | [] => none
  | op :: b =>
    if op = 114 then
      match unpackRequest b with
      | .ok ip => some ip
      | .error _ => none
    else none

/-- The message that gives a guest back. -/
def releaseMessage (guestId : Nat) (reuse : Bool) : Bytes :=
  (if reuse then 117 else 102) :: intToBytes 4 guestId

end Server

/-! ## Runs of the server -/

/-- A granted and not yet released request, and the generation of bindings it was granted in. -/
structure Granted where
  lease : Lease
  generation : Nat
  deriving DecidableEq

/-- The server together with its outstanding requests. -/
structure ServerSys where
  server : Server
  granted : List Granted
  generation : Nat

/-- What happens to the server: a message other than a release, a release, an iteration of the
producer, or the closing of a port from outside. -/
inductive ServerEvent
  | message (data : Bytes) (env : ServerEnv)
  | release (request : Granted) (reuse : Bool) (env : ServerEnv)
  | producer (env : ProducerEnv)
  | close (guestId : Nat) (ssh : Bool)

/-- What an event does to the NAT service, when it is used. -/
def ServerSys.natEvent (s : ServerSys) : ServerEvent → Option NatEvent
  | .message data env =>
    match Server.requested data with
    | none => none
    | some ip =>
      match s.server.pool.chooseGuest ip with
      | some g => some (.request g.id env.ports)
      | none => if Server.freesAll env.stop ip s.server.pool then some .freeAll else none
  | .release r _ _ => some (.free ⟨r.lease.id, r.generation⟩)
  | .producer _ => none
  | .close guestId ssh => some (.close guestId ssh)

/-- The requests an event grants. -/
def ServerSys.grants (s : ServerSys) (data : Bytes) : List Granted :=
  match Server.requested data with
  | none => []
  | some ip =>
    match s.server.pool.chooseGuest ip with
    | some g => [⟨⟨ip, g.ref, g.id⟩, s.generation⟩]
    | none => []

/-- The step an event takes; a release needs an outstanding request. -/
def serverStep (config : ServerConfig) (s : ServerSys) (e : ServerEvent) : Option ServerSys :=
  match e with
  | .message data env =>
    if data.head? = some 102 ∨ data.head? = some 117 then none
    else
      some {
        server := (s.server.dataReceived config env data).1
        granted := s.granted ++ s.grants data
        generation := s.generation + if s.natEvent e = some .freeAll then 1 else 0 }
  | .release r reuse env =>
    if r ∈ s.granted then
      some { s with
        server := (s.server.dataReceived config env (Server.releaseMessage r.lease.id reuse)).1
        granted := s.granted.erase r }
    else none
  | .producer env =>
    some { s with server := { s.server with pool := (s.server.pool.producerLoop env).1 } }
  | .close guestId ssh =>
    some { s with server := s.server.setNat (s.server.nat.closePort guestId ssh) }

/-- An empty pool that nobody has asked for anything. -/
def ServerSys.start (settings : Settings) : ServerSys := ⟨⟨PoolService.start settings, []⟩, [], 0⟩

/-! ## A small world, for runs on concrete inputs -/

/-- A remote pool with one guest, which is not shared. -/
def remote : Settings := { oneGuest false with poolOnly := true }

def remoteConfig : ServerConfig := ⟨some "198.51.100.1", 22, 23⟩

def remoteEnv : ServerEnv := ⟨cleanStop, (50022, 50023), 0⟩

/-- The message that asks for a guest. -/
def requestMessage (ip : Ip) : Bytes := 114 :: intToBytes 2 ip.length ++ encode ip

/-- `203.0.113.1` is given the only guest. -/
def heldRun : List ServerEvent :=
  [.producer (iteration true), .message (requestMessage "203.0.113.1") remoteEnv]

end Cowrie.Pool
