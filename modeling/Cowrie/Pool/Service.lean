import Mathlib.Data.List.MinMax
import Mathlib.Algebra.Order.Ring.Rat

/-!
# The backend pool (`src/backend_pool/pool_service.py`)

`PoolService` with its producer and consumer methods, as functions on an explicit state.

* A `Guest` is the dataclass of `pool_service.py:43-57`. `ref` is the Python object itself: a
  method that keeps a guest in a local variable (`request_vm`) writes to the object, not to a list
  position. The libvirt domain of a guest is a fresh Python object, so dataclass equality
  (`self.guests.remove(guest)`) is equality of the objects, which is structural equality here.
* `GuestState.inUse` is `POOL_STATE_USING`; `GuestState.unset` is the `None` of `prev_state`.
* Clock values are rationals. Every answer from outside (clock, `nmap`, libvirt) is an argument:
  `ProducerEnv` for one iteration of the producer, `StopEnv` for `stop_pool`.
* A method that raises returns the exception next to the state it leaves behind.
* `LibvirtBackendService.destroy_guest` (`backend_service.py:142-170`) swallows every exception of
  `domain.destroy()`, so the `except` of `__producer_destroy_timed_out` is never entered.

Left out: log messages, the real `libvirt` start-up, and the fields `name` and
`loop_sleep_time`, which nothing reads.
-/

namespace Cowrie.Pool

abbrev Ip := String

/-- The identity of a Python object. -/
abbrev Ref := Nat

/-- A libvirt domain handle. -/
abbrev Domain := Nat

/-- `POOL_STATE_*` (`pool_service.py:35-40`), and `None` for an empty `prev_state`. -/
inductive GuestState
  | created
  | available
  | inUse
  | used
  | unavailable
  | destroyed
  | unset
  deriving DecidableEq, Repr

structure Guest where
  ref : Ref
  id : Nat
  clientIps : List Ip
  connected : Int
  state : GuestState
  prevState : GuestState
  startTimestamp : ℚ
  freedTimestamp : ℚ
  domain : Domain
  guestIp : Ip
  snapshot : String
  deriving DecidableEq

/-- The Twisted call object in `loop_next_call`. -/
inductive DelayedCall
  | pending
  | called
  | cancelled
  deriving DecidableEq, Repr

inductive PyError
  | noAvailableVMs
  | libvirtError
  | qemuGuestError
  | typeError
  | alreadyCalled
  | alreadyCancelled
  deriving DecidableEq, Repr

/-- `LibvirtBackendService`: whether it is ready, and the domains created and not destroyed. -/
structure Qemu where
  ready : Bool
  domains : List Domain
  deriving DecidableEq

/-- One entry of `NATService.bindings`: the client count and the ports of the two listeners
(`_realPortNumber`, `None` once a listener is closed). -/
structure Binding where
  connected : Int
  sshPort : Option Nat
  telnetPort : Option Nat
  deriving DecidableEq, Repr

/-- The values read from the configuration file and from `set_configs`. -/
structure Settings where
  sshPort : Int
  telnetPort : Int
  localPool : Bool
  poolOnly : Bool
  useNat : Bool
  maxVm : Nat
  vmUnusedTimeout : Nat
  shareGuests : Bool
  deriving DecidableEq

structure PoolService where
  settings : Settings
  guests : List Guest
  guestId : Nat
  /-- The next object to be allocated. -/
  nextRef : Ref
  anyVmUp : Bool
  loopNextCall : Option DelayedCall
  qemu : Qemu
  natBindings : List (Nat × Binding)
  deriving DecidableEq

/-- `__init__` and `start_pool` (`pool_service.py:88-154`): an empty pool over a ready backend. -/
def PoolService.start (settings : Settings) : PoolService where
  settings := settings
  guests := []
  guestId := 0
  nextRef := 0
  anyVmUp := false
  loopNextCall := none
  qemu := ⟨true, []⟩
  natBindings := []

/-- The outside world during one `create_guest`: the draws of `random.choice`, and what
`guest_handler.create_guest` does. -/
structure CreateEnv where
  choices : List Ip
  result : Except PyError (Option Domain × String)
  now : ℚ

/-- The outside world during one iteration of the producer. Clock and `nmap` answers are given
for every guest looked at; `nmap` answers for a port. -/
structure ProducerEnv where
  now : Ref → ℚ
  destroyOk : Ref → Bool
  healthNmap : Ref → Int → Bool
  creates : Nat → CreateEnv
  bootNmap : Ref → Int → Bool

/-- The outside world during `stop_pool`: which domains `destroy_guest` destroys, and whether
the two `destroy_all_cowrie` calls raise `libvirtError` (then the listed domains remain). -/
structure StopEnv where
  destroyOk : Ref → Bool
  destroyAll : Except (List Domain) Unit
  stopBackend : Except (List Domain) Unit

/-! ## What the consumers write to a guest -/

/-- What `request_vm` writes to the chosen guest (`pool_service.py:449-452`). -/
def Guest.granted (srcIp : Ip) (g : Guest) : Guest :=
  { g with
    prevState := g.state
    state := .inUse
    connected := g.connected + 1
    clientIps := g.clientIps ++ [srcIp] }

/-- What `free_vm` writes to the guest it finds. -/
def Guest.freed (now : ℚ) (g : Guest) : Guest :=
  let connected := g.connected - 1
  { g with
    freedTimestamp := now
    connected := connected
    state := if connected = 0 then .used else g.state }

/-- What `reuse_vm` writes to the guest it finds: the last client to leave reverts the state. -/
def Guest.reused (g : Guest) : Guest :=
  let connected := g.connected - 1
  if connected = 0 then
    { g with connected := connected, state := g.prevState, prevState := .unset }
  else { g with connected := connected }

namespace PoolService

/-! ## Reading the list of guests -/

/-- `get_guest_states`. -/
def getGuestStates (s : PoolService) (states : List GuestState) : List Guest :=
  s.guests.filter fun g => g.state ∈ states

/-- `existing_pool_size`. -/
def existingPoolSize (s : PoolService) : Nat :=
  (s.guests.filter fun g => g.state ≠ .destroyed).length

/-- `is_ip_free`. -/
def isIpFree (s : PoolService) (ip : Ip) : Bool :=
  s.guests.all fun g => g.guestIp ≠ ip

/-- `has_connectivity`, with `nmap` giving `nmap_port(ip, port)`. -/
def hasConnectivity (s : PoolService) (nmap : Int → Bool) : Bool :=
  let hasSsh := if 0 < s.settings.sshPort then nmap s.settings.sshPort else false
  let hasTelnet :=
    if 0 < s.settings.telnetPort ∧ hasSsh = false then nmap s.settings.telnetPort else true
  hasSsh || hasTelnet

/-- The loop `for guest in get_guest_states(states): ...`: the body runs on the guests in one of
`states`, the others are left alone. -/
def forStates (s : PoolService) (states : List GuestState) (body : Guest → Guest) : PoolService :=
  { s with guests := s.guests.map fun g => if g.state ∈ states then body g else g }

/-! ## Producer -/

/-- `__producer_mark_timed_out`. -/
def markTimedOut (env : ProducerEnv) (guestTimeout : Nat) (s : PoolService) : PoolService :=
  s.forStates [.used] fun g =>
    if g.freedTimestamp + guestTimeout < env.now g.ref then { g with state := .unavailable } else g

/-- `__producer_check_health`. -/
def checkHealth (env : ProducerEnv) (s : PoolService) : PoolService :=
  s.forStates [.available, .inUse, .used] fun g =>
    if s.hasConnectivity (env.healthNmap g.ref) then g else { g with state := .unavailable }

/-- `LibvirtBackendService.destroy_guest`: nothing when not ready; a failing `domain.destroy()`
is logged and swallowed. -/
def destroyGuest (q : Qemu) (domain : Domain) (ok : Bool) : Qemu :=
  if q.ready && ok then { q with domains := q.domains.erase domain } else q

/-- `__producer_destroy_timed_out`. -/
def destroyTimedOut (env : ProducerEnv) (s : PoolService) : PoolService :=
  let q := (s.getGuestStates [.unavailable]).foldl
    (fun q g => destroyGuest q g.domain (env.destroyOk g.ref)) s.qemu
  { s.forStates [.unavailable] (fun g => { g with state := .destroyed }) with qemu := q }

/-- `__producer_remove_destroyed`: `self.guests.remove(guest)` for every destroyed guest. -/
def removeDestroyed (s : PoolService) : PoolService :=
  { s with guests := (s.getGuestStates [.destroyed]).foldl List.erase s.guests }

/-- `get_mac_ip`: the first free address among 500 draws. -/
def getMacIp (ipTester : Ip → Bool) (choices : List Ip) : Except PyError Ip :=
  match (choices.take 500).find? ipTester with
  | some ip => .ok ip
  | none => .error .libvirtError

/-- `LibvirtBackendService.create_guest`; `none` is the Python `None`. -/
def createGuest (ready : Bool) (ipTester : Ip → Bool) (env : CreateEnv) :
    Except PyError (Option (Domain × String × Ip)) := do
  if ready then
    let ip ← getMacIp ipTester env.choices
    let (dom, snapshot) ← env.result
    return dom.map fun d => (d, snapshot, ip)
  else
    return none

/-- One round of the loop of `__producer_create_guests`. Unpacking `None` is a `TypeError`. -/
def createOne (env : CreateEnv) (s : PoolService) : Except PyError PoolService :=
  match createGuest s.qemu.ready s.isIpFree env with
  | .error e => .error e
  | .ok none => .error .typeError
  | .ok (some (dom, snap, ip)) =>
    .ok { s with
      qemu := { s.qemu with domains := s.qemu.domains ++ [dom] }
      guests := s.guests ++ [{
        ref := s.nextRef
        id := s.guestId
        state := .created
        prevState := .unset
        startTimestamp := env.now
        guestIp := ip
        connected := 0
        clientIps := []
        freedTimestamp := -1
        domain := dom
        snapshot := snap }]
      nextRef := s.nextRef + 1
      guestId := if s.guestId + 1 = 252 then 0 else s.guestId + 1 }

/-- `n` rounds of the loop, the first with `env i`; a round that raises ends it. -/
def createLoop (env : Nat → CreateEnv) : Nat → Nat → PoolService → PoolService × Option PyError
  | _, 0, s => (s, none)
  | i, n + 1, s =>
    match createOne (env i) s with
    | .error e => (s, some e)
    | .ok t => createLoop env (i + 1) n t

/-- `__producer_create_guests`. -/
def createGuests (env : ProducerEnv) (s : PoolService) : PoolService × Option PyError :=
  createLoop env.creates 0 (s.settings.maxVm - s.existingPoolSize) s

/-- `__producer_mark_available`. -/
def markAvailable (env : ProducerEnv) (s : PoolService) : PoolService :=
  let up := (s.getGuestStates [.created]).any fun g => s.hasConnectivity (env.bootNmap g.ref)
  { s.forStates [.created] (fun g =>
      if s.hasConnectivity (env.bootNmap g.ref) then { g with state := .available } else g) with
    anyVmUp := s.anyVmUp || up }

/-- The first half of `producer_loop`, up to `__producer_remove_destroyed`. The delayed call that
started the iteration is spent. -/
def producerReap (env : ProducerEnv) (s : PoolService) : PoolService :=
  let s := { s with loopNextCall := s.loopNextCall.map fun _ => .called }
  let s :=
    if 1 < s.existingPoolSize then
      destroyTimedOut env (markTimedOut env s.settings.vmUnusedTimeout s)
    else s
  removeDestroyed (checkHealth env s)

/-- `producer_loop`. -/
def producerLoop (env : ProducerEnv) (s : PoolService) : PoolService × Option PyError :=
  match createGuests env (producerReap env s) with
  | (t, some e) => (t, some e)
  | (t, none) => ({ markAvailable env t with loopNextCall := some .pending }, none)

/-! ## Consumers -/

/-- `__consumers_get_guest_ip`. -/
def getGuestIp (s : PoolService) (srcIp : Ip) : Option Guest :=
  (s.getGuestStates [.used, .inUse]).find? fun g => srcIp ∈ g.clientIps

/-- `__consumers_get_available_guest`. -/
def getAvailableGuest (s : PoolService) : Option Guest :=
  (s.getGuestStates [.available]).head?

/-- `__consumers_get_any_guest`. -/
def getAnyGuest (s : PoolService) : Option Guest :=
  -- the instance search finds an order that is not computable if all of Mathlib is imported
  @List.argmin Guest Int instLatticeInt.toSemilatticeInf.toPreorder Int.decLt Guest.connected
    (s.getGuestStates [.inUse, .used])

/-- The guest `request_vm` settles on (`pool_service.py:430-440`). -/
def chooseGuest (s : PoolService) (srcIp : Ip) : Option Guest :=
  match s.getGuestIp srcIp with
  | some g => some g
  | none =>
    match s.getAvailableGuest with
    | some g => some g
    | none => if s.settings.shareGuests then s.getAnyGuest else none

/-- The writes of `request_vm`, to the object `ref` wherever it is in the list. -/
def commitRequest (s : PoolService) (ref : Ref) (srcIp : Ip) : PoolService :=
  { s with guests := s.guests.map fun g => if g.ref = ref then g.granted srcIp else g }

/-- `loop_next_call.cancel()`. -/
def cancelLoop (s : PoolService) : Except PyError PoolService :=
  match s.loopNextCall with
  | none => .ok s
  | some .pending => .ok { s with loopNextCall := some .cancelled }
  | some .called => .error .alreadyCalled
  | some .cancelled => .error .alreadyCancelled

/-- `destroy_all_cowrie`: all domains are gone, or it raised and `left` remain. -/
def destroyAllCowrie (s : PoolService) (r : Except (List Domain) Unit) :
    PoolService × Option PyError :=
  match r with
  | .ok _ => ({ s with qemu := { s.qemu with domains := [] } }, none)
  | .error left => ({ s with qemu := { s.qemu with domains := left } }, some .libvirtError)

/-- `NATService.free_all`. -/
def freeAllBindings (s : PoolService) : PoolService :=
  if (!s.settings.localPool && s.settings.useNat) || s.settings.poolOnly then
    { s with natBindings := [] }
  else s

/-- `stop_pool`. The last call is in a `try` that catches `libvirtError`. -/
def stopPool (env : StopEnv) (s : PoolService) : PoolService × Option PyError :=
  match cancelLoop s with
  | .error e => (s, some e)
  | .ok s =>
    let q := s.guests.foldl (fun q g => destroyGuest q g.domain (env.destroyOk g.ref)) s.qemu
    match destroyAllCowrie { s with qemu := q } env.destroyAll with
    | (s, some e) => (s, some e)
    | (s, none) =>
      let s := freeAllBindings s
      let s := { s with qemu := { s.qemu with ready := false } }
      ((destroyAllCowrie s env.stopBackend).1, none)

/-- `request_vm`: the id, address and snapshot of the guest, or an exception. -/
def requestVm (env : StopEnv) (srcIp : Ip) (s : PoolService) :
    PoolService × Except PyError (Nat × Ip × String) :=
  match s.chooseGuest srcIp with
  | some g => (s.commitRequest g.ref srcIp, .ok (g.id, g.guestIp, g.snapshot))
  | none =>
    if s.anyVmUp then
      match stopPool env s with
      | (s, some e) => (s, .error e)
      | (s, none) => (s, .error .noAvailableVMs)
    else (s, .error .noAvailableVMs)

/-- The body of a consumer loop that stops at the first guest with the id it is given. -/
def updateById (id : Nat) (f : Guest → Guest) : List Guest → List Guest
  | [] => []
  | g :: gs => if g.id = id then f g :: gs else g :: updateById id f gs

/-- `free_vm`. -/
def freeVm (now : ℚ) (guestId : Nat) (s : PoolService) : PoolService :=
  { s with guests := updateById guestId (Guest.freed now) s.guests }

/-- `reuse_vm`. -/
def reuseVm (guestId : Nat) (s : PoolService) : PoolService :=
  { s with guests := updateById guestId Guest.reused s.guests }

/-- `set_configs`. -/
def setConfigs (maxVm vmUnusedTimeout : Nat) (shareGuests : Bool) (s : PoolService) :
    PoolService :=
  { s with settings := { s.settings with
      maxVm := maxVm, vmUnusedTimeout := vmUnusedTimeout, shareGuests := shareGuests } }

end PoolService

/-! ## Runs of the pool -/

/-- A granted and not yet released request: the client, the guest object it was given, and the
id it will release. -/
structure Lease where
  ip : Ip
  guest : Ref
  id : Nat
  deriving DecidableEq

/-- The pool together with its outstanding requests. -/
structure Sys where
  pool : PoolService
  leases : List Lease

/-- An atomic step of the pool. -/
inductive Event
  | request (ip : Ip) (env : StopEnv)
  | free (lease : Lease) (now : ℚ)
  | reuse (lease : Lease)
  | producer (env : ProducerEnv)

/-- The step an event takes; a release needs an outstanding request. -/
def step (s : Sys) : Event → Option Sys
  | .request ip env =>
    some {
      pool := (s.pool.requestVm env ip).1
      leases := match s.pool.chooseGuest ip with
        | some g => s.leases ++ [⟨ip, g.ref, g.id⟩]
        | none => s.leases }
  | .free l now =>
    if l ∈ s.leases then
      some { pool := s.pool.freeVm now l.id, leases := s.leases.erase l }
    else none
  | .reuse l =>
    if l ∈ s.leases then
      some { pool := s.pool.reuseVm l.id, leases := s.leases.erase l }
    else none
  | .producer env => some { s with pool := (s.pool.producerLoop env).1 }

/-- An empty pool with no outstanding requests. -/
def Sys.start (settings : Settings) : Sys := ⟨PoolService.start settings, []⟩

/-! ## A small world, for runs on concrete inputs -/

/-- A pool of at most one guest, with SSH and telnet enabled. -/
def oneGuest (shareGuests : Bool) : Settings := ⟨22, 23, true, false, true, 1, 600, shareGuests⟩

/-- An iteration of the producer with room for one guest, whose ports answer the health check
iff `up`. -/
def iteration (up : Bool) : ProducerEnv where
  now _ := 0
  destroyOk _ := true
  healthNmap _ _ := up
  creates n := ⟨["192.168.150.2"], .ok (some n, "snapshot-0.qcow2"), 0⟩
  bootNmap _ _ := true

/-- `stop_pool` with a libvirt that does as it is told. -/
def cleanStop : StopEnv := ⟨fun _ => true, .ok (), .ok ()⟩

end Cowrie.Pool
