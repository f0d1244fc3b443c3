import Cowrie.Lib.Simulation
import Cowrie.Pool.Client
import Cowrie.Pool.ServerInvariant

/-!
# The frontends and the pool (`ssh_proxy/server_transport.py:101-149`, `390-430`,
`telnet_proxy/server_transport.py:60-123`, `186-234`, `pool_interface/handler.py`)

Every connection of an attacker opens a connection of its own to the pool, asks for a guest, and gives the guest
back when it is lost. Both frontends do this in the same words, but for the name of the flag that says whether the
guest was used, which is an argument of the event here.

* A `Frontend` is what of a transport deals with the pool, with both directions of its connection: `written` of the
  `PoolClient` and the `answers` of the server, of which `served` and `answered` have been delivered. One call of
  `dataReceived` gets one message.
* An exception closes the connection in which it is raised, and nothing is delivered after it: `broken` on the side
  of the server, `closed` on that of the client. `connectionLost` closes it too, behind what it has written.
* `lease` is ghost state, the request that was granted to the frontend and not given back, as are the `generation`
  of bindings and `ServerSys.granted`.
* A frontend cannot be made before the pool has been initialised (`PoolNotReadyError`).

Results:
* `Phase`: how far a frontend has got with its guest; `step_cases`: what a step does to it.
* **`frontends_refine`**: whatever the frontends do, the pool server sees a run of `serverStep`, in which every
  release is one of an outstanding request of the frontend that sends it.
* **`returned_iff`**: frontends that are gone have given back what they were granted, in every state of a run, iff
  none of them is lost before it was told its guest, or granted one after that.

Left out: the connection to the guest itself, and the timeouts, which end in a `connectionLost`.
-/

namespace Cowrie.Pool

open Cowrie.Lib PoolService

/-! ## Frontends -/

structure Frontend where
  peerIp : Ip
  /-- The `Deferred` of `request_interface` has not fired. -/
  dialling : Bool := true
  poolInterface : Option PoolClient := none
  /-- `connectionLost` was called. -/
  lost : Bool := false
  closed : Bool := false
  served : Nat := 0
  broken : Bool := false
  answers : List Bytes := []
  answered : Nat := 0
  lease : Option Granted := none
  deriving DecidableEq

namespace Frontend

/-- `pool_connection_success`; what it raises is caught by `pool_connection_error`. -/
def poolConnectionSuccess (x : Frontend) : Frontend :=
  { x with
    dialling := false
    poolInterface := some (exec (PoolClient.sendVmRequest x.peerIp) { parent := true }).2 }

/-- `pool_connection_error`. -/
def poolConnectionError (x : Frontend) : Frontend := { x with dialling := false }

/-- `received_pool_data` decodes both texts for the log. -/
def unreadable : PoolCallback → Bool
  | .receivedPoolData _ _ honeyIp snapshot _ _ => (decode honeyIp).isNone || (decode snapshot).isNone
  | _ => false

/-- An answer arrives. -/
def receiveAnswer (client : PoolClient) (answer : Bytes) (x : Frontend) : Frontend :=
  let r := exec (PoolClient.dataReceived answer) client
  { x with
    poolInterface := some r.2
    answered := x.answered + 1
    closed := x.closed || !r.1.isOk || (r.2.callbacks.drop client.callbacks.length).any unreadable }

/-- `connectionLost`; what is written to a closed connection is lost. -/
def connectionLost (dirty : Bool) (x : Frontend) : Frontend :=
  { x with
    lost := true
    closed := x.closed || x.poolInterface.isSome
    poolInterface := x.poolInterface.map fun client =>
      if x.closed then client else (exec (PoolClient.sendVmFree dirty) client).2 }

/-- The server has read a message, with a result and with what is leased then. -/
def serveMessage (result : Except ServerError Bytes) (lease : Option Granted) (x : Frontend) : Frontend :=
  { x with
    served := x.served + 1
    broken := !result.isOk
    answers := match result with
      | .ok (b :: bs) => x.answers ++ [b :: bs]
      | _ => x.answers
    lease := lease }

/-- The next message for the server. -/
def nextMessage (x : Frontend) : Option Bytes := x.poolInterface.bind fun client => client.written[x.served]?

/-- The next answer for the client. -/
def nextAnswer (x : Frontend) : Option (PoolClient × Bytes) :=
  x.poolInterface.bind fun client => (x.answers[x.answered]?).map (client, ·)

end Frontend

/-- A message that gives a guest back. -/
def isRelease (data : Bytes) : Bool := data.head? = some 102 || data.head? = some 117

/-- The attackers' connections and the pool. -/
structure Proxy where
  server : Server
  generation : Nat := 0
  /-- `pool_ready` of the `PoolHandler`. -/
  ready : Bool := false
  frontends : List Frontend := []

/-- The requests that are outstanding. -/
def Proxy.leases (s : Proxy) : List Granted := s.frontends.filterMap Frontend.lease

/-- The pool server, as it is seen without the frontends. -/
def Proxy.view (s : Proxy) : ServerSys := ⟨s.server, s.leases, s.generation⟩

inductive ProxyEvent
  | initialise (maxVms vmUnusedTimeout : Nat) (shareGuests : Bool) (env : ServerEnv)
  | accept (peerIp : Ip)
  | poolConnected (i : Nat)
  | poolRefused (i : Nat)
  | serve (i : Nat) (env : ServerEnv)
  | answer (i : Nat)
  | lose (i : Nat) (dirty : Bool)
  | producer (env : ProducerEnv)
  | close (guestId : Nat) (ssh : Bool)

namespace Proxy

/-- What the frontend `i` does, if it may. -/
def atFrontend (s : Proxy) (i : Nat) (f : Frontend → Option Frontend) : Option Proxy :=
  (s.frontends[i]?).bind fun x => (f x).map fun y => { s with frontends := s.frontends.set i y }

/-- The server gets a message of a frontend. A release gives back what the frontend was granted. -/
def serveFrontend (config : ServerConfig) (env : ServerEnv) (s : Proxy) (i : Nat) (x : Frontend) (data : Bytes) :
    Proxy :=
  let r := s.server.dataReceived config env data
  { s with
    server := r.1
    generation := s.generation + if s.view.natEvent (.message data env) = some .freeAll then 1 else 0
    frontends :=
      s.frontends.set i (x.serveMessage r.2 (if isRelease data then none else (s.view.grants data).head?)) }

def step (config : ServerConfig) (s : Proxy) : ProxyEvent → Option Proxy
  | .initialise maxVms timeout share env =>
    (packInit maxVms timeout share).map fun data =>
      { s with server := (s.server.dataReceived config env data).1, ready := true }
  | .accept peerIp => if s.ready then some { s with frontends := s.frontends ++ [{ peerIp := peerIp }] } else none
  | .poolConnected i => s.atFrontend i fun x => if x.dialling then some x.poolConnectionSuccess else none
  | .poolRefused i => s.atFrontend i fun x => if x.dialling then some x.poolConnectionError else none
  | .serve i env =>
    (s.frontends[i]?).bind fun x =>
      if x.broken then none else x.nextMessage.map fun data => s.serveFrontend config env i x data
  | .answer i => s.atFrontend i fun x =>
    if x.closed then none else x.nextAnswer.map fun (client, answer) => x.receiveAnswer client answer
  | .lose i dirty => s.atFrontend i fun x => if x.lost then none else some (x.connectionLost dirty)
  | .producer env => some { s with server := { s.server with pool := (s.server.pool.producerLoop env).1 } }
  | .close guestId ssh => some { s with server := s.server.setNat (s.server.nat.closePort guestId ssh) }

/-- An empty pool, and nobody is connected. -/
def start (settings : Settings) : Proxy := { server := ⟨PoolService.start settings, []⟩ }

end Proxy

/-! ## What a frontend is told -/

/-- The response that grants the guest `id`. -/
def Grants (id : Nat) (b : Bytes) : Prop :=
  id < 256 ^ 4 ∧ ∃ rest, b = Server.status 114 0 ++ (intToBytes 4 id ++ rest)

theorem packUInt_some {k n : Nat} {b : Bytes} (h : packUInt k n = some b) : n < 256 ^ k ∧ b = intToBytes k n := by
  unfold packUInt at h
  split at h
  · rename_i hbounds
    refine ⟨by exact_mod_cast hbounds.2, ?_⟩
    simpa using h.symm
  · cases h

theorem packGranted_grants {id : Nat} {ip snapshot : String} {ssh telnet : Int} {b : Bytes}
    (h : Server.packGranted id ip ssh telnet snapshot = .ok b) : Grants id b := by
  -- unfolded before it is applied, or the kernel evaluates the bounds of `packUInt`
  have hdef : Server.packGranted = Server.packGranted := rfl
  conv_rhs at hdef => delta Server.packGranted
  rw [hdef] at h
  beta_reduce at h
  cases hid : packUInt 4 id with
  | none => simp [hid] at h
  | some packed =>
    obtain ⟨hlt, rfl⟩ := packUInt_some hid
    refine ⟨hlt, ?_⟩
    cases hip : packUInt 2 ip.length <;> cases hssh : packUInt 2 ssh <;> cases htelnet : packUInt 2 telnet <;>
      cases hsnapshot : packUInt 2 snapshot.length <;>
      simp only [hid, hip, hssh, htelnet, hsnapshot, Option.bind_eq_bind, Option.bind_some, Option.bind_none,
        Option.pure_def, List.append_assoc, reduceCtorEq, Except.ok.injEq] at h
    exact ⟨_, h.symm⟩

namespace PoolClient

/-- What of a client decides the messages it writes. -/
def SameGuest (c d : PoolClient) : Prop := d.parent = c.parent ∧ d.vmId = c.vmId ∧ d.written = c.written

theorem sameGuest_refl (c : PoolClient) : SameGuest c c := ⟨rfl, rfl, rfl⟩

theorem sameGuest_trans (b c d : PoolClient) (hc : SameGuest b c) (hd : SameGuest c d) : SameGuest b d :=
  ⟨hd.1.trans hc.1, hd.2.1.trans hc.2.1, hd.2.2.trans hc.2.2⟩

theorem sameGuest_field {α : Type} (o : Option α) : Along SameGuest (field o) := by
  cases o with
  | none => exact along_throw sameGuest_refl _
  | some a => exact along_pure sameGuest_refl a

theorem sameGuest_callback (c : PoolCallback) : Along SameGuest (callback c) :=
  along_modify fun _ => ⟨rfl, rfl, rfl⟩

/-- The guest of a response is known before the rest of it is read. -/
theorem receiveGuest_known {id : Nat} (hid : id < 256 ^ 4) (op : UInt8) (code : Nat) (rest : Bytes)
    (c : PoolClient) :
    SameGuest { c with vmId := some id } (exec (receiveGuest op code (intToBytes 4 id ++ rest)) c).2 := by
  unfold receiveGuest
  rw [exec_field, (unpack_next hid rest).1]
  simp only
  rw [exec_modify_bind]
  refine (?_ : Along SameGuest _) _
  refine along_bind sameGuest_trans (sameGuest_field _) fun _ => ?_
  refine along_bind sameGuest_trans (sameGuest_field _) fun _ => ?_
  refine along_bind sameGuest_trans (sameGuest_field _) fun _ => ?_
  refine along_bind sameGuest_trans (sameGuest_field _) fun _ => ?_
  exact along_bind sameGuest_trans (sameGuest_field _) fun _ => sameGuest_callback _

theorem dataReceived_grants {id : Nat} {b : Bytes} (h : Grants id b) {c : PoolClient} (hparent : c.parent = true) :
    SameGuest { c with vmId := some id } (exec (dataReceived b) c).2 := by
  obtain ⟨hid, rest, rfl⟩ := h
  obtain ⟨hstatus, hbody⟩ := unpackStatus_status (by decide : 0 < 256 ^ 4) 114 (intToBytes 4 id ++ rest)
  unfold dataReceived
  rw [exec_get_bind, if_pos hparent, exec_field, hstatus, hbody]
  exact receiveGuest_known hid 114 0 rest c

theorem dataReceived_denied (c : PoolClient) :
    SameGuest c (exec (dataReceived (Server.status 114 1)) c).2 := by
  have hstatus := (unpackStatus_status (by decide : 1 < 256 ^ 4) 114 []).1
  rw [List.append_nil] at hstatus
  unfold dataReceived
  rw [exec_get_bind]
  by_cases hparent : c.parent = true
  · rw [if_pos hparent, exec_field, hstatus]
    exact sameGuest_callback _ c
  · rw [if_neg hparent]
    exact sameGuest_refl c

end PoolClient

/-! ## What the server answers -/

/-- **A request is answered with the guest that was granted**, if at all. -/
theorem request_answers (config : ServerConfig) (env : ServerEnv) (s : ServerSys) (b : Bytes) :
    let r := (s.server.dataReceived config env (114 :: b)).2
    match s.grants (114 :: b) with
    | [] => r = .ok (Server.status 114 1) ∨ ∃ e, r = .error e
    | g :: gs => gs = [] ∧ ((∃ answer, r = .ok answer ∧ Grants g.lease.id answer) ∨ ∃ e, r = .error e) := by
  unfold ServerSys.grants Server.requested
  have hreceive : s.server.dataReceived config env (114 :: b) = s.server.receiveRequest config env b := rfl
  simp only [hreceive, if_true]
  unfold Server.receiveRequest
  cases hip : Server.unpackRequest b with
  | error e => exact Or.inr ⟨e, rfl⟩
  | ok ip =>
    simp only
    have hrequest : (s.server.requestVm env.stop ip).2 = (s.server.pool.requestVm env.stop ip).2 := rfl
    unfold PoolService.requestVm at hrequest
    cases hg : s.server.pool.chooseGuest ip with
    | some g =>
      simp only [hg] at hrequest
      cases hr : s.server.requestVm env.stop ip with
      | mk t r =>
        obtain rfl : r = _ := by simpa [hr] using hrequest
        refine ⟨rfl, ?_⟩
        simp only
        unfold Server.answer
        simp only
        split
        · cases config.natPublicIp with
          | none => exact Or.inr ⟨_, rfl⟩
          | some publicIp =>
            simp only
            cases hpacked : Server.packGranted g.id publicIp _ _ g.snapshot with
            | ok answer => exact Or.inl ⟨answer, rfl, packGranted_grants hpacked⟩
            | error e => exact Or.inr ⟨e, rfl⟩
        · cases hpacked : Server.packGranted g.id g.guestIp _ _ g.snapshot with
          | ok answer => exact Or.inl ⟨answer, rfl, packGranted_grants hpacked⟩
          | error e => exact Or.inr ⟨e, rfl⟩
    | none =>
      simp only
      cases hr : s.server.requestVm env.stop ip with
      | mk t r =>
        cases r with
        | error e => cases e <;> first | exact Or.inl rfl | exact Or.inr ⟨_, rfl⟩
        | ok guest =>
          simp only [hg, hr] at hrequest
          split at hrequest
          · split at hrequest <;> cases hrequest
          · cases hrequest

/-! ## How far a frontend has got -/

/-- What a frontend has of its guest. -/
inductive Phase
  /-- It has not written a request. -/
  | unasked
  | waiting
  | denied
  | granted (r : Granted)
  | told (r : Granted)
  | releasing (r : Granted)
  | finished
  deriving DecidableEq

namespace Phase

/-- What was granted and not given back. -/
def lease : Phase → Option Granted
  | .granted r | .told r | .releasing r => some r
  | _ => none

/-- A guest was granted, and nothing was sent that gives it back. -/
def holds : Phase → Bool
  | .granted _ | .told _ => true
  | _ => false

/-- A frontend that was granted a guest hears of it. -/
def heard : Phase → Phase
  | .granted r => .told r
  | p => p

/-- A frontend that is lost gives its guest back if it knows it, and its connection stands. -/
def left (closed : Bool) : Phase → Phase
  | .told r => if closed then .told r else .releasing r
  | p => p

end Phase

namespace Frontend

/-- The answers that the client has not read. -/
def unread (x : Frontend) : List Bytes := x.answers.drop x.answered

/-- A frontend whose client has written some messages. -/
structure Asked (x : Frontend) (written : List Bytes) (vmId : Option Nat) (served : Nat)
    (lease : Option Granted) : Prop where
  dialled : x.dialling = false
  client : ∃ c, x.poolInterface = some c ∧ PoolClient.SameGuest ⟨true, vmId, [], written⟩ c
  served : x.served = served
  lease : x.lease = lease

/-- `x` has got as far as `p`. -/
def At (x : Frontend) : Phase → Prop
  | .unasked => x.served = 0 ∧ x.answers = [] ∧ x.answered = 0 ∧ x.lease = none ∧
      ∀ c, x.poolInterface = some c → PoolClient.SameGuest ⟨true, none, [], []⟩ c
  | .waiting => ∃ b, x.Asked [114 :: b] none 0 none ∧ x.answers = [] ∧ x.answered = 0
  | .denied => ∃ b, x.Asked [114 :: b] none 1 none ∧ ∀ a ∈ x.unread, a = Server.status 114 1
  | .granted r => ∃ b, x.Asked [114 :: b] none 1 (some r) ∧
      (x.unread = [] ∨ ∃ a, x.unread = [a] ∧ Grants r.lease.id a)
  | .told r => ∃ b, x.Asked [114 :: b] (some r.lease.id) 1 (some r) ∧ x.unread = [] ∧ r.lease.id < 256 ^ 4
  | .releasing r => ∃ b reuse id, x.Asked [114 :: b, Server.releaseMessage r.lease.id reuse] id 1 (some r) ∧
      x.lost = true ∧ x.closed = true
  | .finished => ∃ b c id, x.Asked [b, c] id 2 none ∧ x.lost = true ∧ x.closed = true

variable {x : Frontend}

theorem At.lease {p : Phase} (h : x.At p) : x.lease = Phase.lease p := by
  cases p with
  | unasked => exact h.2.2.2.1
  | waiting => exact h.choose_spec.1.lease
  | denied => exact h.choose_spec.1.lease
  | granted r => exact h.choose_spec.1.lease
  | told r => exact h.choose_spec.1.lease
  | releasing r =>
    obtain ⟨b, reuse, id, hasked, -⟩ := h
    exact hasked.lease
  | finished =>
    obtain ⟨b, c, id, hasked, -⟩ := h
    exact hasked.lease

/-- The next message of a client that has written some. -/
theorem Asked.nextMessage {written : List Bytes} {vmId : Option Nat} {served : Nat} {lease : Option Granted}
    (h : x.Asked written vmId served lease) : x.nextMessage = written[served]? := by
  obtain ⟨c, hc, -, -, hwritten⟩ := h.client
  unfold Frontend.nextMessage
  rw [hc, Option.bind_some, hwritten, h.served]

/-- A frontend that holds its guest has nothing more to say. -/
theorem At.holds_iff {p : Phase} (h : x.At p) :
    p.holds = true ↔ x.nextMessage = none ∧ x.lease ≠ none := by
  have hlease := h.lease
  cases p with
  | unasked => simp [Phase.holds, hlease, Phase.lease]
  | waiting => simp [Phase.holds, hlease, Phase.lease]
  | denied => simp [Phase.holds, hlease, Phase.lease]
  | granted r =>
    obtain ⟨b, hasked, -⟩ := h
    simp [Phase.holds, hlease, Phase.lease, hasked.nextMessage]
  | told r =>
    obtain ⟨b, hasked, -⟩ := h
    simp [Phase.holds, hlease, Phase.lease, hasked.nextMessage]
  | releasing r =>
    obtain ⟨b, reuse, id, hasked, -⟩ := h
    simp [Phase.holds, hasked.nextMessage]
  | finished => simp [Phase.holds, hlease, Phase.lease]

theorem nextAnswer_eq_some {c : PoolClient} {a : Bytes} (h : x.nextAnswer = some (c, a)) :
    x.poolInterface = some c ∧ x.unread = a :: (x.answers.drop (x.answered + 1)) := by
  unfold Frontend.nextAnswer at h
  obtain ⟨d, hd, hanswer⟩ := Option.bind_eq_some_iff.mp h
  obtain ⟨a', ha', heq⟩ := Option.map_eq_some_iff.mp hanswer
  obtain ⟨rfl, rfl⟩ := Prod.mk.inj heq
  refine ⟨hd, ?_⟩
  obtain ⟨hlt, rfl⟩ := List.getElem?_eq_some_iff.mp ha'
  exact List.drop_eq_getElem_cons hlt

/-! ### What happens to it -/

theorem At.dialling {p : Phase} (h : x.At p) (hdialling : x.dialling = true) : p = .unasked := by
  have hnot : ∀ {written vmId served lease}, ¬ x.Asked written vmId served lease := fun hasked => by
    rw [hasked.dialled] at hdialling
    cases hdialling
  cases p with
  | unasked => rfl
  | waiting => exact absurd h.choose_spec.1 hnot
  | denied => exact absurd h.choose_spec.1 hnot
  | granted r => exact absurd h.choose_spec.1 hnot
  | told r => exact absurd h.choose_spec.1 hnot
  | releasing r => exact absurd h.choose_spec.choose_spec.choose_spec.1 hnot
  | finished => exact absurd h.choose_spec.choose_spec.choose_spec.1 hnot

theorem packRequest_head {ip : Ip} {b : Bytes} (h : packRequest ip = some b) : ∃ rest, b = 114 :: rest := by
  -- unfolded before it is applied, as above
  have hdef : packRequest = packRequest := rfl
  conv_rhs at hdef => delta packRequest
  rw [hdef] at h
  beta_reduce at h
  obtain ⟨ipLen, -, rfl⟩ := Option.map_eq_some_iff.mp h
  exact ⟨_, rfl⟩

theorem exec_field_write (o : Option Bytes) :
    (exec (PoolClient.field o >>= fun b => PoolClient.write b) { parent := true }).2 =
      ⟨true, none, [], o.toList⟩ := by
  cases o <;> rfl

/-- The request is the first message, unless the address is too long for it. -/
theorem at_poolConnectionSuccess {p : Phase} (h : x.At p) (hdialling : x.dialling = true) :
    x.poolConnectionSuccess.At .unasked ∨ x.poolConnectionSuccess.At .waiting := by
  obtain rfl := h.dialling hdialling
  obtain ⟨hserved, hanswers, hanswered, hlease, -⟩ := h
  have hinterface : x.poolConnectionSuccess.poolInterface = some ⟨true, none, [], (packRequest x.peerIp).toList⟩ :=
    congrArg some (exec_field_write (packRequest x.peerIp))
  cases hpack : packRequest x.peerIp with
  | none =>
    rw [hpack] at hinterface
    refine Or.inl ⟨hserved, hanswers, hanswered, hlease, fun c hc => ?_⟩
    cases hinterface.symm.trans hc
    exact PoolClient.sameGuest_refl _
  | some request =>
    rw [hpack] at hinterface
    obtain ⟨rest, rfl⟩ := packRequest_head hpack
    exact Or.inr ⟨rest, ⟨rfl, ⟨_, hinterface, PoolClient.sameGuest_refl _⟩, hserved, hlease⟩, hanswers, hanswered⟩

theorem at_poolConnectionError {p : Phase} (h : x.At p) (hdialling : x.dialling = true) :
    x.poolConnectionError.At .unasked := by
  obtain rfl := h.dialling hdialling
  exact h

theorem at_receiveAnswer {p : Phase} (h : x.At p) (hopen : x.closed = false) {c : PoolClient} {a : Bytes}
    (hnext : x.nextAnswer = some (c, a)) : (x.receiveAnswer c a).At (Phase.heard p) := by
  obtain ⟨hc, hunread⟩ := nextAnswer_eq_some hnext
  have hrest : (x.receiveAnswer c a).unread = x.answers.drop (x.answered + 1) := rfl
  cases p with
  | unasked =>
    unfold unread at hunread
    rw [h.2.1, List.drop_nil] at hunread
    cases hunread
  | waiting =>
    obtain ⟨b, -, hanswers, -⟩ := h
    unfold unread at hunread
    rw [hanswers, List.drop_nil] at hunread
    cases hunread
  | denied =>
    obtain ⟨b, hasked, hdenied⟩ := h
    rw [hunread] at hdenied
    obtain rfl := hdenied a List.mem_cons_self
    obtain ⟨d, hd, hsame⟩ := hasked.client
    obtain rfl := Option.some.inj (hc.symm.trans hd)
    refine ⟨b, ⟨hasked.dialled, ⟨_, rfl, ?_⟩, hasked.served, hasked.lease⟩, fun a' ha' => ?_⟩
    · exact PoolClient.sameGuest_trans _ _ _ hsame (PoolClient.dataReceived_denied c)
    · rw [hrest] at ha'
      exact hdenied a' (List.mem_cons_of_mem _ ha')
  | granted r =>
    obtain ⟨b, hasked, hnone | ⟨a', hone, hgrants⟩⟩ := h
    · rw [hnone] at hunread
      cases hunread
    · rw [hone] at hunread
      obtain ⟨rfl, hnil⟩ := List.cons.inj hunread
      obtain ⟨d, hd, hsame⟩ := hasked.client
      obtain rfl := Option.some.inj (hc.symm.trans hd)
      have hread := PoolClient.dataReceived_grants hgrants hsame.1
      refine ⟨b, ⟨hasked.dialled, ⟨_, rfl, ?_⟩, hasked.served, hasked.lease⟩, hrest.trans hnil.symm, hgrants.1⟩
      exact ⟨hread.1.trans hsame.1, hread.2.1, hread.2.2.trans hsame.2.2⟩
  | told r =>
    obtain ⟨b, -, hnone, -⟩ := h
    rw [hnone] at hunread
    cases hunread
  | releasing r =>
    obtain ⟨b, reuse, id, -, -, hclosed⟩ := h
    rw [hclosed] at hopen
    cases hopen
  | finished =>
    obtain ⟨b, c, id, -, -, hclosed⟩ := h
    rw [hclosed] at hopen
    cases hopen

/-- A client without a guest has nothing to give back. -/
theorem sendVmFree_none {c : PoolClient} (h : c.vmId = none) (dirty : Bool) :
    exec (PoolClient.sendVmFree dirty) c = (.ok (), c) := by
  unfold PoolClient.sendVmFree
  rw [exec_get_bind, h]
  rfl

theorem sendVmFree_some {c : PoolClient} {id : Nat} (h : c.vmId = some id) (hid : id < 256 ^ 4) (dirty : Bool) :
    exec (PoolClient.sendVmFree dirty) c =
      (.ok (), { c with written := c.written ++ [Server.releaseMessage id (!dirty)] }) := by
  have hpack : packRelease dirty id = some (Server.releaseMessage id (!dirty)) := by
    rw [packRelease_eq hid]
    cases dirty <;> rfl
  have hwrite := exec_write_field hpack c
  unfold PoolClient.sendVmFree
  rw [exec_get_bind]
  rw [h] at hwrite ⊢
  exact hwrite

/-- A client that has no guest is as it was, when its frontend is lost. -/
theorem Asked.connectionLost {written : List Bytes} {served : Nat} {lease : Option Granted}
    (h : x.Asked written none served lease) (dirty : Bool) :
    (x.connectionLost dirty).Asked written none served lease := by
  obtain ⟨c, hc, hsame⟩ := h.client
  refine ⟨h.dialled, ⟨c, ?_, hsame⟩, h.served, h.lease⟩
  unfold Frontend.connectionLost
  rw [hc, Option.map_some, sendVmFree_none hsame.2.1]
  simp

theorem at_connectionLost {p : Phase} (h : x.At p) (hhere : x.lost = false) (dirty : Bool) :
    (x.connectionLost dirty).At (Phase.left x.closed p) := by
  cases p with
  | unasked =>
    obtain ⟨hserved, hanswers, hanswered, hlease, hclient⟩ := h
    refine ⟨hserved, hanswers, hanswered, hlease, fun d hd => ?_⟩
    obtain ⟨c, hc, rfl⟩ := Option.map_eq_some_iff.mp hd
    have hsame := hclient c hc
    rw [sendVmFree_none hsame.2.1]
    simpa using hsame
  | waiting =>
    obtain ⟨b, hasked, hanswers⟩ := h
    exact ⟨b, hasked.connectionLost dirty, hanswers⟩
  | denied =>
    obtain ⟨b, hasked, hunread⟩ := h
    exact ⟨b, hasked.connectionLost dirty, hunread⟩
  | granted r =>
    obtain ⟨b, hasked, hunread⟩ := h
    exact ⟨b, hasked.connectionLost dirty, hunread⟩
  | told r =>
    obtain ⟨b, hasked, hunread, hid⟩ := h
    obtain ⟨c, hc, hparent, hvmId, hwritten⟩ := hasked.client
    cases hclosed : x.closed with
    | true =>
      refine ⟨b, ⟨hasked.dialled, ⟨c, ?_, hparent, hvmId, hwritten⟩, hasked.served, hasked.lease⟩, hunread, hid⟩
      unfold Frontend.connectionLost
      rw [hc, hclosed]
      rfl
    | false =>
      have hleft : (x.connectionLost dirty).poolInterface =
          some { c with written := c.written ++ [Server.releaseMessage r.lease.id (!dirty)] } := by
        unfold Frontend.connectionLost
        rw [hc, hclosed, Option.map_some, sendVmFree_some hvmId hid]
        rfl
      have hclosing : (x.connectionLost dirty).closed = true := by
        unfold Frontend.connectionLost
        rw [hc]
        exact Bool.or_true _
      refine ⟨b, !dirty, some r.lease.id, ⟨hasked.dialled, ⟨_, hleft, hparent, hvmId, ?_⟩, hasked.served,
        hasked.lease⟩, rfl, hclosing⟩
      rw [hwritten]
      rfl
  | releasing r =>
    obtain ⟨b, reuse, id, -, hlost, -⟩ := h
    rw [hlost] at hhere
    cases hhere
  | finished =>
    obtain ⟨b, c, id, -, hlost, -⟩ := h
    rw [hlost] at hhere
    cases hhere

/-- What a frontend sends is its request, or what gives its guest back. -/
theorem At.sends {p : Phase} (h : x.At p) {data : Bytes} (hnext : x.nextMessage = some data) :
    (p = .waiting ∧ ∃ b, data = 114 :: b) ∨
      ∃ r reuse, p = .releasing r ∧ data = Server.releaseMessage r.lease.id reuse := by
  cases p with
  | unasked =>
    obtain ⟨hserved, -, -, -, hclient⟩ := h
    obtain ⟨c, hc, hmessage⟩ := Option.bind_eq_some_iff.mp hnext
    rw [(hclient c hc).2.2] at hmessage
    cases hmessage
  | waiting =>
    obtain ⟨b, hasked, -⟩ := h
    exact Or.inl ⟨rfl, b, Option.some.inj (hnext.symm.trans hasked.nextMessage)⟩
  | denied =>
    obtain ⟨b, hasked, -⟩ := h
    cases hnext.symm.trans hasked.nextMessage
  | granted r =>
    obtain ⟨b, hasked, -⟩ := h
    cases hnext.symm.trans hasked.nextMessage
  | told r =>
    obtain ⟨b, hasked, -⟩ := h
    cases hnext.symm.trans hasked.nextMessage
  | releasing r =>
    obtain ⟨b, reuse, id, hasked, -⟩ := h
    exact Or.inr ⟨r, reuse, rfl, Option.some.inj (hnext.symm.trans hasked.nextMessage)⟩
  | finished =>
    obtain ⟨b, c, id, hasked, -⟩ := h
    cases hnext.symm.trans hasked.nextMessage

/-- The first answer. -/
theorem serveMessage_unread (lease : Option Granted) (hanswers : x.answers = []) (hanswered : x.answered = 0)
    (answer : Bytes) (hne : answer ≠ []) : (x.serveMessage (.ok answer) lease).unread = [answer] := by
  unfold unread serveMessage
  cases answer with
  | nil => exact absurd rfl hne
  | cons b bs =>
    simp only
    rw [hanswers, hanswered]
    rfl

/-- An exception is no answer. -/
theorem serveMessage_error (lease : Option Granted) (hanswers : x.answers = []) (e : ServerError) :
    (x.serveMessage (.error e) lease).unread = [] := by
  unfold unread serveMessage
  simp only
  rw [hanswers, List.drop_nil]

/-- **A request that is served** is granted to the frontend or denied. -/
theorem At.served_waiting (h : x.At .waiting) (config : ServerConfig) (env : ServerEnv) (s : ServerSys) (b : Bytes) :
    (x.serveMessage (s.server.dataReceived config env (114 :: b)).2 (s.grants (114 :: b)).head?).At
      (match s.grants (114 :: b) with
        | [] => .denied
        | g :: _ => .granted g) := by
  obtain ⟨b', hasked, hanswers, hanswered⟩ := h
  have hresult := request_answers config env s b
  have hserved : ∀ result lease, (x.serveMessage result lease).Asked [114 :: b'] none 1 lease := fun _ _ =>
    ⟨hasked.dialled, hasked.client, congrArg (· + 1) hasked.served, rfl⟩
  cases hgrants : s.grants (114 :: b) with
  | nil =>
    rw [hgrants] at hresult
    refine ⟨b', hserved _ _, fun a ha => ?_⟩
    rcases hresult with hdenied | ⟨e, herror⟩
    · have hne : Server.status 114 1 ≠ [] := List.cons_ne_nil _ _
      rw [hdenied, serveMessage_unread _ hanswers hanswered _ hne] at ha
      exact List.mem_singleton.mp ha
    · rw [herror, serveMessage_error _ hanswers] at ha
      cases ha
  | cons g gs =>
    rw [hgrants] at hresult
    refine ⟨b', hserved _ _, ?_⟩
    rcases hresult.2 with ⟨answer, hok, hanswer⟩ | ⟨e, herror⟩
    · have hne : answer ≠ [] := by
        obtain ⟨-, rest, rfl⟩ := hanswer
        exact List.cons_ne_nil _ _
      rw [hok]
      exact Or.inr ⟨answer, serveMessage_unread _ hanswers hanswered _ hne, hanswer⟩
    · rw [herror]
      exact Or.inl (serveMessage_error _ hanswers e)

/-- A release that is served. -/
theorem At.served_releasing {r : Granted} (h : x.At (.releasing r)) (result : Except ServerError Bytes) :
    (x.serveMessage result none).At .finished := by
  obtain ⟨b, reuse, id, hasked, hlost, hclosed⟩ := h
  exact ⟨_, _, _, ⟨hasked.dialled, hasked.client, congrArg (· + 1) hasked.served, rfl⟩, hlost, hclosed⟩

end Frontend

/-! ## The frontends as the server sees them -/

namespace Proxy

/-- The event that the server sees. -/
def seen (s : Proxy) : ProxyEvent → Option ServerEvent
  | .initialise maxVms timeout share env => (packInit maxVms timeout share).map (.message · env)
  | .serve i env =>
    (s.frontends[i]?).bind fun x => x.nextMessage.map fun data =>
      match isRelease data, x.lease with
      | true, some r => .release r (data.head? = some 117) env
      | _, _ => .message data env
  | .producer env => some (.producer env)
  | .close guestId ssh => some (.close guestId ssh)
  | _ => none

/-- Every frontend is somewhere between its request and the release. -/
def Orderly (s : Proxy) : Prop := ∀ x ∈ s.frontends, ∃ p, x.At p

end Proxy

/-- What is replaced in a list, and what is put in its place. -/
theorem filterMap_set_perm {α β : Type} (f : α → Option β) {xs : List α} {i : Nat} {x : α} (h : xs[i]? = some x)
    (y : α) : ((f x).toList ++ (xs.set i y).filterMap f).Perm ((f y).toList ++ xs.filterMap f) := by
  induction xs generalizing i with
  | nil => cases h
  | cons z zs ih =>
    cases i with
    | zero =>
      obtain rfl : z = x := Option.some.inj h
      rw [List.set_cons_zero]
      cases hx : f z with
      | none => cases hy : f y <;> simp [hx, hy]
      | some a =>
        cases hy : f y with
        | none => simp [hx, hy]
        | some b => simpa [hx, hy] using List.Perm.swap b a _
    | succ i =>
      have ih := ih h
      rw [List.set_cons_succ]
      cases hz : f z with
      | none => simpa [hz] using ih
      | some a =>
        rw [List.filterMap_cons_some hz, List.filterMap_cons_some hz]
        exact List.perm_middle.trans ((ih.cons a).trans List.perm_middle.symm)

namespace Proxy

variable {config : ServerConfig} {s t : Proxy} {i : Nat} {x : Frontend}

/-! ### What a step does to the frontends -/

theorem atFrontend_some {f : Frontend → Option Frontend} (h : s.atFrontend i f = some t) :
    ∃ x y, s.frontends[i]? = some x ∧ f x = some y ∧ t = { s with frontends := s.frontends.set i y } := by
  obtain ⟨x, hx, hrest⟩ := Option.bind_eq_some_iff.mp h
  obtain ⟨y, hy, rfl⟩ := Option.map_eq_some_iff.mp hrest
  exact ⟨x, y, hx, hy, rfl⟩

theorem Orderly.set (h : s.Orderly) {p : Phase} {y : Frontend} (hy : y.At p) :
    ∀ z ∈ s.frontends.set i y, ∃ p, z.At p := fun z hz => by
  rcases List.mem_or_eq_of_mem_set hz with hz | rfl
  · exact h z hz
  · exact ⟨p, hy⟩

/-- The requests that are outstanding, after one frontend has changed. -/
theorem leases_set (h : s.frontends[i]? = some x) (y : Frontend) :
    (x.lease.toList ++ (s.frontends.set i y).filterMap Frontend.lease).Perm (y.lease.toList ++ s.leases) :=
  filterMap_set_perm Frontend.lease h y

/-- A frontend that keeps what it was granted. -/
theorem leases_kept (h : s.frontends[i]? = some x) {y : Frontend} (hlease : y.lease = x.lease) :
    s.leases.Perm ((s.frontends.set i y).filterMap Frontend.lease) := by
  have hset := leases_set h y
  rw [hlease] at hset
  exact ((List.perm_append_left_iff _).mp hset).symm

end Proxy

/-- The events in which no frontend is lost or served. -/
def ProxyEvent.harmless : ProxyEvent → Bool
  | .lose _ _ | .serve _ _ => false
  | _ => true

namespace Proxy

variable {config : ServerConfig} {s t : Proxy} {i : Nat} {x : Frontend}

/-- What a step does, by what the server sees of it. -/
inductive Stepped (config : ServerConfig) (s : Proxy) : ProxyEvent → Proxy → Prop
  | accept (ip : Ip) : Stepped config s (.accept ip) { s with frontends := s.frontends ++ [{ peerIp := ip }] }
  | quiet {e : ProxyEvent} {i : Nat} {x y : Frontend} {p q : Phase} (hseen : s.seen e = none)
      (he : e.harmless = true) (hx : s.frontends[i]? = some x) (hp : x.At p) (hq : y.At q)
      (hlease : q.lease = p.lease) (hholds : q.holds = p.holds) (hlost : y.lost = x.lost) :
      Stepped config s e { s with frontends := s.frontends.set i y }
  | lose {i : Nat} {x : Frontend} {p : Phase} (dirty : Bool) (hx : s.frontends[i]? = some x) (hp : x.At p)
      (hhere : x.lost = false) :
      Stepped config s (.lose i dirty) { s with frontends := s.frontends.set i (x.connectionLost dirty) }
  | serve {i : Nat} {x : Frontend} {p : Phase} {data : Bytes} (env : ServerEnv) (hx : s.frontends[i]? = some x)
      (hp : x.At p) (hdata : x.nextMessage = some data) :
      Stepped config s (.serve i env) (s.serveFrontend config env i x data)
  | server {e : ProxyEvent} {e' : ServerEvent} {t : Proxy} (hseen : s.seen e = some e')
      (he : e.harmless = true) (hfrontends : t.frontends = s.frontends)
      (hstep : serverStep config s.view e' = some t.view) : Stepped config s e t

theorem packInit_head {maxVms timeout : Int} {share : Bool} {b : Bytes}
    (h : packInit maxVms timeout share = some b) : ∃ rest, b = 105 :: rest := by
  -- unfolded before it is applied, as above
  have hdef : packInit = packInit := rfl
  conv_rhs at hdef => delta packInit
  rw [hdef] at h
  beta_reduce at h
  obtain ⟨maxVms, -, hrest⟩ := Option.bind_eq_some_iff.mp h
  obtain ⟨timeout, -, rfl⟩ := Option.map_eq_some_iff.mp hrest
  exact ⟨_, rfl⟩

/-- **What a step does.** -/
theorem step_cases {e : ProxyEvent} (ho : s.Orderly) (h : s.step config e = some t) : Stepped config s e t := by
  have hat : ∀ {i : Nat} {x : Frontend}, s.frontends[i]? = some x → ∃ p, x.At p := fun hx =>
    ho _ (List.mem_of_getElem? hx)
  cases e with
  | initialise maxVms timeout share env =>
    simp only [step] at h
    obtain ⟨data, hdata, rfl⟩ := Option.map_eq_some_iff.mp h
    obtain ⟨rest, rfl⟩ := packInit_head hdata
    have hseen : s.seen (.initialise maxVms timeout share env) = some (.message (105 :: rest) env) := by
      simp only [seen, hdata, Option.map_some]
    have hstep : serverStep config s.view (.message (105 :: rest) env) = some
        ⟨(s.server.dataReceived config env (105 :: rest)).1, s.leases ++ [], s.generation⟩ := by
      unfold serverStep
      exact if_neg (by simp)
    rw [List.append_nil] at hstep
    exact .server hseen rfl rfl hstep
  | accept ip =>
    simp only [step] at h
    split at h
    · obtain rfl := Option.some.inj h
      exact .accept ip
    · cases h
  | poolConnected i =>
    obtain ⟨x, y, hx, hy, rfl⟩ := atFrontend_some h
    obtain ⟨p, hp⟩ := hat hx
    split at hy
    · rename_i hdialling
      obtain rfl := Option.some.inj hy
      obtain rfl := hp.dialling hdialling
      rcases Frontend.at_poolConnectionSuccess hp hdialling with hq | hq
      · exact .quiet rfl rfl hx hp hq rfl rfl rfl
      · exact .quiet rfl rfl hx hp hq rfl rfl rfl
    · cases hy
  | poolRefused i =>
    obtain ⟨x, y, hx, hy, rfl⟩ := atFrontend_some h
    obtain ⟨p, hp⟩ := hat hx
    split at hy
    · rename_i hdialling
      obtain rfl := Option.some.inj hy
      obtain rfl := hp.dialling hdialling
      exact .quiet rfl rfl hx hp (Frontend.at_poolConnectionError hp hdialling) rfl rfl rfl
    · cases hy
  | serve i env =>
    obtain ⟨x, hx, hrest⟩ := Option.bind_eq_some_iff.mp h
    obtain ⟨p, hp⟩ := hat hx
    split at hrest
    · cases hrest
    · obtain ⟨data, hdata, rfl⟩ := Option.map_eq_some_iff.mp hrest
      exact .serve env hx hp hdata
  | answer i =>
    obtain ⟨x, y, hx, hy, rfl⟩ := atFrontend_some h
    obtain ⟨p, hp⟩ := hat hx
    split at hy
    · cases hy
    · rename_i hopen
      obtain ⟨⟨c, a⟩, hnext, rfl⟩ := Option.map_eq_some_iff.mp hy
      have hq := Frontend.at_receiveAnswer hp (Bool.eq_false_of_not_eq_true hopen) hnext
      exact .quiet rfl rfl hx hp hq (by cases p <;> rfl) (by cases p <;> rfl) rfl
  | lose i dirty =>
    obtain ⟨x, y, hx, hy, rfl⟩ := atFrontend_some h
    obtain ⟨p, hp⟩ := hat hx
    split at hy
    · cases hy
    · rename_i hhere
      obtain rfl := Option.some.inj hy
      exact .lose dirty hx hp (Bool.eq_false_of_not_eq_true hhere)
  | producer env =>
    obtain rfl := Option.some.inj h
    exact .server rfl rfl rfl rfl
  | close guestId ssh =>
    obtain rfl := Option.some.inj h
    exact .server rfl rfl rfl rfl

/-- The frontend that is served. -/
theorem at_served (config : ServerConfig) {p : Phase} (hp : x.At p) {data : Bytes} (hdata : x.nextMessage = some data) (env : ServerEnv) :
    ∃ q y, (s.serveFrontend config env i x data).frontends = s.frontends.set i y ∧ y.At q ∧ y.lost = x.lost ∧
      (p = .waiting ∧ isRelease data = false ∧ q.lease = (s.view.grants data).head? ∧ q.holds = q.lease.isSome ∨
        p.lease.isSome ∧ isRelease data = true ∧ q = .finished) := by
  rcases hp.sends hdata with ⟨rfl, b, rfl⟩ | ⟨r, reuse, rfl, rfl⟩
  · have hq := hp.served_waiting config env s.view b
    refine ⟨_, _, rfl, hq, rfl, Or.inl ⟨rfl, rfl, ?_⟩⟩
    cases s.view.grants (114 :: b) <;> exact ⟨rfl, rfl⟩
  · have hrelease : isRelease (Server.releaseMessage r.lease.id reuse) = true := by cases reuse <;> rfl
    refine ⟨_, _, rfl, ?_, rfl, Or.inr ⟨rfl, hrelease, rfl⟩⟩
    rw [hrelease]
    exact hp.served_releasing _

theorem orderly_step {e : ProxyEvent} (ho : s.Orderly) (h : s.step config e = some t) : t.Orderly := by
  cases step_cases ho h with
  | accept ip =>
    intro x hx
    rcases List.mem_append.mp hx with hx | hx
    · exact ho x hx
    · obtain rfl := List.mem_singleton.mp hx
      exact ⟨.unasked, rfl, rfl, rfl, rfl, by simp⟩
  | quiet hseen he hx hp hq hlease hholds hlost => exact ho.set hq
  | lose dirty hx hp hhere => exact ho.set (Frontend.at_connectionLost hp hhere dirty)
  | serve env hx hp hdata =>
    obtain ⟨q, y, hset, hy, -⟩ := at_served config hp hdata env
    intro z hz
    rw [hset] at hz
    exact ho.set hy z hz
  | server hseen he hfrontends hstep =>
    intro x hx
    rw [hfrontends] at hx
    exact ho x hx

/-! ### What the server sees -/

/-- Two states of the server that differ in the order of the outstanding requests. -/
def Alike (a b : ServerSys) : Prop :=
  a.server = b.server ∧ a.generation = b.generation ∧ a.granted.Perm b.granted

/-- The order of the outstanding requests does not matter. -/
theorem serverStep_alike {a b u : ServerSys} {e : ServerEvent} (h : Alike a b)
    (hstep : serverStep config b e = some u) : ∃ v, serverStep config a e = some v ∧ Alike v u := by
  obtain ⟨server, granted, generation⟩ := a
  obtain ⟨server', granted', generation'⟩ := b
  obtain ⟨rfl, rfl, hgranted⟩ := h
  cases e with
  | message data env =>
    simp only [serverStep] at hstep ⊢
    split at hstep
    · cases hstep
    · rename_i hdata
      obtain rfl := Option.some.inj hstep
      rw [if_neg hdata]
      exact ⟨_, rfl, rfl, rfl, hgranted.append_right _⟩
  | release r reuse env =>
    simp only [serverStep] at hstep ⊢
    split at hstep
    · rename_i hr
      obtain rfl := Option.some.inj hstep
      rw [if_pos (hgranted.mem_iff.mpr hr)]
      exact ⟨_, rfl, rfl, rfl, hgranted.erase r⟩
    · cases hstep
  | producer env =>
    obtain rfl := Option.some.inj hstep
    exact ⟨_, rfl, rfl, rfl, hgranted⟩
  | close guestId ssh =>
    obtain rfl := Option.some.inj hstep
    exact ⟨_, rfl, rfl, rfl, hgranted⟩

/-- **What is served to a frontend, the server sees.** -/
theorem serve_seen {p : Phase} {data : Bytes} (hx : s.frontends[i]? = some x) (hp : x.At p)
    (hdata : x.nextMessage = some data) (env : ServerEnv) :
    ∃ e u, s.seen (.serve i env) = some e ∧ serverStep config s.view e = some u ∧
      Alike u (s.serveFrontend config env i x data).view := by
  have hlease := hp.lease
  rcases hp.sends hdata with ⟨rfl, b, rfl⟩ | ⟨r, reuse, rfl, rfl⟩
  · have hseen : s.seen (.serve i env) = some (.message (114 :: b) env) := by
      unfold seen
      simp [hx, hdata, isRelease]
    have hstep : serverStep config s.view (.message (114 :: b) env) = some
        { server := (s.server.dataReceived config env (114 :: b)).1
          granted := s.leases ++ s.view.grants (114 :: b)
          generation :=
            s.generation + if s.view.natEvent (.message (114 :: b) env) = some .freeAll then 1 else 0 } := by
      unfold serverStep
      exact if_neg (by simp)
    refine ⟨_, _, hseen, hstep, rfl, rfl, ?_⟩
    have hset := leases_set hx (x.serveMessage (s.server.dataReceived config env (114 :: b)).2
      (s.view.grants (114 :: b)).head?)
    rw [hlease] at hset
    refine (List.perm_append_comm.trans ?_).trans hset.symm
    have hone := request_answers config env s.view b
    change ((s.view.grants (114 :: b)) ++ s.leases).Perm ((s.view.grants (114 :: b)).head?.toList ++ s.leases)
    cases hgrants : s.view.grants (114 :: b) with
    | nil => exact List.Perm.refl _
    | cons g gs =>
      rw [hgrants] at hone
      rw [hone.1]
      exact List.Perm.refl _
  · have hlease : x.lease = some r := hlease
    have hrelease : isRelease (Server.releaseMessage r.lease.id reuse) = true := by cases reuse <;> rfl
    have hseen : s.seen (.serve i env) = some (.release r reuse env) := by
      unfold seen
      simp only [hx, hdata, Option.bind_some, Option.map_some, hrelease, hlease]
      cases reuse <;> rfl
    have hset := leases_set hx (x.serveMessage
      (s.server.dataReceived config env (Server.releaseMessage r.lease.id reuse)).2 none)
    rw [hlease] at hset
    have hmem : r ∈ s.leases := hset.subset List.mem_cons_self
    refine ⟨_, _, hseen, if_pos hmem, rfl, ?_, ?_⟩
    · cases reuse <;> rfl
    · have herase := hset.erase r
      rw [Option.toList_some, List.singleton_append, List.erase_cons_head] at herase
      change (s.leases.erase r).Perm ((s.frontends.set i _).filterMap Frontend.lease)
      rw [hrelease]
      exact herase.symm

/-- **The frontends simulate the pool server.** -/
theorem frontends_simulate (config : ServerConfig) :
    Simulates (step config) (serverStep config) seen (fun s a => Alike a s.view) Orderly fun _ _ => True where
  kept _ _ _ ho _ h := orderly_step ho h
  follows s a e t ha ho _ h := by
    obtain ⟨hserver, hgeneration, hgranted⟩ := ha
    have hquiet : ∀ {t : Proxy}, s.seen e = none → t.server = s.server → t.generation = s.generation →
        s.leases.Perm t.leases → Follows (serverStep config) (fun s a => Alike a s.view) t a (s.seen e) := by
      intro t hseen ht hg hl
      rw [hseen]
      exact ⟨hserver.trans ht.symm, hgeneration.trans hg.symm, hgranted.trans hl⟩
    cases step_cases ho h with
    | accept ip => exact hquiet rfl rfl rfl (by simp [leases])
    | quiet hseen he hx hp hq hlease hholds hlost =>
      exact hquiet hseen rfl rfl (leases_kept hx (by rw [hq.lease, hp.lease, hlease]))
    | lose dirty hx hp hhere => exact hquiet rfl rfl rfl (leases_kept hx rfl)
    | serve env hx hp hdata =>
      obtain ⟨e', u, hseen, hstep, hserver', hgeneration', hgranted'⟩ := serve_seen hx hp hdata env
      obtain ⟨v, hv, hserver'', hgeneration'', hgranted''⟩ := serverStep_alike ⟨hserver, hgeneration, hgranted⟩ hstep
      rw [hseen]
      exact ⟨v, hv, hserver''.trans hserver', hgeneration''.trans hgeneration', hgranted''.trans hgranted'⟩
    | server hseen he hfrontends hstep =>
      obtain ⟨v, hv, halike⟩ := serverStep_alike ⟨hserver, hgeneration, hgranted⟩ hstep
      rw [hseen]
      exact ⟨v, hv, halike⟩

theorem orderly_start (settings : Settings) : (start settings).Orderly := by simp [Orderly, start]

/-- **Whatever the frontends do, the pool server sees a run in which every release is one of an outstanding
request**, and the outstanding requests are what the frontends were granted. -/
theorem frontends_refine (config : ServerConfig) (settings : Settings) {es : List ProxyEvent}
    (h : run (step config) (start settings) es = some t) :
    ∃ a, run (serverStep config) (ServerSys.start settings) (project (step config) seen (start settings) es) =
      some a ∧ a.server = t.server ∧ a.generation = t.generation ∧ a.granted.Perm t.leases :=
  (frontends_simulate config).run ⟨rfl, rfl, List.Perm.refl _⟩ (orderly_start settings) (stepsMeet_true _ _) h

/-- A client that is given the only guest, and goes. -/
def visit : List ProxyEvent :=
  [.initialise 1 600 false remoteEnv, .producer (iteration true), .accept "203.0.113.1", .poolConnected 0,
    .serve 0 remoteEnv, .answer 0, .lose 0 true, .serve 0 remoteEnv]

theorem visit_refines : ∃ a, run (serverStep remoteConfig) (ServerSys.start remote)
    (project (step remoteConfig) seen (start remote) visit) = some a ∧ a.granted = [] := by
  have hreturned : (run (step remoteConfig) (start remote) visit).map leases = some [] := by decide +kernel
  obtain ⟨t, hrun, hleases⟩ := Option.map_eq_some_iff.mp hreturned
  obtain ⟨a, ha, -, -, hgranted⟩ := frontends_refine remoteConfig remote hrun
  rw [hleases] at hgranted
  exact ⟨a, ha, hgranted.eq_nil⟩

/-! ## Frontends that are gone -/

/-- A frontend that is lost, and has nothing more to say, has given back what it was granted. -/
def Returned (s : Proxy) : Prop := ∀ x ∈ s.frontends, x.lost = true → x.nextMessage = none → x.lease = none

/-- No frontend is lost before it was told its guest, and none is granted one after that. -/
def InTime (s : Proxy) : ProxyEvent → Prop
  | .lose i _ => ∀ x, s.frontends[i]? = some x → x.lease ≠ none →
      x.closed = false ∧ x.poolInterface.bind PoolClient.vmId ≠ none
  | .serve i _ => ∀ x, s.frontends[i]? = some x → x.lost = true → ∀ data, x.nextMessage = some data →
      isRelease data = false → s.view.grants data = []
  | _ => True

instance (s : Proxy) : Decidable s.Returned := inferInstanceAs (Decidable (∀ x ∈ _, _))

instance (s : Proxy) : ∀ e : ProxyEvent, Decidable (s.InTime e)
  | .lose _ _ => optionDecidable _
  | .serve _ _ =>
    have (x : Frontend) : Decidable (∀ data, x.nextMessage = some data → isRelease data = false →
        s.view.grants data = []) := optionDecidable _
    optionDecidable _
  | .initialise _ _ _ _ => isTrue trivial
  | .accept _ => isTrue trivial
  | .poolConnected _ => isTrue trivial
  | .poolRefused _ => isTrue trivial
  | .answer _ => isTrue trivial
  | .producer _ => isTrue trivial
  | .close _ _ => isTrue trivial

/-- A frontend that holds its guest is not gone. -/
theorem returned_set {y : Frontend} {q : Phase} (hr : s.Returned) (hset : t.frontends = s.frontends.set i y)
    (hq : y.At q) (hy : y.lost = true → q.holds = false) : t.Returned := fun z hz hlost hnone => by
  rw [hset] at hz
  rcases List.mem_or_eq_of_mem_set hz with hz | rfl
  · exact hr z hz hlost hnone
  · by_contra hlease
    have hholds := hq.holds_iff.mpr ⟨hnone, hlease⟩
    rw [hy hlost] at hholds
    cases hholds

theorem holds_of_returned {y : Frontend} {q : Phase} (hr : t.Returned) (hx : s.frontends[i]? = some x)
    (hset : t.frontends = s.frontends.set i y) (hq : y.At q) (hy : y.lost = true) : q.holds = false := by
  by_contra hholds
  obtain ⟨hnone, hsome⟩ := hq.holds_iff.mp (Bool.eq_true_of_not_eq_false hholds)
  have hmem : y ∈ t.frontends := by
    rw [hset]
    exact List.mem_set (List.getElem?_eq_some_iff.mp hx).choose y
  exact hsome (hr y hmem hy hnone)

/-- A frontend that is lost does not hold its guest iff it was told it. -/
theorem holds_left {p : Phase} (hx : s.frontends[i]? = some x) (hp : x.At p) (hhere : x.lost = false)
    (dirty : Bool) : (Phase.left x.closed p).holds = false ↔ s.InTime (.lose i dirty) := by
  have hone : ∀ z, s.frontends[i]? = some z → z = x := fun z hz => Option.some.inj (hz.symm.trans hx)
  have hlease := hp.lease
  -- a frontend that was granted nothing may be lost at any time
  have hfree : x.lease = none → s.InTime (.lose i dirty) := fun hnone z hz hne => by
    rw [hone z hz] at hne
    exact absurd hnone hne
  cases p with
  | granted r =>
    refine iff_of_false (by simp [Phase.left, Phase.holds]) fun hin => ?_
    obtain ⟨-, hvmId⟩ := hin x hx (by simp [hlease, Phase.lease])
    obtain ⟨b, hasked, -⟩ := hp
    obtain ⟨c, hc, hsame⟩ := hasked.client
    rw [hc, Option.bind_some, hsame.2.1] at hvmId
    exact hvmId rfl
  | told r =>
    obtain ⟨b, hasked, -⟩ := hp
    obtain ⟨c, hc, hsame⟩ := hasked.client
    constructor
    · intro hholds z hz _
      obtain rfl := hone z hz
      refine ⟨?_, by simp [hc, hsame.2.1]⟩
      cases hclosed : z.closed with
      | false => rfl
      | true =>
        rw [hclosed] at hholds
        cases hholds
    · intro hin
      rw [(hin x hx (by simp [hlease, Phase.lease])).1]
      rfl
  | releasing r =>
    obtain ⟨b, reuse, id, -, hlost, -⟩ := hp
    rw [hlost] at hhere
    cases hhere
  | unasked => exact iff_of_true rfl (hfree hlease)
  | waiting => exact iff_of_true rfl (hfree hlease)
  | denied => exact iff_of_true rfl (hfree hlease)
  | finished => exact iff_of_true rfl (hfree hlease)

theorem returned_step {e : ProxyEvent} (ho : s.Orderly) (hr : s.Returned) (hin : s.InTime e)
    (h : s.step config e = some t) : t.Returned := by
  cases step_cases ho h with
  | accept ip =>
    intro x hx hlost
    rcases List.mem_append.mp hx with hx | hx
    · exact hr x hx hlost
    · obtain rfl := List.mem_singleton.mp hx
      cases hlost
  | quiet hseen he hx hp hq hlease hholds hlost =>
    refine returned_set hr rfl hq fun hy => ?_
    rw [hholds]
    by_contra hheld
    obtain ⟨hnone, hsome⟩ := hp.holds_iff.mp (Bool.eq_true_of_not_eq_false hheld)
    exact hsome (hr _ (List.mem_of_getElem? hx) (hlost ▸ hy) hnone)
  | lose dirty hx hp hhere =>
    exact returned_set hr rfl (Frontend.at_connectionLost hp hhere dirty) fun _ =>
      (holds_left hx hp hhere dirty).mpr hin
  | serve env hx hp hdata =>
    obtain ⟨q, y, hset, hq, hlost, hphase⟩ := at_served config hp hdata env
    refine returned_set hr hset hq fun hy => ?_
    rcases hphase with ⟨-, hrequest, hlease, hholds⟩ | ⟨-, -, rfl⟩
    · rw [hholds, hlease, hin _ hx (hlost ▸ hy) _ hdata hrequest]
      rfl
    · rfl
  | server hseen he hfrontends hstep =>
    intro x hx
    rw [hfrontends] at hx
    exact hr x hx

theorem inTime_of_harmless {e : ProxyEvent} (he : e.harmless = true) : s.InTime e := by
  cases e with
  | lose i dirty => cases he
  | serve i env => cases he
  | _ => trivial

theorem inTime_of_returned {e : ProxyEvent} (ho : s.Orderly) (h : s.step config e = some t) (hr : t.Returned) :
    s.InTime e := by
  cases step_cases ho h with
  | accept ip => trivial
  | quiet hseen he hx hp hq hlease hholds hlost => exact inTime_of_harmless he
  | lose dirty hx hp hhere =>
    exact (holds_left hx hp hhere dirty).mp
      (holds_of_returned hr hx rfl (Frontend.at_connectionLost hp hhere dirty) rfl)
  | serve env hx hp hdata =>
    intro z hz hlost data hnext hrequest
    obtain rfl := Option.some.inj (hx.symm.trans hz)
    obtain rfl := Option.some.inj (hdata.symm.trans hnext)
    obtain ⟨q, y, hset, hq, hlost', ⟨-, -, hlease, hholds⟩ | ⟨-, hrelease, -⟩⟩ :=
      at_served config hp hdata env
    · have hheld := holds_of_returned hr hx hset hq (hlost'.trans hlost)
      rw [hholds, hlease] at hheld
      simpa using hheld
    · rw [hrequest] at hrelease
      cases hrelease
  | server hseen he hfrontends hstep => exact inTime_of_harmless he

/-- **No guest is forgotten** by a frontend that is gone, in any state of a run, iff no frontend is lost before it
was told the guest it was granted, and none is granted one when it is lost. -/
theorem returned_iff (config : ServerConfig) (settings : Settings) {es : List ProxyEvent}
    (h : run (step config) (start settings) es = some t) :
    StatesMeet (step config) Returned (start settings) es ↔ StepsMeet (step config) InTime (start settings) es := by
  have hkept : ∀ s e t, s.Orderly ∧ s.Returned → s.InTime e → step config s e = some t → t.Orderly ∧ t.Returned :=
    fun _ _ _ hs hin hstep => ⟨orderly_step hs.1 hstep, returned_step hs.1 hs.2 hin hstep⟩
  exact statesMeet_iff_of_inv hkept (fun _ hs => hs.2)
    (fun _ _ _ hs hstep hreturned => inTime_of_returned hs.1 hstep hreturned)
    ⟨orderly_start settings, by simp [Returned, start]⟩ h

/-- The same client goes before it was told its guest. -/
def hastyVisit : List ProxyEvent := visit.take 5 ++ [.lose 0 true]

theorem visit_returns : StatesMeet (step remoteConfig) Returned (start remote) visit := by
  have hruns : (run (step remoteConfig) (start remote) visit).isSome := by decide +kernel
  exact (returned_iff remoteConfig remote (Option.some_get hruns).symm).mpr (by decide +kernel)

theorem hastyVisit_forgets : ¬ StatesMeet (step remoteConfig) Returned (start remote) hastyVisit := by
  decide +kernel

end Proxy

end Cowrie.Pool
