import Cowrie.SshProxy.Transparency
import Cowrie.SshProxy.Transports

/-!
# Packets through the two transports (`src/cowrie/ssh_proxy/{server,client}_transport.py`)

What `packet_buffer` of either side lets through, over runs of the two transports.

* `AllAccepted cfg parent packets u`: `parse_num_packet` raises for none of the packets, each in the
  state that the ones before it leave.
* **`silent_before_auth`**: until `_cbFinishedAuth` is called no packet of either side is parsed.
* **`step_effect`**: what one event does, for all the invariants below.
* **`inOrder_iff_accepted`**: the frontend's packets are parsed in their order, each once, and none is
  held once the backend is ready, if and only if every loop over the held packets finishes. A packet
  that raises in the loop leaves all of them in `delayedPackets`: the next ones are held for ever
  (`inOrder_violated`).
* **`flows_iff_kept`**: after a success every encrypted packet of the backend is parsed at once, if and
  only if no message of the frontend has cleared the flag and the loop over the held packets finishes.
  A message 50 to 79 does clear it (`flows_violated`).
-/

namespace Cowrie.SshProxy

open Cowrie.Lib

/-! ## The parser does not lose a connection -/

namespace SSH

/-- The connections are as they were. -/
def SameUp (s t : SSH) : Prop := t.up = s.up

variable {α β : Type} {cfg : Config} {parent : Parent}

theorem sameUp_refl (s : SSH) : SameUp s s := rfl

theorem along_then {m : SshM α} {k : α → SshM β} (hm : Along SameUp m)
    (hk : ∀ a, Along SameUp (k a)) : Along SameUp (m >>= k) :=
  along_bind (fun _ _ _ hst htu => htu.trans hst) hm hk

theorem along_query {q : SSH → Except Raised α} : Along SameUp (query q) := fun s => by
  rw [exec_query]
  exact sameUp_refl s

theorem along_extract (f : Packet → α × Packet) : Along SameUp (extract f) := fun _ => rfl

theorem along_setSendOn (on : Bool) : Along SameUp (setSendOn on) := fun _ => rfl

theorem along_sendPacket (dest : Parent) (num : Nat) (payload : Bytes) :
    Along SameUp (sendPacket dest num payload) :=
  along_then along_query fun _ => along_modify fun _ => rfl

theorem along_optional {c : Prop} [Decidable c] {m : SshM Unit} (h : Along SameUp m) :
    Along SameUp (when c m) := along_when sameUp_refl h

theorem along_sendBack (num : Nat) (payload : Bytes) :
    Along SameUp (sendBack cfg parent num payload) :=
  along_then (along_optional along_query) fun _ => along_sendPacket _ _ _

theorem along_branch {c : Prop} [Decidable c] {m m' : SshM α} (h : Along SameUp m)
    (h' : Along SameUp m') : Along SameUp (if c then m else m') := by
  split
  · exact h
  · exact h'

theorem along_serviceRequest : Along SameUp serviceRequest :=
  along_then (along_extract _) fun _ => along_optional (along_setSendOn _)

theorem along_extensions : ∀ n, Along SameUp (extensions n)
  | 0 => along_pure sameUp_refl ()
  | n + 1 => along_then (along_extract _) fun _ => along_then (along_extract _) fun _ =>
      along_extensions n

theorem along_extInfo : Along SameUp extInfo :=
  along_then (along_extract _) fun _ => along_then (along_extensions _) fun _ => along_setSendOn _

theorem along_userauthRequest : Along SameUp userauthRequest := by
  refine along_then (along_setSendOn _) fun _ => along_then (along_extract _) fun _ => ?_
  refine along_then (along_modify fun _ => rfl) fun _ => along_then (along_extract _) fun _ => ?_
  refine along_then (along_extract _) fun _ => along_then (along_modify fun _ => rfl) fun _ => ?_
  refine along_branch ?_ (along_optional (along_sendPacket _ _ _))
  refine along_then (along_extract _) fun _ => along_then (along_extract _) fun _ => ?_
  exact along_modify fun _ => rfl

theorem along_userauthFailure : Along SameUp userauthFailure :=
  along_then (along_setSendOn _) fun _ => along_then (along_extract _) fun _ =>
    along_pure sameUp_refl ()

theorem along_prompts : ∀ n i, Along SameUp (prompts i n)
  | 0, _ => along_pure sameUp_refl ()
  | n + 1, i => by
    refine along_then (along_extract _) fun _ => along_then (along_extract _) fun _ => ?_
    refine along_then (along_optional (along_modify fun _ => rfl)) fun _ => ?_
    exact along_prompts n (i + 1)

theorem along_infoRequest : Along SameUp infoRequest := by
  refine along_then (along_setSendOn _) fun _ => along_then (along_modify fun _ => rfl) fun _ => ?_
  refine along_then (along_extract _) fun _ => along_then (along_extract _) fun _ => ?_
  refine along_then (along_extract _) fun _ => along_then (along_extract _) fun _ => ?_
  exact along_prompts _ 0

theorem along_responses : ∀ n i, Along SameUp (responses i n)
  | 0, _ => along_pure sameUp_refl ()
  | n + 1, i => by
    refine along_then (along_extract _) fun response => along_then (along_modify fun s => ?_) fun _ =>
      along_responses n (i + 1)
    split <;> rfl

theorem along_infoResponse : Along SameUp infoResponse :=
  along_then (along_setSendOn _) fun _ => along_then (along_extract _) fun _ => along_responses _ 0

theorem along_openForwarding (type : Bytes) (n : Nat) :
    Along SameUp (openForwarding cfg parent type n) := by
  refine along_then (along_extract _) fun _ => along_then (along_extract _) fun _ => ?_
  refine along_then (along_extract _) fun _ => along_then (along_extract _) fun _ => ?_
  refine along_then (along_extract _) fun _ => along_then (along_extract _) fun _ => ?_
  refine along_branch ?_ ?_
  · refine along_then (along_modify fun _ => rfl) fun _ => along_then along_query fun _ => ?_
    exact along_modify fun _ => rfl
  · exact along_then (along_setSendOn _) fun _ => along_sendBack _ _

theorem along_channelOpen : Along SameUp (channelOpen cfg parent) := by
  refine along_then (along_extract _) fun _ => along_then (along_extract _) fun _ => ?_
  exact along_branch (along_modify fun _ => rfl) (along_optional (along_openForwarding _ _))

/-- A branch that looks the channel up first. -/
theorem along_lookup {k : Nat × Channel → SshM β} (hk : ∀ r, Along SameUp (k r)) :
    Along SameUp (do
      let n ← extractInt 4
      let r ← query (getChannel n parent)
      k r) :=
  along_then (along_extract _) fun _ => along_then along_query hk

theorem along_openConfirmation : Along SameUp (openConfirmation parent) :=
  along_lookup fun _ => along_then (along_extract _) fun _ => along_modify fun _ => rfl

theorem along_openFailure : Along SameUp (openFailure parent) :=
  along_lookup fun _ => along_modify fun _ => rfl

theorem along_requestShell (i : Nat) (c : Channel) : Along SameUp (requestShell cfg i c) := by
  refine along_then along_query fun _ => along_then (along_modify fun _ => rfl) fun _ => ?_
  exact along_then along_query fun _ => along_modify fun _ => rfl

theorem along_requestExec (i : Nat) (c : Channel) : Along SameUp (requestExec cfg i c) := by
  refine along_then along_query fun _ => along_then (along_modify fun _ => rfl) fun _ => ?_
  refine along_then (along_extract _) fun _ => along_then (along_extract _) fun _ => ?_
  exact along_modify fun _ => rfl

theorem along_requestSubsystem (i : Nat) (c : Channel) :
    Along SameUp (requestSubsystem cfg parent i c) := by
  refine along_then (along_extract _) fun _ => along_then (along_extract _) fun _ => ?_
  refine along_branch (along_branch ?_ ?_) along_query
  · exact along_then along_query fun _ => along_modify fun _ => rfl
  · refine along_then (along_setSendOn _) fun _ => along_then along_query fun _ => ?_
    exact along_sendBack _ _

theorem along_requestEnv : Along SameUp requestEnv := by
  refine along_then (along_extract _) fun _ => along_then (along_extract _) fun _ => ?_
  exact along_then (along_extract _) fun _ => along_then along_query fun _ => along_query

theorem along_channelRequest : Along SameUp (channelRequest cfg parent) := by
  refine along_lookup fun r => along_then (along_extract _) fun type => ?_
  refine along_branch (along_requestShell _ _) (along_branch (along_requestExec _ _) ?_)
  refine along_branch (along_requestSubsystem _ _) (along_branch along_requestEnv ?_)
  exact along_optional along_query

theorem along_channelClose : Along SameUp (channelClose parent) :=
  along_lookup fun _ => along_then (along_modify fun _ => rfl) fun _ =>
    along_optional (along_modify fun _ => rfl)

theorem along_sessionData (i : Nat) (c : Channel) : Along SameUp (sessionData cfg parent i c) := by
  refine along_then along_query fun _ => along_then (along_extract _) fun _ => ?_
  exact along_then (along_modify fun _ => rfl) fun _ => along_query

theorem along_channelData : Along SameUp (channelData cfg parent) :=
  along_lookup fun _ => along_sessionData _ _

theorem along_channelExtendedData : Along SameUp (channelExtendedData cfg parent) :=
  along_lookup fun _ => along_then (along_extract _) fun _ => along_sessionData _ _

theorem along_globalRequest : Along SameUp (globalRequest cfg parent) :=
  along_then (along_extract _) fun _ => along_optional <|
    along_then (along_setSendOn _) fun _ => along_sendBack _ _

theorem along_dispatch (num : Nat) : Along SameUp (dispatch cfg parent num) := by
  fun_cases dispatch cfg parent num with
  | case1 => exact along_serviceRequest
  | case2 => exact along_setSendOn _
  | case3 => exact along_extInfo
  | case4 => exact along_userauthRequest
  | case5 => exact along_userauthFailure
  | case6 => exact along_setSendOn _
  | case7 => exact along_infoRequest
  | case8 => exact along_infoResponse
  | case9 => exact along_channelOpen
  | case10 => exact along_openConfirmation
  | case11 => exact along_openFailure
  | case12 => exact along_channelRequest
  | case13 => exact along_channelClose
  | case14 => exact along_channelData
  | case15 => exact along_channelExtendedData
  | case16 => exact along_globalRequest
  | case17 => exact along_pure sameUp_refl ()

theorem along_parseNumPacket (cfg : Config) (parent : Parent) (num : Nat) (payload : Bytes) :
    Along SameUp (parseNumPacket cfg parent num payload) := by
  refine along_then (along_modify fun _ => rfl) fun _ => ?_
  refine along_then (along_optional along_query) fun _ => along_then (along_dispatch num) fun _ => ?_
  exact along_get fun _ => along_optional (along_sendPacket _ _ _)

theorem exec_sendPacket {u : SSH} {dest : Parent} (h : u.up dest = true) (num : Nat) (payload : Bytes) :
    exec (sendPacket dest num payload) u =
      (.ok (), { u with sent := u.sent ++ [(dest, num, payload)] }) := by
  unfold sendPacket
  rw [exec_bind, exec_query, h]
  rfl

theorem exec_sendPacket_down {u : SSH} {dest : Parent} (h : u.up dest = false) (num : Nat)
    (payload : Bytes) : exec (sendPacket dest num payload) u = (.error .attributeError, u) := by
  unfold sendPacket
  rw [exec_bind, exec_query, h]
  rfl

end SSH

/-! ## What one event does -/

namespace Proxy

variable {cfg : Config} {parent : Parent} {s t : Proxy}

/-- None of the packets raises, each in the state that the ones before it leave. -/
def AllAccepted (cfg : Config) (parent : Parent) : List (Nat × Bytes) → SSH → Prop
  | [], _ => True
  | packet :: packets, u => SSH.Accepted cfg parent packet.1 packet.2 u ∧
      AllAccepted cfg parent packets (exec (SSH.parseNumPacket cfg parent packet.1 packet.2) u).2

/-- After `parse_num_packet` for some packets. -/
def parsed (parent : Parent) (packets : List (Nat × Bytes)) (u : SSH) (s : Proxy) : Proxy :=
  { s with sshParse := u, calls := s.calls ++ packets.map fun packet => (parent, packet) }

def arriving (parent : Parent) (packet : Nat × Bytes) (s : Proxy) : Proxy :=
  { s with arrived := s.arrived ++ [(parent, packet)] }

/-- The backend's object after a change, if there is one. -/
def onClient (f : Backend → Backend) (s : Proxy) : Proxy := { s with client := s.client.map f }

def canAuth (s : Proxy) : Bool := s.client.elim false Backend.canAuth

def sending (packets : List (Parent × Nat × Bytes)) (s : Proxy) : Proxy :=
  { s with sshParse := { s.sshParse with sent := s.sshParse.sent ++ packets } }

/-- `_cbFinishedAuth` before it turns to the backend. -/
def success (s : Proxy) : Proxy :=
  { s.sending [(.server, 52, [])] with frontendAuthenticated := true, succeeded := true }

/-- `connectionSecure` before it authenticates. -/
def secured (s : Proxy) : Proxy := s.onClient fun b => { b with canAuth := true }

/-- `authenticateBackend` where its loop begins. -/
def connecting (cfg : Config) (s : Proxy) : Proxy :=
  { s.sending [(.client, 5, SSH.binStringToHex (encode "ssh-userauth")),
      (.client, 50, userauthPayload cfg)] with backendConnected := true }

/-- `authenticateBackend` from its loop on. -/
inductive Drain (cfg : Config) (s : Proxy) : Proxy → Prop
  | finished (u : SSH) (hup : u.up = s.sshParse.up)
      (h : AllAccepted cfg .server s.delayedPackets s.sshParse) :
      Drain cfg s ({ s.parsed .server s.delayedPackets u with delayedPackets := [] }.onClient
        fun b => { b with authDone := true })
  | stuck (done : List (Nat × Bytes)) (u : SSH) (hup : u.up = s.sshParse.up)
      (h : ¬ AllAccepted cfg .server s.delayedPackets s.sshParse) :
      Drain cfg s (s.parsed .server done u)

/-- Hold a packet of the backend. -/
def keeping (packet : Nat × Bytes) (s : Proxy) : Proxy :=
  s.onClient fun b => { b with delayedPackets := b.delayedPackets ++ [packet] }

/-- `packet_buffer` of the backend, from the test of `frontendAuthenticated` on. -/
inductive Buffered (cfg : Config) (s : Proxy) (packet : Nat × Bytes) : Proxy → Prop
  | held (h : s.frontendAuthenticated = false) : Buffered cfg s packet (s.keeping packet)
  | passed (u : SSH) (hauth : s.frontendAuthenticated = true) (hheld : s.held = [])
      (hup : u.up = s.sshParse.up) : Buffered cfg s packet (s.parsed .client [packet] u)
  | flushed (u : SSH) (hauth : s.frontendAuthenticated = true) (hheld : s.held ≠ [])
      (hup : u.up = s.sshParse.up) (h : AllAccepted cfg .client (s.held ++ [packet]) s.sshParse) :
      Buffered cfg s packet (((s.keeping packet).parsed .client (s.held ++ [packet]) u).onClient
        fun b => { b with delayedPackets := [] })
  | stuck (done : List (Nat × Bytes)) (u : SSH) (hauth : s.frontendAuthenticated = true)
      (hheld : s.held ≠ []) (hup : u.up = s.sshParse.up)
      (h : ¬ AllAccepted cfg .client (s.held ++ [packet]) s.sshParse) :
      Buffered cfg s packet ((s.keeping packet).parsed .client done u)

/-- Exit codes are noted. -/
def noting (codes : List Nat) (s : Proxy) : Proxy :=
  s.onClient fun b => { b with exitCodes := b.exitCodes ++ codes }

/-- What an event does. -/
inductive Effect (cfg : Config) (s : Proxy) : Event → Proxy → Prop
  | unread (encrypted : Bool) (packet : Nat × Bytes) (h : packet.1 = 5 ∨ encrypted = false) :
      Effect cfg s (.frontendMessage encrypted packet) s
  | cleared (encrypted : Bool) (packet : Nat × Bytes) (h : 50 ≤ packet.1 ∧ packet.1 ≤ 79) :
      Effect cfg s (.frontendMessage encrypted packet) { s with frontendAuthenticated := false }
  | delayed (packet : Nat × Bytes) (h : s.backendConnected = false ∨ s.delayedPackets ≠ []) :
      Effect cfg s (.frontendMessage true packet)
        { s.arriving .server packet with delayedPackets := s.delayedPackets ++ [packet] }
  | forwarded (packet : Nat × Bytes) (u : SSH) (h : s.backendConnected = true)
      (hnone : s.delayedPackets = []) (hup : u.up = s.sshParse.up) :
      Effect cfg s (.frontendMessage true packet) ((s.arriving .server packet).parsed .server [packet] u)
  | unsent (h : s.sshParse.up .server = false) : Effect cfg s .finishedAuth s
  | finished (h : s.canAuth = false ∨ s.sshParse.up .client = false) :
      Effect cfg s .finishedAuth s.success
  | connected (hserver : s.sshParse.up .server = true) (hcan : s.canAuth = true)
      (hup : s.sshParse.up .client = true) (t : Proxy) (ht : Drain cfg (s.success.connecting cfg) t) :
      Effect cfg s .finishedAuth t
  | made (h : s.client = none) : Effect cfg s .backendMade
      { s with client := some {}, sshParse := { s.sshParse with clientUp := true } }
  | secure (h : s.frontendAuthenticated = false ∨ s.sshParse.up .client = false) :
      Effect cfg s .backendSecure s.secured
  | secureConnected (hauth : s.frontendAuthenticated = true) (hup : s.sshParse.up .client = true)
      (t : Proxy) (ht : Drain cfg (s.secured.connecting cfg) t) : Effect cfg s .backendSecure t
  | unbuffered (encrypted : Bool) (packet : Nat × Bytes) (codes : List Nat)
      (h : packet.1 = 6 ∨ packet.1 = 52 ∨ encrypted = false) :
      Effect cfg s (.backendMessage encrypted packet) (s.noting codes)
  | buffered (packet : Nat × Bytes) (codes : List Nat) (t : Proxy)
      (h : packet.1 ≠ 6 ∧ packet.1 ≠ 52) (hclient : s.client.isSome = true)
      (ht : Buffered cfg ((s.noting codes).arriving .client packet) packet t) :
      Effect cfg s (.backendMessage true packet) t
  | frontendLost : Effect cfg s .frontendLost
      { s with sshParse := { s.sshParse with serverUp := false } }
  | backendLost : Effect cfg s .backendLost
      { s with sshParse := { s.sshParse with clientUp := false } }

theorem exec_onSsh {α : Type} (m : SshM α) (s : Proxy) :
    exec (parser m) s = ((exec m s.sshParse).1, { s with sshParse := (exec m s.sshParse).2 }) :=
  exec_zoom _ _ m s

theorem exec_parseNumPacket (cfg : Config) (parent : Parent) (packet : Nat × Bytes) (s : Proxy) :
    exec (parseNumPacket cfg parent packet) s =
      ((exec (SSH.parseNumPacket cfg parent packet.1 packet.2) s.sshParse).1,
        s.parsed parent [packet]
          (exec (SSH.parseNumPacket cfg parent packet.1 packet.2) s.sshParse).2) := by
  unfold parseNumPacket
  rw [exec_modify_bind, exec_onSsh]
  rfl

theorem parsed_parsed (done packets : List (Nat × Bytes)) (u v : SSH) :
    (s.parsed parent done u).parsed parent packets v = s.parsed parent (done ++ packets) v := by
  simp [parsed]

/-- **The loop over held packets.** -/
theorem ensures_parseAll (cfg : Config) (parent : Parent) (packets : List (Nat × Bytes)) (s : Proxy) :
    Ensures (fun t => ¬ AllAccepted cfg parent packets s.sshParse ∧
        ∃ done u, u.up = s.sshParse.up ∧ t = s.parsed parent done u)
      (parseAll cfg parent packets)
      (fun _ t => AllAccepted cfg parent packets s.sshParse ∧
        ∃ u, u.up = s.sshParse.up ∧ t = s.parsed parent packets u) s := by
  induction packets generalizing s with
  | nil => exact ⟨trivial, s.sshParse, rfl, by simp [parsed]⟩
  | cons packet packets ih =>
    unfold parseAll AllAccepted
    have hiff := (SSH.returns_parseNumPacket cfg parent packet.1 packet.2 s.sshParse).iff
    have hup := SSH.along_parseNumPacket cfg parent packet.1 packet.2 s.sshParse
    have hexec := exec_parseNumPacket cfg parent packet s
    cases hone : exec (SSH.parseNumPacket cfg parent packet.1 packet.2) s.sshParse with
    | mk r u =>
      rw [hone] at hup hexec
      rw [ensures_bind]
      unfold Ensures
      rw [hexec]
      cases r with
      | error e =>
        refine ⟨fun hall => ?_, [packet], u, hup, rfl⟩
        obtain ⟨a, v, hok⟩ := hiff.mpr hall.1
        rw [hone] at hok
        cases hok
      | ok a =>
        have hacc := hiff.mp ⟨a, u, hone⟩
        refine (ih (s.parsed parent [packet] u)).mono ?_ ?_
        · rintro t ⟨hnot, done, v, hv, rfl⟩
          refine ⟨fun hall => hnot hall.2, packet :: done, v, hv.trans hup, ?_⟩
          exact parsed_parsed [packet] done u v
        · rintro _ t - ⟨hall, v, hv, rfl⟩
          exact ⟨⟨hacc, hall⟩, v, hv.trans hup, parsed_parsed [packet] packets u v⟩

theorem canAuth_iff : s.client.map Backend.canAuth = some true ↔ s.canAuth = true := by
  unfold canAuth
  cases s.client <;> simp

theorem drain_connectBackend (hup : s.sshParse.up .client = true) :
    Drain cfg (s.connecting cfg) (exec (connectBackend cfg) s).2 := by
  unfold connectBackend
  rw [exec_bind_ok (by rw [exec_onSsh, SSH.exec_sendPacket hup]),
    exec_bind_ok (by rw [exec_onSsh, SSH.exec_sendPacket (by exact hup)]), exec_modify_bind,
    exec_get_bind]
  have hstart : s.connecting cfg = { s with
      sshParse := { s.sshParse with sent := s.sshParse.sent ++
        [(.client, 5, SSH.binStringToHex (encode "ssh-userauth"))] ++
          [(.client, 50, userauthPayload cfg)] }
      backendConnected := true } := by
    simp [connecting, sending]
  rw [← hstart]
  have hall := ensures_parseAll cfg .server (s.connecting cfg).delayedPackets
    (s.connecting cfg)
  unfold Ensures at hall
  cases hexec : exec (parseAll cfg .server (s.connecting cfg).delayedPackets) (s.connecting cfg) with
  | mk r t =>
    rw [hexec] at hall
    cases r with
    | error e =>
      obtain ⟨hnot, done, u, hu, rfl⟩ := hall
      rw [exec_bind_error hexec]
      exact .stuck done u hu hnot
    | ok a =>
      obtain ⟨hacc, u, hu, rfl⟩ := hall
      rw [exec_bind_ok hexec, exec_modify_bind]
      exact .finished u hu hacc

theorem exec_connectBackend_down (hup : s.sshParse.up .client = false) :
    exec (connectBackend cfg) s = (.error .attributeError, s) := by
  unfold connectBackend
  rw [exec_bind_error (by rw [exec_onSsh, SSH.exec_sendPacket_down hup])]

/-- `authenticateBackend` does nothing, or gets to its loop. -/
theorem authenticateBackend_cases (cfg : Config) (s : Proxy) :
    ((s.frontendAuthenticated = false ∨ s.canAuth = false ∨ s.sshParse.up .client = false) ∧
        (exec (authenticateBackend cfg) s).2 = s) ∨
      (s.frontendAuthenticated = true ∧ s.canAuth = true ∧ s.sshParse.up .client = true ∧
        Drain cfg (s.connecting cfg) (exec (authenticateBackend cfg) s).2) := by
  unfold authenticateBackend
  rw [exec_get_bind]
  by_cases hready : s.frontendAuthenticated = true ∧ s.client.map Backend.canAuth = some true
  · rw [when_true hready]
    cases hup : s.sshParse.up .client with
    | false =>
      rw [exec_connectBackend_down hup]
      exact Or.inl ⟨Or.inr (Or.inr rfl), rfl⟩
    | true => exact Or.inr ⟨hready.1, canAuth_iff.mp hready.2, rfl, drain_connectBackend hup⟩
  · rw [when_false hready]
    refine Or.inl ⟨?_, rfl⟩
    cases hauth : s.frontendAuthenticated with
    | false => exact Or.inl rfl
    | true =>
      exact Or.inr (Or.inl (Bool.eq_false_iff.mpr fun h => hready ⟨hauth, canAuth_iff.mpr h⟩))

theorem canAuth_of_none (h : s.client = none) : s.canAuth = false := by
  unfold canAuth
  rw [h]
  rfl

theorem effect_finishedAuth (s : Proxy) :
    Effect cfg s .finishedAuth (exec (cbFinishedAuth cfg) s).2 := by
  unfold cbFinishedAuth
  cases hup : s.sshParse.up .server with
  | false =>
    rw [exec_bind_error (by rw [exec_onSsh, SSH.exec_sendPacket_down hup])]
    exact .unsent hup
  | true =>
    rw [exec_bind_ok (by rw [exec_onSsh, SSH.exec_sendPacket hup]), exec_modify_bind, exec_get_bind]
    by_cases hclient : s.client.isSome = true
    · rw [when_true hclient]
      rcases authenticateBackend_cases cfg s.success with
        ⟨hnot, hs⟩ | ⟨-, hcan, hclient, hd⟩
      · have heffect : Effect cfg s .finishedAuth s.success :=
          .finished (hnot.resolve_left (by simp [success]))
        rw [← hs] at heffect
        exact heffect
      · exact .connected hup (show s.canAuth = true from hcan) hclient _ hd
    · rw [when_false hclient]
      exact .finished (Or.inl (canAuth_of_none (Option.not_isSome_iff_eq_none.mp hclient)))

theorem canAuth_secured (h : s.client.isSome = true) : s.secured.canAuth = true := by
  obtain ⟨b, hb⟩ := Option.isSome_iff_exists.mp h
  simp [canAuth, secured, onClient, hb]

theorem effect_connectionSecure (s : Proxy) (hclient : s.client.isSome = true) :
    Effect cfg s .backendSecure (exec (connectionSecure cfg) s).2 := by
  unfold connectionSecure modifyClient
  rw [exec_modify_bind]
  rcases authenticateBackend_cases cfg s.secured with ⟨hnot, hs⟩ | ⟨hauth, -, hup, hd⟩
  · have heffect : Effect cfg s .backendSecure s.secured := by
      refine .secure (hnot.imp_right fun h => h.resolve_left ?_)
      rw [canAuth_secured hclient]
      exact Bool.true_eq_false_eq_False
    rw [← hs] at heffect
    exact heffect
  · exact .secureConnected (show s.frontendAuthenticated = true from hauth) hup _ hd

theorem effect_frontendDispatch (encrypted : Bool) (packet : Nat × Bytes) (s : Proxy) :
    Effect cfg s (.frontendMessage encrypted packet)
      (exec (frontendDispatch cfg encrypted packet) s).2 := by
  unfold frontendDispatch
  by_cases hservice : packet.1 = 5
  · rw [if_pos hservice]
    exact .unread _ _ (Or.inl hservice)
  rw [if_neg hservice]
  by_cases hauth : 50 ≤ packet.1 ∧ packet.1 ≤ 79
  · rw [if_pos hauth]
    exact .cleared _ _ hauth
  rw [if_neg hauth]
  cases encrypted with
  | false =>
    rw [when_false (by simp)]
    exact .unread _ _ (Or.inr rfl)
  | true =>
    rw [when_true rfl]
    unfold frontendBuffer
    rw [exec_modify_bind, exec_get_bind]
    by_cases hheld : s.backendConnected = false ∨ s.delayedPackets ≠ []
    · rw [if_pos hheld]
      exact .delayed packet hheld
    · rw [if_neg hheld, exec_parseNumPacket]
      obtain ⟨hconn, hnone⟩ := not_or.mp hheld
      exact .forwarded packet _ (by simpa using hconn) (not_not.mp hnone)
        (SSH.along_parseNumPacket cfg _ _ _ _)

theorem held_keeping (h : s.client.isSome = true) (packet : Nat × Bytes) :
    (s.keeping packet).held = s.held ++ [packet] := by
  obtain ⟨b, hb⟩ := Option.isSome_iff_exists.mp h
  simp [held, keeping, onClient, hb]

theorem buffered_backendBuffer (packet : Nat × Bytes) (s : Proxy) (hclient : s.client.isSome = true) :
    Buffered cfg (s.arriving .client packet) packet (exec (backendBuffer cfg packet) s).2 := by
  unfold backendBuffer
  rw [exec_modify_bind, exec_get_bind]
  have hstart : ({ s with arrived := s.arrived ++ [(Parent.client, packet)] } : Proxy) =
      s.arriving .client packet := rfl
  rw [hstart]
  cases hauth : (s.arriving .client packet).frontendAuthenticated with
  | false =>
    rw [if_pos rfl]
    exact .held hauth
  | true =>
    rw [if_neg (by simp)]
    by_cases hheld : (s.arriving .client packet).held = []
    · rw [if_neg (not_not.mpr hheld), exec_parseNumPacket]
      exact .passed _ hauth hheld (SSH.along_parseNumPacket cfg _ _ _ _)
    · rw [if_pos hheld]
      unfold modifyClient
      rw [exec_modify_bind, exec_get_bind]
      have hkept := held_keeping (s := s.arriving .client packet) hclient packet
      have hall := ensures_parseAll cfg .client
        ((s.arriving .client packet).keeping packet).held ((s.arriving .client packet).keeping packet)
      unfold Ensures at hall
      cases hexec : exec (parseAll cfg .client ((s.arriving .client packet).keeping packet).held)
          ((s.arriving .client packet).keeping packet) with
      | mk r t =>
        rw [hexec, hkept] at hall
        cases r with
        | error e =>
          obtain ⟨hnot, done, u, hu, rfl⟩ := hall
          rw [exec_bind_error (by exact hexec)]
          exact .stuck done u hauth hheld hu hnot
        | ok a =>
          obtain ⟨hacc, u, hu, rfl⟩ := hall
          rw [exec_bind_ok (by exact hexec)]
          exact .flushed u hauth hheld hu hacc

theorem noting_nil (s : Proxy) : s.noting [] = s := by
  cases s with
  | mk _ _ _ _ client _ _ _ => cases client <;> simp [noting, onClient]

theorem effect_backendDispatch (encrypted : Bool) (packet : Nat × Bytes) (s : Proxy)
    (hclient : s.client.isSome = true) :
    Effect cfg s (.backendMessage encrypted packet)
      (exec (backendDispatch cfg encrypted packet) s).2 := by
  unfold backendDispatch
  by_cases hskip : packet.1 = 6 ∨ packet.1 = 52
  · rw [if_pos hskip]
    have heffect : Effect cfg s (.backendMessage encrypted packet) (s.noting []) :=
      .unbuffered encrypted packet [] (hskip.imp_right Or.inl)
    rwa [noting_nil] at heffect
  rw [if_neg hskip]
  -- the exit codes that the packet adds
  obtain ⟨codes, hcodes⟩ : ∃ codes, exec (when (packet.1 = 98) (modifyClient fun b =>
      { b with exitCodes := b.exitCodes ++ (exitStatus packet.2).toList })) s =
        (.ok (), s.noting codes) := by
    by_cases hnum : packet.1 = 98
    · rw [when_true hnum]
      exact ⟨_, rfl⟩
    · rw [when_false hnum]
      exact ⟨[], by rw [noting_nil]; rfl⟩
  rw [exec_bind_ok hcodes]
  cases encrypted with
  | false =>
    rw [when_false (by simp)]
    exact .unbuffered _ _ codes (Or.inr (Or.inr rfl))
  | true =>
    rw [when_true rfl]
    refine .buffered packet codes _ (not_or.mp hskip) hclient (buffered_backendBuffer packet _ ?_)
    simpa [noting, onClient] using hclient

/-- **What a step does.** -/
theorem step_effect {e : Event} (h : step cfg s e = some t) : Effect cfg s e t := by
  unfold step at h
  split at h
  · rename_i hpossible
    obtain rfl := Option.some.inj h
    cases e with
    | frontendMessage encrypted packet => exact effect_frontendDispatch encrypted packet s
    | finishedAuth => exact effect_finishedAuth s
    | backendMade => exact .made (Option.isNone_iff_eq_none.mp hpossible)
    | backendSecure => exact effect_connectionSecure s hpossible
    | backendMessage encrypted packet => exact effect_backendDispatch encrypted packet s hpossible
    | frontendLost => exact .frontendLost
    | backendLost => exact .backendLost
  · cases h

/-! ## Before the success -/

/-- Nothing has been parsed and nothing sent. -/
structure Silent (s : Proxy) : Prop where
  calls : s.calls = []
  sent : s.sshParse.sent = []
  connected : s.backendConnected = false
  authenticated : s.frontendAuthenticated = false

theorem silent_step {e : Event} (h : Silent s) (hne : e ≠ .finishedAuth)
    (hstep : step cfg s e = some t) : Silent t := by
  cases step_effect hstep with
  | unread _ _ _ => exact h
  | cleared _ _ _ => exact ⟨h.calls, h.sent, h.connected, rfl⟩
  | delayed _ _ => exact ⟨h.calls, h.sent, h.connected, h.authenticated⟩
  | forwarded _ _ hconn _ _ => exact absurd (h.connected.symm.trans hconn) (by simp)
  | unsent _ => exact absurd rfl hne
  | finished _ => exact absurd rfl hne
  | connected _ _ _ _ _ => exact absurd rfl hne
  | made _ => exact ⟨h.calls, h.sent, h.connected, h.authenticated⟩
  | secure _ => exact ⟨h.calls, h.sent, h.connected, h.authenticated⟩
  | secureConnected hauth _ _ _ => exact absurd (h.authenticated.symm.trans hauth) (by simp)
  | unbuffered _ _ _ _ => exact ⟨h.calls, h.sent, h.connected, h.authenticated⟩
  | buffered _ _ _ _ _ ht =>
    have hauth := h.authenticated
    cases ht with
    | held _ => exact ⟨h.calls, h.sent, h.connected, h.authenticated⟩
    | passed _ hset _ _ => exact absurd (hauth.symm.trans hset) (by simp)
    | flushed _ hset _ _ _ => exact absurd (hauth.symm.trans hset) (by simp)
    | stuck _ _ hset _ _ _ => exact absurd (hauth.symm.trans hset) (by simp)
  | frontendLost => exact ⟨h.calls, h.sent, h.connected, h.authenticated⟩
  | backendLost => exact ⟨h.calls, h.sent, h.connected, h.authenticated⟩

theorem silent_run {es : List Event} (hnot : .finishedAuth ∉ es) (h : Silent s)
    (hrun : run (step cfg) s es = some t) : Silent t := by
  induction es generalizing s with
  | nil =>
    obtain rfl : s = t := by simpa using hrun
    exact h
  | cons e es ih =>
    obtain ⟨u, hu, hrest⟩ := run_cons.mp hrun
    have hne : e ≠ .finishedAuth := fun he => hnot (he ▸ List.mem_cons_self)
    exact ih (fun hmem => hnot (List.mem_cons_of_mem _ hmem)) (silent_step h hne hu) hrest

/-- **Nothing crosses the proxy before the success.** -/
theorem silent_before_auth (cfg : Config) (es : List Event) (s : Proxy)
    (hrun : run (step cfg) {} es = some s) (hnot : .finishedAuth ∉ es) :
    s.calls = [] ∧ s.sshParse.sent = [] :=
  have h := silent_run hnot ⟨rfl, rfl, rfl, rfl⟩ hrun
  ⟨h.calls, h.sent⟩

/-- Both ends talk before anybody has authenticated. -/
def early : List Event :=
  [.frontendMessage true (80, []), .backendMade, .backendSecure, .backendMessage true (90, []),
    .frontendMessage true (50, []), .frontendLost]

theorem silent_before_auth_early :
    ∃ s, run (step SSH.enabled) {} early = some s ∧ .finishedAuth ∉ early ∧
      s.delayedPackets = [(80, [])] ∧ s.held = [(90, [])] ∧ s.calls = [] ∧ s.sshParse.sent = [] :=
  ⟨_, rfl, by decide, rfl, rfl, silent_before_auth SSH.enabled early _ rfl (by decide)⟩

/-! ## The frontend's packets -/

/-- The packets of one side. -/
def fromSide (parent : Parent) (xs : List (Parent × Nat × Bytes)) : List (Nat × Bytes) :=
  (xs.filter fun x => x.1 = parent).map Prod.snd

/-- The packets of one side that `parse_num_packet` has got. -/
def handed (parent : Parent) (s : Proxy) : List (Nat × Bytes) := fromSide parent s.calls

def arrivedFrom (parent : Parent) (s : Proxy) : List (Nat × Bytes) := fromSide parent s.arrived

/-- The frontend's packets have been parsed in their order, but for the ones held; none is held once
the backend is ready, which it is as soon as both ends can authenticate. -/
structure InOrder (s : Proxy) : Prop where
  order : s.handed .server ++ s.delayedPackets = s.arrivedFrom .server
  passed : s.backendConnected = true → s.delayedPackets = []
  ready : s.frontendAuthenticated = true → s.canAuth = true → s.sshParse.up .client = true →
    s.backendConnected = true

/-- The state in which the loop of `authenticateBackend` begins, if the event gets there. -/
def loopStart (cfg : Config) (s : Proxy) : Event → Option Proxy
  | .finishedAuth =>
    if s.sshParse.up .server ∧ s.canAuth ∧ s.sshParse.up .client then some (s.success.connecting cfg)
    else none
  | .backendSecure =>
    if s.frontendAuthenticated ∧ s.sshParse.up .client then some (s.secured.connecting cfg) else none
  | _ => none

/-- No packet raises in the loop of `authenticateBackend`. -/
def LoopFinishes (cfg : Config) (s : Proxy) (e : Event) : Prop :=
  ∀ u, s.loopStart cfg e = some u → AllAccepted cfg .server u.delayedPackets u.sshParse

theorem fromSide_append (parent : Parent) (xs ys : List (Parent × Nat × Bytes)) :
    fromSide parent (xs ++ ys) = fromSide parent xs ++ fromSide parent ys := by
  simp [fromSide]

@[simp] theorem fromSide_same (parent : Parent) (packets : List (Nat × Bytes)) :
    fromSide parent (packets.map fun packet => (parent, packet)) = packets := by
  induction packets with
  | nil => rfl
  | cons packet packets ih => simpa [fromSide] using ih

theorem fromSide_other {parent other : Parent} (h : other ≠ parent) (packets : List (Nat × Bytes)) :
    fromSide parent (packets.map fun packet => (other, packet)) = [] := by
  induction packets with
  | nil => rfl
  | cons packet packets ih => simpa [fromSide, h] using ih

@[simp] theorem handed_parsed (packets : List (Nat × Bytes)) (u : SSH) :
    (s.parsed parent packets u).handed parent = s.handed parent ++ packets := by
  unfold handed parsed
  rw [fromSide_append, fromSide_same]

theorem handed_parsed_other {other : Parent} (h : other ≠ parent) (packets : List (Nat × Bytes))
    (u : SSH) : (s.parsed other packets u).handed parent = s.handed parent := by
  unfold handed parsed
  rw [fromSide_append, fromSide_other h, List.append_nil]

@[simp] theorem arrivedFrom_arriving (packet : Nat × Bytes) :
    (s.arriving parent packet).arrivedFrom parent = s.arrivedFrom parent ++ [packet] := by
  unfold arrivedFrom arriving
  rw [fromSide_append]
  exact congrArg _ (fromSide_same parent [packet])

theorem arrivedFrom_arriving_other {other : Parent} (h : other ≠ parent) (packet : Nat × Bytes) :
    (s.arriving other packet).arrivedFrom parent = s.arrivedFrom parent := by
  unfold arrivedFrom arriving
  rw [fromSide_append, show fromSide parent [(other, packet)] = [] from fromSide_other h [packet],
    List.append_nil]

/-- Nothing that the frontend's packets depend on changes. -/
structure SameFront (s t : Proxy) : Prop where
  handed : t.handed .server = s.handed .server
  arrived : t.arrivedFrom .server = s.arrivedFrom .server
  delayedPackets : t.delayedPackets = s.delayedPackets
  backendConnected : t.backendConnected = s.backendConnected
  frontendAuthenticated : t.frontendAuthenticated = s.frontendAuthenticated
  canAuth : t.canAuth = s.canAuth
  up : t.sshParse.up = s.sshParse.up

theorem InOrder.congr (h : InOrder s) (hsame : SameFront s t) : InOrder t where
  order := by rw [hsame.handed, hsame.delayedPackets, hsame.arrived, h.order]
  passed hconn := by
    rw [hsame.delayedPackets]
    exact h.passed (hsame.backendConnected ▸ hconn)
  ready hauth hcan hup := by
    rw [hsame.backendConnected]
    exact h.ready (hsame.frontendAuthenticated ▸ hauth) (hsame.canAuth ▸ hcan) (hsame.up ▸ hup)

theorem SameFront.trans {u : Proxy} (h : SameFront s t) (h' : SameFront t u) : SameFront s u where
  handed := h'.handed.trans h.handed
  arrived := h'.arrived.trans h.arrived
  delayedPackets := h'.delayedPackets.trans h.delayedPackets
  backendConnected := h'.backendConnected.trans h.backendConnected
  frontendAuthenticated := h'.frontendAuthenticated.trans h.frontendAuthenticated
  canAuth := h'.canAuth.trans h.canAuth
  up := h'.up.trans h.up

theorem sameFront_onClient {f : Backend → Backend} (h : ∀ b, (f b).canAuth = b.canAuth) (s : Proxy) :
    SameFront s (s.onClient f) := by
  refine ⟨rfl, rfl, rfl, rfl, rfl, ?_, rfl⟩
  unfold canAuth onClient
  cases hc : s.client with
  | none => rfl
  | some b => exact h b

theorem sameFront_arriving (packet : Nat × Bytes) (s : Proxy) :
    SameFront s (s.arriving .client packet) :=
  ⟨rfl, arrivedFrom_arriving_other (by decide) packet, rfl, rfl, rfl, rfl, rfl⟩

theorem sameFront_parsed (packets : List (Nat × Bytes)) {u : SSH} (hup : u.up = s.sshParse.up) :
    SameFront s (s.parsed .client packets u) :=
  ⟨handed_parsed_other (by decide) packets u, rfl, rfl, rfl, rfl, rfl, hup⟩

theorem sameFront_buffered {packet : Nat × Bytes} (h : Buffered cfg s packet t) : SameFront s t := by
  have hkeep : SameFront s (s.keeping packet) := sameFront_onClient (by intro b; rfl) s
  cases h with
  | held _ => exact hkeep
  | passed u _ _ hup => exact sameFront_parsed _ hup
  | flushed u _ _ hup _ =>
    exact (hkeep.trans (sameFront_parsed _ hup)).trans (sameFront_onClient (by intro b; rfl) _)
  | stuck done u _ _ hup _ => exact hkeep.trans (sameFront_parsed _ hup)

/-- The loop keeps the order if it finishes. -/
theorem inOrder_drain (horder : s.handed .server ++ s.delayedPackets = s.arrivedFrom .server)
    (hconn : s.backendConnected = true)
    (hacc : AllAccepted cfg .server s.delayedPackets s.sshParse) (h : Drain cfg s t) : InOrder t := by
  cases h with
  | finished u _ _ =>
    refine InOrder.congr ?_ (sameFront_onClient (by intro b; rfl) _)
    refine ⟨?_, fun _ => rfl, fun _ _ _ => hconn⟩
    have hhanded : (s.parsed .server s.delayedPackets u).handed .server =
        s.handed .server ++ s.delayedPackets := handed_parsed _ u
    rw [List.append_nil]
    exact hhanded.trans horder
  | stuck _ _ _ hnot => exact absurd hacc hnot

/-- A state in order was not left by a loop that raised. -/
theorem accepted_of_drain (hconn : s.backendConnected = true) (h : Drain cfg s t) (ht : InOrder t) :
    AllAccepted cfg .server s.delayedPackets s.sshParse := by
  cases h with
  | finished _ _ hacc => exact hacc
  | stuck done u _ _ =>
    have hnone : s.delayedPackets = [] := ht.passed hconn
    rw [hnone]
    trivial

theorem inOrder_step {e : Event} (h : InOrder s) (hloop : LoopFinishes cfg s e)
    (hstep : step cfg s e = some t) : InOrder t := by
  cases step_effect hstep with
  | unread _ _ _ => exact h
  | cleared _ _ _ => exact ⟨h.order, h.passed, fun hauth => absurd hauth (by simp)⟩
  | delayed packet hheld =>
    have hconn : s.backendConnected = false := by
      rcases hheld with hconn | hne
      · exact hconn
      · exact Bool.eq_false_iff.mpr fun hconn => hne (h.passed hconn)
    refine ⟨?_, fun hset => absurd (hconn.symm.trans hset) (by simp), h.ready⟩
    change s.handed .server ++ (s.delayedPackets ++ [packet]) =
      (s.arriving .server packet).arrivedFrom .server
    rw [arrivedFrom_arriving, ← h.order, List.append_assoc]
  | forwarded packet u hconn hnone hup =>
    refine ⟨?_, fun _ => hnone, fun _ _ _ => hconn⟩
    have horder := h.order
    rw [hnone, List.append_nil] at horder
    change ((s.arriving .server packet).parsed .server [packet] u).handed .server ++ s.delayedPackets =
      (s.arriving .server packet).arrivedFrom .server
    rw [arrivedFrom_arriving, handed_parsed, hnone, List.append_nil, ← horder]
    rfl
  | unsent _ => exact h
  | finished hdown =>
    refine ⟨h.order, h.passed, fun _ hcan hup => ?_⟩
    rcases hdown with hdown | hdown
    · exact absurd (hdown.symm.trans hcan) (by simp)
    · exact absurd (hdown.symm.trans hup) (by simp)
  | connected hserver hcan hup t hd =>
    refine inOrder_drain (by exact h.order) rfl (hloop _ ?_) hd
    exact if_pos ⟨hserver, hcan, hup⟩
  | made _ => exact ⟨h.order, h.passed, fun _ hcan => absurd hcan (by simp [canAuth])⟩
  | secure hdown =>
    refine ⟨h.order, h.passed, fun hauth _ hup => ?_⟩
    rcases hdown with hdown | hdown
    · exact absurd (hdown.symm.trans hauth) (by simp)
    · exact absurd (hdown.symm.trans hup) (by simp)
  | secureConnected hauth hup t hd =>
    refine inOrder_drain (by exact h.order) rfl (hloop _ ?_) hd
    exact if_pos ⟨hauth, hup⟩
  | unbuffered _ _ _ _ => exact h.congr (sameFront_onClient (by intro b; rfl) s)
  | buffered packet codes t _ _ ht =>
    have hnoting : SameFront s (s.noting codes) := sameFront_onClient (by intro b; rfl) s
    exact h.congr ((hnoting.trans (sameFront_arriving packet _)).trans (sameFront_buffered ht))
  | frontendLost => exact ⟨h.order, h.passed, h.ready⟩
  | backendLost => exact ⟨h.order, h.passed, fun _ _ hup => absurd hup (by simp [SSH.up])⟩

theorem loopFinishes_of_inOrder {e : Event} (hstep : step cfg s e = some t) (ht : InOrder t) :
    LoopFinishes cfg s e := by
  rintro u hu
  cases step_effect hstep with
  | unsent hdown => simp [loopStart, hdown] at hu
  | finished hdown =>
    rcases hdown with hdown | hdown <;> simp [loopStart, hdown] at hu
  | connected hserver hcan hup t hd =>
    have hloop : s.loopStart cfg .finishedAuth = some _ := if_pos ⟨hserver, hcan, hup⟩
    obtain rfl := Option.some.inj (hloop.symm.trans hu)
    exact accepted_of_drain rfl hd ht
  | secure hdown =>
    rcases hdown with hdown | hdown <;> simp [loopStart, hdown] at hu
  | secureConnected hauth hup t hd =>
    have hloop : s.loopStart cfg .backendSecure = some _ := if_pos ⟨hauth, hup⟩
    obtain rfl := Option.some.inj (hloop.symm.trans hu)
    exact accepted_of_drain rfl hd ht
  | _ => cases hu

/-- **The frontend's packets, exactly.** -/
theorem inOrder_iff_accepted (cfg : Config) (es : List Event) (s : Proxy)
    (hrun : run (step cfg) {} es = some s) :
    StatesMeet (step cfg) InOrder {} es ↔ StepsMeet (step cfg) (LoopFinishes cfg) {} es :=
  statesMeet_iff_of_inv (fun _ _ _ h hloop hstep => inOrder_step h hloop hstep) (fun _ h => h)
    (fun _ _ _ _ hstep ht => loopFinishes_of_inOrder hstep ht)
    ⟨rfl, fun _ => rfl, fun hauth => absurd hauth (by simp)⟩ hrun

/-- A packet that is held until the success, then one that is passed on at once. -/
def orderly : List Event :=
  [.backendMade, .frontendMessage true (81, []), .backendSecure, .finishedAuth,
    .frontendMessage true (82, [])]

theorem inOrder_orderly :
    ∃ s, run (step SSH.enabled) {} orderly = some s ∧ s.handed .server = [(81, []), (82, [])] ∧
      (StatesMeet (step SSH.enabled) InOrder {} orderly ↔
        StepsMeet (step SSH.enabled) (LoopFinishes SSH.enabled) {} orderly) :=
  ⟨_, rfl, rfl, inOrder_iff_accepted SSH.enabled orderly _ rfl⟩

/-- A request on a channel that does not exist is held until the success. -/
def unknownChannel : List Event :=
  [.backendMade, .backendSecure, .frontendMessage true (98, intToBytes 4 0), .finishedAuth,
    .frontendMessage true (80, SSH.keepalive)]

/-- The loop ends with a `KeyError`; what was in the list and what follows stay there. -/
theorem inOrder_violated :
    ∃ s, run (step SSH.enabled) {} unknownChannel = some s ∧ s.backendConnected = true ∧
      s.handed .server = [(98, intToBytes 4 0)] ∧
        s.delayedPackets = [(98, intToBytes 4 0), (80, SSH.keepalive)] ∧
          ¬ StatesMeet (step SSH.enabled) InOrder {} unknownChannel := by
  refine ⟨_, rfl, rfl, rfl, rfl, fun h => ?_⟩
  have hlast := statesMeet_iff.mp h unknownChannel [] _ (List.append_nil _).symm rfl
  exact List.cons_ne_nil _ _ (hlast.passed rfl)

/-! ## The backend's packets -/

/-- The packet has been parsed after all that arrived before it, and none is held for another turn. -/
structure Delivered (s : Proxy) (packet : Nat × Bytes) (t : Proxy) : Prop where
  handed : t.handed .client = s.arrivedFrom .client ++ [packet]
  once : t.held = []

/-- After a success an encrypted packet of the backend is delivered at once. -/
def Flows (cfg : Config) (s : Proxy) : Event → Prop
  | .backendMessage true packet => s.succeeded = true → packet.1 ≠ 6 ∧ packet.1 ≠ 52 →
      ∀ t, step cfg s (.backendMessage true packet) = some t → Delivered s packet t
  | _ => True

/-- The flag is still set when the packet comes, and the loop over the packets held finishes. -/
def Kept (cfg : Config) (s : Proxy) : Event → Prop
  | .backendMessage true packet => s.succeeded = true → packet.1 ≠ 6 ∧ packet.1 ≠ 52 →
      s.client.isSome = true → s.frontendAuthenticated = true ∧
        (s.held ≠ [] → AllAccepted cfg .client (s.held ++ [packet]) s.sshParse)
  | _ => True

/-- The backend's packets have been parsed in their order, but for the ones held. -/
structure Flow (s : Proxy) : Prop where
  order : s.handed .client ++ s.held = s.arrivedFrom .client
  succeeded : s.frontendAuthenticated = true → s.succeeded = true

/-- Nothing that the backend's packets depend on changes, but for a success. -/
structure SameBack (s t : Proxy) : Prop where
  handed : t.handed .client = s.handed .client
  arrived : t.arrivedFrom .client = s.arrivedFrom .client
  held : t.held = s.held
  authenticated : t.frontendAuthenticated = true →
    s.frontendAuthenticated = true ∨ t.succeeded = true
  succeeded : s.succeeded = true → t.succeeded = true

theorem Flow.congr (h : Flow s) (hsame : SameBack s t) : Flow t where
  order := by rw [hsame.handed, hsame.held, hsame.arrived, h.order]
  succeeded hauth :=
    (hsame.authenticated hauth).elim (fun hs => hsame.succeeded (h.succeeded hs)) fun ht => ht

theorem held_onClient {f : Backend → Backend} (h : ∀ b, (f b).delayedPackets = b.delayedPackets)
    (s : Proxy) : (s.onClient f).held = s.held := by
  unfold held onClient
  cases hc : s.client with
  | none => rfl
  | some b => exact h b

theorem held_noting (codes : List Nat) (s : Proxy) : (s.noting codes).held = s.held :=
  held_onClient (by intro b; rfl) s

theorem sameBack_drain {u : Proxy} (h : Drain cfg t u) (hheld : t.held = s.held)
    (hcalls : t.calls = s.calls) (harrived : t.arrived = s.arrived)
    (hauth : t.frontendAuthenticated = true → s.frontendAuthenticated = true ∨ t.succeeded = true)
    (hsucc : s.succeeded = true → t.succeeded = true) : SameBack s u := by
  have hhanded : t.handed .client = s.handed .client := congrArg (fromSide .client) hcalls
  have harr : t.arrivedFrom .client = s.arrivedFrom .client := congrArg (fromSide .client) harrived
  have hside : ∀ packets v, (t.parsed .server packets v).handed .client = s.handed .client :=
    fun packets v => (handed_parsed_other (by decide) packets v).trans hhanded
  cases h with
  | finished v _ _ =>
    exact ⟨hside _ v, harr, (held_onClient (by intro b; rfl) _).trans hheld, hauth, hsucc⟩
  | stuck done v _ _ => exact ⟨hside done v, harr, hheld, hauth, hsucc⟩

theorem held_cleared (s : Proxy) : (s.onClient fun b => { b with delayedPackets := [] }).held = [] := by
  unfold held onClient
  cases s.client <;> rfl

/-- `packet_buffer` delivers the packet exactly if the flag is set and the loop finishes. -/
theorem delivered_iff {packet : Nat × Bytes} {arrived : List (Nat × Bytes)}
    (horder : s.handed .client ++ s.held = arrived) (hclient : s.client.isSome = true)
    (h : Buffered cfg s packet t) :
    (t.handed .client = arrived ++ [packet] ∧ t.held = []) ↔
      s.frontendAuthenticated = true ∧
        (s.held ≠ [] → AllAccepted cfg .client (s.held ++ [packet]) s.sshParse) := by
  cases h with
  | held hauth =>
    refine iff_of_false (fun ⟨_, hnone⟩ => ?_) fun ⟨hset, _⟩ => ?_
    · rw [held_keeping hclient] at hnone
      exact List.append_ne_nil_of_right_ne_nil _ (List.cons_ne_nil _ _) hnone
    · exact absurd (hauth.symm.trans hset) (by simp)
  | passed u hauth hheld _ =>
    refine iff_of_true ⟨?_, hheld⟩ ⟨hauth, fun hne => absurd hheld hne⟩
    rw [handed_parsed, ← horder, hheld, List.append_nil]
  | flushed u hauth hheld _ hacc =>
    refine iff_of_true ⟨?_, held_cleared _⟩ ⟨hauth, fun _ => hacc⟩
    have hhanded : ((s.keeping packet).parsed .client (s.held ++ [packet]) u).handed .client =
        s.handed .client ++ (s.held ++ [packet]) := handed_parsed _ u
    rw [← horder, List.append_assoc]
    exact hhanded
  | stuck done u hauth hheld _ hnot =>
    refine iff_of_false (fun ⟨_, hnone⟩ => ?_) fun ⟨_, hacc⟩ => hnot (hacc hheld)
    have hkept : (s.keeping packet).held = [] := hnone
    rw [held_keeping hclient] at hkept
    exact List.append_ne_nil_of_right_ne_nil _ (List.cons_ne_nil _ _) hkept

/-- The state in which `packet_buffer` begins. -/
theorem order_arriving (h : Flow s) (codes : List Nat) (packet : Nat × Bytes) :
    ((s.noting codes).arriving .client packet).handed .client ++
      ((s.noting codes).arriving .client packet).held = s.arrivedFrom .client := by
  have hheld : ((s.noting codes).arriving .client packet).held = s.held := held_noting codes s
  rw [hheld]
  exact h.order

theorem client_arriving (codes : List Nat) (packet : Nat × Bytes) (h : s.client.isSome = true) :
    ((s.noting codes).arriving .client packet).client.isSome = true := by
  simpa [arriving, noting, onClient] using h

/-- What arrived is not touched by `packet_buffer`, nor is the flag. -/
theorem arrived_buffered {packet : Nat × Bytes} (h : Buffered cfg s packet t) :
    t.arrived = s.arrived ∧ t.frontendAuthenticated = s.frontendAuthenticated ∧
      t.succeeded = s.succeeded := by
  cases h <;> exact ⟨rfl, rfl, rfl⟩

theorem delivered_iff_kept (h : Flow s) {packet : Nat × Bytes} {codes : List Nat}
    (hclient : s.client.isSome = true)
    (ht : Buffered cfg ((s.noting codes).arriving .client packet) packet t) :
    Delivered s packet t ↔ s.frontendAuthenticated = true ∧
      (s.held ≠ [] → AllAccepted cfg .client (s.held ++ [packet]) s.sshParse) := by
  have hiff := delivered_iff (order_arriving h codes packet) (client_arriving codes packet hclient) ht
  have hheld : ((s.noting codes).arriving .client packet).held = s.held := held_noting codes s
  rw [hheld] at hiff
  exact ⟨fun hd => hiff.mp ⟨hd.handed, hd.once⟩, fun hk => ⟨(hiff.mpr hk).1, (hiff.mpr hk).2⟩⟩

theorem flow_step {e : Event} (h : Flow s) (hkept : Kept cfg s e) (hstep : step cfg s e = some t) :
    Flow t := by
  cases step_effect hstep with
  | unread _ _ _ => exact h
  | cleared _ _ _ => exact ⟨h.order, fun hauth => absurd hauth (by simp)⟩
  | delayed packet _ =>
    exact h.congr ⟨rfl, arrivedFrom_arriving_other (by decide) packet, rfl, Or.inl, fun hs => hs⟩
  | forwarded packet u _ _ _ =>
    exact h.congr ⟨handed_parsed_other (by decide) [packet] u,
      arrivedFrom_arriving_other (by decide) packet, rfl, Or.inl, fun hs => hs⟩
  | unsent _ => exact h
  | finished _ => exact ⟨h.order, fun _ => rfl⟩
  | connected _ _ _ t hd =>
    exact h.congr (sameBack_drain hd rfl rfl rfl (fun _ => Or.inr rfl) (fun _ => rfl))
  | made hnone =>
    refine h.congr ⟨rfl, rfl, ?_, Or.inl, fun hs => hs⟩
    simp [held, hnone]
  | secure _ => exact h.congr ⟨rfl, rfl, held_onClient (by intro b; rfl) s, Or.inl, fun hs => hs⟩
  | secureConnected _ _ t hd =>
    exact h.congr (sameBack_drain hd (held_onClient (by intro b; rfl) s) rfl rfl Or.inl
      fun hs => hs)
  | unbuffered _ _ codes _ => exact h.congr ⟨rfl, rfl, held_noting codes s, Or.inl, fun hs => hs⟩
  | buffered packet codes t hnum hclient ht =>
    obtain ⟨harr, hauth, hsucc⟩ := arrived_buffered ht
    have harrived : t.arrivedFrom .client = s.arrivedFrom .client ++ [packet] := by
      have hside : ((s.noting codes).arriving .client packet).arrivedFrom .client =
          s.arrivedFrom .client ++ [packet] := arrivedFrom_arriving packet
      exact (congrArg (fromSide .client) harr).trans hside
    refine ⟨?_, fun hset => hsucc.trans (h.succeeded (hauth.symm.trans hset))⟩
    rw [harrived]
    by_cases hs : s.succeeded = true
    · have hd := (delivered_iff_kept h hclient ht).mpr (hkept hs hnum hclient)
      rw [hd.handed, hd.once, List.append_nil]
    · -- before the success every packet is held
      cases ht with
      | held _ =>
        rw [held_keeping (client_arriving codes packet hclient), ← List.append_assoc]
        exact congrArg (· ++ [packet]) (order_arriving h codes packet)
      | passed _ hset _ _ => exact absurd (h.succeeded hset) hs
      | flushed _ hset _ _ _ => exact absurd (h.succeeded hset) hs
      | stuck _ _ hset _ _ _ => exact absurd (h.succeeded hset) hs
  | frontendLost => exact ⟨h.order, h.succeeded⟩
  | backendLost => exact ⟨h.order, h.succeeded⟩

theorem step_isSome (cfg : Config) {e : Event} (h : possible s e = true) :
    ∃ t, step cfg s e = some t :=
  ⟨_, if_pos h⟩

theorem kept_iff_flows (h : Flow s) (e : Event) : Kept cfg s e ↔ Flows cfg s e := by
  cases e with
  | backendMessage encrypted packet =>
    cases encrypted with
    | false => exact Iff.rfl
    | true =>
      have hbuffered : ∀ t, step cfg s (.backendMessage true packet) = some t →
          packet.1 ≠ 6 ∧ packet.1 ≠ 52 → (Delivered s packet t ↔ s.frontendAuthenticated = true ∧
            (s.held ≠ [] → AllAccepted cfg .client (s.held ++ [packet]) s.sshParse)) := by
        intro t hstep hnum
        cases step_effect hstep with
        | unbuffered _ _ _ hskip => simp [hnum] at hskip
        | buffered _ codes t _ hclient ht => exact delivered_iff_kept h hclient ht
      constructor
      · intro hkept hs hnum t hstep
        have hclient : s.client.isSome = true := by
          by_contra hnone
          rw [step, if_neg (show ¬ possible s (.backendMessage true packet) = true from hnone)] at hstep
          cases hstep
        exact (hbuffered t hstep hnum).mpr (hkept hs hnum hclient)
      · intro hflows hs hnum hclient
        obtain ⟨t, hstep⟩ := step_isSome cfg (e := .backendMessage true packet) hclient
        exact (hbuffered t hstep hnum).mp (hflows hs hnum t hstep)
  | _ => exact Iff.rfl

/-- **The backend's packets, exactly.** -/
theorem flows_iff_kept (cfg : Config) (es : List Event) :
    StepsMeet (step cfg) (Flows cfg) {} es ↔ StepsMeet (step cfg) (Kept cfg) {} es :=
  (stepsMeet_iff_of_inv (fun _ _ _ h hkept hstep => flow_step h hkept hstep)
    (fun _ e h => kept_iff_flows h e) ⟨rfl, fun hauth => absurd hauth (by simp)⟩).symm

/-- A login, a service request and a packet of the backend. -/
def secondRequest : List Event :=
  [.backendMade, .backendSecure, .finishedAuth, .backendMessage true (81, []),
    .frontendMessage true (50, []), .backendMessage true (82, [])]

/-- After the second request for authentication the backend's packets are held. -/
theorem flows_violated :
    ∃ s, run (step SSH.enabled) {} secondRequest = some s ∧ s.succeeded = true ∧
      s.handed .client = [(81, [])] ∧ s.held = [(82, [])] ∧
        ¬ StepsMeet (step SSH.enabled) (Flows SSH.enabled) {} secondRequest := by
  refine ⟨_, rfl, rfl, rfl, rfl, fun h => ?_⟩
  have hlast := stepsMeet_iff.mp h (secondRequest.take 5) (.backendMessage true (82, [])) [] _ rfl rfl
  have hd := hlast rfl (by decide) _ rfl
  exact List.cons_ne_nil _ _ hd.once

end Proxy

end Cowrie.SshProxy
