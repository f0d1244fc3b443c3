import Cowrie.Bytes
import Cowrie.Lib.Run

/-!
# The relay behind a NAT port (`src/backend_pool/nat.py:25-61`)

`ServerProtocol` takes what a frontend sends to a guest and writes it to the connection it opens to that
guest. What arrives before that connection is there waits in `buffer`, and every call of `sendData` then
schedules another one, 0.5 seconds later.

* `timers` is the number of calls that are scheduled; which of them comes next makes no difference.
* `connected` is `ClientFactory.buildProtocol`, which the reactor calls once for a connection. The new
  protocol gets its transport in the same turn, so that no assertion of `sendData` fails.

Results:
* `relays_run`: what was written and what waits is what was received.
* `timers_of_waiting`: while something waits, a call of `sendData` is scheduled.
* **`relayed`**: the backend gets a prefix of what was received, and all of it from the first `sendData`
  with a connection on.
-/

namespace Cowrie.Pool

open Cowrie.Lib

/-- The connection to the guest, as the writes to its transport. -/
structure ClientProtocol where
  written : List Bytes := []
  deriving DecidableEq, Repr

structure ServerProtocol where
  clientProtocol : Option ClientProtocol := none
  buffer : List Bytes := []
  timers : Nat := 0
  deriving DecidableEq, Repr

inductive RelayEvent
  | received (data : Bytes)
  | connected
  | fires
  deriving DecidableEq, Repr

namespace ServerProtocol

/-- `sendData`. -/
def sendData (s : ServerProtocol) : ServerProtocol :=
  match s.clientProtocol with
  | none => { s with timers := s.timers + 1 }
  | some c => { s with clientProtocol := some ⟨c.written ++ s.buffer⟩, buffer := [] }

/-- `dataReceived`. -/
def dataReceived (data : Bytes) (s : ServerProtocol) : ServerProtocol :=
  sendData { s with buffer := s.buffer ++ [data] }

/-- `ClientFactory.buildProtocol`. -/
def buildProtocol (s : ServerProtocol) : ServerProtocol := { s with clientProtocol := some {} }

def step (s : ServerProtocol) : RelayEvent → Option ServerProtocol
  | .received data => some (s.dataReceived data)
  | .connected => if s.clientProtocol = none then some s.buildProtocol else none
  | .fires => if 0 < s.timers then some (sendData { s with timers := s.timers - 1 }) else none

/-- The bytes written to the backend. -/
def toBackend (s : ServerProtocol) : Bytes :=
  match s.clientProtocol with
  | none => []
  | some c => c.written.flatten

/-- The bytes written to the backend, and those that wait. -/
def relays (s : ServerProtocol) : Bytes := s.toBackend ++ s.buffer.flatten

/-- The backend is connected and nothing waits. -/
def Flushed (s : ServerProtocol) : Prop := s.clientProtocol ≠ none ∧ s.buffer = []

end ServerProtocol

/-- The data of an event. -/
def RelayEvent.data : RelayEvent → Bytes
  | .received data => data
  | .connected => []
  | .fires => []

/-- The concatenation of all data received. -/
def receivedData (es : List RelayEvent) : Bytes := es.flatMap RelayEvent.data

open ServerProtocol

/-! ## One call -/

theorem relays_sendData (s : ServerProtocol) : s.sendData.relays = s.relays := by
  unfold relays toBackend sendData
  cases s.clientProtocol with
  | none => rfl
  | some c =>
    simp only
    rw [List.flatten_append, List.flatten_nil, List.append_nil]

theorem relays_dataReceived (s : ServerProtocol) (data : Bytes) :
    (s.dataReceived data).relays = s.relays ++ data := by
  unfold dataReceived
  rw [relays_sendData]
  unfold relays toBackend
  rw [List.flatten_append, List.flatten_singleton, List.append_assoc]

theorem relays_buildProtocol {s : ServerProtocol} (h : s.clientProtocol = none) :
    s.buildProtocol.relays = s.relays := by
  unfold relays toBackend buildProtocol
  rw [h]
  rfl

theorem sendData_connected {s : ServerProtocol} (h : s.clientProtocol ≠ none) : s.sendData.Flushed := by
  unfold Flushed sendData
  cases hclient : s.clientProtocol with
  | none => exact absurd hclient h
  | some c => exact ⟨Option.some_ne_none _, rfl⟩

/-- What an event does. -/
theorem step_spec {s t : ServerProtocol} {e : RelayEvent} (h : s.step e = some t) :
    t.relays = s.relays ++ e.data ∧ (s.clientProtocol ≠ none → t.Flushed) := by
  cases e with
  | received data =>
    obtain rfl := Option.some.inj h
    exact ⟨relays_dataReceived s data, fun hclient => sendData_connected (by exact hclient)⟩
  | connected =>
    change (if s.clientProtocol = none then some s.buildProtocol else none) = some t at h
    by_cases hclient : s.clientProtocol = none
    · rw [if_pos hclient] at h
      obtain rfl := Option.some.inj h
      exact ⟨(relays_buildProtocol hclient).trans (List.append_nil _).symm, fun hne => absurd hclient hne⟩
    · rw [if_neg hclient] at h
      cases h
  | fires =>
    change (if 0 < s.timers then some (sendData { s with timers := s.timers - 1 }) else none) = some t at h
    by_cases htimers : 0 < s.timers
    · rw [if_pos htimers] at h
      obtain rfl := Option.some.inj h
      exact ⟨(relays_sendData _).trans (List.append_nil _).symm,
        fun hclient => sendData_connected (by exact hclient)⟩
    · rw [if_neg htimers] at h
      cases h

/-! ## Runs -/

/-- **What was written and what waits is what was received.** -/
theorem relays_run {s t : ServerProtocol} {es : List RelayEvent} (h : run step s es = some t) :
    t.relays = s.relays ++ receivedData es := by
  induction es generalizing s with
  | nil =>
    obtain rfl : s = t := by simpa using h
    exact (List.append_nil _).symm
  | cons e es ih =>
    obtain ⟨u, hu, hrest⟩ := run_cons.mp h
    rw [ih hrest, (step_spec hu).1, List.append_assoc]
    rfl

theorem client_step {s t : ServerProtocol} {e : RelayEvent} (hs : s.clientProtocol ≠ none)
    (h : s.step e = some t) : t.clientProtocol ≠ none := ((step_spec h).2 hs).1

theorem client_of_connected {s t : ServerProtocol} {es : List RelayEvent} (h : run step s es = some t)
    (hmem : .connected ∈ es) : t.clientProtocol ≠ none := by
  induction es generalizing s with
  | nil => cases hmem
  | cons e es ih =>
    obtain ⟨u, hu, hrest⟩ := run_cons.mp h
    by_cases hlater : .connected ∈ es
    · exact ih hrest hlater
    · obtain rfl : RelayEvent.connected = e := (List.mem_cons.mp hmem).resolve_right hlater
      have hclient : u.clientProtocol ≠ none := by
        change (if s.clientProtocol = none then some s.buildProtocol else none) = some u at hu
        split at hu
        · rw [← Option.some.inj hu]
          exact Option.some_ne_none _
        · cases hu
      exact run_inv' (fun _ _ _ => client_step) hclient hrest

theorem flushed_run {s t : ServerProtocol} {es : List RelayEvent} (hs : s.Flushed)
    (h : run step s es = some t) : t.Flushed :=
  run_inv' (fun _ _ _ hflushed hstep => (step_spec hstep).2 hflushed.1) hs h

/-- Every call of `sendData` without a connection schedules another one. -/
theorem timers_step {s t : ServerProtocol} {e : RelayEvent} (hs : s.buffer ≠ [] → 0 < s.timers)
    (h : s.step e = some t) : t.buffer ≠ [] → 0 < t.timers := by
  intro hwaits
  cases hclient : s.clientProtocol with
  | some c =>
    have hconnected : s.clientProtocol ≠ none := by
      rw [hclient]
      exact Option.some_ne_none c
    exact absurd ((step_spec h).2 hconnected).2 hwaits
  | none =>
    cases e with
    | received data =>
      obtain rfl := Option.some.inj h
      unfold dataReceived sendData
      rw [hclient]
      exact Nat.succ_pos _
    | connected =>
      change (if s.clientProtocol = none then some s.buildProtocol else none) = some t at h
      rw [if_pos hclient] at h
      obtain rfl := Option.some.inj h
      exact hs hwaits
    | fires =>
      change (if 0 < s.timers then some (sendData { s with timers := s.timers - 1 }) else none) = some t at h
      split at h
      · obtain rfl := Option.some.inj h
        unfold sendData
        rw [hclient]
        exact Nat.succ_pos _
      · cases h

/-- **While something waits, a call of `sendData` is scheduled.** -/
theorem timers_of_waiting {t : ServerProtocol} {es : List RelayEvent} (h : run step {} es = some t) :
    t.buffer ≠ [] → 0 < t.timers :=
  run_inv' (fun _ _ _ => timers_step) (fun hne => absurd rfl hne) h

/-- **The relay**: the backend gets a prefix of what was received, and all of it once a `sendData` has run
with a connection, as it does in every event after `connected`. -/
theorem relayed {t : ServerProtocol} {es : List RelayEvent} (h : run step {} es = some t) :
    t.toBackend <+: receivedData es ∧
      ∀ before e after, es = before ++ e :: after → .connected ∈ before →
        t.toBackend = receivedData es := by
  have hall : t.relays = receivedData es := relays_run h
  refine ⟨⟨t.buffer.flatten, hall⟩, fun before e after hes hmem => ?_⟩
  subst hes
  obtain ⟨u, hu, hrest⟩ := run_append.mp h
  obtain ⟨v, hv, hafter⟩ := run_cons.mp hrest
  have hflushed := flushed_run ((step_spec hv).2 (client_of_connected hu hmem)) hafter
  rw [← hall]
  unfold relays
  rw [hflushed.2, List.flatten_nil, List.append_nil]

/-- Two packets before the connection, one after it, and the timers at last. -/
theorem relayed_early :
    ∃ t, run step {} [.received [1], .fires, .received [2], .connected, .received [3], .fires, .fires] = some t ∧
      t.toBackend = [1, 2, 3] := by
  obtain ⟨t, ht⟩ : ∃ t, run step {} [.received [1], .fires, .received [2], .connected, .received [3], .fires,
      .fires] = some t := ⟨_, rfl⟩
  refine ⟨t, ht, ?_⟩
  rw [(relayed ht).2 [.received [1], .fires, .received [2], .connected] (.received [3]) [.fires, .fires] rfl
    (by decide)]
  decide

end Cowrie.Pool
