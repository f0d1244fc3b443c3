import Cowrie.TelnetProxy.Visible

/-!
# What goes to the backend (`src/cowrie/telnet_proxy/handler.py:103-161`)

`sendBackend` keeps every packet in `backend_buffer`, and writes all of them once there is a backend. Its
loop takes the bytes it logs from its argument and not from the packet that it writes.

* `Feed`: a call of `sendBackend`, the connection to the backend, and the first prompt, from which on
  the packets are recorded.
* `sendBackend_outgoing`: a call with a backend, which writes what waits and its own packet.
* **`feed_delivered_iff`**: when the backend gets every packet once, and the records are the packets.
-/

namespace Cowrie.TelnetProxy

open Cowrie.Lib TelnetHandler

/-! ## One call -/

/-- A packet as it is recorded. -/
def inputRecord (packet : Bytes) : TtyRecord := ⟨.input, replace packet [0] [10]⟩

/-- The packets are recorded. -/
def Logging (cfg : Config) (s : TelnetHandler) : Prop := cfg.ttylogEnabled ∧ s.authStarted

instance (cfg : Config) (s : TelnetHandler) : Decidable (Logging cfg s) :=
  inferInstanceAs (Decidable (_ ∧ _))

/-- What `sendBackend` reads and writes, the log aside. -/
structure Outgoing where
  client : Bool
  authStarted : Bool
  waiting : List Bytes
  toBackend : List Bytes
  ttylog : List TtyRecord
  deriving DecidableEq

def TelnetHandler.outgoing (s : TelnetHandler) : Outgoing :=
  ⟨s.client, s.authStarted, s.backendBuffer, s.toBackend, s.ttylog⟩

variable {cfg : Config}

theorem logRaw_outgoing (cfg : Config) (label : String) (data : Bytes) (s : TelnetHandler) :
    Ends outgoing (logRaw cfg label data) s (written cfg data) s.outgoing := by
  unfold logRaw written decoded
  by_cases hraw : cfg.logRaw
  · rw [when_true hraw]
    cases unicodeEscape cfg.unicodeName data with
    | none =>
      rw [if_pos ⟨hraw, rfl⟩]
      exact ⟨rfl, rfl⟩
    | some text =>
      rw [if_neg (by simp)]
      exact ⟨rfl, rfl⟩
  · rw [when_false hraw, if_neg fun h => hraw h.1]
    exact ⟨rfl, rfl⟩

/-- One round of the loop, which records the argument and not the packet. -/
theorem writeBackend_outgoing {data : Bytes} (h : written cfg data = .ok ()) (packet : Bytes)
    (s : TelnetHandler) :
    Ends outgoing (writeBackend cfg data packet) s (.ok ())
      { s.outgoing with
        waiting := s.backendBuffer.drop 1
        toBackend := s.toBackend ++ [packet]
        ttylog := s.ttylog ++ if Logging cfg s then [inputRecord data] else [] } := by
  have hraw := logRaw_outgoing cfg "to_backend - " data { s with toBackend := s.toBackend ++ [packet] }
  rw [h] at hraw
  unfold writeBackend
  refine ends_modify_bind (ends_bind hraw fun u hu => ends_get ?_)
  have hauth : u.authStarted = s.authStarted := congrArg Outgoing.authStarted hu
  by_cases hlog : Logging cfg s
  · rw [if_pos hlog, when_true (by rw [hauth]; exact hlog)]
    refine ends_modify_bind (ends_modify ?_)
    exact congrArg (fun o : Outgoing =>
      { o with waiting := o.waiting.drop 1, ttylog := o.ttylog ++ [inputRecord data] }) hu
  · rw [if_neg hlog, when_false (by rw [hauth]; exact hlog), List.append_nil, pure_bind]
    exact ends_modify (congrArg (fun o : Outgoing => { o with waiting := o.waiting.drop 1 }) hu)

/-- All rounds, while the buffer holds the packets. -/
theorem forM_writeBackend_outgoing {data : Bytes} (h : written cfg data = .ok ()) (packets : List Bytes)
    (s : TelnetHandler) (hbuffer : s.backendBuffer = packets) :
    Ends outgoing (packets.forM (writeBackend cfg data)) s (.ok ())
      { s.outgoing with
        waiting := []
        toBackend := s.toBackend ++ packets
        ttylog := s.ttylog ++
          if Logging cfg s then List.replicate packets.length (inputRecord data) else [] } := by
  induction packets generalizing s with
  | nil =>
    refine ⟨rfl, ?_⟩
    change s.outgoing = _
    unfold outgoing
    simp [hbuffer]
  | cons packet packets ih =>
    change Ends outgoing (writeBackend cfg data packet >>= fun _ => packets.forM (writeBackend cfg data))
      s _ _
    refine ends_bind (writeBackend_outgoing h packet s) fun u hu => ?_
    obtain ⟨hclient, hauth, hwaiting, hsent, hlog⟩ := Outgoing.mk.inj hu
    have hrest := ih u (by rw [hwaiting, hbuffer]; rfl)
    have hlogging : Logging cfg u = Logging cfg s := by
      unfold Logging
      rw [hauth]
      rfl
    refine ⟨hrest.1, hrest.2.trans ?_⟩
    unfold outgoing
    simp only [hlogging, hclient, hauth, hsent, hlog, List.append_assoc, List.singleton_append,
      List.length_cons, List.replicate_succ]
    congr 2
    split_ifs <;> rfl

/-- **A call with a backend**: what waits is written, and the argument is recorded for every packet. -/
theorem sendBackend_outgoing {data : Bytes} (h : written cfg data = .ok ()) {s : TelnetHandler}
    (hclient : s.client = true) :
    Ends outgoing (sendBackend cfg data) s (.ok ())
      { s.outgoing with
        waiting := []
        toBackend := s.toBackend ++ (s.backendBuffer ++ [data])
        ttylog := s.ttylog ++
          if Logging cfg s then List.replicate (s.backendBuffer.length + 1) (inputRecord data) else [] } := by
  unfold sendBackend
  refine ends_modify_bind (ends_get ?_)
  simp only
  rw [when_true hclient]
  have hall := forM_writeBackend_outgoing h (s.backendBuffer ++ [data])
    { s with backendBuffer := s.backendBuffer ++ [data] } rfl
  rw [List.length_append, List.length_singleton] at hall
  exact hall

/-- Without a backend the packet waits. -/
theorem sendBackend_waits (data : Bytes) {s : TelnetHandler} (hclient : s.client = false) :
    exec (sendBackend cfg data) s = (.ok (), { s with backendBuffer := s.backendBuffer ++ [data] }) := by
  unfold sendBackend
  rw [exec_modify_bind, exec_get_bind]
  simp only
  rw [when_false (by rw [hclient]; exact Bool.false_ne_true)]
  rfl

/-! ## Runs -/

/-- What happens to the stream to the backend. -/
inductive Feed
  | setClient
  | prompt
  | send (data : Bytes)
  deriving DecidableEq, Repr

/-- One event; a prompt starts the recording. -/
def Feed.run (cfg : Config) : Feed → TelnetM Unit
  | setClient => modify fun s => { s with client := true }
  | prompt => modify fun s => { s with authStarted := true }
  | send data => sendBackend cfg data

/-- The arguments of the calls. -/
def sent : List Feed → List Bytes
  | [] => []
  | .send data :: es => data :: sent es
  | _ :: es => sent es

/-- The state after all events and the packets that were written while they were recorded; `none` if a
call raised. -/
def outcome (cfg : Config) : List Feed → TelnetHandler → Option (TelnetHandler × List Bytes)
  | [], s => some (s, [])
  | e :: es, s =>
    match exec (e.run cfg) s with
    | (.error _, _) => none
    | (.ok _, t) => (outcome cfg es t).map fun r =>
        (r.1, (if Logging cfg s then t.toBackend.drop s.toBackend.length else []) ++ r.2)

/-- No call raises, the backend gets every packet once and in order, and what was written while the
packets were recorded is what has been recorded. -/
def Delivered (cfg : Config) (es : List Feed) : Prop :=
  ∃ t packets, outcome cfg es {} = some (t, packets) ∧ t.toBackend = sent es ∧
    t.ttylog = packets.map inputRecord

/-- What waits is shown by `data`. -/
def Shown (data : Bytes) (waiting : List Bytes) : Prop :=
  ∀ packet ∈ waiting, inputRecord packet = inputRecord data

/-- Nothing waits in the end; no call raises; and if several packets are written by a call while they are
recorded, they all look like the last one. -/
def Flows (cfg : Config) : (client active : Bool) → (waiting : List Bytes) → List Feed → Prop
  | _, _, waiting, [] => waiting = []
  | _, active, waiting, .setClient :: es => Flows cfg true active waiting es
  | client, _, waiting, .prompt :: es => Flows cfg client true waiting es
  | false, active, waiting, .send data :: es => Flows cfg false active (waiting ++ [data]) es
  | true, active, waiting, .send data :: es => written cfg data = .ok () ∧
      (cfg.ttylogEnabled ∧ active → Shown data waiting) ∧ Flows cfg true active [] es

theorem map_inputRecord_eq {data : Bytes} {waiting : List Bytes} :
    List.replicate (waiting.length + 1) (inputRecord data) = (waiting ++ [data]).map inputRecord ↔
      Shown data waiting := by
  rw [eq_comm, List.eq_replicate_iff, List.length_map, List.length_append, List.length_singleton]
  refine (and_iff_right rfl).trans ?_
  constructor
  · exact fun h packet hp => h _ (List.mem_map_of_mem (List.mem_append_left _ hp))
  · intro h record hrecord
    obtain ⟨packet, hp, rfl⟩ := List.mem_map.mp hrecord
    rcases List.mem_append.mp hp with hp | hp
    · exact h packet hp
    · rw [List.mem_singleton.mp hp]

/-- The state after a call with a backend. -/
structure Flushed (cfg : Config) (data : Bytes) (s u : TelnetHandler) : Prop where
  client : u.client = true
  authStarted : u.authStarted = s.authStarted
  waiting : u.backendBuffer = []
  toBackend : u.toBackend = s.toBackend ++ (s.backendBuffer ++ [data])
  ttylog : u.ttylog = s.ttylog ++
    if Logging cfg s then List.replicate (s.backendBuffer.length + 1) (inputRecord data) else []

/-- A call with a backend raises, or it writes what waits and its argument. -/
theorem outcome_send (cfg : Config) (data : Bytes) {s : TelnetHandler} (hclient : s.client = true) :
    (written cfg data ≠ .ok () ∧ ∀ es, outcome cfg (.send data :: es) s = none) ∨
    ∃ u, written cfg data = .ok () ∧ Flushed cfg data s u ∧ ∀ es, outcome cfg (.send data :: es) s =
      (outcome cfg es u).map fun r =>
        (r.1, (if Logging cfg s then s.backendBuffer ++ [data] else []) ++ r.2) := by
  cases hw : written cfg data with
  | error e =>
    left
    have hends := sendBackend_ends cfg data s
    rw [if_pos hclient, hw] at hends
    obtain ⟨u, hexec, hu⟩ := Ends.exec hends
    refine ⟨fun h => (by cases h), fun es => ?_⟩
    unfold outcome
    rw [show exec (Feed.run cfg (.send data)) s = (.error e, u) from hexec]
  | ok a =>
    right
    obtain ⟨u, hexec, hu⟩ := Ends.exec (sendBackend_outgoing hw hclient)
    obtain ⟨huclient, hauth, hwaiting, hsent, hlog⟩ := Outgoing.mk.inj hu
    refine ⟨u, rfl, ⟨huclient.trans hclient, hauth, hwaiting, hsent, hlog⟩, fun es => ?_⟩
    conv_lhs => unfold outcome
    rw [show exec (Feed.run cfg (.send data)) s = (.ok (), u) from hexec]
    simp only
    rw [hsent, List.drop_left]

/-- Without a backend, or for another event, nothing is written. -/
theorem outcome_quiet {e : Feed} {s u : TelnetHandler} (hexec : exec (e.run cfg) s = (.ok (), u))
    (hsent : u.toBackend = s.toBackend) (es : List Feed) : outcome cfg (e :: es) s = outcome cfg es u := by
  conv_lhs => unfold outcome
  rw [hexec]
  simp only
  rw [hsent, List.drop_length, ite_self]
  exact congrFun Option.map_id _

theorem outcome_setClient (es : List Feed) (s : TelnetHandler) :
    outcome cfg (.setClient :: es) s = outcome cfg es { s with client := true } :=
  outcome_quiet (e := .setClient) rfl rfl es

theorem outcome_prompt (es : List Feed) (s : TelnetHandler) :
    outcome cfg (.prompt :: es) s = outcome cfg es { s with authStarted := true } :=
  outcome_quiet (e := .prompt) rfl rfl es

theorem outcome_waits (data : Bytes) (es : List Feed) {s : TelnetHandler} (hclient : s.client = false) :
    outcome cfg (.send data :: es) s =
      outcome cfg es { s with backendBuffer := s.backendBuffer ++ [data] } :=
  outcome_quiet (e := .send data) (sendBackend_waits data hclient) rfl es

/-- Records are only added, as many as packets are written. -/
theorem outcome_ttylog {es : List Feed} {s t : TelnetHandler} {packets : List Bytes}
    (h : outcome cfg es s = some (t, packets)) :
    ∃ records, t.ttylog = s.ttylog ++ records ∧ records.length = packets.length := by
  induction es generalizing s packets with
  | nil =>
    obtain ⟨rfl, rfl⟩ := Prod.mk.inj (Option.some.inj h)
    exact ⟨[], (List.append_nil _).symm, rfl⟩
  | cons e es ih =>
    cases e with
    | setClient =>
      rw [outcome_setClient] at h
      obtain ⟨records, hrecords, hlength⟩ := ih h
      exact ⟨records, hrecords, hlength⟩
    | prompt =>
      rw [outcome_prompt] at h
      obtain ⟨records, hrecords, hlength⟩ := ih h
      exact ⟨records, hrecords, hlength⟩
    | send data =>
      cases hclient : s.client with
      | false =>
        rw [outcome_waits data es hclient] at h
        obtain ⟨records, hrecords, hlength⟩ := ih h
        exact ⟨records, hrecords, hlength⟩
      | true =>
        rcases outcome_send cfg data hclient with ⟨-, hnone⟩ | ⟨u, -, hu, hsome⟩
        · rw [hnone] at h
          cases h
        · rw [hsome] at h
          obtain ⟨⟨t', packets'⟩, hrest, heq⟩ := Option.map_eq_some_iff.mp h
          obtain ⟨rfl, rfl⟩ := Prod.mk.inj heq
          obtain ⟨records, hrecords, hlength⟩ := ih hrest
          refine ⟨_, by rw [hrecords, hu.ttylog, List.append_assoc], ?_⟩
          simp only [List.length_append, hlength]
          split_ifs <;> simp

/-- The log is right if what the call recorded is what it wrote, and if the rest of it is. -/
theorem Flushed.recorded_iff {data : Bytes} {es : List Feed} {s t u : TelnetHandler} {packets : List Bytes}
    (hu : Flushed cfg data s u) (hout : outcome cfg es u = some (t, packets)) :
    t.ttylog = s.ttylog ++
        ((if Logging cfg s then s.backendBuffer ++ [data] else []) ++ packets).map inputRecord ↔
      (Logging cfg s → Shown data s.backendBuffer) ∧ t.ttylog = u.ttylog ++ packets.map inputRecord := by
  obtain ⟨records, hrecords, hlength⟩ := outcome_ttylog hout
  rw [hrecords, hu.ttylog, List.map_append, List.append_assoc, List.append_assoc, List.append_cancel_left_eq,
    List.append_cancel_left_eq, List.append_cancel_left_eq]
  constructor
  · intro hlog
    obtain ⟨hcall, hlater⟩ := List.append_inj hlog (by split_ifs <;> simp)
    refine ⟨fun hlogging => ?_, hlater⟩
    rw [if_pos hlogging, if_pos hlogging] at hcall
    exact map_inputRecord_eq.mp hcall
  · rintro ⟨hshown, rfl⟩
    congr 1
    split_ifs with hlogging
    · exact map_inputRecord_eq.mpr (hshown hlogging)
    · rfl

/-- **All events**, from any state. -/
theorem outcome_iff (es : List Feed) (s : TelnetHandler) :
    (∃ t packets, outcome cfg es s = some (t, packets) ∧
      t.toBackend = s.toBackend ++ s.backendBuffer ++ sent es ∧
      t.ttylog = s.ttylog ++ packets.map inputRecord) ↔
    Flows cfg s.client s.authStarted s.backendBuffer es := by
  induction es generalizing s with
  | nil =>
    constructor
    · rintro ⟨t, packets, h, hsent, -⟩
      obtain ⟨rfl, rfl⟩ := Prod.mk.inj (Option.some.inj h)
      change s.backendBuffer = []
      simpa [sent] using hsent
    · intro h
      have hwaiting : s.backendBuffer = [] := h
      exact ⟨s, [], rfl, by simp [sent, hwaiting], by simp⟩
  | cons e es ih =>
    cases e with
    | setClient =>
      rw [outcome_setClient]
      exact ih { s with client := true }
    | prompt =>
      rw [outcome_prompt]
      exact ih { s with authStarted := true }
    | send data =>
      cases hclient : s.client with
      | false =>
        rw [outcome_waits data es hclient]
        have hrest := ih { s with backendBuffer := s.backendBuffer ++ [data] }
        simp only [hclient] at hrest
        unfold Flows
        rw [← hrest]
        simp only [hclient, sent, List.append_assoc, List.singleton_append]
      | true =>
        unfold Flows
        rcases outcome_send cfg data hclient with ⟨hraise, hnone⟩ | ⟨u, hw, hu, hsome⟩
        · rw [hnone]
          exact iff_of_false (fun ⟨_, _, h, _⟩ => by cases h) fun h => hraise h.1
        · have hrest := ih u
          rw [hu.client, hu.authStarted, hu.waiting] at hrest
          rw [hsome, ← hrest, and_iff_right hw]
          have hsame : ∀ t : TelnetHandler,
              t.toBackend = s.toBackend ++ s.backendBuffer ++ sent (.send data :: es) ↔
                t.toBackend = u.toBackend ++ [] ++ sent es := by
            intro t
            simp only [hu.toBackend, sent, List.append_assoc, List.append_nil, List.singleton_append]
          constructor
          · rintro ⟨t, packets, h, hsent, hlog⟩
            obtain ⟨⟨t', packets'⟩, hout, heq⟩ := Option.map_eq_some_iff.mp h
            obtain ⟨rfl, rfl⟩ := Prod.mk.inj heq
            obtain ⟨hshown, hlater⟩ := (hu.recorded_iff hout).mp hlog
            exact ⟨hshown, t', packets', hout, (hsame t').mp hsent, hlater⟩
          · rintro ⟨hshown, t, packets, hout, hsent, hlog⟩
            exact ⟨t, _, by rw [hout]; rfl, (hsame t).mpr hsent, (hu.recorded_iff hout).mpr ⟨hshown, hlog⟩⟩

/-- **When the backend gets every packet, and the records are the packets.** -/
theorem feed_delivered_iff (cfg : Config) (es : List Feed) :
    Delivered cfg es ↔ Flows cfg false false [] es := outcome_iff es {}

/-- A configuration that records. -/
def feedConfig : Config where
  backendLogin := []
  backendPassword := []
  usernameInNegotiation := ⟨fun _ => none, fun _ b => b⟩
  usernamePrompt := fun _ => false
  passwordPrompt := fun _ => false
  checkUserPass := fun _ => false
  unicodeName := fun _ => none

/-- `a` waits, and `b` is written with it: `b` is recorded twice. -/
theorem feed_delivered_violated : ¬ Delivered feedConfig [.prompt, .send [97], .setClient, .send [98]] := by
  rintro ⟨t, packets, hout, -, hlog⟩
  have hend : outcome feedConfig [.prompt, .send [97], .setClient, .send [98]] {} =
      some (⟨[], true, true, [], true, false, [], false, [], false, false, false, [],
        [⟨.input, [98]⟩, ⟨.input, [98]⟩], 2, [[97], [98]], [], [], none, []⟩, [[97], [98]]) := by
    decide +kernel
  rw [hend] at hout
  obtain ⟨rfl, rfl⟩ := Prod.mk.inj (Option.some.inj hout)
  exact absurd hlog (by decide)

end Cowrie.TelnetProxy
