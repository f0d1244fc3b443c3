import Cowrie.Lib.OrderedDict
import Cowrie.Lib.Run

/-!
# The sessions of an output plugin (`Output.emit` of `src/cowrie/core/output.py`)

`emit` finds the session of a log event, gives the event the id and the address of the session and has it
written. An event names its session by number, by id, or by the prefix that Twisted puts before the log lines of
a transport. Events are as `convert` leaves them, so all keys and values are text; a key that is missing is `none`.

* What the plugin knows besides the sessions is a `Plugin`: its names, the time, and how Python writes a time and
  a `%` format (none where that raises). `write` itself belongs to the plugins and is not modelled.
* `emit` gives what was written, whether an exception was raised, and the dictionaries.
* `Log` adds the sessions that are connected and not closed, by number, with the id and the address of their
  connect event: the `connected` ones after an event are `connectedAfter`.
* `Kept` is what is wanted of one event. `Expected` says which events come out right: a connect event has a
  number, an id and an address, which is not another one than that of a session with the number; another event
  is of a connected session, if it names one by number or by prefix.

Results:
* `emit_connect`, `emit_other`: what `emit` does with an event whose session it finds.
* **`kept_iff`**: every event of a run comes out right iff every one is expected.
-/

namespace Cowrie.Core

open Lib

/-! ## The code -/

/-- The dictionaries of a plugin. -/
structure Output where
  sessions : OrderedDict String String := .empty
  ips : OrderedDict String String := .empty

namespace Output

/-- The `message` of an event: the arguments of a call of `log.msg`, or a text. -/
inductive Message where
  | args (args : List String)
  | text (text : String)
  deriving DecidableEq

/-- A log event. -/
structure Event (T : Type) where
  printed : Bool := false
  isError : Bool := false
  eventid : Option String := none
  sessionno : Option String := none
  session : Option String := none
  system : Option String := none
  srcIp : Option String := none
  message : Option Message := none
  format : Option String := none
  time : Option T := none
  timestamp : Option String := none
  sensor : Option String := none
  uuid : Option String := none
  protocol : Option String := none
  deriving DecidableEq

variable {T : Type}

/-- What a plugin knows besides the sessions. -/
structure Plugin (T : Type) where
  sensor : String
  uuid : String
  now : T
  formatTime : T → String
  interpolate : String → Event T → Option String

/-- What a call of `emit` does. -/
structure Emitted (T : Type) where
  written : Option (Event T)
  raised : Bool
  output : Output

def Event.isConnect (e : Event T) : Bool := e.eventid = some "cowrie.session.connect"

def Event.isClosed (e : Event T) : Bool := e.eventid = some "cowrie.session.closed"

/-- The event is not ignored for what it lacks. -/
def Event.accepted (e : Event T) : Bool :=
  !e.printed && e.eventid.isSome && (e.sessionno.isSome || e.session.isSome || e.system.isSome) &&
    (e.message.isSome || e.format.isSome)

/-- The event with the names of the sensor, its time and its message. -/
def Event.prepared (plugin : Plugin T) (e : Event T) : Event T :=
  let time := e.time.getD plugin.now
  let ev := { e with sensor := some plugin.sensor, uuid := some plugin.uuid, isError := false, time := some time,
                     timestamp := some (plugin.formatTime time) }
  match ev.format with
  | none => ev
  | some format =>
    if ev.message = none ∨ ev.message = some (.args []) then
      match plugin.interpolate format ev with
      | some message => { ev with message := some (.text message), format := none }
      | none => ev
    else ev

/-- The number that `.*name,([0-9]+),[0-9a-f:.]+$` finds in a log prefix; neither the number nor the address
has a comma in it, so they are the last two fields. -/
def logPrefix (name system : String) : Option String :=
  let chars := system.toList
  let line := if chars.getLast? = some '\n' then chars.dropLast else chars
  if '\n' ∈ line then none
  else match (line.splitOn ',').reverse with
    | address :: number :: head :: _ =>
      if name.toList <:+ head ∧ number ≠ [] ∧ number.all Char.isDigit ∧
          address ≠ [] ∧ address.all fun c => c.isDigit || ('a' ≤ c && c ≤ 'f') || c = ':' || c = '.' then
        some (String.ofList number)
      else none
    | _ => none

example : logPrefix "SSHTransport" "HoneyPotSSHTransport,5,192.168.1.2" = some "5" := by decide +kernel

/-- The number of the session, looked up in `sessions` where an event has only its id. -/
def Event.number (sessions : OrderedDict String String) (ev : Event T) : Option String :=
  match ev.sessionno with
  | some sessionno => some sessionno
  | none => match ev.session with
    | some session => (sessions.entries.find? fun e => e.2 = session).map Prod.fst
    | none => match ev.system with
      | some system => match logPrefix "TelnetTransport" system with
        | some number => some ("T" ++ number)
        | none => (logPrefix "SSHTransport" system).map ("S" ++ ·)
      | none => none

/-- The protocol that the first letter of a number says; there is none in an empty one. -/
def protocol (sessionno : String) : Option String :=
  sessionno.toList.head?.map fun c => if c = 'S' then "ssh" else if c = 'T' then "telnet" else "unknown"

/-- The end of `emit`, from the protocol on. -/
def writeEvent (sessionno : String) (ev : Event T) (o : Output) : Emitted T :=
  match protocol sessionno with
  | none => ⟨none, true, o⟩
  | some protocol =>
    let ev := { ev with protocol := some protocol }
    if ev.isClosed then
      if sessionno ∉ o.sessions.keys then ⟨some ev, true, o⟩
      else if sessionno ∉ o.ips.keys then ⟨some ev, true, { o with sessions := o.sessions.del sessionno }⟩
      else ⟨some ev, false, { sessions := o.sessions.del sessionno, ips := o.ips.del sessionno }⟩
    else ⟨some ev, false, o⟩

/-- A connect event, from the entry into the dictionaries on. -/
def emitConnect (sessionno : String) (ev : Event T) (o : Output) : Emitted T :=
  match ev.session with
  | none => ⟨none, true, o⟩
  | some session =>
    let o := { o with sessions := o.sessions.set sessionno session }
    match ev.srcIp with
    | none => ⟨none, true, o⟩
    | some srcIp => writeEvent sessionno ev { o with ips := o.ips.set sessionno srcIp }

/-- Any other event, from the look into the dictionary on. -/
def emitOther (sessionno : String) (ev : Event T) (o : Output) : Emitted T :=
  match o.sessions.get? sessionno with
  | none => ⟨none, true, o⟩
  | some session => writeEvent sessionno { ev with session := some session } o

/-- The event with the address of the session, if there is one under its number. -/
def Event.addressed (ev : Event T) (sessionno : String) (o : Output) : Event T :=
  { ev with sessionno := none, srcIp := (o.ips.get? sessionno).or ev.srcIp }

/-- `emit`, once the number of the session is known. -/
def emitFor (sessionno : String) (ev : Event T) (o : Output) : Emitted T :=
  if ev.isConnect then emitConnect sessionno (ev.addressed sessionno o) o
  else emitOther sessionno (ev.addressed sessionno o) o

/-- `emit`. -/
def emit (plugin : Plugin T) (event : Event T) (o : Output) : Emitted T :=
  if event.accepted then
    let ev := event.prepared plugin
    match ev.number o.sessions with
    | none => ⟨none, false, o⟩
    | some sessionno => emitFor sessionno ev o
  else ⟨none, false, o⟩

/-! ## The connected sessions -/

/-- The dictionaries, and the sessions that are connected and not closed: the id and the address by number. -/
structure Log where
  output : Output := {}
  connected : OrderedDict String (String × String) := .empty

/-- The number of the session that an event names. -/
def Log.number (s : Log) (e : Event T) : Option String := e.number (s.connected.mapValues Prod.fst)

/-- The connected sessions after an event. -/
def Log.connectedAfter (s : Log) (e : Event T) : OrderedDict String (String × String) :=
  if e.accepted then
    match s.number e with
    | none => s.connected
    | some n =>
      if e.isConnect then
        match e.session, e.srcIp with
        | some session, some srcIp => s.connected.set n (session, srcIp)
        | _, _ => s.connected
      else if e.isClosed then s.connected.del n
      else s.connected
  else s.connected

/-- The id and the address in the connect event of the session that an event is of. -/
def Log.own (s : Log) (e : Event T) : Option (String × String) :=
  if e.isConnect then e.session.bind fun session => e.srcIp.map fun srcIp => (session, srcIp)
  else (s.number e).bind s.connected.get?

/-- One event. -/
def step (plugin : Plugin T) (s : Log) (e : Event T) : Option Log :=
  some { output := (emit plugin e s.output).output, connected := s.connectedAfter e }

/-- No exception, an event that is written has the id and the address of its own session, a connect event is
written, and the keys are the numbers of the connected sessions. -/
structure Kept (plugin : Plugin T) (s : Log) (e : Event T) : Prop where
  returns : (emit plugin e s.output).raised = false
  own : ∀ ev, (emit plugin e s.output).written = some ev →
    ∃ session srcIp, s.own e = some (session, srcIp) ∧ ev.session = some session ∧ ev.srcIp = some srcIp
  entered : e.accepted → e.isConnect → (emit plugin e s.output).written.isSome
  sessions : ∀ n, n ∈ (emit plugin e s.output).output.sessions.keys ↔ n ∈ (s.connectedAfter e).keys
  ips : ∀ n, n ∈ (emit plugin e s.output).output.ips.keys ↔ n ∈ (s.connectedAfter e).keys

/-- A connect event with a number, an id and an address, and no other address under the number; another event of a
connected session, or of none that it names by number or prefix. -/
def Expected (s : Log) (e : Event T) : Prop :=
  e.accepted →
    if e.isConnect then
      ∃ n session srcIp, s.number e = some n ∧ n ≠ "" ∧ e.session = some session ∧ e.srcIp = some srcIp ∧
        ∀ entry, s.connected.get? n = some entry → entry.2 = srcIp
    else ∀ n, s.number e = some n → n ∈ s.connected.keys

/-! ## What `emit` does -/

/-- The dictionaries are those of the connected sessions, none of which has the empty number. -/
structure Agrees (s : Log) : Prop where
  sessions : s.output.sessions = s.connected.mapValues Prod.fst
  ips : s.output.ips = s.connected.mapValues Prod.snd
  nonempty : "" ∉ s.connected.keys

theorem Agrees.start : Agrees {} := ⟨rfl, rfl, List.not_mem_nil⟩

section
variable {plugin : Plugin T} {s : Log} {e : Event T}

/-- The names, the time and the message leave the rest as it is. -/
theorem prepared_spec (plugin : Plugin T) (e : Event T) :
    (e.prepared plugin).isConnect = e.isConnect ∧ (e.prepared plugin).isClosed = e.isClosed ∧
      (e.prepared plugin).session = e.session ∧ (e.prepared plugin).srcIp = e.srcIp ∧
      ∀ sessions, (e.prepared plugin).number sessions = e.number sessions := by
  unfold Event.prepared
  simp only
  cases e.format with
  | none => exact ⟨rfl, rfl, rfl, rfl, fun _ => rfl⟩
  | some format =>
    simp only
    split_ifs
    · split <;> exact ⟨rfl, rfl, rfl, rfl, fun _ => rfl⟩
    · exact ⟨rfl, rfl, rfl, rfl, fun _ => rfl⟩

theorem protocol_eq_none_iff {sessionno : String} : protocol sessionno = none ↔ sessionno = "" := by
  unfold protocol
  rw [Option.map_eq_none_iff, List.head?_eq_none_iff, String.toList_eq_nil_iff]

theorem emit_of_not_accepted (h : e.accepted = false) (o : Output) : emit plugin e o = ⟨none, false, o⟩ := by
  unfold emit
  rw [h]
  rfl

/-- The numbers that `emit` looks up are those of the connected sessions. -/
theorem Agrees.emit_eq (h : Agrees s) (haccepted : e.accepted) :
    emit plugin e s.output = match s.number e with
      | none => ⟨none, false, s.output⟩
      | some n => emitFor n (e.prepared plugin) s.output := by
  unfold emit Log.number
  rw [if_pos haccepted]
  simp only [(prepared_spec plugin e).2.2.2.2, h.sessions]

/-- The end of `emit` for a session whose number is in both dictionaries. -/
theorem writeEvent_of_mem {n : String} {o : Output} (ev : Event T) (hn : n ≠ "") (hsessions : n ∈ o.sessions.keys)
    (hips : n ∈ o.ips.keys) :
    ∃ protocol, writeEvent n ev o = ⟨some { ev with protocol := some protocol }, false,
      if ev.isClosed then { sessions := o.sessions.del n, ips := o.ips.del n } else o⟩ := by
  cases hprotocol : protocol n with
  | none => exact absurd (protocol_eq_none_iff.mp hprotocol) hn
  | some protocol =>
    refine ⟨protocol, ?_⟩
    unfold writeEvent
    rw [hprotocol]
    simp only [not_not.mpr hsessions, not_not.mpr hips, if_false]
    change (if ev.isClosed then _ else _) = _
    split_ifs <;> rfl

theorem written_of_writeEvent {n : String} {ev w : Event T} {o : Output} (h : (writeEvent n ev o).written = some w) :
    n ≠ "" ∧ w.session = ev.session ∧ w.srcIp = ev.srcIp := by
  unfold writeEvent at h
  cases hprotocol : protocol n with
  | none =>
    rw [hprotocol] at h
    cases h
  | some protocol =>
    rw [hprotocol] at h
    refine ⟨fun hn => ?_, ?_⟩
    · rw [protocol_eq_none_iff.mpr hn] at hprotocol
      cases hprotocol
    · simp only at h
      split_ifs at h <;> obtain rfl := Option.some.inj h <;> exact ⟨rfl, rfl⟩

theorem not_isClosed_of_isConnect (h : e.isConnect) : e.isClosed = false := by
  unfold Event.isConnect Event.isClosed at *
  rw [of_decide_eq_true h]
  decide

/-- A connect event with what it needs is entered. -/
theorem emitFor_connect {n session srcIp : String} {ev : Event T} {o : Output} (hconnect : ev.isConnect)
    (hn : n ≠ "") (hsession : ev.session = some session) (hsrc : (o.ips.get? n).or ev.srcIp = some srcIp) :
    ∃ w, emitFor n ev o =
        ⟨some w, false, { sessions := o.sessions.set n session, ips := o.ips.set n srcIp }⟩ ∧
      w.session = some session ∧ w.srcIp = some srcIp := by
  have hkeys : ∀ (d : OrderedDict String String) a, n ∈ (d.set n a).keys := fun d a =>
    OrderedDict.mem_keys_set.mpr (Or.inl rfl)
  obtain ⟨protocol, hwrite⟩ := writeEvent_of_mem (o := ⟨o.sessions.set n session, o.ips.set n srcIp⟩)
    (ev.addressed n o) hn (hkeys _ _) (hkeys _ _)
  have hopen : (ev.addressed n o).isClosed = false := not_isClosed_of_isConnect hconnect
  have hsession' : (ev.addressed n o).session = some session := hsession
  have hsrc' : (ev.addressed n o).srcIp = some srcIp := hsrc
  rw [hopen] at hwrite
  refine ⟨{ ev.addressed n o with protocol := some protocol }, ?_, hsession', hsrc'⟩
  unfold emitFor emitConnect
  rw [if_pos hconnect, hsession', hsrc']
  exact hwrite

/-- Only a connect event with an id is written, and with the address of an earlier session if there is one. -/
theorem written_of_emitFor_connect {n : String} {ev w : Event T} {o : Output} (hconnect : ev.isConnect)
    (h : (emitFor n ev o).written = some w) :
    n ≠ "" ∧ w.session = ev.session ∧ w.srcIp = (o.ips.get? n).or ev.srcIp := by
  unfold emitFor emitConnect at h
  rw [if_pos hconnect] at h
  cases hsession : (ev.addressed n o).session with
  | none =>
    rw [hsession] at h
    cases h
  | some session =>
    cases hsrc : (ev.addressed n o).srcIp with
    | none =>
      rw [hsession, hsrc] at h
      cases h
    | some srcIp =>
      rw [hsession, hsrc] at h
      exact written_of_writeEvent h

/-- Another event of a session that is there has its id and its address. -/
theorem emitFor_other {n session srcIp : String} {ev : Event T} {o : Output} (hconnect : ev.isConnect = false)
    (hn : n ≠ "") (hsession : o.sessions.get? n = some session) (hsrc : o.ips.get? n = some srcIp) :
    ∃ w, emitFor n ev o = ⟨some w, false,
        if ev.isClosed then { sessions := o.sessions.del n, ips := o.ips.del n } else o⟩ ∧
      w.session = some session ∧ w.srcIp = some srcIp := by
  obtain ⟨protocol, hwrite⟩ := writeEvent_of_mem (o := o) { ev.addressed n o with session := some session } hn
    (OrderedDict.mem_keys_iff.mpr ⟨_, hsession⟩) (OrderedDict.mem_keys_iff.mpr ⟨_, hsrc⟩)
  have hsrc' : (ev.addressed n o).srcIp = some srcIp := by
    unfold Event.addressed
    simp only [hsrc, Option.some_or]
  refine ⟨{ ev.addressed n o with session := some session, protocol := some protocol }, ?_, rfl, hsrc'⟩
  unfold emitFor emitOther
  rw [if_neg (ne_true_of_eq_false hconnect), hsession]
  exact hwrite

/-- Another event of a session that is not there raises an exception. -/
theorem raised_of_emitFor_other {n : String} {ev : Event T} {o : Output} (hconnect : ev.isConnect = false)
    (hsession : o.sessions.get? n = none) : (emitFor n ev o).raised = true := by
  unfold emitFor emitOther
  rw [if_neg (ne_true_of_eq_false hconnect), hsession]

/-! ## Events that come out right -/

theorem Agrees.get?_sessions (h : Agrees s) (n : String) :
    s.output.sessions.get? n = (s.connected.get? n).map Prod.fst := by
  rw [h.sessions, OrderedDict.get?_mapValues]

theorem Agrees.get?_ips (h : Agrees s) (n : String) : s.output.ips.get? n = (s.connected.get? n).map Prod.snd := by
  rw [h.ips, OrderedDict.get?_mapValues]

/-- What agrees has the right keys. -/
theorem Agrees.mem_keys (h : Agrees s) (n : String) :
    (n ∈ s.output.sessions.keys ↔ n ∈ s.connected.keys) ∧ (n ∈ s.output.ips.keys ↔ n ∈ s.connected.keys) := by
  rw [h.sessions, h.ips, OrderedDict.keys_mapValues, OrderedDict.keys_mapValues]
  exact ⟨Iff.rfl, Iff.rfl⟩

/-- An event whose session nobody knows changes nothing, and is right unless it is a connect event. -/
theorem emit_unknown (plugin : Plugin T) (h : Agrees s) (haccepted : e.accepted) (hnumber : s.number e = none) :
    emit plugin e s.output = ⟨none, false, s.output⟩ ∧ s.connectedAfter e = s.connected := by
  refine ⟨by rw [h.emit_eq haccepted, hnumber], ?_⟩
  unfold Log.connectedAfter
  rw [if_pos haccepted, hnumber]

/-- **An expected connect event** is written with its id and its address, and entered. -/
theorem emit_connect (plugin : Plugin T) (h : Agrees s) (haccepted : e.accepted) (hconnect : e.isConnect)
    {n session srcIp : String}
    (hnumber : s.number e = some n) (hn : n ≠ "") (hsession : e.session = some session)
    (hsrc : e.srcIp = some srcIp) (hold : ∀ entry, s.connected.get? n = some entry → entry.2 = srcIp) :
    (∃ w, emit plugin e s.output = ⟨some w, false,
        { sessions := s.output.sessions.set n session, ips := s.output.ips.set n srcIp }⟩ ∧
      w.session = some session ∧ w.srcIp = some srcIp) ∧
    s.connectedAfter e = s.connected.set n (session, srcIp) := by
  obtain ⟨hc, -, hs, ha, -⟩ := prepared_spec plugin e
  constructor
  · rw [h.emit_eq haccepted, hnumber]
    refine emitFor_connect (hc ▸ hconnect) hn (hs ▸ hsession) ?_
    rw [h.get?_ips, ha, hsrc]
    cases hget : s.connected.get? n with
    | none => rfl
    | some entry => exact congrArg some (hold entry hget)
  · unfold Log.connectedAfter
    simp only [haccepted, hnumber, hconnect, hsession, hsrc, if_true]

/-- **An event of a connected session** is written with the id and the address of that. -/
theorem emit_other (plugin : Plugin T) (h : Agrees s) (haccepted : e.accepted) (hconnect : e.isConnect = false)
    {n session srcIp : String} (hnumber : s.number e = some n) (hget : s.connected.get? n = some (session, srcIp)) :
    (∃ w, emit plugin e s.output = ⟨some w, false,
        if e.isClosed then { sessions := s.output.sessions.del n, ips := s.output.ips.del n } else s.output⟩ ∧
      w.session = some session ∧ w.srcIp = some srcIp) ∧
    s.connectedAfter e = if e.isClosed then s.connected.del n else s.connected := by
  obtain ⟨hc, hcl, -, -, -⟩ := prepared_spec plugin e
  have hn : n ≠ "" := fun h0 => h.nonempty (h0 ▸ OrderedDict.mem_keys_iff.mpr ⟨_, hget⟩)
  constructor
  · rw [h.emit_eq haccepted, hnumber, ← hcl]
    refine emitFor_other (hc.trans hconnect) hn ?_ ?_
    · rw [h.get?_sessions, hget]
      rfl
    · rw [h.get?_ips, hget]
      rfl
  · unfold Log.connectedAfter
    simp only [haccepted, hnumber, hconnect, if_true, Bool.false_eq_true, if_false]

/-- **The step lemma.** -/
theorem Agrees.step (h : Agrees s) (plugin : Plugin T) (hexpected : Expected s e) {t : Log}
    (hstep : step plugin s e = some t) : Agrees t := by
  obtain rfl := Option.some.inj hstep
  cases haccepted : e.accepted with
  | false =>
    have hsame : s.connectedAfter e = s.connected := by
      unfold Log.connectedAfter
      rw [haccepted]
      rfl
    simpa only [emit_of_not_accepted haccepted, hsame] using h
  | true =>
    have hexpected := hexpected haccepted
    cases hconnect : e.isConnect with
    | true =>
      rw [if_pos hconnect] at hexpected
      obtain ⟨n, session, srcIp, hnumber, hn, hsession, hsrc, hold⟩ := hexpected
      obtain ⟨⟨w, hemit, -⟩, hafter⟩ :=
        emit_connect plugin h haccepted hconnect hnumber hn hsession hsrc hold
      rw [hemit, hafter]
      refine ⟨?_, ?_, fun hempty => ?_⟩
      · simp only [OrderedDict.mapValues_set, h.sessions]
      · simp only [OrderedDict.mapValues_set, h.ips]
      · rcases OrderedDict.mem_keys_set.mp hempty with h0 | hin
        · exact hn h0.symm
        · exact h.nonempty hin
    | false =>
      rw [if_neg (ne_true_of_eq_false hconnect)] at hexpected
      cases hnumber : s.number e with
      | none =>
        obtain ⟨hemit, hafter⟩ := emit_unknown plugin h haccepted hnumber
        rwa [hemit, hafter]
      | some n =>
        obtain ⟨⟨session, srcIp⟩, hget⟩ := OrderedDict.mem_keys_iff.mp (hexpected n hnumber)
        obtain ⟨⟨w, hemit, -⟩, hafter⟩ := emit_other plugin h haccepted hconnect hnumber hget
        rw [hemit, hafter]
        cases e.isClosed with
        | false => exact h
        | true =>
          refine ⟨?_, ?_, fun hempty => h.nonempty (OrderedDict.mem_keys_del.mp hempty).1⟩
          · simp only [OrderedDict.mapValues_del, h.sessions, if_true]
          · simp only [OrderedDict.mapValues_del, h.ips, if_true]

/-- An expected event comes out right. -/
theorem kept_of_expected (h : Agrees s) (hexpected : Expected s e) : Kept plugin s e := by
  have hkeys := (h.step plugin hexpected rfl).mem_keys
  suffices hright : (emit plugin e s.output).raised = false ∧
      (∀ w, (emit plugin e s.output).written = some w →
        ∃ session srcIp, s.own e = some (session, srcIp) ∧ w.session = some session ∧ w.srcIp = some srcIp) ∧
      (e.accepted → e.isConnect → (emit plugin e s.output).written.isSome) from
    ⟨hright.1, hright.2.1, hright.2.2, fun n => (hkeys n).1, fun n => (hkeys n).2⟩
  unfold Log.own
  cases haccepted : e.accepted with
  | false =>
    rw [emit_of_not_accepted haccepted]
    exact ⟨rfl, fun _ hw => (Option.some_ne_none _ hw.symm).elim, fun hfalse => absurd hfalse Bool.false_ne_true⟩
  | true =>
    have hexpected := hexpected haccepted
    cases hconnect : e.isConnect with
    | true =>
      rw [if_pos hconnect] at hexpected
      obtain ⟨n, session, srcIp, hnumber, hn, hsession, hsrc, hold⟩ := hexpected
      obtain ⟨⟨w, hemit, hw⟩, -⟩ :=
        emit_connect plugin h haccepted hconnect hnumber hn hsession hsrc hold
      rw [hemit, hsession, hsrc]
      refine ⟨rfl, fun w' hw' => ?_, fun _ _ => rfl⟩
      obtain rfl := Option.some.inj hw'
      exact ⟨session, srcIp, rfl, hw⟩
    | false =>
      rw [if_neg (ne_true_of_eq_false hconnect)] at hexpected
      cases hnumber : s.number e with
      | none =>
        rw [(emit_unknown plugin h haccepted hnumber).1]
        exact ⟨rfl, fun _ hw => (Option.some_ne_none _ hw.symm).elim,
          fun _ hfalse => absurd hfalse Bool.false_ne_true⟩
      | some n =>
        obtain ⟨⟨session, srcIp⟩, hget⟩ := OrderedDict.mem_keys_iff.mp (hexpected n hnumber)
        obtain ⟨⟨w, hemit, hw⟩, -⟩ := emit_other plugin h haccepted hconnect hnumber hget
        rw [hemit]
        refine ⟨rfl, fun w' hw' => ?_, fun _ _ => rfl⟩
        obtain rfl := Option.some.inj hw'
        exact ⟨session, srcIp, hget, hw⟩

/-- No other event does. -/
theorem expected_of_kept (h : Agrees s) (hkept : Kept plugin s e) : Expected s e := by
  intro haccepted
  obtain ⟨hc, -, hs, ha, -⟩ := prepared_spec plugin e
  cases hconnect : e.isConnect with
  | true =>
    rw [if_pos rfl]
    obtain ⟨w, hw⟩ := Option.isSome_iff_exists.mp (hkept.entered haccepted hconnect)
    obtain ⟨session, srcIp, hown, -, hsrc⟩ := hkept.own w hw
    unfold Log.own at hown
    simp only [hconnect, if_true, Option.bind_eq_some_iff, Option.map_eq_some_iff] at hown
    obtain ⟨session', hsession, srcIp', hsrcIp, heq⟩ := hown
    obtain ⟨rfl, rfl⟩ := Prod.mk.inj heq
    rw [h.emit_eq haccepted] at hw
    cases hnumber : s.number e with
    | none =>
      rw [hnumber] at hw
      cases hw
    | some n =>
      rw [hnumber] at hw
      obtain ⟨hn, -, hwsrc⟩ := written_of_emitFor_connect (hc ▸ hconnect) hw
      refine ⟨n, session', srcIp', rfl, hn, hsession, hsrcIp, fun entry hentry => ?_⟩
      rw [h.get?_ips, hentry, hsrc] at hwsrc
      exact (Option.some.inj hwsrc).symm
  | false =>
    rw [if_neg Bool.false_ne_true]
    intro n hnumber
    by_contra hout
    have hget : s.output.sessions.get? n = none := by
      rw [h.get?_sessions, OrderedDict.get?_eq_none_iff.mpr hout]
      rfl
    have hreturns := hkept.returns
    rw [h.emit_eq haccepted, hnumber] at hreturns
    simp only [raised_of_emitFor_other (hc.trans hconnect) hget, Bool.true_eq_false] at hreturns

end

/-- **Every event of a run comes out right** iff every one is expected. -/
theorem kept_iff (plugin : Plugin T) (events : List (Event T)) :
    StepsMeet (step plugin) (Kept plugin) {} events ↔ StepsMeet (step plugin) Expected {} events :=
  (stepsMeet_iff_of_inv (fun _ _ _ h hexpected hstep => Agrees.step h plugin hexpected hstep)
    (fun _ _ h => ⟨kept_of_expected h, expected_of_kept h⟩) Agrees.start).symm

/-- An event of a session that was closed raises an exception. -/
theorem raises_after_closed :
    let plugin : Plugin Nat := ⟨"sensor", "unknown", 0, fun _ => "", fun format _ => some format⟩
    let event (eventid : String) : Event Nat :=
      { eventid := some eventid, sessionno := some "S0", session := some "id", srcIp := some "1.2.3.4",
        message := some (.args []) }
    ¬StepsMeet (step plugin) (Kept plugin) {}
      [event "cowrie.session.connect", event "cowrie.session.closed", event "cowrie.log.closed"] := by
  intro plugin event h
  have hkept := (h.2 _ rfl).2 _ rfl
  exact absurd hkept.1.returns (by decide +kernel)

end Output

end Cowrie.Core
