import Cowrie.Lib.Archive
import Cowrie.Lib.Run
import Cowrie.TtyLog

/-!
# What terminal sessions leave behind (`src/cowrie/insults/insults.py`)

A session is recorded as it goes on: what it prints and, if it is interactive, what is typed. The input of a command
that was run without a shell goes to a file of its own. When the connection is lost both files are kept under a digest,
the recording under that of its input; a file whose digest is there already is removed.

* The files of sessions that go on are drafts of an archive (`Cowrie.Lib.Archive`); their names have the session and the
  channel in them. A connection may be lost more than once, and events of sessions come in any order.
* `Session.traffic` and `Session.closed` are ghost state: what was passed on before the connection was lost, and when.
* **`recordings_kept`**: the recording of every session is complete while it goes on. Afterwards there is one of the
  same digest, which is the recording of a session, whole.
* **`stdin_kept`**: the same for the input of a command, up to `bytesReceivedLimit`.
* **`kept_stay`**: what is kept never changes.

Left out: exceptions of `struct.pack` for a time or a length that does not fit, and the redirected files, which
`Cowrie.Shell.Artifacts` has.
-/

namespace Cowrie.Insults

open Lib TtyLog

structure Settings where
  ttylogEnabled : Bool
  bytesReceivedLimit : Int
  sha256 : Bytes → String

/-- `type`, with the command of an exec session. -/
inductive Kind where
  | exec (cmd : Bytes)
  | interactive
  deriving DecidableEq

/-- A `LoggingServerProtocol`. -/
structure Session where
  kind : Kind
  startTime : Stamp
  /-- When the command of an exec session is recorded. -/
  execTime : Stamp
  ttylogOpen : Bool
  stdinlogOpen : Bool
  ttylogSize : Nat := 0
  bytesSent : Nat := 0
  bytesReceived : Nat := 0
  traffic : List Write := []
  closed : Option Stamp := none
  deriving DecidableEq

inductive Message where
  | limitReached (id : Nat)
  | fileDownload (id : Nat) (duplicate : Bool) (shasum : String)
  | logClosed (id : Nat) (size : Nat) (shasum : String) (duplicate : Bool)
  deriving DecidableEq

/-- The sessions, the two directories, and the log with the newest message first. -/
structure Server where
  sessions : OrderedDict Nat Session := .empty
  ttylogPath : Archive Nat String Bytes := .empty
  downloadPath : Archive Nat String Bytes := .empty
  messages : List Message := []

/-- The contents of a file that is opened to append. -/
def draft (files : Archive Nat String Bytes) (id : Nat) : Bytes := (files.get? (.draft id)).getD []

/-- Something is passed on. -/
def Session.pass (u : Session) (w : Write) : Session :=
  if u.closed = none then { u with traffic := u.traffic ++ [w] } else u

/-- `ttylog_open`, with the command of an exec session. -/
def openTtylog (c : Settings) (id : Nat) (kind : Kind) (startTime now : Stamp) (files : Archive Nat String Bytes) :
    Option (Archive Nat String Bytes) :=
  if c.ttylogEnabled then do
    let file ← ttylogOpen startTime (draft files id)
    match kind with
    | .exec cmd => return files.set (.draft id) (← ttylogWrite cmd.length typeInteract now cmd file)
    | .interactive => return files.set (.draft id) file
  else some files

/-- `ttylog_write`, if the recording is open. -/
def writeTtylog (c : Settings) (id : Nat) (u : Session) (w : Write) (files : Archive Nat String Bytes) :
    Option (Archive Nat String Bytes) :=
  if c.ttylogEnabled && u.ttylogOpen then
    (ttylogWrite w.data.length w.direction w.stamp w.data (draft files id)).map (files.set (.draft id))
  else some files

/-- `connectionMade`; an id is used once. -/
def connectionMade (c : Settings) (id : Nat) (kind : Kind) (startTime now : Stamp) (s : Server) : Option Server :=
  if s.sessions.get? id = none then
    (openTtylog c id kind startTime now s.ttylogPath).map fun ttylogPath => { s with
      ttylogPath
      sessions := s.sessions.set id {
        kind, startTime
        execTime := now
        ttylogOpen := c.ttylogEnabled
        stdinlogOpen := kind ≠ .interactive } }
  else none

/-- `write`. -/
def write (c : Settings) (id : Nat) (now : Stamp) (data : Bytes) (s : Server) : Option Server := do
  let u ← s.sessions.get? id
  let ttylogPath ← writeTtylog c id u ⟨typeOutput, now, data⟩ s.ttylogPath
  return { s with
    ttylogPath
    sessions := s.sessions.set id { u.pass ⟨typeOutput, now, data⟩ with
      bytesSent := u.bytesSent + data.length
      ttylogSize := if c.ttylogEnabled && u.ttylogOpen then u.ttylogSize + data.length else u.ttylogSize } }

/-- `dataReceived`. -/
def dataReceived (c : Settings) (id : Nat) (now : Stamp) (data : Bytes) (s : Server) : Option Server := do
  let u ← s.sessions.get? id
  let bytesReceived := u.bytesReceived + data.length
  if c.bytesReceivedLimit ≠ 0 ∧ (bytesReceived : Int) > c.bytesReceivedLimit then
    return { s with
      messages := .limitReached id :: s.messages
      sessions := s.sessions.set id { u with bytesReceived } }
  else if u.stdinlogOpen then
    return { s with
      downloadPath := s.downloadPath.set (.draft id) (draft s.downloadPath id ++ data)
      sessions := s.sessions.set id { u.pass ⟨typeInput, now, data⟩ with bytesReceived } }
  else
    let ttylogPath ← writeTtylog c id u ⟨typeInput, now, data⟩ s.ttylogPath
    return { s with
      ttylogPath
      sessions := s.sessions.set id { u.pass ⟨typeInput, now, data⟩ with bytesReceived } }

/-- The first part of `connectionLost`. If there is no file, it is an `OSError`, which is caught. -/
def closeStdinlog (c : Settings) (id : Nat) (u : Session) (s : Server) : Server :=
  if u.stdinlogOpen then
    match s.downloadPath.get? (.draft id) with
    | none => s
    | some data =>
      let shasum := c.sha256 data
      { s with
        downloadPath := s.downloadPath.keep id shasum data
        messages := .fileDownload id (s.downloadPath.get? (.kept shasum)).isSome shasum :: s.messages }
  else s

/-- The last part of `connectionLost`. -/
def closeTtylog (c : Settings) (id : Nat) (now : Stamp) (u : Session) (s : Server) : Option Server :=
  if c.ttylogEnabled && u.ttylogOpen then do
    let file ← ttylogClose now (draft s.ttylogPath id)
    let shasum ← ttylogInputhash c.sha256 file
    return { s with
      ttylogPath := s.ttylogPath.keep id shasum file
      messages := .logClosed id u.ttylogSize shasum (s.ttylogPath.get? (.kept shasum)).isSome :: s.messages }
  else some s

/-- `connectionLost`. -/
def connectionLost (c : Settings) (id : Nat) (now : Stamp) (s : Server) : Option Server := do
  let u ← s.sessions.get? id
  let s ← closeTtylog c id now u (closeStdinlog c id u s)
  return { s with
    sessions := s.sessions.set id { u with
      stdinlogOpen := false, ttylogOpen := u.ttylogOpen && !c.ttylogEnabled, closed := some (u.closed.getD now) } }

inductive Event where
  | connectionMade (id : Nat) (kind : Kind) (startTime now : Stamp)
  | write (id : Nat) (now : Stamp) (data : Bytes)
  | dataReceived (id : Nat) (now : Stamp) (data : Bytes)
  | connectionLost (id : Nat) (now : Stamp)
  deriving DecidableEq

def step (c : Settings) (s : Server) : Event → Option Server
  | .connectionMade id kind startTime now => connectionMade c id kind startTime now s
  | .write id now data => write c id now data s
  | .dataReceived id now data => dataReceived c id now data s
  | .connectionLost id now => connectionLost c id now s

/-- Everything is recorded, and a text is its own digest. -/
def sampleSettings : Settings := ⟨true, 0, fun b => (decode b).getD ""⟩

/-- Two sessions with the same input. -/
def sampleBegin : List Event :=
  [.connectionMade 0 (.exec (encode "cat")) ⟨1, 0⟩ ⟨1, 2⟩, .connectionMade 1 .interactive ⟨1, 5⟩ ⟨1, 5⟩,
    .dataReceived 0 ⟨2, 0⟩ (encode "x"), .dataReceived 1 ⟨2, 0⟩ (encode "cat"), .connectionLost 0 ⟨4, 0⟩]

/-- The second one prints something, and is closed twice. -/
def sampleEnd : List Event := [.write 1 ⟨5, 0⟩ (encode "y"), .connectionLost 1 ⟨6, 0⟩, .connectionLost 1 ⟨7, 0⟩]

def sampleServer : Server := (run (step sampleSettings) {} (sampleBegin ++ sampleEnd)).getD {}

/-- The first session, after it has ended. -/
def sampleExec : Session :=
  ⟨.exec (encode "cat"), ⟨1, 0⟩, ⟨1, 2⟩, false, false, 0, 0, 1, [⟨typeInput, ⟨2, 0⟩, encode "x"⟩], some ⟨4, 0⟩⟩

theorem run_sampleEvents : run (step sampleSettings) {} (sampleBegin ++ sampleEnd) = some sampleServer := rfl

theorem get?_sampleServer : sampleServer.sessions.get? 0 = some sampleExec := rfl

/-! ## Records -/

/-- What is packed has room. -/
theorem fits_of_pack {h : Header} {b : Bytes} (hpack : h.pack = some b) : h.Fits := by
  have hlong : ∀ {n : Int} {b : Bytes}, packLong n = some b → 0 ≤ n ∧ n < 2 ^ 32 := by
    intro n b h
    unfold packLong packUInt at h
    split_ifs at h with hn
    · exact hn
    · cases h
  have hint : ∀ {n : Int} {b : Bytes}, packInt n = some b → -2 ^ 31 ≤ n ∧ n < 2 ^ 31 := by
    intro n b h
    unfold packInt at h
    split_ifs at h with hn
    exact hn
  unfold Header.pack at hpack
  simp only [Option.bind_eq_bind, Option.bind_eq_some_iff] at hpack
  obtain ⟨op, hop, tty, htty, length, hlength, direction, hdirection, sec, hsec, usec, husec, -⟩ := hpack
  exact ⟨hint hop, hlong htty, hint hlength, hint hdirection, hlong hsec, hlong husec⟩

/-- The file has these records. -/
def Written (rs : List Record) (file : Bytes) : Prop := (∀ r ∈ rs, r.Fits) ∧ Encodes rs file

section
variable {rs : List Record} {file file' : Bytes}

theorem Written.records (h : Written rs file) : records file = some rs :=
  readRecords_encodes h.1 h.2 (Nat.lt_succ_self _)

theorem Written.append {r : Record} {b : Bytes} (h : Written rs file) (hpack : r.header.pack = some b)
    (hlength : r.header.length = r.data.length) : Written (rs ++ [r]) (file ++ b ++ r.data) := by
  have hfits : r.Fits := ⟨fits_of_pack hpack, hlength⟩
  refine ⟨?_, ?_⟩
  · intro r' hr'
    rcases List.mem_append.mp hr' with hr' | hr'
    · exact h.1 r' hr'
    · exact List.mem_singleton.mp hr' ▸ hfits
  · rw [List.append_assoc]
    exact encodes_append h.2 ⟨b, [], hpack, rfl, (List.append_nil _).symm⟩

theorem Written.ttylogWrite {w : Write} (h : Written rs file)
    (hfile : ttylogWrite w.data.length w.direction w.stamp w.data file = some file') :
    Written (rs ++ [w.record]) file' := by
  unfold TtyLog.ttylogWrite at hfile
  obtain ⟨b, hpack, hb⟩ := Option.bind_eq_some_iff.mp hfile
  cases hb
  exact h.append (r := w.record) hpack rfl

theorem Written.mark {op : Int} {stamp : Stamp} {b : Bytes} (h : Written rs file)
    (hpack : Header.pack ⟨op, 0, 0, 0, stamp⟩ = some b) : Written (rs ++ [markRecord op stamp]) (file ++ b) := by
  have hmark := h.append (r := markRecord op stamp) hpack rfl
  rwa [show (markRecord op stamp).data = [] from rfl, List.append_nil] at hmark

theorem written_ttylogOpen {start : Stamp} (hfile : ttylogOpen start [] = some file) :
    Written [markRecord opOpen start] file := by
  unfold ttylogOpen at hfile
  obtain ⟨b, hpack, hb⟩ := Option.bind_eq_some_iff.mp hfile
  cases hb
  have hempty : Written [] [] := ⟨fun r hr => (List.not_mem_nil hr).elim, rfl⟩
  exact hempty.mark hpack

theorem Written.ttylogClose {close : Stamp} (h : Written rs file) (hfile : ttylogClose close file = some file') :
    Written (rs ++ [markRecord opClose close]) file' := by
  unfold TtyLog.ttylogClose at hfile
  obtain ⟨b, hpack, hb⟩ := Option.bind_eq_some_iff.mp hfile
  cases hb
  exact h.mark hpack

end

/-! ## Sessions -/

namespace Session

/-- What is recorded. -/
def recorded (u : Session) : List Write :=
  match u.kind with
  | .exec cmd => ⟨typeInteract, u.execTime, cmd⟩ :: u.traffic.filter fun w => w.direction = typeOutput
  | .interactive => u.traffic

/-- What was typed or sent, in pieces. -/
def inputs (u : Session) : List Bytes := (u.traffic.filter fun w => w.direction = typeInput).map Write.data

/-- The recording of a session that goes on. -/
def opening (u : Session) : List Record := markRecord opOpen u.startTime :: u.recorded.map Write.record

/-- The name under which a recording is kept. -/
def digest (c : Settings) (u : Session) : String := c.sha256 (notOutput u.recorded)

variable {u : Session} {w : Write}

theorem pass_of_open (h : u.closed = none) (w : Write) : u.pass w = { u with traffic := u.traffic ++ [w] } := if_pos h

theorem pass_of_closed (h : u.closed ≠ none) (w : Write) : u.pass w = u := if_neg h

@[simp] theorem pass_kind : (u.pass w).kind = u.kind := by
  unfold pass
  split_ifs <;> rfl

@[simp] theorem pass_closed : (u.pass w).closed = u.closed := by
  unfold pass
  split_ifs <;> rfl

@[simp] theorem pass_ttylogOpen : (u.pass w).ttylogOpen = u.ttylogOpen := by
  unfold pass
  split_ifs <;> rfl

@[simp] theorem pass_startTime : (u.pass w).startTime = u.startTime := by
  unfold pass
  split_ifs <;> rfl

@[simp] theorem pass_ttylogSize : (u.pass w).ttylogSize = u.ttylogSize := by
  unfold pass
  split_ifs <;> rfl

@[simp] theorem pass_bytesReceived : (u.pass w).bytesReceived = u.bytesReceived := by
  unfold pass
  split_ifs <;> rfl

@[simp] theorem pass_stdinlogOpen : (u.pass w).stdinlogOpen = u.stdinlogOpen := by
  unfold pass
  split_ifs <;> rfl

/-- What is passed on is recorded, if it is printed or the session is interactive. -/
theorem recorded_pass (h : u.closed = none) (hw : w.direction = typeOutput ∨ u.kind = .interactive) :
    (u.pass w).recorded = u.recorded ++ [w] := by
  rw [pass_of_open h]
  unfold recorded
  cases hkind : u.kind with
  | exec cmd =>
    have hout : w.direction = typeOutput := hw.resolve_right (by simp [hkind])
    simp [hout]
  | interactive => rfl

theorem recorded_pass_input {cmd : Bytes} (hkind : u.kind = .exec cmd) (hw : w.direction ≠ typeOutput) :
    (u.pass w).recorded = u.recorded := by
  unfold pass
  split_ifs
  · simp [recorded, hkind, hw]
  · rfl

theorem inputs_pass_output (hw : w.direction ≠ typeInput) : (u.pass w).inputs = u.inputs := by
  unfold pass
  split_ifs
  · simp [inputs, hw]
  · rfl

theorem inputs_pass (h : u.closed = none) (hw : w.direction = typeInput) :
    (u.pass w).inputs = u.inputs ++ [w.data] := by
  rw [pass_of_open h]
  simp [inputs, hw]

theorem opening_pass (h : u.closed = none) (hw : w.direction = typeOutput ∨ u.kind = .interactive) :
    (u.pass w).opening = u.opening ++ [w.record] := by
  unfold opening
  rw [recorded_pass h hw, List.map_append]
  unfold pass
  split_ifs
  rfl

end Session

/-- What the files have of a session. -/
structure Kept (c : Settings) (s : Server) (id : Nat) (u : Session) : Prop where
  ttylogOpen : u.ttylogOpen = (c.ttylogEnabled && u.closed.isNone)
  stdinlogOpen : u.stdinlogOpen = (decide (u.kind ≠ .interactive) && u.closed.isNone)
  recording : u.ttylogOpen = true → ∃ file, s.ttylogPath.get? (.draft id) = some file ∧ Written u.opening file
  recordingKept : c.ttylogEnabled = true → u.closed ≠ none → (s.ttylogPath.get? (.kept (u.digest c))).isSome = true
  stdin : u.stdinlogOpen = true →
    s.downloadPath.get? (.draft id) = if u.inputs = [] then none else some u.inputs.flatten
  stdinKept : u.kind ≠ .interactive → u.closed ≠ none → u.inputs ≠ [] →
    (s.downloadPath.get? (.kept (c.sha256 u.inputs.flatten))).isSome = true
  received : u.inputs.flatten.length ≤ u.bytesReceived
  limit : c.bytesReceivedLimit ≠ 0 → u.inputs ≠ [] → (u.inputs.flatten.length : Int) ≤ c.bytesReceivedLimit

/-- The files of all sessions, and those that are kept. -/
structure Inv (c : Settings) (s : Server) : Prop where
  session : ∀ id u, s.sessions.get? id = some u → Kept c s id u
  fresh : ∀ id, s.sessions.get? id = none →
    s.ttylogPath.get? (.draft id) = none ∧ s.downloadPath.get? (.draft id) = none
  recordings : ∀ shasum file, s.ttylogPath.get? (.kept shasum) = some file → ∃ id u close,
    s.sessions.get? id = some u ∧ u.closed = some close ∧ u.digest c = shasum ∧
      Written (sessionRecords u.startTime u.recorded close) file
  stdins : ∀ shasum data, s.downloadPath.get? (.kept shasum) = some data → c.sha256 data = shasum

/-- What one session may change. -/
structure Change (s t : Server) (id : Nat) (v : Session) : Prop where
  sessions : t.sessions = s.sessions.set id v
  drafts : ∀ j, j ≠ id → t.ttylogPath.get? (.draft j) = s.ttylogPath.get? (.draft j) ∧
    t.downloadPath.get? (.draft j) = s.downloadPath.get? (.draft j)
  recordings : ∀ shasum file, s.ttylogPath.get? (.kept shasum) = some file →
    t.ttylogPath.get? (.kept shasum) = some file
  stdins : ∀ shasum data, s.downloadPath.get? (.kept shasum) = some data →
    t.downloadPath.get? (.kept shasum) = some data
  closed : ∀ u close, s.sessions.get? id = some u → u.closed = some close →
    v.closed = some close ∧ v.recorded = u.recorded ∧ v.startTime = u.startTime

section
variable {c : Settings} {s t : Server} {id : Nat} {u v : Session} {e : Event}

theorem isSome_of_kept {files files' : Archive Nat String Bytes}
    (h : ∀ shasum file, files.get? (.kept shasum) = some file → files'.get? (.kept shasum) = some file)
    {shasum : String} (hkept : (files.get? (.kept shasum)).isSome = true) :
    (files'.get? (.kept shasum)).isSome = true := by
  obtain ⟨file, hfile⟩ := Option.isSome_iff_exists.mp hkept
  rw [h shasum file hfile]
  rfl

/-- The other sessions keep what they have. -/
theorem Kept.of_change {j : Nat} (h : Kept c s j u) (hchange : Change s t id v) (hj : j ≠ id) : Kept c t j u where
  ttylogOpen := h.ttylogOpen
  stdinlogOpen := h.stdinlogOpen
  recording hopen := by
    rw [(hchange.drafts j hj).1]
    exact h.recording hopen
  recordingKept henabled hclosed := isSome_of_kept hchange.recordings (h.recordingKept henabled hclosed)
  stdin hopen := by
    rw [(hchange.drafts j hj).2]
    exact h.stdin hopen
  stdinKept hkind hclosed hinputs := isSome_of_kept hchange.stdins (h.stdinKept hkind hclosed hinputs)
  received := h.received
  limit := h.limit

/-- The invariant after a change: it is enough to look at that session and at what is kept now. -/
theorem Inv.of_change (h : Inv c s) (hchange : Change s t id v) (hv : Kept c t id v)
    (hrecordings : ∀ shasum file, t.ttylogPath.get? (.kept shasum) = some file →
      s.ttylogPath.get? (.kept shasum) = some file ∨ ∃ close, v.closed = some close ∧ v.digest c = shasum ∧
        Written (sessionRecords v.startTime v.recorded close) file)
    (hstdins : ∀ shasum data, t.downloadPath.get? (.kept shasum) = some data →
      s.downloadPath.get? (.kept shasum) = some data ∨ c.sha256 data = shasum) : Inv c t where
  session j u hu := by
    rw [hchange.sessions, OrderedDict.get?_set] at hu
    split_ifs at hu with hj
    · cases hu
      exact hj ▸ hv
    · exact (h.session j u hu).of_change hchange hj
  fresh j hj := by
    rw [hchange.sessions, OrderedDict.get?_set] at hj
    split_ifs at hj with hne
    rw [(hchange.drafts j hne).1, (hchange.drafts j hne).2]
    exact h.fresh j hj
  recordings shasum file hfile := by
    have hself : t.sessions.get? id = some v := by
      rw [hchange.sessions, OrderedDict.get?_set, if_pos rfl]
    rcases hrecordings shasum file hfile with hfile | ⟨close, hclose, hdigest, hwritten⟩
    · obtain ⟨j, u, close, hu, hclose, hdigest, hwritten⟩ := h.recordings shasum file hfile
      by_cases hj : j = id
      · subst hj
        obtain ⟨hclose', hrecorded, hstart⟩ := hchange.closed u close hu hclose
        refine ⟨j, v, close, hself, hclose', ?_, ?_⟩
        · unfold Session.digest
          rw [hrecorded]
          exact hdigest
        · rw [hrecorded, hstart]
          exact hwritten
      · refine ⟨j, u, close, ?_, hclose, hdigest, hwritten⟩
        rw [hchange.sessions, OrderedDict.get?_set, if_neg hj]
        exact hu
    · exact ⟨id, v, close, hself, hclose, hdigest, hwritten⟩
  stdins shasum data hdata := (hstdins shasum data hdata).elim (h.stdins shasum data) fun heq => heq

/-! ## The events -/

theorem draft_of_get? {files : Archive Nat String Bytes} {file : Bytes} (h : files.get? (.draft id) = some file) :
    draft files id = file := by
  unfold draft
  rw [h]
  rfl

theorem draft_of_none {files : Archive Nat String Bytes} (h : files.get? (.draft id) = none) : draft files id = [] := by
  unfold draft
  rw [h]
  rfl

/-- Writing a draft leaves the rest alone. -/
theorem get?_set_draft_of_ne (files : Archive Nat String Bytes) (file : Bytes) {j : Nat} (hj : j ≠ id) :
    (files.set (.draft id) file).get? (.draft j) = files.get? (.draft j) := by
  rw [OrderedDict.get?_set, if_neg (by simpa using hj)]

theorem get?_set_draft_kept (files : Archive Nat String Bytes) (file : Bytes) (shasum : String) :
    (files.set (.draft id) file).get? (.kept shasum) = files.get? (.kept shasum) := by
  rw [OrderedDict.get?_set, if_neg (by simp)]

theorem get?_set_draft (files : Archive Nat String Bytes) (file : Bytes) :
    (files.set (.draft id) file).get? (.draft id) = some file := by
  rw [OrderedDict.get?_set, if_pos rfl]

/-- What `openTtylog` leaves. -/
theorem openTtylog_spec {kind : Kind} {startTime now : Stamp} {files files' : Archive Nat String Bytes}
    (hnone : files.get? (.draft id) = none) (h : openTtylog c id kind startTime now files = some files') :
    (c.ttylogEnabled = false ∧ files' = files) ∨
      ∃ file, c.ttylogEnabled = true ∧ files' = files.set (.draft id) file ∧
        Written (Session.opening ⟨kind, startTime, now, true, true, 0, 0, 0, [], none⟩) file := by
  unfold openTtylog at h
  split_ifs at h with henabled
  · right
    rw [draft_of_none hnone] at h
    obtain ⟨file, hopen, h⟩ := Option.bind_eq_some_iff.mp h
    cases kind with
    | exec cmd =>
      obtain ⟨file', hwrite, h⟩ := Option.bind_eq_some_iff.mp h
      cases h
      exact ⟨file', henabled, rfl, (written_ttylogOpen hopen).ttylogWrite (w := ⟨typeInteract, now, cmd⟩) hwrite⟩
    | interactive =>
      cases h
      exact ⟨file, henabled, rfl, written_ttylogOpen hopen⟩
  · left
    cases h
    exact ⟨by simpa using henabled, rfl⟩

/-- What `writeTtylog` leaves. -/
theorem writeTtylog_spec {w : Write} {files files' : Archive Nat String Bytes} {rs : List Record}
    (hrecording : u.ttylogOpen = true → ∃ file, files.get? (.draft id) = some file ∧ Written rs file)
    (h : writeTtylog c id u w files = some files') :
    ((c.ttylogEnabled && u.ttylogOpen) = false ∧ files' = files) ∨
      ∃ file, u.ttylogOpen = true ∧ files' = files.set (.draft id) file ∧ Written (rs ++ [w.record]) file := by
  unfold writeTtylog at h
  split_ifs at h with hopen
  · right
    obtain ⟨-, hopen⟩ := Bool.and_eq_true_iff.mp hopen
    obtain ⟨file, hfile, hwritten⟩ := hrecording hopen
    rw [draft_of_get? hfile] at h
    obtain ⟨file', hwrite, rfl⟩ := Option.map_eq_some_iff.mp h
    exact ⟨file', hopen, rfl, hwritten.ttylogWrite hwrite⟩
  · left
    cases h
    exact ⟨by simpa using hopen, rfl⟩

theorem inv_connectionMade {kind : Kind} {startTime now : Stamp} (h : Inv c s)
    (ht : connectionMade c id kind startTime now s = some t) : Inv c t := by
  unfold connectionMade at ht
  split_ifs at ht with hnew
  obtain ⟨files, hfiles, rfl⟩ := Option.map_eq_some_iff.mp ht
  obtain ⟨hfresh, hfresh'⟩ := h.fresh id hnew
  have hother : ∀ u, s.sessions.get? id ≠ some u := fun u hu => by
    rw [hnew] at hu
    cases hu
  rcases openTtylog_spec hfresh hfiles with ⟨henabled, rfl⟩ | ⟨file, henabled, rfl, hwritten⟩
  · refine h.of_change ⟨rfl, fun j hj => ⟨rfl, rfl⟩, fun _ _ hf => hf, fun _ _ hf => hf,
      fun u _ hu => absurd hu (hother u)⟩ ?_
      (fun _ _ hf => .inl hf) fun _ _ hf => .inl hf
    exact ⟨by simp [henabled], by simp, fun hopen => by simp [henabled] at hopen, fun _ hclosed => absurd rfl hclosed,
      fun _ => hfresh', fun _ hclosed => absurd rfl hclosed, Nat.zero_le _, fun _ hinputs => absurd rfl hinputs⟩
  · refine h.of_change ⟨rfl, fun j hj => ⟨get?_set_draft_of_ne _ _ hj, rfl⟩, fun _ _ hf => ?_, fun _ _ hf => hf,
      fun u _ hu => absurd hu (hother u)⟩ ?_ (fun shasum _ hf => .inl ?_) fun _ _ hf => .inl hf
    · rwa [get?_set_draft_kept]
    · exact ⟨by simp, by simp, fun _ => ⟨file, get?_set_draft _ _, hwritten⟩, fun _ hclosed => absurd rfl hclosed,
        fun _ => hfresh', fun _ hclosed => absurd rfl hclosed, Nat.zero_le _, fun _ hinputs => absurd rfl hinputs⟩
    · rwa [get?_set_draft_kept] at hf

theorem writeTtylog_frame {w : Write} {files files' : Archive Nat String Bytes}
    (h : writeTtylog c id u w files = some files') {slot : Slot Nat String} (hslot : slot ≠ .draft id) :
    files'.get? slot = files.get? slot := by
  unfold writeTtylog at h
  split_ifs at h
  · obtain ⟨file, -, rfl⟩ := Option.map_eq_some_iff.mp h
    rw [OrderedDict.get?_set, if_neg hslot]
  · cases h
    rfl

/-- A closed session stays as it was recorded. -/
theorem recorded_pass_of_closed {close : Stamp} {w : Write} (h : u.closed = some close) : u.pass w = u :=
  Session.pass_of_closed (by simp [h]) w

/-- The recording after `writeTtylog`. -/
theorem recording_writeTtylog {w : Write} {files : Archive Nat String Bytes} (hk : Kept c s id u)
    (hfiles : writeTtylog c id u w s.ttylogPath = some files)
    (hw : w.direction = typeOutput ∨ u.kind = .interactive) (hopen : u.ttylogOpen = true) :
    ∃ file, files.get? (.draft id) = some file ∧ Written (u.pass w).opening file := by
  obtain ⟨henabled, hclosed⟩ := Bool.and_eq_true_iff.mp (hk.ttylogOpen ▸ hopen)
  rcases writeTtylog_spec hk.recording hfiles with ⟨hskip, -⟩ | ⟨file, -, rfl, hwritten⟩
  · rw [henabled, hopen] at hskip
    cases hskip
  · refine ⟨file, get?_set_draft _ _, ?_⟩
    rw [Session.opening_pass (by simpa using hclosed) hw]
    exact hwritten

theorem closed_pass {w : Write} (hu : s.sessions.get? id = some u) {u' : Session} {close : Stamp}
    (hu' : s.sessions.get? id = some u') (hclose : u'.closed = some close) :
    (u.pass w).closed = some close ∧ (u.pass w).recorded = u'.recorded ∧ (u.pass w).startTime = u'.startTime := by
  cases hu.symm.trans hu'
  rw [recorded_pass_of_closed hclose]
  exact ⟨hclose, rfl, rfl⟩

theorem inv_write {now : Stamp} {data : Bytes} (h : Inv c s) (ht : write c id now data s = some t) : Inv c t := by
  unfold write at ht
  obtain ⟨u, hu, ht⟩ := Option.bind_eq_some_iff.mp ht
  obtain ⟨files, hfiles, ht⟩ := Option.bind_eq_some_iff.mp ht
  cases ht
  have hk := h.session id u hu
  have hkept : ∀ shasum, files.get? (.kept shasum) = s.ttylogPath.get? (.kept shasum) :=
    fun shasum => writeTtylog_frame hfiles (by simp)
  have hinputs : (u.pass ⟨typeOutput, now, data⟩).inputs = u.inputs :=
    Session.inputs_pass_output (show typeOutput ≠ typeInput by decide)
  refine h.of_change ⟨rfl, fun j hj => ⟨writeTtylog_frame hfiles (by simpa using hj), rfl⟩,
    fun shasum _ hf => (hkept shasum).trans hf, fun _ _ hf => hf, fun u' close hu' => closed_pass hu hu'⟩ ?_
    (fun shasum _ hf => .inl ((hkept shasum).symm.trans hf)) fun _ _ hf => .inl hf
  · constructor
    case ttylogOpen => simpa using hk.ttylogOpen
    case stdinlogOpen => simpa using hk.stdinlogOpen
    case recording => exact fun hopen => recording_writeTtylog hk hfiles (.inl rfl) (by simpa using hopen)
    case recordingKept =>
      intro henabled hclosed
      have hclosed : u.closed ≠ none := by simpa using hclosed
      change (files.get? (.kept ((u.pass _).digest c))).isSome = true
      rw [Session.pass_of_closed hclosed, hkept]
      exact hk.recordingKept henabled hclosed
    case stdin =>
      intro hopen
      change s.downloadPath.get? _ = if (u.pass _).inputs = [] then none else some (u.pass _).inputs.flatten
      rw [hinputs]
      exact hk.stdin (by simpa using hopen)
    case stdinKept =>
      intro hkind hclosed hne
      change (s.downloadPath.get? (.kept (c.sha256 (u.pass _).inputs.flatten))).isSome = true
      rw [hinputs]
      exact hk.stdinKept (by simpa using hkind) (by simpa using hclosed) (hinputs ▸ hne)
    case received =>
      change (u.pass _).inputs.flatten.length ≤ (u.pass _).bytesReceived
      rw [hinputs, Session.pass_bytesReceived]
      exact hk.received
    case limit =>
      intro hlimit hne
      change ((u.pass _).inputs.flatten.length : Int) ≤ _
      rw [hinputs]
      exact hk.limit hlimit (hinputs ▸ hne)

/-- The input of a session that has one piece more, or is closed, within the limit. -/
theorem inputs_pass_input (now : Stamp) {data : Bytes} (hk : Kept c s id u)
    (hlimit : ¬(c.bytesReceivedLimit ≠ 0 ∧ ((u.bytesReceived + data.length : Nat) : Int) > c.bytesReceivedLimit)) :
    (u.pass ⟨typeInput, now, data⟩).inputs.flatten.length ≤ u.bytesReceived + data.length ∧
      (c.bytesReceivedLimit ≠ 0 → (u.pass ⟨typeInput, now, data⟩).inputs ≠ [] →
        ((u.pass ⟨typeInput, now, data⟩).inputs.flatten.length : Int) ≤ c.bytesReceivedLimit) := by
  have hreceived := hk.received
  by_cases hclosed : u.closed = none
  · have hinputs : (u.pass ⟨typeInput, now, data⟩).inputs = u.inputs ++ [data] := Session.inputs_pass hclosed rfl
    rw [hinputs, List.flatten_append, List.length_append, List.flatten_singleton]
    refine ⟨by omega, fun hne _ => ?_⟩
    have hwithin := not_and.mp hlimit hne
    push_cast at hwithin ⊢
    omega
  · rw [Session.pass_of_closed hclosed]
    exact ⟨by omega, hk.limit⟩

theorem inv_dataReceived {now : Stamp} {data : Bytes} (h : Inv c s) (ht : dataReceived c id now data s = some t) :
    Inv c t := by
  unfold dataReceived at ht
  obtain ⟨u, hu, ht⟩ := Option.bind_eq_some_iff.mp ht
  have hk := h.session id u hu
  have hreceived := hk.received
  simp only at ht
  split_ifs at ht with hlimit hstdin
  · -- the limit is reached
    cases ht
    refine h.of_change ⟨rfl, fun j hj => ⟨rfl, rfl⟩, fun _ _ hf => hf, fun _ _ hf => hf, ?_⟩ ?_
      (fun _ _ hf => .inl hf) fun _ _ hf => .inl hf
    · intro u' close hu' hclose
      cases hu.symm.trans hu'
      exact ⟨hclose, rfl, rfl⟩
    · exact ⟨hk.ttylogOpen, hk.stdinlogOpen, hk.recording, hk.recordingKept, hk.stdin, hk.stdinKept,
        Nat.le_add_right_of_le hreceived, hk.limit⟩
  · -- the command's input
    cases ht
    obtain ⟨hkind, hclosed⟩ := Bool.and_eq_true_iff.mp (hk.stdinlogOpen ▸ hstdin)
    have hclosed : u.closed = none := by simpa using hclosed
    obtain ⟨cmd, hcmd⟩ : ∃ cmd, u.kind = .exec cmd := by
      cases hkind' : u.kind with
      | exec cmd => exact ⟨cmd, rfl⟩
      | interactive => simp [hkind'] at hkind
    have hrecorded : (u.pass ⟨typeInput, now, data⟩).recorded = u.recorded :=
      Session.recorded_pass_input hcmd (show typeInput ≠ typeOutput by decide)
    have hinputs : (u.pass ⟨typeInput, now, data⟩).inputs = u.inputs ++ [data] := Session.inputs_pass hclosed rfl
    obtain ⟨hlength, hwithin⟩ := inputs_pass_input now hk hlimit
    have hdraft : draft s.downloadPath id = u.inputs.flatten := by
      unfold draft
      rw [hk.stdin hstdin]
      split_ifs with hnil
      · rw [hnil]
        rfl
      · rfl
    refine h.of_change ⟨rfl, fun j hj => ⟨rfl, get?_set_draft_of_ne _ _ hj⟩, fun _ _ hf => hf,
      fun shasum _ hf => (get?_set_draft_kept _ _ shasum).trans hf, fun u' close hu' => closed_pass hu hu'⟩ ?_
      (fun _ _ hf => .inl hf) fun shasum _ hf => .inl ((get?_set_draft_kept _ _ shasum).symm.trans hf)
    constructor
    case ttylogOpen => simpa using hk.ttylogOpen
    case stdinlogOpen => simpa using hk.stdinlogOpen
    case recording =>
      intro hopen
      have hopening : (u.pass ⟨typeInput, now, data⟩).opening = u.opening := by
        unfold Session.opening
        rw [hrecorded, Session.pass_startTime]
      obtain ⟨file, hfile, hwritten⟩ := hk.recording (by simpa using hopen)
      exact ⟨file, hfile, hopening ▸ hwritten⟩
    case recordingKept => exact fun _ hne => absurd (Session.pass_closed.trans hclosed) hne
    case stdin =>
      intro _
      change (s.downloadPath.set (.draft id) (draft s.downloadPath id ++ data)).get? (.draft id) =
        if (u.pass _).inputs = [] then none else some (u.pass _).inputs.flatten
      rw [get?_set_draft, hinputs, if_neg (by simp), hdraft, List.flatten_append, List.flatten_singleton]
    case stdinKept => exact fun _ hne => absurd (Session.pass_closed.trans hclosed) hne
    case received => exact hlength
    case limit => exact hwithin
  · -- the recording
    obtain ⟨files, hfiles, ht⟩ := Option.bind_eq_some_iff.mp ht
    cases ht
    obtain ⟨hlength, hwithin⟩ := inputs_pass_input now hk hlimit
    have hinteractive : u.closed = none → u.kind = .interactive := by
      intro hclosed
      have hflag := hk.stdinlogOpen
      rw [hclosed] at hflag
      simpa [hstdin] using hflag
    have hkept : ∀ shasum, files.get? (.kept shasum) = s.ttylogPath.get? (.kept shasum) :=
      fun shasum => writeTtylog_frame hfiles (by simp)
    refine h.of_change ⟨rfl, fun j hj => ⟨writeTtylog_frame hfiles (by simpa using hj), rfl⟩,
      fun shasum _ hf => (hkept shasum).trans hf, fun _ _ hf => hf, fun u' close hu' => closed_pass hu hu'⟩ ?_
      (fun shasum _ hf => .inl ((hkept shasum).symm.trans hf)) fun _ _ hf => .inl hf
    constructor
    case ttylogOpen => simpa using hk.ttylogOpen
    case stdinlogOpen => simpa using hk.stdinlogOpen
    case recording =>
      intro hopen
      have hopen : u.ttylogOpen = true := by simpa using hopen
      obtain ⟨-, hclosed⟩ := Bool.and_eq_true_iff.mp (hk.ttylogOpen ▸ hopen)
      exact recording_writeTtylog hk hfiles (.inr (hinteractive (by simpa using hclosed))) hopen
    case recordingKept =>
      intro henabled hclosed
      have hclosed : u.closed ≠ none := by simpa using hclosed
      change (files.get? (.kept ((u.pass _).digest c))).isSome = true
      rw [Session.pass_of_closed hclosed, hkept]
      exact hk.recordingKept henabled hclosed
    case stdin =>
      intro hopen
      exact absurd (Session.pass_stdinlogOpen.symm.trans hopen) hstdin
    case stdinKept =>
      intro hkind hclosed hne
      have hclosed : u.closed ≠ none := by simpa using hclosed
      change (s.downloadPath.get? (.kept (c.sha256 (u.pass _).inputs.flatten))).isSome = true
      change (u.pass _).inputs ≠ [] at hne
      rw [Session.pass_of_closed hclosed] at hne ⊢
      exact hk.stdinKept (by simpa using hkind) hclosed hne
    case received => exact hlength
    case limit => exact hwithin

/-- A `cowrie.log.closed`. -/
structure Closing where
  id : Nat
  size : Nat
  shasum : String
  duplicate : Bool
  deriving DecidableEq

def Message.closing? : Message → Option Closing
  | .logClosed id size shasum duplicate => some ⟨id, size, shasum, duplicate⟩
  | _ => none

def closings (messages : List Message) : List Closing := messages.filterMap Message.closing?

/-- The session when the connection is lost. -/
def Session.lost (c : Settings) (now : Stamp) (u : Session) : Session :=
  { u with
    stdinlogOpen := false, ttylogOpen := u.ttylogOpen && !c.ttylogEnabled, closed := some (u.closed.getD now) }

/-- The directory of the recordings, and the log, when the connection is lost. -/
inductive Recorded (c : Settings) (now : Stamp) (id : Nat) (u : Session) (files files' : Archive Nat String Bytes)
    (cs cs' : List Closing) : Prop
  | skipped (hopen : (c.ttylogEnabled && u.ttylogOpen) = false) (hsame : files' = files) (hcs : cs' = cs) :
      Recorded c now id u files files' cs cs'
  | kept (file : Bytes) (hopen : u.ttylogOpen = true)
      (hwritten : Written (sessionRecords u.startTime u.recorded now) file)
      (hkeep : files' = files.keep id (u.digest c) file)
      (hcs : cs' = ⟨id, u.ttylogSize, u.digest c, (files.get? (.kept (u.digest c))).isSome⟩ :: cs) :
      Recorded c now id u files files' cs cs'

/-- The directory of the downloads when the connection is lost. -/
inductive Saved (c : Settings) (id : Nat) (u : Session) (files files' : Archive Nat String Bytes) : Prop
  | skipped (hopen : u.stdinlogOpen = true → u.inputs = []) (hsame : files' = files) : Saved c id u files files'
  | kept (hopen : u.stdinlogOpen = true)
      (hkeep : files' = files.keep id (c.sha256 u.inputs.flatten) u.inputs.flatten) : Saved c id u files files'

theorem closeStdinlog_spec (hk : Kept c s id u) :
    Saved c id u s.downloadPath (closeStdinlog c id u s).downloadPath ∧
      (closeStdinlog c id u s).ttylogPath = s.ttylogPath ∧ (closeStdinlog c id u s).sessions = s.sessions ∧
      closings (closeStdinlog c id u s).messages = closings s.messages := by
  unfold closeStdinlog
  split_ifs with hstdin
  · rw [hk.stdin hstdin]
    split_ifs with hnil
    · exact ⟨.skipped (fun _ => hnil) rfl, rfl, rfl, rfl⟩
    · exact ⟨.kept hstdin rfl, rfl, rfl, rfl⟩
  · exact ⟨.skipped (fun hopen => absurd hopen hstdin) rfl, rfl, rfl, rfl⟩

theorem closeTtylog_spec {now : Stamp}
    (hrecording : u.ttylogOpen = true → ∃ file, s.ttylogPath.get? (.draft id) = some file ∧ Written u.opening file)
    (ht : closeTtylog c id now u s = some t) :
    Recorded c now id u s.ttylogPath t.ttylogPath (closings s.messages) (closings t.messages) ∧
      t.downloadPath = s.downloadPath ∧ t.sessions = s.sessions := by
  unfold closeTtylog at ht
  split_ifs at ht with hopen
  · have hopen' : u.ttylogOpen = true := (Bool.and_eq_true_iff.mp hopen).2
    obtain ⟨file, hfile, hwritten⟩ := hrecording hopen'
    rw [draft_of_get? hfile] at ht
    obtain ⟨file', hclose, ht⟩ := Option.bind_eq_some_iff.mp ht
    obtain ⟨shasum, hshasum, ht⟩ := Option.bind_eq_some_iff.mp ht
    cases ht
    have hwritten' : Written (sessionRecords u.startTime u.recorded now) file' := hwritten.ttylogClose hclose
    unfold ttylogInputhash at hshasum
    rw [hwritten'.records, Option.bind_eq_bind, Option.bind_some, input_sessionRecords] at hshasum
    cases hshasum
    exact ⟨.kept file' hopen' hwritten' rfl rfl, rfl, rfl⟩
  · cases ht
    exact ⟨.skipped (by simpa using hopen) rfl rfl, rfl, rfl⟩

theorem connectionLost_spec {now : Stamp} (h : Inv c s) (ht : connectionLost c id now s = some t) :
    ∃ u, s.sessions.get? id = some u ∧ t.sessions = s.sessions.set id (u.lost c now) ∧
      Recorded c now id u s.ttylogPath t.ttylogPath (closings s.messages) (closings t.messages) ∧
      Saved c id u s.downloadPath t.downloadPath := by
  unfold connectionLost at ht
  obtain ⟨u, hu, ht⟩ := Option.bind_eq_some_iff.mp ht
  obtain ⟨s', hs', ht⟩ := Option.bind_eq_some_iff.mp ht
  cases ht
  have hk := h.session id u hu
  obtain ⟨hsaved, htty, hsessions, hmessages⟩ := closeStdinlog_spec hk
  obtain ⟨hrecorded, hdownload, hsessions'⟩ := closeTtylog_spec (fun hopen => htty ▸ hk.recording hopen) hs'
  rw [htty, hmessages] at hrecorded
  refine ⟨u, hu, ?_, hrecorded, ?_⟩
  · change s'.sessions.set id _ = _
    rw [hsessions', hsessions]
    rfl
  · change Saved c id u s.downloadPath s'.downloadPath
    rw [hdownload]
    exact hsaved

section
variable {now : Stamp} {files files' : Archive Nat String Bytes} {cs cs' : List Closing}

theorem Recorded.frame (h : Recorded c now id u files files' cs cs') :
    (∀ j, j ≠ id → files'.get? (.draft j) = files.get? (.draft j)) ∧
      ∀ shasum file, files.get? (.kept shasum) = some file → files'.get? (.kept shasum) = some file := by
  cases h with
  | skipped _ hsame _ => exact hsame ▸ ⟨fun _ _ => rfl, fun _ _ hf => hf⟩
  | kept file _ _ hkeep _ =>
    refine hkeep ▸ ⟨fun j hj => ?_, fun shasum _ hf => Archive.get?_keep_of_kept _ _ _ _ hf⟩
    rw [Archive.get?_keep_draft, if_neg hj]

theorem Saved.frame (h : Saved c id u files files') :
    (∀ j, j ≠ id → files'.get? (.draft j) = files.get? (.draft j)) ∧
      ∀ shasum file, files.get? (.kept shasum) = some file → files'.get? (.kept shasum) = some file := by
  cases h with
  | skipped _ hsame => exact hsame ▸ ⟨fun _ _ => rfl, fun _ _ hf => hf⟩
  | kept _ hkeep =>
    refine hkeep ▸ ⟨fun j hj => ?_, fun shasum _ hf => Archive.get?_keep_of_kept _ _ _ _ hf⟩
    rw [Archive.get?_keep_draft, if_neg hj]

end

theorem inv_connectionLost {now : Stamp} (h : Inv c s) (ht : connectionLost c id now s = some t) : Inv c t := by
  obtain ⟨u, hu, hsessions, hrecorded, hsaved⟩ := connectionLost_spec h ht
  have hk := h.session id u hu
  have hclosed : (u.lost c now).closed ≠ none := Option.some_ne_none _
  refine h.of_change ⟨hsessions, fun j hj => ⟨hrecorded.frame.1 j hj, hsaved.frame.1 j hj⟩, hrecorded.frame.2,
    hsaved.frame.2, ?_⟩ ?_ ?_ ?_
  · intro u' close hu' hclose
    cases hu.symm.trans hu'
    refine ⟨?_, rfl, rfl⟩
    change some (u.closed.getD now) = some close
    rw [hclose]
    rfl
  · have hshut : (u.lost c now).ttylogOpen = false := by
      change (u.ttylogOpen && !c.ttylogEnabled) = false
      rw [hk.ttylogOpen]
      cases c.ttylogEnabled <;> simp
    constructor
    case ttylogOpen =>
      rw [hshut]
      exact (Bool.and_false _).symm
    case stdinlogOpen => exact (Bool.and_false _).symm
    case recording => exact fun hopen => absurd (hshut.symm.trans hopen) Bool.false_ne_true
    case recordingKept =>
      intro henabled _
      change (t.ttylogPath.get? (.kept (u.digest c))).isSome = true
      cases hrecorded with
      | skipped hopen hsame _ =>
        rw [hsame]
        refine hk.recordingKept henabled fun hnone => ?_
        rw [henabled, hk.ttylogOpen, henabled, hnone] at hopen
        cases hopen
      | kept file _ _ hkeep _ =>
        rw [hkeep, Archive.get?_keep_kept, if_pos rfl]
        rfl
    case stdin => exact fun hopen => absurd hopen Bool.false_ne_true
    case stdinKept =>
      intro hkind _ hne
      change (t.downloadPath.get? (.kept (c.sha256 u.inputs.flatten))).isSome = true
      cases hsaved with
      | skipped hopen hsame =>
        rw [hsame]
        refine hk.stdinKept hkind (fun hnone => hne (hopen ?_)) hne
        have hkind : u.kind ≠ .interactive := hkind
        rw [hk.stdinlogOpen, hnone]
        simpa using hkind
      | kept _ hkeep =>
        rw [hkeep, Archive.get?_keep_kept, if_pos rfl]
        rfl
    case received => exact hk.received
    case limit => exact hk.limit
  · intro shasum file hf
    cases hrecorded with
    | skipped _ hsame _ => exact .inl (hsame ▸ hf)
    | kept file' hopen hwritten hkeep _ =>
      rw [hkeep, Archive.get?_keep_kept] at hf
      split_ifs at hf with hshasum
      · cases hold : s.ttylogPath.get? (.kept (u.digest c)) with
        | some b =>
          rw [hold] at hf
          cases hf
          exact .inl (hshasum ▸ hold)
        | none =>
          rw [hold] at hf
          cases hf
          have hnone : u.closed = none := by
            have hflag := (Bool.and_eq_true_iff.mp (hk.ttylogOpen ▸ hopen)).2
            simpa using hflag
          refine .inr ⟨now, ?_, hshasum.symm, hwritten⟩
          change some (u.closed.getD now) = some now
          rw [hnone]
          rfl
      · exact .inl hf
  · intro shasum data hd
    cases hsaved with
    | skipped _ hsame => exact .inl (hsame ▸ hd)
    | kept _ hkeep =>
      rw [hkeep, Archive.get?_keep_kept] at hd
      split_ifs at hd with hshasum
      · cases hold : s.downloadPath.get? (.kept (c.sha256 u.inputs.flatten)) with
        | some b =>
          rw [hold] at hd
          cases hd
          exact .inl (hshasum ▸ hold)
        | none =>
          rw [hold] at hd
          cases hd
          exact .inr hshasum.symm
      · exact .inl hd

theorem inv_step (h : Inv c s) (ht : step c s e = some t) : Inv c t := by
  cases e with
  | connectionMade id kind startTime now => exact inv_connectionMade h ht
  | write id now data => exact inv_write h ht
  | dataReceived id now data => exact inv_dataReceived h ht
  | connectionLost id now => exact inv_connectionLost h ht

theorem inv_start (c : Settings) : Inv c {} where
  session _ _ hu := by cases hu
  fresh _ _ := ⟨rfl, rfl⟩
  recordings _ _ hf := by cases hf
  stdins _ _ hd := by cases hd

/-! ## Runs -/

/-- **Recordings**: that of a session which goes on is complete. When the connection is lost, the recording of a session
with the same digest is kept, this one's or that of one which ended before. -/
theorem recordings_kept {es : List Event} (hrun : run (step c) {} es = some s) (hu : s.sessions.get? id = some u)
    (henabled : c.ttylogEnabled = true) :
    (u.closed = none → ∃ file, s.ttylogPath.get? (.draft id) = some file ∧ records file = some u.opening) ∧
      (u.closed ≠ none → ∃ file id' u' close, s.ttylogPath.get? (.kept (u.digest c)) = some file ∧
        s.sessions.get? id' = some u' ∧ u'.closed = some close ∧ u'.digest c = u.digest c ∧
        records file = some (sessionRecords u'.startTime u'.recorded close)) := by
  have h : Inv c s := run_inv' (fun s e t => inv_step) (inv_start c) hrun
  have hk := h.session id u hu
  constructor
  · intro hopen
    obtain ⟨file, hfile, hwritten⟩ := hk.recording (by rw [hk.ttylogOpen, henabled, hopen]; rfl)
    exact ⟨file, hfile, hwritten.records⟩
  · intro hclosed
    obtain ⟨file, hfile⟩ := Option.isSome_iff_exists.mp (hk.recordingKept henabled hclosed)
    obtain ⟨id', u', close, hu', hclose, hdigest, hwritten⟩ := h.recordings _ file hfile
    exact ⟨file, id', u', close, hfile, hu', hclose, hdigest, hwritten.records⟩

theorem sampleExec_recorded :
    (sampleExec.closed = none →
      ∃ file, sampleServer.ttylogPath.get? (.draft 0) = some file ∧ records file = some sampleExec.opening) ∧
    (sampleExec.closed ≠ none → ∃ file id' u' close,
      sampleServer.ttylogPath.get? (.kept (sampleExec.digest sampleSettings)) = some file ∧
      sampleServer.sessions.get? id' = some u' ∧ u'.closed = some close ∧
      u'.digest sampleSettings = sampleExec.digest sampleSettings ∧
      records file = some (sessionRecords u'.startTime u'.recorded close)) :=
  recordings_kept run_sampleEvents get?_sampleServer rfl

/-- **The input of commands**: the file of a session which goes on has all of it, within the limit. When the connection
is lost, a file of the same digest is kept. -/
theorem stdin_kept {es : List Event} (hrun : run (step c) {} es = some s) (hu : s.sessions.get? id = some u)
    {cmd : Bytes} (hkind : u.kind = .exec cmd) :
    (u.closed = none → s.downloadPath.get? (.draft id) = if u.inputs = [] then none else some u.inputs.flatten) ∧
      (u.closed ≠ none → u.inputs ≠ [] → ∃ data, s.downloadPath.get? (.kept (c.sha256 u.inputs.flatten)) = some data ∧
        c.sha256 data = c.sha256 u.inputs.flatten) ∧
      (c.bytesReceivedLimit ≠ 0 → u.inputs ≠ [] → (u.inputs.flatten.length : Int) ≤ c.bytesReceivedLimit) := by
  have h : Inv c s := run_inv' (fun s e t => inv_step) (inv_start c) hrun
  have hk := h.session id u hu
  have hexec : u.kind ≠ .interactive := by simp [hkind]
  refine ⟨fun hopen => hk.stdin ?_, fun hclosed hinputs => ?_, hk.limit⟩
  · rw [hk.stdinlogOpen, hopen]
    simpa using hexec
  · obtain ⟨data, hdata⟩ := Option.isSome_iff_exists.mp (hk.stdinKept hexec hclosed hinputs)
    exact ⟨data, hdata, h.stdins _ data hdata⟩

theorem sampleExec_stdin :
    (sampleExec.closed = none → sampleServer.downloadPath.get? (.draft 0) =
      if sampleExec.inputs = [] then none else some sampleExec.inputs.flatten) ∧
    (sampleExec.closed ≠ none → sampleExec.inputs ≠ [] → ∃ data,
      sampleServer.downloadPath.get? (.kept (sampleSettings.sha256 sampleExec.inputs.flatten)) = some data ∧
      sampleSettings.sha256 data = sampleSettings.sha256 sampleExec.inputs.flatten) ∧
    (sampleSettings.bytesReceivedLimit ≠ 0 → sampleExec.inputs ≠ [] →
      (sampleExec.inputs.flatten.length : Int) ≤ sampleSettings.bytesReceivedLimit) :=
  stdin_kept run_sampleEvents get?_sampleServer (show sampleExec.kind = .exec (encode "cat") from rfl)

/-- What is kept stays. -/
def Stays (files files' : Archive Nat String Bytes) : Prop :=
  ∀ shasum file, files.get? (.kept shasum) = some file → files'.get? (.kept shasum) = some file

theorem stays_set_draft (files : Archive Nat String Bytes) (id : Nat) (file : Bytes) :
    Stays files (files.set (.draft id) file) :=
  fun shasum _ hf => (get?_set_draft_kept files file shasum).trans hf

theorem stays_writeTtylog {w : Write} {files files' : Archive Nat String Bytes}
    (h : writeTtylog c id u w files = some files') : Stays files files' :=
  fun _ _ hf => (writeTtylog_frame h (by simp)).trans hf

theorem stays_step (h : Inv c s) (ht : step c s e = some t) :
    Stays s.ttylogPath t.ttylogPath ∧ Stays s.downloadPath t.downloadPath := by
  have hsame : ∀ files : Archive Nat String Bytes, Stays files files := fun _ _ _ hf => hf
  cases e with
  | connectionMade id kind startTime now =>
    simp only [step, connectionMade] at ht
    split_ifs at ht with hnew
    obtain ⟨files, hfiles, rfl⟩ := Option.map_eq_some_iff.mp ht
    rcases openTtylog_spec (h.fresh id hnew).1 hfiles with ⟨-, rfl⟩ | ⟨file, -, rfl, -⟩
    · exact ⟨hsame _, hsame _⟩
    · exact ⟨stays_set_draft _ id file, hsame _⟩
  | write id now data =>
    obtain ⟨u, -, ht⟩ := Option.bind_eq_some_iff.mp ht
    obtain ⟨files, hfiles, ht⟩ := Option.bind_eq_some_iff.mp ht
    cases ht
    exact ⟨stays_writeTtylog hfiles, hsame _⟩
  | dataReceived id now data =>
    obtain ⟨u, -, ht⟩ := Option.bind_eq_some_iff.mp ht
    simp only at ht
    split_ifs at ht
    · cases ht
      exact ⟨hsame _, hsame _⟩
    · cases ht
      exact ⟨hsame _, stays_set_draft _ id _⟩
    · obtain ⟨files, hfiles, ht⟩ := Option.bind_eq_some_iff.mp ht
      cases ht
      exact ⟨stays_writeTtylog hfiles, hsame _⟩
  | connectionLost id now =>
    obtain ⟨u, -, -, hrecorded, hsaved⟩ := connectionLost_spec h ht
    exact ⟨hrecorded.frame.2, hsaved.frame.2⟩

/-- **What is kept never changes.** -/
theorem kept_stay {as bs : List Event} (hs : run (step c) {} as = some s) (ht : run (step c) s bs = some t) :
    Stays s.ttylogPath t.ttylogPath ∧ Stays s.downloadPath t.downloadPath := by
  have h : Inv c s := run_inv' (fun s e t => inv_step) (inv_start c) hs
  induction bs generalizing s as with
  | nil =>
    cases ht
    exact ⟨fun _ _ hf => hf, fun _ _ hf => hf⟩
  | cons e bs ih =>
    obtain ⟨v, hv, hrest⟩ := run_cons.mp ht
    obtain ⟨htty, hdownload⟩ := stays_step h hv
    have hvs : run (step c) {} (as ++ [e]) = some v := run_append.mpr ⟨s, hs, run_cons.mpr ⟨v, hv, rfl⟩⟩
    obtain ⟨htty', hdownload'⟩ := ih hvs hrest (inv_step h hv)
    exact ⟨fun _ _ hf => htty' _ _ (htty _ _ hf), fun _ _ hf => hdownload' _ _ (hdownload _ _ hf)⟩

theorem sampleServer_stays :
    Stays ((run (step sampleSettings) {} sampleBegin).getD {}).ttylogPath sampleServer.ttylogPath ∧
      Stays ((run (step sampleSettings) {} sampleBegin).getD {}).downloadPath sampleServer.downloadPath :=
  kept_stay
    (show run (step sampleSettings) {} sampleBegin = some ((run (step sampleSettings) {} sampleBegin).getD {}) from rfl)
    (show run (step sampleSettings) _ sampleEnd = some sampleServer from rfl)

end

end Cowrie.Insults
