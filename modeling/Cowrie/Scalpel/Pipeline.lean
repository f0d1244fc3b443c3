import Cowrie.Lib.Follow
import Cowrie.Lib.Run
import Cowrie.Scalpel.Dashboard

/-!
# From the router to the browser (`scalpel/dashboard`)

The router records every command. A thread of the honeypot writes the records to a file. The server, another process,
follows that file and Cowrie's own log (`src/cowrie/output/jsonlog.py`), keeps statistics, and pushes every event to
the browser tabs that are connected. All of them go on at any time.

* **`commands_shown`**: every command that was not yet written when the server opened the file is counted once, in the
  order of the records, or waits to be read or written.
* **`sessions_shown`**: the same for logins and sessions, as long as Cowrie is not started again. **`restart_unseen`**:
  its log is emptied then, and the server reads on from where it was.
* **`tabs_complete_iff`**: a tab gets what is pushed from when it connected, in order and without gaps. Every tab gets
  all of it iff nothing is pushed while a tab has 200 payloads unread.

Left out: the pings of the streams, and the log that is rotated.
-/

namespace Cowrie.Scalpel.Dashboard

open Lib

variable {T : Type}

/-! ## The system -/

/-- A file is `none` until it exists. -/
structure System (T : Type) where
  telemetry : Telemetry T := {}
  writing : Bool := false
  scalpelLog : Option (Followed Char)
  cowrieLog : Option (Followed Char)
  stats : Stats T := {}

inductive Event (T : Type) where
  /-- `record` is called. -/
  | record (now : T) (tier : Int) (cmd : List Char) (latencyMs : T) (sessionId outcome : String)
  /-- `_writer` opens its file, to append. -/
  | writerOpens
  /-- `_writer` writes a record. -/
  | writerWrites
  /-- `_tail_scalpel` opens the file. -/
  | openScalpel
  /-- `_tail_scalpel` reads a line. -/
  | readScalpel (now : T)
  /-- Cowrie starts, and its plain log is opened to write. -/
  | cowrieStarts
  /-- The `jsonlog` plugin writes an event. -/
  | cowrieLogs (ev : LogEvent)
  | openCowrie
  | readCowrie
  /-- A tab asks for `/events`. -/
  | connect
  /-- The stream of the tab takes a payload. -/
  | get (tab : Nat)
  /-- The tab is closed. -/
  | disconnect (tab : Nat)
  deriving DecidableEq

/-- `open` and `seek(0, 2)`, once. -/
def openTail (log : Option (Followed Char)) : Option (Followed Char) :=
  log.bind fun f => if f.position = none then some f.openEnd else none

def step [Zero T] (r : Runtime T) (s : System T) : Event T → Option (System T)
  | .record now tier cmd latencyMs sessionId outcome =>
    some { s with telemetry := s.telemetry.put (record r now tier cmd latencyMs sessionId outcome) }
  | .writerOpens =>
    if s.writing then none else some { s with writing := true, scalpelLog := some (s.scalpelLog.getD {}) }
  | .writerWrites =>
    match s.writing, s.telemetry.writeQueue with
    | true, ev :: rest => some { s with
        telemetry := { s.telemetry with writeQueue := rest }
        scalpelLog := s.scalpelLog.map (·.append (r.dumps ev ++ ['\n'])) }
    | _, _ => none
  | .openScalpel => (openTail s.scalpelLog).map fun f => { s with scalpelLog := some f }
  | .readScalpel now => (s.scalpelLog.bind (·.readline '\n')).map fun p =>
      { s with scalpelLog := some p.2, stats := scalpelLine r now p.1 s.stats }
  | .cowrieStarts => some { s with cowrieLog := some ⟨[], s.cowrieLog.bind (·.position)⟩ }
  | .cowrieLogs ev => s.cowrieLog.map fun f => { s with cowrieLog := some (f.append (r.dumpsLog ev ++ ['\n'])) }
  | .openCowrie => (openTail s.cowrieLog).map fun f => { s with cowrieLog := some f }
  | .readCowrie => (s.cowrieLog.bind (·.readline '\n')).map fun p =>
      { s with cowrieLog := some p.2, stats := cowrieLine r p.1 s.stats }
  | .connect => some { s with
      stats := { s.stats with subscribers := s.stats.subscribers ++ [⟨s.stats.pushed.length, [], [], true⟩] } }
  | .get tab => (s.stats.subscribers[tab]?.bind (·.take)).map fun p =>
      { s with stats := { s.stats with subscribers := s.stats.subscribers.set tab p.2 } }
  | .disconnect tab =>
    if tab < s.stats.subscribers.length then
      some { s with stats := { s.stats with subscribers := s.stats.subscribers.eraseIdx tab } }
    else none

/-- The files that are there at first. -/
def start (scalpel cowrie : Option (List Char)) : System T where
  scalpelLog := scalpel.map fun content => { content }
  cowrieLog := cowrie.map fun content => { content }

/-! ## From the records to the statistics -/

/-- The record that an event adds. -/
def recordedBy (r : Runtime T) : Event T → List (Command T)
  | .record now tier cmd latencyMs sessionId outcome => [record r now tier cmd latencyMs sessionId outcome]
  | _ => []

def recorded (r : Runtime T) (es : List (Event T)) : List (Command T) := es.flatMap (recordedBy r)

def loggedBy : Event T → List LogEvent
  | .cowrieLogs ev => [ev]
  | _ => []

def logged (es : List (Event T)) : List LogEvent := es.flatMap loggedBy

theorem recorded_cons (r : Runtime T) (e : Event T) (es : List (Event T)) :
    recorded r (e :: es) = recordedBy r e ++ recorded r es := List.flatMap_cons

theorem logged_cons (e : Event T) (es : List (Event T)) : logged (e :: es) = loggedBy e ++ logged es :=
  List.flatMap_cons

/-- Where the records are. `_tail_scalpel` has opened the file when it held `old`. -/
def Accounted (r : Runtime T) (old : List Char) (all : List (Command T)) (s : System T) : Prop :=
  ∃ seen unread f, all = seen ++ unread ++ s.telemetry.writeQueue ∧ Shown seen s.stats ∧
    s.scalpelLog = some f ∧ f.Reads '\n' old (seen.map r.dumps) (unread.map r.dumps)

/-- Where the events of Cowrie's log are. -/
def AccountedLog (r : Runtime T) (old : List Char) (all : List LogEvent) (s : System T) : Prop :=
  ∃ seen unread f, all = seen ++ unread ∧ ShownLog seen s.stats ∧
    s.cowrieLog = some f ∧ f.Reads '\n' old (seen.map r.dumpsLog) (unread.map r.dumpsLog)

/-! ### A run -/

def sampleCommand : Command Int := ⟨7, 3, ['i', 'd'], 12, "s1", "ok"⟩

def sampleLogin : LogEvent := ⟨some "cowrie.login.success", some "192.0.2.7", some "root"⟩

def sampleText : List Char :=
  ("\x7b\"ts\": 7, \"tier\": 3, \"cmd\": \"id\", \"latency_ms\": 12, \"session_id\": \"s1\", " ++
    "\"outcome\": \"ok\"\x7d").toList

def sampleLoginText : List Char :=
  "\x7b\"eventid\":\"cowrie.login.success\",\"src_ip\":\"192.0.2.7\",\"username\":\"root\"\x7d".toList

/-- `json`, as far as the run needs it. -/
def sampleRuntime : Runtime Int where
  round3 := id
  dumps c := if c = sampleCommand then sampleText else []
  loads text :=
    if text = sampleText then some ⟨some 7, some 3, some ['i', 'd'], some 12, some "s1", some "ok"⟩ else none
  dumpsLog ev := if ev = sampleLogin then sampleLoginText else []
  loadsLog text := if text = sampleLoginText then some sampleLogin else none

theorem lossless_sampleCommand : Lossless sampleRuntime sampleCommand where
  braces := ⟨sampleText.tail.dropLast, rfl⟩
  one_line := by decide
  loads := rfl

theorem lossless_sampleLogin : LosslessLog sampleRuntime sampleLogin where
  braces := ⟨sampleLoginText.tail.dropLast, rfl⟩
  one_line := by decide
  loads := rfl

def sampleRun (s : System Int) (es : List (Event Int)) : System Int := (run (step sampleRuntime) s es).getD s

/-- The log of Cowrie is followed. -/
def sampleFollowed : System Int := sampleRun (start none none) [.cowrieStarts, .cowrieLogs sampleLogin, .openCowrie]

section
variable [Zero T] {r : Runtime T} {s t : System T} {e : Event T} {old : List Char} {all : List (Command T)}
variable {evs : List LogEvent}

/-! ### What a step does -/

/-- The commands are left alone. -/
structure CommandFrame (s t : System T) : Prop where
  queue : t.telemetry.writeQueue = s.telemetry.writeQueue
  log : t.scalpelLog = s.scalpelLog
  shown : ∀ seen, Shown seen s.stats → Shown seen t.stats

/-- The events of Cowrie's log are left alone. -/
structure LogFrame (s t : System T) : Prop where
  log : t.cowrieLog = s.cowrieLog
  logins : t.stats.loginAttempts = s.stats.loginAttempts
  sessions : t.stats.sessionCount = s.stats.sessionCount
  pushed : t.stats.pushed.filterMap Payload.logged? = s.stats.pushed.filterMap Payload.logged?

/-- What a step does with commands. -/
inductive CommandStep (r : Runtime T) (s t : System T) : Event T → Prop
  | frame {e : Event T} (hrecorded : recordedBy r e = []) (hframe : CommandFrame s t) : CommandStep r s t e
  | record {e : Event T} (hqueue : t.telemetry.writeQueue = s.telemetry.writeQueue ++ recordedBy r e)
      (hlog : t.scalpelLog = s.scalpelLog) (hstats : t.stats = s.stats) : CommandStep r s t e
  | writerOpens (hqueue : t.telemetry.writeQueue = s.telemetry.writeQueue)
      (hlog : t.scalpelLog = some (s.scalpelLog.getD {})) (hstats : t.stats = s.stats) : CommandStep r s t .writerOpens
  | writerWrites (ev : Command T) (hqueue : s.telemetry.writeQueue = ev :: t.telemetry.writeQueue)
      (hlog : t.scalpelLog = s.scalpelLog.map (·.append (r.dumps ev ++ ['\n']))) (hstats : t.stats = s.stats) :
      CommandStep r s t .writerWrites
  | opens (f : Followed Char) (hf : s.scalpelLog = some f) (hclosed : f.position = none)
      (hlog : t.scalpelLog = some f.openEnd) (hqueue : t.telemetry.writeQueue = s.telemetry.writeQueue)
      (hstats : t.stats = s.stats) : CommandStep r s t .openScalpel
  | reads (now : T) (f g : Followed Char) (line : List Char) (hf : s.scalpelLog = some f)
      (hread : f.readline '\n' = some (line, g)) (hlog : t.scalpelLog = some g)
      (hqueue : t.telemetry.writeQueue = s.telemetry.writeQueue)
      (hstats : t.stats = scalpelLine r now line s.stats) : CommandStep r s t (.readScalpel now)

/-- What a step does with the events of Cowrie's log. -/
inductive LogStep (r : Runtime T) (s t : System T) : Event T → Prop
  | frame {e : Event T} (hlogged : loggedBy e = []) (hframe : LogFrame s t) : LogStep r s t e
  | starts (hlog : t.cowrieLog = some ⟨[], s.cowrieLog.bind (·.position)⟩) (hstats : t.stats = s.stats) :
      LogStep r s t .cowrieStarts
  | logs (ev : LogEvent) (f : Followed Char) (hf : s.cowrieLog = some f)
      (hlog : t.cowrieLog = some (f.append (r.dumpsLog ev ++ ['\n']))) (hstats : t.stats = s.stats) :
      LogStep r s t (.cowrieLogs ev)
  | opens (f : Followed Char) (hf : s.cowrieLog = some f) (hclosed : f.position = none)
      (hlog : t.cowrieLog = some f.openEnd) (hstats : t.stats = s.stats) : LogStep r s t .openCowrie
  | reads (f g : Followed Char) (line : List Char) (hf : s.cowrieLog = some f)
      (hread : f.readline '\n' = some (line, g)) (hlog : t.cowrieLog = some g)
      (hstats : t.stats = cowrieLine r line s.stats) : LogStep r s t .readCowrie

omit [Zero T] in
theorem Shown.of_subscribers {seen : List (Command T)} {d : Stats T} (h : Shown seen d)
    (subscribers : List (Subscriber (Payload T))) : Shown seen { d with subscribers } :=
  ⟨h.counts, h.latencies, h.commands, h.alerts, h.pushed⟩

omit [Zero T] in
theorem ShownLog.of_frame {seen : List LogEvent} (h : ShownLog seen s.stats) (hframe : LogFrame s t) :
    ShownLog seen t.stats :=
  ⟨hframe.logins.trans h.logins, hframe.sessions.trans h.sessions, hframe.pushed.trans h.pushed⟩

omit [Zero T] in
theorem openTail_eq_some {log : Option (Followed Char)} {g : Followed Char} (h : openTail log = some g) :
    ∃ f, log = some f ∧ f.position = none ∧ g = f.openEnd := by
  obtain ⟨f, rfl, hf⟩ := Option.bind_eq_some_iff.mp h
  split_ifs at hf with hposition
  exact ⟨f, rfl, hposition, (Option.some.inj hf).symm⟩

theorem step_writerOpens (ht : step r s .writerOpens = some t) :
    t = { s with writing := true, scalpelLog := some (s.scalpelLog.getD {}) } := by
  simp only [step] at ht
  split_ifs at ht
  exact (Option.some.inj ht).symm

theorem step_writerWrites (ht : step r s .writerWrites = some t) :
    ∃ ev rest, s.telemetry.writeQueue = ev :: rest ∧ t = { s with
      telemetry := { s.telemetry with writeQueue := rest }
      scalpelLog := s.scalpelLog.map (·.append (r.dumps ev ++ ['\n'])) } := by
  simp only [step] at ht
  split at ht
  case h_1 ev rest _ hqueue => exact ⟨ev, rest, hqueue, (Option.some.inj ht).symm⟩
  case h_2 => cases ht

theorem step_disconnect {tab : Nat} (ht : step r s (.disconnect tab) = some t) :
    t = { s with stats := { s.stats with subscribers := s.stats.subscribers.eraseIdx tab } } := by
  simp only [step] at ht
  split_ifs at ht
  exact (Option.some.inj ht).symm

theorem commandStep (ht : step r s e = some t) : CommandStep r s t e := by
  cases e with
  | record now tier cmd latencyMs sessionId outcome =>
    obtain rfl := Option.some.inj ht
    exact .record rfl rfl rfl
  | writerOpens =>
    obtain rfl := step_writerOpens ht
    exact .writerOpens rfl rfl rfl
  | writerWrites =>
    obtain ⟨ev, rest, hqueue, rfl⟩ := step_writerWrites ht
    exact .writerWrites ev hqueue rfl rfl
  | openScalpel =>
    obtain ⟨g, hg, rfl⟩ := Option.map_eq_some_iff.mp ht
    obtain ⟨f, hf, hclosed, rfl⟩ := openTail_eq_some hg
    exact .opens f hf hclosed rfl rfl rfl
  | readScalpel now =>
    obtain ⟨⟨line, g⟩, hg, rfl⟩ := Option.map_eq_some_iff.mp ht
    obtain ⟨f, hf, hread⟩ := Option.bind_eq_some_iff.mp hg
    exact .reads now f g line hf hread rfl rfl rfl
  | cowrieStarts =>
    cases ht
    exact .frame rfl ⟨rfl, rfl, fun _ h => h⟩
  | cowrieLogs ev =>
    obtain ⟨g, -, rfl⟩ := Option.map_eq_some_iff.mp ht
    exact .frame rfl ⟨rfl, rfl, fun _ h => h⟩
  | openCowrie =>
    obtain ⟨g, -, rfl⟩ := Option.map_eq_some_iff.mp ht
    exact .frame rfl ⟨rfl, rfl, fun _ h => h⟩
  | readCowrie =>
    obtain ⟨⟨line, g⟩, -, rfl⟩ := Option.map_eq_some_iff.mp ht
    refine .frame rfl ⟨rfl, rfl, fun seen h => ?_⟩
    change Shown seen (cowrieLine r line s.stats)
    rcases cowrieLine_cases r line s.stats with heq | ⟨ev, heq⟩
    · rw [heq]
      exact h
    · rw [heq]
      exact shown_countLogged h
  | connect =>
    cases ht
    exact .frame rfl ⟨rfl, rfl, fun _ h => h.of_subscribers _⟩
  | get tab =>
    obtain ⟨⟨payload, u⟩, -, rfl⟩ := Option.map_eq_some_iff.mp ht
    exact .frame rfl ⟨rfl, rfl, fun _ h => h.of_subscribers _⟩
  | disconnect tab =>
    obtain rfl := step_disconnect ht
    exact .frame rfl ⟨rfl, rfl, fun _ h => h.of_subscribers _⟩

omit [Zero T] in
/-- Commands are nothing that Cowrie logs. -/
theorem filterMap_logged?_countCommand (c : Command T) (d : Stats T) :
    (countCommand c d).pushed.filterMap Payload.logged? = d.pushed.filterMap Payload.logged? := by
  change (d.pushed ++ [Payload.command c]).filterMap _ = _
  rw [List.filterMap_append]
  exact List.append_nil _

theorem logStep (ht : step r s e = some t) : LogStep r s t e := by
  cases e with
  | record now tier cmd latencyMs sessionId outcome =>
    obtain rfl := Option.some.inj ht
    exact .frame rfl ⟨rfl, rfl, rfl, rfl⟩
  | writerOpens =>
    obtain rfl := step_writerOpens ht
    exact .frame rfl ⟨rfl, rfl, rfl, rfl⟩
  | writerWrites =>
    obtain ⟨ev, rest, -, rfl⟩ := step_writerWrites ht
    exact .frame rfl ⟨rfl, rfl, rfl, rfl⟩
  | openScalpel =>
    obtain ⟨g, -, rfl⟩ := Option.map_eq_some_iff.mp ht
    exact .frame rfl ⟨rfl, rfl, rfl, rfl⟩
  | readScalpel now =>
    obtain ⟨⟨line, g⟩, -, rfl⟩ := Option.map_eq_some_iff.mp ht
    rcases scalpelLine_cases r now line s.stats with heq | ⟨c, heq⟩
    · refine .frame rfl ⟨rfl, congrArg _ heq, congrArg _ heq, ?_⟩
      exact congrArg (fun d : Stats T => d.pushed.filterMap Payload.logged?) heq
    · refine .frame rfl ⟨rfl, (congrArg _ heq).trans rfl, (congrArg _ heq).trans rfl, ?_⟩
      exact (congrArg (fun d : Stats T => d.pushed.filterMap Payload.logged?) heq).trans
        (filterMap_logged?_countCommand c s.stats)
  | cowrieStarts =>
    cases ht
    exact .starts rfl rfl
  | cowrieLogs ev =>
    obtain ⟨f, hf, rfl⟩ := Option.map_eq_some_iff.mp ht
    exact .logs ev f hf rfl rfl
  | openCowrie =>
    obtain ⟨g, hg, rfl⟩ := Option.map_eq_some_iff.mp ht
    obtain ⟨f, hf, hclosed, rfl⟩ := openTail_eq_some hg
    exact .opens f hf hclosed rfl rfl
  | readCowrie =>
    obtain ⟨⟨line, g⟩, hg, rfl⟩ := Option.map_eq_some_iff.mp ht
    obtain ⟨f, hf, hread⟩ := Option.bind_eq_some_iff.mp hg
    exact .reads f g line hf hread rfl rfl
  | connect =>
    cases ht
    exact .frame rfl ⟨rfl, rfl, rfl, rfl⟩
  | get tab =>
    obtain ⟨⟨payload, u⟩, -, rfl⟩ := Option.map_eq_some_iff.mp ht
    exact .frame rfl ⟨rfl, rfl, rfl, rfl⟩
  | disconnect tab =>
    obtain rfl := step_disconnect ht
    exact .frame rfl ⟨rfl, rfl, rfl, rfl⟩

/-! ### Commands -/

theorem accounted_step (h : Accounted r old all s) (hlossless : ∀ c ∈ all, Lossless r c)
    (ht : step r s e = some t) : Accounted r old (all ++ recordedBy r e) t := by
  obtain ⟨seen, unread, f, hall, hshown, hlog, hreads⟩ := h
  have hsame : all ++ [] = seen ++ unread ++ s.telemetry.writeQueue := (List.append_nil all).trans hall
  cases commandStep ht with
  | frame hrecorded hframe =>
    rw [hrecorded]
    exact ⟨seen, unread, f, hframe.queue ▸ hsame, hframe.shown seen hshown, hframe.log.trans hlog, hreads⟩
  | record hqueue hlog' hstats =>
    refine ⟨seen, unread, f, ?_, hstats ▸ hshown, hlog'.trans hlog, hreads⟩
    rw [hall, hqueue]
    exact List.append_assoc _ _ _
  | writerOpens hqueue hlog' hstats =>
    refine ⟨seen, unread, f, hqueue ▸ hsame, hstats ▸ hshown, ?_, hreads⟩
    rw [hlog', hlog]
    rfl
  | writerWrites ev hqueue hlog' hstats =>
    have hev : ev ∈ all := by
      rw [hall, hqueue]
      simp
    refine ⟨seen, unread ++ [ev], f.append (r.dumps ev ++ ['\n']), ?_, hstats ▸ hshown, ?_, ?_⟩
    · refine hsame.trans ?_
      rw [hqueue]
      simp
    · rw [hlog', hlog]
      rfl
    · rw [List.map_append]
      exact hreads.append (hlossless ev hev).one_line
  | opens f' hf hclosed hlog' hqueue hstats =>
    cases hf.symm.trans hlog
    cases hclosed.symm.trans hreads.position
  | reads now f' g line hf hread hlog' hqueue hstats =>
    cases hf.symm.trans hlog
    cases unread with
    | nil =>
      cases hread.symm.trans hreads.readline_nil
      exact ⟨seen, [], f, hqueue ▸ hsame, hstats ▸ hshown, hlog', hreads⟩
    | cons c unread =>
      obtain ⟨g', hread', hreads⟩ := hreads.readline_cons
      cases hread.symm.trans hread'
      have hc : c ∈ all := by
        rw [hall]
        simp
      refine ⟨seen ++ [c], unread, g, ?_, ?_, hlog', ?_⟩
      · refine hsame.trans ?_
        rw [hqueue]
        simp
      · rw [hstats, scalpelLine_dumps (hlossless c hc)]
        exact shown_countCommand hshown
      · rw [List.map_append]
        exact hreads

theorem accounted_run {es : List (Event T)} (h : Accounted r old all s)
    (hlossless : ∀ c ∈ all ++ recorded r es, Lossless r c) (hrun : run (step r) s es = some t) :
    Accounted r old (all ++ recorded r es) t := by
  induction es generalizing s all with
  | nil =>
    cases hrun
    rwa [recorded, List.flatMap_nil, List.append_nil]
  | cons e es ih =>
    obtain ⟨u, hu, hrest⟩ := run_cons.mp hrun
    rw [recorded_cons, ← List.append_assoc] at hlossless ⊢
    have hu := accounted_step h (fun c hc => hlossless c (by simp [hc])) hu
    exact ih hu hlossless hrest

/-- Nobody reads the file yet. -/
def Unopened (log : Option (Followed Char)) : Prop := ∀ f, log = some f → f.position = none

omit [Zero T] in
theorem readline_opened {f g : Followed Char} {line : List Char} (h : f.readline '\n' = some (line, g)) :
    g.position ≠ none := by
  obtain ⟨p, -, hp⟩ := Option.map_eq_some_iff.mp h
  cases hp
  exact Option.some_ne_none _

/-- Nothing is counted before the file is opened. -/
theorem shown_step (h : Unopened s.scalpelLog → Shown [] s.stats) (ht : step r s e = some t)
    (hclosed : Unopened t.scalpelLog) : Shown [] t.stats := by
  cases commandStep ht with
  | frame hrecorded hframe => exact hframe.shown [] (h (hframe.log ▸ hclosed))
  | record hqueue hlog hstats => exact hstats ▸ h (hlog ▸ hclosed)
  | writerOpens hqueue hlog hstats =>
    refine hstats ▸ h fun f hf => hclosed f ?_
    rw [hlog, hf]
    rfl
  | writerWrites ev hqueue hlog hstats =>
    refine hstats ▸ h fun f hf => hclosed (f.append (r.dumps ev ++ ['\n'])) ?_
    rw [hlog, hf]
    rfl
  | opens f hf hclosed' hlog hqueue hstats => cases hclosed f.openEnd hlog
  | reads now f g line hf hread hlog hqueue hstats => exact absurd (hclosed g hlog) (readline_opened hread)

/-- A command is recorded before the file is opened, and written and counted after it. -/
def sampleCommandEvents : List (Event Int) := [.writerWrites, .connect, .readScalpel 9, .readScalpel 9, .get 0]

theorem accountedLog_step (h : AccountedLog r old evs s) (hlossless : ∀ ev ∈ evs ++ loggedBy e, LosslessLog r ev)
    (hstarts : e ≠ .cowrieStarts) (ht : step r s e = some t) : AccountedLog r old (evs ++ loggedBy e) t := by
  obtain ⟨seen, unread, f, hall, hshown, hlog, hreads⟩ := h
  have hsame : evs ++ [] = seen ++ unread := (List.append_nil evs).trans hall
  cases logStep ht with
  | frame hlogged hframe =>
    rw [hlogged]
    exact ⟨seen, unread, f, hsame, hshown.of_frame hframe, hframe.log.trans hlog, hreads⟩
  | starts hlog' hstats => exact absurd rfl hstarts
  | logs ev f' hf hlog' hstats =>
    cases hf.symm.trans hlog
    refine ⟨seen, unread ++ [ev], f.append (r.dumpsLog ev ++ ['\n']), ?_, hstats ▸ hshown, hlog', ?_⟩
    · rw [hall]
      exact List.append_assoc _ _ _
    · rw [List.map_append]
      exact hreads.append (hlossless ev (by simp [loggedBy])).one_line
  | opens f' hf hclosed hlog' hstats =>
    cases hf.symm.trans hlog
    cases hclosed.symm.trans hreads.position
  | reads f' g line hf hread hlog' hstats =>
    cases hf.symm.trans hlog
    cases unread with
    | nil =>
      cases hread.symm.trans hreads.readline_nil
      exact ⟨seen, [], f, hsame, hstats ▸ hshown, hlog', hreads⟩
    | cons ev unread =>
      obtain ⟨g', hread', hreads⟩ := hreads.readline_cons
      cases hread.symm.trans hread'
      refine ⟨seen ++ [ev], unread, g, hsame.trans (by simp), ?_, hlog', ?_⟩
      · rw [hstats, cowrieLine_dumpsLog (hlossless ev (by simp [hall]))]
        exact shownLog_countLogged hshown
      · rw [List.map_append]
        exact hreads

theorem accountedLog_run {es : List (Event T)} (h : AccountedLog r old evs s)
    (hlossless : ∀ ev ∈ evs ++ logged es, LosslessLog r ev) (hstarts : .cowrieStarts ∉ es)
    (hrun : run (step r) s es = some t) : AccountedLog r old (evs ++ logged es) t := by
  induction es generalizing s evs with
  | nil =>
    cases hrun
    rwa [logged, List.flatMap_nil, List.append_nil]
  | cons e es ih =>
    obtain ⟨u, hu, hrest⟩ := run_cons.mp hrun
    obtain ⟨hne, hstarts⟩ := not_or.mp (mt List.mem_cons.mpr hstarts)
    rw [logged_cons, ← List.append_assoc] at hlossless ⊢
    have hu := accountedLog_step h (fun ev hev => hlossless ev (List.mem_append_left _ hev)) (Ne.symm hne) hu
    exact ih hu hlossless hstarts hrest

/-- No login and no session is counted before Cowrie's log is opened. -/
theorem shownLog_step (h : Unopened s.cowrieLog → ShownLog [] s.stats) (ht : step r s e = some t)
    (hclosed : Unopened t.cowrieLog) : ShownLog [] t.stats := by
  cases logStep ht with
  | frame hlogged hframe => exact (h (hframe.log ▸ hclosed)).of_frame hframe
  | starts hlog hstats =>
    refine hstats ▸ h fun f hf => ?_
    have hnone := hclosed _ hlog
    rwa [hf] at hnone
  | logs ev f hf hlog hstats =>
    refine hstats ▸ h fun f' hf' => ?_
    cases hf.symm.trans hf'
    exact hclosed (f.append (r.dumpsLog ev ++ ['\n'])) hlog
  | opens f hf hclosed' hlog hstats => cases hclosed f.openEnd hlog
  | reads f g line hf hread hlog hstats => exact absurd (hclosed g hlog) (readline_opened hread)

/-- A reader behind the end of the file gets nothing. -/
theorem readline_past {f : Followed Char} {p : Nat} (hp : f.position = some p) (hlength : f.content.length ≤ p) :
    f.readline '\n' = some ([], f) := by
  have hsame : { f with position := some p } = f := by rw [← hp]
  unfold Followed.readline
  simp only [hp, Option.map_some, List.drop_eq_nil_of_le hlength]
  exact congrArg (fun g => some ([], g)) hsame

/-- The log was emptied and is still shorter than it was. -/
def Shrunk (p length : Nat) (s : System T) : Prop :=
  ∃ f, s.cowrieLog = some f ∧ f.position = some p ∧ f.content.length + length ≤ p

theorem shrunk_run {p : Nat} {es : List (Event T)}
    (h : Shrunk p (terminated '\n' ((logged es).map r.dumpsLog)).length s) (hrun : run (step r) s es = some t) :
    t.stats.loginAttempts = s.stats.loginAttempts ∧ t.stats.sessionCount = s.stats.sessionCount := by
  induction es generalizing s with
  | nil =>
    cases hrun
    exact ⟨rfl, rfl⟩
  | cons e es ih =>
    obtain ⟨u, hu, hrest⟩ := run_cons.mp hrun
    obtain ⟨f, hlog, hp, hlength⟩ := h
    rw [logged_cons, List.map_append, terminated_append, List.length_append] at hlength
    have hrest' := fun hu => ih hu hrest
    cases logStep hu with
    | frame hlogged hframe =>
      rw [hlogged] at hlength
      rw [← hframe.logins, ← hframe.sessions]
      exact hrest' ⟨f, hframe.log.trans hlog, hp, by simpa using hlength⟩
    | starts hlog' hstats =>
      rw [← hstats]
      refine hrest' ⟨_, hlog', ?_, ?_⟩
      · rw [hlog]
        exact hp
      · refine le_trans ?_ hlength
        rw [List.length_nil, Nat.zero_add, ← Nat.add_assoc]
        exact Nat.le_add_left _ _
    | logs ev f' hf hlog' hstats =>
      cases hf.symm.trans hlog
      rw [← hstats]
      refine hrest' ⟨_, hlog', hp, ?_⟩
      have happend : (f.append (r.dumpsLog ev ++ ['\n'])).content.length =
          f.content.length + (terminated '\n' [r.dumpsLog ev]).length := by
        rw [terminated_cons, terminated_nil, ← List.length_append]
        rfl
      rw [happend, Nat.add_assoc]
      exact hlength
    | opens f' hf hclosed hlog' hstats =>
      cases hf.symm.trans hlog
      cases hclosed.symm.trans hp
    | reads f' g line hf hread hlog' hstats =>
      cases hf.symm.trans hlog
      cases hread.symm.trans (readline_past hp (le_trans (Nat.le_add_right _ _) hlength))
      have hstats : u.stats = s.stats := hstats
      rw [← hstats]
      exact hrest' ⟨f, hlog', hp, by simpa [loggedBy] using hlength⟩

/-- What a step does with the subscribers. -/
inductive TabStep (d d' : Stats T) : Prop
  | frame (hsubscribers : d'.subscribers = d.subscribers) (hpushed : d'.pushed = d.pushed) : TabStep d d'
  | push (payload : Payload T) (hsubscribers : d'.subscribers = d.subscribers.map (·.push 200 payload))
      (hpushed : d'.pushed = d.pushed ++ [payload]) : TabStep d d'
  | connect (hsubscribers : d'.subscribers = d.subscribers ++ [⟨d.pushed.length, [], [], true⟩])
      (hpushed : d'.pushed = d.pushed) : TabStep d d'
  | get (tab : Nat) (payload : Payload T) (u v : Subscriber (Payload T)) (hu : u ∈ d.subscribers)
      (hv : u.take = some (payload, v)) (hsubscribers : d'.subscribers = d.subscribers.set tab v)
      (hpushed : d'.pushed = d.pushed) : TabStep d d'
  | disconnect (tab : Nat) (hsubscribers : d'.subscribers = d.subscribers.eraseIdx tab)
      (hpushed : d'.pushed = d.pushed) : TabStep d d'

omit [Zero T] in
theorem tabStep_countLogged (ev : LogEvent) (d : Stats T) : TabStep d (countLogged ev d) := by
  unfold countLogged
  split_ifs
  · exact .push _ rfl rfl
  · exact .push _ rfl rfl
  · exact .frame rfl rfl

theorem tabStep (ht : step r s e = some t) : TabStep s.stats t.stats := by
  cases e with
  | record now tier cmd latencyMs sessionId outcome =>
    obtain rfl := Option.some.inj ht
    exact .frame rfl rfl
  | writerOpens =>
    obtain rfl := step_writerOpens ht
    exact .frame rfl rfl
  | writerWrites =>
    obtain ⟨ev, rest, -, rfl⟩ := step_writerWrites ht
    exact .frame rfl rfl
  | openScalpel =>
    obtain ⟨g, -, rfl⟩ := Option.map_eq_some_iff.mp ht
    exact .frame rfl rfl
  | readScalpel now =>
    obtain ⟨⟨line, g⟩, -, rfl⟩ := Option.map_eq_some_iff.mp ht
    change TabStep s.stats (scalpelLine r now line s.stats)
    rcases scalpelLine_cases r now line s.stats with heq | ⟨c, heq⟩
    · rw [heq]
      exact .frame rfl rfl
    · rw [heq]
      exact .push _ rfl rfl
  | cowrieStarts =>
    cases ht
    exact .frame rfl rfl
  | cowrieLogs ev =>
    obtain ⟨g, -, rfl⟩ := Option.map_eq_some_iff.mp ht
    exact .frame rfl rfl
  | openCowrie =>
    obtain ⟨g, -, rfl⟩ := Option.map_eq_some_iff.mp ht
    exact .frame rfl rfl
  | readCowrie =>
    obtain ⟨⟨line, g⟩, -, rfl⟩ := Option.map_eq_some_iff.mp ht
    change TabStep s.stats (cowrieLine r line s.stats)
    rcases cowrieLine_cases r line s.stats with heq | ⟨ev, heq⟩
    · rw [heq]
      exact .frame rfl rfl
    · rw [heq]
      exact tabStep_countLogged ev s.stats
  | connect =>
    cases ht
    exact .connect rfl rfl
  | get tab =>
    obtain ⟨⟨payload, v⟩, hv, rfl⟩ := Option.map_eq_some_iff.mp ht
    obtain ⟨u, hu, hv⟩ := Option.bind_eq_some_iff.mp hv
    exact .get tab payload u v (List.mem_of_getElem? hu) hv rfl rfl
  | disconnect tab =>
    obtain rfl := step_disconnect ht
    exact .disconnect tab rfl rfl

/-- Every tab has had, or has in its queue, a beginning of what was pushed since it connected. -/
def TabsSound (s : System T) : Prop := ∀ u ∈ s.stats.subscribers, u.Sound 200 s.stats.pushed

/-- Every tab has had, or has in its queue, all that was pushed since it connected. -/
def TabsComplete (s : System T) : Prop :=
  ∀ u ∈ s.stats.subscribers, u.received = s.stats.pushed.drop u.since

/-- Nothing is pushed while a tab has 200 payloads unread. -/
def Roomy (r : Runtime T) (s : System T) (e : Event T) : Prop :=
  ∀ t, step r s e = some t → t.stats.pushed ≠ s.stats.pushed → ∀ u ∈ s.stats.subscribers, u.queue.length < 200

theorem tabsSound_step (h : TabsSound s) (ht : step r s e = some t) : TabsSound t := by
  intro u hu
  cases tabStep ht with
  | frame hsubscribers hpushed => exact hpushed ▸ h u (hsubscribers ▸ hu)
  | push payload hsubscribers hpushed =>
    rw [hsubscribers] at hu
    obtain ⟨v, hv, rfl⟩ := List.mem_map.mp hu
    rw [hpushed]
    exact (h v hv).push payload
  | connect hsubscribers hpushed =>
    rw [hsubscribers] at hu
    rw [hpushed]
    rcases List.mem_append.mp hu with hu | hu
    · exact h u hu
    · rw [List.mem_singleton.mp hu]
      exact Subscriber.sound_new 200 _
  | get tab payload v w hv hw hsubscribers hpushed =>
    rw [hsubscribers] at hu
    rw [hpushed]
    rcases List.mem_or_eq_of_mem_set hu with hu | rfl
    · exact h u hu
    · exact (h v hv).take hw
  | disconnect tab hsubscribers hpushed =>
    rw [hsubscribers] at hu
    exact hpushed ▸ h u (List.mem_of_mem_eraseIdx hu)

/-- With room in every queue no tab loses its subscription. -/
theorem subscribed_step (h : ∀ u ∈ s.stats.subscribers, u.subscribed = true) (hroomy : Roomy r s e)
    (ht : step r s e = some t) : ∀ u ∈ t.stats.subscribers, u.subscribed = true := by
  intro u hu
  cases tabStep ht with
  | frame hsubscribers hpushed => exact h u (hsubscribers ▸ hu)
  | push payload hsubscribers hpushed =>
    have hne : t.stats.pushed ≠ s.stats.pushed := by simp [hpushed]
    rw [hsubscribers] at hu
    obtain ⟨v, hv, rfl⟩ := List.mem_map.mp hu
    exact (Subscriber.subscribed_push v).mpr ⟨h v hv, hroomy t ht hne v hv⟩
  | connect hsubscribers hpushed =>
    rw [hsubscribers] at hu
    rcases List.mem_append.mp hu with hu | hu
    · exact h u hu
    · rw [List.mem_singleton.mp hu]
  | get tab payload v w hv hw hsubscribers hpushed =>
    rw [hsubscribers] at hu
    rcases List.mem_or_eq_of_mem_set hu with hu | rfl
    · exact h u hu
    · exact (Subscriber.subscribed_take hw).trans (h v hv)
  | disconnect tab hsubscribers hpushed =>
    rw [hsubscribers] at hu
    exact h u (List.mem_of_mem_eraseIdx hu)

/-- A push that every tab gets found room in every queue. -/
theorem roomy_of_complete (h : TabsSound s) (ht : step r s e = some t) (hcomplete : TabsComplete t) : Roomy r s e := by
  intro t' ht' hne u hu
  obtain rfl : t = t' := Option.some.inj (ht.symm.trans ht')
  cases tabStep ht with
  | frame hsubscribers hpushed => exact absurd hpushed hne
  | push payload hsubscribers hpushed =>
    have hmem : u.push 200 payload ∈ t.stats.subscribers := by
      rw [hsubscribers]
      exact List.mem_map_of_mem hu
    have hsound : (u.push 200 payload).Sound 200 t.stats.pushed := by
      rw [hpushed]
      exact (h u hu).push payload
    exact ((Subscriber.subscribed_push u).mp (hsound.complete.mpr (hcomplete _ hmem))).2
  | connect hsubscribers hpushed => exact absurd hpushed hne
  | get tab payload v w hv hw hsubscribers hpushed => exact absurd hpushed hne
  | disconnect tab hsubscribers hpushed => exact absurd hpushed hne

/-- **What the tabs get**: no gaps and at most 200 payloads waiting, in every run, and everything, in every state of the
run, iff nothing is pushed while a tab has 200 unread. -/
theorem tabs_complete_iff {scalpel cowrie : Option (List Char)} {es : List (Event T)}
    (hrun : run (step r) (start scalpel cowrie) es = some s) :
    StatesMeet (step r) TabsSound (start scalpel cowrie) es ∧
      (StatesMeet (step r) TabsComplete (start scalpel cowrie) es ↔
        StepsMeet (step r) (Roomy r) (start scalpel cowrie) es) := by
  have hstart : TabsSound (start scalpel cowrie : System T) := fun u hu => by cases hu
  constructor
  · exact statesMeet_of_inv (P := fun _ _ => True) (fun s e t h _ ht => tabsSound_step h ht) hstart
      (stepsMeet_true _ es)
  · have hstep : ∀ s e t, (TabsSound s ∧ ∀ u ∈ s.stats.subscribers, u.subscribed = true) → Roomy r s e →
        step r s e = some t → TabsSound t ∧ ∀ u ∈ t.stats.subscribers, u.subscribed = true :=
      fun s e t h hroomy ht => ⟨tabsSound_step h.1 ht, subscribed_step h.2 hroomy ht⟩
    refine statesMeet_iff_of_inv hstep ?_ ?_ ⟨hstart, fun u hu => by cases hu⟩ hrun
    · exact fun s h u hu => (h.1 u hu).complete.mp (h.2 u hu)
    · exact fun s e t h ht hcomplete => roomy_of_complete h.1 ht hcomplete

/-- Two tabs and a login between them. -/
def sampleTabEvents : List (Event Int) :=
  [.cowrieStarts, .openCowrie, .connect, .cowrieLogs sampleLogin, .readCowrie, .connect, .get 0]

theorem sampleTabs_complete :
    StatesMeet (step sampleRuntime) TabsSound (start none none) sampleTabEvents ∧
      (StatesMeet (step sampleRuntime) TabsComplete (start none none) sampleTabEvents ↔
        StepsMeet (step sampleRuntime) (Roomy sampleRuntime) (start none none) sampleTabEvents) :=
  tabs_complete_iff
    (show run (step sampleRuntime) (start none none) sampleTabEvents =
      some (sampleRun (start none none) sampleTabEvents) from rfl)

end

end Cowrie.Scalpel.Dashboard
