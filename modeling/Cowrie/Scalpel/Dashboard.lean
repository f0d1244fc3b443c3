import Cowrie.Lib.Broadcast
import Cowrie.Lib.OrderedDict
import Cowrie.Scalpel.Chain
import Mathlib.Data.List.Sort

/-!
# The dashboard (`scalpel/dashboard/telemetry.py`, `scalpel/dashboard/server.py`)

What `record` makes of a command, and what the server makes of a line of the two logs that it follows: counters,
`deque`s with a length, and a payload that is pushed to the subscribers.

* `Shown seen`, `ShownLog seen`: the statistics are those of the commands, or events, in `seen`.
* **`shown_countCommand`**, **`shownLog_countLogged`**: a command or an event more.
* **`Shown.snapshot`**: what `/api/snapshot` answers.
* **`countP_pct`**: its percentiles are percentiles.

`json.dumps` and `json.loads` are `Runtime` fields; `Lossless` is what is asked of them. Left out: the other keys of
Cowrie's events.
-/

namespace Cowrie.Scalpel.Dashboard

open Lib

/-- A record, which is also an entry of the statistics. -/
structure Command (T : Type) where
  ts : T
  tier : Int
  cmd : List Char
  latencyMs : T
  sessionId : String
  outcome : String
  deriving DecidableEq

/-- What `json.loads` gives, with the keys that are asked for. -/
structure Ev (T : Type) where
  ts : Option T := none
  tier : Option Int := none
  cmd : Option (List Char) := none
  latencyMs : Option T := none
  sessionId : Option String := none
  outcome : Option String := none
  deriving DecidableEq

/-- An event in Cowrie's log. -/
structure LogEvent where
  eventid : Option String := none
  srcIp : Option String := none
  username : Option String := none
  deriving DecidableEq

structure Runtime (T : Type) where
  /-- `round(x, 3)`. -/
  round3 : T → T
  dumps : Command T → List Char
  loads : List Char → Option (Ev T)
  dumpsLog : LogEvent → List Char
  loadsLog : List Char → Option LogEvent

variable {T : Type}

/-! ## `telemetry.py` -/

structure Telemetry (T : Type) where
  events : List (Command T) := []
  writeQueue : List (Command T) := []

/-- The dict that `record` makes. -/
def record (r : Runtime T) (now : T) (tier : Int) (cmd : List Char) (latencyMs : T) (sessionId outcome : String) :
    Command T :=
  ⟨now, tier, cmd.take 200, r.round3 latencyMs, sessionId, outcome⟩

/-- The end of `record`. -/
def Telemetry.put (t : Telemetry T) (ev : Command T) : Telemetry T :=
  ⟨(t.events ++ [ev]).rtake 1000, t.writeQueue ++ [ev]⟩

/-! ## `server.py` -/

/-- What is pushed to the browsers. -/
inductive Payload (T : Type) where
  | command (entry : Command T)
  | login (eventid srcIp username : String) (total : Nat)
  | session (srcIp : String) (total : Nat)
  deriving DecidableEq

/-- The module's variables. `pushed` is ghost state. -/
structure Stats (T : Type) where
  tierCounts : OrderedDict Int Nat := .ofPairs [(1, 0), (2, 0), (3, 0)]
  tierLatencies : OrderedDict Int (List T) := .ofPairs [(1, []), (2, []), (3, [])]
  recentCommands : List (Command T) := []
  recentAlerts : List (Command T) := []
  sessionCount : Nat := 0
  loginAttempts : Nat := 0
  subscribers : List (Subscriber (Payload T)) := []
  pushed : List (Payload T) := []

/-- `_push`. -/
def push (payload : Payload T) (d : Stats T) : Stats T :=
  { d with subscribers := d.subscribers.map (·.push 200 payload), pushed := d.pushed ++ [payload] }

/-- `_tier_latencies[tier].append(lat)`, if there is one. -/
def addLatency (entry : Command T) (latencies : OrderedDict Int (List T)) : OrderedDict Int (List T) :=
  match latencies.get? entry.tier with
  | none => latencies
  | some data => latencies.set entry.tier ((data ++ [entry.latencyMs]).rtake 500)

/-- What `_tail_scalpel` does with a command. -/
def countCommand (entry : Command T) (d : Stats T) : Stats T :=
  push (.command entry) { d with
    tierCounts := d.tierCounts.set entry.tier ((d.tierCounts.get? entry.tier).getD 0 + 1)
    tierLatencies := addLatency entry d.tierLatencies
    recentCommands := (entry :: d.recentCommands).take 100
    recentAlerts := if entry.tier = 3 then (entry :: d.recentAlerts).take 30 else d.recentAlerts }

/-- `entry`, where `now` is `time.time()`. -/
def entryOf [Zero T] (now : T) (ev : Ev T) : Command T :=
  ⟨ev.ts.getD now, ev.tier.getD 0, ev.cmd.getD [], ev.latencyMs.getD 0, ev.sessionId.getD "", ev.outcome.getD "ok"⟩

/-- What `_tail_scalpel` does with a line. -/
def scalpelLine [Zero T] (r : Runtime T) (now : T) (line : List Char) (d : Stats T) : Stats T :=
  if strip line = [] then d
  else
    match r.loads (strip line) with
    | none => d
    | some ev => countCommand (entryOf now ev) d

def LogEvent.isLogin (ev : LogEvent) : Bool :=
  ev.eventid.getD "" ∈ ["cowrie.login.success", "cowrie.login.failed"]

def LogEvent.isConnect (ev : LogEvent) : Bool := ev.eventid.getD "" = "cowrie.session.connect"

/-- What `_tail_cowrie` does with an event. -/
def countLogged (ev : LogEvent) (d : Stats T) : Stats T :=
  if ev.isLogin then
    push (.login (ev.eventid.getD "") (ev.srcIp.getD "") (ev.username.getD "") (d.loginAttempts + 1))
      { d with loginAttempts := d.loginAttempts + 1 }
  else if ev.isConnect then
    push (.session (ev.srcIp.getD "") (d.sessionCount + 1)) { d with sessionCount := d.sessionCount + 1 }
  else d

/-- What `_tail_cowrie` does with a line. -/
def cowrieLine (r : Runtime T) (line : List Char) (d : Stats T) : Stats T :=
  if strip line = [] then d
  else
    match r.loadsLog (strip line) with
    | none => d
    | some ev => countLogged ev d

/-- `_pct`, before it is rounded. -/
def pct [LinearOrder T] [Zero T] (data : List T) (p : Nat) : T :=
  (data.insertionSort (· ≤ ·)).getD (min (data.length * p / 100) (data.length - 1)) 0

structure Snapshot (T : Type) where
  tierCounts : OrderedDict Int Nat
  latency : List (Int × T × T)
  recentCommands : List (Command T)
  recentAlerts : List (Command T)
  sessionCount : Nat
  loginAttempts : Nat

/-- `snapshot`. -/
def snapshot [LinearOrder T] [Zero T] (r : Runtime T) (d : Stats T) : Snapshot T where
  tierCounts := d.tierCounts
  latency := [1, 2, 3].map fun t =>
    let data := (d.tierLatencies.get? t).getD []
    (t, r.round3 (pct data 50), r.round3 (pct data 95))
  recentCommands := d.recentCommands.take 50
  recentAlerts := d.recentAlerts.take 20
  sessionCount := d.sessionCount
  loginAttempts := d.loginAttempts

/-! ## Statistics -/

/-- The last of what is appended to a `deque` with a length. -/
theorem rtake_concat_rtake {α : Type} (n : Nat) (l : List α) (x : α) :
    ((l.rtake n) ++ [x]).rtake n = (l ++ [x]).rtake n := by
  simp only [List.rtake_eq_reverse_take_reverse, List.reverse_append, List.reverse_reverse, List.reverse_singleton,
    List.singleton_append]
  cases n with
  | zero => rfl
  | succ n => rw [List.take_succ_cons, List.take_succ_cons, List.take_take, Nat.min_eq_left (Nat.le_succ n)]

theorem take_cons_take {α : Type} (n : Nat) (l : List α) (x : α) : (x :: l.take n).take n = (x :: l).take n := by
  cases n with
  | zero => rfl
  | succ n => rw [List.take_succ_cons, List.take_succ_cons, List.take_take, Nat.min_eq_left (Nat.le_succ n)]

def Payload.command? : Payload T → Option (Command T)
  | .command entry => some entry
  | _ => none

def Payload.logged? : Payload T → Option (Payload T)
  | .command _ => none
  | payload => some payload

/-- The latencies that are kept for a tier. -/
def latest (seen : List (Command T)) (t : Int) : List T :=
  ((seen.filter fun c => c.tier = t).map (·.latencyMs)).rtake 500

/-- The statistics are those of the commands in `seen`. -/
structure Shown (seen : List (Command T)) (d : Stats T) : Prop where
  counts : ∀ t, (d.tierCounts.get? t).getD 0 = seen.countP fun c => c.tier = t
  latencies : ∀ t, d.tierLatencies.get? t = if t ∈ [1, 2, 3] then some (latest seen t) else none
  commands : d.recentCommands = seen.reverse.take 100
  alerts : d.recentAlerts = (seen.filter fun c => c.tier = 3).reverse.take 30
  pushed : d.pushed.filterMap Payload.command? = seen

/-- What is pushed for the events in Cowrie's log, after so many logins and sessions. -/
def announced : List LogEvent → Nat → Nat → List (Payload T)
  | [], _, _ => []
  | ev :: evs, logins, sessions =>
    if ev.isLogin then
      .login (ev.eventid.getD "") (ev.srcIp.getD "") (ev.username.getD "") (logins + 1) ::
        announced evs (logins + 1) sessions
    else if ev.isConnect then .session (ev.srcIp.getD "") (sessions + 1) :: announced evs logins (sessions + 1)
    else announced evs logins sessions

/-- The statistics are those of the events in `seen`. -/
structure ShownLog (seen : List LogEvent) (d : Stats T) : Prop where
  logins : d.loginAttempts = seen.countP LogEvent.isLogin
  sessions : d.sessionCount = seen.countP LogEvent.isConnect
  pushed : d.pushed.filterMap Payload.logged? = announced seen 0 0

section
variable {seen : List (Command T)} {logged : List LogEvent} {d d' : Stats T} {c : Command T} {ev : LogEvent}

theorem shown_new (subscribers : List (Subscriber (Payload T))) : Shown [] { subscribers : Stats T } where
  counts t := by
    rw [OrderedDict.get?_ofPairs]
    by_cases h3 : t = 3
    · simp [h3]
    by_cases h2 : t = 2
    · simp [h2]
    by_cases h1 : t = 1
    · simp [h1]
    simp [Ne.symm h1, Ne.symm h2, Ne.symm h3]
  latencies t := by
    rw [OrderedDict.get?_ofPairs]
    by_cases h3 : t = 3
    · simp [h3, latest]
    by_cases h2 : t = 2
    · simp [h2, latest]
    by_cases h1 : t = 1
    · simp [h1, latest]
    simp [h1, h2, h3, Ne.symm h1, Ne.symm h2, Ne.symm h3]
  commands := rfl
  alerts := rfl
  pushed := rfl

theorem get?_addLatency (latencies : OrderedDict Int (List T)) (t : Int) :
    (addLatency c latencies).get? t =
      if t = c.tier then (latencies.get? t).map fun data => (data ++ [c.latencyMs]).rtake 500
      else latencies.get? t := by
  unfold addLatency
  split
  case h_1 hnone =>
    split_ifs with ht
    · rw [ht, hnone]
      rfl
    · rfl
  case h_2 data hdata =>
    rw [OrderedDict.get?_set]
    split_ifs with ht
    · rw [ht, hdata]
      rfl
    · rfl

/-- A command is counted. -/
theorem shown_countCommand (h : Shown seen d) : Shown (seen ++ [c]) (countCommand c d) where
  counts t := by
    change ((d.tierCounts.set _ _).get? t).getD 0 = _
    rw [OrderedDict.get?_set, List.countP_append, ← h.counts t]
    by_cases ht : t = c.tier
    · subst ht
      simp
    · rw [if_neg ht]
      simp [Ne.symm ht]
  latencies t := by
    change (addLatency c d.tierLatencies).get? t = _
    rw [get?_addLatency, h.latencies t]
    unfold latest
    rw [List.filter_append, List.map_append]
    by_cases ht : t = c.tier
    · subst ht
      rw [if_pos rfl]
      split_ifs
      · rw [Option.map_some, rtake_concat_rtake]
        simp
      · rfl
    · rw [if_neg ht]
      simp [Ne.symm ht]
  commands := by
    change (c :: d.recentCommands).take 100 = _
    rw [h.commands, take_cons_take, List.reverse_concat]
  alerts := by
    change (if c.tier = 3 then (c :: d.recentAlerts).take 30 else d.recentAlerts) = _
    rw [h.alerts, List.filter_append]
    split_ifs with htier
    · rw [take_cons_take]
      simp [htier]
    · simp [htier]
  pushed := by
    change (d.pushed ++ [Payload.command c]).filterMap _ = _
    rw [List.filterMap_append, h.pushed]
    rfl

theorem shown_countLogged (h : Shown seen d) : Shown seen (countLogged ev d) := by
  unfold countLogged
  split_ifs
  · exact ⟨h.counts, h.latencies, h.commands, h.alerts, by
      change (d.pushed ++ [Payload.login _ _ _ _]).filterMap _ = _
      rw [List.filterMap_append, h.pushed]
      exact List.append_nil seen⟩
  · exact ⟨h.counts, h.latencies, h.commands, h.alerts, by
      change (d.pushed ++ [Payload.session _ _]).filterMap _ = _
      rw [List.filterMap_append, h.pushed]
      exact List.append_nil seen⟩
  · exact h

theorem shownLog_countCommand (h : ShownLog logged d) : ShownLog logged (countCommand c d) where
  logins := h.logins
  sessions := h.sessions
  pushed := by
    change (d.pushed ++ [Payload.command c]).filterMap _ = _
    rw [List.filterMap_append, h.pushed]
    exact List.append_nil _

theorem not_isConnect_of_isLogin (h : ev.isLogin = true) : ev.isConnect = false := by
  unfold LogEvent.isLogin at h
  unfold LogEvent.isConnect
  rcases List.mem_pair.mp (of_decide_eq_true h) with heq | heq <;> rw [heq] <;> rfl

theorem announced_concat (logged : List LogEvent) (ev : LogEvent) (n m : Nat) :
    (announced (logged ++ [ev]) n m : List (Payload T)) = announced logged n m ++
      announced [ev] (n + logged.countP LogEvent.isLogin) (m + logged.countP LogEvent.isConnect) := by
  induction logged generalizing n m with
  | nil => rfl
  | cons e logged ih =>
    rw [List.cons_append, announced, announced, List.countP_cons, List.countP_cons]
    by_cases hlogin : e.isLogin = true
    · rw [if_pos hlogin, if_pos hlogin, if_pos hlogin, not_isConnect_of_isLogin hlogin, ih, Nat.add_right_comm]
      rfl
    rw [if_neg hlogin, if_neg hlogin, if_neg hlogin]
    by_cases hconnect : e.isConnect = true
    · rw [if_pos hconnect, if_pos hconnect, if_pos hconnect, ih, Nat.add_right_comm]
      rfl
    · rw [if_neg hconnect, if_neg hconnect, if_neg hconnect]
      exact ih n m

/-- An event is counted. -/
theorem shownLog_countLogged (h : ShownLog logged d) : ShownLog (logged ++ [ev]) (countLogged ev d) := by
  have hannounced := announced_concat (T := T) logged ev 0 0
  rw [Nat.zero_add, Nat.zero_add, ← h.logins, ← h.sessions, ← h.pushed] at hannounced
  unfold countLogged
  by_cases hlogin : ev.isLogin = true
  · have hconnect := not_isConnect_of_isLogin hlogin
    rw [if_pos hlogin]
    refine ⟨?_, ?_, ?_⟩
    · change d.loginAttempts + 1 = _
      rw [List.countP_append, h.logins]
      simp [hlogin]
    · change d.sessionCount = _
      rw [List.countP_append, h.sessions]
      simp [hconnect]
    · change (d.pushed ++ [_]).filterMap _ = _
      rw [hannounced, List.filterMap_append]
      simp [announced, hlogin, Payload.logged?]
  rw [if_neg hlogin]
  by_cases hconnect : ev.isConnect = true
  · rw [if_pos hconnect]
    refine ⟨?_, ?_, ?_⟩
    · change d.loginAttempts = _
      rw [List.countP_append, h.logins]
      simp [hlogin]
    · change d.sessionCount + 1 = _
      rw [List.countP_append, h.sessions]
      simp [hconnect]
    · change (d.pushed ++ [_]).filterMap _ = _
      rw [hannounced, List.filterMap_append]
      simp [announced, hlogin, hconnect, Payload.logged?]
  · rw [if_neg hconnect]
    refine ⟨?_, ?_, ?_⟩
    · rw [List.countP_append, h.logins]
      simp [hlogin]
    · rw [List.countP_append, h.sessions]
      simp [hconnect]
    · rw [hannounced]
      simp [announced, hlogin, hconnect]

end

/-- What the snapshot answers for the commands in `seen`. -/
theorem Shown.snapshot [LinearOrder T] [Zero T] (h : Shown seen d) (r : Runtime T) :
    (snapshot r d).recentCommands = seen.reverse.take 50 ∧
      (snapshot r d).recentAlerts = (seen.filter fun c => c.tier = 3).reverse.take 20 ∧
      (snapshot r d).latency = [1, 2, 3].map fun t =>
        (t, r.round3 (pct (latest seen t) 50), r.round3 (pct (latest seen t) 95)) := by
  refine ⟨?_, ?_, ?_⟩
  · change d.recentCommands.take 50 = _
    rw [h.commands, List.take_take]
    rfl
  · change d.recentAlerts.take 20 = _
    rw [h.alerts, List.take_take]
    rfl
  · refine List.map_congr_left fun t ht => ?_
    simp only [h.latencies t, if_pos ht, Option.getD_some]

/-- In order, fewer values are smaller than one than come before it, and more are not greater. -/
theorem countP_of_pairwise [LinearOrder T] {before after : List T} {x : T}
    (h : (before ++ x :: after).Pairwise (· ≤ ·)) :
    (before ++ x :: after).countP (· < x) ≤ before.length ∧
      before.length + 1 ≤ (before ++ x :: after).countP (· ≤ x) := by
  obtain ⟨-, hafter, hbefore⟩ := List.pairwise_append.mp h
  rw [List.countP_append, List.countP_append, List.countP_cons, List.countP_cons]
  constructor
  · have hzero : after.countP (· < x) = 0 := by
      rw [List.countP_eq_zero]
      intro y hy
      simpa using (List.pairwise_cons.mp hafter).1 y hy
    have hcount : before.countP (· < x) ≤ before.length := List.countP_le_length
    simp only [hzero, lt_self_iff_false, decide_false]
    exact hcount
  · have hall : before.countP (· ≤ x) = before.length := by
      rw [List.countP_eq_length]
      intro y hy
      simpa using hbefore y hy x List.mem_cons_self
    simp only [hall, le_refl, decide_true, if_true]
    omega

/-- A percentile is a value such that at most that share of the values is smaller, and more than that share is not
greater. -/
theorem countP_pct [LinearOrder T] [Zero T] {data : List T} {p : Nat} (hne : data ≠ []) (hp : p < 100) :
    pct data p ∈ data ∧ 100 * data.countP (· < pct data p) ≤ data.length * p ∧
      data.length * p < 100 * data.countP (· ≤ pct data p) := by
  have hpos : 0 < data.length := List.length_pos_of_ne_nil hne
  have hscaled : data.length * p < data.length * 100 := Nat.mul_lt_mul_of_pos_left hp hpos
  obtain ⟨k, hk⟩ : ∃ k, k = data.length * p / 100 := ⟨_, rfl⟩
  have hsorted := List.pairwise_insertionSort (· ≤ ·) data
  have hperm := List.perm_insertionSort (· ≤ ·) data
  have hlength : k < (data.insertionSort (· ≤ ·)).length := by
    rw [List.length_insertionSort]
    omega
  have hpct : pct data p = (data.insertionSort (· ≤ ·))[k] := by
    unfold pct
    rw [← hk, Nat.min_eq_left (by omega)]
    exact (List.getElem_eq_getD 0).symm
  have hsplit := (List.take_append_drop k (data.insertionSort (· ≤ ·))).symm
  rw [List.drop_eq_getElem_cons hlength, ← hpct] at hsplit
  have htake : ((data.insertionSort (· ≤ ·)).take k).length = k := List.length_take_of_le hlength.le
  rw [hsplit] at hsorted
  obtain ⟨hbelow, hupto⟩ := countP_of_pairwise hsorted
  rw [← hsplit, hperm.countP_eq, htake] at hbelow
  rw [← hsplit, hperm.countP_eq, htake] at hupto
  refine ⟨hperm.mem_iff.mp (hpct ▸ List.getElem_mem hlength), by omega, by omega⟩

/-! ## Lines -/

/-- What `json` promises of a record: an object on one line, which is read back. -/
structure Lossless (r : Runtime T) (c : Command T) : Prop where
  braces : ∃ body, r.dumps c = '{' :: body ++ ['}']
  one_line : '\n' ∉ r.dumps c
  loads : r.loads (r.dumps c) =
    some ⟨some c.ts, some c.tier, some c.cmd, some c.latencyMs, some c.sessionId, some c.outcome⟩

structure LosslessLog (r : Runtime T) (ev : LogEvent) : Prop where
  braces : ∃ body, r.dumpsLog ev = '{' :: body ++ ['}']
  one_line : '\n' ∉ r.dumpsLog ev
  loads : r.loadsLog (r.dumpsLog ev) = some ev

theorem strip_line {text : List Char} (h : ∃ body, text = '{' :: body ++ ['}']) :
    strip (text ++ ['\n']) = text ∧ text ≠ [] := by
  obtain ⟨body, rfl⟩ := h
  refine ⟨strip_segment (by simp) ?_ ?_ ?_, by simp⟩
  · intro c hc
    cases hc
    rfl
  · intro c hc
    rw [List.getLast?_concat] at hc
    cases hc
    rfl
  · intro c hc
    rw [List.mem_singleton.mp hc]
    rfl

section
variable {r : Runtime T} {c : Command T} {ev : LogEvent}

theorem scalpelLine_dumps [Zero T] (h : Lossless r c) (now : T) (d : Stats T) :
    scalpelLine r now (r.dumps c ++ ['\n']) d = countCommand c d := by
  obtain ⟨hstrip, hne⟩ := strip_line h.braces
  unfold scalpelLine
  rw [hstrip, if_neg hne, h.loads]
  rfl

theorem cowrieLine_dumpsLog (h : LosslessLog r ev) (d : Stats T) :
    cowrieLine r (r.dumpsLog ev ++ ['\n']) d = countLogged ev d := by
  obtain ⟨hstrip, hne⟩ := strip_line h.braces
  unfold cowrieLine
  rw [hstrip, if_neg hne, h.loads]

@[simp] theorem scalpelLine_nil [Zero T] (now : T) (d : Stats T) : scalpelLine r now [] d = d := rfl

@[simp] theorem cowrieLine_nil (d : Stats T) : cowrieLine r [] d = d := rfl

theorem scalpelLine_cases [Zero T] (r : Runtime T) (now : T) (line : List Char) (d : Stats T) :
    scalpelLine r now line d = d ∨ ∃ c, scalpelLine r now line d = countCommand c d := by
  unfold scalpelLine
  split_ifs
  · exact .inl rfl
  · split
    · exact .inl rfl
    · exact .inr ⟨_, rfl⟩

theorem cowrieLine_cases (r : Runtime T) (line : List Char) (d : Stats T) :
    cowrieLine r line d = d ∨ ∃ ev, cowrieLine r line d = countLogged ev d := by
  unfold cowrieLine
  split_ifs
  · exact .inl rfl
  · split
    · exact .inl rfl
    · exact .inr ⟨_, rfl⟩

end

end Cowrie.Scalpel.Dashboard
