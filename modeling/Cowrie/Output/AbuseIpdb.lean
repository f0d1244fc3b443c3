import Cowrie.Lib.OrderedDict
import Cowrie.Lib.Run
import Mathlib.Algebra.Order.Ring.Int

/-!
# Reports to AbuseIPDB (`src/cowrie/output/abuseipdb.py`)

The logbook has the times of an address's login attempts, or when the address was reported. It is cleaned regularly;
after a `429` with a `Retry-After` it sleeps and is cleaned for the time at which it will wake up.

* `log` is ghost state: the attempts that were looked at and the reports, the newest first.
* `Punctual`: the logbook is not woken up before the time for which it was cleaned.
* **`reports_spaced`**: two reports of one address are more than `rereport_after` apart.
* **`reports_backed`**: a report of several attempts stands for `tolerance_attempts` attempts of the address since its
  last report, all within the window.
* **`slow_never_reported`**: an address whose attempts have a cleanup between any two of them is never reported. The
  cleanup asks `can_rereport`, which is true of an address with one attempt.

Scheduled calls run at any time and in any order. Left out: the dump on disk, the texts of requests and answers, and
the request that is sent again as it is after a `Retry-After` of more than 86340 seconds.
-/

namespace Cowrie.AbuseIpdb

open Lib

variable {T : Type} [CommRing T] [LinearOrder T]

/-- An entry of the logbook: a `deque` of times, or `(None, t)`. -/
inductive Entry (T : Type) where
  | seen (times : List T)
  | reported (t : T)
  deriving DecidableEq

structure LogBook (T : Type) where
  entries : OrderedDict String (Entry T) := .empty
  sleeping : Bool := false
  sleepUntil : T
  toleranceAttempts : Nat
  toleranceWindow : T
  rereportAfter : T
  deriving DecidableEq

/-- `REREPORT_MINIMUM`. -/
def rereportMinimum : T := 900

namespace LogBook

/-- `__init__`, with the window in minutes and `rereport_after` in hours. -/
def new (toleranceAttempts : Nat) (toleranceWindow rereportAfter : T) : LogBook T where
  sleepUntil := 0
  toleranceAttempts
  toleranceWindow := 60 * toleranceWindow
  rereportAfter := if 3600 * rereportAfter < rereportMinimum then rereportMinimum else 3600 * rereportAfter

/-- `append` of a `deque` with `maxlen=tolerance_attempts`. -/
def append (l : LogBook T) (times : List T) (t : T) : List T :=
  (times ++ [t]).drop ((times ++ [t]).length - l.toleranceAttempts)

/-- `clean_expired_timestamps` of a `deque`. A time of `0` is no time to it. -/
def unexpired (l : LogBook T) (now : T) (times : List T) : List T :=
  times.dropWhile fun t => t ≠ 0 && t < now - l.toleranceWindow

/-- `clean_expired_timestamps`. -/
def cleanExpiredTimestamps (l : LogBook T) (now : T) : Entry T → Entry T
  | .seen times => .seen (l.unexpired now times)
  | .reported t => .reported t

/-- `can_rereport`. -/
def canRereport (l : LogBook T) (now : T) : Entry T → Bool
  | .reported t => t + l.rereportAfter < now
  | .seen (first :: second :: _) => second + l.rereportAfter < now || (first ≠ 0 && l.toleranceAttempts ≤ 1)
  | .seen _ => true

/-- `if not self[k]`. -/
def isEmpty : Entry T → Bool
  | .seen [] => true
  | _ => false

/-- `cleanup_and_dump_state`. -/
def cleanup (now : T) (l : LogBook T) : LogBook T :=
  let t := if l.sleeping then l.sleepUntil else now
  let kept := l.entries.filter fun _ entry => !l.canRereport t entry
  { l with entries := (kept.mapValues (l.cleanExpiredTimestamps t)).filter fun _ entry => !isEmpty entry }

def set (ip : String) (entry : Entry T) (l : LogBook T) : LogBook T := { l with entries := l.entries.set ip entry }

end LogBook

inductive Report (T : Type) where
  | single (ip : String) (t : T) (uname : String)
  | multiple (ip : String) (first last : T)
  deriving DecidableEq

def Report.ip : Report T → String
  | .single ip _ _ => ip
  | .multiple ip _ _ => ip

/-- The time of the attempt that brought the report about. -/
def Report.time : Report T → T
  | .single _ t _ => t
  | .multiple _ _ last => last

/-- `report_ip_single`. -/
def reportIpSingle (ip : String) (t : T) (uname : String) (l : LogBook T) : LogBook T × Option (Report T) :=
  (l.set ip (.reported t), some (.single ip t uname))

/-- `report_ip_multiple` of a `deque`, for an attempt at `t`. It raises an `IndexError` if there are less than two
times, and the caller catches that. -/
def reportIpMultiple (ip : String) (t : T) (times : List T) (l : LogBook T) : LogBook T × Option (Report T) :=
  match times.dropLast, times.getLast? with
  | first :: _, some last => (l.set ip (.reported last), some (.multiple ip first last))
  | _, _ => (l.set ip (.seen (l.append [] t)), none)

/-- `intolerant_observer`. -/
def intolerantObserver (ip : String) (t : T) (uname : String) (l : LogBook T) : LogBook T × Option (Report T) :=
  match l.entries.get? ip with
  | some entry => if l.canRereport t entry then reportIpSingle ip t uname l else (l, none)
  | none => reportIpSingle ip t uname l

/-- `tolerant_observer`. -/
def tolerantObserver (ip : String) (t : T) (l : LogBook T) : LogBook T × Option (Report T) :=
  match l.entries.get? ip with
  | none => (l.set ip (.seen (l.append [] t)), none)
  | some (.seen []) => (l.set ip (.seen (l.append [] t)), none)
  | some (.seen (first :: times)) =>
    if first ≠ 0 then
      let times := l.unexpired t (l.append (first :: times) t)
      if l.toleranceAttempts ≤ times.length then reportIpMultiple ip t times l
      else (l.set ip (.seen times), none)
    else if l.canRereport t (.seen (first :: times)) then (l.set ip (.seen (l.append [] t)), none)
    else (l, none)
  | some (.reported r) =>
    if l.canRereport t (.reported r) then (l.set ip (.seen (l.append [] t)), none) else (l, none)

/-- `write`, for a login. -/
def write (ip : String) (t : T) (uname : String) (l : LogBook T) : LogBook T × Option (Report T) :=
  if l.sleeping then (l, none)
  else if l.toleranceAttempts ≤ 1 then intolerantObserver ip t uname l
  else tolerantObserver ip t l

inductive Happening (T : Type) where
  | attempt (ip : String) (t : T)
  | report (r : Report T)
  deriving DecidableEq

structure State (T : Type) where
  book : LogBook T
  clock : T
  /-- The scheduled calls of `wakeup`. -/
  alarms : List T := []
  log : List (Happening T) := []

inductive Event (T : Type) where
  | login (ip : String) (t : T) (uname : String)
  | cleanup (t : T)
  /-- A `429`; `cancels` says whether the scheduled cleanup can still be cancelled, else `cancel` raises. -/
  | limited (t : T) (retry : Nat) (cancels : Bool)
  | wakeup (t : T)

def Event.time : Event T → T
  | .login _ t _ => t
  | .cleanup t => t
  | .limited t _ _ => t
  | .wakeup t => t

def State.observe (s : State T) (ip : String) (t : T) (uname : String) : State T :=
  let observed := write ip t uname s.book
  let log := if s.book.sleeping then s.log else .attempt ip t :: s.log
  { s with book := observed.1, clock := t, log := (observed.2.map Happening.report).toList ++ log }

/-- `rate_limit_handler`, from `self.logbook.sleeping = True`. -/
def State.limit (s : State T) (t : T) (retry : Nat) (cancels : Bool) : State T :=
  let book := { s.book with sleeping := true, sleepUntil := t + retry }
  { s with book := if cancels then book.cleanup t else book, clock := t, alarms := (t + retry) :: s.alarms }

def step (s : State T) (e : Event T) : Option (State T) :=
  if s.clock ≤ e.time then
    match e with
    | .login ip t uname => some (s.observe ip t uname)
    | .cleanup t => some { s with book := s.book.cleanup t, clock := t }
    | .limited t retry cancels => some (s.limit t retry cancels)
    | .wakeup t =>
      if s.alarms.any (· ≤ t) then
        some { s with
          book := { s.book with sleeping := false, sleepUntil := 0 }, clock := t
          alarms := s.alarms.eraseP (· ≤ t) }
      else none
  else none

/-! ## What an attempt does -/

/-- An address that was reported at `r` can be reported again at `t`. -/
def Free (l : LogBook T) (ip : String) (t : T) : Prop :=
  ∀ r, l.entries.get? ip = some (.reported r) → r + l.rereportAfter < t

/-- What can become of the logbook by an attempt at `t`, and which report it brings about. -/
inductive Observed (l : LogBook T) (ip : String) (t : T) : LogBook T × Option (Report T) → Prop
  | ignored : Observed l ip t (l, none)
  | started (hfree : Free l ip t) : Observed l ip t (l.set ip (.seen (l.append [] t)), none)
  | continued {times : List T} (hseen : l.entries.get? ip = some (.seen times)) :
      Observed l ip t (l.set ip (.seen (l.unexpired t (l.append times t))), none)
  | single (uname : String) (hfree : Free l ip t) :
      Observed l ip t (l.set ip (.reported t), some (.single ip t uname))
  | multiple {times : List T} {first : T} (hseen : l.entries.get? ip = some (.seen times))
      (hfirst : (l.unexpired t (l.append times t)).head? = some first)
      (hlast : (l.unexpired t (l.append times t)).getLast? = some t)
      (henough : l.toleranceAttempts ≤ (l.unexpired t (l.append times t)).length)
      (htolerant : 1 < l.toleranceAttempts) :
      Observed l ip t (l.set ip (.reported t), some (.multiple ip first t))

section
variable {l : LogBook T} {ip : String} {t : T} {uname : String}

theorem free_of_seen {times : List T} (h : l.entries.get? ip = some (.seen times)) : Free l ip t :=
  fun r hr => by rw [h] at hr; cases hr

theorem free_of_none (h : l.entries.get? ip = none) : Free l ip t :=
  fun r hr => by rw [h] at hr; cases hr

theorem free_of_canRereport {r : T} (h : l.entries.get? ip = some (.reported r))
    (hcan : l.canRereport t (.reported r) = true) : Free l ip t := by
  intro r' hr'
  rw [h] at hr'
  cases hr'
  simpa [LogBook.canRereport] using hcan

omit [CommRing T] [LinearOrder T] in
theorem getLast?_append (times : List T) (t : T) (hn : 0 < l.toleranceAttempts) :
    (l.append times t).getLast? = some t := by
  unfold LogBook.append
  rw [List.getLast?_drop, List.length_append, List.length_singleton, if_neg (by omega), List.getLast?_concat]

theorem getLast?_unexpired {times : List T} (h : l.unexpired t times ≠ []) :
    (l.unexpired t times).getLast? = times.getLast? := by
  obtain ⟨old, hold⟩ : l.unexpired t times <:+ times := List.dropWhile_suffix _
  conv_rhs => rw [← hold]
  exact (List.getLast?_append_of_ne_nil _ h).symm

theorem observed_intolerant : Observed l ip t (intolerantObserver ip t uname l) := by
  unfold intolerantObserver reportIpSingle
  cases hentry : l.entries.get? ip with
  | none => exact .single uname (free_of_none hentry)
  | some entry =>
    simp only
    split_ifs with hcan
    · refine .single uname ?_
      cases entry with
      | seen times => exact free_of_seen hentry
      | reported r => exact free_of_canRereport hentry hcan
    · exact .ignored

theorem observed_multiple {times : List T} (hseen : l.entries.get? ip = some (.seen times))
    (henough : l.toleranceAttempts ≤ (l.unexpired t (l.append times t)).length)
    (htolerant : 1 < l.toleranceAttempts) :
    Observed l ip t (reportIpMultiple ip t (l.unexpired t (l.append times t)) l) := by
  obtain ⟨first, second, later, hlist⟩ : ∃ first second later,
      l.unexpired t (l.append times t) = first :: second :: later := by
    rcases hlist : l.unexpired t (l.append times t) with _ | ⟨first, _ | ⟨second, later⟩⟩
    · rw [hlist, List.length_nil] at henough
      omega
    · rw [hlist, List.length_singleton] at henough
      omega
    · exact ⟨first, second, later, rfl⟩
  have hlast : (l.unexpired t (l.append times t)).getLast? = some t := by
    rw [getLast?_unexpired (by rw [hlist]; exact List.cons_ne_nil _ _), getLast?_append times t (by omega)]
  have hdrop : (l.unexpired t (l.append times t)).dropLast = first :: (second :: later).dropLast := by
    rw [hlist]
    rfl
  unfold reportIpMultiple
  rw [hdrop, hlast]
  exact .multiple hseen (by rw [hlist]; rfl) hlast henough htolerant

theorem observed_tolerant (htolerant : 1 < l.toleranceAttempts) : Observed l ip t (tolerantObserver ip t l) := by
  unfold tolerantObserver
  cases hentry : l.entries.get? ip with
  | none => exact .started (free_of_none hentry)
  | some entry =>
    cases entry with
    | reported r =>
      simp only
      split_ifs with hcan
      · exact .started (free_of_canRereport hentry hcan)
      · exact .ignored
    | seen times =>
      cases times with
      | nil => exact .started (free_of_seen hentry)
      | cons first times =>
        simp only
        split_ifs with hfirst henough hcan
        · exact observed_multiple hentry henough htolerant
        · exact .continued hentry
        · exact .started (free_of_seen hentry)
        · exact .ignored

/-- **An attempt** is one of these. -/
theorem observed_write : Observed l ip t (write ip t uname l) := by
  unfold write
  split_ifs with hsleeping hintolerant
  · exact .ignored
  · exact observed_intolerant
  · exact observed_tolerant (Nat.lt_of_not_le hintolerant)

/-- The settings of the logbook. -/
def LogBook.settings (l : LogBook T) : Nat × T × T := (l.toleranceAttempts, l.toleranceWindow, l.rereportAfter)

theorem Observed.settings {p : LogBook T × Option (Report T)} (h : Observed l ip t p) : p.1.settings = l.settings := by
  cases h <;> rfl

theorem Observed.sleeping {p : LogBook T × Option (Report T)} (h : Observed l ip t p) :
    p.1.sleeping = l.sleeping ∧ p.1.sleepUntil = l.sleepUntil := by
  cases h <;> exact ⟨rfl, rfl⟩

/-- Other addresses are left alone. -/
theorem Observed.get?_of_ne {p : LogBook T × Option (Report T)} (h : Observed l ip t p) {ip' : String}
    (hne : ip' ≠ ip) : p.1.entries.get? ip' = l.entries.get? ip' := by
  cases h with
  | ignored => rfl
  | _ =>
    unfold LogBook.set
    rw [OrderedDict.get?_set, if_neg hne]

/-- A cleanup, for one address. -/
theorem get?_cleanup (now : T) (ip : String) :
    (l.cleanup now).entries.get? ip =
      (((l.entries.get? ip).filter fun entry => !l.canRereport (if l.sleeping then l.sleepUntil else now) entry).map
        (l.cleanExpiredTimestamps (if l.sleeping then l.sleepUntil else now))).filter
        fun entry => !LogBook.isEmpty entry := by
  unfold LogBook.cleanup
  rw [OrderedDict.get?_filter, OrderedDict.get?_mapValues, OrderedDict.get?_filter]

end

/-! ## Runs -/

/-- A logbook that starts at the time `clock`. -/
def start (toleranceAttempts : Nat) (toleranceWindow rereportAfter clock : T) : State T :=
  { book := .new toleranceAttempts toleranceWindow rereportAfter, clock }

/-- When the last report of an address was. -/
def lastReport (ip : String) : List (Happening T) → Option T
  | [] => none
  | .attempt _ _ :: log => lastReport ip log
  | .report r :: log => if r.ip = ip then some r.time else lastReport ip log

/-- The attempts of an address since its last report. -/
def attemptsSince (ip : String) : List (Happening T) → List T
  | [] => []
  | .attempt ip' t :: log => if ip' = ip then attemptsSince ip log ++ [t] else attemptsSince ip log
  | .report r :: log => if r.ip = ip then [] else attemptsSince ip log

/-- Every report of an address is more than `gap` after the last one. -/
def Spaced (gap : T) : List (Happening T) → Prop
  | [] => True
  | .attempt _ _ :: log => Spaced gap log
  | .report r :: log => (∀ t, lastReport r.ip log = some t → t + gap < r.time) ∧ Spaced gap log

/-- Every report of several attempts stands for `n` attempts since the last report, all at most `window` before the
last of them. -/
def Backed (n : Nat) (window : T) : List (Happening T) → Prop
  | [] => True
  | .report (.multiple ip first last) :: log =>
    (∃ times : List T, times.Sublist (attemptsSince ip log) ∧ times.length = n ∧ times.head? = some first ∧
      times.getLast? = some last ∧ ∀ t ∈ times, last - window ≤ t ∧ t ≤ last) ∧ Backed n window log
  | _ :: log => Backed n window log

/-- Neither a wakeup nor another `429` undoes what the logbook was cleaned for. -/
def Punctual (s : State T) : Event T → Prop
  | .wakeup t => s.book.sleeping = true → s.book.sleepUntil ≤ t
  | .limited t retry _ => s.book.sleeping = true → s.book.sleepUntil ≤ t + retry
  | _ => True

instance (s : State T) : ∀ e, Decidable (Punctual s e)
  | .wakeup t => inferInstanceAs (Decidable (s.book.sleeping = true → s.book.sleepUntil ≤ t))
  | .limited t retry _ => inferInstanceAs (Decidable (s.book.sleeping = true → s.book.sleepUntil ≤ t + retry))
  | .login _ _ _ => isTrue trivial
  | .cleanup _ => isTrue trivial

/-- The time up to which the logbook may have been cleaned. -/
def horizon (s : State T) : T := if s.book.sleeping then max s.clock s.book.sleepUntil else s.clock

/-- An address that is not marked as reported can be reported. -/
structure Ready (s : State T) : Prop where
  spaced : Spaced s.book.rereportAfter s.log
  entries : ∀ ip r, lastReport ip s.log = some r →
    s.book.entries.get? ip = some (.reported r) ∨ r + s.book.rereportAfter < horizon s

section
variable {s s' : State T}

theorem settings_step {e : Event T} (h : step s e = some s') : s'.book.settings = s.book.settings := by
  unfold step at h
  split_ifs at h
  cases e with
  | login ip t uname =>
    cases h
    exact observed_write.settings
  | cleanup t =>
    cases h
    rfl
  | limited t retry cancels =>
    cases h
    cases cancels <;> rfl
  | wakeup t =>
    simp only at h
    split_ifs at h
    cases h
    rfl

theorem ready_observe {ip : String} {t : T} {uname : String} (hs : Ready s) (hclock : s.clock ≤ t) :
    Ready (s.observe ip t uname) := by
  have hobserved : Observed s.book ip t (write ip t uname s.book) := observed_write
  by_cases hsleeping : s.book.sleeping = true
  · have hignored : write ip t uname s.book = (s.book, none) := if_pos hsleeping
    unfold State.observe
    simp only [hignored, hsleeping, if_true, Option.map_none, Option.toList_none, List.nil_append]
    refine ⟨hs.spaced, fun ip' r hr => (hs.entries ip' r hr).imp_right fun hlt => ?_⟩
    unfold horizon at hlt ⊢
    simp only [hsleeping, if_true] at hlt ⊢
    exact hlt.trans_le (max_le_max_right _ hclock)
  · have hawake : s.book.sleeping = false := by simpa using hsleeping
    have hrereport : (write ip t uname s.book).1.rereportAfter = s.book.rereportAfter :=
      congrArg (fun x => x.2.2) hobserved.settings
    have hhorizon : horizon (s.observe ip t uname) = t := by
      unfold horizon State.observe
      simp [hobserved.sleeping.1, hawake]
    have hlater : ∀ ip' r, lastReport ip' s.log = some r →
        s.book.entries.get? ip' = some (.reported r) ∨ r + s.book.rereportAfter < t := by
      intro ip' r hr
      refine (hs.entries ip' r hr).imp_right fun hlt => ?_
      unfold horizon at hlt
      simp only [hawake, Bool.false_eq_true, if_false] at hlt
      exact hlt.trans_le hclock
    have hfree : Free s.book ip t → ∀ r, lastReport ip s.log = some r → r + s.book.rereportAfter < t :=
      fun h r hr => (hlater ip r hr).elim (h r) id
    have hothers : ∀ ip', ip' ≠ ip → ∀ r, lastReport ip' s.log = some r →
        (write ip t uname s.book).1.entries.get? ip' = some (.reported r) ∨ r + s.book.rereportAfter < t := by
      intro ip' hne r hr
      rw [hobserved.get?_of_ne hne]
      exact hlater ip' r hr
    suffices hlog : Spaced s.book.rereportAfter (s.observe ip t uname).log ∧ ∀ ip' r,
        lastReport ip' (s.observe ip t uname).log = some r →
        (write ip t uname s.book).1.entries.get? ip' = some (.reported r) ∨ r + s.book.rereportAfter < t by
      refine ⟨hrereport ▸ hlog.1, fun ip' r hr => ?_⟩
      rw [hhorizon]
      exact (hlog.2 ip' r hr).imp_right fun hlt => hrereport.symm ▸ hlt
    unfold State.observe
    simp only [hawake, Bool.false_eq_true, if_false]
    generalize write ip t uname s.book = observed at hobserved hothers
    -- without a report, and with one
    have hquiet : (Free s.book ip t ∨ observed.1 = s.book) →
        Spaced s.book.rereportAfter (.attempt ip t :: s.log) ∧ ∀ ip' r,
          lastReport ip' (.attempt ip t :: s.log) = some r →
          observed.1.entries.get? ip' = some (.reported r) ∨ r + s.book.rereportAfter < t := by
      intro hcase
      refine ⟨hs.spaced, fun ip' r hr => ?_⟩
      rcases hcase with hcase | hcase
      · by_cases hip : ip' = ip
        · exact .inr (hfree hcase r (hip ▸ hr))
        · exact hothers ip' hip r hr
      · rw [hcase]
        exact hlater ip' r hr
    have hreport : ∀ report : Report T, report.ip = ip → report.time = t → Free s.book ip t →
        observed.1 = s.book.set ip (.reported t) →
        Spaced s.book.rereportAfter (.report report :: .attempt ip t :: s.log) ∧ ∀ ip' r,
          lastReport ip' (.report report :: .attempt ip t :: s.log) = some r →
          observed.1.entries.get? ip' = some (.reported r) ∨ r + s.book.rereportAfter < t := by
      intro report hip htime hcase hset
      refine ⟨⟨fun r hr => ?_, hs.spaced⟩, fun ip' r hr => ?_⟩
      · rw [htime]
        exact hfree hcase r (hip ▸ hr)
      · by_cases hip' : ip' = ip
        · rw [lastReport, if_pos (hip.trans hip'.symm), htime] at hr
          cases hr
          left
          rw [hset, hip']
          unfold LogBook.set
          rw [OrderedDict.get?_set, if_pos rfl]
        · rw [lastReport, if_neg (fun h => hip' (h.symm.trans hip))] at hr
          exact hothers ip' hip' r hr
    cases hobserved with
    | ignored => exact hquiet (.inr rfl)
    | started hcase => exact hquiet (.inl hcase)
    | continued hseen => exact hquiet (.inl (free_of_seen hseen))
    | single uname hcase => exact hreport _ rfl rfl hcase rfl
    | multiple hseen => exact hreport _ rfl rfl (free_of_seen hseen) rfl

theorem ready_step {e : Event T} (hs : Ready s) (hpunctual : Punctual s e) (h : step s e = some s') : Ready s' := by
  unfold step at h
  split_ifs at h with hclock
  -- cleaning makes only those addresses free that may be reported at the time it is for
  have hclean : ∀ (l : LogBook T) now, l.rereportAfter = s.book.rereportAfter →
      horizon s ≤ (if l.sleeping then max now l.sleepUntil else now) →
      (∀ ip, l.entries.get? ip = s.book.entries.get? ip) → ∀ ip r, lastReport ip s.log = some r →
      (l.cleanup now).entries.get? ip = some (.reported r) ∨
        r + l.rereportAfter < (if l.sleeping then max now l.sleepUntil else now) := by
    intro l now hrereport hhorizon hentries ip r hr
    rcases hs.entries ip r hr with hentry | hlt
    · rw [get?_cleanup, hentries ip, hentry, Option.filter_some]
      cases hcan : l.canRereport (if l.sleeping then l.sleepUntil else now) (.reported r) with
      | false => exact .inl rfl
      | true =>
        right
        have hlt : r + l.rereportAfter < if l.sleeping then l.sleepUntil else now := by
          simpa [LogBook.canRereport] using hcan
        refine hlt.trans_le ?_
        split_ifs
        · exact le_max_right _ _
        · exact le_refl _
    · rw [hrereport]
      exact .inr (hlt.trans_le hhorizon)
  cases e with
  | login ip t uname =>
    cases h
    exact ready_observe hs hclock
  | cleanup t =>
    cases h
    refine ⟨hs.spaced, fun ip r hr => ?_⟩
    refine hclean s.book t rfl ?_ (fun _ => rfl) ip r hr
    unfold horizon
    split_ifs
    · exact max_le_max_right _ hclock
    · exact hclock
  | limited t retry cancels =>
    cases h
    have hhorizon : horizon s ≤ max t (t + retry) := by
      unfold horizon
      split_ifs with hsleeping
      · exact max_le_max hclock (hpunctual hsleeping)
      · exact hclock.trans (le_max_left _ _)
    cases cancels with
    | true =>
      refine ⟨hs.spaced, fun ip r hr => ?_⟩
      exact hclean { s.book with sleeping := true, sleepUntil := t + retry } t rfl hhorizon (fun _ => rfl) ip r hr
    | false => exact ⟨hs.spaced, fun ip r hr => (hs.entries ip r hr).imp_right fun hlt => hlt.trans_le hhorizon⟩
  | wakeup t =>
    simp only at h
    split_ifs at h
    cases h
    refine ⟨hs.spaced, fun ip r hr => (hs.entries ip r hr).imp_right fun hlt => hlt.trans_le ?_⟩
    unfold horizon
    simp only [Bool.false_eq_true, if_false]
    split_ifs with hsleeping
    · exact max_le hclock (hpunctual hsleeping)
    · exact hclock

theorem settings_run {es : List (Event T)} (h : run step s es = some s') : s'.book.settings = s.book.settings :=
  run_inv' (fun _ _ _ hs hstep => (settings_step hstep).trans hs) rfl h

end

/-- **Reports of one address** are more than `rereport_after` apart, which is a quarter of an hour at least. -/
theorem reports_spaced {toleranceAttempts : Nat} {toleranceWindow rereportAfter clock : T} {es : List (Event T)}
    {s : State T} (hpunctual : StepsMeet step Punctual (start toleranceAttempts toleranceWindow rereportAfter clock) es)
    (hrun : run step (start toleranceAttempts toleranceWindow rereportAfter clock) es = some s) :
    900 ≤ s.book.rereportAfter ∧ Spaced s.book.rereportAfter s.log := by
  constructor
  · have hsettings := congrArg (fun x => x.2.2) (settings_run hrun)
    change s.book.rereportAfter = _ at hsettings
    rw [hsettings]
    unfold start LogBook.new rereportMinimum
    simp only
    split_ifs with h
    · exact le_refl _
    · exact not_lt.mp h
  · have hstart : Ready (start toleranceAttempts toleranceWindow rereportAfter clock) :=
      ⟨trivial, fun _ _ h => by cases h⟩
    exact (run_inv (fun _ _ _ => ready_step) hstart hpunctual hrun).spaced

/-- Two attempts are tolerated for two hours, and reports are a day apart. -/
def sampleStart : State Int := start 2 120 24 100

/-- Two attempts, one that is ignored, a pause, and two more on the next day. -/
def sampleEvents : List (Event Int) :=
  [.login "192.0.2.7" 110 "root", .login "192.0.2.7" 120 "root", .login "192.0.2.7" 500 "root",
    .limited 600 1000 true, .wakeup 1600, .login "192.0.2.7" 86600 "pi", .login "192.0.2.7" 86610 "pi"]

def sampleEnd : State Int := (run step sampleStart sampleEvents).getD sampleStart

theorem sampleEnd_spaced : 900 ≤ sampleEnd.book.rereportAfter ∧ Spaced sampleEnd.book.rereportAfter sampleEnd.log :=
  reports_spaced (show StepsMeet step Punctual sampleStart sampleEvents by decide +kernel)
    (show run step sampleStart sampleEvents = some sampleEnd from rfl)

/-- A `429` for a short time undoes what one for a day has cleaned for: the address is reported again. -/
example : (run step sampleStart
      [.login "192.0.2.7" 110 "root", .login "192.0.2.7" 120 "root", .limited 300 86340 true, .limited 301 600 false,
        .wakeup 901, .login "192.0.2.7" 910 "root", .login "192.0.2.7" 920 "root"]).map (lastReport "192.0.2.7" ·.log) =
    some (some 920) := by decide +kernel

example : sampleEnd.log =
    [.report (.multiple "192.0.2.7" 86600 86610), .attempt "192.0.2.7" 86610, .attempt "192.0.2.7" 86600,
      .attempt "192.0.2.7" 500, .report (.multiple "192.0.2.7" 110 120), .attempt "192.0.2.7" 120,
      .attempt "192.0.2.7" 110] := by decide +kernel

/-! ## What a report stands for -/

/-- What the logbook has of an address are attempts since its last report. -/
structure Evident (s : State T) : Prop where
  backed : Backed s.book.toleranceAttempts s.book.toleranceWindow s.log
  seen : ∀ ip times, s.book.entries.get? ip = some (.seen times) →
    times.Sublist (attemptsSince ip s.log) ∧ times.length ≤ s.book.toleranceAttempts
  ordered : ∀ ip, (attemptsSince ip s.log).Pairwise (· ≤ ·) ∧ ∀ t ∈ attemptsSince ip s.log, 0 < t ∧ t ≤ s.clock
  clock : 0 < s.clock

section
variable {s s' : State T} {l : LogBook T}

omit [CommRing T] [LinearOrder T] in
theorem append_sublist (times : List T) (t : T) :
    (l.append times t).Sublist (times ++ [t]) ∧ (l.append times t).length ≤ l.toleranceAttempts := by
  unfold LogBook.append
  refine ⟨List.drop_sublist _ _, ?_⟩
  rw [List.length_drop]
  omega

theorem unexpired_sublist (now : T) (times : List T) : (l.unexpired now times).Sublist times :=
  (List.dropWhile_suffix _).sublist

/-- Times in order that are none of them `0` are in the window when the old ones are gone. -/
theorem unexpired_recent {now : T} {times : List T} (hsorted : times.Pairwise (· ≤ ·)) (hne : ∀ t ∈ times, t ≠ 0) :
    ∀ t ∈ l.unexpired now times, now - l.toleranceWindow ≤ t := by
  induction times with
  | nil => exact fun t ht => absurd ht List.not_mem_nil
  | cons x times ih =>
    obtain ⟨hx, hsorted⟩ := List.pairwise_cons.mp hsorted
    obtain ⟨hxne, hne⟩ := List.forall_mem_cons.mp hne
    unfold LogBook.unexpired at ih ⊢
    by_cases hold : x < now - l.toleranceWindow
    · rw [List.dropWhile_cons_of_pos (by simp [hxne, hold])]
      exact ih hsorted hne
    · rw [List.dropWhile_cons_of_neg (by simp [hold])]
      have hrecent := not_lt.mp hold
      exact List.forall_mem_cons.mpr ⟨hrecent, fun t ht => hrecent.trans (hx t ht)⟩

theorem evident_cleanup {now t : T} (hs : Evident s) (hl : l.settings = s.book.settings)
    (hentries : l.entries = s.book.entries) (hclock : s.clock ≤ t) (alarms : List T) :
    Evident { s with book := l.cleanup now, clock := t, alarms } := by
  obtain ⟨hattempts, hwindow⟩ : l.toleranceAttempts = s.book.toleranceAttempts ∧
      l.toleranceWindow = s.book.toleranceWindow :=
    ⟨congrArg Prod.fst hl, congrArg (fun x => x.2.1) hl⟩
  refine ⟨?_, fun ip times h => ?_, fun ip => ⟨(hs.ordered ip).1, fun x hx => ?_⟩, hs.clock.trans_le hclock⟩
  · change Backed l.toleranceAttempts l.toleranceWindow s.log
    rw [hattempts, hwindow]
    exact hs.backed
  · simp only at h
    rw [get?_cleanup, hentries] at h
    obtain ⟨h, -⟩ := Option.filter_eq_some_iff.mp h
    obtain ⟨entry, hentry, hclean⟩ := Option.map_eq_some_iff.mp h
    obtain ⟨hentry, -⟩ := Option.filter_eq_some_iff.mp hentry
    cases entry with
    | reported r => cases hclean
    | seen old =>
      cases hclean
      obtain ⟨hsub, hlength⟩ := hs.seen ip old hentry
      have hunexpired := unexpired_sublist (l := l) (if l.sleeping then l.sleepUntil else now) old
      exact ⟨hunexpired.trans hsub, (hunexpired.length_le.trans hlength).trans_eq hattempts.symm⟩
  · obtain ⟨hpos, hle⟩ := (hs.ordered ip).2 x hx
    exact ⟨hpos, hle.trans hclock⟩

omit [CommRing T] [LinearOrder T] in
/-- The attempts of an address after an attempt. -/
theorem attemptsSince_attempt (ip ip' : String) (t : T) (log : List (Happening T)) :
    attemptsSince ip' (.attempt ip t :: log) =
      if ip = ip' then attemptsSince ip' log ++ [t] else attemptsSince ip' log := rfl

theorem ordered_attempt {ip : String} {t : T} (hs : Evident s) (hclock : s.clock ≤ t) (ip' : String) :
    (attemptsSince ip' (.attempt ip t :: s.log)).Pairwise (· ≤ ·) ∧
      ∀ x ∈ attemptsSince ip' (.attempt ip t :: s.log), 0 < x ∧ x ≤ t := by
  obtain ⟨hsorted, hbound⟩ := hs.ordered ip'
  have hbound' : ∀ x ∈ attemptsSince ip' s.log, 0 < x ∧ x ≤ t :=
    fun x hx => ⟨(hbound x hx).1, (hbound x hx).2.trans hclock⟩
  rw [attemptsSince_attempt]
  split_ifs
  · refine ⟨List.pairwise_append.mpr ⟨hsorted, List.pairwise_singleton _ _, fun x hx y hy => ?_⟩, ?_⟩
    · rw [List.mem_singleton.mp hy]
      exact (hbound' x hx).2
    · exact List.forall_mem_append.mpr
        ⟨hbound', List.forall_mem_singleton.mpr ⟨hs.clock.trans_le hclock, le_refl _⟩⟩
  · exact ⟨hsorted, hbound'⟩

theorem evident_observe {ip : String} {t : T} {uname : String} (hs : Evident s) (hclock : s.clock ≤ t) :
    Evident (s.observe ip t uname) := by
  have hobserved : Observed s.book ip t (write ip t uname s.book) := observed_write
  have hpositive := hs.clock.trans_le hclock
  by_cases hsleeping : s.book.sleeping = true
  · have hignored : write ip t uname s.book = (s.book, none) := if_pos hsleeping
    unfold State.observe
    simp only [hignored, hsleeping, if_true, Option.map_none, Option.toList_none, List.nil_append]
    exact ⟨hs.backed, hs.seen, fun ip' => ⟨(hs.ordered ip').1, fun x hx =>
      ⟨((hs.ordered ip').2 x hx).1, ((hs.ordered ip').2 x hx).2.trans hclock⟩⟩, hpositive⟩
  · have hawake : s.book.sleeping = false := by simpa using hsleeping
    have hordered : ∀ ip', (attemptsSince ip' (.attempt ip t :: s.log)).Pairwise (· ≤ ·) ∧
        ∀ x ∈ attemptsSince ip' (.attempt ip t :: s.log), 0 < x ∧ x ≤ t := ordered_attempt hs hclock
    have hset : ∀ entry, (s.book.set ip entry).entries.get? ip = some entry := fun entry => by
      unfold LogBook.set
      rw [OrderedDict.get?_set, if_pos rfl]
    have hself : attemptsSince ip (.attempt ip t :: s.log) = attemptsSince ip s.log ++ [t] := if_pos rfl
    have hothers : ∀ ip', ip' ≠ ip → ∀ times, (write ip t uname s.book).1.entries.get? ip' = some (.seen times) →
        times.Sublist (attemptsSince ip' s.log) ∧ times.length ≤ s.book.toleranceAttempts := by
      intro ip' hne times h
      rw [hobserved.get?_of_ne hne] at h
      exact hs.seen ip' times h
    have hsettings := hobserved.settings
    unfold State.observe
    simp only [hawake, Bool.false_eq_true, if_false]
    generalize write ip t uname s.book = observed at hobserved hothers hsettings
    obtain ⟨hattempts, hwindow⟩ : observed.1.toleranceAttempts = s.book.toleranceAttempts ∧
        observed.1.toleranceWindow = s.book.toleranceWindow :=
      ⟨congrArg Prod.fst hsettings, congrArg (fun x => x.2.1) hsettings⟩
    have hquiet : (∀ times, observed.1.entries.get? ip = some (.seen times) →
          times.Sublist (attemptsSince ip s.log ++ [t]) ∧ times.length ≤ s.book.toleranceAttempts) →
        Evident { s with book := observed.1, clock := t, log := .attempt ip t :: s.log } := by
      intro hentry
      refine ⟨?_, fun ip' times h => ?_, hordered, hpositive⟩
      · simp only
        rw [hattempts, hwindow]
        exact hs.backed
      · simp only at h ⊢
        rw [hattempts, attemptsSince_attempt]
        split_ifs with hip
        · exact hip ▸ hentry times (hip ▸ h)
        · exact hothers ip' (fun h => hip h.symm) times h
    have hreport : ∀ report : Report T, report.ip = ip → observed.1 = s.book.set ip (.reported t) →
        Backed s.book.toleranceAttempts s.book.toleranceWindow (.report report :: .attempt ip t :: s.log) →
        Evident { s with book := observed.1, clock := t, log := .report report :: .attempt ip t :: s.log } := by
      intro report hip hbook hbacked
      refine ⟨?_, fun ip' times h => ?_, fun ip' => ?_, hpositive⟩
      · simp only
        rw [hattempts, hwindow]
        exact hbacked
      · have hne : ip' ≠ ip := fun heq => by
          simp only [heq, hbook, hset] at h
          cases h
        simp only
        rw [hattempts, attemptsSince, if_neg (fun h => hne (h.symm.trans hip)), attemptsSince_attempt,
          if_neg (Ne.symm hne)]
        exact hothers ip' hne times h
      · simp only
        rw [attemptsSince]
        split_ifs
        · exact ⟨List.Pairwise.nil, fun _ h => absurd h List.not_mem_nil⟩
        · exact hordered ip'
    cases hobserved with
    | ignored =>
      refine hquiet fun times h => ?_
      obtain ⟨hsub, hlength⟩ := hs.seen ip times h
      exact ⟨hsub.trans (List.sublist_append_left _ _), hlength⟩
    | started =>
      refine hquiet fun times h => ?_
      obtain rfl : s.book.append [] t = times := by simpa using (hset _).symm.trans h
      obtain ⟨hsub, hlength⟩ := append_sublist (l := s.book) [] t
      exact ⟨hsub.trans (List.sublist_append_right _ _), hlength⟩
    | @continued old hseen =>
      refine hquiet fun times h => ?_
      obtain rfl : s.book.unexpired t (s.book.append old t) = times := by simpa using (hset _).symm.trans h
      obtain ⟨hold, -⟩ := hs.seen ip old hseen
      obtain ⟨hsub, hlength⟩ := append_sublist (l := s.book) old t
      have hunexpired := unexpired_sublist (l := s.book) t (s.book.append old t)
      exact ⟨hunexpired.trans (hsub.trans (hold.append_right _)), hunexpired.length_le.trans hlength⟩
    | single uname => exact hreport _ rfl rfl hs.backed
    | @multiple old first hseen hfirst hlast henough =>
      obtain ⟨hold, -⟩ := hs.seen ip old hseen
      obtain ⟨hsub, hlength⟩ := append_sublist (l := s.book) old t
      have hunexpired := unexpired_sublist (l := s.book) t (s.book.append old t)
      have happend : (s.book.append old t).Sublist (attemptsSince ip (.attempt ip t :: s.log)) := by
        rw [hself]
        exact hsub.trans (hold.append_right _)
      obtain ⟨hsorted, hbound⟩ := hordered ip
      refine hreport _ rfl rfl ⟨⟨_, hunexpired.trans happend, ?_, hfirst, hlast, fun x hx => ⟨?_, ?_⟩⟩, hs.backed⟩
      · exact Nat.le_antisymm (hunexpired.length_le.trans hlength) henough
      · exact unexpired_recent (hsorted.sublist happend)
          (fun y hy => ((hbound y (happend.subset hy)).1).ne') x hx
      · exact (hbound x (happend.subset (hunexpired.subset hx))).2

theorem evident_step {e : Event T} (hs : Evident s) (h : step s e = some s') : Evident s' := by
  unfold step at h
  split_ifs at h with hclock
  have hlater : ∀ t, s.clock ≤ t → ∀ ip, (attemptsSince ip s.log).Pairwise (· ≤ ·) ∧
      ∀ x ∈ attemptsSince ip s.log, 0 < x ∧ x ≤ t := fun t ht ip =>
    ⟨(hs.ordered ip).1, fun x hx => ⟨((hs.ordered ip).2 x hx).1, ((hs.ordered ip).2 x hx).2.trans ht⟩⟩
  cases e with
  | login ip t uname =>
    cases h
    exact evident_observe hs hclock
  | cleanup t =>
    cases h
    exact evident_cleanup hs rfl rfl hclock s.alarms
  | limited t retry cancels =>
    cases h
    cases cancels with
    | true => exact evident_cleanup (l := { s.book with sleeping := true, sleepUntil := t + retry }) hs rfl rfl hclock _
    | false => exact ⟨hs.backed, hs.seen, hlater t hclock, hs.clock.trans_le hclock⟩
  | wakeup t =>
    simp only at h
    split_ifs at h
    cases h
    exact ⟨hs.backed, hs.seen, hlater t hclock, hs.clock.trans_le hclock⟩

end

/-- **What a report stands for**: as many attempts as are tolerated, since the last report of the address, all in the
window that ends with the last of them. No attempt counts for two reports. -/
theorem reports_backed {toleranceAttempts : Nat} {toleranceWindow rereportAfter clock : T} (hclock : 0 < clock)
    {es : List (Event T)} {s : State T}
    (hrun : run step (start toleranceAttempts toleranceWindow rereportAfter clock) es = some s) :
    Backed toleranceAttempts (60 * toleranceWindow) s.log := by
  have hstart : Evident (start toleranceAttempts toleranceWindow rereportAfter clock) :=
    ⟨trivial, fun _ _ h => (by cases h), fun _ => ⟨List.Pairwise.nil, fun _ h => absurd h List.not_mem_nil⟩, hclock⟩
  have hbacked := (run_inv' (fun _ _ _ hs h => evident_step hs h) hstart hrun).backed
  have hsettings := settings_run hrun
  have hattempts : s.book.toleranceAttempts = toleranceAttempts := congrArg Prod.fst hsettings
  have hwindow : s.book.toleranceWindow = 60 * toleranceWindow := congrArg (fun x => x.2.1) hsettings
  rwa [hattempts, hwindow] at hbacked

theorem sampleEnd_backed : Backed 2 (60 * 120) sampleEnd.log :=
  reports_backed (show (0 : Int) < 100 by decide) (show run step sampleStart sampleEvents = some sampleEnd from rfl)

/-! ## Who is forgotten -/

/-- There is a cleanup between any two attempts of the address, and before the first one if one is `pending`. -/
def Cleaned (ip : String) : Bool → List (Event T) → Prop
  | _, [] => True
  | pending, .login ip' _ _ :: es => if ip' = ip then pending = false ∧ Cleaned ip true es else Cleaned ip pending es
  | _, .cleanup _ :: es => Cleaned ip false es
  | pending, _ :: es => Cleaned ip pending es

/-- The logbook has one attempt of the address at most, and none after a cleanup. -/
structure Slow (ip : String) (pending : Bool) (s : State T) : Prop where
  entry : s.book.entries.get? ip = none ∨ pending = true ∧ ∃ t, s.book.entries.get? ip = some (.seen [t])
  unreported : ∀ r, Happening.report r ∈ s.log → r.ip ≠ ip
  tolerant : 1 < s.book.toleranceAttempts

section
variable {s s' : State T} {ip : String} {pending : Bool}

/-- One attempt does not survive a cleanup. -/
theorem get?_cleanup_of_slow {l : LogBook T}
    (h : l.entries.get? ip = none ∨ ∃ t, l.entries.get? ip = some (.seen [t])) (now : T) :
    (l.cleanup now).entries.get? ip = none := by
  rw [get?_cleanup]
  rcases h with h | ⟨t, h⟩
  · rw [h]
    rfl
  · rw [h]
    rfl

omit [CommRing T] [LinearOrder T] in
theorem Slow.few (h : Slow ip pending s) :
    s.book.entries.get? ip = none ∨ ∃ t, s.book.entries.get? ip = some (.seen [t]) := h.entry.imp_right And.right

theorem Observed.report_ip {l : LogBook T} {t : T} {p : LogBook T × Option (Report T)} (h : Observed l ip t p)
    {r : Report T} (hr : p.2 = some r) : r.ip = ip := by
  cases h with
  | ignored => cases hr
  | started => cases hr
  | continued => cases hr
  | single => cases hr; rfl
  | multiple => cases hr; rfl

/-- The reports after an attempt. -/
theorem report_mem_observe {ip' : String} {t : T} {uname : String} {r : Report T}
    (h : Happening.report r ∈ (s.observe ip' t uname).log) : r.ip = ip' ∧ (write ip' t uname s.book).2 = some r ∨
      Happening.report r ∈ s.log := by
  unfold State.observe at h
  simp only at h
  rcases List.mem_append.mp h with h | h
  · left
    obtain ⟨r', hr', hr⟩ := Option.map_eq_some_iff.mp (Option.mem_toList.mp h)
    cases hr
    exact ⟨observed_write.report_ip hr', hr'⟩
  · right
    split_ifs at h
    · exact h
    · exact (List.mem_cons.mp h).resolve_left fun heq => by cases heq

theorem slow_other {ip' : String} {t : T} {uname : String} (hs : Slow ip pending s) (hne : ip' ≠ ip) :
    Slow ip pending (s.observe ip' t uname) := by
  have hobserved : Observed s.book ip' t (write ip' t uname s.book) := observed_write
  refine ⟨?_, fun r hr => ?_, ?_⟩
  · change (write ip' t uname s.book).1.entries.get? ip = none ∨
      _ ∧ ∃ x, (write ip' t uname s.book).1.entries.get? ip = _
    rw [hobserved.get?_of_ne (Ne.symm hne)]
    exact hs.entry
  · rcases report_mem_observe hr with ⟨hip, -⟩ | hr
    · exact fun h => hne (hip.symm.trans h)
    · exact hs.unreported r hr
  · exact hs.tolerant.trans_eq (congrArg Prod.fst hobserved.settings).symm

theorem slow_self {t : T} {uname : String} (hs : Slow ip false s) : Slow ip true (s.observe ip t uname) := by
  have hnone : s.book.entries.get? ip = none := hs.entry.resolve_right fun h => by cases h.1
  have happend : s.book.append [] t = [t] := by
    have hzero : 1 - s.book.toleranceAttempts = 0 := Nat.sub_eq_zero_of_le hs.tolerant.le
    unfold LogBook.append
    rw [List.nil_append, List.length_singleton, hzero, List.drop_zero]
  have hwrite : write ip t uname s.book = (s.book, none) ∨
      write ip t uname s.book = (s.book.set ip (.seen [t]), none) := by
    unfold write
    by_cases hsleeping : s.book.sleeping = true
    · exact .inl (if_pos hsleeping)
    · right
      rw [if_neg hsleeping, if_neg (Nat.not_le.mpr hs.tolerant)]
      unfold tolerantObserver
      rw [hnone, happend]
  refine ⟨?_, fun r hr => ?_, ?_⟩
  · change (write ip t uname s.book).1.entries.get? ip = none ∨
      _ ∧ ∃ x, (write ip t uname s.book).1.entries.get? ip = _
    rcases hwrite with hwrite | hwrite
    · rw [hwrite]
      exact .inl hnone
    · rw [hwrite]
      right
      unfold LogBook.set
      rw [OrderedDict.get?_set, if_pos rfl]
      exact ⟨rfl, t, rfl⟩
  · rcases report_mem_observe hr with ⟨-, hr⟩ | hr
    · rcases hwrite with hwrite | hwrite <;> rw [hwrite] at hr <;> cases hr
    · exact hs.unreported r hr
  · have hobserved : Observed s.book ip t (write ip t uname s.book) := observed_write
    exact hs.tolerant.trans_eq (congrArg Prod.fst hobserved.settings).symm

theorem slow_run {es : List (Event T)} (hs : Slow ip pending s) (hcleaned : Cleaned ip pending es)
    (hrun : run step s es = some s') : ∀ r, Happening.report r ∈ s'.log → r.ip ≠ ip := by
  induction es generalizing s pending with
  | nil =>
    cases hrun
    exact hs.unreported
  | cons e es ih =>
    obtain ⟨u, hu, hrest⟩ := run_cons.mp hrun
    unfold step at hu
    split_ifs at hu
    cases e with
    | login ip' t uname =>
      cases hu
      rw [Cleaned] at hcleaned
      split_ifs at hcleaned with hip
      · obtain ⟨rfl, hcleaned⟩ := hcleaned
        subst hip
        exact ih (slow_self hs) hcleaned hrest
      · exact ih (slow_other hs hip) hcleaned hrest
    | cleanup t =>
      cases hu
      refine ih ?_ hcleaned hrest
      exact ⟨.inl (get?_cleanup_of_slow hs.few t), hs.unreported, hs.tolerant⟩
    | limited t retry cancels =>
      cases hu
      refine ih ?_ hcleaned hrest
      cases cancels with
      | true =>
        have hnone := get?_cleanup_of_slow (l := { s.book with sleeping := true, sleepUntil := t + retry }) hs.few t
        exact ⟨.inl hnone, hs.unreported, hs.tolerant⟩
      | false => exact ⟨hs.entry, hs.unreported, hs.tolerant⟩
    | wakeup t =>
      simp only at hu
      split_ifs at hu
      cases hu
      refine ih ?_ hcleaned hrest
      exact ⟨hs.entry, hs.unreported, hs.tolerant⟩

end

/-- **A slow address is never reported**, however many attempts it makes: one that has a cleanup between any two of its
attempts, though attempts are tolerated for a window of hours. -/
theorem slow_never_reported {toleranceAttempts : Nat} (htolerant : 1 < toleranceAttempts)
    {toleranceWindow rereportAfter clock : T} {ip : String} {es : List (Event T)} (hcleaned : Cleaned ip false es)
    {s : State T} (hrun : run step (start toleranceAttempts toleranceWindow rereportAfter clock) es = some s) :
    ∀ r, Happening.report r ∈ s.log → r.ip ≠ ip :=
  slow_run ⟨.inl rfl, fun _ h => absurd h List.not_mem_nil, htolerant⟩ hcleaned hrun

/-- Six attempts in an hour, where two are tolerated. -/
def slowEvents : List (Event Int) :=
  (List.range 6).flatMap fun n => [.login "192.0.2.7" (600 * n + 101) "root", .cleanup (600 * n + 700)]

theorem slowEvents_unreported : (run step sampleStart slowEvents).isSome = true ∧
    ∀ r, Happening.report r ∈ ((run step sampleStart slowEvents).getD sampleStart).log → r.ip ≠ "192.0.2.7" := by
  have hrun : run step sampleStart slowEvents = some ((run step sampleStart slowEvents).getD sampleStart) := rfl
  refine ⟨by rw [hrun]; rfl, slow_never_reported (by decide) ?_ hrun⟩
  simp [slowEvents, List.range, List.range.loop, Cleaned]

end Cowrie.AbuseIpdb
