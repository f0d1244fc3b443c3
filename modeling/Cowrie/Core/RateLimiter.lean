import Cowrie.Lib.OrderedDict
import Mathlib.Algebra.Order.Group.Int
import Mathlib.Data.List.Sort

/-!
# The rate limiter (`src/cowrie/core/rate_limiter.py`)

`RateLimiter.check` says whether another request to a destination is allowed. The tracker is a
`defaultdict(list)`: to read a key that is not there inserts it with an empty list (`touch`). Times are of any
ordered group; `now` is what `time.time()` returns in the call.

* `cleaned`, `refreshed`, `trimmed` are the state of a call after the periodic cleanup, after the old requests
  for its key are gone, and after the check of the size; `check` decides in the last of them.
* `sortedKeys` and `oldestKeys` are `sorted_keys` and `sorted_keys[:keys_to_remove]` of `_remove_oldest_keys`.

Results:
* `stamps_cleaned`, `stamps_refreshed`, `stamps_trimmed`: the requests that each part of a call keeps. Only
  `_remove_oldest_keys` forgets one that is in the window.
* `check_cases`: what a call can do.
-/

namespace Cowrie.Core

open Lib

variable {T : Type}

structure RateLimiter (T : Type) where
  enabled : Bool := true
  maxRequests : Nat := 3
  windowSeconds : T
  maxKeys : Nat := 1000
  requestTracker : OrderedDict String (List T) := .empty
  lastCleanup : T
  deriving DecidableEq

namespace RateLimiter

/-- `self.request_tracker[key]`. -/
def stamps (r : RateLimiter T) (key : String) : List T := (r.requestTracker.get? key).getD []

/-- `self.request_tracker[key] = timestamps`. -/
def assign (key : String) (timestamps : List T) (r : RateLimiter T) : RateLimiter T :=
  { r with requestTracker := r.requestTracker.set key timestamps }

/-- What reading a key leaves. -/
def touch (key : String) (r : RateLimiter T) : RateLimiter T := r.assign key (r.stamps key)

variable [AddCommGroup T] [LinearOrder T]

/-- The timestamps within the window. -/
def within (windowSeconds now : T) (timestamps : List T) : List T :=
  timestamps.filter fun ts => now - ts < windowSeconds

/-- `_cleanup_all`. -/
def cleanupAll (now : T) (r : RateLimiter T) : RateLimiter T :=
  let kept := r.requestTracker.mapValues (within r.windowSeconds now)
  { r with requestTracker := kept.filter fun _ timestamps => !timestamps.isEmpty }

/-- The entry of a key in `key_latest_activity`. -/
def latestActivity (timestamps : List T) : T := timestamps.max?.getD 0

/-- The keys by their latest activity. -/
def sortedKeys (tracker : OrderedDict String (List T)) : List (String × T) :=
  (tracker.mapValues latestActivity).entries.insertionSort fun x y => x.2 ≤ y.2

/-- The keys that `_remove_oldest_keys` removes. -/
def oldestKeys (tracker : OrderedDict String (List T)) : List String :=
  let keysToRemove := max 1 ((sortedKeys tracker).length / 10)
  ((sortedKeys tracker).take keysToRemove).map Prod.fst

/-- `_remove_oldest_keys`. -/
def removeOldestKeys (r : RateLimiter T) : RateLimiter T :=
  if r.requestTracker.size = 0 then r
  else { r with requestTracker := r.requestTracker.delAll (oldestKeys r.requestTracker) }

/-- The periodic cleanup. -/
def cleaned (now : T) (r : RateLimiter T) : RateLimiter T :=
  if r.windowSeconds < now - r.lastCleanup then { r.cleanupAll now with lastCleanup := now } else r

/-- Without the old requests for the key. -/
def refreshed (now : T) (key : String) (r : RateLimiter T) : RateLimiter T :=
  (r.cleaned now).assign key (within r.windowSeconds now ((r.cleaned now).stamps key))

/-- Checked for its size. -/
def trimmed (now : T) (key : String) (r : RateLimiter T) : RateLimiter T :=
  if r.maxKeys < (r.refreshed now key).requestTracker.size then (r.refreshed now key).removeOldestKeys
  else r.refreshed now key

/-- `check`. -/
def check (now : T) (key : String) (r : RateLimiter T) : Bool × RateLimiter T :=
  if r.enabled then
    let s := r.trimmed now key
    if s.maxRequests ≤ (s.stamps key).length then (false, s.touch key)
    else (true, s.assign key (s.stamps key ++ [now]))
  else (true, r)

/-! ## What each part of a call keeps -/

/-- The arguments of the constructor. -/
def settings (r : RateLimiter T) : Bool × Nat × T × Nat := (r.enabled, r.maxRequests, r.windowSeconds, r.maxKeys)

section
variable (r : RateLimiter T) (now : T) (key j : String)

theorem settings_cleaned : (r.cleaned now).settings = r.settings := by
  unfold cleaned
  split_ifs <;> rfl

theorem settings_trimmed : (r.trimmed now key).settings = r.settings := by
  have hrefreshed : (r.refreshed now key).settings = r.settings := r.settings_cleaned now
  unfold trimmed removeOldestKeys
  split_ifs <;> exact hrefreshed

omit [AddCommGroup T] [LinearOrder T] in
@[simp] theorem stamps_assign (timestamps : List T) :
    (r.assign key timestamps).stamps j = if j = key then timestamps else r.stamps j := by
  unfold stamps assign
  rw [OrderedDict.get?_set]
  split_ifs <;> rfl

omit [AddCommGroup T] [LinearOrder T] in
@[simp] theorem stamps_touch : (r.touch key).stamps j = r.stamps j := by
  unfold touch
  rw [stamps_assign]
  split_ifs with hj
  · rw [hj]
  · rfl

theorem stamps_cleanupAll : (r.cleanupAll now).stamps j = within r.windowSeconds now (r.stamps j) := by
  unfold stamps cleanupAll
  simp only [OrderedDict.get?_filter, OrderedDict.get?_mapValues]
  cases r.requestTracker.get? j with
  | none => rfl
  | some timestamps =>
    rw [Option.map_some, Option.filter_some]
    cases hkept : within r.windowSeconds now timestamps <;> simp [hkept]

theorem stamps_removeOldestKeys :
    r.removeOldestKeys.stamps j = if j ∈ oldestKeys r.requestTracker then [] else r.stamps j := by
  unfold removeOldestKeys
  split_ifs with hsize hremoved hremoved
  · -- an empty tracker
    have hnone : r.requestTracker.get? j = none := by
      refine OrderedDict.get?_eq_none_iff.mpr ?_
      rw [List.eq_nil_of_length_eq_zero ((OrderedDict.length_keys _).trans hsize)]
      exact List.not_mem_nil
    unfold stamps
    rw [hnone]
    rfl
  · rfl
  · unfold stamps
    simp only [OrderedDict.get?_delAll, if_pos hremoved, Option.getD_none]
  · unfold stamps
    simp only [OrderedDict.get?_delAll, if_neg hremoved]

end

theorem within_within (w now : T) (timestamps : List T) :
    within w now (within w now timestamps) = within w now timestamps := by
  unfold within
  rw [List.filter_filter]
  exact List.filter_congr fun _ _ => Bool.and_self _

theorem within_append (w now : T) (l l' : List T) : within w now (l ++ l') = within w now l ++ within w now l' :=
  List.filter_append ..

section
variable (r : RateLimiter T) (now : T) (key j : String)

/-- The periodic cleanup forgets no request in the window. -/
theorem stamps_cleaned :
    within r.windowSeconds now ((r.cleaned now).stamps j) = within r.windowSeconds now (r.stamps j) := by
  unfold cleaned
  split_ifs
  · change within r.windowSeconds now ((r.cleanupAll now).stamps j) = _
    rw [stamps_cleanupAll, within_within]
  · rfl

/-- Nor does the cleanup of the key. -/
theorem stamps_refreshed :
    within r.windowSeconds now ((r.refreshed now key).stamps j) = within r.windowSeconds now (r.stamps j) := by
  unfold refreshed
  rw [stamps_assign]
  split_ifs with hj
  · rw [within_within, stamps_cleaned, hj]
  · exact r.stamps_cleaned now j

/-- The keys that a call removes. -/
def removedKeys : List String :=
  if r.maxKeys < (r.refreshed now key).requestTracker.size then oldestKeys (r.refreshed now key).requestTracker
  else []

/-- **Only the keys that are removed lose requests in the window.** -/
theorem stamps_trimmed (h : j ∉ r.removedKeys now key) :
    within r.windowSeconds now ((r.trimmed now key).stamps j) = within r.windowSeconds now (r.stamps j) := by
  unfold trimmed
  unfold removedKeys at h
  split_ifs at h ⊢ with hsize
  · rw [stamps_removeOldestKeys, if_neg h, stamps_refreshed]
  · exact r.stamps_refreshed now key j

/-- A removed key has no requests. -/
theorem stamps_trimmed_of_removed (h : j ∈ r.removedKeys now key) : (r.trimmed now key).stamps j = [] := by
  unfold trimmed
  unfold removedKeys at h
  split_ifs at h ⊢ with hsize
  · rw [stamps_removeOldestKeys, if_pos h]
  · cases h

/-- No part of a call adds a request. -/
theorem length_stamps_trimmed_le : ((r.trimmed now key).stamps j).length ≤ (r.stamps j).length := by
  have hcleaned : ∀ i, ((r.cleaned now).stamps i).length ≤ (r.stamps i).length := fun i => by
    unfold cleaned
    split_ifs
    · change ((r.cleanupAll now).stamps i).length ≤ _
      rw [stamps_cleanupAll]
      exact List.length_filter_le _ _
    · exact le_rfl
  have hrefreshed : ((r.refreshed now key).stamps j).length ≤ (r.stamps j).length := by
    unfold refreshed
    rw [stamps_assign]
    split_ifs with hj
    · exact (List.length_filter_le _ _).trans (hj ▸ hcleaned key)
    · exact hcleaned j
  unfold trimmed
  split_ifs
  · rw [stamps_removeOldestKeys]
    split_ifs
    · exact Nat.zero_le _
    · exact hrefreshed
  · exact hrefreshed

/-- What a call of an enabled limiter can do. -/
theorem check_cases (henabled : r.enabled = true) :
    (r.check now key = (false, (r.trimmed now key).touch key) ∧
        r.maxRequests ≤ ((r.trimmed now key).stamps key).length) ∨
      (r.check now key = (true, (r.trimmed now key).assign key ((r.trimmed now key).stamps key ++ [now])) ∧
        ((r.trimmed now key).stamps key).length < r.maxRequests) := by
  have hmax : (r.trimmed now key).maxRequests = r.maxRequests :=
    congrArg (fun p => p.2.1) (r.settings_trimmed now key)
  unfold check
  rw [if_pos henabled]
  simp only [hmax]
  split_ifs with hfull
  · exact .inl ⟨rfl, hfull⟩
  · exact .inr ⟨rfl, not_le.mp hfull⟩

theorem settings_check : (r.check now key).2.settings = r.settings := by
  unfold check
  simp only
  split_ifs
  · exact r.settings_trimmed now key
  · exact r.settings_trimmed now key
  · rfl

end

end RateLimiter

/-! ## Calls one after the other -/

/-- A limiter that is called: the time of the last call and the calls that returned `True`. -/
structure Checked (T : Type) where
  limiter : RateLimiter T
  clock : T
  granted : List (T × String) := []
  deriving DecidableEq

/-- A new limiter. -/
def Checked.start (maxRequests : Nat) (windowSeconds : T) (maxKeys : Nat) (clock : T) : Checked T :=
  ⟨{ maxRequests, windowSeconds, maxKeys, lastCleanup := clock }, clock, []⟩

/-- A call, not before the last one. -/
def Checked.step [AddCommGroup T] [LinearOrder T] (s : Checked T) (e : T × String) : Option (Checked T) :=
  if s.clock ≤ e.1 then
    let r := s.limiter.check e.1 e.2
    some ⟨r.2, e.1, if r.1 then s.granted ++ [e] else s.granted⟩
  else none

/-- What a call of an enabled limiter leads to. -/
theorem Checked.step_cases [AddCommGroup T] [LinearOrder T] {s s' : Checked T} {now : T} {key : String}
    (henabled : s.limiter.enabled = true) (h : s.step (now, key) = some s') :
    s.clock ≤ now ∧
      (s' = ⟨(s.limiter.trimmed now key).touch key, now, s.granted⟩ ∨
        s' = ⟨(s.limiter.trimmed now key).assign key ((s.limiter.trimmed now key).stamps key ++ [now]), now,
            s.granted ++ [(now, key)]⟩ ∧
          ((s.limiter.trimmed now key).stamps key).length < s.limiter.maxRequests) := by
  unfold Checked.step at h
  split_ifs at h with hclock
  obtain rfl := Option.some.inj h
  refine ⟨hclock, ?_⟩
  rcases s.limiter.check_cases now key henabled with ⟨hcheck, -⟩ | ⟨hcheck, hfew⟩
  · exact .inl (by simp only [hcheck]; rfl)
  · exact .inr ⟨by simp only [hcheck]; rfl, hfew⟩

end Cowrie.Core
