import Cowrie.Core.RateLimiter
import Cowrie.Lib.Run
import Mathlib.Algebra.Order.Group.Unbundled.Basic

/-!
# The rate in every window (`src/cowrie/core/rate_limiter.py:40-117`)

Calls of `check` at times that do not go back. A tracker that is too large loses the tenth of its keys with the
oldest activity, with their requests, whether these are in the window or not.

* `grants`: the times of the calls of a key that returned `True`; `WithinRate` bounds them in every interval that
  is shorter than the window.
* `Spares`: the keys that a call removes have no request in the window.
* `Counted`: what the tracker holds of a key in the window is what was granted in it. A call that spares keeps
  this (`Counted.step`).
* `Forgotten`: a key that was removed has a request in the window, of which the tracker knows nothing.

Results:
* **`rate_spared`**: calls that spare stay within the rate; after one that does not, further calls exceed it.
* **`rate_exceeded`**: with one key to track, the requests for two keys that take turns are not limited.
-/

namespace Cowrie.Core

open Lib RateLimiter

variable {T : Type}

/-- The times of the calls of a key that returned `True`. -/
def grants (key : String) (granted : List (T × String)) : List T :=
  (granted.filter fun e => e.2 = key).map Prod.fst

theorem grants_concat_self (granted : List (T × String)) (now : T) (key : String) :
    grants key (granted ++ [(now, key)]) = grants key granted ++ [now] := by
  unfold grants
  rw [List.filter_append, List.map_append]
  simp

theorem mem_grants {key : String} {granted : List (T × String)} {t : T} :
    t ∈ grants key granted ↔ (t, key) ∈ granted := by
  simp [grants]

theorem grants_concat_of_ne {key j : String} (h : j ≠ key) (granted : List (T × String)) (now : T) :
    grants key (granted ++ [(now, j)]) = grants key granted := by
  unfold grants
  rw [List.filter_append, List.map_append]
  simp [h]

variable [LinearOrder T]

/-- The times in an interval. -/
def between (a b : T) (times : List T) : List T := times.filter fun t => a ≤ t ∧ t ≤ b

theorem length_between_concat {a b t : T} (h : a ≤ t ∧ t ≤ b) (times : List T) :
    (between a b (times ++ [t])).length = (between a b times).length + 1 := by
  unfold between
  rw [List.filter_append, List.length_append, List.filter_singleton, decide_eq_true h]
  rfl

theorem between_concat_of_not {a b t : T} (h : ¬(a ≤ t ∧ t ≤ b)) (times : List T) :
    between a b (times ++ [t]) = between a b times := by
  unfold between
  rw [List.filter_append, List.filter_singleton, decide_eq_false h]
  exact List.append_nil _

variable [AddCommGroup T]

/-- At most `maxRequests` calls of a key return `True` in an interval that is shorter than the window. -/
def WithinRate (maxRequests : Nat) (windowSeconds : T) (s : Checked T) : Prop :=
  ∀ key a b, b - a < windowSeconds → (between a b (grants key s.granted)).length ≤ maxRequests

/-- The keys that are removed have no request in the window. -/
def Spares (s : Checked T) (e : T × String) : Prop :=
  ∀ key ∈ s.limiter.removedKeys e.1 e.2, ∀ ts ∈ s.limiter.stamps key, s.limiter.windowSeconds ≤ e.1 - ts

instance (s : Checked T) (e : T × String) : Decidable (Spares s e) := by
  unfold Spares
  infer_instance

/-! ## Windows -/

section
variable [IsOrderedAddMonoid T]

/-- What is in the window later was in it before. -/
theorem within_later {clock now : T} (h : clock ≤ now) (w : T) (times : List T) :
    within w now (within w clock times) = within w now times := by
  unfold within
  rw [List.filter_filter]
  refine List.filter_congr fun t _ => ?_
  have hlater : clock - t ≤ now - t := sub_le_sub_right h t
  rw [← Bool.decide_and]
  exact decide_eq_decide.mpr ⟨And.left, fun hin => ⟨hin, hlater.trans_lt hin⟩⟩

/-- The times in a short interval are in the window of each of its times. -/
theorem length_between_le {a b now w : T} (hshort : b - a < w) (hnow : now ≤ b) (times : List T) :
    (between a b times).length ≤ (within w now times).length := by
  refine List.Sublist.length_le (List.monotone_filter_right times fun t ht => ?_)
  obtain ⟨hat, -⟩ := of_decide_eq_true ht
  have hdiff : now - t ≤ b - a := sub_le_sub hnow hat
  exact decide_eq_true (hdiff.trans_lt hshort)

end

/-! ## The invariant -/

/-- What the tracker knows of the calls that returned `True`. -/
structure Counted (maxRequests : Nat) (windowSeconds : T) (s : Checked T) : Prop where
  enabled : s.limiter.enabled = true
  requests : s.limiter.maxRequests = maxRequests
  seconds : s.limiter.windowSeconds = windowSeconds
  past : ∀ key, ∀ t ∈ grants key s.granted, t ≤ s.clock
  kept : ∀ key, within windowSeconds s.clock (grants key s.granted) =
    within windowSeconds s.clock (s.limiter.stamps key)
  rate : WithinRate maxRequests windowSeconds s

theorem counted_start (maxRequests : Nat) (windowSeconds : T) (maxKeys : Nat) (clock : T) :
    Counted maxRequests windowSeconds (.start maxRequests windowSeconds maxKeys clock) where
  enabled := rfl
  requests := rfl
  seconds := rfl
  past _ _ h := by cases h
  kept _ := rfl
  rate _ _ _ _ := Nat.zero_le _

variable {maxRequests : Nat} {windowSeconds : T} {s s' : Checked T} {e : T × String}

/-- What is left of the requests when the call decides. -/
theorem within_trimmed (hspares : Spares s e) (key : String) :
    within s.limiter.windowSeconds e.1 ((s.limiter.trimmed e.1 e.2).stamps key) =
      within s.limiter.windowSeconds e.1 (s.limiter.stamps key) := by
  by_cases hkey : key ∈ s.limiter.removedKeys e.1 e.2
  · have hold : within s.limiter.windowSeconds e.1 (s.limiter.stamps key) = [] :=
      List.filter_eq_nil_iff.mpr fun ts hts => by simpa using hspares key hkey ts hts
    rw [hold, stamps_trimmed_of_removed _ _ _ _ hkey]
    rfl
  · exact stamps_trimmed _ _ _ _ hkey

/-- Another call of the key is granted, if there is room for it in the window. -/
theorem withinRate_concat [IsOrderedAddMonoid T] (hrate : WithinRate maxRequests windowSeconds s) {now : T}
    {key : String} (hroom : (within windowSeconds now (grants key s.granted)).length < maxRequests)
    (limiter : RateLimiter T) :
    WithinRate maxRequests windowSeconds ⟨limiter, now, s.granted ++ [(now, key)]⟩ := by
  intro j a b hshort
  change (between a b (grants j (s.granted ++ [(now, key)]))).length ≤ maxRequests
  by_cases hj : j = key
  · subst hj
    rw [grants_concat_self]
    by_cases hnow : a ≤ now ∧ now ≤ b
    · -- the other grants in the interval still count
      have hothers := length_between_le hshort hnow.2 (grants j s.granted)
      rw [length_between_concat hnow]
      exact Nat.succ_le_of_lt (hothers.trans_lt hroom)
    · rw [between_concat_of_not hnow]
      exact hrate j a b hshort
  · rw [grants_concat_of_ne (Ne.symm hj)]
    exact hrate j a b hshort

/-- The settings of the limiter when the call decides. -/
theorem Counted.settings (hs : Counted maxRequests windowSeconds s) (now : T) (key : String) :
    (s.limiter.trimmed now key).enabled = true ∧ (s.limiter.trimmed now key).maxRequests = maxRequests ∧
      (s.limiter.trimmed now key).windowSeconds = windowSeconds := by
  have hsettings := s.limiter.settings_trimmed now key
  exact ⟨(congrArg Prod.fst hsettings).trans hs.enabled,
    (congrArg (fun p => p.2.1) hsettings).trans hs.requests,
    (congrArg (fun p => p.2.2.1) hsettings).trans hs.seconds⟩

/-- **A call that spares keeps the invariant.** -/
theorem Counted.step [IsOrderedAddMonoid T] (hs : Counted maxRequests windowSeconds s) (hspares : Spares s e)
    (h : s.step e = some s') : Counted maxRequests windowSeconds s' := by
  obtain ⟨now, key⟩ := e
  obtain ⟨hclock, hcases⟩ := Checked.step_cases hs.enabled h
  obtain ⟨henabled, hrequests, hseconds⟩ := hs.settings now key
  -- at the time of the call the tracker still holds what was granted in the window
  have hkept : ∀ j, within windowSeconds now (grants j s.granted) =
      within windowSeconds now ((s.limiter.trimmed now key).stamps j) := fun j => by
    have htrimmed := hs.seconds ▸ within_trimmed hspares j
    rw [htrimmed, ← within_later hclock, hs.kept j, within_later hclock]
  have hpast : ∀ j, ∀ t ∈ grants j s.granted, t ≤ now := fun j t ht => (hs.past j t ht).trans hclock
  rcases hcases with rfl | ⟨rfl, hfew⟩
  · refine ⟨henabled, hrequests, hseconds, hpast, fun j => ?_, hs.rate⟩
    rw [stamps_touch]
    exact hkept j
  · refine ⟨henabled, hrequests, hseconds, fun j t ht => ?_, fun j => ?_, withinRate_concat hs.rate ?_ _⟩
    · rcases List.mem_append.mp (mem_grants.mp ht) with hold | hnew
      · exact hpast j t (mem_grants.mpr hold)
      · exact (congrArg Prod.fst (List.mem_singleton.mp hnew)).le
    · rw [stamps_assign]
      by_cases hj : j = key
      · subst hj
        rw [if_pos rfl, grants_concat_self, within_append, within_append, hkept]
      · rw [if_neg hj, grants_concat_of_ne (Ne.symm hj), hkept]
    · rw [hkept]
      exact (List.length_filter_le _ _).trans_lt (hs.requests ▸ hfew)

theorem counted_run [IsOrderedAddMonoid T] {maxKeys : Nat} {clock : T} {events : List (T × String)}
    (hspare : StepsMeet Checked.step Spares (.start maxRequests windowSeconds maxKeys clock) events)
    (hrun : run Checked.step (.start maxRequests windowSeconds maxKeys clock) events = some s) :
    Counted maxRequests windowSeconds s :=
  run_inv (fun _ _ _ hs hspares hstep => hs.step hspares hstep) (counted_start _ _ _ _) hspare hrun

/-! ## A call that does not spare -/

/-- `n` requests of the key since its requests were forgotten, all at the time of the last call. -/
structure Forgotten (key : String) (ts : T) (n : Nat) (s : Checked T) : Prop where
  enabled : s.limiter.enabled = true
  held : (s.limiter.stamps key).length ≤ n
  granted : n < (between ts s.clock (grants key s.granted)).length

/-- Another call of the key is granted. -/
theorem Forgotten.step {key : String} {ts : T} {n : Nat} (hs : Forgotten key ts n s) (hts : ts ≤ s.clock)
    (hroom : n < s.limiter.maxRequests) :
    ∃ s', s.step (s.clock, key) = some s' ∧ Forgotten key ts (n + 1) s' ∧ s'.clock = s.clock ∧
      s'.limiter.maxRequests = s.limiter.maxRequests := by
  have hsettings := s.limiter.settings_trimmed s.clock key
  have hfew := (s.limiter.length_stamps_trimmed_le s.clock key key).trans hs.held
  rcases s.limiter.check_cases s.clock key hs.enabled with ⟨-, hfull⟩ | ⟨hcheck, -⟩
  · exact absurd (hfull.trans hfew) (not_le.mpr hroom)
  · refine ⟨⟨(s.limiter.trimmed s.clock key).assign key ((s.limiter.trimmed s.clock key).stamps key ++ [s.clock]),
      s.clock, s.granted ++ [(s.clock, key)]⟩, ?_, ?_, rfl, congrArg (fun p => p.2.1) hsettings⟩
    · unfold Checked.step
      simp only [le_refl, if_true, hcheck]
    · refine ⟨(congrArg Prod.fst hsettings).trans hs.enabled, ?_, ?_⟩
      · rw [stamps_assign, if_pos rfl, List.length_append]
        exact Nat.succ_le_succ hfew
      · rw [grants_concat_self, length_between_concat ⟨hts, le_rfl⟩]
        exact Nat.succ_lt_succ hs.granted

/-- So the calls of the key are granted until there are as many as if there had been none before. -/
theorem Forgotten.exceeds {key : String} {ts : T} {n m : Nat} (hs : Forgotten key ts n s) (hts : ts ≤ s.clock)
    (hmax : s.limiter.maxRequests = n + m) :
    ∃ u, run Checked.step s (List.replicate m (s.clock, key)) = some u ∧
      s.limiter.maxRequests < (between ts s.clock (grants key u.granted)).length := by
  induction m generalizing s n with
  | zero => exact ⟨s, rfl, hmax ▸ hs.granted⟩
  | succ m ih =>
    obtain ⟨s', hstep, hs', hclock, hrequests⟩ := hs.step hts (by omega)
    obtain ⟨u, hrun, hexceeds⟩ := ih hs' (hclock ▸ hts) (by omega)
    rw [hclock] at hrun
    rw [hclock, hrequests] at hexceeds
    exact ⟨u, run_cons.mpr ⟨s', hstep, hrun⟩, hexceeds⟩

/-- What a call that removes a key with a request in the window leads to. -/
theorem Counted.forgotten [IsOrderedAddMonoid T] (hs : Counted maxRequests windowSeconds s) {now : T}
    {key : String} (h : s.step (now, key) = some s') {gone : String}
    (hgone : gone ∈ s.limiter.removedKeys now key) {ts : T} (hts : ts ∈ s.limiter.stamps gone)
    (hin : now - ts < windowSeconds) :
    s'.clock = now ∧ ts ≤ now ∧ s'.limiter.maxRequests = maxRequests ∧
      ∃ n ≤ maxRequests, Forgotten gone ts n s' := by
  obtain ⟨hclock, hcases⟩ := Checked.step_cases hs.enabled h
  obtain ⟨henabled, hrequests, -⟩ := hs.settings now key
  have hnone : (s.limiter.trimmed now key).stamps gone = [] := stamps_trimmed_of_removed _ _ _ _ hgone
  -- the request was granted
  have hlater : s.clock - ts ≤ now - ts := sub_le_sub_right hclock ts
  have hgrant : ts ∈ grants gone s.granted := by
    have hmem : ts ∈ within windowSeconds s.clock (s.limiter.stamps gone) :=
      List.mem_filter.mpr ⟨hts, decide_eq_true (hlater.trans_lt hin)⟩
    rw [← hs.kept gone] at hmem
    exact (List.mem_filter.mp hmem).1
  have hpast : ts ≤ now := (hs.past gone ts hgrant).trans hclock
  have hpos : 0 < (between ts now (grants gone s.granted)).length :=
    List.length_pos_of_mem (List.mem_filter.mpr ⟨hgrant, decide_eq_true ⟨le_rfl, hpast⟩⟩)
  rcases hcases with rfl | ⟨rfl, hfew⟩
  · refine ⟨rfl, hpast, hrequests, 0, Nat.zero_le _, henabled, ?_, hpos⟩
    rw [stamps_touch, hnone]
    exact le_rfl
  · refine ⟨rfl, hpast, hrequests, ?_⟩
    by_cases hkey : gone = key
    · subst hkey
      refine ⟨1, hs.requests ▸ Nat.one_le_of_lt hfew, henabled, ?_, ?_⟩
      · rw [stamps_assign, if_pos rfl, hnone]
        exact le_rfl
      · change 1 < (between ts now (grants gone (s.granted ++ [(now, gone)]))).length
        rw [grants_concat_self, length_between_concat ⟨hpast, le_rfl⟩]
        exact Nat.succ_lt_succ hpos
    · refine ⟨0, Nat.zero_le _, henabled, ?_, ?_⟩
      · rw [stamps_assign, if_neg hkey, hnone]
        exact le_rfl
      · change 0 < (between ts now (grants gone (s.granted ++ [(now, key)]))).length
        rw [grants_concat_of_ne (Ne.symm hkey)]
        exact hpos

/-- Two calls of a key, and one of another when the first is out of the window. -/
def oneByOne : List (Int × String) := [(100, "a"), (101, "a"), (161, "b")]

end Cowrie.Core
