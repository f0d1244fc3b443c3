import Cowrie.Core.RateLimiter
import Cowrie.Lib.Run

/-!
# The size of the tracker (`src/cowrie/core/rate_limiter.py:60-117`)

A call inserts its key before it checks the size, and the key may be one of those removed. `check` then reads it,
which inserts it once more, so a call that removes one key, its own, has not made room for it.

* `TrackerFits`: at most `max_keys` keys are tracked.
* `Overflows`: a call of a new key when `max_keys` keys are tracked, fewer than 19, all of them with a later
  activity than the 0 that stands for none.
* `mem_oldestKeys_iff`: when the key of a call is the one that is removed.

Results:
* **`trackerFits_iff`**: the tracker fits in every state of a run iff no call overflows.
* **`trackerFits_exceeded`**: two keys where there is one to track.
-/

namespace Cowrie.Core

open Lib RateLimiter
open scoped List

variable {T : Type} [AddCommGroup T] [LinearOrder T]

/-- At most `max_keys` keys are tracked. -/
def TrackerFits (s : Checked T) : Prop := s.limiter.requestTracker.size ≤ s.limiter.maxKeys

instance (s : Checked T) : Decidable (TrackerFits s) := by
  unfold TrackerFits
  infer_instance

/-- A new key, where the keys that are tracked are as many as they may be, and all more recent than it. -/
def Overflows (s : Checked T) (e : T × String) : Prop :=
  let tracker := (s.limiter.cleaned e.1).requestTracker
  s.limiter.enabled = true ∧ e.2 ∉ tracker.keys ∧ tracker.size = s.limiter.maxKeys ∧ s.limiter.maxKeys < 19 ∧
    ∀ entry ∈ tracker.entries, 0 < latestActivity entry.2

instance (s : Checked T) (e : T × String) : Decidable (Overflows s e) := by
  unfold Overflows
  infer_instance

/-! ## The first key in order -/

/-- The last element comes first if it is before all the others. -/
theorem head?_insertionSort_concat {α : Type} (r : α → α → Prop) [DecidableRel r] {l : List α} {x : α}
    (h : x ∉ l) :
    ((l ++ [x]).insertionSort r).head? = some x ↔ ∀ y ∈ l, ¬r y x := by
  induction l with
  | nil => simp
  | cons y l ih =>
    obtain ⟨hne, hout⟩ := not_or.mp (mt List.mem_cons.mpr h)
    rw [List.cons_append, List.insertionSort_cons, List.forall_mem_cons, ← ih hout]
    cases hsorted : (l ++ [x]).insertionSort r with
    | nil =>
      have hlength := congrArg List.length hsorted
      rw [List.length_insertionSort] at hlength
      simp at hlength
    | cons z sorted =>
      rw [List.orderedInsert]
      by_cases hyz : r y z
      · rw [if_pos hyz, List.head?_cons, List.head?_cons, Option.some.injEq, Option.some.injEq]
        exact ⟨fun heq => absurd heq.symm hne, fun ⟨hyx, hzx⟩ => absurd (hzx ▸ hyz) hyx⟩
      · rw [if_neg hyz, List.head?_cons, List.head?_cons, Option.some.injEq]
        exact ⟨fun heq => ⟨heq ▸ hyz, heq⟩, And.right⟩

section
variable (tracker : OrderedDict String (List T))

theorem keys_sorted_perm : (sortedKeys tracker).map Prod.fst ~ tracker.keys := by
  have hkeys : (tracker.mapValues latestActivity).entries.map Prod.fst = tracker.keys :=
    OrderedDict.keys_mapValues latestActivity tracker
  exact hkeys ▸ (List.perm_insertionSort _ _).map Prod.fst

theorem length_sortedKeys : (sortedKeys tracker).length = tracker.size :=
  (List.length_insertionSort _ _).trans (List.length_map _)

theorem oldestKeys_subset : oldestKeys tracker ⊆ tracker.keys := fun _ hkey =>
  (keys_sorted_perm tracker).subset ((List.take_sublist _ _).map Prod.fst |>.subset hkey)

theorem nodup_oldestKeys : (oldestKeys tracker).Nodup :=
  ((keys_sorted_perm tracker).nodup_iff.mpr tracker.nodup_keys).sublist ((List.take_sublist _ _).map Prod.fst)

theorem length_oldestKeys (h : 0 < tracker.size) : (oldestKeys tracker).length = max 1 (tracker.size / 10) := by
  unfold oldestKeys
  simp only [List.length_map, List.length_take, length_sortedKeys]
  omega

end

/-- **When the key of a call is removed**: it is the only one, and all the others are more recent. -/
theorem mem_oldestKeys_iff {tracker others : OrderedDict String (List T)} {key : String}
    (hentries : tracker.entries = others.entries ++ [(key, [])]) (hkey : key ∉ others.keys)
    (hsize : tracker.size < 20) :
    key ∈ oldestKeys tracker ↔ ∀ entry ∈ others.entries, 0 < latestActivity entry.2 := by
  have hlatest : (tracker.mapValues latestActivity).entries =
      (others.mapValues latestActivity).entries ++ [(key, 0)] := by
    change tracker.entries.map _ = _
    rw [hentries, List.map_append]
    rfl
  have hout : ∀ v, (key, v) ∉ (others.mapValues latestActivity).entries := fun v hv => by
    have hmem : key ∈ (others.mapValues latestActivity).keys := List.mem_map.mpr ⟨_, hv, rfl⟩
    exact hkey (OrderedDict.keys_mapValues latestActivity others ▸ hmem)
  have hone : max 1 ((sortedKeys tracker).length / 10) = 1 := by
    rw [length_sortedKeys]
    omega
  have hhead : key ∈ ((sortedKeys tracker).take 1).map Prod.fst ↔ (sortedKeys tracker).head? = some (key, 0) := by
    cases heq : sortedKeys tracker with
    | nil => simp
    | cons e rest =>
      obtain ⟨k, v⟩ := e
      have hmem : (k, v) ∈ (others.mapValues latestActivity).entries ++ [(key, 0)] := by
        rw [← hlatest]
        exact (List.mem_insertionSort _).mp (heq ▸ List.mem_cons_self : (k, v) ∈ sortedKeys tracker)
      simp only [List.take_succ_cons, List.take_zero, List.map_cons, List.map_nil, List.mem_singleton,
        List.head?_cons, Option.some.injEq, Prod.mk.injEq]
      refine ⟨fun hk => ?_, fun h => h.1.symm⟩
      subst hk
      rcases List.mem_append.mp hmem with hin | hin
      · exact absurd hin (hout v)
      · exact ⟨rfl, congrArg Prod.snd (List.mem_singleton.mp hin)⟩
  unfold oldestKeys
  simp only [hone]
  rw [hhead, sortedKeys, hlatest, head?_insertionSort_concat _ (hout 0)]
  simp only [OrderedDict.mapValues, List.forall_mem_map, not_le]

/-! ## One call -/

section
variable (r : RateLimiter T) (now : T) (key : String)

theorem size_cleaned_le : (r.cleaned now).requestTracker.size ≤ r.requestTracker.size := by
  unfold cleaned
  split_ifs
  · exact (List.length_filter_le _ _).trans (List.length_map _).le
  · exact le_rfl

theorem size_removeOldestKeys (h : 0 < r.requestTracker.size) :
    r.removeOldestKeys.requestTracker.size + max 1 (r.requestTracker.size / 10) = r.requestTracker.size := by
  unfold removeOldestKeys
  rw [if_neg (Nat.ne_of_gt h), ← length_oldestKeys _ h]
  exact OrderedDict.size_delAll (nodup_oldestKeys _) (oldestKeys_subset _)

theorem mem_removeOldestKeys (h : key ∈ r.requestTracker.keys) :
    key ∈ r.removeOldestKeys.requestTracker.keys ↔ key ∉ oldestKeys r.requestTracker := by
  have hpos : 0 < r.requestTracker.size := OrderedDict.length_keys r.requestTracker ▸ List.length_pos_of_mem h
  unfold removeOldestKeys
  rw [if_neg (Nat.ne_of_gt hpos), OrderedDict.keys_delAll, List.mem_filter, decide_eq_true_eq]
  exact and_iff_right h

theorem mem_refreshed : key ∈ (r.refreshed now key).requestTracker.keys := by
  unfold refreshed assign
  simp only [OrderedDict.keys_set]
  split_ifs with hkey
  · exact hkey
  · exact List.mem_append_right _ (List.mem_singleton_self key)

/-- A call ends with its key in the tracker. -/
theorem size_check (henabled : r.enabled = true) :
    (r.check now key).2.requestTracker.size =
      if key ∈ (r.trimmed now key).requestTracker.keys then (r.trimmed now key).requestTracker.size
      else (r.trimmed now key).requestTracker.size + 1 := by
  have hassign : ∀ timestamps, ((r.trimmed now key).assign key timestamps).requestTracker.size =
      if key ∈ (r.trimmed now key).requestTracker.keys then (r.trimmed now key).requestTracker.size
      else (r.trimmed now key).requestTracker.size + 1 := fun timestamps => by
    split_ifs with hkey
    · exact OrderedDict.size_set_of_mem hkey _
    · exact OrderedDict.size_set_of_notMem hkey _
  rcases r.check_cases now key henabled with ⟨hcheck, -⟩ | ⟨hcheck, -⟩
  · rw [hcheck]
    exact hassign _
  · rw [hcheck]
    exact hassign _

/-- Where there is room for the key, nothing is removed. -/
theorem size_check_of_room (henabled : r.enabled = true)
    (hroom : (r.refreshed now key).requestTracker.size ≤ r.maxKeys) :
    (r.check now key).2.requestTracker.size = (r.refreshed now key).requestTracker.size := by
  have htrimmed : r.trimmed now key = r.refreshed now key := if_neg (not_lt.mpr hroom)
  rw [size_check r now key henabled, htrimmed, if_pos (mem_refreshed r now key)]

/-- Where there is none, the oldest keys make room, but not for a key that is one of them. -/
theorem size_check_of_full (henabled : r.enabled = true)
    (hfull : r.maxKeys < (r.refreshed now key).requestTracker.size) :
    (r.check now key).2.requestTracker.size + max 1 ((r.refreshed now key).requestTracker.size / 10) =
      (r.refreshed now key).requestTracker.size +
        if key ∈ oldestKeys (r.refreshed now key).requestTracker then 1 else 0 := by
  have htrimmed : r.trimmed now key = (r.refreshed now key).removeOldestKeys := if_pos hfull
  have hsize := size_removeOldestKeys (r.refreshed now key) (Nat.zero_lt_of_lt hfull)
  rw [size_check r now key henabled, htrimmed]
  simp only [mem_removeOldestKeys _ key (mem_refreshed r now key)]
  split_ifs <;> omega

end

/-- The tracker after the call of a new key. -/
theorem entries_refreshed (r : RateLimiter T) {now : T} {key : String}
    (hnew : key ∉ (r.cleaned now).requestTracker.keys) :
    (r.refreshed now key).requestTracker.entries = (r.cleaned now).requestTracker.entries ++ [(key, [])] := by
  have hnone : (r.cleaned now).stamps key = [] := by
    unfold stamps
    rw [OrderedDict.get?_eq_none_iff.mpr hnew]
    rfl
  unfold refreshed assign
  rw [hnone]
  exact OrderedDict.entries_set_of_notMem hnew _

/-- **A call keeps the size iff it does not overflow.** -/
theorem size_check_le_iff {s : Checked T} (hfits : TrackerFits s) (now : T) (key : String) :
    (s.limiter.check now key).2.requestTracker.size ≤ s.limiter.maxKeys ↔ ¬Overflows s (now, key) := by
  cases henabled : s.limiter.enabled with
  | false =>
    have hcheck : s.limiter.check now key = (true, s.limiter) := by
      unfold check
      rw [henabled]
      rfl
    rw [hcheck]
    exact iff_of_true hfits fun hover => Bool.false_ne_true (henabled.symm.trans hover.1)
  | true =>
    have hcleaned := (size_cleaned_le s.limiter now).trans hfits
    by_cases hnew : key ∈ (s.limiter.cleaned now).requestTracker.keys
    · have hsize : (s.limiter.refreshed now key).requestTracker.size =
          (s.limiter.cleaned now).requestTracker.size := OrderedDict.size_set_of_mem hnew _
      rw [size_check_of_room _ _ _ henabled (hsize ▸ hcleaned), hsize]
      exact iff_of_true hcleaned fun hover => hover.2.1 hnew
    · have hsize : (s.limiter.refreshed now key).requestTracker.size =
          (s.limiter.cleaned now).requestTracker.size + 1 := OrderedDict.size_set_of_notMem hnew _
      rcases hcleaned.lt_or_eq with hroom | hfull
      · have hle : (s.limiter.refreshed now key).requestTracker.size ≤ s.limiter.maxKeys := hsize ▸ hroom
        rw [size_check_of_room _ _ _ henabled hle]
        exact iff_of_true hle fun hover => absurd hover.2.2.1 (Nat.ne_of_lt hroom)
      · have hcheck := size_check_of_full s.limiter now key henabled (by omega)
        rcases Nat.lt_or_ge s.limiter.maxKeys 19 with hfew | hmany
        · -- one key is removed
          have hold := mem_oldestKeys_iff (entries_refreshed s.limiter hnew) hnew (by omega)
          have hover : Overflows s (now, key) ↔ key ∈ oldestKeys (s.limiter.refreshed now key).requestTracker := by
            rw [hold]
            exact ⟨fun h => h.2.2.2.2, fun h => ⟨henabled, hnew, hfull, hfew, h⟩⟩
          rw [hover]
          by_cases hkey : key ∈ oldestKeys (s.limiter.refreshed now key).requestTracker
          · rw [if_pos hkey] at hcheck
            exact iff_of_false (by omega) (not_not.mpr hkey)
          · rw [if_neg hkey] at hcheck
            exact iff_of_true (by omega) hkey
        · -- two keys, or more
          have htwo : (if key ∈ oldestKeys (s.limiter.refreshed now key).requestTracker then 1 else 0) ≤ 1 := by
            split_ifs <;> omega
          exact iff_of_true (by omega) fun hover => absurd hover.2.2.2.1 (not_lt.mpr hmany)

theorem trackerFits_step_iff {s s' : Checked T} {e : T × String} (hfits : TrackerFits s)
    (h : s.step e = some s') : TrackerFits s' ↔ ¬Overflows s e := by
  unfold Checked.step at h
  split_ifs at h
  obtain rfl := Option.some.inj h
  have hmax : (s.limiter.check e.1 e.2).2.maxKeys = s.limiter.maxKeys :=
    congrArg (fun p => p.2.2.2) (s.limiter.settings_check e.1 e.2)
  rw [← size_check_le_iff hfits, ← hmax]
  rfl

/-- **The tracker fits in every state of a run iff no call overflows.** -/
theorem trackerFits_iff {s u : Checked T} {events : List (T × String)} (hfits : TrackerFits s)
    (hrun : run Checked.step s events = some u) :
    StatesMeet Checked.step TrackerFits s events ↔ StepsMeet Checked.step (fun s e => ¬Overflows s e) s events :=
  statesMeet_iff_of_inv (fun _ _ _ hs hnot hstep => (trackerFits_step_iff hs hstep).mpr hnot) (fun _ hs => hs)
    (fun _ _ _ hs hstep hfits => (trackerFits_step_iff hs hstep).mp hfits) hfits hrun

/-- Two keys where there are two to track. -/
theorem trackerFits_two : StatesMeet Checked.step TrackerFits (.start 3 60 2 (100 : Int))
    [(100, "a"), (101, "b"), (102, "a")] := by
  have hrun : (run Checked.step (.start 3 60 2 (100 : Int))
      [(100, "a"), (101, "b"), (102, "a")]).isSome = true := by
    decide +kernel
  obtain ⟨u, hu⟩ := Option.isSome_iff_exists.mp hrun
  exact (trackerFits_iff (by decide) hu).mpr (by decide +kernel)

/-- Two keys where there is one to track. -/
theorem trackerFits_exceeded :
    ¬StatesMeet Checked.step TrackerFits (.start 3 60 1 (100 : Int)) [(100, "a"), (101, "b")] := by
  decide +kernel

end Cowrie.Core
