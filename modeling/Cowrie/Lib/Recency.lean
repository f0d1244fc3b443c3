import Mathlib.Data.List.Dedup
import Mathlib.Data.List.Sublists

/-!
# Recency

A history is the list of the keys that were used, the last use at its end. `recency` are the keys in the order
of their last use, the least recently used first, and `since k` what has been used after the last use of `k`.

* `recency_concat`: a use moves its key to the end.
* **`mem_since`**: a key that comes later in the order of use has been used since.
* `length_le_since`: distinct keys used since are at most so many.
-/

namespace Cowrie.Lib

open scoped List

variable {κ : Type*} [DecidableEq κ]

/-- The keys in the order of their last use. -/
def recency (uses : List κ) : List κ := uses.dedup

/-- What was used after the last use of `k`, the latest first. -/
def since (k : κ) (uses : List κ) : List κ := uses.reverse.takeWhile (· ≠ k)

/-- A list without `k`. -/
theorem filter_ne_of_notMem {l : List κ} {k : κ} (h : k ∉ l) : l.filter (· ≠ k) = l := by
  refine List.filter_eq_self.mpr fun x hx => ?_
  simpa using fun heq : x = k => h (heq ▸ hx)

/-- **A use moves its key to the end.** -/
theorem recency_concat (uses : List κ) (k : κ) :
    recency (uses ++ [k]) = (recency uses).filter (· ≠ k) ++ [k] := by
  unfold recency
  induction uses with
  | nil => rfl
  | cons x uses ih =>
    rw [List.cons_append]
    by_cases hx : x ∈ uses
    · rw [List.dedup_cons_of_mem (List.mem_append_left [k] hx), List.dedup_cons_of_mem hx, ih]
    · rw [List.dedup_cons_of_notMem hx]
      by_cases hk : x = k
      · subst hk
        rw [List.dedup_cons_of_mem (List.mem_append_right uses (List.mem_singleton_self x)), ih,
          List.filter_cons_of_neg (by simp)]
      · have hout : x ∉ uses ++ [k] := by simp [hx, hk]
        rw [List.dedup_cons_of_notMem hout, ih, List.filter_cons_of_pos (by simpa using hk), List.cons_append]

theorem nodup_recency (uses : List κ) : (recency uses).Nodup := List.nodup_dedup uses

@[simp] theorem since_concat_self (k : κ) (uses : List κ) : since k (uses ++ [k]) = [] := by
  simp [since]

theorem since_concat {j k : κ} (h : j ≠ k) (uses : List κ) : since k (uses ++ [j]) = j :: since k uses := by
  simp [since, h]

/-- **A key that comes later in the order of use has been used since.** -/
theorem mem_since {j k : κ} {uses : List κ} (h : [k, j] <+ recency uses) : j ∈ since k uses := by
  induction uses using List.reverseRecOn with
  | nil => exact absurd h.length_le (by simp [recency])
  | append_singleton uses x ih =>
    rw [recency_concat] at h
    by_cases hj : j = x
    · subst hj
      have hk : j ≠ k := by
        rintro rfl
        have hnodup := (recency_concat uses j ▸ nodup_recency (uses ++ [j])).sublist h
        simp at hnodup
      rw [since_concat hk]
      exact List.mem_cons_self
    · have hbefore : [k, j] <+ (recency uses).filter (· ≠ x) := by
        obtain ⟨l, l', heq, hl, hl'⟩ := List.sublist_append_iff.mp h
        rcases List.sublist_singleton.mp hl' with rfl | rfl
        · rw [heq, List.append_nil]
          exact hl
        · have hlast := congrArg List.getLast? heq
          rw [List.getLast?_concat] at hlast
          exact absurd (Option.some.inj hlast) hj
      have hk : x ≠ k := by
        have hmem := (List.mem_filter.mp (hbefore.subset List.mem_cons_self)).2
        simpa using Ne.symm (by simpa using hmem : k ≠ x)
      rw [since_concat hk]
      exact List.mem_cons_of_mem x (ih (hbefore.trans List.filter_sublist))

/-- The keys after the first one have been used since. -/
theorem subset_since {k : κ} {rest uses : List κ} (h : k :: rest <+ recency uses) : rest ⊆ since k uses :=
  fun _ hj => mem_since (((List.singleton_sublist.mpr hj).cons_cons k).trans h)

/-- Distinct keys used since. -/
theorem length_le_since {k : κ} {keys uses : List κ} (hnodup : keys.Nodup) (h : keys ⊆ since k uses) :
    keys.length ≤ (since k uses).dedup.length :=
  (List.subperm_of_subset hnodup fun _ hx => List.mem_dedup.mpr (h hx)).length_le

/-- Another use keeps the distinct keys that were used since. -/
theorem dedup_since_mono {j k : κ} (h : j ≠ k) (uses : List κ) :
    (since k uses).dedup.length ≤ (since k (uses ++ [j])).dedup.length := by
  rw [since_concat h]
  exact (List.subperm_of_subset (List.nodup_dedup _) fun _ hx =>
    List.mem_dedup.mpr (List.mem_cons_of_mem j (List.mem_dedup.mp hx))).length_le

end Cowrie.Lib
