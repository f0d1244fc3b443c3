import Mathlib.Data.List.Nodup
import Mathlib.Data.List.Perm.Basic

/-!
# Dictionaries as association lists

A `dict` is a list of keys and values; `List.lookup` is `d.get(k)`.

* `dictSet` is `d[k] = a`, `dictDel` is `del d[k]`; `lookup_dictSet` and `lookup_dictDel` read them.
* `keys_dictSet`, `keys_dictDel`: distinct keys stay distinct.
* **`perm_dictDel`**: a dictionary with distinct keys is an entry of it and the rest.
-/

namespace Cowrie.Lib

variable {κ α : Type*} [DecidableEq κ]

/-- `del d[k]`. -/
def dictDel (d : List (κ × α)) (k : κ) : List (κ × α) := d.filter fun e => e.1 ≠ k

/-- `d[k] = a`. -/
def dictSet (d : List (κ × α)) (k : κ) (a : α) : List (κ × α) := (k, a) :: dictDel d k

theorem lookup_dictDel (d : List (κ × α)) (k j : κ) :
    (dictDel d k).lookup j = if j = k then none else d.lookup j := by
  induction d with
  | nil => simp [dictDel]
  | cons e d ih =>
    obtain ⟨i, a⟩ := e
    unfold dictDel at ih ⊢
    by_cases hi : i = k
    · rw [List.filter_cons_of_neg (by simpa using hi), ih, List.lookup_cons]
      by_cases hj : j = k
      · rw [if_pos hj, if_pos hj]
      · rw [if_neg hj, if_neg hj, beq_false_of_ne (fun h => hj (h.trans hi))]
    · rw [List.filter_cons_of_pos (by simpa using hi), List.lookup_cons, List.lookup_cons, ih]
      by_cases hj : j = i
      · subst hj
        simp only [beq_self_eq_true, if_neg hi]
      · rw [beq_false_of_ne hj]

theorem lookup_dictSet (d : List (κ × α)) (k j : κ) (a : α) :
    (dictSet d k a).lookup j = if j = k then some a else d.lookup j := by
  unfold dictSet
  rw [List.lookup_cons, lookup_dictDel]
  by_cases hj : j = k
  · simp only [hj, beq_self_eq_true, if_true]
  · rw [if_neg hj, if_neg hj, beq_false_of_ne hj]

theorem dictDel_of_lookup_none {d : List (κ × α)} {k : κ} (h : d.lookup k = none) :
    dictDel d k = d := by
  refine List.filter_eq_self.mpr fun e he => ?_
  have hne := List.lookup_eq_none_iff.mp h e he
  simpa using fun heq : e.1 = k => (bne_iff_ne.mp hne) heq.symm

theorem keys_dictDel {d : List (κ × α)} (h : (d.map Prod.fst).Nodup) (k : κ) :
    ((dictDel d k).map Prod.fst).Nodup := (List.filter_sublist.map _).nodup h

theorem keys_dictSet {d : List (κ × α)} (h : (d.map Prod.fst).Nodup) (k : κ) (a : α) :
    ((dictSet d k a).map Prod.fst).Nodup := by
  refine List.nodup_cons.mpr ⟨?_, keys_dictDel h k⟩
  intro hk
  obtain ⟨e, he, rfl⟩ := List.mem_map.mp hk
  simpa using (List.mem_filter.mp he).2

/-- **An entry and the rest.** -/
theorem perm_dictDel {d : List (κ × α)} (hd : (d.map Prod.fst).Nodup) {k : κ} {a : α}
    (h : d.lookup k = some a) : d.Perm ((k, a) :: dictDel d k) := by
  induction d with
  | nil => cases h
  | cons e d ih =>
    obtain ⟨i, b⟩ := e
    rw [List.map_cons, List.nodup_cons] at hd
    rw [List.lookup_cons] at h
    unfold dictDel at ih ⊢
    by_cases hk : k = i
    · subst hk
      rw [beq_self_eq_true] at h
      obtain rfl := Option.some.inj h
      rw [List.filter_cons_of_neg (by simp), List.filter_eq_self.mpr]
      intro e he
      simpa using fun heq => hd.1 (List.mem_map.mpr ⟨e, he, heq⟩)
    · rw [beq_false_of_ne hk] at h
      rw [List.filter_cons_of_pos (by simpa using Ne.symm hk)]
      exact ((ih hd.2 h).cons _).trans (List.Perm.swap _ _ _)

end Cowrie.Lib
