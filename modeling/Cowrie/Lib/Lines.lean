import Mathlib.Data.List.Basic
import Mathlib.Data.List.DropRight

/-!
# Lines

A text is a list of terminated lines and a rest without the separator. `lines` is the list of its lines, each with
its separator; the last one has none if the text does not end in one.

* `Lined sep ws rest s`: the terminated lines of `s` are `ws`, what follows the last separator is `rest`. Every
  text has such a form (`exists_lined`).
* `Lined.splitOn`, `Lined.lines_eq`, `Lined.count`: splitting, lines and separators, by that form.
* `flatten_lines`: nothing is lost.
* **`rtake_lines_append`**: the last lines of a text are those of an end of it that has more separators.
-/

namespace Cowrie.Lib

variable {α : Type*}

/-- The last line of a text that does not end in a separator. -/
def lastLine (rest : List α) : List (List α) := if rest = [] then [] else [rest]

@[simp] theorem flatten_lastLine (rest : List α) : (lastLine rest).flatten = rest := by
  unfold lastLine
  split_ifs with h <;> simp [h]

variable [DecidableEq α]

/-- The lines of a text, each with the separator that ends it. -/
def lines (sep : α) : List α → List (List α)
  | [] => []
  | x :: s =>
    if x = sep then [x] :: lines sep s
    else
      match lines sep s with
      | [] => [[x]]
      | l :: ls => (x :: l) :: ls

/-- The lines in `ws` with their separators and then `rest` are the text. -/
structure Lined (sep : α) (ws : List (List α)) (rest s : List α) : Prop where
  text : s = ws.flatMap (· ++ [sep]) ++ rest
  terminated : ∀ w ∈ ws, sep ∉ w
  open_end : sep ∉ rest

variable {sep : α} {ws : List (List α)} {w rest s : List α}

theorem exists_lined (sep : α) (s : List α) : ∃ ws rest, Lined sep ws rest s := by
  induction s with
  | nil => exact ⟨[], [], rfl, by simp, by simp⟩
  | cons x s ih =>
    obtain ⟨ws, rest, htext, hws, hrest⟩ := ih
    by_cases hx : x = sep
    · subst hx
      exact ⟨[] :: ws, rest, by simp [htext], by simpa using hws, hrest⟩
    · cases ws with
      | nil => exact ⟨[], x :: rest, by simp [htext], by simp, by simp [Ne.symm hx, hrest]⟩
      | cons w ws =>
        obtain ⟨hw, hws⟩ := List.forall_mem_cons.mp hws
        refine ⟨(x :: w) :: ws, rest, by simp [htext], ?_, hrest⟩
        exact List.forall_mem_cons.mpr ⟨by simp [Ne.symm hx, hw], hws⟩

/-! ## The lines of a text -/

theorem lines_append_separator (hw : sep ∉ w) (s : List α) :
    lines sep (w ++ sep :: s) = (w ++ [sep]) :: lines sep s := by
  induction w with
  | nil => simp [lines]
  | cons x w ih =>
    obtain ⟨hx, hw⟩ := not_or.mp (mt List.mem_cons.mpr hw)
    rw [List.cons_append, lines, if_neg (Ne.symm hx), ih hw]
    rfl

theorem lines_of_not_mem (h : sep ∉ s) (hne : s ≠ []) : lines sep s = [s] := by
  induction s with
  | nil => exact absurd rfl hne
  | cons x s ih =>
    obtain ⟨hx, hs⟩ := not_or.mp (mt List.mem_cons.mpr h)
    rw [lines, if_neg (Ne.symm hx)]
    cases s with
    | nil => rfl
    | cons y s =>
      rw [ih hs (List.cons_ne_nil y s)]

namespace Lined

theorem lines_eq (h : Lined sep ws rest s) : lines sep s = ws.map (· ++ [sep]) ++ lastLine rest := by
  obtain ⟨rfl, hws, hrest⟩ := h
  induction ws with
  | nil =>
    unfold lastLine
    split_ifs with hnil
    · simp [hnil, lines]
    · exact lines_of_not_mem hrest hnil
  | cons w ws ih =>
    obtain ⟨hw, hws⟩ := List.forall_mem_cons.mp hws
    rw [List.flatMap_cons, List.append_assoc, List.append_assoc, List.singleton_append,
      lines_append_separator hw, ih hws]
    rfl

theorem splitOn (h : Lined sep ws rest s) : s.splitOn sep = ws ++ [rest] := by
  obtain ⟨rfl, hws, hrest⟩ := h
  induction ws with
  | nil => exact List.splitOn_eq_singleton hrest
  | cons w ws ih =>
    obtain ⟨hw, hws⟩ := List.forall_mem_cons.mp hws
    rw [List.flatMap_cons, List.append_assoc, List.append_assoc, List.singleton_append,
      List.splitOn_append_cons_self_of_not_mem hw, ih hws]
    rfl

theorem count (h : Lined sep ws rest s) : s.count sep = ws.length := by
  obtain ⟨rfl, hws, hrest⟩ := h
  induction ws with
  | nil => simpa using List.count_eq_zero_of_not_mem hrest
  | cons w ws ih =>
    obtain ⟨hw, hws⟩ := List.forall_mem_cons.mp hws
    rw [List.flatMap_cons, List.append_assoc, List.append_assoc, List.count_append, List.singleton_append,
      List.count_cons_self, ih hws, List.count_eq_zero_of_not_mem hw, List.length_cons, Nat.zero_add]

omit [DecidableEq α] in
/-- The text is empty or ends in a separator. -/
theorem ends_iff (h : Lined sep ws rest s) : (∀ x ∈ s.getLast?, x = sep) ↔ rest = [] := by
  obtain ⟨rfl, -, hrest⟩ := h
  rcases List.eq_nil_or_concat rest with rfl | ⟨t, x, rfl⟩
  · rcases List.eq_nil_or_concat ws with rfl | ⟨us, w, rfl⟩
    · simp
    · simp
  · simp only [List.concat_eq_append] at hrest ⊢
    rw [← List.append_assoc, List.getLast?_concat]
    have hx : x ≠ sep := fun heq => hrest (by simp [heq])
    simp [hx]

end Lined

theorem flatten_lines (sep : α) (s : List α) : (lines sep s).flatten = s := by
  obtain ⟨ws, rest, h⟩ := exists_lined sep s
  rw [h.lines_eq, List.flatten_append, flatten_lastLine, ← List.flatMap_def]
  exact h.text.symm

/-! ## The last lines -/

/-- Lines go no further than a separator. -/
theorem lines_append_cons (u v : List α) : lines sep (u ++ sep :: v) = lines sep (u ++ [sep]) ++ lines sep v := by
  induction u with
  | nil => simp [lines]
  | cons x u ih =>
    rw [List.cons_append, List.cons_append, lines, lines, ih]
    split_ifs
    · rfl
    · cases hfirst : lines sep (u ++ [sep]) with
      | nil =>
        have hflatten := flatten_lines sep (u ++ [sep])
        rw [hfirst] at hflatten
        simp at hflatten
      | cons l ls => rfl

theorem count_le_length_lines (sep : α) (s : List α) : s.count sep ≤ (lines sep s).length := by
  obtain ⟨ws, rest, h⟩ := exists_lined sep s
  rw [h.count, h.lines_eq, List.length_append, List.length_map]
  exact Nat.le_add_right _ _

theorem rtake_append_of_le {β : Type*} {l m : List β} {n : Nat} (h : n ≤ m.length) :
    (l ++ m).rtake n = m.rtake n := by
  rw [List.rtake_eq_reverse_take_reverse, List.rtake_eq_reverse_take_reverse, List.reverse_append,
    List.take_append_of_le_length (by rwa [List.length_reverse])]

/-- **The last lines** of a text are those of an end of it, whatever it starts in the middle of, if the end has
more separators. -/
theorem rtake_lines_append {t : List α} {n : Nat} (h : n < t.count sep) :
    (lines sep (s ++ t)).rtake n = (lines sep t).rtake n := by
  have hmem : sep ∈ t := List.count_pos_iff.mp (Nat.zero_lt_of_lt h)
  obtain ⟨u, v, rfl, hu⟩ := List.eq_append_cons_of_mem hmem
  rw [List.count_append, List.count_eq_zero.mpr hu, List.count_cons_self] at h
  have hv : n ≤ (lines sep v).length := (count_le_length_lines sep v).trans' (by omega)
  rw [← List.append_assoc, lines_append_cons, lines_append_cons u, rtake_append_of_le hv, rtake_append_of_le hv]

end Cowrie.Lib
