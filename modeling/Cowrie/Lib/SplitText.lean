import Mathlib.Data.List.Basic
import Mathlib.Data.List.Infix

/-!
# Splitting a text at a text

`splitText sep s` is `s.split(sep)` for a separator that is not empty: the parts between its occurrences from the
left, of which no two overlap.

* `splitText_absent`, `two_le_length_splitText`: there is one part exactly if the separator does not occur.
* **`splitText_intercalate`**: a text joined from parts is split into them again, if no part contains the first
  element of the separator; `intercalate_inj`: so different parts are joined to different texts.
-/

namespace Cowrie.Lib

variable {α : Type*} [DecidableEq α]

/-- The parts of the text, with `skip` elements of an occurrence still to drop and `part` in reverse before it. -/
def splitFrom (sep : List α) : Nat → List α → List α → List (List α)
  | _, part, [] => [part.reverse]
  | skip + 1, part, _ :: s => splitFrom sep skip part s
  | 0, part, x :: s =>
    if sep.isPrefixOf (x :: s) then part.reverse :: splitFrom sep (sep.length - 1) [] s
    else splitFrom sep 0 (x :: part) s

/-- `s.split(sep)`. -/
def splitText (sep s : List α) : List (List α) := splitFrom sep 0 [] s

variable {sep part s : List α}

theorem splitFrom_ne_nil (sep : List α) (skip : Nat) (part s : List α) : splitFrom sep skip part s ≠ [] := by
  induction s generalizing skip part with
  | nil => cases skip <;> exact List.cons_ne_nil _ _
  | cons x s ih =>
    cases skip with
    | zero =>
      unfold splitFrom
      split_ifs
      · exact List.cons_ne_nil _ _
      · exact ih 0 (x :: part)
    | succ skip => exact ih skip part

theorem splitFrom_absent (h : ¬ sep <:+: s) (part : List α) : splitFrom sep 0 part s = [part.reverse ++ s] := by
  induction s generalizing part with
  | nil => simp [splitFrom]
  | cons x s ih =>
    have hhead : ¬ sep.isPrefixOf (x :: s) = true := fun hprefix =>
      h (List.isPrefixOf_iff_prefix.mp hprefix).isInfix
    have htail : ¬ sep <:+: s := fun hinfix => h (List.infix_cons hinfix)
    rw [splitFrom, if_neg hhead, ih htail]
    simp

/-- A separator that does not occur splits nothing. -/
theorem splitText_absent (h : ¬ sep <:+: s) : splitText sep s = [s] := splitFrom_absent h []

theorem two_le_length_splitFrom (hsep : sep ≠ []) (h : sep <:+: s) (part : List α) :
    2 ≤ (splitFrom sep 0 part s).length := by
  induction s generalizing part with
  | nil => exact absurd (List.infix_nil.mp h) hsep
  | cons x s ih =>
    unfold splitFrom
    split_ifs with hhead
    · have hrest := List.length_pos_of_ne_nil (splitFrom_ne_nil sep (sep.length - 1) [] s)
      rw [List.length_cons]
      omega
    · rcases List.infix_cons_iff.mp h with hprefix | htail
      · exact absurd (List.isPrefixOf_iff_prefix.mpr hprefix) hhead
      · exact ih htail (x :: part)

/-- A separator that occurs leaves two parts at least. -/
theorem two_le_length_splitText (hsep : sep ≠ []) (h : sep <:+: s) : 2 ≤ (splitText sep s).length :=
  two_le_length_splitFrom hsep h []

/-! ## Joined texts -/

theorem splitFrom_skip (sep part l s : List α) : splitFrom sep l.length part (l ++ s) = splitFrom sep 0 part s := by
  induction l with
  | nil => rfl
  | cons x l ih => exact ih

/-- A part in which the separator cannot begin. -/
theorem splitFrom_append {x : α} {field : List α} (hfield : x ∉ field) (sep part s : List α) :
    splitFrom (x :: sep) 0 part (field ++ s) = splitFrom (x :: sep) 0 (field.reverse ++ part) s := by
  induction field generalizing part with
  | nil => rfl
  | cons y field ih =>
    have hy : x ≠ y := fun heq => hfield (heq ▸ List.mem_cons_self)
    have hrest : x ∉ field := fun hmem => hfield (List.mem_cons_of_mem y hmem)
    have hhead : ¬ (x :: sep).isPrefixOf (y :: (field ++ s)) = true := by
      rw [List.isPrefixOf_iff_prefix, List.cons_prefix_cons]
      exact fun hprefix => hy hprefix.1
    rw [List.cons_append, splitFrom, if_neg hhead, ih hrest, List.reverse_cons, List.append_assoc]
    rfl

/-- **What is joined is split again.** -/
theorem splitText_intercalate {x : α} (sep : List α) {fields : List (List α)} (hne : fields ≠ [])
    (hfields : ∀ field ∈ fields, x ∉ field) : splitText (x :: sep) ((x :: sep).intercalate fields) = fields := by
  unfold splitText
  induction fields with
  | nil => exact absurd rfl hne
  | cons field fields ih =>
    obtain ⟨hfield, hfields⟩ := List.forall_mem_cons.mp hfields
    cases fields with
    | nil =>
      have hlast := splitFrom_append hfield sep [] []
      rw [List.append_nil] at hlast
      rw [List.intercalate_singleton, hlast]
      simp [splitFrom]
    | cons next fields =>
      have hhead (s : List α) : (x :: sep).isPrefixOf (x :: (sep ++ s)) = true :=
        List.isPrefixOf_iff_prefix.mpr ⟨s, rfl⟩
      rw [List.intercalate_cons_cons, List.append_assoc, splitFrom_append hfield, List.cons_append, splitFrom,
        if_pos (hhead _), List.length_cons, Nat.add_sub_cancel, splitFrom_skip, ih (List.cons_ne_nil _ _) hfields]
      simp

omit [DecidableEq α] in
/-- A joined text has the elements of its parts and of the separator. -/
theorem mem_intercalate {x : α} {sep : List α} {fields : List (List α)} (h : x ∈ sep.intercalate fields) :
    x ∈ sep ∨ ∃ field ∈ fields, x ∈ field := by
  induction fields with
  | nil => cases h
  | cons field fields ih =>
    cases fields with
    | nil =>
      rw [List.intercalate_singleton] at h
      exact .inr ⟨field, List.mem_cons_self, h⟩
    | cons next fields =>
      rw [List.intercalate_cons_cons, List.append_assoc, List.mem_append, List.mem_append] at h
      rcases h with h | h | h
      · exact .inr ⟨field, List.mem_cons_self, h⟩
      · exact .inl h
      · rcases ih h with h | ⟨later, hlater, h⟩
        · exact .inl h
        · exact .inr ⟨later, List.mem_cons_of_mem field hlater, h⟩

omit [DecidableEq α] in
theorem intercalate_ne_nil (sep : List α) {field : List α} (hfield : field ≠ []) (fields : List (List α)) :
    sep.intercalate (field :: fields) ≠ [] := by
  cases fields with
  | nil => rwa [List.intercalate_singleton]
  | cons next fields =>
    rw [List.intercalate_cons_cons, List.append_assoc]
    exact List.append_ne_nil_of_left_ne_nil hfield _

/-- Joined texts differ if their parts do, where no part is empty. -/
theorem intercalate_inj {x : α} (sep : List α) {fields fields' : List (List α)}
    (h : ∀ field ∈ fields, x ∉ field ∧ field ≠ []) (h' : ∀ field ∈ fields', x ∉ field ∧ field ≠ [])
    (heq : (x :: sep).intercalate fields = (x :: sep).intercalate fields') : fields = fields' := by
  cases fields with
  | nil =>
    cases fields' with
    | nil => rfl
    | cons field fields' => exact absurd heq.symm (intercalate_ne_nil _ (h' field List.mem_cons_self).2 fields')
  | cons field fields =>
    cases fields' with
    | nil => exact absurd heq (intercalate_ne_nil _ (h field List.mem_cons_self).2 fields)
    | cons field' fields' =>
      rw [← splitText_intercalate sep (List.cons_ne_nil field fields) fun f hf => (h f hf).1, heq,
        splitText_intercalate sep (List.cons_ne_nil field' fields') fun f hf => (h' f hf).1]

end Cowrie.Lib
