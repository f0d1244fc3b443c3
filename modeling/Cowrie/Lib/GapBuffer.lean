import Mathlib.Data.List.TakeDrop

/-!
# Gap buffers

A line of text with a cursor in it, as the part before the cursor (from right to left) and the part after
it. `contents` is the line and `cursor` the number of elements before the cursor; the lemmas say what
every operation does to the two.
-/

namespace Cowrie.Lib

/-- A line and a cursor. -/
structure GapBuffer (α : Type*) where
  before : List α := []
  after : List α := []
  deriving DecidableEq, Repr

namespace GapBuffer

variable {α : Type*} (g : GapBuffer α) (x : α)

/-- The whole line. -/
def contents : List α := g.before.reverse ++ g.after

/-- Where the cursor is. -/
def cursor : Nat := g.before.length

/-- Put an element before the cursor. -/
def insert : GapBuffer α := ⟨x :: g.before, g.after⟩

/-- Delete the element before the cursor. -/
def backspace : GapBuffer α := ⟨g.before.tail, g.after⟩

/-- Move to the beginning. -/
def home : GapBuffer α := ⟨[], g.contents⟩

/-- Move behind the end. -/
def toEnd : GapBuffer α := ⟨g.contents.reverse, []⟩

/-- Move one element to the left. -/
def left : GapBuffer α :=
  match g.before with
  | [] => g
  | x :: before => ⟨before, x :: g.after⟩

/-- Move one element to the right. -/
def right : GapBuffer α :=
  match g.after with
  | [] => g
  | x :: after => ⟨x :: g.before, after⟩

/-! ## Lines and cursors -/

theorem take_cursor : g.contents.take g.cursor = g.before.reverse :=
  List.take_left' (List.length_reverse)

theorem drop_cursor : g.contents.drop g.cursor = g.after :=
  List.drop_left' (List.length_reverse)

@[simp] theorem contents_insert :
    (g.insert x).contents = g.contents.take g.cursor ++ x :: g.contents.drop g.cursor := by
  rw [take_cursor, drop_cursor]
  simp [insert, contents]

@[simp] theorem cursor_insert : (g.insert x).cursor = g.cursor + 1 := rfl

theorem contents_backspace :
    g.backspace.contents = g.contents.take (g.cursor - 1) ++ g.contents.drop g.cursor := by
  have hlast : g.before.tail.reverse = g.before.reverse.take (g.before.length - 1) := by
    rw [← List.dropLast_reverse, List.dropLast_eq_take, List.length_reverse]
  rw [drop_cursor]
  unfold backspace contents cursor
  rw [List.take_append_of_le_length (by simp), ← hlast]

@[simp] theorem cursor_backspace : g.backspace.cursor = g.cursor - 1 := List.length_tail

@[simp] theorem contents_home : g.home.contents = g.contents := rfl

@[simp] theorem cursor_home : g.home.cursor = 0 := rfl

@[simp] theorem contents_toEnd : g.toEnd.contents = g.contents := by
  unfold toEnd
  rw [contents, List.reverse_reverse, List.append_nil]

@[simp] theorem cursor_toEnd : g.toEnd.cursor = g.contents.length := List.length_reverse

@[simp] theorem contents_left : g.left.contents = g.contents := by
  unfold left
  split
  · rfl
  next h => simp [contents, h]

@[simp] theorem cursor_left : g.left.cursor = g.cursor - 1 := by
  unfold left cursor
  split
  next h => rw [h]; rfl
  next h => rw [h]; rfl

@[simp] theorem contents_right : g.right.contents = g.contents := by
  unfold right
  split
  · rfl
  next h => simp [contents, h]

theorem cursor_right : g.right.cursor = if g.cursor = g.contents.length then g.cursor else g.cursor + 1 := by
  unfold right cursor contents
  split
  next h => rw [h, if_pos (by simp)]
  next h => rw [h, if_neg (by simp)]; rfl

end GapBuffer

end Cowrie.Lib
