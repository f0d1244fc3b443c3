import Cowrie.Lib.Lines

/-!
# Following a file that grows

A file to which texts are appended, and a reader who opens it at its end and reads it line by line while it grows.

* `Followed` is the file and the position of its reader, if it is open.
* `Followed.Reads sep old seen unread`: the file is the text `old` that was there when it was opened, and terminated
  lines, of which the reader has had `seen` and not `unread`.
* **`Reads.readline_cons`**, `Reads.readline_nil`: the reader gets the first line it has not had, whole, or nothing. So
  it gets what is appended one line at a time, in order and once, whatever the file ended in before.
-/

namespace Cowrie.Lib

variable {α : Type*}

/-- The text of a file, and where its reader is. -/
structure Followed (α : Type*) where
  content : List α := []
  position : Option Nat := none
  deriving DecidableEq

/-- Lines, each with the separator that ends it. -/
def terminated (sep : α) (ws : List (List α)) : List α := ws.flatMap (· ++ [sep])

@[simp] theorem terminated_nil (sep : α) : terminated sep [] = [] := rfl

@[simp] theorem terminated_append (sep : α) (ws vs : List (List α)) :
    terminated sep (ws ++ vs) = terminated sep ws ++ terminated sep vs := List.flatMap_append

theorem terminated_cons (sep : α) (w : List α) (ws : List (List α)) :
    terminated sep (w :: ws) = w ++ sep :: terminated sep ws := by
  unfold terminated
  rw [List.flatMap_cons, List.append_assoc]
  rfl

namespace Followed

/-- Something is appended. -/
def append (f : Followed α) (text : List α) : Followed α := { f with content := f.content ++ text }

/-- The reader opens the file and goes to its end. -/
def openEnd (f : Followed α) : Followed α := { f with position := some f.content.length }

variable [DecidableEq α]

/-- The next line with its separator; what is left where there is none, nothing at the end. -/
def readline (sep : α) (f : Followed α) : Option (List α × Followed α) :=
  f.position.map fun p =>
    let line := (lines sep (f.content.drop p)).head?.getD []
    (line, { f with position := some (p + line.length) })

omit [DecidableEq α] in
/-- What the reader has had, and what it has not. -/
structure Reads (sep : α) (old : List α) (seen unread : List (List α)) (f : Followed α) : Prop where
  content : f.content = old ++ terminated sep (seen ++ unread)
  position : f.position = some (old ++ terminated sep seen).length
  separated : ∀ w ∈ unread, sep ∉ w

variable {sep : α} {old w : List α} {seen unread : List (List α)} {f : Followed α}

omit [DecidableEq α] in
theorem reads_openEnd (sep : α) (f : Followed α) : Reads sep f.content [] [] f.openEnd := by
  refine ⟨?_, ?_, by simp⟩
  · rw [List.append_nil, terminated_nil, List.append_nil]
    rfl
  · rw [terminated_nil, List.append_nil]
    rfl

omit [DecidableEq α] in
theorem Reads.append (h : Reads sep old seen unread f) (hw : sep ∉ w) :
    Reads sep old seen (unread ++ [w]) (f.append (w ++ [sep])) := by
  refine ⟨?_, h.position, ?_⟩
  · change f.content ++ (w ++ [sep]) = _
    rw [h.content, ← List.append_assoc seen, terminated_append sep (seen ++ unread), terminated_cons, terminated_nil,
      List.append_assoc]
  · intro v hv
    rcases List.mem_append.mp hv with hv | hv
    · exact h.separated v hv
    · rw [List.mem_singleton.mp hv]
      exact hw

/-- The reader gets the next line. -/
theorem Reads.readline_cons (h : Reads sep old seen (w :: unread) f) :
    ∃ g, f.readline sep = some (w ++ [sep], g) ∧ Reads sep old (seen ++ [w]) unread g := by
  have hw : sep ∉ w := h.separated w List.mem_cons_self
  have hrest : f.content.drop (old ++ terminated sep seen).length = w ++ sep :: terminated sep unread := by
    rw [h.content, terminated_append, ← List.append_assoc, List.drop_left, terminated_cons]
  have hline : (lines sep (f.content.drop (old ++ terminated sep seen).length)).head?.getD [] = w ++ [sep] := by
    rw [hrest, lines_append_separator hw]
    rfl
  refine ⟨{ f with position := some ((old ++ terminated sep seen).length + (w ++ [sep]).length) }, ?_, ?_, ?_, ?_⟩
  · unfold readline
    rw [h.position, Option.map_some, hline]
  · rw [List.append_assoc]
    exact h.content
  · change some _ = some _
    rw [terminated_append, terminated_cons, terminated_nil, ← List.append_assoc old, ← List.length_append]
  · exact fun v hv => h.separated v (List.mem_cons_of_mem w hv)

/-- At the end there is nothing to get. -/
theorem Reads.readline_nil (h : Reads sep old seen [] f) : f.readline sep = some ([], f) := by
  have hrest : f.content.drop (old ++ terminated sep seen).length = [] := by
    rw [h.content, List.append_nil, List.drop_length]
  have hline : (lines sep (f.content.drop (old ++ terminated sep seen).length)).head?.getD [] = [] := by
    rw [hrest]
    rfl
  have hsame : { f with position := some (old ++ terminated sep seen).length } = f := by rw [← h.position]
  unfold readline
  simp only [h.position, Option.map_some, hline, List.length_nil, Nat.add_zero]
  exact congrArg (fun g => some ([], g)) hsame

end Followed

end Cowrie.Lib
