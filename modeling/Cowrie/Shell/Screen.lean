import Cowrie.Lib.GapBuffer
import Cowrie.Lib.Run
import Cowrie.Shell.Completion

/-!
# What is on the screen (`src/cowrie/shell/protocol.py:319-460`, `src/cowrie/shell/honeypot.py:525-664`)

The line that is typed is `lineBuffer`, and every key also tells the attacker's terminal what to do. The row with the
cursor is a `GapBuffer`: what is left of the cursor, and the rest. A terminal in insert mode moves the rest to the
right, else it is overwritten.

* `Shows s`: the row is the text before the input, which is the prompt as a rule, and the line, with the cursor where
  it is in the line. A password is not shown.
* `Faithful`: what a key must find so that this stays so.
* **`shows_iff`**: the screen shows the line in every state of a session, iff the keys find that. Others are Ctrl-L or
  a completion in the middle of the line, Ctrl-L or Ctrl-U in a password, and Ctrl-C in a command when something is
  typed already.

`inherited` are the keys that `RecvLine` handles, of which it is assumed that they keep the screen right. Left out:
lines that do not fit on a row or are not ASCII, and output that arrives while a line is typed.
-/

namespace Cowrie.Shell.Screen

open Cowrie.Lib Cowrie.Shell.Fs Cowrie.Shell.Completion

/-! ## The terminal -/

/-- `deleteCharacter`, at the cursor. -/
def deleteCharacter (row : GapBuffer Char) : GapBuffer Char := { row with after := row.after.tail }

/-- `cursorBackward` and `deleteCharacter`. -/
def eraseBackward (row : GapBuffer Char) : GapBuffer Char := deleteCharacter row.left

/-- The same, `n` times. -/
def eraseBackwards (n : Nat) (row : GapBuffer Char) : GapBuffer Char := eraseBackward^[n] row

/-- `write`, of a text without control characters. -/
def write (insert : Bool) (text : List Char) (row : GapBuffer Char) : GapBuffer Char where
  before := text.reverse ++ row.before
  after := if insert then row.after else row.after.drop text.length

/-- `eraseToLineEnd`. -/
def eraseToLineEnd (row : GapBuffer Char) : GapBuffer Char := { row with after := [] }

/-! ## The session -/

structure Session where
  lineBuffer : List Char := []
  lineBufferIndex : Nat := 0
  /-- `mode`, which the terminal has, too. -/
  insert : Bool := true
  passwordInput : Bool := false
  /-- `ps[pn]`. -/
  ps : List Char
  row : GapBuffer Char
  /-- What is on the row before the input. -/
  before : List Char
  deriving DecidableEq

namespace Session

/-- `characterReceived`. -/
def characterReceived (ch : Char) (s : Session) : Session where
  lineBuffer := s.lineBuffer.take s.lineBufferIndex ++
    ch :: s.lineBuffer.drop (if s.insert then s.lineBufferIndex else s.lineBufferIndex + 1)
  lineBufferIndex := s.lineBufferIndex + 1
  insert := s.insert
  passwordInput := s.passwordInput
  ps := s.ps
  row := if s.passwordInput then s.row else write s.insert [ch] s.row
  before := s.before

/-- `handle_CTRL_K`. -/
def handleCtrlK (s : Session) : Session :=
  { s with row := eraseToLineEnd s.row, lineBuffer := s.lineBuffer.take s.lineBufferIndex }

/-- `handle_CTRL_L`; `drawInputLine` writes the prompt and the line. -/
def handleCtrlL (s : Session) : Session :=
  { s with row := write s.insert (s.ps ++ s.lineBuffer) {}, before := s.ps }

/-- `handle_CTRL_U`. -/
def handleCtrlU (s : Session) : Session :=
  { s with
    row := eraseBackwards s.lineBufferIndex s.row
    lineBuffer := s.lineBuffer.drop s.lineBufferIndex
    lineBufferIndex := 0 }

/-- `showPrompt` on a new row. -/
def showPrompt (prompt : List Char) (s : Session) : Session :=
  { s with row := write s.insert prompt {}, ps := prompt, before := prompt }

/-- `handle_CTRL_C` of the shell. -/
def handleCtrlC (prompt : List Char) (s : Session) : Session :=
  { s with lineBuffer := [], lineBufferIndex := 0 }.showPrompt prompt

/-- The files that the line can be completed with. -/
def files (f : HoneyPotFilesystem) (cwd line : Str) : List Ref :=
  match clueOf line with
  | none => []
  | some clue => ((filesOf f cwd clue).toOption).getD []

/-- `handle_TAB` of the shell. It returns early without files; if several of them bring nothing new, it lists them. -/
def handleTab (f : HoneyPotFilesystem) (cwd : Str) (prompt : List Char) (s : Session) : Session :=
  let newbuf := Completion.handleTab f cwd s.lineBuffer
  if s.lineBuffer = [] ∨ files f cwd s.lineBuffer = [] then s
  else
    let cleared := { s with row := eraseBackwards s.lineBufferIndex s.row }
    let listed :=
      if 1 < (files f cwd s.lineBuffer).length ∧ newbuf = s.lineBuffer then cleared.showPrompt prompt else cleared
    { listed with lineBuffer := newbuf, lineBufferIndex := newbuf.length, row := write s.insert newbuf listed.row }

end Session

inductive Event where
  | character (ch : Char)
  | ctrlK
  | ctrlL
  | ctrlU
  | ctrlC (prompt : List Char)
  | tab (f : HoneyPotFilesystem) (cwd : Str) (prompt : List Char)
  /-- Another key. -/
  | inherited (key : Nat)
  /-- The line was sent, and what was done with it leaves this text on the row. -/
  | entered (before ps : List Char) (passwordInput insert : Bool)
  /-- `handle_CTRL_C` of a command, which exits. -/
  | interrupted (prompt : List Char)

/-- The `step` of a session; `inherited` is what the other keys do. -/
def step (inherited : Nat → Session → Session) (s : Session) : Event → Option Session
  | .character ch => some (s.characterReceived ch)
  | .ctrlK => some s.handleCtrlK
  | .ctrlL => some s.handleCtrlL
  | .ctrlU => some s.handleCtrlU
  | .ctrlC prompt => some (s.handleCtrlC prompt)
  | .tab f cwd prompt => some (s.handleTab f cwd prompt)
  | .inherited key => some (inherited key s)
  | .entered before ps passwordInput insert =>
    some { lineBuffer := [], lineBufferIndex := 0, insert, passwordInput, ps, row := ⟨before.reverse, []⟩, before }
  | .interrupted prompt => some ({ s with insert := true }.showPrompt prompt)

/-! ## The line and the row -/

/-- What the terminal should have on the row. -/
def displayed (s : Session) : GapBuffer Char :=
  if s.passwordInput then ⟨s.before.reverse, []⟩
  else ⟨(s.lineBuffer.take s.lineBufferIndex).reverse ++ s.before.reverse, s.lineBuffer.drop s.lineBufferIndex⟩

/-- **The screen shows the line.** -/
def Shows (s : Session) : Prop := s.row = displayed s

/-- The cursor is in the line. -/
def Bounded (s : Session) : Prop := s.lineBufferIndex ≤ s.lineBuffer.length

/-- Passwords are typed without keys that `RecvLine` handles, and without completion. -/
def Plain (s : Session) : Event → Prop
  | .inherited _ => s.passwordInput = false
  | .tab _ _ _ => s.passwordInput = false
  | _ => True

/-- What a key must find. -/
def Faithful (s : Session) : Event → Prop
  | .ctrlL => if s.passwordInput then s.lineBuffer = [] else s.lineBufferIndex = s.lineBuffer.length
  | .ctrlU => s.passwordInput = true → s.lineBufferIndex = 0 ∨ s.before = []
  | .tab f cwd _ =>
    -- nothing is completed, the files are listed, or the cursor is at the end
    s.lineBuffer = [] ∨ Session.files f cwd s.lineBuffer = [] ∨
      1 < (Session.files f cwd s.lineBuffer).length ∧ Completion.handleTab f cwd s.lineBuffer = s.lineBuffer ∨
      if s.insert then s.lineBufferIndex = s.lineBuffer.length
      else s.lineBuffer.length ≤ s.lineBufferIndex + (Completion.handleTab f cwd s.lineBuffer).length
  | .interrupted _ => s.passwordInput = false → s.lineBuffer = []
  | _ => True

/-! ## The keys -/

section
variable {s : Session}

/-- Characters to the left are erased, the rest stays. -/
theorem eraseBackwards_eq {n : Nat} {b a : List Char} (h : n ≤ b.length ∨ a = []) :
    eraseBackwards n ⟨b, a⟩ = ⟨b.drop n, a⟩ := by
  unfold eraseBackwards
  induction n generalizing b with
  | zero => rfl
  | succ n ih =>
    rw [Function.iterate_succ_apply]
    cases b with
    | nil =>
      obtain rfl : a = [] := h.resolve_left (by simp)
      exact (ih (b := []) (.inr rfl)).trans (by rw [List.drop_nil, List.drop_nil])
    | cons c b => exact ih (h.imp_left Nat.le_of_succ_le_succ)

theorem row_of_hidden (hs : Shows s) (h : s.passwordInput = true) : s.row = ⟨s.before.reverse, []⟩ := by
  rw [hs, displayed, if_pos h]

theorem row_of_visible (hs : Shows s) (h : s.passwordInput = false) :
    s.row =
      ⟨(s.lineBuffer.take s.lineBufferIndex).reverse ++ s.before.reverse, s.lineBuffer.drop s.lineBufferIndex⟩ := by
  rw [hs, displayed, if_neg (by simp [h])]

theorem shows_characterReceived (hs : Shows s) (hb : Bounded s) (ch : Char) : Shows (s.characterReceived ch) := by
  unfold Shows displayed Session.characterReceived
  cases hp : s.passwordInput with
  | true => simpa using row_of_hidden hs hp
  | false =>
    have htake : (s.lineBuffer.take s.lineBufferIndex).length = s.lineBufferIndex := List.length_take_of_le hb
    have hline : ∀ rest : List Char, (s.lineBuffer.take s.lineBufferIndex ++ ch :: rest).take (s.lineBufferIndex + 1) =
        s.lineBuffer.take s.lineBufferIndex ++ [ch] ∧
        (s.lineBuffer.take s.lineBufferIndex ++ ch :: rest).drop (s.lineBufferIndex + 1) = rest := by
      intro rest
      have hsplit : s.lineBuffer.take s.lineBufferIndex ++ ch :: rest =
          (s.lineBuffer.take s.lineBufferIndex ++ [ch]) ++ rest := by simp
      have hlength : (s.lineBuffer.take s.lineBufferIndex ++ [ch]).length = s.lineBufferIndex + 1 := by simp [htake]
      rw [hsplit]
      exact ⟨List.take_left' hlength, List.drop_left' hlength⟩
    simp only [Bool.false_eq_true, if_false, row_of_visible hs hp, write]
    rw [(hline _).1, (hline _).2]
    cases s.insert <;> simp

theorem shows_handleCtrlK (hs : Shows s) : Shows s.handleCtrlK := by
  unfold Shows displayed Session.handleCtrlK eraseToLineEnd
  cases hp : s.passwordInput with
  | true => simp [row_of_hidden hs hp]
  | false => simp [row_of_visible hs hp]

theorem drop_eq_nil_iff_of_bounded (hb : Bounded s) :
    s.lineBuffer.drop s.lineBufferIndex = [] ↔ s.lineBufferIndex = s.lineBuffer.length := by
  rw [List.drop_eq_nil_iff]
  exact ⟨fun h => Nat.le_antisymm hb h, fun h => h.ge⟩

theorem shows_handleCtrlL_iff (hb : Bounded s) : Shows s.handleCtrlL ↔ Faithful s .ctrlL := by
  unfold Shows displayed Session.handleCtrlL write Faithful
  cases hp : s.passwordInput with
  | true => simp
  | false =>
    simp only [Bool.false_eq_true, if_false, List.append_nil, ite_self, List.drop_nil, GapBuffer.mk.injEq]
    rw [← drop_eq_nil_iff_of_bounded hb]
    constructor
    · exact fun h => h.2.symm
    · intro h
      have htake : s.lineBuffer.take s.lineBufferIndex = s.lineBuffer := by
        rw [List.take_of_length_le (List.drop_eq_nil_iff.mp h)]
      exact ⟨by rw [htake, List.reverse_append], h.symm⟩

theorem shows_handleCtrlU_iff (hs : Shows s) (hb : Bounded s) : Shows s.handleCtrlU ↔ Faithful s .ctrlU := by
  unfold Shows displayed Session.handleCtrlU Faithful
  cases hp : s.passwordInput with
  | true =>
    simp only [if_true, forall_const]
    rw [row_of_hidden hs hp, eraseBackwards_eq (.inr rfl), GapBuffer.mk.injEq]
    constructor
    · rintro ⟨h, -⟩
      have hlength := congrArg List.length h
      rw [List.length_drop, List.length_reverse] at hlength
      by_cases hzero : s.lineBufferIndex = 0
      · exact .inl hzero
      · exact .inr (List.eq_nil_of_length_eq_zero (by omega))
    · rintro (h | h)
      · exact ⟨by rw [h, List.drop_zero], rfl⟩
      · exact ⟨by rw [h, List.reverse_nil, List.drop_nil], rfl⟩
  | false =>
    have hlength : (s.lineBuffer.take s.lineBufferIndex).reverse.length = s.lineBufferIndex := by
      rw [List.length_reverse, List.length_take_of_le hb]
    refine iff_of_true ?_ (fun h => absurd h (by simp))
    simp only [Bool.false_eq_true, if_false, List.take_zero, List.reverse_nil, List.nil_append, List.drop_zero]
    rw [row_of_visible hs hp, eraseBackwards_eq (.inl (by rw [List.length_append, hlength]; omega)),
      List.drop_left' hlength]

theorem shows_showPrompt {prompt : List Char} (h : s.passwordInput = true ∨ s.lineBuffer = []) :
    Shows (s.showPrompt prompt) := by
  unfold Shows displayed Session.showPrompt write
  rcases h with h | h <;> simp [h]

theorem shows_interrupted_iff {prompt : List Char} :
    Shows (({ s with insert := true } : Session).showPrompt prompt) ↔ Faithful s (.interrupted prompt) := by
  constructor
  · intro h hp
    unfold Shows displayed Session.showPrompt write at h
    simp only [hp, Bool.false_eq_true, if_false, List.append_nil, GapBuffer.mk.injEq] at h
    obtain ⟨hbefore, hafter⟩ := h
    have htake : s.lineBuffer.take s.lineBufferIndex = [] := by
      have hlength := congrArg List.length hbefore
      simp only [List.length_append, List.length_reverse] at hlength
      exact List.eq_nil_of_length_eq_zero (by omega)
    simp only [if_true] at hafter
    rw [← List.take_append_drop s.lineBufferIndex s.lineBuffer, htake, ← hafter]
    rfl
  · intro h
    refine shows_showPrompt ?_
    cases hp : s.passwordInput with
    | true => exact .inl rfl
    | false => exact .inr (h hp)

/-- What a completion leaves on the row, if the files are not listed. -/
theorem shows_completed_iff (hs : Shows s) (hb : Bounded s) (hp : s.passwordInput = false) (newbuf : List Char) :
    Shows { s with lineBuffer := newbuf, lineBufferIndex := newbuf.length,
                   row := write s.insert newbuf (eraseBackwards s.lineBufferIndex s.row) } ↔
      if s.insert then s.lineBufferIndex = s.lineBuffer.length
      else s.lineBuffer.length ≤ s.lineBufferIndex + newbuf.length := by
  have hlength : (s.lineBuffer.take s.lineBufferIndex).reverse.length = s.lineBufferIndex := by
    rw [List.length_reverse, List.length_take_of_le hb]
  have herased : eraseBackwards s.lineBufferIndex s.row = ⟨s.before.reverse, s.lineBuffer.drop s.lineBufferIndex⟩ := by
    rw [row_of_visible hs hp, eraseBackwards_eq (.inl (by rw [List.length_append, hlength]; omega)),
      List.drop_left' hlength]
  unfold Shows displayed write
  simp only [hp, Bool.false_eq_true, if_false, herased, List.take_length, List.drop_length, GapBuffer.mk.injEq,
    true_and]
  cases s.insert with
  | true =>
    simp only [if_true]
    exact drop_eq_nil_iff_of_bounded hb
  | false =>
    simp only [Bool.false_eq_true, if_false, List.drop_drop]
    exact List.drop_eq_nil_iff

theorem shows_handleTab_iff (hs : Shows s) (hb : Bounded s) (hp : s.passwordInput = false) (f : HoneyPotFilesystem)
    (cwd : Str) (prompt : List Char) : Shows (s.handleTab f cwd prompt) ↔ Faithful s (.tab f cwd prompt) := by
  unfold Session.handleTab Faithful
  simp only
  by_cases hreturns : s.lineBuffer = [] ∨ Session.files f cwd s.lineBuffer = []
  · rw [if_pos hreturns]
    exact iff_of_true hs (hreturns.imp_right .inl)
  · obtain ⟨hline, hfiles⟩ := not_or.mp hreturns
    rw [if_neg hreturns]
    simp only [hline, hfiles, false_or]
    generalize Completion.handleTab f cwd s.lineBuffer = newbuf
    by_cases hlist : 1 < (Session.files f cwd s.lineBuffer).length ∧ newbuf = s.lineBuffer
    · rw [if_pos hlist]
      refine iff_of_true ?_ (.inl hlist)
      unfold Shows displayed Session.showPrompt write
      simp [hp]
    · rw [if_neg hlist]
      simp only [hlist, false_or]
      exact shows_completed_iff hs hb hp newbuf

/-- The cursor stays in the line. -/
theorem bounded_handleTab (hb : Bounded s) (f : HoneyPotFilesystem) (cwd : Str) (prompt : List Char) :
    Bounded (s.handleTab f cwd prompt) := by
  unfold Session.handleTab
  simp only
  split_ifs
  · exact hb
  · exact Nat.le_refl _
  · exact Nat.le_refl _

end

/-! ## Sessions -/

variable {inherited : Nat → Session → Session}

/-- `RecvLine` keeps the screen right. -/
def KeepsScreen (inherited : Nat → Session → Session) : Prop :=
  ∀ key s, s.passwordInput = false → Shows s → Bounded s → Shows (inherited key s) ∧ Bounded (inherited key s)

theorem bounded_step (hkeeps : KeepsScreen inherited) {s t : Session} {e : Event} (hs : Shows s) (hb : Bounded s)
    (hplain : Plain s e) (h : step inherited s e = some t) : Bounded t := by
  cases e with
  | character ch =>
    cases h
    unfold Bounded Session.characterReceived at *
    simp only [List.length_append, List.length_take, List.length_cons]
    omega
  | ctrlK =>
    cases h
    unfold Bounded Session.handleCtrlK at *
    simp only [List.length_take]
    omega
  | ctrlL =>
    cases h
    exact hb
  | ctrlU =>
    cases h
    exact Nat.zero_le _
  | ctrlC prompt =>
    cases h
    exact Nat.zero_le _
  | tab f cwd prompt =>
    cases h
    exact bounded_handleTab hb f cwd prompt
  | inherited key =>
    cases h
    exact (hkeeps key s hplain hs hb).2
  | entered =>
    cases h
    exact Nat.zero_le _
  | interrupted prompt =>
    cases h
    exact hb

/-- **One key**: the screen shows the line after it iff it found what it must. -/
theorem shows_step_iff (hkeeps : KeepsScreen inherited) {s t : Session} {e : Event} (hs : Shows s) (hb : Bounded s)
    (hplain : Plain s e) (h : step inherited s e = some t) : Shows t ↔ Faithful s e := by
  cases e with
  | character ch =>
    cases h
    exact iff_of_true (shows_characterReceived hs hb ch) trivial
  | ctrlK =>
    cases h
    exact iff_of_true (shows_handleCtrlK hs) trivial
  | ctrlL =>
    cases h
    exact shows_handleCtrlL_iff hb
  | ctrlU =>
    cases h
    exact shows_handleCtrlU_iff hs hb
  | ctrlC prompt =>
    cases h
    exact iff_of_true (shows_showPrompt (.inr rfl)) trivial
  | tab f cwd prompt =>
    cases h
    exact shows_handleTab_iff hs hb hplain f cwd prompt
  | inherited key =>
    cases h
    exact iff_of_true (hkeeps key s hplain hs hb).1 trivial
  | entered before ps passwordInput insert =>
    cases h
    refine iff_of_true ?_ trivial
    unfold Shows displayed
    simp
  | interrupted prompt =>
    cases h
    exact shows_interrupted_iff

/-- A session that begins with a prompt. -/
def start (prompt : List Char) : Session := { ps := prompt, row := ⟨prompt.reverse, []⟩, before := prompt }

theorem shows_start (prompt : List Char) : Shows (start prompt) := by
  unfold Shows displayed start
  simp

/-- `RecvLine.handle_LEFT`. -/
def handleLeft (s : Session) : Session :=
  if 0 < s.lineBufferIndex then { s with lineBufferIndex := s.lineBufferIndex - 1, row := s.row.left } else s

/-- `RecvLine.handle_BACKSPACE`. -/
def handleBackspace (s : Session) : Session :=
  if 0 < s.lineBufferIndex then
    { s with
      lineBufferIndex := s.lineBufferIndex - 1
      lineBuffer := s.lineBuffer.eraseIdx (s.lineBufferIndex - 1)
      row := eraseBackward s.row }
  else s

/-- The left arrow and backspace. -/
def recvLine (key : Nat) (s : Session) : Session :=
  if key = 0 then handleLeft s else if key = 1 then handleBackspace s else s

/-- The character before the cursor. -/
theorem row_succ {s : Session} (hs : Shows s) (hp : s.passwordInput = false) {k : Nat} (hk : s.lineBufferIndex = k + 1)
    (hlt : k < s.lineBuffer.length) :
    s.row = ⟨s.lineBuffer[k] :: ((s.lineBuffer.take k).reverse ++ s.before.reverse), s.lineBuffer.drop (k + 1)⟩ := by
  rw [row_of_visible hs hp, hk, List.take_succ_eq_append_getElem hlt, List.reverse_append]
  rfl

theorem keepsScreen_recvLine : KeepsScreen recvLine := by
  intro key s hp hs hb
  unfold recvLine handleLeft handleBackspace
  by_cases hpos : 0 < s.lineBufferIndex
  · obtain ⟨k, hk⟩ := Nat.exists_eq_succ_of_ne_zero hpos.ne'
    have hlt : k < s.lineBuffer.length := by
      unfold Bounded at hb
      omega
    have htake : (s.lineBuffer.take k).length = k := List.length_take_of_le hlt.le
    have hrow := row_succ hs hp hk hlt
    split_ifs
    · refine ⟨?_, (Nat.sub_le _ _).trans hb⟩
      unfold Shows displayed
      simp only [hp, Bool.false_eq_true, if_false, hrow, hk, Nat.succ_sub_one, List.drop_eq_getElem_cons hlt]
      rfl
    · refine ⟨?_, ?_⟩
      · unfold Shows displayed
        simp only [hp, Bool.false_eq_true, if_false, hrow, hk, Nat.succ_sub_one]
        rw [List.eraseIdx_eq_take_drop_succ, List.take_left' htake, List.drop_left' htake]
        rfl
      · unfold Bounded at *
        simp only [List.length_eraseIdx]
        split_ifs <;> omega
    · exact ⟨hs, hb⟩
  · rw [if_neg hpos, if_neg hpos]
    split_ifs <;> exact ⟨hs, hb⟩

/-- `lx` is typed, the `x` erased, an `s` put in before the `l`, the rest cut off, and the line sent. -/
def sampleKeys : List Event :=
  [.character 'l', .character 'x', .inherited 1, .inherited 0, .character 's', .ctrlK,
    .entered ['$', ' '] ['$', ' '] false true]

/-- Ctrl-L in the middle of a line leaves the cursor at its end. -/
example : (run (step recvLine) (start ['$', ' ']) [.character 'l', .character 's', .inherited 0, .ctrlL]).map
    (fun s => (s.row, displayed s)) = some (⟨['s', 'l', ' ', '$'], []⟩, ⟨['l', ' ', '$'], ['s']⟩) := by decide

/-- Ctrl-U in a password erases what asks for it. -/
example : (run (step recvLine) (start [])
    [.entered ['k', 'e', 'y', ':'] [] true false, .character 'x', .character 'y', .ctrlU]).map (fun s => s.row) =
    some ⟨['e', 'k'], []⟩ := by decide

end Cowrie.Shell.Screen
