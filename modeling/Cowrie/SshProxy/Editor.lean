import Cowrie.Lib.GapBuffer
import Cowrie.SshProxy.Term

/-!
# The line that is typed (`src/cowrie/ssh_proxy/protocols/term.py:92-164`)

`Term` follows what the attacker types with a string and an integer. Here is the editor it follows: a gap
buffer and the lines that have been submitted (`Editor`), and the keys that the bytes stand for (`keys`).

* `key_press`: one turn of the loop is one key.
* **`editor_log`**: `Term` logs the lines that the editor has, for all bytes without tab and arrows up
  and down.
-/

namespace Cowrie.SshProxy

open Lib

/-! ## Keys -/

inductive Key
  | typed (b : UInt8)
  | backspace
  | submit
  | interrupt
  | home
  | toEnd
  | left
  | right
  | tab
  | history
  deriving DecidableEq, Repr

/-- The keys that send three bytes. -/
def sequences : List (Bytes × Key) :=
  [([0x1b, 0x4f, 0x48], .home), ([0x1b, 0x4f, 0x46], .toEnd), ([0x1b, 0x5b, 0x43], .right),
   ([0x1b, 0x5b, 0x44], .left), ([0x1b, 0x5b, 0x41], .history), ([0x1b, 0x5b, 0x42], .history)]

/-- The keys that send one byte. -/
def Key.ofByte (b : UInt8) : Key :=
  if b = 0x09 then .tab
  else if b = 0x08 ∨ b = 0x7f then .backspace
  else if b = 0x0a ∨ b = 0x0d then .submit
  else if b = 0x03 then .interrupt
  else .typed b

/-- The first key, and what follows it. -/
def firstKey (b : UInt8) (data : Bytes) : Key × Bytes :=
  match sequences.find? fun s => s.1.isPrefixOf (b :: data) with
  | some s => (s.2, data.drop 2)
  | none => (.ofByte b, data)

/-- The keys of at most `fuel` bytes. -/
def keysFrom : Nat → Bytes → List Key
  | 0, _ => []
  | _, [] => []
  | fuel + 1, b :: data => (firstKey b data).1 :: keysFrom fuel (firstKey b data).2

def keys (data : Bytes) : List Key := keysFrom data.length data

/-- Neither tab nor an arrow up or down: what these do depends on the backend. -/
def Key.Edits (k : Key) : Prop := k ≠ .tab ∧ k ≠ .history

instance (k : Key) : Decidable k.Edits := inferInstanceAs (Decidable (_ ∧ _))

/-! ## The editor -/

structure Editor where
  line : GapBuffer UInt8 := {}
  submitted : List Bytes := []
  deriving DecidableEq

namespace Editor

/-- The line is complete; an empty one does not count. -/
def enter (e : Editor) (line : Bytes) : Editor :=
  ⟨{}, if line = [] then e.submitted else e.submitted ++ [line]⟩

def press (e : Editor) : Key → Editor
  | .typed b => { e with line := e.line.insert b }
  | .backspace => { e with line := e.line.backspace }
  | .submit => e.enter e.line.contents
  | .interrupt => e.enter (e.line.contents ++ encode "^C")
  | .home => { e with line := e.line.home }
  | .toEnd => { e with line := e.line.toEnd }
  | .left => { e with line := e.line.left }
  | .right => { e with line := e.line.right }
  | .tab => e
  | .history => e

def run (e : Editor) (ks : List Key) : Editor := ks.foldl press e

end Editor

/-- `Term` has the line and the cursor of the editor, and has logged its lines. -/
structure Follows (e : Editor) (t : Term) : Prop where
  command : t.command = e.line.contents
  pointer : t.pointer = e.line.cursor
  log : t.log = e.submitted.map logInput

/-! ## One key -/

theorem sliceTo_natCast (b : Bytes) (n : Nat) : sliceTo b n = b.take n := by
  unfold sliceTo
  rw [if_pos (Int.natCast_nonneg n), Int.toNat_natCast]

theorem sliceFrom_natCast (b : Bytes) (n : Nat) : sliceFrom b n = b.drop n := by
  unfold sliceFrom
  rw [if_pos (Int.natCast_nonneg n), Int.toNat_natCast]

section
variable {e : Editor} {t : Term} (h : Follows e t)
include h

theorem Follows.insert (b : UInt8) : Follows (e.press (.typed b)) (t.insert [b]) where
  command := by
    change sliceTo t.command t.pointer ++ [b] ++ sliceFrom t.command t.pointer = (e.line.insert b).contents
    rw [h.command, h.pointer, sliceTo_natCast, sliceFrom_natCast, GapBuffer.contents_insert,
      List.append_assoc]
    rfl
  pointer := by
    change t.pointer + 1 = ((e.line.insert b).cursor : Int)
    rw [GapBuffer.cursor_insert, h.pointer, Int.natCast_succ]
  log := h.log

theorem Follows.backspace : Follows (e.press .backspace) t.backspace := by
  unfold Term.backspace
  by_cases hpos : 0 < t.pointer
  · have hcursor : 0 < e.line.cursor := by rw [h.pointer] at hpos; omega
    have hless : t.pointer - 1 = ((e.line.cursor - 1 : Nat) : Int) := by rw [h.pointer]; omega
    rw [if_pos hpos]
    constructor
    · change sliceTo t.command (t.pointer - 1) ++ sliceFrom t.command t.pointer = e.line.backspace.contents
      rw [hless, h.command, h.pointer, sliceTo_natCast, sliceFrom_natCast, GapBuffer.contents_backspace]
    · change t.pointer - 1 = (e.line.backspace.cursor : Int)
      rw [hless, GapBuffer.cursor_backspace]
    · exact h.log
  · have hcursor : e.line.cursor = 0 := by rw [h.pointer] at hpos; omega
    rw [if_neg hpos]
    constructor
    · change t.command = e.line.backspace.contents
      rw [GapBuffer.contents_backspace, hcursor, h.command]
      rfl
    · change t.pointer = (e.line.backspace.cursor : Int)
      rw [h.pointer, GapBuffer.cursor_backspace, hcursor]
    · exact h.log

/-- The line is logged if there is one, and a new one begins. -/
theorem Follows.enter {line : Bytes} {t' : Term} (hcommand : t'.command = []) (hpointer : t'.pointer = 0)
    (hlog : t'.log = if line = [] then t.log else t.log ++ [logInput line]) :
    Follows (e.enter line) t' where
  command := hcommand
  pointer := hpointer
  log := by
    change t'.log = (if line = [] then e.submitted else e.submitted ++ [line]).map logInput
    rw [hlog, h.log]
    split_ifs
    · rfl
    · rw [List.map_append]
      rfl

theorem Follows.submit {one : Bytes} (hone : one ≠ [0x03]) : Follows (e.press .submit) (t.enter one) := by
  refine h.enter rfl rfl ?_
  unfold Term.enter
  simp only
  rw [if_neg hone, h.command]

theorem Follows.interrupt : Follows (e.press .interrupt) (t.enter [0x03]) := by
  refine h.enter rfl rfl ?_
  unfold Term.enter
  simp only [if_true]
  rw [h.command]

theorem Follows.home : Follows (e.press .home) { t with pointer := 0 } where
  command := h.command.trans (GapBuffer.contents_home e.line).symm
  pointer := congrArg Int.ofNat (GapBuffer.cursor_home e.line).symm
  log := h.log

theorem Follows.toEnd : Follows (e.press .toEnd) { t with pointer := t.command.length } where
  command := h.command.trans (GapBuffer.contents_toEnd e.line).symm
  pointer := by
    change (t.command.length : Int) = (e.line.toEnd.cursor : Int)
    rw [h.command, GapBuffer.cursor_toEnd]
  log := h.log

theorem Follows.right : Follows (e.press .right)
    { t with pointer := if t.pointer ≠ t.command.length then t.pointer + 1 else t.pointer } where
  command := h.command.trans (GapBuffer.contents_right e.line).symm
  pointer := by
    change (if t.pointer ≠ t.command.length then t.pointer + 1 else t.pointer) = (e.line.right.cursor : Int)
    rw [GapBuffer.cursor_right, h.command, h.pointer]
    split_ifs <;> omega
  log := h.log

theorem Follows.left : Follows (e.press .left)
    { t with pointer := if t.pointer ≠ 0 then t.pointer - 1 else t.pointer } where
  command := h.command.trans (GapBuffer.contents_left e.line).symm
  pointer := by
    change (if t.pointer ≠ 0 then t.pointer - 1 else t.pointer) = (e.line.left.cursor : Int)
    rw [GapBuffer.cursor_left, h.pointer]
    split_ifs <;> omega
  log := h.log

end

/-! ## The keys of the loop -/

/-- A byte that does not begin a sequence. -/
theorem firstKey_byte {b : UInt8} (hb : b ≠ 0x1b) (data : Bytes) : firstKey b data = (.ofByte b, data) := by
  have hne : (0x1b == b) = false := beq_eq_false_iff_ne.mpr (Ne.symm hb)
  unfold firstKey sequences
  simp [List.find?, List.isPrefixOf, hne]

theorem isPrefixOf_two (x y : UInt8) (data : Bytes) :
    ([0x1b, x, y] : Bytes).isPrefixOf (0x1b :: data) = decide (data.take 2 = [x, y]) := by
  rcases data with - | ⟨c, - | ⟨d, data⟩⟩
  · rfl
  · simp [List.isPrefixOf]
  · have hx : (x == c) = decide (c = x) := by simp [beq_eq_decide, eq_comm]
    have hy : (y == d) = decide (d = y) := by simp [beq_eq_decide, eq_comm]
    simp [List.isPrefixOf, hx, hy]

/-- What follows an escape. -/
theorem firstKey_escape (data : Bytes) :
    firstKey 0x1b data =
      if data.take 2 = [0x4f, 0x48] then (.home, data.drop 2)
      else if data.take 2 = [0x4f, 0x46] then (.toEnd, data.drop 2)
      else if data.take 2 = [0x5b, 0x43] then (.right, data.drop 2)
      else if data.take 2 = [0x5b, 0x44] then (.left, data.drop 2)
      else if data.take 2 = [0x5b, 0x41] then (.history, data.drop 2)
      else if data.take 2 = [0x5b, 0x42] then (.history, data.drop 2)
      else (.typed 0x1b, data) := by
  unfold firstKey sequences
  simp only [List.find?, isPrefixOf_two]
  split_ifs <;> simp_all [Key.ofByte]

/-- One turn of the loop on a byte that does not begin a sequence. -/
theorem key_byte (t : Term) {b : UInt8} (hb : b ≠ 0x1b) (data : Bytes) :
    t.key (b :: data) =
      if b = 0x09 then ({ t with tabPress := true }, 1)
      else if b = 0x7f ∨ b = 0x08 then (t.backspace, 1)
      else if b = 0x0d ∨ b = 0x03 ∨ b = 0x0a then (t.enter [b], 1)
      else (t.insert [b], 1) := by
  unfold Term.key
  simp [hb]

theorem key_escape (t : Term) (data : Bytes) :
    t.key (0x1b :: data) =
      if data.take 2 = [0x4f, 0x48] then ({ t with pointer := 0 }, 3)
      else if data.take 2 = [0x4f, 0x46] then ({ t with pointer := t.command.length }, 3)
      else if data.take 2 = [0x5b, 0x43] then
        ({ t with pointer := if t.pointer ≠ t.command.length then t.pointer + 1 else t.pointer }, 3)
      else if data.take 2 = [0x5b, 0x44] then
        ({ t with pointer := if t.pointer ≠ 0 then t.pointer - 1 else t.pointer }, 3)
      else if data.take 2 = [0x5b, 0x41] ∨ data.take 2 = [0x5b, 0x42] then ({ t with upArrow := true }, 3)
      else (t.insert [0x1b], 1) := by
  unfold Term.key
  simp

/-- A turn that begins with the escape character. -/
theorem key_press_escape {e : Editor} {t : Term} (h : Follows e t) {data : Bytes}
    (hedits : (firstKey 0x1b data).1.Edits) :
    Follows (e.press (firstKey 0x1b data).1) (t.key (0x1b :: data)).1 ∧
      (0x1b :: data).drop (t.key (0x1b :: data)).2 = (firstKey 0x1b data).2 := by
  rw [firstKey_escape] at hedits ⊢
  rw [key_escape]
  by_cases hhome : data.take 2 = [0x4f, 0x48]
  · simp only [if_pos hhome]
    exact ⟨h.home, rfl⟩
  by_cases hend : data.take 2 = [0x4f, 0x46]
  · simp only [if_neg hhome, if_pos hend]
    exact ⟨h.toEnd, rfl⟩
  by_cases hright : data.take 2 = [0x5b, 0x43]
  · simp only [if_neg hhome, if_neg hend, if_pos hright]
    exact ⟨h.right, rfl⟩
  by_cases hleft : data.take 2 = [0x5b, 0x44]
  · simp only [if_neg hhome, if_neg hend, if_neg hright, if_pos hleft]
    exact ⟨h.left, rfl⟩
  simp only [if_neg hhome, if_neg hend, if_neg hright, if_neg hleft] at hedits ⊢
  by_cases hup : data.take 2 = [0x5b, 0x41]
  · rw [if_pos hup] at hedits
    exact absurd rfl hedits.2
  by_cases hdown : data.take 2 = [0x5b, 0x42]
  · rw [if_neg hup, if_pos hdown] at hedits
    exact absurd rfl hedits.2
  simp only [if_neg hup, if_neg hdown, if_neg (not_or.mpr ⟨hup, hdown⟩)]
  exact ⟨h.insert 0x1b, rfl⟩

/-- A turn that begins with any other byte. -/
theorem key_press_byte {e : Editor} {t : Term} (h : Follows e t) {b : UInt8} (hb : b ≠ 0x1b) {data : Bytes}
    (hedits : (firstKey b data).1.Edits) :
    Follows (e.press (firstKey b data).1) (t.key (b :: data)).1 ∧
      (b :: data).drop (t.key (b :: data)).2 = (firstKey b data).2 := by
  rw [firstKey_byte hb] at hedits ⊢
  rw [key_byte t hb]
  unfold Key.ofByte at hedits ⊢
  by_cases htab : b = 0x09
  · rw [if_pos htab] at hedits
    exact absurd rfl hedits.1
  by_cases hback : b = 0x08 ∨ b = 0x7f
  · simp only [if_neg htab, if_pos hback, if_pos hback.symm]
    exact ⟨h.backspace, rfl⟩
  have hback' : ¬ (b = 0x7f ∨ b = 0x08) := fun h => hback h.symm
  by_cases hsubmit : b = 0x0a ∨ b = 0x0d
  · have henter : b = 0x0d ∨ b = 0x03 ∨ b = 0x0a := by tauto
    have hone : ([b] : Bytes) ≠ [0x03] := by
      rcases hsubmit with rfl | rfl <;> decide
    simp only [if_neg htab, if_neg hback, if_neg hback', if_pos hsubmit, if_pos henter]
    exact ⟨h.submit hone, rfl⟩
  by_cases hctrl : b = 0x03
  · subst hctrl
    exact ⟨h.interrupt, rfl⟩
  have hnone : ¬ (b = 0x0d ∨ b = 0x03 ∨ b = 0x0a) := by tauto
  simp only [if_neg htab, if_neg hback, if_neg hback', if_neg hsubmit, if_neg hctrl, if_neg hnone]
  exact ⟨h.insert b, rfl⟩

/-- **One turn of the loop is one key.** -/
theorem key_press {e : Editor} {t : Term} (h : Follows e t) {b : UInt8} {data : Bytes}
    (hedits : (firstKey b data).1.Edits) :
    Follows (e.press (firstKey b data).1) (t.key (b :: data)).1 ∧
      (b :: data).drop (t.key (b :: data)).2 = (firstKey b data).2 := by
  by_cases hb : b = 0x1b
  · subst hb
    exact key_press_escape h hedits
  · exact key_press_byte h hb hedits

/-! ## All keys -/

theorem length_firstKey (b : UInt8) (data : Bytes) : (firstKey b data).2.length ≤ data.length := by
  unfold firstKey
  split
  · rw [List.length_drop]
    exact Nat.sub_le _ _
  · exact le_rfl

/-- **The loop follows the editor**, from any line and any cursor in it. -/
theorem loop_run {fuel : Nat} {e : Editor} {t : Term} {data : Bytes} (h : Follows e t)
    (hfuel : data.length ≤ fuel) (hedits : ∀ k ∈ keysFrom fuel data, k.Edits) :
    Follows (e.run (keysFrom fuel data)) (Term.loop Term.key fuel t data) := by
  induction fuel generalizing e t data with
  | zero => exact h
  | succ fuel ih =>
    cases data with
    | nil => exact h
    | cons b data =>
      obtain ⟨hfirst, hrest⟩ := List.forall_mem_cons.mp hedits
      obtain ⟨hpress, hdrop⟩ := key_press h hfirst
      have hshorter := length_firstKey b data
      rw [List.length_cons] at hfuel
      unfold Term.loop
      rw [if_neg (List.cons_ne_nil b data), hdrop]
      exact ih hpress (by omega) hrest

/-- **`Term` logs the lines of the editor.** -/
theorem editor_log {e : Editor} {t : Term} {data : Bytes} (h : Follows e t)
    (hedits : ∀ k ∈ keys data, k.Edits) :
    (t.parsePacket .server data).log = (e.run (keys data)).submitted.map logInput :=
  (loop_run h le_rfl hedits).log

/-- A new terminal. -/
def newTerm : Term := { channelId := 0, recording := { ttylogEnabled := true } }

/-- `lx`, one to the left, backspace, `i`, end, `s`, backspace, enter. -/
theorem editor_log_typed :
    (newTerm.parsePacket .server
      [0x6c, 0x78, 0x1b, 0x5b, 0x44, 0x08, 0x69, 0x1b, 0x4f, 0x46, 0x73, 0x7f, 0x0d]).log =
      [.input "ix"] := by
  have hnew : Follows {} newTerm := ⟨rfl, rfl, rfl⟩
  have hedits : ∀ k ∈ keys
      [0x6c, 0x78, 0x1b, 0x5b, 0x44, 0x08, 0x69, 0x1b, 0x4f, 0x46, 0x73, 0x7f, 0x0d], k.Edits := by decide
  exact (editor_log hnew hedits).trans (by decide +kernel)

end Cowrie.SshProxy
