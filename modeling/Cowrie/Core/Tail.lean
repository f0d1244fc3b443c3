import Cowrie.Bytes
import Cowrie.Lib.Lines
import Cowrie.Lib.Program

/-!
# The last lines of a file (`tail` in `src/cowrie/core/utils.py`)

The file is read in blocks from its end until there is a line feed more in them than lines are wanted, and once
more from where the last block begins, which may be in the middle of a line.

* `BinaryIO` is an open file, with the methods that `tail` calls. `seek` fails before the start.
* `scanBlocks` is the loop; `none` says that the depth does not suffice. Where less than a block is left it still
  reads 1024 bytes, so line feeds are counted twice, but then nothing is left to scan.

Results:
* `exec_scanBlocks`: the loop ends, and what it has scanned is the file or has line feeds enough (`Enough`).
* **`tail_eq_rtake`**: `tail` returns, and what it returns is the end of the list of all lines.
-/

namespace Cowrie.Core

open Lib

/-- An open file. -/
structure BinaryIO where
  content : Bytes
  position : Nat
  deriving DecidableEq

/-- A position before the start. -/
inductive OSError
  | invalidArgument
  deriving DecidableEq

abbrev FileM := Prog OSError BinaryIO

namespace BinaryIO

/-- `seek(offset, 2)`. -/
def seekEnd (offset : Int) : FileM Unit := do
  if (← get).content.length + offset < 0 then throw .invalidArgument
  else modify fun f => { f with position := (f.content.length + offset).toNat }

/-- `tell()`. -/
def tell : FileM Nat := do return (← get).position

/-- `read(size)`. -/
def read (size : Nat) : FileM Bytes := do
  let f ← get
  let data := (f.content.drop f.position).take size
  modify fun f => { f with position := f.position + data.length }
  return data

/-- `readlines()`. -/
def readlines : FileM (List Bytes) := do
  let f ← get
  let rest := f.content.drop f.position
  modify fun f => { f with position := f.position + rest.length }
  return lines 10 rest

end BinaryIO

open BinaryIO

/-- `l[-n:]`. -/
def fromEnd {α : Type} (l : List α) (n : Int) : List α :=
  if 0 < n then l.drop (l.length - n.toNat) else l.drop (-n).toNat

/-- The loop of `tail`; it ends with the bytes that are scanned. -/
def scanBlocks (lines2find : Int) (bytesInFile : Nat) : Nat → Nat → Nat → FileM (Option Nat)
  | 0, _, _ => pure none
  | depth + 1, linesFound, totalBytesScanned =>
    if lines2find + 1 > linesFound ∧ bytesInFile > totalBytesScanned then do
      let byteBlock := min 1024 (bytesInFile - totalBytesScanned)
      seekEnd (-(byteBlock + totalBytesScanned))
      let block ← read 1024
      scanBlocks lines2find bytesInFile depth (linesFound + block.count 10) (totalBytesScanned + byteBlock)
    else pure (some totalBytesScanned)

/-- `tail`. -/
def tail (depth : Nat) (lines2find : Int := 20) : FileM (Option (List Bytes)) := do
  seekEnd 0
  let bytesInFile ← tell
  match ← scanBlocks lines2find bytesInFile depth 0 0 with
  | none => return none
  | some totalBytesScanned => do
    seekEnd (-totalBytesScanned)
    let lineList ← readlines
    return some (fromEnd lineList lines2find)

/-! ## The methods of a file -/

namespace BinaryIO

variable {f : BinaryIO} {n : Nat}

theorem exec_seekEnd (h : n ≤ f.content.length) :
    exec (seekEnd (-n)) f = (.ok (), { f with position := f.content.length - n }) := by
  unfold seekEnd
  rw [exec_get_bind, if_neg (by omega), exec_modify]
  have hposition : ((f.content.length : Int) + -n).toNat = f.content.length - n := by omega
  rw [hposition]

theorem exec_tell : exec tell f = (.ok f.position, f) := rfl

theorem exec_read : exec (read n) f = (.ok ((f.content.drop f.position).take n),
    { f with position := f.position + ((f.content.drop f.position).take n).length }) := rfl

theorem exec_readlines : exec readlines f = (.ok (lines 10 (f.content.drop f.position)),
    { f with position := f.position + (f.content.drop f.position).length }) := rfl

end BinaryIO

/-! ## The loop -/

/-- The line feeds behind where the scan has come to are counted, or it has come to the start. -/
def Tallied (content : Bytes) (linesFound scanned : Nat) : Prop :=
  scanned = content.length ∨
    scanned < content.length ∧ linesFound = (content.drop (content.length - scanned)).count 10

/-- What is scanned is the file, or has a line feed more than `n`. -/
def Enough (content : Bytes) (n : Int) (scanned : Nat) : Prop :=
  scanned = content.length ∨
    scanned < content.length ∧ n + 1 ≤ (content.drop (content.length - scanned)).count 10

/-- The block that ends where the scan has come to. -/
def blockBefore (content : Bytes) (scanned : Nat) : Bytes :=
  (content.drop (content.length - (min 1024 (content.length - scanned) + scanned))).take 1024

/-- One block more. -/
theorem tallied_block {content : Bytes} {linesFound scanned : Nat} (h : Tallied content linesFound scanned)
    (hlt : scanned < content.length) :
    Tallied content (linesFound + (blockBefore content scanned).count 10)
      (scanned + min 1024 (content.length - scanned)) := by
  rcases h with hall | ⟨-, rfl⟩
  · omega
  · unfold blockBefore
    by_cases hlast : content.length - scanned ≤ 1024
    · rw [Nat.min_eq_right hlast]
      exact .inl (by omega)
    · rw [Nat.min_eq_left (by omega)]
      refine .inr ⟨by omega, ?_⟩
      have hbehind : (content.drop (content.length - (1024 + scanned))).drop 1024 =
          content.drop (content.length - scanned) := by
        rw [List.drop_drop]
        congr 1
        omega
      rw [← hbehind, Nat.add_comm, ← List.count_append, List.take_append_drop, Nat.add_comm scanned]

/-- **The loop ends** when the depth is enough for the blocks that are left. -/
theorem exec_scanBlocks {lines2find : Int} {content : Bytes} {depth linesFound scanned position : Nat}
    (h : Tallied content linesFound scanned) (hdepth : content.length < scanned + 1024 * depth + 1) :
    ∃ scanned' position', exec (scanBlocks lines2find content.length (depth + 1) linesFound scanned)
        ⟨content, position⟩ = (.ok (some scanned'), ⟨content, position'⟩) ∧ Enough content lines2find scanned' := by
  induction depth generalizing linesFound scanned position with
  | zero =>
    have hall : ¬ (lines2find + 1 > linesFound ∧ content.length > scanned) := by omega
    unfold scanBlocks
    rw [if_neg hall]
    rcases h with hall | ⟨hlt, -⟩
    · exact ⟨scanned, position, rfl, .inl hall⟩
    · omega
  | succ depth ih =>
    unfold scanBlocks
    by_cases hgo : lines2find + 1 > linesFound ∧ content.length > scanned
    · have hseek := exec_seekEnd (f := ⟨content, position⟩) (n := min 1024 (content.length - scanned) + scanned)
        (by simp only; omega)
      rw [Int.natCast_add] at hseek
      rw [if_pos hgo, exec_bind_ok hseek, exec_bind_ok exec_read]
      exact ih (tallied_block h hgo.2) (by omega)
    · rw [if_neg hgo]
      refine ⟨scanned, position, rfl, ?_⟩
      rcases h with hall | ⟨hlt, rfl⟩
      · exact .inl hall
      · exact .inr ⟨hlt, by omega⟩

/-! ## The lines -/

/-- From an enough large part of the end, the last lines are those of the file. -/
theorem rtake_of_enough {content : Bytes} {n scanned : Nat} (h : Enough content n scanned) :
    (lines 10 (content.drop (content.length - scanned))).rtake n = (lines 10 content).rtake n := by
  rcases h with hall | ⟨hlt, hcount⟩
  · rw [hall, Nat.sub_self, List.drop_zero]
  · have hmore : n < (content.drop (content.length - scanned)).count 10 := by omega
    conv_rhs => rw [← List.take_append_drop (content.length - scanned) content]
    exact (rtake_lines_append hmore).symm

/-- **`tail` is the naive tail**: with a depth for the blocks of the file, it returns the last `n` of all lines. -/
theorem tail_eq_rtake (content : Bytes) (position n : Nat) (hn : 1 ≤ n) (depth : Nat)
    (hdepth : content.length / 1024 + 2 ≤ depth) :
    (exec (tail depth n) ⟨content, position⟩).1 = .ok (some ((lines 10 content).rtake n)) := by
  obtain ⟨depth, rfl⟩ : ∃ k, depth = k + 1 := ⟨depth - 1, by omega⟩
  have hstart : exec (seekEnd 0) ⟨content, position⟩ = (.ok (), ⟨content, content.length⟩) :=
    exec_seekEnd (f := ⟨content, position⟩) (n := 0) (Nat.zero_le _)
  have hnone : Tallied content 0 0 := by
    rcases Nat.eq_zero_or_pos content.length with hempty | hpos
    · exact .inl hempty.symm
    · exact .inr ⟨hpos, by simp⟩
  obtain ⟨scanned, q, hscan, henough⟩ : ∃ scanned q, exec (scanBlocks n content.length (depth + 1) 0 0)
      ⟨content, content.length⟩ = (.ok (some scanned), ⟨content, q⟩) ∧ Enough content n scanned :=
    exec_scanBlocks hnone (by omega)
  have hscanned : scanned ≤ content.length := by
    rcases henough with hall | ⟨hlt, -⟩
    · exact hall.le
    · exact hlt.le
  have hback := exec_seekEnd (f := ⟨content, q⟩) hscanned
  unfold tail
  rw [exec_bind_ok hstart, exec_bind_ok exec_tell, exec_bind_ok hscan]
  simp only
  rw [exec_bind_ok hback, exec_bind_ok exec_readlines, exec_pure]
  simp only
  have hfrom : fromEnd (lines 10 (content.drop (content.length - scanned))) n =
      (lines 10 (content.drop (content.length - scanned))).rtake n := by
    unfold fromEnd
    rw [if_pos (by omega)]
    rfl
  rw [hfrom, rtake_of_enough henough]

/-- A file of two lines, the last one not ended. -/
theorem tail_two_lines :
    (exec (tail 2 (1 : Nat)) ⟨[97, 10, 98], 0⟩).1 = .ok (some ((lines 10 [97, 10, 98]).rtake 1)) :=
  tail_eq_rtake [97, 10, 98] 0 1 (by decide) 2 (by decide)

end Cowrie.Core
