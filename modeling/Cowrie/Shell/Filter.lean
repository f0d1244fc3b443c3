import Cowrie.Lib.Getopt
import Cowrie.Lib.Lines
import Cowrie.Shell.RedirectWrites

/-!
# Commands that read files or standard input (`src/cowrie/shell/command.py:26-84`)

`Reading` is what such a command finds: the files of the session, and `input_data` where something is piped into
it. A computation in `FilterM σ` keeps the fields of its own in a `σ` and collects what it writes; an exception ends
it with what was written so far.

* `checkArguments` is `check_arguments`: directories are complained of and dropped.
* `isDigits` and `intOf` are `str.isdigit` and `int` for such a text, with the Unicode tables beside ASCII as a
  parameter; `int` takes no more than 4300 digits.
* `Gives` says that the operands of a command stand for one text: a readable file, or the input piped in.
* `Prints`: the command ends without an exception and has written this to standard output.

Left out: `exit`, log messages, and lines typed at a command that waits for its input.
-/

namespace Cowrie.Shell.Filter

open Cowrie.Lib Fs Heap HoneyPotFilesystem Redirect

/-- What the command reads. -/
structure Reading where
  cfg : Setup
  world : World
  inputData : Option Bytes := none

/-- The fields of the command, and what it has written. -/
structure Progress (σ : Type) where
  own : σ
  written : List Write := []

abbrev FilterM (σ α : Type) := Prog FsError (Progress σ) α

variable {σ α : Type}

def writeBytes (data : Bytes) : FilterM σ Unit :=
  modify fun s => { s with written := s.written ++ [.out data] }

/-- `self.write(data)`. -/
def writeText (data : Str) : FilterM σ Unit := writeBytes (encode (String.ofList data))

def errorWrite (data : Str) : FilterM σ Unit :=
  modify fun s => { s with written := s.written ++ [.err (encode (String.ofList data))] }

/-- The pieces, one write each. -/
def writeAll (pieces : List Bytes) : FilterM σ Unit := pieces.forM writeBytes

namespace Reading

variable (r : Reading)

/-- `self.fs.resolve_path(arg, self.protocol.cwd)`. -/
def resolvePath (arg : Str) : FilterM σ Str := query fun _ => resolve r.cfg.user arg r.world.fs

/-- `self.fs.file_contents(pname)`. -/
def fileContents (pname : Str) : FilterM σ Bytes := query fun _ => Redirect.fileContents r.cfg r.world pname

/-- `check_arguments`. -/
def checkArguments (application : Str) : List Str → FilterM σ (List Str)
  | [] => pure []
  | arg :: args => do
    let path ← r.resolvePath arg
    if r.world.fs.isdir path then do
      errorWrite (application ++ ": error reading `".toList ++ arg ++ "': Is a directory\n".toList)
      checkArguments application args
    else do
      let files ← checkArguments application args
      pure (path :: files)

/-- `not self.input_data`. -/
def noInput : Bool := r.inputData.getD [] = []

/-- The end of the `start` of `head` and `tail`: the input, or the files among the arguments. -/
def feed (name : Str) (getContents : Str → FilterM σ Unit) (application : Bytes → FilterM σ Unit)
    (args : List Str) : FilterM σ Unit :=
  if r.noInput then do
    let files ← r.checkArguments name args
    files.forM getContents
  else application (r.inputData.getD [])

end Reading

/-- The pieces between line feeds, but for an empty last one. -/
def bodyLines (contents : Bytes) : List Bytes :=
  let pieces := contents.splitOn 10
  if pieces.getLast? = some [] then pieces.dropLast else pieces

/-! ## Numbers -/

/-- The digits of ASCII, and those that the Unicode tables have beside them. -/
def withAscii (u : Digits) : Digits where
  decimal c := if c.isDigit then some (c.toNat - 48) else u.decimal c
  isDigit c := c.isDigit || u.isDigit c

/-- `value.isdigit()`. -/
def isDigits (u : Digits) (value : Str) : Bool := value ≠ [] && value.all (withAscii u).isDigit

/-- `int(value)` for a text of digits. -/
def intOf (u : Digits) (value : Str) : FilterM σ Nat :=
  query fun _ =>
    match Shell.intOf (withAscii u) value with
    | .ok n => .ok n
    | .error _ => .error .valueError

/-- The number in decimal. -/
def decimal (n : Nat) : Str := Nat.toDigits 10 n

/-! ## What a command prints -/

/-- The command ends, and this is what it wrote to standard output. -/
def Prints (m : FilterM σ Unit) (own : σ) (data : Bytes) : Prop :=
  ∃ s, exec m ⟨own, []⟩ = (.ok (), s) ∧ stdoutOf s.written = data

/-- The operands stand for this text: none, and it is piped in, or one readable file. -/
inductive Gives (r : Reading) : List Str → Bytes → Prop
  | piped {contents : Bytes} (hinput : r.inputData = some contents) : Gives r [] contents
  | file {arg pname : Str} {contents : Bytes} (hinput : r.noInput = true) (harg : arg.head? ≠ some '-')
      (hresolve : resolve r.cfg.user arg r.world.fs = .ok pname) (hplain : r.world.fs.isdir pname = false)
      (hcontents : Redirect.fileContents r.cfg r.world pname = .ok contents) : Gives r [arg] contents

/-- A text that is piped in. -/
def pipedIn (contents : Bytes) : Reading := ⟨demo, demoWorld, some contents⟩

theorem gives_pipedIn (contents : Bytes) : Gives (pipedIn contents) [] contents := .piped rfl

variable {s : Progress σ} {r : Reading}

@[simp] theorem stdoutOf_out (pieces : List Bytes) : stdoutOf (pieces.map Write.out) = pieces.flatten := by
  unfold stdoutOf
  rw [List.flatMap_map]
  exact List.flatMap_id

@[simp] theorem exec_writeBytes (data : Bytes) :
    exec (writeBytes data) s = (.ok (), { s with written := s.written ++ [.out data] }) := rfl

/-- A loop that leaves the fields of the command alone. -/
theorem exec_forM_pieces {β : Type} {own : σ} {body : β → FilterM σ Unit} {pieces : β → List Bytes}
    (hbody : ∀ x l, exec (body x) ⟨own, l⟩ = (.ok (), ⟨own, l ++ (pieces x).map .out⟩)) (xs : List β)
    (l : List Write) : exec (xs.forM body) ⟨own, l⟩ = (.ok (), ⟨own, l ++ (xs.flatMap pieces).map .out⟩) := by
  induction xs generalizing l with
  | nil =>
    rw [List.flatMap_nil, List.map_nil, List.append_nil]
    rfl
  | cons x xs ih =>
    have hcons : ((x :: xs).forM body : FilterM σ Unit) = (body x >>= fun _ => xs.forM body) := rfl
    rw [hcons, exec_bind_ok (hbody x l), ih, List.flatMap_cons, List.map_append, List.append_assoc]

/-- A loop in which every turn makes one write. -/
theorem exec_forM_out {β : Type} {body : β → FilterM σ Unit} {piece : β → Bytes}
    (hbody : ∀ x s, exec (body x) s = (.ok (), { s with written := s.written ++ [.out (piece x)] })) (xs : List β) :
    exec (xs.forM body) s = (.ok (), { s with written := s.written ++ (xs.map piece).map .out }) := by
  have hturn (x : β) (l : List Write) :
      exec (body x) ⟨s.own, l⟩ = (.ok (), ⟨s.own, l ++ [piece x].map .out⟩) := hbody x ⟨s.own, l⟩
  have hall := exec_forM_pieces hturn xs s.written
  rw [← List.map_eq_flatMap] at hall
  exact hall

theorem exec_writeAll (pieces : List Bytes) :
    exec (writeAll pieces) s = (.ok (), { s with written := s.written ++ pieces.map .out }) := by
  unfold writeAll
  rw [exec_forM_out fun x t => exec_writeBytes x, List.map_id']

/-- A readable file passes `check_arguments`. -/
theorem exec_checkArguments_file {arg pname : Str} (application : Str)
    (hresolve : resolve r.cfg.user arg r.world.fs = .ok pname) (hplain : r.world.fs.isdir pname = false) :
    exec (r.checkArguments application [arg]) s = (.ok [pname], s) := by
  have hpath : exec (r.resolvePath arg) s = (.ok pname, s) := by
    unfold Reading.resolvePath
    rw [exec_query, hresolve]
  unfold Reading.checkArguments
  rw [exec_bind_ok hpath, hplain]
  rfl

theorem exec_fileContents {pname : Str} {contents : Bytes}
    (h : Redirect.fileContents r.cfg r.world pname = .ok contents) :
    exec (r.fileContents pname) s = (.ok contents, s) := by
  unfold Reading.fileContents
  rw [exec_query, h]

/-- One text is fed to the command once, or not at all if it is piped in and empty. -/
theorem exec_feed {args : List Str} {contents : Bytes} (h : Gives r args contents) (name : Str)
    {getContents : Str → FilterM σ Unit} {application : Bytes → FilterM σ Unit}
    (hget : ∀ pname, Redirect.fileContents r.cfg r.world pname = .ok contents →
      exec (getContents pname) s = exec (application contents) s) :
    exec (r.feed name getContents application args) s =
      if args = [] ∧ contents = [] then (.ok (), s) else exec (application contents) s := by
  unfold Reading.feed
  cases h with
  | piped hinput =>
    unfold Reading.noInput
    rw [hinput, Option.getD_some]
    by_cases hnil : contents = []
    · subst hnil
      rfl
    · rw [if_neg (by simpa using hnil), if_neg (by simp [hnil])]
  | @file arg pname _ hinput harg hresolve hplain hcontents =>
    rw [if_pos hinput, if_neg (by simp), exec_bind_ok (exec_checkArguments_file name hresolve hplain)]
    have hone : ([pname].forM getContents : FilterM σ Unit) = (getContents pname >>= fun _ => pure ⟨⟩) := rfl
    rw [hone, exec_bind, ← hget pname hcontents]
    cases exec (getContents pname) s with
    | mk result t => cases result <;> rfl

/-! ### A number in decimal -/

theorem decimal_ne_nil (n : Nat) : decimal n ≠ [] := Nat.toDigits_ne_nil

theorem isDigit_of_mem_decimal {n : Nat} {c : Char} (hc : c ∈ decimal n) : c.isDigit = true :=
  Nat.isDigit_of_mem_toDigits (by omega) (by omega) hc

theorem ofDigitChars_decimal (n : Nat) : Nat.ofDigitChars 10 (decimal n) 0 = n := Nat.ofDigitChars_ten_toDigits

theorem isDigits_decimal (u : Digits) (n : Nat) : isDigits u (decimal n) = true := by
  unfold isDigits
  rw [Bool.and_eq_true]
  refine ⟨decide_eq_true (decimal_ne_nil n), List.all_eq_true.mpr fun c hc => ?_⟩
  have hdigit : c.isDigit = true := Nat.isDigit_of_mem_toDigits (by omega) (by omega) hc
  simp [withAscii, hdigit]

theorem decimal_length_le_iff (n : Nat) : (decimal n).length ≤ intMaxStrDigits ↔ n < 10 ^ intMaxStrDigits :=
  Nat.length_toDigits_le_iff (by omega) (by decide)

/-- Digits of ASCII have the value that they have anywhere. -/
theorem foldlM_digits (u : Digits) {text : Str} (h : ∀ c ∈ text, c.isDigit = true) (n : Nat) :
    text.foldlM (fun m c => ((withAscii u).decimal c).map (10 * m + ·)) n = some (Nat.ofDigitChars 10 text n) := by
  induction text generalizing n with
  | nil => rfl
  | cons c text ih =>
    obtain ⟨hc, hrest⟩ := List.forall_mem_cons.mp h
    have hvalue : (withAscii u).decimal c = some (c.toNat - 48) := by simp [withAscii, hc]
    rw [List.foldlM_cons, hvalue]
    exact ih hrest _

/-- `int` takes the number back, unless it has too many digits. -/
theorem intOf_decimal (u : Digits) (n : Nat) :
    exec (intOf u (decimal n)) s = (if n < 10 ^ intMaxStrDigits then .ok n else .error .valueError, s) := by
  unfold intOf Shell.intOf
  rw [exec_query, foldlM_digits u fun c hc => isDigit_of_mem_decimal hc, ofDigitChars_decimal]
  simp only [decimal_ne_nil, if_false]
  by_cases hn : n < 10 ^ intMaxStrDigits
  · rw [if_pos hn, if_neg (by rw [← decimal_length_le_iff] at hn; omega)]
  · rw [if_neg hn, if_pos (by rw [← decimal_length_le_iff] at hn; omega)]

end Cowrie.Shell.Filter
