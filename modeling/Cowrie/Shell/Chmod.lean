import Cowrie.Shell.FsRun
import Mathlib.Data.Int.Bitwise

/-!
# `chmod` (`src/cowrie/commands/chmod.py`)

`parseArgs` and `plan` go from the arguments to a mode and files, or to what is written instead. A file is
looked up and its `A_MODE` becomes `(A_MODE & NO_PERM_BITS_MASK) | int(mode, 8)`, where the mask is
`0o000`: the file type goes too. `HoneyPotFilesystem.chmod` (`fs.py:556-560`) keeps it.

* `modes` are the `A_MODE`s of a session, which a lookup never reads. They may become negative:
  `int("-755", 8)` is.
* `ifmt` and `imode` are `stat.S_IFMT` and `stat.S_IMODE`, `none` for the `OverflowError` of what is no
  `mode_t`.
* `version` is the text `CHMOD_VERSION`.
* `reached` are the nodes that the loop gets to, before an exception ends it; `OnlyPermissions` is
  what is asked of the run.
* **`chmod_keeps_type_iff`**: it holds exactly if each node that is reached has the file type that the
  number has, and a number without a sign is one of permission bits.
-/

namespace Cowrie.Shell.Chmod

open Cowrie.Lib Cowrie.Shell.Fs Heap HoneyPotFilesystem

/-! ## Texts -/

def CHMOD_HELP : String :=
  "Usage: chmod [OPTION]... MODE[,MODE]... FILE...\n" ++
  "  or:  chmod [OPTION]... OCTAL-MODE FILE...\n" ++
  "  or:  chmod [OPTION]... --reference=RFILE FILE...\n" ++
  "Change the mode of each FILE to MODE.\n" ++
  "With --reference, change the mode of each FILE to that of RFILE.\n" ++
  "\n" ++
  "  -c, --changes          like verbose but report only when a change is made\n" ++
  "  -f, --silent, --quiet  suppress most error messages\n" ++
  "  -v, --verbose          output a diagnostic for every file processed\n" ++
  "      --no-preserve-root  do not treat '/' specially (the default)\n" ++
  "      --preserve-root    fail to operate recursively on '/'\n" ++
  "      --reference=RFILE  use RFILE's mode instead of MODE values\n" ++
  "  -R, --recursive        change files and directories recursively\n" ++
  "      --help     display this help and exit\n" ++
  "      --version  output version information and exit\n" ++
  "\n" ++
  "Each MODE is of the form '[ugoa]*([-+=]([rwxXst]*|[ugo]))+|[-+=][0-7]+'.\n" ++
  "\n" ++
  "GNU coreutils online help: <https://www.gnu.org/software/coreutils/>\n" ++
  "Full documentation at: <https://www.gnu.org/software/coreutils/chmod>\n" ++
  "or available locally via: info '(coreutils) chmod invocation'\n"

def TRY_CHMOD_HELP_MSG : Str := "Try 'chmod --help' for more information.\n".toList

/-! ## Modes -/

/-- `[-+=]`. -/
def isOp (c : Char) : Bool := c = '-' || c = '+' || c = '='

/-- `[ugo]`. -/
def isClass (c : Char) : Bool := c = 'u' || c = 'g' || c = 'o'

/-- `[rwxXst]`. -/
def isPerm (c : Char) : Bool := c = 'r' || c = 'w' || c = 'x' || c = 'X' || c = 's' || c = 't'

/-- `[0-7]`. -/
def isOctal (c : Char) : Bool := '0' ≤ c && c ≤ '7'

/-- `[rwxXst]*|[ugo]`. -/
def isOperand (s : Str) : Bool := s.all isPerm || (s.length = 1 && s.all isClass)

/-- `^[ugoa]*([-+=]([rwxXst]*|[ugo]))+`. -/
def isSymbolic (mode : Str) : Bool :=
  match mode.dropWhile fun c => isClass c || c = 'a' with
  | [] => false
  | c :: rest => isOp c && (rest.splitOnP isOp).all isOperand

/-- `[-+=]?[0-7]+$`. -/
def isNumeric (mode : Str) : Bool :=
  let digits := match mode with
    | [] => []
    | c :: rest => if isOp c then rest else mode
  digits ≠ [] && digits.all isOctal

/-- `re.fullmatch(MODE_REGEX, mode)`. -/
def matchesMode (mode : Str) : Bool := isSymbolic mode || isNumeric mode

/-- Octal digits, at least one. -/
def octal (digits : Str) : Option Nat :=
  if digits ≠ [] ∧ digits.all isOctal then
    some (digits.foldl (fun n c => 8 * n + (c.toNat - '0'.toNat)) 0)
  else none

/-- `int(mode, 8)` for what matches `MODE_REGEX`; `none` is a `ValueError`. -/
def intOctal : Str → Option Int
  | '+' :: digits => (octal digits).map fun n => (n : Int)
  | '-' :: digits => (octal digits).map fun n => -(n : Int)
  | digits => (octal digits).map fun n => (n : Int)

/-- A Python `int` as a `mode_t`. -/
def modeT (mode : Int) : Option Nat := if 0 ≤ mode ∧ mode < 2 ^ 32 then some mode.toNat else none

/-- `stat.S_IFMT(mode)`. -/
def ifmt (mode : Int) : Option Nat := (modeT mode).map (· &&& 0o170000)

/-- `stat.S_IMODE(mode)`. -/
def imode (mode : Int) : Option Nat := (modeT mode).map (· &&& 0o7777)

def NO_PERM_BITS_MASK : Int := 0o000

/-- `A_MODE` after the `try` block; a `ValueError` passes. -/
def newMode (mode : Str) (m : Int) : Int :=
  let fileModeNoPerm := Int.land m NO_PERM_BITS_MASK
  match intOctal mode with
  | some n => Int.lor fileModeNoPerm n
  | none => m

/-- `A_MODE` after `HoneyPotFilesystem.chmod`: `stat.S_IFMT(p[A_MODE]) | perm`. -/
def chmodMode (m perm : Int) : Option Int := (ifmt m).map fun (type : Nat) => Int.lor type perm

/-! ## Arguments -/

/-- `GetoptError`: the name of the option that `err.msg` has, and `err.opt`. -/
inductive GetoptError
  | long (opt : Str)
  | short (opt : Char)
  deriving DecidableEq, Repr

/-- `long_has_args`. -/
def longHasArgs (longopts : List Str) (opt : Str) : Except GetoptError (Bool × Str) :=
  let possibilities := longopts.filter opt.isPrefixOf
  if possibilities = [] then .error (.long opt)
  else if opt ∈ possibilities then .ok (false, opt)
  else if opt ++ ['='] ∈ possibilities then .ok (true, opt)
  else
    match possibilities with
    | [match₁] =>
      if match₁.getLast? = some '=' then .ok (true, match₁.dropLast) else .ok (false, match₁)
    | _ => .error (.long opt)

/-- `do_shorts`, where no option takes an argument. -/
def doShortArgs (shortopts : Str) : Str → Except GetoptError (List (Str × Str))
  | [] => .ok []
  | opt :: optstring =>
    if opt ∈ shortopts ∧ opt ≠ ':' then
      (doShortArgs shortopts optstring).map ((['-', opt], []) :: ·)
    else .error (.short opt)

/-- `getopt.gnu_getopt`; `waiting` is an option whose argument comes next. -/
def gnuGetoptArgs (shortopts : Str) (longopts : List Str) (waiting : Option Str) :
    List Str → Except GetoptError (List (Str × Str) × List Str)
  | [] =>
    match waiting with
    | none => .ok ([], [])
    | some o => .error (.long o)
  | arg :: rest =>
    let go (waiting : Option Str) := gnuGetoptArgs shortopts longopts waiting rest
    let option (o value : Str) := (go none).map fun (opts, args) =>
      (("--".toList ++ o, value) :: opts, args)
    match waiting with
    | some o => option o arg
    | none =>
      if arg = "--".toList then .ok ([], rest)
      else if "--".toList.isPrefixOf arg then
        let opt := (arg.drop 2).takeWhile (· ≠ '=')
        let optarg := if '=' ∈ arg then some (arg.drop (opt.length + 3)) else none
        match longHasArgs longopts opt, optarg with
        | .error e, _ => .error e
        | .ok (false, o), some _ => .error (.long o)
        | .ok (false, o), none => option o []
        | .ok (true, o), some value => option o value
        | .ok (true, o), none => go (some o)
      else if arg.head? = some '-' ∧ arg ≠ ['-'] then
        match doShortArgs shortopts (arg.drop 1), go none with
        | .error e, _ => .error e
        | .ok _, .error e => .error e
        | .ok os, .ok (opts, args) => .ok (os ++ opts, args)
      else (go none).map fun (opts, args) => (opts, arg :: args)

def longopts : List Str :=
  ["changes", "silent", "quiet", "verbose", "no-preserve-root", "preserve-root", "reference=",
    "recursive", "help", "version"].map String.toList

/-- The loop of `parse_args`: the first argument that is a mode with a `-`, and the others. -/
def takeMode : List Str → Option Str × List Str
  | [] => (none, [])
  | arg :: rest =>
    if arg.head? = some '-' ∧ matchesMode arg then (some arg, rest)
    else ((takeMode rest).1, arg :: (takeMode rest).2)

/-- What `parse_args` writes for an error. The option `-` has the message of a long one. -/
def optionError : GetoptError → Str
  | .long opt => "chmod: unrecognized option '--".toList ++ opt ++ "'\n".toList ++ TRY_CHMOD_HELP_MSG
  | .short opt =>
    if opt = '-' then "chmod: unrecognized option '---'\n".toList ++ TRY_CHMOD_HELP_MSG
    else "chmod: invalid option -- '".toList ++ [opt] ++ "'\n".toList ++ TRY_CHMOD_HELP_MSG

/-- `opts, mode, files`, or an error message. -/
def parseArgs (args : List Str) : Except Str (List (Str × Str) × Option Str × List Str) :=
  match gnuGetoptArgs "cfvR".toList longopts none (takeMode args).2 with
  | .error e => .error (optionError e)
  | .ok (opts, rest) =>
    match (takeMode args).1, rest with
    | none, mode :: files => .ok (opts, some mode, files)
    | mode, files => .ok (opts, mode, files)

/-- The first of `--help` and `--version`. -/
def helpText (version : Str) (opts : List (Str × Str)) : Option Str :=
  opts.findSome? fun (o, _) =>
    if o = "--help".toList then some CHMOD_HELP.toList
    else if o = "--version".toList then some version
    else none

/-- What is written instead, or the mode and the files of the loop. -/
def plan (version : Str) (args : List Str) : Except Str (Str × List Str) :=
  match parseArgs args with
  | .error message => .error message
  | .ok (opts, given, files) =>
    match helpText version opts with
    | some text => .error text
    | none =>
      let mode := given.getD []
      if (mode = [] ∨ mode.head? = some '-') ∧ files = [] then
        .error ("chmod: missing operand\n".toList ++ TRY_CHMOD_HELP_MSG)
      else if mode ≠ [] ∧ files = [] then
        .error ("chmod: missing operand after ‘".toList ++ mode ++ "’\n".toList ++ TRY_CHMOD_HELP_MSG)
      else if ¬ matchesMode mode then
        .error ("chmod: invalid mode: ‘".toList ++ mode ++ "’\n".toList ++ TRY_CHMOD_HELP_MSG)
      else .ok (mode, files)

/-! ## The command -/

/-- A session with the modes of its nodes. -/
structure ModeSession extends Session where
  modes : Ref → Int

abbrev ChmodM (α : Type) := Prog FsError ModeSession α

def report (data : Str) : ChmodM Unit := modify fun s => { s with written := s.written ++ [.err data] }

def ModeSession.setMode (s : ModeSession) (x : Ref) (m : Int) : ModeSession :=
  { s with modes := Function.update s.modes x m }

/-- `not self.fs.get_path(self.protocol.cwd)[:]`. -/
def cwdEmpty (user : User) (f : HoneyPotFilesystem) : Except FsError Bool :=
  (f.getPath user.cwd).map fun d => (f.node d).contents = .list [] ∨ (f.node d).contents = .bytes []

/-- A turn of the loop. `*` rebinds `files`, which the loop does not look at again. -/
def chmodOne (user : User) (mode : Str) (file : Str) : ChmodM Bool := do
  if file = ['*'] then
    let none ← query fun s => cwdEmpty user s.fs
    when none do report "chmod: cannot access '*': No such file or directory\n".toList
    pure true
  else
    let path ← query fun s => resolve user file s.fs
    if ¬ (← query fun s => s.fs.exists path) then do
      report ("chmod: cannot access '".toList ++ file ++ "': No such file or directory\n".toList)
      pure true
    else
      match ← query fun s => s.fs.getfile path with
      | none => throw .typeError
      | some x => do
        modify fun s => s.setMode x (newMode mode (s.modes x))
        pure true

def chmodCommand (version : Str) (user : User) (args : List Str) : ChmodM Unit :=
  match plan version args with
  | .error message => report message
  | .ok (mode, files) => forEach (chmodOne user mode) files

/-! ## Modes and their bits -/

section Bits

variable {mode : Str} {m : Int} {n v : Nat}

theorem newMode_eq (mode : Str) (m : Int) : newMode mode m = (intOctal mode).getD m := by
  have hland : Int.land m 0 = 0 := by cases m <;> simp [Int.land, Nat.ldiff]
  have hlor : ∀ n : Int, Int.lor 0 n = n := by
    intro n
    cases n <;> simp [Int.lor, Nat.ldiff]
  unfold newMode NO_PERM_BITS_MASK
  cases intOctal mode with
  | none => rfl
  | some n => simp [hland, hlor]

theorem newMode_idem (mode : Str) (m : Int) : newMode mode (newMode mode m) = newMode mode m := by
  rw [newMode_eq, newMode_eq]
  cases intOctal mode <;> rfl

/-- A number without a sign. -/
theorem intOctal_unsigned (h : octal mode = some v) : intOctal mode = some (v : Int) := by
  have hall : ∀ c ∈ mode, isOctal c := by
    unfold octal at h
    split_ifs at h with hdigits
    exact List.all_eq_true.mp hdigits.2
  cases mode with
  | nil => cases h
  | cons c rest =>
    have hc : isOctal c := hall c List.mem_cons_self
    unfold intOctal
    split
    · exact absurd hc (by simp_all [isOctal])
    · exact absurd hc (by simp_all [isOctal])
    · rw [h]
      rfl

theorem modeT_cast (h : n < 2 ^ 32) : modeT n = some n := by
  unfold modeT
  rw [if_pos (by omega), Int.toNat_natCast]

theorem testBit_ifmt : ∀ i < 12, Nat.testBit 0o170000 i = false := by decide

/-- Permission bits say nothing of the file type. -/
theorem ifmt_permission (h : n ≤ 0o7777) : ifmt n = some 0 := by
  unfold ifmt
  rw [modeT_cast (by omega), Option.map_some]
  refine congrArg some (Nat.eq_of_testBit_eq fun i => ?_)
  rw [Nat.testBit_and, Nat.zero_testBit]
  by_cases hi : i < 12
  · rw [testBit_ifmt i hi, Bool.and_false]
  · rw [Nat.testBit_lt_two_pow, Bool.false_and]
    calc n < 2 ^ 12 := by omega
      _ ≤ 2 ^ i := Nat.pow_le_pow_right (by decide) (by omega)

theorem imode_permission (h : n ≤ 0o7777) : imode n = some n := by
  unfold imode
  rw [modeT_cast (by omega), Option.map_some]
  refine congrArg some ?_
  change n &&& (2 ^ 12 - 1) = n
  rw [Nat.and_two_pow_sub_one_eq_mod]
  omega

theorem le_of_imode (h : imode m = some n) : n ≤ 0o7777 := by
  obtain ⟨k, -, rfl⟩ := Option.map_eq_some_iff.mp h
  exact Nat.and_le_right

end Bits

/-! ## The loop -/

section Loop

variable {user : User} {mode file : Str} {files : List Str} {s : ModeSession}

/-- The node whose mode a turn sets. -/
def target (user : User) (file : Str) (f : HoneyPotFilesystem) : Except FsError (Option Ref) :=
  if file = ['*'] then (cwdEmpty user f).map fun _ => none
  else
    match resolve user file f with
    | .error e => .error e
    | .ok path => f.getfile path

/-- The nodes whose modes the loop sets. -/
def reached (user : User) (f : HoneyPotFilesystem) : List Str → List Ref
  | [] => []
  | file :: files =>
    match target user file f with
    | .error _ => []
    | .ok none => reached user f files
    | .ok (some x) => x :: reached user f files

/-- The modes after a turn. -/
def turned (mode : Str) (modes : Ref → Int) : Except FsError (Option Ref) → Ref → Int
  | .ok (some x) => Function.update modes x (newMode mode (modes x))
  | _ => modes

/-- **A turn** sets one mode at most. -/
theorem exec_chmodOne : ∃ t, exec (chmodOne user mode file) s =
      ((target user file s.fs).map fun _ => true, t) ∧
    t.fs = s.fs ∧ t.modes = turned mode s.modes (target user file s.fs) := by
  unfold chmodOne target
  by_cases hstar : file = ['*']
  · rw [if_pos hstar, if_pos hstar, exec_bind, exec_query]
    cases cwdEmpty user s.fs with
    | error e => exact ⟨s, rfl, rfl, rfl⟩
    | ok none => cases none <;> exact ⟨_, rfl, rfl, rfl⟩
  · rw [if_neg hstar, if_neg hstar, exec_bind, exec_query]
    cases resolve user file s.fs with
    | error e => exact ⟨s, rfl, rfl, rfl⟩
    | ok path =>
      dsimp only
      rw [exec_bind, exec_query]
      unfold Heap.exists
      cases hfound : s.fs.getfile path with
      | error e => exact ⟨s, rfl, rfl, rfl⟩
      | ok found =>
        cases found with
        | none => exact ⟨_, rfl, rfl, rfl⟩
        | some x =>
          refine ⟨s.setMode x (newMode mode (s.modes x)), ?_, rfl, rfl⟩
          change exec (query (fun s : ModeSession => s.fs.getfile path) >>= _) s = _
          rw [exec_bind, exec_query, hfound]
          rfl

/-- **The loop** sets those of the nodes it reaches. -/
theorem modes_chmod (files : List Str) (s : ModeSession) :
    (exec (forEach (chmodOne user mode) files) s).2.fs = s.fs ∧
      ∀ y, (exec (forEach (chmodOne user mode) files) s).2.modes y =
        if y ∈ reached user s.fs files then newMode mode (s.modes y) else s.modes y := by
  induction files generalizing s with
  | nil => exact ⟨rfl, fun y => (if_neg List.not_mem_nil).symm⟩
  | cons file files ih =>
    obtain ⟨t, hexec, hfs, hmodes⟩ := @exec_chmodOne user mode file s
    unfold forEach reached
    cases htarget : target user file s.fs with
    | error e =>
      rw [htarget] at hexec hmodes
      rw [exec_bind_error hexec]
      exact ⟨hfs, fun y => (congrFun hmodes y).trans (if_neg List.not_mem_nil).symm⟩
    | ok found =>
      rw [htarget] at hexec hmodes
      rw [exec_bind_ok hexec, if_pos rfl]
      obtain ⟨ihfs, ihmodes⟩ := ih t
      refine ⟨ihfs.trans hfs, fun y => (ihmodes y).trans ?_⟩
      rw [hfs, hmodes]
      cases found with
      | none => rfl
      | some x =>
        by_cases hy : y = x
        · subst hy
          rw [turned, Function.update_self, newMode_idem, ite_self, if_pos List.mem_cons_self]
        · rw [turned, Function.update_of_ne hy]
          simp only [List.mem_cons, hy, false_or]

/-! ## Exactly when only permissions change -/

/-- What is asked: no node has another file type, and a number is all the permissions of each file, as
`HoneyPotFilesystem.chmod` makes it. -/
structure OnlyPermissions (user : User) (mode : Str) (files : List Str) (s t : ModeSession) : Prop where
  fs : t.fs = s.fs
  others : ∀ x ∉ reached user s.fs files, t.modes x = s.modes x
  type : ∀ x, ifmt (t.modes x) = ifmt (s.modes x)
  number : ∀ v, octal mode = some v → ∀ x ∈ reached user s.fs files,
    imode (t.modes x) = some v ∧ chmodMode (s.modes x) v = some (t.modes x)

/-- A mode argument that can do no harm to the mode `m`. -/
def Harmless (mode : Str) (m : Int) : Prop :=
  match octal mode with
  | some v => v ≤ 0o7777 ∧ ifmt m = some 0
  | none => ∀ n, intOctal mode = some n → ifmt m = ifmt n

theorem ifmt_newMode {m : Int} (h : Harmless mode m) : ifmt (newMode mode m) = ifmt m := by
  unfold Harmless at h
  rw [newMode_eq]
  cases hoctal : octal mode with
  | some v =>
    rw [hoctal] at h
    rw [intOctal_unsigned hoctal, Option.getD_some, ifmt_permission h.1, h.2]
  | none =>
    rw [hoctal] at h
    cases hint : intOctal mode with
    | none => rfl
    | some n => exact (h n hint).symm

theorem chmodMode_newMode {m : Int} {v : Nat} (h : Harmless mode m) (hv : octal mode = some v) :
    imode (newMode mode m) = some v ∧ chmodMode m v = some (newMode mode m) := by
  unfold Harmless at h
  rw [hv] at h
  rw [newMode_eq, intOctal_unsigned hv, Option.getD_some]
  refine ⟨imode_permission h.1, ?_⟩
  unfold chmodMode
  rw [h.2, Option.map_some]
  simp [Int.lor]

/-- **The file types stay exactly if** each node that is reached has the type that the number has; a
number without a sign has none. -/
theorem chmod_keeps_type_iff {version : Str} {args : List Str}
    (h : plan version args = .ok (mode, files)) :
    OnlyPermissions user mode files s (exec (chmodCommand version user args) s).2 ↔
      ∀ x ∈ reached user s.fs files, Harmless mode (s.modes x) := by
  unfold chmodCommand
  rw [h]
  obtain ⟨hfs, hmodes⟩ := @modes_chmod user mode files s
  constructor
  · intro hasked x hx
    have hnew := hmodes x
    rw [if_pos hx, newMode_eq] at hnew
    have htype := hasked.type x
    rw [hnew] at htype
    unfold Harmless
    cases hoctal : octal mode with
    | some v =>
      obtain ⟨hpermissions, -⟩ := hasked.number v hoctal x hx
      have hle := le_of_imode hpermissions
      rw [intOctal_unsigned hoctal, Option.getD_some, ifmt_permission hle] at htype
      exact ⟨hle, htype.symm⟩
    | none =>
      intro n hn
      rw [hn, Option.getD_some] at htype
      exact htype.symm
  · intro hharmless
    refine ⟨hfs, fun x hx => (hmodes x).trans (if_neg hx), fun x => ?_, fun v hv x hx => ?_⟩
    · rw [hmodes x]
      split_ifs with hx
      · exact ifmt_newMode (hharmless x hx)
      · rfl
    · rw [hmodes x, if_pos hx]
      exact chmodMode_newMode (hharmless x hx) hv

end Loop

/-- A session in which every node has the mode `m`. -/
def modeSession (m : Int) : ModeSession where
  fs := smallFs
  modes _ := m

/-- `chmod 755 /tmp`, where `/tmp` has no file type. -/
theorem chmod_keeps_type_tmp :
    OnlyPermissions tmpUser ['7', '5', '5'] [['/', 't', 'm', 'p']] (modeSession 0)
      (exec (chmodCommand [] tmpUser [['7', '5', '5'], ['/', 't', 'm', 'p']]) (modeSession 0)).2 := by
  refine (chmod_keeps_type_iff rfl).mpr fun x hx => ?_
  obtain rfl : x = 1 := List.mem_singleton.mp hx
  exact ⟨by decide, rfl⟩

/-- `chmod 755 /` on a directory: `0o40755` becomes `0o755`. -/
theorem chmod_drops_type :
    plan [] [['7', '5', '5'], ['/']] = .ok (['7', '5', '5'], [['/']]) ∧
      ¬ OnlyPermissions tmpUser ['7', '5', '5'] [['/']] (modeSession 0o40755)
        (exec (chmodCommand [] tmpUser [['7', '5', '5'], ['/']]) (modeSession 0o40755)).2 := by
  refine ⟨rfl, fun h => ?_⟩
  have htype := h.type 0
  change ifmt (newMode ['7', '5', '5'] 0o40755) = ifmt 0o40755 at htype
  exact absurd htype (by decide)

end Cowrie.Shell.Chmod
