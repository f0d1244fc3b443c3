import Cowrie.Shell.Filter
import Cowrie.Shell.HoneyPot
import Cowrie.Shell.RedirectIsolation

/-!
# `cat` (`src/cowrie/commands/cat.py`)

`cat` splits every text at its line feeds and ends each piece in one again, but for an empty last piece.

* `catStart` is `start`; `catCommand` is the command as the shell calls it, with what it wrote until an exception.
* `Sources`: the operands are readable files, or `-` for the input; without operands it is the input.
* `catRedirected` is `cat … > g`: the target is opened first, and then `cat` reads.
* **`cat_copies_iff`**: `cat` copies its sources, to standard output or to a file, exactly if each of them is empty
  or ends in a line feed.
-/

namespace Cowrie.Shell.Filter

open Cowrie.Lib Cowrie.Lib.Getopt Fs Heap HoneyPotFilesystem Redirect

/-! ## The command -/

def CAT_HELP : String :=
  "Usage: cat [OPTION]... [FILE]...\n" ++
  "Concatenate FILE(s) to standard output.\n" ++
  "\n" ++
  "With no FILE, or when FILE is -, read standard input.\n" ++
  "\n" ++
  "    -A, --show-all           equivalent to -vET\n" ++
  "    -b, --number-nonblank    number nonempty output lines, overrides -n\n" ++
  "    -e                       equivalent to -vE\n" ++
  "    -E, --show-ends          display $ at end of each line\n" ++
  "    -n, --number             number all output lines\n" ++
  "    -s, --squeeze-blank      suppress repeated empty output lines\n" ++
  "    -t                       equivalent to -vT\n" ++
  "    -T, --show-tabs          display TAB characters as ^I\n" ++
  "    -u                       (ignored)\n" ++
  "    -v, --show-nonprinting   use ^ and M- notation, except for LFD and TAB\n" ++
  "        --help     display this help and exit\n" ++
  "        --version  output version information and exit\n" ++
  "\n" ++
  "Examples:\n" ++
  "    cat f - g  Output f's contents, then standard input, then g's contents.\n" ++
  "    cat        Copy standard input to standard output.\n" ++
  "\n" ++
  "GNU coreutils online help: <http://www.gnu.org/software/coreutils/>\n" ++
  "Full documentation at: <http://www.gnu.org/software/coreutils/cat>\n" ++
  "or available locally via: info '(coreutils) cat invocation'\n"

/-- The fields of `Command_cat`. -/
structure Cat where
  number : Bool := false
  linenumber : Nat := 1

/-- `f"{n:>6}  "`. -/
def lineLabel (n : Nat) : Str := List.replicate (6 - (decimal n).length) ' ' ++ decimal n ++ [' ', ' ']

/-- A turn of the loop of `output`. -/
def catLine (line : Bytes) : FilterM Cat Unit := do
  let s ← get
  when s.own.number do
    writeText (lineLabel s.own.linenumber)
    modify fun s => { s with own := { s.own with linenumber := s.own.linenumber + 1 } }
  writeBytes (line ++ [10])

/-- `output`. -/
def catOutput : Option Bytes → FilterM Cat Unit
  | none => pure ()
  | some inb => (bodyLines inb).forM catLine

/-- One operand. -/
def catFile (r : Reading) (arg : Str) : FilterM Cat Unit :=
  if arg = ['-'] then catOutput r.inputData
  else do
    let pname ← r.resolvePath arg
    if r.world.fs.isdir pname then errorWrite ("cat: ".toList ++ arg ++ ": Is a directory\n".toList)
    else
      tryCatch
        (do
          let contents ← r.fileContents pname
          catOutput (some contents))
        fun e =>
          if e = .fileNotFound then errorWrite ("cat: ".toList ++ arg ++ ": No such file or directory\n".toList)
          else throw e

def catGetopt (args : List Str) : Except Str Parsed :=
  Getopt.gnuGetopt "AbeEnstTuv".toList (["help", "number", "version"].map String.toList) args

/-- The loop over the options: `number`, or none for `--help`. -/
def catOptions : List (OptionName × Str) → Bool → Option Bool
  | [], number => some number
  | (opt, _) :: optlist, number =>
    if opt = .long "help".toList then none
    else catOptions optlist (number || opt = .short 'n' || opt = .long "number".toList)

def catStart (r : Reading) (args : List Str) : FilterM Cat Unit :=
  match catGetopt args with
  | .error opt =>
    errorWrite ("cat: invalid option -- '".toList ++ opt ++ "'\nTry 'cat --help' for more information.\n".toList)
  | .ok (optlist, args) =>
    match catOptions optlist false with
    | none => writeText CAT_HELP.toList
    | some number => do
      modify fun s => { s with own := { s.own with number } }
      if args ≠ [] then args.forM (catFile r) else catOutput r.inputData

/-- `call`. -/
def catCommand (cfg : Setup) : Command World := fun args _ inputData world =>
  ((exec (catStart { cfg, world, inputData } (args.map String.toList)) ⟨{}, []⟩).2.written, world)

/-- The world after `cat args > g`. -/
def catRedirected (cfg : Setup) (base : Env World) (self : HoneyPotShell) (rest : List (PipeProtocol World))
    (args : List String) (g : String) (s : Protocol World) : World :=
  (exec (do
      let pp ← PipeProtocol.new (cfg.env base) "cat" (catCommand cfg) args (rest ≠ []) self.redirect
        [.file 1 g false]
      start (cfg.env base) self (pp :: rest)) s).2.world

/-! ## What is asked for -/

/-- The text is empty, or its last line is terminated. -/
def EndsLine (contents : Bytes) : Prop := contents = [] ∨ contents.getLast? = some 10

instance : DecidablePred EndsLine := fun contents =>
  inferInstanceAs (Decidable (contents = [] ∨ contents.getLast? = some 10))

/-- Neither `-n` nor `--help` is among the options. -/
def Plain (args operands : List Str) : Prop :=
  ∃ optlist, catGetopt args = .ok (optlist, operands) ∧ catOptions optlist false = some false

/-- An operand that can be read. -/
inductive Operand (r : Reading) : Str → Bytes → Prop
  | input {contents : Bytes} (hinput : r.inputData = some contents) : Operand r ['-'] contents
  | file {arg pname : Str} {contents : Bytes} (harg : arg ≠ ['-'])
      (hresolve : resolve r.cfg.user arg r.world.fs = .ok pname) (hplain : r.world.fs.isdir pname = false)
      (hcontents : Redirect.fileContents r.cfg r.world pname = .ok contents) : Operand r arg contents

/-- What the operands stand for, or what is piped in where there are none. -/
inductive Sources (r : Reading) : List Str → List Bytes → Prop
  | piped {contents : Bytes} (hinput : r.inputData = some contents) : Sources r [] [contents]
  | operands {args : List Str} {sources : List Bytes} (hne : args ≠ [])
      (h : List.Forall₂ (Operand r) args sources) : Sources r args sources

/-- `f` is a file with these contents, and `g` can be opened as another, with a backing of its own. -/
structure Copying (cfg : Setup) (w : World) (f : Str) (g : String) (contents : Bytes) (source target : Str) :
    Prop where
  operand : f ≠ ['-']
  source_resolves : resolve cfg.user f w.fs = .ok source
  plain : w.fs.isdir source = false
  readable : fileContents cfg w source = .ok contents
  target_resolves : resolve cfg.user g.toList w.fs = .ok target
  opens : ∃ info v, exec (prepareOutputFile cfg g.toList false) w = (.ok (.file info), v)
  exclusive : Exclusive cfg w target
  apart : ¬ SameFile w source target

variable {r : Reading} {args operands : List Str} {sources : List Bytes} {contents : Bytes}

/-! ## Pieces -/

/-- What is written for a text, write by write. -/
def copied (contents : Bytes) : List Bytes := (bodyLines contents).map (· ++ [10])

theorem bodyLines_of_lined {ws : List Bytes} {rest : Bytes} (h : Lined 10 ws rest contents) :
    bodyLines contents = ws ++ lastLine rest := by
  unfold bodyLines lastLine
  rw [h.splitOn]
  by_cases hrest : rest = []
  · simp [hrest]
  · simp [hrest]

/-- A line feed is added to an open last line. -/
theorem flatten_copied (contents : Bytes) :
    (copied contents).flatten = contents ++ if EndsLine contents then [] else [10] := by
  obtain ⟨ws, rest, h⟩ := exists_lined (10 : UInt8) contents
  have hends : EndsLine contents ↔ rest = [] := by
    rw [← h.ends_iff]
    unfold EndsLine
    cases hlast : contents.getLast? with
    | none => simp [List.getLast?_eq_none_iff.mp hlast]
    | some x =>
      have hne : contents ≠ [] := by
        rintro rfl
        cases hlast
      simp [hne]
  unfold copied
  rw [bodyLines_of_lined h, List.map_append, List.flatten_append, ← List.flatMap_def]
  by_cases hrest : rest = []
  · rw [if_pos (hends.mpr hrest)]
    subst hrest
    simpa [lastLine] using h.text.symm
  · rw [if_neg (mt hends.mp hrest)]
    unfold lastLine
    rw [if_neg hrest, List.map_singleton, List.flatten_singleton, ← List.append_assoc]
    exact congrArg (· ++ [10]) h.text.symm

theorem flatten_copied_iff (contents : Bytes) : (copied contents).flatten = contents ↔ EndsLine contents := by
  rw [flatten_copied]
  split_ifs with h
  · simp [h]
  · simp [h]

/-- Texts one behind another. -/
theorem flatten_copies_iff (sources : List Bytes) :
    (sources.flatMap copied).flatten = sources.flatten ↔ ∀ contents ∈ sources, EndsLine contents := by
  have hlength (sources : List Bytes) : sources.flatten.length ≤ (sources.flatMap copied).flatten.length := by
    induction sources with
    | nil => exact le_refl _
    | cons contents sources ih =>
      rw [List.flatMap_cons, List.flatten_append, flatten_copied]
      simp only [List.flatten_cons, List.length_append]
      omega
  induction sources with
  | nil => simp
  | cons contents sources ih =>
    rw [List.flatMap_cons, List.flatten_append, List.flatten_cons, List.forall_mem_cons]
    refine Iff.trans ?_ (and_congr (flatten_copied_iff contents) ih)
    constructor
    · intro heq
      -- neither part is shorter than it should be
      have htotal := congrArg List.length heq
      have hrest := hlength sources
      have hfirst : contents.length ≤ (copied contents).flatten.length := by
        rw [flatten_copied, List.length_append]
        omega
      simp only [List.length_append] at htotal
      exact List.append_inj heq (by omega)
    · rintro ⟨hfirst, hrest⟩
      rw [hfirst, hrest]

/-! ## The runs -/

theorem exec_catOutput (n : Nat) (contents : Bytes) (l : List Write) :
    exec (catOutput (some contents)) ⟨⟨false, n⟩, l⟩ = (.ok (), ⟨⟨false, n⟩, l ++ (copied contents).map .out⟩) := by
  have hline (line : Bytes) (l : List Write) : exec (catLine line) ⟨⟨false, n⟩, l⟩ =
      (.ok (), ⟨⟨false, n⟩, l ++ [line ++ [10]].map .out⟩) := by
    unfold catLine
    rw [exec_get_bind, when_false (by simp)]
    rfl
  unfold catOutput
  rw [exec_forM_pieces hline, ← List.map_eq_flatMap]
  rfl

theorem exec_catFile {arg : Str} (n : Nat) (h : Operand r arg contents) (l : List Write) :
    exec (catFile r arg) ⟨⟨false, n⟩, l⟩ = (.ok (), ⟨⟨false, n⟩, l ++ (copied contents).map .out⟩) := by
  unfold catFile
  cases h with
  | input hinput => rw [if_pos rfl, hinput, exec_catOutput]
  | @file _ pname _ harg hresolve hplain hcontents =>
    have hpath : exec (r.resolvePath arg) (⟨⟨false, n⟩, l⟩ : Progress Cat) = (.ok pname, ⟨⟨false, n⟩, l⟩) := by
      unfold Reading.resolvePath
      rw [exec_query, hresolve]
    rw [if_neg harg, exec_bind_ok hpath, hplain]
    exact exec_tryCatch_ok ((exec_bind_ok (exec_fileContents hcontents)).trans (exec_catOutput n contents l))

/-- The operands, one after another. -/
theorem exec_catFiles (n : Nat) (h : List.Forall₂ (Operand r) operands sources) (l : List Write) :
    exec (operands.forM (catFile r)) ⟨⟨false, n⟩, l⟩ =
      (.ok (), ⟨⟨false, n⟩, l ++ (sources.flatMap copied).map .out⟩) := by
  induction h generalizing l with
  | nil =>
    rw [List.flatMap_nil, List.map_nil, List.append_nil]
    rfl
  | @cons arg contents operands sources hfirst hrest ih =>
    have hcons : ((arg :: operands).forM (catFile r) : FilterM Cat Unit) =
        (catFile r arg >>= fun _ => operands.forM (catFile r)) := rfl
    rw [hcons, exec_bind_ok (exec_catFile n hfirst l), ih, List.flatMap_cons, List.map_append, List.append_assoc]

/-- **What `cat` writes.** -/
theorem exec_catStart (hplain : Plain args operands) (h : Sources r operands sources) :
    exec (catStart r args) ⟨{}, []⟩ = (.ok (), ⟨{}, (sources.flatMap copied).map .out⟩) := by
  obtain ⟨optlist, hparsed, hoptions⟩ := hplain
  unfold catStart
  rw [hparsed]
  simp only [hoptions]
  rw [exec_modify_bind]
  cases h with
  | piped hinput =>
    rw [if_neg (by simp), hinput, exec_catOutput]
    simp
  | operands hne hall => rw [if_pos hne, exec_catFiles 1 hall, List.nil_append]

theorem prints_cat (hplain : Plain args operands) (h : Sources r operands sources) (data : Bytes) :
    Prints (catStart r args) {} data ↔ (sources.flatMap copied).flatten = data := by
  unfold Prints
  rw [exec_catStart hplain h]
  constructor
  · rintro ⟨s, hs, hdata⟩
    rw [← hdata, ← (Prod.mk.inj hs).2, stdoutOf_out]
  · intro hdata
    exact ⟨_, rfl, by rw [stdoutOf_out, hdata]⟩

/-! ### Into a file -/

variable {cfg : Setup} {base : Env World} {w : World} {f source target : Str} {g : String}

theorem exists_of_contents {path : Str} (hpath : Normal path) (h : fileContents cfg w path = .ok contents) :
    ∃ x, w.fs.getfile path = .ok (some x) := by
  rw [fileContents_normal hpath] at h
  cases hx : w.fs.getfile path with
  | error e =>
    simp only [hx] at h
    cases h
  | ok r =>
    cases r with
    | none =>
      simp only [hx] at h
      cases h
    | some x => exact ⟨x, rfl⟩

/-- A path that `file_contents` reads is no directory. -/
theorem isdir_of_contents {path : Str} (hpath : Normal path) (hroot : path ≠ ['/'])
    (h : fileContents cfg w path = .ok contents) : w.fs.isdir path = false := by
  rw [fileContents_normal hpath] at h
  unfold isdir
  rw [if_neg hroot]
  cases hx : w.fs.getfile path with
  | error e => rfl
  | ok r =>
    cases r with
    | none => rfl
    | some x =>
      refine decide_eq_false fun hdir => ?_
      have herror : contentsOf cfg w.files (w.fs.node x) = .error (.osError (.host 21) none) := if_pos hdir
      simp only [hx, herror] at h
      cases h

/-- The target is opened, and the source holds what it held. -/
theorem Copying.opened (base : Env World) (h : Copying cfg w f g contents source target) :
    ∃ info v, (cfg.env base).prepareOutputFile w g false = (.file info, v) ∧ Written cfg w target false info v ∧
      Operand ⟨cfg, v, none⟩ f contents := by
  have hsource : Normal source := resolvePath_normal cfg.cwd_normal (resolve_eq h.source_resolves)
  have htarget : Normal target := resolvePath_normal cfg.cwd_normal (resolve_eq h.target_resolves)
  rcases exec_prepareOutputFile false h.target_resolves fun r hr hneeds hnull =>
    (h.exclusive.new r hr hneeds hnull).1 with ⟨info, v, hexec, hopened, hnull⟩ | hrefused
  · have hwritten := h.exclusive.written htarget hnull hopened
    have hprepared : (cfg.env base).prepareOutputFile w g false = (.file info, v) := by
      unfold Setup.env
      simp only [hexec]
    have hpath : resolvePath w.fs.home source (dirname source) = some source :=
      resolvePath_of_normal hsource w.fs.home (dirname source)
    -- what it held is there
    have hcontents : fileContents cfg v source = .ok contents := by
      obtain ⟨y, hy⟩ := exists_of_contents hsource h.readable
      have hapart : ¬ SameFile v source target :=
        h.exclusive.apart hnull hopened hpath hy fun hsame => h.apart ⟨source, y, hpath, hy, hsame⟩
      have hnothing : WroteOne info [] v v :=
        ⟨⟨rfl, rfl, rfl, rfl, fun _ => ⟨_, _, rfl⟩⟩, fun _ => rfl, fun _ => by simp, fun _ => by simp⟩
      have hsame := (hwritten.2 [] v hnothing).1 source hapart
      unfold Redirect.contents at hsame
      rw [h.readable] at hsame
      cases hread : fileContents cfg v source with
      | error e =>
        rw [hread] at hsame
        cases hsame
      | ok data =>
        rw [hread] at hsame
        exact congrArg Except.ok (Option.some.inj hsame)
    have hresolve : resolve cfg.user f v.fs = .ok source := by
      unfold resolve
      rw [hopened.home, resolve_eq h.source_resolves]
    have hroot : source ≠ ['/'] := by
      rintro rfl
      cases h.plain
    have hplain := isdir_of_contents hsource hroot hcontents
    exact ⟨info, v, hprepared, hwritten, .file h.operand hresolve hplain hcontents⟩
  · obtain ⟨info, v, hexec⟩ := h.opens
    rw [hexec] at hrefused
    exact absurd rfl (hrefused.no_file info)

theorem writesTo_out (pieces : List Bytes) : writesTo 1 (pieces.map .out) = pieces := by
  unfold writesTo
  rw [List.filter_eq_self.mpr fun d hd => ?_, List.map_map]
  · exact List.map_id pieces
  · obtain ⟨piece, -, rfl⟩ := List.mem_map.mp hd
    rfl

/-- **What `cat f > g` leaves in `g`.** -/
theorem fileContents_catRedirected (self : HoneyPotShell) (rest : List (PipeProtocol World)) {args : List String}
    {s : Protocol World} (hplain : Plain (args.map String.toList) [f])
    (h : Copying cfg s.world f g contents source target) :
    fileContents cfg (catRedirected cfg base self rest args g s) target = .ok (copied contents).flatten := by
  obtain ⟨info, v, hprepared, ⟨hopen, hwritten⟩, hoperand⟩ := h.opened base
  obtain ⟨p, hp, hcmd, hcmdargs, hinput, htargets, hcounts⟩ :=
    exec_new_file (rest ≠ []) self.redirect 1 "cat" (catCommand cfg) args hprepared
  have hcall : p.cmd p.cmdargs self.environ p.inputData v = ((copied contents).map .out, v) := by
    have hsources : Sources ⟨cfg, v, none⟩ [f] [contents] := .operands (by simp) (.cons hoperand .nil)
    rw [hcmd, hcmdargs, hinput]
    unfold catCommand
    rw [exec_catStart hplain hsources]
    simp
  -- the writes go to the file that was opened
  let called := p.cmd p.cmdargs self.environ p.inputData v
  obtain ⟨u, hexec, hwrote⟩ := exec_writes_file base rest called.1 (s := { s with
      world := called.2
      pp := p :: rest
      ran := s.ran ++ [⟨s.segment, p.name, p.cmdargs, p.inputData, stdoutOf called.1⟩] })
    rfl hopen htargets hcounts
  have hstart : exec (start (cfg.env base) self (p :: rest)) { s with world := v } =
      (.ok (), { u with redirFiles := u.redirFiles ++ p.redirectRealFiles }) := by
    unfold start
    rw [exec_modify_bind, exec_get_bind]
    simp only
    rw [exec_modify_bind]
    exact exec_bind_ok hexec
  have hrun : catRedirected cfg base self rest args g s = u.world := by
    unfold catRedirected
    rw [exec_bind_ok hp, hstart]
  have hcalled : called = ((copied contents).map .out, v) := hcall
  rw [hcalled] at hwrote
  rw [hrun, (hwritten _ u.world hwrote).2 rfl, writesTo_out]

/-- **`cat` copies its sources** to standard output iff each of them is empty or ends in a line feed, and a file to
another iff it is empty or ends in one. -/
theorem cat_copies_iff (cfg : Setup) :
    (∀ (w : World) (inputData : Option Bytes) (args operands : List Str) (sources : List Bytes),
      Plain args operands → Sources ⟨cfg, w, inputData⟩ operands sources →
        (Prints (catStart ⟨cfg, w, inputData⟩ args) {} sources.flatten ↔ ∀ contents ∈ sources, EndsLine contents)) ∧
      ∀ (base : Env World) (self : HoneyPotShell) (rest : List (PipeProtocol World)) (args : List String)
        (f source target : Str) (g : String) (contents : Bytes) (s : Protocol World),
        Plain (args.map String.toList) [f] → Copying cfg s.world f g contents source target →
          (fileContents cfg (catRedirected cfg base self rest args g s) target = .ok contents ↔
            EndsLine contents) := by
  refine ⟨fun w inputData args operands sources hplain hsources => ?_,
    fun base self rest args f source target g contents s hplain h => ?_⟩
  · rw [prints_cat hplain hsources, flatten_copies_iff]
  · rw [fileContents_catRedirected self rest hplain h, ← flatten_copied_iff]
    exact ⟨Except.ok.inj, congrArg Except.ok⟩

/-! ### `cat f > g` in `/tmp` -/

/-- `/tmp/f` has these contents. -/
def catWorld (contents : Bytes) : World :=
  fileWorld (fileNode contents.length (.bytes contents) none) fun _ => none

theorem copying_catWorld (contents : Bytes)
    (hopens : ∃ info v, exec (prepareOutputFile demo ['g'] false) (catWorld contents) = (.ok (.file info), v)) :
    Copying demo (catWorld contents) ['f'] "g" contents ['/', 't', 'm', 'p', '/', 'f']
      ['/', 't', 'm', 'p', '/', 'g'] where
  operand := by decide
  source_resolves := rfl
  plain := rfl
  readable := rfl
  target_resolves := rfl
  opens := hopens
  exclusive := by
    have hnamed : Named (catWorld contents).fs := fileFs_named (by simp [fileNode])
    refine ⟨hnamed, fun r hr _ _ => ?_, fun x real hx => ?_⟩
    · obtain rfl : none = r := Except.ok.inj hr
      have hresolved : resolve demo.user ['g'] (catWorld contents).fs = .ok ['/', 't', 'm', 'p', '/', 'g'] := rfl
      have hnormal : Normal ['/', 't', 'm', 'p', '/', 'g'] :=
        resolvePath_normal demo.cwd_normal (resolve_eq hresolved)
      have hplain : ∀ y, none = some y → (catWorld contents).fs.entries y = [] := by
        intro y hy
        cases hy
      refine ⟨⟨hnamed, hnormal.splits (by simp), hplain, Nat.zero_le 10000, 3, rfl⟩, fun y _ _ _ => ?_, rfl⟩
      by_cases hy : y = 2
      · subst hy
        intro hback
        cases hback
      · have hnone : backing ((catWorld contents).fs.node y) = none := by
          unfold catWorld fileWorld fileFs
          simp [hy, backing]
        rw [hnone]
        intro hback
        cases hback
    · cases hx
  apart := by
    rintro ⟨path, x, -, -, ha⟩
    cases ha

theorem plain_operand : Plain (["f"].map String.toList) [['f']] := ⟨[], by decide, rfl⟩

/-- A shell that is called with nothing but `PATH`. -/
def catShell : HoneyPotShell where
  environ := .withPath "/bin"

/-- `printf 'a\n' | cat`, and `cat f > g` where `f` holds the same. -/
theorem cat_copies_line :
    Prints (catStart (pipedIn [97, 10]) []) {} [97, 10] ∧
      fileContents demo (catRedirected demo demoEnv catShell [] ["f"] "g" { world := catWorld [97, 10] })
        ['/', 't', 'm', 'p', '/', 'g'] = .ok [97, 10] :=
  ⟨((cat_copies_iff demo).1 demoWorld (some [97, 10]) [] [] [[97, 10]] ⟨[], by decide, rfl⟩ (.piped rfl)).mpr
      (by decide),
    ((cat_copies_iff demo).2 demoEnv catShell [] ["f"] ['f'] _ _ "g" [97, 10] { world := catWorld [97, 10] }
      plain_operand (copying_catWorld [97, 10] ⟨_, _, rfl⟩)).mpr (by decide)⟩

/-- `printf a | cat`, and `cat f > g` where `f` holds the same. -/
theorem cat_adds_newline :
    ¬ Prints (catStart (pipedIn [97]) []) {} [97] ∧
      fileContents demo (catRedirected demo demoEnv catShell [] ["f"] "g" { world := catWorld [97] })
        ['/', 't', 'm', 'p', '/', 'g'] = .ok [97, 10] := by
  constructor
  · have hplain : Plain [] [] := ⟨[], by decide, rfl⟩
    rw [prints_cat hplain (.piped rfl)]
    decide
  · rw [fileContents_catRedirected catShell [] plain_operand (copying_catWorld [97] ⟨_, _, rfl⟩)]
    decide

end Cowrie.Shell.Filter
