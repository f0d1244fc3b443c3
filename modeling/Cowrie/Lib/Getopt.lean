import Mathlib.Logic.Basic

/-!
# Options of a command line (`getopt` of the standard library, up to Python 3.13)

`getopt` stops at the first operand, `gnuGetopt` goes on behind it, both at `--`. Options have names of one
character or of more; a long one may be cut short where one option only begins so. A short option takes an
argument if a colon follows its name in `shortopts`, a long one if its name in `longopts` ends in `=`. An error is
the name of the option it is about (`err.opt`). `POSIXLY_CORRECT` is not set.

* `scanOptions_operand`, `scanOptions_pair`: a first argument that is an operand, and one that is a short option
  whose argument comes next.
-/

namespace Cowrie.Lib.Getopt

/-- The name of an option, without its dashes. -/
inductive OptionName
  | short (opt : Char)
  | long (opt : List Char)
  deriving DecidableEq, Repr

/-- `err.opt`. -/
def OptionName.opt : OptionName → List Char
  | .short opt => [opt]
  | .long opt => opt

/-- `opts` and `args`. -/
abbrev Parsed := List (OptionName × List Char) × List (List Char)

variable (shortopts : List Char) (longopts : List (List Char))

/-- `short_has_arg`; none is a `GetoptError`. -/
def shortHasArg (opt : Char) : List Char → Option Bool
  | [] => none
  | c :: rest => if opt = c ∧ c ≠ ':' then some (rest.head? = some ':') else shortHasArg opt rest

/-- `do_shorts`: the options, and the one that takes the next argument. -/
def doShorts : List Char → Except (List Char) (List (OptionName × List Char) × Option OptionName)
  | [] => .ok ([], none)
  | opt :: optstring =>
    match shortHasArg opt shortopts with
    | none => .error [opt]
    | some true => if optstring = [] then .ok ([], some (.short opt)) else .ok ([(.short opt, optstring)], none)
    | some false => (doShorts optstring).map fun (opts, waiting) => ((.short opt, []) :: opts, waiting)

/-- `long_has_args`. -/
def longHasArgs (opt : List Char) : Except (List Char) (Bool × List Char) :=
  let possibilities := longopts.filter opt.isPrefixOf
  if possibilities = [] then .error opt
  else if possibilities.contains opt then .ok (false, opt)
  else if possibilities.contains (opt ++ ['=']) then .ok (true, opt)
  else
    match possibilities with
    | [unique] => if unique.getLast? = some '=' then .ok (true, unique.dropLast) else .ok (false, unique)
    | _ => .error opt

/-- `do_longs`. -/
def doLongs (text : List Char) : Except (List Char) (List (OptionName × List Char) × Option OptionName) :=
  let given := text.takeWhile (· ≠ '=')
  let optarg := if text.contains '=' then some (text.drop (given.length + 1)) else none
  match longHasArgs longopts given, optarg with
  | .error e, _ => .error e
  | .ok (true, opt), some optarg => .ok ([(.long opt, optarg)], none)
  | .ok (true, opt), none => .ok ([], some (.long opt))
  | .ok (false, opt), some _ => .error opt
  | .ok (false, opt), none => .ok ([(.long opt, [])], none)

/-- The loop over the arguments; `waiting` is an option whose argument comes next. -/
def scanOptions (gnu : Bool) : Option OptionName → List (List Char) → Except (List Char) Parsed
  | none, [] => .ok ([], [])
  | some name, [] => .error name.opt
  | some name, arg :: args => (scanOptions gnu none args).map fun (opts, args) => ((name, arg) :: opts, args)
  | none, arg :: args =>
    if arg = ['-', '-'] then .ok ([], args)
    else if arg.head? = some '-' ∧ arg ≠ ['-'] then
      match if ['-', '-'].isPrefixOf arg then doLongs longopts (arg.drop 2) else doShorts shortopts arg.tail with
      | .error e => .error e
      | .ok (opts, waiting) => (scanOptions gnu waiting args).map fun (more, args) => (opts ++ more, args)
    else if gnu then (scanOptions gnu none args).map fun (opts, args) => (opts, arg :: args)
    else .ok ([], arg :: args)

/-- `getopt.getopt(args, shortopts)`. -/
def getopt (args : List (List Char)) : Except (List Char) Parsed := scanOptions shortopts [] false none args

/-- `getopt.gnu_getopt(args, shortopts, longopts)`. -/
def gnuGetopt (args : List (List Char)) : Except (List Char) Parsed := scanOptions shortopts longopts true none args

variable {shortopts longopts} {gnu : Bool} {arg value : List Char} {args : List (List Char)} {opt : Char}

theorem scanOptions_operand (h : arg.head? ≠ some '-') (gnu : Bool) (args : List (List Char)) :
    scanOptions shortopts longopts gnu none (arg :: args) =
      if gnu then (scanOptions shortopts longopts gnu none args).map fun (opts, args) => (opts, arg :: args)
      else .ok ([], arg :: args) := by
  have hdashes : arg ≠ ['-', '-'] := by
    rintro rfl
    exact h rfl
  rw [scanOptions, if_neg hdashes, if_neg fun hopt => h hopt.1]

/-- An option, and its argument behind it. -/
theorem scanOptions_pair (hopt : shortHasArg opt shortopts = some true) (hdash : opt ≠ '-') (gnu : Bool)
    (value : List Char) (args : List (List Char)) :
    scanOptions shortopts longopts gnu none (['-', opt] :: value :: args) =
      (scanOptions shortopts longopts gnu none args).map fun (opts, args) => ((.short opt, value) :: opts, args) := by
  have hpair : doShorts shortopts [opt] = .ok ([], some (.short opt)) := by
    unfold doShorts
    rw [hopt]
    rfl
  rw [scanOptions, if_neg (by simp [hdash]), if_pos (by simp), if_neg (by simp [hdash.symm]), List.tail_cons, hpair]
  simp only [scanOptions]
  cases scanOptions shortopts longopts gnu none args <;> rfl

end Cowrie.Lib.Getopt
