import Mathlib.Data.List.Basic

/-!
# Redirections on a command line (`src/cowrie/shell/parser.py`)

The lexer takes `2>/dev/null` apart; `mergeRedirectionTokens` glues the file descriptor and the
operator together again, and `parseRedirections` separates the redirections of a command from its
arguments.

* A run of tokens that belong together is skipped by a counter, as the loop index of the source is.
* Python's digits are not ASCII only: `decimal` is the value of a character that `\d` matches
  and `isDigit` is `str.isdigit` of one character. `int` of a text with other digits raises, and so it
  does for more digits than `sys.get_int_max_str_digits()`.
-/

namespace Cowrie.Shell

/-- The exceptions of the shell. -/
inductive PyError
  | valueError
  | unicodeDecodeError
  | indexError
  | attributeError
  | recursionError
  deriving DecidableEq, Repr

/-- The Unicode tables the parser consults. -/
structure Digits where
  decimal : Char → Option Nat
  isDigit : Char → Bool

/-- The digits of ASCII. -/
def asciiDigits : Digits where
  decimal c := if c.isDigit then some (c.toNat - 48) else none
  isDigit c := c.isDigit

/-- One redirection operation. -/
inductive RedirOp
  | file (fd : Nat) (target : String) (append : Bool)
  | stdin (fd : Nat) (target : String)
  | dup (fd target : Nat)
  deriving DecidableEq, Repr

/-- `>>`, `>&`, `>` and `<`. -/
inductive Operator
  | append
  | dup
  | output
  | input
  deriving DecidableEq, Repr

variable (u : Digits)

/-- `tok.isdigit()`. -/
def isDigits (tok : String) : Bool := tok ≠ "" && tok.toList.all u.isDigit

/-- `sys.get_int_max_str_digits()`, unless it was set. -/
def intMaxStrDigits : Nat := 4300

/-- `int(text)`. -/
def intOf (text : List Char) : Except PyError Nat :=
  match text.foldlM (fun n c => (u.decimal c).map (10 * n + ·)) 0 with
  | some n =>
    if text = [] then .error .valueError
    else if intMaxStrDigits < text.length then .error .valueError
    else .ok n
  | none => .error .valueError

/-- The tokens after which no file descriptor is glued on. -/
def endsRedir (tok : Option String) : Bool :=
  tok ∈ [none, some "|", some ";", some "&&", some "||"]

/-- `_combine_redir_sequence`, on the tokens from `index` on. -/
def combineRedirSequence : List String → Option (String × Nat)
  | [] => none
  | tok :: rest =>
    let nxt := rest[0]?
    let nxt2 := rest[1]?
    let nxt3 := rest[2]?
    if isDigits u tok ∧ nxt ∈ [some ">", some ">>", some ">&"] then
      let combined := tok ++ nxt.getD ""
      if nxt = some ">&" ∧ endsRedir nxt2 = false then some (combined ++ nxt2.getD "", 3)
      else if nxt ∈ [some ">", some ">>"] ∧ nxt2 = some "&" then
        if endsRedir nxt3 = false then some (combined ++ "&" ++ nxt3.getD "", 4)
        else some (combined ++ "&", 3)
      else some (combined, 2)
    else if tok ∈ [">", ">>"] ∧ nxt = some "&" then some (tok ++ "&", 2)
    else none

/-- The loop of `merge_redirection_tokens`, with tokens already glued still to skip. -/
def mergeFrom : Nat → List String → List String
  | _, [] => []
  | skip + 1, _ :: rest => mergeFrom skip rest
  | 0, tok :: rest =>
    match combineRedirSequence u (tok :: rest) with
    | some (combined, consumed) => combined :: mergeFrom (consumed - 1) rest
    | none => tok :: mergeFrom 0 rest

def mergeRedirectionTokens (tokens : List String) : List String := mergeFrom u 0 tokens

/-- The operator at the start of a text, and what follows it. -/
def operatorOf : List Char → Option (Operator × List Char)
  | '>' :: '>' :: rest => some (.append, rest)
  | '>' :: '&' :: rest => some (.dup, rest)
  | '>' :: rest => some (.output, rest)
  | '<' :: rest => some (.input, rest)
  | _ => none

/-- `(.*)$`: the rest of a line, which may end in a line feed. -/
def restOfLine (text : List Char) : Option String :=
  if '\n' ∉ text then some (String.ofList text)
  else if text.getLast? = some '\n' ∧ '\n' ∉ text.dropLast then some (String.ofList text.dropLast)
  else none

/-- `_extract_redir_op`: the operator of a token, its file descriptor and its inline target. -/
def extractRedirOp (token : String) : Except PyError (Option (Operator × Option Nat × String)) :=
  let fdText := token.toList.takeWhile fun c => (u.decimal c).isSome
  match operatorOf (token.toList.drop fdText.length) with
  | none => .ok none
  | some (op, rest) =>
    match restOfLine rest with
    | none => .ok none
    | some inlineTarget =>
      if fdText = [] then .ok (some (op, none, inlineTarget))
      else (intOf u fdText).map fun fd => some (op, some fd, inlineTarget)

/-- What `_apply_redirection` appends to `ops` and to `cleaned`, and the tokens it consumes. -/
structure Applied where
  ops : List RedirOp := []
  cleaned : List String := []
  consumed : Nat := 1

/-- `_apply_redirection`. -/
def applyRedirection (op : Operator) (fd : Option Nat) (inlineTarget : String)
    (nextToken : Option String) (rawToken : String) : Except PyError Applied :=
  let target := if inlineTarget = "" then nextToken else some inlineTarget
  let consumed := if inlineTarget = "" then 2 else 1
  match target with
  | none => .ok { cleaned := [rawToken] }
  | some target =>
    match op with
    | .output => .ok { ops := [.file (fd.getD 1) target false], consumed := consumed }
    | .append => .ok { ops := [.file (fd.getD 1) target true], consumed := consumed }
    | .input => .ok { ops := [.stdin (fd.getD 0) target], consumed := consumed }
    | .dup =>
      if target = "-" then .ok { consumed := consumed }
      else if isDigits u target then
        (intOf u target.toList).map fun n =>
          { ops := [.dup (fd.getD 1) n], consumed := consumed }
      else .ok { cleaned := [rawToken] }

/-- The loop of `parse_redirections`, with tokens already consumed still to skip. -/
def parseFrom : Nat → List String → Except PyError (List String × List RedirOp)
  | _, [] => .ok ([], [])
  | skip + 1, _ :: rest => parseFrom skip rest
  | 0, tok :: rest =>
    match extractRedirOp u tok with
    | .error e => .error e
    | .ok none => (parseFrom 0 rest).map fun r => (tok :: r.1, r.2)
    | .ok (some (op, fd, inlineTarget)) =>
      match applyRedirection u op fd inlineTarget rest.head? tok with
      | .error e => .error e
      | .ok applied =>
        (parseFrom (applied.consumed - 1) rest).map fun r =>
          (applied.cleaned ++ r.1, applied.ops ++ r.2)

def parseRedirections (arguments : List String) : Except PyError (List String × List RedirOp) :=
  parseFrom u 0 arguments

example : parseRedirections asciiDigits (mergeRedirectionTokens asciiDigits
    ["ls", "2", ">&", "1", "a", ">", "/tmp/x", "<in"]) =
    .ok (["ls", "a"], [.dup 2 1, .file 1 "/tmp/x" false, .stdin 0 "in"]) := by
  decide +kernel

end Cowrie.Shell
