import Cowrie.Shell.HoneyPot

/-!
# A command line (`src/cowrie/shell/honeypot.py:48-352`)

The loop of `lineReceived` takes the tokens of a line one by one. A separator queues the command
read so far; a token with `$(`, a backtick or an opening parenthesis is a substitution or a
subshell, which runs at once (`runSubshellCommand`), in a new shell whose output is captured.

* The end of a substitution is searched for character by character, and further tokens are
  appended when the characters run out (`scanTokens`). `IndexError` is the one Python raises when
  the index runs past the end.
* Whatever is raised while the tokens are read drops the queue (`lineReceived`).
-/

namespace Cowrie.Shell

open Cowrie.Lib PipeProtocol

variable {ω : Type} (env : Env ω)

/-! ## The end of a substitution -/

/-- `needle in haystack`. -/
def hasInfix (needle haystack : List Char) : Bool :=
  match haystack with
  | [] => needle = []
  | c :: cs => needle.isPrefixOf (c :: cs) || hasInfix needle cs

/-- The character U+0060. -/
def backtick : Char := Char.ofNat 96

/-- `"$(" in s or "`" in s`. -/
def hasSubstitution (s : List Char) : Bool := hasInfix ['$', '('] s || backtick ∈ s

/-- Where the scan of some characters stopped: after the closing one, at the end, or past it. -/
inductive Scan
  | closed (before after : List Char)
  | more (depth : Nat) (seen : List Char)
  | indexError
  deriving DecidableEq, Repr

/-- Scan for the end of a subshell (`paren`) or a substitution, `depth` levels deep; `seen` is what
has been passed, reversed. -/
def scanChars (paren : Bool) : Nat → List Char → List Char → Scan
  | _, _, [] => .indexError
  | depth, seen, [c] =>
    if c = ')' ∨ (paren = false ∧ c = backtick) then
      if depth ≤ 1 then .closed (c :: seen).reverse [] else .indexError
    else if paren ∧ c = '(' then .indexError
    else .more depth (c :: seen)
  | depth, seen, c :: d :: cs =>
    if c = ')' ∨ (paren = false ∧ c = backtick) then
      if depth ≤ 1 then .closed (c :: seen).reverse (d :: cs)
      else scanChars paren (depth - 1) (c :: seen) (d :: cs)
    else if paren ∧ c = '(' then scanChars paren (depth + 1) (c :: seen) (d :: cs)
    else if paren = false ∧ c = '$' ∧ d = '(' then
      scanChars paren (depth + 1) (d :: c :: seen) cs
    else scanChars paren depth (c :: seen) (d :: cs)

/-- Where the scan of the characters and of the tokens after them stopped. -/
inductive Found
  | closed (before after : List Char) (tokens : List String)
  | ended
  | indexError
  deriving DecidableEq, Repr

/-- The same with the tokens that follow, each appended after a blank. -/
def scanTokens (paren : Bool) (depth : Nat) (seen chars : List Char) : List String → Found
  | [] =>
    match scanChars paren depth seen chars with
    | .closed before after => .closed before after []
    | .more _ _ => .ended
    | .indexError => .indexError
  | tok :: tokens =>
    match scanChars paren depth seen chars with
    | .closed before after => .closed before after (tok :: tokens)
    | .more depth seen => scanTokens paren depth seen (' ' :: tok.toList) tokens
    | .indexError => .indexError

/-- `get_token` at the end of the tokens. -/
def endOfTokens (lexer : Lexer) : ShellM ω Unit :=
  if lexer.fails then throw .valueError else pure ()

/-! ## Running a substitution -/

/-- `s[a:-1]`. -/
def inside (a : Nat) (s : List Char) : String := String.ofList (s.drop a).dropLast

/-- `_execute_single_command_with_redirect`: run the line in a new shell and read the output of
the command that was called last. -/
def executeSingleCommandWithRedirect (nested : HoneyPotShell → String → ShellM ω Unit)
    (cmd : String) : ShellM ω String := do
  modify fun s => { s with depth := s.depth + 1 }
  nested ⟨false, true, env.environ (← get).world⟩ cmd
  modify fun s => { s with depth := s.depth - 1 }
  match (← get).pp with
  | [] => return ""
  | pp :: _ =>
    match decode pp.redirectedData with
    | some output => return output
    | none => throw .unicodeDecodeError

/-- Run the tokens of one command, if any. -/
def executeTokens (nested : HoneyPotShell → String → ShellM ω Unit) (tokens : List String) :
    ShellM ω String :=
  if tokens = [] then pure ""
  else executeSingleCommandWithRedirect env nested (" ".intercalate tokens)

/-- The loop of `_execute_subshell_with_full_output` over the commands between separators; the one
after the last separator runs if the lexer gets to the end. -/
def executeCommands (nested : HoneyPotShell → String → ShellM ω Unit) (lexer : Lexer) :
    List (List String) → ShellM ω String
  | [] => pure ""
  | [last] => do
    endOfTokens lexer
    executeTokens env nested last
  | tokens :: rest => do
    let output ← executeTokens env nested tokens
    return output ++ (← executeCommands nested lexer rest)

def isSeparator (tok : String) : Bool := tok ∈ [";", "&&", "||"]

/-- `_execute_subshell_with_full_output`. -/
def executeSubshellWithFullOutput (nested : HoneyPotShell → String → ShellM ω Unit)
    (cmd : String) : ShellM ω String :=
  executeCommands env nested (lex cmd) ((lex cmd).tokens.splitOnP isSeparator)

/-- `output.rstrip("\n")`. -/
def rstripNewlines (output : String) : String :=
  String.ofList (output.toList.reverse.dropWhile (· = '\n')).reverse

/-- `run_subshell_command`. -/
def runSubshellCommand (nested : HoneyPotShell → String → ShellM ω Unit) (cmdExpr : List Char) :
    ShellM ω String := do
  let cmd := inside (if ['$', '('].isPrefixOf cmdExpr then 2 else 1) cmdExpr
  if cmdExpr.head? = some '(' then executeSubshellWithFullOutput env nested cmd
  else return rstripNewlines (← executeSubshellWithFullOutput env nested cmd)

/-- `s.index("$(")`, for a text that has it. -/
def dollarPos : List Char → Nat
  | [] => 0
  | c :: cs => if ['$', '('].isPrefixOf (c :: cs) then 0 else dollarPos cs + 1

/-- The text before a substitution, and where the scan of it starts. -/
def substitutionStart (startTok : List Char) : Nat × Nat :=
  if startTok.head? = some '(' then (0, 1)
  else if hasInfix ['$', '('] startTok then (dollarPos startTok, 2)
  else (startTok.idxOf backtick, 1)

/-- `do_command_substitution`: the token with the outputs in it, and the lexer after the tokens
that were used up. -/
def doCommandSubstitution (nested : HoneyPotShell → String → ShellM ω Unit) :
    Nat → List Char → Lexer → ShellM ω (List Char × Lexer)
  | 0, _, _ => throw .recursionError
  | fuel + 1, startTok, lexer => do
    if hasSubstitution startTok = false ∧ startTok.head? ≠ some '(' then return (startTok, lexer)
    let (at_, skip) := substitutionStart startTok
    let cmdExpr := startTok.drop at_
    match scanTokens false 1 (cmdExpr.take skip).reverse (cmdExpr.drop skip) lexer.tokens with
    | .indexError => throw .indexError
    | .ended =>
      endOfTokens lexer
      return (startTok.take at_, ⟨[], false⟩)
    | .closed before after tokens =>
      let lexer := { lexer with tokens := tokens }
      let output ← runSubshellCommand env nested before
      let mut result := startTok.take at_
      if before.head? = some '(' then writeTerminal (encode output)
      else result := result ++ output.toList
      if after = [] then return (result, lexer)
      else if hasSubstitution after then doCommandSubstitution nested fuel (result ++ after) lexer
      else return (result ++ after, lexer)

/-- The tokens up to the closing parenthesis, `depth` levels deep, and those after it. -/
def collectSubshell : Nat → List String → List String × Option (List String)
  | _, [] => ([], none)
  | depth, tok :: tokens =>
    if tok = ")" then
      if depth ≤ 1 then ([], some tokens)
      else ((tok :: (collectSubshell (depth - 1) tokens).1), (collectSubshell (depth - 1) tokens).2)
    else if tok = "(" then
      ((tok :: (collectSubshell (depth + 1) tokens).1), (collectSubshell (depth + 1) tokens).2)
    else ((tok :: (collectSubshell depth tokens).1), (collectSubshell depth tokens).2)

/-- `do_subshell_execution_from_lexer`. -/
def doSubshellExecutionFromLexer (nested : HoneyPotShell → String → ShellM ω Unit)
    (lexer : Lexer) : ShellM ω Lexer := do
  let (cmdTokens, rest) := collectSubshell 1 lexer.tokens
  when (rest = none) (endOfTokens lexer)
  let output ← runSubshellCommand env nested ("(" ++ " ".intercalate cmdTokens ++ ")").toList
  writeTerminal (encode output)
  return { lexer with tokens := rest.getD [] }

/-- `do_subshell_execution`; what follows the closing parenthesis in its token is dropped. -/
def doSubshellExecution (nested : HoneyPotShell → String → ShellM ω Unit) (startTok : List Char)
    (lexer : Lexer) : ShellM ω Lexer := do
  match scanTokens true 1 (startTok.take 1) (startTok.drop 1) lexer.tokens with
  | .indexError => throw .indexError
  | .ended =>
    endOfTokens lexer
    return ⟨[], false⟩
  | .closed before _ tokens =>
    writeTerminal (encode (← runSubshellCommand env nested before))
    return { lexer with tokens := tokens }

/-! ## The tokens of a line -/

/-- What a token means. -/
inductive Token
  | andOr
  | semicolon
  | paren
  | subshell
  | substitution
  | word (text : String)
  | dropped
  deriving DecidableEq, Repr

/-- A character of a variable name. -/
def isNameChar (c : Char) : Bool := c = '_' || c.isAlphanum

/-- `$` at the end of a regex matches before a final line feed too. -/
def beforeNewline (text : List Char) : List Char :=
  if text.getLast? = some '\n' then text.dropLast else text

/-- The variable of `${name}` (`_ENV_BRACE_RE`). -/
def braceVariable (text : List Char) : Option String :=
  let body := ((beforeNewline text).drop 2).dropLast
  if ['$', '{'].isPrefixOf text ∧ (beforeNewline text).getLast? = some '}' ∧ body ≠ [] ∧
      body.all isNameChar
    then some (String.ofList body) else none

/-- The variable of `$name` (`_ENV_SIMPLE_RE`). -/
def simpleVariable (text : List Char) : Option String :=
  let body := (beforeNewline text).drop 1
  if text.head? = some '$' ∧ body ≠ [] ∧ body.all isNameChar then some (String.ofList body)
  else none

/-- A variable is replaced by its value, or dropped if it is not set; a text that is not one stays. -/
def expand (environ : Environ) (tok : String) : Option String → Token
  | none => .word tok
  | some name =>
    match environ.get? name with
    | some value => .word value
    | none => .dropped

/-- The cases of the token loop. -/
def classify (environ : Environ) (tok : String) : Token :=
  let text := tok.toList
  if tok = "&&" ∨ tok = "||" then .andOr
  else if tok = ";" then .semicolon
  else if tok = "$?" then .word "0"
  else if tok = "(" then .paren
  else if text.head? = some '(' then .subshell
  else if hasSubstitution text then .substitution
  else if ['$', '{'].isPrefixOf text then expand environ tok (braceVariable text)
  else if text.head? = some '$' then expand environ tok (simpleVariable text)
  else .word tok

/-- The local state of the token loop, with the queue. -/
structure Reading where
  lexer : Lexer
  tokens : List String := []
  pending : List Pending := []
  deriving DecidableEq, Repr

/-- `self.cmdpending.append(tokens)`, unless there are none. -/
def Reading.queue (r : Reading) (segment : Nat) : Reading :=
  if r.tokens = [] then r
  else { r with pending := r.pending ++ [⟨segment, r.tokens⟩], tokens := [] }

/-- The next command of the outermost line (ghost). -/
def nextSegment (self : HoneyPotShell) : ShellM ω Unit :=
  modify fun s => { s with segment := if self.redirect then s.segment else s.segment + 1 }

/-- `-bash: syntax error near unexpected token`, with the end the source gives it. -/
def unexpectedToken (tok ending : String) : Bytes :=
  encode ("-bash: syntax error near unexpected token " ++ String.singleton backtick ++ tok ++ "'" ++
    ending)

/-- One round of the token loop, `r.lexer` being past the token; `none` is a `break`. -/
def readToken (nested : HoneyPotShell → String → ShellM ω Unit) (self : HoneyPotShell)
    (fuel : Nat) (tok : String) (r : Reading) : ShellM ω (Option Reading) :=
  match classify self.environ tok with
  | .andOr => do
    if r.tokens = [] then
      writeTerminal (unexpectedToken tok "\n")
      return none
    else
      let r := r.queue (← get).segment
      nextSegment self
      return some r
  | .semicolon => do
    let r := r.queue (← get).segment
    nextSegment self
    return some r
  | .paren => do
    if r.tokens ≠ [] then
      writeTerminal (unexpectedToken tok "\\n")
      return none
    else
      return some { r with lexer := ← doSubshellExecutionFromLexer env nested r.lexer }
  | .subshell => do
    if r.tokens ≠ [] then
      writeTerminal (unexpectedToken tok "\\n")
      return none
    else
      return some { r with lexer := ← doSubshellExecution env nested tok.toList r.lexer }
  | .substitution => do
    let (text, lexer) ← doCommandSubstitution env nested fuel tok.toList r.lexer
    return some { r with lexer := lexer, tokens := r.tokens ++ [String.ofList text] }
  | .word text => return some { r with tokens := r.tokens ++ [text] }
  | .dropped => return some r

/-- The token has been taken. -/
def Reading.past (r : Reading) (rest : List String) : Reading :=
  { r with lexer := { r.lexer with tokens := rest } }

/-- The loop of `lineReceived`; every round uses up a token, so `rounds` need not exceed their
number. -/
def readTokens (nested : HoneyPotShell → String → ShellM ω Unit) (self : HoneyPotShell)
    (fuel : Nat) : Nat → Reading → ShellM ω Reading
  | 0, r => pure r
  | rounds + 1, r =>
    match r.lexer.tokens with
    | [] => do
      endOfTokens r.lexer
      return r.queue (← get).segment
    | tok :: rest => do
      match ← readToken env nested self fuel tok (r.past rest) with
      | some r => readTokens nested self fuel rounds r
      | none => return { r.past rest with tokens := [] }

/-- `self.cmdpending`, with the redirection tokens merged. -/
def mergePending (pending : List Pending) : List Pending :=
  pending.map fun p => { p with tokens := mergeRedirectionTokens env.digits p.tokens }

/-- `lineReceived`. -/
def lineReceived : Nat → HoneyPotShell → String → ShellM ω Unit
  | 0, _, _ => throw .recursionError
  | fuel + 1, self, line => do
    match env.router line with
    | some canned =>
      writeTerminal (encode canned)
      showPrompt env self
    | none =>
      let pending ← tryCatch
        (do return some (← readTokens env (lineReceived fuel) self fuel
          ((lex line).tokens.length + 1) { lexer := lex line }).pending)
        (fun _ => do
          writeTerminal (encode "-bash: syntax error: unexpected end of file\n")
          return none)
      match pending with
      | none | some [] => showPrompt env self
      | some (p :: ps) => runCommand env self fuel (mergePending env (p :: ps))

end Cowrie.Shell
