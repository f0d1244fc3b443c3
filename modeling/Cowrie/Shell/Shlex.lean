import Mathlib.Data.List.Basic

/-!
# The tokens of a command line (`shlex`, as `src/cowrie/shell/honeypot.py:83-85` configures it)

`HoneyPotShell` reads a line through Python's `shlex.shlex(line, punctuation_chars=True,
posix=True)` with ``@%{}=$:+^,()` `` added to the word characters. The lexer hands out its tokens one
by one, and they do not depend on when they are asked for: it is the list of its tokens, followed
by the end of the line or by a `ValueError` (`Lexer`).

* A character read too far is read again in the next token (`_pushback_chars`); `lexFrom` emits the
  token and looks at the character once more as the first one of the next.
* `quoted` makes an empty token count; `escape` remembers the state to go back to.
-/

namespace Cowrie.Shell

/-- The tokens still to come, and whether a `ValueError` follows them. -/
structure Lexer where
  tokens : List String
  fails : Bool := false
  deriving DecidableEq, Repr

namespace Lexer

/-- `self.state`; `comment` is the rest of a line after `#`, `escape` goes back to `quote` (of the
quotation mark) or to a word. -/
inductive State
  | space
  | word
  | punctuation
  | comment
  | quote (mark : Char)
  | escape (back : Option Char)
  deriving DecidableEq, Repr

def isWhitespace (c : Char) : Bool := c ∈ [' ', '\t', '\r', '\n']

def isQuote (c : Char) : Bool := c ∈ ['\'', '"']

def isPunctuation (c : Char) : Bool := c ∈ ['(', ')', ';', '<', '>', '|', '&']

/-- `wordchars`: letters, digits, accented Latin letters, what `punctuation_chars` adds for file
names, and what the shell adds. -/
def isWordChar (c : Char) : Bool :=
  c.isAlphanum || c = '_' ||
    (0xdf ≤ c.toNat && c.toNat ≤ 0xff && c.toNat ≠ 0xf7) ||
    (0xc0 ≤ c.toNat && c.toNat ≤ 0xde && c.toNat ≠ 0xd7) ||
    c ∈ ['~', '-', '.', '/', '*', '?', '=', '@', '%', '{', '}', '$', ':', '+', '^', ',', '(', ')',
      Char.ofNat 96]

/-- A finished token; an empty one counts if it was quoted. -/
def emit (token : List Char) (quoted : Bool) (rest : Lexer) : Lexer :=
  if token = [] ∧ quoted = false then rest
  else { rest with tokens := String.ofList token.reverse :: rest.tokens }

/-- The first character of a token: the state and the token it starts, or a token of its own. -/
def start (c : Char) : State × List Char × Bool :=
  if isWhitespace c then (.space, [], false)
  else if c = '#' then (.comment, [], false)
  else if c = '\\' then (.escape none, [], false)
  else if isWordChar c then (.word, [c], false)
  else if isPunctuation c then (.punctuation, [c], false)
  else if isQuote c then (.quote c, [], false)
  else (.space, [], true)

/-- The tokens of the characters, from a state with a token under way (`token`, reversed). -/
def lexFrom : State → List Char → Bool → List Char → Lexer
  | .quote _, _, _, [] => ⟨[], true⟩
  | .escape _, _, _, [] => ⟨[], true⟩
  | _, token, quoted, [] => emit token quoted ⟨[], false⟩
  | .space, _, _, c :: cs =>
    match start c with
    | (.space, _, true) => emit [c] false (lexFrom .space [] false cs)
    | (state, token, _) => lexFrom state token false cs
  | .comment, token, quoted, c :: cs =>
    lexFrom (if c = '\n' then .space else .comment) token quoted cs
  | .word, token, quoted, c :: cs =>
    if isWhitespace c then emit token quoted (lexFrom .space [] false cs)
    else if c = '#' then emit token quoted (lexFrom .comment [] false cs)
    else if isQuote c then lexFrom (.quote c) token quoted cs
    else if c = '\\' then lexFrom (.escape none) token quoted cs
    else if isWordChar c then lexFrom .word (c :: token) quoted cs
    else
      emit token quoted
        (match start c with
        | (.space, _, true) => emit [c] false (lexFrom .space [] false cs)
        | (state, token, _) => lexFrom state token false cs)
  | .punctuation, token, quoted, c :: cs =>
    if isWhitespace c then emit token quoted (lexFrom .space [] false cs)
    else if c = '#' then emit token quoted (lexFrom .comment [] false cs)
    else if isPunctuation c then lexFrom .punctuation (c :: token) quoted cs
    else
      emit token quoted
        (match start c with
        | (.space, _, true) => emit [c] false (lexFrom .space [] false cs)
        | (state, token, _) => lexFrom state token false cs)
  | .quote mark, token, _, c :: cs =>
    if c = mark then lexFrom .word token true cs
    else if c = '\\' ∧ mark = '"' then lexFrom (.escape (some mark)) token true cs
    else lexFrom (.quote mark) (c :: token) true cs
  | .escape none, token, quoted, c :: cs => lexFrom .word (c :: token) quoted cs
  | .escape (some mark), token, quoted, c :: cs =>
    if c = '\\' ∨ c = mark then lexFrom (.quote mark) (c :: token) quoted cs
    else lexFrom (.quote mark) (c :: '\\' :: token) quoted cs

end Lexer

/-- `shlex.shlex(line, punctuation_chars=True, posix=True)` with the shell's word characters. -/
def lex (line : String) : Lexer := Lexer.lexFrom .space [] false line.toList

example : lex "echo \"a b\" 'c'|wc -l; x>>y && $(id)" =
    ⟨["echo", "a b", "c", "|", "wc", "-l", ";", "x", ">>", "y", "&&", "$(id)"], false⟩ := by
  decide +kernel

end Cowrie.Shell
