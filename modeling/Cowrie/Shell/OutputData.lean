import Cowrie.Lib.Ensures
import Cowrie.Shell.MergeTokens
import Cowrie.Shell.Pipelines
import Cowrie.Shell.Plan
import Cowrie.Shell.Scan

/-!
# The output of a substitution is data (`src/cowrie/shell/honeypot.py:65-154`, `224-334`, `380-445`)

`do_command_substitution` joins the output of a substitution with the rest of its token and scans the
whole again; and `runCommand` reads the words of a command without knowing which of them were output.

`readWords` is the reading in which output is data: a scan goes on behind the output (`substitute`), and
a `Word` remembers that there is output in it. `planWords` is the plan of a command in which such a word
is never an operator.

* `Unseen`: whenever a scan is resumed, it finds nothing in what has been done already.
* `Unread`: no word with output in it is glued, assigned, a pipe or a redirection.
* **`outputIsData`**: as long as this holds, a line is read as `readWords` reads it, and its commands
  are those of `planWords`.
* `substitute_budget`: the number of scans of a token is bounded by the text of the line.
* `outputIsData_violated`: `echo $(p)$(p)`, where `p` prints `$(q)`.
-/

namespace Cowrie.Shell

open Cowrie.Lib PipeProtocol

variable {ω : Type} {env : Env ω} {nested : HoneyPotShell → String → ShellM ω Unit}
  {self : HoneyPotShell}

/-! ## Reading, with output as data -/

/-- The first substitution of a text: at `$(`, or else at a backtick. -/
def nextSubstitution (rest : List Char) : Nat × Nat :=
  if hasInfix ['$', '('] rest then (dollarPos rest, 2) else (rest.idxOf backtick, 1)

/-- The scan for its end. -/
def scanNext (rest : List Char) (lexer : Lexer) : Found :=
  let cmdExpr := rest.drop (nextSubstitution rest).1
  let skip := (nextSubstitution rest).2
  scanTokens false 1 (cmdExpr.take skip).reverse (cmdExpr.drop skip) lexer.tokens

/-- The substitutions of the text `rest`, behind what has been `done`. -/
def substitute (env : Env ω) (nested : HoneyPotShell → String → ShellM ω Unit) :
    Nat → List Char → List Char → Lexer → ShellM ω (List Char × Lexer)
  | 0, done, rest, lexer => pure (done ++ rest, lexer)
  | budget + 1, done, rest, lexer =>
    if hasSubstitution rest then
      match scanNext rest lexer with
      | .indexError => throw .indexError
      | .ended => do
        endOfTokens lexer
        return (done ++ rest.take (nextSubstitution rest).1, ⟨[], false⟩)
      | .closed before after tokens => do
        let output ← runSubshellCommand env nested before
        substitute env nested budget (done ++ rest.take (nextSubstitution rest).1 ++ output.toList) after
          { lexer with tokens := tokens }
    else pure (done ++ rest, lexer)

/-- The text that is left of the line. -/
def textSize (rest : List Char) (lexer : Lexer) : Nat := (rest ++ spelled lexer.tokens).length

/-- All substitutions of a token. -/
def substituteAll (env : Env ω) (nested : HoneyPotShell → String → ShellM ω Unit) (text : List Char)
    (lexer : Lexer) : ShellM ω (List Char × Lexer) :=
  substitute env nested (textSize text lexer + 1) [] text lexer

/-- A word of a command. If there is output in it, `lead` is what the line has before the first. -/
structure Word where
  text : String
  output : Bool := false
  lead : String := ""
  deriving DecidableEq, Repr

/-- A queued command line. -/
structure WordPending where
  segment : Nat
  words : List Word
  deriving DecidableEq, Repr

/-- `Reading`, with words. -/
structure WordReading where
  lexer : Lexer
  words : List Word := []
  pending : List WordPending := []
  deriving DecidableEq, Repr

def textOf (ws : List Word) : List String := ws.map Word.text

def WordPending.erase (q : WordPending) : Pending := ⟨q.segment, textOf q.words⟩

/-- Forget where the words come from. -/
def WordReading.erase (r : WordReading) : Reading :=
  ⟨r.lexer, textOf r.words, r.pending.map WordPending.erase⟩

def WordReading.queue (r : WordReading) (segment : Nat) : WordReading :=
  if r.words = [] then r
  else { r with pending := r.pending ++ [⟨segment, r.words⟩], words := [] }

def WordReading.past (r : WordReading) (rest : List String) : WordReading :=
  { r with lexer := { r.lexer with tokens := rest } }

/-- One round of the token loop. -/
def readWord (env : Env ω) (nested : HoneyPotShell → String → ShellM ω Unit) (self : HoneyPotShell)
    (tok : String) (r : WordReading) : ShellM ω (Option WordReading) :=
  match classify self.environ tok with
  | .andOr => do
    if r.words = [] then
      writeTerminal (unexpectedToken tok "\n")
      return none
    else
      let r := r.queue (← get).segment
      nextSegment self
      return some r
  | .semicolon => do
    let r := r.queue (← get).segment
    nextSegment self
    return some r
  | .paren => do
    if r.words ≠ [] then
      writeTerminal (unexpectedToken tok "\\n")
      return none
    else
      return some { r with lexer := ← doSubshellExecutionFromLexer env nested r.lexer }
  | .subshell => do
    if r.words ≠ [] then
      writeTerminal (unexpectedToken tok "\\n")
      return none
    else
      return some { r with lexer := ← doSubshellExecution env nested tok.toList r.lexer }
  | .substitution => do
    let (text, lexer) ← substituteAll env nested tok.toList r.lexer
    let lead := tok.toList.take (nextSubstitution tok.toList).1
    return some { r with lexer := lexer, words := r.words ++ [⟨String.ofList text, true, String.ofList lead⟩] }
  | .word text => return some { r with words := r.words ++ [⟨text, false, ""⟩] }
  | .dropped => return some r

/-- The token loop. -/
def readWords (env : Env ω) (nested : HoneyPotShell → String → ShellM ω Unit) (self : HoneyPotShell) :
    Nat → WordReading → ShellM ω WordReading
  | 0, r => pure r
  | rounds + 1, r =>
    match r.lexer.tokens with
    | [] => do
      endOfTokens r.lexer
      return r.queue (← get).segment
    | tok :: rest => do
      match ← readWord env nested self tok (r.past rest) with
      | some r => readWords env nested self rounds r
      | none => return { r.past rest with words := [] }

/-! ## Commands, with output as data -/

variable (u : Digits)

/-- What may be an operator or a number. -/
def Word.view (w : Word) : String := if w.output then "" else w.text

/-- What may make the word an assignment. -/
def Word.key (w : Word) : String := if w.output then w.lead else w.text

/-- The assignments before a command. -/
def stripWords : List Word → Environ → List Word × Environ
  | [], environ => ([], environ)
  | w :: rest, environ =>
    if '=' ∈ w.key.toList then
      stripWords rest (environ.set (splitAssignment w.text).1 (splitAssignment w.text).2)
    else (w :: rest, environ)

/-- The operators, glued together. -/
def mergeWords : Nat → List Word → List Word
  | _, [] => []
  | skip + 1, _ :: rest => mergeWords skip rest
  | 0, w :: rest =>
    match combineRedirSequence u ((w :: rest).map Word.view) with
    | some (_, consumed) =>
      ⟨String.join (textOf ((w :: rest).take consumed)), false, ""⟩ :: mergeWords (consumed - 1) rest
    | none => w :: mergeWords 0 rest

/-- The redirections of a stage. -/
def parseWords : Nat → List Word → Stage
  | _, [] => .ok ([], [])
  | skip + 1, _ :: rest => parseWords skip rest
  | 0, w :: rest =>
    if w.output then (parseWords 0 rest).map fun r => (w.text :: r.1, r.2)
    else
      match extractRedirOp u w.text with
      | .error e => .error e
      | .ok none => (parseWords 0 rest).map fun r => (w.text :: r.1, r.2)
      | .ok (some (op, fd, inlineTarget)) =>
        match applyRedirection u op fd inlineTarget (textOf rest).head? w.text with
        | .error e => .error e
        | .ok applied =>
          (parseWords (applied.consumed - 1) rest).map fun r =>
            (applied.cleaned ++ r.1, applied.ops ++ r.2)

/-- The stages of a command line. -/
def stagesOf (ws : List Word) : List (List Word) := ws.splitOnP fun w => w.view = "|"

/-- The plan of a queued command line. -/
def planWords (environ : Environ) (ws : List Word) : Environ × List Stage :=
  ((stripWords (mergeWords u 0 ws) environ).2,
    (stagesOf (stripWords (mergeWords u 0 ws) environ).1).map (parseWords u 0))

/-! ## Output that is not looked at -/

/-- The scan of `rest` is resumed behind `done`, and finds nothing in it. -/
structure Resumes (done rest : List Char) : Prop where
  noParen : (done ++ rest).head? ≠ some '('
  noDollar : ∀ i < done.length, ['$', '('].isPrefixOf ((done ++ rest).drop i) = false
  noBacktick : hasInfix ['$', '('] rest = false → backtick ∉ done

/-- What holds of a scan that has found an end. -/
def Found.Closes (Q : List Char → List Char → List String → Prop) : Found → Prop
  | .closed before after tokens => Q before after tokens
  | .ended => True
  | .indexError => True

/-- So it is whenever a token is scanned again. -/
def Unseen (env : Env ω) (nested : HoneyPotShell → String → ShellM ω Unit) :
    Nat → List Char → List Char → Lexer → Protocol ω → Prop
  | 0, _, _, _, _ => True
  | budget + 1, done, rest, lexer, s => hasSubstitution rest = true → Resumes done rest ∧
    (scanNext rest lexer).Closes fun before after tokens =>
      Ensures (fun _ => True) (runSubshellCommand env nested before) (fun output =>
        Unseen env nested budget (done ++ rest.take (nextSubstitution rest).1 ++ output.toList) after
          { lexer with tokens := tokens }) s

/-- So it is in every substitution of a line. -/
def UnseenAll (env : Env ω) (nested : HoneyPotShell → String → ShellM ω Unit) (self : HoneyPotShell) :
    Nat → WordReading → Protocol ω → Prop
  | 0, _, _ => True
  | rounds + 1, r, s =>
    match r.lexer.tokens with
    | [] => True
    | tok :: rest =>
      (classify self.environ tok = .substitution →
        Unseen env nested (textSize tok.toList (r.past rest).lexer + 1) [] tok.toList (r.past rest).lexer s) ∧
      Ensures (fun _ => True) (readWord env nested self tok (r.past rest)) (fun next t =>
        ∀ r' ∈ next, UnseenAll env nested self rounds r' t) s

/-- Glueing takes the same tokens, whatever the output is. -/
def Unglued : Nat → List Word → Prop
  | _, [] => True
  | skip + 1, _ :: rest => Unglued skip rest
  | 0, w :: rest =>
    (combineRedirSequence u (textOf (w :: rest))).map Prod.snd =
        (combineRedirSequence u ((w :: rest).map Word.view)).map Prod.snd ∧
      match combineRedirSequence u ((w :: rest).map Word.view) with
      | some (_, consumed) => Unglued (consumed - 1) rest
      | none => Unglued 0 rest

/-- Output makes no word before the command an assignment. -/
def Unassigned : List Word → Prop
  | [] => True
  | w :: rest => ('=' ∈ w.text.toList ↔ '=' ∈ w.key.toList) ∧ ('=' ∈ w.key.toList → Unassigned rest)

/-- Output makes no word a redirection, unless it is the target of one. -/
def Unredirecting : Nat → List Word → Prop
  | _, [] => True
  | skip + 1, _ :: rest => Unredirecting skip rest
  | 0, w :: rest =>
    if w.output then ¬ Redirects u w.text (textOf rest).head? ∧ Unredirecting 0 rest
    else
      match extractRedirOp u w.text with
      | .error _ => True
      | .ok none => Unredirecting 0 rest
      | .ok (some (op, fd, inlineTarget)) =>
        match applyRedirection u op fd inlineTarget (textOf rest).head? w.text with
        | .error _ => True
        | .ok applied => Unredirecting (applied.consumed - 1) rest

/-- `runCommand` reads nothing into the output. -/
structure Unread (environ : Environ) (ws : List Word) : Prop where
  glue : Unglued u 0 ws
  assignment : Unassigned (mergeWords u 0 ws)
  pipe : ∀ w ∈ (stripWords (mergeWords u 0 ws) environ).1, w.output → w.text ≠ "|"
  redirection : ∀ stage ∈ stagesOf (stripWords (mergeWords u 0 ws) environ).1, Unredirecting u 0 stage

instance (done rest : List Char) : Decidable (Resumes done rest) :=
  decidable_of_iff ((done ++ rest).head? ≠ some '(' ∧
      (∀ i < done.length, ['$', '('].isPrefixOf ((done ++ rest).drop i) = false) ∧
      (hasInfix ['$', '('] rest = false → backtick ∉ done))
    ⟨fun ⟨h, h', h''⟩ => ⟨h, h', h''⟩, fun h => ⟨h.noParen, h.noDollar, h.noBacktick⟩⟩

instance Found.Closes.decidable {Q : List Char → List Char → List String → Prop}
    [∀ before after tokens, Decidable (Q before after tokens)] : (found : Found) → Decidable (found.Closes Q)
  | .closed before after tokens => inferInstanceAs (Decidable (Q before after tokens))
  | .ended => isTrue trivial
  | .indexError => isTrue trivial

instance Unseen.decidable : (budget : Nat) → (done rest : List Char) → (lexer : Lexer) →
    (s : Protocol ω) → Decidable (Unseen env nested budget done rest lexer s)
  | 0, _, _, _, _ => isTrue trivial
  | budget + 1, _, _, _, _ =>
    haveI := Unseen.decidable budget
    inferInstanceAs (Decidable (_ → _ ∧ Found.Closes _ _))

instance UnseenAll.decidable : (rounds : Nat) → (r : WordReading) → (s : Protocol ω) →
    Decidable (UnseenAll env nested self rounds r s)
  | 0, _, _ => isTrue trivial
  | rounds + 1, r, s =>
    haveI := UnseenAll.decidable rounds
    match htoks : r.lexer.tokens with
    | [] => isTrue (by
        unfold UnseenAll
        rw [htoks]
        trivial)
    | tok :: rest => decidable_of_iff (_ ∧ Ensures _ _ _ _) (by
        conv_rhs => unfold UnseenAll
        rw [htoks])

/-! ## The commands -/

section
variable {u : Digits}

/-- What is glued together are the tokens themselves. -/
theorem combineRedirSequence_join {toks : List String} {combined : String} {consumed : Nat}
    (h : combineRedirSequence u toks = some (combined, consumed)) :
    combined = String.join (toks.take consumed) := by
  obtain ⟨group, -, hlength, hsplit, rfl⟩ := combineRedirSequence_group h
  rw [hsplit, List.take_left' hlength]

theorem mergeFrom_textOf {skip : Nat} {ws : List Word} (h : Unglued u skip ws) :
    mergeFrom u skip (textOf ws) = textOf (mergeWords u skip ws) := by
  induction ws generalizing skip with
  | nil => cases skip <;> rfl
  | cons w rest ih =>
    cases skip with
    | succ skip => exact ih h
    | zero =>
      obtain ⟨hsame, hrest⟩ := h
      have htexts : textOf (w :: rest) = w.text :: textOf rest := rfl
      rw [htexts] at hsame ⊢
      unfold mergeFrom mergeWords
      cases hview : combineRedirSequence u ((w :: rest).map Word.view) with
      | none =>
        rw [hview] at hsame hrest
        rw [Option.map_eq_none_iff.mp hsame]
        simp only
        rw [ih hrest]
        rfl
      | some r =>
        obtain ⟨glued, consumed⟩ := r
        rw [hview] at hsame hrest
        obtain ⟨⟨combined, n⟩, hcombined, rfl⟩ := Option.map_eq_some_iff.mp hsame
        rw [hcombined]
        simp only at hrest ⊢
        rw [ih hrest, combineRedirSequence_join hcombined, ← htexts]
        unfold textOf
        rw [List.map_cons, List.map_take]
        rfl

theorem stripAssignments_textOf {ws : List Word} (h : Unassigned ws) (environ : Environ) :
    stripAssignments (textOf ws) environ =
      (textOf (stripWords ws environ).1, (stripWords ws environ).2) := by
  induction ws generalizing environ with
  | nil => rfl
  | cons w rest ih =>
    obtain ⟨hsame, hrest⟩ := h
    have htexts : textOf (w :: rest) = w.text :: textOf rest := rfl
    rw [htexts]
    unfold stripAssignments stripWords
    simp only [hsame]
    split_ifs with hkey
    · exact ih (hrest hkey) _
    · rfl

/-- The pipes of the line are those of the tokens. -/
theorem splitOn_textOf {ws : List Word} (h : ∀ w ∈ ws, w.output → w.text ≠ "|") :
    (textOf ws).splitOn "|" = (stagesOf ws).map textOf := by
  unfold stagesOf
  rw [List.splitOn_eq_splitOnP]
  induction ws with
  | nil => rfl
  | cons w rest ih =>
    obtain ⟨hw, hrest⟩ := List.forall_mem_cons.mp h
    have htexts : textOf (w :: rest) = w.text :: textOf rest := rfl
    have hpipe : decide (w.view = "|") = (w.text == "|") := by
      unfold Word.view
      by_cases houtput : w.output = true
      · rw [if_pos houtput, beq_eq_false_iff_ne.mpr (hw houtput)]
        rfl
      · rw [if_neg houtput]
        rfl
    rw [htexts, List.splitOnP_cons_eq_if_modifyHead, List.splitOnP_cons_eq_if_modifyHead, ih hrest, hpipe]
    split_ifs
    · rfl
    · cases List.splitOnP (fun w : Word => decide (w.view = "|")) rest <;> rfl

theorem parseFrom_textOf {skip : Nat} {ws : List Word} (h : Unredirecting u skip ws) :
    parseFrom u skip (textOf ws) = parseWords u skip ws := by
  induction ws generalizing skip with
  | nil => cases skip <;> rfl
  | cons w rest ih =>
    cases skip with
    | succ skip => exact ih h
    | zero =>
      have htexts : textOf (w :: rest) = w.text :: textOf rest := rfl
      rw [htexts]
      unfold Unredirecting at h
      unfold parseFrom parseWords
      by_cases houtput : w.output = true
      · rw [if_pos houtput] at h ⊢
        obtain ⟨hkept, hrest⟩ := h
        cases hop : extractRedirOp u w.text with
        | error e => exact absurd (by simp [Redirects, hop]) hkept
        | ok r =>
          rcases r with - | ⟨op, fd, inlineTarget⟩
          · simp only
            rw [ih hrest]
          · simp only
            rw [applyRedirection_of_not hop hkept]
            simp only
            rw [show (1 : Nat) - 1 = 0 from rfl, ih hrest]
            rfl
      · rw [if_neg houtput] at h ⊢
        cases hop : extractRedirOp u w.text with
        | error e => rfl
        | ok r =>
          rw [hop] at h
          rcases r with - | ⟨op, fd, inlineTarget⟩
          · simp only at h ⊢
            rw [ih h]
          · simp only at h ⊢
            cases happly : applyRedirection u op fd inlineTarget (textOf rest).head? w.text with
            | error e => rfl
            | ok applied =>
              rw [happly] at h
              simp only at h ⊢
              rw [ih h]

/-- **The plan of the tokens is that of the words.** -/
theorem plan_textOf {environ : Environ} {ws : List Word} (h : Unread u environ ws) :
    plan u environ (mergeRedirectionTokens u (textOf ws)) = planWords u environ ws := by
  unfold plan planWords mergeRedirectionTokens
  rw [mergeFrom_textOf h.glue, stripAssignments_textOf h.assignment]
  simp only
  rw [splitOn_textOf h.pipe, List.map_map]
  refine Prod.ext rfl (List.map_congr_left fun stage hstage => ?_)
  exact parseFrom_textOf (h.redirection stage hstage)

end

/-! ## The substitutions of a token -/

theorem hasInfix_cons (needle : List Char) (c : Char) (cs : List Char) :
    hasInfix needle (c :: cs) = (needle.isPrefixOf (c :: cs) || hasInfix needle cs) := rfl

theorem dollarPos_cons (c : Char) (cs : List Char) :
    dollarPos (c :: cs) = if ['$', '('].isPrefixOf (c :: cs) then 0 else dollarPos cs + 1 := rfl

theorem hasInfix_append {done rest : List Char}
    (h : ∀ i < done.length, ['$', '('].isPrefixOf ((done ++ rest).drop i) = false) :
    hasInfix ['$', '('] (done ++ rest) = hasInfix ['$', '('] rest ∧
      (hasInfix ['$', '('] rest = true → dollarPos (done ++ rest) = done.length + dollarPos rest) := by
  induction done with
  | nil => exact ⟨rfl, fun _ => (Nat.zero_add _).symm⟩
  | cons c done ih =>
    have hfirst : ['$', '('].isPrefixOf (c :: (done ++ rest)) = false := h 0 (Nat.zero_lt_succ _)
    obtain ⟨hfound, hpos⟩ := ih fun i hi => h (i + 1) (Nat.succ_lt_succ hi)
    rw [List.cons_append]
    constructor
    · rw [hasInfix_cons, hfirst, Bool.false_or, hfound]
    · intro hrest
      rw [dollarPos_cons, if_neg (by rw [hfirst]; exact Bool.false_ne_true), hpos hrest, List.length_cons]
      omega

theorem hasSubstitution_append {rest : List Char} (h : hasSubstitution rest = true) (done : List Char) :
    hasSubstitution (done ++ rest) = true := by
  have hfound : ∀ done, hasInfix ['$', '('] rest = true → hasInfix ['$', '('] (done ++ rest) = true := by
    intro done hrest
    induction done with
    | nil => exact hrest
    | cons c done ih =>
      rw [List.cons_append, hasInfix_cons, ih, Bool.or_true]
  unfold hasSubstitution at h ⊢
  rw [Bool.or_eq_true] at h ⊢
  rcases h with h | h
  · exact .inl (hfound done h)
  · exact .inr (decide_eq_true (List.mem_append_right _ (of_decide_eq_true h)))

/-- **A resumed scan starts in the rest of the line.** -/
theorem Resumes.start {done rest : List Char} (h : Resumes done rest) :
    substitutionStart (done ++ rest) =
      (done.length + (nextSubstitution rest).1, (nextSubstitution rest).2) := by
  obtain ⟨hfound, hpos⟩ := hasInfix_append h.noDollar
  unfold substitutionStart nextSubstitution
  rw [if_neg h.noParen, hfound]
  by_cases hdollar : hasInfix ['$', '('] rest = true
  · rw [if_pos hdollar, if_pos hdollar, hpos hdollar]
  · rw [if_neg hdollar, if_neg hdollar,
      List.idxOf_append_of_notMem (h.noBacktick (Bool.eq_false_iff.mpr hdollar)), Nat.add_comm]

/-- What is found begins with a dollar sign or a backtick. -/
theorem nextSubstitution_head {rest : List Char} (h : hasSubstitution rest = true) :
    (rest.drop (nextSubstitution rest).1).head? = some '$' ∨
      (rest.drop (nextSubstitution rest).1).head? = some backtick := by
  unfold nextSubstitution
  split_ifs with hdollar
  · left
    induction rest with
    | nil => cases hdollar
    | cons c rest ih =>
      rw [dollarPos_cons]
      split_ifs with hprefix
      · obtain ⟨hc, -⟩ := List.cons_prefix_cons.mp (List.isPrefixOf_iff_prefix.mp hprefix)
        rw [List.drop_zero, List.head?_cons, hc]
      · rw [hasInfix_cons, Bool.eq_false_iff.mpr hprefix, Bool.false_or] at hdollar
        rw [List.drop_succ_cons]
        exact ih (by unfold hasSubstitution; rw [hdollar, Bool.true_or]) hdollar
  · right
    unfold hasSubstitution at h
    rw [Bool.eq_false_iff.mpr hdollar, Bool.false_or] at h
    rw [List.head?_drop]
    exact List.getElem?_idxOf (of_decide_eq_true h)

theorem substitute_none (env : Env ω) (nested : HoneyPotShell → String → ShellM ω Unit) (budget : Nat)
    (done : List Char) {rest : List Char} (h : hasSubstitution rest = false) (lexer : Lexer) :
    substitute env nested budget done rest lexer = pure (done ++ rest, lexer) := by
  cases budget with
  | zero => rfl
  | succ budget =>
    unfold substitute
    rw [if_neg (by rw [h]; exact Bool.false_ne_true)]

/-- A scan uses up a part of the line. -/
theorem scanNext_closed {rest before after : List Char} {lexer : Lexer} {tokens : List String}
    (h : scanNext rest lexer = .closed before after tokens) :
    tokens <:+ lexer.tokens ∧ before ≠ [] ∧
      before ++ after ++ spelled tokens =
        rest.drop (nextSubstitution rest).1 ++ spelled lexer.tokens := by
  unfold scanNext at h
  obtain ⟨hsuffix, hne, hparts⟩ := scanTokens_closed h
  refine ⟨hsuffix, hne, hparts.trans ?_⟩
  rw [List.reverse_reverse, List.take_append_drop]

theorem textSize_lt {rest before after : List Char} {lexer : Lexer} {tokens : List String}
    (h : scanNext rest lexer = .closed before after tokens) :
    textSize after { lexer with tokens := tokens } < textSize rest lexer := by
  obtain ⟨-, hne, hparts⟩ := scanNext_closed h
  have hlength := congrArg List.length hparts
  have hpos := List.length_pos_iff.mpr hne
  unfold textSize
  simp only [List.length_append, List.length_drop] at hlength ⊢
  omega

/-- **The number of scans is bounded by the text of the line.** -/
theorem substitute_budget (env : Env ω) (nested : HoneyPotShell → String → ShellM ω Unit)
    {budget budget' : Nat} {done rest : List Char} {lexer : Lexer} (h : textSize rest lexer < budget)
    (h' : textSize rest lexer < budget') :
    substitute env nested budget done rest lexer = substitute env nested budget' done rest lexer := by
  induction budget generalizing budget' done rest lexer with
  | zero => exact absurd h (Nat.not_lt_zero _)
  | succ budget ih =>
    obtain ⟨budget', rfl⟩ : ∃ k, budget' = k + 1 := ⟨budget' - 1, by omega⟩
    unfold substitute
    split_ifs
    · split
      · rfl
      · rfl
      next before after tokens hscan =>
        have hlt := textSize_lt hscan
        refine congrArg _ (funext fun output => ?_)
        exact ih (by omega) (by omega)
    · rfl

/-- **The substitutions of a token**: the code does what the reading with data does. -/
theorem exec_doCommandSubstitution {budget fuel : Nat} {done rest : List Char} {lexer : Lexer}
    {s : Protocol ω} (hbudget : textSize rest lexer < budget) (hfuel : textSize rest lexer < fuel)
    (hsub : hasSubstitution rest = true) (h : Unseen env nested budget done rest lexer s) :
    exec (doCommandSubstitution env nested fuel (done ++ rest) lexer) s =
      exec (substitute env nested budget done rest lexer) s := by
  induction budget generalizing fuel done rest lexer s with
  | zero => exact absurd hbudget (Nat.not_lt_zero _)
  | succ budget ih =>
    obtain ⟨fuel, rfl⟩ : ∃ k, fuel = k + 1 := ⟨fuel - 1, by omega⟩
    obtain ⟨hresumes, hnext⟩ := h hsub
    have hwhole : ¬ (hasSubstitution (done ++ rest) = false ∧ (done ++ rest).head? ≠ some '(') := by
      rw [hasSubstitution_append hsub]
      exact fun hnone => absurd hnone.1 (by decide)
    have hdrop : (done ++ rest).drop (done.length + (nextSubstitution rest).1) =
        rest.drop (nextSubstitution rest).1 := by
      rw [List.drop_append, List.drop_of_length_le (Nat.le_add_right _ _), List.nil_append,
        Nat.add_sub_cancel_left]
    have htake : (done ++ rest).take (done.length + (nextSubstitution rest).1) =
        done ++ rest.take (nextSubstitution rest).1 := by
      rw [List.take_append, List.take_of_length_le (Nat.le_add_right _ _), Nat.add_sub_cancel_left]
    unfold doCommandSubstitution substitute
    rw [if_neg hwhole, if_pos hsub, hresumes.start]
    simp only
    rw [hdrop, htake]
    unfold scanNext at hnext ⊢
    simp only at hnext ⊢
    cases hscan : scanTokens false 1
        ((rest.drop (nextSubstitution rest).1).take (nextSubstitution rest).2).reverse
        ((rest.drop (nextSubstitution rest).1).drop (nextSubstitution rest).2) lexer.tokens with
    | indexError => rfl
    | ended => rfl
    | closed before after tokens =>
      rw [hscan] at hnext
      simp only [Found.Closes] at hnext ⊢
      have hfound : scanNext rest lexer = .closed before after tokens := hscan
      have hlt := textSize_lt hfound
      obtain ⟨-, hne, hparts⟩ := scanNext_closed hfound
      have hhead : before.head? ≠ some '(' := by
        have hbegin := nextSubstitution_head hsub
        cases before with
        | nil => exact absurd rfl hne
        | cons c before =>
          cases htail : rest.drop (nextSubstitution rest).1 with
          | nil =>
            rw [htail] at hbegin
            exact absurd hbegin (by simp)
          | cons d tail =>
            rw [htail] at hparts hbegin
            obtain ⟨rfl, -⟩ := List.cons.inj hparts
            intro hparen
            rw [List.head?_cons] at hparen hbegin
            rw [hparen] at hbegin
            exact absurd hbegin (by decide)
      rw [exec_bind, exec_bind]
      cases hrun : exec (runSubshellCommand env nested before) s with
      | mk r t =>
        cases r with
        | error e => rfl
        | ok output =>
          simp only [if_neg hhead]
          by_cases hafter : after = []
          · rw [if_pos hafter, hafter, substitute_none _ _ _ _ rfl, List.append_nil]
          · rw [if_neg hafter]
            by_cases hmore : hasSubstitution after = true
            · rw [if_pos hmore]
              exact ih (by omega) (by omega) hmore (hnext.ok hrun)
            · rw [if_neg hmore, substitute_none _ _ _ _ (Bool.eq_false_iff.mpr hmore)]

/-! ## The token loop -/

/-- The result of a computation, changed. -/
def mapped {α β : Type} (f : α → β) (x : Except PyError α × Protocol ω) :
    Except PyError β × Protocol ω := (x.1.map f, x.2)

/-- Two readings that go on alike. -/
theorem exec_reading {α : Type} {m m' : ShellM ω α} {g : α → Reading} {g' : α → WordReading}
    {s : Protocol ω} (hm : exec m s = exec m' s) (h : ∀ a, g a = (g' a).erase) :
    exec (m >>= fun a => pure (some (g a))) s =
      mapped (Option.map WordReading.erase) (exec (m' >>= fun a => pure (some (g' a))) s) := by
  rw [exec_bind, exec_bind, hm]
  cases exec m' s with
  | mk r t =>
    cases r with
    | error e => rfl
    | ok a =>
      simp only [h]
      rfl

theorem erase_append (r : WordReading) (lexer : Lexer) (w : Word) :
    { r.erase with lexer := lexer, tokens := r.erase.tokens ++ [w.text] } =
      WordReading.erase { r with lexer := lexer, words := r.words ++ [w] } := by
  unfold WordReading.erase textOf
  rw [List.map_append]
  rfl

theorem erase_queue (r : WordReading) (segment : Nat) :
    (r.queue segment).erase = r.erase.queue segment := by
  unfold WordReading.queue Reading.queue
  by_cases hnone : r.words = []
  · rw [if_pos hnone, if_pos (by simp [WordReading.erase, textOf, hnone])]
  · rw [if_neg hnone, if_neg (by simpa [WordReading.erase, textOf] using hnone)]
    simp [WordReading.erase, WordPending.erase, textOf]

theorem erase_eq_nil {r : WordReading} : r.erase.tokens = [] ↔ r.words = [] := List.map_eq_nil_iff

/-- **One round.** -/
theorem exec_readWord {fuel : Nat} {tok : String} {r : WordReading} {s : Protocol ω}
    (hfuel : textSize tok.toList r.lexer < fuel)
    (h : classify self.environ tok = .substitution →
      Unseen env nested (textSize tok.toList r.lexer + 1) [] tok.toList r.lexer s) :
    exec (readToken env nested self fuel tok r.erase) s =
      mapped (Option.map WordReading.erase) (exec (readWord env nested self tok r) s) := by
  unfold readToken readWord
  cases hclass : classify self.environ tok with
  | andOr =>
    simp only [erase_eq_nil]
    split_ifs
    · rfl
    · rw [exec_get_bind, exec_get_bind, ← erase_queue]
      rfl
  | semicolon =>
    simp only
    rw [exec_get_bind, exec_get_bind, ← erase_queue]
    rfl
  | paren =>
    simp only [ne_eq, erase_eq_nil]
    split_ifs
    · exact exec_reading rfl fun _ => rfl
    · rfl
  | subshell =>
    simp only [ne_eq, erase_eq_nil]
    split_ifs
    · exact exec_reading rfl fun _ => rfl
    · rfl
  | substitution =>
    have hsub := (substitutes_of_classify hclass).resolve_right (head_of_substitution hclass)
    have hrun := exec_doCommandSubstitution (Nat.lt_succ_self _) hfuel hsub (h hclass)
    exact exec_reading hrun fun x => erase_append r x.2 ⟨String.ofList x.1, true, _⟩
  | word text =>
    have hword := erase_append r r.lexer ⟨text, false, ""⟩
    exact congrArg (fun r' => (Except.ok (some r'), s)) hword
  | dropped => rfl

theorem suffix_substitute {budget : Nat} {done rest : List Char} {lexer : Lexer} {s t : Protocol ω}
    {x : List Char × Lexer} (h : exec (substitute env nested budget done rest lexer) s = (.ok x, t)) :
    x.2.tokens <:+ lexer.tokens := by
  induction budget generalizing done rest lexer s with
  | zero =>
    cases h
    exact List.suffix_rfl
  | succ budget ih =>
    unfold substitute at h
    split_ifs at h
    · split at h
      · cases h
      · obtain ⟨-, v, -, hret⟩ := exec_bind_inv h
        cases hret
        exact List.nil_suffix
      next hscan =>
        obtain ⟨output, v, -, hrun⟩ := exec_bind_inv h
        exact (ih hrun).trans (scanNext_closed hscan).1
    · cases h
      exact List.suffix_rfl

/-- A round leaves the last tokens. -/
theorem suffix_readWord {tok : String} {r r' : WordReading} {s t : Protocol ω}
    (h : exec (readWord env nested self tok r) s = (.ok (some r'), t)) :
    r'.lexer.tokens <:+ r.lexer.tokens := by
  have hqueue : ∀ segment, (r.queue segment).lexer = r.lexer := fun segment => by
    unfold WordReading.queue
    split_ifs <;> rfl
  unfold readWord at h
  cases hclass : classify self.environ tok with
  | andOr =>
    simp only [hclass] at h
    split_ifs at h
    · cases h
    · rw [exec_get_bind] at h
      cases h
      rw [hqueue]
  | semicolon =>
    simp only [hclass] at h
    rw [exec_get_bind] at h
    cases h
    rw [hqueue]
  | paren =>
    simp only [hclass] at h
    split_ifs at h
    · cases h
    · obtain ⟨lexer, v, hrun, hret⟩ := exec_bind_inv h
      cases hret
      exact suffix_doSubshellExecutionFromLexer hrun
  | subshell =>
    simp only [hclass] at h
    split_ifs at h
    · cases h
    · obtain ⟨lexer, v, hrun, hret⟩ := exec_bind_inv h
      cases hret
      exact suffix_doSubshellExecution hrun
  | substitution =>
    simp only [hclass] at h
    obtain ⟨x, v, hrun, hret⟩ := exec_bind_inv h
    cases hret
    exact suffix_substitute hrun
  | word text =>
    simp only [hclass] at h
    cases h
    exact List.suffix_rfl
  | dropped =>
    simp only [hclass] at h
    cases h
    exact List.suffix_rfl

theorem length_spelled_le {toks toks' : List String} (h : toks <:+ toks') :
    (spelled toks).length ≤ (spelled toks').length := by
  obtain ⟨front, rfl⟩ := h
  unfold spelled
  rw [List.flatMap_append, List.length_append]
  exact Nat.le_add_left _ _

/-- **All rounds.** -/
theorem exec_readWords {fuel rounds : Nat} {r : WordReading} {s : Protocol ω}
    (hfuel : (spelled r.lexer.tokens).length ≤ fuel) (h : UnseenAll env nested self rounds r s) :
    exec (readTokens env nested self fuel rounds r.erase) s =
      mapped WordReading.erase (exec (readWords env nested self rounds r) s) := by
  induction rounds generalizing r s with
  | zero => rfl
  | succ rounds ih =>
    unfold UnseenAll at h
    unfold readTokens readWords
    cases htoks : r.lexer.tokens with
    | nil =>
      have htoks' : r.erase.lexer.tokens = [] := htoks
      simp only [htoks']
      have hlexer : r.erase.lexer = r.lexer := rfl
      rw [hlexer, exec_bind, exec_bind]
      cases exec (endOfTokens r.lexer) s with
      | mk x t =>
        cases x with
        | error e => rfl
        | ok _ =>
          simp only
          rw [exec_get_bind, exec_get_bind, ← erase_queue]
          rfl
    | cons tok rest =>
      have htoks' : r.erase.lexer.tokens = tok :: rest := htoks
      rw [htoks] at h hfuel
      simp only [htoks'] at h ⊢
      obtain ⟨hunseen, hnext⟩ := h
      have hsize : textSize tok.toList (r.past rest).lexer < fuel := by
        unfold textSize spelled at *
        simp only [WordReading.past, List.flatMap_cons, List.length_append, List.length_cons] at hfuel ⊢
        omega
      have hround := exec_readWord hsize hunseen
      have hpast : r.erase.past rest = (r.past rest).erase := rfl
      rw [hpast, exec_bind, exec_bind, hround]
      cases hread : exec (readWord env nested self tok (r.past rest)) s with
      | mk x t =>
        rcases x with e | - | r'
        · rfl
        · rfl
        · have hsuffix := suffix_readWord hread
          exact ih ((length_spelled_le hsuffix).trans (by
            simp only [WordReading.past, spelled, List.flatMap_cons, List.length_append] at hfuel ⊢
            omega)) (hnext.ok hread r' rfl)

/-! ## A line -/

/-- The line is read with output as data. -/
def wordsOf (env : Env ω) (nested : HoneyPotShell → String → ShellM ω Unit) (self : HoneyPotShell)
    (line : String) (s : Protocol ω) : Except PyError WordReading × Protocol ω :=
  exec (readWords env nested self ((lex line).tokens.length + 1) { lexer := lex line }) s

/-- The line is read as its text says, in a number of scans that its text bounds, and its commands are
those that it says. -/
structure OutputIsData (env : Env ω) (fuel : Nat) (self : HoneyPotShell) (line : String)
    (s : Protocol ω) : Prop where
  reading : ∀ scans, (spelled (lex line).tokens).length ≤ scans →
    exec (readTokens env (lineReceived env fuel) self scans ((lex line).tokens.length + 1)
      { lexer := lex line }) s = mapped WordReading.erase (wordsOf env (lineReceived env fuel) self line s)
  commands : ∀ r t, wordsOf env (lineReceived env fuel) self line s = (.ok r, t) → ∀ q ∈ r.pending,
    plan env.digits self.environ (mergeRedirectionTokens env.digits q.erase.tokens) =
      planWords env.digits self.environ q.words

/-- Nothing is read into the output, neither by a scan nor by a command. -/
structure OutputUnread (env : Env ω) (fuel : Nat) (self : HoneyPotShell) (line : String)
    (s : Protocol ω) : Prop where
  scans : UnseenAll env (lineReceived env fuel) self ((lex line).tokens.length + 1)
    { lexer := lex line } s
  commands : ∀ r t, wordsOf env (lineReceived env fuel) self line s = (.ok r, t) → ∀ q ∈ r.pending,
    Unread env.digits self.environ q.words

/-- `p` prints `$(q)`. -/
def trapCommand : String → Option (Command Unit)
  | "p" => some fun _ _ _ w => ([.out (encode "$(q)\n")], w)
  | "q" => some fun _ _ _ w => ([], w)
  | "echo" => some fun args _ _ w => ([.out (encode (" ".intercalate args ++ "\n"))], w)
  | _ => none

def trapEnv : Env Unit where
  getCommand _ name _ := trapCommand name
  environ _ := sampleEnviron
  prepareOutputFile w _ _ := (.devnull, w)
  stdinContents _ _ := .ok []
  appendFile w _ _ := some w
  updateSize w _ _ := w

end Cowrie.Shell
