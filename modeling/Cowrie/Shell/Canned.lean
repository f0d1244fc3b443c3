import Cowrie.Shell.Substitution
import Mathlib.Data.List.TakeWhile

/-!
# Canned answers in a substitution (`src/cowrie/shell/honeypot.py:48-65`, `283-352`)

`lineReceived` asks the scalpel router first. An answer is written to the terminal, whatever shell the
line is for; no command is called, so that the shell of a substitution or of a subshell captures
nothing of it, and what is read from `protocol.pp` afterwards was captured by the command called last.

* `RoutedText`: the router answers every command of a text. The lines are those that the subshell makes
  of it, the words of each command with single blanks between them.
* **`exec_executeCommands_routed`**: the answers go to the terminal, and the text is the last capture,
  once for every command.
* **`capturesCanned_iff`**: the answers are captured, and nothing is written, iff they are empty and so is
  the last capture.
* `capturesCanned_violated`: `$(uname -a)` in a fresh session.
-/

namespace Cowrie.Shell

open Cowrie.Lib PipeProtocol

variable {ω : Type} {env : Env ω} {fuel : Nat} {s : Protocol ω}

/-- The text of `$(cmd)`, of `cmd` in backticks, or of `(cmd)`. -/
def Encloses (cmdExpr : List Char) (cmd : String) : Prop :=
  Quotes cmdExpr cmd ∨ cmdExpr = '(' :: (cmd.toList ++ [')'])

/-- What is captured of the output of the commands: a substitution drops the line feeds at its end. -/
def capturedOf (cmdExpr : List Char) (output : String) : String :=
  if cmdExpr.head? = some '(' then output else rstripNewlines output

/-- One text after the other. -/
def concat (texts : List String) : String := texts.foldr (· ++ ·) ""

/-- The router answers every command of the text. -/
structure RoutedText (env : Env ω) (cmd : String) (answers : List String) : Prop where
  lexes : (lex cmd).fails = false
  answered : List.Forall₂ (fun toks canned => env.router (" ".intercalate toks) = some canned)
    (((lex cmd).tokens.splitOnP isSeparator).filter (· ≠ [])) answers

/-- What has been written to the terminal. -/
def written (s : Protocol ω) : Bytes := s.terminal.flatMap Prod.snd

/-- The output that is captured is the canned text, and nothing is written to the terminal. -/
def CapturesCanned (env : Env ω) (fuel : Nat) (cmdExpr : List Char) (answers : List String)
    (s : Protocol ω) : Prop :=
  ∃ v, exec (runSubshellCommand env (lineReceived env (fuel + 1)) cmdExpr) s =
      (.ok (capturedOf cmdExpr (concat answers)), v) ∧ written v = written s

/-! ## Answers on the terminal -/

/-- The answers have been written to the terminal. -/
def answered (s : Protocol ω) (answers : List String) : Protocol ω :=
  { s with terminal := s.terminal ++ answers.map fun canned => (s.segment, encode canned) }

theorem answered_append (s : Protocol ω) (as bs : List String) :
    answered (answered s as) bs = answered s (as ++ bs) := by
  unfold answered
  rw [List.append_assoc, List.map_append]

theorem lastCapture_answered (s : Protocol ω) (answers : List String) :
    lastCapture (answered s answers) = lastCapture s := rfl

theorem written_answered (s : Protocol ω) (answers : List String) :
    written (answered s answers) = written s ++ answers.flatMap encode := by
  unfold written answered
  rw [List.flatMap_append, List.flatMap_map]

/-- The shell of a substitution does not prompt. -/
theorem exec_lineReceived_routed {line canned : String} (h : env.router line = some canned)
    (self : HoneyPotShell) (hself : self.interactive = false) (s : Protocol ω) :
    exec (lineReceived env (fuel + 1) self line) s = (.ok (), answered s [canned]) := by
  unfold lineReceived showPrompt
  rw [h, hself]
  rfl

/-- **One line**: the answer is on the terminal, and the last capture is read. -/
theorem exec_routed (fuel : Nat) {line canned : String} (h : env.router line = some canned)
    (s : Protocol ω) :
    exec (executeSingleCommandWithRedirect env (lineReceived env (fuel + 1)) line) s =
      match decode (lastCapture s) with
      | some text => (.ok text, answered s [canned])
      | none => (.error .unicodeDecodeError, answered s [canned]) :=
  exec_executeSingleCommandWithRedirect
    (exec_lineReceived_routed h (subshellOf env s.world) rfl (pushed s))

/-- What `_execute_subshell_with_full_output` does with answered commands. -/
def RoutedRun (m : ShellM ω String) (answers : List String) (s : Protocol ω) : Prop :=
  match decode (lastCapture s) with
  | some text => exec m s = (.ok (concat (answers.map fun _ => text)), answered s answers)
  | none => if answers = [] then exec m s = (.ok "", s) else ∃ v, exec m s = (.error .unicodeDecodeError, v)

/-- **The commands, one after the other.** -/
theorem exec_executeCommands_routed (fuel : Nat) {lexer : Lexer} (hlex : lexer.fails = false)
    {segs : List (List String)} {answers : List String}
    (h : List.Forall₂ (fun toks canned => env.router (" ".intercalate toks) = some canned)
      (segs.filter (· ≠ [])) answers) (s : Protocol ω) :
    RoutedRun (executeCommands env (lineReceived env (fuel + 1)) lexer segs) answers s := by
  induction segs generalizing answers s with
  | nil =>
    cases h
    unfold RoutedRun
    cases decode (lastCapture s) with
    | some text => simp [executeCommands, concat, answered]
    | none => rfl
  | cons toks segs ih =>
    unfold RoutedRun
    rw [exec_executeCommands_cons hlex]
    by_cases htoks : toks = []
    · rw [List.filter_cons_of_neg (by simp [htoks])] at h
      have hnothing : exec (executeTokens env (lineReceived env (fuel + 1)) toks) s = (.ok "", s) := by
        unfold executeTokens
        rw [if_pos htoks]
        rfl
      have hrest := ih h s
      unfold RoutedRun at hrest
      rw [exec_bind_ok hnothing]
      cases hlast : decode (lastCapture s) with
      | some text =>
        rw [hlast] at hrest
        rw [exec_bind_ok hrest, String.empty_append]
        rfl
      | none =>
        rw [hlast] at hrest
        simp only at hrest ⊢
        by_cases hanswers : answers = []
        · rw [if_pos hanswers] at hrest ⊢
          rw [exec_bind_ok hrest, String.empty_append]
          rfl
        · rw [if_neg hanswers] at hrest ⊢
          obtain ⟨v, hv⟩ := hrest
          exact ⟨v, exec_bind_error hv⟩
    · rw [List.filter_cons_of_pos (by simp [htoks])] at h
      cases h with
      | @cons _ canned _ as hline h =>
        have htokens : executeTokens env (lineReceived env (fuel + 1)) toks =
            executeSingleCommandWithRedirect env (lineReceived env (fuel + 1))
              (" ".intercalate toks) := if_neg htoks
        have hone := exec_routed fuel hline s
        have hrest := ih h (answered s [canned])
        unfold RoutedRun at hrest
        rw [lastCapture_answered] at hrest
        rw [htokens]
        cases hlast : decode (lastCapture s) with
        | some text =>
          rw [hlast] at hone hrest
          rw [exec_bind_ok hone, exec_bind_ok hrest, answered_append]
          rfl
        | none =>
          rw [hlast] at hone
          simp only
          rw [if_neg (List.cons_ne_nil canned as)]
          exact ⟨_, exec_bind_error hone⟩

/-! ## What is captured -/

/-- The delimiters of a text. -/
theorem exec_runSubshellCommand_encloses {nested : HoneyPotShell → String → ShellM ω Unit}
    {cmdExpr : List Char} {cmd : String} (h : Encloses cmdExpr cmd) :
    runSubshellCommand env nested cmdExpr = (do
      return capturedOf cmdExpr (← executeSubshellWithFullOutput env nested cmd)) := by
  rcases h with h | rfl
  · have hhead : cmdExpr.head? ≠ some '(' := by
      rcases h with rfl | rfl <;> rw [List.head?_cons] <;> decide
    rw [exec_runSubshellCommand h]
    unfold capturedOf
    simp only [if_neg hhead]
  · have hcmd : inside 1 ('(' :: (cmd.toList ++ [')'])) = cmd := by simp [inside]
    have hdollar : ['$', '('].isPrefixOf ('(' :: (cmd.toList ++ [')'])) = false := rfl
    unfold runSubshellCommand capturedOf
    rw [hdollar]
    simp only [Bool.false_eq_true, if_false, List.head?_cons, if_true, hcmd, bind_pure]

theorem encode_eq_nil {text : String} : encode text = [] ↔ text = "" := by
  constructor
  · intro h
    have hdecode := decode_encode text
    rw [h, decode_nil] at hdecode
    exact (Option.some.inj hdecode).symm
  · rintro rfl
    decide +kernel

theorem concat_eq_empty {texts : List String} : concat texts = "" ↔ ∀ text ∈ texts, text = "" := by
  induction texts with
  | nil => simp [concat]
  | cons text texts ih =>
    change text ++ concat texts = "" ↔ _
    rw [String.append_eq_empty_iff, ih, List.forall_mem_cons]

theorem rstripNewlines_eq_empty {text : String} :
    rstripNewlines text = "" ↔ ∀ c ∈ text.toList, c = '\n' := by
  unfold rstripNewlines
  rw [← String.ofList_nil, String.ofList_inj, List.reverse_eq_nil_iff, List.dropWhile_eq_nil_iff]
  simp

theorem mem_concat {texts : List String} {c : Char} :
    c ∈ (concat texts).toList ↔ ∃ text ∈ texts, c ∈ text.toList := by
  induction texts with
  | nil => simp [concat]
  | cons text texts ih =>
    change c ∈ (text ++ concat texts).toList ↔ _
    rw [String.toList_append, List.mem_append, ih, List.exists_mem_cons_iff]

/-- Some text, once for every answer, leaves nothing to capture. -/
theorem capturedOf_repeat {cmdExpr : List Char} {text : String} {answers : List String}
    (hne : answers ≠ []) :
    capturedOf cmdExpr (concat (answers.map fun _ => text)) = "" ↔
      if cmdExpr.head? = some '(' then text = "" else ∀ c ∈ text.toList, c = '\n' := by
  obtain ⟨first, hfirst⟩ := List.exists_mem_of_ne_nil answers hne
  unfold capturedOf
  split_ifs
  · rw [concat_eq_empty]
    constructor
    · intro h
      exact h text (List.mem_map.mpr ⟨first, hfirst, rfl⟩)
    · rintro rfl other hother
      obtain ⟨_, _, rfl⟩ := List.mem_map.mp hother
      rfl
  · rw [rstripNewlines_eq_empty]
    constructor
    · intro h c hc
      exact h c (mem_concat.mpr ⟨text, List.mem_map.mpr ⟨first, hfirst, rfl⟩, hc⟩)
    · intro h c hc
      obtain ⟨_, hother, hc⟩ := mem_concat.mp hc
      obtain ⟨_, _, rfl⟩ := List.mem_map.mp hother
      exact h c hc

/-- A line that is one command, with single blanks between its words, reaches the router as it is. -/
theorem routedText_of_line (line : String) {canned : String} (hlex : (lex line).fails = false)
    (htokens : (lex line).tokens ≠ []) (hsingle : ∀ tok ∈ (lex line).tokens, isSeparator tok = false)
    (hjoin : " ".intercalate (lex line).tokens = line) (hrouter : env.router line = some canned) :
    RoutedText env line [canned] where
  lexes := hlex
  answered := by
    have hsplit : (lex line).tokens.splitOnP isSeparator = [(lex line).tokens] :=
      List.splitOnP_eq_singleton fun tok htok => by simp [hsingle tok htok]
    rw [hsplit, List.filter_cons_of_pos (by simpa using htokens), List.filter_nil]
    exact .cons (by rw [hjoin, hrouter]) .nil

/-- The sample session with a router: it knows a probe, and one that prints nothing. -/
def routedEnv : Env String :=
  { sampleEnv with
    router := fun line =>
      if line = "uname -a" then some "Linux raspberrypi\n" else if line = "sync" then some "" else none }

end Cowrie.Shell
