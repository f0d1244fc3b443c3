import Cowrie.Scalpel.Chain
import Cowrie.Shell.Scan
import Cowrie.Shell.Sequence

/-!
# Splitting as the shell does (`scalpel/router/handle_command.py`, `src/cowrie/shell/honeypot.py:65-132`)

The router splits the text of a line, the shell the tokens of its lexer. `ReadEach` reads the parts one after the
other, each of which has to be one command; `SplitsAlike` says that this queues what reading the line queues. It fails
where a separator is quoted.

* `Command`: the tokens are one command, which is read without those that follow it. `Command.word` and the theorems
  after it say what it is made of; `Command.readTokens` reads it before any others.
* **`splitsAlike_of_chained`**: a chain of commands is split alike.
-/

namespace Cowrie.Scalpel

open Cowrie.Lib Shell Shell.PipeProtocol

variable {ω : Type}

/-! ## Reading the parts -/

/-- The commands that a line is separated into. -/
def separated (env : Env ω) (fuel : Nat) (self : HoneyPotShell) (line : String) (s : Protocol ω) :
    Except PyError (List (List String)) :=
  (afterReading env fuel self line s).1.map fun r => r.pending.map (·.tokens)

/-- The shell reads the texts one after the other, and each is one command. Separators count `segment` up, which only
numbers the commands. -/
inductive ReadEach (env : Env ω) (fuel : Nat) (self : HoneyPotShell) :
    List String → Protocol ω → Except PyError (List (List String)) → Prop
  | nil (s : Protocol ω) : ReadEach env fuel self [] s (.ok [])
  | cons {text : String} {texts : List String} {s u : Protocol ω} {r : Reading} {command : List String}
      {commands : Except PyError (List (List String))} (n : Nat)
      (hread : afterReading env fuel self text { s with segment := n } = (.ok r, u))
      (hone : r.pending.map (·.tokens) = [command]) (hrest : ReadEach env fuel self texts u commands) :
      ReadEach env fuel self (text :: texts) s (commands.map (command :: ·))
  | raises {text : String} {texts : List String} {s u : Protocol ω} {e : PyError} (n : Nat)
      (hread : afterReading env fuel self text { s with segment := n } = (.error e, u)) :
      ReadEach env fuel self (text :: texts) s (.error e)

/-- The router splits the line as the shell does, which gets to its end, and answers it only where each part is
answered. -/
structure SplitsAlike (env : Env ω) (fuel : Nat) (shell : HoneyPotShell) (line : String) (s : Protocol ω) : Prop where
  lexes : (lex line).fails = false
  commands : ReadEach env fuel shell (subCommands line) s (separated env fuel shell line s)
  answered : ∀ (t : Tiers) (canned : String), handleCommand t line = some canned →
    ∀ part ∈ subCommands line, (t.answer part).isSome

theorem ReadEach.of_segment {env : Env ω} {fuel : Nat} {self : HoneyPotShell} {texts : List String} {s : Protocol ω}
    {n : Nat} {commands : Except PyError (List (List String))}
    (h : ReadEach env fuel self texts { s with segment := n } commands) :
    ReadEach env fuel self texts s commands := by
  cases h with
  | nil => exact .nil s
  | cons m hread hone hrest => exact .cons m hread hone hrest
  | raises m hread => exact .raises m hread

/-- **As many commands as texts.** -/
theorem ReadEach.length_eq {env : Env ω} {fuel : Nat} {self : HoneyPotShell} {texts : List String} {s : Protocol ω}
    {x : Except PyError (List (List String))} (h : ReadEach env fuel self texts s x) :
    ∀ commands, x = .ok commands → commands.length = texts.length := by
  induction h with
  | nil => rintro _ ⟨⟩; rfl
  | raises => rintro _ ⟨⟩
  | @cons text texts s u r command commands n _ _ _ ih =>
    intro all hall
    cases commands with
    | error e => cases hall
    | ok commands =>
      obtain rfl := Except.ok.inj hall
      rw [List.length_cons, List.length_cons, ih commands rfl]

/-- One text, which is what the line is. -/
theorem readEach_singleton {env : Env ω} {fuel : Nat} {self : HoneyPotShell} {line : String} {s : Protocol ω}
    (hone : ∀ commands, separated env fuel self line s = .ok commands → commands.length = 1) {text : String}
    (htext : lex text = lex line) : ReadEach env fuel self [text] s (separated env fuel self line s) := by
  have hsame : afterReading env fuel self text s = afterReading env fuel self line s := by
    unfold afterReading
    rw [htext]
  unfold separated at hone ⊢
  cases hread : afterReading env fuel self line s with
  | mk x u =>
    rw [hread] at hone hsame
    cases x with
    | error e => exact .raises s.segment hsame
    | ok r =>
      obtain ⟨command, hcommand⟩ := List.length_eq_one_iff.mp (hone _ rfl)
      change r.pending.map (·.tokens) = [command] at hcommand
      rw [Except.map, hcommand]
      exact .cons s.segment hsame hcommand (.nil u)

/-! ## One command -/

section Reading

variable (env : Env ω) (nested : HoneyPotShell → String → ShellM ω Unit) (self : HoneyPotShell) (fuel : Nat)

/-- What comes after the command makes no difference to the token; `kept` says whether there are tokens before it. -/
def Contained (kept : Bool) (tok : String) (rest : List String) : Prop :=
  ∀ (more : List String) (fails : Bool) (tokens : List String) (pending : List Pending) (s : Protocol ω),
    decide (tokens ≠ []) = kept →
    exec (readToken env nested self fuel tok ⟨⟨rest ++ more, fails⟩, tokens, pending⟩) s =
      Prod.map (Except.map (Option.map fun r => ⟨⟨r.lexer.tokens ++ more, fails⟩, r.tokens, pending⟩)) id
        (exec (readToken env nested self fuel tok ⟨⟨rest, false⟩, tokens, []⟩) s)

/-- The tokens are one command, of which something has been kept if `kept`, and will have been at its end if
`kept'`. -/
inductive Command (kept' : Bool) : Bool → List String → Prop
  | done : Command kept' kept' []
  | token {kept : Bool} {tok : String} {rest : List String}
      (hcontained : Contained env nested self fuel kept tok rest)
      (hgoes : ∀ (tokens : List String) (s u : Protocol ω), decide (tokens ≠ []) = kept →
        exec (readToken env nested self fuel tok ⟨⟨rest, false⟩, tokens, []⟩) s ≠ (.ok none, u))
      (hnext : ∀ (tokens : List String) (s u : Protocol ω) (r : Reading), decide (tokens ≠ []) = kept →
        exec (readToken env nested self fuel tok ⟨⟨rest, false⟩, tokens, []⟩) s = (.ok (some r), u) →
        Command kept' (decide (r.tokens ≠ [])) r.lexer.tokens) :
      Command kept' kept (tok :: rest)

/-- The rounds that the tokens make, whatever follows them, end with an exception. -/
def Raises (toks tokens : List String) (s : Protocol ω) (e : PyError) (u : Protocol ω) : Prop :=
  ∀ (more : List String) (fails : Bool) (pending : List Pending) (rounds : Nat), (toks ++ more).length < rounds →
    exec (readTokens env nested self fuel rounds ⟨⟨toks ++ more, fails⟩, tokens, pending⟩) s = (.error e, u)

/-- They lead to what follows them. -/
def Reaches (toks tokens : List String) (s : Protocol ω) (tokens' : List String) (u : Protocol ω) : Prop :=
  ∀ (more : List String) (fails : Bool) (pending : List Pending) (rounds : Nat), (toks ++ more).length < rounds →
    ∃ rounds', more.length < rounds' ∧
      exec (readTokens env nested self fuel rounds ⟨⟨toks ++ more, fails⟩, tokens, pending⟩) s =
        exec (readTokens env nested self fuel rounds' ⟨⟨more, fails⟩, tokens', pending⟩) u

end Reading

variable {env : Env ω} {nested : HoneyPotShell → String → ShellM ω Unit} {self : HoneyPotShell} {fuel : Nat}

theorem exec_readTokens_error {rounds : Nat} {r : Reading} {s u : Protocol ω} {tok : String} {rest : List String}
    {e : PyError} (htoks : r.lexer.tokens = tok :: rest)
    (hexec : exec (readToken env nested self fuel tok (r.past rest)) s = (.error e, u)) :
    exec (readTokens env nested self fuel (rounds + 1) r) s = (.error e, u) := by
  unfold readTokens
  rw [htoks]
  exact exec_bind_error hexec

/-- **A command is read before any tokens as it is read alone.** -/
theorem Command.readTokens {kept kept' : Bool} {toks : List String}
    (h : Command env nested self fuel kept' kept toks) (tokens : List String) (hkept : decide (tokens ≠ []) = kept)
    (s : Protocol ω) :
    (∃ e u, Raises env nested self fuel toks tokens s e u) ∨
      ∃ tokens' u, decide (tokens' ≠ []) = kept' ∧ Reaches env nested self fuel toks tokens s tokens' u := by
  induction h generalizing tokens s with
  | done => exact .inr ⟨tokens, s, hkept, fun more fails pending rounds hrounds => ⟨rounds, hrounds, rfl⟩⟩
  | @token kept tok rest hcontained hgoes hnext ih =>
    have hround := fun more fails pending => hcontained more fails tokens pending s hkept
    cases hexec : exec (readToken env nested self fuel tok ⟨⟨rest, false⟩, tokens, []⟩) s with
    | mk x u =>
      simp only [hexec] at hround
      match x with
      | .error e =>
        refine .inl ⟨e, u, fun more fails pending rounds hrounds => ?_⟩
        obtain ⟨rounds, rfl⟩ := Nat.exists_eq_succ_of_ne_zero (Nat.ne_zero_of_lt hrounds)
        exact exec_readTokens_error rfl (hround more fails pending)
      | .ok none => exact absurd hexec (hgoes tokens s u hkept)
      | .ok (some r) =>
        -- the round leaves fewer tokens, so the rounds suffice
        have hlength : r.lexer.tokens.length ≤ rest.length := (suffix_readToken hexec).length_le
        have hstep : ∀ more fails pending rounds,
            exec (Shell.readTokens env nested self fuel (rounds + 1)
                ⟨⟨tok :: rest ++ more, fails⟩, tokens, pending⟩) s =
              exec (Shell.readTokens env nested self fuel rounds
                ⟨⟨r.lexer.tokens ++ more, fails⟩, r.tokens, pending⟩) u :=
          fun more fails pending rounds => exec_readTokens_cons rfl (hround more fails pending)
        have hless : ∀ (more : List String) (rounds : Nat), (tok :: rest ++ more).length < rounds + 1 →
            (r.lexer.tokens ++ more).length < rounds := by
          intro more rounds hrounds
          simp only [List.length_append, List.length_cons] at hrounds ⊢
          omega
        rcases ih tokens s u r hkept hexec r.tokens rfl u with ⟨e, v, hraises⟩ | ⟨tokens', v, hkept', hreaches⟩
        · refine .inl ⟨e, v, fun more fails pending rounds hrounds => ?_⟩
          obtain ⟨rounds, rfl⟩ := Nat.exists_eq_succ_of_ne_zero (Nat.ne_zero_of_lt hrounds)
          rw [Nat.succ_eq_add_one, hstep]
          exact hraises more fails pending rounds (hless more rounds hrounds)
        · refine .inr ⟨tokens', v, hkept', fun more fails pending rounds hrounds => ?_⟩
          obtain ⟨rounds, rfl⟩ := Nat.exists_eq_succ_of_ne_zero (Nat.ne_zero_of_lt hrounds)
          rw [Nat.succ_eq_add_one, hstep]
          exact hreaches more fails pending rounds (hless more rounds hrounds)

/-! ## The tokens of a command -/

/-- **A token that uses up the tokens before `toks`**, and keeps what it makes of them. -/
theorem Command.of_round {α : Type} {kept kept' : Bool} {tok : String} {rest : List String} (toks : List String)
    {m : ShellM ω α} {f : α → List String}
    (hround : ∀ (tokens : List String), decide (tokens ≠ []) = kept → ∀ (more : List String) (fails : Bool)
      (pending : List Pending) (s : Protocol ω),
      exec (readToken env nested self fuel tok ⟨⟨rest ++ more, fails⟩, tokens, pending⟩) s =
        exec (m >>= fun a => pure (some ⟨⟨toks ++ more, fails⟩, tokens ++ f a, pending⟩)) s)
    (hrest : ∀ a, Command env nested self fuel kept' (kept || decide (f a ≠ [])) toks) :
    Command env nested self fuel kept' kept (tok :: rest) := by
  have halone : ∀ tokens, decide (tokens ≠ []) = kept → ∀ s,
      exec (readToken env nested self fuel tok ⟨⟨rest, false⟩, tokens, []⟩) s =
        exec (m >>= fun a => pure (some ⟨⟨toks, false⟩, tokens ++ f a, []⟩)) s := by
    intro tokens hkept s
    have hexec := hround tokens hkept [] false [] s
    simp only [List.append_nil] at hexec
    exact hexec
  refine .token (fun more fails tokens pending s hkept => ?_) (fun tokens s u hkept => ?_)
    fun tokens s u r hkept h => ?_
  · rw [hround tokens hkept, halone tokens hkept, exec_bind, exec_bind]
    cases exec m s with
    | mk x u =>
      cases x with
      | error e => rfl
      | ok a => rfl
  · rw [halone tokens hkept]
    intro h
    obtain ⟨a, v, -, hret⟩ := exec_bind_inv h
    cases hret
  · rw [halone tokens hkept] at h
    obtain ⟨a, v, -, hret⟩ := exec_bind_inv h
    cases hret
    have hkeeps : decide (tokens ++ f a ≠ []) = (kept || decide (f a ≠ [])) := by
      rw [← hkept, ← Bool.decide_or, decide_eq_decide, ne_eq, List.append_eq_nil_iff, not_and_or]
    rw [hkeeps]
    exact hrest a

theorem Command.word {kept kept' : Bool} {tok text : String} {rest : List String}
    (hclass : classify self.environ tok = .word text) (hrest : Command env nested self fuel kept' true rest) :
    Command env nested self fuel kept' kept (tok :: rest) := by
  refine .of_round rest (m := pure ()) (f := fun _ => [text]) (fun tokens _ more fails pending s => ?_) fun _ => ?_
  · unfold readToken
    rw [hclass]
    rfl
  · rwa [decide_eq_true (List.cons_ne_nil text []), Bool.or_true]

/-- A variable that is not set. -/
theorem Command.dropped {kept kept' : Bool} {tok : String} {rest : List String}
    (hclass : classify self.environ tok = .dropped) (hrest : Command env nested self fuel kept' kept rest) :
    Command env nested self fuel kept' kept (tok :: rest) := by
  refine .of_round rest (m := pure ()) (f := fun _ => []) (fun tokens _ more fails pending s => ?_) fun _ => ?_
  · unfold readToken
    rw [hclass, List.append_nil]
    rfl
  · have hnone : decide (([] : List String) ≠ []) = false := rfl
    rwa [hnone, Bool.or_false]

/-- A subshell that ends in the command, at the beginning of it. -/
theorem Command.subshell {kept' : Bool} {tok : String} {rest toks : List String} {before after : List Char}
    (hclass : classify self.environ tok = .subshell)
    (hscan : scanTokens true 1 (tok.toList.take 1) (tok.toList.drop 1) rest = .closed before after toks)
    (hrest : Command env nested self fuel kept' false toks) :
    Command env nested self fuel kept' false (tok :: rest) := by
  refine .of_round toks (m := do writeTerminal (encode (← runSubshellCommand env nested before))) (f := fun _ => [])
    (fun tokens hkept more fails pending s => ?_) fun _ => hrest
  obtain rfl : tokens = [] := Classical.not_not.mp (of_decide_eq_false hkept)
  unfold readToken doSubshellExecution
  rw [hclass]
  simp only [scanTokens_append hscan more, ne_eq, not_true, if_false, bind_assoc, pure_bind, List.append_nil]

/-- The same with a blank after the parenthesis. -/
theorem Command.paren {kept' : Bool} {rest toks : List String} (hend : (collectSubshell 1 rest).2 = some toks)
    (hrest : Command env nested self fuel kept' false toks) :
    Command env nested self fuel kept' false ("(" :: rest) := by
  have hclass : classify self.environ "(" = .paren := rfl
  refine .of_round toks (m := do writeTerminal (encode (← runSubshellCommand env nested
      ("(" ++ " ".intercalate (collectSubshell 1 rest).1 ++ ")").toList))) (f := fun _ => [])
    (fun tokens hkept more fails pending s => ?_) fun _ => hrest
  obtain rfl : tokens = [] := Classical.not_not.mp (of_decide_eq_false hkept)
  unfold readToken doSubshellExecutionFromLexer
  rw [hclass]
  simp only [collectSubshell_append hend more, ne_eq, not_true, if_false, reduceCtorEq, when_false, bind_assoc,
    pure_bind, not_false_iff, Option.getD_some, List.append_nil]

/-- A substitution that ends in the command, in a token that has no other. -/
theorem Command.substitution {kept kept' : Bool} {tok : String} {rest toks : List String} {before after : List Char}
    {pos skip : Nat} (hclass : classify self.environ tok = .substitution)
    (hstart : substitutionStart tok.toList = (pos, skip))
    (hscan : scanTokens false 1 ((tok.toList.drop pos).take skip).reverse ((tok.toList.drop pos).drop skip) rest =
      .closed before after toks)
    (hafter : hasSubstitution after = false) (hrest : Command env nested self fuel kept' true toks) :
    Command env nested self fuel kept' kept (tok :: rest) := by
  have hsub : ¬ (hasSubstitution tok.toList = false ∧ tok.toList.head? ≠ some '(') := fun h =>
    (substitutes_of_classify hclass).elim (fun hhas => by rw [h.1] at hhas; cases hhas) h.2
  have hkeeps : ∀ text : String, Command env nested self fuel kept' (kept || decide ([text] ≠ [])) toks := by
    intro text
    rwa [decide_eq_true (List.cons_ne_nil text []), Bool.or_true]
  cases fuel with
  | zero =>
    refine .of_round toks (m := (throw .recursionError : ShellM ω String)) (f := fun text => [text])
      (fun tokens _ more fails pending s => ?_) hkeeps
    unfold readToken
    rw [hclass]
    rfl
  | succ fuel =>
    refine .of_round toks (m := do
        let output ← runSubshellCommand env nested before
        if before.head? = some '(' then
          writeTerminal (encode output)
          return String.ofList (tok.toList.take pos ++ after)
        else return String.ofList (tok.toList.take pos ++ output.toList ++ after))
      (f := fun text => [text]) (fun tokens _ more fails pending s => ?_) hkeeps
    unfold readToken doCommandSubstitution
    rw [hclass, if_neg hsub]
    simp only [hstart, scanTokens_append hscan more]
    -- a text that is left without a substitution is appended
    have hend : ∀ (text : List Char) (l : Lexer), (if after = [] then pure (text, l)
        else if hasSubstitution after = true then doCommandSubstitution env nested fuel (text ++ after) l
        else pure (text ++ after, l) : ShellM ω _) = pure (text ++ after, l) := by
      intro text l
      split_ifs with hnil hmore
      · rw [hnil, List.append_nil]
      · rw [hafter] at hmore
        cases hmore
      · rfl
    simp only [hend]
    cases hrun : exec (runSubshellCommand env nested before) s with
    | mk x u =>
      cases x with
      | error e => rw [exec_bind_error (exec_bind_error hrun), exec_bind_error (exec_bind_error hrun)]
      | ok output =>
        rw [bind_assoc, bind_assoc, exec_bind_ok hrun, exec_bind_ok hrun]
        by_cases hparen : before.head? = some '('
        · rw [if_pos hparen, if_pos hparen]
          rfl
        · rw [if_neg hparen, if_neg hparen]
          rfl

/-! ## Between commands -/

/-- What is queued at the end of a command. -/
def queued (tokens : List String) (segment : Nat) : List Pending := if tokens = [] then [] else [⟨segment, tokens⟩]

theorem queue_eq (lexer : Lexer) (tokens : List String) (pending : List Pending) (segment : Nat) :
    Reading.queue ⟨lexer, tokens, pending⟩ segment = ⟨lexer, [], pending ++ queued tokens segment⟩ := by
  unfold Reading.queue queued
  by_cases htokens : tokens = []
  · subst htokens
    exact congrArg (Reading.mk lexer []) (List.append_nil _).symm
  · rw [if_neg htokens, if_neg htokens]

theorem queued_tokens {tokens : List String} (hkept : tokens ≠ []) (segment : Nat) :
    (queued tokens segment).map (·.tokens) = [tokens] := by
  unfold queued
  rw [if_neg hkept]
  rfl

/-- The end of the line. -/
theorem readTokens_end {rounds : Nat} (hrounds : 0 < rounds) (tokens : List String) (pending : List Pending)
    (s : Protocol ω) :
    exec (readTokens env nested self fuel rounds ⟨⟨[], false⟩, tokens, pending⟩) s =
      (.ok ⟨⟨[], false⟩, [], pending ++ queued tokens s.segment⟩, s) := by
  obtain ⟨rounds, rfl⟩ := Nat.exists_eq_succ_of_ne_zero hrounds.ne'
  rw [← queue_eq]
  rfl

section Separators

variable (env : Env ω) (nested : HoneyPotShell → String → ShellM ω Unit) (self : HoneyPotShell) (fuel : Nat)

/-- **A separator queues the command before it**, which `&&` and `||` need. -/
theorem readTokens_separator {op : String} (hop : isSeparator op) {tokens : List String}
    (hkept : tokens ≠ [] ∨ op = ";") (more : List String) (fails : Bool) (pending : List Pending) (rounds : Nat)
    (s : Protocol ω) :
    ∃ n, exec (readTokens env nested self fuel (rounds + 1) ⟨⟨op :: more, fails⟩, tokens, pending⟩) s =
      exec (readTokens env nested self fuel rounds ⟨⟨more, fails⟩, [], pending ++ queued tokens s.segment⟩)
        { s with segment := n } := by
  refine ⟨if self.redirect then s.segment else s.segment + 1, exec_readTokens_cons rfl ?_⟩
  rw [← queue_eq]
  have hmem : op ∈ [";", "&&", "||"] := by simpa [isSeparator] using hop
  have hsemicolon : classify self.environ ";" = .semicolon := rfl
  have hand : classify self.environ "&&" = .andOr := rfl
  have hor : classify self.environ "||" = .andOr := rfl
  simp only [List.mem_cons, List.not_mem_nil, or_false] at hmem
  unfold readToken
  rcases hmem with rfl | rfl | rfl
  · rw [hsemicolon]
    rfl
  · rw [hand]
    change exec (if tokens = [] then _ else _) s = _
    rw [if_neg (hkept.resolve_right (by decide))]
    rfl
  · rw [hor]
    change exec (if tokens = [] then _ else _) s = _
    rw [if_neg (hkept.resolve_right (by decide))]
    rfl

/-- Semicolons without a command between them. -/
theorem readTokens_semicolons {seps : List String} (hseps : ∀ sep ∈ seps, sep = ";") (more : List String)
    (fails : Bool) (pending : List Pending) {rounds : Nat} (hrounds : (seps ++ more).length < rounds)
    (s : Protocol ω) :
    ∃ rounds' n, more.length < rounds' ∧
      exec (readTokens env nested self fuel rounds ⟨⟨seps ++ more, fails⟩, [], pending⟩) s =
        exec (readTokens env nested self fuel rounds' ⟨⟨more, fails⟩, [], pending⟩) { s with segment := n } := by
  induction seps generalizing rounds s with
  | nil => exact ⟨rounds, s.segment, hrounds, rfl⟩
  | cons sep seps ih =>
    obtain ⟨rfl, hrest⟩ := List.forall_mem_cons.mp hseps
    obtain ⟨rounds, rfl⟩ := Nat.exists_eq_succ_of_ne_zero (Nat.ne_zero_of_lt hrounds)
    have hsemicolon : isSeparator ";" := rfl
    have hkept : ([] : List String) ≠ [] ∨ ";" = ";" := .inr rfl
    obtain ⟨n, hstep⟩ := readTokens_separator env nested self fuel hsemicolon hkept (seps ++ more) fails pending
      rounds s
    obtain ⟨rounds', m, hrounds', hexec⟩ := ih hrest (Nat.lt_of_succ_lt_succ hrounds) { s with segment := n }
    refine ⟨rounds', m, hrounds', hstep.trans ?_⟩
    rw [show pending ++ queued [] s.segment = pending from List.append_nil _]
    exact hexec

/-- Separators at the end of the line, whether or not they are an error. -/
theorem readTokens_trailing {seps : List String} (hseps : ∀ sep ∈ seps, isSeparator sep) (tokens : List String)
    (pending : List Pending) {rounds : Nat} (hrounds : seps.length < rounds) (s : Protocol ω) :
    ∃ r u, exec (readTokens env nested self fuel rounds ⟨⟨seps, false⟩, tokens, pending⟩) s = (.ok r, u) ∧
      r.pending = pending ++ queued tokens s.segment := by
  induction seps generalizing tokens pending rounds s with
  | nil => exact ⟨_, _, readTokens_end hrounds tokens pending s, rfl⟩
  | cons sep seps ih =>
    obtain ⟨hsep, hrest⟩ := List.forall_mem_cons.mp hseps
    obtain ⟨rounds, rfl⟩ := Nat.exists_eq_succ_of_ne_zero (Nat.ne_zero_of_lt hrounds)
    by_cases hkept : tokens ≠ [] ∨ sep = ";"
    · obtain ⟨n, hstep⟩ := readTokens_separator env nested self fuel hsep hkept seps false pending rounds s
      obtain ⟨r, u, hexec, hpending⟩ := ih hrest [] (pending ++ queued tokens s.segment)
        (Nat.lt_of_succ_lt_succ hrounds) { s with segment := n }
      exact ⟨r, u, hstep.trans hexec, hpending.trans (List.append_nil _)⟩
    · -- the error ends the line
      obtain ⟨htokens, hsemicolon⟩ := not_or.mp hkept
      obtain rfl := Classical.not_not.mp htokens
      have hclass : classify self.environ sep = .andOr := by
        have hmem : sep ∈ [";", "&&", "||"] := by simpa [isSeparator] using hsep
        simp only [List.mem_cons, List.not_mem_nil, or_false] at hmem
        exact if_pos (hmem.resolve_left hsemicolon)
      have hround : exec (readToken env nested self fuel sep ⟨⟨seps, false⟩, [], pending⟩) s =
          (.ok none, { s with terminal := s.terminal ++ [(s.segment, unexpectedToken sep "\n")] }) := by
        unfold readToken
        rw [hclass]
        rfl
      refine ⟨_, _, exec_bind_ok hround, (List.append_nil _).symm⟩

end Separators

/-! ## The commands of a line -/

theorem afterReading_of_lex {text : String} {toks : List String} (hlex : lex text = ⟨toks, false⟩) (s : Protocol ω) :
    afterReading env fuel self text s =
      exec (readTokens env (lineReceived env fuel) self fuel (toks.length + 1) ⟨⟨toks, false⟩, [], []⟩) s := by
  unfold afterReading
  rw [hlex]

/-- A command that is read alone. -/
theorem Command.alone {toks : List String} (h : Command env (lineReceived env fuel) self fuel true false toks)
    {text : String} (hlex : lex text = ⟨toks, false⟩) (s : Protocol ω) :
    (∃ e u, afterReading env fuel self text s = (.error e, u) ∧
        Raises env (lineReceived env fuel) self fuel toks [] s e u) ∨
      ∃ tokens u, tokens ≠ [] ∧
        afterReading env fuel self text s = (.ok ⟨⟨[], false⟩, [], queued tokens u.segment⟩, u) ∧
        Reaches env (lineReceived env fuel) self fuel toks [] s tokens u := by
  have hrounds : (toks ++ []).length < toks.length + 1 := by
    rw [List.append_nil]
    exact Nat.lt_succ_self _
  rw [afterReading_of_lex hlex]
  rcases h.readTokens [] rfl s with ⟨e, u, hraises⟩ | ⟨tokens, u, hkept, hreaches⟩
  · refine .inl ⟨e, u, ?_, hraises⟩
    have hexec := hraises [] false [] _ hrounds
    rwa [List.append_nil] at hexec
  · refine .inr ⟨tokens, u, of_decide_eq_true hkept, ?_, hreaches⟩
    obtain ⟨rounds, hpos, hexec⟩ := hreaches [] false [] _ hrounds
    rw [List.append_nil] at hexec
    exact hexec.trans (readTokens_end hpos tokens [] u)

/-- **The commands are queued as if each were read alone.** -/
theorem Commands.read {toks : List String} {cs : List (List String)} (h : Commands toks cs)
    (hcs : ∀ c ∈ cs, Command env (lineReceived env fuel) self fuel true false c) {texts : List String}
    (hlex : texts.map lex = cs.map fun c => ⟨c, false⟩) (pending : List Pending) {rounds : Nat}
    (hrounds : toks.length < rounds) (s : Protocol ω) :
    ∃ commands, ReadEach env fuel self texts s commands ∧
      (exec (readTokens env (lineReceived env fuel) self fuel rounds ⟨⟨toks, false⟩, [], pending⟩) s).1.map
          (fun r => r.pending.map (·.tokens)) = commands.map (pending.map (·.tokens) ++ ·) := by
  induction h generalizing texts pending rounds s with
  | @last c seps hseps =>
    obtain ⟨text, rfl, htext⟩ := List.map_eq_singleton_iff.mp hlex
    rcases (hcs c List.mem_cons_self).alone htext s with ⟨e, u, hread, hraises⟩ | ⟨tokens, u, hkept, hread, hreaches⟩
    · refine ⟨_, .raises s.segment hread, ?_⟩
      rw [hraises seps false pending rounds hrounds]
      rfl
    · refine ⟨_, .cons s.segment hread (queued_tokens hkept _) (.nil u), ?_⟩
      obtain ⟨rounds', hrounds', hexec⟩ := hreaches seps false pending rounds hrounds
      obtain ⟨r, v, hrest, hpending⟩ := readTokens_trailing env (lineReceived env fuel) self fuel hseps tokens pending
        hrounds' u
      rw [hexec, hrest]
      simp only [Except.map, hpending, List.map_append, queued_tokens hkept]
  | @cons c seps toks op cs hop hsemicolons _ ih =>
    obtain ⟨hc, hcs⟩ := List.forall_mem_cons.mp hcs
    obtain ⟨text, texts, rfl, htext, hlex⟩ := List.map_eq_cons_iff.mp hlex
    rcases hc.alone htext s with ⟨e, u, hread, hraises⟩ | ⟨tokens, u, hkept, hread, hreaches⟩
    · refine ⟨_, .raises s.segment hread, ?_⟩
      rw [hraises _ false pending rounds hrounds]
      rfl
    · -- the command, the separator after it, further semicolons, and the other commands
      obtain ⟨rounds₁, hrounds₁, hexec₁⟩ := hreaches (op :: (seps ++ toks)) false pending rounds hrounds
      obtain ⟨rounds₁, rfl⟩ := Nat.exists_eq_succ_of_ne_zero (Nat.ne_zero_of_lt hrounds₁)
      obtain ⟨n, hexec₂⟩ := readTokens_separator env (lineReceived env fuel) self fuel hop (.inl hkept) (seps ++ toks)
        false pending rounds₁ u
      obtain ⟨rounds₃, m, hrounds₃, hexec₃⟩ := readTokens_semicolons env (lineReceived env fuel) self fuel hsemicolons
        toks false (pending ++ queued tokens u.segment) (Nat.lt_of_succ_lt_succ hrounds₁) { u with segment := n }
      obtain ⟨commands, heach, hmap⟩ := ih hcs hlex (pending ++ queued tokens u.segment) hrounds₃
        { u with segment := m }
      refine ⟨_, .cons s.segment hread (queued_tokens hkept _) heach.of_segment, ?_⟩
      rw [hexec₁, hexec₂, hexec₃, hmap]
      cases commands with
      | error e => rfl
      | ok commands =>
        simp only [Except.map, List.map_append, queued_tokens hkept, List.append_assoc, List.singleton_append]

/-! ## The lines that are split alike -/

/-- The line, apart from blanks of the shell at its ends, is empty or a chain, with semicolons before it, and each
part of it is one command. -/
structure Chained (env : Env ω) (fuel : Nat) (shell : HoneyPotShell) (line : String) : Prop where
  ends : ∃ lead trail, line.toList = lead ++ ((stripBlanks line).toList ++ trail) ∧
    (∀ c ∈ lead, Lexer.isWhitespace c) ∧ ∀ c ∈ trail, Lexer.isWhitespace c
  chain : stripBlanks line = "" ∨ ∃ rest seps ws, Gap rest (stripBlanks line).toList seps ∧
    (∀ sep ∈ seps, sep = ";") ∧ Chain rest ws ∧
      ∀ w ∈ ws, Command env (lineReceived env fuel) shell fuel true false (tokensOf w)

/-- Blanks at the ends make no tokens. -/
theorem lex_ends {text line : String} {lead trail : List Char} (hline : line.toList = lead ++ (text.toList ++ trail))
    (hlead : ∀ c ∈ lead, Lexer.isWhitespace c) (htrail : ∀ c ∈ trail, Lexer.isWhitespace c)
    (hfails : (lex text).fails = false) : lex line = lex text := by
  have htidy : Lexer.Tidy .space [] false := fun _ => ⟨rfl, rfl⟩
  have hopen : (Lexer.after .space text.toList).isOpen = false := (Lexer.lexFrom_fails htidy _).symm.trans hfails
  have hcloses : Lexer.Closes (Lexer.after .space text.toList) trail := by
    cases hstate : Lexer.after .space text.toList with
    | space => trivial
    | word => trivial
    | punctuation => exact fun c hc => htrail c (List.mem_of_mem_head? hc)
    | comment => exact .inr htrail
    | quote mark => rw [hstate] at hopen; cases hopen
    | escape back => rw [hstate] at hopen; cases hopen
  have hblank : Lexer.lexFrom .space [] false trail = ⟨[], false⟩ := by
    have hspace := Lexer.lexFrom_space_blanks htrail []
    rwa [List.append_nil] at hspace
  unfold lex at hfails ⊢
  rw [hline, Lexer.lexFrom_space_blanks hlead, Lexer.lexFrom_append htidy hopen
    (Lexer.breaks_of_closes hcloses fun c hc => .inl (htrail c (List.mem_of_mem_head? hc))), hblank]
  unfold Lexer.andThen
  rw [List.append_nil]
  exact congrArg (Lexer.mk _) hfails.symm

theorem parts_eq (cmd : String) : parts cmd = (visible cmd.toList).map String.ofList := by
  unfold parts visible
  rw [List.filter_map, List.filter_map, List.map_map]
  have hne : ((fun p : String => decide (p ≠ "")) ∘ fun p => stripBlanks (String.ofList p)) =
      ((fun p : List Char => decide (p ≠ [])) ∘ strip) := by
    funext p
    simp only [Function.comp, stripBlanks_ofList, decide_eq_decide]
    refine not_congr ⟨fun h => ?_, fun h => by rw [h]⟩
    have hlist := congrArg String.toList h
    rwa [String.toList_ofList] at hlist
  rw [hne]
  exact List.map_congr_left fun p _ => stripBlanks_ofList p

theorem isSome_of_mapM {α β : Type} {f : α → Option β} {xs : List α} {ys : List β} (h : xs.mapM f = some ys) :
    ∀ x ∈ xs, (f x).isSome := by
  induction xs generalizing ys with
  | nil => exact fun x hx => absurd hx List.not_mem_nil
  | cons x xs ih =>
    rw [List.mapM_cons] at h
    obtain ⟨y, hy, hrest⟩ := Option.bind_eq_some_iff.mp h
    obtain ⟨ys, hys, -⟩ := Option.bind_eq_some_iff.mp hrest
    exact List.forall_mem_cons.mpr ⟨Option.isSome_of_eq_some hy, ih hys⟩

theorem lex_ofList (w : List Char) : lex (String.ofList w) = Lexer.lexFrom .space [] false w := by
  unfold lex
  rw [String.toList_ofList]

/-- A chain. -/
theorem readEach_of_chain {line : String} {rest : List Char} {seps : List String} {ws : List (List Char)}
    (hgap : Gap rest (stripBlanks line).toList seps) (hsemicolons : ∀ sep ∈ seps, sep = ";") (hchain : Chain rest ws)
    (hws : ∀ w ∈ ws, Command env (lineReceived env fuel) self fuel true false (tokensOf w))
    (hline : lex line = lex (stripBlanks line)) (hflow : isControlFlow (stripBlanks line) = false) (s : Protocol ω) :
    ReadEach env fuel self (subCommands line) s (separated env fuel self line s) := by
  obtain ⟨hcommands, hfails, hclosed⟩ := hchain.lexFrom
  have hlex : lex (stripBlanks line) = ⟨seps ++ tokensOf rest, false⟩ :=
    hgap.lexFrom.trans (congrArg (Lexer.mk _) hfails)
  have htexts : (ws.map String.ofList).map lex = (ws.map tokensOf).map fun c => ⟨c, false⟩ := by
    rw [List.map_map, List.map_map]
    refine List.map_congr_left fun w hw => ?_
    exact (lex_ofList w).trans (congrArg (Lexer.mk _) (hclosed w hw))
  -- the semicolons before the first command, then the commands
  obtain ⟨rounds, n, hrounds, hskip⟩ := readTokens_semicolons env (lineReceived env fuel) self fuel hsemicolons
    (tokensOf rest) false [] (Nat.lt_succ_self _) s
  obtain ⟨commands, heach, hmap⟩ := hcommands.read (List.forall_mem_map.mpr hws) htexts [] hrounds
    { s with segment := n }
  have hseparated : separated env fuel self line s = commands := by
    unfold separated
    rw [afterReading_of_lex (hline.trans hlex), hskip, hmap]
    cases commands with
    | error e => rfl
    | ok commands => rfl
  have hparts : parts (stripBlanks line) = ws.map String.ofList := by rw [parts_eq, hgap.visible, hchain.visible]
  have hsome : 0 < ws.length := by
    cases hchain with
    | last => exact Nat.zero_lt_succ _
    | cons => exact Nat.zero_lt_succ _
  unfold subCommands
  simp only
  split_ifs with hempty hmany
  · rw [hempty] at hparts
    have hnone := congrArg List.length hparts
    rw [List.length_map] at hnone
    exact absurd hnone hsome.ne
  · rw [hparts, hseparated]
    exact heach.of_segment
  · -- the line is one command
    have hone : ws.length = 1 := by
      rw [hparts, List.length_map] at hmany
      exact le_antisymm (Nat.not_lt.mp fun hlength => hmany ⟨hflow, hlength⟩) hsome
    refine readEach_singleton (fun all hall => ?_) hline.symm
    rw [heach.length_eq all (hseparated.symm.trans hall), List.length_map, hone]

end Cowrie.Scalpel
