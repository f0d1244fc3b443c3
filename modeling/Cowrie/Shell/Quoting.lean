import Cowrie.Shell.Plan
import Cowrie.Shell.Routing
import Cowrie.Shell.Scan
import Cowrie.Shell.Sequence
import Cowrie.Shell.Tokens

/-!
# A quoted argument (`src/cowrie/shell/honeypot.py:65-151`, `380-445`, `parser.py:19-96`)

The lexer takes the quotation marks off, and what reads its tokens goes by their text alone: a quoted
`;` separates commands, a quoted `$x` is expanded, a quoted `2>&1` is a redirection.

* `lex_quotedLine`: for a word without quotation marks the line `c 'w'` has the tokens `c` and `w`.
* `RunsOnly`: reading the line starts no other shell and queues `c w`, and the line does what calling
  `c` on `w` alone does.
* `Inert`: neither token means anything to the shell; **`runsOnly_iff`**: this is exactly when the
  argument is protected.
-/

namespace Cowrie.Shell

open Cowrie.Lib PipeProtocol

variable {ω : Type} {env : Env ω}

/-! ## The tokens of a quoted line -/

namespace Lexer

/-- A quoted text without its quotation mark is one token. -/
theorem lexFrom_quote {mark : Char} (hmark : mark ≠ '"') {text : List Char} (h : mark ∉ text)
    (token : List Char) (quoted : Bool) :
    lexFrom (.quote mark) token quoted (text ++ [mark]) =
      ⟨[String.ofList (token.reverse ++ text)], false⟩ := by
  induction text generalizing token quoted with
  | nil =>
    rw [List.nil_append, List.append_nil]
    unfold lexFrom
    rw [if_pos rfl]
    simp [lexFrom, emit]
  | cons c text ih =>
    obtain ⟨hc, htext⟩ := List.ne_and_not_mem_of_not_mem_cons h
    rw [List.cons_append]
    unfold lexFrom
    rw [if_neg hc.symm, if_neg (fun h => hmark h.2), ih htext, List.reverse_cons,
      List.append_assoc]
    rfl

end Lexer

/-- `c 'w'`. -/
def quotedLine (c w : String) : String := c ++ " '" ++ w ++ "'"

/-- **The tokens of the line** are the command and the word. -/
theorem lex_quotedLine {c w : String} (hc : lex c = ⟨[c], false⟩) (hw : '\'' ∉ w.toList) :
    lex (quotedLine c w) = ⟨[c, w], false⟩ := by
  have hline : (quotedLine c w).toList = c.toList ++ ' ' :: '\'' :: (w.toList ++ ['\'']) := by
    simp [quotedLine]
  have hquote : Lexer.lexFrom .space [] false ('\'' :: (w.toList ++ ['\''])) = ⟨[w], false⟩ := by
    have hstart : Lexer.lexFrom .space [] false ('\'' :: (w.toList ++ ['\''])) =
        Lexer.lexFrom (.quote '\'') [] false (w.toList ++ ['\'']) := rfl
    rw [hstart, Lexer.lexFrom_quote (by decide) hw, List.reverse_nil, List.nil_append,
      String.ofList_toList]
  have hchars : (Lexer.lexFrom .space [] false c.toList).chars =
      ([] : List Char).length + c.toList.length := by
    rw [show Lexer.lexFrom .space [] false c.toList = lex c from rfl, hc]
    simp [Lexer.chars]
  unfold lex at hc ⊢
  rw [hline, Lexer.lexFrom_blank (show Lexer.Plain [] false .space from ⟨rfl, rfl⟩) hchars, hc,
    hquote]
  rfl

/-! ## What the shell makes of a token -/

/-- The variable that a word names. -/
def variableOf (text : List Char) : Option String :=
  if ['$', '{'].isPrefixOf text then braceVariable text else simpleVariable text

/-- The token loop takes the word as it is; a variable whose value is its own name is no exception. -/
structure Literal (environ : Environ) (tok : String) : Prop where
  noSeparator : tok ∉ ["&&", "||", ";"]
  noStatus : tok ≠ "$?"
  noParen : tok.toList.head? ≠ some '('
  noSubstitution : hasSubstitution tok.toList = false
  noVariable : ∀ name, variableOf tok.toList = some name → environ.get? name = some tok

/-- Neither the command nor its argument means anything to the shell. -/
structure Inert (u : Digits) (environ : Environ) (c w : String) : Prop where
  command : Literal environ c
  argument : Literal environ w
  noPipe : c ≠ "|" ∧ w ≠ "|"
  noAssignment : '=' ∉ c.toList
  noGlue : ¬ (isDigits u c ∧ w ∈ [">", ">>", ">&"]) ∧ ¬ (c ∈ [">", ">>"] ∧ w = "&")
  noRedirection : Unredirected u [c, w]

theorem expand_eq_word {environ : Environ} {tok : String} {name : Option String} :
    expand environ tok name = .word tok ↔ ∀ n, name = some n → environ.get? n = some tok := by
  cases name with
  | none => simp [expand]
  | some n =>
    unfold expand
    cases hget : environ.get? n <;> simp [hget]

/-- **The token loop.** -/
theorem classify_eq_word (environ : Environ) (tok : String) :
    classify environ tok = .word tok ↔ Literal environ tok := by
  have hsimple : tok.toList.head? ≠ some '$' → simpleVariable tok.toList = none := fun h =>
    if_neg fun h' => h h'.1
  constructor
  · intro h
    unfold classify at h
    simp only at h
    split_ifs at h with hand hsemi hstatus hparen hhead hsub hbrace hdollar
    · rw [hstatus] at h
      exact absurd (Token.word.inj h) (by decide)
    · exact {
        noSeparator := by simp [not_or.mp hand, hsemi]
        noStatus := hstatus
        noParen := hhead
        noSubstitution := by simpa using hsub
        noVariable := by
          unfold variableOf
          rw [if_pos hbrace]
          exact expand_eq_word.mp h }
    · exact {
        noSeparator := by simp [not_or.mp hand, hsemi]
        noStatus := hstatus
        noParen := hhead
        noSubstitution := by simpa using hsub
        noVariable := by
          unfold variableOf
          rw [if_neg hbrace]
          exact expand_eq_word.mp h }
    · exact {
        noSeparator := by simp [not_or.mp hand, hsemi]
        noStatus := hstatus
        noParen := hhead
        noSubstitution := by simpa using hsub
        noVariable := by
          unfold variableOf
          rw [if_neg hbrace, hsimple hdollar]
          exact nofun }
  · rintro ⟨hsep, hstatus, hparen, hsub, hvar⟩
    have hopen : tok ≠ "(" := by
      rintro rfl
      exact hparen (by decide)
    simp only [List.mem_cons, List.not_mem_nil, or_false, not_or] at hsep
    unfold variableOf at hvar
    unfold classify
    simp only [hsep, hstatus, hopen, hparen, hsub, or_self, if_false, Bool.false_eq_true]
    split_ifs at hvar ⊢
    · exact expand_eq_word.mpr hvar
    · exact expand_eq_word.mpr hvar
    · rfl

theorem length_stripAssignments_le (toks : List String) (environ : Environ) :
    (stripAssignments toks environ).1.length ≤ toks.length := by
  induction toks generalizing environ with
  | nil => exact le_rfl
  | cons tok rest ih =>
    unfold stripAssignments
    split_ifs
    · exact (ih _).trans (Nat.le_succ _)
    · exact le_rfl

/-- Two tokens are glued together, or left alone. -/
theorem combineRedirSequence_pair (u : Digits) (c w : String) :
    combineRedirSequence u [c, w] =
      if isDigits u c ∧ w ∈ [">", ">>", ">&"] then some (c ++ w, 2)
      else if c ∈ [">", ">>"] ∧ w = "&" then some (c ++ "&", 2)
      else none := by
  unfold combineRedirSequence
  simp [endsRedir]

theorem mergeRedirectionTokens_pair (u : Digits) (c w : String) :
    mergeRedirectionTokens u [c, w] =
      if isDigits u c ∧ w ∈ [">", ">>", ">&"] then [c ++ w]
      else if c ∈ [">", ">>"] ∧ w = "&" then [c ++ "&"]
      else [c, w] := by
  have hlast : combineRedirSequence u [w] = none := by simp [combineRedirSequence]
  unfold mergeRedirectionTokens mergeFrom
  rw [combineRedirSequence_pair]
  split_ifs
  · rfl
  · rfl
  · unfold mergeFrom
    rw [hlast]
    rfl

/-! ## Substitutions that start no shell -/

/-- A shell that refuses every line. -/
def refusing : HoneyPotShell → String → ShellM ω Unit := fun _ _ => throw .recursionError

theorem exec_executeCommands_refusing {lexer : Lexer} {segs : List (List String)} {out : String}
    {s u : Protocol ω} (h : exec (executeCommands env refusing lexer segs) s = (.ok out, u)) :
    out = "" := by
  have htokens : ∀ {toks : List String} {out : String} {s u : Protocol ω},
      exec (executeTokens env refusing toks) s = (.ok out, u) → out = "" := by
    intro toks out s u h
    unfold executeTokens at h
    split_ifs at h
    · cases h
      rfl
    · cases h
  induction segs generalizing out s with
  | nil =>
    cases h
    rfl
  | cons toks segs ih =>
    cases segs with
    | nil =>
      obtain ⟨-, v, -, hlast⟩ := exec_bind_inv h
      exact htokens hlast
    | cons toks' segs =>
      obtain ⟨first, v, hfirst, hrest⟩ := exec_bind_inv h
      obtain ⟨later, v', hlater, hret⟩ := exec_bind_inv hrest
      cases hret
      rw [htokens hfirst, ih hlater]
      rfl

theorem exec_runSubshellCommand_refusing {cmdExpr : List Char} {out : String} {s u : Protocol ω}
    (h : exec (runSubshellCommand env refusing cmdExpr) s = (.ok out, u)) : out = "" := by
  unfold runSubshellCommand at h
  simp only at h
  split at h
  · exact exec_executeCommands_refusing h
  · obtain ⟨inner, v, hinner, hret⟩ := exec_bind_inv h
    cases hret
    rw [exec_executeCommands_refusing hinner]
    rfl

/-- **Nothing but a shell of its own can make up for the text of a substitution.** -/
theorem length_doCommandSubstitution {fuel : Nat} {text text' : List Char} {lexer lexer' : Lexer}
    {s u : Protocol ω}
    (h : exec (doCommandSubstitution env refusing fuel text lexer) s = (.ok (text', lexer'), u)) :
    lexer'.tokens.length ≤ lexer.tokens.length ∧ (lexer'.tokens.length = lexer.tokens.length →
      text'.length ≤ text.length ∧ (Substitutes text → text'.length < text.length)) := by
  induction fuel generalizing text lexer s with
  | zero => cases h
  | succ fuel ih =>
    unfold doCommandSubstitution at h
    split at h
    next hnone =>
      cases h
      exact ⟨le_rfl, fun _ => ⟨le_rfl, fun hsub => absurd hsub (by
        rintro (hsub | hparen)
        · rw [hnone.1] at hsub
          cases hsub
        · exact hnone.2 hparen)⟩⟩
    next hsome =>
      have hsub : Substitutes text := by
        by_cases hhas : hasSubstitution text = true
        · exact .inl hhas
        · exact .inr (Classical.not_not.mp fun hparen =>
            hsome ⟨Bool.eq_false_iff.mpr hhas, hparen⟩)
      have hlt := substitutionStart_lt hsub
      simp only at h
      split at h
      · cases h
      · obtain ⟨-, v, -, hret⟩ := exec_bind_inv h
        cases hret
        exact ⟨Nat.zero_le _, fun _ => ⟨List.length_take_le' _ _, fun _ => by
          rw [List.length_take]
          omega⟩⟩
      next before after tokens hscan =>
        obtain ⟨output, v, hrun, hrest⟩ := exec_bind_inv h
        obtain rfl := exec_runSubshellCommand_refusing hrun
        obtain ⟨hsuffix, hne, hparts⟩ := scanTokens_closed hscan
        -- the text before the substitution, and what follows it in the token
        have hfinish : ∀ {v : Protocol ω},
            exec (if after = [] then
                pure (text.take (substitutionStart text).1, { lexer with tokens := tokens })
              else if hasSubstitution after then
                doCommandSubstitution env refusing fuel (text.take (substitutionStart text).1 ++ after)
                  { lexer with tokens := tokens }
              else pure (text.take (substitutionStart text).1 ++ after,
                { lexer with tokens := tokens })) v = (.ok (text', lexer'), u) →
            lexer'.tokens.length ≤ tokens.length ∧ (lexer'.tokens.length = tokens.length →
              text'.length ≤ (substitutionStart text).1 + after.length) := by
          intro v hexec
          have htake : (text.take (substitutionStart text).1 ++ after).length ≤
              (substitutionStart text).1 + after.length := by
            rw [List.length_append, List.length_take]
            omega
          split_ifs at hexec with hafter hsub'
          · cases hexec
            refine ⟨le_rfl, fun _ => ?_⟩
            rw [List.length_take]
            omega
          · obtain ⟨hle', hlen'⟩ := ih hexec
            exact ⟨hle', fun hlen => (hlen' hlen).1.trans htake⟩
          · cases hexec
            exact ⟨le_rfl, fun _ => htake⟩
        have hfound : lexer'.tokens.length ≤ tokens.length ∧
            (lexer'.tokens.length = tokens.length →
              text'.length ≤ (substitutionStart text).1 + after.length) := by
          split at hrest
          · obtain ⟨-, v', -, hrest⟩ := exec_bind_inv hrest
            exact hfinish hrest
          · rw [show ("" : String).toList = [] from rfl, List.append_nil] at hrest
            exact hfinish hrest
        refine ⟨hfound.1.trans hsuffix.length_le, fun hlen => ?_⟩
        have htokens : tokens = lexer.tokens :=
          hsuffix.eq_of_length (le_antisymm hsuffix.length_le (hlen ▸ hfound.1))
        rw [htokens] at hparts hfound
        have hshort := hfound.2 hlen
        have hlength := congrArg List.length (List.append_cancel_right hparts)
        have hpos := List.length_pos_iff.mpr hne
        simp only [List.length_append, List.reverse_reverse, List.length_take,
          List.length_drop] at hlength
        exact ⟨by omega, fun _ => by omega⟩

/-! ## Reading the line -/

/-- The words that have been read. -/
def Reading.count (r : Reading) : Nat :=
  (r.pending.map fun q => q.tokens.length).sum + r.tokens.length

theorem count_queue (r : Reading) (segment : Nat) : (r.queue segment).count = r.count := by
  unfold Reading.queue
  split_ifs with hnone
  · rfl
  · simp [Reading.count]

/-- **What a token adds**, if no shell is started: a word, or nothing. -/
theorem readToken_refusing {self : HoneyPotShell} {fuel : Nat} {tok : String} {r r' : Reading}
    {s u : Protocol ω}
    (h : exec (readToken env refusing self fuel tok r) s = (.ok (some r'), u)) :
    r'.lexer.tokens.length ≤ r.lexer.tokens.length ∧
      (r'.count = r.count ∨ ∃ text,
        r' = { r with lexer := r'.lexer, tokens := r.tokens ++ [text] } ∧
        (r'.lexer.tokens.length = r.lexer.tokens.length → text = tok →
          Literal self.environ tok ∧ r'.lexer = r.lexer)) := by
  unfold readToken at h
  cases hclass : classify self.environ tok with
  | andOr =>
    rw [hclass] at h
    simp only at h
    split at h
    · cases h
    · rw [exec_get_bind] at h
      obtain ⟨-, v, -, hret⟩ := exec_bind_inv h
      cases hret
      rw [lexer_queue]
      exact ⟨le_rfl, .inl (count_queue r _)⟩
  | semicolon =>
    rw [hclass] at h
    simp only at h
    rw [exec_get_bind] at h
    obtain ⟨-, v, -, hret⟩ := exec_bind_inv h
    cases hret
    rw [lexer_queue]
    exact ⟨le_rfl, .inl (count_queue r _)⟩
  | paren =>
    rw [hclass] at h
    simp only at h
    split at h
    · cases h
    · obtain ⟨lexer, v, hexec, hret⟩ := exec_bind_inv h
      cases hret
      exact ⟨(suffix_doSubshellExecutionFromLexer hexec).length_le, .inl rfl⟩
  | subshell =>
    rw [hclass] at h
    simp only at h
    split at h
    · cases h
    · obtain ⟨lexer, v, hexec, hret⟩ := exec_bind_inv h
      cases hret
      exact ⟨(suffix_doSubshellExecution hexec).length_le, .inl rfl⟩
  | substitution =>
    rw [hclass] at h
    obtain ⟨⟨text, lexer⟩, v, hexec, hret⟩ := exec_bind_inv h
    cases hret
    obtain ⟨hle, hshort⟩ := length_doCommandSubstitution hexec
    refine ⟨hle, .inr ⟨String.ofList text, rfl, fun hlen htext => ?_⟩⟩
    have hlt := (hshort hlen).2 (substitutes_of_classify hclass)
    rw [← htext, String.toList_ofList] at hlt
    exact absurd hlt (lt_irrefl _)
  | word text =>
    rw [hclass] at h
    cases h
    refine ⟨le_rfl, .inr ⟨text, rfl, fun _ htext => ?_⟩⟩
    subst htext
    exact ⟨(classify_eq_word _ _).mp hclass, rfl⟩
  | dropped =>
    rw [hclass] at h
    cases h
    exact ⟨le_rfl, .inl rfl⟩

/-- Every word that has been read comes from a token. -/
theorem count_readTokens {self : HoneyPotShell} {fuel rounds : Nat} {r r' : Reading} {s u : Protocol ω}
    (h : exec (readTokens env refusing self fuel rounds r) s = (.ok r', u)) :
    r'.count ≤ r.count + r.lexer.tokens.length := by
  induction rounds generalizing r s with
  | zero =>
    cases h
    exact Nat.le_add_right _ _
  | succ rounds ih =>
    cases htoks : r.lexer.tokens with
    | nil =>
      obtain ⟨rfl, -⟩ := exec_readTokens_nil htoks h
      rw [count_queue]
      exact Nat.le_add_right _ _
    | cons tok rest =>
      unfold readTokens at h
      rw [htoks] at h
      obtain ⟨next, v, hnext, hrest⟩ := exec_bind_inv h
      rw [List.length_cons]
      cases next with
      | none =>
        cases hrest
        simp only [Reading.count, Reading.past, List.length_nil]
        omega
      | some r₁ =>
        have hle := ih hrest
        obtain ⟨hlen, hadds⟩ := readToken_refusing hnext
        have hpast : (r.past rest).count = r.count := rfl
        rw [show (r.past rest).lexer.tokens = rest from rfl] at hlen
        rcases hadds with hcount | ⟨text, htext, -⟩
        · omega
        · have hcount : r₁.count = r.count + 1 := by
            rw [htext]
            simp only [Reading.count, Reading.past, List.length_append, List.length_singleton]
            omega
          omega

/-- **A word for every token**: if every token counts, all are taken as they are. -/
theorem literal_of_readTokens {self : HoneyPotShell} {fuel n : Nat} (rounds : Nat)
    {acc words : List String} {lexer : Lexer} {r' : Reading} {s u : Protocol ω} {segment : Nat}
    (hlexer : lexer.tokens.length = n)
    (h : exec (readTokens env refusing self fuel (rounds + n + 1) ⟨lexer, acc, []⟩) s = (.ok r', u))
    (hwords : r'.pending = [⟨segment, words⟩]) (hcount : acc.length + n ≤ words.length) :
    ∃ rest, words = acc ++ rest ∧
      (rest = lexer.tokens → ∀ tok ∈ lexer.tokens, Literal self.environ tok) := by
  induction n generalizing acc lexer s with
  | zero =>
    have htoks := List.length_eq_zero_iff.mp hlexer
    obtain ⟨rfl, -⟩ := exec_readTokens_nil htoks h
    refine ⟨[], ?_, fun _ tok htok => absurd (htoks ▸ htok) List.not_mem_nil⟩
    unfold Reading.queue at hwords
    split_ifs at hwords
    cases hwords
    exact (List.append_nil acc).symm
  | succ n ih =>
    obtain ⟨tok, toks, htoks⟩ := List.exists_cons_of_length_eq_add_one hlexer
    rw [htoks, List.length_cons, Nat.add_right_cancel_iff] at hlexer
    unfold readTokens at h
    rw [htoks] at h
    obtain ⟨next, v, hnext, hrest⟩ := exec_bind_inv h
    cases next with
    | none =>
      cases hrest
      cases hwords
    | some r₁ =>
      obtain ⟨hlen, hadds⟩ := readToken_refusing hnext
      have hle := count_readTokens hrest
      have hwords' : words.length ≤ r'.count := by
        simp [Reading.count, hwords]
      rw [show (Reading.past ⟨lexer, acc, []⟩ toks).lexer.tokens = toks from rfl] at hlen
      rcases hadds with hsame | ⟨text, htext, hliteral⟩
      · -- the token has added nothing
        have hpast : (Reading.past ⟨lexer, acc, []⟩ toks).count = acc.length := by
          simp [Reading.count, Reading.past]
        omega
      · have hr₁ : r₁ = ⟨r₁.lexer, acc ++ [text], []⟩ := htext
        have hadd : r₁.count = acc.length + 1 := by
          rw [hr₁]
          simp [Reading.count]
        have hlen₁ : r₁.lexer.tokens.length = n := by omega
        rw [hr₁] at hrest
        obtain ⟨rest, rfl, hall⟩ := ih hlen₁ hrest (by
          rw [List.length_append, List.length_singleton]
          omega)
        refine ⟨text :: rest, by simp, fun heq => ?_⟩
        rw [htoks] at heq ⊢
        obtain ⟨rfl, rfl⟩ := List.cons.inj heq
        obtain ⟨hfirst, hsame⟩ := hliteral (hlen₁.trans hlexer.symm) rfl
        have htoks₁ : r₁.lexer.tokens = rest := by rw [hsame]; rfl
        exact List.forall_mem_cons.mpr ⟨hfirst, htoks₁ ▸ hall htoks₁.symm⟩

/-! ## Calling what was read -/

/-- The command of a stage. -/
def PipeProtocol.word (pp : PipeProtocol ω) : SimpleCommand := ⟨pp.name, pp.cmdargs⟩

theorem word_openFile {pp q : PipeProtocol ω} {fd : Nat} {target : String} {append : Bool}
    {s t : Protocol ω} (h : exec (openFile env pp fd target append) s = (.ok q, t)) :
    q.word = pp.word := by
  unfold openFile at h
  rw [exec_get_bind, exec_modify_bind] at h
  split at h <;> cases h <;> rfl

theorem word_applyOps {ops : List RedirOp} {pp q : PipeProtocol ω} {pending pending' : Option String}
    {s t : Protocol ω} (h : exec (applyOps env pp pending ops) s = (.ok (q, pending'), t)) :
    q.word = pp.word := by
  induction ops generalizing pp pending s with
  | nil =>
    cases h
    rfl
  | cons op ops ih =>
    cases op with
    | file fd target append =>
      obtain ⟨q', v, hopen, hrest⟩ := exec_bind_inv h
      exact (ih hrest).trans (word_openFile hopen)
    | stdin fd target =>
      have hword := ih h
      exact hword
    | dup fd target =>
      unfold applyOps at h
      split at h
      · have hword := ih h
        exact hword
      · exact ih h

/-- Redirections leave the command alone. -/
theorem word_new {name : String} {cmd : Command ω} {args : List String} {hasNext redirect : Bool}
    {ops : List RedirOp} {p : PipeProtocol ω} {s t : Protocol ω}
    (h : exec (PipeProtocol.new env name cmd args hasNext redirect ops) s = (.ok p, t)) :
    p.word = ⟨name, args⟩ := by
  unfold PipeProtocol.new at h
  obtain ⟨⟨q, pending⟩, v, hops, hrest⟩ := exec_bind_inv h
  have hq : q.word = ⟨name, args⟩ := word_applyOps hops
  cases pending with
  | none =>
    cases hrest
    exact hq
  | some target =>
    simp only at hrest
    split at hrest
    · cases hrest
      exact hq
    · unfold prepareStdin at hrest
      rw [exec_get_bind] at hrest
      split at hrest
      · cases hrest
        exact hq
      · cases hrest
        exact hq

/-- The chain starts with the command that was handled last. -/
theorem word_buildChain {self : HoneyPotShell} {path : List String} {cmds : List ParsedCommand}
    {x : ParsedCommand} {chain chain' : List (PipeProtocol ω)} {s t : Protocol ω}
    (h : exec (buildChain env self path (cmds ++ [x]) chain) s = (.ok (some chain'), t)) :
    ∃ pp rest, chain' = pp :: rest ∧ pp.word = ⟨x.command, x.rargs⟩ := by
  induction cmds generalizing chain s with
  | nil =>
    rw [List.nil_append] at h
    unfold buildChain at h
    rw [exec_get_bind] at h
    split at h
    · obtain ⟨pp, v, hnew, hrest⟩ := exec_bind_inv h
      cases hrest
      exact ⟨pp, chain, rfl, word_new hnew⟩
    · obtain ⟨-, v, -, hret⟩ := exec_bind_inv h
      cases hret
  | cons cmd cmds ih =>
    rw [List.cons_append] at h
    unfold buildChain at h
    rw [exec_get_bind] at h
    split at h
    · obtain ⟨pp, v, -, hrest⟩ := exec_bind_inv h
      exact ih hrest
    · obtain ⟨-, v, -, hret⟩ := exec_bind_inv h
      cases hret

/-- **The first command of a prepared pipeline** is that of its first stage. -/
theorem prepare_some {self : HoneyPotShell} {tokens : List String} {last : Bool}
    {chain : List (PipeProtocol ω)} {s u : Protocol ω}
    (h : exec (prepare env self tokens last) s = (.ok (some chain), u)) :
    ∃ first stages ops pp rest,
      (stripAssignments tokens self.environ).1.splitOn "|" = first :: stages ∧
      parseRedirections env.digits first = .ok (pp.name :: pp.cmdargs, ops) ∧ chain = pp :: rest := by
  unfold prepare at h
  simp only at h
  split at h
  next first stages hsplit =>
    obtain ⟨⟨args, ops⟩, v, hraise, hrest⟩ := exec_bind_inv h
    have hparse : parseRedirections env.digits first = .ok (args, ops) := by
      cases hargs : parseRedirections env.digits first with
      | error e =>
        rw [hargs] at hraise
        cases hraise
      | ok r =>
        rw [hargs] at hraise
        cases hraise
        rfl
    cases args with
    | nil =>
      obtain ⟨-, v', -, hret⟩ := exec_bind_inv hrest
      cases hret
    | cons command rargs =>
      obtain ⟨later, v', -, hbuild⟩ := exec_bind_inv hrest
      obtain ⟨built, v'', hchain, hret⟩ := exec_bind_inv hbuild
      cases built with
      | none =>
        obtain ⟨-, v₃, -, hnone⟩ := exec_bind_inv hret
        cases hnone
      | some chain' =>
        simp only at hret
        rw [List.reverse_cons] at hchain
        obtain ⟨pp, rest, rfl, hword⟩ := word_buildChain hchain
        obtain ⟨hname, hargs⟩ := SimpleCommand.mk.inj hword
        subst hname hargs
        refine ⟨first, stages, ops, pp, rest, hsplit, hparse, ?_⟩
        split at hret
        · cases hret
        · cases hret
          rfl
  next => cases h

/-- The calls only grow. -/
theorem grows_run (env : Env ω) (self : HoneyPotShell) (fuel : Nat) :
    Along Grows (runCommand env self fuel []) ∧
      ∀ chain, Along Grows (callCommand env self fuel chain []) := by
  cases hredirect : self.redirect with
  | true =>
    have hrun := stays_run env hredirect fuel
    exact ⟨fun s => (hrun.1 [] s).ordered.grows, fun chain s => (hrun.2 chain [] s).ordered.grows⟩
  | false =>
    have hrun := ordered_run env hredirect fuel
    exact ⟨fun s => (hrun.1 [] s (inLine_nil _)).grows,
      fun chain s => (hrun.2 chain [] s (inLine_nil _)).grows⟩

/-- The calls after the first one. -/
theorem Grows.after {s t u : Protocol ω} {a : Ran} (h : t.ran = s.ran ++ [a]) (hgrows : Grows t u) :
    ∃ more, u.ran = s.ran ++ a :: more := by
  obtain ⟨more, hmore⟩ := hgrows
  exact ⟨more, by rw [hmore, h, List.append_assoc, List.singleton_append]⟩

/-- The first call of a chain is that of its first stage. -/
theorem head_callCommand (env : Env ω) (self : HoneyPotShell) (fuel : Nat) (pp : PipeProtocol ω)
    (rest : List (PipeProtocol ω)) (s : Protocol ω) :
    ∃ more, (exec (callCommand env self (fuel + 1) (pp :: rest) []) s).2.ran =
      s.ran ++ callOf self.environ s.segment pp s.world :: more := by
  have hstart := ran_start env self pp rest s
  rw [callCommand_succ]
  cases hexec : exec (start env self (pp :: rest)) s with
  | mk r u =>
    rw [hexec] at hstart
    cases r with
    | error e =>
      rw [exec_bind_error hexec]
      exact ⟨[], hstart⟩
    | ok _ =>
      rw [exec_bind_ok hexec]
      refine Grows.after hstart (rel_bind (R := Grows) (fun _ _ _ h h' => h.trans h')
        ((grows_run env self fuel).1 u) fun _ v _ => ?_)
      rw [exec_get_bind]
      split
      · exact (grows_run env self fuel).2 _ v
      · exact (stays_pure _ v).ordered.grows

/-- **The first call of a queued command**, if there is one. -/
theorem head_runCommand (env : Env ω) (self : HoneyPotShell) (fuel : Nat) (q : Pending)
    (s : Protocol ω) :
    (exec (runCommand env self (fuel + 2) [q]) s).2.ran = s.ran ∨
      ∃ first stages ops a more,
        (stripAssignments q.tokens self.environ).1.splitOn "|" = first :: stages ∧
        parseRedirections env.digits first = .ok (Ran.name a :: a.args, ops) ∧
        (exec (runCommand env self (fuel + 2) [q]) s).2.ran = s.ran ++ a :: more := by
  have hquiet := quiet_prepare env self q.tokens (([] : List Pending) = [])
    { s with segment := if self.redirect then s.segment else q.segment }
  rw [runCommand, exec_modify_bind]
  cases hexec : exec (prepare env self q.tokens (([] : List Pending) = []))
      { s with segment := if self.redirect then s.segment else q.segment } with
  | mk r u =>
    rw [hexec] at hquiet
    have hran : u.ran = s.ran := hquiet.ran
    cases r with
    | error e =>
      rw [exec_bind_error hexec]
      exact .inl hran
    | ok chain =>
      rw [exec_bind_ok hexec]
      cases chain with
      | none =>
        simp only [if_true]
        exact .inl (((quiet_showPrompt env self) u).ran.trans hran)
      | some chain =>
        obtain ⟨first, stages, ops, pp, rest, hsplit, hparse, rfl⟩ := prepare_some hexec
        obtain ⟨more, hmore⟩ := head_callCommand env self fuel pp rest u
        rw [hran] at hmore
        exact .inr ⟨first, stages, ops, callOf self.environ u.segment pp u.world, more, hsplit,
          hparse, hmore⟩

/-! ## The quoted argument -/

/-- The line runs `c`, with the argument `w` and nothing else. Whatever shell there is for substitutions
and subshells, reading the line does not start it: `c w` is queued, and nothing has happened. Then the
command is called, on no input, and its output goes where the shell's own goes. -/
structure RunsOnly (env : Env ω) (self : HoneyPotShell) (fuel : Nat) (c w : String) (cmd : Command ω)
    (s : Protocol ω) : Prop where
  reads : ∀ nested, ∃ r, exec (readTokens env nested self fuel
    ((lex (quotedLine c w)).tokens.length + 1) { lexer := lex (quotedLine c w) }) s = (.ok r, s) ∧
    r.pending = [⟨s.segment, [c, w]⟩]
  calls : exec (lineReceived env (fuel + 1) self (quotedLine c w)) s =
    exec (callCommand env self (fuel - 1) [fresh c cmd [w] false self.redirect] []) s

/-- The part before the first separator. -/
theorem head_splitOn {l first : List String} {a : String} {stages : List (List String)}
    (h : l.splitOn a = first :: stages) :
    first.length ≤ l.length ∧ (first.length = l.length → a ∉ l ∧ first = l) := by
  by_cases ha : a ∈ l
  · obtain ⟨xs, ys, rfl, hxs⟩ := List.eq_append_cons_of_mem ha
    rw [List.splitOn_append_cons_self_of_not_mem hxs] at h
    obtain ⟨rfl, -⟩ := List.cons.inj h
    rw [List.length_append, List.length_cons]
    exact ⟨by omega, fun hlen => absurd hlen (by omega)⟩
  · rw [List.splitOn_eq_singleton ha] at h
    obtain ⟨rfl, -⟩ := List.cons.inj h
    exact ⟨le_rfl, fun _ => ⟨ha, rfl⟩⟩

/-- **Two tokens that stay two arguments.** -/
theorem pair_of_parse {u : Digits} {environ : Environ} {c w : String} {first : List String}
    {stages : List (List String)} {ops : List RedirOp}
    (hsplit : (stripAssignments (mergeRedirectionTokens u [c, w]) environ).1.splitOn "|" =
      first :: stages)
    (hparse : parseRedirections u first = .ok ([c, w], ops)) :
    (c ≠ "|" ∧ w ≠ "|") ∧ '=' ∉ c.toList ∧
      (¬ (isDigits u c ∧ w ∈ [">", ">>", ">&"]) ∧ ¬ (c ∈ [">", ">>"] ∧ w = "&")) ∧
      Unredirected u [c, w] := by
  obtain ⟨hargs, hunredirected⟩ := length_parseFrom hparse
  obtain ⟨hfirst, hwhole⟩ := head_splitOn hsplit
  rw [mergeRedirectionTokens_pair] at hsplit hfirst hwhole
  split_ifs at hsplit hfirst hwhole with hdescriptor hboth
  · have hstrip := length_stripAssignments_le [c ++ w] environ
    simp only [List.length_cons, List.length_nil] at hargs hstrip
    omega
  · have hstrip := length_stripAssignments_le [c ++ "&"] environ
    simp only [List.length_cons, List.length_nil] at hargs hstrip
    omega
  · by_cases hassign : '=' ∈ c.toList
    · unfold stripAssignments at hfirst
      rw [if_pos hassign] at hfirst
      have hstrip := length_stripAssignments_le [w]
        (environ.set (splitAssignment c).1 (splitAssignment c).2)
      simp only [List.length_cons, List.length_nil] at hargs hstrip
      omega
    · unfold stripAssignments at hfirst hwhole
      rw [if_neg hassign] at hfirst hwhole
      simp only [List.length_cons, List.length_nil] at hargs hfirst hwhole
      obtain ⟨hpipe, rfl⟩ := hwhole (le_antisymm hfirst hargs)
      rw [List.mem_cons, List.mem_singleton, not_or] at hpipe
      exact ⟨⟨Ne.symm hpipe.1, Ne.symm hpipe.2⟩, hassign, ⟨hdescriptor, hboth⟩,
        hunredirected rfl⟩

/-- A known command with one argument is prepared. -/
theorem exec_prepare_pair {self : HoneyPotShell} {c w : String} {cmd : Command ω} {s : Protocol ω}
    (h : Inert env.digits self.environ c w)
    (hknown : env.getCommand s.world c self.environ.path = some cmd) (last : Bool) :
    exec (prepare env self [c, w] last) s = (.ok (some [fresh c cmd [w] false self.redirect]), s) := by
  have hsplit : [c, w].splitOn "|" = [[c, w]] := List.splitOn_eq_singleton (by
    simpa using ⟨Ne.symm h.noPipe.1, Ne.symm h.noPipe.2⟩)
  have hparse : parseRedirections env.digits [c, w] = .ok ([c, w], []) :=
    parseFrom_unredirected h.noRedirection
  unfold prepare stripAssignments
  rw [if_neg h.noAssignment]
  simp only
  rw [hsplit]
  simp only
  rw [hparse, exec_bind_ok (exec_raise_ok _ s)]
  simp only
  rw [exec_bind_ok (show exec (parseStages env []) s = (.ok [], s) from rfl)]
  have hbuild : exec (buildChain env self self.environ.path [⟨c, [w], []⟩] []) s =
      (.ok (some [fresh c cmd [w] false self.redirect]), s) := by
    unfold buildChain
    rw [exec_get_bind, hknown]
    simp only
    rw [exec_bind_ok (exec_new _ _ _ _ _ s)]
    rfl
  rw [List.reverse_singleton, exec_bind_ok hbuild]
  rfl

/-- The one call. -/
theorem ran_callCommand_fresh (env : Env ω) (self : HoneyPotShell) {fuel : Nat} (hfuel : 1 < fuel)
    (c w : String) (cmd : Command ω) (s : Protocol ω) :
    (exec (callCommand env self fuel [fresh c cmd [w] false self.redirect] []) s).2.ran =
      s.ran ++ [callOf self.environ s.segment (fresh c cmd [w] false self.redirect) s.world] := by
  have hplain : PlainChain self.redirect [⟨c, [w]⟩] [fresh c cmd [w] false self.redirect] :=
    PlainChain.cons ⟨c, [w]⟩ cmd none PlainChain.nil
  obtain ⟨u, p', calls, last, hexec, -, -, hran, hcalls, -, -⟩ :=
    exec_callCommand_last env self hplain hfuel s
  rw [hexec, hran]
  generalize u.world = v at hcalls
  cases hcalls with
  | cons handed hrest =>
    obtain rfl := handed.nil_iff.mpr rfl
    cases hrest
    rfl

/-- **Quoting protects exactly what means nothing to the shell.** -/
theorem runsOnly_iff (env : Env ω) (self : HoneyPotShell) {c w : String} {cmd : Command ω}
    {s : Protocol ω} (hc : lex c = ⟨[c], false⟩) (hw : '\'' ∉ w.toList)
    (hknown : env.getCommand s.world c self.environ.path = some cmd)
    (hrouter : env.router (quotedLine c w) = none) {fuel : Nat} (hfuel : 2 < fuel) :
    RunsOnly env self fuel c w cmd s ↔ Inert env.digits self.environ c w := by
  have hlex := lex_quotedLine hc hw
  obtain ⟨fuel, rfl⟩ : ∃ k, fuel = k + 2 := ⟨fuel - 2, by omega⟩
  constructor
  · rintro ⟨hreads, hcalls⟩
    have hliteral : ∀ tok ∈ [c, w], Literal self.environ tok := by
      obtain ⟨r, hread, hpending⟩ := hreads refusing
      rw [hlex] at hread
      obtain ⟨rest, hrest, hall⟩ := literal_of_readTokens 0 (n := 2) rfl hread hpending le_rfl
      exact hall hrest.symm
    obtain ⟨r, hread, hpending⟩ := hreads (lineReceived env (fuel + 2))
    have hline := exec_lineReceived (show Reads env (fuel + 2) self (quotedLine c w) s s
      [⟨s.segment, [c, w]⟩] from ⟨hrouter, r, hread, hpending⟩)
    rw [if_neg (List.cons_ne_nil _ _), hcalls] at hline
    have hran := ran_callCommand_fresh env self (show 1 < fuel + 1 by omega) c w cmd s
    rw [show fuel + 2 - 1 = fuel + 1 from rfl] at hline
    rw [hline] at hran
    rcases head_runCommand env self fuel ⟨s.segment, mergeRedirectionTokens env.digits [c, w]⟩ s with
      hnone | ⟨first, stages, ops, a, more, hsplit, hparse, hsome⟩
    · exact absurd (hran.symm.trans hnone) (by simp)
    · have hcall := List.append_cancel_left (hran.symm.trans hsome)
      obtain ⟨rfl, -⟩ := List.cons.inj hcall
      obtain ⟨hpipe, hassign, hglue, hredirection⟩ := pair_of_parse hsplit hparse
      exact ⟨hliteral c List.mem_cons_self, hliteral w (List.mem_cons_of_mem _ List.mem_cons_self),
        hpipe, hassign, hglue, hredirection⟩
  · intro h
    have hwords : ∀ tok ∈ [c, w], classify self.environ tok = .word tok := by
      intro tok htok
      rw [classify_eq_word]
      rcases List.mem_pair.mp htok with rfl | rfl
      · exact h.command
      · exact h.argument
    refine ⟨fun nested => ?_, ?_⟩
    · rw [hlex]
      exact ⟨_, exec_readTokens_words env hwords [] [] s, rfl⟩
    · have hmerge : mergePending env [⟨s.segment, [c, w]⟩] = [⟨s.segment, [c, w]⟩] := by
        unfold mergePending
        rw [List.map_singleton, mergeRedirectionTokens_pair, if_neg h.noGlue.1, if_neg h.noGlue.2]
      rw [exec_lineReceived (reads_words env self (fuel + 2) [c, w] hrouter hlex (List.cons_ne_nil _ _)
        hwords s), if_neg (List.cons_ne_nil _ _), hmerge, runCommand, exec_modify_bind]
      simp only [ite_self]
      rw [exec_bind_ok (exec_prepare_pair h hknown _)]
      rfl

/-- A text without the characters that mean something to the shell. -/
def Ordinary (text : List Char) : Prop :=
  ∀ ch ∈ text, ch ∉ ['|', ';', '&', '<', '>', '(', '$', backtick]

instance (text : List Char) : Decidable (Ordinary text) := List.decidableBAll _ text

theorem Ordinary.literal {tok : String} (h : Ordinary tok.toList) (environ : Environ) :
    Literal environ tok where
  noSeparator := by
    intro hmem
    simp only [List.mem_cons, List.not_mem_nil, or_false] at hmem
    rcases hmem with rfl | rfl | rfl <;> exact absurd h (by decide)
  noStatus := by
    rintro rfl
    exact absurd h (by decide)
  noParen := fun hhead => h _ (List.mem_of_head? hhead) (by decide)
  noSubstitution := by
    have hdollar : hasInfix ['$', '('] tok.toList = false := by
      generalize tok.toList = text at h
      induction text with
      | nil => rfl
      | cons c cs ih =>
        have hc : c ≠ '$' := by
          rintro rfl
          exact h _ List.mem_cons_self (by decide)
        unfold hasInfix
        rw [ih fun ch hch => h ch (List.mem_cons_of_mem _ hch), Bool.or_false]
        simp [List.isPrefixOf, Ne.symm hc]
    have hback : backtick ∉ tok.toList := fun hmem => h _ hmem (by decide)
    unfold hasSubstitution
    rw [hdollar, decide_eq_false hback]
    rfl
  noVariable := by
    have hhead : tok.toList.head? ≠ some '$' := fun hhead => h _ (List.mem_of_head? hhead) (by decide)
    have hbrace : ['$', '{'].isPrefixOf tok.toList = false := by
      cases htext : tok.toList with
      | nil => rfl
      | cons c cs =>
        rw [htext, List.head?_cons] at hhead
        simp [List.isPrefixOf, Ne.symm (fun hc => hhead (congrArg some hc))]
    unfold variableOf simpleVariable
    rw [hbrace, if_neg Bool.false_ne_true, if_neg fun hvar => hhead hvar.1]
    intro name hname
    cases hname

theorem Ordinary.not_redirects {u : Digits} {tok : String} (h : Ordinary tok.toList)
    (next : Option String) : ¬ Redirects u tok next :=
  not_redirects_of_plain ⟨fun hmem => h _ hmem (by decide), fun hmem => h _ hmem (by decide)⟩ next

/-- **Ordinary text is protected.** -/
theorem Ordinary.inert {c w : String} (hc : Ordinary c.toList) (hassign : '=' ∉ c.toList)
    (hw : Ordinary w.toList) (u : Digits) (environ : Environ) : Inert u environ c w where
  command := hc.literal environ
  argument := hw.literal environ
  noPipe := by
    constructor
    · rintro rfl
      exact absurd hc (by decide)
    · rintro rfl
      exact absurd hw (by decide)
  noAssignment := hassign
  noGlue := by
    constructor
    · rintro ⟨-, hmem⟩
      simp only [List.mem_cons, List.not_mem_nil, or_false] at hmem
      rcases hmem with rfl | rfl | rfl <;> exact absurd hw (by decide)
    · rintro ⟨-, rfl⟩
      exact absurd hw (by decide)
  noRedirection := ⟨hc.not_redirects _, hw.not_redirects _, trivial⟩

/-- `echo 'a # b'`. -/
theorem runsOnly_ordinary :
    RunsOnly sampleEnv sampleShell 9 "echo" "a # b" (fun args _ _ cwd =>
      ([.out (encode (" ".intercalate args ++ "\n"))], cwd)) samplePrompt :=
  (runsOnly_iff sampleEnv sampleShell (by decide +kernel) (by decide +kernel) rfl rfl (by decide)).mpr
    (Ordinary.inert (by decide +kernel) (by decide +kernel) (by decide +kernel) _ _)

/-- `echo ';'`: nothing is queued but `echo`. -/
theorem runsOnly_violated :
    ¬ ∀ (c w : String) (cmd : Command String), lex c = ⟨[c], false⟩ → '\'' ∉ w.toList →
      sampleEnv.getCommand samplePrompt.world c sampleShell.environ.path = some cmd →
      sampleEnv.router (quotedLine c w) = none →
      RunsOnly sampleEnv sampleShell 9 c w cmd samplePrompt := by
  intro h
  obtain ⟨hreads, -⟩ := h "echo" ";" _ (by decide +kernel) (by decide +kernel) rfl rfl
  obtain ⟨r, hread, hpending⟩ := hreads (lineReceived sampleEnv 9)
  have hqueue : (exec (readTokens sampleEnv (lineReceived sampleEnv 9) sampleShell 9
      ((lex (quotedLine "echo" ";")).tokens.length + 1) { lexer := lex (quotedLine "echo" ";") })
      samplePrompt).1.map (·.pending) = .ok [⟨0, ["echo"]⟩] := by decide +kernel
  rw [hread] at hqueue
  have hwords := hpending.symm.trans (Except.ok.inj hqueue)
  exact absurd hwords (by decide)

end Cowrie.Shell
