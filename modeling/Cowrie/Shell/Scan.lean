import Cowrie.Shell.Line
import Mathlib.Data.List.Induction

/-!
# The scan for the end of a substitution (`src/cowrie/shell/honeypot.py:156-281`)

A substitution starts at the first `$(` of a token, or else at its first backtick. What the scan passes
and what it leaves make up the text that was there, with a blank before every further token
(`scanTokens_closed`), and the tokens that are left are the last ones (`suffix_doSubshellExecution`).
-/

namespace Cowrie.Shell

open Cowrie.Lib PipeProtocol

variable {ω : Type} {env : Env ω}

/-- Tokens appended to a text. -/
def spelled (toks : List String) : List Char := toks.flatMap fun tok => ' ' :: tok.toList

/-! ## Scanning -/

/-- Nothing is lost between the two parts of what was scanned. -/
theorem scanChars_closed {paren : Bool} {depth : Nat} {seen chars before after : List Char}
    (h : scanChars paren depth seen chars = .closed before after) :
    before ++ after = seen.reverse ++ chars ∧ before ≠ [] := by
  induction chars using List.twoStepInduction generalizing depth seen with
  | nil => cases h
  | singleton c =>
    unfold scanChars at h
    split_ifs at h
    obtain ⟨rfl, rfl⟩ := Scan.closed.inj h
    simp
  | cons_cons c d cs ih ih' =>
    unfold scanChars at h
    split_ifs at h
    · obtain ⟨rfl, rfl⟩ := Scan.closed.inj h
      simp
    · simpa using ih' d h
    · simpa using ih' d h
    · simpa using ih h
    · simpa using ih' d h

theorem scanChars_more {paren : Bool} {depth depth' : Nat} {seen seen' chars : List Char}
    (h : scanChars paren depth seen chars = .more depth' seen') :
    seen'.reverse = seen.reverse ++ chars := by
  induction chars using List.twoStepInduction generalizing depth seen with
  | nil => cases h
  | singleton c =>
    unfold scanChars at h
    split_ifs at h
    obtain ⟨-, rfl⟩ := Scan.more.inj h
    simp
  | cons_cons c d cs ih ih' =>
    unfold scanChars at h
    split_ifs at h
    · simpa using ih' d h
    · simpa using ih' d h
    · simpa using ih h
    · simpa using ih' d h

/-- **What a scan uses up.** -/
theorem scanTokens_closed {paren : Bool} {depth : Nat} {seen chars before after : List Char}
    {toks rest : List String} (h : scanTokens paren depth seen chars toks = .closed before after rest) :
    rest <:+ toks ∧ before ≠ [] ∧
      before ++ after ++ spelled rest = seen.reverse ++ chars ++ spelled toks := by
  induction toks generalizing depth seen chars with
  | nil =>
    unfold scanTokens at h
    cases hscan : scanChars paren depth seen chars with
    | closed before' after' =>
      rw [hscan] at h
      obtain ⟨rfl, rfl, rfl⟩ := Found.closed.inj h
      obtain ⟨hparts, hne⟩ := scanChars_closed hscan
      exact ⟨List.suffix_rfl, hne, by rw [hparts]⟩
    | more depth' seen' =>
      rw [hscan] at h
      cases h
    | indexError =>
      rw [hscan] at h
      cases h
  | cons tok toks ih =>
    unfold scanTokens at h
    cases hscan : scanChars paren depth seen chars with
    | closed before' after' =>
      rw [hscan] at h
      obtain ⟨rfl, rfl, rfl⟩ := Found.closed.inj h
      obtain ⟨hparts, hne⟩ := scanChars_closed hscan
      exact ⟨List.suffix_rfl, hne, by rw [hparts]⟩
    | more depth' seen' =>
      rw [hscan] at h
      obtain ⟨hsuffix, hne, hparts⟩ := ih h
      refine ⟨hsuffix.trans (List.suffix_cons _ _), hne, ?_⟩
      rw [hparts, scanChars_more hscan]
      simp [spelled]
    | indexError =>
      rw [hscan] at h
      cases h

/-- A scan that comes to an end does not see the tokens after it. -/
theorem scanTokens_append {paren : Bool} {depth : Nat} {seen chars before after : List Char}
    {toks rest : List String} (h : scanTokens paren depth seen chars toks = .closed before after rest)
    (more : List String) :
    scanTokens paren depth seen chars (toks ++ more) = .closed before after (rest ++ more) := by
  induction toks generalizing depth seen chars with
  | nil =>
    unfold scanTokens at h
    cases hscan : scanChars paren depth seen chars with
    | closed before' after' =>
      rw [hscan] at h
      obtain ⟨rfl, rfl, rfl⟩ := Found.closed.inj h
      cases more with
      | nil =>
        unfold scanTokens
        rw [hscan]
        rfl
      | cons tok more => rw [List.nil_append, scanTokens, hscan]
    | more depth' seen' =>
      rw [hscan] at h
      cases h
    | indexError =>
      rw [hscan] at h
      cases h
  | cons tok toks ih =>
    unfold scanTokens at h
    rw [List.cons_append, scanTokens]
    cases hscan : scanChars paren depth seen chars with
    | closed before' after' =>
      rw [hscan] at h
      obtain ⟨rfl, rfl, rfl⟩ := Found.closed.inj h
      rfl
    | more depth' seen' =>
      rw [hscan] at h
      exact ih h
    | indexError =>
      rw [hscan] at h
      cases h

/-! ## Where a substitution starts -/

/-- The token is read as a substitution. -/
def Substitutes (text : List Char) : Prop := hasSubstitution text = true ∨ text.head? = some '('

theorem dollarPos_lt {text : List Char} (h : hasInfix ['$', '('] text = true) :
    dollarPos text < text.length := by
  induction text with
  | nil => cases h
  | cons c cs ih =>
    unfold dollarPos
    split_ifs with hprefix
    · exact Nat.zero_lt_succ _
    · unfold hasInfix at h
      rw [Bool.eq_false_iff.mpr hprefix, Bool.false_or] at h
      exact Nat.succ_lt_succ (ih h)

/-- A substitution starts within the token. -/
theorem substitutionStart_lt {text : List Char} (h : Substitutes text) :
    (substitutionStart text).1 < text.length := by
  unfold substitutionStart
  split_ifs with hparen hdollar
  · cases text with
    | nil => cases hparen
    | cons c cs => exact Nat.zero_lt_succ _
  · exact dollarPos_lt hdollar
  · refine List.idxOf_lt_length_of_mem ?_
    have hsub := h.resolve_right hparen
    unfold hasSubstitution at hsub
    rw [Bool.eq_false_iff.mpr hdollar, Bool.false_or] at hsub
    exact of_decide_eq_true hsub

theorem substitutes_of_classify {environ : Environ} {tok : String}
    (h : classify environ tok = .substitution) : Substitutes tok.toList := by
  unfold classify at h
  simp only at h
  split_ifs at h with hand hsemi hstatus hparen hhead hsub hbrace hdollar
  · exact .inl hsub
  · unfold expand at h
    split at h
    · cases h
    · split at h <;> cases h
  · unfold expand at h
    split at h
    · cases h
    · split at h <;> cases h

/-- A token that begins with a parenthesis is a subshell. -/
theorem head_of_substitution {environ : Environ} {tok : String}
    (h : classify environ tok = .substitution) : tok.toList.head? ≠ some '(' := by
  intro hparen
  unfold classify at h
  simp only [hparen] at h
  split_ifs at h

/-! ## The tokens that are left -/

theorem suffix_collectSubshell {depth : Nat} {toks rest : List String}
    (h : (collectSubshell depth toks).2 = some rest) : rest <:+ toks := by
  induction toks generalizing depth with
  | nil => cases h
  | cons tok toks ih =>
    unfold collectSubshell at h
    split_ifs at h
    · obtain rfl := Option.some.inj h
      exact List.suffix_cons _ _
    · exact (ih h).trans (List.suffix_cons _ _)
    · exact (ih h).trans (List.suffix_cons _ _)
    · exact (ih h).trans (List.suffix_cons _ _)

/-- The same for a subshell that comes to an end. -/
theorem collectSubshell_append {depth : Nat} {toks rest : List String}
    (h : (collectSubshell depth toks).2 = some rest) (more : List String) :
    collectSubshell depth (toks ++ more) = ((collectSubshell depth toks).1, some (rest ++ more)) := by
  induction toks generalizing depth with
  | nil => cases h
  | cons tok toks ih =>
    unfold collectSubshell at h ⊢
    rw [List.cons_append]
    simp only
    split_ifs at h ⊢
    · obtain rfl := Option.some.inj h
      rfl
    · rw [ih h]
    · rw [ih h]
    · rw [ih h]

theorem suffix_doSubshellExecutionFromLexer {nested : HoneyPotShell → String → ShellM ω Unit}
    {lexer lexer' : Lexer} {s u : Protocol ω}
    (h : exec (doSubshellExecutionFromLexer env nested lexer) s = (.ok lexer', u)) :
    lexer'.tokens <:+ lexer.tokens := by
  unfold doSubshellExecutionFromLexer at h
  simp only at h
  obtain ⟨-, v₁, -, hrun⟩ := exec_bind_inv h
  obtain ⟨output, v₂, -, hwrite⟩ := exec_bind_inv hrun
  obtain ⟨-, v₃, -, hret⟩ := exec_bind_inv hwrite
  cases hret
  cases hrest : (collectSubshell 1 lexer.tokens).2 with
  | none => exact List.nil_suffix
  | some rest => exact suffix_collectSubshell hrest

theorem suffix_doSubshellExecution {nested : HoneyPotShell → String → ShellM ω Unit}
    {text : List Char} {lexer lexer' : Lexer} {s u : Protocol ω}
    (h : exec (doSubshellExecution env nested text lexer) s = (.ok lexer', u)) :
    lexer'.tokens <:+ lexer.tokens := by
  unfold doSubshellExecution at h
  split at h
  · cases h
  · obtain ⟨-, v, -, hret⟩ := exec_bind_inv h
    cases hret
    exact List.nil_suffix
  next hscan =>
    obtain ⟨output, v₁, -, hwrite⟩ := exec_bind_inv h
    obtain ⟨-, v₂, -, hret⟩ := exec_bind_inv hwrite
    cases hret
    exact (scanTokens_closed hscan).1

theorem suffix_doCommandSubstitution {nested : HoneyPotShell → String → ShellM ω Unit} {fuel : Nat}
    {text text' : List Char} {lexer lexer' : Lexer} {s u : Protocol ω}
    (h : exec (doCommandSubstitution env nested fuel text lexer) s = (.ok (text', lexer'), u)) :
    lexer'.tokens <:+ lexer.tokens := by
  induction fuel generalizing text lexer s with
  | zero => cases h
  | succ fuel ih =>
    unfold doCommandSubstitution at h
    split at h
    · cases h
      exact List.suffix_rfl
    · simp only at h
      split at h
      · cases h
      · obtain ⟨-, v, -, hret⟩ := exec_bind_inv h
        cases hret
        exact List.nil_suffix
      next before after tokens hscan =>
        refine List.IsSuffix.trans ?_ (scanTokens_closed hscan).1
        obtain ⟨output, v, -, hrest⟩ := exec_bind_inv h
        split at hrest
        · obtain ⟨-, v', -, hrest⟩ := exec_bind_inv hrest
          split_ifs at hrest
          · cases hrest; exact List.suffix_rfl
          · exact ih hrest
          · cases hrest; exact List.suffix_rfl
        · split_ifs at hrest
          · cases hrest; exact List.suffix_rfl
          · exact ih hrest
          · cases hrest; exact List.suffix_rfl

theorem lexer_queue (r : Reading) (segment : Nat) : (r.queue segment).lexer = r.lexer := by
  unfold Reading.queue
  split_ifs
  · rfl
  · rfl

/-- **A round leaves the last tokens.** -/
theorem suffix_readToken {nested : HoneyPotShell → String → ShellM ω Unit} {self : HoneyPotShell} {fuel : Nat}
    {tok : String} {r r' : Reading} {s u : Protocol ω}
    (h : exec (readToken env nested self fuel tok r) s = (.ok (some r'), u)) :
    r'.lexer.tokens <:+ r.lexer.tokens := by
  unfold readToken at h
  cases hclass : classify self.environ tok with
  | andOr =>
    simp only [hclass] at h
    split_ifs at h
    · cases h
    · rw [exec_get_bind] at h
      cases h
      rw [lexer_queue]
  | semicolon =>
    simp only [hclass] at h
    rw [exec_get_bind] at h
    cases h
    rw [lexer_queue]
  | paren =>
    simp only [hclass] at h
    split_ifs at h
    · cases h
    · obtain ⟨lexer, v, hrun, hret⟩ := exec_bind_inv h
      cases hret
      exact suffix_doSubshellExecutionFromLexer hrun
  | subshell =>
    simp only [hclass] at h
    split_ifs at h
    · cases h
    · obtain ⟨lexer, v, hrun, hret⟩ := exec_bind_inv h
      cases hret
      exact suffix_doSubshellExecution hrun
  | substitution =>
    simp only [hclass] at h
    obtain ⟨⟨text, lexer⟩, v, hrun, hret⟩ := exec_bind_inv h
    cases hret
    exact suffix_doCommandSubstitution hrun
  | word text =>
    simp only [hclass] at h
    cases h
    exact List.suffix_rfl
  | dropped =>
    simp only [hclass] at h
    cases h
    exact List.suffix_rfl

end Cowrie.Shell
