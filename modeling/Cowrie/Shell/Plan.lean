import Cowrie.Shell.HoneyPot

/-!
# What a queued command line says (`src/cowrie/shell/honeypot.py:380-445`)

`runCommand` takes the assignments off the tokens, splits the rest at the pipes and takes the
redirections off every part: this is the `plan` of the command line. Nothing else of the tokens matters
(**`runCommand_congr`**).

A token is a redirection if it `Redirects`; without one, a part is its own words
(`parseFrom_unredirected`), and otherwise there are fewer words than tokens (`length_parseFrom`).
-/

namespace Cowrie.Shell

open Cowrie.Lib PipeProtocol

/-- What is left of one stage: its words, and its redirections. -/
abbrev Stage := Except PyError (List String × List RedirOp)

/-- The environment that the commands are looked up in, and the stages. -/
def plan (u : Digits) (environ : Environ) (tokens : List String) : Environ × List Stage :=
  ((stripAssignments tokens environ).2,
    ((stripAssignments tokens environ).1.splitOn "|").map (parseRedirections u))

/-! ## Redirections -/

/-- The token is a redirection: it begins with an operator that has a target. What `>&` duplicates is
a number, or `-`. -/
def Redirects (u : Digits) (tok : String) (next : Option String) : Prop :=
  match extractRedirOp u tok with
  | .error _ => True
  | .ok none => False
  | .ok (some (op, _, inlineTarget)) =>
    match if inlineTarget = "" then next else some inlineTarget with
    | none => False
    | some target => op = .dup → target = "-" ∨ isDigits u target

/-- No token is a redirection. -/
def Unredirected (u : Digits) : List String → Prop
  | [] => True
  | tok :: rest => ¬ Redirects u tok rest.head? ∧ Unredirected u rest

/-- A token without `<` and `>` is none. -/
theorem not_redirects_of_plain {u : Digits} {tok : String} (h : '<' ∉ tok.toList ∧ '>' ∉ tok.toList)
    (next : Option String) : ¬ Redirects u tok next := by
  have hoperator : ∀ text : List Char, '>' ∉ text → '<' ∉ text → operatorOf text = none := by
    intro text hout hin
    unfold operatorOf
    split <;> simp_all
  have hnone : extractRedirOp u tok = .ok none := by
    unfold extractRedirOp
    simp only
    rw [hoperator _ (fun hmem => h.2 (List.mem_of_mem_drop hmem)) fun hmem =>
      h.1 (List.mem_of_mem_drop hmem)]
  simp [Redirects, hnone]

/-- A token that is no redirection stays. -/
theorem applyRedirection_of_not {u : Digits} {tok : String} {next : Option String} {op : Operator}
    {fd : Option Nat} {inlineTarget : String}
    (hop : extractRedirOp u tok = .ok (some (op, fd, inlineTarget))) (h : ¬ Redirects u tok next) :
    applyRedirection u op fd inlineTarget next tok = .ok { cleaned := [tok] } := by
  unfold Redirects at h
  unfold applyRedirection
  rw [hop] at h
  simp only at h ⊢
  cases hnext : (if inlineTarget = "" then next else some inlineTarget) with
  | none => rfl
  | some target =>
    rw [hnext] at h
    obtain ⟨rfl, htarget⟩ := Classical.not_imp.mp h
    obtain ⟨hdash, hdigits⟩ := not_or.mp htarget
    simp only
    rw [if_neg hdash, if_neg hdigits]

/-- A redirection is taken out. -/
theorem cleaned_of_redirects {u : Digits} {tok : String} {next : Option String} {op : Operator}
    {fd : Option Nat} {inlineTarget : String} {applied : Applied}
    (hop : extractRedirOp u tok = .ok (some (op, fd, inlineTarget))) (h : Redirects u tok next)
    (happly : applyRedirection u op fd inlineTarget next tok = .ok applied) :
    applied.cleaned = [] := by
  unfold Redirects at h
  unfold applyRedirection at happly
  rw [hop] at h
  simp only at h happly
  cases hnext : (if inlineTarget = "" then next else some inlineTarget) with
  | none =>
    rw [hnext] at h
    exact absurd h id
  | some target =>
    rw [hnext] at h happly
    cases op with
    | append => rw [← Except.ok.inj happly]
    | output => rw [← Except.ok.inj happly]
    | input => rw [← Except.ok.inj happly]
    | dup =>
      simp only at happly
      by_cases hdash : target = "-"
      · rw [if_pos hdash] at happly
        rw [← Except.ok.inj happly]
      · rw [if_neg hdash, if_pos ((h rfl).resolve_left hdash)] at happly
        cases hint : intOf u target.toList with
        | error e =>
          rw [hint] at happly
          cases happly
        | ok n =>
          rw [hint] at happly
          rw [← Except.ok.inj happly]

/-- **Without redirections the arguments are the tokens.** -/
theorem parseFrom_unredirected {u : Digits} {toks : List String} (h : Unredirected u toks) :
    parseFrom u 0 toks = .ok (toks, []) := by
  induction toks with
  | nil => rfl
  | cons tok rest ih =>
    obtain ⟨htok, hrest⟩ := h
    unfold parseFrom
    cases hop : extractRedirOp u tok with
    | error e => exact absurd (by simp [Redirects, hop]) htok
    | ok r =>
      rcases r with - | ⟨op, fd, inlineTarget⟩
      · simp only
        rw [ih hrest]
        rfl
      · simp only
        rw [applyRedirection_of_not hop htok]
        simp only
        rw [show (1 : Nat) - 1 = 0 from rfl, ih hrest]
        rfl

/-- What the tokens after one leave. -/
theorem parseFrom_map_ok {u : Digits} {skip : Nat} {rest args : List String} {ops : List RedirOp}
    {f : List String × List RedirOp → List String × List RedirOp}
    (h : (parseFrom u skip rest).map f = .ok (args, ops)) :
    ∃ r, parseFrom u skip rest = .ok r ∧ f r = (args, ops) := by
  cases hrest : parseFrom u skip rest with
  | error e =>
    rw [hrest] at h
    cases h
  | ok r =>
    rw [hrest] at h
    exact ⟨r, rfl, Except.ok.inj h⟩

/-- **There are as many arguments as tokens only if there are no redirections.** -/
theorem length_parseFrom {u : Digits} {skip : Nat} {toks args : List String} {ops : List RedirOp}
    (h : parseFrom u skip toks = .ok (args, ops)) :
    args.length ≤ toks.length ∧ (args.length = toks.length → Unredirected u toks) := by
  induction toks generalizing skip args ops with
  | nil =>
    have hnil : (.ok ([], []) : Except PyError _) = .ok (args, ops) := by cases skip <;> exact h
    obtain ⟨rfl, -⟩ := Prod.mk.inj (Except.ok.inj hnil)
    exact ⟨le_rfl, fun _ => trivial⟩
  | cons tok rest ih =>
    cases skip with
    | succ skip =>
      obtain ⟨hle, -⟩ := ih h
      rw [List.length_cons]
      exact ⟨by omega, fun hlen => absurd hlen (by omega)⟩
    | zero =>
      unfold parseFrom at h
      cases hop : extractRedirOp u tok with
      | error e =>
        rw [hop] at h
        cases h
      | ok r =>
        rw [hop] at h
        rcases r with - | ⟨op, fd, inlineTarget⟩
        · obtain ⟨⟨args', ops'⟩, hrest, heq⟩ := parseFrom_map_ok h
          obtain ⟨rfl, rfl⟩ := Prod.mk.inj heq
          obtain ⟨hle, hall⟩ := ih hrest
          simp only [List.length_cons]
          exact ⟨by omega, fun hlen => ⟨by simp [Redirects, hop], hall (by omega)⟩⟩
        · simp only at h
          cases happly : applyRedirection u op fd inlineTarget rest.head? tok with
          | error e =>
            rw [happly] at h
            cases h
          | ok applied =>
            rw [happly] at h
            obtain ⟨⟨args', ops'⟩, hrest, heq⟩ := parseFrom_map_ok h
            obtain ⟨rfl, rfl⟩ := Prod.mk.inj heq
            obtain ⟨hle, hall⟩ := ih hrest
            by_cases hredirects : Redirects u tok rest.head?
            · simp only [cleaned_of_redirects hop hredirects happly, List.nil_append, List.length_cons]
              exact ⟨by omega, fun hlen => absurd hlen (by omega)⟩
            · obtain rfl := Except.ok.inj ((applyRedirection_of_not hop hredirects).symm.trans happly)
              simp only [List.singleton_append, List.length_cons]
              exact ⟨by omega, fun hlen => ⟨hredirects, hall (by omega)⟩⟩

/-! ## Running a plan -/

variable {ω : Type} {env : Env ω}

theorem parseStages_congr {stages stages' : List (List String)}
    (h : stages.map (parseRedirections env.digits) = stages'.map (parseRedirections env.digits)) :
    parseStages env stages = parseStages env stages' := by
  induction stages generalizing stages' with
  | nil =>
    rw [List.map_eq_nil_iff.mp h.symm]
  | cons stage stages ih =>
    cases stages' with
    | nil => exact absurd h (List.cons_ne_nil _ _)
    | cons stage' stages' =>
      obtain ⟨hfirst, hrest⟩ := List.cons.inj h
      unfold parseStages
      rw [hfirst, ih hrest]

/-- **The plan decides what is prepared.** -/
theorem prepare_congr {self : HoneyPotShell} {tokens tokens' : List String}
    (h : plan env.digits self.environ tokens = plan env.digits self.environ tokens') (last : Bool) :
    prepare env self tokens last = prepare env self tokens' last := by
  obtain ⟨henviron, hstages⟩ := Prod.mk.inj h
  unfold prepare
  generalize stripAssignments tokens self.environ = stripped at *
  generalize stripAssignments tokens' self.environ = stripped' at *
  obtain ⟨cmdTokens, environ⟩ := stripped
  obtain ⟨cmdTokens', environ'⟩ := stripped'
  simp only at henviron hstages ⊢
  subst henviron
  generalize hsplit : cmdTokens.splitOn "|" = stages at *
  generalize hsplit' : cmdTokens'.splitOn "|" = stages' at *
  cases stages with
  | nil => exact absurd hsplit (List.splitOn_ne_nil _ _)
  | cons first stages =>
    cases stages' with
    | nil => exact absurd hsplit' (List.splitOn_ne_nil _ _)
    | cons first' stages' =>
      obtain ⟨hfirst, hrest⟩ := List.cons.inj hstages
      simp only
      rw [hfirst, parseStages_congr hrest]

/-- The queues say the same. -/
def SamePlans (env : Env ω) (self : HoneyPotShell) (pending pending' : List Pending) : Prop :=
  List.Forall₂ (fun p p' => p.segment = p'.segment ∧
    plan env.digits self.environ p.tokens = plan env.digits self.environ p'.tokens) pending pending'

/-- **Queues that say the same do the same.** -/
theorem runCommand_congr {self : HoneyPotShell} {pending pending' : List Pending}
    (h : SamePlans env self pending pending') (fuel : Nat) :
    runCommand env self fuel pending = runCommand env self fuel pending' ∧
      ∀ chain, callCommand env self fuel chain pending = callCommand env self fuel chain pending' := by
  induction fuel generalizing pending pending' with
  | zero => exact ⟨by cases h <;> rfl, fun _ => rfl⟩
  | succ fuel ih =>
    constructor
    · cases h with
      | nil => rfl
      | @cons p p' ps ps' hp hps =>
        obtain ⟨hsegment, hplan⟩ := hp
        have hnil : (ps = []) = (ps' = []) := by cases hps <;> simp
        unfold runCommand
        rw [hsegment, prepare_congr hplan, (ih hps).1, funext (ih hps).2]
        simp only [hnil]
    · intro chain
      unfold callCommand
      rw [(ih h).1]

end Cowrie.Shell
