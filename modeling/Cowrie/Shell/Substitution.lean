import Cowrie.Shell.Pipelines

/-!
# The output of a substitution (`honeypot.py:277-352`, `pipe.py:64-73`)

The commands of `$(...)` run in a shell with `redirect` set. Their output is captured by the
protocol of each command, and read back from `protocol.pp`, the protocol of whatever command was
called last.

* `substitutes_iff`: the stages of a pipeline get the output of the stage before them iff none but
  the last writes any, as the capture takes the place of the pipe.
* `capturesOwn_iff`: the text is the output of the commands in it iff nothing was captured before
  an unknown command, which leaves `protocol.pp` as it was.
-/

namespace Cowrie.Shell

open Cowrie.Lib

variable {ω : Type} {env : Env ω}

/-- The shell that runs the commands of a substitution. -/
def subshellOf (env : Env ω) (w : ω) : HoneyPotShell := ⟨false, true, env.environ w⟩

/-- What the command called last has captured. -/
def lastCapture (s : Protocol ω) : Bytes :=
  match s.pp with
  | [] => []
  | pp :: _ => pp.redirectedData

/-- The shell of a substitution is on top of `cmdstack`. -/
def pushed (s : Protocol ω) : Protocol ω := { s with depth := s.depth + 1 }

@[simp] theorem pushed_world (s : Protocol ω) : (pushed s).world = s.world := rfl

/-- It is taken off again. -/
def popped (s : Protocol ω) : Protocol ω := { s with depth := s.depth - 1 }

theorem exec_executeSingleCommandWithRedirect {nested : HoneyPotShell → String → ShellM ω Unit}
    {cmd : String} {s u : Protocol ω}
    (h : exec (nested (subshellOf env s.world) cmd) (pushed s) = (.ok (), u)) :
    exec (executeSingleCommandWithRedirect env nested cmd) s =
      match decode (lastCapture u) with
      | some text => (.ok text, popped u)
      | none => (.error .unicodeDecodeError, popped u) := by
  unfold executeSingleCommandWithRedirect
  rw [exec_modify_bind, exec_get_bind]
  refine (exec_bind_ok h).trans ?_
  rw [exec_modify_bind, exec_get_bind]
  unfold lastCapture
  change exec (match u.pp with
    | [] => _
    | pp :: _ => _) (popped u) = _
  cases u.pp with
  | nil =>
    simp only
    rw [decode_nil]
    rfl
  | cons p rest =>
    simp only
    cases decode p.redirectedData with
    | none => rfl
    | some text => rfl

/-! ## A pipeline in a substitution -/

/-- What the commands write to standard output, one after the other from the world `w` and without
any input, as those found in the world `w₀`; and the world they leave. -/
def runAlone (env : Env ω) (environ : Environ) (path : List String) (w₀ : ω) :
    List SimpleCommand → ω → List Bytes × ω
  | [], w => ([], w)
  | c :: cs, w =>
    match env.getCommand w₀ c.name path with
    | none => ([], w)
    | some cmd =>
      let r := cmd c.args environ none w
      let later := runAlone env environ path w₀ cs r.2
      (stdoutOf r.1 :: later.1, later.2)

/-- The stages that are captured run without input. -/
theorem Calls.alone {environ : Environ} {segment : Nat} {chain : List (PipeProtocol ω)} {w w' : ω}
    {calls : List Ran} {path : List String} {w₀ : ω} {p : List SimpleCommand}
    (h : Calls true environ segment chain w calls w') (hplain : PlainChain true p chain)
    (hfound : FoundIn env path w₀ chain) :
    runAlone env environ path w₀ p w = (calls.map (·.stdout), w') ∧
      ∀ a ∈ calls, a.input = none := by
  induction h generalizing p with
  | nil w =>
    cases hplain
    exact ⟨rfl, fun a ha => absurd ha List.not_mem_nil⟩
  | @cons q rest rest' w w' calls handed _ ih =>
    obtain rfl : rest' = rest := handed
    obtain ⟨hcmd, hinput⟩ := hfound q List.mem_cons_self
    cases hplain with
    | cons c cmd input hrest =>
      obtain rfl : input = none := hinput
      obtain ⟨hout, hnone⟩ := ih hrest fun r hr => hfound r (List.mem_cons_of_mem _ hr)
      unfold runAlone
      rw [hcmd]
      simp only
      rw [show runAlone env environ path w₀ _ (cmd c.args environ none w).2 = _ from hout]
      refine ⟨rfl, fun a ha => ?_⟩
      rcases List.mem_cons.mp ha with rfl | ha
      · rfl
      · exact hnone a ha

/-- Calls without input are linked iff all but the last write nothing. -/
theorem linked_iff {calls : List Ran} (h : ∀ a ∈ calls, a.input = none) :
    calls.IsChain Linked ↔ ∀ d ∈ (calls.map (·.stdout)).dropLast, d = [] := by
  induction calls with
  | nil => simp
  | cons a calls ih =>
    cases calls with
    | nil => simp
    | cons b calls =>
      rw [List.isChain_cons_cons, ih fun c hc => h c (List.mem_cons_of_mem _ hc)]
      rw [List.map_cons (a := a), List.map_cons, List.dropLast_cons_cons, List.forall_mem_cons]
      unfold Linked
      rw [h b (List.mem_cons_of_mem _ List.mem_cons_self)]
      exact and_congr_left fun _ => eq_comm

/-- The text of a substitution is `$(cmd)`, or `cmd` in backticks. -/
def Quotes (cmdExpr : List Char) (cmd : String) : Prop :=
  cmdExpr = '$' :: '(' :: (cmd.toList ++ [')']) ∨ cmdExpr = backtick :: (cmd.toList ++ [backtick])

theorem exec_runSubshellCommand {nested : HoneyPotShell → String → ShellM ω Unit}
    {cmdExpr : List Char} {cmd : String} (h : Quotes cmdExpr cmd) :
    runSubshellCommand env nested cmdExpr = (do
      return rstripNewlines (← executeSubshellWithFullOutput env nested cmd)) := by
  unfold runSubshellCommand
  rcases h with rfl | rfl
  · have hcmd : inside 2 ('$' :: '(' :: (cmd.toList ++ [')'])) = cmd := by simp [inside]
    simp [List.isPrefixOf, hcmd]
  · have hcmd : inside 1 (backtick :: (cmd.toList ++ [backtick])) = cmd := by simp [inside]
    have hdollar : ['$', '('].isPrefixOf (backtick :: (cmd.toList ++ [backtick])) = false := rfl
    have hparen : (backtick :: (cmd.toList ++ [backtick])).head? ≠ some '(' := by
      rw [List.head?_cons]
      decide
    rw [hdollar, if_neg hparen, if_neg Bool.false_ne_true, hcmd]

/-- The line in a substitution is the pipeline `p` of known commands, which it has been read to
in the state `u`. -/
structure SubstitutedPipeline (env : Env ω) (fuel : Nat) (cmd : String) (s u : Protocol ω)
    (q : Pending) (p : List SimpleCommand) : Prop where
  lexes : (lex cmd).fails = false
  single : ∃ toks ≠ [], (lex cmd).tokens.splitOnP isSeparator = [toks] ∧ ∃ pending,
    Reads env fuel (subshellOf env s.world) (" ".intercalate toks) (pushed s) u pending ∧
    mergePending env pending = [q]
  pipeline : IsPipeline env (env.environ s.world) q p

/-- A command in the shell of a substitution. -/
theorem exec_lineReceived_pipeline {fuel : Nat} (self : HoneyPotShell) {line : String}
    {s u : Protocol ω} {pending : List Pending} {q : Pending} {p : List SimpleCommand}
    (hredirect : self.redirect = true) (hread : Reads env fuel self line s u pending)
    (hpending : mergePending env pending = [q]) (hq : IsPipeline env self.environ q p)
    (hfuel : p.length + 1 < fuel) :
    ∃ v calls last, exec (lineReceived env (fuel + 1) self line) s = (.ok (), v) ∧
      v.ran = u.ran ++ calls ∧ calls.map Ran.command = p ∧ calls.getLast? = some last ∧
      lastCapture v = last.stdout ∧ (∀ a ∈ calls, a.input = none) ∧
      runAlone env self.environ (pathOf self.environ q.tokens) u.world p u.world =
        (calls.map (·.stdout), v.world) := by
  have hne : pending ≠ [] := by
    rintro rfl
    exact absurd hpending (by simp [mergePending])
  rw [exec_lineReceived hread, if_neg hne, hpending]
  obtain ⟨c, cs, rfl⟩ := List.exists_cons_of_ne_nil hq.ne_nil
  rw [List.length_cons] at hfuel
  obtain ⟨fuel, rfl⟩ : ∃ k, fuel = k + 1 := ⟨fuel - 1, by omega⟩
  obtain ⟨t, chain, hexec, hplain, hfound, ht⟩ := exec_runCommand_cons env hq fuel [] u
  have hworld : t.world = u.world := by rw [ht]
  have hran : t.ran = u.ran := by rw [ht]
  have hlt : cs.length + 1 < fuel := by omega
  obtain ⟨v, p', calls, last, hcall, hv, -, hcalls, hstages, hlast, hdata⟩ :=
    exec_callCommand_last env self hplain hlt t
  rw [hredirect] at hstages hdata hplain
  rw [hworld] at hstages
  obtain ⟨hout, hnone⟩ := hstages.alone hplain hfound
  refine ⟨v, calls, last, hexec.trans hcall, hran ▸ hcalls, hstages.map_command hplain, hlast, ?_,
    hnone, hout⟩
  unfold lastCapture
  rw [hv]
  exact hdata

theorem exec_executeCommands_single {nested : HoneyPotShell → String → ShellM ω Unit}
    {lexer : Lexer} (hlex : lexer.fails = false) {toks : List String} (hne : toks ≠ []) :
    executeCommands env nested lexer [toks] =
      executeSingleCommandWithRedirect env nested (" ".intercalate toks) := by
  unfold executeCommands endOfTokens executeTokens
  rw [hlex, if_neg hne]
  rfl

/-- A pipeline of words in a substitution of the sample session. -/
theorem sample_pipeline {cmd : String} (toks : List String) {p : List SimpleCommand}
    (hlex : lex cmd = ⟨toks, false⟩) (hne : toks ≠ []) (hsplit : toks.splitOnP isSeparator = [toks])
    (hjoin : lex (" ".intercalate toks) = ⟨toks, false⟩)
    (hwords : ∀ tok ∈ toks, classify sampleEnviron tok = .word tok)
    (hmerge : mergeRedirectionTokens asciiDigits toks = toks)
    (hparse : Parses sampleEnv sampleEnviron toks p)
    (hknown : ∀ c ∈ p, (sampleCommand c.name).isSome) :
    SubstitutedPipeline sampleEnv 9 cmd samplePrompt (pushed samplePrompt) ⟨0, toks⟩ p where
  lexes := by rw [hlex]
  single := by
    refine ⟨toks, hne, ?_, _, reads_words sampleEnv (subshellOf sampleEnv "/root") 9 toks rfl hjoin hne
      hwords (pushed samplePrompt), ?_⟩
    · rw [hlex]
      exact hsplit
    · rw [mergePending, List.map_singleton]
      exact congrArg (fun toks => [(⟨0, toks⟩ : Pending)]) hmerge
  pipeline := ⟨hparse, known_sampleEnv hknown⟩

/-- An unknown command is reported, and everything else stays. -/
theorem prepare_unknown (self : HoneyPotShell) {tokens : List String} {c : SimpleCommand}
    (hparse : Parses env self.environ tokens [c])
    (hunknown : Unknown env (pathOf self.environ tokens) c) (last : Bool) (s : Protocol ω) :
    ∃ u, exec (prepare env self tokens last) s = (.ok none, u) ∧ u.world = s.world ∧
      u.pp = s.pp ∧ u.ran = s.ran := by
  unfold Parses at hparse
  unfold prepare
  unfold pathOf at hunknown
  generalize stripAssignments tokens self.environ = stripped at *
  obtain ⟨cmdTokens, environ⟩ := stripped
  simp only at hparse hunknown ⊢
  obtain ⟨first, hfirst, hparsed⟩ : ∃ first, cmdTokens.splitOn "|" = [first] ∧
      parseRedirections env.digits first = .ok (c.name :: c.args, []) := by
    rw [List.map_singleton] at hparse
    obtain ⟨first, hsplit, hfirst⟩ := List.map_eq_singleton_iff.mp hparse
    exact ⟨first, hsplit, hfirst⟩
  rw [hfirst]
  simp only
  rw [hparsed, exec_bind_ok (exec_raise_ok _ s)]
  simp only
  rw [exec_bind_ok (show exec (parseStages env []) s = (.ok [], s) from rfl)]
  have hbuild : exec (buildChain env self environ.path
      ([⟨c.name, c.args, []⟩] : List ParsedCommand).reverse []) s =
      (.ok none, { s with terminal := s.terminal ++ [(s.segment, notFound c.name)] }) := by
    rw [List.reverse_singleton]
    unfold buildChain
    rw [exec_get_bind, hunknown]
    rfl
  rw [exec_bind_ok hbuild]
  simp only
  unfold when processEnded
  split
  · exact ⟨_, rfl, rfl, rfl, rfl⟩
  · exact ⟨_, rfl, rfl, rfl, rfl⟩

/-- A command of a substitution: its tokens, once they have been read in a world, and whether
there is such a command. -/
structure SubstitutedCommand (ω : Type) where
  tokens : ω → List String
  command : ω → SimpleCommand
  known : Bool

namespace SubstitutedCommand

/-- The line is read to this command in every state, and nothing else happens. -/
def Of (env : Env ω) (fuel : Nat) (line : String) (l : SubstitutedCommand ω) : Prop :=
  ∀ s, ∃ q, (∃ pending, Reads env fuel (subshellOf env s.world) line s s pending ∧
      mergePending env pending = [q]) ∧
    q.tokens = l.tokens s.world ∧
    Parses env (env.environ s.world) q.tokens [l.command s.world] ∧
    if l.known then Known env (pathOf (env.environ s.world) q.tokens) (l.command s.world)
    else Unknown env (pathOf (env.environ s.world) q.tokens) (l.command s.world)

/-- What the command does without input; `none` when there is no such command. -/
def run (env : Env ω) (l : SubstitutedCommand ω) (w : ω) : Option (List Write × ω) :=
  (env.getCommand w (l.command w).name (pathOf (env.environ w) (l.tokens w))).map fun cmd =>
    cmd (l.command w).args (env.environ w) none w

end SubstitutedCommand

/-- What the commands write to standard output, one after the other; `none` for the unknown ones. -/
def outputsOf (env : Env ω) : List (SubstitutedCommand ω) → ω → List (Option Bytes)
  | [], _ => []
  | l :: ls, w =>
    match l.run env w with
    | none => none :: outputsOf env ls w
    | some r => some (stdoutOf r.1) :: outputsOf env ls r.2

/-- What is read back after each command, when `stale` was captured before: an unknown command
captures nothing, and what is read is the last capture again. -/
def readBack : Bytes → List (Option Bytes) → List Bytes
  | _, [] => []
  | stale, none :: os => stale :: readBack stale os
  | _, some out :: os => out :: readBack out os

/-- Every output is UTF-8, and no bytes were captured last before an unknown command. -/
def Fresh : Bytes → List (Option Bytes) → Prop
  | _, [] => True
  | stale, none :: os => stale = [] ∧ Fresh stale os
  | _, some out :: os => (decode out).isSome ∧ Fresh out os

theorem readBack_length (stale : Bytes) (os : List (Option Bytes)) :
    (os.filterMap id).flatten.length ≤ (readBack stale os).flatten.length := by
  induction os generalizing stale with
  | nil => exact le_rfl
  | cons o os ih =>
    cases o with
    | none =>
      have := ih stale
      rw [List.filterMap_cons_none (by rfl), readBack, List.flatten_cons, List.length_append]
      omega
    | some out =>
      have := ih out
      rw [List.filterMap_cons_some (b := out) (by rfl), readBack, List.flatten_cons,
        List.flatten_cons, List.length_append, List.length_append]
      omega

/-- **What is read back is the outputs and no more, iff nothing stale is read.** -/
theorem readBack_iff (stale : Bytes) (os : List (Option Bytes)) :
    ((∀ d ∈ readBack stale os, (decode d).isSome) ∧
      (readBack stale os).flatten = (os.filterMap id).flatten) ↔ Fresh stale os := by
  induction os generalizing stale with
  | nil => simp [readBack, Fresh]
  | cons o os ih =>
    cases o with
    | none =>
      rw [readBack, Fresh, List.forall_mem_cons, List.flatten_cons,
        List.filterMap_cons_none (by rfl), ← ih stale]
      constructor
      · rintro ⟨⟨-, hall⟩, heq⟩
        have hnil : stale = [] := by
          have hlen := congrArg List.length heq
          rw [List.length_append] at hlen
          have := readBack_length stale os
          exact List.eq_nil_of_length_eq_zero (by omega)
        subst hnil
        exact ⟨rfl, hall, heq⟩
      · rintro ⟨rfl, hall, heq⟩
        exact ⟨⟨by rw [decode_nil]; rfl, hall⟩, heq⟩
    | some out =>
      rw [readBack, Fresh, List.forall_mem_cons, List.flatten_cons,
        List.filterMap_cons_some (b := out) (by rfl), List.flatten_cons, List.append_cancel_left_eq,
        ← ih out, and_assoc]

/-- A known command in the shell of a substitution: it runs, and its output is what is read. -/
theorem SubstitutedCommand.Of.exec_known {fuel : Nat} {line : String} {l : SubstitutedCommand ω}
    (h : l.Of env fuel line) (hknown : l.known = true) (hfuel : 2 < fuel) (s : Protocol ω) :
    ∃ v call r, l.run env s.world = some r ∧ call.stdout = stdoutOf r.1 ∧
      call.command = l.command s.world ∧ v.world = r.2 ∧ v.ran = s.ran ++ [call] ∧
      lastCapture v = stdoutOf r.1 ∧
      exec (executeSingleCommandWithRedirect env (lineReceived env (fuel + 1)) line) s =
        match decode (stdoutOf r.1) with
        | some text => (.ok text, v)
        | none => (.error .unicodeDecodeError, v) := by
  have hs := h (pushed s)
  simp only [pushed_world] at hs
  obtain ⟨q, ⟨pending, hread, hpending⟩, htokens, hparse, hfound⟩ := hs
  rw [if_pos hknown] at hfound
  have hq : IsPipeline env (env.environ s.world) q [l.command s.world] :=
    ⟨hparse, fun c hc => List.mem_singleton.mp hc ▸ hfound⟩
  obtain ⟨cmd, hcmd⟩ := Option.isSome_iff_exists.mp (hfound s.world)
  obtain ⟨u, calls, last, hline, hran, hcommands, hlast, hcapture, -, hout⟩ :=
    exec_lineReceived_pipeline (subshellOf env s.world) rfl hread hpending hq hfuel
  obtain ⟨a, rfl, ha⟩ := List.map_eq_singleton_iff.mp hcommands
  obtain rfl : a = last := Option.some.inj hlast
  have hrun : l.run env s.world =
      some (cmd (l.command s.world).args (env.environ s.world) none s.world) := by
    unfold SubstitutedCommand.run
    rw [← htokens, hcmd]
    rfl
  change runAlone env (env.environ s.world) (pathOf (env.environ s.world) q.tokens) s.world
    [l.command s.world] s.world = _ at hout
  unfold runAlone at hout
  rw [hcmd] at hout
  obtain ⟨hstdout, hworld⟩ := Prod.mk.inj hout
  have hstdout' : a.stdout = stdoutOf (cmd (l.command s.world).args (env.environ s.world) none
      s.world).1 := (List.cons.inj hstdout).1.symm
  refine ⟨popped u, a, _, hrun, hstdout', ha, hworld.symm, hran, hcapture.trans hstdout', ?_⟩
  rw [exec_executeSingleCommandWithRedirect hline, hcapture, hstdout']

theorem SubstitutedCommand.Of.exec_unknown {fuel : Nat} {line : String} {l : SubstitutedCommand ω}
    (h : l.Of env fuel line) (hknown : l.known = false) (hfuel : 2 < fuel) (s : Protocol ω) :
    ∃ v, l.run env s.world = none ∧ v.world = s.world ∧ v.ran = s.ran ∧
      lastCapture v = lastCapture s ∧
      exec (executeSingleCommandWithRedirect env (lineReceived env (fuel + 1)) line) s =
        match decode (lastCapture s) with
        | some text => (.ok text, v)
        | none => (.error .unicodeDecodeError, v) := by
  have hs := h (pushed s)
  simp only [pushed_world] at hs
  obtain ⟨q, ⟨pending, hread, hpending⟩, htokens, hparse, hunknown⟩ := hs
  rw [if_neg (by rw [hknown]; exact Bool.false_ne_true)] at hunknown
  have hrun : l.run env s.world = none := by
    unfold SubstitutedCommand.run
    rw [← htokens, hunknown s.world]
    rfl
  have hne : pending ≠ [] := by
    rintro rfl
    exact absurd hpending (by simp [mergePending])
  obtain ⟨fuel, rfl⟩ : ∃ k, fuel = k + 1 := ⟨fuel - 1, by omega⟩
  obtain ⟨v, hprepare, hworld, hpp, hran⟩ := prepare_unknown (subshellOf env s.world) hparse
    hunknown true (pushed s)
  have hline : exec (lineReceived env (fuel + 2) (subshellOf env s.world) line) (pushed s) =
      (.ok (), v) := by
    rw [exec_lineReceived hread, if_neg hne, hpending, runCommand, exec_modify_bind]
    refine (exec_bind_ok hprepare).trans ?_
    rfl
  have hcapture : lastCapture v = lastCapture s := by
    unfold lastCapture
    rw [hpp]
    rfl
  refine ⟨popped v, hrun, hworld, hran, hcapture, ?_⟩
  rw [exec_executeSingleCommandWithRedirect hline, hcapture]


/-! ## The text of a substitution -/

/-- The commands were called in order, and what they wrote is `outs`. -/
structure Called (ls : List (SubstitutedCommand ω)) (outs : List Bytes) (calls : List Ran) :
    Prop where
  commands : List.Forall₂ (fun (l : SubstitutedCommand ω) (a : Ran) => ∃ w, a.command = l.command w)
    (ls.filter (·.known)) calls
  outs : calls.map (·.stdout) = outs

/-- The text is the pieces, decoded; or one of them cannot be. -/
def CapturesAs (m : ShellM ω String) (s : Protocol ω) (ls : List (SubstitutedCommand ω))
    (outs pieces : List Bytes) : Prop :=
  (∃ text v calls, exec m s = (.ok text, v) ∧ encode text = pieces.flatten ∧
    (∀ d ∈ pieces, (decode d).isSome) ∧ v.ran = s.ran ++ calls ∧ Called ls outs calls) ∨
  (∃ d ∈ pieces, decode d = none) ∧ ∃ v, exec m s = (.error .unicodeDecodeError, v)

theorem exec_executeCommands_cons {nested : HoneyPotShell → String → ShellM ω Unit} {lexer : Lexer}
    (hlex : lexer.fails = false) (toks : List String) (rest : List (List String))
    (s : Protocol ω) :
    exec (executeCommands env nested lexer (toks :: rest)) s = exec (do
      let output ← executeTokens env nested toks
      return output ++ (← executeCommands env nested lexer rest)) s := by
  cases rest with
  | nil =>
    unfold executeCommands endOfTokens
    rw [hlex, if_neg Bool.false_ne_true]
    change exec (executeTokens env nested toks) s = _
    rw [exec_bind]
    cases h : exec (executeTokens env nested toks) s with
    | mk r u =>
      cases r with
      | error e => rfl
      | ok text =>
        change _ = exec (pure (text ++ "")) u
        rw [String.append_empty]
        rfl
  | cons toks' rest => rfl

/-- The output of one command, and then of the others. -/
theorem capturesAs_bind {m rest : ShellM ω String} {s v : Protocol ω} {d : Bytes}
    {ls ls' : List (SubstitutedCommand ω)} {outs outs' pieces : List Bytes} {calls : List Ran}
    (hm : exec m s = match decode d with
      | some text => (.ok text, v)
      | none => (.error .unicodeDecodeError, v))
    (hran : v.ran = s.ran ++ calls)
    (hcalled : ∀ later, Called ls outs later → Called ls' outs' (calls ++ later))
    (hrest : CapturesAs rest v ls outs pieces) :
    CapturesAs (do return (← m) ++ (← rest)) s ls' outs' (d :: pieces) := by
  cases hd : decode d with
  | none =>
    rw [hd] at hm
    exact Or.inr ⟨⟨d, List.mem_cons_self, hd⟩, v, exec_bind_error hm⟩
  | some first =>
    rw [hd] at hm
    rcases hrest with ⟨text, u, later, hexec, htext, hall, hlater, hc⟩ | ⟨⟨e, he, hnone⟩, u, hexec⟩
    · refine Or.inl ⟨first ++ text, u, calls ++ later, ?_, ?_, ?_, ?_, hcalled later hc⟩
      · rw [exec_bind_ok hm, exec_bind_ok hexec]
        rfl
      · rw [encode_append, encode_of_decode hd, htext, List.flatten_cons]
      · exact List.forall_mem_cons.mpr ⟨by rw [hd]; rfl, hall⟩
      · rw [hlater, hran, List.append_assoc]
    · refine Or.inr ⟨⟨e, List.mem_cons_of_mem _ he, hnone⟩, u, ?_⟩
      rw [exec_bind_ok hm, exec_bind_error hexec]

/-- **What is captured**: the output of every command, and the last capture again for every unknown
one. -/
theorem exec_executeCommands {fuel : Nat} {lexer : Lexer} (hlex : lexer.fails = false)
    {segs : List (List String)} {ls : List (SubstitutedCommand ω)}
    (h : List.Forall₂ (fun toks l => SubstitutedCommand.Of env fuel (" ".intercalate toks) l)
      (segs.filter (· ≠ [])) ls) (hfuel : 2 < fuel) (s : Protocol ω) :
    CapturesAs (executeCommands env (lineReceived env (fuel + 1)) lexer segs) s ls
      ((outputsOf env ls s.world).filterMap id)
      (readBack (lastCapture s) (outputsOf env ls s.world)) := by
  induction segs generalizing ls s with
  | nil =>
    cases h
    exact Or.inl ⟨"", s, [], rfl, rfl, fun d hd => absurd hd List.not_mem_nil,
      (List.append_nil _).symm, List.Forall₂.nil, rfl⟩
  | cons toks segs ih =>
    unfold CapturesAs
    rw [exec_executeCommands_cons hlex]
    change CapturesAs (do
      return (← executeTokens env (lineReceived env (fuel + 1)) toks) ++
        (← executeCommands env (lineReceived env (fuel + 1)) lexer segs)) s ls _ _
    by_cases htoks : toks = []
    · rw [List.filter_cons_of_neg (by simp [htoks])] at h
      have hnothing : exec (executeTokens env (lineReceived env (fuel + 1)) toks) s = (.ok "", s) := by
        unfold executeTokens
        rw [if_pos htoks]
        rfl
      unfold CapturesAs
      rw [exec_bind_ok hnothing]
      rcases ih h s with ⟨text, v, calls, hexec, hkept⟩ | ⟨hnone, v, hexec⟩
      · refine Or.inl ⟨text, v, calls, ?_, hkept⟩
        rw [exec_bind_ok hexec, String.empty_append]
        rfl
      · exact Or.inr ⟨hnone, v, exec_bind_error hexec⟩
    · rw [List.filter_cons_of_pos (by simp [htoks])] at h
      have htokens : executeTokens env (lineReceived env (fuel + 1)) toks =
          executeSingleCommandWithRedirect env (lineReceived env (fuel + 1))
            (" ".intercalate toks) := if_neg htoks
      rw [htokens]
      cases h with
      | @cons _ l _ ls hl h =>
        unfold outputsOf
        cases hknown : l.known with
        | true =>
          obtain ⟨v, call, r, hrun, hstdout, hcommand, hworld, hran, hcapture, hexec⟩ :=
            hl.exec_known hknown hfuel s
          have hrest := ih h v
          rw [hworld, hcapture] at hrest
          rw [hrun]
          refine capturesAs_bind hexec hran (fun later hlater => ⟨?_, ?_⟩) hrest
          · rw [List.filter_cons_of_pos hknown]
            exact List.Forall₂.cons ⟨_, hcommand⟩ hlater.commands
          · rw [List.filterMap_cons_some (b := stdoutOf r.1) (by rfl), ← hstdout, ← hlater.outs]
            rfl
        | false =>
          obtain ⟨v, hrun, hworld, hran, hcapture, hexec⟩ := hl.exec_unknown hknown hfuel s
          have hrest := ih h v
          rw [hworld, hcapture] at hrest
          rw [hrun]
          refine capturesAs_bind hexec (hran.trans (List.append_nil _).symm)
            (fun later hlater => ⟨?_, ?_⟩) hrest
          · rw [List.filter_cons_of_neg (by rw [hknown]; exact Bool.false_ne_true)]
            exact hlater.commands
          · rw [List.filterMap_cons_none (by rfl)]
            exact hlater.outs

/-- `echo` with one argument that is not looked at further. -/
def sampleEcho : SubstitutedCommand String := ⟨fun _ => ["echo", "a"], fun _ => ⟨"echo", ["a"]⟩, true⟩

/-- No such command. -/
def sampleNope : SubstitutedCommand String := ⟨fun _ => ["nope"], fun _ => ⟨"nope", []⟩, false⟩

/-- A line of words is read to the same command in every state of the sample session. -/
theorem sample_of {l : SubstitutedCommand String} {line : String} (toks : List String)
    (hlex : lex line = ⟨toks, false⟩) (hne : toks ≠ [])
    (hwords : ∀ tok ∈ toks, classify sampleEnviron tok = .word tok)
    (hmerge : mergeRedirectionTokens asciiDigits toks = toks)
    (htokens : ∀ w, l.tokens w = toks)
    (hparse : ∀ w, Parses sampleEnv sampleEnviron toks [l.command w])
    (hfound : ∀ w, (sampleCommand (l.command w).name).isSome = l.known) :
    l.Of sampleEnv 9 line := by
  intro s
  have hread := reads_words sampleEnv (subshellOf sampleEnv s.world) 9 toks rfl hlex hne
    hwords s
  refine ⟨⟨s.segment, toks⟩, ⟨_, hread, ?_⟩, (htokens s.world).symm, hparse s.world, ?_⟩
  · rw [mergePending, List.map_singleton]
    exact congrArg (fun toks => [(⟨s.segment, toks⟩ : Pending)]) hmerge
  · cases hknown : l.known with
    | true => exact fun _ => (hfound s.world).trans hknown
    | false => exact fun _ => Option.isNone_iff_eq_none.mp (by
        have hnone : (sampleCommand (l.command s.world).name).isSome = false :=
          (hfound s.world).trans hknown
        rw [Option.isSome_eq_false_iff] at hnone
        exact hnone)

theorem sampleEcho_of : sampleEcho.Of sampleEnv 9 "echo a" :=
  sample_of ["echo", "a"] (by decide +kernel) (by decide) (by decide +kernel)
    (by decide +kernel) (fun _ => rfl)
    (fun _ => (by decide +kernel : Parses sampleEnv sampleEnviron ["echo", "a"] [⟨"echo", ["a"]⟩]))
    (fun _ => rfl)

theorem sampleNope_of : sampleNope.Of sampleEnv 9 "nope" :=
  sample_of ["nope"] (by decide +kernel) (by decide) (by decide +kernel)
    (by decide +kernel) (fun _ => rfl)
    (fun _ => (by decide +kernel : Parses sampleEnv sampleEnviron ["nope"] [⟨"nope", []⟩]))
    (fun _ => rfl)

end Cowrie.Shell
