import Cowrie.Shell.Line

/-!
# The stages of a pipeline without redirections

What `prepare` builds for a pipeline of known commands (`prepare_plain`), and what starting one of
its stages does (`exec_start`): the bytes written to standard output become the input of the next
stage, or the terminal's, or, in the shell of a substitution, stay in `redirected_data`, whatever
comes next (`pipe.py:64-73`).
-/

namespace Cowrie.Shell

open Cowrie.Lib PipeProtocol

variable {ω : Type} {env : Env ω}

/-- A command as it is written: its name and its arguments. -/
structure SimpleCommand where
  name : String
  args : List String
  deriving DecidableEq, Repr

/-- The `PATH` a command line is looked up with. -/
def pathOf (environ : Environ) (tokens : List String) : List String :=
  (stripAssignments tokens environ).2.path

/-- The tokens are a pipeline of simple commands without redirections. -/
def Parses (env : Env ω) (environ : Environ) (tokens : List String) (p : List SimpleCommand) : Prop :=
  ((stripAssignments tokens environ).1.splitOn "|").map (parseRedirections env.digits) =
    p.map fun c => .ok (c.name :: c.args, [])

instance (env : Env ω) (environ : Environ) (tokens : List String) (p : List SimpleCommand) :
    Decidable (Parses env environ tokens p) := inferInstanceAs (Decidable (_ = _))

/-- A known command: it is found in every world. -/
def Known (env : Env ω) (path : List String) (c : SimpleCommand) : Prop :=
  ∀ w, (env.getCommand w c.name path).isSome

/-- An unknown command name. -/
def Unknown (env : Env ω) (path : List String) (c : SimpleCommand) : Prop :=
  ∀ w, env.getCommand w c.name path = none

/-- The stages of a pipeline without redirections, before any of them runs. -/
inductive PlainChain (redirect : Bool) : List SimpleCommand → List (PipeProtocol ω) → Prop
  | nil : PlainChain redirect [] []
  | cons (c : SimpleCommand) (cmd : Command ω) (input : Option Bytes) {cs : List SimpleCommand}
      {chain : List (PipeProtocol ω)} (h : PlainChain redirect cs chain) :
      PlainChain redirect (c :: cs)
        ({ name := c.name, cmd := cmd, cmdargs := c.args, inputData := input, redirect := redirect,
           targets := defaultTargets (chain ≠ []) redirect } :: chain)

theorem PlainChain.no_error {redirect : Bool} {cs : List SimpleCommand}
    {chain : List (PipeProtocol ω)} (h : PlainChain redirect cs chain) :
    chain.any (·.redirectionError) = false := by
  induction h with
  | nil => rfl
  | cons c cmd input _ ih => rw [List.any_cons, ih]; rfl

/-! ## Building the chain -/

theorem exec_new (name : String) (cmd : Command ω) (args : List String) (hasNext redirect : Bool)
    (s : Protocol ω) :
    exec (PipeProtocol.new env name cmd args hasNext redirect []) s =
      (.ok { name := name, cmd := cmd, cmdargs := args, redirect := redirect,
             targets := defaultTargets hasNext redirect }, s) := rfl

/-- The commands of a chain are those found in the world `w`. -/
def FoundIn (env : Env ω) (path : List String) (w : ω) (chain : List (PipeProtocol ω)) : Prop :=
  ∀ q ∈ chain, env.getCommand w q.name path = some q.cmd ∧ q.inputData = none

theorem exec_buildChain (self : HoneyPotShell) (path : List String) (s : Protocol ω)
    (cmds : List SimpleCommand) (hknown : ∀ c ∈ cmds, Known env path c)
    {cs : List SimpleCommand} {chain : List (PipeProtocol ω)}
    (h : PlainChain self.redirect cs chain) (hfound : FoundIn env path s.world chain) :
    ∃ chain', exec (buildChain env self path (cmds.map fun c => ⟨c.name, c.args, []⟩) chain) s =
      (.ok (some chain'), s) ∧ PlainChain self.redirect (cmds.reverse ++ cs) chain' ∧
      FoundIn env path s.world chain' := by
  induction cmds generalizing cs chain with
  | nil => exact ⟨chain, rfl, h, hfound⟩
  | cons c cmds ih =>
    obtain ⟨cmd, hcmd⟩ := Option.isSome_iff_exists.mp (hknown c List.mem_cons_self s.world)
    obtain ⟨chain', hexec, hplain, hfound'⟩ := ih (fun d hd => hknown d (List.mem_cons_of_mem _ hd))
      (PlainChain.cons c cmd none h) (by
        intro q hq
        rcases List.mem_cons.mp hq with rfl | hq
        · exact ⟨hcmd, rfl⟩
        · exact hfound q hq)
    refine ⟨chain', ?_, by rwa [List.reverse_cons, List.append_assoc], hfound'⟩
    rw [List.map_cons]
    unfold buildChain
    rw [exec_get_bind, hcmd]
    simp only
    rw [exec_bind_ok (exec_new _ _ _ _ _ s)]
    exact hexec

theorem exec_raise_ok {α : Type} (a : α) (s : Protocol ω) :
    exec (raise (.ok a) : ShellM ω α) s = (.ok a, s) := rfl

theorem exec_parseStages {stages : List (List String)} {cs : List SimpleCommand}
    (h : stages.map (parseRedirections env.digits) = cs.map fun c => .ok (c.name :: c.args, []))
    (s : Protocol ω) :
    exec (parseStages env stages) s = (.ok (cs.map fun c => ⟨c.name, c.args, []⟩), s) := by
  induction stages generalizing cs with
  | nil =>
    obtain rfl : cs = [] := List.map_eq_nil_iff.mp h.symm
    rfl
  | cons stage stages ih =>
    cases cs with
    | nil => exact absurd h (List.cons_ne_nil _ _)
    | cons c cs =>
      obtain ⟨hfirst, hrest⟩ := List.cons.inj h
      unfold parseStages
      rw [hfirst, exec_bind_ok (exec_raise_ok _ s)]
      simp only
      rw [exec_bind_ok (ih hrest)]
      rfl

/-- **A pipeline of known commands without redirections is built, and nothing else happens.** -/
theorem prepare_plain {self : HoneyPotShell} {tokens : List String} {p : List SimpleCommand}
    (hparse : Parses env self.environ tokens p)
    (hknown : ∀ c ∈ p, Known env (pathOf self.environ tokens) c) (last : Bool) (s : Protocol ω) :
    ∃ chain, exec (prepare env self tokens last) s = (.ok (some chain), s) ∧
      PlainChain self.redirect p chain ∧
      FoundIn env (pathOf self.environ tokens) s.world chain := by
  unfold Parses at hparse
  unfold prepare
  unfold pathOf at hknown ⊢
  generalize stripAssignments tokens self.environ = stripped at *
  obtain ⟨cmdTokens, environ⟩ := stripped
  simp only at hparse hknown ⊢
  generalize hsplit : cmdTokens.splitOn "|" = stages at *
  cases stages with
  | nil => exact absurd hsplit (List.splitOn_ne_nil _ _)
  | cons first stages =>
    obtain ⟨c, cs, rfl⟩ : ∃ c cs, p = c :: cs := by
      cases p with
      | nil => exact absurd hparse (List.cons_ne_nil _ _)
      | cons c cs => exact ⟨c, cs, rfl⟩
    obtain ⟨hfirst, hrest⟩ := List.cons.inj hparse
    simp only
    rw [hfirst, exec_bind_ok (exec_raise_ok _ s)]
    simp only
    rw [exec_bind_ok (exec_parseStages hrest s)]
    obtain ⟨chain, hchain, hplain, hfound⟩ := exec_buildChain self environ.path s (c :: cs).reverse
      (fun d hd => hknown d (List.mem_reverse.mp hd)) PlainChain.nil (by
        intro q hq
        exact absurd hq List.not_mem_nil)
    rw [List.map_reverse, List.map_cons] at hchain
    rw [exec_bind_ok hchain]
    rw [List.reverse_reverse, List.append_nil] at hplain
    refine ⟨chain, ?_, hplain, hfound⟩
    simp only [hplain.no_error]
    rfl

/-! ## Starting a stage -/

/-- What writes leave alone. -/
structure Kept (s u : Protocol ω) : Prop where
  world : u.world = s.world
  depth : u.depth = s.depth
  segment : u.segment = s.segment
  ran : u.ran = s.ran

theorem Kept.refl (s : Protocol ω) : Kept s s := ⟨rfl, rfl, rfl, rfl⟩

theorem Kept.trans {s t u : Protocol ω} (h : Kept s t) (h' : Kept t u) : Kept s u :=
  ⟨h'.world.trans h.world, h'.depth.trans h.depth, h'.segment.trans h.segment,
    h'.ran.trans h.ran⟩

/-- The stages after a writer got the bytes `d`, the first of them as input. -/
inductive Fed (d : Bytes) : List (PipeProtocol ω) → List (PipeProtocol ω) → Prop
  | nil : Fed d [] []
  | cons (q : PipeProtocol ω) (input : Option Bytes) (rest : List (PipeProtocol ω))
      (h : input.getD [] = q.inputData.getD [] ++ d) :
      Fed d (q :: rest) ({ q with inputData := input } :: rest)

theorem Fed.refl (chain : List (PipeProtocol ω)) : Fed [] chain chain := by
  cases chain with
  | nil => exact Fed.nil
  | cons q rest => exact Fed.cons q q.inputData rest (by simp)

theorem Fed.trans {d e : Bytes} {a b c : List (PipeProtocol ω)} (h : Fed d a b) (h' : Fed e b c) :
    Fed (d ++ e) a c := by
  cases h with
  | nil =>
    cases h' with
    | nil => exact Fed.nil
  | cons q input rest hin =>
    cases h' with
    | cons _ input' _ hin' =>
      refine Fed.cons q input' rest ?_
      rw [hin', ← List.append_assoc, ← hin]

theorem Fed.nil_iff {d : Bytes} {a b : List (PipeProtocol ω)} (h : Fed d a b) : b = [] ↔ a = [] := by
  cases h <;> simp

/-- The stages after a writer of `d`: fed, or left alone when the output is captured. -/
def Handed (redirect : Bool) (d : Bytes) (rest rest' : List (PipeProtocol ω)) : Prop :=
  if redirect then rest' = rest else Fed d rest rest'

theorem Handed.refl (redirect : Bool) (rest : List (PipeProtocol ω)) :
    Handed redirect [] rest rest := by
  cases redirect with
  | true => rfl
  | false => exact Fed.refl rest

theorem Handed.trans {redirect : Bool} {d e : Bytes} {a b c : List (PipeProtocol ω)}
    (h : Handed redirect d a b) (h' : Handed redirect e b c) : Handed redirect (d ++ e) a c := by
  cases redirect with
  | true => exact Eq.trans h' h
  | false => exact Fed.trans h h'

theorem Handed.nil_iff {redirect : Bool} {d : Bytes} {a b : List (PipeProtocol ω)}
    (h : Handed redirect d a b) : b = [] ↔ a = [] := by
  cases redirect with
  | true => rw [show b = a from h]
  | false => exact Fed.nil_iff h

theorem Handed.plain {redirect : Bool} {d : Bytes} {cs : List SimpleCommand}
    {a b : List (PipeProtocol ω)} (h : Handed redirect d a b) (ha : PlainChain redirect cs a) :
    PlainChain redirect cs b := by
  cases redirect with
  | true => rwa [show b = a from h]
  | false =>
    cases (show Fed d a b from h) with
    | nil => exact ha
    | cons q input rest hin =>
      cases ha with
      | cons c cmd _ hrest => exact PlainChain.cons c cmd input hrest

/-- The stage `p` has written `d` to standard output. -/
structure Wrote (redirect : Bool) (d : Bytes) (p : PipeProtocol ω) (rest : List (PipeProtocol ω))
    (p' : PipeProtocol ω) (rest' : List (PipeProtocol ω)) : Prop where
  targets : p'.targets = p.targets
  captured : p'.redirectedData = p.redirectedData ++ if redirect then d else []
  handed : Handed redirect d rest rest'

theorem Wrote.refl (redirect : Bool) (p : PipeProtocol ω) (rest : List (PipeProtocol ω)) :
    Wrote redirect [] p rest p rest :=
  ⟨rfl, by cases redirect <;> simp, Handed.refl redirect rest⟩

theorem Wrote.trans {redirect : Bool} {d e : Bytes} {p p' p'' : PipeProtocol ω}
    {rest rest' rest'' : List (PipeProtocol ω)} (h : Wrote redirect d p rest p' rest')
    (h' : Wrote redirect e p' rest' p'' rest'') : Wrote redirect (d ++ e) p rest p'' rest'' := by
  refine ⟨h'.targets.trans h.targets, ?_, h.handed.trans h'.handed⟩
  rw [h'.captured, h.captured]
  cases redirect <;> simp

theorem exec_writeToFd (env : Env ω) {fd : Nat} {data : Bytes} {s : Protocol ω}
    {p : PipeProtocol ω} {rest : List (PipeProtocol ω)} {t : Target} (hpp : s.pp = p :: rest)
    (ht : p.targets fd = some t) :
    exec (writeToFd env fd data) s = exec (match t with
      | .terminal => writeTerminal data
      | .pipe => modify fun s => { s with pp := pipeToNext data s.pp }
      | .capture => modify (modifyHead fun pp =>
          { pp with redirectedData := pp.redirectedData ++ data })
      | .file info => writeToFile env info data (fd = 1)
      | _ => pure ()) s := by
  unfold writeToFd
  rw [exec_get_bind, hpp]
  simp only [ht]
  cases t <;> rfl

/-- Standard error goes to the terminal. -/
theorem exec_write_err (env : Env ω) {redirect : Bool} (d : Bytes) {s : Protocol ω}
    {p : PipeProtocol ω} {rest : List (PipeProtocol ω)} (hpp : s.pp = p :: rest)
    (ht : p.targets = defaultTargets (rest ≠ []) redirect) :
    exec (write env (.err d)) s = (.ok (), { s with
      pp := { p with errData := p.errData ++ d } :: rest
      terminal := s.terminal ++ [(s.segment, d)] }) := by
  unfold write
  rw [exec_modify_bind]
  have hpp' : (modifyHead (fun pp : PipeProtocol ω => { pp with errData := pp.errData ++ d }) s).pp =
      { p with errData := p.errData ++ d } :: rest := by
    simp [modifyHead, hpp]
  have hfd : ({ p with errData := p.errData ++ d } : PipeProtocol ω).targets 2 = some .terminal := by
    simp [ht, defaultTargets]
  rw [exec_writeToFd env hpp' hfd]
  simp [writeTerminal, modifyHead, hpp]

theorem exec_write_out (env : Env ω) {redirect : Bool} (d : Bytes) {s : Protocol ω}
    {p : PipeProtocol ω} {rest : List (PipeProtocol ω)} (hpp : s.pp = p :: rest)
    (ht : p.targets = defaultTargets (rest ≠ []) redirect) :
    exec (write env (.out d)) s = (.ok (),
      if redirect then { s with pp := { p with redirectedData := p.redirectedData ++ d } :: rest }
      else if rest = [] then { s with terminal := s.terminal ++ [(s.segment, d)] }
      else { s with pp := pipeToNext d (p :: rest) }) := by
  unfold write
  cases redirect with
  | true =>
    have hfd : p.targets 1 = some .capture := by simp [ht, defaultTargets]
    rw [exec_writeToFd env hpp hfd]
    simp [modifyHead, hpp]
  | false =>
    by_cases hrest : rest = []
    · have hfd : p.targets 1 = some .terminal := by simp [ht, defaultTargets, hrest]
      rw [exec_writeToFd env hpp hfd]
      simp [writeTerminal, hrest]
    · have hfd : p.targets 1 = some .pipe := by simp [ht, defaultTargets, hrest]
      rw [exec_writeToFd env hpp hfd]
      simp [hpp, hrest]

theorem exec_write (env : Env ω) {redirect : Bool} (w : Write) {s : Protocol ω}
    {p : PipeProtocol ω} {rest : List (PipeProtocol ω)} (hpp : s.pp = p :: rest)
    (ht : p.targets = defaultTargets (rest ≠ []) redirect) :
    ∃ u p' rest', exec (write env w) s = (.ok (), u) ∧ Kept s u ∧ u.pp = p' :: rest' ∧
      Wrote redirect (stdoutOf [w]) p rest p' rest' := by
  cases w with
  | err d =>
    refine ⟨_, _, _, exec_write_err env d hpp ht, ⟨rfl, rfl, rfl, rfl⟩, rfl, rfl, ?_,
      Handed.refl redirect rest⟩
    cases redirect <;> simp [stdoutOf]
  | out d =>
    have hout := exec_write_out env d hpp ht
    cases redirect with
    | true =>
      refine ⟨_, _, _, hout, ⟨rfl, rfl, rfl, rfl⟩, rfl, rfl, ?_, rfl⟩
      simp [stdoutOf]
    | false =>
      cases rest with
      | nil => exact ⟨_, p, [], hout, ⟨rfl, rfl, rfl, rfl⟩, hpp, rfl, by simp, Fed.nil⟩
      | cons q rs =>
        refine ⟨_, p, _, hout, ⟨rfl, rfl, rfl, rfl⟩, rfl, rfl, by simp, Fed.cons q _ rs ?_⟩
        simp [stdoutOf]

theorem stdoutOf_cons (w : Write) (ws : List Write) :
    stdoutOf (w :: ws) = stdoutOf [w] ++ stdoutOf ws := by
  simp [stdoutOf]

/-- **All writes of a command.** -/
theorem exec_writes (env : Env ω) {redirect : Bool} (ws : List Write) {s : Protocol ω}
    {p : PipeProtocol ω} {rest : List (PipeProtocol ω)} (hpp : s.pp = p :: rest)
    (ht : p.targets = defaultTargets (rest ≠ []) redirect) :
    ∃ u p' rest', exec (ws.forM (write env)) s = (.ok (), u) ∧ Kept s u ∧ u.pp = p' :: rest' ∧
      Wrote redirect (stdoutOf ws) p rest p' rest' := by
  induction ws generalizing s p rest with
  | nil => exact ⟨s, p, rest, rfl, Kept.refl s, hpp, Wrote.refl redirect p rest⟩
  | cons w ws ih =>
    obtain ⟨u, p₁, rest₁, hw, hkept, hu, hwrote⟩ := exec_write env w hpp ht
    have hne : (rest₁ ≠ []) = (rest ≠ []) := by rw [ne_eq, hwrote.handed.nil_iff]
    obtain ⟨v, p₂, rest₂, hws, hkept', hv, hwrote'⟩ := ih hu (by
      rw [hwrote.targets, ht]
      simp only [hne])
    refine ⟨v, p₂, rest₂, ?_, hkept.trans hkept', hv, stdoutOf_cons w ws ▸ hwrote.trans hwrote'⟩
    change exec (write env w >>= fun _ => ws.forM (write env)) s = _
    rw [exec_bind_ok hw, hws]

/-- What `call` of a stage does, on its input and in the world `w`. -/
def result (environ : Environ) (p : PipeProtocol ω) (w : ω) : List Write × ω :=
  p.cmd p.cmdargs environ p.inputData w

/-- The call of a stage, as it is recorded. -/
def callOf (environ : Environ) (segment : Nat) (p : PipeProtocol ω) (w : ω) : Ran :=
  ⟨segment, p.name, p.cmdargs, p.inputData, stdoutOf (result environ p w).1⟩

/-- The stage `p` has run from the state `s`, and `p' :: rest'` are the protocols after it. -/
structure Started (shell : HoneyPotShell) (p : PipeProtocol ω) (rest : List (PipeProtocol ω))
    (s u : Protocol ω) (p' : PipeProtocol ω) (rest' : List (PipeProtocol ω)) : Prop where
  world : u.world = (result shell.environ p s.world).2
  ran : u.ran = s.ran ++ [callOf shell.environ s.segment p s.world]
  depth : u.depth = s.depth
  segment : u.segment = s.segment
  pp : u.pp = p' :: rest'
  captured : p'.redirectedData =
    if shell.redirect then stdoutOf (result shell.environ p s.world).1 else []
  handed : Handed shell.redirect (stdoutOf (result shell.environ p s.world).1) rest rest'

/-- **Starting the first stage of a chain**: the command runs once, on its input, and what it
writes to standard output is fed to the next stage, or captured. -/
theorem exec_start (env : Env ω) (self : HoneyPotShell) {c : SimpleCommand}
    {cs : List SimpleCommand} {p : PipeProtocol ω} {rest : List (PipeProtocol ω)}
    (h : PlainChain self.redirect (c :: cs) (p :: rest)) (s : Protocol ω) :
    ∃ u p' rest', exec (start env self (p :: rest)) s = (.ok (), u) ∧
      Started self p rest s u p' rest' := by
  have htargets : p.targets = defaultTargets (rest ≠ []) self.redirect := by
    cases h
    rfl
  have hdata : p.redirectedData = [] := by
    cases h
    rfl
  have hfiles : p.redirectRealFiles = [] := by
    cases h
    rfl
  unfold start
  rw [exec_modify_bind, exec_get_bind]
  simp only
  rw [exec_modify_bind]
  obtain ⟨u, p', rest', hws, hkept, hu, hwrote⟩ := exec_writes env
    (result self.environ p s.world).1 (s := { s with
      pp := p :: rest
      world := (result self.environ p s.world).2
      ran := s.ran ++ [callOf self.environ s.segment p s.world] }) rfl htargets
  refine ⟨u, p', rest', ?_, hkept.world, hkept.ran, hkept.depth, hkept.segment, hu, ?_,
    hwrote.handed⟩
  · refine (exec_bind_ok hws).trans ?_
    simp [hfiles]
  · rw [hwrote.captured, hdata, List.nil_append]

/-! ## The stages of a pipeline, one after the other -/

/-- The calls of the stages of a chain from the world `w`: each is handed the output of the one
before it, or nothing when output is captured. -/
inductive Calls (redirect : Bool) (environ : Environ) (segment : Nat) :
    List (PipeProtocol ω) → ω → List Ran → ω → Prop
  | nil (w : ω) : Calls redirect environ segment [] w [] w
  | cons {p : PipeProtocol ω} {rest rest' : List (PipeProtocol ω)} {w w' : ω} {calls : List Ran}
      (handed : Handed redirect (stdoutOf (result environ p w).1) rest rest')
      (h : Calls redirect environ segment rest' (result environ p w).2 calls w') :
      Calls redirect environ segment (p :: rest) w (callOf environ segment p w :: calls) w'

/-- Nothing is queued: at most a prompt is written. -/
theorem exec_afterLast (env : Env ω) (self : HoneyPotShell) {s : Protocol ω} {p : PipeProtocol ω}
    {rest : List (PipeProtocol ω)} (hpp : s.pp = p :: rest) :
    ∃ u, exec (afterLast env self) s = (.ok (), u) ∧ Kept s u ∧ u.pp = p :: rest := by
  unfold afterLast
  rw [exec_get_bind, hpp]
  simp only
  unfold when showPrompt when processEnded writeTerminal
  split
  · split
    · exact ⟨_, rfl, ⟨rfl, rfl, rfl, rfl⟩, hpp⟩
    · rw [exec_get_bind]
      split
      · exact ⟨_, rfl, ⟨rfl, rfl, rfl, rfl⟩, hpp⟩
      · exact ⟨s, rfl, Kept.refl s, hpp⟩
  · exact ⟨s, rfl, Kept.refl s, hpp⟩

theorem callCommand_succ (env : Env ω) (self : HoneyPotShell) (fuel : Nat)
    (chain : List (PipeProtocol ω)) (pending : List Pending) :
    callCommand env self (fuel + 1) chain pending = (do
      start env self chain
      runCommand env self fuel pending
      match (← get).pp with
      | _ :: pp :: next => callCommand env self fuel (pp :: next) []
      | _ => pure ()) := rfl

/-- A stage with nothing queued: it runs, and then the next one does. -/
theorem exec_callCommand_nil (env : Env ω) (self : HoneyPotShell) {c : SimpleCommand}
    {cs : List SimpleCommand} {p : PipeProtocol ω} {rest : List (PipeProtocol ω)}
    (h : PlainChain self.redirect (c :: cs) (p :: rest)) (fuel : Nat) (s : Protocol ω) :
    ∃ u p' rest', Started self p rest s u p' rest' ∧
      exec (callCommand env self (fuel + 2) (p :: rest) []) s =
        if rest' = [] then (.ok (), u) else exec (callCommand env self (fuel + 1) rest' []) u := by
  obtain ⟨u, p', rest', hstart, hstarted⟩ := exec_start env self h s
  obtain ⟨v, hlast, hkept, hv⟩ := exec_afterLast env self hstarted.pp
  refine ⟨v, p', rest', ⟨hkept.world.trans hstarted.world, hkept.ran.trans hstarted.ran,
    hkept.depth.trans hstarted.depth, hkept.segment.trans hstarted.segment, hv, hstarted.captured,
    hstarted.handed⟩, ?_⟩
  rw [callCommand_succ, exec_bind_ok hstart]
  refine (exec_bind_ok hlast).trans ?_
  rw [exec_get_bind, hv]
  cases rest' with
  | nil => rfl
  | cons q rest' => rfl

/-- **With nothing queued, all stages of a chain run in order.** -/
theorem exec_callCommand_last (env : Env ω) (self : HoneyPotShell) {c : SimpleCommand}
    {cs : List SimpleCommand} {chain : List (PipeProtocol ω)}
    (h : PlainChain self.redirect (c :: cs) chain) {fuel : Nat} (hfuel : cs.length + 1 < fuel)
    (s : Protocol ω) :
    ∃ u p' calls last, exec (callCommand env self fuel chain []) s = (.ok (), u) ∧
      u.pp = [p'] ∧ u.depth = s.depth ∧ u.ran = s.ran ++ calls ∧
      Calls self.redirect self.environ s.segment chain s.world calls u.world ∧
      calls.getLast? = some last ∧
      p'.redirectedData = if self.redirect then last.stdout else [] := by
  obtain ⟨fuel, rfl⟩ : ∃ k, fuel = k + 2 := ⟨fuel - 2, by omega⟩
  induction cs generalizing c chain fuel s with
  | nil =>
    cases h with
    | cons c cmd input hrest =>
      cases hrest
      obtain ⟨u, p', rest', hstarted, hexec⟩ := exec_callCommand_nil env self
        (PlainChain.cons c cmd input PlainChain.nil) fuel s
      have hnil : rest' = [] := hstarted.handed.nil_iff.mpr rfl
      rw [if_pos hnil] at hexec
      refine ⟨u, p', _, _, hexec, hnil ▸ hstarted.pp, hstarted.depth, hstarted.ran, ?_, rfl,
        hstarted.captured⟩
      rw [hstarted.world]
      exact Calls.cons (hnil ▸ hstarted.handed) (Calls.nil _)
  | cons d cs ih =>
    cases h with
    | cons c cmd input hrest =>
      obtain ⟨u, p', rest', hstarted, hexec⟩ := exec_callCommand_nil env self
        (PlainChain.cons c cmd input hrest) fuel s
      have hplain := hstarted.handed.plain hrest
      have hne : rest' ≠ [] := by
        rintro rfl
        cases hplain
      rw [if_neg hne] at hexec
      obtain ⟨fuel, rfl⟩ : ∃ k, fuel = k + 1 := ⟨fuel - 1, by
        rw [List.length_cons] at hfuel
        omega⟩
      obtain ⟨v, p'', calls, last, hexec', hv, hdepth, hran, hcalls, hlast, hdata⟩ := ih hplain u fuel (by
        rw [List.length_cons] at hfuel
        omega)
      refine ⟨v, p'', _ :: calls, last, hexec.trans hexec', hv, hdepth.trans hstarted.depth, ?_,
        Calls.cons hstarted.handed ?_, ?_, hdata⟩
      · rw [hran, hstarted.ran, List.append_assoc]
        rfl
      · rw [← hstarted.segment, ← hstarted.world]
        exact hcalls
      · rw [List.getLast?_cons, hlast]
        rfl

/-! ## A line that has been read -/

/-- What the token loop makes of a line. -/
def afterReading (env : Env ω) (fuel : Nat) (self : HoneyPotShell) (line : String)
    (s : Protocol ω) : Except PyError Reading × Protocol ω :=
  exec (readTokens env (lineReceived env fuel) self fuel ((lex line).tokens.length + 1)
    { lexer := lex line }) s

/-- The tokens of the line are read without an exception, from the state `s` to the state `u`, and
leave these commands queued. -/
def Reads (env : Env ω) (fuel : Nat) (self : HoneyPotShell) (line : String) (s u : Protocol ω)
    (pending : List Pending) : Prop :=
  env.router line = none ∧
    ∃ r, afterReading env fuel self line s = (.ok r, u) ∧ r.pending = pending

theorem reads_afterReading {env : Env ω} {fuel : Nat} {self : HoneyPotShell} {line : String}
    {s : Protocol ω} {pending : List Pending} (hrouter : env.router line = none)
    (h : (afterReading env fuel self line s).1.map (·.pending) = .ok pending) :
    Reads env fuel self line s (afterReading env fuel self line s).2 pending := by
  cases hexec : afterReading env fuel self line s with
  | mk r u =>
    rw [hexec] at h
    cases r with
    | error e => cases h
    | ok r => exact ⟨hrouter, r, hexec, Except.ok.inj h⟩

theorem exec_lineReceived {env : Env ω} {fuel : Nat} {self : HoneyPotShell} {line : String}
    {s u : Protocol ω} {pending : List Pending} (h : Reads env fuel self line s u pending) :
    exec (lineReceived env (fuel + 1) self line) s =
      if pending = [] then exec (showPrompt env self) u
      else exec (runCommand env self fuel (mergePending env pending)) u := by
  obtain ⟨hrouter, r, hread, rfl⟩ := h
  unfold lineReceived
  rw [hrouter]
  simp only
  have hpending : exec (do
      return some (← readTokens env (lineReceived env fuel) self fuel
        ((lex line).tokens.length + 1) { lexer := lex line }).pending : ShellM ω _) s =
      (.ok (some r.pending), u) := exec_bind_ok hread
  rw [exec_bind_ok (exec_tryCatch_ok hpending)]
  cases r.pending with
  | nil => rfl
  | cons p ps => rfl

/-- Words are taken as they are. -/
theorem exec_readTokens_words (env : Env ω) {nested : HoneyPotShell → String → ShellM ω Unit}
    {self : HoneyPotShell} {fuel : Nat} {toks : List String}
    (h : ∀ tok ∈ toks, classify self.environ tok = .word tok) (acc : List String)
    (pending : List Pending) (s : Protocol ω) :
    exec (readTokens env nested self fuel (toks.length + 1) ⟨⟨toks, false⟩, acc, pending⟩) s =
      (.ok (Reading.queue ⟨⟨[], false⟩, acc ++ toks, pending⟩ s.segment), s) := by
  induction toks generalizing acc with
  | nil => rw [List.append_nil]; rfl
  | cons tok toks ih =>
    have hword : exec (readToken env nested self fuel tok ⟨⟨toks, false⟩, acc, pending⟩) s =
        (.ok (some ⟨⟨toks, false⟩, acc ++ [tok], pending⟩), s) := by
      unfold readToken
      rw [h tok List.mem_cons_self]
      rfl
    rw [List.length_cons]
    unfold readTokens
    refine (exec_bind_ok hword).trans ?_
    refine (ih (fun tok' htok => h tok' (List.mem_cons_of_mem _ htok)) (acc ++ [tok])).trans ?_
    rw [List.append_assoc]
    rfl

/-- A line of words. -/
theorem reads_words (env : Env ω) (self : HoneyPotShell) (fuel : Nat) {line : String}
    (toks : List String) (hrouter : env.router line = none) (hlex : lex line = ⟨toks, false⟩)
    (hne : toks ≠ []) (h : ∀ tok ∈ toks, classify self.environ tok = .word tok)
    (s : Protocol ω) : Reads env fuel self line s s [⟨s.segment, toks⟩] := by
  refine ⟨hrouter, Reading.queue ⟨⟨[], false⟩, [] ++ toks, []⟩ s.segment, ?_, ?_⟩
  · unfold afterReading
    rw [hlex]
    exact exec_readTokens_words env h [] [] s
  · rw [List.nil_append, Reading.queue, if_neg hne]
    rfl

/-! ## A session to try things in -/

/-- `echo`, `cat`, `cd` and `pwd`; the world is the working directory. -/
def sampleCommand : String → Option (Command String)
  | "echo" => some fun args _ _ cwd => ([.out (encode (" ".intercalate args ++ "\n"))], cwd)
  | "cat" => some fun _ _ input cwd => ([.out (input.getD [])], cwd)
  | "cd" => some fun args _ _ _ => ([], args.headD "/")
  | "pwd" => some fun _ _ _ cwd => ([.out (encode (cwd ++ "\n"))], cwd)
  | _ => none

def sampleEnviron : Environ := .withPath "/bin"

def sampleEnv : Env String where
  getCommand _ name _ := sampleCommand name
  environ _ := sampleEnviron
  prepareOutputFile cwd _ _ := (.devnull, cwd)
  stdinContents _ _ := .ok []
  appendFile cwd _ _ := some cwd
  updateSize cwd _ _ := cwd

theorem known_sampleEnv {path : List String} {p : List SimpleCommand}
    (h : ∀ c ∈ p, (sampleCommand c.name).isSome) : ∀ c ∈ p, Known sampleEnv path c :=
  fun c hc _ => h c hc

/-- The interactive shell of the session. -/
def sampleShell : HoneyPotShell := { environ := sampleEnviron }

def samplePrompt : Protocol String := { world := "/root" }

end Cowrie.Shell
