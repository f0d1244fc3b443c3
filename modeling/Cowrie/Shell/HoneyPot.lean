import Cowrie.Shell.Pipe
import Cowrie.Shell.Shlex

/-!
# The shell (`src/cowrie/shell/honeypot.py`, `command.py`, `protocol.py:288-296`)

`lineReceived` reads the tokens of a line, runs substitutions and subshells as it meets them, and
queues the other commands (`cmdpending`); then `runCommand` and `callCommand` work the queue off.

* Commands are synchronous, so only the shell on top of `cmdstack` reads or writes a queue: `cmdpending`
  is passed along the calls, and the stack is its height `depth`. `callCommand` is
  `call_command` with the `exit` of the command in it: `resume` runs the queue before the next
  stage of the pipeline is called.
* `fuel` bounds the depth of the calls, as the recursion limit of the interpreter does; running out
  of it is a `RecursionError`.
* A substitution runs its commands in a new shell through `lineReceived` again; the functions
  that do so take that call as the parameter `nested`.

Left out: log messages, TAB completion and the control keys.
-/

namespace Cowrie.Shell

open Cowrie.Lib PipeProtocol

/-- A `HoneyPotShell`. -/
structure HoneyPotShell where
  interactive : Bool := true
  redirect : Bool := false
  environ : Environ

/-- A queued command line, with the number of its command in the outermost line. -/
structure Pending where
  segment : Nat
  tokens : List String
  deriving DecidableEq, Repr

variable {ω : Type} (env : Env ω)

/-! ## Running a queue (`honeypot.py:354-531`) -/

/-- `showPrompt`. -/
def showPrompt (self : HoneyPotShell) : ShellM ω Unit := do
  when self.interactive do
    writeTerminal (env.prompt (← get).world)

/-- `transport.processEnded`. -/
def processEnded : ShellM ω Unit := modify fun s => { s with ended := s.ended + 1 }

/-- `key, val = piece.split("=", 1)`. -/
def splitAssignment (piece : String) : String × String :=
  (String.ofList (piece.toList.takeWhile (· ≠ '=')),
    String.ofList ((piece.toList.dropWhile (· ≠ '=')).drop 1))

/-- The assignments before a command. -/
def stripAssignments : List String → Environ → List String × Environ
  | [], environ => ([], environ)
  | piece :: rest, environ =>
    if '=' ∈ piece.toList then
      stripAssignments rest (environ.set (splitAssignment piece).1 (splitAssignment piece).2)
    else (piece :: rest, environ)

/-- An entry of `cmd_array`. -/
structure ParsedCommand where
  command : String
  rargs : List String
  redirects : List RedirOp
  deriving DecidableEq, Repr

/-- A raise of a pure function. -/
def raise {α : Type} : Except PyError α → ShellM ω α
  | .ok a => pure a
  | .error e => throw e

/-- The stages after the first; one without a command is dropped. -/
def parseStages : List (List String) → ShellM ω (List ParsedCommand)
  | [] => pure []
  | cmdArgs :: rest => do
    let (args, ops) ← raise (parseRedirections env.digits cmdArgs)
    let later ← parseStages rest
    match args with
    | [] => return later
    | command :: rargs => return ⟨command, rargs, ops⟩ :: later

/-- `-bash: {}: command not found`. -/
def notFound (command : String) : Bytes := encode ("-bash: " ++ command ++ ": command not found\n")

/-- A protocol without a command, for the sake of its redirections. -/
def newBare (self : HoneyPotShell) (ops : List RedirOp) : ShellM ω (PipeProtocol ω) :=
  PipeProtocol.new env "" (fun _ _ _ w => ([], w)) [] false self.redirect ops

/-- The message for an unknown command goes where its standard error is redirected to. -/
def reportNotFound (self : HoneyPotShell) (cmd : ParsedCommand) : ShellM ω Unit := do
  if cmd.redirects = [] then writeTerminal (notFound cmd.command)
  else
    let temp ← newBare env self cmd.redirects
    let pp := (← get).pp
    modify fun s => { s with pp := [temp] }
    write env (.err (notFound cmd.command))
    modify fun s => { s with pp := pp, redirFiles := s.redirFiles ++ temp.redirectRealFiles }

/-- The loop over `cmd_array`, from its end; `none` when a command is unknown. -/
def buildChain (self : HoneyPotShell) (path : List String) :
    List ParsedCommand → List (PipeProtocol ω) → ShellM ω (Option (List (PipeProtocol ω)))
  | [], chain => pure (some chain)
  | cmd :: rest, chain => do
    match env.getCommand (← get).world cmd.command path with
    | some cmdclass =>
      let pp ← PipeProtocol.new env cmd.command cmdclass cmd.rargs (chain ≠ []) self.redirect
        cmd.redirects
      buildChain self path rest (pp :: chain)
    | none =>
      reportNotFound env self cmd
      return none

/-- `runCommand` up to the call: the pipeline to run, or none if there is nothing to call;
`last` is `not self.cmdpending`. -/
def prepare (self : HoneyPotShell) (tokens : List String) (last : Bool) :
    ShellM ω (Option (List (PipeProtocol ω))) := do
  let (cmdTokens, environ) := stripAssignments tokens self.environ
  match cmdTokens.splitOn "|" with
  | first :: stages =>
    let (args, ops) ← raise (parseRedirections env.digits first)
    match args with
    | [] =>
      -- a redirection without a command only creates the file
      when (ops ≠ []) do
        let _ ← newBare env self ops
      return none
    | command :: rargs =>
      let later ← parseStages env stages
      match ← buildChain env self environ.path (⟨command, rargs, ops⟩ :: later).reverse [] with
      | none =>
        when (env.execProtocol ∧ last) processEnded
        return none
      | some chain =>
        return if chain.any (·.redirectionError) then none else some chain
  | [] => return none

/-- `runCommand` with nothing queued. -/
def afterLast (self : HoneyPotShell) : ShellM ω Unit := do
  match (← get).pp with
  | [] => throw .attributeError
  | _ :: next =>
    when (next = []) do
      if self.interactive then showPrompt env self
      else when ((← get).depth = 1) processEnded

/-- `obj = cmd(self, *args)`, `obj.set_input_data`, `obj.call()` and the start of `obj.exit()`. -/
def start (self : HoneyPotShell) (chain : List (PipeProtocol ω)) : ShellM ω Unit := do
  match chain with
  | [] => pure ()
  | pp :: _ =>
    modify fun s => { s with pp := chain }
    let s ← get
    let (writes, world) := pp.cmd pp.cmdargs self.environ pp.inputData s.world
    modify fun s => { s with
      world := world
      ran := s.ran ++ [⟨s.segment, pp.name, pp.cmdargs, pp.inputData, stdoutOf writes⟩] }
    writes.forM (write env)
    modify fun s => { s with redirFiles := s.redirFiles ++ pp.redirectRealFiles }

mutual

/-- `runCommand`, with `runOrPrompt`. -/
def runCommand (self : HoneyPotShell) : Nat → List Pending → ShellM ω Unit
  | 0, _ => throw .recursionError
  | _ + 1, [] => afterLast env self
  | fuel + 1, p :: pending => do
    modify fun s => { s with segment := if self.redirect then s.segment else p.segment }
    match ← prepare env self p.tokens (pending = []) with
    | some chain => callCommand self fuel chain pending
    | none => if pending = [] then showPrompt env self else runCommand self fuel pending

/-- `call_command`: start the first stage; its exit resumes the shell; then the next stage. -/
def callCommand (self : HoneyPotShell) : Nat → List (PipeProtocol ω) → List Pending → ShellM ω Unit
  | 0, _, _ => throw .recursionError
  | fuel + 1, chain, pending => do
    start env self chain
    runCommand self fuel pending
    match (← get).pp with
    | _ :: pp :: next => callCommand self fuel (pp :: next) []
    | _ => pure ()

end

end Cowrie.Shell
