import Cowrie.Bytes
import Cowrie.Lib.Program
import Cowrie.Shell.Parser
import Mathlib.Logic.Function.Basic

/-!
# Where a command writes (`src/cowrie/shell/pipe.py`)

A `PipeProtocol` stands between a command and the session: its table of file descriptors says
where standard output and standard error go. The stages of a pipeline are chained by
`next_command`; here a `PipeProtocol` together with those after it is a list, and `protocol.pp`
(the protocol of the command called last) is such a list.

* The file system, the registry of commands and the scalpel router are the parameters of `Env`, over
  a type `ω` of worlds (the file system, the working directory, whatever commands change).
* A command is synchronous: `start` is `call` and then `exit`. `Command` is its `call`: what it writes,
  in order, and the world it leaves; the writes reach their files after it.
* `ran`, `segment` and the labels on terminal output are ghost state: which commands ran, with
  what input, and which command of the outermost line they belong to.

Left out: log messages, the insert mode of the terminal, `processExited` and `insert_command`.
-/

namespace Cowrie.Shell

open Cowrie.Lib

/-- A copy of `protocol.environ`, in which `PATH` is set (`session.py:39-49`). -/
structure Environ where
  vars : List (String × String)
  hasPath : (vars.lookup "PATH").isSome

namespace Environ

def get? (e : Environ) (key : String) : Option String := e.vars.lookup key

/-- `environ["PATH"].split(":")`. -/
def path (e : Environ) : List String := ((e.vars.lookup "PATH").get e.hasPath).splitOn ":"

/-- Only `PATH` is set. -/
def withPath (path : String) : Environ := ⟨[("PATH", path)], rfl⟩

/-- `environ[key] = val`. -/
def set (e : Environ) (key val : String) : Environ where
  vars := (key, val) :: e.vars
  hasPath := by
    rw [List.lookup_cons]
    split
    · rfl
    · exact e.hasPath

end Environ

/-- One write of a command. -/
inductive Write
  | out (data : Bytes)
  | err (data : Bytes)
  deriving DecidableEq, Repr

/-- What goes to standard output. -/
def stdoutOf (writes : List Write) : Bytes :=
  writes.flatMap fun
    | .out data => data
    | .err _ => []

/-- `call`: arguments, environment, `input_data` and world to the writes and the next world. -/
abbrev Command (ω : Type) := List String → Environ → Option Bytes → ω → List Write × ω

/-- A file that output is redirected to. -/
structure OutputFile where
  virtual : String
  real : String
  startSize : Nat
  deriving DecidableEq, Repr

/-- The outcome of `_prepare_output_file`; `failed` may emit a message. -/
inductive Prepared
  | devnull
  | file (info : OutputFile)
  | failed (message : Option String)
  deriving DecidableEq, Repr

/-- What the shell uses of the rest of the program. -/
structure Env (ω : Type) where
  digits : Digits := asciiDigits
  getCommand : ω → String → List String → Option (Command ω)
  environ : ω → Environ
  router : String → Option String := fun _ => none
  prompt : ω → Bytes := fun _ => []
  /-- The protocol is a `HoneyPotExecProtocol`. -/
  execProtocol : Bool := false
  prepareOutputFile : ω → String → Bool → Prepared × ω
  /-- The contents of a file for `<`, or the message for its absence. -/
  stdinContents : ω → String → Except String Bytes
  /-- Append to a real file; `none` is an `OSError`. -/
  appendFile : ω → String → Bytes → Option ω
  updateSize : ω → String → Nat → ω

inductive Target
  | stdin
  | terminal
  | pipe
  | capture
  | file (info : OutputFile)
  | fileInput (target : String)
  | devnull
  deriving DecidableEq, Repr

/-- One stage; `name` is the word the command was called by. -/
structure PipeProtocol (ω : Type) where
  name : String
  cmd : Command ω
  cmdargs : List String
  inputData : Option Bytes := none
  redirect : Bool := false
  redirectedData : Bytes := []
  errData : Bytes := []
  targets : Nat → Option Target := fun _ => none
  redirectionError : Bool := false
  redirectRealFiles : List (String × String) := []
  stdoutWritten : Nat := 0
  stderrWritten : Nat := 0

/-- A command that ran: what it got and what it wrote to standard output. -/
structure Ran where
  segment : Nat
  name : String
  args : List String
  input : Option Bytes
  stdout : Bytes
  deriving DecidableEq, Repr

/-- The session: `depth` is `len(cmdstack)` between commands, `pp` is `protocol.pp` with its
chain (empty for `None`). -/
structure Protocol (ω : Type) where
  world : ω
  pp : List (PipeProtocol ω) := []
  depth : Nat := 1
  terminal : List (Nat × Bytes) := []
  redirFiles : List (String × String) := []
  /-- Calls of `transport.processEnded`. -/
  ended : Nat := 0
  segment : Nat := 0
  ran : List Ran := []

abbrev ShellM (ω α : Type) := Prog PyError (Protocol ω) α

variable {ω : Type} (env : Env ω)

namespace PipeProtocol

/-- `terminal.write`. -/
def writeTerminal (data : Bytes) : ShellM ω Unit :=
  modify fun s => { s with terminal := s.terminal ++ [(s.segment, data)] }

/-- `_emit_redirection_error`. -/
def emitError (pp : PipeProtocol ω) (message : String) : ShellM ω (PipeProtocol ω) := do
  writeTerminal (encode message)
  return { pp with redirectionError := true }

/-- A redirection to a file. -/
def openFile (pp : PipeProtocol ω) (fd : Nat) (target : String) (append : Bool) :
    ShellM ω (PipeProtocol ω) := do
  let r := env.prepareOutputFile (← get).world target append
  modify fun s => { s with world := r.2 }
  match r.1 with
  | .devnull => return { pp with targets := Function.update pp.targets fd (some .devnull) }
  | .failed none => return pp
  | .failed (some message) => emitError pp message
  | .file info => return { pp with
      targets := Function.update pp.targets fd (some (.file info))
      redirectRealFiles := pp.redirectRealFiles ++ [(info.real, info.virtual)]
      stdoutWritten := if fd = 1 then info.startSize else pp.stdoutWritten
      stderrWritten := if fd = 2 then info.startSize else pp.stderrWritten }

/-- The loop of `_setup_redirections`, with the target of standard input read last. -/
def applyOps (pp : PipeProtocol ω) (pending : Option String) :
    List RedirOp → ShellM ω (PipeProtocol ω × Option String)
  | [] => pure (pp, pending)
  | .file fd target append :: ops => do
    applyOps (← openFile env pp fd target append) pending ops
  | .stdin fd target :: ops =>
    applyOps { pp with targets := Function.update pp.targets fd (some (.fileInput target)) }
      (some target) ops
  | .dup fd target :: ops =>
    match pp.targets target with
    | some t => applyOps { pp with targets := Function.update pp.targets fd (some t) } pending ops
    | none => applyOps pp pending ops

/-- `_prepare_stdin`. -/
def prepareStdin (pp : PipeProtocol ω) (target : String) : ShellM ω (PipeProtocol ω) := do
  match env.stdinContents (← get).world target with
  | .ok data => return { pp with inputData := some data }
  | .error message => emitError pp message

/-- The file descriptors before any redirection: the capture of a substitution takes the place
of the pipe to the next command. -/
def defaultTargets (hasNext redirect : Bool) : Nat → Option Target
  | 0 => some .stdin
  | 1 => some (if redirect then .capture else if hasNext then .pipe else .terminal)
  | 2 => some .terminal
  | _ => none

/-- `PipeProtocol(protocol, cmd, args, None, next, redirect, redirections)`. -/
def new (name : String) (cmd : Command ω) (cmdargs : List String) (hasNext redirect : Bool)
    (ops : List RedirOp) : ShellM ω (PipeProtocol ω) := do
  let (pp, pending) ← applyOps env
    { name := name, cmd := cmd, cmdargs := cmdargs, redirect := redirect,
      targets := defaultTargets hasNext redirect } none ops
  match pending with
  | some target => if target = "" then return pp else prepareStdin env pp target
  | none => return pp

end PipeProtocol

/-- `_pipe_to_next`, on the chain of the writer. -/
def pipeToNext (data : Bytes) : List (PipeProtocol ω) → List (PipeProtocol ω)
  | pp :: next :: rest => pp :: { next with inputData := some (next.inputData.getD [] ++ data) } :: rest
  | chain => chain

/-- Change the protocol of the command called last. -/
def modifyHead (f : PipeProtocol ω → PipeProtocol ω) (s : Protocol ω) : Protocol ω :=
  { s with pp := s.pp.modifyHead f }

/-- The bytes written to a redirected descriptor so far, `data` included. -/
def PipeProtocol.countWritten (pp : PipeProtocol ω) (data : Bytes) (isStdout : Bool) :
    PipeProtocol ω :=
  if isStdout then { pp with stdoutWritten := pp.stdoutWritten + data.length }
  else { pp with stderrWritten := pp.stderrWritten + data.length }

def PipeProtocol.written (pp : PipeProtocol ω) (isStdout : Bool) : Nat :=
  if isStdout then pp.stdoutWritten else pp.stderrWritten

/-- `_write_to_file`; `isStdout` is `fd == 1`. -/
def writeToFile (info : OutputFile) (data : Bytes) (isStdout : Bool) : ShellM ω Unit := do
  let s ← get
  match env.appendFile s.world info.real data, s.pp with
  | some world, pp :: rest =>
    let pp := pp.countWritten data isStdout
    modify fun s => { s with
      pp := pp :: rest
      world := env.updateSize world info.virtual (pp.written isStdout) }
  | _, _ => pure ()

/-- `_write_to_fd`. -/
def writeToFd (fd : Nat) (data : Bytes) : ShellM ω Unit := do
  match (← get).pp with
  | [] => pure ()
  | pp :: _ =>
    match pp.targets fd with
    | some .terminal => PipeProtocol.writeTerminal data
    | some .pipe => modify fun s => { s with pp := pipeToNext data s.pp }
    | some .capture => modify (modifyHead fun pp =>
        { pp with redirectedData := pp.redirectedData ++ data })
    | some (.file info) => writeToFile env info data (fd = 1)
    | _ => pure ()

/-- `write_stdout` and `write_stderr`. -/
def write : Write → ShellM ω Unit
  | .out data => writeToFd env 1 data
  | .err data => do
    modify (modifyHead fun pp => { pp with errData := pp.errData ++ data })
    writeToFd env 2 data

end Cowrie.Shell
