import Cowrie.SshProxy.Sftp

/-!
# The sessions of a channel (`src/cowrie/ssh_proxy/protocols/{term,exec_term,port_forward}.py`)

What `channel["session"]` may be, and what channel data does to it.

* `Term` follows an interactive session: `command` is the line the attacker is typing, `pointer` the
  cursor in it. The cursor is an integer that may go below zero; a slice then counts from the end.
* `ExecTerm` records what crosses a channel that runs one command, `PortForward` keeps nothing: its
  fingerprints are only logged, and both parsers of `core/fingerprint.py` catch every exception.
* `ttylog` is the recording on disk, as the list of its write records. Its name, its stamps and what
  becomes of the file when the channel closes are left out: no packet is forwarded otherwise for it.

A turn of either loop of `Term.parse_packet` consumes one to four bytes, so the length of the data
bounds the number of turns.
-/

namespace Cowrie.SshProxy

/-- `ttylog.TYPE_INPUT` and `TYPE_OUTPUT`. -/
inductive TtyType
  | input
  | output
  deriving DecidableEq, Repr

/-- A command in the log: as text, or as the bytes that are none (`Unusual execcmd`). -/
inductive CommandLog
  | input (text : String)
  | unusual (command : Bytes)
  deriving DecidableEq

/-- `log.msg(input=command.decode("utf8"))`, in its `try`. -/
def logInput (command : Bytes) : CommandLog :=
  match decode command with
  | some text => .input text
  | none => .unusual command

/-- What both kinds of terminal write to their recording. -/
structure Recording where
  ttylogEnabled : Bool
  ttylogSize : Nat := 0
  ttylog : List (TtyType × Bytes) := []
  deriving DecidableEq

/-- `ttylog_write` and the count next to it. -/
def Recording.write (r : Recording) (type : TtyType) (data : Bytes) : Recording :=
  if r.ttylogEnabled then
    { r with ttylogSize := r.ttylogSize + data.length, ttylog := r.ttylog ++ [(type, data)] }
  else r

structure Term where
  channelId : Nat
  recording : Recording
  command : Bytes := []
  pointer : Int := 0
  tabPress : Bool := false
  upArrow : Bool := false
  log : List CommandLog := []
  deriving DecidableEq

namespace Term

/-- Put a byte at the cursor. -/
def insert (t : Term) (b : Bytes) : Term :=
  { t with command := sliceTo t.command t.pointer ++ b ++ sliceFrom t.command t.pointer,
           pointer := t.pointer + 1 }

/-- Backspace. -/
def backspace (t : Term) : Term :=
  if 0 < t.pointer then
    { t with command := sliceTo t.command (t.pointer - 1) ++ sliceFrom t.command t.pointer,
             pointer := t.pointer - 1 }
  else t

/-- Enter, newline or ctrl+c: the line is logged. -/
def enter (t : Term) (key : Bytes) : Term :=
  let command := if key = [0x03] then t.command ++ encode "^C" else t.command
  { t with log := if command = [] then t.log else t.log ++ [logInput command],
           command := [], pointer := 0 }

/-- One turn of the loop over what the attacker types (`term.py:93-152`): the new state and the
number of bytes consumed. -/
def key (t : Term) (data : Bytes) : Term × Nat :=
  let one := data.take 1
  let three := data.take 3
  if one = [0x09] then ({ t with tabPress := true }, 1)
  else if one = [0x7f] ∨ one = [0x08] then (t.backspace, 1)
  else if one = [0x0d] ∨ one = [0x03] ∨ one = [0x0a] then (t.enter one, 1)
  else if three = [0x1b, 0x4f, 0x48] then ({ t with pointer := 0 }, 3)
  else if three = [0x1b, 0x4f, 0x46] then ({ t with pointer := t.command.length }, 3)
  else if three = [0x1b, 0x5b, 0x43] then
    ({ t with pointer := if t.pointer ≠ t.command.length then t.pointer + 1 else t.pointer }, 3)
  else if three = [0x1b, 0x5b, 0x44] then
    ({ t with pointer := if t.pointer ≠ 0 then t.pointer - 1 else t.pointer }, 3)
  else if three = [0x1b, 0x5b, 0x41] ∨ three = [0x1b, 0x5b, 0x42] then
    ({ t with upArrow := true }, 3)
  else (t.insert one, 1)

/-- One turn of the loop over what the backend answers to an arrow key (`term.py:173-204`).
`self.data[3:3]` is empty, so its comparison with `P` fails. -/
def redraw (t : Term) (data : Bytes) : Term × Nat :=
  let one := data.take 1
  let three := data.take 3
  if one = [0x08] then
    ({ t with command := sliceTo t.command (-1), pointer := t.pointer - 1 }, 1)
  else if three = [0x1b, 0x5b, 0x4b] then ({ t with command := sliceTo t.command t.pointer }, 3)
  else if one = [0x0d] then ({ t with pointer := 0 }, 1)
  else if three = [0x1b, 0x5b, 0x43] then ({ t with pointer := t.pointer + 1 }, 3)
  else if data.take 2 = [0x1b, 0x5b] ∧ (data.take 3).drop 3 = [0x50] then (t, 4)
  else if one ≠ [0x07] ∧ one ≠ [0x0d] then (t.insert one, 1)
  else ({ t with pointer := t.pointer + 1 }, 1)

/-- `while len(self.data) > 0`, for at most `fuel` turns. -/
def loop (turn : Term → Bytes → Term × Nat) : Nat → Term → Bytes → Term
  | 0, t, _ => t
  | fuel + 1, t, data =>
    if data = [] then t else loop turn fuel (turn t data).1 (data.drop (turn t data).2)

/-- The first lines of the `[CLIENT]` branch: what the backend completes after a tab. -/
def completion (t : Term) (data : Bytes) : Term :=
  if t.tabPress then
    { t with
      command :=
        if !([0x0d] : Bytes).isPrefixOf data && data != [0x07] then t.command ++ data else t.command,
      tabPress := false }
  else t

/-- `Term.parse_packet`. -/
def parsePacket (parent : Parent) (data : Bytes) (t : Term) : Term :=
  match parent with
  | .server =>
    let t := loop key data.length t data
    { t with recording := t.recording.write .output data }
  | .client =>
    let t := t.completion data
    let t := if t.upArrow then { loop redraw data.length t data with upArrow := false } else t
    { t with recording := t.recording.write .input data }

end Term

structure ExecTerm where
  channelId : Nat
  recording : Recording
  log : List CommandLog
  deriving DecidableEq

namespace ExecTerm

/-- `ExecTerm.__init__`: the command is logged here. -/
def create (channelId : Nat) (ttylogEnabled : Bool) (command : Bytes) : ExecTerm :=
  { channelId := channelId, recording := { ttylogEnabled := ttylogEnabled },
    log := [logInput command] }

/-- `ExecTerm.parse_packet`: both directions are recorded as output. -/
def parsePacket (_parent : Parent) (data : Bytes) (t : ExecTerm) : ExecTerm :=
  { t with recording := t.recording.write .output data }

end ExecTerm

/-- `channel["session"]`, when it is not `None`. -/
inductive ChannelSession
  | term (t : Term)
  | exec (t : ExecTerm)
  | sftp (s : SFTP)
  | portForward

/-- `channel["session"].parse_packet(parent, data)`. -/
def ChannelSession.parsePacket (sha256 : Bytes → String) (parent : Parent) (data : Bytes) :
    ChannelSession → ChannelSession × Option PyError
  | .term t => (.term (t.parsePacket parent data), none)
  | .exec t => (.exec (t.parsePacket parent data), none)
  | .sftp s => (.sftp (s.parsePacket sha256 parent data).1, (s.parsePacket sha256 parent data).2)
  | .portForward => (.portForward, none)

end Cowrie.SshProxy
