import Cowrie.Bytes
import Cowrie.Lib.Program

/-!
# The telnet proxy's handler (`src/cowrie/telnet_proxy/handler.py`)

`TelnetHandler` sits between the attacker (the frontend) and the real machine (the backend). While
nobody is logged in it watches for the prompts of the backend and for a user name in the telnet
negotiation, holds the input of the attacker back until a line is complete, asks the credential
checker, and sends the backend its own credentials instead.

* An exception ends one call of `addPacket` and keeps the state written so far (`Lib.Prog`).
* The configured regular expressions are functions (`NegotiationRegex`, `Config`): the code uses the
  prompt regexes for their truth value only. Group 2 of the negotiation regex is taken to
  take part in every match, as in the configuration the program ships with.
* `checkUserPass n` is the answer of the credential checker to its `n`-th question, `unicodeName`
  the Unicode name table (`\N{...}`).
* `toBackend` and `toFrontend` record `transport.write`, `checks` the questions to the checker.

Left out: `close` (it hashes the tty log when the connection ends), times and file names.
-/

namespace Cowrie.TelnetProxy

open Cowrie.Lib

inductive Parent
  | frontend
  | backend
  deriving DecidableEq, Repr

inductive PyError
  | indexError
  | unicodeDecodeError
  deriving DecidableEq, Repr

/-- `TYPE_INPUT` and `TYPE_OUTPUT` of `ttylog.py`. -/
inductive Direction
  | input
  | output
  deriving DecidableEq, Repr

structure TtyRecord where
  direction : Direction
  data : Bytes
  deriving DecidableEq

/-- Log messages; decoded text is a list of code points. -/
inductive TelnetLog
  | msg (text : String)
  | decoded (label : String) (text : List Nat)
  | detectedUsername (text : List Nat)
  | clientVar (value : List Nat)
  | exploitAttempt (value : List Nat)
  | commandInput (input : Bytes)
  deriving DecidableEq

/-- The negotiation regex: `search(data).group(2)`, and `sub(rb"\1" + login + rb"\3", data)`. -/
structure NegotiationRegex where
  search : Bytes → Option Bytes
  sub : Bytes → Bytes → Bytes

structure Config where
  spoofAuthenticationData : Bool := true
  backendLogin : Bytes
  backendPassword : Bytes
  usernameInNegotiation : NegotiationRegex
  usernamePrompt : Bytes → Bool
  passwordPrompt : Bytes → Bool
  logRaw : Bool := false
  ttylogEnabled : Bool := true
  idleTimeout : Nat := 300
  checkUserPass : Nat → Bool
  unicodeName : Bytes → Option Nat

structure TelnetHandler where
  currentData : Bytes := []
  sendData : Bool := true
  client : Bool := false
  currentCommand : Bytes := []
  authStarted : Bool := false
  authDone : Bool := false
  usernameState : Bytes := []
  inputingLogin : Bool := false
  passwordState : Bytes := []
  inputingPassword : Bool := false
  waitingLoginEcho : Bool := false
  prePasswordData : Bool := false
  backendBuffer : List Bytes := []
  ttylog : List TtyRecord := []
  ttylogSize : Nat := 0
  toBackend : List Bytes := []
  toFrontend : List Bytes := []
  checks : List (Bytes × Bytes) := []
  timeout : Option Nat := none
  log : List TelnetLog := []
  deriving DecidableEq

abbrev TelnetM (α : Type) := Prog PyError TelnetHandler α

/-- `process_backspaces`. -/
def processBackspaces (s : Bytes) : Bytes :=
  s.foldl (fun n x => if encodeChr x = [0x7f] then n.dropLast else n ++ encodeChr x) []

/-- `remove_all`. -/
def removeAll (original : Bytes) (removeList : List Bytes) : Bytes :=
  removeList.foldl (fun n substring => replace n substring []) original

/-- The byte after the first `\r`. -/
def terminator (data : Bytes) : Option UInt8 := data[data.idxOf 13 + 1]?

/-- What the user sees of what is typed at the login prompt. -/
def echo (data : Bytes) : Bytes := replace (replace data [0x7f] [8, 32, 8]) [0] [10]

namespace TelnetHandler

variable (cfg : Config)

def logEvent (e : TelnetLog) : TelnetM Unit := modify fun s => { s with log := s.log ++ [e] }

/-- `data.decode("unicode-escape")`. -/
def decoded (data : Bytes) : TelnetM (List Nat) :=
  match unicodeEscape cfg.unicodeName data with
  | some text => pure text
  | none => throw .unicodeDecodeError

/-- The byte after the first `\r`, as text again; an `IndexError` if there is none. -/
def terminatingChar (data : Bytes) : TelnetM Bytes :=
  match terminator data with
  | some x => pure (encodeChr x)
  | none => throw .indexError

/-- Log a raw packet if the user sets so. -/
def logRaw (label : String) (data : Bytes) : TelnetM Unit :=
  when cfg.logRaw do
    logEvent (.decoded label (← decoded cfg data))

/-- One round of the loop of `sendBackend`, for the argument `data` and the buffered `packet`. -/
def writeBackend (data packet : Bytes) : TelnetM Unit := do
  modify fun s => { s with toBackend := s.toBackend ++ [packet] }
  logRaw cfg "to_backend - " data
  when (cfg.ttylogEnabled ∧ (← get).authStarted) do
    modify fun s => { s with
      ttylog := s.ttylog ++ [⟨.input, replace data [0] [10]⟩]
      ttylogSize := s.ttylogSize + (replace data [0] [10]).length }
  modify fun s => { s with backendBuffer := s.backendBuffer.drop 1 }

def sendBackend (data : Bytes) : TelnetM Unit := do
  modify fun s => { s with backendBuffer := s.backendBuffer ++ [data] }
  let s ← get
  when s.client do
    s.backendBuffer.forM (writeBackend cfg data)

def sendFrontend (data : Bytes) : TelnetM Unit := do
  modify fun s => { s with toFrontend := s.toFrontend ++ [data] }
  logRaw cfg "to_frontend - " data
  when (cfg.ttylogEnabled ∧ (← get).authStarted) do
    modify fun s => { s with ttylog := s.ttylog ++ [⟨.output, data⟩] }

def setProcessingStateBackend : TelnetM Unit := do
  when (cfg.passwordPrompt (← get).currentData) do
    logEvent (.msg "Password prompt from backend")
    modify fun s => { s with authStarted := true, inputingPassword := true, passwordState := [] }
  when (cfg.usernamePrompt (← get).currentData) do
    logEvent (.msg "Login prompt from backend")
    modify fun s => { s with authStarted := true, inputingLogin := true, usernameState := [] }
  modify fun s => { s with prePasswordData := Bytes.contains [0xff, 0xfb, 1] s.currentData }

def setProcessingStateFrontend : TelnetM Unit := do
  match cfg.usernameInNegotiation.search (← get).currentData with
  | none => pure ()
  | some username =>
    modify fun s => { s with usernameState := username }
    let text ← decoded cfg username
    logEvent (.detectedUsername text)
    logEvent (.clientVar text)
    -- a user name that starts with "-f"
    when (text.take 2 = [45, 102]) (logEvent (.exploitAttempt text))
    modify fun s => { s with
      currentData := cfg.usernameInNegotiation.sub cfg.backendLogin s.currentData }

def processUsernameInput : TelnetM Unit := do
  modify fun s => { s with
    sendData := false
    usernameState := s.usernameState ++ removeAll s.currentData [[13], [0], [10]] }
  sendFrontend cfg (echo (← get).currentData)
  when (13 ∈ (← get).currentData) do
    let terminating ← terminatingChar (← get).currentData
    modify fun s => { s with usernameState := processBackspaces s.usernameState }
    logEvent (.decoded "User input login: " (← decoded cfg (← get).usernameState))
    modify fun s => { s with
      inputingLogin := false
      currentData := cfg.backendLogin ++ [13] ++ terminating
      sendData := true
      waitingLoginEcho := true }

/-- The password to send: the real one if the checker likes the credentials. -/
def choosePassword : TelnetM Bytes := do
  modify fun s => { s with checks := s.checks ++ [(s.usernameState, s.passwordState)] }
  if cfg.checkUserPass ((← get).checks.length - 1) then
    modify fun s => { s with authDone := true, timeout := some cfg.idleTimeout }
    return cfg.backendPassword
  else
    logEvent (.msg "Sending invalid auth to backend")
    return cfg.backendPassword ++ encode "fake"

/-- The end of the password line. -/
def completePassword : TelnetM Unit := do
  let terminating ← terminatingChar (← get).currentData
  modify fun s => { s with passwordState := processBackspaces s.passwordState }
  logEvent (.decoded "User input password: " (← decoded cfg (← get).passwordState))
  modify fun s => { s with inputingPassword := false }
  let passwordToSend ← choosePassword cfg
  modify fun s => { s with
    currentData := passwordToSend ++ [13] ++ terminating
    sendData := true }

/-- `processPasswordInput` up to the test for the end of the line. -/
def collectPassword : TelnetM Unit := do
  modify fun s => { s with sendData := false }
  when (← get).prePasswordData do
    sendBackend cfg ((← get).currentData.take 3)
    modify fun s => { s with prePasswordData := false }
  modify fun s => { s with
    passwordState := s.passwordState ++
      removeAll s.currentData [[0xff], [0xfd], [1], [13], [0], [10]] }

def processPasswordInput : TelnetM Unit := do
  collectPassword cfg
  when (13 ∈ (← get).currentData) (completePassword cfg)

/-- Capture the echo of the user name (`handler.py:199-204`). -/
def captureEcho : TelnetM Unit := do
  when (← get).waitingLoginEcho do
    modify fun s => { s with
      currentData := replace s.currentData (cfg.backendLogin ++ [13, 10]) []
      waitingLoginEcho := false }

/-- `addPacket` while the credentials are spoofed (`handler.py:180-204`). -/
def spoof (parent : Parent) : TelnetM Unit :=
  match parent with
  | .backend => do
    setProcessingStateBackend cfg
    captureEcho cfg
  | .frontend => do
    setProcessingStateFrontend cfg
    when (← get).inputingPassword (processPasswordInput cfg)
    when (← get).inputingLogin (processUsernameInput cfg)

/-- The log of user commands (`handler.py:206-217`). -/
def logCommand (parent : Parent) (data : Bytes) : TelnetM Unit := do
  when (parent = .frontend ∧ (← get).authDone) do
    modify fun s => { s with
      currentCommand := s.currentCommand ++ replace (replace data [13, 0] []) [13, 10] [] }
    when (13 ∈ data) do
      when (0 < (← get).currentCommand.length) do
        logEvent (.commandInput (← get).currentCommand)
      modify fun s => { s with currentCommand := [] }

/-- Send what the processing left (`handler.py:219-223`). -/
def forward (parent : Parent) : TelnetM Unit := do
  let s ← get
  when (s.sendData ∧ s.currentData ≠ []) do
    match parent with
    | .frontend => sendBackend cfg s.currentData
    | .backend => sendFrontend cfg s.currentData

def addPacket (parent : Parent) (data : Bytes) : TelnetM Unit := do
  modify fun s => { s with currentData := data, sendData := true }
  when (cfg.spoofAuthenticationData ∧ (← get).authDone = false) (spoof cfg parent)
  logCommand parent data
  forward cfg parent

end TelnetHandler

/-- What happens to a handler: the connection to the backend is made, or data arrives. -/
inductive Event
  | setClient
  | addPacket (parent : Parent) (data : Bytes)
  deriving DecidableEq, Repr

/-- One event; an exception ends it. -/
def step (cfg : Config) (s : TelnetHandler) : Event → Option TelnetHandler
  | .setClient => some { s with client := true }
  | .addPacket parent data => some (exec (TelnetHandler.addPacket cfg parent data) s).2

end Cowrie.TelnetProxy
