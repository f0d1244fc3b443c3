import Cowrie.Struct
import Cowrie.Lib.Program
import Cowrie.Lib.Run
import Mathlib.Data.List.DropRight

/-!
# The TFTP client (`src/cowrie/commands/tftp.py:25-197`)

`TFTPClient` asks a server for a file, writes the blocks it gets to an artifact and acknowledges them.
`deferred` is fired once, with success, an error of the server, or a timeout.

* An exception ends one event and keeps the state written so far (`Lib.Prog`).
* `pending` is `timeout_call`: a call that has not been cancelled and has not run.
* Firing the deferred runs `_ensure_artifact_closed` (`tftp.py:334-342`), so that a later write raises.
* `artifact` has the data of every write, `sent` what was given to `transport.write`.
* `received_expected`, `received_again`, `received_error`, `received_ignored`: what a datagram does before
  the deferred has fired. `step_settled`: after it has, its result stays.

Left out: `last_packet`, which nothing reads, and the end of the command (`stopProtocol`, `handle_CTRL_C`),
which comes after the deferred. Block numbers are read from two bytes, so `struct.pack` never refuses one.
-/

namespace Cowrie.Tftp

open Cowrie.Lib

abbrev Addr := String × Nat

inductive TftpError
  | alreadyCalled
  | closedFile
  deriving DecidableEq, Repr

/-- What the deferred is fired with; the message of an error is decoded with replacement characters. -/
inductive Outcome
  | success
  | timedOut
  | tftpError (code : Nat) (message : Bytes)
  deriving DecidableEq, Repr

structure Config where
  host : String
  port : Nat
  filename : Bytes

structure TFTPClient where
  deferred : Option Outcome := none
  currentBlock : Nat := 0
  retryCount : Nat := 0
  pending : Bool := false
  bytesReceived : Nat := 0
  serverTid : Option Addr := none
  artifact : List Bytes := []
  sent : List (Bytes × Addr) := []
  log : List String := []
  deriving DecidableEq

abbrev TftpM (α : Type) := Prog TftpError TFTPClient α

def opcodeRRQ : Nat := 1
def opcodeDATA : Nat := 3
def opcodeACK : Nat := 4
def opcodeERROR : Nat := 5
def blockSize : Nat := 512
def maxRetries : Nat := 3

/-! ## Packets -/

def packRRQ (filename : Bytes) : Bytes :=
  intToBytes 2 opcodeRRQ ++ filename ++ [0] ++ encode "octet" ++ [0]

def packACK (blockNum : Nat) : Bytes := intToBytes 2 opcodeACK ++ intToBytes 2 blockNum

def opcode (datagram : Bytes) : Nat := intFromBytes (datagram.take 2)

/-- The block number of a DATA packet, the error code of an ERROR packet. -/
def blockNum (packet : Bytes) : Nat := intFromBytes ((packet.drop 2).take 2)

def payload (packet : Bytes) : Bytes := packet.drop 4

/-! ## The client -/

namespace TFTPClient

variable (cfg : Config)

def msg (text : String) : TftpM Unit := modify fun s => { s with log := s.log ++ [text] }

/-- `if self.timeout_call is not None and self.timeout_call.active(): self.timeout_call.cancel()`. -/
def cancelTimeout : TftpM Unit := modify fun s => { s with pending := false }

def scheduleTimeout : TftpM Unit := do
  cancelTimeout
  modify fun s => { s with pending := true }

def sendRRQ : TftpM Unit := do
  modify fun s => { s with sent := s.sent ++ [(packRRQ cfg.filename, cfg.host, cfg.port)] }
  scheduleTimeout

def sendACK (n : Nat) : TftpM Unit := do
  modify fun s => { s with sent := s.sent ++ [(packACK n, s.serverTid.getD (cfg.host, cfg.port))] }
  scheduleTimeout

/-- `self.artifact.write(data)`. -/
def artifactWrite (data : Bytes) : TftpM Unit := do
  if (← get).deferred ≠ none then throw .closedFile
  else modify fun s => { s with artifact := s.artifact ++ [data] }

/-- `self.deferred.callback` and `self.deferred.errback`. -/
def fire (outcome : Outcome) : TftpM Unit := do
  if (← get).deferred ≠ none then throw .alreadyCalled
  else modify fun s => { s with deferred := some outcome }

def handleDATA (packet : Bytes) : TftpM Unit := do
  if packet.length < 4 then msg "TFTP: Malformed DATA packet"
  else if blockNum packet = (← get).currentBlock + 1 then
    modify fun s => { s with
      currentBlock := blockNum packet
      bytesReceived := s.bytesReceived + (payload packet).length }
    artifactWrite (payload packet)
    sendACK cfg (blockNum packet)
    when ((payload packet).length < blockSize) do
      cancelTimeout
      fire .success
  else if blockNum packet = (← get).currentBlock then sendACK cfg (blockNum packet)
  else msg ("TFTP: Out of order block " ++ toString (blockNum packet) ++ ", expected " ++
    toString ((← get).currentBlock + 1))

def handleERROR (packet : Bytes) : TftpM Unit := do
  if packet.length < 5 then msg "TFTP: Malformed ERROR packet"
  else
    cancelTimeout
    fire (.tftpError (blockNum packet) ((payload packet).rdropWhile (· = 0)))

def datagramReceived (datagram : Bytes) (addr : Addr) : TftpM Unit := do
  if datagram.length < 4 then msg "TFTP: Received malformed packet (too short)"
  else
    modify fun s => { s with serverTid := some (s.serverTid.getD addr) }
    cancelTimeout
    modify fun s => { s with retryCount := 0 }
    if opcode datagram = opcodeDATA then handleDATA cfg datagram
    else if opcode datagram = opcodeERROR then handleERROR datagram
    else msg ("TFTP: Unexpected opcode " ++ toString (opcode datagram))

def handleTimeout : TftpM Unit := do
  modify fun s => { s with retryCount := s.retryCount + 1 }
  if maxRetries ≤ (← get).retryCount then fire .timedOut
  else if (← get).currentBlock = 0 then sendRRQ cfg
  else sendACK cfg (← get).currentBlock

end TFTPClient

open TFTPClient

/-- What happens to a client. -/
inductive Event
  | datagram (data : Bytes) (addr : Addr)
  | timeout
  deriving DecidableEq, Repr

/-- After `startProtocol`. -/
def start (cfg : Config) : TFTPClient := (exec (sendRRQ cfg) {}).2

/-- One event; the timeout happens only if it is pending. -/
def step (cfg : Config) (s : TFTPClient) : Event → Option TFTPClient
  | .datagram data addr => some (exec (datagramReceived cfg data addr) s).2
  | .timeout =>
    if s.pending then some (exec (handleTimeout cfg) { s with pending := false }).2 else none

/-! ## What a datagram does -/

variable {cfg : Config}

/-- A datagram of at least four bytes has been looked at. -/
def TFTPClient.heard (addr : Addr) (s : TFTPClient) : TFTPClient :=
  { s with serverTid := some (s.serverTid.getD addr), pending := false, retryCount := 0 }

/-- An acknowledgment has been sent. -/
def TFTPClient.acked (cfg : Config) (n : Nat) (s : TFTPClient) : TFTPClient :=
  { s with
    sent := s.sent ++ [(packACK n, s.serverTid.getD (cfg.host, cfg.port))]
    pending := true }

/-- A block has been written. -/
def TFTPClient.wrote (n : Nat) (data : Bytes) (s : TFTPClient) : TFTPClient :=
  { s with
    currentBlock := n
    bytesReceived := s.bytesReceived + data.length
    artifact := s.artifact ++ [data] }

/-- The deferred has been fired, with no timeout to come. -/
def TFTPClient.fired (outcome : Outcome) (s : TFTPClient) : TFTPClient :=
  { s with pending := false, deferred := some outcome }

theorem exec_fire {s : TFTPClient} (h : s.deferred = none) (outcome : Outcome) :
    exec (fire outcome) s = (.ok (), { s with deferred := some outcome }) := by
  unfold fire
  rw [exec_get_bind, if_neg (by simp [h])]
  rfl

theorem exec_artifactWrite {s : TFTPClient} (h : s.deferred = none) (data : Bytes) :
    exec (artifactWrite data) s = (.ok (), { s with artifact := s.artifact ++ [data] }) := by
  unfold artifactWrite
  rw [exec_get_bind, if_neg (by simp [h])]
  rfl

/-- A datagram that is long enough goes to one of the handlers. -/
theorem exec_datagramReceived {d : Bytes} (hlength : 4 ≤ d.length) (addr : Addr) (s : TFTPClient) :
    exec (datagramReceived cfg d addr) s =
      exec (if opcode d = opcodeDATA then handleDATA cfg d
        else if opcode d = opcodeERROR then handleERROR d
        else msg ("TFTP: Unexpected opcode " ++ toString (opcode d))) (s.heard addr) := by
  unfold datagramReceived cancelTimeout
  rw [if_neg (Nat.not_lt.mpr hlength), exec_modify_bind, exec_modify_bind, exec_modify_bind]
  rfl

/-- **The next block** is written and acknowledged; a short one is the last. -/
theorem received_expected (cfg : Config) {s : TFTPClient} {d : Bytes} (hopen : s.deferred = none)
    (hlength : 4 ≤ d.length) (hopcode : opcode d = opcodeDATA)
    (hblock : blockNum d = s.currentBlock + 1) (addr : Addr) :
    (exec (datagramReceived cfg d addr) s).2 =
      if (payload d).length < blockSize
      then (((s.heard addr).wrote (blockNum d) (payload d)).acked cfg (blockNum d)).fired .success
      else ((s.heard addr).wrote (blockNum d) (payload d)).acked cfg (blockNum d) := by
  have hack : exec (sendACK cfg (blockNum d)) ((s.heard addr).wrote (blockNum d) (payload d)) =
      (.ok (), ((s.heard addr).wrote (blockNum d) (payload d)).acked cfg (blockNum d)) := rfl
  rw [exec_datagramReceived hlength, if_pos hopcode]
  unfold handleDATA
  rw [if_neg (Nat.not_lt.mpr hlength), exec_get_bind,
    if_pos (show blockNum d = (s.heard addr).currentBlock + 1 from hblock), exec_modify_bind,
    exec_bind_ok (exec_artifactWrite (by exact hopen) _)]
  change (exec (sendACK cfg (blockNum d) >>= _) ((s.heard addr).wrote (blockNum d) (payload d))).2 = _
  rw [exec_bind_ok hack]
  by_cases hshort : (payload d).length < blockSize
  · rw [when_true hshort, if_pos hshort]
    unfold cancelTimeout
    rw [exec_modify_bind, exec_fire]
    · rfl
    · exact hopen
  · rw [when_false hshort, if_neg hshort]
    rfl

/-- **The last block again** is acknowledged again. -/
theorem received_again {s : TFTPClient} {d : Bytes} (hlength : 4 ≤ d.length)
    (hopcode : opcode d = opcodeDATA) (hblock : blockNum d = s.currentBlock) (addr : Addr) :
    (exec (datagramReceived cfg d addr) s).2 = (s.heard addr).acked cfg (blockNum d) := by
  have hnext : ¬ blockNum d = (s.heard addr).currentBlock + 1 := by
    change ¬ blockNum d = s.currentBlock + 1
    omega
  rw [exec_datagramReceived hlength, if_pos hopcode]
  unfold handleDATA
  rw [if_neg (Nat.not_lt.mpr hlength), exec_get_bind, if_neg hnext, exec_get_bind,
    if_pos (show blockNum d = (s.heard addr).currentBlock from hblock)]
  rfl

/-- **An error** fires the deferred. -/
theorem received_error {s : TFTPClient} {d : Bytes} (hopen : s.deferred = none)
    (hlength : 5 ≤ d.length) (hopcode : opcode d = opcodeERROR) (addr : Addr) :
    (exec (datagramReceived cfg d addr) s).2 =
      (s.heard addr).fired (.tftpError (blockNum d) ((payload d).rdropWhile (· = 0))) := by
  rw [exec_datagramReceived (by omega), if_neg (by rw [hopcode]; decide), if_pos hopcode]
  unfold handleERROR cancelTimeout
  rw [if_neg (Nat.not_lt.mpr hlength), exec_modify_bind, exec_fire]
  · rfl
  · exact hopen

/-- The client answers a datagram, or takes it for the end of the transfer. -/
def Answers (s : TFTPClient) (d : Bytes) : Prop :=
  (opcode d = opcodeDATA ∧ (blockNum d = s.currentBlock + 1 ∨ blockNum d = s.currentBlock)) ∨
  (opcode d = opcodeERROR ∧ 5 ≤ d.length)

instance (s : TFTPClient) (d : Bytes) : Decidable (Answers s d) := inferInstanceAs (Decidable (_ ∨ _))

/-- **Any other datagram** leaves a note in the log, and no timeout. -/
theorem received_ignored (cfg : Config) {s : TFTPClient} {d : Bytes} (hlength : 4 ≤ d.length) (hno : ¬ Answers s d)
    (addr : Addr) : ∃ text, (exec (datagramReceived cfg d addr) s).2 =
      { s.heard addr with log := s.log ++ [text] } := by
  unfold Answers at hno
  rw [not_or, not_and, not_or, not_and] at hno
  rw [exec_datagramReceived hlength]
  by_cases hdata : opcode d = opcodeDATA
  · obtain ⟨hnext, hsame⟩ := hno.1 hdata
    rw [if_pos hdata]
    unfold handleDATA
    rw [if_neg (Nat.not_lt.mpr hlength), exec_get_bind,
      if_neg (show ¬ blockNum d = (s.heard addr).currentBlock + 1 from hnext), exec_get_bind,
      if_neg (show ¬ blockNum d = (s.heard addr).currentBlock from hsame)]
    exact ⟨_, rfl⟩
  · rw [if_neg hdata]
    by_cases herror : opcode d = opcodeERROR
    · rw [if_pos herror]
      unfold handleERROR
      rw [if_pos (Nat.not_le.mp (hno.2 herror))]
      exact ⟨_, rfl⟩
    · rw [if_neg herror]
      exact ⟨_, rfl⟩

/-- A datagram of less than four bytes. -/
theorem received_short (cfg : Config) (s : TFTPClient) {d : Bytes} (hlength : d.length < 4) (addr : Addr) :
    ∃ text, (exec (datagramReceived cfg d addr) s).2 = { s with log := s.log ++ [text] } := by
  unfold datagramReceived
  rw [if_pos hlength]
  exact ⟨_, rfl⟩

/-! ## After the deferred has fired -/

/-- A fired deferred keeps its result. -/
def Settled (s t : TFTPClient) : Prop := s.deferred ≠ none → t.deferred = s.deferred

theorem Settled.refl (s : TFTPClient) : Settled s s := fun _ => rfl

theorem Settled.trans (s t u : TFTPClient) (h : Settled s t) (h' : Settled t u) : Settled s u :=
  fun hfired => (h' (by rw [h hfired]; exact hfired)).trans (h hfired)

theorem fire_settled (outcome : Outcome) : Along Settled (fire outcome) := by
  intro s hfired
  unfold fire
  rw [exec_get_bind, if_pos hfired]
  rfl

theorem artifactWrite_settled (data : Bytes) : Along Settled (artifactWrite data) := by
  intro s hfired
  unfold artifactWrite
  rw [exec_get_bind, if_pos hfired]
  rfl

theorem scheduleTimeout_settled : Along Settled scheduleTimeout :=
  along_bind Settled.trans (along_modify fun _ _ => rfl) fun _ => along_modify fun _ _ => rfl

theorem sendRRQ_settled : Along Settled (sendRRQ cfg) :=
  along_bind Settled.trans (along_modify fun _ _ => rfl) fun _ => scheduleTimeout_settled

theorem sendACK_settled (n : Nat) : Along Settled (sendACK cfg n) :=
  along_bind Settled.trans (along_modify fun _ _ => rfl) fun _ => scheduleTimeout_settled

theorem msg_settled (text : String) : Along Settled (msg text) := along_modify fun _ _ => rfl

/-- A condition that chooses what is run. -/
theorem along_ite {R : TFTPClient → TFTPClient → Prop} {c : Prop} [Decidable c] {m m' : TftpM Unit}
    (h : Along R m) (h' : Along R m') : Along R (if c then m else m') := by
  by_cases hc : c
  · rw [if_pos hc]
    exact h
  · rw [if_neg hc]
    exact h'

theorem handleDATA_settled (d : Bytes) : Along Settled (handleDATA cfg d) := by
  unfold handleDATA
  refine along_ite (msg_settled _) (along_get fun _ => along_ite ?_ ?_)
  · refine along_bind Settled.trans (along_modify fun _ _ => rfl) fun _ => ?_
    refine along_bind Settled.trans (artifactWrite_settled _) fun _ => ?_
    refine along_bind Settled.trans (sendACK_settled _) fun _ => along_when Settled.refl ?_
    exact along_bind Settled.trans (along_modify fun _ _ => rfl) fun _ => fire_settled _
  · exact along_get fun _ => along_ite (sendACK_settled _) (along_get fun _ => msg_settled _)

theorem handleERROR_settled (d : Bytes) : Along Settled (handleERROR d) := by
  unfold handleERROR
  refine along_ite (msg_settled _) ?_
  exact along_bind Settled.trans (along_modify fun _ _ => rfl) fun _ => fire_settled _

theorem datagramReceived_settled (d : Bytes) (addr : Addr) :
    Along Settled (datagramReceived cfg d addr) := by
  unfold datagramReceived
  refine along_ite (msg_settled _) ?_
  refine along_bind Settled.trans (along_modify fun _ _ => rfl) fun _ => ?_
  refine along_bind Settled.trans (along_modify fun _ _ => rfl) fun _ => ?_
  refine along_bind Settled.trans (along_modify fun _ _ => rfl) fun _ => ?_
  exact along_ite (handleDATA_settled d) (along_ite (handleERROR_settled d) (msg_settled _))

theorem handleTimeout_settled : Along Settled (handleTimeout cfg) := by
  unfold handleTimeout
  refine along_bind Settled.trans (along_modify fun _ _ => rfl) fun _ => along_get fun _ => ?_
  refine along_ite (fire_settled _) (along_get fun _ => along_ite sendRRQ_settled ?_)
  exact along_get fun _ => sendACK_settled _

/-- **A fired deferred keeps its result.** -/
theorem step_settled {s t : TFTPClient} {e : Event} (h : step cfg s e = some t) : Settled s t := by
  cases e with
  | datagram d addr =>
    obtain rfl := Option.some.inj h
    exact datagramReceived_settled d addr s
  | timeout =>
    unfold step at h
    by_cases hpending : s.pending
    · rw [if_pos hpending] at h
      obtain rfl := Option.some.inj h
      exact handleTimeout_settled { s with pending := false }
    · rw [if_neg hpending] at h
      cases h

/-! ## What a timeout does -/

/-- The packet that the client sends again. -/
def TFTPClient.retransmission (cfg : Config) (s : TFTPClient) : Bytes × Addr :=
  if s.currentBlock = 0 then (packRRQ cfg.filename, cfg.host, cfg.port)
  else (packACK s.currentBlock, s.serverTid.getD (cfg.host, cfg.port))

/-- A deferred is fired once. -/
theorem fire_state (outcome : Outcome) (s : TFTPClient) :
    (exec (fire outcome) s).2 = { s with deferred := some (s.deferred.getD outcome) } := by
  cases h : s.deferred with
  | none =>
    rw [exec_fire h]
    rfl
  | some o =>
    unfold fire
    rw [exec_get_bind, if_pos (by simp [h])]
    exact congrArg (fun d => { s with deferred := d }) h

/-- **A timeout**: the third one in a row fires the deferred. -/
theorem timeout_step (cfg : Config) {s : TFTPClient} (hpending : s.pending) :
    step cfg s .timeout = some
      (if maxRetries ≤ s.retryCount + 1
       then { s with
        pending := false, retryCount := s.retryCount + 1, deferred := some (s.deferred.getD .timedOut) }
       else { s with
        pending := true, retryCount := s.retryCount + 1, sent := s.sent ++ [s.retransmission cfg] }) := by
  unfold step
  rw [if_pos hpending]
  unfold handleTimeout
  rw [exec_modify_bind, exec_get_bind]
  by_cases hlast : maxRetries ≤ s.retryCount + 1
  · rw [if_pos hlast, if_pos hlast, fire_state]
  · rw [if_neg hlast, if_neg hlast, exec_get_bind]
    unfold retransmission
    by_cases hfirst : s.currentBlock = 0
    · rw [if_pos hfirst, if_pos hfirst]
      rfl
    · rw [if_neg hfirst, if_neg hfirst]
      rfl

end Cowrie.Tftp
