import Cowrie.Lib.Ensures
import Cowrie.Pool.Server

/-!
# The client of the pool (`src/cowrie/pool_interface/client.py:30-117`)

`PoolClient` asks the pool server of `Server.lean` for guests. Both sides pack and unpack their messages by
hand, with strings in the middle whose lengths they count themselves.

* `PoolClient.callbacks` are the calls of methods of the parent, `written` the calls of `transport.write`.
* `ClientMessage` is what the server takes a message for: `decodeMessage` reads it, and `perform` does it
  (`dataReceived_decode`).
* `Grant`, `SentMessage`: the values of a response and of a message, with the bounds of their fields.
* **`roundTrip_iff`**: both sides read what the other one was given exactly if the addresses and the snapshot are
  ASCII. The lengths are those of the `str`; the bytes that come after them are cut off.

Left out: log messages.
-/

namespace Cowrie.Pool

open Cowrie.Lib

/-! ## Text -/

/-- One byte for every character. -/
def Ascii (s : String) : Prop := ∀ c ∈ s.toList, c.val ≤ 127

instance (s : String) : Decidable (Ascii s) := List.decidableBAll _ s.toList

theorem utf8_length (l : List Char) :
    l.length ≤ (l.flatMap String.utf8EncodeChar).length ∧
    ((l.flatMap String.utf8EncodeChar).length = l.length ↔ ∀ c ∈ l, c.val ≤ 127) := by
  induction l with
  | nil => simp
  | cons c l ih =>
    have hpos := c.utf8Size_pos
    have hone := c.utf8Size_eq_one_iff
    rw [List.flatMap_cons, List.length_append, String.length_utf8EncodeChar, List.length_cons,
      List.forall_mem_cons, ← ih.2, ← hone]
    omega

theorem length_le_encode (s : String) : s.length ≤ (encode s).length := by
  rw [encode_eq_flatMap, ← String.length_toList]
  exact (utf8_length s.toList).1

theorem encode_length_iff (s : String) : (encode s).length = s.length ↔ Ascii s := by
  rw [encode_eq_flatMap, ← String.length_toList]
  exact (utf8_length s.toList).2

theorem packString_length (n : Nat) (b : Bytes) : (packString n b).length = n := by
  unfold packString
  rw [List.length_append, List.length_take, List.length_replicate]
  omega

/-- A `str` packed with its own length is whole only if it is ASCII. -/
theorem packString_iff (s : String) : packString s.length (encode s) = encode s ↔ Ascii s := by
  rw [← encode_length_iff]
  constructor
  · intro h
    rw [← h, packString_length]
  · intro h
    unfold packString
    rw [h, List.take_of_length_le h.le, Nat.sub_self]
    exact List.append_nil _

/-! ## The client -/

/-- A method of the parent that is called. -/
inductive PoolCallback
  | initialisationResponse (code : Nat)
  | loseConnection
  | receivedPoolData (resOp : UInt8) (resCode : Nat) (honeyIp snapshot : Bytes) (sshPort telnetPort : Nat)
  deriving DecidableEq, Repr

inductive ClientError
  | structError
  deriving DecidableEq, Repr

structure PoolClient where
  parent : Bool := false
  vmId : Option Nat := none
  callbacks : List PoolCallback := []
  written : List Bytes := []
  deriving DecidableEq, Repr

abbrev ClientM (α : Type) := Prog ClientError PoolClient α

/-- `!cII?`. -/
def packInit (maxVms vmUnusedTimeout : Int) (shareGuests : Bool) : Option Bytes :=
  (packUInt 4 maxVms).bind fun maxVms =>
    (packUInt 4 vmUnusedTimeout).map fun timeout =>
      105 :: (maxVms ++ timeout ++ [if shareGuests then 1 else 0])

/-- `!cH<len(src_ip)>s`: the length counts characters. -/
def packRequest (srcIp : String) : Option Bytes :=
  (packUInt 2 srcIp.length).map fun ipLen => 114 :: (ipLen ++ packString srcIp.length (encode srcIp))

/-- `!cI`. -/
def packRelease (backendDirty : Bool) (vmId : Nat) : Option Bytes :=
  (packUInt 4 vmId).map fun vmId => (if backendDirty then 102 else 117) :: vmId

/-- `!cI`, of the first five bytes. -/
def unpackStatus (data : Bytes) : Option (UInt8 × Nat) :=
  match data.take 5 with
  | [] => none
  | op :: b => (unpackUInt 4 b).map (op, ·)

/-- `!HH`, of the first four bytes. -/
def unpackPorts (data : Bytes) : Option (Nat × Nat) :=
  if (data.take 4).length = 4 then
    some (intFromBytes (data.take 2), intFromBytes ((data.drop 2).take 2))
  else none

namespace PoolClient

/-- A value that was packed or unpacked; `none` is a `struct.error`. -/
def field {α : Type} (o : Option α) : ClientM α :=
  match o with
  | some a => pure a
  | none => throw .structError

def write (b : Bytes) : ClientM Unit := modify fun s => { s with written := s.written ++ [b] }

def callback (c : PoolCallback) : ClientM Unit := modify fun s => { s with callbacks := s.callbacks ++ [c] }

def sendInitialisation (maxVms vmUnusedTimeout : Int) (shareGuests : Bool) : ClientM Unit := do
  write (← field (packInit maxVms vmUnusedTimeout shareGuests))

def sendVmRequest (srcIp : String) : ClientM Unit := do
  write (← field (packRequest srcIp))

def sendVmFree (backendDirty : Bool) : ClientM Unit := do
  match (← get).vmId with
  | none => pure ()
  | some vmId => write (← field (packRelease backendDirty vmId))

/-- The guest in a response, from the id on (`client.py:81-117`). -/
def receiveGuest (resOp : UInt8) (resCode : Nat) (data : Bytes) : ClientM Unit := do
  let vmId ← field (unpackUInt 4 (data.take 4))
  modify fun s => { s with vmId := some vmId }
  let data := data.drop 4
  let ipLen ← field (unpackUInt 2 (data.take 2))
  let data := data.drop 2
  let honeyIp ← field (unpackString ipLen (data.take ipLen))
  let data := data.drop ipLen
  let ports ← field (unpackPorts data)
  let data := data.drop 4
  let snapshotLen ← field (unpackUInt 2 (data.take 2))
  let data := data.drop 2
  let snapshot ← field (unpackString snapshotLen (data.take snapshotLen))
  callback (.receivedPoolData resOp resCode honeyIp snapshot ports.1 ports.2)

def dataReceived (data : Bytes) : ClientM Unit := do
  if (← get).parent then
    let response ← field (unpackStatus data)
    if response.1 = 105 then callback (.initialisationResponse response.2)
    else if response.1 = 114 then
      if response.2 ≠ 0 then callback .loseConnection
      else receiveGuest response.1 response.2 (data.drop 5)
    else pure ()
  else pure ()

end PoolClient

/-! ## What the server reads -/

/-- A message of the client. -/
inductive ClientMessage
  | init (maxVms vmUnusedTimeout : Nat) (shareGuests : Bool)
  | request (srcIp : Ip)
  | release (vmId : Nat) (backendDirty : Bool)
  deriving DecidableEq, Repr

namespace Server

/-- What the server takes a message for; `none` has an unknown operation, and is ignored. -/
def decodeMessage (data : Bytes) : Except ServerError (Option ClientMessage) :=
  match data with
  | [] => .error .indexError
  | op :: b =>
    if op = 105 then
      match unpackInit b with
      | none => .error .structError
      | some (maxVms, timeout, share) => .ok (some (.init maxVms timeout share))
    else if op = 114 then
      match unpackRequest b with
      | .error e => .error e
      | .ok ip => .ok (some (.request ip))
    else if op = 102 ∨ op = 117 then
      match unpackUInt 4 b with
      | none => .error .structError
      | some vmId => .ok (some (.release vmId (op = 102)))
    else .ok none

/-- What the server does for a message. -/
def perform (config : ServerConfig) (env : ServerEnv) (m : ClientMessage) (s : Server) :
    Server × Except ServerError Bytes :=
  match m with
  | .init maxVms timeout share =>
    ({ s with pool := s.pool.setConfigs maxVms timeout share }, .ok (status 105 0))
  | .request ip =>
    match requestVm env.stop ip s with
    | (s, .ok guest) => answer config env guest s
    | (s, .error .noAvailableVMs) => (s, .ok (status 114 1))
    | (s, .error e) => (s, .error (.pool e))
  | .release vmId dirty =>
    let release := if dirty then PoolService.freeVm env.now else PoolService.reuseVm
    if s.pool.settings.natUsed then
      match s.nat.freeBinding vmId with
      | none => (s, .error .keyError)
      | some nat =>
        let s := s.setNat nat
        ({ s with pool := release vmId s.pool }, .ok [])
    else ({ s with pool := release vmId s.pool }, .ok [])

/-- **`dataReceived` does what it reads.** -/
theorem dataReceived_decode (config : ServerConfig) (env : ServerEnv) (data : Bytes) (s : Server) :
    s.dataReceived config env data =
      match decodeMessage data with
      | .error e => (s, .error e)
      | .ok none => (s, .ok [])
      | .ok (some m) => s.perform config env m := by
  unfold dataReceived decodeMessage
  cases data with
  | nil => rfl
  | cons op b =>
    simp only
    by_cases hinit : op = 105
    · rw [if_pos hinit, if_pos hinit]
      unfold receiveInit
      cases unpackInit b <;> rfl
    · rw [if_neg hinit, if_neg hinit]
      by_cases hrequest : op = 114
      · rw [if_pos hrequest, if_pos hrequest]
        unfold receiveRequest
        cases unpackRequest b <;> rfl
      · rw [if_neg hrequest, if_neg hrequest]
        by_cases hfree : op = 102
        · rw [if_pos hfree, if_pos (Or.inl hfree), decide_eq_true hfree]
          unfold receiveRelease
          cases unpackUInt 4 b <;> rfl
        · rw [if_neg hfree, decide_eq_false hfree]
          by_cases hreuse : op = 117
          · rw [if_pos hreuse, if_pos (Or.inr hreuse)]
            unfold receiveRelease
            cases unpackUInt 4 b <;> rfl
          · rw [if_neg hreuse, if_neg (not_or.mpr ⟨hfree, hreuse⟩)]

end Server

/-! ## Responses -/

/-- The guest that a response grants. -/
structure Grant where
  id : Nat
  ip : String
  sshPort : Nat
  telnetPort : Nat
  snapshot : String
  id_lt : id < 2 ^ 32
  ip_lt : (encode ip).length < 2 ^ 16
  sshPort_lt : sshPort < 2 ^ 16
  telnetPort_lt : telnetPort < 2 ^ 16
  snapshot_lt : (encode snapshot).length < 2 ^ 16

/-- The bytes of a response, from the id on. -/
def Grant.body (g : Grant) : Bytes :=
  intToBytes 4 g.id ++ (intToBytes 2 g.ip.length ++ (packString g.ip.length (encode g.ip) ++
    (intToBytes 2 g.sshPort ++ intToBytes 2 g.telnetPort ++ (intToBytes 2 g.snapshot.length ++
      packString g.snapshot.length (encode g.snapshot)))))

def Grant.bytes (g : Grant) : Bytes := Server.status 114 0 ++ g.body

/-- The call that gives `honeyIp` and `snapshot` to the parent. -/
def Grant.callback (g : Grant) (honeyIp snapshot : Bytes) : PoolCallback :=
  .receivedPoolData 114 0 honeyIp snapshot g.sshPort g.telnetPort

theorem packUInt_nat {k n : Nat} (h : n < 256 ^ k) : packUInt k n = some (intToBytes k n) := by
  unfold packUInt
  rw [if_pos ⟨Int.natCast_nonneg n, by exact_mod_cast h⟩]
  rfl

/-- The fields fit. -/
theorem Grant.fits (g : Grant) : g.id < 256 ^ 4 ∧ g.ip.length < 256 ^ 2 ∧ g.sshPort < 256 ^ 2 ∧
    g.telnetPort < 256 ^ 2 ∧ g.snapshot.length < 256 ^ 2 := by
  have hid := g.id_lt
  have hip := (length_le_encode g.ip).trans_lt g.ip_lt
  have hssh := g.sshPort_lt
  have htelnet := g.telnetPort_lt
  have hsnapshot := (length_le_encode g.snapshot).trans_lt g.snapshot_lt
  omega

/-- What the server packs for a request. -/
theorem Grant.packGranted_eq (g : Grant) :
    Server.packGranted g.id g.ip g.sshPort g.telnetPort g.snapshot = .ok g.bytes := by
  unfold Grant.bytes Grant.body
  obtain ⟨hid, hip, hssh, htelnet, hsnapshot⟩ := g.fits
  -- unfolded before it is applied, or the kernel evaluates the bounds of `packUInt`
  have hdef : Server.packGranted = Server.packGranted := rfl
  conv_rhs at hdef => delta Server.packGranted
  rw [hdef]
  beta_reduce
  rw [packUInt_nat hid, packUInt_nat hip, packUInt_nat hssh, packUInt_nat htelnet, packUInt_nat hsnapshot]
  simp only [Option.bind_eq_bind, Option.bind_some, Option.pure_def, List.append_assoc]

namespace PoolClient

theorem exec_field {α β : Type} (o : Option α) (k : α → ClientM β) (c : PoolClient) :
    exec (field o >>= k) c =
      match o with
      | some a => exec (k a) c
      | none => (.error .structError, c) := by
  cases o <;> rfl

/-- The next bytes hold a number. -/
theorem unpack_next {k n : Nat} (h : n < 256 ^ k) (b : Bytes) :
    unpackUInt k ((intToBytes k n ++ b).take k) = some n ∧ (intToBytes k n ++ b).drop k = b := by
  rw [List.take_left' (intToBytes_length k n), List.drop_left' (intToBytes_length k n)]
  exact ⟨unpackUInt_intToBytes h, rfl⟩

/-- The next bytes hold a string. -/
theorem unpackString_next (n : Nat) (s b : Bytes) :
    unpackString n ((packString n s ++ b).take n) = some (packString n s) ∧
    (packString n s ++ b).drop n = b := by
  rw [List.take_left' (packString_length n s), List.drop_left' (packString_length n s)]
  exact ⟨if_pos (packString_length n s), rfl⟩

/-- The next bytes hold two ports. -/
theorem unpackPorts_next {ssh telnet : Nat} (hssh : ssh < 256 ^ 2) (htelnet : telnet < 256 ^ 2) (b : Bytes) :
    unpackPorts (intToBytes 2 ssh ++ intToBytes 2 telnet ++ b) = some (ssh, telnet) ∧
    (intToBytes 2 ssh ++ intToBytes 2 telnet ++ b).drop 4 = b := by
  have hlength : (intToBytes 2 ssh ++ intToBytes 2 telnet).length = 4 := by simp
  refine ⟨?_, List.drop_left' hlength⟩
  unfold unpackPorts
  rw [List.take_left' hlength, if_pos hlength, List.append_assoc,
    List.take_left' (intToBytes_length 2 ssh), List.drop_left' (intToBytes_length 2 ssh),
    List.take_left' (intToBytes_length 2 telnet), intFromBytes_intToBytes, intFromBytes_intToBytes,
    Nat.mod_eq_of_lt hssh, Nat.mod_eq_of_lt htelnet]

theorem unpackStatus_status {code : Nat} (h : code < 256 ^ 4) (op : UInt8) (b : Bytes) :
    unpackStatus (Server.status op code ++ b) = some (op, code) ∧ (Server.status op code ++ b).drop 5 = b := by
  have hlength : (Server.status op code).length = 5 := by simp [Server.status]
  refine ⟨?_, List.drop_left' hlength⟩
  unfold unpackStatus
  rw [List.take_left' hlength]
  exact congrArg (Option.map (op, ·)) (unpackUInt_intToBytes h)

/-- **A response** in a call of its own: the strings arrive as they were packed. -/
theorem exec_dataReceived_grant (g : Grant) {c : PoolClient} (hparent : c.parent = true) :
    exec (dataReceived g.bytes) c = (.ok (), { c with
      vmId := some g.id
      callbacks := c.callbacks ++ [g.callback (packString g.ip.length (encode g.ip))
        (packString g.snapshot.length (encode g.snapshot))] }) := by
  obtain ⟨hstatus, hbody⟩ := unpackStatus_status (by decide : 0 < 256 ^ 4) 114 g.body
  obtain ⟨hid, hip, hssh, htelnet, hsnapshot⟩ := g.fits
  unfold dataReceived
  rw [exec_get_bind, if_pos hparent]
  unfold Grant.bytes
  rw [exec_field, hstatus, hbody]
  change exec (receiveGuest 114 0 g.body) c = _
  unfold receiveGuest Grant.body
  rw [exec_field, (unpack_next hid _).1]
  simp only
  rw [exec_modify_bind, (unpack_next hid _).2, exec_field, (unpack_next hip _).1]
  simp only
  rw [(unpack_next hip _).2, exec_field, (unpackString_next _ _ _).1]
  simp only
  rw [(unpackString_next _ _ _).2, exec_field, (unpackPorts_next hssh htelnet _).1]
  simp only
  rw [(unpackPorts_next hssh htelnet _).2, exec_field, (unpack_next hsnapshot _).1]
  simp only
  rw [(unpack_next hsnapshot _).2, exec_field]
  have hlast := (unpackString_next g.snapshot.length (encode g.snapshot) []).1
  rw [List.append_nil] at hlast
  rw [hlast]
  rfl

end PoolClient

/-! ## Messages -/

/-- The bytes of a message. -/
def ClientMessage.bytes : ClientMessage → Bytes
  | .init maxVms timeout share => 105 :: (intToBytes 4 maxVms ++ intToBytes 4 timeout ++ [if share then 1 else 0])
  | .request srcIp => 114 :: (intToBytes 2 srcIp.length ++ packString srcIp.length (encode srcIp))
  | .release vmId dirty => (if dirty then 102 else 117) :: intToBytes 4 vmId

/-- The address in it is ASCII. -/
def ClientMessage.Plain : ClientMessage → Prop
  | .request srcIp => Ascii srcIp
  | _ => True

/-- The call that sends a message. -/
def ClientMessage.send : ClientMessage → ClientM Unit
  | .init maxVms timeout share => PoolClient.sendInitialisation maxVms timeout share
  | .request srcIp => PoolClient.sendVmRequest srcIp
  | .release _ dirty => PoolClient.sendVmFree dirty

/-- The client has the guest that a message gives back. -/
def ClientMessage.Ready (c : PoolClient) : ClientMessage → Prop
  | .release vmId _ => c.vmId = some vmId
  | _ => True

def ClientMessage.Fits : ClientMessage → Prop
  | .init maxVms timeout _ => maxVms < 2 ^ 32 ∧ timeout < 2 ^ 32
  | .request srcIp => (encode srcIp).length < 2 ^ 16
  | .release vmId _ => vmId < 2 ^ 32

/-- A message whose fields fit. -/
structure SentMessage where
  message : ClientMessage
  fits : message.Fits

theorem packInit_eq {maxVms timeout : Nat} (hmax : maxVms < 256 ^ 4) (htimeout : timeout < 256 ^ 4)
    (share : Bool) : packInit maxVms timeout share = some (ClientMessage.init maxVms timeout share).bytes := by
  unfold packInit
  rw [packUInt_nat hmax, packUInt_nat htimeout]
  rfl

theorem packRequest_eq {srcIp : String} (h : srcIp.length < 256 ^ 2) :
    packRequest srcIp = some (ClientMessage.request srcIp).bytes := by
  unfold packRequest
  rw [packUInt_nat h]
  rfl

theorem packRelease_eq {vmId : Nat} (h : vmId < 256 ^ 4) (dirty : Bool) :
    packRelease dirty vmId = some (ClientMessage.release vmId dirty).bytes := by
  unfold packRelease
  rw [packUInt_nat h]
  rfl

/-- The fields fit into their bytes. -/
theorem SentMessage.pack_bounds (m : SentMessage) :
    match m.message with
    | .init maxVms timeout _ => maxVms < 256 ^ 4 ∧ timeout < 256 ^ 4
    | .request srcIp => srcIp.length < 256 ^ 2
    | .release vmId _ => vmId < 256 ^ 4 := by
  obtain ⟨m, hfits⟩ := m
  cases m with
  | init maxVms timeout share =>
    obtain ⟨hmax, htimeout⟩ := hfits
    exact ⟨by omega, by omega⟩
  | request srcIp =>
    have hlength := (length_le_encode srcIp).trans_lt hfits
    simp only
    omega
  | release vmId dirty =>
    have hid : vmId < 2 ^ 32 := hfits
    simp only
    omega

/-- A message that was packed is written. -/
theorem exec_write_field {o : Option Bytes} {b : Bytes} (h : o = some b) (c : PoolClient) :
    exec (PoolClient.field o >>= fun b => PoolClient.write b) c =
      (.ok (), { c with written := c.written ++ [b] }) := by
  rw [PoolClient.exec_field, h]
  rfl

/-- **What the client writes** for a message. -/
theorem SentMessage.exec_send (m : SentMessage) {c : PoolClient} (h : m.message.Ready c) :
    exec m.message.send c = (.ok (), { c with written := c.written ++ [m.message.bytes] }) := by
  have hbounds := m.pack_bounds
  obtain ⟨m, hfits⟩ := m
  cases m with
  | init maxVms timeout share => exact exec_write_field (packInit_eq hbounds.1 hbounds.2 share) c
  | request srcIp => exact exec_write_field (packRequest_eq hbounds) c
  | release vmId dirty =>
    have hready : c.vmId = some vmId := h
    have hsend := exec_write_field (packRelease_eq hbounds dirty) c
    rw [hready] at hsend
    change exec (PoolClient.sendVmFree dirty) c = _
    unfold PoolClient.sendVmFree
    rw [exec_get_bind, hready]
    exact hsend

theorem decodeMessage_init (b : Bytes) : Server.decodeMessage (105 :: b) =
    match Server.unpackInit b with
    | none => .error .structError
    | some (maxVms, timeout, share) => .ok (some (.init maxVms timeout share)) := rfl

theorem decodeMessage_request (b : Bytes) : Server.decodeMessage (114 :: b) =
    match Server.unpackRequest b with
    | .error e => .error e
    | .ok ip => .ok (some (.request ip)) := rfl

theorem decodeMessage_release (dirty : Bool) (b : Bytes) :
    Server.decodeMessage ((if dirty then 102 else 117) :: b) =
      match unpackUInt 4 b with
      | none => .error .structError
      | some vmId => .ok (some (.release vmId dirty)) := by
  cases dirty <;> rfl

theorem unpackInit_pack {maxVms timeout : Nat} (hmax : maxVms < 256 ^ 4) (htimeout : timeout < 256 ^ 4)
    (share : Bool) :
    Server.unpackInit (intToBytes 4 maxVms ++ intToBytes 4 timeout ++ [if share then 1 else 0]) =
      some (maxVms, timeout, share) := by
  unfold Server.unpackInit
  rw [if_pos (by simp), List.append_assoc, List.take_left' (intToBytes_length 4 _),
    List.drop_left' (intToBytes_length 4 _), List.take_left' (intToBytes_length 4 _),
    ← List.append_assoc, List.drop_left' (by simp), intFromBytes_intToBytes, intFromBytes_intToBytes,
    Nat.mod_eq_of_lt hmax, Nat.mod_eq_of_lt htimeout]
  cases share <;> rfl

/-- The server decodes as many bytes as the address has characters. -/
theorem unpackRequest_pack {srcIp : String} (h : srcIp.length < 256 ^ 2) :
    Server.unpackRequest (intToBytes 2 srcIp.length ++ packString srcIp.length (encode srcIp)) =
      match decode (packString srcIp.length (encode srcIp)) with
      | some ip => .ok ip
      | none => .error .unicodeDecodeError := by
  obtain ⟨hipLen, hrest⟩ := PoolClient.unpack_next h (packString srcIp.length (encode srcIp))
  have hstring : unpackString srcIp.length (packString srcIp.length (encode srcIp)) =
      some (packString srcIp.length (encode srcIp)) := if_pos (packString_length _ _)
  unfold Server.unpackRequest
  rw [hipLen, hrest]
  cases hip : decode (packString srcIp.length (encode srcIp)) <;> simp only [hstring, hip]

/-- **The server reads what the client was given**, if the address is ASCII. -/
theorem SentMessage.decode_iff (m : SentMessage) :
    Server.decodeMessage m.message.bytes = .ok (some m.message) ↔ m.message.Plain := by
  have hbounds := m.pack_bounds
  obtain ⟨m, hfits⟩ := m
  cases m with
  | init maxVms timeout share =>
    refine iff_of_true ?_ trivial
    unfold ClientMessage.bytes
    rw [decodeMessage_init, unpackInit_pack hbounds.1 hbounds.2]
  | request srcIp =>
    change _ ↔ Ascii srcIp
    rw [← packString_iff]
    unfold ClientMessage.bytes
    rw [decodeMessage_request, unpackRequest_pack hbounds]
    constructor
    · intro h
      cases hip : decode (packString srcIp.length (encode srcIp)) with
      | none =>
        rw [hip] at h
        cases h
      | some ip =>
        rw [hip] at h
        obtain rfl : ip = srcIp := by simpa using h
        exact (encode_of_decode hip).symm
    · intro h
      rw [h, decode_encode]
  | release vmId dirty =>
    refine iff_of_true ?_ trivial
    unfold ClientMessage.bytes
    rw [decodeMessage_release, unpackUInt_intToBytes hbounds]

/-! ## The round trip -/

/-- The client reads from a response what the server was given. -/
def Grant.Arrives (g : Grant) : Prop :=
  ∃ b, Server.packGranted g.id g.ip g.sshPort g.telnetPort g.snapshot = .ok b ∧
    ∀ c : PoolClient, c.parent = true → exec (PoolClient.dataReceived b) c =
      (.ok (), { c with
        vmId := some g.id
        callbacks := c.callbacks ++ [g.callback (encode g.ip) (encode g.snapshot)] })

/-- The server reads from what the client writes what the client was given. -/
def SentMessage.Arrives (m : SentMessage) : Prop :=
  ∃ b, (∀ c : PoolClient, m.message.Ready c →
      exec m.message.send c = (.ok (), { c with written := c.written ++ [b] })) ∧
    Server.decodeMessage b = .ok (some m.message)

theorem Grant.arrives_iff (g : Grant) : g.Arrives ↔ Ascii g.ip ∧ Ascii g.snapshot := by
  rw [← packString_iff, ← packString_iff]
  constructor
  · rintro ⟨b, hb, hreceived⟩
    obtain rfl : g.bytes = b := Except.ok.inj (g.packGranted_eq.symm.trans hb)
    have hcalls := hreceived { parent := true } rfl
    rw [PoolClient.exec_dataReceived_grant g rfl] at hcalls
    simpa [Grant.callback] using hcalls
  · rintro ⟨hip, hsnapshot⟩
    refine ⟨g.bytes, g.packGranted_eq, fun c hparent => ?_⟩
    rw [PoolClient.exec_dataReceived_grant g hparent, hip, hsnapshot]

/-- A client that is ready to send a message. -/
theorem ClientMessage.exists_ready (m : ClientMessage) : ∃ c : PoolClient, m.Ready c := by
  cases m with
  | init => exact ⟨{}, trivial⟩
  | request => exact ⟨{}, trivial⟩
  | release vmId => exact ⟨{ vmId := some vmId }, rfl⟩

theorem SentMessage.arrives_iff (m : SentMessage) : m.Arrives ↔ m.message.Plain := by
  rw [← m.decode_iff]
  constructor
  · rintro ⟨b, hsend, hdecode⟩
    obtain ⟨c, hc⟩ := m.message.exists_ready
    have hwritten := hsend c hc
    rw [m.exec_send hc] at hwritten
    obtain rfl : m.message.bytes = b := by simpa using hwritten
    exact hdecode
  · exact fun h => ⟨m.message.bytes, fun c hc => m.exec_send hc, h⟩

/-- **When both sides read what the other one was given.** -/
theorem roundTrip_iff (g : Grant) (m : SentMessage) :
    g.Arrives ∧ m.Arrives ↔ (Ascii g.ip ∧ Ascii g.snapshot) ∧ m.message.Plain := by
  rw [g.arrives_iff, m.arrives_iff]

/-- A snapshot with a letter of two bytes. -/
def accented : Grant where
  id := 2
  ip := "192.0.2.7"
  sshPort := 22
  telnetPort := 23
  snapshot := "é"
  id_lt := by decide
  ip_lt := by decide +kernel
  sshPort_lt := by decide
  telnetPort_lt := by decide
  snapshot_lt := by decide +kernel

/-- The client gets half of it. -/
theorem roundTrip_violated : ¬ ∀ (g : Grant) (m : SentMessage), g.Arrives ∧ m.Arrives := by
  intro h
  have hascii := accented.arrives_iff.mp (h accented ⟨.release 2 true, (by decide : 2 < 2 ^ 32)⟩).1
  exact absurd hascii.2 (by decide +kernel)

end Cowrie.Pool
