import Cowrie.Lib.Segments
import Cowrie.Pool.Client

/-!
# The pool's protocol on a byte stream

`dataReceived` of both sides (`src/backend_pool/pool_server.py:69-186`, `src/cowrie/pool_interface/client.py:65-117`)
takes what one call gets for one whole message, and keeps nothing for the next call. TCP delivers the bytes of the
messages in segments of any size.

* `Server.served`, `readResponse`: what the server and the client make of one call
  (`dataReceived_served`, `receiveAll_callbacks`). The server refuses a message that is too long, the client
  ignores what follows the first one.
* `Response`: what the server writes, and the call of the parent that it stands for.
* **`processed_iff`**: both sides process the messages that were sent exactly if every call gets one message, and
  the strings are ASCII.
-/

namespace Cowrie.Pool

open Cowrie.Lib

/-! ## The server -/

namespace Server

/-- The message that one call of `dataReceived` carries out, if any. -/
def served (data : Bytes) : Option ClientMessage :=
  match decodeMessage data with
  | .ok m => m
  | .error _ => none

/-- **One call of the server.** -/
theorem dataReceived_served (config : ServerConfig) (env : ServerEnv) (data : Bytes) (s : Server) :
    (s.dataReceived config env data).1 =
      match served data with
      | some m => (s.perform config env m).1
      | none => s := by
  rw [dataReceived_decode]
  unfold served
  cases decodeMessage data with
  | error e => rfl
  | ok m => cases m <;> rfl

end Server

/-- The bytes that the server needs for a message. -/
def ClientMessage.size : ClientMessage → Nat
  | .init _ _ _ => 10
  | .request srcIp => 3 + (encode srcIp).length
  | .release _ _ => 5

theorem length_of_unpackUInt {k n : Nat} {b : Bytes} (h : unpackUInt k b = some n) : b.length = k := by
  unfold unpackUInt at h
  split_ifs at h with hlength
  exact hlength

theorem length_of_unpackString {n : Nat} {b s : Bytes} (h : unpackString n b = some s) :
    b.length = n ∧ b = s := by
  unfold unpackString at h
  split_ifs at h with hlength
  exact ⟨hlength, Option.some.inj h⟩

theorem length_of_unpackRequest {b : Bytes} {ip : Ip} (h : Server.unpackRequest b = .ok ip) :
    b.length = 2 + (encode ip).length := by
  unfold Server.unpackRequest at h
  cases hlen : unpackUInt 2 (b.take 2) with
  | none =>
    rw [hlen] at h
    cases h
  | some ipLen =>
    rw [hlen] at h
    simp only at h
    cases hstring : unpackString ipLen (b.drop 2) with
    | none =>
      rw [hstring] at h
      cases h
    | some s =>
      rw [hstring] at h
      simp only at h
      cases hip : decode s with
      | none =>
        rw [hip] at h
        cases h
      | some t =>
        rw [hip] at h
        obtain rfl : t = ip := by simpa using h
        have hhead := length_of_unpackUInt hlen
        obtain ⟨-, hrest⟩ := length_of_unpackString hstring
        rw [encode_of_decode hip, ← hrest, List.length_drop]
        rw [List.length_take] at hhead
        omega

/-- **The server needs the whole message**, and nothing else. -/
theorem size_served {data : Bytes} {m : ClientMessage} (h : Server.served data = some m) :
    m.size = data.length := by
  unfold Server.served Server.decodeMessage at h
  cases data with
  | nil => cases h
  | cons op b =>
    simp only at h
    split_ifs at h with hinit hrequest hrelease
    · cases hunpack : Server.unpackInit b with
      | none =>
        rw [hunpack] at h
        cases h
      | some r =>
        rw [hunpack] at h
        obtain rfl := Option.some.inj h
        unfold Server.unpackInit at hunpack
        split_ifs at hunpack with hlength
        change 10 = b.length + 1
        omega
    · cases hunpack : Server.unpackRequest b with
      | error e =>
        rw [hunpack] at h
        cases h
      | ok ip =>
        rw [hunpack] at h
        obtain rfl := Option.some.inj h
        have hlength := length_of_unpackRequest hunpack
        change 3 + (encode ip).length = b.length + 1
        omega
    · cases hunpack : unpackUInt 4 b with
      | none =>
        rw [hunpack] at h
        cases h
      | some vmId =>
        rw [hunpack] at h
        obtain rfl := Option.some.inj h
        have hlength := length_of_unpackUInt hunpack
        change 5 = b.length + 1
        omega

theorem SentMessage.bytes_length (m : SentMessage) : m.message.bytes.length ≤ m.message.size := by
  obtain ⟨m, hfits⟩ := m
  cases m with
  | init maxVms timeout share => simp [ClientMessage.bytes, ClientMessage.size]
  | request srcIp =>
    have hle := length_le_encode srcIp
    simp only [ClientMessage.bytes, ClientMessage.size, List.length_cons, List.length_append,
      intToBytes_length, packString_length]
    omega
  | release vmId dirty => simp [ClientMessage.bytes, ClientMessage.size]

theorem SentMessage.served_iff (m : SentMessage) :
    Server.served m.message.bytes = some m.message ↔ m.message.Plain := by
  rw [← m.decode_iff]
  unfold Server.served
  cases Server.decodeMessage m.message.bytes with
  | error e => simp
  | ok r => simp

/-! ## The client -/

/-- The guest in a response, from the id on. -/
def readGuest (resOp : UInt8) (resCode : Nat) (data : Bytes) : Option PoolCallback :=
  (unpackUInt 4 (data.take 4)).bind fun _ =>
  (unpackUInt 2 ((data.drop 4).take 2)).bind fun ipLen =>
  (unpackString ipLen (((data.drop 4).drop 2).take ipLen)).bind fun honeyIp =>
  (unpackPorts (((data.drop 4).drop 2).drop ipLen)).bind fun ports =>
  (unpackUInt 2 (((((data.drop 4).drop 2).drop ipLen).drop 4).take 2)).bind fun snapshotLen =>
  (unpackString snapshotLen ((((((data.drop 4).drop 2).drop ipLen).drop 4).drop 2).take snapshotLen)).map
    fun snapshot => .receivedPoolData resOp resCode honeyIp snapshot ports.1 ports.2

/-- The call of the parent that one call of `dataReceived` leads to, if any. -/
def readResponse (data : Bytes) : Option PoolCallback :=
  (unpackStatus data).bind fun response =>
    if response.1 = 105 then some (.initialisationResponse response.2)
    else if response.1 = 114 then
      if response.2 ≠ 0 then some .loseConnection
      else readGuest response.1 response.2 (data.drop 5)
    else none

/-- A client whose parent is called with `o`, and that is otherwise like `c`, `vm_id` aside. -/
def Called (c : PoolClient) (o : Option PoolCallback) (t : PoolClient) : Prop :=
  t.callbacks = c.callbacks ++ o.toList ∧ t.parent = c.parent

theorem called_none (c : PoolClient) : Called c none c := ⟨(List.append_nil _).symm, rfl⟩

/-- A field that may be missing. -/
theorem called_field {α : Type} {o : Option α} {k : α → ClientM Unit} {f : α → Option PoolCallback}
    {c u : PoolClient} (hc : Called c none u) (h : ∀ a, Called c (f a) (exec (k a) u).2) :
    Called c (o.bind f) (exec (PoolClient.field o >>= k) u).2 := by
  rw [PoolClient.exec_field]
  cases o with
  | none => exact hc
  | some a => exact h a

theorem called_callback {c u : PoolClient} (hc : Called c none u) (call : PoolCallback) :
    Called c (some call) (exec (PoolClient.callback call) u).2 := by
  obtain ⟨hcalls, hparent⟩ := hc
  refine ⟨?_, hparent⟩
  change u.callbacks ++ [call] = _
  rw [hcalls, Option.toList_none, List.append_nil]
  rfl

theorem receiveGuest_called (resOp : UInt8) (resCode : Nat) (data : Bytes) (c : PoolClient) :
    Called c (readGuest resOp resCode data) (exec (PoolClient.receiveGuest resOp resCode data) c).2 := by
  unfold PoolClient.receiveGuest readGuest
  refine called_field (called_none c) fun vmId => ?_
  rw [exec_modify_bind]
  have hc : Called c none { c with vmId := some vmId } := called_none c
  refine called_field hc fun ipLen => called_field hc fun honeyIp => called_field hc fun ports => ?_
  refine called_field hc fun snapshotLen => ?_
  rw [Option.map_eq_bind]
  exact called_field hc fun snapshot => called_callback hc _

/-- **One call of the client.** -/
theorem dataReceived_called {c : PoolClient} (hparent : c.parent = true) (data : Bytes) :
    Called c (readResponse data) (exec (PoolClient.dataReceived data) c).2 := by
  unfold PoolClient.dataReceived readResponse
  rw [exec_get_bind, if_pos hparent]
  refine called_field (called_none c) fun response => ?_
  split_ifs
  · exact called_callback (called_none c) _
  · exact called_callback (called_none c) _
  · exact receiveGuest_called _ _ _ c
  · exact called_none c

/-- The state of a client after some calls of `dataReceived`. -/
def receiveAll (c : PoolClient) (segments : List Bytes) : PoolClient :=
  segments.foldl (fun c data => (exec (PoolClient.dataReceived data) c).2) c

/-- **All calls of the client.** -/
theorem receiveAll_callbacks {c : PoolClient} (hparent : c.parent = true) (segments : List Bytes) :
    (receiveAll c segments).callbacks = c.callbacks ++ segments.filterMap readResponse := by
  induction segments generalizing c with
  | nil => exact (List.append_nil _).symm
  | cons data segments ih =>
    obtain ⟨hcalls, hstill⟩ := dataReceived_called hparent data
    have hrest := ih (hstill.trans hparent)
    change (receiveAll (exec (PoolClient.dataReceived data) c).2 segments).callbacks = _
    rw [hrest, hcalls, List.append_assoc]
    cases hread : readResponse data with
    | none => rw [List.filterMap_cons_none hread]; rfl
    | some call => rw [List.filterMap_cons_some hread]; rfl

/-- The bytes that the client needs for a call. -/
def PoolCallback.size : PoolCallback → Nat
  | .initialisationResponse _ => 5
  | .loseConnection => 5
  | .receivedPoolData _ _ honeyIp snapshot _ _ => 17 + honeyIp.length + snapshot.length

theorem size_readGuest {resOp : UInt8} {resCode : Nat} {data : Bytes} {call : PoolCallback}
    (h : readGuest resOp resCode data = some call) : call.size ≤ data.length + 5 := by
  obtain ⟨vmId, hid, h⟩ := Option.bind_eq_some_iff.mp h
  obtain ⟨ipLen, hipLen, h⟩ := Option.bind_eq_some_iff.mp h
  obtain ⟨honeyIp, hip, h⟩ := Option.bind_eq_some_iff.mp h
  obtain ⟨ports, hports, h⟩ := Option.bind_eq_some_iff.mp h
  obtain ⟨snapshotLen, hsnapshotLen, h⟩ := Option.bind_eq_some_iff.mp h
  obtain ⟨snapshot, hsnapshot, rfl⟩ := Option.map_eq_some_iff.mp h
  have hidLength := length_of_unpackUInt hid
  have hipLenLength := length_of_unpackUInt hipLen
  obtain ⟨hipLength, rfl⟩ := length_of_unpackString hip
  have hsnapshotLenLength := length_of_unpackUInt hsnapshotLen
  obtain ⟨hsnapshotLength, rfl⟩ := length_of_unpackString hsnapshot
  unfold unpackPorts at hports
  split_ifs at hports with hportsLength
  unfold PoolCallback.size
  simp only [List.length_take, List.length_drop] at *
  omega

theorem size_readResponse {data : Bytes} {call : PoolCallback} (h : readResponse data = some call) :
    call.size ≤ data.length := by
  obtain ⟨response, hstatus, h⟩ := Option.bind_eq_some_iff.mp h
  have hlength : 5 ≤ data.length := by
    unfold unpackStatus at hstatus
    cases htake : data.take 5 with
    | nil =>
      rw [htake] at hstatus
      cases hstatus
    | cons op b =>
      rw [htake] at hstatus
      obtain ⟨code, hcode, -⟩ := Option.map_eq_some_iff.mp hstatus
      have hb := length_of_unpackUInt hcode
      have htotal := congrArg List.length htake
      rw [List.length_take, List.length_cons, hb] at htotal
      omega
  split_ifs at h with hinit hrequest hcode
  · obtain rfl := Option.some.inj h
    exact hlength
  · obtain rfl := Option.some.inj h
    exact hlength
  · have hguest := size_readGuest h
    rw [List.length_drop] at hguest
    omega

/-! ## Responses -/

/-- What the server writes. -/
inductive Response
  | init
  | granted (g : Grant)
  | refused

namespace Response

def bytes : Response → Bytes
  | init => Server.status 105 0
  | granted g => g.bytes
  | refused => Server.status 114 1

/-- The call of the parent that it stands for. -/
def callback : Response → PoolCallback
  | init => .initialisationResponse 0
  | granted g => g.callback (encode g.ip) (encode g.snapshot)
  | refused => .loseConnection

/-- The strings in it are ASCII. -/
def Plain : Response → Prop
  | granted g => Ascii g.ip ∧ Ascii g.snapshot
  | _ => True

theorem bytes_length (r : Response) : r.bytes.length ≤ r.callback.size := by
  cases r with
  | init => exact Nat.le_refl 5
  | granted g =>
    have hip := length_le_encode g.ip
    have hsnapshot := length_le_encode g.snapshot
    simp only [bytes, callback, Grant.bytes, Grant.body, Grant.callback, Server.status, PoolCallback.size,
      List.length_append, List.length_cons, intToBytes_length, packString_length]
    omega
  | refused => exact Nat.le_refl 5

/-- A response in a call of its own. -/
theorem read_iff (r : Response) : readResponse r.bytes = some r.callback ↔ r.Plain := by
  cases r with
  | init => exact iff_of_true rfl trivial
  | refused => exact iff_of_true rfl trivial
  | granted g =>
    have hcalls := (dataReceived_called (c := { parent := true }) rfl g.bytes).1
    rw [PoolClient.exec_dataReceived_grant g rfl] at hcalls
    have hread : readResponse g.bytes = some (g.callback (packString g.ip.length (encode g.ip))
        (packString g.snapshot.length (encode g.snapshot))) := by
      cases hread : readResponse g.bytes with
      | none =>
        rw [hread] at hcalls
        cases hcalls
      | some call =>
        rw [hread] at hcalls
        exact congrArg some (List.cons.inj hcalls).1.symm
    change readResponse g.bytes = some (g.callback (encode g.ip) (encode g.snapshot)) ↔ _
    rw [hread]
    simp [Grant.callback, packString_iff, Plain]

end Response

/-! ## Both directions -/

/-- The server carries out the messages that the client has sent, once each and in order, and the parent of the
client gets the calls that the server's responses stand for. -/
def Processed (ms : List SentMessage) (rs : List Response)
    (cs : Segmentation (ms.flatMap fun m => m.message.bytes)) (ss : Segmentation (rs.flatMap Response.bytes)) :
    Prop :=
  cs.segments.filterMap Server.served = ms.map SentMessage.message ∧
  ∀ c : PoolClient, c.parent = true →
    (receiveAll c ss.segments).callbacks = c.callbacks ++ rs.map Response.callback

/-- **When both sides process what was sent.** -/
theorem processed_iff (ms : List SentMessage) (rs : List Response)
    (cs : Segmentation (ms.flatMap fun m => m.message.bytes)) (ss : Segmentation (rs.flatMap Response.bytes)) :
    Processed ms rs cs ss ↔
      (cs.segments = ms.map (fun m => m.message.bytes) ∧ ∀ m ∈ ms, m.message.Plain) ∧
      (ss.segments = rs.map Response.bytes ∧ ∀ r ∈ rs, r.Plain) := by
  have hserver := filterMap_read_iff ClientMessage.size (fun _ _ h => (size_served h).le)
    (fun m _ => SentMessage.bytes_length m) cs
  have hclient := filterMap_read_iff PoolCallback.size (fun _ _ h => size_readResponse h)
    (fun r _ => Response.bytes_length r) ss
  simp only [SentMessage.served_iff] at hserver
  simp only [Response.read_iff] at hclient
  unfold Processed
  rw [hserver, ← hclient]
  refine and_congr_right fun _ => ?_
  constructor
  · intro h
    have hcalls := h { parent := true } rfl
    rw [receiveAll_callbacks rfl] at hcalls
    exact List.append_cancel_left hcalls
  · intro h c hparent
    rw [receiveAll_callbacks hparent, h]

/-- Two guests that are given back. -/
def twoReleases : List SentMessage :=
  [⟨.release 1 true, by unfold ClientMessage.Fits; decide⟩,
    ⟨.release 2 true, by unfold ClientMessage.Fits; decide⟩]

/-- In one segment, neither is given back. -/
theorem processed_violated : ¬ ∀ (ms : List SentMessage) (rs : List Response)
    (cs : Segmentation (ms.flatMap fun m => m.message.bytes)) (ss : Segmentation (rs.flatMap Response.bytes)),
    Processed ms rs cs ss := by
  intro h
  have hserver := (h twoReleases [] ⟨[[102, 0, 0, 0, 1, 102, 0, 0, 0, 2]], by decide, by decide⟩
    ⟨[], by decide, rfl⟩).1
  exact absurd hserver (by decide)

end Cowrie.Pool
