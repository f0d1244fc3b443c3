import Cowrie.Tftp.Client

/-!
# A TFTP transfer (`src/cowrie/commands/tftp.py:78-158`)

The client of `Client.lean`, a server that conforms to the protocol, and a network that loses, duplicates and
reorders datagrams.

* The server has one `Session` for every read request that arrives, with an address of its own. A session
  sends its block until it is acknowledged, and then the next one. Block numbers have 16 bits and wrap.
* `NetEvent.toServer i` and `toClient i` deliver the `i`-th datagram that the other side has sent: once,
  several times, late or never.
* `Lossless`: every datagram is delivered once and in the order of sending, and nobody times out.

Results:
* **`integrity`**: whenever a transfer has succeeded, the artifact has the blocks of the file, each once and in
  order. It rests on `Sound`, which is kept by every step while the client has not failed.
* `success_short`: no transfer of a file with 65536 blocks or more succeeds.
* **`faithful_iff`**: every lossless transfer succeeds exactly if the file has less than 65535 blocks of 512
  bytes. The client compares block numbers with `current_block + 1`, which does not wrap: block 65536 is
  dropped without an answer (`stuck`).
-/

namespace Cowrie.Tftp

open Cowrie.Lib TFTPClient

/-! ## The file -/

def packDATA (n : Nat) (data : Bytes) : Bytes := intToBytes 2 opcodeDATA ++ intToBytes 2 n ++ data

/-- The block with number `i + 1`. -/
def fileBlock (contents : Bytes) (i : Nat) : Bytes := (contents.drop (blockSize * i)).take blockSize

/-- The number of blocks; the last one is short, and may be empty. -/
def blockCount (contents : Bytes) : Nat := contents.length / blockSize + 1

def fileBlocks (contents : Bytes) : List Bytes := (List.range (blockCount contents)).map (fileBlock contents)

/-! ## The server and the network -/

/-- A transfer of the server, which waits for the acknowledgment of a block. -/
structure Session where
  tid : Addr
  current : Nat
  finished : Bool := false
  deriving DecidableEq

/-- The datagram that a session sends until it is acknowledged. -/
def Session.packet (contents : Bytes) (x : Session) : Bytes × Addr :=
  (packDATA x.current (fileBlock contents (x.current - 1)), x.tid)

/-- A datagram acknowledges the block of a session. -/
def Session.Acknowledged (d : Bytes) (dst : Addr) (x : Session) : Prop :=
  x.tid = dst ∧ x.finished = false ∧ opcode d = opcodeACK ∧ blockNum d = x.current % 65536

instance (d : Bytes) (dst : Addr) (x : Session) : Decidable (x.Acknowledged d dst) :=
  inferInstanceAs (Decidable (_ ∧ _))

def Session.next (contents : Bytes) (x : Session) : Session :=
  if x.current < blockCount contents then { x with current := x.current + 1 } else { x with finished := true }

/-- The client, the sessions, and what the server has sent. -/
structure System where
  client : TFTPClient
  sessions : List Session := []
  served : List (Bytes × Addr) := []

/-- A datagram arrives at the server, with `tid` for a new session. -/
def System.serve (cfg : Config) (contents d : Bytes) (dst tid : Addr) (s : System) : Option System :=
  if dst = (cfg.host, cfg.port) then
    if opcode d = opcodeRRQ then
      if tid ≠ (cfg.host, cfg.port) ∧ ∀ x ∈ s.sessions, x.tid ≠ tid then
        some { s with
          sessions := s.sessions ++ [⟨tid, 1, false⟩]
          served := s.served ++ [Session.packet contents ⟨tid, 1, false⟩] }
      else none
    else some s
  else some { s with
    sessions := s.sessions.map fun x => if x.Acknowledged d dst then x.next contents else x
    served := s.served ++
      (s.sessions.filter fun x => x.Acknowledged d dst ∧ x.current < blockCount contents).map fun x =>
        (x.next contents).packet contents }

inductive NetEvent
  | toServer (i : Nat) (tid : Addr)
  | toClient (i : Nat)
  | timeout
  | resend (j : Nat)
  deriving DecidableEq, Repr

def netStep (cfg : Config) (contents : Bytes) (s : System) : NetEvent → Option System
  | .toServer i tid => s.client.sent[i]?.bind fun p => s.serve cfg contents p.1 p.2 tid
  | .toClient i => s.served[i]?.bind fun p =>
      (step cfg s.client (.datagram p.1 p.2)).map fun c => { s with client := c }
  | .timeout => (step cfg s.client .timeout).map fun c => { s with client := c }
  | .resend j => s.sessions[j]?.bind fun x =>
      if x.finished then none else some { s with served := s.served ++ [x.packet contents] }

/-- The client has sent its request. -/
def opened (cfg : Config) : System := { client := start cfg }

/-! ## Packets -/

theorem packDATA_length (n : Nat) (data : Bytes) : 4 ≤ (packDATA n data).length := by
  unfold packDATA
  rw [List.length_append, List.length_append, intToBytes_length, intToBytes_length]
  omega

theorem opcode_append (k : Nat) (b : Bytes) : opcode (intToBytes 2 k ++ b) = k % 65536 := by
  unfold opcode
  rw [List.take_append_of_le_length (intToBytes_length 2 k).ge,
    List.take_of_length_le (intToBytes_length 2 k).le, intFromBytes_intToBytes]
  rfl

theorem blockNum_append (k n : Nat) (b : Bytes) :
    blockNum (intToBytes 2 k ++ intToBytes 2 n ++ b) = n % 65536 := by
  unfold blockNum
  rw [List.append_assoc, List.drop_left' (intToBytes_length 2 k),
    List.take_append_of_le_length (intToBytes_length 2 n).ge,
    List.take_of_length_le (intToBytes_length 2 n).le, intFromBytes_intToBytes]
  rfl

theorem opcode_packDATA (n : Nat) (data : Bytes) : opcode (packDATA n data) = opcodeDATA := by
  unfold packDATA
  rw [List.append_assoc, opcode_append]
  rfl

theorem blockNum_packDATA (n : Nat) (data : Bytes) : blockNum (packDATA n data) = n % 65536 :=
  blockNum_append _ n data

theorem payload_packDATA (n : Nat) (data : Bytes) : payload (packDATA n data) = data := by
  unfold payload packDATA
  exact List.drop_left' (by rw [List.length_append, intToBytes_length, intToBytes_length])

theorem opcode_packACK (n : Nat) : opcode (packACK n) = opcodeACK := opcode_append opcodeACK _

theorem blockNum_packACK (n : Nat) : blockNum (packACK n) = n % 65536 := by
  have h := blockNum_append opcodeACK n []
  rwa [List.append_nil] at h

theorem opcode_packRRQ (filename : Bytes) : opcode (packRRQ filename) = opcodeRRQ := by
  unfold packRRQ
  rw [List.append_assoc, List.append_assoc, List.append_assoc, opcode_append]
  rfl

/-- A short block is the last one. -/
theorem fileBlock_short {contents : Bytes} {i : Nat} (h : i < blockCount contents) :
    (fileBlock contents i).length < blockSize ↔ i + 1 = blockCount contents := by
  unfold fileBlock blockCount blockSize at *
  rw [List.length_take, List.length_drop]
  omega

/-- The blocks make up the file. -/
theorem fileBlocks_flatten (contents : Bytes) : (fileBlocks contents).flatten = contents := by
  have htake : ∀ n, ((List.range n).map (fileBlock contents)).flatten = contents.take (blockSize * n) := by
    intro n
    induction n with
    | zero => rfl
    | succ n ih =>
      rw [List.range_succ, List.map_append, List.flatten_append, ih, Nat.mul_succ, List.take_add]
      simp [fileBlock]
  unfold fileBlocks
  rw [htake]
  refine List.take_of_length_le ?_
  unfold blockCount blockSize
  omega

/-! ## Integrity -/

/-- What the client sends after it has got some blocks. -/
def Asks (cfg : Config) (blocks : Nat) (d : Bytes) : Prop :=
  d = packRRQ cfg.filename ∨ ∃ n, 0 < n ∧ n ≤ blocks ∧ d = packACK n

/-- What holds as long as the client has not failed. -/
structure Sound (cfg : Config) (contents : Bytes) (s : System) : Prop where
  outcome : s.client.deferred = none ∨ s.client.deferred = some .success
  artifact : s.client.artifact = (List.range s.client.currentBlock).map (fileBlock contents)
  bound : s.client.currentBlock < 65536
  complete : s.client.deferred = some .success → s.client.currentBlock = blockCount contents
  served : ∀ p ∈ s.served, ∃ j, j ≤ s.client.currentBlock ∧ j < blockCount contents ∧
    p.1 = packDATA (j + 1) (fileBlock contents j)
  sessions : ∀ x ∈ s.sessions, ∃ j, j ≤ s.client.currentBlock ∧ j < blockCount contents ∧ x.current = j + 1
  sent : ∀ p ∈ s.client.sent, Asks cfg s.client.currentBlock p.1

/-- The client has failed. -/
def Failed (s : System) : Prop := s.client.deferred ≠ none ∧ s.client.deferred ≠ some .success

/-- The client has failed, or everything is as it should be. -/
def Kept (cfg : Config) (contents : Bytes) (s : System) : Prop := Failed s ∨ Sound cfg contents s

variable {cfg : Config} {contents : Bytes} {s : System}

theorem Asks.mono {m n : Nat} {d : Bytes} (h : Asks cfg m d) (hle : m ≤ n) : Asks cfg n d :=
  h.imp id fun ⟨k, hpos, hk, hd⟩ => ⟨k, hpos, hk.trans hle, hd⟩

/-- A client that has no more blocks than before. -/
theorem Sound.idle (h : Sound cfg contents s) {c : TFTPClient} (hdeferred : c.deferred = s.client.deferred)
    (hartifact : c.artifact = s.client.artifact) (hblock : c.currentBlock = s.client.currentBlock)
    (hsent : ∀ p ∈ c.sent, p ∈ s.client.sent ∨ Asks cfg s.client.currentBlock p.1) :
    Sound cfg contents { s with client := c } := by
  obtain ⟨outcome, artifact, bound, complete, served, sessions, sent⟩ := h
  constructor <;> simp only [hdeferred, hartifact, hblock]
  · exact outcome
  · exact artifact
  · exact bound
  · exact complete
  · exact served
  · exact sessions
  · exact fun p hp => (hsent p hp).elim (sent p) id

/-- A client that gets its next block. -/
theorem Sound.next (h : Sound cfg contents s) (hbound : s.client.currentBlock + 1 < 65536) {c : TFTPClient}
    (hblock : c.currentBlock = s.client.currentBlock + 1)
    (hartifact : c.artifact = s.client.artifact ++ [fileBlock contents s.client.currentBlock])
    (houtcome : c.deferred = none ∨
      c.deferred = some .success ∧ s.client.currentBlock + 1 = blockCount contents)
    (hsent : ∀ p ∈ c.sent, p ∈ s.client.sent ∨ p.1 = packACK (s.client.currentBlock + 1)) :
    Sound cfg contents { s with client := c } := by
  constructor <;> simp only [hblock]
  · exact houtcome.imp id And.left
  · rw [hartifact, h.artifact, List.range_succ, List.map_append]
    rfl
  · exact hbound
  · intro hsuccess
    rcases houtcome with hnone | ⟨-, hlast⟩
    · rw [hnone] at hsuccess
      cases hsuccess
    · exact hlast
  · intro p hp
    obtain ⟨j, hj, hcount, hpacket⟩ := h.served p hp
    exact ⟨j, hj.trans (Nat.le_succ _), hcount, hpacket⟩
  · intro x hx
    obtain ⟨j, hj, hcount, hcurrent⟩ := h.sessions x hx
    exact ⟨j, hj.trans (Nat.le_succ _), hcount, hcurrent⟩
  · intro p hp
    rcases hsent p hp with hp | hp
    · exact (h.sent p hp).mono (Nat.le_succ _)
    · exact Or.inr ⟨_, Nat.succ_pos _, Nat.le_refl _, hp⟩

/-- A block that is neither the next one nor the last one. -/
theorem not_answers_data {c : TFTPClient} {d : Bytes} (hopcode : opcode d = opcodeDATA)
    (hnext : blockNum d ≠ c.currentBlock + 1) (hsame : blockNum d ≠ c.currentBlock) : ¬ Answers c d := by
  rintro (⟨-, hblock⟩ | ⟨herror, -⟩)
  · exact hblock.elim hnext hsame
  · rw [hopcode] at herror
    exact absurd herror (by decide)

/-- **A datagram of the server**, old or new, arrives at the client. -/
theorem Sound.toClient (h : Sound cfg contents s) {p : Bytes × Addr} (hp : p ∈ s.served) :
    Sound cfg contents { s with client := (exec (datagramReceived cfg p.1 p.2) s.client).2 } := by
  obtain ⟨j, hj, hcount, hpacket⟩ := h.served p hp
  have hbound := h.bound
  have hlength : 4 ≤ p.1.length := hpacket ▸ packDATA_length _ _
  have hopcode : opcode p.1 = opcodeDATA := hpacket ▸ opcode_packDATA _ _
  have hnumber : blockNum p.1 = (j + 1) % 65536 := hpacket ▸ blockNum_packDATA _ _
  have hpayload : payload p.1 = fileBlock contents j := hpacket ▸ payload_packDATA _ _
  by_cases hnext : blockNum p.1 = s.client.currentBlock + 1
  · -- the number has not wrapped, so it is the next block, and the client is not done
    obtain rfl : j = s.client.currentBlock := by omega
    have hopen : s.client.deferred = none := by
      refine h.outcome.resolve_right fun hsuccess => ?_
      have := h.complete hsuccess
      omega
    rw [received_expected cfg hopen hlength hopcode hnext, hpayload]
    have hack : ∀ q : Bytes × Addr, q ∈ s.client.sent ++ [(packACK (blockNum p.1),
        (some (s.client.serverTid.getD p.2)).getD (cfg.host, cfg.port))] →
        q ∈ s.client.sent ∨ q.1 = packACK (s.client.currentBlock + 1) := by
      intro q hq
      refine (List.mem_append.mp hq).imp id fun hq => ?_
      rw [List.mem_singleton.mp hq, hnext]
    split_ifs with hlast
    · exact h.next (by omega) hnext rfl (Or.inr ⟨rfl, (fileBlock_short hcount).mp hlast⟩) hack
    · exact h.next (by omega) hnext rfl (Or.inl hopen) hack
  · by_cases hsame : blockNum p.1 = s.client.currentBlock
    · rw [received_again hlength hopcode hsame]
      refine h.idle rfl rfl rfl fun q hq => (List.mem_append.mp hq).imp id fun hq => ?_
      -- the first block has a number, so there is a block to acknowledge
      exact Or.inr ⟨s.client.currentBlock, by omega, Nat.le_refl _, by rw [List.mem_singleton.mp hq, hsame]⟩
    · obtain ⟨text, htext⟩ :=
        received_ignored cfg hlength (not_answers_data hopcode hnext hsame) p.2
      rw [htext]
      exact h.idle rfl rfl rfl fun q hq => Or.inl hq

/-- **The timeout of the client.** -/
theorem Sound.timeout (h : Sound cfg contents s) {c : TFTPClient}
    (hstep : step cfg s.client .timeout = some c) : Kept cfg contents { s with client := c } := by
  have hpending : s.client.pending := by
    by_contra hno
    unfold step at hstep
    rw [if_neg hno] at hstep
    cases hstep
  rw [timeout_step cfg hpending] at hstep
  obtain rfl := Option.some.inj hstep
  split_ifs with hlast
  · rcases h.outcome with hopen | hsuccess
    · left
      unfold Failed
      rw [hopen]
      exact ⟨fun h => (by cases h), fun h => (by cases h)⟩
    · right
      refine h.idle ?_ rfl rfl fun q hq => Or.inl hq
      rw [hsuccess]
      rfl
  · right
    refine h.idle rfl rfl rfl fun q hq => (List.mem_append.mp hq).imp id fun hq => ?_
    rw [List.mem_singleton.mp hq]
    unfold retransmission
    by_cases hfirst : s.client.currentBlock = 0
    · rw [if_pos hfirst]
      exact Or.inl rfl
    · rw [if_neg hfirst]
      exact Or.inr ⟨_, Nat.pos_of_ne_zero hfirst, Nat.le_refl _, rfl⟩

/-- A session moves on only after the client has its block. -/
theorem Sound.acknowledged (h : Sound cfg contents s) {p : Bytes × Addr} (hp : p ∈ s.client.sent)
    {x : Session} (hx : x ∈ s.sessions) (hack : x.Acknowledged p.1 p.2) :
    x.current ≤ s.client.currentBlock := by
  obtain ⟨-, -, hopcode, hnumber⟩ := hack
  obtain ⟨j, hj, -, hcurrent⟩ := h.sessions x hx
  have hbound := h.bound
  rcases h.sent p hp with hrrq | ⟨n, hpos, hn, hack⟩
  · rw [hrrq, opcode_packRRQ] at hopcode
    exact absurd hopcode (by decide)
  · rw [hack, blockNum_packACK] at hnumber
    omega

/-- **A datagram of the client** arrives at the server. -/
theorem Sound.toServer (h : Sound cfg contents s) {p : Bytes × Addr} (hp : p ∈ s.client.sent) {tid : Addr}
    {t : System} (hstep : s.serve cfg contents p.1 p.2 tid = some t) : Sound cfg contents t := by
  have hfirst : 0 < blockCount contents := Nat.succ_pos _
  unfold System.serve at hstep
  split_ifs at hstep with hwell hrrq hfresh
  · obtain rfl := Option.some.inj hstep
    refine { h with served := fun q hq => ?_, sessions := fun x hx => ?_ }
    · rcases List.mem_append.mp hq with hq | hq
      · exact h.served q hq
      · rw [List.mem_singleton.mp hq]
        exact ⟨0, Nat.zero_le _, hfirst, rfl⟩
    · rcases List.mem_append.mp hx with hx | hx
      · exact h.sessions x hx
      · rw [List.mem_singleton.mp hx]
        exact ⟨0, Nat.zero_le _, hfirst, rfl⟩
  · obtain rfl := Option.some.inj hstep
    exact h
  · obtain rfl := Option.some.inj hstep
    refine { h with served := fun q hq => ?_, sessions := fun y hy => ?_ }
    · rcases List.mem_append.mp hq with hq | hq
      · exact h.served q hq
      · obtain ⟨x, hx, rfl⟩ := List.mem_map.mp hq
        obtain ⟨hmem, hcond⟩ := List.mem_filter.mp hx
        obtain ⟨hack, hmore⟩ := of_decide_eq_true hcond
        unfold Session.next
        rw [if_pos hmore]
        exact ⟨x.current, h.acknowledged hp hmem hack, hmore, rfl⟩
    · obtain ⟨x, hx, rfl⟩ := List.mem_map.mp hy
      split_ifs with hack
      · unfold Session.next
        split_ifs with hmore
        · exact ⟨x.current, h.acknowledged hp hx hack, hmore, rfl⟩
        · exact h.sessions x hx
      · exact h.sessions x hx

/-- **Every step**, whatever the network does. -/
theorem kept_step {t : System} {e : NetEvent} (h : Kept cfg contents s)
    (hstep : netStep cfg contents s e = some t) : Kept cfg contents t := by
  have hclient : ∀ e' c, step cfg s.client e' = some c → Failed s → Failed { s with client := c } := by
    intro e' c hc hfailed
    unfold Failed
    rw [step_settled hc hfailed.1]
    exact hfailed
  cases e with
  | toServer i tid =>
    obtain ⟨p, hp, hserve⟩ := Option.bind_eq_some_iff.mp hstep
    rcases h with hfailed | hsound
    · left
      unfold System.serve at hserve
      split_ifs at hserve <;> obtain rfl := Option.some.inj hserve <;> exact hfailed
    · exact Or.inr (hsound.toServer (List.mem_of_getElem? hp) hserve)
  | toClient i =>
    obtain ⟨p, hp, hmap⟩ := Option.bind_eq_some_iff.mp hstep
    obtain ⟨c, hc, rfl⟩ := Option.map_eq_some_iff.mp hmap
    rcases h with hfailed | hsound
    · exact Or.inl (hclient _ c hc hfailed)
    · obtain rfl := Option.some.inj hc
      exact Or.inr (hsound.toClient (List.mem_of_getElem? hp))
  | timeout =>
    obtain ⟨c, hc, rfl⟩ := Option.map_eq_some_iff.mp hstep
    rcases h with hfailed | hsound
    · exact Or.inl (hclient _ c hc hfailed)
    · exact hsound.timeout hc
  | resend j =>
    obtain ⟨x, hx, hresend⟩ := Option.bind_eq_some_iff.mp hstep
    split_ifs at hresend
    obtain rfl := Option.some.inj hresend
    refine h.imp id fun hsound => { hsound with served := fun q hq => ?_ }
    rcases List.mem_append.mp hq with hq | hq
    · exact hsound.served q hq
    · obtain ⟨j, hj, hcount, hcurrent⟩ := hsound.sessions x (List.mem_of_getElem? hx)
      refine ⟨j, hj, hcount, ?_⟩
      rw [List.mem_singleton.mp hq]
      unfold Session.packet
      rw [hcurrent]
      rfl

theorem opened_sound (cfg : Config) (contents : Bytes) : Sound cfg contents (opened cfg) where
  outcome := Or.inl rfl
  artifact := rfl
  bound := (by decide : 0 < 65536)
  complete := fun h => by cases h
  served := fun _ h => by cases h
  sessions := fun _ h => by cases h
  sent := fun p hp => Or.inl (by rw [List.mem_singleton.mp hp])

theorem sound_of_success {es : List NetEvent} {t : System}
    (hrun : run (netStep cfg contents) (opened cfg) es = some t) (hsuccess : t.client.deferred = some .success) :
    Sound cfg contents t := by
  have hkept : Kept cfg contents t :=
    run_inv' (fun _ _ _ => kept_step) (Or.inr (opened_sound cfg contents)) hrun
  exact hkept.resolve_left fun hfailed => hfailed.2 hsuccess

/-- **Integrity**: if a transfer succeeds, the artifact has the blocks of the file. -/
theorem integrity {es : List NetEvent} {t : System} (hrun : run (netStep cfg contents) (opened cfg) es = some t)
    (hsuccess : t.client.deferred = some .success) : t.client.artifact = fileBlocks contents := by
  have hsound := sound_of_success hrun hsuccess
  rw [hsound.artifact, hsound.complete hsuccess]
  rfl

/-- A file whose block numbers wrap is never transferred, whatever the network does. -/
theorem success_short {es : List NetEvent} {t : System}
    (hrun : run (netStep cfg contents) (opened cfg) es = some t) (hsuccess : t.client.deferred = some .success) :
    blockCount contents < 65536 := by
  have hsound := sound_of_success hrun hsuccess
  rw [← hsound.complete hsuccess]
  exact hsound.bound

/-! ## Lossless transfers -/

/-- The datagrams that arrive at the server. -/
def requests : List NetEvent → List Nat
  | [] => []
  | .toServer i _ :: es => i :: requests es
  | _ :: es => requests es

/-- The datagrams that arrive at the client. -/
def replies : List NetEvent → List Nat
  | [] => []
  | .toClient i :: es => i :: replies es
  | _ :: es => replies es

def NetEvent.IsDelivery : NetEvent → Prop
  | toServer _ _ => True
  | toClient _ => True
  | timeout => False
  | resend _ => False

/-- Every datagram arrives once and in the order of sending, and nobody sends one again. -/
structure Lossless (es : List NetEvent) (t : System) : Prop where
  quiet : ∀ e ∈ es, e.IsDelivery
  requests : requests es = List.range t.client.sent.length
  replies : replies es = List.range t.served.length

/-- There is a lossless transfer, and every one succeeds. -/
def Completes (cfg : Config) (contents : Bytes) : Prop :=
  (∃ es t, run (netStep cfg contents) (opened cfg) es = some t ∧ Lossless es t) ∧
  ∀ es t, run (netStep cfg contents) (opened cfg) es = some t → Lossless es t →
    t.client.deferred = some .success

/-- What the client has sent last: its request, or the acknowledgment of block `k`. -/
def LastSent (cfg : Config) (k : Nat) (s : System) : Prop :=
  (k = 0 ∧ s.client.sent[k]? = some (packRRQ cfg.filename, cfg.host, cfg.port) ∧ s.sessions = [] ∧
    s.client.serverTid = none) ∨
  ∃ tid, tid ≠ (cfg.host, cfg.port) ∧ s.client.sent[k]? = some (packACK k, tid) ∧
    s.sessions = [⟨tid, k, false⟩] ∧ s.client.serverTid = some tid

/-- The client waits for block `k + 1`, and what it has sent last is on its way. -/
structure Asking (cfg : Config) (contents : Bytes) (k : Nat) (s : System) : Prop where
  waiting : s.client.deferred = none
  block : s.client.currentBlock = k
  sent : s.client.sent.length = k + 1
  served : s.served.length = k
  more : k < blockCount contents
  last : LastSent cfg k s

/-- Block `k + 1` is on its way. -/
structure Offering (cfg : Config) (contents : Bytes) (k : Nat) (s : System) : Prop where
  waiting : s.client.deferred = none
  block : s.client.currentBlock = k
  sent : s.client.sent.length = k + 1
  served : s.served.length = k + 1
  more : k < blockCount contents
  last : ∃ tid, tid ≠ (cfg.host, cfg.port) ∧ s.served[k]? = some (packDATA (k + 1) (fileBlock contents k), tid) ∧
    s.sessions = [⟨tid, k + 1, false⟩] ∧ s.client.serverTid.getD tid = tid

/-- The client has all blocks, and its last acknowledgment is on its way. -/
structure Done (cfg : Config) (contents : Bytes) (s : System) : Prop where
  success : s.client.deferred = some .success
  sent : s.client.sent.length = blockCount contents + 1
  served : s.served.length = blockCount contents
  last : LastSent cfg (blockCount contents) s

/-- Nothing is on its way, and the client waits. -/
structure Stuck (s : System) : Prop where
  waiting : s.client.deferred = none
  sent : s.client.sent.length = 65536
  served : s.served.length = 65536

theorem netStep_toServer {i : Nat} {p : Bytes × Addr} (h : s.client.sent[i]? = some p) (tid : Addr) :
    netStep cfg contents s (.toServer i tid) = s.serve cfg contents p.1 p.2 tid := by
  change Option.bind s.client.sent[i]? _ = _
  rw [h]
  rfl

/-- What the client has sent last arrives. -/
theorem serve_last {k : Nat} (hlast : LastSent cfg k s) (tid : Addr) {t : System}
    (hstep : netStep cfg contents s (.toServer k tid) = some t) (hmore : k < blockCount contents) :
    t.client = s.client ∧ ∃ tid, tid ≠ (cfg.host, cfg.port) ∧ t.sessions = [⟨tid, k + 1, false⟩] ∧
      t.served = s.served ++ [(packDATA (k + 1) (fileBlock contents k), tid)] ∧
      s.client.serverTid.getD tid = tid := by
  obtain ⟨p, hp, hserve⟩ := Option.bind_eq_some_iff.mp hstep
  unfold System.serve at hserve
  rcases hlast with ⟨rfl, hsent, hnone, htid⟩ | ⟨tid', hne, hsent, hone, htid⟩
  · obtain rfl : _ = p := Option.some.inj (hsent.symm.trans hp)
    rw [if_pos rfl, if_pos (opcode_packRRQ _), hnone] at hserve
    split_ifs at hserve with hfresh
    obtain rfl := Option.some.inj hserve
    exact ⟨rfl, tid, hfresh.1, rfl, rfl, by rw [htid]; rfl⟩
  · obtain rfl : _ = p := Option.some.inj (hsent.symm.trans hp)
    have hack : Session.Acknowledged (packACK k) tid' ⟨tid', k, false⟩ :=
      ⟨rfl, rfl, opcode_packACK k, blockNum_packACK k⟩
    have hnext : Session.next contents ⟨tid', k, false⟩ = ⟨tid', k + 1, false⟩ := if_pos hmore
    rw [if_neg hne, hone] at hserve
    obtain rfl := Option.some.inj hserve
    refine ⟨rfl, tid', hne, ?_, ?_, by rw [htid]; rfl⟩
    · simp only [List.map_cons, List.map_nil]
      rw [if_pos hack, hnext]
    · have hone : [(⟨tid', k, false⟩ : Session)].filter
          (fun x => x.Acknowledged (packACK k) tid' ∧ x.current < blockCount contents) = [⟨tid', k, false⟩] :=
        List.filter_cons_of_pos (decide_eq_true ⟨hack, hmore⟩)
      simp only
      rw [hone, List.map_cons, hnext]
      rfl

theorem asking_step {k : Nat} (h : Asking cfg contents k s) (tid : Addr) {t : System}
    (hstep : netStep cfg contents s (.toServer k tid) = some t) : Offering cfg contents k t := by
  obtain ⟨hclient, tid', hne, hsessions, hserved, htid⟩ := serve_last h.last tid hstep h.more
  refine ⟨hclient ▸ h.waiting, hclient ▸ h.block, hclient ▸ h.sent, ?_, h.more, tid', hne, ?_, hsessions,
    hclient ▸ htid⟩
  · rw [hserved, List.length_append, h.served, List.length_singleton]
  · rw [hserved, List.getElem?_append_right h.served.le, h.served, Nat.sub_self]
    rfl

/-- The request, or an acknowledgment, is accepted. -/
theorem asking_isSome {k : Nat} (h : LastSent cfg k s) {tid : Addr} (hne : tid ≠ (cfg.host, cfg.port)) :
    ∃ t, netStep cfg contents s (.toServer k tid) = some t := by
  rcases h with ⟨-, hsent, hnone, -⟩ | ⟨tid', hne', hsent, hone, -⟩
  · rw [netStep_toServer hsent]
    unfold System.serve
    rw [if_pos rfl, if_pos (opcode_packRRQ _), if_pos ⟨hne, by simp [hnone]⟩]
    exact ⟨_, rfl⟩
  · rw [netStep_toServer hsent]
    exact ⟨_, if_neg hne'⟩

/-- **A block arrives**: the client has it, unless its number has wrapped. -/
theorem offering_step {k : Nat} (h : Offering cfg contents k s) (hbound : k < 65536) {t : System}
    (hstep : netStep cfg contents s (.toClient k) = some t) :
    (k + 1 = 65536 ∧ Stuck t) ∨ (k + 1 < 65536 ∧ k + 1 = blockCount contents ∧ Done cfg contents t) ∨
      (k + 1 < 65536 ∧ Asking cfg contents (k + 1) t) := by
  obtain ⟨tid, hne, hserved, hsessions, htid⟩ := h.last
  obtain ⟨p, hp, hmap⟩ := Option.bind_eq_some_iff.mp hstep
  obtain rfl : _ = p := Option.some.inj (hserved.symm.trans hp)
  obtain ⟨c, hc, rfl⟩ := Option.map_eq_some_iff.mp hmap
  obtain rfl := Option.some.inj hc
  have hnumber := blockNum_packDATA (k + 1) (fileBlock contents k)
  have hopcode := opcode_packDATA (k + 1) (fileBlock contents k)
  have hlength := packDATA_length (k + 1) (fileBlock contents k)
  have hmore := h.more
  by_cases hwrap : k + 1 = 65536
  · -- the number is 0, which is neither the next block nor the last one
    refine Or.inl ⟨hwrap, ?_⟩
    have hno : ¬ Answers s.client (packDATA (k + 1) (fileBlock contents k)) :=
      not_answers_data hopcode (by rw [hnumber, h.block]; omega) (by rw [hnumber, h.block]; omega)
    obtain ⟨text, htext⟩ := received_ignored cfg hlength hno tid
    rw [htext]
    exact ⟨h.waiting, h.sent.trans hwrap, h.served.trans hwrap⟩
  · right
    have hlt : k + 1 < 65536 := by omega
    have hnext : blockNum (packDATA (k + 1) (fileBlock contents k)) = k + 1 := by
      rw [hnumber, Nat.mod_eq_of_lt hlt]
    have hget : ∀ x, (s.client.sent ++ [x])[k + 1]? = some x := by
      intro x
      rw [List.getElem?_append_right h.sent.le, h.sent, Nat.sub_self]
      rfl
    have hlast : ∀ c : TFTPClient, c.sent = s.client.sent ++ [(packACK (k + 1), tid)] → c.serverTid = some tid →
        LastSent cfg (k + 1) { s with client := c } := fun c hsent hserver =>
      Or.inr ⟨tid, hne, by rw [hsent]; exact hget _, hsessions, hserver⟩
    have hsent : (s.client.sent ++ [(packACK (k + 1), tid)]).length = k + 1 + 1 := by
      rw [List.length_append, h.sent, List.length_singleton]
    have hreceived := received_expected cfg h.waiting hlength hopcode (by rw [hnext, h.block]) tid
    rw [payload_packDATA, hnext] at hreceived
    rw [hreceived]
    have hack : ((((s.client.heard tid).wrote (k + 1) (fileBlock contents k)).acked cfg (k + 1)).sent) =
        s.client.sent ++ [(packACK (k + 1), tid)] := by
      change s.client.sent ++ [(packACK (k + 1), s.client.serverTid.getD tid)] = _
      rw [htid]
    have hserver : ((((s.client.heard tid).wrote (k + 1) (fileBlock contents k)).acked cfg (k + 1)).serverTid) =
        some tid := congrArg some htid
    split_ifs with hshort
    · have hcount := (fileBlock_short hmore).mp hshort
      refine Or.inl ⟨hlt, hcount, rfl, ?_, h.served.trans hcount, hcount ▸ hlast _ hack hserver⟩
      rw [← hcount, ← hsent, ← hack]
      rfl
    · have hcount : k + 1 < blockCount contents :=
        Nat.lt_of_le_of_ne hmore fun heq => hshort ((fileBlock_short hmore).mpr heq)
      exact Or.inr ⟨hlt, h.waiting, rfl, (congrArg List.length hack).trans hsent, h.served, hcount,
        hlast _ hack hserver⟩

theorem offering_isSome {k : Nat} (h : Offering cfg contents k s) :
    ∃ t, netStep cfg contents s (.toClient k) = some t := by
  obtain ⟨tid, -, hserved, -⟩ := h.last
  have hstep : netStep cfg contents s (.toClient k) = s.served[k]?.bind _ := rfl
  rw [hserved] at hstep
  exact ⟨_, hstep⟩

theorem opened_asking (cfg : Config) (contents : Bytes) : Asking cfg contents 0 (opened cfg) where
  waiting := rfl
  block := rfl
  sent := rfl
  served := rfl
  more := Nat.succ_pos _
  last := Or.inl ⟨rfl, rfl, rfl, rfl⟩

/-- A transfer that has succeeded stays so. -/
theorem run_success {t : System} {es : List NetEvent} (hrun : run (netStep cfg contents) s es = some t)
    (h : s.client.deferred = some .success) : t.client.deferred = some .success := by
  have hkeep : ∀ (s : System) (e : NetEvent) (t : System), s.client.deferred = some .success →
      netStep cfg contents s e = some t → t.client.deferred = some .success := by
    intro s e t hs hstep
    have hclient : ∀ e' c, step cfg s.client e' = some c → c.deferred = some .success := fun e' c hc =>
      (step_settled hc (by rw [hs]; exact fun h => by cases h)).trans hs
    cases e with
    | toServer i tid =>
      obtain ⟨p, -, hserve⟩ := Option.bind_eq_some_iff.mp hstep
      unfold System.serve at hserve
      split_ifs at hserve <;> obtain rfl := Option.some.inj hserve <;> exact hs
    | toClient i =>
      obtain ⟨p, -, hmap⟩ := Option.bind_eq_some_iff.mp hstep
      obtain ⟨c, hc, rfl⟩ := Option.map_eq_some_iff.mp hmap
      exact hclient _ c hc
    | timeout =>
      obtain ⟨c, hc, rfl⟩ := Option.map_eq_some_iff.mp hstep
      exact hclient _ c hc
    | resend j =>
      obtain ⟨x, -, hresend⟩ := Option.bind_eq_some_iff.mp hstep
      split_ifs at hresend
      obtain rfl := Option.some.inj hresend
      exact hs
  exact run_inv' hkeep h hrun

theorem cons_eq_range' {i k n : Nat} {l : List Nat} (h : i :: l = List.range' k (n - k)) :
    i = k ∧ l = List.range' (k + 1) (n - (k + 1)) := by
  cases hm : n - k with
  | zero =>
    rw [hm] at h
    cases h
  | succ m =>
    rw [hm, List.range'_succ] at h
    obtain ⟨hi, hl⟩ := List.cons.inj h
    rw [show n - (k + 1) = m by omega]
    exact ⟨hi, hl⟩

theorem ne_nil_range' {k n : Nat} (h : n = k + 1) : ([] : List Nat) ≠ List.range' k (n - k) := by
  rw [show n - k = 1 by omega]
  exact fun h => by cases h

/-- **The rest of a lossless transfer**, from a state in which a datagram is on its way. -/
theorem lossless_run (hcount : blockCount contents < 65536) {t : System} (es : List NetEvent) :
    ∀ k s, run (netStep cfg contents) s es = some t → (∀ e ∈ es, e.IsDelivery) →
      (Asking cfg contents k s → requests es = List.range' k (t.client.sent.length - k) →
        replies es = List.range' k (t.served.length - k) → t.client.deferred = some .success) ∧
      (Offering cfg contents k s → requests es = List.range' (k + 1) (t.client.sent.length - (k + 1)) →
        replies es = List.range' k (t.served.length - k) → t.client.deferred = some .success) := by
  induction es with
  | nil =>
    intro k s hrun _
    obtain rfl : s = t := by simpa using hrun
    exact ⟨fun h hrequests _ => absurd hrequests (ne_nil_range' h.sent),
      fun h _ hreplies => absurd hreplies (ne_nil_range' h.served)⟩
  | cons e es ih =>
    intro k s hrun hquiet
    obtain ⟨u, hu, hrest⟩ := run_cons.mp hrun
    have hquiet' : ∀ e ∈ es, e.IsDelivery := fun e he => hquiet e (List.mem_cons_of_mem _ he)
    cases e with
    | timeout => exact absurd (hquiet _ List.mem_cons_self) id
    | resend j => exact absurd (hquiet _ List.mem_cons_self) id
    | toServer i tid =>
      constructor
      · intro h hrequests hreplies
        obtain ⟨rfl, hrequests'⟩ := cons_eq_range' hrequests
        exact (ih i u hrest hquiet').2 (asking_step h tid hu) hrequests' hreplies
      · intro h hrequests _
        -- nothing of the client is on its way
        obtain ⟨rfl, -⟩ := cons_eq_range' hrequests
        obtain ⟨p, hp, -⟩ := Option.bind_eq_some_iff.mp hu
        rw [List.getElem?_eq_none h.sent.le] at hp
        cases hp
    | toClient i =>
      constructor
      · intro h _ hreplies
        obtain ⟨rfl, -⟩ := cons_eq_range' hreplies
        obtain ⟨p, hp, -⟩ := Option.bind_eq_some_iff.mp hu
        rw [List.getElem?_eq_none h.served.le] at hp
        cases hp
      · intro h hrequests hreplies
        obtain ⟨rfl, hreplies'⟩ := cons_eq_range' hreplies
        have hmore := h.more
        rcases offering_step h (by omega) hu with ⟨hwrap, -⟩ | ⟨-, -, hdone⟩ | ⟨-, hasking⟩
        · omega
        · exact run_success hrest hdone.success
        · exact (ih (i + 1) u hrest hquiet').1 hasking hrequests hreplies'

/-- The first `k` blocks, with the address of the server's session. -/
def exchange (tid : Addr) : Nat → List NetEvent
  | 0 => []
  | k + 1 => exchange tid k ++ [.toServer k tid, .toClient k]

theorem requests_append (es fs : List NetEvent) : requests (es ++ fs) = requests es ++ requests fs := by
  induction es with
  | nil => rfl
  | cons e es ih =>
    cases e with
    | toServer i tid => exact congrArg (i :: ·) ih
    | toClient i => exact ih
    | timeout => exact ih
    | resend j => exact ih

theorem replies_append (es fs : List NetEvent) : replies (es ++ fs) = replies es ++ replies fs := by
  induction es with
  | nil => rfl
  | cons e es ih =>
    cases e with
    | toServer i tid => exact ih
    | toClient i => exact congrArg (i :: ·) ih
    | timeout => exact ih
    | resend j => exact ih

theorem exchange_lossless (tid : Addr) (k : Nat) :
    (∀ e ∈ exchange tid k, e.IsDelivery) ∧ requests (exchange tid k) = List.range k ∧
      replies (exchange tid k) = List.range k := by
  induction k with
  | zero => exact ⟨fun _ h => (by cases h), rfl, rfl⟩
  | succ k ih =>
    obtain ⟨hquiet, hrequests, hreplies⟩ := ih
    unfold exchange
    rw [requests_append, replies_append, hrequests, hreplies, List.range_succ]
    refine ⟨fun e he => ?_, rfl, rfl⟩
    rcases List.mem_append.mp he with he | he
    · exact hquiet e he
    · simp only [List.mem_cons, List.not_mem_nil, or_false] at he
      rcases he with rfl | rfl <;> trivial

/-- A block is exchanged. -/
theorem exchange_step {k : Nat} (h : Asking cfg contents k s) {tid : Addr} (hne : tid ≠ (cfg.host, cfg.port)) :
    ∃ u v, run (netStep cfg contents) s [.toServer k tid, .toClient k] = some v ∧
      Offering cfg contents k u ∧ netStep cfg contents u (.toClient k) = some v := by
  obtain ⟨u, hu⟩ := asking_isSome h.last hne
  have hoffering := asking_step h tid hu
  obtain ⟨v, hv⟩ := offering_isSome hoffering
  exact ⟨u, v, run_cons.mpr ⟨u, hu, run_cons.mpr ⟨v, hv, rfl⟩⟩, hoffering, hv⟩

/-- **The blocks before the last one** are exchanged, as long as the numbers do not wrap. -/
theorem exchange_run (contents : Bytes) {tid : Addr} (hne : tid ≠ (cfg.host, cfg.port)) (k : Nat)
    (hmore : k < blockCount contents) (hbound : k < 65536) :
    ∃ u, run (netStep cfg contents) (opened cfg) (exchange tid k) = some u ∧ Asking cfg contents k u := by
  induction k with
  | zero => exact ⟨_, rfl, opened_asking cfg contents⟩
  | succ k ih =>
    obtain ⟨s, hs, hasking⟩ := ih (by omega) (by omega)
    obtain ⟨u, v, hrun, hoffering, hv⟩ := exchange_step hasking hne
    refine ⟨v, run_append.mpr ⟨s, hs, hrun⟩, ?_⟩
    rcases offering_step hoffering (by omega) hv with ⟨hwrap, -⟩ | ⟨-, hlast, -⟩ | ⟨-, hnext⟩
    · omega
    · omega
    · exact hnext

/-- An address for a session. -/
theorem exists_tid (cfg : Config) : ∃ tid : Addr, tid ≠ (cfg.host, cfg.port) :=
  ⟨(cfg.host, cfg.port + 1), fun h => Nat.succ_ne_self _ (Prod.mk.inj h).2⟩

/-- The last acknowledgment ends the session. -/
theorem done_step (h : Done cfg contents s) (tid : Addr) :
    ∃ t, netStep cfg contents s (.toServer (blockCount contents) tid) = some t ∧ t.client = s.client ∧
      t.served = s.served := by
  obtain ⟨tid', hne, hsent, hone, -⟩ := h.last.resolve_left fun h => Nat.succ_ne_zero _ h.1
  refine ⟨_, (netStep_toServer hsent tid).trans (if_neg hne), rfl, ?_⟩
  simp [hone]

/-- **A lossless transfer that succeeds.** -/
theorem completes_short (hcount : blockCount contents < 65536) :
    ∃ es t, run (netStep cfg contents) (opened cfg) es = some t ∧ Lossless es t := by
  obtain ⟨tid, hne⟩ := exists_tid cfg
  obtain ⟨n, hn⟩ : ∃ n, blockCount contents = n + 1 := ⟨_, rfl⟩
  obtain ⟨s, hs, hasking⟩ := exchange_run contents hne n (by omega) (by omega)
  obtain ⟨u, v, hrun, hoffering, hv⟩ := exchange_step hasking hne
  obtain ⟨hquiet, hrequests, hreplies⟩ := exchange_lossless tid (n + 1)
  have hdone : Done cfg contents v := by
    rcases offering_step hoffering (by omega) hv with ⟨hwrap, -⟩ | ⟨-, -, hdone⟩ | ⟨-, hnext⟩
    · omega
    · exact hdone
    · have := hnext.more
      omega
  obtain ⟨t, ht, hclient, hserved⟩ := done_step hdone tid
  rw [hn] at ht
  refine ⟨exchange tid (n + 1) ++ [.toServer (n + 1) tid], t,
    run_append.mpr ⟨v, run_append.mpr ⟨s, hs, hrun⟩, run_cons.mpr ⟨t, ht, rfl⟩⟩, ?_, ?_, ?_⟩
  · intro e he
    rcases List.mem_append.mp he with he | he
    · exact hquiet e he
    · rw [List.mem_singleton.mp he]
      trivial
  · rw [requests_append, hrequests, hclient, hdone.sent, hn]
    exact List.range_succ.symm
  · rw [replies_append, hreplies, hserved, hdone.served, hn]
    exact List.append_nil _

/-- **A lossless transfer that ends without a result**: block 65536 is dropped. -/
theorem stuck (cfg : Config) (hcount : 65536 ≤ blockCount contents) :
    ∃ es t, run (netStep cfg contents) (opened cfg) es = some t ∧ Lossless es t ∧ t.client.deferred = none := by
  obtain ⟨tid, hne⟩ := exists_tid cfg
  obtain ⟨n, hn⟩ : ∃ n, 65536 = n + 1 := ⟨65535, rfl⟩
  obtain ⟨s, hs, hasking⟩ := exchange_run contents hne n (by omega) (by omega)
  obtain ⟨u, v, hrun, hoffering, hv⟩ := exchange_step hasking hne
  obtain ⟨hquiet, hrequests, hreplies⟩ := exchange_lossless tid (n + 1)
  rcases offering_step hoffering (by omega) hv with ⟨-, hstuck⟩ | ⟨hlt, -, -⟩ | ⟨hlt, -⟩
  · refine ⟨exchange tid (n + 1), v, run_append.mpr ⟨s, hs, hrun⟩, ⟨hquiet, ?_, ?_⟩, hstuck.waiting⟩
    · rw [hrequests, hstuck.sent, hn]
    · rw [hreplies, hstuck.served, hn]
  · omega
  · omega

theorem completes_iff : Completes cfg contents ↔ blockCount contents < 65536 := by
  constructor
  · intro h
    by_contra hcount
    obtain ⟨es, t, hrun, hlossless, hnone⟩ := stuck cfg (Nat.not_lt.mp hcount)
    rw [h.2 es t hrun hlossless] at hnone
    cases hnone
  · intro hcount
    refine ⟨completes_short hcount, fun es t hrun hlossless => ?_⟩
    refine (lossless_run hcount es 0 (opened cfg) hrun hlossless.quiet).1 (opened_asking cfg contents) ?_ ?_
    · rw [hlossless.requests, List.range_eq_range']
      rfl
    · rw [hlossless.replies, List.range_eq_range']
      rfl

/-- Whenever a transfer succeeds, the artifact has the blocks of the file, each once and in order, and so the file;
and every lossless transfer does succeed. -/
def Faithful (cfg : Config) (contents : Bytes) : Prop :=
  (∀ es t, run (netStep cfg contents) (opened cfg) es = some t → t.client.deferred = some .success →
    t.client.artifact = fileBlocks contents ∧ t.client.artifact.flatten = contents) ∧
  Completes cfg contents

theorem faithful_iff_completes : Faithful cfg contents ↔ Completes cfg contents := by
  refine and_iff_right fun es t hrun hsuccess => ?_
  have hartifact := integrity hrun hsuccess
  exact ⟨hartifact, by rw [hartifact, fileBlocks_flatten]⟩

theorem blockCount_lt : blockCount contents < 65536 ↔ contents.length < 33553920 := by
  unfold blockCount blockSize
  omega

/-- **When a transfer is faithful.** -/
theorem faithful_iff (cfg : Config) (contents : Bytes) :
    Faithful cfg contents ↔ contents.length < 33553920 := by
  rw [faithful_iff_completes, completes_iff, blockCount_lt]

/-- A file of 65535 full blocks, which ends with an empty one. -/
theorem faithful_violated :
    ¬ Faithful ⟨"192.0.2.1", 69, [97]⟩ (List.replicate 33553920 0) := by
  rw [faithful_iff_completes, completes_iff, blockCount_lt, List.length_replicate]
  exact Nat.lt_irrefl _

end Cowrie.Tftp
