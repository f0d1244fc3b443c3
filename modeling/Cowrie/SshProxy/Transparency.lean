import Cowrie.SshProxy.Legible
import Cowrie.SshProxy.Ssh

/-!
# Which packets pass the SSH proxy

`parse_num_packet` follows the channels and writes its log before it passes a packet on, and whatever
raises on the way keeps the packet from the other end.

* `Found` says when `get_channel` returns: an entry with the number is in the table, and no entry
  before it lacks the key.
* `Accepted` says for every message number which packets do not raise, `Forwards` which are passed on
  if they do not (the proxy answers the others itself, or keeps them).
* **`returns_parseNumPacket`**: `parse_num_packet` returns iff the packet is accepted; a forwarded one
  is then sent to the other end, once and unchanged.
* **`transparent_iff_accepted`**: the connection protocol's packets (80 to 100) that the proxy does not
  answer itself pass iff they are accepted.
* **`transparency_violated`**: an `env` request on an open session, its value not UTF-8, is lost.
-/

namespace Cowrie.SshProxy

open Cowrie.Lib

/-! ## Looking up a channel -/

/-- `c` is the first entry with the number `n`, and every entry before it has one. -/
def FoundAt (key : SSH.Channel → Option Nat) (n : Nat) (cs : List SSH.Channel) (i : Nat)
    (c : SSH.Channel) : Prop :=
  ∃ before after, cs = before ++ c :: after ∧ before.length = i ∧ key c = some n ∧
    ∀ e ∈ before, ∃ m, key e = some m ∧ m ≠ n

/-- The table, entry by entry. -/
theorem foundAt_cons {key : SSH.Channel → Option Nat} {n : Nat} {d : SSH.Channel}
    {cs : List SSH.Channel} {i : Nat} {c : SSH.Channel} : FoundAt key n (d :: cs) i c ↔
      (key d = some n ∧ i = 0 ∧ c = d) ∨
        ∃ m j, key d = some m ∧ m ≠ n ∧ i = j + 1 ∧ FoundAt key n cs j c := by
  constructor
  · rintro ⟨before, after, hcs, hlen, hkey, hbefore⟩
    cases before with
    | nil =>
      obtain ⟨rfl, rfl⟩ := List.cons.inj hcs
      exact .inl ⟨hkey, hlen.symm, rfl⟩
    | cons e before =>
      obtain ⟨rfl, rfl⟩ := List.cons.inj hcs
      obtain ⟨m, hm, hne⟩ := hbefore d List.mem_cons_self
      exact .inr ⟨m, before.length, hm, hne, hlen.symm, before, after, rfl, rfl, hkey,
        fun f hf => hbefore f (List.mem_cons_of_mem d hf)⟩
  · rintro (⟨hkey, rfl, rfl⟩ | ⟨m, j, hm, hne, rfl, before, after, rfl, rfl, hkey, hbefore⟩)
    · exact ⟨[], cs, rfl, rfl, hkey, by simp⟩
    · refine ⟨d :: before, after, rfl, rfl, hkey, ?_⟩
      rintro e (_ | ⟨_, he⟩)
      · exact ⟨m, hm, hne⟩
      · exact hbefore e he

/-- **What `get_channel` finds.** -/
theorem findChannel_ok_iff {key : SSH.Channel → Option Nat} {n : Nat} {cs : List SSH.Channel}
    {i : Nat} {c : SSH.Channel} : findChannel key n cs = .ok (i, c) ↔ FoundAt key n cs i c := by
  induction cs generalizing i with
  | nil => simp [findChannel, FoundAt]
  | cons d cs ih =>
    rw [foundAt_cons]
    unfold findChannel
    cases hd : key d with
    | none => simp
    | some m =>
      by_cases hm : m = n
      · simp [hm, eq_comm]
      · cases hrec : findChannel key n cs with
        | error e =>
          have hnone : ∀ j, ¬ FoundAt key n cs j c := fun j hj => by
            rw [← ih, hrec] at hj
            cases hj
          simp [hm, hnone, Except.map]
        | ok r =>
          obtain ⟨k, e⟩ := r
          have hone : ∀ j, FoundAt key n cs j c ↔ k = j ∧ e = c := fun j => by
            rw [← ih, hrec]
            simp
          simp only [hm, hone, Except.map, if_false, Except.ok.injEq, Prod.mk.injEq]
          constructor
          · rintro ⟨rfl, rfl⟩
            exact .inr ⟨m, k, rfl, hm, rfl, rfl, rfl⟩
          · rintro (⟨hkey, -⟩ | ⟨_, j, -, -, rfl, rfl, rfl⟩)
            · exact absurd (Option.some.inj hkey) hm
            · exact ⟨rfl, rfl⟩

namespace SSH

/-- The entry that a packet from `parent` with the recipient `n` is about. -/
def Found (s : SSH) (parent : Parent) (n : Nat) (c : Channel) : Prop :=
  ∃ i, FoundAt (·.id parent.other) n s.channels i c

theorem getChannel_ok_iff {s : SSH} {parent : Parent} {n i : Nat} {c : Channel} :
    s.getChannel n parent = .ok (i, c) ↔ FoundAt (·.id parent.other) n s.channels i c :=
  findChannel_ok_iff

/-! ## Accepted packets -/

section

variable (cfg : Config) (parent : Parent)

/-- A packet that the proxy writes can be named in the log and sent. -/
def CanSendBack (messageNum : Nat) (s : SSH) : Prop :=
  (parent = .client → (cfg.packetLayout messageNum).isSome) ∧ s.up parent

/-- `MSG_USERAUTH_REQUEST`: a public key is answered at once. -/
def AcceptedUserauth (s : SSH) (p : Packet) : Prop :=
  let p := p.extractString.2.extractString.2
  p.extractString.1 ≠ encode "password" → p.extractString.1 = encode "publickey" → s.up .server

/-- The types of a forwarding channel. -/
def Forwarding (type : Bytes) : Prop :=
  type = encode "direct-tcpip" ∨ type = encode "forwarded-tcpip"

instance (type : Bytes) : Decidable (Forwarding type) := inferInstanceAs (Decidable (_ ∨ _))

/-- `MSG_CHANNEL_OPEN`: an enabled forwarding is looked up, a disabled one answered. -/
def AcceptedOpen (s : SSH) (p : Packet) : Prop :=
  let type := p.extractString.1
  let n := (p.extractString.2.extractInt 4).1
  type ≠ encode "session" → Forwarding type →
    if cfg.forwarding then ∃ c, (s.createChannel parent n type).Found parent.other n c
    else CanSendBack cfg parent 92 s

/-- A subsystem: `sftp` needs the number of the channel, the name of any other is logged. -/
def AcceptedSubsystem (s : SSH) (c : Channel) (name : Bytes) : Prop :=
  if name = encode "sftp" then
    c.serverID.isSome ∧ (¬ cfg.sftpEnabled → CanSendBack cfg parent 100 s)
  else Text name

/-- `MSG_CHANNEL_REQUEST`, on the channel `c`; `p` follows the type of the request. -/
def AcceptedRequest (s : SSH) (c : Channel) (type : Bytes) (p : Packet) : Prop :=
  if type = encode "shell" then c.serverID.isSome ∧ c.clientID.isSome
  else if type = encode "exec" then c.serverID.isSome = true
  else if type = encode "subsystem" then
    AcceptedSubsystem cfg parent s c p.extractBool.2.extractString.1
  else if type = encode "env" then
    Text p.extractBool.2.extractString.1 ∧ Text p.extractBool.2.extractString.2.extractString.1
  else type ∉ quietRequests.map encode → Text type

/-- Channel data: there is a session, and it can read the data. -/
def AcceptedData (c : Channel) (data : Bytes) : Prop :=
  match c.session with
  | none => False
  | some (.sftp s) => SFTP.LegibleData cfg.sha256 parent data s
  | some _ => True

/-- `MSG_GLOBAL_REQUEST`: a disabled forwarding is answered. -/
def AcceptedGlobal (s : SSH) (p : Packet) : Prop :=
  p.extractString.1 = encode "tcpip-forward" → ¬ cfg.forwarding → CanSendBack cfg parent 82 s

/-- The branch of a message number does not raise. -/
def AcceptedBranch (s : SSH) (p : Packet) : Nat → Prop
  | 50 => AcceptedUserauth s p
  | 90 => AcceptedOpen cfg parent s p
  | 91 => ∃ c, s.Found parent (p.extractInt 4).1 c
  | 92 => ∃ c, s.Found parent (p.extractInt 4).1 c
  | 98 => ∃ c, s.Found parent (p.extractInt 4).1 c ∧
      AcceptedRequest cfg parent s c (p.extractInt 4).2.extractString.1
        (p.extractInt 4).2.extractString.2
  | 97 => ∃ c, s.Found parent (p.extractInt 4).1 c
  | 94 => ∃ c, s.Found parent (p.extractInt 4).1 c ∧
      AcceptedData cfg parent c (p.extractInt 4).2.extractString.1
  | 95 => ∃ c, s.Found parent (p.extractInt 4).1 c ∧
      AcceptedData cfg parent c ((p.extractInt 4).2.extractInt 4).2.extractString.1
  | 80 => AcceptedGlobal cfg parent s p
  | _ => True

/-- The packets that are passed on when nothing raises. -/
def ForwardsPacket (p : Packet) : Nat → Prop
  | 5 => p.extractString.1 ≠ encode "ssh-userauth"
  | 53 | 7 | 50 | 51 | 52 | 60 | 61 => False
  | 90 => p.extractString.1 ≠ encode "session" → Forwarding p.extractString.1 → cfg.forwarding
  | 98 => (p.extractInt 4).2.extractString.1 = encode "subsystem" →
      (p.extractInt 4).2.extractString.2.extractBool.2.extractString.1 = encode "sftp" →
        cfg.sftpEnabled
  | 80 => p.extractString.1 = encode "tcpip-forward" → cfg.forwarding
  | _ => True

end

/-- The payload, as the `extract_*` methods find it. -/
def packetOf (payload : Bytes) : Packet := ⟨payload.length, payload⟩

def Forwards (cfg : Config) (messageNum : Nat) (payload : Bytes) : Prop :=
  ForwardsPacket cfg (packetOf payload) messageNum

/-- The packets of the connection protocol that the proxy answers itself: a forwarding or an `sftp`
that the configuration disables. -/
def Answered (cfg : Config) (messageNum : Nat) (payload : Bytes) : Prop :=
  let p := packetOf payload
  (messageNum = 90 ∧ p.extractString.1 ≠ encode "session" ∧ Forwarding p.extractString.1 ∧
      ¬ cfg.forwarding) ∨
    (messageNum = 98 ∧ (p.extractInt 4).2.extractString.1 = encode "subsystem" ∧
      (p.extractInt 4).2.extractString.2.extractBool.2.extractString.1 = encode "sftp" ∧
        ¬ cfg.sftpEnabled) ∨
    (messageNum = 80 ∧ p.extractString.1 = encode "tcpip-forward" ∧ ¬ cfg.forwarding)

theorem forwards_iff_not_answered (cfg : Config) {messageNum : Nat} (payload : Bytes)
    (h : 80 ≤ messageNum) : Forwards cfg messageNum payload ↔ ¬ Answered cfg messageNum payload := by
  unfold Forwards ForwardsPacket Answered
  split
  any_goals omega
  · simp
  · simp
  · simp
  · refine iff_of_true trivial ?_
    rintro (⟨rfl, -⟩ | ⟨rfl, -⟩ | ⟨rfl, -⟩)
    · contradiction
    · contradiction
    · contradiction

/-- Nothing raises while `parse_num_packet` handles the packet. -/
def Accepted (cfg : Config) (parent : Parent) (messageNum : Nat) (payload : Bytes) (s : SSH) : Prop :=
  (cfg.logRaw → (cfg.packetLayout messageNum).isSome) ∧
    AcceptedBranch cfg parent s (packetOf payload) messageNum ∧
      (Forwards cfg messageNum payload → s.up parent.other)

/-! ## One lemma a branch -/

/-- What a branch leaves: whether the packet goes on, and nothing sent if it does. -/
structure Leaves (fwd : Prop) (s t : SSH) : Prop where
  sendOn : t.sendOn = true ↔ fwd
  sent : fwd → t.sent = s.sent
  up : t.up = s.up

variable {cfg : Config} {parent : Parent} {s : SSH} {α : Type} {A : Prop}

theorem returns_extract {β : Type} {f : Packet → β × Packet} {k : β → SshM α} {Q : α → SSH → Prop}
    (h : Returns A (k (f s.packet).1) Q { s with packet := (f s.packet).2 }) :
    Returns A (extract f >>= k) Q s :=
  returns_step rfl h

/-- The state in which `p` is what is left of the packet. -/
def reading (s : SSH) (p : Packet) : SSH := { s with packet := p }

theorem returns_read {β : Type} {f : Packet → β × Packet} {k : β → SshM α} {Q : α → SSH → Prop}
    {p : Packet} (h : Returns A (k (f p).1) Q (s.reading (f p).2)) :
    Returns A (extract f >>= k) Q (s.reading p) :=
  returns_step rfl h

theorem returns_sendPacket {dest : Parent} {num : Nat} {payload : Bytes} {Q : Unit → SSH → Prop}
    (h : Q () { s with sent := s.sent ++ [(dest, num, payload)] }) :
    Returns (s.up dest = true) (sendPacket dest num payload) Q s := by
  unfold sendPacket
  exact returns_before (returns_assert rfl (returns_modify h))

theorem returns_packetName {num : Nat} {Q : Unit → SSH → Prop} (h : Q () s) :
    Returns ((cfg.packetLayout num).isSome = true) (packetName cfg num) Q s :=
  returns_assert rfl h

theorem returns_decoded {b : Bytes} {Q : Unit → SSH → Prop} (h : Q () s) :
    Returns (Text b) (decoded b) Q s := by
  unfold Text
  exact returns_assert rfl h

theorem returns_keyOf {key : Option Nat} {Q : Nat → SSH → Prop} (h : ∀ n, key = some n → Q n s) :
    Returns (key.isSome = true) (keyOf key) Q s := by
  unfold keyOf
  cases key with
  | none => exact (returns_query (by simp)).congr (by simp)
  | some n =>
    refine (returns_query fun m hm => h m ?_).congr (by simp)
    obtain rfl := Except.ok.inj hm
    rfl

theorem returns_sendBack {num : Nat} {payload : Bytes} {Q : Unit → SSH → Prop}
    (h : Q () { s with sent := s.sent ++ [(parent, num, payload)] }) :
    Returns (CanSendBack cfg parent num s) (sendBack cfg parent num payload) Q s := by
  unfold sendBack CanSendBack
  refine returns_bind (returns_when (fun _ => returns_packetName ?_) fun _ => ?_)
  · exact returns_sendPacket h
  · exact returns_sendPacket h

/-- Looking up a channel, and going on with it. -/
theorem returns_lookup {n : Nat} {k : Nat × Channel → SshM α} {B : Channel → Prop}
    {Q : α → SSH → Prop} (h : ∀ i c, s.getChannel n parent = .ok (i, c) → Returns (B c) (k (i, c)) Q s) :
    Returns (∃ c, s.Found parent n c ∧ B c) (query (getChannel n parent) >>= k) Q s := by
  cases hget : s.getChannel n parent with
  | error e =>
    refine returns_fail (e := e) (t := s) (by rw [exec_query, hget]) ?_
    rintro ⟨c, ⟨i, hfound⟩, -⟩
    rw [← getChannel_ok_iff, hget] at hfound
    cases hfound
  | ok r =>
    obtain ⟨i, c⟩ := r
    refine returns_step (a := (i, c)) (t := s) (by rw [exec_query, hget]) ((h i c hget).congr ?_)
    constructor
    · exact fun hB => ⟨c, ⟨i, getChannel_ok_iff.mp hget⟩, hB⟩
    · rintro ⟨d, ⟨j, hfound⟩, hB⟩
      rw [← getChannel_ok_iff, hget] at hfound
      obtain ⟨rfl, rfl⟩ := Prod.mk.inj (Except.ok.inj hfound)
      exact hB

/-- The packet goes on. -/
abbrev Quiet (s t : SSH) : Prop := Leaves True s t

/-- Changing the table and reading on is quiet. -/
theorem quiet_setChannel (hon : s.sendOn = true) (i : Nat) (c : Channel) (p : Packet) :
    Quiet s (setChannel i c (s.reading p)) := ⟨by simp [setChannel, reading, hon], fun _ => rfl, rfl⟩

theorem quiet_removeChannel (hon : s.sendOn = true) (i : Nat) (p : Packet) :
    Quiet s (removeChannel i (s.reading p)) :=
  ⟨by simp [removeChannel, reading, hon], fun _ => rfl, rfl⟩

theorem quiet_reading (hon : s.sendOn = true) (p : Packet) : Quiet s (s.reading p) :=
  ⟨by simp [reading, hon], fun _ => rfl, rfl⟩

/-- A branch that keeps the packet. -/
theorem leaves_false {t : SSH} (hon : t.sendOn = false) (hup : t.up = s.up) : Leaves False s t :=
  ⟨by simp [hon], False.elim, hup⟩

theorem returns_serviceRequest (hon : s.sendOn = true) (p : Packet) :
    Returns True serviceRequest (fun _ t => Leaves (ForwardsPacket cfg p 5) s t) (s.reading p) := by
  unfold serviceRequest ForwardsPacket
  refine returns_read (returns_when_true (fun hs => returns_modify ?_) fun hs => ?_)
  · exact ⟨by simp [hs], fun _ => rfl, rfl⟩
  · exact ⟨by simp [hs, reading, hon], fun _ => rfl, rfl⟩

theorem returns_extensions {Q : Unit → SSH → Prop} (h : ∀ p, Q () (s.reading p)) :
    ∀ (n : Nat) (p : Packet), Returns True (extensions n) Q (s.reading p)
  | 0, p => returns_pure (h p)
  | n + 1, _ => returns_read (returns_read (returns_extensions h n _))

theorem returns_extInfo (p : Packet) :
    Returns True extInfo (fun _ t => Leaves False s t) (s.reading p) := by
  unfold extInfo
  refine returns_read (returns_then (returns_extensions (fun p => ?_) _ _))
  exact returns_modify (leaves_false rfl rfl)

theorem returns_userauthRequest (p : Packet) :
    Returns (AcceptedUserauth s p) userauthRequest (fun _ t => Leaves False s t) (s.reading p) := by
  unfold userauthRequest AcceptedUserauth
  refine returns_then (returns_modify (returns_extract (returns_then (returns_modify ?_))))
  refine returns_extract (returns_extract (returns_then (returns_modify ?_)))
  refine Returns.congr (returns_ite (A := True) (fun _ => ?_) fun _ => returns_when (fun _ =>
    returns_sendPacket ?_) fun _ => ?_) if_true_left
  · exact returns_extract (returns_extract (returns_modify (leaves_false rfl rfl)))
  · exact leaves_false rfl rfl
  · exact leaves_false rfl rfl

theorem returns_userauthFailure (p : Packet) :
    Returns True userauthFailure (fun _ t => Leaves False s t) (s.reading p) :=
  returns_then (returns_modify (returns_extract (returns_pure (leaves_false rfl rfl))))

theorem returns_prompts {r : SSH} :
    ∀ (n i : Nat) (s : SSH), s.sendOn = false → s.up = r.up →
      Returns True (prompts i n) (fun _ t => Leaves False r t) s
  | 0, _, _, hon, hup => returns_pure (leaves_false hon hup)
  | n + 1, i, s, hon, hup => by
    unfold prompts
    refine returns_extract (returns_extract (returns_then ?_))
    refine returns_when_true (fun _ => returns_modify ?_) fun _ => ?_
    · exact returns_prompts n (i + 1) _ hon hup
    · exact returns_prompts n (i + 1) _ hon hup

theorem returns_infoRequest (p : Packet) :
    Returns True infoRequest (fun _ t => Leaves False s t) (s.reading p) := by
  unfold infoRequest
  apply returns_then
  apply returns_modify
  apply returns_then
  apply returns_modify
  iterate 4 apply returns_extract
  exact returns_prompts _ 0 _ rfl rfl

theorem returns_responses {r : SSH} :
    ∀ (n i : Nat) (s : SSH), s.sendOn = false → s.up = r.up →
      Returns True (responses i n) (fun _ t => Leaves False r t) s
  | 0, _, _, hon, hup => returns_pure (leaves_false hon hup)
  | n + 1, i, s, hon, hup => by
    unfold responses
    refine returns_extract (returns_then (returns_modify ?_))
    refine returns_responses n (i + 1) _ ?_ ?_
    · split
      · exact hon
      · exact hon
    · split
      · exact hup
      · exact hup

theorem returns_infoResponse (p : Packet) :
    Returns True infoResponse (fun _ t => Leaves False s t) (s.reading p) := by
  unfold infoResponse
  refine returns_then (returns_modify (returns_extract ?_))
  exact returns_responses _ 0 _ rfl rfl

theorem returns_openForwarding (hon : s.sendOn = true) (type : Bytes) (n : Nat) (p : Packet) :
    Returns (if cfg.forwarding then ∃ c, (s.createChannel parent n type).Found parent.other n c
        else CanSendBack cfg parent 92 s)
      (openForwarding cfg parent type n) (fun _ t => Leaves (cfg.forwarding = true) s t)
      (s.reading p) := by
  unfold openForwarding
  refine returns_read (returns_read (returns_read (returns_read (returns_read (returns_read ?_)))))
  refine returns_ite (fun hfwd => returns_then (returns_modify ?_)) fun hfwd => ?_
  · refine (returns_lookup (B := fun _ => True) fun i c _ => returns_modify ?_).congr (by simp; rfl)
    exact ⟨by simp [hfwd, setChannel, createChannel, reading, hon], fun _ => rfl, rfl⟩
  · refine returns_then (returns_modify (returns_sendBack ?_))
    exact ⟨by simp [hfwd], fun hc => absurd hc hfwd, rfl⟩

theorem returns_channelOpen (hon : s.sendOn = true) (p : Packet) :
    Returns (AcceptedOpen cfg parent s p) (channelOpen cfg parent)
      (fun _ t => Leaves (ForwardsPacket cfg p 90) s t) (s.reading p) := by
  unfold channelOpen AcceptedOpen ForwardsPacket
  refine returns_read (returns_read ?_)
  dsimp only
  by_cases hsession : p.extractString.1 = encode "session"
  · rw [if_pos hsession]
    refine (returns_modify ?_).congr (by simp [hsession])
    exact ⟨by simp [hsession, createChannel, reading, hon], fun _ => rfl, rfl⟩
  · rw [if_neg hsession]
    refine (returns_when (c := Forwarding p.extractString.1)
      (fun hf => (returns_openForwarding hon _ _ _).weaken fun _ t ht => ?_) fun hf => ?_).congr ?_
    · exact ⟨by simp [hsession, hf, ht.sendOn], fun h => ht.sent (h hsession hf), ht.up⟩
    · exact ⟨by simp [hf, reading, hon], fun _ => rfl, rfl⟩
    · simp only [ne_eq, hsession, not_false_eq_true, forall_const]

/-- A branch that only looks up a channel and changes the table. -/
theorem returns_found {n : Nat} {k : Nat × Channel → SshM α} {Q : α → SSH → Prop}
    (h : ∀ i c, s.getChannel n parent = .ok (i, c) → Returns True (k (i, c)) Q s) :
    Returns (∃ c, s.Found parent n c) (query (getChannel n parent) >>= k) Q s :=
  (returns_lookup h).congr (by simp)

theorem returns_openConfirmation (hon : s.sendOn = true) (p : Packet) :
    Returns (∃ c, s.Found parent (p.extractInt 4).1 c) (openConfirmation parent)
      (fun _ t => Quiet s t) (s.reading p) := by
  unfold openConfirmation
  refine returns_read (returns_found (s := s.reading _) fun i c _ => ?_)
  exact returns_read (returns_modify (quiet_setChannel hon i _ _))

theorem returns_openFailure (hon : s.sendOn = true) (p : Packet) :
    Returns (∃ c, s.Found parent (p.extractInt 4).1 c) (openFailure parent)
      (fun _ t => Quiet s t) (s.reading p) := by
  unfold openFailure
  refine returns_read (returns_found (s := s.reading _) fun i c _ => ?_)
  exact returns_modify (quiet_removeChannel hon i _)

theorem returns_channelClose (hon : s.sendOn = true) (p : Packet) :
    Returns (∃ c, s.Found parent (p.extractInt 4).1 c) (channelClose parent)
      (fun _ t => Quiet s t) (s.reading p) := by
  unfold channelClose
  refine returns_read (returns_found (s := s.reading _) fun i c _ => returns_then
    (returns_modify ?_))
  refine returns_when_true (fun _ => returns_modify ?_) fun _ => ?_
  · exact ⟨by simp [removeChannel, setChannel, reading, hon], fun _ => rfl, rfl⟩
  · exact quiet_setChannel hon i _ _

/-- An exception of the session is one of the parser. -/
theorem returns_reraise {r : Option PyError} {Q : Unit → SSH → Prop} (h : Q () s) :
    Returns (r = none) (query fun _ => r.elim (.ok ()) fun e => .error (Raised.of e)) Q s := by
  refine (returns_query fun _ _ => h).congr ?_
  cases r <;> simp

/-- Only the SFTP sniffer raises. -/
theorem parsePacket_none_iff (sha256 : Bytes → String) (session : ChannelSession) (data : Bytes) :
    (session.parsePacket sha256 parent data).2 = none ↔
      match session with
      | .sftp s => SFTP.LegibleData sha256 parent data s
      | _ => True := by
  cases session with
  | sftp s => exact SFTP.parsePacket_none_iff sha256 parent data s
  | _ => exact iff_of_true rfl trivial

theorem returns_sessionData (hon : s.sendOn = true) (i : Nat) (c : Channel) (p : Packet) :
    Returns (AcceptedData cfg parent c p.extractString.1) (sessionData cfg parent i c)
      (fun _ t => Quiet s t) (s.reading p) := by
  unfold sessionData AcceptedData
  cases hsession : c.session with
  | none => exact returns_fail (e := .attributeError) (t := s.reading p) rfl id
  | some session =>
    refine returns_step (a := session) (t := s.reading p) rfl ?_
    refine returns_read (returns_then (returns_modify (Returns.congr (returns_reraise ?_)
      ((parsePacket_none_iff _ _ _).trans ?_))))
    · exact quiet_setChannel hon i _ _
    · cases session <;> exact Iff.rfl

theorem returns_channelData (hon : s.sendOn = true) (p : Packet) :
    Returns (∃ c, s.Found parent (p.extractInt 4).1 c ∧
        AcceptedData cfg parent c (p.extractInt 4).2.extractString.1)
      (channelData cfg parent) (fun _ t => Quiet s t) (s.reading p) := by
  unfold channelData
  exact returns_read (returns_lookup (s := s.reading _) fun i c _ => returns_sessionData hon i c _)

theorem returns_channelExtendedData (hon : s.sendOn = true) (p : Packet) :
    Returns (∃ c, s.Found parent (p.extractInt 4).1 c ∧
        AcceptedData cfg parent c ((p.extractInt 4).2.extractInt 4).2.extractString.1)
      (channelExtendedData cfg parent) (fun _ t => Quiet s t) (s.reading p) := by
  unfold channelExtendedData
  exact returns_read (returns_lookup (s := s.reading _) fun i c _ =>
    returns_read (returns_sessionData hon i c _))

theorem returns_requestShell (hon : s.sendOn = true) (i : Nat) (c : Channel) (p : Packet) :
    Returns (c.serverID.isSome ∧ c.clientID.isSome) (requestShell cfg i c) (fun _ t => Quiet s t)
      (s.reading p) := by
  unfold requestShell
  refine returns_bind (returns_keyOf fun server _ => returns_then (returns_modify ?_))
  refine returns_before (returns_keyOf fun client _ => returns_modify ?_)
  exact ⟨by simp [setChannel, reading, hon], fun _ => rfl, rfl⟩

theorem returns_requestExec (hon : s.sendOn = true) (i : Nat) (c : Channel) (p : Packet) :
    Returns (c.serverID.isSome = true) (requestExec cfg i c) (fun _ t => Quiet s t)
      (s.reading p) := by
  unfold requestExec
  refine returns_before (returns_keyOf fun server _ => returns_then (returns_modify ?_))
  refine returns_extract (returns_extract (returns_modify ?_))
  exact ⟨by simp [setChannel, reading, hon], fun _ => rfl, rfl⟩

theorem returns_requestSubsystem (hon : s.sendOn = true) (i : Nat) (c : Channel) (p : Packet) :
    Returns (AcceptedSubsystem cfg parent s c p.extractBool.2.extractString.1)
      (requestSubsystem cfg parent i c)
      (fun _ t => Leaves (p.extractBool.2.extractString.1 = encode "sftp" → cfg.sftpEnabled) s t)
      (s.reading p) := by
  unfold requestSubsystem AcceptedSubsystem
  refine returns_read (returns_read (returns_ite (fun hsftp => ?_) fun hsftp => ?_))
  · by_cases henabled : cfg.sftpEnabled
    · rw [if_pos henabled]
      refine (returns_before (returns_keyOf fun server _ => returns_modify ?_)).congr
        (by simp [henabled])
      exact ⟨by simp [setChannel, reading, hon, henabled], fun _ => rfl, rfl⟩
    · rw [if_neg henabled]
      refine returns_then (returns_modify ((returns_bind (returns_keyOf fun server _ =>
        returns_sendBack ?_)).congr ?_))
      · exact ⟨by simp [hsftp, henabled], fun h => absurd (h hsftp) henabled, rfl⟩
      · simp only [henabled, Bool.false_eq_true, not_false_eq_true, forall_const]
        exact Iff.rfl
  · exact returns_decoded ⟨by simp [hsftp, reading, hon], fun _ => rfl, rfl⟩

theorem returns_requestEnv (hon : s.sendOn = true) (p : Packet) :
    Returns (Text p.extractBool.2.extractString.1 ∧
        Text p.extractBool.2.extractString.2.extractString.1)
      requestEnv (fun _ t => Quiet s t) (s.reading p) := by
  unfold requestEnv
  refine returns_read (returns_read (returns_read ?_))
  exact returns_bind (returns_decoded (returns_decoded (quiet_reading hon _)))

/-- The type of the request decides. -/
theorem returns_request (hon : s.sendOn = true) (i : Nat) (c : Channel) (type : Bytes) (p : Packet) :
    Returns (AcceptedRequest cfg parent s c type p)
      (if type = encode "shell" then requestShell cfg i c
        else if type = encode "exec" then requestExec cfg i c
        else if type = encode "subsystem" then requestSubsystem cfg parent i c
        else if type = encode "env" then requestEnv
        else when (type ∉ quietRequests.map encode) (decoded type))
      (fun _ t => Leaves (type = encode "subsystem" →
        p.extractBool.2.extractString.1 = encode "sftp" → cfg.sftpEnabled) s t) (s.reading p) := by
  unfold AcceptedRequest
  by_cases hsub : type = encode "subsystem"
  · have hshell : encode "subsystem" ≠ encode "shell" := by decide +kernel
    have hexec : encode "subsystem" ≠ encode "exec" := by decide +kernel
    subst hsub
    rw [if_neg hshell, if_neg hexec, if_pos rfl, if_neg hshell, if_neg hexec, if_pos rfl]
    refine (returns_requestSubsystem hon i c p).weaken fun _ t ht =>
      ⟨?_, fun h => ht.sent (h rfl), ht.up⟩
    exact ht.sendOn.trans ⟨fun h _ => h, fun h => h rfl⟩
  · have hquiet : ∀ t, Quiet s t → Leaves (type = encode "subsystem" →
        p.extractBool.2.extractString.1 = encode "sftp" → cfg.sftpEnabled) s t := fun t ht =>
      ⟨ht.sendOn.trans (iff_of_true trivial fun h => absurd h hsub), fun _ => ht.sent trivial, ht.up⟩
    refine returns_ite (fun _ => (returns_requestShell hon i c p).weaken fun _ => hquiet) fun _ => ?_
    refine returns_ite (fun _ => (returns_requestExec hon i c p).weaken fun _ => hquiet) fun _ => ?_
    rw [if_neg hsub, if_neg hsub]
    refine returns_ite (fun _ => (returns_requestEnv hon p).weaken fun _ => hquiet) fun _ => ?_
    refine returns_when (fun _ => returns_decoded ?_) fun _ => ?_
    · exact hquiet _ (quiet_reading hon p)
    · exact hquiet _ (quiet_reading hon p)

theorem returns_channelRequest (hon : s.sendOn = true) (p : Packet) :
    Returns (∃ c, s.Found parent (p.extractInt 4).1 c ∧
        AcceptedRequest cfg parent s c (p.extractInt 4).2.extractString.1
          (p.extractInt 4).2.extractString.2)
      (channelRequest cfg parent)
      (fun _ t => Leaves ((p.extractInt 4).2.extractString.1 = encode "subsystem" →
        (p.extractInt 4).2.extractString.2.extractBool.2.extractString.1 = encode "sftp" →
          cfg.sftpEnabled) s t) (s.reading p) := by
  unfold channelRequest
  exact returns_read (returns_lookup (s := s.reading _) fun i c _ =>
    returns_read (returns_request hon i c _ _))

theorem returns_globalRequest (hon : s.sendOn = true) (p : Packet) :
    Returns (AcceptedGlobal cfg parent s p) (globalRequest cfg parent)
      (fun _ t => Leaves (ForwardsPacket cfg p 80) s t) (s.reading p) := by
  unfold globalRequest AcceptedGlobal ForwardsPacket
  refine returns_read ((returns_when (fun h => returns_then (returns_modify (returns_sendBack ?_)))
    fun h => ?_).congr ?_)
  · exact ⟨by simpa using h, fun hf => by simp [hf h.1] at h, rfl⟩
  · refine ⟨?_, fun _ => rfl, rfl⟩
    simpa [reading, hon] using h
  · simp only [and_imp, Bool.not_eq_true', Bool.not_eq_true]
    exact Iff.rfl

/-- **Every branch raises exactly on what it does not accept.** -/
theorem returns_dispatch (hon : s.sendOn = true) (p : Packet) (num : Nat) :
    Returns (AcceptedBranch cfg parent s p num) (dispatch cfg parent num)
      (fun _ t => Leaves (ForwardsPacket cfg p num) s t) (s.reading p) := by
  fun_cases dispatch cfg parent num with
  | case1 => exact returns_serviceRequest hon p
  | case2 => exact returns_modify (leaves_false rfl rfl)
  | case3 => exact returns_extInfo p
  | case4 => exact returns_userauthRequest p
  | case5 => exact returns_userauthFailure p
  | case6 => exact returns_modify (leaves_false rfl rfl)
  | case7 => exact returns_infoRequest p
  | case8 => exact returns_infoResponse p
  | case9 => exact returns_channelOpen hon p
  | case10 => exact returns_openConfirmation hon p
  | case11 => exact returns_openFailure hon p
  | case12 => exact returns_channelRequest hon p
  | case13 => exact returns_channelClose hon p
  | case14 => exact returns_channelData hon p
  | case15 => exact returns_channelExtendedData hon p
  | case16 => exact returns_globalRequest hon p
  | case17 =>
    have hbranch : AcceptedBranch cfg parent s p num ↔ True := by
      unfold AcceptedBranch
      split <;> trivial
    have hforwards : ForwardsPacket cfg p num ↔ True := by
      unfold ForwardsPacket
      split <;> trivial
    rw [hbranch, hforwards]
    exact returns_pure (quiet_reading hon p)

/-- **`parse_num_packet` returns iff the packet is accepted**; one that is passed on is then sent,
once, to the other end. -/
theorem returns_parseNumPacket (cfg : Config) (parent : Parent) (num : Nat) (payload : Bytes)
    (s : SSH) : Returns (Accepted cfg parent num payload s) (parseNumPacket cfg parent num payload)
      (fun _ t => Forwards cfg num payload → t.sent = s.sent ++ [(parent.other, num, payload)]) s := by
  have hon : ({ s with sendOn := true } : SSH).sendOn = true := rfl
  have hlast : Returns (AcceptedBranch cfg parent s (packetOf payload) num ∧
      (Forwards cfg num payload → s.up parent.other))
      (do dispatch cfg parent num; forward parent num payload)
      (fun _ t => Forwards cfg num payload → t.sent = s.sent ++ [(parent.other, num, payload)])
      (({ s with sendOn := true } : SSH).reading (packetOf payload)) := by
    refine returns_bind ((returns_dispatch hon _ num).weaken fun _ t ht => ?_)
    refine returns_step (exec_get t) (Returns.congr (returns_when (fun _ => returns_sendPacket ?_)
      fun hoff => ?_) ?_)
    · intro hf
      have hsent : t.sent = s.sent := ht.sent hf
      simp only [hsent]
    · exact fun hf => absurd (ht.sendOn.mpr hf) hoff
    · rw [ht.sendOn, ht.up]
      exact Iff.rfl
  unfold parseNumPacket Accepted
  refine returns_then (returns_modify (returns_bind (returns_when (fun _ => returns_packetName ?_)
    fun _ => ?_)))
  · exact hlast
  · exact hlast

/-- The packet is passed on, and nothing else is. -/
def Transparent (cfg : Config) (parent : Parent) (num : Nat) (payload : Bytes) (s : SSH) : Prop :=
  ∃ t, exec (parseNumPacket cfg parent num payload) s = (.ok (), t) ∧
    t.sent = s.sent ++ [(parent.other, num, payload)]

/-- **Transparency, exactly.** -/
theorem transparent_iff_accepted (cfg : Config) (parent : Parent) (num : Nat) (payload : Bytes)
    (s : SSH) (hnum : 80 ≤ num ∧ num ≤ 100) (hanswered : ¬ Answered cfg num payload) :
    Transparent cfg parent num payload s ↔ Accepted cfg parent num payload s := by
  have hreturns := returns_parseNumPacket cfg parent num payload s
  have hforwards := (forwards_iff_not_answered cfg payload hnum.1).mpr hanswered
  constructor
  · rintro ⟨t, hexec, -⟩
    exact hreturns.iff.mp ⟨(), t, hexec⟩
  · intro haccepted
    obtain ⟨⟨⟩, t, hexec⟩ := hreturns.iff.mpr haccepted
    exact ⟨t, hexec, hreturns.post hexec hforwards⟩

/-! ## A packet that passes and one that is lost -/

/-- What the packets of an exchange leave. -/
def received (cfg : Config) (s : SSH) (arrivals : List (Parent × Nat × Bytes)) : SSH :=
  arrivals.foldl (fun s a => (exec (parseNumPacket cfg a.1 a.2.1 a.2.2) s).2) s

/-- The attacker opens a session, the backend confirms it. -/
def openedSession : List (Parent × Nat × Bytes) :=
  [(.server, 90, putString (encode "session") ++ (intToBytes 4 0 ++ (intToBytes 4 2097152 ++
      intToBytes 4 32768))),
    (.client, 91, intToBytes 4 0 ++ (intToBytes 4 0 ++ (intToBytes 4 0 ++ intToBytes 4 32768)))]

/-- `env`, without a reply: `LANG`, in Latin-1. -/
def envRequest : Bytes :=
  intToBytes 4 0 ++ (putString (encode "env") ++ (0 :: (putString (encode "LANG") ++
    putString [0xe9])))

/-- The options of the distribution, with forwarding. -/
def enabled : Config where
  forwarding := true
  sftpEnabled := true
  ttylog := true
  logRaw := false
  packetLayout := fun _ => some "SSH_MSG"
  sha256 := fun _ => ""
  backendUser := "root"
  backendPass := "root"

/-- A global request with a reply, as clients send it to see whether the connection is alive. -/
def keepalive : Bytes := putString (encode "keepalive@openssh.com") ++ [1]

theorem transparent_keepalive :
    (80 ≤ 80 ∧ 80 ≤ 100) ∧ ¬ Answered enabled 80 keepalive ∧
      Transparent enabled .server 80 keepalive { clientUp := true } := by
  have hother : (packetOf keepalive).extractString.1 ≠ encode "tcpip-forward" := by decide +kernel
  have hnot : ¬ Answered enabled 80 keepalive := by
    rintro (⟨h, -⟩ | ⟨h, -⟩ | ⟨-, h, -⟩)
    · exact absurd h (by decide)
    · exact absurd h (by decide)
    · exact hother h
  refine ⟨by decide, hnot, (transparent_iff_accepted enabled .server 80 keepalive
    { clientUp := true } (by decide) hnot).mpr ⟨?_, ?_, ?_⟩⟩
  · exact fun h => absurd h (by decide)
  · exact fun h => absurd h hother
  · exact fun _ => rfl

/-- **The log comes first.** On a channel that both ends have opened, `env` with a value that is not
UTF-8 raises before it is passed on. -/
theorem transparency_violated :
    let s := received enabled { clientUp := true } openedSession
    s.sent = openedSession.map (fun a => (a.1.other, a.2)) ∧ ¬ Answered enabled 98 envRequest ∧
      (exec (parseNumPacket enabled .server 98 envRequest) s).1 = .error (.of .unicodeDecodeError) ∧
        (received enabled s [(.server, 98, envRequest)]).sent = s.sent ∧
          ¬ Transparent enabled .server 98 envRequest s := by
  refine ⟨by decide +kernel, ?_, by decide +kernel, by decide +kernel, ?_⟩
  · rintro (⟨h, -⟩ | ⟨-, -, -, h⟩ | ⟨h, -⟩)
    · exact absurd h (by decide)
    · exact h rfl
    · exact absurd h (by decide)
  · rintro ⟨t, ht, -⟩
    have hraises : (exec (parseNumPacket enabled .server 98 envRequest)
        (received enabled { clientUp := true } openedSession)).1 =
          .error (.of .unicodeDecodeError) := by decide +kernel
    rw [ht] at hraises
    cases hraises

end SSH

end Cowrie.SshProxy
