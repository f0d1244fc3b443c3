import Cowrie.Lib.Run
import Cowrie.SshProxy.Transparency
import Mathlib.Data.List.InsertIdx

/-!
# The channel table follows the channels

What the two ends agree on is a list of live channels. A channel is live from its
`CHANNEL_OPEN`, with the number its opener gave it; the other end confirms it with a number of its
own or refuses it, and it ends when both ends have closed it. `agree` is that protocol,
`message` the packets of it, and the proxy hands each one to `parse_num_packet` (`Exchange.step`).

`get_channel` walks the table in the order of creation and reads from every entry the number that
the *other* end gave. An entry that is not confirmed yet has only one of the two, and the walk
raises a `KeyError` there, whatever it was looking for.

* `Exact`: the entries of the table are the live channels, and a packet to a live channel is looked
  up as that channel's entry.
* `InTurn`: no channel that lacks the number in question stands before the one that gets it.
* **`exact_iff_inTurn`**: in every exchange, all states are exact iff every step is in turn.
* **`exact_violated`**: the backend confirms the second of two channels first; the attacker's
  packets to it raise.
-/

namespace Cowrie.SshProxy

open Cowrie.Lib

/-! ## Live channels -/

/-- A channel as the two ends know it: the number each gave it, and who has closed it. -/
structure Live where
  serverID : Option Nat := none
  clientID : Option Nat := none
  closedServer : Bool := false
  closedClient : Bool := false
  deriving DecidableEq, Repr

namespace Live

def id (l : Live) : Parent → Option Nat
  | .server => l.serverID
  | .client => l.clientID

def setId (l : Live) (parent : Parent) (n : Nat) : Live :=
  match parent with
  | .server => { l with serverID := some n }
  | .client => { l with clientID := some n }

def closed (l : Live) : Parent → Bool
  | .server => l.closedServer
  | .client => l.closedClient

def close (l : Live) : Parent → Live
  | .server => { l with closedServer := true }
  | .client => { l with closedClient := true }

@[simp] theorem id_setId (l : Live) (p : Parent) (n : Nat) : (l.setId p n).id p = some n := by
  cases p <;> rfl

@[simp] theorem id_setId_other (l : Live) (p : Parent) (n : Nat) :
    (l.setId p n).id p.other = l.id p.other := by
  cases p <;> rfl

@[simp] theorem id_close (l : Live) (p : Parent) : (l.close p).id = l.id := by
  funext q
  cases p <;> cases q <;> rfl

end Live

/-- What an entry of the table says about its channel. -/
def SSH.Channel.live (c : SSH.Channel) : Live :=
  ⟨c.serverID, c.clientID, c.closedServer, c.closedClient⟩

theorem SSH.Channel.live_id (c : SSH.Channel) : c.live.id = c.id := by
  funext p
  cases p <;> rfl

@[simp] theorem SSH.Channel.live_setId (c : SSH.Channel) (p : Parent) (n : Nat) :
    (c.setId p n).live = c.live.setId p n := by
  cases p <;> rfl

@[simp] theorem SSH.Channel.live_close (c : SSH.Channel) (p : Parent) :
    (c.close p).live = c.live.close p := by
  cases p <;> rfl

/-! ## The protocol -/

/-- A packet of a channel's life. `i` is the position of a live channel. -/
inductive ChannelEvent
  | openSession (parent : Parent) (n : UInt32) (rest : Bytes)
  | openForwarding (parent : Parent) (direct : Bool) (n window maximum : UInt32)
      (dst : SftpString) (dstPort : UInt32) (src : SftpString) (srcPort : UInt32)
  | confirm (parent : Parent) (i : Nat) (n : UInt32) (rest : Bytes)
  | refuse (parent : Parent) (i : Nat) (rest : Bytes)
  | close (parent : Parent) (i : Nat)

/-- The numbers that an end has given to the live channels. -/
def column (parent : Parent) (live : List Live) : List (Option Nat) := live.map (·.id parent)

/-- A new channel; an end does not give a number twice. -/
def agreeOpen (live : List Live) (parent : Parent) (n : UInt32) : Option (List Live) :=
  if some n.toNat ∈ column parent live then none
  else some (live ++ [({} : Live).setId parent n.toNat])

/-- What the ends have agreed on after a packet; `none` if the packet breaks the protocol. -/
def agree (live : List Live) : ChannelEvent → Option (List Live)
  | .openSession parent n _ => agreeOpen live parent n
  | .openForwarding parent _ n _ _ _ _ _ _ => agreeOpen live parent n
  | .confirm parent i n _ => do
    let l ← live[i]?
    if l.id parent = none ∧ some n.toNat ∉ column parent live then
      some (live.set i (l.setId parent n.toNat))
    else none
  | .refuse parent i _ => do
    let l ← live[i]?
    if l.id parent = none then some (live.eraseIdx i) else none
  | .close parent i => do
    let l ← live[i]?
    if l.id parent = none ∨ l.id parent.other = none ∨ l.closed parent then none
    else if (l.close parent).closedServer ∧ (l.close parent).closedClient then
      some (live.eraseIdx i)
    else some (live.set i (l.close parent))

/-- The number by which an end addresses the channel at `i`: the other end's. -/
def recipient (live : List Live) (parent : Parent) (i : Nat) : Nat :=
  ((live[i]?).bind fun l => l.id parent.other).getD 0

/-- The packet, as sender, message number and payload. -/
def message (live : List Live) : ChannelEvent → Parent × Nat × Bytes
  | .openSession parent n rest =>
    (parent, 90, putString (encode "session") ++ (intToBytes 4 n.toNat ++ rest))
  | .openForwarding parent direct n window maximum dst dstPort src srcPort =>
    (parent, 90, putString (encode (if direct then "direct-tcpip" else "forwarded-tcpip")) ++
      (intToBytes 4 n.toNat ++ (intToBytes 4 window.toNat ++ (intToBytes 4 maximum.toNat ++
        (putString dst.1 ++ (intToBytes 4 dstPort.toNat ++ (putString src.1 ++
          intToBytes 4 srcPort.toNat)))))))
  | .confirm parent i n rest =>
    (parent, 91, intToBytes 4 (recipient live parent i) ++ (intToBytes 4 n.toNat ++ rest))
  | .refuse parent i rest => (parent, 92, intToBytes 4 (recipient live parent i) ++ rest)
  | .close parent i => (parent, 97, intToBytes 4 (recipient live parent i) ++ [])

/-- Only an enabled forwarding is opened. -/
def ChannelEvent.enabled (cfg : Config) : ChannelEvent → Bool
  | .openForwarding _ _ _ _ _ _ _ _ _ => cfg.forwarding
  | _ => true

/-- The table of message names has the messages about channels. -/
def Config.NamesChannels (cfg : Config) : Prop :=
  ∀ num, 90 ≤ num → num ≤ 100 → (cfg.packetLayout num).isSome

/-- The proxy between the two ends. -/
structure Exchange where
  ssh : SSH := { clientUp := true }
  live : List Live := []

/-! ## What a packet does to the table -/

namespace SSH

variable {cfg : Config} {parent : Parent} {s : SSH}

theorem exec_read {α β : Type} (f : Packet → β × Packet) (k : β → SshM α) (p : Packet) :
    exec (extract f >>= k) (s.reading p) = exec (k (f p).1) (s.reading (f p).2) := exec_bind_ok rfl

theorem channels_sendPacket (dest : Parent) (num : Nat) (payload : Bytes) (t : SSH) :
    (exec (sendPacket dest num payload) t).2.channels = t.channels := by
  unfold sendPacket
  rw [exec_bind, exec_query]
  cases t.up dest <;> rfl

theorem channels_forward (num : Nat) (payload : Bytes) (t : SSH) :
    (exec (forward parent num payload) t).2.channels = t.channels := by
  unfold forward
  rw [exec_get_bind]
  by_cases hon : t.sendOn = true
  · rw [when_true hon, channels_sendPacket]
  · rw [when_false hon, exec_pure]

/-- Only the branch of the message number changes the table. -/
theorem channels_parseNumPacket {num : Nat} (hname : (cfg.packetLayout num).isSome) (payload : Bytes) :
    (exec (parseNumPacket cfg parent num payload) s).2.channels =
      (exec (dispatch cfg parent num)
        (({ s with sendOn := true } : SSH).reading (packetOf payload))).2.channels := by
  have hlog : exec (when cfg.logRaw (packetName cfg num))
      (({ s with sendOn := true } : SSH).reading (packetOf payload)) =
        (.ok (), ({ s with sendOn := true } : SSH).reading (packetOf payload)) := by
    by_cases hraw : cfg.logRaw = true
    · rw [when_true hraw, packetName, exec_query, if_pos hname]
    · rw [when_false hraw, exec_pure]
  unfold parseNumPacket
  rw [exec_modify_bind]
  change (exec (when cfg.logRaw (packetName cfg num) >>= fun _ => _)
    (({ s with sendOn := true } : SSH).reading (packetOf payload))).2.channels = _
  rw [exec_bind_ok hlog, exec_bind]
  cases exec (dispatch cfg parent num)
      (({ s with sendOn := true } : SSH).reading (packetOf payload)) with
  | mk r t =>
    cases r with
    | ok a => exact channels_forward num payload t
    | error e => rfl

/-- A new entry. -/
def newChannel (parent : Parent) (n : Nat) (type : Bytes) : Channel :=
  ({ type := type } : Channel).setId parent n

theorem live_newChannel (parent : Parent) (n : Nat) (type : Bytes) :
    (newChannel parent n type).live = ({} : Live).setId parent n := by
  unfold newChannel
  rw [Channel.live_setId]
  rfl

theorem extractString_put {p : Packet} {b rest : Bytes} (h : p.data = putString b ++ rest)
    (hb : b.length < 2 ^ 32) : p.extractString.1 = b ∧ p.extractString.2.data = rest := by
  obtain ⟨n, hn⟩ := extractString_append h hb
  rw [hn]
  exact ⟨rfl, rfl⟩

theorem extractInt_put {p : Packet} {n : Nat} {rest : Bytes} (h : p.data = intToBytes 4 n ++ rest)
    (hn : n < 2 ^ 32) : (p.extractInt 4).1 = n ∧ (p.extractInt 4).2.data = rest := by
  rw [extractInt_append h (hn.trans_le (by norm_num))]
  exact ⟨rfl, rfl⟩

theorem channels_openSession {p : Packet} {n : UInt32} {rest : Bytes}
    (h : p.data = putString (encode "session") ++ (intToBytes 4 n.toNat ++ rest)) :
    (exec (dispatch cfg parent 90) (s.reading p)).2.channels =
      s.channels ++ [newChannel parent n.toNat (encode "session")] := by
  obtain ⟨htype, hdata⟩ := extractString_put h (by decide +kernel)
  obtain ⟨hn, -⟩ := extractInt_put hdata n.toNat_lt
  change (exec (channelOpen cfg parent) (s.reading p)).2.channels = _
  unfold channelOpen extractString extractInt
  rw [exec_read, exec_read, htype, hn, if_pos rfl]
  rfl

/-- Changing what an entry does not say about its channel. -/
theorem live_setChannel {n i : Nat} {c d : Channel} (hget : s.getChannel n parent = .ok (i, c))
    (hd : d.live = c.live) : (s.channels.set i d).map Channel.live = s.channels.map Channel.live := by
  obtain ⟨before, after, hcs, rfl, -, -⟩ := getChannel_ok_iff.mp hget
  rw [hcs, List.set_append_right _ _ le_rfl]
  simp [hd]

/-- A forwarding adds an entry, whether the lookup that follows finds it or not. -/
theorem channels_openForwarding (hcfg : cfg.forwarding = true) {p : Packet} {type : Bytes}
    {n : UInt32} {rest : Bytes} (hlen : type.length < 2 ^ 32) (hsession : type ≠ encode "session")
    (hforwarding : Forwarding type) (h : p.data = putString type ++ (intToBytes 4 n.toNat ++ rest)) :
    (exec (dispatch cfg parent 90) (s.reading p)).2.channels.map Channel.live =
      (s.channels ++ [newChannel parent n.toNat type]).map Channel.live := by
  obtain ⟨htype, hdata⟩ := extractString_put h hlen
  obtain ⟨hn, -⟩ := extractInt_put hdata n.toNat_lt
  change (exec (channelOpen cfg parent) (s.reading p)).2.channels.map _ = _
  unfold channelOpen extractString extractInt
  rw [exec_read, exec_read, htype, hn, if_neg hsession]
  unfold Forwarding at hforwarding
  rw [when_true hforwarding]
  unfold openForwarding extractString extractInt
  rw [exec_read, exec_read, exec_read, exec_read, exec_read, exec_read, if_pos hcfg,
    exec_modify_bind, exec_bind, exec_query]
  split
  · rename_i r t hr
    obtain ⟨hget, rfl⟩ := Prod.mk.inj hr
    exact live_setChannel (c := r.2) (i := r.1) hget rfl
  · rename_i e t hr
    obtain ⟨-, rfl⟩ := Prod.mk.inj hr
    rfl

theorem channels_confirm {p : Packet} {n i : Nat} {m : UInt32} {rest : Bytes} {c : Channel}
    (h : p.data = intToBytes 4 n ++ (intToBytes 4 m.toNat ++ rest)) (hn : n < 2 ^ 32)
    (hget : s.getChannel n parent = .ok (i, c)) :
    (exec (dispatch cfg parent 91) (s.reading p)).2.channels =
      s.channels.set i (c.setId parent m.toNat) := by
  obtain ⟨hint, hdata⟩ := extractInt_put h hn
  obtain ⟨hm, -⟩ := extractInt_put hdata m.toNat_lt
  change (exec (openConfirmation parent) (s.reading p)).2.channels = _
  unfold openConfirmation extractInt
  rw [exec_read, hint, exec_bind_ok (a := (i, c)) (by rw [exec_query]; exact congrArg (·, _) hget),
    exec_read, hm]
  rfl

theorem channels_refuse {p : Packet} {n i : Nat} {rest : Bytes} {c : Channel}
    (h : p.data = intToBytes 4 n ++ rest) (hn : n < 2 ^ 32)
    (hget : s.getChannel n parent = .ok (i, c)) :
    (exec (dispatch cfg parent 92) (s.reading p)).2.channels = s.channels.eraseIdx i := by
  obtain ⟨hint, -⟩ := extractInt_put h hn
  change (exec (openFailure parent) (s.reading p)).2.channels = _
  unfold openFailure extractInt
  rw [exec_read, hint, exec_bind_ok (a := (i, c)) (by rw [exec_query]; exact congrArg (·, _) hget)]
  rfl

theorem channels_close {p : Packet} {n i : Nat} {rest : Bytes} {c : Channel}
    (h : p.data = intToBytes 4 n ++ rest) (hn : n < 2 ^ 32)
    (hget : s.getChannel n parent = .ok (i, c)) :
    (exec (dispatch cfg parent 97) (s.reading p)).2.channels =
      if (c.close parent).closedServer ∧ (c.close parent).closedClient then s.channels.eraseIdx i
      else s.channels.set i (c.close parent) := by
  obtain ⟨hint, -⟩ := extractInt_put h hn
  change (exec (channelClose parent) (s.reading p)).2.channels = _
  unfold channelClose extractInt
  rw [exec_read, hint, exec_bind_ok (a := (i, c)) (by rw [exec_query]; exact congrArg (·, _) hget),
    exec_modify_bind]
  by_cases hboth : (c.close parent).closedServer ∧ (c.close parent).closedClient
  · rw [if_pos hboth, when_true hboth, exec_modify]
    exact List.eraseIdx_set_eq ..
  · rw [if_neg hboth, when_false hboth]
    rfl

end SSH

namespace Exchange

variable (cfg : Config)

/-- A packet passes the proxy. -/
def step (s : Exchange) (e : ChannelEvent) : Option Exchange :=
  if e.enabled cfg then
    (agree s.live e).map fun live =>
      let m := message s.live e
      ⟨(exec (SSH.parseNumPacket cfg m.1 m.2.1 m.2.2) s.ssh).2, live⟩
  else none

/-- The table is exact: its entries are the live channels, and a packet to a live channel is about
its entry. -/
structure Exact (s : Exchange) : Prop where
  entries : s.ssh.channels.map SSH.Channel.live = s.live
  found : ∀ parent i l n, s.live[i]? = some l → l.id parent.other = some n →
    ∃ c, s.ssh.channels[i]? = some c ∧ s.ssh.getChannel n parent = .ok (i, c)

/-- Every channel before the one that gets a number from `parent` has one. -/
def InTurn (s : Exchange) : ChannelEvent → Prop
  | .openSession parent _ _ => none ∉ column parent s.live
  | .openForwarding parent _ _ _ _ _ _ _ _ => none ∉ column parent s.live
  | .confirm parent i _ _ => none ∉ (column parent s.live).take i
  | _ => True

instance (s : Exchange) (e : ChannelEvent) : Decidable (InTurn s e) := by
  cases e <;> unfold InTurn <;> infer_instance

/-! ## Looking up a live channel -/

/-- What `get_channel` finds, by position. -/
theorem foundAt_iff_getElem? {key : SSH.Channel → Option Nat} {n : Nat} {cs : List SSH.Channel}
    {i : Nat} {c : SSH.Channel} : FoundAt key n cs i c ↔
      cs[i]? = some c ∧ key c = some n ∧ ∀ x ∈ (cs.map key).take i, x ≠ none ∧ x ≠ some n := by
  constructor
  · rintro ⟨before, after, rfl, rfl, hkey, hbefore⟩
    refine ⟨by simp, hkey, fun x hx => ?_⟩
    rw [List.map_append, List.take_left' (List.length_map _)] at hx
    obtain ⟨e, he, rfl⟩ := List.mem_map.mp hx
    obtain ⟨m, hm, hne⟩ := hbefore e he
    rw [hm]
    exact ⟨Option.some_ne_none m, fun h => hne (Option.some.inj h)⟩
  · rintro ⟨hget, hkey, hbefore⟩
    obtain ⟨hi, rfl⟩ := List.getElem?_eq_some_iff.mp hget
    refine ⟨cs.take i, cs.drop (i + 1), ?_, by simp [hi.le], hkey, fun e he => ?_⟩
    · rw [← List.drop_eq_getElem_cons hi, List.take_append_drop]
    · have hmem : key e ∈ (cs.map key).take i := by
        rw [← List.map_take]
        exact List.mem_map_of_mem he
      obtain ⟨hsome, hne⟩ := hbefore _ hmem
      obtain ⟨m, hm⟩ := Option.ne_none_iff_exists'.mp hsome
      exact ⟨m, hm, fun h => hne (by rw [hm, h])⟩

variable {cfg} {s : Exchange}

theorem column_channels (h : s.ssh.channels.map SSH.Channel.live = s.live) (p : Parent) :
    s.ssh.channels.map (·.id p) = column p s.live := by
  unfold column
  rw [← h, List.map_map]
  refine List.map_congr_left fun c _ => ?_
  rw [Function.comp_apply, c.live_id]

/-- A live channel is found iff everything before it has a number, and another one. -/
theorem found_iff (h : s.ssh.channels.map SSH.Channel.live = s.live) {parent : Parent} {i n : Nat}
    {l : Live} (hl : s.live[i]? = some l) (hn : l.id parent.other = some n) :
    (∃ c, s.ssh.channels[i]? = some c ∧ s.ssh.getChannel n parent = .ok (i, c)) ↔
      ∀ x ∈ (column parent.other s.live).take i, x ≠ none ∧ x ≠ some n := by
  rw [← column_channels h]
  constructor
  · rintro ⟨c, -, hget⟩
    exact (foundAt_iff_getElem?.mp (SSH.getChannel_ok_iff.mp hget)).2.2
  · intro hbefore
    rw [← h, List.getElem?_map, Option.map_eq_some_iff] at hl
    obtain ⟨c, hc, rfl⟩ := hl
    rw [SSH.Channel.live_id] at hn
    exact ⟨c, hc, SSH.getChannel_ok_iff.mpr (foundAt_iff_getElem?.mpr ⟨hc, hn, hbefore⟩)⟩

/-! ## The invariant -/

/-- A walk that looks for the number `b` passes `a`. -/
def Passes (a b : Option Nat) : Prop := ∀ n, b = some n → a ≠ none ∧ a ≠ some n

structure Inv (s : Exchange) : Prop where
  entries : s.ssh.channels.map SSH.Channel.live = s.live
  passes : ∀ p, (column p s.live).Pairwise Passes
  bounded : ∀ p n, some n ∈ column p s.live → n < 2 ^ 32
  numbered : ∀ l ∈ s.live, ∀ p, l.id p = none → l.id p.other ≠ none

theorem inv_init : Inv {} := ⟨rfl, fun _ => .nil, by simp [column], by simp⟩

/-- What stands before a position, in a list that is ordered pair by pair. -/
theorem take_of_pairwise {α : Type} {R : α → α → Prop} {xs : List α} (h : xs.Pairwise R) {i : Nat}
    {b : α} (hb : xs[i]? = some b) : ∀ x ∈ xs.take i, R x b := by
  obtain ⟨hi, rfl⟩ := List.getElem?_eq_some_iff.mp hb
  rw [← List.take_append_drop i xs, List.drop_eq_getElem_cons hi, List.pairwise_append] at h
  exact fun x hx => h.2.2 x hx _ List.mem_cons_self

theorem Inv.exact (h : Inv s) : Exact s where
  entries := h.entries
  found parent i l n hl hn := by
    refine (found_iff h.entries hl hn).mpr fun x hx => ?_
    have hcol : (column parent.other s.live)[i]? = some (l.id parent.other) := by
      simp [column, hl]
    exact take_of_pairwise (h.passes parent.other) hcol x hx n hn

/-! ## What the ends agree on, column by column -/

section

variable {live live' : List Live} {parent : Parent} {n : UInt32} {i : Nat}

theorem agreeOpen_inv (h : agreeOpen live parent n = some live') :
    some n.toNat ∉ column parent live ∧ live' = live ++ [({} : Live).setId parent n.toNat] := by
  unfold agreeOpen at h
  split at h
  · cases h
  · exact ⟨‹_›, (Option.some.inj h).symm⟩

theorem confirm_inv {rest : Bytes} (h : agree live (.confirm parent i n rest) = some live') :
    ∃ l, live[i]? = some l ∧ l.id parent = none ∧ some n.toNat ∉ column parent live ∧
      live' = live.set i (l.setId parent n.toNat) := by
  obtain ⟨l, hl, h⟩ := Option.bind_eq_some_iff.mp h
  split at h
  · rename_i hc
    exact ⟨l, hl, hc.1, hc.2, (Option.some.inj h).symm⟩
  · cases h

theorem refuse_inv {rest : Bytes} (h : agree live (.refuse parent i rest) = some live') :
    ∃ l, live[i]? = some l ∧ l.id parent = none ∧ live' = live.eraseIdx i := by
  obtain ⟨l, hl, h⟩ := Option.bind_eq_some_iff.mp h
  split at h
  · rename_i hc
    exact ⟨l, hl, hc, (Option.some.inj h).symm⟩
  · cases h

theorem close_inv (h : agree live (.close parent i) = some live') :
    ∃ l, live[i]? = some l ∧ l.id parent ≠ none ∧ l.id parent.other ≠ none ∧
      live' = if (l.close parent).closedServer ∧ (l.close parent).closedClient then live.eraseIdx i
        else live.set i (l.close parent) := by
  obtain ⟨l, hl, h⟩ := Option.bind_eq_some_iff.mp h
  split at h
  · cases h
  · rename_i hc
    simp only [not_or] at hc
    refine ⟨l, hl, hc.1, hc.2.1, ?_⟩
    split at h
    · rename_i hboth
      rw [if_pos hboth]
      exact (Option.some.inj h).symm
    · rename_i hboth
      rw [if_neg hboth]
      exact (Option.some.inj h).symm

theorem column_append (p : Parent) (l : Live) :
    column p (live ++ [l]) = column p live ++ [l.id p] := by
  simp [column]

theorem column_set (p : Parent) (l : Live) :
    column p (live.set i l) = (column p live).set i (l.id p) := by
  simp [column]

theorem column_eraseIdx (p : Parent) : column p (live.eraseIdx i) = (column p live).eraseIdx i :=
  List.eraseIdx_map _ _ _ |>.symm

theorem column_getElem? {p : Parent} {l : Live} (h : live[i]? = some l) :
    (column p live)[i]? = some (l.id p) := by
  simp [column, h]

/-- Writing back what is there. -/
theorem column_set_same {p : Parent} {l d : Live} (h : live[i]? = some l) (hd : d.id p = l.id p) :
    column p (live.set i d) = column p live := by
  obtain ⟨hi, hget⟩ := List.getElem?_eq_some_iff.mp (column_getElem? (p := p) h)
  rw [column_set, hd, ← hget, List.set_getElem_self]

end

/-- Replacing one element of a list that is ordered pair by pair. -/
theorem pairwise_set {α : Type} {R : α → α → Prop} {xs : List α} (h : xs.Pairwise R) {i : Nat}
    {x : α} (hbefore : ∀ a ∈ xs.take i, R a x) (hafter : ∀ b ∈ xs.drop (i + 1), R x b) :
    (xs.set i x).Pairwise R := by
  rw [List.set_eq_take_append_cons_drop]
  split
  · refine List.pairwise_append.mpr ⟨h.sublist (List.take_sublist i xs),
      List.pairwise_cons.mpr ⟨hafter, h.sublist (List.drop_sublist _ xs)⟩, ?_⟩
    rintro a ha b (_ | ⟨_, hb⟩)
    · exact hbefore a ha
    · rw [← List.take_append_drop i xs, List.pairwise_append] at h
      refine h.2.2 a ha b ?_
      rw [← List.drop_drop] at hb
      exact List.mem_of_mem_drop hb
  · exact h

/-! ## One step -/

section

variable {live live' : List Live} {e : ChannelEvent}

theorem eq_or_other (p q : Parent) : p = q ∨ p = q.other := by
  cases p <;> cases q <;> simp [Parent.other]

/-- The columns after an OPEN. -/
theorem column_open (p parent : Parent) (n : Nat) :
    column p (live ++ [({} : Live).setId parent n]) =
      column p live ++ [if p = parent then some n else none] := by
  rw [column_append]
  cases p <;> cases parent <;> rfl

theorem passes_open (h : ∀ p, (column p live).Pairwise Passes) {parent : Parent} {n : Nat}
    (hturn : none ∉ column parent live) (hn : some n ∉ column parent live) (p : Parent) :
    (column p (live ++ [({} : Live).setId parent n])).Pairwise Passes := by
  rw [column_open]
  refine List.pairwise_append.mpr ⟨h p, List.pairwise_singleton _ _, fun a ha b hb => ?_⟩
  obtain rfl := List.mem_singleton.mp hb
  intro k hk
  by_cases hp : p = parent
  · subst hp
    rw [if_pos rfl] at hk
    obtain rfl := Option.some.inj hk
    exact ⟨fun hnone => hturn (hnone ▸ ha), fun hsome => hn (hsome ▸ ha)⟩
  · rw [if_neg hp] at hk
    cases hk

theorem passes_confirm (h : ∀ p, (column p live).Pairwise Passes) {parent : Parent} {n i : Nat}
    {l : Live} (hl : live[i]? = some l) (hturn : none ∉ (column parent live).take i)
    (hn : some n ∉ column parent live) (p : Parent) :
    (column p (live.set i (l.setId parent n))).Pairwise Passes := by
  obtain rfl | rfl := eq_or_other p parent
  · rw [column_set, Live.id_setId]
    refine pairwise_set (h p) (fun a ha k hk => ?_) fun b hb k hk => ?_
    · obtain rfl := Option.some.inj hk
      exact ⟨fun hnone => hturn (hnone ▸ ha), fun hsome => hn (hsome ▸ List.mem_of_mem_take ha)⟩
    · refine ⟨Option.some_ne_none n, fun hsome => hn ?_⟩
      rw [hsome, ← hk]
      exact List.mem_of_mem_drop hb
  · rw [column_set_same hl (Live.id_setId_other l parent n)]
    exact h _

theorem passes_step (h : ∀ p, (column p s.live).Pairwise Passes) (hturn : InTurn s e)
    (hagree : agree s.live e = some live') (p : Parent) : (column p live').Pairwise Passes := by
  cases e with
  | openSession parent n rest =>
    obtain ⟨hn, rfl⟩ := agreeOpen_inv hagree
    exact passes_open h hturn hn p
  | openForwarding parent direct n window maximum dst dstPort src srcPort =>
    obtain ⟨hn, rfl⟩ := agreeOpen_inv hagree
    exact passes_open h hturn hn p
  | confirm parent i n rest =>
    obtain ⟨l, hl, -, hn, rfl⟩ := confirm_inv hagree
    exact passes_confirm h hl hturn hn p
  | refuse parent i rest =>
    obtain ⟨l, -, -, rfl⟩ := refuse_inv hagree
    rw [column_eraseIdx]
    exact (h p).eraseIdx i
  | close parent i =>
    obtain ⟨l, hl, -, -, rfl⟩ := close_inv hagree
    split
    · rw [column_eraseIdx]
      exact (h p).eraseIdx i
    · rw [column_set_same hl (by rw [Live.id_close])]
      exact h p

/-- The numbers after a step are old or in the packet. -/
theorem bounded_step (h : ∀ p n, some n ∈ column p live → n < 2 ^ 32)
    (hagree : agree live e = some live') (p : Parent) (k : Nat) (hk : some k ∈ column p live') :
    k < 2 ^ 32 := by
  have hopen : ∀ parent (n : UInt32),
      some k ∈ column p (live ++ [({} : Live).setId parent n.toNat]) → k < 2 ^ 32 := by
    intro parent n hk
    rw [column_open, List.mem_append, List.mem_singleton] at hk
    rcases hk with hk | hk
    · exact h p k hk
    · split at hk
      · obtain rfl := Option.some.inj hk
        exact n.toNat_lt
      · cases hk
  cases e with
  | openSession parent n rest =>
    obtain ⟨-, rfl⟩ := agreeOpen_inv hagree
    exact hopen parent n hk
  | openForwarding parent direct n window maximum dst dstPort src srcPort =>
    obtain ⟨-, rfl⟩ := agreeOpen_inv hagree
    exact hopen parent n hk
  | confirm parent i n rest =>
    obtain ⟨l, hl, -, -, rfl⟩ := confirm_inv hagree
    obtain rfl | rfl := eq_or_other p parent
    · rw [column_set, Live.id_setId] at hk
      rcases List.mem_or_eq_of_mem_set hk with hk | hk
      · exact h p k hk
      · obtain rfl := Option.some.inj hk
        exact n.toNat_lt
    · rw [column_set_same hl (Live.id_setId_other l parent _)] at hk
      exact h _ k hk
  | refuse parent i rest =>
    obtain ⟨l, -, -, rfl⟩ := refuse_inv hagree
    rw [column_eraseIdx] at hk
    exact h p k (List.mem_of_mem_eraseIdx hk)
  | close parent i =>
    obtain ⟨l, hl, -, -, rfl⟩ := close_inv hagree
    split at hk
    · rw [column_eraseIdx] at hk
      exact h p k (List.mem_of_mem_eraseIdx hk)
    · rw [column_set_same hl (by rw [Live.id_close])] at hk
      exact h p k hk

theorem numbered_step (h : ∀ l ∈ live, ∀ p, l.id p = none → l.id p.other ≠ none)
    (hagree : agree live e = some live') :
    ∀ l ∈ live', ∀ p, l.id p = none → l.id p.other ≠ none := by
  have hnew : ∀ (l : Live) parent (n : Nat) (p : Parent), (l.setId parent n).id p = none →
      (l.setId parent n).id p.other ≠ none := by
    intro l parent n p
    cases p <;> cases parent <;> simp [Live.setId, Live.id, Parent.other]
  have hopen : ∀ parent n, ∀ l ∈ live ++ [({} : Live).setId parent n], ∀ p,
      l.id p = none → l.id p.other ≠ none := by
    intro parent n l hl
    rcases List.mem_append.mp hl with hl | hl
    · exact h l hl
    · obtain rfl := List.mem_singleton.mp hl
      exact hnew {} parent n
  cases e with
  | openSession parent n rest =>
    obtain ⟨-, rfl⟩ := agreeOpen_inv hagree
    exact hopen parent n.toNat
  | openForwarding parent direct n window maximum dst dstPort src srcPort =>
    obtain ⟨-, rfl⟩ := agreeOpen_inv hagree
    exact hopen parent n.toNat
  | confirm parent i n rest =>
    obtain ⟨l, hl, -, -, rfl⟩ := confirm_inv hagree
    intro d hd
    rcases List.mem_or_eq_of_mem_set hd with hd | rfl
    · exact h d hd
    · exact hnew l parent n.toNat
  | refuse parent i rest =>
    obtain ⟨l, -, -, rfl⟩ := refuse_inv hagree
    exact fun d hd => h d (List.mem_of_mem_eraseIdx hd)
  | close parent i =>
    obtain ⟨l, hl, -, -, rfl⟩ := close_inv hagree
    split
    · exact fun d hd => h d (List.mem_of_mem_eraseIdx hd)
    · intro d hd
      rcases List.mem_or_eq_of_mem_set hd with hd | rfl
      · exact h d hd
      · rw [Live.id_close]
        exact h l (List.mem_of_getElem? hl)

end

theorem step_inv {e : ChannelEvent} {t : Exchange} (h : step cfg s e = some t) :
    e.enabled cfg ∧ agree s.live e = some t.live ∧
      t.ssh = (exec (SSH.parseNumPacket cfg (message s.live e).1 (message s.live e).2.1
        (message s.live e).2.2) s.ssh).2 := by
  unfold step at h
  split at h
  · obtain ⟨live, hagree, rfl⟩ := Option.map_eq_some_iff.mp h
    exact ⟨‹_›, hagree, rfl⟩
  · cases h

/-- The number by which a channel is addressed. -/
theorem recipient_eq {live : List Live} {parent : Parent} {i n : Nat} {l : Live}
    (hl : live[i]? = some l) (hn : l.id parent.other = some n) : recipient live parent i = n := by
  simp [recipient, hl, hn]

/-- In an exact table the entry of a channel is found, by the number in its packets. -/
theorem Inv.found (h : Inv s) {parent : Parent} {i : Nat} {l : Live} (hl : s.live[i]? = some l)
    (hne : l.id parent.other ≠ none) :
    ∃ c, c.live = l ∧ recipient s.live parent i < 2 ^ 32 ∧
      s.ssh.getChannel (recipient s.live parent i) parent = .ok (i, c) := by
  obtain ⟨n, hn⟩ := Option.ne_none_iff_exists'.mp hne
  obtain ⟨c, hc, hget⟩ := h.exact.found parent i l n hl hn
  rw [recipient_eq hl hn]
  refine ⟨c, ?_, h.bounded parent.other n ?_, hget⟩
  · rw [← h.entries, List.getElem?_map, hc] at hl
    exact Option.some.inj hl
  · rw [← hn]
    exact List.mem_of_getElem? (column_getElem? hl)

/-- What a step makes of the table is what the branch of its message makes of it. -/
theorem channels_step (hnames : cfg.NamesChannels) {e : ChannelEvent} {t : Exchange}
    (hstep : step cfg s e = some t) : t.ssh.channels =
      (exec (SSH.dispatch cfg (message s.live e).1 (message s.live e).2.1)
        (({ s.ssh with sendOn := true } : SSH).reading
          (SSH.packetOf (message s.live e).2.2))).2.channels := by
  rw [(step_inv hstep).2.2]
  refine SSH.channels_parseNumPacket (hnames _ ?_ ?_) _
  · cases e <;> simp [message]
  · cases e <;> simp [message]

theorem entries_step (hnames : cfg.NamesChannels) (h : Inv s) {e : ChannelEvent} {t : Exchange}
    (hstep : step cfg s e = some t) : t.ssh.channels.map SSH.Channel.live = t.live := by
  obtain ⟨henabled, hagree, -⟩ := step_inv hstep
  have hch := channels_step hnames hstep
  cases e with
  | openSession parent n rest =>
    obtain ⟨-, hlive⟩ := agreeOpen_inv hagree
    have hset : t.ssh.channels =
        s.ssh.channels ++ [SSH.newChannel parent n.toNat (encode "session")] :=
      hch.trans (SSH.channels_openSession rfl)
    rw [hset, hlive, List.map_append, List.map_singleton, SSH.live_newChannel, ← h.entries]
  | openForwarding parent direct n window maximum dst dstPort src srcPort =>
    obtain ⟨-, hlive⟩ := agreeOpen_inv hagree
    rw [hlive, hch]
    refine (SSH.channels_openForwarding henabled ?_ ?_ ?_ rfl).trans ?_
    · cases direct <;> decide +kernel
    · cases direct <;> decide +kernel
    · cases direct
      · exact .inr rfl
      · exact .inl rfl
    · rw [List.map_append, List.map_singleton, SSH.live_newChannel, ← h.entries]
      rfl
  | confirm parent i n rest =>
    obtain ⟨l, hl, hnone, -, hlive⟩ := confirm_inv hagree
    obtain ⟨c, rfl, hbound, hget⟩ := h.found hl (h.numbered l (List.mem_of_getElem? hl) parent hnone)
    have hset : t.ssh.channels = s.ssh.channels.set i (c.setId parent n.toNat) :=
      hch.trans (SSH.channels_confirm rfl hbound hget)
    rw [hset, hlive, List.map_set, SSH.Channel.live_setId, ← h.entries]
  | refuse parent i rest =>
    obtain ⟨l, hl, hnone, hlive⟩ := refuse_inv hagree
    obtain ⟨c, rfl, hbound, hget⟩ := h.found hl (h.numbered l (List.mem_of_getElem? hl) parent hnone)
    have hset : t.ssh.channels = s.ssh.channels.eraseIdx i :=
      hch.trans (SSH.channels_refuse rfl hbound hget)
    rw [hset, hlive, ← h.entries, List.eraseIdx_map]
  | close parent i =>
    obtain ⟨l, hl, -, hother, hlive⟩ := close_inv hagree
    obtain ⟨c, rfl, hbound, hget⟩ := h.found hl hother
    have hset : t.ssh.channels =
        if (c.close parent).closedServer ∧ (c.close parent).closedClient then
          s.ssh.channels.eraseIdx i
        else s.ssh.channels.set i (c.close parent) := hch.trans (SSH.channels_close rfl hbound hget)
    rw [hset, hlive, ← SSH.Channel.live_close]
    by_cases hboth : (c.close parent).closedServer ∧ (c.close parent).closedClient
    · have hlast : (c.close parent).live.closedServer ∧ (c.close parent).live.closedClient := hboth
      rw [if_pos hboth, if_pos hlast, ← h.entries, List.eraseIdx_map]
    · have hlast : ¬ ((c.close parent).live.closedServer ∧ (c.close parent).live.closedClient) := hboth
      rw [if_neg hboth, if_neg hlast, ← h.entries, List.map_set]

theorem inv_step (hnames : cfg.NamesChannels) {e : ChannelEvent} {t : Exchange} (h : Inv s)
    (hturn : InTurn s e) (hstep : step cfg s e = some t) : Inv t where
  entries := entries_step hnames h hstep
  passes := passes_step h.passes hturn (step_inv hstep).2.1
  bounded := bounded_step h.bounded (step_inv hstep).2.1
  numbered := numbered_step h.numbered (step_inv hstep).2.1

/-- In an exact state every number is looked up past all the entries before it. -/
theorem not_mem_take_of_exact (h : Exact s) {p : Parent} {i n : Nat} {l : Live}
    (hl : s.live[i]? = some l) (hn : l.id p = some n) : none ∉ (column p s.live).take i := by
  obtain ⟨q, rfl⟩ : ∃ q : Parent, p = q.other := by
    cases p
    · exact ⟨.client, rfl⟩
    · exact ⟨.server, rfl⟩
  intro hmem
  exact ((found_iff h.entries hl hn).mp (h.found q i l n hl hn) none hmem).1 rfl

/-- **The converse**: a step out of turn leaves a channel that cannot be looked up. -/
theorem inTurn_of_exact {e : ChannelEvent} {t : Exchange} (hstep : step cfg s e = some t)
    (hexact : Exact t) : InTurn s e := by
  obtain ⟨-, hagree, -⟩ := step_inv hstep
  have hopen : ∀ parent (n : Nat), t.live = s.live ++ [({} : Live).setId parent n] →
      none ∉ column parent s.live := by
    intro parent n hlive
    have hnew : t.live[s.live.length]? = some (({} : Live).setId parent n) := by
      rw [hlive, List.getElem?_concat_length]
    have hnone := not_mem_take_of_exact hexact hnew (Live.id_setId {} parent n)
    have hlen : (column parent s.live).length = s.live.length := List.length_map _
    rwa [hlive, column_append, List.take_left' hlen] at hnone
  cases e with
  | openSession parent n rest => exact hopen parent n.toNat (agreeOpen_inv hagree).2
  | openForwarding parent direct n window maximum dst dstPort src srcPort =>
    exact hopen parent n.toNat (agreeOpen_inv hagree).2
  | confirm parent i n rest =>
    obtain ⟨l, hl, -, -, hlive⟩ := confirm_inv hagree
    have hi : i < s.live.length := (List.getElem?_eq_some_iff.mp hl).1
    have hnew : t.live[i]? = some (l.setId parent n.toNat) := by
      rw [hlive, List.getElem?_set_self hi]
    have hnone := not_mem_take_of_exact hexact hnew (Live.id_setId l parent n.toNat)
    rwa [hlive, column_set, List.take_set_of_le le_rfl] at hnone
  | refuse parent i rest => exact trivial
  | close parent i => exact trivial

/-- **The channel table, exactly.** In every exchange, every state is exact iff every step is in
turn. -/
theorem exact_iff_inTurn (cfg : Config) (hnames : cfg.NamesChannels) (es : List ChannelEvent)
    (s : Exchange) (hrun : run (step cfg) {} es = some s) :
    StatesMeet (step cfg) Exact {} es ↔ StepsMeet (step cfg) InTurn {} es :=
  statesMeet_iff_of_inv (fun _ _ _ h hturn hstep => inv_step hnames h hturn hstep)
    (fun _ h => h.exact) (fun _ _ _ _ hstep hexact => inTurn_of_exact hstep hexact) inv_init hrun

/-- Two channels opened, and confirmed in the order they were opened in. -/
def inOrder : List ChannelEvent :=
  [.openSession .server 0 [], .openSession .server 1 [], .confirm .client 0 6 [],
    .confirm .client 1 7 [], .close .server 0, .close .client 0]

theorem exact_inOrder : ∃ s, SSH.enabled.NamesChannels ∧ run (step SSH.enabled) {} inOrder = some s ∧
    StatesMeet (step SSH.enabled) Exact {} inOrder := by
  have hnames : SSH.enabled.NamesChannels := fun _ _ _ => by simp [SSH.enabled]
  obtain ⟨s, hs⟩ := Option.isSome_iff_exists.mp
    (show (run (step SSH.enabled) {} inOrder).isSome from by decide +kernel)
  exact ⟨s, hnames, hs, (exact_iff_inTurn SSH.enabled hnames inOrder s hs).mpr (by decide +kernel)⟩

/-- Two channels opened, and the second confirmed first. -/
def outOfOrder : List ChannelEvent :=
  [.openSession .server 0 [], .openSession .server 1 [], .confirm .client 1 7 []]

/-- **A half-filled entry stops the walk.** The attacker's channel 1 is confirmed as the backend's 7
while channel 0 is not: `get_channel` raises for every packet the attacker sends to it. -/
theorem exact_violated : ∃ s, run (step SSH.enabled) {} outOfOrder = some s ∧
    s.live[1]? = some { serverID := some 1, clientID := some 7 } ∧
      s.ssh.getChannel 7 .server = .error .keyError ∧ ¬ Exact s := by
  have hview : (run (step SSH.enabled) {} outOfOrder).map (fun s => (s.live[1]?,
      match s.ssh.getChannel 7 .server with
        | .ok _ => none
        | .error e => some e)) =
      some (some { serverID := some 1, clientID := some 7 }, some .keyError) := by
    decide +kernel
  obtain ⟨s, hs, hview⟩ := Option.map_eq_some_iff.mp hview
  obtain ⟨hlive, hget⟩ := Prod.mk.inj hview
  have hraise : s.ssh.getChannel 7 .server = .error .keyError := by
    split at hget
    · cases hget
    · obtain rfl := Option.some.inj hget
      assumption
  refine ⟨s, hs, hlive, hraise, fun hexact => ?_⟩
  obtain ⟨c, -, hfound⟩ := hexact.found .server 1 _ 7 hlive rfl
  rw [hraise] at hfound
  cases hfound

end Exchange

end Cowrie.SshProxy
