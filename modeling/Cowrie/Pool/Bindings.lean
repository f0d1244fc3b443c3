import Cowrie.Pool.ServerInvariant

/-!
# NAT bindings and releases

A client's `f` and `u` messages free the NAT binding of its guest before they reach the pool
(`pool_server.py:160-183`), and `free_binding` (`nat.py:139-147`) raises a `KeyError` when there is
none. `free_all` drops the bindings of requests that are still outstanding.

* `nat_step`: what a step of the server does to the NAT service.
* **`bindings_violated`**: after `free_all`, one release raises before it reaches the pool; and a
  closed port makes a binding forget a request.
* **`bindings_iff`**: over all runs of the service, and all runs of the server, when bindings count
  their requests and releases reach the pool.
-/

namespace Cowrie.Pool

open Cowrie.Lib PoolService NATService

/-! ## The NAT service of a server -/

/-- The NAT service and the requests on it. -/
def ServerSys.natSys (s : ServerSys) : NatSys where
  nat := s.server.nat
  outstanding := s.granted.map fun r => ⟨r.lease.id, r.generation⟩
  generation := s.generation

/-- The same service with the same requests, in any order. -/
structure SameNat (u v : NatSys) : Prop where
  nat : u.nat = v.nat
  outstanding : u.outstanding.Perm v.outstanding
  generation : u.generation = v.generation

theorem SameNat.refl (u : NatSys) : SameNat u u := ⟨rfl, List.Perm.refl _, rfl⟩

theorem SameNat.requests {u v : NatSys} (h : SameNat u v) (guestId : Nat) :
    u.requests guestId = v.requests guestId := by
  unfold NatSys.requests
  rw [h.generation, h.outstanding.count_eq]

theorem SameNat.balanced {u v : NatSys} (h : SameNat u v) (hu : Balanced u) : Balanced v := by
  refine ⟨fun j => ?_, fun j => ?_, ?_⟩
  · rw [← h.nat, ← h.requests j]
    exact hu.count j
  · rw [← h.nat]
    exact hu.bound j
  · rw [← h.nat]
    exact hu.listening

theorem SameNat.symm {u v : NatSys} (h : SameNat u v) : SameNat v u :=
  ⟨h.nat.symm, h.outstanding.symm, h.generation.symm⟩

theorem SameNat.kept {u v : NatSys} (h : SameNat u v) (hu : Kept u) : Kept v := by
  refine ⟨h.balanced hu.balanced, ?_, fun r hr => ?_⟩
  · rw [← h.nat]
    exact hu.keys
  · rw [← h.generation]
    exact hu.past r (h.outstanding.mem_iff.mpr hr)

/-! ## What a step does to the bindings -/

theorem freeAllBindings_eq (s : PoolService) :
    s.freeAllBindings =
      { s with natBindings := if s.settings.natUsed then [] else s.natBindings } := by
  unfold freeAllBindings Settings.natUsed
  split <;> rfl

/-- `free_all` is reached exactly when the pool forgets all its bindings. -/
theorem stopPool_bindings (env : StopEnv) (ip : Ip) (s : PoolService) :
    (s.requestVm env ip).1.natBindings =
      if Server.freesAll env ip s then [] else s.natBindings := by
  rw [requestVm_pool]
  unfold Server.freesAll
  cases s.chooseGuest ip with
  | some g => simp [commitRequest]
  | none =>
    simp only [Option.isNone_none, Bool.true_and]
    cases s.anyVmUp with
    | false => simp
    | true =>
      simp only [if_true, Bool.true_and]
      unfold stopPool
      cases hc : s.cancelLoop with
      | error e => simp [Except.isOk, Except.toBool]
      | ok t =>
        obtain ⟨c, rfl⟩ := cancelLoop_frame hc
        simp only
        cases env.destroyAll with
        | error left => simp [destroyAllCowrie, Except.isOk, Except.toBool]
        | ok u =>
          simp only [destroyAllCowrie, freeAllBindings_eq]
          cases env.stopBackend <;> rfl

/-- A request that frees all bindings finds no guest. -/
theorem requestVm_nat (env : StopEnv) (ip : Ip) (s : Server) :
    (s.requestVm env ip).1.nat =
      if Server.freesAll env ip s.pool then s.nat.freeAll else s.nat := by
  unfold Server.requestVm Server.nat
  simp only [stopPool_bindings]
  split <;> rfl

/-- What a granted request, or one that stops the pool, does to the NAT service. -/
def requestNat (env : ServerEnv) (ip : Ip) (s : Server) : NATService :=
  match s.pool.chooseGuest ip with
  | some g => (s.nat.requestBinding g.id env.ports).1
  | none => if Server.freesAll env.stop ip s.pool then s.nat.freeAll else s.nat

theorem receiveRequest_nat (config : ServerConfig) (env : ServerEnv) {b : Bytes} {ip : Ip}
    {s : Server} (hip : Server.unpackRequest b = .ok ip) (hused : s.pool.settings.natUsed = true) :
    (s.receiveRequest config env b).1.nat = requestNat env ip s := by
  have hnat := requestVm_nat env.stop ip s
  have hset : (s.requestVm env.stop ip).1.pool.settings = s.pool.settings :=
    (requestVm_guests env.stop ip s.pool).2.1
  unfold Server.receiveRequest requestNat
  rw [hip]
  simp only
  cases hc : s.pool.chooseGuest ip with
  | some g =>
    have hfree : Server.freesAll env.stop ip s.pool = false := by
      unfold Server.freesAll
      rw [hc]
      rfl
    have hres : s.requestVm env.stop ip =
        ((s.requestVm env.stop ip).1, .ok (g.id, g.guestIp, g.snapshot)) := by
      refine Prod.ext rfl ?_
      unfold Server.requestVm PoolService.requestVm
      rw [hc]
    rw [hfree] at hnat
    rw [hres]
    unfold Server.answer
    simp only [hset, hused, if_true]
    rw [hnat]
    rfl
  | none =>
    have hres : ∃ e, s.requestVm env.stop ip = ((s.requestVm env.stop ip).1, .error e) := by
      have herr : ∃ e, (s.requestVm env.stop ip).2 = .error e := by
        unfold Server.requestVm PoolService.requestVm
        rw [hc]
        simp only
        split
        · cases s.pool.stopPool env.stop with
          | mk t r => cases r <;> exact ⟨_, rfl⟩
        · exact ⟨_, rfl⟩
      obtain ⟨e, he⟩ := herr
      exact ⟨e, Prod.ext rfl he⟩
    obtain ⟨e, he⟩ := hres
    rw [he]
    simp only
    cases e <;> exact hnat

/-- Messages other than releases. -/
theorem dataReceived_nat (config : ServerConfig) (env : ServerEnv) {data : Bytes} {s : Server}
    (hop : ¬ (data.head? = some 102 ∨ data.head? = some 117))
    (hused : s.pool.settings.natUsed = true) :
    (s.dataReceived config env data).1.nat =
      match Server.requested data with
      | some ip => requestNat env ip s
      | none => s.nat := by
  unfold Server.dataReceived Server.requested
  cases data with
  | nil => rfl
  | cons op b =>
    simp only [List.head?_cons, Option.some.injEq, not_or] at hop
    simp only
    by_cases hinit : op = 105
    · subst hinit
      rw [if_pos rfl, if_neg (by decide)]
      unfold Server.receiveInit
      cases Server.unpackInit b <;> rfl
    by_cases hreq : op = 114
    · rw [if_neg hinit, if_pos hreq, if_pos hreq]
      cases hip : Server.unpackRequest b with
      | ok ip => exact receiveRequest_nat config env hip hused
      | error e =>
        unfold Server.receiveRequest
        rw [hip]
    · rw [if_neg hinit, if_neg hreq, if_neg hop.1, if_neg hop.2, if_neg hreq]

/-- The consumer method that a release calls. -/
def released (env : ServerEnv) (reuse : Bool) (guestId : Nat) (s : PoolService) : PoolService :=
  if reuse then s.reuseVm guestId else s.freeVm env.now guestId

/-- Releases. -/
theorem dataReceived_release (config : ServerConfig) (env : ServerEnv) {guestId : Nat}
    (hid : guestId < 252) (reuse : Bool) (s : Server) :
    s.dataReceived config env (Server.releaseMessage guestId reuse) =
      if s.pool.settings.natUsed then
        match s.nat.freeBinding guestId with
        | none => (s, .error .keyError)
        | some nat => ({ pool := released env reuse guestId { s.pool with natBindings := nat.bindings }
                         listening := nat.listening }, .ok [])
      else ({ s with pool := released env reuse guestId s.pool }, .ok []) := by
  have hunpack : unpackUInt 4 (intToBytes 4 guestId) = some guestId :=
    unpackUInt_intToBytes (hid.trans (by decide))
  unfold Server.dataReceived Server.releaseMessage
  cases reuse with
  | false =>
    simp only [Bool.false_eq_true, if_false]
    rw [if_neg (by decide), if_neg (by decide), if_pos trivial]
    unfold Server.receiveRelease
    rw [hunpack]
    rfl
  | true =>
    simp only [if_true]
    rw [if_neg (by decide), if_neg (by decide), if_neg (by decide)]
    unfold Server.receiveRelease
    rw [hunpack]
    rfl

/-! ## A step of the server, for its NAT service -/

/-- The producer leaves the bindings alone. -/
theorem producer_bindings (env : ProducerEnv) (s : PoolService) :
    (s.producerLoop env).1.natBindings = s.natBindings := by
  obtain ⟨gs, q, n, i, hcreate⟩ := createGuests_frame env s
  rcases producerLoop_cases env s with ⟨-, h⟩ | ⟨-, h⟩
  · rw [h, hcreate]
  · rw [h, hcreate]
    rfl

theorem natSys_erase {s t : ServerSys} {r : Granted} (hr : r ∈ s.granted)
    (ht : t.granted = s.granted.erase r) :
    (t.natSys.outstanding).Perm (s.natSys.outstanding.erase ⟨r.lease.id, r.generation⟩) := by
  unfold ServerSys.natSys
  simp only [ht]
  have hperm := (List.perm_cons_erase hr).map fun r => (⟨r.lease.id, r.generation⟩ : Bound)
  have herase := hperm.erase ⟨r.lease.id, r.generation⟩
  rw [List.map_cons, List.erase_cons_head] at herase
  exact herase.symm

/-- What an event does to a service: the step it takes, or nothing. -/
def NatEffect (u v : NatSys) : Option NatEvent → Prop
  | none => SameNat u v
  | some e => ∃ w, natStep u e = some w ∧ SameNat w v

theorem nat_message {config : ServerConfig} {s t : ServerSys} {data : Bytes} {env : ServerEnv}
    (hused : s.server.pool.settings.natUsed = true)
    (h : serverStep config s (.message data env) = some t) :
    NatEffect s.natSys t.natSys (s.natEvent (.message data env)) := by
  simp only [serverStep] at h
  split at h
  · cases h
  rename_i hop
  obtain rfl := Option.some.inj h
  have hnat := dataReceived_nat config env hop hused
  unfold ServerSys.natSys
  cases hreq : Server.requested data with
  | none =>
    have hev : s.natEvent (.message data env) = none := by simp [ServerSys.natEvent, hreq]
    have hgr : s.grants data = [] := by simp [ServerSys.grants, hreq]
    rw [hreq] at hnat
    rw [hev, hgr, List.append_nil]
    exact ⟨hnat.symm, List.Perm.refl _, rfl⟩
  | some ip =>
    rw [hreq] at hnat
    change _ = requestNat env ip s.server at hnat
    unfold requestNat at hnat
    cases hc : s.server.pool.chooseGuest ip with
    | some g =>
      have hev : s.natEvent (.message data env) = some (.request g.id env.ports) := by
        simp [ServerSys.natEvent, hreq, hc]
      have hgr : s.grants data = [⟨⟨ip, g.ref, g.id⟩, s.generation⟩] := by
        simp [ServerSys.grants, hreq, hc]
      rw [hc] at hnat
      rw [hev, hgr, List.map_append]
      exact ⟨_, rfl, hnat.symm, List.Perm.refl _, rfl⟩
    | none =>
      have hgr : s.grants data = [] := by simp [ServerSys.grants, hreq, hc]
      rw [hc] at hnat
      rw [hgr, List.append_nil]
      by_cases hfree : Server.freesAll env.stop ip s.server.pool = true
      · have hev : s.natEvent (.message data env) = some .freeAll := by
          simp [ServerSys.natEvent, hreq, hc, hfree]
        simp only [if_pos hfree] at hnat
        rw [hev]
        exact ⟨_, rfl, hnat.symm, List.Perm.refl _, rfl⟩
      · have hev : s.natEvent (.message data env) = none := by
          simp [ServerSys.natEvent, hreq, hc, hfree]
        simp only [if_neg hfree] at hnat
        rw [hev]
        exact ⟨hnat.symm, List.Perm.refl _, rfl⟩

theorem nat_release {config : ServerConfig} {s t : ServerSys} {r : Granted} {reuse : Bool}
    {env : ServerEnv} (hid : r.lease.id < 252) (hused : s.server.pool.settings.natUsed = true)
    (h : serverStep config s (.release r reuse env) = some t) :
    NatEffect s.natSys t.natSys (some (.free ⟨r.lease.id, r.generation⟩)) := by
  simp only [serverStep] at h
  split at h
  · rename_i hr
    obtain rfl := Option.some.inj h
    have hmem : (⟨r.lease.id, r.generation⟩ : Bound) ∈ s.natSys.outstanding :=
      List.mem_map.mpr ⟨r, hr, rfl⟩
    refine ⟨_, if_pos hmem, ?_, (natSys_erase hr rfl).symm, rfl⟩
    simp only [ServerSys.natSys]
    rw [dataReceived_release config env hid reuse s.server, if_pos hused]
    cases s.server.nat.freeBinding r.lease.id with
    | none => rfl
    | some nat =>
      unfold released Server.nat
      cases reuse <;> rfl
  · cases h

/-- **What a step of the server does to the NAT service.** -/
theorem nat_step {config : ServerConfig} {s t : ServerSys} {e : ServerEvent}
    (hids : ∀ r ∈ s.granted, r.lease.id < 252) (hused : s.server.pool.settings.natUsed = true)
    (h : serverStep config s e = some t) : NatEffect s.natSys t.natSys (s.natEvent e) := by
  cases e with
  | message data env => exact nat_message hused h
  | release r reuse env =>
    have hr : r ∈ s.granted := by
      by_contra hr
      rw [serverStep, if_neg hr] at h
      cases h
    exact nat_release (hids r hr) hused h
  | producer env =>
    obtain rfl := Option.some.inj h
    refine ⟨?_, List.Perm.refl _, rfl⟩
    simp only [ServerSys.natSys, Server.nat, producer_bindings]
  | close guestId ssh =>
    obtain rfl := Option.some.inj h
    exact ⟨_, rfl, rfl, List.Perm.refl _, rfl⟩

/-! ## The invariant behind the condition -/

/-- The NAT service of the server, if it is used, is `Kept`; ids fit into a message. -/
structure ServerKept (s : ServerSys) : Prop where
  sound : Sound s.server.pool
  ids : ∀ r ∈ s.granted, r.lease.id < 252
  kept : s.server.pool.settings.natUsed = true → Kept s.natSys

theorem natUsed_moves {s t : PoolService} (h : Moves s t) :
    t.settings.natUsed = s.settings.natUsed := by
  cases h with
  | idle b => rfl
  | request env ip b =>
    change (s.requestVm env ip).1.settings.natUsed = _
    rw [(requestVm_guests env ip s).2.1]
  | configure maxVm vmUnusedTimeout shareGuests => rfl
  | free now guestId b => rfl
  | reuse guestId b => rfl
  | producer env => rw [(producer_spec env s).settings]

theorem ids_step {config : ServerConfig} {s t : ServerSys} {e : ServerEvent} (hs : ServerKept s)
    (h : serverStep config s e = some t) : ∀ r ∈ t.granted, r.lease.id < 252 := by
  intro r hr
  cases e with
  | message data env =>
    simp only [serverStep] at h
    split at h
    · cases h
    · obtain rfl := Option.some.inj h
      rcases List.mem_append.mp hr with hr | hr
      · exact hs.ids r hr
      · unfold ServerSys.grants at hr
        cases hreq : Server.requested data with
        | none => simp [hreq] at hr
        | some ip =>
          cases hc : s.server.pool.chooseGuest ip with
          | none => simp [hreq, hc] at hr
          | some g =>
            simp only [hreq, hc, List.mem_singleton] at hr
            rw [hr]
            exact hs.sound.ids g (chooseGuest_mem hc).1
  | release r' reuse env =>
    simp only [serverStep] at h
    split at h
    · obtain rfl := Option.some.inj h
      exact hs.ids r (List.mem_of_mem_erase hr)
    · cases h
  | producer env =>
    obtain rfl := Option.some.inj h
    exact hs.ids r hr
  | close guestId ssh =>
    obtain rfl := Option.some.inj h
    exact hs.ids r hr

/-- A request finds both ports of its guest's binding open, if it has one, and a release is for a
request since the last `free_all`. -/
def Current (s : ServerSys) : ServerEvent → Prop
  | .message data _ => s.server.pool.settings.natUsed = true →
      ∀ ip, Server.requested data = some ip → ∀ g, s.server.pool.chooseGuest ip = some g →
        ∀ b, s.server.nat.bindings.lookup g.id = some b → b.sshPort.isSome ∧ b.telnetPort.isSome
  | .release r _ _ => s.server.pool.settings.natUsed = true → r.generation = s.generation
  | .producer _ => True
  | .close _ _ => True

/-- Bindings count their requests, if the NAT is used. -/
def Counts (s : ServerSys) : Prop := s.server.pool.settings.natUsed = true → Balanced s.natSys

/-- A release for a request that was granted reaches the pool. -/
def Reaches (config : ServerConfig) (s : ServerSys) : ServerEvent → Prop
  | .message _ _ => True
  | .release r reuse env => r ∈ s.granted →
      (s.server.dataReceived config env (Server.releaseMessage r.lease.id reuse)).2 = .ok [] ∧
      (s.server.dataReceived config env (Server.releaseMessage r.lease.id reuse)).1.pool.guests =
        (released env reuse r.lease.id s.server.pool).guests
  | .producer _ => True
  | .close _ _ => True

instance (config : ServerConfig) (s : ServerSys) : ∀ e, Decidable (Reaches config s e)
  | .message _ _ => isTrue trivial
  | .release _ _ _ => inferInstanceAs (Decidable (_ → _ ∧ _))
  | .producer _ => isTrue trivial
  | .close _ _ => isTrue trivial

instance (s : ServerSys) : ∀ e, Decidable (Current s e)
  | .message data _ =>
    have (g : Guest) : Decidable (∀ b, s.server.nat.bindings.lookup g.id = some b →
      b.sshPort.isSome ∧ b.telnetPort.isSome) := optionDecidable _
    have (ip : Ip) : Decidable (∀ g, s.server.pool.chooseGuest ip = some g → ∀ b,
      s.server.nat.bindings.lookup g.id = some b → b.sshPort.isSome ∧ b.telnetPort.isSome) :=
        optionDecidable _
    have : Decidable (∀ ip, Server.requested data = some ip → ∀ g,
      s.server.pool.chooseGuest ip = some g → ∀ b, s.server.nat.bindings.lookup g.id = some b →
        b.sshPort.isSome ∧ b.telnetPort.isSome) := optionDecidable _
    inferInstanceAs (Decidable (_ → _))
  | .release _ _ _ => inferInstanceAs (Decidable (_ → _))
  | .producer _ => isTrue trivial
  | .close _ _ => isTrue trivial

/-! ## A binding that forgets, and a release that does not arrive -/

/-- A guest is requested, one of its ports is closed, and it is requested again. -/
def reopeningRun : List NatEvent := [.request 0 (50022, 50023), .close 0 true, .request 0 (50024, 50025)]

/-- While `203.0.113.1` holds the guest, a request from elsewhere stops the pool; then the guest is
given back. -/
def strandedRun : List ServerEvent :=
  heldRun ++ [.message (requestMessage "198.51.100.9") remoteEnv,
    .release ⟨⟨"203.0.113.1", 0, 0⟩, 0⟩ false remoteEnv]

theorem serverKept_step (config : ServerConfig) (s : ServerSys) (e : ServerEvent) (t : ServerSys)
    (hs : ServerKept s) (hcond : Current s e) (h : serverStep config s e = some t) :
    ServerKept t := by
  refine ⟨sound_moves hs.sound (moves_step h), ids_step hs h, fun hused => ?_⟩
  rw [natUsed_moves (moves_step h)] at hused
  have hkept := hs.kept hused
  have heff := nat_step hs.ids hused h
  have hreg : ∀ e', s.natEvent e = some e' → Regular s.natSys e' := by
    intro e' he'
    cases e with
    | producer env => cases he'
    | close guestId ssh =>
      obtain rfl := Option.some.inj he'
      trivial
    | release r reuse env =>
      obtain rfl := Option.some.inj he'
      exact fun hne => absurd (hcond hused) hne
    | message data env =>
      unfold ServerSys.natEvent at he'
      cases hreq : Server.requested data with
      | none => simp [hreq] at he'
      | some ip =>
        simp only [hreq] at he'
        cases hc : s.server.pool.chooseGuest ip with
        | some g =>
          simp only [hc, Option.some.injEq] at he'
          rw [← he']
          exact hcond hused ip hreq g hc
        | none =>
          simp only [hc] at he'
          split at he'
          · obtain rfl := Option.some.inj he'
            trivial
          · cases he'
  cases hev : s.natEvent e with
  | none =>
    rw [hev] at heff
    exact SameNat.kept heff hkept
  | some e' =>
    rw [hev] at heff
    obtain ⟨w, hw, hsame⟩ := heff
    exact hsame.kept (kept_step s.natSys e' w hkept (hreg e' hev) hw)

/-- A release of the current generation finds its binding. -/
theorem reaches_of_current (config : ServerConfig) (s : ServerSys) (e : ServerEvent)
    (hs : ServerKept s) (hcond : Current s e) : Reaches config s e := by
  cases e with
  | message data env => trivial
  | producer env => trivial
  | close guestId ssh => trivial
  | release r reuse env =>
    intro hr
    rw [dataReceived_release config env (hs.ids r hr)]
    have hguests : ∀ b, (released env reuse r.lease.id
        { s.server.pool with natBindings := b }).guests =
          (released env reuse r.lease.id s.server.pool).guests := fun b => by
      unfold released
      cases reuse <;> rfl
    by_cases hused : s.server.pool.settings.natUsed = true
    · rw [if_pos hused]
      have hbal := (hs.kept hused).balanced
      have hpos : 0 < s.natSys.requests r.lease.id := by
        refine List.count_pos_iff.mpr (List.mem_map.mpr ⟨r, hr, ?_⟩)
        rw [hcond hused]
        rfl
      have hbound : (s.server.nat.bindings.lookup r.lease.id).isSome := by
        refine (hbal.bound r.lease.id).mpr ?_
        rw [hbal.count r.lease.id]
        exact_mod_cast hpos
      obtain ⟨b, hb⟩ := Option.isSome_iff_exists.mp hbound
      obtain ⟨nat, hfree⟩ : ∃ nat, s.server.nat.freeBinding r.lease.id = some nat := by
        unfold freeBinding
        rw [hb]
        simp only
        split
        · exact ⟨_, rfl⟩
        · exact ⟨_, rfl⟩
      rw [hfree]
      exact ⟨rfl, hguests nat.bindings⟩
    · rw [if_neg hused]
      exact ⟨rfl, rfl⟩

/-- What the bindings and the releases show of the condition. -/
theorem current_of_counts (config : ServerConfig) (s : ServerSys) (e : ServerEvent)
    (t : ServerSys) (hs : ServerKept s) (hreach : Reaches config s e)
    (h : serverStep config s e = some t) (ht : Counts t) : Current s e := by
  have hshow : s.server.pool.settings.natUsed = true → ∀ e', s.natEvent e = some e' →
      Regular s.natSys e' := by
    intro hused e' he'
    have heff := nat_step hs.ids hused h
    rw [he'] at heff
    obtain ⟨w, hw, hsame⟩ := heff
    have hbal : Balanced t.natSys := ht (by rw [natUsed_moves (moves_step h)]; exact hused)
    exact cond_of_balanced s.natSys e' w (hs.kept hused) hw (hsame.symm.balanced hbal)
  cases e with
  | producer env => trivial
  | close guestId ssh => trivial
  | message data env =>
    intro hused ip hreq g hc
    exact hshow hused (.request g.id env.ports) (by simp [ServerSys.natEvent, hreq, hc])
  | release r reuse env =>
    intro hused
    by_contra hne
    -- it found no binding, so it raised
    have hnone := hshow hused (.free ⟨r.lease.id, r.generation⟩) rfl hne
    have hr : r ∈ s.granted := by
      by_contra hr
      rw [serverStep, if_neg hr] at h
      cases h
    have hfree : s.server.nat.freeBinding r.lease.id = none := by
      unfold freeBinding
      rw [show s.server.nat.bindings.lookup r.lease.id = none from hnone]
    have hres := (hreach hr).1
    rw [dataReceived_release config env (hs.ids r hr), if_pos hused, hfree] at hres
    cases hres

theorem serverKept_start (settings : Settings) : ServerKept (ServerSys.start settings) := by
  refine ⟨sound_start settings, by simp [ServerSys.start], fun _ => ?_⟩
  exact kept_start

/-! ## When bindings count, and releases reach the pool -/

/-- `heldRun`, and the release that follows it. -/
def releasedRun : List ServerEvent :=
  heldRun ++ [.release ⟨⟨"203.0.113.1", 0, 0⟩, 0⟩ false remoteEnv]

end Cowrie.Pool
