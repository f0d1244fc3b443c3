import Cowrie.Pool.Creation

/-!
# Guests that answer (`has_connectivity` in `src/backend_pool/pool_service.py:228-250`)

A guest is put into service by `__producer_mark_available` if `has_connectivity` says so, and the docstring has it
check for "either SSH or Telnet connectivity", with an eye to which of the two is enabled. The default of
`has_telnet` is true, also where telnet is not enabled at all, so every guest is connected then.

* `Settings.answers`: an enabled port answers the scan. `Probed` is the pool with a record of the addresses of
  which one has answered in some iteration, when a guest was looked at; nothing reads the record.
* `tended` is the pool before the health check, `booting` are the guests looked at after it.
* `ServesAnswering`: every guest in service has an address in the record.
* `BootsAnswering`: a guest leaves `created` with telnet enabled, or with SSH answering, now or before.

Results:
* `hasConnectivity_eq`: what the answer comes to.
* `vouched_step`: the invariant; a guest that is not `created` has an address in the record.
* **`servesAnswering_iff`**: in every run, only guests that have answered are in service iff each of them leaves
  `created` as `BootsAnswering` says. `servesAnswering_of_telnet`: so it is where telnet is enabled.
-/

namespace Cowrie.Pool

open Cowrie.Lib PoolService

/-! ## The answers of a scan -/

/-- One of the enabled ports answers. -/
def Settings.answers (settings : Settings) (nmap : Int → Bool) : Bool :=
  (decide (0 < settings.sshPort) && nmap settings.sshPort) ||
    (decide (0 < settings.telnetPort) && nmap settings.telnetPort)

theorem hasConnectivity_eq (s : PoolService) (nmap : Int → Bool) :
    s.hasConnectivity nmap = (s.settings.answers nmap || !decide (0 < s.settings.telnetPort)) := by
  unfold hasConnectivity Settings.answers
  by_cases hssh : 0 < s.settings.sshPort <;> by_cases htelnet : 0 < s.settings.telnetPort <;>
    cases nmap s.settings.sshPort <;> simp [hssh, htelnet]

namespace PoolService

/-- The pool that `__producer_check_health` finds. -/
def tended (env : ProducerEnv) (s : PoolService) : PoolService :=
  let s := { s with loopNextCall := s.loopNextCall.map fun _ => .called }
  if 1 < s.existingPoolSize then destroyTimedOut env (markTimedOut env s.settings.vmUnusedTimeout s) else s

theorem producerReap_eq (env : ProducerEnv) (s : PoolService) :
    s.producerReap env = removeDestroyed (checkHealth env (s.tended env)) := rfl

/-- The guests that `__producer_mark_available` looks at. -/
def booting (env : ProducerEnv) (s : PoolService) : List Guest :=
  match (s.producerReap env).createGuests env with
  | (_, some _) => []
  | (t, none) => t.getGuestStates [.created]

/-- The addresses of which an enabled port answers in an iteration. -/
def answeredIn (env : ProducerEnv) (s : PoolService) : List Ip :=
  (((s.tended env).getGuestStates [.available, .inUse, .used]).filter fun g =>
      s.settings.answers (env.healthNmap g.ref)).map Guest.guestIp ++
    ((s.booting env).filter fun g => s.settings.answers (env.bootNmap g.ref)).map Guest.guestIp

end PoolService

/-! ## Runs with a record of answers -/

/-- The pool, and the addresses that have answered. -/
structure Probed where
  sys : Sys
  answered : List Ip

/-- What an event adds to the record. -/
def Event.answers (s : PoolService) : Event → List Ip
  | .producer env => s.answeredIn env
  | .request _ _ => []
  | .free _ _ => []
  | .reuse _ => []

def probeStep (s : Probed) (e : Event) : Option Probed :=
  (step s.sys e).map fun t => ⟨t, s.answered ++ e.answers s.sys.pool⟩

def Probed.start (settings : Settings) : Probed := ⟨Sys.start settings, []⟩

/-- Only guests whose address has answered are in service. -/
def ServesAnswering (s : Probed) : Prop := ∀ g ∈ s.sys.pool.guests, Serving g.state → g.guestIp ∈ s.answered

instance (s : Probed) : Decidable (ServesAnswering s) := List.decidableBAll _ _

/-- Telnet is enabled, or of each guest that is looked at SSH answers, now or before. -/
def BootsAnswering (s : Probed) : Event → Prop
  | .producer env => 0 < s.sys.pool.settings.telnetPort ∨ ∀ g ∈ s.sys.pool.booting env,
      s.sys.pool.settings.answers (env.bootNmap g.ref) ∨ g.guestIp ∈ s.answered
  | .request _ _ => True
  | .free _ _ => True
  | .reuse _ => True

instance (s : Probed) : ∀ e : Event, Decidable (BootsAnswering s e)
  | .producer _ => inferInstanceAs (Decidable (_ ∨ _))
  | .request _ _ => isTrue trivial
  | .free _ _ => isTrue trivial
  | .reuse _ => isTrue trivial

/-- A pool of one guest, with SSH only, none of whose ports ever answers. -/
theorem servesAnswering_violated :
    ¬ StatesMeet probeStep ServesAnswering (Probed.start { oneGuest false with telnetPort := 0 })
      [.producer { iteration true with bootNmap := fun _ _ => false }] := by
  decide +kernel

/-! ## What an iteration does to a guest -/

/-- Before guests are created: a guest keeps its state, or is no longer `created` and is dead now. -/
def WornFrom (g g' : Guest) : Prop :=
  g' = g ∨ (g.state ≠ .created ∧ ∃ a, Dead a ∧ g' = { g with state := a })

theorem WornFrom.trans {g g' g'' : Guest} (h : WornFrom g g') (h' : WornFrom g' g'') : WornFrom g g'' := by
  rcases h with rfl | ⟨hstate, a, ha, rfl⟩
  · exact h'
  · rcases h' with rfl | ⟨-, b, hb, rfl⟩
    · exact .inr ⟨hstate, a, ha, rfl⟩
    · exact .inr ⟨hstate, b, hb, rfl⟩

theorem WornFrom.guestIp {g g' : Guest} (h : WornFrom g g') : g'.guestIp = g.guestIp := by
  rcases h with rfl | ⟨-, a, -, rfl⟩
  · rfl
  · rfl

/-- A guest that is still `created` is as it was. -/
theorem WornFrom.created {g g' : Guest} (h : WornFrom g g') (hstate : g'.state = .created) : g' = g := by
  rcases h with rfl | ⟨-, a, ha, rfl⟩
  · rfl
  · rcases ha with rfl | rfl <;> cases hstate

theorem WornFrom.not_created {g g' : Guest} (h : WornFrom g g') (hstate : g'.state ≠ .created) :
    g.state ≠ .created := by
  rcases h with rfl | ⟨hg, -⟩
  · exact hstate
  · exact hg

/-- A phase before guests are created. -/
structure Wears (s t : PoolService) : Prop where
  ips : (t.guests.map Guest.guestIp).Sublist (s.guests.map Guest.guestIp)
  worn : ∀ g' ∈ t.guests, ∃ g ∈ s.guests, WornFrom g g'

theorem wears_of_guests {s t : PoolService} (h : t.guests = s.guests) : Wears s t := by
  refine ⟨by rw [h], fun g hg => ⟨g, h ▸ hg, .inl rfl⟩⟩

theorem Wears.trans {s t u : PoolService} (h : Wears s t) (h' : Wears t u) : Wears s u := by
  refine ⟨h'.ips.trans h.ips, fun g'' hg'' => ?_⟩
  obtain ⟨g', hg', hworn'⟩ := h'.worn g'' hg''
  obtain ⟨g, hg, hworn⟩ := h.worn g' hg'
  exact ⟨g, hg, hworn.trans hworn'⟩

theorem wears_forStates {s t : PoolService} {states : List GuestState} {body : Guest → Guest}
    (hstates : ∀ a ∈ states, a ≠ .created)
    (hbody : ∀ g, body g = g ∨ ∃ a, Dead a ∧ body g = { g with state := a })
    (ht : t.guests = (s.forStates states body).guests) : Wears s t := by
  have hone : ∀ g : Guest, WornFrom g (if g.state ∈ states then body g else g) := by
    intro g
    split_ifs with hmem
    · rcases hbody g with hsame | ⟨a, ha, hset⟩
      · exact .inl hsame
      · exact .inr ⟨hstates _ hmem, a, ha, hset⟩
    · exact .inl rfl
  refine ⟨?_, fun g' hg' => ?_⟩
  · rw [ht]
    unfold forStates
    rw [map_kept fun g => (hone g).guestIp]
  · rw [ht] at hg'
    obtain ⟨g, hg, rfl⟩ := List.mem_map.mp hg'
    exact ⟨g, hg, hone g⟩

theorem wears_tended (env : ProducerEnv) (s : PoolService) : Wears s (s.tended env) := by
  have hmark : ∀ (n : Nat) (s : PoolService), Wears s (markTimedOut env n s) := fun n s =>
    wears_forStates (by decide) (fun g => by
      split_ifs
      · exact .inr ⟨.unavailable, .inl rfl, rfl⟩
      · exact .inl rfl) rfl
  have hdestroy : ∀ s : PoolService, Wears s (destroyTimedOut env s) := fun s =>
    wears_forStates (by decide) (fun g => .inr ⟨.destroyed, .inr rfl, rfl⟩) rfl
  have hcall : Wears s { s with loopNextCall := s.loopNextCall.map fun _ => .called } := wears_of_guests rfl
  unfold tended
  simp only
  split
  · exact hcall.trans ((hmark _ _).trans (hdestroy _))
  · exact hcall

theorem wears_producerReap (env : ProducerEnv) (s : PoolService) : Wears s (s.producerReap env) := by
  have hhealth : Wears (s.tended env) (checkHealth env (s.tended env)) :=
    wears_forStates (by decide) (fun g => by
      split_ifs
      · exact .inl rfl
      · exact .inr ⟨.unavailable, .inl rfl, rfl⟩) rfl
  have hremove : ∀ t : PoolService, Wears t t.removeDestroyed := fun t => by
    have hsub : t.removeDestroyed.guests.Sublist t.guests := by
      rw [removeDestroyed_guests]
      exact List.filter_sublist
    exact ⟨hsub.map _, fun g hg => ⟨g, hsub.subset hg, .inl rfl⟩⟩
  rw [producerReap_eq]
  exact (wears_tended env s).trans (hhealth.trans (hremove _))

/-! ## Addresses -/

theorem getMacIp_free {ipTester : Ip → Bool} {choices : List Ip} {ip : Ip} (h : getMacIp ipTester choices = .ok ip) :
    ipTester ip = true := by
  unfold getMacIp at h
  cases hfind : (choices.take 500).find? ipTester with
  | none =>
    rw [hfind] at h
    cases h
  | some first =>
    rw [hfind] at h
    exact Except.ok.inj h ▸ List.find?_some hfind

/-- A guest gets an address that passes the test. -/
theorem createGuest_free {ready : Bool} {ipTester : Ip → Bool} {env : CreateEnv} {domain : Domain} {snapshot : String}
    {ip : Ip} (h : createGuest ready ipTester env = .ok (some (domain, snapshot, ip))) : ipTester ip = true := by
  unfold createGuest at h
  cases ready with
  | false => cases h
  | true =>
    cases hip : getMacIp ipTester env.choices with
    | error e =>
      rw [hip] at h
      cases h
    | ok first =>
      rw [hip] at h
      cases hmade : env.result with
      | error e =>
        rw [hmade] at h
        cases h
      | ok made =>
        rw [hmade] at h
        obtain ⟨dom, image⟩ := made
        cases dom with
        | none => cases h
        | some d =>
          cases h
          exact getMacIp_free hip

theorem nodup_createOne {env : CreateEnv} {s t : PoolService} (hs : (s.guests.map Guest.guestIp).Nodup)
    (h : s.createOne env = .ok t) : (t.guests.map Guest.guestIp).Nodup := by
  obtain ⟨domain, snapshot, ip, hmade, rfl⟩ := createOne_cases h
  have hfree : ∀ g ∈ s.guests, g.guestIp ≠ ip := by simpa [isIpFree] using createGuest_free hmade
  have hguests : (s.addGuest ⟨env.now, domain, snapshot, ip⟩).guests.map Guest.guestIp =
      s.guests.map Guest.guestIp ++ [ip] := by
    simp [addGuest, newGuest]
  rw [hguests, List.nodup_append]
  refine ⟨hs, List.nodup_singleton ip, fun x hx y hy heq => ?_⟩
  obtain ⟨g, hg, rfl⟩ := List.mem_map.mp hx
  exact hfree g hg (heq.trans (List.mem_singleton.mp hy))

theorem nodup_createLoop (env : Nat → CreateEnv) {n i : Nat} {s : PoolService}
    (hs : (s.guests.map Guest.guestIp).Nodup) : ((s.createLoop env i n).1.guests.map Guest.guestIp).Nodup := by
  induction n generalizing i s with
  | zero => exact hs
  | succ n ih =>
    unfold createLoop
    cases hone : s.createOne (env i) with
    | error e => exact hs
    | ok t => exact ih (nodup_createOne hs hone)

/-! ## What an iteration leaves -/

/-- The pool after the guests are created. -/
def PoolService.grown (env : ProducerEnv) (s : PoolService) : PoolService := ((s.producerReap env).createGuests env).1

theorem grown_eq (env : ProducerEnv) (s : PoolService) :
    s.grown env = addGuests (s.creations env) (s.producerReap env) := createLoop_fst _ _ _ _

theorem settings_grown (env : ProducerEnv) (s : PoolService) : (s.grown env).settings = s.settings := by
  rw [grown_eq, addGuests_eq]
  exact (reaps_producerReap env s).settings

theorem nodup_grown (env : ProducerEnv) {s : PoolService} (hs : (s.guests.map Guest.guestIp).Nodup) :
    ((s.grown env).guests.map Guest.guestIp).Nodup :=
  nodup_createLoop _ ((wears_producerReap env s).ips.nodup hs)

/-- A guest of before, or a new one. -/
theorem mem_grown {env : ProducerEnv} {s : PoolService} {g' : Guest} (h : g' ∈ (s.grown env).guests) :
    (∃ g ∈ s.guests, WornFrom g g') ∨ (g'.state = .created ∧ g'.connected = 0) := by
  rw [grown_eq, addGuests_eq] at h
  rcases List.mem_append.mp h with h | h
  · exact .inl ((wears_producerReap env s).worn g' h)
  · obtain ⟨m, -, id, ref, rfl⟩ := mem_newGuests h
    exact .inr ⟨rfl, rfl⟩

/-- If a guest could not be created, the guests are as they are then. -/
theorem producerLoop_guests (env : ProducerEnv) (s : PoolService) :
    (s.booting env = [] ∧ (s.producerLoop env).1.guests = (s.grown env).guests) ∨
      (s.booting env = (s.grown env).getGuestStates [.created] ∧
        (s.producerLoop env).1.guests = ((s.grown env).markAvailable env).guests) := by
  unfold booting producerLoop grown
  cases (s.producerReap env).createGuests env with
  | mk t r =>
    cases r with
    | some e => exact .inl ⟨rfl, rfl⟩
    | none => exact .inr ⟨rfl, rfl⟩

theorem mem_booting {env : ProducerEnv} {s : PoolService} {g : Guest} (h : g ∈ s.booting env) :
    g ∈ (s.grown env).guests ∧ g.state = .created := by
  rcases producerLoop_guests env s with ⟨hnone, -⟩ | ⟨hbooting, -⟩
  · rw [hnone] at h
    cases h
  · rw [hbooting] at h
    obtain ⟨hmem, hstate⟩ := List.mem_filter.mp h
    exact ⟨hmem, by simpa using hstate⟩

/-- Guests keep their addresses when they are put into service. -/
theorem guestIps_producerLoop (env : ProducerEnv) (s : PoolService) :
    (s.producerLoop env).1.guests.map Guest.guestIp = (s.grown env).guests.map Guest.guestIp := by
  rcases producerLoop_guests env s with ⟨-, hguests⟩ | ⟨-, hguests⟩
  · rw [hguests]
  · rw [hguests]
    refine map_kept fun g => ?_
    by_cases hstate : g.state ∈ [GuestState.created]
    · rw [if_pos hstate]
      dsimp only
      split_ifs <;> rfl
    · rw [if_neg hstate]

theorem hasConnectivity_grown (env : ProducerEnv) (s : PoolService) (nmap : Int → Bool) :
    (s.grown env).hasConnectivity nmap = (s.settings.answers nmap || !decide (0 < s.settings.telnetPort)) := by
  rw [hasConnectivity_eq, settings_grown]

/-- A guest after an iteration: as it was when guests had been created, or put into service. -/
theorem mem_producerLoop {env : ProducerEnv} {s : PoolService} {g' : Guest}
    (h : g' ∈ (s.producerLoop env).1.guests) :
    g' ∈ (s.grown env).guests ∨ ∃ g ∈ s.booting env,
      (s.settings.answers (env.bootNmap g.ref) = true ∨ ¬ 0 < s.settings.telnetPort) ∧
        g' = { g with state := .available } := by
  rcases producerLoop_guests env s with ⟨-, hguests⟩ | ⟨hbooting, hguests⟩
  · exact .inl (hguests ▸ h)
  · rw [hguests] at h
    obtain ⟨g, hg, rfl⟩ := List.mem_map.mp h
    by_cases hstate : g.state ∈ [GuestState.created]
    · rw [if_pos hstate]
      dsimp only
      by_cases hconn : (s.grown env).hasConnectivity (env.bootNmap g.ref) = true
      · rw [if_pos hconn]
        refine .inr ⟨g, ?_, ?_, rfl⟩
        · rw [hbooting]
          exact List.mem_filter.mpr ⟨hg, decide_eq_true hstate⟩
        · rw [hasConnectivity_grown, Bool.or_eq_true] at hconn
          simpa using hconn
      · rw [if_neg hconn]
        exact .inl hg
    · rw [if_neg hstate]
      exact .inl hg

/-- A guest that has connectivity is put into service. -/
theorem available_of_booting {env : ProducerEnv} {s : PoolService} {g : Guest} (h : g ∈ s.booting env)
    (hconn : s.settings.answers (env.bootNmap g.ref) = true ∨ ¬ 0 < s.settings.telnetPort) :
    { g with state := .available } ∈ (s.producerLoop env).1.guests := by
  obtain ⟨hmem, hstate⟩ := mem_booting h
  have hyes : (s.grown env).hasConnectivity (env.bootNmap g.ref) = true := by
    rw [hasConnectivity_grown, Bool.or_eq_true]
    simpa using hconn
  rcases producerLoop_guests env s with ⟨hnone, -⟩ | ⟨-, hguests⟩
  · rw [hnone] at h
    cases h
  · rw [hguests]
    refine List.mem_map.mpr ⟨g, hmem, ?_⟩
    rw [if_pos (by simpa using hstate)]
    exact if_pos hyes

theorem guestIp_mem_answeredIn {env : ProducerEnv} {s : PoolService} {g : Guest} (h : g ∈ s.booting env)
    (hanswers : s.settings.answers (env.bootNmap g.ref) = true) : g.guestIp ∈ s.answeredIn env :=
  List.mem_append_right _ (List.mem_map_of_mem (List.mem_filter.mpr ⟨h, hanswers⟩))

/-- The address of a guest that is not `created`, or of one that answers when it is looked at. -/
theorem mem_answeredIn {env : ProducerEnv} {s : PoolService} {ip : Ip} (h : ip ∈ s.answeredIn env) :
    (∃ g ∈ (s.tended env).guests, g.state ≠ .created ∧ g.guestIp = ip) ∨
      ∃ g ∈ s.booting env, s.settings.answers (env.bootNmap g.ref) = true ∧ g.guestIp = ip := by
  rcases List.mem_append.mp h with hhealth | hboot
  · obtain ⟨g, hg, rfl⟩ := List.mem_map.mp hhealth
    obtain ⟨hstates, -⟩ := List.mem_filter.mp hg
    obtain ⟨hmem, hstate⟩ := List.mem_filter.mp hstates
    refine .inl ⟨g, hmem, fun hcreated => ?_, rfl⟩
    rw [hcreated] at hstate
    revert hstate
    decide
  · obtain ⟨g, hg, rfl⟩ := List.mem_map.mp hboot
    obtain ⟨hbooting, hyes⟩ := List.mem_filter.mp hg
    exact .inr ⟨g, hbooting, hyes, rfl⟩

/-! ## The invariant -/

/-- A guest that is not `created` has answered, at its address, and one that is has no client. -/
structure Vouched (s : Probed) : Prop where
  wf : Wf s.sys.pool
  ips : (s.sys.pool.guests.map Guest.guestIp).Nodup
  idle : ∀ g ∈ s.sys.pool.guests, g.state = .created → g.connected ≤ 0
  answered : ∀ g ∈ s.sys.pool.guests, g.state ≠ .created → g.guestIp ∈ s.answered

theorem Serving.not_created {a : GuestState} (h : Serving a) : a ≠ .created := by
  rintro rfl
  revert h
  decide

theorem Vouched.servesAnswering {s : Probed} (h : Vouched s) : ServesAnswering s := fun g hg hserving =>
  h.answered g hg hserving.not_created

theorem vouched_start (settings : Settings) : Vouched (Probed.start settings) :=
  ⟨wf_start settings, List.nodup_nil, fun _ hg => absurd hg List.not_mem_nil, fun _ hg => absurd hg List.not_mem_nil⟩

/-- The record of the next state. -/
theorem probeStep_eq_some {s t : Probed} {e : Event} (h : probeStep s e = some t) :
    step s.sys e = some t.sys ∧ t.answered = s.answered ++ e.answers s.sys.pool := by
  obtain ⟨u, hu, rfl⟩ := Option.map_eq_some_iff.mp h
  exact ⟨hu, rfl⟩

theorem guestIp_writes (e : Event) (g : Guest) : (e.writes g).guestIp = g.guestIp := by
  cases e with
  | free l now => rfl
  | reuse l =>
    change g.reused.guestIp = g.guestIp
    unfold Guest.reused
    simp only
    split_ifs <;> rfl
  | request ip env => rfl
  | producer env => rfl

/-- The guests are left alone. -/
theorem vouched_same {s t : Probed} (hs : Vouched s) (hwf : Wf t.sys.pool)
    (hguests : t.sys.pool.guests = s.sys.pool.guests) (hanswered : s.answered ⊆ t.answered) : Vouched t := by
  refine ⟨hwf, ?_, ?_, ?_⟩ <;> rw [hguests]
  · exact hs.ips
  · exact hs.idle
  · exact fun g hg hstate => hanswered (hs.answered g hg hstate)

/-- Something is written to one guest, which stays `created`, without a client, or stays something else. -/
theorem vouched_write {s t : Probed} (hs : Vouched s) (hwf : Wf t.sys.pool) {f : Guest → Guest} {r : Ref}
    (hguests : t.sys.pool.guests = s.sys.pool.guests.map fun x => if x.ref = r then f x else x)
    (hip : ∀ g, (f g).guestIp = g.guestIp)
    (hcreated : ∀ g ∈ s.sys.pool.guests, g.ref = r → g.state = .created →
      (f g).state = .created ∧ (f g).connected ≤ 0)
    (hnot : ∀ g ∈ s.sys.pool.guests, g.ref = r → g.state ≠ .created → (f g).state ≠ .created)
    (hanswered : s.answered ⊆ t.answered) : Vouched t := by
  refine ⟨hwf, ?_, fun g' hg' hstate => ?_, fun g' hg' hstate => ?_⟩
  · rw [hguests, map_kept fun g => by
      split_ifs
      · exact hip g
      · rfl]
    exact hs.ips
  · rw [hguests] at hg'
    obtain ⟨g, hg, ⟨hr, rfl⟩ | ⟨-, rfl⟩⟩ := mem_write hg'
    · by_cases hwas : g.state = .created
      · exact (hcreated g hg hr hwas).2
      · exact absurd hstate (hnot g hg hr hwas)
    · exact hs.idle _ hg hstate
  · rw [hguests] at hg'
    obtain ⟨g, hg, ⟨hr, rfl⟩ | ⟨-, rfl⟩⟩ := mem_write hg'
    · have hwas : g.state ≠ .created := fun hwas => hstate (hcreated g hg hr hwas).1
      rw [hip]
      exact hanswered (hs.answered g hg hwas)
    · exact hanswered (hs.answered _ hg hstate)

/-- The guest that a request is given was in service. -/
theorem vouched_request {s t : Probed} (hs : Vouched s) (hwf : Wf t.sys.pool) {ip : Ip} {env : StopEnv}
    (hpool : t.sys.pool = (s.sys.pool.requestVm env ip).1) (hanswered : s.answered ⊆ t.answered) : Vouched t := by
  have hguests := (requestVm_guests env ip s.sys.pool).2.2
  rw [← hpool] at hguests
  cases hchosen : s.sys.pool.chooseGuest ip with
  | none =>
    rw [hchosen] at hguests
    exact vouched_same hs hwf hguests hanswered
  | some c =>
    rw [hchosen] at hguests
    obtain ⟨hmem, hserving⟩ := chooseGuest_mem hchosen
    refine vouched_write (f := Guest.granted ip) hs hwf hguests (fun _ => rfl) (fun g hg hr hwas => ?_)
      (fun _ _ _ _ => by simp [Guest.granted]) hanswered
    obtain rfl := hs.wf.eq_of_ref hg hmem hr
    exact absurd hwas hserving.not_created

/-- A guest that is `created` has no last client to leave, and any other one reverts to a serving state. -/
theorem vouched_release {s t : Probed} (hs : Vouched s) (hwf : Wf t.sys.pool) {e : Event} {id : Nat}
    (hreleases : Releases e.writes)
    (hguests : t.sys.pool.guests = updateById id e.writes s.sys.pool.guests) (hanswered : s.answered ⊆ t.answered) :
    Vouched t := by
  rw [updateById_spec id e.writes hs.wf.nodup] at hguests
  cases hfound : s.sys.pool.guests.find? (·.id == id) with
  | none =>
    rw [hfound] at hguests
    exact vouched_same hs hwf hguests hanswered
  | some c =>
    rw [hfound] at hguests
    refine vouched_write hs hwf hguests (guestIp_writes e) (fun g hg _ hwas => ?_) (fun g hg _ hwas => ?_) hanswered
    · have hidle := hs.idle g hg hwas
      have hconnected := hreleases.connected g
      rw [(hreleases.kept g (by omega)).1]
      exact ⟨hwas, by omega⟩
    · by_cases hlast : g.connected = 1
      · rcases hreleases.last g hlast with hused | hprev
        · rw [hused]
          decide
        · rw [hprev]
          exact (hs.wf.reverts g hg (by omega)).not_created
      · rw [(hreleases.kept g hlast).1]
        exact hwas

theorem not_created_answered {s : Probed} (hs : Vouched s) {g' : Guest} {t : PoolService} (h : Wears s.sys.pool t)
    (hmem : g' ∈ t.guests) (hstate : g'.state ≠ .created) : g'.guestIp ∈ s.answered := by
  obtain ⟨g, hg, hworn⟩ := h.worn g' hmem
  rw [hworn.guestIp]
  exact hs.answered g hg (hworn.not_created hstate)

theorem vouched_producer {s t : Probed} (hs : Vouched s) (hwf : Wf t.sys.pool) {env : ProducerEnv}
    (hboots : BootsAnswering s (.producer env)) (hpool : t.sys.pool = (s.sys.pool.producerLoop env).1)
    (hanswered : t.answered = s.answered ++ s.sys.pool.answeredIn env) : Vouched t := by
  have hmono : s.answered ⊆ t.answered := hanswered ▸ List.subset_append_left _ _
  refine ⟨hwf, ?_, fun g' hg' hstate => ?_, fun g' hg' hstate => ?_⟩
  · rw [hpool, guestIps_producerLoop]
    exact nodup_grown env hs.ips
  · rw [hpool] at hg'
    rcases mem_producerLoop hg' with hgrown | ⟨g, -, -, rfl⟩
    · rcases mem_grown hgrown with ⟨g, hg, hworn⟩ | ⟨-, hnone⟩
      · obtain rfl := hworn.created hstate
        exact hs.idle _ hg hstate
      · exact hnone.le
    · cases hstate
  · rw [hpool] at hg'
    rcases mem_producerLoop hg' with hgrown | ⟨g, hg, hconn, rfl⟩
    · rcases mem_grown hgrown with ⟨g, hg, hworn⟩ | ⟨hnew, -⟩
      · rw [hworn.guestIp]
        exact hmono (hs.answered g hg (hworn.not_created hstate))
      · exact absurd hnew hstate
    · have hyes : s.sys.pool.settings.answers (env.bootNmap g.ref) = true ∨ g.guestIp ∈ s.answered := by
        rcases hboots with htelnet | hall
        · exact .inl (hconn.resolve_right (not_not_intro htelnet))
        · exact hall g hg
      rcases hyes with hyes | hbefore
      · have hnow : g.guestIp ∈ t.answered := by
          rw [hanswered]
          exact List.mem_append_right _ (guestIp_mem_answeredIn hg hyes)
        exact hnow
      · exact hmono hbefore

theorem vouched_step (s : Probed) (e : Event) (t : Probed) (hs : Vouched s) (hboots : BootsAnswering s e)
    (h : probeStep s e = some t) : Vouched t := by
  obtain ⟨hstep, hanswered⟩ := probeStep_eq_some h
  have hwf := wf_step s.sys e t.sys hs.wf hstep
  have hmono : s.answered ⊆ t.answered := hanswered ▸ List.subset_append_left _ _
  rcases step_cases hstep with ⟨ip, env, -, hpool, -⟩ | ⟨l, -, hreleases, -, -, hpool⟩ | ⟨env, rfl, hpool, -⟩
  · exact vouched_request hs hwf hpool hmono
  · exact vouched_release hs hwf hreleases (congrArg PoolService.guests hpool) hmono
  · exact vouched_producer hs hwf hboots hpool hanswered

/-! ## When only guests that answer are served -/

/-- In an iteration that leaves only guests in service that have answered, every guest put into service had. -/
theorem bootsAnswering_of_servesAnswering {s t : Probed} {e : Event} (hs : Vouched s) (h : probeStep s e = some t)
    (hserves : ServesAnswering t) : BootsAnswering s e := by
  obtain ⟨hstep, hanswered⟩ := probeStep_eq_some h
  cases e with
  | request ip env => trivial
  | free l now => trivial
  | reuse l => trivial
  | producer env =>
    obtain hpool : t.sys.pool = (s.sys.pool.producerLoop env).1 := congrArg Sys.pool (Option.some.inj hstep).symm
    by_cases htelnet : 0 < s.sys.pool.settings.telnetPort
    · exact .inl htelnet
    · refine .inr fun g hg => ?_
      have havailable := available_of_booting hg (.inr htelnet)
      rw [← hpool] at havailable
      have hmem := hserves _ havailable (.inl rfl)
      rw [hanswered] at hmem
      rcases List.mem_append.mp hmem with hbefore | hnow
      · exact .inr hbefore
      · rcases mem_answeredIn hnow with ⟨g', htended, hstate, hsame⟩ | ⟨g', hbooting, hyes, hsame⟩
        · exact .inr (hsame ▸ not_created_answered hs (wears_tended env s.sys.pool) htended hstate)
        · -- addresses are distinct, so it is this guest that answers
          have heq : g' = g := List.inj_on_of_nodup_map (nodup_grown env hs.ips) (mem_booting hbooting).1
            (mem_booting hg).1 hsame
          exact .inl (heq ▸ hyes)

/-- **When only guests that answer are served.** In every run from an empty pool, each guest in service has been seen
to answer on an enabled port iff telnet is enabled, or each guest answered before it left `created`. -/
theorem servesAnswering_iff {settings : Settings} {es : List Event} {u : Probed}
    (hrun : run probeStep (Probed.start settings) es = some u) :
    StatesMeet probeStep ServesAnswering (Probed.start settings) es ↔
      StepsMeet probeStep BootsAnswering (Probed.start settings) es :=
  statesMeet_iff_of_inv vouched_step (fun _ => Vouched.servesAnswering)
    (fun _ _ _ => bootsAnswering_of_servesAnswering) (vouched_start settings) hrun

/-- With SSH only, the guest answers in the first iteration. -/
theorem servesAnswering_up : StatesMeet probeStep ServesAnswering
    (Probed.start { oneGuest false with telnetPort := 0 })
    [.producer (iteration true), .request "203.0.113.1" cleanStop] :=
  (servesAnswering_iff (Option.some_get (by decide +kernel)).symm).mpr (by decide +kernel)

/-- **Where telnet is enabled, only guests that answer are served.** -/
theorem servesAnswering_of_telnet {settings : Settings} (htelnet : 0 < settings.telnetPort) (es : List Event) :
    StatesMeet probeStep ServesAnswering (Probed.start settings) es := by
  have hkeep : ∀ (s : Probed) (e : Event) (t : Probed), Vouched s ∧ 0 < s.sys.pool.settings.telnetPort → True →
      probeStep s e = some t → Vouched t ∧ 0 < t.sys.pool.settings.telnetPort := by
    rintro s e t ⟨hs, htelnet⟩ - h
    refine ⟨vouched_step s e t hs ?_ h, ?_⟩
    · cases e with
      | producer env => exact .inl htelnet
      | request ip env => trivial
      | free l now => trivial
      | reuse l => trivial
    · rw [settings_step s.sys e t.sys (probeStep_eq_some h).1]
      exact htelnet
  exact statesMeet_mono (fun s hs => hs.1.servesAnswering)
    (statesMeet_of_inv hkeep ⟨vouched_start settings, htelnet⟩ (stepsMeet_true _ es))

end Cowrie.Pool
