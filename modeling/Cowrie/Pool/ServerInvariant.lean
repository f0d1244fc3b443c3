import Cowrie.Pool.Server
import Cowrie.Pool.Survival

/-!
# What the server does to the pool

`Moves` lists what a step of the server can do to the pool, NAT bindings apart, and the invariants
of the server's runs are read off it.

* `moves_step`: every step of the server moves the pool.
* **`sound_run`**: in every run of the server ids are below 252, and once a guest has been
  available there is a delayed call of the producer, be it pending, spent or cancelled.
-/

namespace Cowrie.Pool

open Cowrie.Lib PoolService

/-- What a step of the server can do to the pool. -/
inductive Moves (s : PoolService) : PoolService → Prop
  | idle (b : List (Nat × Binding)) : Moves s { s with natBindings := b }
  | request (env : StopEnv) (ip : Ip) (b : List (Nat × Binding)) :
      Moves s { (s.requestVm env ip).1 with natBindings := b }
  | configure (maxVm vmUnusedTimeout : Nat) (shareGuests : Bool) :
      Moves s (s.setConfigs maxVm vmUnusedTimeout shareGuests)
  | free (now : ℚ) (guestId : Nat) (b : List (Nat × Binding)) :
      Moves s { s.freeVm now guestId with natBindings := b }
  | reuse (guestId : Nat) (b : List (Nat × Binding)) :
      Moves s { s.reuseVm guestId with natBindings := b }
  | producer (env : ProducerEnv) : Moves s (s.producerLoop env).1

theorem moves_refl (s : PoolService) : Moves s s := Moves.idle s.natBindings

/-! ## Messages -/

theorem moves_answer (config : ServerConfig) (env : ServerEnv) (guest : Nat × Ip × String)
    {s : PoolService} {t : Server} {ip : Ip} (h : t.pool = (s.requestVm env.stop ip).1) :
    Moves s (t.answer config env guest).1.pool := by
  unfold Server.answer
  simp only
  split
  · change Moves s { t.pool with natBindings := _ }
    rw [h]
    exact Moves.request _ _ _
  · rw [h]
    exact Moves.request env.stop ip _

theorem moves_receiveRequest (config : ServerConfig) (env : ServerEnv) (b : Bytes) (s : Server) :
    Moves s.pool (s.receiveRequest config env b).1.pool := by
  unfold Server.receiveRequest
  cases Server.unpackRequest b with
  | error e => exact moves_refl _
  | ok ip =>
    have hpool : (s.requestVm env.stop ip).1.pool = (s.pool.requestVm env.stop ip).1 := rfl
    have hmove : Moves s.pool (s.requestVm env.stop ip).1.pool := hpool ▸ Moves.request env.stop ip _
    simp only
    cases hr : s.requestVm env.stop ip with
    | mk t r =>
      rw [hr] at hpool hmove
      cases r with
      | ok guest => exact moves_answer config env guest hpool
      | error e => cases e <;> exact hmove

theorem moves_receiveRelease (release : Nat → PoolService → PoolService) (b : Bytes) (s : Server)
    (hr : ∀ guestId bs, Moves s.pool (release guestId { s.pool with natBindings := bs })) :
    Moves s.pool (s.receiveRelease release b).1.pool := by
  unfold Server.receiveRelease
  cases unpackUInt 4 b with
  | none => exact moves_refl _
  | some guestId =>
    simp only
    split
    · cases s.nat.freeBinding guestId with
      | none => exact moves_refl _
      | some nat => exact hr guestId nat.bindings
    · exact hr guestId s.pool.natBindings

theorem moves_dataReceived (config : ServerConfig) (env : ServerEnv) (data : Bytes) (s : Server) :
    Moves s.pool (s.dataReceived config env data).1.pool := by
  unfold Server.dataReceived
  cases data with
  | nil => exact moves_refl _
  | cons op b =>
    simp only
    split
    · unfold Server.receiveInit
      cases Server.unpackInit b with
      | none => exact moves_refl _
      | some v => exact Moves.configure _ _ _
    split
    · exact moves_receiveRequest config env b s
    split
    · exact moves_receiveRelease _ b s fun guestId bs => Moves.free env.now guestId bs
    split
    · exact moves_receiveRelease _ b s fun guestId bs => Moves.reuse guestId bs
    · exact moves_refl _

/-- **Every step of the server moves the pool.** -/
theorem moves_step {config : ServerConfig} {s t : ServerSys} {e : ServerEvent}
    (h : serverStep config s e = some t) : Moves s.server.pool t.server.pool := by
  cases e with
  | message data env =>
    simp only [serverStep] at h
    split at h
    · cases h
    · obtain rfl := Option.some.inj h
      exact moves_dataReceived config env data s.server
  | release r reuse env =>
    simp only [serverStep] at h
    split at h
    · obtain rfl := Option.some.inj h
      exact moves_dataReceived config env _ s.server
    · cases h
  | producer env =>
    obtain rfl := Option.some.inj h
    exact Moves.producer env
  | close guestId ssh =>
    obtain rfl := Option.some.inj h
    exact Moves.idle _

/-! ## Invariants of all runs -/

/-- Ids are below 252; once a guest was up there is a delayed call. -/
structure Sound (s : PoolService) : Prop where
  guestId : s.guestId < 252
  ids : ∀ g ∈ s.guests, g.id < 252
  scheduled : s.anyVmUp = true → s.loopNextCall ≠ none

theorem updateById_ids (guestId : Nat) {f : Guest → Guest} (hf : ∀ g, (f g).id = g.id) :
    ∀ gs : List Guest, (updateById guestId f gs).map Guest.id = gs.map Guest.id
  | [] => rfl
  | g :: gs => by
    unfold updateById
    split
    · rw [List.map_cons, List.map_cons, hf]
    · rw [List.map_cons, List.map_cons, updateById_ids guestId hf gs]

/-- A step that neither numbers guests nor touches the producer. -/
theorem Sound.of_ids {s t : PoolService} (hs : Sound s) (hi : t.guestId = s.guestId)
    (hg : t.guests.map Guest.id = s.guests.map Guest.id)
    (hc : t.anyVmUp = true → t.loopNextCall = none → s.anyVmUp = true ∧ s.loopNextCall = none) :
    Sound t := by
  refine ⟨by rw [hi]; exact hs.guestId, fun g hgm => ?_, fun hup hnone => ?_⟩
  · have hmem : g.id ∈ s.guests.map Guest.id := hg ▸ List.mem_map_of_mem hgm
    obtain ⟨g', hg', hid⟩ := List.mem_map.mp hmem
    rw [← hid]
    exact hs.ids g' hg'
  · obtain ⟨hup', hnone'⟩ := hc hup hnone
    exact hs.scheduled hup' hnone'

theorem requestVm_anyVmUp (env : StopEnv) (ip : Ip) (s : PoolService) :
    (s.requestVm env ip).1.anyVmUp = s.anyVmUp := by
  rw [requestVm_pool]
  cases s.chooseGuest ip with
  | some g => rfl
  | none =>
    simp only
    split
    · obtain ⟨c, q, b, h⟩ := stopPool_frame env s
      rw [h]
    · rfl

theorem sound_request (env : StopEnv) (ip : Ip) {s : PoolService} (hs : Sound s) :
    Sound (s.requestVm env ip).1 := by
  refine hs.of_ids (requestVm_guestId env ip s) ?_ fun hup hnone => ?_
  · rw [(requestVm_guests env ip s).2.2]
    cases s.chooseGuest ip with
    | none => rfl
    | some g => exact map_kept fun x => (same_write (same_granted ip) g.ref x).id
  · rw [requestVm_anyVmUp] at hup
    rw [requestVm_loopNextCall] at hnone
    refine ⟨hup, ?_⟩
    split at hnone
    · exact Option.map_eq_none_iff.mp hnone
    · exact hnone

theorem nextId_lt {id : Nat} (h : id < 252) : nextId id < 252 := by
  unfold nextId
  split <;> omega

theorem iterate_nextId_lt {id : Nat} (h : id < 252) (n : Nat) : nextId^[n] id < 252 := by
  induction n with
  | zero => exact h
  | succ n ih =>
    rw [Function.iterate_succ_apply']
    exact nextId_lt ih

theorem newGuests_id_lt {ms : List Made} {id : Nat} {ref : Ref} (h : id < 252) :
    ∀ g ∈ newGuests ms id ref, g.id < 252 := by
  induction ms generalizing id ref with
  | nil => simp [newGuests]
  | cons m ms ih =>
    intro g hg
    rcases List.mem_cons.mp hg with rfl | hg
    · exact h
    · exact ih (nextId_lt h) g hg

/-- An iteration that raises does not mark any guest available. -/
theorem anyVmUp_of_raise {env : ProducerEnv} {s : PoolService}
    (h : (s.producerLoop env).2 ≠ none) : (s.producerLoop env).1.anyVmUp = s.anyVmUp := by
  obtain ⟨gs, q, n, i, hcreate⟩ := createGuests_frame env s
  rcases producerLoop_cases env s with ⟨-, hloop⟩ | ⟨hok, -⟩
  · rw [hloop, hcreate]
  · exact absurd hok h

theorem sound_producer (env : ProducerEnv) {s : PoolService} (hs : Sound s) :
    Sound (s.producerLoop env).1 := by
  obtain ⟨⟨f, hf, hg⟩, -, hi, -, -⟩ := producer_boots env s
  refine ⟨?_, fun g' hg' => ?_, fun hup => ?_⟩
  · rw [hi, addGuests_eq]
    exact iterate_nextId_lt (reap_guestId env s ▸ hs.guestId) _
  · rw [hg, addGuests_eq] at hg'
    obtain ⟨g₁, hg₁, rfl⟩ := List.mem_map.mp hg'
    rw [(hf g₁).aged.1]
    change g₁.id < 252
    rcases List.mem_append.mp hg₁ with hg₁ | hg₁
    · obtain ⟨g, hgm, ha⟩ := (reaps_producerReap env s).aged g₁ hg₁
      rw [ha.1]
      exact hs.ids g hgm
    · exact newGuests_id_lt (reap_guestId env s ▸ hs.guestId) g₁ hg₁
  · rw [producerLoop_loopNextCall]
    by_cases hok : (s.producerLoop env).2 = none
    · rw [if_pos hok]
      simp
    · rw [if_neg hok]
      rw [anyVmUp_of_raise hok] at hup
      intro hnone
      exact hs.scheduled hup (Option.map_eq_none_iff.mp hnone)

theorem sound_moves {s t : PoolService} (hs : Sound s) (h : Moves s t) : Sound t := by
  cases h with
  | idle b => exact hs.of_ids rfl rfl fun hup hnone => ⟨hup, hnone⟩
  | request env ip b =>
    exact (sound_request env ip hs).of_ids rfl rfl fun hup hnone => ⟨hup, hnone⟩
  | configure maxVm vmUnusedTimeout shareGuests =>
    exact hs.of_ids rfl rfl fun hup hnone => ⟨hup, hnone⟩
  | free now guestId b =>
    exact hs.of_ids rfl (updateById_ids guestId (releases_freed now).id _) fun hup hnone => ⟨hup, hnone⟩
  | reuse guestId b =>
    exact hs.of_ids rfl (updateById_ids guestId releases_reused.id _) fun hup hnone => ⟨hup, hnone⟩
  | producer env => exact sound_producer env hs

theorem sound_start (settings : Settings) : Sound (PoolService.start settings) :=
  ⟨by simp [PoolService.start], by simp [PoolService.start], by simp [PoolService.start]⟩

theorem sound_run {config : ServerConfig} {settings : Settings} {es : List ServerEvent}
    {s : ServerSys} (h : run (serverStep config) (ServerSys.start settings) es = some s) :
    Sound s.server.pool := by
  have hstep : ∀ s e t, Sound s.server.pool → serverStep config s e = some t →
      Sound t.server.pool := fun _ _ _ hs ht => sound_moves hs (moves_step ht)
  exact run_inv' hstep (sound_start settings) h

end Cowrie.Pool
