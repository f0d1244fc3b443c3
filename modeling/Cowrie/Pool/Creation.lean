import Cowrie.Pool.Invariant

/-!
# The guests an iteration creates (`src/backend_pool/pool_service.py:342-372`)

`created` are the results of the calls of `qemu.create_guest` in one iteration, up to the first one
that raises or returns `None`; `addGuest` is what the loop does with one of them.

* **`createLoop_fst`**: the creation loop adds the guests created, and nothing else.
* `createLoop_snd`: it raises iff one of the calls failed.
* `addGuests_eq`: all that changes when guests are added. New guests are the end of the list; they
  are numbered by `guestId`, which starts again at 0 after 251.
* **`numbered_step`**: the id of a guest is the number of guests created before it, modulo 252.
-/

namespace Cowrie.Pool

open Cowrie.Lib

/-- A guest made by `qemu.create_guest`, and the time it was put in the list. -/
structure Made where
  now : ℚ
  domain : Domain
  snapshot : String
  guestIp : Ip
  deriving DecidableEq

/-- The guest object for `m` (`pool_service.py:351-365`). -/
def newGuest (m : Made) (id : Nat) (ref : Ref) : Guest where
  ref := ref
  id := id
  state := .created
  prevState := .unset
  startTimestamp := m.now
  guestIp := m.guestIp
  connected := 0
  clientIps := []
  freedTimestamp := -1
  domain := m.domain
  snapshot := m.snapshot

/-- The id after `id` (`pool_service.py:368-372`). -/
def nextId (id : Nat) : Nat := if id + 1 = 252 then 0 else id + 1

namespace PoolService

/-- A round of the creation loop, with what `create_guest` returned. -/
def addGuest (s : PoolService) (m : Made) : PoolService :=
  { s with
    qemu := { s.qemu with domains := s.qemu.domains ++ [m.domain] }
    guests := s.guests ++ [newGuest m s.guestId s.nextRef]
    nextRef := s.nextRef + 1
    guestId := nextId s.guestId }

def addGuests (ms : List Made) (s : PoolService) : PoolService := ms.foldl addGuest s

/-- What `create_guest` returns in `n` rounds of the loop, up to the first failure. -/
def created (env : Nat → CreateEnv) : Nat → Nat → PoolService → List Made
  | _, 0, _ => []
  | i, n + 1, s =>
    match createGuest s.qemu.ready s.isIpFree (env i) with
    | .ok (some (domain, snapshot, ip)) =>
      ⟨(env i).now, domain, snapshot, ip⟩ ::
        created env (i + 1) n (s.addGuest ⟨(env i).now, domain, snapshot, ip⟩)
    | _ => []

end PoolService

/-- The guests made one after the other, the first with the given id and reference. -/
def newGuests : List Made → Nat → Ref → List Guest
  | [], _, _ => []
  | m :: ms, id, ref => newGuest m id ref :: newGuests ms (nextId id) (ref + 1)

/-! ## The creation loop -/

open PoolService

theorem createOne_eq (env : CreateEnv) (s : PoolService) :
    s.createOne env =
      match createGuest s.qemu.ready s.isIpFree env with
      | .ok (some (domain, snapshot, ip)) => .ok (s.addGuest ⟨env.now, domain, snapshot, ip⟩)
      | .ok none => .error .typeError
      | .error e => .error e := by
  unfold createOne
  cases createGuest s.qemu.ready s.isIpFree env with
  | error e => rfl
  | ok r =>
    cases r with
    | none => rfl
    | some r => rfl

/-- What a round of the loop did, if it did not raise. -/
theorem createOne_cases {env : CreateEnv} {s t : PoolService} (h : s.createOne env = .ok t) :
    ∃ domain snapshot ip, createGuest s.qemu.ready s.isIpFree env = .ok (some (domain, snapshot, ip)) ∧
      t = s.addGuest ⟨env.now, domain, snapshot, ip⟩ := by
  rw [createOne_eq] at h
  cases hmade : createGuest s.qemu.ready s.isIpFree env with
  | error e =>
    rw [hmade] at h
    cases h
  | ok made =>
    rw [hmade] at h
    cases made with
    | none => cases h
    | some made =>
      obtain ⟨domain, snapshot, ip⟩ := made
      exact ⟨domain, snapshot, ip, rfl, (Except.ok.inj h).symm⟩

/-- **The loop adds what was created.** -/
theorem createLoop_fst (env : Nat → CreateEnv) :
    ∀ (n i : Nat) (s : PoolService), (s.createLoop env i n).1 = addGuests (s.created env i n) s
  | 0, _, _ => rfl
  | n + 1, i, s => by
    unfold createLoop created
    rw [createOne_eq]
    cases createGuest s.qemu.ready s.isIpFree (env i) with
    | error e => rfl
    | ok r =>
      cases r with
      | none => rfl
      | some r => exact createLoop_fst env n (i + 1) _

/-- It raises iff a call failed. -/
theorem createLoop_snd (env : Nat → CreateEnv) :
    ∀ (n i : Nat) (s : PoolService),
      (s.createLoop env i n).2 = none ↔ (s.created env i n).length = n
  | 0, _, _ => iff_of_true rfl rfl
  | n + 1, i, s => by
    unfold createLoop created
    rw [createOne_eq]
    cases createGuest s.qemu.ready s.isIpFree (env i) with
    | error e => simp
    | ok r =>
      cases r with
      | none => simp
      | some r =>
        simp only [List.length_cons, Nat.add_right_cancel_iff]
        exact createLoop_snd env n (i + 1) _

theorem length_created_le (env : Nat → CreateEnv) :
    ∀ (n i : Nat) (s : PoolService), (s.created env i n).length ≤ n
  | 0, _, _ => Nat.zero_le _
  | n + 1, i, s => by
    unfold created
    cases createGuest s.qemu.ready s.isIpFree (env i) with
    | error e => exact Nat.zero_le _
    | ok r =>
      cases r with
      | none => exact Nat.zero_le _
      | some r => exact Nat.succ_le_succ (length_created_le env n (i + 1) _)

/-- All that adding guests changes. -/
theorem addGuests_eq (ms : List Made) (s : PoolService) :
    addGuests ms s = { s with
      qemu := { s.qemu with domains := s.qemu.domains ++ ms.map Made.domain }
      guests := s.guests ++ newGuests ms s.guestId s.nextRef
      nextRef := s.nextRef + ms.length
      guestId := nextId^[ms.length] s.guestId } := by
  induction ms generalizing s with
  | nil => simp [addGuests, newGuests]
  | cons m ms ih =>
    have hstep : addGuests (m :: ms) s = addGuests ms (s.addGuest m) := rfl
    rw [hstep, ih]
    simp [addGuest, newGuests, Nat.add_assoc, Nat.add_comm 1]

theorem refs_newGuests (ms : List Made) (id : Nat) (ref : Ref) :
    (newGuests ms id ref).map Guest.ref = List.range' ref ms.length := by
  induction ms generalizing id ref with
  | nil => rfl
  | cons m ms ih =>
    rw [newGuests, List.map_cons, ih, List.length_cons, List.range'_succ]
    rfl

theorem mem_newGuests {ms : List Made} {id : Nat} {ref : Ref} {g : Guest}
    (h : g ∈ newGuests ms id ref) : ∃ m ∈ ms, ∃ i r, g = newGuest m i r := by
  induction ms generalizing id ref with
  | nil => cases h
  | cons m ms ih =>
    rcases List.mem_cons.mp h with rfl | h
    · exact ⟨m, List.mem_cons_self, id, ref, rfl⟩
    · obtain ⟨m', hm, h⟩ := ih h
      exact ⟨m', List.mem_cons_of_mem _ hm, h⟩

/-! ## Ids -/

theorem nextId_mod (n : Nat) : nextId (n % 252) = (n + 1) % 252 := by
  unfold nextId
  split <;> omega

theorem nextId_iterate (k n : Nat) : nextId^[k] (n % 252) = (n + k) % 252 := by
  induction k with
  | zero => rfl
  | succ k ih => rw [Function.iterate_succ_apply', ih, nextId_mod, Nat.add_assoc]

theorem ids_newGuests {ms : List Made} {ref : Ref} {g : Guest}
    (h : g ∈ newGuests ms (ref % 252) ref) : g.id = g.ref % 252 := by
  induction ms generalizing ref with
  | nil => cases h
  | cons m ms ih =>
    rcases List.mem_cons.mp h with rfl | h
    · rfl
    · rw [nextId_mod] at h
      exact ih h

/-- Ids count the guests created, modulo 252. -/
structure Numbered (s : PoolService) : Prop where
  guestId : s.guestId = s.nextRef % 252
  ids : ∀ g ∈ s.guests, g.id = g.ref % 252

/-- The creation loop starts from the guests that were not reaped. -/
theorem reap_guestId (env : ProducerEnv) (s : PoolService) :
    (s.producerReap env).guestId = s.guestId := by
  unfold producerReap
  simp only
  split <;> rfl

/-- How many guests the iteration that `env` describes wants to create. -/
def PoolService.wanted (env : ProducerEnv) (s : PoolService) : Nat :=
  (s.producerReap env).settings.maxVm - (s.producerReap env).existingPoolSize

/-- What `create_guest` returns in it. -/
def PoolService.creations (env : ProducerEnv) (s : PoolService) : List Made :=
  (s.producerReap env).created env.creates 0 (s.wanted env)

/-- `g'` is `g`, which may have booted. -/
def BootedFrom (g g' : Guest) : Prop :=
  g' = g ∨ (g.state = .created ∧ g' = { g with state := .available })

theorem BootedFrom.aged {g g' : Guest} (h : BootedFrom g g') : AgedFrom g g' := by
  rcases h with rfl | ⟨hst, rfl⟩
  · exact AgedFrom.refl _
  · exact AgedFrom.set (Or.inr (Or.inr ⟨hst, rfl⟩))

theorem BootedFrom.destroyed {g g' : Guest} (h : BootedFrom g g') (hg : g.state ≠ .destroyed) :
    g'.state ≠ .destroyed := by
  rcases h with rfl | ⟨-, rfl⟩
  · exact hg
  · simp

/-- The end of an iteration, after the creation loop: some guests in state created are available. -/
structure Boots (s t : PoolService) : Prop where
  guests : ∃ f, (∀ g, BootedFrom g (f g)) ∧ t.guests = s.guests.map f
  nextRef : t.nextRef = s.nextRef
  guestId : t.guestId = s.guestId
  settings : t.settings = s.settings
  qemu : t.qemu = s.qemu

theorem Boots.reaps {s t : PoolService} (h : Boots s t) : Reaps s t := by
  obtain ⟨⟨f, hf, hg⟩, hn, -, hs, -⟩ := h
  refine ⟨?_, fun g' hg' => ?_, hn, hs⟩
  · rw [hg, map_kept fun g => (hf g).aged.ref_eq]
  · rw [hg] at hg'
    obtain ⟨g, hmem, rfl⟩ := List.mem_map.mp hg'
    exact ⟨g, hmem, (hf g).aged⟩

theorem boots_refl (s : PoolService) : Boots s s :=
  ⟨⟨id, fun _ => Or.inl rfl, (List.map_id _).symm⟩, rfl, rfl, rfl, rfl⟩

theorem boots_markAvailable (env : ProducerEnv) (s : PoolService) (c : Option DelayedCall) :
    Boots s { s.markAvailable env with loopNextCall := c } := by
  refine ⟨⟨_, fun g => ?_, rfl⟩, rfl, rfl, rfl, rfl⟩
  split
  · rename_i hst
    simp only
    split
    · exact Or.inr ⟨List.mem_singleton.mp hst, rfl⟩
    · exact Or.inl rfl
  · exact Or.inl rfl

/-- What an iteration leaves alone before its last part. -/
theorem createGuests_frame (env : ProducerEnv) (s : PoolService) :
    ∃ gs q n i, ((s.producerReap env).createGuests env).1 = { s with
      guests := gs
      qemu := q
      nextRef := n
      guestId := i
      loopNextCall := s.loopNextCall.map fun _ => .called } := by
  have hreap : ∃ gs q, s.producerReap env = { s with
      guests := gs
      qemu := q
      loopNextCall := s.loopNextCall.map fun _ => .called } := by
    unfold producerReap
    simp only
    split
    · exact ⟨_, _, rfl⟩
    · exact ⟨_, s.qemu, rfl⟩
  obtain ⟨gs, q, hreap⟩ := hreap
  unfold createGuests
  rw [createLoop_fst, addGuests_eq]
  generalize (s.producerReap env).created env.creates 0 _ = ms
  rw [hreap]
  exact ⟨_, _, _, _, rfl⟩

/-- An iteration that raises ends with the creation loop, another one with the next call. -/
theorem producerLoop_cases (env : ProducerEnv) (s : PoolService) :
    ((s.producerLoop env).2 ≠ none ∧
      (s.producerLoop env).1 = ((s.producerReap env).createGuests env).1) ∨
    ((s.producerLoop env).2 = none ∧
      (s.producerLoop env).1 = { ((s.producerReap env).createGuests env).1.markAvailable env with
        loopNextCall := some .pending }) := by
  unfold producerLoop
  cases (s.producerReap env).createGuests env with
  | mk t r =>
    cases r with
    | some e => exact Or.inl ⟨by simp, rfl⟩
    | none => exact Or.inr ⟨rfl, rfl⟩

/-- An iteration raises iff one of the calls of `create_guest` failed. -/
theorem producerLoop_snd (env : ProducerEnv) (s : PoolService) :
    (s.producerLoop env).2 = none ↔ (s.creations env).length = s.wanted env := by
  refine Iff.trans ?_ (createLoop_snd _ _ _ _)
  unfold producerLoop createGuests wanted
  cases (s.producerReap env).createLoop env.creates 0
      ((s.producerReap env).settings.maxVm - (s.producerReap env).existingPoolSize) with
  | mk t r =>
    cases r with
    | some e => exact iff_of_false (by simp) (by simp)
    | none => exact iff_of_true rfl rfl

/-- **What an iteration creates.** Its guests are the reaped ones and the new ones, with some of
those in state created now available. -/
theorem producer_boots (env : ProducerEnv) (s : PoolService) :
    Boots (addGuests (s.creations env) (s.producerReap env)) (s.producerLoop env).1 := by
  have hcreate : addGuests (s.creations env) (s.producerReap env) =
      ((s.producerReap env).createGuests env).1 := (createLoop_fst _ _ _ _).symm
  rw [hcreate]
  rcases producerLoop_cases env s with ⟨-, h⟩ | ⟨-, h⟩
  · rw [h]
    exact boots_refl _
  · rw [h]
    exact boots_markAvailable env _ _

theorem numbered_producer (env : ProducerEnv) {s : PoolService} (hs : Numbered s) :
    Numbered (s.producerLoop env).1 := by
  have hboots := producer_boots env s
  have hreaps := hboots.reaps
  have hreap := reaps_producerReap env s
  have hu := addGuests_eq (s.creations env) (s.producerReap env)
  generalize addGuests (s.creations env) (s.producerReap env) = u at hboots hreaps hu
  have huid : u.guestId = u.nextRef % 252 := by
    rw [hu]
    simp only [reap_guestId, hreap.nextRef, hs.guestId, nextId_iterate]
  refine ⟨by rw [hboots.guestId, huid, hreaps.nextRef], fun g'' hg'' => ?_⟩
  obtain ⟨g', hg', ha⟩ := hreaps.aged g'' hg''
  rw [ha.1]
  change g'.id = g'.ref % 252
  rw [hu] at hg'
  simp only [reap_guestId, hreap.nextRef, hs.guestId] at hg'
  rcases List.mem_append.mp hg' with hg' | hg'
  · obtain ⟨g, hg, ha'⟩ := hreap.aged g' hg'
    rw [ha'.1]
    exact hs.ids g hg
  · exact ids_newGuests hg'

theorem requestVm_guestId (env : StopEnv) (ip : Ip) (s : PoolService) :
    (s.requestVm env ip).1.guestId = s.guestId := by
  rw [requestVm_pool]
  cases s.chooseGuest ip with
  | some g => rfl
  | none =>
    simp only
    split
    · obtain ⟨c, q, b, h⟩ := stopPool_frame env s
      rw [h]
    · rfl

theorem guestId_consumer {s t : Sys} {e : Event} (he : ∀ env, e ≠ .producer env)
    (h : step s e = some t) : t.pool.guestId = s.pool.guestId := by
  rcases step_cases h with ⟨ip, env, -, hp, -⟩ | ⟨l, -, -, -, -, hp⟩ | ⟨env, rfl, -, -⟩
  · rw [hp]
    exact requestVm_guestId env ip s.pool
  · rw [hp]
  · exact absurd rfl (he env)

theorem numbered_step (s : Sys) (e : Event) (t : Sys) (hwf : Wf s.pool) (hs : Numbered s.pool)
    (h : step s e = some t) : Numbered t.pool := by
  by_cases he : ∃ env, e = .producer env
  · obtain ⟨env, rfl⟩ := he
    obtain rfl := Option.some.inj h
    exact numbered_producer env hs
  · have hne : ∀ env, e ≠ .producer env := fun env h => he ⟨env, h⟩
    obtain ⟨f, hf, hg⟩ := consumer_guests hwf.nodup hne h
    refine ⟨by rw [guestId_consumer hne h, nextRef_consumer hne h, hs.guestId], fun g' hg' => ?_⟩
    rw [hg] at hg'
    obtain ⟨g, hgm, rfl⟩ := List.mem_map.mp hg'
    rw [(hf g).id, (hf g).ref]
    exact hs.ids g hgm

theorem numbered_start (settings : Settings) : Numbered (Sys.start settings).pool :=
  ⟨rfl, by simp [Sys.start, PoolService.start]⟩

end Cowrie.Pool
