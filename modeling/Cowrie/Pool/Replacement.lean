import Cowrie.Pool.Creation
import Cowrie.Pool.Forward

/-!
# Replacing a guest without connectivity

`producer_loop` (`pool_service.py:374-398`) marks guests without connectivity unavailable in every
iteration, but destroys the unavailable ones only if there is more than one guest, unavailable
ones included (`existing_pool_size() > 1`). With one guest in the pool the mark is never acted on:
the guest stays in the list, counts as part of the pool, and nothing is created in its place.

* `length_le_maxVm`: the list never has more than `max_vm` guests.
* `producerReap_guests`, `listed_producer`: which guests an iteration removes.
* **`replaced_violated`**: the only guest of a pool loses connectivity, and is still there after two
  more iterations.
* **`replaced_iff`**: a marked guest is out of the list, and the pool full again, after one of two
  later iterations that create what they want, iff one of them destroys it. Unless a release takes
  the last client from the dead guest (which puts it back into service), that is the case iff
  `max_vm` is at least two.
-/

namespace Cowrie.Pool

open Cowrie.Lib PoolService

/-- The iteration from `s` to `t` marked the guest `r` for destruction: it was serving before, and
is dead now if it is still listed. -/
def Marked (s t : Sys) (r : Ref) : Prop :=
  (∃ g ∈ s.pool.guests, g.ref = r ∧ Serving g.state) ∧
    ∀ g ∈ t.pool.guests, g.ref = r → Dead g.state

/-- The guest `r` is gone and the pool is full. -/
def Replaced (s : Sys) (r : Ref) : Prop :=
  (∀ g ∈ s.pool.guests, g.ref ≠ r) ∧ s.pool.settings.maxVm ≤ s.pool.existingPoolSize

instance (s t : Sys) (r : Ref) : Decidable (Marked s t r) := inferInstanceAs (Decidable (_ ∧ _))

instance (s : Sys) (r : Ref) : Decidable (Replaced s r) := inferInstanceAs (Decidable (_ ∧ _))

/-! ## The guests in the list between steps -/

/-- Between steps no listed guest is destroyed, and there are at most `max_vm`. -/
structure Bounded (s : Sys) : Prop where
  wf : Wf s.pool
  alive : ∀ g ∈ s.pool.guests, g.state ≠ .destroyed
  length : s.pool.guests.length ≤ s.pool.settings.maxVm

theorem existingPoolSize_of_alive {s : PoolService} (h : ∀ g ∈ s.guests, g.state ≠ .destroyed) :
    s.existingPoolSize = s.guests.length := by
  unfold existingPoolSize
  rw [List.filter_eq_self.mpr fun g hg => by simpa using h g hg]

/-- Reaping leaves no destroyed guest. -/
theorem alive_producerReap (env : ProducerEnv) (s : PoolService) :
    ∀ g ∈ (s.producerReap env).guests, g.state ≠ .destroyed := by
  intro g hg
  unfold producerReap at hg
  simp only [removeDestroyed_guests] at hg
  simpa using (List.mem_filter.mp hg).2

theorem length_newGuests (ms : List Made) (id : Nat) (ref : Ref) :
    (newGuests ms id ref).length = ms.length := by
  have h := congrArg List.length (refs_newGuests ms id ref)
  simpa using h

/-- The list after an iteration. -/
theorem producer_length (env : ProducerEnv) (s : PoolService) :
    (s.producerLoop env).1.guests.length =
      (s.producerReap env).guests.length + (s.creations env).length := by
  obtain ⟨⟨f, -, hg⟩, -⟩ := producer_boots env s
  rw [hg, List.length_map, addGuests_eq]
  simp only [List.length_append, length_newGuests]

theorem alive_producer (env : ProducerEnv) (s : PoolService) :
    ∀ g ∈ (s.producerLoop env).1.guests, g.state ≠ .destroyed := by
  obtain ⟨⟨f, hf, hg⟩, -⟩ := producer_boots env s
  intro g' hg'
  rw [hg, addGuests_eq] at hg'
  obtain ⟨g, hmem, rfl⟩ := List.mem_map.mp hg'
  refine (hf g).destroyed ?_
  rcases List.mem_append.mp hmem with h | h
  · exact alive_producerReap env s g h
  · obtain ⟨m, -, i, r, rfl⟩ := mem_newGuests h
    simp [newGuest]

theorem wanted_eq (env : ProducerEnv) (s : PoolService) :
    s.wanted env = s.settings.maxVm - (s.producerReap env).guests.length := by
  unfold wanted
  rw [existingPoolSize_of_alive (alive_producerReap env s), (reaps_producerReap env s).settings]

/-- An iteration that creates all it wants fills the pool. -/
theorem full_producer {env : ProducerEnv} {s : PoolService}
    (hok : (s.producerLoop env).2 = none) :
    s.settings.maxVm ≤ (s.producerLoop env).1.existingPoolSize := by
  rw [existingPoolSize_of_alive (alive_producer env s), producer_length,
    (producerLoop_snd env s).mp hok, wanted_eq]
  omega

/-- No step leaves a destroyed guest in the list. -/
theorem alive_step (s : Sys) (e : Event) (t : Sys) (hwf : Wf s.pool)
    (hs : ∀ g ∈ s.pool.guests, g.state ≠ .destroyed) (h : step s e = some t) :
    ∀ g ∈ t.pool.guests, g.state ≠ .destroyed := by
  intro g' hg'
  rcases step_cases h with ⟨ip, env, -, hp, -⟩ | ⟨l, -, hf, -, -, hp⟩ | ⟨env, -, hp, -⟩
  · rw [hp, (requestVm_guests env ip s.pool).2.2] at hg'
    cases hc : s.pool.chooseGuest ip with
    | none =>
      simp only [hc] at hg'
      exact hs g' hg'
    | some c =>
      simp only [hc] at hg'
      obtain ⟨g, hgm, ⟨-, rfl⟩ | ⟨-, rfl⟩⟩ := mem_write hg'
      · simp [Guest.granted]
      · exact hs _ hgm
  · rw [hp] at hg'
    simp only [updateById_spec l.id e.writes hwf.nodup] at hg'
    cases hc : s.pool.guests.find? (·.id == l.id) with
    | none =>
      simp only [hc] at hg'
      exact hs g' hg'
    | some c =>
      simp only [hc] at hg'
      obtain ⟨g, hgm, ⟨-, rfl⟩ | ⟨-, rfl⟩⟩ := mem_write hg'
      · by_cases h1 : g.connected = 1
        · rcases hf.last g h1 with hst | hst <;> rw [hst]
          · simp
          · intro hd
            exact Dead.not_serving (Or.inr hd) (hwf.reverts g hgm (by omega))
        · rw [(hf.kept g h1).1]
          exact hs g hgm
      · exact hs _ hgm
  · rw [hp] at hg'
    exact alive_producer env s.pool g' hg'

/-- An iteration fills the pool at most up to `max_vm`. -/
theorem length_producer (env : ProducerEnv) (s : PoolService) :
    (s.producerLoop env).1.guests.length ≤ max s.guests.length s.settings.maxVm := by
  have hcreate : (s.creations env).length ≤ s.wanted env := length_created_le _ _ _ _
  have hreap := (reaps_producerReap env s).refs.length_le
  rw [List.length_map, List.length_map] at hreap
  rw [wanted_eq] at hcreate
  rw [producer_length]
  omega

theorem bounded_step (s : Sys) (e : Event) (t : Sys) (hs : Bounded s) (h : step s e = some t) :
    Bounded t := by
  refine ⟨wf_step s e t hs.wf h, alive_step s e t hs.wf hs.alive h, ?_⟩
  rw [settings_step s e t h]
  by_cases he : ∃ env, e = .producer env
  · obtain ⟨env, rfl⟩ := he
    have hpool : t.pool = (s.pool.producerLoop env).1 := by rw [← Option.some.inj h]
    rw [hpool]
    exact (length_producer env s.pool).trans (max_le hs.length (le_refl _))
  · obtain ⟨f, -, hg⟩ := consumer_guests hs.wf.nodup (fun env h => he ⟨env, h⟩) h
    rw [hg, List.length_map]
    exact hs.length

theorem bounded_start (settings : Settings) : Bounded (Sys.start settings) :=
  ⟨wf_start settings, by simp [Sys.start, PoolService.start], by simp [Sys.start, PoolService.start]⟩

/-- The list never has more than `max_vm` guests. -/
theorem length_le_maxVm {settings : Settings} {es : List Event} {s : Sys}
    (h : run step (Sys.start settings) es = some s) :
    s.pool.guests.length ≤ s.pool.settings.maxVm :=
  (run_inv' bounded_step (bounded_start settings) h).length

/-! ## What an iteration destroys -/

/-- The iteration destroys the guest: the pool has more than one guest, and this one is
unavailable, or was freed too long ago. -/
def Doomed (env : ProducerEnv) (s : PoolService) (g : Guest) : Prop :=
  1 < s.existingPoolSize ∧ (g.state = .unavailable ∨
    (g.state = .used ∧ g.freedTimestamp + s.settings.vmUnusedTimeout < env.now g.ref))

instance (env : ProducerEnv) (s : PoolService) (g : Guest) : Decidable (Doomed env s g) :=
  inferInstanceAs (Decidable (_ ∧ (_ ∨ (_ ∧ _))))

/-- `f` is what a phase of the producer does to each guest, which destroys those in `D`. -/
structure Dooms (s t : PoolService) (f : Guest → Guest) (D : Guest → Prop) : Prop where
  guests : t.guests = s.guests.map f
  settings : t.settings = s.settings
  aged : ∀ g, AgedFrom g (f g)
  destroyed : ∀ g, (f g).state = .destroyed ↔ g.state = .destroyed ∨ D g

/-- What `__producer_mark_timed_out` does to a guest. -/
def marked (env : ProducerEnv) (n : Nat) (g : Guest) : Guest :=
  if g.state = .used ∧ g.freedTimestamp + n < env.now g.ref then { g with state := .unavailable }
  else g

theorem markTimedOut_guests (env : ProducerEnv) (n : Nat) (s : PoolService) :
    (markTimedOut env n s).guests = s.guests.map (marked env n) := by
  refine List.map_congr_left fun g _ => ?_
  simp only [List.mem_singleton, marked]
  by_cases hst : g.state = .used
  · simp only [hst, true_and, if_true]
  · simp only [hst, false_and, if_false]

theorem marked_unavailable (env : ProducerEnv) (n : Nat) (g : Guest) :
    (marked env n g).state = .unavailable ↔
      g.state = .unavailable ∨ (g.state = .used ∧ g.freedTimestamp + n < env.now g.ref) := by
  unfold marked
  split
  · rename_i h
    exact iff_of_true rfl (Or.inr h)
  · rename_i h
    exact ⟨Or.inl, fun hor => hor.resolve_right h⟩

theorem marked_aged (env : ProducerEnv) (n : Nat) (g : Guest) : AgedFrom g (marked env n g) := by
  unfold marked
  split
  · exact AgedFrom.set (Or.inr (Or.inl (Or.inl rfl)))
  · exact AgedFrom.refl g

theorem dooms_timedOut (env : ProducerEnv) (n : Nat) (s : PoolService) :
    ∃ f, Dooms s (destroyTimedOut env (markTimedOut env n s)) f fun g =>
      g.state = .unavailable ∨ (g.state = .used ∧ g.freedTimestamp + n < env.now g.ref) := by
  have hset : ∀ g : Guest, AgedFrom g { g with state := .destroyed } := fun g =>
    AgedFrom.set (Or.inr (Or.inl (Or.inr rfl)))
  refine ⟨fun g => if (marked env n g).state ∈ [GuestState.unavailable] then
    { marked env n g with state := .destroyed } else marked env n g, ?_, rfl, fun g => ?_, fun g => ?_⟩
  · simp only [destroyTimedOut, forStates, markTimedOut_guests, List.map_map]
    rfl
  · split
    · exact (marked_aged env n g).trans (hset _)
    · exact marked_aged env n g
  · rw [← marked_unavailable]
    simp only [List.mem_singleton]
    by_cases hst : (marked env n g).state = .unavailable
    · simp [hst]
    · have hkept : (marked env n g).state = g.state := by
        unfold marked at hst ⊢
        split
        · rename_i h
          simp [h] at hst
        · rfl
      rw [if_neg hst, hkept]
      simp only [hkept ▸ hst, or_false]

theorem dooms_checkHealth (env : ProducerEnv) (s : PoolService) :
    ∃ f, Dooms s (checkHealth env s) f fun _ => False := by
  refine ⟨_, rfl, rfl, fun g => ?_, fun g => ?_⟩ <;> dsimp only
  · split_ifs
    · exact AgedFrom.refl g
    · exact AgedFrom.set (Or.inr (Or.inl (Or.inl rfl)))
    · exact AgedFrom.refl g
  · split_ifs with hst
    · simp
    · rw [List.mem_cons, List.mem_cons, List.mem_singleton] at hst
      rcases hst with h | h | h <;> simp [h]
    · simp

theorem Dooms.trans {s t u : PoolService} {f f' : Guest → Guest} {D : Guest → Prop}
    (h : Dooms s t f D) (h' : Dooms t u f' fun _ => False) : Dooms s u (f' ∘ f) D := by
  refine ⟨by rw [h'.guests, h.guests, List.map_map], h'.settings.trans h.settings,
    fun g => (h.aged g).trans (h'.aged _), fun g => ?_⟩
  rw [Function.comp, h'.destroyed, h.destroyed, or_false]

/-- The delayed call that started the iteration is spent. -/
def PoolService.spent (s : PoolService) : PoolService :=
  { s with loopNextCall := s.loopNextCall.map fun _ => .called }

theorem producerReap_of_many (env : ProducerEnv) {s : PoolService} (h : 1 < s.existingPoolSize) :
    s.producerReap env = removeDestroyed (checkHealth env
      (destroyTimedOut env (markTimedOut env s.settings.vmUnusedTimeout s.spent))) :=
  congrArg (fun t => removeDestroyed (checkHealth env t)) (if_pos h)

theorem producerReap_of_one (env : ProducerEnv) {s : PoolService} (h : ¬ 1 < s.existingPoolSize) :
    s.producerReap env = removeDestroyed (checkHealth env s.spent) :=
  congrArg (fun t => removeDestroyed (checkHealth env t)) (if_neg h)

/-- **What is left after reaping**: the guests that were not destroyed and are not doomed. -/
theorem producerReap_guests (env : ProducerEnv) (s : PoolService) :
    ∃ f, (∀ g, AgedFrom g (f g)) ∧
      (∀ g, (f g).state = .destroyed ↔ g.state = .destroyed ∨ Doomed env s g) ∧
      (s.producerReap env).guests =
        (s.guests.map f).filter fun g => !decide (g.state = .destroyed) := by
  -- the first two phases, which the guard may skip
  have hphase : ∃ t f, Dooms s t f (Doomed env s) ∧
      s.producerReap env = removeDestroyed (checkHealth env t) := by
    by_cases hsize : 1 < s.existingPoolSize
    · obtain ⟨f, hg, hset, ha, hd⟩ := dooms_timedOut env s.settings.vmUnusedTimeout s.spent
      refine ⟨_, f, ⟨hg, hset, ha, fun g => ?_⟩, producerReap_of_many env hsize⟩
      rw [hd]
      unfold Doomed
      simp only [hsize, true_and]
    · refine ⟨s.spent, id, ⟨(List.map_id _).symm, rfl, AgedFrom.refl, fun g => ?_⟩,
        producerReap_of_one env hsize⟩
      unfold Doomed
      simp only [hsize, false_and, or_false, id]
  obtain ⟨t, f, hf, hreap⟩ := hphase
  obtain ⟨f', hf'⟩ := dooms_checkHealth env t
  have h := hf.trans hf'
  exact ⟨f' ∘ f, h.aged, h.destroyed, by rw [hreap, removeDestroyed_guests, h.guests]⟩

/-- After an iteration a guest that was listed is gone iff it was doomed. -/
theorem listed_producer (env : ProducerEnv) {s : PoolService}
    (halive : ∀ g ∈ s.guests, g.state ≠ .destroyed) {r : Ref} (hr : r < s.nextRef) :
    (∃ g ∈ (s.producerLoop env).1.guests, g.ref = r) ↔
      ∃ g ∈ s.guests, g.ref = r ∧ ¬ Doomed env s g := by
  obtain ⟨⟨b, hb, hg⟩, -⟩ := producer_boots env s
  obtain ⟨f, hage, hdest, hreap⟩ := producerReap_guests env s
  rw [hg, addGuests_eq]
  constructor
  · rintro ⟨g', hg', hgr⟩
    obtain ⟨g₁, hg₁, rfl⟩ := List.mem_map.mp hg'
    rw [(hb g₁).aged.ref_eq] at hgr
    rcases List.mem_append.mp hg₁ with hg₁ | hg₁
    · rw [hreap] at hg₁
      obtain ⟨hmem, halive₁⟩ := List.mem_filter.mp hg₁
      obtain ⟨g, hgm, rfl⟩ := List.mem_map.mp hmem
      refine ⟨g, hgm, (hage g).ref_eq.symm.trans hgr, fun hd => ?_⟩
      simp [(hdest g).mpr (Or.inr hd)] at halive₁
    · -- the new guests are none of the old ones
      have hmem : g₁.ref ∈ List.range' s.nextRef (s.creations env).length := by
        rw [← (reaps_producerReap env s).nextRef, ← refs_newGuests]
        exact List.mem_map_of_mem hg₁
      exact absurd (List.mem_range'_1.mp hmem).1 (not_le.mpr (hgr ▸ hr))
  · rintro ⟨g, hgm, hgr, hnot⟩
    refine ⟨b (f g), List.mem_map_of_mem (List.mem_append_left _ ?_),
      ((hb _).aged.ref_eq.trans (hage g).ref_eq).trans hgr⟩
    rw [hreap]
    refine List.mem_filter.mpr ⟨List.mem_map_of_mem hgm, ?_⟩
    have hst : (f g).state ≠ .destroyed := fun h => by
      rcases (hdest g).mp h with h | h
      · exact halive g hgm h
      · exact hnot h
    simp [hst]

/-! ## Two iterations -/

/-- Every call of `create_guest` in the iteration returns a guest. -/
def Succeeds (env : ProducerEnv) (s : Sys) : Prop :=
  (s.pool.creations env).length = s.pool.wanted env

/-- The guest `r`, if it is still listed, is one that the iteration destroys. -/
def Destroys (env : ProducerEnv) (s : Sys) (r : Ref) : Prop :=
  ∀ g ∈ s.pool.guests, g.ref = r → Doomed env s.pool g

instance (env : ProducerEnv) (s : Sys) : Decidable (Succeeds env s) :=
  inferInstanceAs (Decidable (_ = _))

instance (env : ProducerEnv) (s : Sys) (r : Ref) : Decidable (Destroys env s r) :=
  inferInstanceAs (Decidable (∀ g ∈ _, _))

/-- Two iterations that create all they want, from `t₁` to `u₁` and from `t₂` to `u₂`, with
requests and releases before the first and between the two. -/
structure TwoIterations (t : Sys) (bs cs : List Event) (env₁ env₂ : ProducerEnv)
    (t₁ u₁ t₂ u₂ : Sys) : Prop where
  consumers : ∀ e ∈ bs ++ cs, ∀ env, e ≠ .producer env
  before : run step t bs = some t₁
  first : step t₁ (.producer env₁) = some u₁
  between : run step u₁ cs = some t₂
  second : step t₂ (.producer env₂) = some u₂
  succeeds₁ : Succeeds env₁ t₁
  succeeds₂ : Succeeds env₂ t₂

/-! ## A guest that is never replaced -/

/-- **The only guest stays**: it is marked unavailable, and after two more iterations it is still
in the list. -/
theorem replaced_violated : ∃ s t u₁ u₂ : Sys,
    run step (Sys.start (oneGuest true)) [.producer (iteration true)] = some s ∧
    step s (.producer (iteration false)) = some t ∧ Marked s t 0 ∧
    TwoIterations t [] [] (iteration true) (iteration true) t u₁ u₁ u₂ ∧
    ¬ Replaced u₁ 0 ∧ ¬ Replaced u₂ 0 := by
  refine ⟨_, _, _, _, rfl, rfl, ?_, ⟨by simp, rfl, rfl, rfl, rfl, ?_, ?_⟩, ?_⟩ <;> decide +kernel

/-! ## What the two iterations do -/

/-- A successful iteration replaces `r` iff it destroys it. -/
theorem replaced_iff_destroys {env : ProducerEnv} {s u : Sys} (hs : Bounded s) {r : Ref}
    (hr : r < s.pool.nextRef) (h : step s (.producer env) = some u) (hok : Succeeds env s) :
    Replaced u r ↔ Destroys env s r := by
  have hpool : u.pool = (s.pool.producerLoop env).1 := by rw [← Option.some.inj h]
  have hlist := listed_producer env hs.alive hr
  have hset := (producer_spec env s.pool).settings
  have hfull := full_producer ((producerLoop_snd env s.pool).mpr hok)
  rw [← hset] at hfull
  rw [← hpool] at hlist hfull
  have hgone : (∀ g ∈ u.pool.guests, g.ref ≠ r) ↔ Destroys env s r := by
    unfold Destroys
    rw [← not_iff_not]
    push Not
    exact hlist
  exact ⟨fun hrep => hgone.mp hrep.1, fun hd => ⟨hgone.mpr hd, hfull⟩⟩

/-- Requests and releases keep the guests in the list. -/
theorem refs_consumer {s t : Sys} {e : Event} (hwf : Wf s.pool) (he : ∀ env, e ≠ .producer env)
    (h : step s e = some t) :
    t.pool.guests.map Guest.ref = s.pool.guests.map Guest.ref := by
  obtain ⟨f, hf, hg⟩ := consumer_guests hwf.nodup he h
  rw [hg]
  exact map_kept fun g => (hf g).ref

theorem refs_consumers {s t : Sys} {es : List Event} (hwf : Wf s.pool)
    (hes : ∀ e ∈ es, ∀ env, e ≠ .producer env) (h : run step s es = some t) :
    t.pool.guests.map Guest.ref = s.pool.guests.map Guest.ref ∧ t.pool.nextRef = s.pool.nextRef := by
  induction es generalizing s with
  | nil =>
    obtain rfl : s = t := by simpa using h
    exact ⟨rfl, rfl⟩
  | cons e es ih =>
    obtain ⟨u, hu, hrest⟩ := run_cons.mp h
    have hone := refs_consumer hwf (hes e List.mem_cons_self) hu
    have hmany := ih (wf_step s e u hwf hu) (fun e' he' => hes e' (List.mem_cons_of_mem _ he')) hrest
    exact ⟨hmany.1.trans hone, hmany.2.trans (nextRef_consumer (hes e List.mem_cons_self) hu)⟩

theorem nextRef_run {s t : Sys} {es : List Event} (h : run step s es = some t) :
    s.pool.nextRef ≤ t.pool.nextRef := by
  have hstep : ∀ u e v, s.pool.nextRef ≤ u.pool.nextRef → step u e = some v →
      s.pool.nextRef ≤ v.pool.nextRef := fun u e v hu hv => hu.trans (nextRef_step u e v hv)
  exact run_inv' hstep (le_refl _) h

/-- `Bounded` with the settings it starts with. -/
structure BoundedBy (settings : Settings) (s : Sys) : Prop extends Bounded s where
  settings : s.pool.settings = settings

theorem boundedBy_step (settings : Settings) (s : Sys) (e : Event) (t : Sys)
    (hs : BoundedBy settings s) (h : step s e = some t) : BoundedBy settings t :=
  ⟨bounded_step s e t hs.toBounded h, (settings_step s e t h).trans hs.settings⟩

/-- With room for one guest only, no iteration destroys the one it has. -/
theorem listed_of_one {env : ProducerEnv} {s u : Sys} (hs : Bounded s)
    (hone : s.pool.settings.maxVm ≤ 1) {r : Ref} (hr : r < s.pool.nextRef)
    (h : step s (.producer env) = some u) (hlist : r ∈ s.pool.guests.map Guest.ref) :
    ¬ Destroys env s r ∧ r ∈ u.pool.guests.map Guest.ref := by
  obtain rfl := Option.some.inj h
  obtain ⟨g, hg, hgr⟩ := List.mem_map.mp hlist
  have hsize := existingPoolSize_of_alive hs.alive
  have hlen := hs.length
  have hnot : ¬ Doomed env s.pool g := fun hd => by
    have := hd.1
    omega
  refine ⟨fun hd => hnot (hd g hg hgr), ?_⟩
  obtain ⟨g', hg', hr'⟩ := (listed_producer env hs.alive hr).mpr ⟨g, hg, hgr, hnot⟩
  exact List.mem_map.mpr ⟨g', hg', hr'⟩

/-- With one guest in the pool, a marked guest survives both iterations. -/
theorem TwoIterations.not_destroys {settings : Settings} {t t₁ u₁ t₂ u₂ : Sys} {bs cs : List Event}
    {env₁ env₂ : ProducerEnv} (h : TwoIterations t bs cs env₁ env₂ t₁ u₁ t₂ u₂)
    (ht : BoundedBy settings t) (hone : settings.maxVm ≤ 1) {r : Ref} (hr : r < t.pool.nextRef)
    (hlist : r ∈ t.pool.guests.map Guest.ref) :
    ¬ Destroys env₁ t₁ r ∧ ¬ Destroys env₂ t₂ r := by
  have hb₁ := run_inv' (boundedBy_step settings) ht h.before
  have hc₁ := boundedBy_step settings t₁ _ u₁ hb₁ h.first
  have hb₂ := run_inv' (boundedBy_step settings) hc₁ h.between
  obtain ⟨hrefs₁, hnext₁⟩ := refs_consumers ht.wf
    (fun e he => h.consumers e (List.mem_append_left _ he)) h.before
  obtain ⟨hnot₁, hlist₁⟩ := listed_of_one hb₁.toBounded (by rw [hb₁.settings]; exact hone)
    (by rw [hnext₁]; exact hr) h.first (by rw [hrefs₁]; exact hlist)
  obtain ⟨hrefs₂, hnext₂⟩ := refs_consumers hc₁.wf
    (fun e he => h.consumers e (List.mem_append_right _ he)) h.between
  have hr₂ : r < t₂.pool.nextRef := by
    rw [hnext₂]
    obtain ⟨g, hg, rfl⟩ := List.mem_map.mp hlist₁
    exact hc₁.wf.bound g hg
  exact ⟨hnot₁, (listed_of_one hb₂.toBounded (by rw [hb₂.settings]; exact hone) hr₂ h.second
    (by rw [hrefs₂]; exact hlist₁)).1⟩

/-- A dead guest is destroyed by an iteration of a pool with more than one guest. -/
theorem DeadAt.destroys {env : ProducerEnv} {s : Sys} {r : Ref} (h : DeadAt r s) (hs : Bounded s)
    (hsize : 1 < s.pool.guests.length) : Destroys env s r := by
  intro g hg hgr
  refine ⟨by rw [existingPoolSize_of_alive hs.alive]; exact hsize, Or.inl ?_⟩
  exact (h.dead g hg hgr).resolve_right (hs.alive g hg)

/-- With room for two, one of the iterations destroys it, unless a release put it back into
service. -/
theorem TwoIterations.destroys {settings : Settings} {t t₁ u₁ t₂ u₂ : Sys} {bs cs : List Event}
    {env₁ env₂ : ProducerEnv} (h : TwoIterations t bs cs env₁ env₂ t₁ u₁ t₂ u₂)
    (ht : BoundedBy settings t) (htwo : 2 ≤ settings.maxVm) {r : Ref} (hdead : DeadAt r t)
    (hmeet : StepsMeet step NoDeadRelease t (bs ++ .producer env₁ :: cs)) :
    Destroys env₁ t₁ r ∨ Destroys env₂ t₂ r := by
  have hb₁ := run_inv' (boundedBy_step settings) ht h.before
  have hc₁ := boundedBy_step settings t₁ _ u₁ hb₁ h.first
  have hb₂ := run_inv' (boundedBy_step settings) hc₁ h.between
  obtain ⟨hmeet₁, hcond, hmeet₂⟩ := (stepsMeet_append h.before).mp hmeet
  have hd₁ := run_inv (deadAt_step r) hdead hmeet₁ h.before
  have hd₂ := run_inv (deadAt_step r) (deadAt_step r t₁ _ u₁ hd₁ hcond h.first)
    (hmeet₂ u₁ h.first) h.between
  by_cases hsize : 1 < t₁.pool.guests.length
  · exact Or.inl (hd₁.destroys hb₁.toBounded hsize)
  · -- the first iteration skips the destruction, but fills the pool
    refine Or.inr (hd₂.destroys hb₂.toBounded ?_)
    have hfull : settings.maxVm ≤ u₁.pool.guests.length := by
      have hu := Option.some.inj h.first
      have hok := full_producer ((producerLoop_snd env₁ t₁.pool).mpr h.succeeds₁)
      rw [hb₁.settings] at hok
      rw [← existingPoolSize_of_alive hc₁.alive, ← hu]
      exact hok
    have hlen := congrArg List.length (refs_consumers hc₁.wf
      (fun e he => h.consumers e (List.mem_append_right _ he)) h.between).1
    simp only [List.length_map] at hlen
    omega

/-! ## When unhealthy guests are replaced -/

/-- **When a marked guest is replaced.** Two iterations after a guest was marked it is out of the
list and the pool is full iff one of them destroys it: at its start the guest is unlisted, or it
is still unavailable (or used and timed out) and the pool has more than one guest. Unless a
release puts the guest back into service, this is the case iff `max_vm` is at least two. -/
theorem replaced_iff {settings : Settings} {es bs cs : List Event} {s t t₁ u₁ t₂ u₂ : Sys}
    {env₀ env₁ env₂ : ProducerEnv} {r : Ref} (hrun : run step (Sys.start settings) es = some s)
    (hmarks : step s (.producer env₀) = some t) (hmark : Marked s t r)
    (h : TwoIterations t bs cs env₁ env₂ t₁ u₁ t₂ u₂) :
    ((Replaced u₁ r ∨ Replaced u₂ r) ↔ (Destroys env₁ t₁ r ∨ Destroys env₂ t₂ r)) ∧
      (StepsMeet step NoDeadRelease t (bs ++ .producer env₁ :: cs) →
        ((Destroys env₁ t₁ r ∨ Destroys env₂ t₂ r) ↔ 2 ≤ settings.maxVm)) := by
  have hs := run_inv' (boundedBy_step settings) ⟨bounded_start settings, rfl⟩ hrun
  have ht := boundedBy_step settings s _ t hs hmarks
  have hb₁ := run_inv' (boundedBy_step settings) ht h.before
  have hc₁ := boundedBy_step settings t₁ _ u₁ hb₁ h.first
  have hb₂ := run_inv' (boundedBy_step settings) hc₁ h.between
  obtain ⟨⟨g, hg, rfl, -⟩, hdead⟩ := hmark
  have hgs : g.ref < s.pool.nextRef := hs.wf.bound g hg
  have hgt : g.ref < t.pool.nextRef := hgs.trans_le (nextRef_step s _ t hmarks)
  have hgt₁ : g.ref < t₁.pool.nextRef := hgt.trans_le (nextRef_run h.before)
  have hgt₂ : g.ref < t₂.pool.nextRef :=
    (hgt₁.trans_le (nextRef_step t₁ _ u₁ h.first)).trans_le (nextRef_run h.between)
  refine ⟨?_, fun hmeet => ⟨fun hd => ?_, fun htwo => ?_⟩⟩
  · rw [replaced_iff_destroys hb₁.toBounded hgt₁ h.first h.succeeds₁,
      replaced_iff_destroys hb₂.toBounded hgt₂ h.second h.succeeds₂]
  · by_contra hone
    have hmax : settings.maxVm ≤ 1 := by omega
    obtain ⟨-, hlist⟩ := listed_of_one hs.toBounded (by rw [hs.settings]; exact hmax) hgs hmarks
      (List.mem_map_of_mem hg)
    obtain ⟨hn₁, hn₂⟩ := h.not_destroys ht hmax hgt hlist
    exact hd.elim hn₁ hn₂
  · exact h.destroys ht htwo ⟨ht.wf, hgt, hdead⟩ hmeet

/-- An iteration in which the guest `down` does not answer the health check; new domains are
numbered from `domain`. -/
def oneDown (down : Option Ref) (domain : Domain) (addresses : List Ip) : ProducerEnv where
  now _ := 0
  destroyOk _ := true
  healthNmap ref _ := down ≠ some ref
  creates n := ⟨addresses.drop n, .ok (some (domain + n), "snapshot.qcow2"), 0⟩
  bootNmap _ _ := true

/-- With room for two guests the unhealthy one is replaced. -/
theorem replaced_of_two : ∃ s t u₁ u₂ : Sys,
    run step (Sys.start { oneGuest true with maxVm := 2 })
      [.producer (oneDown none 0 ["192.168.150.2", "192.168.150.3"])] = some s ∧
    step s (.producer (oneDown (some 0) 2 [])) = some t ∧
    TwoIterations t [] [] (oneDown none 2 ["192.168.150.4"]) (oneDown none 3 []) t u₁ u₁ u₂ ∧
    (Replaced u₁ 0 ∨ Replaced u₂ 0) := by
  obtain ⟨s, t, u₁, u₂, hrun, hmarks, hmark, h, hd⟩ : ∃ s t u₁ u₂ : Sys,
      run step (Sys.start { oneGuest true with maxVm := 2 })
        [.producer (oneDown none 0 ["192.168.150.2", "192.168.150.3"])] = some s ∧
      step s (.producer (oneDown (some 0) 2 [])) = some t ∧ Marked s t 0 ∧
      TwoIterations t [] [] (oneDown none 2 ["192.168.150.4"]) (oneDown none 3 []) t u₁ u₁ u₂ ∧
      Destroys (oneDown none 2 ["192.168.150.4"]) t 0 := by
    refine ⟨_, _, _, _, rfl, rfl, ?_, ⟨by simp, rfl, rfl, rfl, rfl, ?_, ?_⟩, ?_⟩ <;> decide +kernel
  exact ⟨s, t, u₁, u₂, hrun, hmarks, h, (replaced_iff hrun hmarks hmark h).1.mpr (Or.inl hd)⟩

end Cowrie.Pool
