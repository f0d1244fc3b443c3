import Cowrie.Pool.Replacement

/-!
# Domains and guests

`LibvirtBackendService.destroy_guest` (`backend_service.py:142-170`) catches every exception of
`domain.destroy()`, and `__producer_destroy_timed_out` (`pool_service.py:296-311`) sets the guest
to destroyed when the call returns. A guest whose domain could not be destroyed is therefore
removed from the list by the same iteration, and nobody tries again.

* `mem_producerReap_domains`: what an iteration leaves of the domains.
* **`tracked_violated`**: one failing `destroy()` leaves a domain without a guest.
* **`tracked_iff`**: in every run, `set_configs` included, the domains and the guests in the list
  correspond to each other, and there are no more guests than the largest `max_vm` configured so
  far, iff every `destroy()` of a guest that an iteration destroys succeeds.
-/

namespace Cowrie.Pool

open Cowrie.Lib PoolService

/-! ## Runs with new configurations -/

/-- The pool, and the largest `max_vm` it was configured with. -/
structure Configured where
  sys : Sys
  largest : Nat

/-- A step of the pool, or new values from a client. -/
inductive Op
  | pool (e : Event)
  | setConfigs (maxVm vmUnusedTimeout : Nat) (shareGuests : Bool)

def configStep (s : Configured) : Op → Option Configured
  | .pool e => (step s.sys e).map fun t => { s with sys := t }
  | .setConfigs maxVm vmUnusedTimeout shareGuests =>
    some {
      sys := { s.sys with pool := s.sys.pool.setConfigs maxVm vmUnusedTimeout shareGuests }
      largest := max s.largest maxVm }

def Configured.start (settings : Settings) : Configured := ⟨Sys.start settings, settings.maxVm⟩

/-- The domains that exist are those of the guests in the list, one each, and the list has never
more guests than the pool was configured for. -/
def Tracked (s : Configured) : Prop :=
  s.sys.pool.qemu.domains.Nodup ∧
    s.sys.pool.qemu.domains.Perm (s.sys.pool.guests.map Guest.domain) ∧
      s.sys.pool.guests.length ≤ s.largest

instance (s : Configured) : Decidable (Tracked s) := inferInstanceAs (Decidable (_ ∧ _ ∧ _))

/-- libvirt returns new domains, and `request_vm` does not stop the pool. -/
def Ordinary (s : Configured) : Op → Prop
  | .pool (.producer env) =>
    ((s.sys.pool.creations env).map Made.domain).Nodup ∧
      ∀ m ∈ s.sys.pool.creations env, m.domain ∉ s.sys.pool.qemu.domains
  | .pool (.request ip _) => s.sys.pool.chooseGuest ip = none → s.sys.pool.anyVmUp = false
  | .pool (.free _ _) => True
  | .pool (.reuse _) => True
  | .setConfigs _ _ _ => True

instance (s : Configured) : ∀ op : Op, Decidable (Ordinary s op)
  | .pool (.producer _) => inferInstanceAs (Decidable (_ ∧ ∀ m ∈ _, _))
  | .pool (.request _ _) => inferInstanceAs (Decidable (_ → _))
  | .pool (.free _ _) => isTrue trivial
  | .pool (.reuse _) => isTrue trivial
  | .setConfigs _ _ _ => isTrue trivial

/-- `destroy()` works for every guest the iteration destroys. -/
def CleanlyDestroys (s : Configured) : Op → Prop
  | .pool (.producer env) =>
    ∀ g ∈ s.sys.pool.guests, Doomed env s.sys.pool g → env.destroyOk g.ref = true
  | .pool (.request _ _) => True
  | .pool (.free _ _) => True
  | .pool (.reuse _) => True
  | .setConfigs _ _ _ => True

instance (s : Configured) : ∀ op : Op, Decidable (CleanlyDestroys s op)
  | .pool (.producer _) => inferInstanceAs (Decidable (∀ g ∈ _, _))
  | .pool (.request _ _) => isTrue trivial
  | .pool (.free _ _) => isTrue trivial
  | .pool (.reuse _) => isTrue trivial
  | .setConfigs _ _ _ => isTrue trivial

/-! ## A domain without a guest -/

/-- Two guests, of which one is unhealthy. In the last iteration its `destroy()` works iff `ok`. -/
def destroyingRun (ok : Bool) : List Op :=
  [.pool (.producer (oneDown none 0 ["192.168.150.2", "192.168.150.3"])),
    .pool (.producer (oneDown (some 0) 2 [])),
    .pool (.producer { oneDown none 2 ["192.168.150.4"] with destroyOk := fun _ => ok })]

/-- **A domain is forgotten**: the last iteration of `destroyingRun` fails to destroy the domain of
the unhealthy guest and removes the guest. -/
theorem tracked_violated :
    (run configStep (Configured.start { oneGuest true with maxVm := 2 })
      (destroyingRun false)).isSome ∧
    StepsMeet configStep Ordinary (Configured.start { oneGuest true with maxVm := 2 })
      (destroyingRun false) ∧
    ¬ StatesMeet configStep Tracked (Configured.start { oneGuest true with maxVm := 2 })
      (destroyingRun false) := by
  decide +kernel

/-! ## What an iteration does to the domains -/

/-- The loop of `__producer_destroy_timed_out` destroys the domains whose `destroy()` works. -/
theorem destroyGuests_domains (ok : Ref → Bool) (gs : List Guest) {q : Qemu} (hq : q.ready = true)
    (hnd : q.domains.Nodup) {r : Qemu}
    (hr : r = gs.foldl (fun q g => destroyGuest q g.domain (ok g.ref)) q) :
    r.ready = true ∧ r.domains.Nodup ∧
      ∀ d, d ∈ r.domains ↔ d ∈ q.domains ∧ ∀ g ∈ gs, ok g.ref = true → g.domain ≠ d := by
  induction gs generalizing q with
  | nil =>
    obtain rfl : r = q := hr
    exact ⟨hq, hnd, by simp⟩
  | cons g gs ih =>
    rw [List.foldl_cons] at hr
    cases hok : ok g.ref with
    | false =>
      have hone : destroyGuest q g.domain (ok g.ref) = q := by simp [destroyGuest, hok]
      rw [hone] at hr
      obtain ⟨h1, h2, h3⟩ := ih hq hnd hr
      exact ⟨h1, h2, fun d => by simp [h3, hok]⟩
    | true =>
      have hone : destroyGuest q g.domain (ok g.ref) =
          { q with domains := q.domains.erase g.domain } := by simp [destroyGuest, hq, hok]
      rw [hone] at hr
      obtain ⟨h1, h2, h3⟩ := @ih { q with domains := q.domains.erase g.domain } hq
        (hnd.erase g.domain) hr
      refine ⟨h1, h2, fun d => ?_⟩
      rw [h3, hnd.mem_erase_iff]
      simp only [List.mem_cons, forall_eq_or_imp, hok, true_implies]
      constructor
      · rintro ⟨⟨hne, hd⟩, hall⟩
        exact ⟨hd, Ne.symm hne, hall⟩
      · rintro ⟨hd, hne, hall⟩
        exact ⟨⟨Ne.symm hne, hd⟩, hall⟩

/-- **What an iteration leaves of the domains**: those of the guests it does not destroy, and those
it fails to destroy. -/
theorem mem_producerReap_domains (env : ProducerEnv) {s : PoolService} (hq : s.qemu.ready = true)
    (hnd : s.qemu.domains.Nodup) :
    (s.producerReap env).qemu.ready = true ∧ (s.producerReap env).qemu.domains.Nodup ∧
      ∀ d, d ∈ (s.producerReap env).qemu.domains ↔ d ∈ s.qemu.domains ∧
        ∀ g ∈ s.guests, Doomed env s g → env.destroyOk g.ref = true → g.domain ≠ d := by
  by_cases hsize : 1 < s.existingPoolSize
  · -- the guests the loop runs over, in terms of those in the list
    have hreap : (s.producerReap env).qemu =
        ((s.guests.map (marked env s.settings.vmUnusedTimeout)).filter
          fun g => g.state ∈ [GuestState.unavailable]).foldl
            (fun q g => destroyGuest q g.domain (env.destroyOk g.ref)) s.qemu := by
      rw [← markTimedOut_guests, producerReap_of_many env hsize]
      rfl
    obtain ⟨h1, h2, h3⟩ := destroyGuests_domains env.destroyOk _ hq hnd hreap
    refine ⟨h1, h2, fun d => ?_⟩
    rw [h3]
    refine and_congr_right fun _ => ?_
    constructor
    · intro h g hg hdoom hok
      have haged := marked_aged env s.settings.vmUnusedTimeout g
      have hmem : marked env s.settings.vmUnusedTimeout g ∈
          (s.guests.map (marked env s.settings.vmUnusedTimeout)).filter
            fun g => g.state ∈ [GuestState.unavailable] := by
        refine List.mem_filter.mpr ⟨List.mem_map_of_mem hg, ?_⟩
        simpa using (marked_unavailable env _ g).mpr hdoom.2
      have h' := h _ hmem (by rw [haged.ref_eq]; exact hok)
      rw [haged.1] at h'
      exact h'
    · intro h g' hg' hok
      obtain ⟨hmem, hst⟩ := List.mem_filter.mp hg'
      obtain ⟨g, hg, rfl⟩ := List.mem_map.mp hmem
      have haged := marked_aged env s.settings.vmUnusedTimeout g
      rw [haged.ref_eq] at hok
      rw [haged.1]
      exact h g hg ⟨hsize, (marked_unavailable env _ g).mp (by simpa using hst)⟩ hok
  · have hreap : (s.producerReap env).qemu = s.qemu := by
      rw [producerReap_of_one env hsize]
      rfl
    rw [hreap]
    refine ⟨hq, hnd, fun d => ?_⟩
    have hnone : ∀ g ∈ s.guests, Doomed env s g → env.destroyOk g.ref = true → g.domain ≠ d :=
      fun g _ hd => absurd hd.1 hsize
    exact ⟨fun hd => ⟨hd, hnone⟩, And.left⟩

/-! ## The invariant behind the condition -/

/-- Every domain belongs to one guest in the list, over a backend that is ready. -/
structure Backed (s : Configured) : Prop where
  wf : Wf s.sys.pool
  alive : ∀ g ∈ s.sys.pool.guests, g.state ≠ .destroyed
  ready : s.sys.pool.qemu.ready = true
  nodup : s.sys.pool.qemu.domains.Nodup
  perm : s.sys.pool.qemu.domains.Perm (s.sys.pool.guests.map Guest.domain)
  length : s.sys.pool.guests.length ≤ s.largest
  maxVm : s.sys.pool.settings.maxVm ≤ s.largest

theorem Backed.tracked {s : Configured} (hs : Backed s) : Tracked s :=
  ⟨hs.nodup, hs.perm, hs.length⟩

/-- Guests with the same domain are the same guest. -/
theorem Backed.eq_of_domain {s : Configured} (hs : Backed s) {g g' : Guest}
    (hg : g ∈ s.sys.pool.guests) (hg' : g' ∈ s.sys.pool.guests) (h : g.domain = g'.domain) :
    g = g' :=
  List.inj_on_of_nodup_map (hs.perm.nodup hs.nodup) hg hg' h

theorem domains_newGuests (ms : List Made) (id : Nat) (ref : Ref) :
    (newGuests ms id ref).map Guest.domain = ms.map Made.domain := by
  induction ms generalizing id ref with
  | nil => rfl
  | cons m ms ih =>
    rw [newGuests, List.map_cons, List.map_cons, ih]
    rfl

/-- The domains of the guests that an iteration does not destroy. -/
theorem mem_domains_reaped (env : ProducerEnv) {s : PoolService}
    (halive : ∀ g ∈ s.guests, g.state ≠ .destroyed) (d : Domain) :
    d ∈ (s.producerReap env).guests.map Guest.domain ↔
      ∃ g ∈ s.guests, ¬ Doomed env s g ∧ g.domain = d := by
  obtain ⟨f, hage, hdest, hreap⟩ := producerReap_guests env s
  have hdom : ∀ g, (f g).domain = g.domain := fun g => by rw [(hage g).1]
  rw [hreap]
  constructor
  · intro h
    obtain ⟨g', hg', rfl⟩ := List.mem_map.mp h
    obtain ⟨hmem, hst⟩ := List.mem_filter.mp hg'
    obtain ⟨g, hg, rfl⟩ := List.mem_map.mp hmem
    refine ⟨g, hg, fun hd => ?_, (hdom g).symm⟩
    simp [(hdest g).mpr (Or.inr hd)] at hst
  · rintro ⟨g, hg, hnot, rfl⟩
    rw [← hdom g]
    refine List.mem_map_of_mem (List.mem_filter.mpr ⟨List.mem_map_of_mem hg, ?_⟩)
    have hst : (f g).state ≠ .destroyed := fun h =>
      ((hdest g).mp h).elim (halive g hg) hnot
    simp [hst]

/-- The domains and the guests' domains after an iteration. -/
theorem producer_domains (env : ProducerEnv) (s : PoolService) :
    (s.producerLoop env).1.qemu.ready = (s.producerReap env).qemu.ready ∧
    (s.producerLoop env).1.qemu.domains =
      (s.producerReap env).qemu.domains ++ (s.creations env).map Made.domain ∧
    (s.producerLoop env).1.guests.map Guest.domain =
      (s.producerReap env).guests.map Guest.domain ++ (s.creations env).map Made.domain := by
  obtain ⟨⟨f, hf, hg⟩, -, -, -, hq⟩ := producer_boots env s
  have hdom : ∀ g, (f g).domain = g.domain := fun g => by rw [(hf g).aged.1]
  rw [hq, hg, map_kept hdom, addGuests_eq]
  refine ⟨rfl, rfl, ?_⟩
  rw [List.map_append, domains_newGuests]

/-- If all of them can be destroyed, the domains left are those of the guests left. -/
theorem Backed.perm_reaped {s : Configured} (hs : Backed s) {env : ProducerEnv}
    (hclean : ∀ g ∈ s.sys.pool.guests, Doomed env s.sys.pool g → env.destroyOk g.ref = true) :
    (s.sys.pool.producerReap env).qemu.domains.Perm
      ((s.sys.pool.producerReap env).guests.map Guest.domain) := by
  obtain ⟨-, hnd, hmem⟩ := mem_producerReap_domains env hs.ready hs.nodup
  obtain ⟨f, hage, -, hreap⟩ := producerReap_guests env s.sys.pool
  have hdom : ∀ g, (f g).domain = g.domain := fun g => by rw [(hage g).1]
  have hnd' : ((s.sys.pool.producerReap env).guests.map Guest.domain).Nodup := by
    have hsub : ((s.sys.pool.producerReap env).guests.map Guest.domain).Sublist
        (s.sys.pool.guests.map Guest.domain) := by
      rw [hreap]
      refine (List.filter_sublist.map Guest.domain).trans ?_
      rw [map_kept hdom]
    exact hsub.nodup (hs.perm.nodup hs.nodup)
  refine (List.perm_ext_iff_of_nodup hnd hnd').mpr fun d => ?_
  rw [hmem, mem_domains_reaped env hs.alive, hs.perm.mem_iff]
  constructor
  · rintro ⟨hd, hall⟩
    obtain ⟨g, hg, rfl⟩ := List.mem_map.mp hd
    exact ⟨g, hg, fun hdoom => hall g hg hdoom (hclean g hg hdoom) rfl, rfl⟩
  · rintro ⟨g, hg, hnot, rfl⟩
    refine ⟨List.mem_map_of_mem hg, fun g' hg' hdoom _ heq => hnot ?_⟩
    rw [← hs.eq_of_domain hg' hg heq]
    exact hdoom

/-- Requests that do not stop the pool, and releases, leave the domains alone. -/
theorem qemu_consumer {s : Configured} {t : Sys} {e : Event} (he : ∀ env, e ≠ .producer env)
    (hord : Ordinary s (.pool e)) (h : step s.sys e = some t) :
    t.pool.qemu = s.sys.pool.qemu := by
  rcases step_cases h with ⟨ip, env, rfl, hp, -⟩ | ⟨l, -, -, -, -, hp⟩ | ⟨env, rfl, -, -⟩
  · rw [hp, requestVm_pool]
    cases hc : s.sys.pool.chooseGuest ip with
    | some g => rfl
    | none =>
      have hup : s.sys.pool.anyVmUp = false := hord hc
      simp only [hup, Bool.false_eq_true, if_false]
  · rw [hp]
  · exact absurd rfl (he env)

theorem backed_consumer {s : Configured} {t : Sys} {e : Event} (hs : Backed s)
    (he : ∀ env, e ≠ .producer env) (hord : Ordinary s (.pool e)) (h : step s.sys e = some t) :
    Backed { s with sys := t } := by
  obtain ⟨f, hf, hg⟩ := consumer_guests hs.wf.nodup he h
  have hq := qemu_consumer he hord h
  refine ⟨wf_step _ e t hs.wf h, alive_step _ e t hs.wf hs.alive h, ?_, ?_, ?_, ?_, ?_⟩
  · exact (congrArg Qemu.ready hq).trans hs.ready
  · exact (congrArg Qemu.domains hq).symm ▸ hs.nodup
  · simp only [hq, hg, map_kept fun g => (hf g).domain]
    exact hs.perm
  · simp only [hg, List.length_map]
    exact hs.length
  · simp only [settings_step _ e t h]
    exact hs.maxVm

theorem backed_producer {s : Configured} {env : ProducerEnv} {t : Sys} (hs : Backed s)
    (hord : Ordinary s (.pool (.producer env))) (hclean : CleanlyDestroys s (.pool (.producer env)))
    (h : step s.sys (.producer env) = some t) : Backed { s with sys := t } := by
  have hwf := wf_step _ _ t hs.wf h
  have hset := settings_step _ _ t h
  have hpool : t.pool = (s.sys.pool.producerLoop env).1 := by rw [← Option.some.inj h]
  obtain ⟨hready, hdoms, hguests⟩ := producer_domains env s.sys.pool
  obtain ⟨hready', hnd, hmem⟩ := mem_producerReap_domains env hs.ready hs.nodup
  have halive := alive_producer env s.sys.pool
  have hlength := length_producer env s.sys.pool
  rw [← hpool] at hready hdoms hguests halive hlength
  refine ⟨hwf, halive, hready.trans hready', ?_, ?_, ?_, ?_⟩
  · simp only [hdoms]
    refine List.nodup_append.mpr ⟨hnd, hord.1, ?_⟩
    rintro d hd d' hd' rfl
    obtain ⟨m, hm, rfl⟩ := List.mem_map.mp hd'
    exact hord.2 m hm ((hmem _).mp hd).1
  · simp only [hdoms, hguests]
    exact (hs.perm_reaped hclean).append_right _
  · exact hlength.trans (max_le hs.length hs.maxVm)
  · exact (congrArg Settings.maxVm hset).trans_le hs.maxVm

theorem backed_step (s : Configured) (op : Op) (t : Configured) (hs : Backed s)
    (hord : Ordinary s op) (hclean : CleanlyDestroys s op) (h : configStep s op = some t) :
    Backed t := by
  cases op with
  | pool e =>
    obtain ⟨u, hu, rfl⟩ := Option.map_eq_some_iff.mp h
    by_cases he : ∃ env, e = .producer env
    · obtain ⟨env, rfl⟩ := he
      exact backed_producer hs hord hclean hu
    · exact backed_consumer hs (fun env h => he ⟨env, h⟩) hord hu
  | setConfigs maxVm vmUnusedTimeout shareGuests =>
    obtain rfl := Option.some.inj h
    exact ⟨⟨hs.wf.nodup, hs.wf.bound, hs.wf.reverts⟩, hs.alive, hs.ready, hs.nodup, hs.perm,
      hs.length.trans (Nat.le_max_left _ _), Nat.le_max_right _ _⟩

/-- A failed `destroy()` shows: the domain is left without a guest. -/
theorem cleanlyDestroys_of_tracked (s : Configured) (op : Op) (t : Configured) (hs : Backed s)
    (hord : Ordinary s op) (h : configStep s op = some t) (ht : Tracked t) :
    CleanlyDestroys s op := by
  cases op with
  | setConfigs maxVm vmUnusedTimeout shareGuests => trivial
  | pool e =>
    cases e with
    | request ip env => trivial
    | free l now => trivial
    | reuse l => trivial
    | producer env =>
      have hpool : t.sys.pool = (s.sys.pool.producerLoop env).1 := by rw [← Option.some.inj h]
      intro g hg hdoom
      by_contra hfail
      obtain ⟨-, hdoms, hguests⟩ := producer_domains env s.sys.pool
      rw [← hpool] at hdoms hguests
      obtain ⟨-, -, hmem⟩ := mem_producerReap_domains env hs.ready hs.nodup
      have hold : g.domain ∈ s.sys.pool.qemu.domains := hs.perm.mem_iff.mpr (List.mem_map_of_mem hg)
      -- the domain is still there
      have hleft : g.domain ∈ (s.sys.pool.producerReap env).qemu.domains := by
        refine (hmem _).mpr ⟨hold, fun g' hg' _ hok heq => hfail ?_⟩
        rw [← hs.eq_of_domain hg' hg heq]
        exact hok
      -- so it is the domain of a guest in the list, which can be neither old nor new
      have hlisted : g.domain ∈ t.sys.pool.guests.map Guest.domain := by
        refine ht.2.1.mem_iff.mp ?_
        rw [hdoms]
        exact List.mem_append_left _ hleft
      rw [hguests] at hlisted
      rcases List.mem_append.mp hlisted with hmem' | hmem'
      · obtain ⟨g', hg', hnot, heq⟩ := (mem_domains_reaped env hs.alive _).mp hmem'
        rw [hs.eq_of_domain hg' hg heq] at hnot
        exact hnot hdoom
      · obtain ⟨m, hm, heq⟩ := List.mem_map.mp hmem'
        exact hord.2 m hm (heq ▸ hold)

theorem backed_start (settings : Settings) : Backed (Configured.start settings) := by
  have hwf := wf_start settings
  refine ⟨hwf, ?_, rfl, ?_, ?_, ?_, le_refl _⟩ <;>
    simp [Configured.start, Sys.start, PoolService.start]

/-! ## When domains are tracked -/

/-- **When domains and guests correspond.** In every run in which libvirt returns new domains and
no request stops the pool, the domains that exist are those of the listed guests, one each, and the
list stays within the largest `max_vm`, iff every `destroy()` of a guest that an iteration destroys
succeeds. -/
theorem tracked_iff {settings : Settings} {ops : List Op} {u : Configured}
    (hrun : run configStep (Configured.start settings) ops = some u)
    (hord : StepsMeet configStep Ordinary (Configured.start settings) ops) :
    StatesMeet configStep Tracked (Configured.start settings) ops ↔
      StepsMeet configStep CleanlyDestroys (Configured.start settings) ops :=
  statesMeet_iff_of_assumed backed_step (fun _ hs => hs.tracked) cleanlyDestroys_of_tracked
    (backed_start settings) hord hrun

/-- Had the domain been destroyed, it would have been replaced. -/
theorem tracked_destroyed :
    StatesMeet configStep Tracked (Configured.start { oneGuest true with maxVm := 2 })
      (destroyingRun true ++ [.setConfigs 1 60 true]) :=
  (tracked_iff (Option.some_get (by decide +kernel)).symm (by decide +kernel)).mpr (by decide +kernel)

end Cowrie.Pool
