import Cowrie.Pool.Invariant

/-!
# Guest states only move forward

The class docstring (`pool_service.py:71-80`) gives the order of the states of a guest:
created, available, using, used, unavailable, destroyed. A guest marked `unavailable` by the
health check may still have clients, and when the last of them leaves, `free_vm`
(`pool_service.py:461-465`) and `reuse_vm` (`pool_service.py:472-477`) overwrite the mark:
`free_vm` with `used`, `reuse_vm` with the state before the request.

* **`staysDead_violated`**: a guest that lost connectivity is available again after `reuse_vm`.
* **`staysDead_iff`**: in every run, dead guests stay dead and are never handed out again iff no
  release hits a dead guest with exactly one client left.
-/

namespace Cowrie.Pool

open Cowrie.Lib

/-- Once a guest is dead, it is never again in a serving state and never granted. -/
def StaysDead (s₀ : Sys) (es : List Event) : Prop :=
  ∀ as bs cs s t, es = as ++ bs ++ cs → run step s₀ as = some s → run step s bs = some t →
    ∀ g ∈ s.pool.guests, Dead g.state →
      (∀ g' ∈ t.pool.guests, g'.ref = g.ref → ¬ Serving g'.state) ∧
        ∀ ip g', t.pool.chooseGuest ip = some g' → g'.ref ≠ g.ref

/-- A release does not take the last client from a dead guest. -/
def NoDeadRelease (s : Sys) (e : Event) : Prop :=
  ∀ l, e.lease? = some l → ∀ g, s.pool.guests.find? (·.id == l.id) = some g →
    Dead g.state → g.connected ≠ 1

instance (s : Sys) (e : Event) : Decidable (NoDeadRelease s e) :=
  have (l : Lease) : Decidable (∀ g, s.pool.guests.find? (·.id == l.id) = some g →
      Dead g.state → g.connected ≠ 1) := optionDecidable _
  optionDecidable _

/-! ## One guest, dead for good -/

/-- The object `r` has been allocated, and if it is still listed it is dead. -/
structure DeadAt (r : Ref) (s : Sys) : Prop where
  wf : Wf s.pool
  bound : r < s.pool.nextRef
  dead : ∀ g ∈ s.pool.guests, g.ref = r → Dead g.state

theorem deadAt_step (r : Ref) (s : Sys) (e : Event) (t : Sys) (hs : DeadAt r s)
    (hcond : NoDeadRelease s e) (h : step s e = some t) : DeadAt r t := by
  have ht := wf_step s e t hs.wf h
  rcases step_cases h with ⟨ip, env, rfl, hp, -⟩ | ⟨l, hl, hf, -, -, hp⟩ | ⟨env, -, hp, -⟩
  · obtain ⟨hn, -, hg⟩ := requestVm_guests env ip s.pool
    rw [← hp] at hn hg
    refine ⟨ht, by rw [hn]; exact hs.bound, fun g' hg' hr => ?_⟩
    rw [hg] at hg'
    cases hc : s.pool.chooseGuest ip with
    | none =>
      simp only [hc] at hg'
      exact hs.dead g' hg' hr
    | some c =>
      simp only [hc] at hg'
      obtain ⟨hmem, hserve⟩ := chooseGuest_mem hc
      obtain ⟨g, hgm, ⟨hgr, rfl⟩ | ⟨-, rfl⟩⟩ := mem_write hg'
      · -- the granted guest is serving, so it is not the dead one
        obtain rfl := hs.wf.eq_of_ref hgm hmem hgr
        exact absurd hserve (hs.dead g hgm hr).not_serving
      · exact hs.dead g' hgm hr
  · refine ⟨ht, by rw [hp]; exact hs.bound, fun g' hg' hr => ?_⟩
    rw [hp] at hg'
    simp only [updateById_spec l.id e.writes hs.wf.nodup] at hg'
    cases hc : s.pool.guests.find? (·.id == l.id) with
    | none =>
      simp only [hc] at hg'
      exact hs.dead g' hg' hr
    | some c =>
      simp only [hc] at hg'
      obtain ⟨g, hgm, ⟨hgr, rfl⟩ | ⟨-, rfl⟩⟩ := mem_write hg'
      · rw [hf.ref] at hr
        have hd := hs.dead g hgm hr
        obtain rfl := hs.wf.eq_of_ref hgm (List.mem_of_find?_eq_some hc) hgr
        rw [(hf.kept g (hcond l hl g hc hd)).1]
        exact hd
      · exact hs.dead g' hgm hr
  · have hprod := producer_spec env s.pool
    rw [← hp] at hprod
    refine ⟨ht, hs.bound.trans_le hprod.nextRef, fun g' hg' hr => ?_⟩
    rcases hprod.guests g' hg' with ⟨g, hg, ha⟩ | ⟨hf, -⟩
    · exact ha.2.dead (hs.dead g hg (ha.ref_eq ▸ hr))
    · exact absurd hf.ref (not_le.mpr (hr ▸ hs.bound))

/-- A release that takes the last client from a dead guest puts it back into service. -/
theorem revived_of_dead_release {s t : Sys} {e : Event} (hs : Wf s.pool) {l : Lease} {g : Guest}
    (hl : e.lease? = some l) (hg : s.pool.guests.find? (·.id == l.id) = some g)
    (h1 : g.connected = 1) (h : step s e = some t) :
    ∃ g' ∈ t.pool.guests, g'.ref = g.ref ∧ Serving g'.state := by
  rcases step_cases h with ⟨ip, env, rfl, -, -⟩ | ⟨l', hl', hf, -, -, hp⟩ | ⟨env, rfl, -, -⟩
  · cases hl
  · obtain rfl := Option.some.inj (hl.symm.trans hl')
    have hmem := List.mem_of_find?_eq_some hg
    refine ⟨e.writes g, ?_, hf.ref g, ?_⟩
    · rw [hp]
      simp only [updateById_spec l.id e.writes hs.nodup, hg]
      exact List.mem_map.mpr ⟨g, hmem, if_pos rfl⟩
    · rcases hf.last g h1 with hst | hst <;> rw [hst]
      · exact Or.inr (Or.inr rfl)
      · exact hs.reverts g hmem (by omega)
  · cases hl

/-- If dead guests stay dead, no release took the last client from one. -/
theorem noDeadRelease_of_staysDead {settings : Settings} {es : List Event} {u : Sys}
    (hrun : run step (Sys.start settings) es = some u)
    (hstays : StaysDead (Sys.start settings) es) :
    StepsMeet step NoDeadRelease (Sys.start settings) es := by
  refine stepsMeet_iff.mpr fun as e bs s hes has l hl g hg hd h1 => ?_
  rw [hes, run_append] at hrun
  obtain ⟨s', has', hrest⟩ := hrun
  obtain rfl : s = s' := Option.some.inj (has.symm.trans has')
  obtain ⟨t, ht, -⟩ := run_cons.mp hrest
  obtain ⟨g', hg', hr, hserve⟩ := revived_of_dead_release (wf_run has) hl hg h1 ht
  have hone : run step s [e] = some t := run_cons.mpr ⟨t, ht, rfl⟩
  exact (hstays as [e] bs s t (by rw [hes]; simp) has hone g
    (List.mem_of_find?_eq_some hg) hd).1 g' hg' hr hserve

/-! ## A revived guest -/

/-- The guest loses connectivity while a client holds it, and the client gives it back unused. -/
def revivingRun : List Event :=
  [.producer (iteration true), .request "203.0.113.1" cleanStop, .producer (iteration false),
    .reuse ⟨"203.0.113.1", 0, 0⟩]

/-- **A dead guest serves again**: before the last step of `revivingRun` the guest is
unavailable, after it the same guest is available. -/
theorem staysDead_violated : ¬ StaysDead (Sys.start (oneGuest true)) revivingRun := by
  intro h
  have hrun : (run step (Sys.start (oneGuest true)) revivingRun).isSome = true := by
    decide +kernel
  obtain ⟨u, hu⟩ := Option.isSome_iff_exists.mp hrun
  have hmeet := noDeadRelease_of_staysDead hu h
  revert hmeet
  decide +kernel

/-! ## When states only move forward -/

/-- **When guest states only move forward.** In every run from an empty pool, a guest that is
unavailable or destroyed never serves again iff no release hits such a guest with one client
left. -/
theorem staysDead_iff {settings : Settings} {es : List Event} {u : Sys}
    (hrun : run step (Sys.start settings) es = some u) :
    StaysDead (Sys.start settings) es ↔ StepsMeet step NoDeadRelease (Sys.start settings) es := by
  refine ⟨noDeadRelease_of_staysDead hrun, fun hmeet as bs cs s t hes has hbs g hg hd => ?_⟩
  rw [hes, List.append_assoc, stepsMeet_append has] at hmeet
  have hwf := wf_run has
  have h0 : DeadAt g.ref s := ⟨hwf, hwf.bound g hg, fun g' hg' hr => by
    rw [hwf.eq_of_ref hg' hg hr]
    exact hd⟩
  have ht : DeadAt g.ref t :=
    run_inv (deadAt_step g.ref) h0 ((stepsMeet_append hbs).mp hmeet.2).1 hbs
  refine ⟨fun g' hg' hr => (ht.dead g' hg' hr).not_serving, fun ip g' hc hr => ?_⟩
  obtain ⟨hmem, hserve⟩ := chooseGuest_mem hc
  exact (ht.dead g' hmem hr).not_serving hserve

/-- Had the client left before the health check, the guest would have stayed dead. -/
theorem staysDead_after_free : StaysDead (Sys.start (oneGuest true))
    [.producer (iteration true), .request "203.0.113.1" cleanStop,
      .free ⟨"203.0.113.1", 0, 0⟩ 10, .producer (iteration false)] :=
  (staysDead_iff (Option.some_get (by decide +kernel)).symm).mpr (by decide +kernel)

end Cowrie.Pool
