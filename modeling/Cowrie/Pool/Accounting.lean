import Cowrie.Pool.Counting

/-!
# A guest nobody is connected to

`connected` drops to zero in `free_vm` and `reuse_vm` (`pool_service.py:456-477`). `free_vm` then
writes `used`; `reuse_vm` writes back the one `prev_state` the guest remembers. Every request
overwrites it (`pool_service.py:449`), also the second of two overlapping ones, which finds the
guest `using` and makes that the state to revert to: given back twice, the guest stays `using`
with nobody connected, so it neither times out nor is handed out as free.

* **`accounted_violated`**: two requests of one client, both given back.
* **`accounted_iff`**: in every run, every guest's `connected` is the number of its outstanding
  requests and no guest without clients is `using`, iff every release acts on the guest of its own
  request and no last client gives back a guest that remembers `using`.
-/

namespace Cowrie.Pool

open Cowrie.Lib

/-- `connected` is the number of outstanding requests, and a guest without any is not in use. -/
def Accounted (s : Sys) : Prop :=
  ∀ g ∈ s.pool.guests, g.connected = (holders s.leases g.ref : Int) ∧
    (g.connected = 0 → g.state ≠ .inUse)

instance (s : Sys) : Decidable (Accounted s) := inferInstanceAs (Decidable (∀ g ∈ _, _))

/-- The last client to give a guest back unused does not find `using` as the state to revert to. -/
def RevertsIdle (s : Sys) : Event → Prop
  | .reuse l => ∀ g, s.pool.guests.find? (·.id == l.id) = some g → g.connected = 1 →
      g.prevState ≠ .inUse
  | _ => True

instance (s : Sys) : ∀ e : Event, Decidable (RevertsIdle s e)
  | .reuse _ =>
    have (g : Guest) : Decidable (g.connected = 1 → g.prevState ≠ .inUse) := inferInstance
    optionDecidable _
  | .request _ _ => isTrue trivial
  | .free _ _ => isTrue trivial
  | .producer _ => isTrue trivial

/-! ## Two overlapping requests -/

/-- One client requests the guest twice and gives both requests back. -/
def overlappingRun : List Event :=
  [.producer (iteration true), .request "203.0.113.1" cleanStop, .request "203.0.113.1" cleanStop,
    .reuse ⟨"203.0.113.1", 0, 0⟩, .reuse ⟨"203.0.113.1", 0, 0⟩]

/-- **A guest without clients stays in use**: after `overlappingRun` the guest has nobody
connected and is still `using`. -/
theorem accounted_violated : (run step (Sys.start (oneGuest true)) overlappingRun).isSome ∧
    ¬ StatesMeet step Accounted (Sys.start (oneGuest true)) overlappingRun := by
  decide +kernel

/-! ## The invariant behind the condition -/

/-- Guests are counted, and none without clients is in use. -/
structure Settled (s : Sys) : Prop where
  counted : Counted s
  settled : ∀ g ∈ s.pool.guests, g.connected = 0 → g.state ≠ .inUse

theorem Settled.accounted {s : Sys} (hs : Settled s) : Accounted s := fun g hg =>
  ⟨hs.counted.count g hg, hs.settled g hg⟩

/-- A release leaves the guest out of use if it takes the last client. -/
theorem settled_writes {s : Sys} {e : Event} {l : Lease} {g : Guest} (hl : e.lease? = some l)
    (hg : s.pool.guests.find? (·.id == l.id) = some g) (hrev : RevertsIdle s e)
    (h : g.connected = 1) : (e.writes g).state ≠ .inUse := by
  cases e with
  | request ip env => cases hl
  | producer env => cases hl
  | free l' now =>
    have hst : (Guest.freed now g).state = .used := if_pos (by omega)
    simp only [Event.writes, hst]
    decide
  | reuse l' =>
    obtain rfl : l' = l := Option.some.inj hl
    have hst : (Guest.reused g).state = g.prevState := by
      unfold Guest.reused
      simp only
      rw [if_pos (by omega)]
    simp only [Event.writes, hst]
    exact hrev g hg h

theorem settled_step (s : Sys) (e : Event) (t : Sys) (hs : Settled s)
    (hcond : ReleasesOwn s e ∧ RevertsIdle s e) (h : step s e = some t) : Settled t := by
  refine ⟨counted_step s e t hs.counted hcond.1 h, fun g' hg' h0 => ?_⟩
  rcases step_cases h with ⟨ip, env, rfl, hp, -⟩ | ⟨l, hl, hf, hmem, -, hp⟩ | ⟨env, -, hp, -⟩
  · obtain ⟨-, -, hg⟩ := requestVm_guests env ip s.pool
    rw [hp, hg] at hg'
    cases hc : s.pool.chooseGuest ip with
    | none =>
      simp only [hc] at hg'
      exact hs.settled g' hg' h0
    | some c =>
      simp only [hc] at hg'
      obtain ⟨g, hgm, ⟨-, rfl⟩ | ⟨-, rfl⟩⟩ := mem_write hg'
      · -- a granted guest has a client
        have hcount := hs.counted.count g hgm
        simp only [Guest.granted] at h0
        omega
      · exact hs.settled g' hgm h0
  · rw [hp] at hg'
    simp only [updateById_spec l.id e.writes hs.counted.wf.nodup] at hg'
    cases hc : s.pool.guests.find? (·.id == l.id) with
    | none =>
      simp only [hc] at hg'
      exact hs.settled g' hg' h0
    | some c =>
      simp only [hc] at hg'
      obtain ⟨g, hgm, ⟨hr, rfl⟩ | ⟨-, rfl⟩⟩ := mem_write hg'
      · obtain rfl := hs.counted.wf.eq_of_ref hgm (List.mem_of_find?_eq_some hc) hr
        rw [hf.connected] at h0
        exact settled_writes hl hc hcond.2 (by omega)
      · exact hs.settled g' hgm h0
  · have hprod := producer_spec env s.pool
    rw [← hp] at hprod
    rcases hprod.guests g' hg' with ⟨g, hg, ha⟩ | ⟨hfresh, -⟩
    · rw [ha.1] at h0
      exact ha.2.not_inUse (hs.settled g hg h0)
    · exact hfresh.state

/-- A step to a state that is accounted for met the condition. -/
theorem cond_of_accounted (s : Sys) (e : Event) (t : Sys) (hs : Settled s)
    (h : step s e = some t) (ht : Accounted t) : ReleasesOwn s e ∧ RevertsIdle s e := by
  have hnd := hs.counted.wf.nodup
  have hwritten : ∀ l g, e.lease? = some l → s.pool.guests.find? (·.id == l.id) = some g →
      e.writes g ∈ t.pool.guests ∧ (e.writes g).ref = g.ref ∧
        (e.writes g).connected = g.connected - 1 ∧ l ∈ s.leases ∧ t.leases = s.leases.erase l := by
    intro l g hl hg
    rcases step_cases h with ⟨ip, env, rfl, -, -⟩ | ⟨l', hl', hf, hmem, hle, hp⟩ | ⟨env, rfl, -, -⟩
    · cases hl
    · obtain rfl : l' = l := Option.some.inj (hl'.symm.trans hl)
      refine ⟨?_, hf.ref g, hf.connected g, hmem, hle⟩
      rw [hp]
      simp only [updateById_spec l'.id e.writes hnd, hg]
      exact List.mem_map.mpr ⟨g, List.mem_of_find?_eq_some hg, if_pos rfl⟩
    · cases hl
  constructor
  · intro l hl g hg
    obtain ⟨hmem, href, hconn, hl', hle⟩ := hwritten l g hl hg
    by_contra hne
    have hcount := (ht _ hmem).1
    have hold := hs.counted.count g (List.mem_of_find?_eq_some hg)
    have herase := holders_erase hl' g.ref
    rw [if_neg (fun e => hne e.symm), add_zero] at herase
    rw [href, hle, herase, hconn, hold] at hcount
    omega
  · cases e with
    | request ip env => trivial
    | free l now => trivial
    | producer env => trivial
    | reuse l =>
      intro g hg h1
      obtain ⟨hmem, -, hconn, -, -⟩ := hwritten l g rfl hg
      have hst := (ht _ hmem).2 (by omega)
      simp only [Event.writes, Guest.reused] at hst
      rw [if_pos (by omega)] at hst
      exact hst

/-- **When guests are accounted for.** In every state of a run, `connected` counts the outstanding
requests of each guest and no guest without clients is `using`, iff every release acts on the
guest of its own request and no last client gives back a guest that remembers `using`. -/
theorem accounted_iff {settings : Settings} {es : List Event} {u : Sys}
    (hrun : run step (Sys.start settings) es = some u) :
    StatesMeet step Accounted (Sys.start settings) es ↔
      StepsMeet step (fun s e => ReleasesOwn s e ∧ RevertsIdle s e) (Sys.start settings) es := by
  have h0 : Settled (Sys.start settings) :=
    ⟨counted_start settings, by simp [Sys.start, PoolService.start]⟩
  exact statesMeet_iff_of_inv settled_step (fun _ hs => hs.accounted) cond_of_accounted h0 hrun

/-- One request given back before the next is accounted for. -/
theorem accounted_in_turn : StatesMeet step Accounted (Sys.start (oneGuest true))
    [.producer (iteration true), .request "203.0.113.1" cleanStop, .reuse ⟨"203.0.113.1", 0, 0⟩,
      .request "203.0.113.1" cleanStop, .reuse ⟨"203.0.113.1", 0, 0⟩] :=
  (accounted_iff (Option.some_get (by decide +kernel)).symm).mpr (by decide +kernel)

end Cowrie.Pool
