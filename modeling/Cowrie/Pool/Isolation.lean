import Cowrie.Pool.Counting

/-!
# Isolation of guests when they are not shared

With `pool_share_guests = false` a guest handed to one attacker should not be handed to another
one that still uses it. `request_vm` looks a returning attacker up in `client_ips`
(`__consumers_get_guest_ip`, `pool_service.py:401-409`), but no method ever removes an address
from that list: `reuse_vm` puts the guest back to `available` with its old clients still listed.
The next attacker gets it as a free guest, and the old one is then let in by its stale entry.

* **`isolation_violated`**: request, reuse, request by a second address, request by the first.
* **`isolated_iff_latestClient`**: in every run whose releases act on the guest of their own
  request (guest ids are reused after 252 creations), isolation holds throughout iff no request is
  served through `client_ips` by an occupied guest whose latest client is another address.
-/

namespace Cowrie.Pool

open Cowrie.Lib

/-- A request is only granted a guest on which no other address holds a request. -/
def Isolated (s : Sys) : Event → Prop
  | .request ip _ => ∀ g, s.pool.chooseGuest ip = some g →
      ∀ l ∈ s.leases, l.guest = g.ref → l.ip = ip
  | _ => True

/-- A request served through `client_ips` by an occupied guest comes from the address that guest
was handed to last. -/
def LatestClient (s : Sys) : Event → Prop
  | .request ip _ => ∀ g, s.pool.getGuestIp ip = some g → 0 < g.connected →
      g.clientIps.getLast? = some ip
  | _ => True

instance (s : Sys) : ∀ e : Event, Decidable (Isolated s e)
  | .request _ _ => optionDecidable _
  | .free _ _ => isTrue trivial
  | .reuse _ => isTrue trivial
  | .producer _ => isTrue trivial

instance (s : Sys) : ∀ e : Event, Decidable (LatestClient s e)
  | .request ip _ =>
    have (g : Guest) : Decidable (0 < g.connected → g.clientIps.getLast? = some ip) :=
      inferInstance
    optionDecidable _
  | .free _ _ => isTrue trivial
  | .reuse _ => isTrue trivial
  | .producer _ => isTrue trivial

/-! ## A stale entry of `client_ips` -/

/-- The first address requests the guest and gives it back unused, the second one requests it,
and the first one comes back. -/
def staleClientRun : List Event :=
  [.producer (iteration true), .request "203.0.113.1" cleanStop, .reuse ⟨"203.0.113.1", 0, 0⟩,
    .request "203.0.113.2" cleanStop, .request "203.0.113.1" cleanStop]

/-- **Isolation is violated**: the last request of `staleClientRun` is granted the guest the
second address still holds. -/
theorem isolation_violated : (oneGuest false).shareGuests = false ∧
    ¬ StepsMeet step Isolated (Sys.start (oneGuest false)) staleClientRun := by
  decide +kernel

/-! ## The invariant behind the condition -/

/-- Guests are counted and not shared, and whoever holds a request on a guest is its latest
client. -/
structure Held (s : Sys) : Prop where
  counted : Counted s
  unshared : s.pool.settings.shareGuests = false
  latest : ∀ l ∈ s.leases, ∀ g ∈ s.pool.guests, g.ref = l.guest → g.clientIps.getLast? = some l.ip

/-- Without sharing, a request is served through `client_ips` or by an available guest. -/
theorem chooseGuest_cases {s : PoolService} {ip : Ip} {g : Guest}
    (hshare : s.settings.shareGuests = false) (h : s.chooseGuest ip = some g) :
    s.getGuestIp ip = some g ∨ g.state = .available := by
  unfold PoolService.chooseGuest at h
  rw [hshare] at h
  split at h
  · rename_i g' hg'
    exact Or.inl (hg'.trans h)
  · split at h
    · rename_i g' hg'
      obtain rfl := Option.some.inj h
      have hst := (List.mem_filter.mp (List.mem_of_mem_head? hg')).2
      exact Or.inr (by simpa using hst)
    · simp at h

theorem chooseGuest_of_getGuestIp {s : PoolService} {ip : Ip} {g : Guest}
    (h : s.getGuestIp ip = some g) : s.chooseGuest ip = some g := by
  unfold PoolService.chooseGuest
  rw [h]

/-- **At a single step the condition is exact.** -/
theorem Held.isolated_iff {s : Sys} (hs : Held s) (e : Event) :
    Isolated s e ↔ LatestClient s e := by
  cases e with
  | request ip env =>
    constructor
    · intro hiso g hg hpos
      have hc := chooseGuest_of_getGuestIp hg
      obtain ⟨hmem, -⟩ := chooseGuest_mem hc
      have hcount := hs.counted.count g hmem
      obtain ⟨l, hl, hr⟩ := List.countP_pos_iff.mp
        (show 0 < holders s.leases g.ref by omega)
      have hr : l.guest = g.ref := by simpa using hr
      rw [hs.latest l hl g hmem hr.symm, hiso g hc l hl hr]
    · intro hlast g hc l hl hr
      obtain ⟨hmem, -⟩ := chooseGuest_mem hc
      have hpos := hs.counted.occupied hl hmem hr
      rcases chooseGuest_cases hs.unshared hc with hg | hav
      · have h := hs.latest l hl g hmem hr.symm
        rw [hlast g hg hpos] at h
        exact (Option.some.inj h).symm
      · have h0 := hs.counted.idle g hmem (Or.inr hav)
        omega
  | free l now => exact Iff.rfl
  | reuse l => exact Iff.rfl
  | producer env => exact Iff.rfl

theorem held_step (s : Sys) (e : Event) (t : Sys) (hs : Held s)
    (hcond : ReleasesOwn s e ∧ LatestClient s e) (h : step s e = some t) : Held t := by
  have ht := counted_step s e t hs.counted hcond.1 h
  rcases step_cases h with ⟨ip, env, rfl, hp, hl⟩ | ⟨l, -, hf, -, hl, hp⟩ | ⟨env, -, hp, hl⟩
  · have hiso := (hs.isolated_iff _).mpr hcond.2
    obtain ⟨-, hset, hg⟩ := requestVm_guests env ip s.pool
    rw [← hp] at hset hg
    refine ⟨ht, by rw [hset]; exact hs.unshared, ?_⟩
    cases hc : s.pool.chooseGuest ip with
    | none =>
      simp only [hc] at hg hl
      rw [hg, hl]
      exact hs.latest
    | some c =>
      simp only [hc] at hg hl
      rw [hg, hl]
      intro l hlm g' hg' hr
      obtain ⟨g, hgm, ⟨hgr, rfl⟩ | ⟨hgr, rfl⟩⟩ := mem_write hg'
      · simp only [Guest.granted, List.getLast?_append_of_ne_nil _ (List.cons_ne_nil ip []),
          List.getLast?_singleton]
        rcases List.mem_append.mp hlm with hlm | hlm
        · rw [hiso c hc l hlm (by rw [← hgr]; exact hr.symm)]
        · rw [List.mem_singleton.mp hlm]
      · rcases List.mem_append.mp hlm with hlm | hlm
        · exact hs.latest l hlm _ hgm hr
        · rw [List.mem_singleton.mp hlm] at hr
          exact absurd hr hgr
  · refine ⟨ht, by rw [hp]; exact hs.unshared, fun l' hl' g' hg' hr => ?_⟩
    have hl'' : l' ∈ s.leases := List.mem_of_mem_erase (hl ▸ hl')
    have hg := updateById_spec l.id e.writes hs.counted.wf.nodup
    rw [hp] at hg'
    simp only [hg] at hg'
    cases hc : s.pool.guests.find? (·.id == l.id) with
    | none =>
      simp only [hc] at hg'
      exact hs.latest l' hl'' g' hg' hr
    | some c =>
      simp only [hc] at hg'
      obtain ⟨g, hgm, ⟨-, rfl⟩ | ⟨-, rfl⟩⟩ := mem_write hg'
      · rw [hf.clientIps]
        exact hs.latest l' hl'' g hgm (hf.ref g ▸ hr)
      · exact hs.latest l' hl'' _ hgm hr
  · have hprod := producer_spec env s.pool
    rw [← hp] at hprod
    refine ⟨ht, by rw [hprod.settings]; exact hs.unshared, fun l' hl' g' hg' hr => ?_⟩
    rw [hl] at hl'
    rcases hprod.guests g' hg' with ⟨g, hg, ha⟩ | ⟨hf, -⟩
    · rw [ha.1]
      exact hs.latest l' hl' g hg (ha.ref_eq ▸ hr)
    · have := hs.counted.leaseBound l' hl'
      rw [← hr] at this
      exact absurd hf.ref (not_le.mpr this)

/-- **When guests are isolated.** In a run whose releases act on the guest of their own request,
every request is granted a guest no other address holds iff no request is served through
`client_ips` by an occupied guest last handed to another address. -/
theorem isolated_iff_latestClient {settings : Settings} (hshare : settings.shareGuests = false)
    {es : List Event} (hown : StepsMeet step ReleasesOwn (Sys.start settings) es) :
    StepsMeet step Isolated (Sys.start settings) es ↔
      StepsMeet step LatestClient (Sys.start settings) es := by
  have h0 : Held (Sys.start settings) := ⟨counted_start settings, hshare, by simp [Sys.start]⟩
  have hkeep : StepsMeet step (fun s e => ReleasesOwn s e ∧ LatestClient s e)
      (Sys.start settings) es ↔
      StepsMeet step (fun s e => ReleasesOwn s e ∧ Isolated s e) (Sys.start settings) es :=
    stepsMeet_iff_of_inv held_step
      (fun s e hs => and_congr_right fun _ => (hs.isolated_iff e).symm) h0
  rw [stepsMeet_and, stepsMeet_and, and_iff_right hown, and_iff_right hown] at hkeep
  exact hkeep.symm

/-- The same requests are isolated when the second address frees the guest first. -/
theorem isolated_after_free : StepsMeet step Isolated (Sys.start (oneGuest false))
    [.producer (iteration true), .request "203.0.113.1" cleanStop, .free ⟨"203.0.113.1", 0, 0⟩ 10,
      .request "203.0.113.2" cleanStop, .request "203.0.113.1" cleanStop] :=
  (isolated_iff_latestClient rfl (by decide +kernel)).mpr (by decide +kernel)

end Cowrie.Pool
