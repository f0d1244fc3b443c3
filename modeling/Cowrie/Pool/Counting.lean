import Cowrie.Pool.Invariant

/-!
# Counting the clients of a guest

`connected` (`pool_service.py:50`) is raised by `request_vm` and lowered by `free_vm` and
`reuse_vm`, which find the guest by its id. Ids start again at 0 after 252 creations
(`pool_service.py:369-372`), so a release can hit a guest that merely carries the same id. While
none does (`ReleasesOwn`), **`counted_run`**: `connected` is the number of outstanding requests on
the guest, and a guest that is not yet, or again, available has none.
-/

namespace Cowrie.Pool

open Cowrie.Lib

/-- A release acts on the guest of its own request: the first guest in the list with the
released id is that one, if there is one. -/
def ReleasesOwn (s : Sys) (e : Event) : Prop :=
  ∀ l, e.lease? = some l → ∀ g, s.pool.guests.find? (·.id == l.id) = some g → g.ref = l.guest

instance (s : Sys) (e : Event) : Decidable (ReleasesOwn s e) :=
  have (l : Lease) : Decidable (∀ g, s.pool.guests.find? (·.id == l.id) = some g →
      g.ref = l.guest) := optionDecidable _
  optionDecidable _

/-- The outstanding requests on a guest. -/
def holders (leases : List Lease) (r : Ref) : Nat := leases.countP fun l => decide (l.guest = r)

/-- `connected` counts the outstanding requests, and a guest that is not in use has none. -/
structure Counted (s : Sys) : Prop where
  wf : Wf s.pool
  leaseBound : ∀ l ∈ s.leases, l.guest < s.pool.nextRef
  leaseId : ∀ l ∈ s.leases, ∀ g ∈ s.pool.guests, g.ref = l.guest → g.id = l.id
  count : ∀ g ∈ s.pool.guests, g.connected = (holders s.leases g.ref : Int)
  idle : ∀ g ∈ s.pool.guests, g.state = .created ∨ g.state = .available → g.connected = 0

theorem holders_pos {leases : List Lease} {l : Lease} (h : l ∈ leases) :
    0 < holders leases l.guest :=
  List.countP_pos_iff.mpr ⟨l, h, by simp⟩

theorem holders_append (leases : List Lease) (l : Lease) (r : Ref) :
    holders (leases ++ [l]) r = holders leases r + if l.guest = r then 1 else 0 := by
  unfold holders
  rw [List.countP_append, List.countP_singleton]
  simp

theorem holders_erase {leases : List Lease} {l : Lease} (h : l ∈ leases) (r : Ref) :
    holders (leases.erase l) r + (if l.guest = r then 1 else 0) = holders leases r := by
  unfold holders
  rw [(List.perm_cons_erase h).countP_eq, List.countP_cons]
  simp

/-- A guest on which somebody holds a request is occupied. -/
theorem Counted.occupied {s : Sys} (hs : Counted s) {l : Lease} (hl : l ∈ s.leases) {g : Guest}
    (hg : g ∈ s.pool.guests) (hr : l.guest = g.ref) : 0 < g.connected := by
  have h := holders_pos hl
  rw [hr] at h
  rw [hs.count g hg]
  omega

/-- A guest just created by the producer is on no lease. -/
theorem Counted.fresh_unheld {s : Sys} (hs : Counted s) {r : Ref} (hr : s.pool.nextRef ≤ r) :
    holders s.leases r = 0 := by
  refine List.countP_eq_zero.mpr fun l hl => ?_
  have := hs.leaseBound l hl
  simp only [decide_eq_true_eq]
  rintro rfl
  exact absurd hr (not_le.mpr this)

theorem counted_request {s t : Sys} {ip : Ip} {env : StopEnv} (hs : Counted s) (ht : Wf t.pool)
    (hp : t.pool = (s.pool.requestVm env ip).1)
    (hl : t.leases = match s.pool.chooseGuest ip with
      | some g => s.leases ++ [⟨ip, g.ref, g.id⟩]
      | none => s.leases) : Counted t := by
  obtain ⟨hn, -, hg⟩ := requestVm_guests env ip s.pool
  rw [← hp] at hn hg
  cases hc : s.pool.chooseGuest ip with
  | none =>
    simp only [hc] at hg hl
    refine ⟨ht, ?_, ?_, ?_, ?_⟩
    · rw [hl, hn]
      exact hs.leaseBound
    · rw [hl, hg]
      exact hs.leaseId
    · rw [hl, hg]
      exact hs.count
    · rw [hg]
      exact hs.idle
  | some c =>
    simp only [hc] at hg hl
    obtain ⟨hmem, -⟩ := chooseGuest_mem hc
    have hgood : ∀ g' ∈ t.pool.guests, ∃ g ∈ s.pool.guests, g'.id = g.id ∧ g'.ref = g.ref ∧
        ((g.ref = c.ref ∧ g' = g.granted ip) ∨ (g.ref ≠ c.ref ∧ g' = g)) := by
      intro g' hg'
      rw [hg] at hg'
      obtain ⟨g, hgm, ⟨hr, rfl⟩ | ⟨hr, rfl⟩⟩ := mem_write hg'
      · exact ⟨g, hgm, rfl, rfl, Or.inl ⟨hr, rfl⟩⟩
      · exact ⟨g', hgm, rfl, rfl, Or.inr ⟨hr, rfl⟩⟩
    refine ⟨ht, ?_, ?_, ?_, ?_⟩
    · rw [hl, hn]
      intro l hlm
      rcases List.mem_append.mp hlm with hlm | hlm
      · exact hs.leaseBound l hlm
      · obtain rfl := List.mem_singleton.mp hlm
        exact hs.wf.bound c hmem
    · rw [hl]
      intro l hlm g' hg' hr
      obtain ⟨g, hgm, hid, href, -⟩ := hgood g' hg'
      rw [hid]
      rw [href] at hr
      rcases List.mem_append.mp hlm with hlm | hlm
      · exact hs.leaseId l hlm g hgm hr
      · obtain rfl := List.mem_singleton.mp hlm
        rw [hs.wf.eq_of_ref hgm hmem hr]
    · intro g' hg'
      obtain ⟨g, hgm, -, href, ⟨hr, rfl⟩ | ⟨hr, rfl⟩⟩ := hgood g' hg'
      · rw [href, hl, holders_append, if_pos hr.symm]
        simp only [Guest.granted]
        rw [hs.count g hgm]
        push_cast
        rfl
      · rw [hl, holders_append, if_neg (Ne.symm hr)]
        exact hs.count _ hgm
    · intro g' hg' hst
      obtain ⟨g, hgm, -, -, ⟨-, rfl⟩ | ⟨-, rfl⟩⟩ := hgood g' hg'
      · rcases hst with h | h <;> cases h
      · exact hs.idle _ hgm hst

theorem counted_release {s t : Sys} {l : Lease} {f : Guest → Guest} (hs : Counted s)
    (ht : Wf t.pool) (hf : Releases f) (hmem : l ∈ s.leases) (hl : t.leases = s.leases.erase l)
    (hp : t.pool = { s.pool with guests := PoolService.updateById l.id f s.pool.guests })
    (hown : ∀ g, s.pool.guests.find? (·.id == l.id) = some g → g.ref = l.guest) : Counted t := by
  have hsub : ∀ l', l' ∈ t.leases → l' ∈ s.leases := fun l' h => List.mem_of_mem_erase (hl ▸ h)
  have hg := updateById_spec l.id f hs.wf.nodup
  have hn : t.pool.nextRef = s.pool.nextRef := by rw [hp]
  cases hc : s.pool.guests.find? (·.id == l.id) with
  | none =>
    simp only [hc] at hg
    have hgs : t.pool.guests = s.pool.guests := by rw [hp]; exact hg
    refine ⟨ht, fun l' h => hn ▸ hs.leaseBound l' (hsub l' h), ?_, ?_, ?_⟩ <;> rw [hgs]
    · exact fun l' h => hs.leaseId l' (hsub l' h)
    · intro g hgm
      -- the guest of this request is gone, so no listed guest loses a holder
      have hne : ¬ l.guest = g.ref := by
        intro hr
        have hid := hs.leaseId l hmem g hgm hr.symm
        exact absurd (List.find?_eq_none.mp hc g hgm) (by simp [hid])
      have h := holders_erase hmem g.ref
      rw [if_neg hne, add_zero] at h
      rw [hl, h]
      exact hs.count g hgm
    · exact hs.idle
  | some c =>
    simp only [hc] at hg
    have hcr := hown c hc
    have hgs : t.pool.guests = s.pool.guests.map fun x => if x.ref = c.ref then f x else x := by
      rw [hp]; exact hg
    have hgood : ∀ g' ∈ t.pool.guests, ∃ g ∈ s.pool.guests, g'.id = g.id ∧ g'.ref = g.ref ∧
        ((l.guest = g.ref ∧ g' = f g) ∨ (¬ l.guest = g.ref ∧ g' = g)) := by
      intro g' hg'
      rw [hgs] at hg'
      obtain ⟨g, hgm, ⟨hr, rfl⟩ | ⟨hr, rfl⟩⟩ := mem_write hg'
      · exact ⟨g, hgm, hf.id g, hf.ref g, Or.inl ⟨by rw [hr, hcr], rfl⟩⟩
      · exact ⟨g', hgm, rfl, rfl, Or.inr ⟨fun h => hr (by rw [hcr, h]), rfl⟩⟩
    refine ⟨ht, fun l' h => hn ▸ hs.leaseBound l' (hsub l' h), ?_, ?_, ?_⟩
    · intro l' h g' hg' hr
      obtain ⟨g, hgm, hid, href, -⟩ := hgood g' hg'
      rw [hid]
      exact hs.leaseId l' (hsub l' h) g hgm (href ▸ hr)
    · intro g' hg'
      obtain ⟨g, hgm, -, href, ⟨hr, rfl⟩ | ⟨hr, rfl⟩⟩ := hgood g' hg'
      · have h := holders_erase hmem g.ref
        rw [if_pos hr] at h
        rw [href, hl, hf.connected, hs.count g hgm, ← h]
        push_cast
        exact add_sub_cancel_right _ _
      · have h := holders_erase hmem g'.ref
        rw [if_neg hr, add_zero] at h
        rw [hl, h]
        exact hs.count _ hgm
    · intro g' hg' hst
      obtain ⟨g, hgm, -, -, ⟨hr, rfl⟩ | ⟨-, rfl⟩⟩ := hgood g' hg'
      · rw [hf.connected]
        by_cases h1 : g.connected = 1
        · omega
        · rw [(hf.kept g h1).1] at hst
          have h0 := hs.idle g hgm hst
          have hpos := hs.occupied hmem hgm hr
          omega
      · exact hs.idle _ hgm hst

theorem counted_producer {s t : Sys} {env : ProducerEnv} (hs : Counted s) (ht : Wf t.pool)
    (hp : t.pool = (s.pool.producerLoop env).1) (hl : t.leases = s.leases) : Counted t := by
  have hprod := producer_spec env s.pool
  rw [← hp] at hprod
  refine ⟨ht, fun l h => ?_, fun l h g' hg' hr => ?_, fun g' hg' => ?_, fun g' hg' hst => ?_⟩
  · exact (hs.leaseBound l (hl ▸ h)).trans_le hprod.nextRef
  · rw [hl] at h
    rcases hprod.guests g' hg' with ⟨g, hg, ha⟩ | ⟨hf, -⟩
    · rw [ha.1]
      exact hs.leaseId l h g hg (ha.ref_eq ▸ hr)
    · have := hs.leaseBound l h
      rw [← hr] at this
      exact absurd hf.ref (not_le.mpr this)
  · rw [hl]
    rcases hprod.guests g' hg' with ⟨g, hg, ha⟩ | ⟨hf, -⟩
    · rw [ha.1]
      exact hs.count g hg
    · rw [hf.connected, hs.fresh_unheld hf.ref]
      rfl
  · rcases hprod.guests g' hg' with ⟨g, hg, ha⟩ | ⟨hf, -⟩
    · have hst' : g.state = .created ∨ g.state = .available := by
        rcases ha.2 with h | hd | ⟨h, -⟩
        · rw [← h]
          exact hst
        · rcases hst with h | h <;> rw [h] at hd <;> rcases hd with h | h <;> cases h
        · exact Or.inl h
      rw [ha.1]
      exact hs.idle g hg hst'
    · exact hf.connected

theorem counted_step (s : Sys) (e : Event) (t : Sys) (hs : Counted s) (hown : ReleasesOwn s e)
    (h : step s e = some t) : Counted t := by
  have ht := wf_step s e t hs.wf h
  rcases step_cases h with ⟨ip, env, -, hp, hl⟩ | ⟨l, hl, hf, hmem, hle, hp⟩ | ⟨env, -, hp, hl⟩
  · exact counted_request hs ht hp hl
  · exact counted_release hs ht hf hmem hle hp (hown l hl)
  · exact counted_producer hs ht hp hl

theorem counted_start (settings : Settings) : Counted (Sys.start settings) :=
  ⟨wf_start settings, by simp [Sys.start], by simp [Sys.start],
    by simp [Sys.start, PoolService.start], by simp [Sys.start, PoolService.start]⟩

/-- **`connected` counts the outstanding requests** in every run whose releases act on the guest
of their own request. -/
theorem counted_run {settings : Settings} {es : List Event} {s : Sys}
    (hown : StepsMeet step ReleasesOwn (Sys.start settings) es)
    (h : run step (Sys.start settings) es = some s) : Counted s :=
  run_inv counted_step (counted_start settings) hown h

end Cowrie.Pool
