import Cowrie.Pool.Counting
import Cowrie.Pool.Creation

/-!
# Guest ids

A client releases its guest by the id `request_vm` gave it, and `free_vm` and `reuse_vm` stop at the
first guest in the list that has it (`pool_service.py:456-477`). Ids start again at 0 after 252
creations, whatever guests are still in the list.

* **`identified_violated`**: a guest that stays healthy while the others are replaced meets the
  guest created 252 creations after it, with the same id.
* **`identified_iff`**: in every run, the ids in the list are distinct and every outstanding
  request's id finds its own guest or none, iff no listed guest and no guest of an outstanding
  request is still there when the 252nd creation after its own is made.
-/

namespace Cowrie.Pool

open Cowrie.Lib PoolService

/-- The ids in the list are distinct, and the id of an outstanding request finds its own guest, if
any. -/
def Identified (s : Sys) : Prop :=
  (s.pool.guests.map Guest.id).Nodup ∧
    ∀ l ∈ s.leases, ∀ g, s.pool.guests.find? (·.id == l.id) = some g → g.ref = l.guest

instance (s : Sys) : Decidable (Identified s) :=
  have (l : Lease) : Decidable (∀ g, s.pool.guests.find? (·.id == l.id) = some g →
      g.ref = l.guest) := optionDecidable _
  inferInstanceAs (Decidable (_ ∧ ∀ l ∈ _, _))

/-- The creations of an iteration end before the 252nd one after that of any guest that is not
reaped, and of any guest somebody still holds a request on. -/
def Timely (s : Sys) : Event → Prop
  | .producer env =>
    (s.pool.creations env).length ≤ 252 ∧
      (∀ g ∈ (s.pool.producerReap env).guests,
        s.pool.nextRef + (s.pool.creations env).length ≤ g.ref + 252) ∧
      ∀ l ∈ s.leases, s.pool.nextRef + (s.pool.creations env).length ≤ l.guest + 252
  | _ => True

instance (s : Sys) : ∀ e : Event, Decidable (Timely s e)
  | .producer _ => inferInstanceAs (Decidable (_ ∧ _ ∧ _))
  | .request _ _ => isTrue trivial
  | .free _ _ => isTrue trivial
  | .reuse _ => isTrue trivial

/-! ## Two guests with the id 0 -/

/-- The `k`-th iteration, in which the guest created first, alone, answers the health check. -/
def firstHealthy (k : Nat) : ProducerEnv where
  now _ := 0
  destroyOk _ := true
  healthNmap ref _ := ref = 0
  creates n := ⟨["192.168.150." ++ toString (n + 2), "192.168.150." ++ toString (n + 3)],
    .ok (some (100 * k + n), "snapshot.qcow2"), 0⟩
  bootNmap _ _ := true

/-- 64 guests, of which 63 are replaced every second iteration. -/
def replacingRun : List Event := (List.range 7).map fun k => .producer (firstHealthy k)

/-- **Two guests share an id**: in `replacingRun` the 253rd guest created gets the id of the
first, which is still in the list. -/
theorem identified_violated :
    (run step (Sys.start { oneGuest true with maxVm := 64 }) replacingRun).isSome ∧
    ¬ StatesMeet step Identified (Sys.start { oneGuest true with maxVm := 64 }) replacingRun := by
  decide +kernel

/-! ## The invariant behind the condition -/

/-- Every listed guest, and every guest of an outstanding request, is among the last 252 created,
and its id is its number. -/
structure Recent (s : Sys) : Prop where
  wf : Wf s.pool
  numbered : Numbered s.pool
  guests : ∀ g ∈ s.pool.guests, s.pool.nextRef ≤ g.ref + 252
  leases : ∀ l ∈ s.leases, s.pool.nextRef ≤ l.guest + 252
  leaseBound : ∀ l ∈ s.leases, l.guest < s.pool.nextRef
  leaseId : ∀ l ∈ s.leases, l.id = l.guest % 252

/-- Numbers among the last 252 before `n` are told apart modulo 252. -/
theorem eq_of_mod {n a b : Nat} (ha : n ≤ a + 252) (han : a < n) (hb : n ≤ b + 252) (hbn : b < n)
    (h : a % 252 = b % 252) : a = b := by
  omega

theorem Recent.identified {s : Sys} (hs : Recent s) : Identified s := by
  constructor
  · refine List.Nodup.map_on (fun g hg g' hg' hid => ?_) (List.Nodup.of_map _ hs.wf.nodup)
    refine hs.wf.eq_of_ref hg hg' ?_
    rw [hs.numbered.ids g hg, hs.numbered.ids g' hg'] at hid
    exact eq_of_mod (hs.guests g hg) (hs.wf.bound g hg) (hs.guests g' hg') (hs.wf.bound g' hg') hid
  · intro l hl g hfind
    have hg := List.mem_of_find?_eq_some hfind
    have hid : g.id = l.id := by simpa using List.find?_some hfind
    rw [hs.numbered.ids g hg, hs.leaseId l hl] at hid
    exact eq_of_mod (hs.guests g hg) (hs.wf.bound g hg) (hs.leases l hl) (hs.leaseBound l hl) hid

/-- A step that creates nothing. -/
theorem Recent.of_refs {s t : Sys} (hs : Recent s) (hwf : Wf t.pool) (hnum : Numbered t.pool)
    (hn : t.pool.nextRef = s.pool.nextRef)
    (hg : t.pool.guests.map Guest.ref = s.pool.guests.map Guest.ref)
    (hl : ∀ l ∈ t.leases, l ∈ s.leases ∨ ∃ g ∈ s.pool.guests, l.guest = g.ref ∧ l.id = g.id) :
    Recent t := by
  have hlease : ∀ l ∈ t.leases, s.pool.nextRef ≤ l.guest + 252 ∧ l.guest < s.pool.nextRef ∧
      l.id = l.guest % 252 := by
    intro l hlm
    rcases hl l hlm with h | ⟨g, hgm, hr, hid⟩
    · exact ⟨hs.leases l h, hs.leaseBound l h, hs.leaseId l h⟩
    · rw [hr, hid]
      exact ⟨hs.guests g hgm, hs.wf.bound g hgm, hs.numbered.ids g hgm⟩
  refine ⟨hwf, hnum, fun g hgm => ?_, fun l h => ?_, fun l h => ?_, fun l h => (hlease l h).2.2⟩
  · have hmem : g.ref ∈ s.pool.guests.map Guest.ref := hg ▸ List.mem_map_of_mem hgm
    obtain ⟨g', hg', hr⟩ := List.mem_map.mp hmem
    rw [hn, ← hr]
    exact hs.guests g' hg'
  · rw [hn]
    exact (hlease l h).1
  · rw [hn]
    exact (hlease l h).2.1

/-- The references in the list after an iteration. -/
theorem producer_refs (env : ProducerEnv) (s : PoolService) :
    (s.producerLoop env).1.nextRef = s.nextRef + (s.creations env).length ∧
    (s.producerLoop env).1.guests.map Guest.ref =
      (s.producerReap env).guests.map Guest.ref ++
        List.range' s.nextRef (s.creations env).length := by
  have hboots := producer_boots env s
  obtain ⟨⟨f, hf, hg⟩, hn, -⟩ := hboots
  rw [hn, hg, addGuests_eq]
  refine ⟨by simp only [(reaps_producerReap env s).nextRef], ?_⟩
  rw [map_kept fun g => (hf g).aged.ref_eq]
  simp only [List.map_append, refs_newGuests, (reaps_producerReap env s).nextRef]

/-- An outstanding request was outstanding before, or is for a guest of the list. -/
theorem leases_step {s t : Sys} {e : Event} (h : step s e = some t) :
    ∀ l ∈ t.leases, l ∈ s.leases ∨ ∃ g ∈ s.pool.guests, l.guest = g.ref ∧ l.id = g.id := by
  intro l hl
  rcases step_cases h with ⟨ip, env, -, -, hleases⟩ | ⟨l', -, -, -, hleases, -⟩ | ⟨env, -, -, hleases⟩
  · cases hc : s.pool.chooseGuest ip with
    | none =>
      simp only [hc] at hleases
      exact Or.inl (hleases ▸ hl)
    | some c =>
      simp only [hc] at hleases
      rw [hleases] at hl
      rcases List.mem_append.mp hl with hl | hl
      · exact Or.inl hl
      · rw [List.mem_singleton.mp hl]
        exact Or.inr ⟨c, (chooseGuest_mem hc).1, rfl, rfl⟩
  · exact Or.inl (List.mem_of_mem_erase (hleases ▸ hl))
  · exact Or.inl (hleases ▸ hl)

/-- A producer iteration within the condition. -/
theorem recent_producer {s : Sys} (hs : Recent s) (env : ProducerEnv)
    (hcond : Timely s (.producer env)) : Recent { s with pool := (s.pool.producerLoop env).1 } := by
  obtain ⟨hn, hrefs⟩ := producer_refs env s.pool
  obtain ⟨hlen, hguests, hleases⟩ := hcond
  refine ⟨wf_step s (.producer env) _ hs.wf rfl, numbered_producer env hs.numbered,
    fun g hg => ?_, fun l hl => ?_, fun l hl => ?_, hs.leaseId⟩
  · have hmem : g.ref ∈ (s.pool.producerLoop env).1.guests.map Guest.ref := List.mem_map_of_mem hg
    rw [hrefs] at hmem
    simp only [hn]
    rcases List.mem_append.mp hmem with hmem | hmem
    · obtain ⟨g', hg', hr⟩ := List.mem_map.mp hmem
      rw [← hr]
      exact hguests g' hg'
    · have := (List.mem_range'_1.mp hmem).1
      unfold Ref at *
      omega
  · simp only [hn]
    exact hleases l hl
  · simp only [hn]
    exact (hs.leaseBound l hl).trans_le (Nat.le_add_right _ _)

theorem recent_step (s : Sys) (e : Event) (t : Sys) (hs : Recent s) (hcond : Timely s e)
    (h : step s e = some t) : Recent t := by
  by_cases he : ∃ env, e = .producer env
  · obtain ⟨env, rfl⟩ := he
    obtain rfl := Option.some.inj h
    exact recent_producer hs env hcond
  · have hne : ∀ env, e ≠ .producer env := fun env h => he ⟨env, h⟩
    obtain ⟨f, hf, hg⟩ := consumer_guests hs.wf.nodup hne h
    refine hs.of_refs (wf_step s e t hs.wf h) (numbered_step s e t hs.wf hs.numbered h)
      (nextRef_consumer hne h) ?_ (leases_step h)
    rw [hg]
    exact map_kept fun g => (hf g).ref

/-- A step to a state whose guests are identified met the condition. -/
theorem timely_of_identified (s : Sys) (e : Event) (t : Sys) (hs : Recent s)
    (h : step s e = some t) (ht : Identified t) : Timely s e := by
  rcases step_cases h with ⟨ip, env, rfl, -, -⟩ | ⟨l, hl, -, -, -, -⟩ | ⟨env, rfl, hp, hl⟩
  · trivial
  · cases e with
    | free l now => trivial
    | reuse l => trivial
    | request ip env => cases hl
    | producer env => cases hl
  · obtain ⟨hn, hrefs⟩ := producer_refs env s.pool
    have hwf := wf_step s _ t hs.wf h
    have hnum := numbered_step s _ t hs.wf hs.numbered h
    rw [← hp] at hn hrefs
    -- guests with the same id are the same guest
    have hinj : ∀ g ∈ t.pool.guests, ∀ g' ∈ t.pool.guests, g.ref % 252 = g'.ref % 252 →
        g.ref = g'.ref := by
      intro g hg g' hg' hmod
      rw [← hnum.ids g hg, ← hnum.ids g' hg'] at hmod
      rw [List.inj_on_of_nodup_map ht.1 hg hg' hmod]
    have hnew : ∀ i < (s.pool.creations env).length,
        ∃ g ∈ t.pool.guests, g.ref = s.pool.nextRef + i := by
      intro i hi
      refine List.mem_map.mp ?_
      rw [hrefs]
      exact List.mem_append_right _ (List.mem_range'_1.mpr ⟨by omega, by omega⟩)
    have hold : ∀ g ∈ (s.pool.producerReap env).guests, ∃ g' ∈ t.pool.guests, g'.ref = g.ref := by
      intro g hg
      refine List.mem_map.mp ?_
      rw [hrefs]
      exact List.mem_append_left _ (List.mem_map_of_mem hg)
    -- the 252nd creation after a number is not made in this step
    have hlast : ∀ r : Nat, s.pool.nextRef ≤ r + 252 →
        (∀ b ∈ t.pool.guests, b.ref = r + 252 → False) →
        s.pool.nextRef + (s.pool.creations env).length ≤ r + 252 := by
      intro r hr hnone
      by_contra hlate
      obtain ⟨b, hb, hbr⟩ := hnew (r + 252 - s.pool.nextRef)
        (Nat.sub_lt_left_of_lt_add hr (not_le.mp hlate))
      exact hnone b hb (hbr.trans (Nat.add_sub_of_le hr))
    refine ⟨?_, fun g hg => ?_, fun l hlm => ?_⟩
    · by_contra hlen
      obtain ⟨g, hg, hr⟩ := hnew 0 (by omega)
      obtain ⟨g', hg', hr'⟩ := hnew 252 (by omega)
      have heq := hinj g hg g' hg' (by rw [hr, hr', Nat.add_zero, Nat.add_mod_right])
      rw [hr, hr'] at heq
      unfold Ref at heq
      omega
    · have hmem : g.ref ∈ s.pool.guests.map Guest.ref :=
        (reaps_producerReap env s.pool).refs.subset (List.mem_map_of_mem hg)
      obtain ⟨g₀, hg₀, hr₀⟩ := List.mem_map.mp hmem
      refine hlast g.ref (hr₀ ▸ hs.guests g₀ hg₀) fun b hb hbr => ?_
      obtain ⟨a, ha, har⟩ := hold g hg
      have heq := hinj a ha b hb (by rw [har, hbr, Nat.add_mod_right])
      rw [har, hbr] at heq
      unfold Ref at heq
      omega
    · refine hlast l.guest (hs.leases l hlm) fun b hb hbr => ?_
      have hid : b.id = l.id := by
        rw [hnum.ids b hb, hs.leaseId l hlm, hbr, Nat.add_mod_right]
      -- the id of the request finds a guest, which is another one
      cases hfind : t.pool.guests.find? (·.id == l.id) with
      | none => exact absurd (List.find?_eq_none.mp hfind b hb) (by simp [hid])
      | some g =>
        have hr := ht.2 l (hl ▸ hlm) g hfind
        have hg := List.mem_of_find?_eq_some hfind
        have hgid : g.id = l.id := by simpa using List.find?_some hfind
        have heq := hinj g hg b hb (by rw [← hnum.ids g hg, ← hnum.ids b hb, hgid, hid])
        rw [hr, hbr] at heq
        unfold Ref at heq
        omega

/-- **When ids identify guests.** In every run, the ids in the list are distinct and the id of an
outstanding request finds its own guest or none, iff no iteration makes the 252nd creation after
that of a guest still listed or of the guest of an outstanding request. -/
theorem identified_iff {settings : Settings} {es : List Event} {u : Sys}
    (hrun : run step (Sys.start settings) es = some u) :
    StatesMeet step Identified (Sys.start settings) es ↔
      StepsMeet step Timely (Sys.start settings) es := by
  have h0 : Recent (Sys.start settings) :=
    ⟨wf_start settings, numbered_start settings, by simp [Sys.start, PoolService.start],
      by simp [Sys.start], by simp [Sys.start], by simp [Sys.start]⟩
  exact statesMeet_iff_of_inv recent_step (fun _ hs => hs.identified) timely_of_identified h0 hrun

/-- Two guests, one of them replaced. -/
theorem identified_replaced : StatesMeet step Identified (Sys.start { oneGuest true with maxVm := 2 })
    [.producer (firstHealthy 0), .request "203.0.113.1" cleanStop, .producer (firstHealthy 1),
      .producer (firstHealthy 2), .free ⟨"203.0.113.1", 0, 0⟩ 10] :=
  (identified_iff (Option.some_get (by decide +kernel)).symm).mpr (by decide +kernel)

end Cowrie.Pool
