import Cowrie.Pool.Concurrent

/-!
# The gap between choosing a guest and taking it

`PoolService` promises that guests in the states available, using and used are only changed under
the lock (`pool_service.py:82-85`), but `request_vm` writes to the guest it chose after the lock is
released (`pool_service.py:449-452`). Between the two another request can choose the same guest,
and the producer can mark it for destruction.

* **`commits_race`**: two addresses are granted the guest both saw available.
* **`safe_of_undisturbed`**: every request commits a listed guest that is not marked for
  destruction, and that no other address took since it was chosen as available, in every run in
  which no available guest is picked by a second address, and no guest is marked, while a request
  stands between choosing that guest and taking it.
-/

namespace Cowrie.Pool

open Cowrie.Lib

/-- The call has chosen the guest `r` and not yet written to it. -/
def Call.Holds (r : Ref) : Call → Prop
  | ⟨_, .chose guest _ _ _⟩ => guest = r
  | _ => False

/-- It saw the guest available. -/
def Call.Picked (r : Ref) : Call → Prop
  | ⟨_, .chose guest _ saw _⟩ => guest = r ∧ saw = .available
  | _ => False

/-- The writes of a request reach a listed guest that is not marked for destruction, and one that
it saw available was not granted to another address, which saw it available too, since then. -/
def SafeCommit (s : Conc) : Move → Prop
  | .advance ⟨ip, .chose guest _ saw since⟩ _ =>
    (∃ g ∈ s.pool.guests, g.ref = guest ∧ ¬ Dead g.state) ∧
      (saw = .available → ∀ k ∈ s.commits.drop since, k.guest = guest → k.saw = .available →
        k.ip = ip)
  | _ => True

/-- The producer is about to mark the guest for destruction. -/
def Marks (env : ProducerEnv) (s : PoolService) (g : Guest) : ProducerPc → Prop
  | .marking => g.state = .used ∧ g.freedTimestamp + s.settings.vmUnusedTimeout < env.now g.ref
  | .checking => Serving g.state ∧ s.hasConnectivity (env.healthNmap g.ref) = false
  | _ => False

/-- No available guest is picked that a request of another address has picked and not yet taken,
and no guest is marked that a request has chosen and not yet taken. -/
def Undisturbed (s : Conc) : Move → Prop
  | .advance ⟨ip, .notByIp⟩ _ => ∀ g, s.pool.getAvailableGuest = some g →
      ∀ c ∈ s.calls, c.Picked g.ref → c.ip = ip
  | .produce env => ∀ g ∈ s.pool.guests, Marks env s.pool g s.producer →
      ∀ c ∈ s.calls, ¬ c.Holds g.ref
  | _ => True

instance (r : Ref) : ∀ c : Call, Decidable (c.Holds r)
  | ⟨_, .chose _ _ _ _⟩ => inferInstanceAs (Decidable (_ = _))
  | ⟨_, .start⟩ => isFalse id
  | ⟨_, .notByIp⟩ => isFalse id
  | ⟨_, .noneAvailable⟩ => isFalse id
  | ⟨_, .noGuest⟩ => isFalse id

instance (r : Ref) : ∀ c : Call, Decidable (c.Picked r)
  | ⟨_, .chose _ _ _ _⟩ => inferInstanceAs (Decidable (_ ∧ _))
  | ⟨_, .start⟩ => isFalse id
  | ⟨_, .notByIp⟩ => isFalse id
  | ⟨_, .noneAvailable⟩ => isFalse id
  | ⟨_, .noGuest⟩ => isFalse id

instance (s : Conc) : ∀ m : Move, Decidable (SafeCommit s m)
  | .advance ⟨_, .chose _ _ _ _⟩ _ => inferInstanceAs (Decidable (_ ∧ _))
  | .advance ⟨_, .start⟩ _ => isTrue trivial
  | .advance ⟨_, .notByIp⟩ _ => isTrue trivial
  | .advance ⟨_, .noneAvailable⟩ _ => isTrue trivial
  | .advance ⟨_, .noGuest⟩ _ => isTrue trivial
  | .call _ => isTrue trivial
  | .free _ _ => isTrue trivial
  | .reuse _ => isTrue trivial
  | .produce _ => isTrue trivial

instance (env : ProducerEnv) (s : PoolService) (g : Guest) :
    ∀ pc : ProducerPc, Decidable (Marks env s g pc)
  | .marking => inferInstanceAs (Decidable (_ ∧ _))
  | .checking => inferInstanceAs (Decidable ((_ ∨ _ ∨ _) ∧ _))
  | .idle => isFalse id
  | .destroying => isFalse id
  | .removing => isFalse id
  | .creating => isFalse id
  | .booting => isFalse id
  | .stopped => isFalse id

instance (s : Conc) : ∀ m : Move, Decidable (Undisturbed s m)
  | .advance ⟨_, .notByIp⟩ _ => optionDecidable _
  | .advance ⟨_, .start⟩ _ => isTrue trivial
  | .advance ⟨_, .noneAvailable⟩ _ => isTrue trivial
  | .advance ⟨_, .noGuest⟩ _ => isTrue trivial
  | .advance ⟨_, .chose _ _ _ _⟩ _ => isTrue trivial
  | .produce _ => inferInstanceAs (Decidable (∀ g ∈ _, _ → _))
  | .call _ => isTrue trivial
  | .free _ _ => isTrue trivial
  | .reuse _ => isTrue trivial

/-! ## Two addresses, one guest -/

/-- Two addresses look for a guest while the only one is available, and both find it. -/
def racingRun : List Move :=
  List.replicate 5 (.produce (iteration true)) ++
    [.call "203.0.113.1", .call "203.0.113.2",
      .advance ⟨"203.0.113.1", .start⟩ cleanStop, .advance ⟨"203.0.113.2", .start⟩ cleanStop,
      .advance ⟨"203.0.113.1", .notByIp⟩ cleanStop, .advance ⟨"203.0.113.2", .notByIp⟩ cleanStop,
      .advance ⟨"203.0.113.1", .chose 0 0 .available 0⟩ cleanStop,
      .advance ⟨"203.0.113.2", .chose 0 0 .available 0⟩ cleanStop]

/-- **Two addresses commit the guest both saw available.** -/
theorem commits_race : (oneGuest false).shareGuests = false ∧
    (run move (Conc.start (oneGuest false)) racingRun).isSome ∧
    ¬ StepsMeet move SafeCommit (Conc.start (oneGuest false)) racingRun := by
  decide +kernel

/-! ## The invariant of the undisturbed runs -/

/-- Every chosen guest is listed and serving; an available guest is picked by one address at a
time, and by no address that took it before. -/
structure Orderly (s : Conc) : Prop where
  wf : Wf s.pool
  listed : ∀ c ∈ s.calls, ∀ r, c.Holds r → ∃ g ∈ s.pool.guests, g.ref = r ∧ Serving g.state
  alone : ∀ c ∈ s.calls, ∀ d ∈ s.calls, ∀ r, c.Picked r → d.Picked r → c.ip = d.ip
  untaken : ∀ ip guest id since, ⟨ip, .chose guest id .available since⟩ ∈ s.calls →
    since ≤ s.commits.length ∧
      ∀ k ∈ s.commits.drop since, k.guest = guest → k.saw = .available → k.ip = ip

theorem Orderly.safe {s : Conc} (hs : Orderly s) {c : Call} (hc : c ∈ s.calls) (env : StopEnv) :
    SafeCommit s (.advance c env) := by
  obtain ⟨ip, p⟩ := c
  cases p with
  | chose guest id saw since =>
    constructor
    · obtain ⟨g, hg, hr, hserve⟩ := hs.listed _ hc guest rfl
      exact ⟨g, hg, hr, fun hd => hd.not_serving hserve⟩
    · rintro rfl
      exact (hs.untaken ip guest id since hc).2
  | start => trivial
  | notByIp => trivial
  | noneAvailable => trivial
  | noGuest => trivial

/-! ## Phases of the producer -/

theorem mem_forStates {s : PoolService} {states : List GuestState} {body : Guest → Guest} {g : Guest}
    (hg : g ∈ s.guests) (hsame : g.state ∈ states → body g = g) :
    g ∈ (s.forStates states body).guests := by
  refine List.mem_map.mpr ⟨g, hg, ?_⟩
  by_cases h : g.state ∈ states
  · rw [if_pos h, hsame h]
  · rw [if_neg h]

theorem Serving.ne {a b : GuestState} (h : Serving a) (hb : ¬ Serving b) : a ≠ b := by
  rintro rfl
  exact hb h

/-- A phase of the producer leaves every serving guest alone that it does not mark. -/
theorem phase_keeps {env : ProducerEnv} {s : PoolService} {pc : ProducerPc} {g : Guest}
    (hg : g ∈ s.guests) (hserve : Serving g.state) (hmark : ¬ Marks env s g pc) :
    g ∈ (producePhase env s pc).1.guests := by
  cases pc with
  | idle => exact hg
  | stopped => exact hg
  | marking =>
    refine mem_forStates hg fun hst => if_neg fun h => hmark ⟨?_, h⟩
    exact List.mem_singleton.mp hst
  | destroying =>
    refine mem_forStates hg fun hst => absurd (List.mem_singleton.mp hst) (hserve.ne (by decide))
  | checking =>
    refine mem_forStates hg fun _ => if_pos ?_
    by_contra h
    exact hmark ⟨hserve, eq_false_of_ne_true h⟩
  | removing =>
    simp only [producePhase, removeDestroyed_guests]
    refine List.mem_filter.mpr ⟨hg, ?_⟩
    simpa using hserve.ne (b := .destroyed) (by decide)
  | creating =>
    obtain ⟨-, -, news, hnews, -⟩ : Grows s (s.createGuests env).1 := grows_createLoop _ _ _ _
    have hmem : g ∈ (s.createGuests env).1.guests := by
      rw [hnews]
      exact List.mem_append_left _ hg
    unfold producePhase
    cases hc : s.createGuests env with
    | mk t r =>
      rw [hc] at hmem
      cases r <;> exact hmem
  | booting =>
    exact mem_forStates hg fun hst =>
      absurd (List.mem_singleton.mp hst) (hserve.ne (by decide))

theorem wf_phase (env : ProducerEnv) {s : PoolService} (pc : ProducerPc) (hs : Wf s) :
    Wf (producePhase env s pc).1 := by
  cases pc with
  | idle => exact (reaps_loopNextCall _ s).wf hs
  | stopped => exact hs
  | marking => exact (reaps_markTimedOut env _ s).wf hs
  | destroying => exact (reaps_destroyTimedOut env s).wf hs
  | checking => exact (reaps_checkHealth env s).wf hs
  | removing => exact (reaps_removeDestroyed s).wf hs
  | creating =>
    have hwf : Wf (s.createGuests env).1 := (grows_createLoop _ _ _ _ : Grows s _).wf hs
    unfold producePhase
    cases hc : s.createGuests env with
    | mk t r =>
      rw [hc] at hwf
      cases r <;> exact hwf
  | booting => exact (reaps_loopNextCall _ _).wf ((reaps_markAvailable env s).wf hs)

/-! ## The steps keep the invariant -/

/-- A step that only changes the pool. -/
theorem Orderly.pool {s t : Conc} (hs : Orderly s) (hwf : Wf t.pool) (hcalls : t.calls = s.calls)
    (hcommits : t.commits = s.commits)
    (hkeep : ∀ g ∈ s.pool.guests, Serving g.state → (∃ c ∈ s.calls, c.Holds g.ref) →
      ∃ g' ∈ t.pool.guests, g'.ref = g.ref ∧ Serving g'.state) : Orderly t := by
  refine ⟨hwf, ?_, ?_, ?_⟩
  · rw [hcalls]
    intro c hc r hr
    obtain ⟨g, hg, rfl, hserve⟩ := hs.listed c hc r hr
    exact hkeep g hg hserve ⟨c, hc, hr⟩
  · rw [hcalls]
    exact hs.alone
  · rw [hcalls, hcommits]
    exact hs.untaken

/-- A step after which there are fewer calls. -/
theorem Orderly.erase {s t : Conc} (hs : Orderly s) {c : Call} (hpool : t.pool = s.pool)
    (hcalls : t.calls = s.calls.erase c) (hcommits : t.commits = s.commits) : Orderly t := by
  have hsub : ∀ d ∈ t.calls, d ∈ s.calls := fun d hd => List.mem_of_mem_erase (hcalls ▸ hd)
  refine ⟨hpool ▸ hs.wf, fun d hd r hr => ?_, fun d hd e he => ?_, fun ip guest id since hd => ?_⟩
  · rw [hpool]
    exact hs.listed d (hsub d hd) r hr
  · exact hs.alone d (hsub d hd) e (hsub e he)
  · rw [hcommits]
    exact hs.untaken ip guest id since (hsub _ hd)

theorem orderly_release {s t : Conc} (hs : Orderly s) {f : Guest → Guest} (hf : Releases f)
    {id : Nat} (hp : t.pool = { s.pool with guests := PoolService.updateById id f s.pool.guests })
    (hcalls : t.calls = s.calls) (hcommits : t.commits = s.commits) : Orderly t := by
  have hgs := updateById_spec id f hs.wf.nodup
  cases hc : s.pool.guests.find? (·.id == id) with
  | none =>
    rw [hc] at hgs
    have hpool : t.pool = s.pool := by rw [hp, hgs]
    exact hs.pool (hpool ▸ hs.wf) hcalls hcommits
      (fun g hg hserve _ => ⟨g, hpool ▸ hg, rfl, hserve⟩)
  | some c =>
    rw [hc] at hgs
    have hserving : ∀ g ∈ s.pool.guests, Serving g.state → Serving (f g).state := by
      intro g hg hserve
      by_cases h1 : g.connected = 1
      · rcases hf.last g h1 with h | h <;> rw [h]
        · exact Or.inr (Or.inr rfl)
        · exact hs.wf.reverts g hg (by omega)
      · rw [(hf.kept g h1).1]
        exact hserve
    refine hs.pool ?_ hcalls hcommits (fun g hg hserve _ => ?_)
    · rw [hp]
      refine wf_write hs.wf hf.ref (fun g hg _ h1 => ?_) hgs rfl
      rw [hf.connected] at h1
      rw [(hf.kept g (by omega)).2]
      exact hs.wf.reverts g hg (by omega)
    · rw [hp]
      simp only [hgs]
      refine ⟨_, List.mem_map_of_mem hg, ?_⟩
      split
      · exact ⟨hf.ref g, hserving g hg hserve⟩
      · exact ⟨rfl, hserve⟩

/-- The guest a helper finds is listed and serving, and available only if the second one found
it. -/
theorem next_chose {s : PoolService} {ip : Ip} {n : Nat} {p : Progress} {guest : Ref} {id : Nat}
    {saw : GuestState} {since : Nat} (hp : ∀ r i a m, p ≠ .chose r i a m)
    (h : p.next s ip n = .chose guest id saw since) :
    since = n ∧ ∃ g ∈ s.guests, g.ref = guest ∧ g.state = saw ∧ Serving g.state ∧
      (saw = .available → p = .notByIp ∧ s.getAvailableGuest = some g) := by
  have hfound : ∀ g : Guest, Progress.found n g = .chose guest id saw since →
      since = n ∧ g.ref = guest ∧ g.state = saw := by
    intro g hg
    injection hg with h1 h2 h3 h4
    exact ⟨h4.symm, h1, h3⟩
  have hstates : ∀ (states : List GuestState) (g : Guest), g ∈ s.getGuestStates states →
      g ∈ s.guests ∧ g.state ∈ states := by
    intro states g hg
    obtain ⟨hmem, hst⟩ := List.mem_filter.mp hg
    exact ⟨hmem, by simpa using hst⟩
  have hoccupied : ∀ g : Guest, g.state ∈ [GuestState.used, .inUse] →
      Serving g.state ∧ (g.state = .available → False) := by
    intro g hst
    rcases List.mem_pair.mp hst with h | h <;> rw [h] <;> decide
  cases p with
  | start =>
    simp only [Progress.next] at h
    cases hg : s.getGuestIp ip with
    | none => rw [hg] at h; cases h
    | some g =>
      rw [hg] at h
      obtain ⟨h1, h2, h3⟩ := hfound g h
      obtain ⟨hmem, hst⟩ := hstates _ g (List.mem_of_find?_eq_some hg)
      obtain ⟨hserve, hnot⟩ := hoccupied g hst
      exact ⟨h1, g, hmem, h2, h3, hserve, fun ha => (hnot (h3.trans ha)).elim⟩
  | notByIp =>
    simp only [Progress.next] at h
    cases hg : s.getAvailableGuest with
    | none => rw [hg] at h; simp only at h; split at h <;> cases h
    | some g =>
      rw [hg] at h
      obtain ⟨h1, h2, h3⟩ := hfound g h
      obtain ⟨hmem, hst⟩ := hstates _ g (List.mem_of_mem_head? hg)
      exact ⟨h1, g, hmem, h2, h3, Or.inl (List.mem_singleton.mp hst), fun _ => ⟨rfl, rfl⟩⟩
  | noneAvailable =>
    simp only [Progress.next] at h
    cases hg : s.getAnyGuest with
    | none => rw [hg] at h; cases h
    | some g =>
      rw [hg] at h
      obtain ⟨h1, h2, h3⟩ := hfound g h
      obtain ⟨hmem, hst⟩ := hstates _ g (List.argmin_mem hg)
      obtain ⟨hserve, hnot⟩ := hoccupied g (by
        rcases List.mem_pair.mp hst with h | h <;> rw [h] <;> decide)
      exact ⟨h1, g, hmem, h2, h3, hserve, fun ha => (hnot (h3.trans ha)).elim⟩
  | noGuest => cases h
  | chose r i a m => exact absurd rfl (hp r i a m)

/-- The step of a call that has not chosen a guest yet. -/
theorem orderly_helper {s t : Conc} (hs : Orderly s) {ip : Ip} {p : Progress}
    (hp : ∀ r i a m, p ≠ .chose r i a m)
    (hcond : p = .notByIp → ∀ g, s.pool.getAvailableGuest = some g →
      ∀ c ∈ s.calls, c.Picked g.ref → c.ip = ip)
    (hpool : t.pool = s.pool) (hcommits : t.commits = s.commits)
    (hcalls : t.calls = s.calls.erase ⟨ip, p⟩ ++ [⟨ip, p.next s.pool ip s.commits.length⟩]) :
    Orderly t := by
  have hcases : ∀ d ∈ t.calls, d ∈ s.calls ∨ d = ⟨ip, p.next s.pool ip s.commits.length⟩ := by
    intro d hd
    rw [hcalls] at hd
    rcases List.mem_append.mp hd with h | h
    · exact Or.inl (List.mem_of_mem_erase h)
    · exact Or.inr (List.mem_singleton.mp h)
  generalize hq : p.next s.pool ip s.commits.length = q at hcases
  -- a second address picks a guest only if the condition lets it
  have hpicked : ∀ d ∈ s.calls, ∀ r, d.Picked r → Call.Picked r ⟨ip, q⟩ → d.ip = ip := by
    intro d hd r hdr hnew
    cases q with
    | chose guest id saw since =>
      obtain ⟨rfl, rfl⟩ := hnew
      obtain ⟨-, g, -, rfl, -, -, hav⟩ := next_chose hp hq
      obtain ⟨hnot, hsome⟩ := hav rfl
      exact hcond hnot g hsome d hd hdr
    | start => cases hnew
    | notByIp => cases hnew
    | noneAvailable => cases hnew
    | noGuest => cases hnew
  refine ⟨hpool ▸ hs.wf, ?_, ?_, ?_⟩
  · rw [hpool]
    intro d hd r hr
    rcases hcases d hd with h | rfl
    · exact hs.listed d h r hr
    · cases q with
      | chose guest id saw since =>
        obtain ⟨-, g, hg, hgr, -, hserve, -⟩ := next_chose hp hq
        exact ⟨g, hg, hgr.trans hr, hserve⟩
      | start => cases hr
      | notByIp => cases hr
      | noneAvailable => cases hr
      | noGuest => cases hr
  · intro d hd e he r hdr her
    rcases hcases d hd with h | rfl <;> rcases hcases e he with h' | rfl
    · exact hs.alone d h e h' r hdr her
    · exact hpicked d h r hdr her
    · exact (hpicked e h' r her hdr).symm
    · rfl
  · rw [hcommits]
    intro ip' guest id since hd
    rcases hcases _ hd with h | h
    · exact hs.untaken ip' guest id since h
    · injection h with h1 h2
      obtain ⟨rfl, -⟩ := next_chose hp (hq.trans h2.symm)
      simp

theorem orderly_commit {s t : Conc} (hs : Orderly s) {ip : Ip} {guest : Ref} {id : Nat}
    {saw : GuestState} {since : Nat} (hc : ⟨ip, .chose guest id saw since⟩ ∈ s.calls)
    (hpool : t.pool = s.pool.commitRequest guest ip)
    (hcalls : t.calls = s.calls.erase ⟨ip, .chose guest id saw since⟩)
    (hcommits : t.commits = s.commits ++ [⟨ip, guest, saw⟩]) : Orderly t := by
  have hsub : ∀ d ∈ t.calls, d ∈ s.calls := fun d hd => List.mem_of_mem_erase (hcalls ▸ hd)
  have hgs : t.pool.guests = s.pool.guests.map fun g =>
      if g.ref = guest then g.granted ip else g := by rw [hpool]; rfl
  refine ⟨?_, ?_, ?_, ?_⟩
  · refine wf_write (f := Guest.granted ip) hs.wf (fun _ => rfl) (fun g hg hr _ => ?_) hgs
      (by rw [hpool]; rfl)
    obtain ⟨g', hg', hr', hserve⟩ := hs.listed _ hc guest rfl
    obtain rfl := hs.wf.eq_of_ref hg hg' (hr.trans hr'.symm)
    exact hserve
  · intro d hd r hr
    obtain ⟨g, hg, rfl, hserve⟩ := hs.listed d (hsub d hd) r hr
    rw [hgs]
    refine ⟨_, List.mem_map_of_mem hg, ?_⟩
    split
    · exact ⟨rfl, Or.inr (Or.inl rfl)⟩
    · exact ⟨rfl, hserve⟩
  · exact fun d hd e he => hs.alone d (hsub d hd) e (hsub e he)
  · rw [hcommits]
    intro ip' guest' id' since' hd
    obtain ⟨hle, hold⟩ := hs.untaken ip' guest' id' since' (hsub _ hd)
    refine ⟨by rw [List.length_append]; omega, fun k hk hkg hks => ?_⟩
    rw [List.drop_append_of_le_length hle] at hk
    rcases List.mem_append.mp hk with hk | hk
    · exact hold k hk hkg hks
    · obtain rfl := List.mem_singleton.mp hk
      exact hs.alone _ hc _ (hsub _ hd) guest' ⟨hkg, hks⟩ ⟨rfl, rfl⟩

theorem orderly_step (s : Conc) (m : Move) (t : Conc) (hs : Orderly s) (hcond : Undisturbed s m)
    (h : move s m = some t) : Orderly t := by
  cases m with
  | call ip =>
    obtain rfl := Option.some.inj h
    have hcases : ∀ d ∈ s.calls ++ [(⟨ip, .start⟩ : Call)], d ∈ s.calls ∨ d = ⟨ip, .start⟩ :=
      fun d hd => (List.mem_append.mp hd).imp_right List.mem_singleton.mp
    refine ⟨hs.wf, fun d hd r hr => ?_, fun d hd e he r hdr her => ?_,
      fun ip' guest id since hd => ?_⟩
    · rcases hcases d hd with h | rfl
      · exact hs.listed d h r hr
      · cases hr
    · rcases hcases d hd with h | rfl
      · rcases hcases e he with h' | rfl
        · exact hs.alone d h e h' r hdr her
        · cases her
      · cases hdr
    · rcases hcases _ hd with h | h
      · exact hs.untaken ip' guest id since h
      · cases h
  | advance c env =>
    simp only [move] at h
    split at h
    · rename_i hc
      obtain rfl := Option.some.inj h
      obtain ⟨ip, p⟩ := c
      cases p with
      | chose guest id saw since => exact orderly_commit hs hc rfl rfl rfl
      | noGuest =>
        obtain ⟨hg, hn, -⟩ := stopPool_guests env s.pool
        have hpool : (advance s ⟨ip, .noGuest⟩ env).pool.guests = s.pool.guests ∧
            (advance s ⟨ip, .noGuest⟩ env).pool.nextRef = s.pool.nextRef := by
          unfold advance
          simp only
          split
          · exact ⟨hg, hn⟩
          · exact ⟨rfl, rfl⟩
        have hwf : Wf (advance s ⟨ip, .noGuest⟩ env).pool :=
          ⟨hpool.1 ▸ hs.wf.nodup, by rw [hpool.1, hpool.2]; exact hs.wf.bound,
            hpool.1 ▸ hs.wf.reverts⟩
        have hrest : Orderly { s with calls := s.calls.erase ⟨ip, .noGuest⟩ } :=
          hs.erase rfl rfl rfl
        exact hrest.pool hwf rfl rfl fun g hg hserve _ => ⟨g, hpool.1 ▸ hg, rfl, hserve⟩
      | start =>
        exact orderly_helper hs (fun _ _ _ _ => by simp) (fun h => by cases h) rfl rfl rfl
      | notByIp =>
        exact orderly_helper hs (fun _ _ _ _ => by simp) (fun _ => hcond) rfl rfl rfl
      | noneAvailable =>
        exact orderly_helper hs (fun _ _ _ _ => by simp) (fun h => by cases h) rfl rfl rfl
    · cases h
  | free l now =>
    simp only [move] at h
    split at h
    · obtain rfl := Option.some.inj h
      exact orderly_release hs (releases_freed now) rfl rfl rfl
    · cases h
  | reuse l =>
    simp only [move] at h
    split at h
    · obtain rfl := Option.some.inj h
      exact orderly_release hs releases_reused rfl rfl rfl
    · cases h
  | produce env =>
    obtain rfl := Option.some.inj h
    refine hs.pool (wf_phase env _ hs.wf) rfl rfl fun g hg hserve hheld => ?_
    obtain ⟨c, hc, hr⟩ := hheld
    exact ⟨g, phase_keeps hg hserve fun hmark => hcond g hg hmark c hc hr, rfl, hserve⟩

theorem orderly_start (settings : Settings) : Orderly (Conc.start settings) :=
  ⟨wf_start settings, by simp [Conc.start], by simp [Conc.start], by simp [Conc.start]⟩

/-- **When commits are safe.** In every interleaved run in which no available guest is picked by a
second address, and no guest is marked, while a request stands between choosing that guest and
taking it, every request commits a listed guest that is not marked for destruction, and no two
addresses commit a guest that both saw available. -/
theorem safe_of_undisturbed {settings : Settings} {ms : List Move} {t : Conc}
    (hrun : run move (Conc.start settings) ms = some t)
    (hcond : StepsMeet move Undisturbed (Conc.start settings) ms) :
    StepsMeet move SafeCommit (Conc.start settings) ms := by
  have hsafe : ∀ s m u, Orderly s → move s m = some u → SafeCommit s m := by
    intro s m u hs h
    cases m with
    | advance c env =>
      simp only [move] at h
      split at h
      · exact hs.safe (by assumption) env
      · cases h
    | call ip => trivial
    | free l now => trivial
    | reuse l => trivial
    | produce env => trivial
  refine stepsMeet_iff.mpr fun as m bs s hms has => ?_
  rw [hms, run_append] at hrun
  obtain ⟨s', has', hrest⟩ := hrun
  obtain rfl : s = s' := Option.some.inj (has.symm.trans has')
  obtain ⟨u, hu, -⟩ := run_cons.mp hrest
  rw [hms] at hcond
  exact hsafe s m u
    (run_inv orderly_step (orderly_start settings) ((stepsMeet_append has).mp hcond).1 has) hu

/-- The second address looks for a guest after the first one has taken it. -/
theorem safe_in_turn : StepsMeet move SafeCommit (Conc.start (oneGuest false))
    (List.replicate 5 (.produce (iteration true)) ++
      [.call "203.0.113.1", .call "203.0.113.2",
        .advance ⟨"203.0.113.1", .start⟩ cleanStop, .advance ⟨"203.0.113.2", .start⟩ cleanStop,
        .advance ⟨"203.0.113.1", .notByIp⟩ cleanStop,
        .advance ⟨"203.0.113.1", .chose 0 0 .available 0⟩ cleanStop,
        .advance ⟨"203.0.113.2", .notByIp⟩ cleanStop]) :=
  safe_of_undisturbed (Option.some_get (by decide +kernel)).symm (by decide +kernel)

end Cowrie.Pool
