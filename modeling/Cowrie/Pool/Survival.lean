import Cowrie.Pool.Creation

/-!
# The producer's next iteration

`start_pool` hands the first call of `producer_loop` to a thread (`pool_service.py:147`), and every
iteration ends by scheduling the next one (`pool_service.py:395-398`). Nothing in between catches
an exception, so when `create_guest` raises (`LibvirtError` when no address is free, and whatever
libvirt raises), or returns `None`, which cannot be unpacked, there is no next iteration.

* `listed_creations`: the guests created are in the list, whether or not a later call fails.
* **`survives_violated`**: no free address for the second guest ends the producer.
* **`survives_iff`**: in every run, every iteration leaves exactly one call scheduled, and all it
  created in the list, iff no call of `create_guest` fails.
-/

namespace Cowrie.Pool

open Cowrie.Lib PoolService

/-! ## Runs with the calls that are scheduled -/

/-- The pool, and the number of calls of `producer_loop` that are still to come. -/
structure Scheduled where
  sys : Sys
  calls : Nat

/-- The calls that `request_vm` cancels: the delayed one, when it stops the pool. -/
def cancels (ip : Ip) (s : PoolService) : Nat :=
  if s.chooseGuest ip = none ∧ s.anyVmUp = true ∧ s.loopNextCall = some .pending then 1 else 0

/-- A step of the pool. An iteration is one of the calls that were scheduled; it schedules another
one if it does not raise. -/
def schedStep (s : Scheduled) (e : Event) : Option Scheduled :=
  match e with
  | .producer env =>
    if 0 < s.calls then
      (step s.sys (.producer env)).map fun t =>
        ⟨t, s.calls - 1 + if (s.sys.pool.producerLoop env).2 = none then 1 else 0⟩
    else none
  | .request ip env =>
    (step s.sys (.request ip env)).map fun t => ⟨t, s.calls - cancels ip s.sys.pool⟩
  | .free l now => (step s.sys (.free l now)).map fun t => { s with sys := t }
  | .reuse l => (step s.sys (.reuse l)).map fun t => { s with sys := t }

/-- The pool after `start_pool`. -/
def Scheduled.start (settings : Settings) : Scheduled := ⟨Sys.start settings, 1⟩

/-- What `create_guest` returned for a guest. -/
def Guest.made (g : Guest) : Made := ⟨g.startTimestamp, g.domain, g.snapshot, g.guestIp⟩

/-- An iteration leaves one call scheduled, and the guests it created at the end of the list. -/
def Survives (s : Scheduled) : Event → Prop
  | .producer env => ∀ t, schedStep s (.producer env) = some t →
      t.calls = 1 ∧ s.sys.pool.creations env <:+ t.sys.pool.guests.map Guest.made
  | .request _ _ => True
  | .free _ _ => True
  | .reuse _ => True

instance (s : Scheduled) : ∀ e : Event, Decidable (Survives s e)
  | .producer env =>
    have (t : Scheduled) : Decidable (t.calls = 1 ∧
        s.sys.pool.creations env <:+ t.sys.pool.guests.map Guest.made) := inferInstance
    optionDecidable _
  | .request _ _ => isTrue trivial
  | .free _ _ => isTrue trivial
  | .reuse _ => isTrue trivial

/-- All the calls of `create_guest` in an iteration that takes place return a guest. -/
def CreatesAll (s : Scheduled) : Event → Prop
  | .producer env =>
    0 < s.calls → (s.sys.pool.creations env).length = s.sys.pool.wanted env
  | .request _ _ => True
  | .free _ _ => True
  | .reuse _ => True

instance (s : Scheduled) : ∀ e : Event, Decidable (CreatesAll s e)
  | .producer _ => inferInstanceAs (Decidable (_ → _))
  | .request _ _ => isTrue trivial
  | .free _ _ => isTrue trivial
  | .reuse _ => isTrue trivial

/-! ## A producer that stops -/

/-- **The producer stops**: there is room for two guests but only one address. -/
theorem survives_violated :
    ¬ StepsMeet schedStep Survives (Scheduled.start { oneGuest true with maxVm := 2 })
      [.producer (iteration true)] := by
  decide +kernel

/-! ## The delayed call -/

/-- The delayed call after an iteration. -/
theorem producerLoop_loopNextCall (env : ProducerEnv) (s : PoolService) :
    (s.producerLoop env).1.loopNextCall =
      if (s.producerLoop env).2 = none then some .pending
      else s.loopNextCall.map fun _ => .called := by
  obtain ⟨gs, q, n, i, hcreate⟩ := createGuests_frame env s
  rcases producerLoop_cases env s with ⟨hraise, h⟩ | ⟨hok, h⟩
  · rw [if_neg hraise, h, hcreate]
  · rw [if_pos hok, h]

/-- What cancelling does to the delayed call. -/
def DelayedCall.stopped : DelayedCall → DelayedCall
  | .pending => .cancelled
  | .called => .called
  | .cancelled => .cancelled

theorem cancelLoop_ok {s t : PoolService} (h : s.cancelLoop = .ok t) :
    t.loopNextCall = s.loopNextCall.map DelayedCall.stopped := by
  unfold cancelLoop at h
  cases hc : s.loopNextCall with
  | none =>
    simp only [hc] at h
    rw [← Except.ok.inj h, hc]
    rfl
  | some c =>
    cases c with
    | pending =>
      simp only [hc] at h
      rw [← Except.ok.inj h]
      rfl
    | called => simp [hc] at h
    | cancelled => simp [hc] at h

theorem cancelLoop_error {s : PoolService} {e : PyError} (h : s.cancelLoop = .error e) :
    s.loopNextCall = s.loopNextCall.map DelayedCall.stopped := by
  unfold cancelLoop at h
  cases hc : s.loopNextCall with
  | none => rfl
  | some c =>
    cases c with
    | pending => simp [hc] at h
    | called => rfl
    | cancelled => rfl

/-- The delayed call after `stop_pool`, which may raise later on. -/
theorem stopPool_loopNextCall (env : StopEnv) (s : PoolService) :
    (s.stopPool env).1.loopNextCall = s.loopNextCall.map DelayedCall.stopped := by
  unfold stopPool
  cases hc : s.cancelLoop with
  | error e => exact cancelLoop_error hc
  | ok t =>
    rw [← cancelLoop_ok hc]
    simp only
    cases env.destroyAll with
    | error left => rfl
    | ok u =>
      simp only [destroyAllCowrie]
      obtain ⟨b, hb⟩ := freeAllBindings_frame { t with
        qemu := { (t.guests.foldl (fun q g => destroyGuest q g.domain
          (env.destroyOk g.ref)) t.qemu) with domains := [] } }
      rw [hb]
      cases env.stopBackend with
      | ok u => rfl
      | error left => rfl

/-- The delayed call after `request_vm`. -/
theorem requestVm_loopNextCall (env : StopEnv) (ip : Ip) (s : PoolService) :
    (s.requestVm env ip).1.loopNextCall =
      if s.chooseGuest ip = none ∧ s.anyVmUp = true then s.loopNextCall.map DelayedCall.stopped
      else s.loopNextCall := by
  rw [requestVm_pool]
  cases hc : s.chooseGuest ip with
  | some g => simp [commitRequest]
  | none =>
    simp only [true_and]
    by_cases hup : s.anyVmUp = true
    · rw [if_pos hup, if_pos hup, stopPool_loopNextCall]
    · rw [if_neg hup, if_neg hup]

/-! ## One call at most -/

/-- At most one call is scheduled, and if the delayed call is pending it is that one. -/
structure AtMostOne (s : Scheduled) : Prop where
  calls : s.calls ≤ 1
  pending : s.sys.pool.loopNextCall = some .pending → s.calls = 1

/-- An iteration that takes place: it is the scheduled call. -/
theorem schedStep_producer {s t : Scheduled} {env : ProducerEnv}
    (h : schedStep s (.producer env) = some t) :
    0 < s.calls ∧ t.sys.pool = (s.sys.pool.producerLoop env).1 ∧
      t.calls = s.calls - 1 + if (s.sys.pool.producerLoop env).2 = none then 1 else 0 := by
  unfold schedStep at h
  simp only at h
  split at h
  · rename_i hpos
    obtain ⟨u, hu, rfl⟩ := Option.map_eq_some_iff.mp h
    obtain rfl := Option.some.inj hu
    exact ⟨hpos, rfl, rfl⟩
  · cases h

theorem atMostOne_step (s : Scheduled) (e : Event) (t : Scheduled) (hs : AtMostOne s)
    (h : schedStep s e = some t) : AtMostOne t := by
  have hone := hs.calls
  cases e with
  | producer env =>
    obtain ⟨hpos, hp, hc⟩ := schedStep_producer h
    have hlast : s.calls - 1 = 0 := by omega
    rw [hlast, Nat.zero_add] at hc
    by_cases hok : (s.sys.pool.producerLoop env).2 = none
    · rw [if_pos hok] at hc
      exact ⟨hc.le, fun _ => hc⟩
    · rw [if_neg hok] at hc
      refine ⟨by omega, fun hpend => ?_⟩
      rw [hp, producerLoop_loopNextCall, if_neg hok] at hpend
      cases hcall : s.sys.pool.loopNextCall <;> simp [hcall] at hpend
  | request ip env =>
    unfold schedStep at h
    obtain ⟨u, hu, rfl⟩ := Option.map_eq_some_iff.mp h
    obtain rfl := Option.some.inj hu
    refine ⟨(Nat.sub_le _ _).trans hone, fun hpend => ?_⟩
    change (s.sys.pool.requestVm env ip).1.loopNextCall = some .pending at hpend
    rw [requestVm_loopNextCall] at hpend
    split at hpend
    · -- a call that was cancelled is not pending
      obtain ⟨c, -, hc⟩ := Option.map_eq_some_iff.mp hpend
      cases c <;> cases hc
    · rename_i hstop
      have hnone : cancels ip s.sys.pool = 0 := if_neg fun h => hstop ⟨h.1, h.2.1⟩
      simp only [hnone, Nat.sub_zero]
      exact hs.pending hpend
  | free l now =>
    obtain ⟨u, hu, rfl⟩ := Option.map_eq_some_iff.mp h
    rcases step_cases hu with ⟨ip, env, he, -, -⟩ | ⟨l', -, -, -, -, hp⟩ | ⟨env, he, -, -⟩
    · cases he
    · exact ⟨hone, fun hpend => hs.pending (by rw [hp] at hpend; exact hpend)⟩
    · cases he
  | reuse l =>
    obtain ⟨u, hu, rfl⟩ := Option.map_eq_some_iff.mp h
    rcases step_cases hu with ⟨ip, env, he, -, -⟩ | ⟨l', -, -, -, -, hp⟩ | ⟨env, he, -, -⟩
    · cases he
    · exact ⟨hone, fun hpend => hs.pending (by rw [hp] at hpend; exact hpend)⟩
    · cases he

/-- **The guests created are listed**, whether or not a later call fails. -/
theorem listed_creations (env : ProducerEnv) (s : PoolService) :
    s.creations env <:+ (s.producerLoop env).1.guests.map Guest.made := by
  obtain ⟨⟨f, hf, hg⟩, -⟩ := producer_boots env s
  have hmade : ∀ g, (f g).made = g.made := fun g => by rw [(hf g).aged.1]; rfl
  have hnew : ∀ (ms : List Made) (id : Nat) (ref : Ref),
      (newGuests ms id ref).map Guest.made = ms := by
    intro ms
    induction ms with
    | nil => intro _ _; rfl
    | cons m ms ih =>
      intro id ref
      rw [newGuests, List.map_cons, ih]
      rfl
  rw [hg, map_kept hmade, addGuests_eq]
  refine ⟨(s.producerReap env).guests.map Guest.made, ?_⟩
  rw [List.map_append, hnew]

/-- An iteration leaves one call scheduled iff none of its creations fails. -/
theorem createsAll_iff (s : Scheduled) (e : Event) (hs : AtMostOne s) :
    Survives s e ↔ CreatesAll s e := by
  cases e with
  | request ip env => exact Iff.rfl
  | free l now => exact Iff.rfl
  | reuse l => exact Iff.rfl
  | producer env =>
    have hone := hs.calls
    constructor
    · intro h hpos
      have ht : schedStep s (.producer env) = some ⟨⟨(s.sys.pool.producerLoop env).1, s.sys.leases⟩,
          s.calls - 1 + if (s.sys.pool.producerLoop env).2 = none then 1 else 0⟩ := if_pos hpos
      have hc := (h _ ht).1
      simp only at hc
      rw [← producerLoop_snd]
      by_contra hraise
      rw [if_neg hraise] at hc
      omega
    · intro h t ht
      obtain ⟨hpos, hp, hc⟩ := schedStep_producer ht
      rw [if_pos ((producerLoop_snd env s.sys.pool).mpr (h hpos))] at hc
      refine ⟨by omega, ?_⟩
      rw [hp]
      exact listed_creations env s.sys.pool

/-! ## When the producer survives -/

/-- **When the producer goes on.** In every run, every iteration leaves exactly one call scheduled
and the guests it created in the list, iff in every iteration all the calls of `create_guest`
return a guest. -/
theorem survives_iff (settings : Settings) (es : List Event) :
    StepsMeet schedStep Survives (Scheduled.start settings) es ↔
      StepsMeet schedStep CreatesAll (Scheduled.start settings) es := by
  have h0 : AtMostOne (Scheduled.start settings) := ⟨le_refl _, fun _ => rfl⟩
  exact stepsMeet_iff_of_inv (fun s e t hs _ h => atMostOne_step s e t hs h) createsAll_iff h0

end Cowrie.Pool
