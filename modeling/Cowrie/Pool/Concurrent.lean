import Cowrie.Pool.Invariant

/-!
# Requests that overlap (`src/backend_pool/pool_service.py:400-477`)

The three `__consumers_get_*` helpers each take `guest_lock`; `request_vm` writes to the guest they
found after the lock is released. Here a call of `request_vm` takes one step for every helper and
one for its writes, the producer one step for every phase, and the steps of all calls and of the
producer interleave.

* A `Call` is one call of `request_vm`; `Progress` is how far it got. `chose` holds what the call
  keeps in its local variable `guest`: the object and, since `id` never changes, its id. `saw` (the
  state the helper found) and `since` (how many requests had been committed by then) are ghost
  state, and so is `commits`.
* `ProducerPc` is the next statement of `producer_loop`.
* A guest that was taken off the list is read by nobody but the calls that chose it, so
  `commitRequest` writes to listed guests only.
* `exec_request` and `exec_producer`: a call, or an iteration, whose steps nothing comes between
  does what `requestVm` and `producerLoop` do.
-/

namespace Cowrie.Pool

open Cowrie.Lib

/-! ## The steps -/

/-- How far a call of `request_vm` got. -/
inductive Progress
  | start
  /-- `__consumers_get_guest_ip` found none. -/
  | notByIp
  /-- Nor did `__consumers_get_available_guest`, and guests are shared. -/
  | noneAvailable
  | noGuest
  | chose (guest : Ref) (id : Nat) (saw : GuestState) (since : Nat)
  deriving DecidableEq

structure Call where
  ip : Ip
  progress : Progress
  deriving DecidableEq

/-- The next statement of `producer_loop`; `stopped` is after an exception. -/
inductive ProducerPc
  | idle
  | marking
  | destroying
  | checking
  | removing
  | creating
  | booting
  | stopped
  deriving DecidableEq

/-- A request that was granted: what it saw when it chose the guest. -/
structure Commit where
  ip : Ip
  guest : Ref
  saw : GuestState
  deriving DecidableEq

structure Conc where
  pool : PoolService
  leases : List Lease
  calls : List Call
  producer : ProducerPc
  commits : List Commit

/-- A step of the interleaved pool. -/
inductive Move
  | call (ip : Ip)
  | advance (call : Call) (env : StopEnv)
  | free (lease : Lease) (now : ℚ)
  | reuse (lease : Lease)
  | produce (env : ProducerEnv)

/-- A helper found a guest. -/
def Progress.found (since : Nat) (g : Guest) : Progress := .chose g.ref g.id g.state since

/-- The helper a call comes to next (`pool_service.py:431-440`). -/
def Progress.next (s : PoolService) (srcIp : Ip) (since : Nat) : Progress → Progress
  | .start =>
    match s.getGuestIp srcIp with
    | some g => .found since g
    | none => .notByIp
  | .notByIp =>
    match s.getAvailableGuest with
    | some g => .found since g
    | none => if s.settings.shareGuests then .noneAvailable else .noGuest
  | .noneAvailable =>
    match s.getAnyGuest with
    | some g => .found since g
    | none => .noGuest
  | p => p

/-- One phase of `producer_loop`, and the next one. -/
def producePhase (env : ProducerEnv) (s : PoolService) : ProducerPc → PoolService × ProducerPc
  | .idle =>
    ({ s with loopNextCall := s.loopNextCall.map fun _ => .called },
      if 1 < s.existingPoolSize then .marking else .checking)
  | .marking => (s.markTimedOut env s.settings.vmUnusedTimeout, .destroying)
  | .destroying => (s.destroyTimedOut env, .checking)
  | .checking => (s.checkHealth env, .removing)
  | .removing => (s.removeDestroyed, .creating)
  | .creating =>
    match s.createGuests env with
    | (t, none) => (t, .booting)
    | (t, some _) => (t, .stopped)
  | .booting => ({ s.markAvailable env with loopNextCall := some .pending }, .idle)
  | .stopped => (s, .stopped)

/-- The step of a call (`pool_service.py:429-454`). -/
def advance (s : Conc) (c : Call) (env : StopEnv) : Conc :=
  match c.progress with
  | .chose guest id saw _ => { s with
      pool := s.pool.commitRequest guest c.ip
      leases := s.leases ++ [⟨c.ip, guest, id⟩]
      calls := s.calls.erase c
      commits := s.commits ++ [⟨c.ip, guest, saw⟩] }
  | .noGuest => { s with
      pool := if s.pool.anyVmUp then (s.pool.stopPool env).1 else s.pool
      calls := s.calls.erase c }
  | p => { s with
      calls := s.calls.erase c ++ [⟨c.ip, p.next s.pool c.ip s.commits.length⟩] }

def move (s : Conc) : Move → Option Conc
  | .call ip => some { s with calls := s.calls ++ [⟨ip, .start⟩] }
  | .advance c env => if c ∈ s.calls then some (advance s c env) else none
  | .free l now =>
    if l ∈ s.leases then
      some { s with pool := s.pool.freeVm now l.id, leases := s.leases.erase l }
    else none
  | .reuse l =>
    if l ∈ s.leases then
      some { s with pool := s.pool.reuseVm l.id, leases := s.leases.erase l }
    else none
  | .produce env => some { s with
      pool := (producePhase env s.pool s.producer).1
      producer := (producePhase env s.pool s.producer).2 }

/-- An empty pool, before the first iteration of the producer. -/
def Conc.start (settings : Settings) : Conc := ⟨PoolService.start settings, [], [], .idle, []⟩

/-! ## Without interleaving -/

/-- The state of a pool in which nothing is under way. -/
def Conc.atRest (s : Sys) (commits : List Commit) : Conc := ⟨s.pool, s.leases, [], .idle, commits⟩

/-- A call of `request_vm` that is alone under way can end with the pool and requests of `t`. -/
def Finishes (s : Sys) (commits : List Commit) (ip : Ip) (p : Progress) (t : Sys) : Prop :=
  ∃ moves commits', run move ⟨s.pool, s.leases, [⟨ip, p⟩], .idle, commits⟩ moves =
    some (.atRest t commits')

theorem move_advance {s : Conc} {c : Call} {env : StopEnv} (h : s.calls = [c]) :
    move s (.advance c env) = some (advance s c env) := by
  simp only [move, h, List.mem_singleton, if_true]

variable {s t : Sys} {commits : List Commit} {ip : Ip}

/-- A call with a helper still to come. -/
theorem finishes_helper (env : StopEnv) {p q : Progress}
    (hp : p = .start ∨ p = .notByIp ∨ p = .noneAvailable)
    (hq : p.next s.pool ip commits.length = q) (h : Finishes s commits ip q t) :
    Finishes s commits ip p t := by
  obtain ⟨moves, commits', hrun⟩ := h
  refine ⟨.advance ⟨ip, p⟩ env :: moves, commits', run_cons.mpr ⟨_, move_advance rfl, ?_⟩⟩
  rcases hp with rfl | rfl | rfl
  all_goals
    simp only [advance, List.erase_cons_head, List.nil_append, hq]
    exact hrun

/-- A call whose helper found a guest commits. -/
theorem finishes_found (env : StopEnv) (g : Guest) (n : Nat) :
    Finishes s commits ip (.found n g)
      ⟨s.pool.commitRequest g.ref ip, s.leases ++ [⟨ip, g.ref, g.id⟩]⟩ := by
  refine ⟨[.advance ⟨ip, .found n g⟩ env], commits ++ [⟨ip, g.ref, g.state⟩],
    run_cons.mpr ⟨_, move_advance rfl, ?_⟩⟩
  simp [advance, Progress.found, Conc.atRest]

/-- A call that found no guest ends. -/
theorem finishes_noGuest (env : StopEnv) :
    Finishes s commits ip .noGuest
      ⟨if s.pool.anyVmUp then (s.pool.stopPool env).1 else s.pool, s.leases⟩ := by
  refine ⟨[.advance ⟨ip, .noGuest⟩ env], commits, run_cons.mpr ⟨_, move_advance rfl, ?_⟩⟩
  simp [advance, Conc.atRest]

/-- **A call that nothing comes between is `requestVm`.** -/
theorem exec_request {env : StopEnv} (commits : List Commit)
    (h : step s (.request ip env) = some t) :
    ∃ moves commits', run move (.atRest s commits) (.call ip :: moves) =
      some (.atRest t commits') := by
  suffices hfin : Finishes s commits ip .start t by
    obtain ⟨moves, commits', hrun⟩ := hfin
    exact ⟨moves, commits', run_cons.mpr ⟨_, rfl, hrun⟩⟩
  obtain rfl := Option.some.inj h
  rw [requestVm_pool]
  unfold PoolService.chooseGuest
  cases hip : s.pool.getGuestIp ip with
  | some g =>
    exact finishes_helper env (Or.inl rfl) (by simp only [Progress.next, hip])
      (finishes_found env g commits.length)
  | none =>
    refine finishes_helper env (Or.inl rfl) (q := .notByIp) (by simp only [Progress.next, hip]) ?_
    cases hav : s.pool.getAvailableGuest with
    | some g =>
      exact finishes_helper env (Or.inr (Or.inl rfl)) (by simp only [Progress.next, hav])
        (finishes_found env g commits.length)
    | none =>
      cases hshare : s.pool.settings.shareGuests with
      | false =>
        exact finishes_helper env (Or.inr (Or.inl rfl)) (by simp [Progress.next, hav, hshare])
          (finishes_noGuest env)
      | true =>
        refine finishes_helper env (Or.inr (Or.inl rfl)) (q := .noneAvailable)
          (by simp [Progress.next, hav, hshare]) ?_
        cases hany : s.pool.getAnyGuest with
        | some g =>
          exact finishes_helper env (Or.inr (Or.inr rfl)) (by simp only [Progress.next, hany])
            (finishes_found env g commits.length)
        | none =>
          exact finishes_helper env (Or.inr (Or.inr rfl)) (by simp only [Progress.next, hany])
            (finishes_noGuest env)

/-- The last phases of an iteration. -/
theorem exec_creating {s : Conc} {env : ProducerEnv} (hpc : s.producer = .creating)
    (h : (s.pool.createGuests env).2 = none) :
    run move s [.produce env, .produce env] = some { s with
      pool := { (s.pool.createGuests env).1.markAvailable env with loopNextCall := some .pending }
      producer := .idle } := by
  cases hc : s.pool.createGuests env with
  | mk u r =>
    rw [hc] at h
    obtain rfl : r = none := h
    have hphase : producePhase env s.pool .creating = (u, .booting) := by
      simp only [producePhase, hc]
    have hfirst : move s (.produce env) = some { s with pool := u, producer := .booting } := by
      simp only [move, hpc, hphase]
    exact run_cons.mpr ⟨_, hfirst, rfl⟩

/-- **An iteration that nothing comes between is `producerLoop`.** -/
theorem exec_producer {env : ProducerEnv} (commits : List Commit)
    (hok : (s.pool.producerLoop env).2 = none) (h : step s (.producer env) = some t) :
    ∃ n, run move (.atRest s commits) (List.replicate n (.produce env)) =
      some (.atRest t commits) := by
  obtain rfl := Option.some.inj h
  have hcreate : (((s.pool.producerReap env).createGuests env).2) = none := by
    unfold PoolService.producerLoop at hok
    cases hc : (s.pool.producerReap env).createGuests env with
    | mk u r =>
      rw [hc] at hok
      cases r with
      | none => rfl
      | some e => cases hok
  have hloop : (s.pool.producerLoop env).1 =
      { ((s.pool.producerReap env).createGuests env).1.markAvailable env with
        loopNextCall := some .pending } := by
    unfold PoolService.producerLoop
    cases hc : (s.pool.producerReap env).createGuests env with
    | mk u r =>
      rw [hc] at hcreate
      obtain rfl : r = none := hcreate
      rfl
  -- the phases up to the creation loop depend on the size of the pool
  have hreap : ∃ n, run move (.atRest s commits) (List.replicate n (.produce env)) =
      some { Conc.atRest s commits with
        pool := s.pool.producerReap env, producer := .creating } := by
    unfold PoolService.producerReap
    have hidle : move (.atRest s commits) (.produce env) = some { Conc.atRest s commits with
        pool := { s.pool with loopNextCall := s.pool.loopNextCall.map fun _ => .called }
        producer := if 1 < s.pool.existingPoolSize then .marking else .checking } := rfl
    have hsame : ({ s.pool with loopNextCall := s.pool.loopNextCall.map fun _ => .called } :
        PoolService).existingPoolSize = s.pool.existingPoolSize := rfl
    simp only [hsame]
    by_cases hsize : 1 < s.pool.existingPoolSize
    · rw [if_pos hsize] at hidle
      rw [if_pos hsize]
      exact ⟨5, run_cons.mpr ⟨_, hidle, rfl⟩⟩
    · rw [if_neg hsize] at hidle
      rw [if_neg hsize]
      exact ⟨3, run_cons.mpr ⟨_, hidle, rfl⟩⟩
  obtain ⟨n, hn⟩ := hreap
  refine ⟨n + 2, ?_⟩
  rw [List.replicate_add, run_append]
  refine ⟨_, hn, ?_⟩
  rw [hloop]
  exact exec_creating rfl hcreate

end Cowrie.Pool
