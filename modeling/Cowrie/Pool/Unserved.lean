import Cowrie.Pool.ServerInvariant

/-!
# Requests that cannot be served

`request_vm` (`pool_service.py:442-447`) raises `NoAvailableVMs` when it finds no guest; but if any
guest was ever available, it first calls `stop_pool`, with the log message that the pool is
restarting. Nothing starts it again: the delayed call of the producer is cancelled, the domains of
all guests are destroyed and their NAT bindings freed, while the guests stay in the list.

* **`harmless_violated`**: one client holds the only guest, another one asks for a guest, and the
  first one's domain is gone.
* **`harmless_iff`**: in every state the server can reach in which a request finds no guest, the
  request raises `NoAvailableVMs` and leaves guests, domains, NAT bindings and the delayed call as
  they are iff no guest has been available so far.
-/

namespace Cowrie.Pool

open Cowrie.Lib PoolService

/-- The request raises `NoAvailableVMs` and changes neither a guest nor a domain nor a NAT binding
nor the next call of the producer. -/
def Harmless (env : StopEnv) (ip : Ip) (s : Server) : Prop :=
  (s.requestVm env ip).2 = .error .noAvailableVMs ∧
    (s.requestVm env ip).1.pool.guests = s.pool.guests ∧
    (s.requestVm env ip).1.pool.qemu.domains = s.pool.qemu.domains ∧
    (s.requestVm env ip).1.nat = s.nat ∧
    (s.requestVm env ip).1.pool.loopNextCall = s.pool.loopNextCall

instance (env : StopEnv) (ip : Ip) (s : Server) : Decidable (Harmless env ip s) :=
  inferInstanceAs (Decidable (_ ∧ _ ∧ _ ∧ _ ∧ _))

/-! ## A client that loses its guest -/

/-- **A request does harm**: after `heldRun`, a request from another address takes the domain of
the guest away, frees its NAT binding and cancels the producer. -/
theorem harmless_violated : ∃ s, run (serverStep remoteConfig) (ServerSys.start remote) heldRun = some s ∧
    s.granted ≠ [] ∧ s.server.pool.chooseGuest "198.51.100.9" = none ∧
    ¬ Harmless cleanStop "198.51.100.9" s.server := by
  refine ⟨_, rfl, ?_⟩
  decide +kernel

/-! ## When a request does no harm -/

/-- `stop_pool` cancels the delayed call or raises. -/
theorem stopPool_called (env : StopEnv) {s : PoolService} (hnone : s.loopNextCall ≠ none)
    (hsame : (s.stopPool env).1.loopNextCall = s.loopNextCall) :
    (s.stopPool env).2 = some .alreadyCalled ∨ (s.stopPool env).2 = some .alreadyCancelled := by
  rw [stopPool_loopNextCall] at hsame
  cases hcall : s.loopNextCall with
  | none => exact absurd hcall hnone
  | some c =>
    cases c with
    | pending => simp [hcall, DelayedCall.stopped] at hsame
    | called =>
      have hc : s.cancelLoop = .error .alreadyCalled := by
        unfold cancelLoop
        rw [hcall]
      unfold stopPool
      rw [hc]
      exact Or.inl rfl
    | cancelled =>
      have hc : s.cancelLoop = .error .alreadyCancelled := by
        unfold cancelLoop
        rw [hcall]
      unfold stopPool
      rw [hc]
      exact Or.inr rfl

/-- **When a request that cannot be served does no harm.** In every reachable state in which a
request finds no guest, it is harmless iff no guest has been available so far. -/
theorem harmless_iff {config : ServerConfig} {settings : Settings} {es : List ServerEvent}
    {s : ServerSys} (hrun : run (serverStep config) (ServerSys.start settings) es = some s)
    (env : StopEnv) (ip : Ip) (hnone : s.server.pool.chooseGuest ip = none) :
    Harmless env ip s.server ↔ s.server.pool.anyVmUp = false := by
  have hsound := sound_run hrun
  constructor
  · rintro ⟨hres, -, -, -, hcall⟩
    by_contra hup
    rw [Bool.not_eq_false] at hup
    -- the request stops the pool, which the delayed call shows
    have hcalled := stopPool_called env (hsound.scheduled hup)
    cases hs : s.server.pool.stopPool env with
    | mk t r =>
      have hstop : s.server.pool.requestVm env ip = (t, .error (r.getD .noAvailableVMs)) := by
        unfold PoolService.requestVm
        rw [hnone]
        simp only [hup, if_true, hs]
        cases r <;> rfl
      unfold Server.requestVm at hres hcall
      simp only [hstop] at hres hcall
      rw [hs] at hcalled
      cases r with
      | none =>
        rcases hcalled hcall with h | h <;> cases h
      | some e =>
        rcases hcalled hcall with h | h <;>
        · obtain rfl := Option.some.inj h
          cases hres
  · intro hup
    have hsame : s.server.pool.requestVm env ip = (s.server.pool, .error .noAvailableVMs) := by
      unfold PoolService.requestVm
      rw [hnone]
      simp only [hup]
      rfl
    have hfree : Server.freesAll env ip s.server.pool = false := by
      unfold Server.freesAll
      simp [hup]
    have hreq : s.server.requestVm env ip = (s.server, .error .noAvailableVMs) := by
      unfold Server.requestVm
      rw [hsame, hfree]
      rfl
    unfold Harmless
    rw [hreq]
    exact ⟨rfl, rfl, rfl, rfl, rfl⟩

/-- A request that comes before any guest is up. -/
theorem harmless_empty : Harmless cleanStop "198.51.100.9" (ServerSys.start remote).server :=
  (@harmless_iff remoteConfig remote [] _ rfl cleanStop "198.51.100.9" (by decide +kernel)).mpr
    (by decide +kernel)

end Cowrie.Pool
