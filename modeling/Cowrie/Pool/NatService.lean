import Cowrie.Lib.Dict
import Cowrie.Lib.Run
import Cowrie.Pool.Service

/-!
# NAT bindings (`src/backend_pool/nat.py:84-154`)

`NATService` opens two listening ports for a guest when it is first requested, counts the requests
on them, and stops them when the count is back at zero.

* A port is `Listener`: the number the reactor chose and, as ghost state, the guest it was opened
  for. `listening` are the ports the reactor has open. `Binding.sshPort` is `_realPortNumber`,
  which becomes `None` when the port is closed; stopping a closed port does nothing.
* `listenTCP` on port 0 finds a free port: the numbers are arguments.
* The relay behind a port (`ServerProtocol`, `ClientProtocol`) is not part of the service.

`NatEvent` is a call of the service or the closing of a port from outside. A request belongs to the
generation of bindings between two calls of `free_all`.

* `kept_step`: bindings count the requests of their generation, a binding exists exactly while
  its count is positive, and the open ports are those of the bindings.
* `cond_of_balanced`: two kinds of calls break it. A request for a guest whose binding has a closed
  port makes a new binding with a count of one (`nat.py:113-137`), although it has other requests;
  and the release of a request made before `free_all` lowers the count of a binding made since.
-/

namespace Cowrie.Pool

open Cowrie.Lib

/-- An open port, with the guest it was opened for. -/
structure Listener where
  port : Nat
  guest : Nat
  deriving DecidableEq, Repr

structure NATService where
  bindings : List (Nat × Binding)
  listening : List Listener
  deriving DecidableEq

/-- The open ports of a binding. -/
def Binding.listeners (guestId : Nat) (b : Binding) : List Listener :=
  (b.sshPort.toList ++ b.telnetPort.toList).map fun p => ⟨p, guestId⟩

namespace NATService

/-- `stopListening`. -/
def stopListening (guestId : Nat) (port : Option Nat) (listening : List Listener) : List Listener :=
  match port with
  | some p => listening.erase ⟨p, guestId⟩
  | none => listening

/-- Both ports of a binding are stopped. -/
def stopBinding (guestId : Nat) (b : Binding) (listening : List Listener) : List Listener :=
  stopListening guestId b.telnetPort (stopListening guestId b.sshPort listening)

/-- The two `listenTCP` calls and the new binding (`nat.py:129-137`). -/
def create (guestId : Nat) (ports : Nat × Nat) (s : NATService) : NATService × (Nat × Nat) :=
  ({ bindings := dictSet s.bindings guestId ⟨1, some ports.1, some ports.2⟩
     listening := s.listening ++ [⟨ports.1, guestId⟩, ⟨ports.2, guestId⟩] }, ports)

/-- `request_binding`; `ports` are the numbers the reactor has for new ports. -/
def requestBinding (guestId : Nat) (ports : Nat × Nat) (s : NATService) :
    NATService × (Nat × Nat) :=
  match s.bindings.lookup guestId with
  | some b =>
    match b.sshPort, b.telnetPort with
    | some p, some q =>
      ({ s with bindings := dictSet s.bindings guestId { b with connected := b.connected + 1 } },
        (p, q))
    | _, _ =>
      -- one of the ports is closed: stop the other, and recreate the binding
      create guestId ports
        { bindings := dictDel s.bindings guestId
          listening := stopBinding guestId b s.listening }
  | none => create guestId ports s

/-- `free_binding`; `none` is a `KeyError`. -/
def freeBinding (guestId : Nat) (s : NATService) : Option NATService :=
  match s.bindings.lookup guestId with
  | some b =>
    if b.connected - 1 ≤ 0 then
      some { bindings := dictDel s.bindings guestId
             listening := stopBinding guestId b s.listening }
    else
      some { s with bindings := dictSet s.bindings guestId { b with connected := b.connected - 1 } }
  | none => none

/-- `free_all`. -/
def freeAll (s : NATService) : NATService where
  bindings := []
  listening := s.bindings.foldl (fun ls e => stopBinding e.1 e.2 ls) s.listening

/-- The ssh port of a binding, or its telnet port, is closed from outside. -/
def closePort (guestId : Nat) (ssh : Bool) (s : NATService) : NATService :=
  match s.bindings.lookup guestId with
  | some b =>
    { bindings := dictSet s.bindings guestId
        (if ssh then { b with sshPort := none } else { b with telnetPort := none })
      listening := stopListening guestId (if ssh then b.sshPort else b.telnetPort) s.listening }
  | none => s

/-- The clients a binding counts. -/
def count (s : NATService) (guestId : Nat) : Int :=
  match s.bindings.lookup guestId with
  | some b => b.connected
  | none => 0

end NATService

/-! ## Runs of the service -/

/-- A request that was not released yet, with its generation. -/
@[ext] structure Bound where
  guestId : Nat
  generation : Nat
  deriving DecidableEq, Repr

structure NatSys where
  nat : NATService
  outstanding : List Bound
  generation : Nat
  deriving DecidableEq

inductive NatEvent
  | request (guestId : Nat) (ports : Nat × Nat)
  | free (request : Bound)
  | freeAll
  | close (guestId : Nat) (ssh : Bool)
  deriving DecidableEq

/-- The step an event takes; a release needs an outstanding request, and a `KeyError` changes
nothing. -/
def natStep (s : NatSys) : NatEvent → Option NatSys
  | .request guestId ports => some { s with
      nat := (s.nat.requestBinding guestId ports).1
      outstanding := s.outstanding ++ [⟨guestId, s.generation⟩] }
  | .free r =>
    if r ∈ s.outstanding then
      some { s with
        nat := (s.nat.freeBinding r.guestId).getD s.nat
        outstanding := s.outstanding.erase r }
    else none
  | .freeAll => some { s with nat := s.nat.freeAll, generation := s.generation + 1 }
  | .close guestId ssh => some { s with nat := s.nat.closePort guestId ssh }

def NatSys.start : NatSys := ⟨⟨[], []⟩, [], 0⟩

/-- The outstanding requests on a guest since the last `free_all`. -/
def NatSys.requests (s : NatSys) (guestId : Nat) : Nat := s.outstanding.count ⟨guestId, s.generation⟩

/-- The count of every binding is that of the requests since `free_all`; there is a binding exactly
while it is positive; and the open ports are those of the bindings. -/
structure Balanced (s : NatSys) : Prop where
  count : ∀ guestId, s.nat.count guestId = s.requests guestId
  bound : ∀ guestId, (s.nat.bindings.lookup guestId).isSome ↔ 0 < s.nat.count guestId
  listening : s.nat.listening.Perm (s.nat.bindings.flatMap fun e => e.2.listeners e.1)

/-- A request finds both ports of the binding open, if there is one, and a release from before
`free_all` finds no binding. -/
def Regular (s : NatSys) : NatEvent → Prop
  | .request guestId _ => ∀ b, s.nat.bindings.lookup guestId = some b →
      b.sshPort.isSome ∧ b.telnetPort.isSome
  | .free r => r.generation ≠ s.generation → s.nat.bindings.lookup r.guestId = none
  | _ => True

instance (s : NatSys) : ∀ e : NatEvent, Decidable (Regular s e)
  | .request _ _ => optionDecidable _
  | .free _ => inferInstanceAs (Decidable (_ → _))
  | .freeAll => isTrue trivial
  | .close _ _ => isTrue trivial

/-! ## The steps -/

open NATService

theorem count_of_lookup {s : NATService} {guestId : Nat} {b : Binding}
    (h : s.bindings.lookup guestId = some b) : s.count guestId = b.connected := by
  unfold count
  rw [h]

theorem count_of_none {s : NATService} {guestId : Nat}
    (h : s.bindings.lookup guestId = none) : s.count guestId = 0 := by
  unfold count
  rw [h]

/-- The count after a binding is written. -/
theorem count_dictSet (s : NATService) (ls : List Listener) (guestId j : Nat) (b : Binding) :
    count ⟨dictSet s.bindings guestId b, ls⟩ j = if j = guestId then b.connected else s.count j := by
  unfold count
  rw [lookup_dictSet]
  by_cases h : j = guestId
  · simp only [if_pos h]
  · simp only [if_neg h]

/-- The count after a binding is deleted. -/
theorem count_dictDel (s : NATService) (ls : List Listener) (guestId j : Nat) :
    count ⟨dictDel s.bindings guestId, ls⟩ j = if j = guestId then 0 else s.count j := by
  unfold count
  rw [lookup_dictDel]
  by_cases h : j = guestId
  · simp only [if_pos h]
  · simp only [if_neg h]

theorem count_create (s : NATService) (guestId j : Nat) (ports : Nat × Nat) :
    count (create guestId ports s).1 j = if j = guestId then 1 else s.count j :=
  count_dictSet s _ guestId j _

/-- Stopping both ports of a binding takes them off the open ports. -/
theorem stopBinding_perm {guestId : Nat} {b : Binding} {ls rest : List Listener}
    (h : ls.Perm (b.listeners guestId ++ rest)) : (stopBinding guestId b ls).Perm rest := by
  obtain ⟨c, p, q⟩ := b
  have hone : ∀ {o : Option Nat} {l r : List Listener},
      l.Perm ((o.toList.map fun x => (⟨x, guestId⟩ : Listener)) ++ r) →
      (stopListening guestId o l).Perm r := by
    intro o l r hl
    cases o with
    | none => exact hl
    | some x =>
      have := hl.erase ⟨x, guestId⟩
      simpa [stopListening] using this
  unfold Binding.listeners at h
  rw [List.map_append, List.append_assoc] at h
  exact hone (hone h)

/-! ## Every step -/

/-- A balanced service whose bindings are keyed by distinct guests. -/
structure Kept (s : NatSys) : Prop where
  balanced : Balanced s
  keys : (s.nat.bindings.map Prod.fst).Nodup
  past : ∀ r ∈ s.outstanding, r.generation ≤ s.generation

/-- The open ports are those of one binding and of the others. -/
theorem Kept.split {s : NatSys} (hs : Kept s) {guestId : Nat} {b : Binding}
    (h : s.nat.bindings.lookup guestId = some b) :
    s.nat.listening.Perm (b.listeners guestId ++
      (dictDel s.nat.bindings guestId).flatMap fun e => e.2.listeners e.1) :=
  hs.balanced.listening.trans ((perm_dictDel hs.keys h).flatMap_right _)

theorem requests_append (s : NatSys) (guestId j : Nat) (nat : NATService) :
    NatSys.requests { s with nat := nat, outstanding := s.outstanding ++ [⟨guestId, s.generation⟩] } j =
      s.requests j + if j = guestId then 1 else 0 := by
  unfold NatSys.requests
  rw [List.count_append, List.count_singleton]
  by_cases h : j = guestId
  · subst h
    simp
  · simp [h, Ne.symm h]

theorem requests_erase {s : NatSys} {r : Bound} (hr : r ∈ s.outstanding) (j : Nat)
    (nat : NATService) :
    NatSys.requests { s with nat := nat, outstanding := s.outstanding.erase r } j +
      (if r = ⟨j, s.generation⟩ then 1 else 0) = s.requests j := by
  unfold NatSys.requests
  rw [List.count_erase]
  by_cases h : r = ⟨j, s.generation⟩
  · subst h
    have := List.count_pos_iff.mpr hr
    simp only [beq_self_eq_true, if_true]
    omega
  · rw [if_neg h, beq_false_of_ne h]
    simp

theorem Kept.past_append {s : NatSys} (hs : Kept s) (guestId : Nat) :
    ∀ r ∈ s.outstanding ++ [(⟨guestId, s.generation⟩ : Bound)], r.generation ≤ s.generation := by
  intro r hr
  rcases List.mem_append.mp hr with hr | hr
  · exact hs.past r hr
  · rw [List.mem_singleton.mp hr]

/-- A request, when it makes a new binding. -/
theorem Kept.create {s : NatSys} (hs : Kept s) {guestId : Nat} (ports : Nat × Nat)
    (h : s.nat.bindings.lookup guestId = none) :
    Kept { s with
      nat := (NATService.create guestId ports s.nat).1
      outstanding := s.outstanding ++ [⟨guestId, s.generation⟩] } := by
  refine ⟨⟨fun j => ?_, fun j => ?_, ?_⟩, keys_dictSet hs.keys _ _, hs.past_append guestId⟩
  · rw [requests_append, count_create]
    by_cases hj : j = guestId
    · subst hj
      have h0 := hs.balanced.count j
      rw [count_of_none h] at h0
      rw [if_pos rfl, if_pos rfl]
      omega
    · rw [if_neg hj, if_neg hj, hs.balanced.count j]
      rfl
  · simp only [NATService.create, lookup_dictSet, count_dictSet]
    by_cases hj : j = guestId
    · simp [if_pos hj]
    · rw [if_neg hj, if_neg hj]
      exact hs.balanced.bound j
  · simp only [NATService.create, dictSet, dictDel_of_lookup_none h, List.flatMap_cons]
    exact (hs.balanced.listening.append_right _).trans List.perm_append_comm

/-- A write to an existing binding that keeps its ports. -/
theorem Kept.recount {s t : NatSys} (hs : Kept s) {guestId : Nat} {b : Binding} {n : Int}
    (h : s.nat.bindings.lookup guestId = some b) (hn : 0 < n)
    (hnat : t.nat = { s.nat with bindings := dictSet s.nat.bindings guestId { b with connected := n } })
    (hreq : ∀ j, (t.requests j : Int) = if j = guestId then n else s.requests j)
    (hpast : ∀ r ∈ t.outstanding, r.generation ≤ t.generation) : Kept t := by
  refine ⟨⟨fun j => ?_, fun j => ?_, ?_⟩, ?_, hpast⟩
  · rw [hnat, hreq j, count_dictSet, hs.balanced.count j]
  · rw [hnat]
    simp only [lookup_dictSet, count_dictSet]
    by_cases hj : j = guestId
    · simp [if_pos hj, hn]
    · rw [if_neg hj, if_neg hj]
      exact hs.balanced.bound j
  · rw [hnat]
    exact hs.split (b := b) h
  · rw [hnat]
    exact keys_dictSet hs.keys _ _

/-- The last release of a binding. -/
theorem Kept.delete {s t : NatSys} (hs : Kept s) {guestId : Nat} {b : Binding}
    (h : s.nat.bindings.lookup guestId = some b)
    (hnat : t.nat = { bindings := dictDel s.nat.bindings guestId
                      listening := stopBinding guestId b s.nat.listening })
    (hreq : ∀ j, t.requests j = if j = guestId then 0 else s.requests j)
    (hpast : ∀ r ∈ t.outstanding, r.generation ≤ t.generation) : Kept t := by
  refine ⟨⟨fun j => ?_, fun j => ?_, ?_⟩, ?_, hpast⟩
  · rw [hnat, hreq j, count_dictDel, hs.balanced.count j]
    split <;> rfl
  · rw [hnat]
    simp only [lookup_dictDel, count_dictDel]
    by_cases hj : j = guestId
    · simp [if_pos hj]
    · rw [if_neg hj, if_neg hj]
      exact hs.balanced.bound j
  · rw [hnat]
    exact stopBinding_perm (hs.split h)
  · rw [hnat]
    exact keys_dictDel hs.keys _

/-- `free_all` stops every port. -/
theorem freeAll_listening {bindings : List (Nat × Binding)} {ls rest : List Listener}
    (h : ls.Perm (bindings.flatMap (fun e => e.2.listeners e.1) ++ rest)) :
    (bindings.foldl (fun ls e => stopBinding e.1 e.2 ls) ls).Perm rest := by
  induction bindings generalizing ls with
  | nil => exact h
  | cons e bindings ih =>
    rw [List.flatMap_cons, List.append_assoc] at h
    exact ih (stopBinding_perm h)

/-- Closing a port of a binding takes it off the open ports. -/
theorem closed_listeners (guestId : Nat) (ssh : Bool) (b : Binding) (ls rest : List Listener)
    (h : ls.Perm (b.listeners guestId ++ rest)) :
    (stopListening guestId (if ssh then b.sshPort else b.telnetPort) ls).Perm
      ((if ssh then { b with sshPort := none } else { b with telnetPort := none } : Binding).listeners
        guestId ++ rest) := by
  obtain ⟨c, p, q⟩ := b
  unfold Binding.listeners at h ⊢
  cases ssh with
  | true =>
    cases p with
    | none => simpa [stopListening] using h
    | some x => simpa [stopListening] using h.erase ⟨x, guestId⟩
  | false =>
    cases q with
    | none => simpa [stopListening] using h
    | some x =>
      have hswap : ls.Perm (⟨x, guestId⟩ :: (p.toList.map fun y => (⟨y, guestId⟩ : Listener)) ++ rest) := by
        refine h.trans ?_
        simp only [Option.toList_some, List.map_append, List.map_cons, List.map_nil,
          List.append_assoc, List.cons_append, List.nil_append]
        exact List.perm_middle
      simpa [stopListening] using hswap.erase ⟨x, guestId⟩

/-- A request. -/
theorem Kept.request {s : NatSys} (hs : Kept s) {guestId : Nat} (ports : Nat × Nat)
    (hcond : Regular s (.request guestId ports)) :
    Kept { s with
      nat := (s.nat.requestBinding guestId ports).1
      outstanding := s.outstanding ++ [⟨guestId, s.generation⟩] } := by
  cases hb : s.nat.bindings.lookup guestId with
  | none =>
    have hreq : s.nat.requestBinding guestId ports = NATService.create guestId ports s.nat := by
      unfold requestBinding
      rw [hb]
    rw [hreq]
    exact hs.create ports hb
  | some b =>
    obtain ⟨hssh, htelnet⟩ := hcond b hb
    obtain ⟨p, hp⟩ := Option.isSome_iff_exists.mp hssh
    obtain ⟨q, hq⟩ := Option.isSome_iff_exists.mp htelnet
    have hcount := hs.balanced.count guestId
    have hpos := (hs.balanced.bound guestId).mp (by rw [hb]; rfl)
    rw [count_of_lookup hb] at hcount hpos
    refine hs.recount (n := b.connected + 1) hb (by omega) ?_ (fun j => ?_) (hs.past_append guestId)
    · unfold requestBinding
      simp only [hb, hp, hq]
    · rw [requests_append]
      by_cases hj : j = guestId
      · rw [if_pos hj, if_pos hj, hj]
        push_cast
        omega
      · rw [if_neg hj, if_neg hj]
        rfl

/-- The release of a request. -/
theorem Kept.free {s : NatSys} (hs : Kept s) {r : Bound} (hr : r ∈ s.outstanding) (hcond : Regular s (.free r)) :
    Kept { s with
      nat := (s.nat.freeBinding r.guestId).getD s.nat
      outstanding := s.outstanding.erase r } := by
  have hpast : ∀ x ∈ s.outstanding.erase r, x.generation ≤ s.generation := fun x hx =>
    hs.past x (List.mem_of_mem_erase hx)
  have herase := fun j => requests_erase hr j ((s.nat.freeBinding r.guestId).getD s.nat)
  cases hb : s.nat.bindings.lookup r.guestId with
  | none =>
    -- a release from before `free_all`: it counts for no binding
    have hold : r.generation ≠ s.generation := by
      intro hgen
      have hcount := hs.balanced.count r.guestId
      rw [count_of_none hb] at hcount
      have hpos : 0 < s.requests r.guestId :=
        List.count_pos_iff.mpr (by rw [← hgen]; exact hr)
      omega
    have hsame : ∀ j, NatSys.requests { s with
        nat := (s.nat.freeBinding r.guestId).getD s.nat
        outstanding := s.outstanding.erase r } j = s.requests j := fun j => by
      have := herase j
      rw [if_neg fun he => hold (by rw [he])] at this
      omega
    have hnat : (s.nat.freeBinding r.guestId).getD s.nat = s.nat := by
      unfold freeBinding
      rw [hb]
      rfl
    rw [hnat] at hsame ⊢
    exact ⟨⟨fun j => by rw [hsame j]; exact hs.balanced.count j, hs.balanced.bound,
      hs.balanced.listening⟩, hs.keys, hpast⟩
  | some b =>
    have hgen : r.generation = s.generation := by
      by_contra hne
      rw [hcond hne] at hb
      cases hb
    have hreq : ∀ j, NatSys.requests { s with
        nat := (s.nat.freeBinding r.guestId).getD s.nat
        outstanding := s.outstanding.erase r } j + (if j = r.guestId then 1 else 0) =
          s.requests j := fun j => by
      rw [← herase j]
      congr 1
      refine if_congr ?_ rfl rfl
      rw [Bound.ext_iff, hgen]
      exact ⟨fun h => ⟨h.symm, rfl⟩, fun h => h.1.symm⟩
    have hcount := hs.balanced.count r.guestId
    rw [count_of_lookup hb] at hcount
    by_cases hlast : b.connected - 1 ≤ 0
    · refine hs.delete hb ?_ (fun j => ?_) hpast
      · unfold freeBinding
        simp only [hb, if_pos hlast, Option.getD_some]
      · have := hreq j
        by_cases hj : j = r.guestId
        · rw [if_pos hj] at this ⊢
          rw [hj] at this ⊢
          omega
        · rw [if_neg hj] at this ⊢
          omega
    · refine hs.recount (n := b.connected - 1) hb (by omega) ?_ (fun j => ?_) hpast
      · unfold freeBinding
        simp only [hb, if_neg hlast, Option.getD_some]
      · have := hreq j
        by_cases hj : j = r.guestId
        · rw [if_pos hj] at this ⊢
          rw [hj] at this ⊢
          omega
        · rw [if_neg hj] at this ⊢
          omega

theorem Kept.freeAll {s : NatSys} (hs : Kept s) :
    Kept { s with nat := s.nat.freeAll, generation := s.generation + 1 } := by
  have hnone : ∀ j, NatSys.requests { s with
      nat := s.nat.freeAll, generation := s.generation + 1 } j = 0 := fun j => by
    refine List.count_eq_zero.mpr fun hmem => ?_
    have := hs.past _ hmem
    simp only at this
    omega
  refine ⟨⟨fun j => ?_, fun j => ?_, ?_⟩, List.nodup_nil, fun r hr => ?_⟩
  · rw [hnone j]
    rfl
  · simp [NATService.freeAll, count]
  · exact freeAll_listening (hs.balanced.listening.trans (by simp [NATService.freeAll]))
  · exact (hs.past r hr).trans (Nat.le_succ _)

/-- A port is closed from outside. -/
theorem Kept.close {s : NatSys} (hs : Kept s) (guestId : Nat) (ssh : Bool) :
    Kept { s with nat := s.nat.closePort guestId ssh } := by
  cases hb : s.nat.bindings.lookup guestId with
  | none =>
    have hnat : s.nat.closePort guestId ssh = s.nat := by
      unfold closePort
      rw [hb]
    rw [hnat]
    exact hs
  | some b =>
    have hnat : s.nat.closePort guestId ssh =
        { bindings := dictSet s.nat.bindings guestId
            (if ssh then { b with sshPort := none } else { b with telnetPort := none })
          listening := stopListening guestId (if ssh then b.sshPort else b.telnetPort)
            s.nat.listening } := by
      unfold closePort
      rw [hb]
    have hconn : (if ssh then { b with sshPort := none } else { b with telnetPort := none } :
        Binding).connected = b.connected := by split <;> rfl
    rw [hnat]
    refine ⟨⟨fun j => ?_, fun j => ?_, ?_⟩, keys_dictSet hs.keys _ _, hs.past⟩
    · rw [count_dictSet, hconn]
      by_cases hj : j = guestId
      · rw [if_pos hj, hj, ← count_of_lookup hb]
        exact hs.balanced.count guestId
      · rw [if_neg hj]
        exact hs.balanced.count j
    · simp only [lookup_dictSet, count_dictSet, hconn]
      by_cases hj : j = guestId
      · have := (hs.balanced.bound guestId).mp (by rw [hb]; rfl)
        rw [count_of_lookup hb] at this
        simp [if_pos hj, this]
      · rw [if_neg hj, if_neg hj]
        exact hs.balanced.bound j
    · exact closed_listeners guestId ssh b _ _ (hs.split hb)

theorem kept_step (s : NatSys) (e : NatEvent) (t : NatSys) (hs : Kept s) (hcond : Regular s e)
    (h : natStep s e = some t) : Kept t := by
  cases e with
  | request guestId ports =>
    obtain rfl := Option.some.inj h
    exact hs.request ports hcond
  | free r =>
    simp only [natStep] at h
    split_ifs at h with hr
    obtain rfl := Option.some.inj h
    exact hs.free hr hcond
  | freeAll =>
    obtain rfl := Option.some.inj h
    exact hs.freeAll
  | close guestId ssh =>
    obtain rfl := Option.some.inj h
    exact hs.close guestId ssh

/-- A closed port makes `request_binding` start a new binding. -/
theorem requestBinding_closed {s : NATService} {guestId : Nat} {ports : Nat × Nat} {b : Binding}
    (hb : s.bindings.lookup guestId = some b) (h : ¬ (b.sshPort.isSome ∧ b.telnetPort.isSome)) :
    s.requestBinding guestId ports = create guestId ports
      { bindings := dictDel s.bindings guestId, listening := stopBinding guestId b s.listening } := by
  unfold requestBinding
  rw [hb]
  obtain ⟨c, p, q⟩ := b
  cases p with
  | none => rfl
  | some p =>
    cases q with
    | none => rfl
    | some q => exact absurd ⟨rfl, rfl⟩ h

/-- A call after which the service is balanced was a regular one. -/
theorem cond_of_balanced (s : NatSys) (e : NatEvent) (t : NatSys) (hs : Kept s)
    (h : natStep s e = some t) (ht : Balanced t) : Regular s e := by
  have hpos : ∀ {guestId b}, s.nat.bindings.lookup guestId = some b →
      0 < b.connected ∧ b.connected = s.requests guestId := by
    intro guestId b hb
    rw [← count_of_lookup hb]
    exact ⟨(hs.balanced.bound guestId).mp (by rw [hb]; rfl), hs.balanced.count guestId⟩
  cases e with
  | freeAll => trivial
  | close guestId ssh => trivial
  | request guestId ports =>
    obtain rfl := Option.some.inj h
    intro b hb
    by_contra hopen
    obtain ⟨h0, hreq⟩ := hpos hb
    have hcount := ht.count guestId
    rw [requests_append, if_pos rfl, requestBinding_closed hb hopen] at hcount
    simp only [count_create, if_true] at hcount
    push_cast at hcount
    omega
  | free r =>
    simp only [natStep] at h
    split at h
    · rename_i hr
      obtain rfl := Option.some.inj h
      intro hgen
      cases hb : s.nat.bindings.lookup r.guestId with
      | none => rfl
      | some b =>
        exfalso
        obtain ⟨h0, hreq⟩ := hpos hb
        have hcount := ht.count r.guestId
        have herase := requests_erase hr r.guestId ((s.nat.freeBinding r.guestId).getD s.nat)
        rw [if_neg fun he => hgen (congrArg Bound.generation he), add_zero] at herase
        rw [herase] at hcount
        unfold freeBinding at hcount
        simp only [hb] at hcount
        by_cases hlast : b.connected - 1 ≤ 0
        · simp only [if_pos hlast, Option.getD_some, count_dictDel, if_true] at hcount
          omega
        · simp only [if_neg hlast, Option.getD_some, count_dictSet, if_true] at hcount
          omega
    · cases h

theorem kept_start : Kept NatSys.start where
  balanced := ⟨fun _ => rfl, fun _ => by simp [NatSys.start, count], List.Perm.refl _⟩
  keys := List.nodup_nil
  past := by simp [NatSys.start]

/-- **When bindings count.** In a run of the service every state is balanced iff every call is
regular. -/
theorem balanced_iff_regular {es : List NatEvent} {u : NatSys}
    (hrun : run natStep NatSys.start es = some u) :
    StatesMeet natStep Balanced NatSys.start es ↔ StepsMeet natStep Regular NatSys.start es :=
  statesMeet_iff_of_inv kept_step (fun _ hs => hs.balanced) cond_of_balanced kept_start hrun

end Cowrie.Pool
