import Cowrie.Lib.Run
import Mathlib.Data.List.Perm.Basic

/-!
# Login attempts for DShield (`src/cowrie/output/dshield.py`)

`write` collects the login attempts, and a full batch is sent by a thread. `check_response` looks at the answer, and a
batch that failed comes back by `transmission_error`, which the reactor calls later. The answers come at any time and
in any order; a request that raises has no errback.

* `accepted`, `dropped` and `lost` are ghost state: the attempts that DShield has, those that `transmission_error` cut
  off, and those of requests that raised.
* **`attempts_accounted`**: every attempt is in one place, and no batch grows beyond a bound.
* **`trim_drops_newer`**: when a failed batch is too much, only attempts of that batch stay; all that have been
  collected since it was sent are dropped.

Left out: the header with the key, the log, and the parsing of the timestamp.
-/

namespace Cowrie.Dshield

open Lib

/-- An entry of `batch`. -/
structure Attempt where
  date : String
  time : String
  timezone : String
  sourceIp : String
  user : String
  password : String
  deriving DecidableEq

def Attempt.line (a : Attempt) : String :=
  a.date ++ "\t" ++ a.time ++ "\t" ++ a.timezone ++ "\t" ++ a.sourceIp ++ "\t" ++ a.user ++ "\t" ++ a.password ++ "\n"

/-- `log_output`. -/
def logOutput (batch : List Attempt) : String := String.join (batch.map Attempt.line)

/-- The answer to a request; its content is `none` if it is not UTF-8. -/
structure Response where
  ok : Bool
  content : Option String

structure Env where
  batchSize : Nat
  sha1 : String → String
  md5 : String → String
  /-- The group that `sha1_regex.search` finds. -/
  sha1Checksum : String → Option String
  md5Checksum : String → Option String

/-- `failed` at the end of `check_response`; `none` if it raises. -/
def checkResponse (env : Env) (batch : List Attempt) (resp : Response) : Option Bool :=
  resp.content.map fun response =>
    if resp.ok then
      env.sha1Checksum response ≠ some (env.sha1 (logOutput batch)) ||
        env.md5Checksum response ≠ some (env.md5 (logOutput batch))
    else true

structure Output where
  batch : List Attempt := []
  /-- The batches of the requests that are not answered. -/
  requests : List (List Attempt) := []
  /-- The scheduled calls of `transmission_error`. -/
  errors : List (List Attempt) := []
  accepted : List Attempt := []
  dropped : List Attempt := []
  lost : List Attempt := []
  deriving DecidableEq

/-- `batch[-n:]`, which is all of it for `n = 0`. -/
def fromEnd (n : Nat) (batch : List Attempt) : List Attempt := if n = 0 then batch else batch.drop (batch.length - n)

/-- `write`, for a login. -/
def write (env : Env) (a : Attempt) (o : Output) : Output :=
  let batch := o.batch ++ [a]
  if env.batchSize ≤ batch.length then { o with requests := o.requests ++ [batch], batch := [] } else { o with batch }

/-- `transmission_error`. -/
def transmissionError (env : Env) (batch : List Attempt) (o : Output) : Output :=
  let all := o.batch ++ batch
  if env.batchSize * 2 < all.length then
    { o with
      batch := fromEnd env.batchSize all
      dropped := o.dropped ++ all.take (all.length - (fromEnd env.batchSize all).length) }
  else { o with batch := all }

inductive Event where
  | login (a : Attempt)
  | answered (i : Nat) (resp : Response)
  | raised (i : Nat)
  /-- The reactor calls the first call that is scheduled. -/
  | failed

/-- What becomes of a batch that is answered. -/
def answer (env : Env) (batch : List Attempt) (resp : Response) (o : Output) : Output :=
  match checkResponse env batch resp with
  | none => { o with lost := o.lost ++ batch }
  | some true => { o with errors := o.errors ++ [batch] }
  | some false => { o with accepted := o.accepted ++ batch }

def step (env : Env) (o : Output) : Event → Option Output
  | .login a => some (write env a o)
  | .answered i resp =>
    o.requests[i]?.map fun batch => answer env batch resp { o with requests := o.requests.eraseIdx i }
  | .raised i =>
    o.requests[i]?.map fun batch => { o with requests := o.requests.eraseIdx i, lost := o.lost ++ batch }
  | .failed =>
    match o.errors with
    | [] => none
    | batch :: errors => some (transmissionError env batch { o with errors })

/-- The attempts of a run. -/
def logins : List Event → List Attempt
  | [] => []
  | .login a :: es => a :: logins es
  | _ :: es => logins es

/-! ## Every attempt is somewhere -/

/-- The attempts, wherever they are. -/
def everywhere (o : Output) : List Attempt :=
  o.batch ++ (o.requests.flatten ++ (o.errors.flatten ++ (o.accepted ++ (o.dropped ++ o.lost))))

/-- The attempt that a step adds. -/
def Event.attempts (e : Event) : List Attempt := logins [e]

theorem logins_cons (e : Event) (es : List Event) : logins (e :: es) = e.attempts ++ logins es := by
  cases e <;> rfl

theorem perm_of_request {batches : List (List Attempt)} {i : Nat} {batch : List Attempt}
    (h : batches[i]? = some batch) : batches.flatten.Perm (batch ++ (batches.eraseIdx i).flatten) := by
  obtain ⟨hi, rfl⟩ := List.getElem?_eq_some_iff.mp h
  exact (List.getElem_cons_eraseIdx_perm hi).symm.flatten

variable {env : Env} {o u : Output} {e : Event} {es : List Event}

theorem everywhere_write (a : Attempt) : (everywhere (write env a o)).Perm (everywhere o ++ [a]) := by
  unfold write everywhere
  refine List.perm_iff_count.mpr fun x => ?_
  simp only
  split_ifs <;>
    simp only [List.count_append, List.flatten_append, List.flatten_singleton, List.count_nil] <;> omega

/-- What is cut off, and what is kept. -/
theorem take_append_fromEnd (n : Nat) (batch : List Attempt) :
    batch.take (batch.length - (fromEnd n batch).length) ++ fromEnd n batch = batch := by
  unfold fromEnd
  split_ifs with h
  · simp
  · have hlength : batch.length - (batch.drop (batch.length - n)).length = batch.length - n := by
      rw [List.length_drop]
      omega
    rw [hlength, List.take_append_drop]

theorem everywhere_transmissionError (batch : List Attempt) :
    (everywhere (transmissionError env batch o)).Perm (everywhere o ++ batch) := by
  unfold transmissionError everywhere
  refine List.perm_iff_count.mpr fun x => ?_
  simp only
  split_ifs
  · have hsplit := congrArg (List.count x) (take_append_fromEnd env.batchSize (o.batch ++ batch))
    simp only [List.count_append] at hsplit ⊢
    omega
  · simp only [List.count_append]
    omega

theorem everywhere_answer (batch : List Attempt) (resp : Response) :
    (everywhere (answer env batch resp o)).Perm (everywhere o ++ batch) := by
  unfold answer everywhere
  refine List.perm_iff_count.mpr fun x => ?_
  split <;> simp only [List.count_append, List.flatten_append, List.flatten_singleton] <;> omega

theorem everywhere_erase {i : Nat} {batch : List Attempt} (h : o.requests[i]? = some batch) :
    (everywhere { o with requests := o.requests.eraseIdx i } ++ batch).Perm (everywhere o) := by
  have hperm := perm_of_request h
  refine List.perm_iff_count.mpr fun x => ?_
  have hcount := hperm.count_eq x
  unfold everywhere
  simp only [List.count_append] at hcount ⊢
  omega

/-- **A step** keeps every attempt, and adds its own. -/
theorem everywhere_step (h : step env o e = some u) : (everywhere u).Perm (everywhere o ++ e.attempts) := by
  cases e with
  | login a =>
    cases h
    exact everywhere_write a
  | answered i resp =>
    obtain ⟨batch, hbatch, rfl⟩ := Option.map_eq_some_iff.mp h
    rw [show Event.attempts (.answered i resp) = [] from rfl, List.append_nil]
    exact (everywhere_answer batch resp).trans (everywhere_erase hbatch)
  | raised i =>
    obtain ⟨batch, hbatch, rfl⟩ := Option.map_eq_some_iff.mp h
    rw [show Event.attempts (.raised i) = [] from rfl, List.append_nil]
    refine List.Perm.trans ?_ (everywhere_erase hbatch)
    refine List.perm_iff_count.mpr fun x => ?_
    unfold everywhere
    simp only [List.count_append]
    omega
  | failed =>
    rw [show Event.attempts .failed = [] from rfl, List.append_nil]
    unfold step at h
    cases herrors : o.errors with
    | nil => simp [herrors] at h
    | cons batch errors =>
      rw [herrors] at h
      cases h
      refine (everywhere_transmissionError batch).trans (List.perm_iff_count.mpr fun x => ?_)
      unfold everywhere
      simp only [herrors, List.count_append, List.flatten_cons]
      omega

theorem everywhere_run (h : run (step env) o es = some u) : (everywhere u).Perm (everywhere o ++ logins es) := by
  induction es generalizing o with
  | nil =>
    cases h
    rw [logins, List.append_nil]
  | cons e es ih =>
    obtain ⟨t, ht, hrest⟩ := run_cons.mp h
    rw [logins_cons, ← List.append_assoc]
    exact (ih hrest).trans ((everywhere_step ht).append_right _)

/-! ## The sizes of the batches -/

/-- What is collected, and what is sent or comes back. -/
structure Sized (env : Env) (o : Output) : Prop where
  batch : o.batch.length ≤ env.batchSize * 2
  sent : ∀ batch ∈ o.requests ++ o.errors, env.batchSize ≤ batch.length ∧ batch.length ≤ env.batchSize * 2 + 1

theorem sized_start : Sized env {} := ⟨Nat.zero_le _, fun _ h => absurd h List.not_mem_nil⟩

theorem length_fromEnd {n : Nat} (hn : n ≠ 0) {batch : List Attempt} (h : n ≤ batch.length) :
    (fromEnd n batch).length = n := by
  unfold fromEnd
  rw [if_neg hn, List.length_drop]
  omega

/-- A failed batch of that size or more is all that a trim keeps. -/
theorem trim_eq {n : Nat} (hn : n ≠ 0) {batch : List Attempt} (h : n ≤ batch.length) (newer : List Attempt) :
    fromEnd n (newer ++ batch) = fromEnd n batch ∧
      (newer ++ batch).take ((newer ++ batch).length - (fromEnd n (newer ++ batch)).length) =
        newer ++ batch.take (batch.length - (fromEnd n batch).length) := by
  have hkept : fromEnd n (newer ++ batch) = fromEnd n batch := by
    unfold fromEnd
    have hstart : (newer ++ batch).length - n = newer.length + (batch.length - n) := by
      rw [List.length_append]
      omega
    rw [if_neg hn, if_neg hn, hstart, List.drop_length_add_append]
  refine ⟨hkept, ?_⟩
  have hstart : (newer ++ batch).length - (fromEnd n batch).length =
      newer.length + (batch.length - (fromEnd n batch).length) := by
    rw [List.length_append, length_fromEnd hn h]
    omega
  rw [hkept, hstart, List.take_length_add_append]

theorem sized_step (hsize : env.batchSize ≠ 0) (hs : Sized env o) (h : step env o e = some u) : Sized env u := by
  obtain ⟨hbatch, hsent⟩ := hs
  obtain ⟨hrequests, herrors⟩ := List.forall_mem_append.mp hsent
  have herase : ∀ i, ∀ batch ∈ o.requests.eraseIdx i, _ :=
    fun i batch hb => hrequests batch (List.mem_of_mem_eraseIdx hb)
  cases e with
  | login a =>
    cases h
    unfold write
    simp only
    split_ifs with hfull
    · rw [List.length_append, List.length_singleton] at hfull
      refine ⟨Nat.zero_le _, List.forall_mem_append.mpr ⟨List.forall_mem_append.mpr ⟨hrequests, ?_⟩, herrors⟩⟩
      refine List.forall_mem_singleton.mpr ?_
      rw [List.length_append, List.length_singleton]
      omega
    · refine ⟨?_, hsent⟩
      simp only [List.length_append, List.length_singleton] at hfull ⊢
      omega
  | answered i resp =>
    obtain ⟨batch, hb, rfl⟩ := Option.map_eq_some_iff.mp h
    have hone := hrequests batch (List.mem_of_getElem? hb)
    unfold answer
    split
    · exact ⟨hbatch, List.forall_mem_append.mpr ⟨herase i, herrors⟩⟩
    · exact ⟨hbatch, List.forall_mem_append.mpr
        ⟨herase i, List.forall_mem_append.mpr ⟨herrors, List.forall_mem_singleton.mpr hone⟩⟩⟩
    · exact ⟨hbatch, List.forall_mem_append.mpr ⟨herase i, herrors⟩⟩
  | raised i =>
    obtain ⟨batch, hb, rfl⟩ := Option.map_eq_some_iff.mp h
    exact ⟨hbatch, List.forall_mem_append.mpr ⟨herase i, herrors⟩⟩
  | failed =>
    unfold step at h
    cases hlist : o.errors with
    | nil => simp [hlist] at h
    | cons batch errors =>
      rw [hlist] at h herrors
      cases h
      obtain ⟨hone, hrest⟩ := List.forall_mem_cons.mp herrors
      unfold transmissionError
      simp only
      split_ifs with hmuch
      · refine ⟨?_, List.forall_mem_append.mpr ⟨hrequests, hrest⟩⟩
        simp only
        rw [length_fromEnd hsize (by omega)]
        omega
      · exact ⟨Nat.le_of_not_lt hmuch, List.forall_mem_append.mpr ⟨hrequests, hrest⟩⟩

/-- **Every attempt is accounted for**: after any run each one is collected, sent, on its way back, with DShield, cut
off or lost with its request, and only in one of these; and what is collected and sent at once stays bounded. -/
theorem attempts_accounted (env : Env) (hsize : env.batchSize ≠ 0) {es : List Event} {o : Output}
    (hrun : run (step env) {} es = some o) : (everywhere o).Perm (logins es) ∧ Sized env o := by
  constructor
  · exact everywhere_run hrun
  · exact run_inv' (fun o e u hs h => sized_step hsize hs h) sized_start hrun

/-- **What a trim keeps**: the newest attempts of the batch that failed, and nothing else. All that have been collected
since it was sent are dropped, though they are newer. -/
theorem trim_drops_newer (env : Env) (hsize : env.batchSize ≠ 0) (es : List Event) :
    StepsMeet (step env) (fun o e => ∀ u, step env o e = some u → u.dropped ≠ o.dropped →
      ∃ old kept, o.errors.head? = some (old ++ kept) ∧ kept.length = env.batchSize ∧ u.batch = kept ∧
        u.dropped = o.dropped ++ (o.batch ++ old)) {} es := by
  have hkept : ∀ o e u, Sized env o → True → step env o e = some u → Sized env u :=
    fun o e u hs _ h => sized_step hsize hs h
  refine stepsMeet_of_inv hkept (fun o e hs _ u h hdropped => ?_) sized_start (stepsMeet_true _ es)
  cases e with
  | login a =>
    cases h
    unfold write at hdropped
    simp only at hdropped
    split_ifs at hdropped <;> exact absurd rfl hdropped
  | answered i resp =>
    obtain ⟨batch, -, rfl⟩ := Option.map_eq_some_iff.mp h
    unfold answer at hdropped
    split at hdropped <;> exact absurd rfl hdropped
  | raised i =>
    obtain ⟨batch, -, rfl⟩ := Option.map_eq_some_iff.mp h
    exact absurd rfl hdropped
  | failed =>
    unfold step at h
    cases hlist : o.errors with
    | nil => simp [hlist] at h
    | cons batch errors =>
      have hlarge := (hs.sent batch (List.mem_append_right _ (hlist ▸ List.mem_cons_self))).1
      rw [hlist] at h
      cases h
      obtain ⟨hkept, hcut⟩ := trim_eq hsize hlarge o.batch
      have hsplit := take_append_fromEnd env.batchSize batch
      unfold transmissionError at hdropped ⊢
      simp only at hdropped ⊢
      split_ifs at hdropped ⊢ with hmuch
      · refine ⟨_, _, congrArg some hsplit.symm, length_fromEnd hsize hlarge, hkept, ?_⟩
        rw [hcut]
      · exact absurd rfl hdropped

/-- Batches of two. -/
def sampleEnv : Env := ⟨2, id, id, some, some⟩

def sampleAttempt (user : String) : Attempt := ⟨"2024-05-01", "10:00:00", "+0000", "192.0.2.7", user, "123456"⟩

/-- Two batches fail, and then all of them with a fifth attempt, when a sixth is collected already. -/
def sampleEvents : List Event :=
  let refused := ⟨false, some ""⟩
  [.login (sampleAttempt "root"), .login (sampleAttempt "pi"), .login (sampleAttempt "test"),
    .login (sampleAttempt "guest"), .answered 0 refused, .answered 0 refused, .failed, .failed,
    .login (sampleAttempt "oracle"), .login (sampleAttempt "admin"), .answered 0 refused, .failed]

/-- What is left of them. -/
def sampleOutput : Output :=
  { batch := [sampleAttempt "guest", sampleAttempt "oracle"]
    dropped := [sampleAttempt "admin", sampleAttempt "root", sampleAttempt "pi", sampleAttempt "test"] }

theorem sampleEvents_accounted : (everywhere sampleOutput).Perm (logins sampleEvents) ∧ Sized sampleEnv sampleOutput :=
  attempts_accounted sampleEnv (by decide) (by decide +kernel)

theorem sampleEvents_trimmed :
    StepsMeet (step sampleEnv) (fun o e => ∀ u, step sampleEnv o e = some u → u.dropped ≠ o.dropped →
      ∃ old kept, o.errors.head? = some (old ++ kept) ∧ kept.length = 2 ∧ u.batch = kept ∧
        u.dropped = o.dropped ++ (o.batch ++ old)) {} sampleEvents :=
  trim_drops_newer sampleEnv (by decide) sampleEvents

end Cowrie.Dshield
