import Cowrie.Insults.Recording

/-!
# The closings in the log (`LoggingServerProtocol.connectionLost` in `src/cowrie/insults/insults.py`)

When the connection is lost, which may happen more than once, a `cowrie.log.closed` says how much was printed, under
which digest the recording is kept, and whether there was one of that digest.

* `Reported` is what holds of the log in every state.
* **`closings_reported`**: one closing for a session, with its digest and its output, and duplicates are duplicates.
-/

namespace Cowrie.Insults

open Lib TtyLog

/-- How much was printed. -/
def Session.outputSize (u : Session) : Nat :=
  ((u.traffic.filter fun w => w.direction = typeOutput).map fun w => w.data.length).sum

/-- A duplicate is one that has a closing of the same digest before it. -/
def Flagged : List Closing → Prop
  | [] => True
  | e :: es => (e.duplicate = true ↔ ∃ e' ∈ es, e'.shasum = e.shasum) ∧ Flagged es

/-- The closings of a session. -/
structure Entry (c : Settings) (cs : List Closing) (id : Nat) (u : Session) : Prop where
  size : c.ttylogEnabled = true → u.ttylogSize = u.outputSize
  once : (cs.filter fun e => e.id = id).map (fun e => (e.size, e.shasum)) =
    if c.ttylogEnabled && u.closed.isSome then [(u.ttylogSize, u.digest c)] else []

structure Reported (c : Settings) (s : Server) : Prop where
  entry : ∀ id u, s.sessions.get? id = some u → Entry c (closings s.messages) id u
  fresh : ∀ id, s.sessions.get? id = none → (closings s.messages).filter (fun e => e.id = id) = []
  known : ∀ shasum, (s.ttylogPath.get? (.kept shasum)).isSome = true ↔
    ∃ e ∈ closings s.messages, e.shasum = shasum
  flagged : Flagged (closings s.messages)

section
variable {c : Settings} {s t : Server} {id : Nat} {u v : Session} {e : Event}

/-- Where nothing is closed, it is enough to look at the session that changes. -/
theorem Reported.of_same (h : Reported c s) (hsessions : t.sessions = s.sessions.set id v)
    (hmessages : closings t.messages = closings s.messages)
    (hkept : ∀ shasum, t.ttylogPath.get? (.kept shasum) = s.ttylogPath.get? (.kept shasum))
    (hv : Entry c (closings s.messages) id v) : Reported c t where
  entry j u hu := by
    rw [hsessions, OrderedDict.get?_set] at hu
    rw [hmessages]
    split_ifs at hu with hj
    · cases hu
      exact hj ▸ hv
    · exact h.entry j u hu
  fresh j hj := by
    rw [hsessions, OrderedDict.get?_set] at hj
    split_ifs at hj
    rw [hmessages]
    exact h.fresh j hj
  known shasum := by
    rw [hkept, hmessages]
    exact h.known shasum
  flagged := hmessages ▸ h.flagged

theorem outputSize_pass_output (hclosed : u.closed = none) (now : Stamp) (data : Bytes) :
    (u.pass ⟨typeOutput, now, data⟩).outputSize = u.outputSize + data.length := by
  rw [Session.pass_of_open hclosed]
  simp [Session.outputSize]

theorem outputSize_pass_input (now : Stamp) (data : Bytes) :
    (u.pass ⟨typeInput, now, data⟩).outputSize = u.outputSize := by
  unfold Session.pass
  split_ifs
  · simp [Session.outputSize, typeInput, typeOutput]
  · rfl

/-- The closings of a session to which something is passed. -/
theorem Entry.pass {cs : List Closing} {w : Write} (h : Entry c cs id u)
    (hsize : c.ttylogEnabled = true → v.ttylogSize = v.outputSize) (hv : v.closed = u.closed)
    (hclosed : u.closed ≠ none → v.ttylogSize = u.ttylogSize ∧ v.recorded = (u.pass w).recorded) :
    Entry c cs id v where
  size := hsize
  once := by
    rw [h.once, hv]
    by_cases hnone : u.closed = none
    · simp only [hnone, Option.isSome_none, Bool.and_false]
      rfl
    · obtain ⟨hsame, hrecorded⟩ := hclosed hnone
      unfold Session.digest
      rw [hsame, hrecorded, Session.pass_of_closed hnone]

theorem reported_write {now : Stamp} {data : Bytes} (h : Inv c s) (hr : Reported c s)
    (ht : write c id now data s = some t) : Reported c t := by
  unfold write at ht
  obtain ⟨u, hu, ht⟩ := Option.bind_eq_some_iff.mp ht
  obtain ⟨files, hfiles, ht⟩ := Option.bind_eq_some_iff.mp ht
  cases ht
  have hopen := (h.session id u hu).ttylogOpen
  have hentry := hr.entry id u hu
  refine hr.of_same rfl rfl (fun shasum => writeTtylog_frame hfiles (by simp))
    (hentry.pass (w := ⟨typeOutput, now, data⟩) ?_ Session.pass_closed ?_)
  · intro henabled
    change (if c.ttylogEnabled && u.ttylogOpen then u.ttylogSize + data.length else u.ttylogSize) =
      (u.pass _).outputSize
    rw [hopen, henabled, Bool.true_and, Bool.true_and, hentry.size henabled]
    by_cases hclosed : u.closed = none
    · rw [hclosed, outputSize_pass_output hclosed]
      rfl
    · rw [Session.pass_of_closed hclosed, if_neg (by simpa using hclosed)]
  · intro hclosed
    refine ⟨?_, rfl⟩
    change (if c.ttylogEnabled && u.ttylogOpen then u.ttylogSize + data.length else u.ttylogSize) = u.ttylogSize
    rw [hopen, if_neg]
    simp [hclosed]

theorem reported_dataReceived {now : Stamp} {data : Bytes} (hr : Reported c s)
    (ht : dataReceived c id now data s = some t) : Reported c t := by
  unfold dataReceived at ht
  obtain ⟨u, hu, ht⟩ := Option.bind_eq_some_iff.mp ht
  have hentry := hr.entry id u hu
  have hpass : ∀ n, Entry c (closings s.messages) id { u.pass ⟨typeInput, now, data⟩ with bytesReceived := n } := by
    intro n
    refine hentry.pass (w := ⟨typeInput, now, data⟩) ?_ Session.pass_closed ?_
    · intro henabled
      change (u.pass _).ttylogSize = (u.pass _).outputSize
      rw [outputSize_pass_input, Session.pass_ttylogSize]
      exact hentry.size henabled
    · exact fun _ => ⟨Session.pass_ttylogSize, rfl⟩
  simp only at ht
  split_ifs at ht
  · cases ht
    exact hr.of_same rfl rfl (fun _ => rfl) ⟨hentry.size, hentry.once⟩
  · cases ht
    exact hr.of_same rfl rfl (fun _ => rfl) (hpass _)
  · obtain ⟨files, hfiles, ht⟩ := Option.bind_eq_some_iff.mp ht
    cases ht
    exact hr.of_same rfl rfl (fun shasum => writeTtylog_frame hfiles (by simp)) (hpass _)

theorem reported_connectionMade {kind : Kind} {startTime now : Stamp} (h : Inv c s) (hr : Reported c s)
    (ht : connectionMade c id kind startTime now s = some t) : Reported c t := by
  unfold connectionMade at ht
  split_ifs at ht with hnew
  obtain ⟨files, hfiles, rfl⟩ := Option.map_eq_some_iff.mp ht
  refine hr.of_same rfl rfl (fun shasum => ?_) ⟨fun _ => rfl, ?_⟩
  · rcases openTtylog_spec (h.fresh id hnew).1 hfiles with ⟨-, rfl⟩ | ⟨file, -, rfl, -⟩
    · rfl
    · exact get?_set_draft_kept _ _ shasum
  · rw [hr.fresh id hnew]
    exact (if_neg (by simp)).symm

theorem reported_connectionLost {now : Stamp} (h : Inv c s) (hr : Reported c s)
    (ht : connectionLost c id now s = some t) : Reported c t := by
  obtain ⟨u, hu, hsessions, hrecorded, -⟩ := connectionLost_spec h ht
  have hk := h.session id u hu
  have hentry := hr.entry id u hu
  cases hrecorded with
  | skipped hopen hsame hcs =>
    refine hr.of_same hsessions hcs (fun shasum => by rw [hsame]) ⟨hentry.size, ?_⟩
    rw [hentry.once]
    change _ = if c.ttylogEnabled && (some (u.closed.getD now)).isSome then [(u.ttylogSize, u.digest c)] else []
    rw [hk.ttylogOpen] at hopen
    -- a recording that was open has been closed before
    cases henabled : c.ttylogEnabled with
    | false => rfl
    | true =>
      cases hclosed : u.closed with
      | none =>
        rw [henabled, hclosed] at hopen
        cases hopen
      | some close => rfl
  | kept file hopen hwritten hkeep hcs =>
    obtain ⟨henabled, hclosed⟩ := Bool.and_eq_true_iff.mp (hk.ttylogOpen ▸ hopen)
    have hclosed : u.closed = none := by simpa using hclosed
    constructor
    case entry =>
      intro j u' hu'
      rw [hsessions, OrderedDict.get?_set] at hu'
      rw [hcs]
      split_ifs at hu' with hj
      · cases hu'
        subst hj
        refine ⟨hentry.size, ?_⟩
        have honce := hentry.once
        rw [hclosed, if_neg (by simp)] at honce
        rw [List.filter_cons_of_pos (by simp), List.map_cons, honce]
        change _ = if c.ttylogEnabled && (some (u.closed.getD now)).isSome then [(u.ttylogSize, u.digest c)] else []
        rw [henabled]
        rfl
      · have hother := hr.entry j u' hu'
        refine ⟨hother.size, ?_⟩
        rw [List.filter_cons_of_neg (by simpa using Ne.symm hj)]
        exact hother.once
    case fresh =>
      intro j hj
      rw [hsessions, OrderedDict.get?_set] at hj
      split_ifs at hj with hne
      rw [hcs, List.filter_cons_of_neg (by simpa using Ne.symm hne)]
      exact hr.fresh j hj
    case known =>
      intro shasum
      rw [hkeep, hcs, Archive.get?_keep_kept]
      split_ifs with hshasum
      · simp [hshasum]
      · rw [hr.known]
        simp [Ne.symm hshasum]
    case flagged =>
      rw [hcs]
      exact ⟨hr.known _, hr.flagged⟩

theorem reported_step (h : Inv c s) (hr : Reported c s) (ht : step c s e = some t) : Reported c t := by
  cases e with
  | connectionMade id kind startTime now => exact reported_connectionMade h hr ht
  | write id now data => exact reported_write h hr ht
  | dataReceived id now data => exact reported_dataReceived hr ht
  | connectionLost id now => exact reported_connectionLost h hr ht

/-- The second session is a duplicate, though it has printed something. -/
example : closings sampleServer.messages = [⟨1, 1, "cat", true⟩, ⟨0, 0, "cat", false⟩] := by decide +kernel

end

end Cowrie.Insults
