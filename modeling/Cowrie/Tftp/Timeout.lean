import Cowrie.Tftp.Client

/-!
# The timeout of the TFTP client (`src/cowrie/commands/tftp.py:102-197`)

Every datagram of at least four bytes cancels the timeout, and only some of the branches after that schedule a
new one. Without one a silent server is waited for forever.

* `Live`: until the deferred has fired, a timeout is pending, and a server that is silent from now on is
  asked again until the deferred is fired with the timeout (`silent`).
* `Answered`: a datagram before the deferred has fired is too short to be looked at, or the client answers it.
* **`live_iff`**: every state of a run is live exactly if every datagram of it is answered.
-/

namespace Cowrie.Tftp

open Cowrie.Lib TFTPClient

variable {cfg : Config}

/-- A server that is silent from now on: the packet is sent again, and then the transfer times out. -/
def TimesOut (cfg : Config) (s : TFTPClient) : Prop :=
  ∃ t, run (step cfg) s (List.replicate (maxRetries - s.retryCount) .timeout) = some t ∧
    t.deferred = some .timedOut ∧
    t.sent = s.sent ++ List.replicate (maxRetries - 1 - s.retryCount) (s.retransmission cfg)

/-- If the deferred has not fired, a timeout is pending, and it leads to the error. -/
def Live (cfg : Config) (s : TFTPClient) : Prop := s.deferred = none → s.pending ∧ TimesOut cfg s

/-- If the deferred has not fired, the datagram is too short, or the client answers it. -/
def Answered (s : TFTPClient) : Event → Prop
  | .datagram d _ => s.deferred = none → d.length < 4 ∨ Answers s d
  | .timeout => True

instance (s : TFTPClient) : ∀ e, Decidable (Answered s e)
  | .datagram _ _ => inferInstanceAs (Decidable (_ → _))
  | .timeout => isTrue trivial

/-- The invariant of `live_iff`. -/
def Waiting (s : TFTPClient) : Prop := s.deferred = none → s.pending ∧ s.retryCount < maxRetries

/-- **A silent server** is asked again as often as is left, and then the transfer times out. -/
theorem silent {s : TFTPClient} (hopen : s.deferred = none) (hpending : s.pending)
    (hretries : s.retryCount < maxRetries) : TimesOut cfg s := by
  -- by induction on the number of timeouts that are left
  obtain ⟨n, hn⟩ : ∃ n, maxRetries = s.retryCount + 1 + n := Nat.exists_eq_add_of_le hretries
  unfold TimesOut
  induction n generalizing s with
  | zero =>
    have hstep := timeout_step cfg hpending
    rw [if_pos (by omega), hopen] at hstep
    refine ⟨{ s with pending := false, retryCount := s.retryCount + 1, deferred := some .timedOut }, ?_, rfl, ?_⟩
    · rw [show maxRetries - s.retryCount = 1 by omega]
      exact run_cons.mpr ⟨_, hstep, rfl⟩
    · rw [show maxRetries - 1 - s.retryCount = 0 by omega]
      exact (List.append_nil _).symm
  | succ n ih =>
    have hstep := timeout_step cfg hpending
    rw [if_neg (by omega)] at hstep
    obtain ⟨t, hrun, hfired, hsent⟩ := ih (s := { s with
      pending := true, retryCount := s.retryCount + 1, sent := s.sent ++ [s.retransmission cfg] })
      hopen rfl (by simp only; omega) (by simp only; omega)
    refine ⟨t, ?_, hfired, ?_⟩
    · rw [show maxRetries - s.retryCount = (maxRetries - (s.retryCount + 1)) + 1 by omega,
        List.replicate_succ]
      exact run_cons.mpr ⟨_, hstep, hrun⟩
    · rw [hsent, show maxRetries - 1 - s.retryCount = (maxRetries - 1 - (s.retryCount + 1)) + 1 by omega,
        List.replicate_succ, List.append_assoc]
      rfl

theorem live_of_waiting {s : TFTPClient} (h : Waiting s) : Live cfg s := fun hopen =>
  ⟨(h hopen).1, silent hopen (h hopen).1 (h hopen).2⟩

theorem waiting_of_fired {s t : TFTPClient} {e : Event} (hfired : s.deferred ≠ none)
    (h : step cfg s e = some t) : Waiting t := fun hopen =>
  absurd ((step_settled h hfired).symm.trans hopen) hfired

/-- A datagram that is answered leaves a timeout pending, or the deferred fired. -/
theorem waiting_step {s t : TFTPClient} {e : Event} (hs : Waiting s) (ha : Answered s e)
    (h : step cfg s e = some t) : Waiting t := by
  by_cases hopen : s.deferred = none
  · obtain ⟨hpending, hretries⟩ := hs hopen
    cases e with
    | timeout =>
      rw [timeout_step cfg hpending] at h
      obtain rfl := Option.some.inj h
      split_ifs with hlast
      · exact fun h => by cases h
      · exact fun _ => ⟨rfl, Nat.not_le.mp hlast⟩
    | datagram d addr =>
      obtain rfl := Option.some.inj h
      have hzero : 0 < maxRetries := by decide
      rcases Nat.lt_or_ge d.length 4 with hshort | hlong
      · obtain ⟨text, htext⟩ := received_short cfg s hshort addr
        rw [htext]
        exact hs
      · rcases (ha hopen).resolve_left (Nat.not_lt.mpr hlong) with ⟨hdata, hnext | hsame⟩ | ⟨herror, hlength⟩
        · rw [received_expected cfg hopen hlong hdata hnext]
          split_ifs
          · exact fun h => by cases h
          · exact fun _ => ⟨rfl, hzero⟩
        · rw [received_again hlong hdata hsame]
          exact fun _ => ⟨rfl, hzero⟩
        · rw [received_error hopen hlength herror]
          exact fun h => by cases h
  · exact waiting_of_fired hopen h

/-- A datagram that is not answered leaves no timeout. -/
theorem answered_of_live {s t : TFTPClient} {e : Event} (h : step cfg s e = some t) (ht : Live cfg t) :
    Answered s e := by
  cases e with
  | timeout => trivial
  | datagram d addr =>
    obtain rfl := Option.some.inj h
    intro hopen
    by_contra hno
    obtain ⟨hlength, hanswers⟩ := not_or.mp hno
    obtain ⟨text, htext⟩ := received_ignored cfg (Nat.not_lt.mp hlength) hanswers addr
    rw [htext] at ht
    exact Bool.false_ne_true (ht hopen).1

theorem start_waiting (cfg : Config) : Waiting (start cfg) := fun _ =>
  ⟨rfl, (by decide : 0 < maxRetries)⟩

/-- **When the client never hangs**: in every run, every state is live exactly if every datagram before the end of
the transfer is answered. -/
theorem live_iff {cfg : Config} {es : List Event} {t : TFTPClient}
    (hrun : run (step cfg) (start cfg) es = some t) :
    StatesMeet (step cfg) (Live cfg) (start cfg) es ↔ StepsMeet (step cfg) Answered (start cfg) es :=
  statesMeet_iff_of_inv (fun _ _ _ => waiting_step) (fun _ => live_of_waiting)
    (fun _ _ _ _ => answered_of_live) (start_waiting cfg) hrun

/-- A configuration. -/
def client : Config := ⟨"192.0.2.1", 69, [97]⟩

/-- A block that came before, and a timeout. -/
theorem live_again :
    StatesMeet (step client) (Live client) (start client) [.datagram [0, 3, 0, 0] ("192.0.2.1", 1069), .timeout] :=
  (live_iff (t := _) rfl).mpr (by decide +kernel)

/-- After an acknowledgment, which a client does not expect, nothing is left to wake it. -/
theorem live_violated :
    ¬ ∀ (es : List Event) (t : TFTPClient), run (step client) (start client) es = some t → Live client t := by
  intro h
  have hlive := h [.datagram [0, 4, 0, 0] ("192.0.2.1", 1069)] _ rfl
  exact Bool.false_ne_true (hlive rfl).1

end Cowrie.Tftp
