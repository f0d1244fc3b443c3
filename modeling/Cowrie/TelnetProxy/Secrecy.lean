import Cowrie.Lib.Run
import Cowrie.TelnetProxy.Visible

/-!
# Secrecy of the backend's password

Two runs of the handler that differ in `backend_pass` alone are followed side by side. `pub` is
what the frontend can see of a state, `low` is `pub` without `currentData`, the only such field the
password reaches (`processPasswordInput`, `handler.py:263-301`). `addPacket` then goes on: if a
login is being typed as well, `processUsernameInput` (`handler.py:225-261`) takes what is now in
`currentData` for the login and echoes it to the frontend.

* **`secret_leaked`**: both prompts, then one line of the frontend, and the password is echoed.
* **`secret_iff_noEcho`**: the frontend is sent the same, whatever the password, iff no packet
  of the frontend completes the password while a login is being typed.
-/

namespace Cowrie.TelnetProxy

open Cowrie.Lib

/-- The same configuration with another `backend_pass`. -/
def Config.withPassword (cfg : Config) (password : Bytes) : Config :=
  { cfg with backendPassword := password }

namespace TelnetHandler

variable (cfg : Config)

/-! ## Two runs side by side -/

variable {cfg} {s t : TelnetHandler} (h : pub s = pub t)

include h

theorem setProcessingStateBackend_agree :
    Agree pub Eq (setProcessingStateBackend cfg) (setProcessingStateBackend cfg) s t := by
  unfold setProcessingStateBackend
  refine agree_get ?_
  rw [obs_congr h currentData fun _ => rfl]
  refine agree_bind pub (agree_when h fun _ => ?_) (fun _ => rfl) (fun _ _ => id)
    fun _ u v _ _ huv => agree_get ?_
  · exact ⟨congrArg (fun v : TelnetHandler =>
      { v with authStarted := true, inputingPassword := true, passwordState := [] }) h, rfl⟩
  rw [obs_congr huv currentData fun _ => rfl]
  refine agree_bind pub (agree_when huv fun _ => ?_) (fun _ => rfl) (fun _ _ => id)
    fun _ u' v' _ _ huv' => ?_
  · exact ⟨congrArg (fun v : TelnetHandler =>
      { v with authStarted := true, inputingLogin := true, usernameState := [] }) huv, rfl⟩
  · exact agree_modify pub (congrArg (fun v : TelnetHandler =>
      { v with prePasswordData := Bytes.contains [0xff, 0xfb, 1] v.currentData }) huv')

theorem captureEcho_agree : Agree pub Eq (captureEcho cfg) (captureEcho cfg) s t := by
  unfold captureEcho
  refine agree_get ?_
  rw [obs_congr h waitingLoginEcho fun _ => rfl]
  exact agree_when h fun _ => agree_modify pub (congrArg (fun v : TelnetHandler => { v with
    currentData := replace v.currentData (cfg.backendLogin ++ [13, 10]) []
    waitingLoginEcho := false }) h)

theorem setProcessingStateFrontend_agree :
    Agree pub Eq (setProcessingStateFrontend cfg) (setProcessingStateFrontend cfg) s t := by
  have hd : s.currentData = t.currentData := obs_congr h currentData fun _ => rfl
  by_cases hneg : Negotiates cfg s.currentData
  · refine agree_of_ends (setProcessingStateFrontend_ends cfg hneg)
      (setProcessingStateFrontend_ends cfg (hd ▸ hneg)) ?_
    exact congrArg (fun v : TelnetHandler => { v with
      usernameState := (cfg.usernameInNegotiation.search v.currentData).getD v.usernameState
      currentData := negotiated cfg v.currentData }) h
  · unfold Negotiates at hneg
    push Not at hneg
    obtain ⟨username, hsearch, htext⟩ := hneg
    refine agree_of_ends (setProcessingStateFrontend_raises cfg hsearch htext)
      (setProcessingStateFrontend_raises cfg (hd ▸ hsearch) htext) ?_
    exact congrArg (fun v : TelnetHandler => { v with usernameState := username }) h

theorem sendFrontend_agree (data : Bytes) :
    Agree pub Eq (sendFrontend cfg data) (sendFrontend cfg data) s t :=
  agree_of_ends (sendFrontend_ends cfg data s) (sendFrontend_ends cfg data t)
    (congrArg (fun v : TelnetHandler => { v with toFrontend := v.toFrontend ++ [data] }) h)

theorem terminatingChar_agree (data : Bytes) :
    Agree pub Eq (terminatingChar data) (terminatingChar data) s t := by
  unfold terminatingChar
  cases terminator data with
  | none => exact agree_throw h rfl
  | some x => exact agree_pure h rfl

theorem decoded_agree (data : Bytes) : Agree pub Eq (decoded cfg data) (decoded cfg data) s t := by
  unfold decoded
  cases unicodeEscape cfg.unicodeName data with
  | none => exact agree_throw h rfl
  | some text => exact agree_pure h rfl

theorem processUsernameInput_agree :
    Agree pub Eq (processUsernameInput cfg) (processUsernameInput cfg) s t := by
  unfold processUsernameInput
  refine agree_bind pub (agree_modify pub (congrArg (fun v : TelnetHandler => { v with
    sendData := false
    usernameState := v.usernameState ++ removeAll v.currentData [[13], [0], [10]] }) h))
    (fun _ => rfl) (fun _ _ => id) fun _ s₁ t₁ _ _ h₁ => agree_get ?_
  rw [obs_congr h₁ currentData fun _ => rfl]
  refine agree_bind pub (sendFrontend_agree h₁ _) (fun _ => rfl) (fun _ _ => id)
    fun _ s₂ t₂ _ _ h₂ => agree_get ?_
  rw [obs_congr h₂ currentData fun _ => rfl]
  refine agree_when h₂ fun _ => agree_get ?_
  rw [obs_congr h₂ currentData fun _ => rfl]
  refine agree_bind pub (terminatingChar_agree h₂ _) (fun _ => rfl) (fun _ _ => id)
    fun terminating s₃ t₃ _ _ h₃ => ?_
  refine agree_bind pub (agree_modify pub (congrArg (fun v : TelnetHandler => { v with
    usernameState := processBackspaces v.usernameState }) h₃))
    (fun _ => rfl) (fun _ _ => id) fun _ s₄ t₄ _ _ h₄ => agree_get ?_
  rw [obs_congr h₄ usernameState fun _ => rfl]
  refine agree_bind pub (decoded_agree h₄ _) (fun _ => rfl) (fun _ _ => id)
    fun text s₅ t₅ _ _ h₅ => ?_
  refine agree_bind pub (agree_modify pub h₅) (fun _ => rfl) (fun _ _ => id)
    fun _ s₆ t₆ _ _ h₆ => ?_
  exact agree_modify pub (congrArg (fun v : TelnetHandler => { v with
    inputingLogin := false
    currentData := cfg.backendLogin ++ [13] ++ terminating
    sendData := true
    waitingLoginEcho := true }) h₆)

theorem collectPassword_agree :
    Agree pub Eq (collectPassword cfg) (collectPassword cfg) s t := by
  have hpre : s.prePasswordData = t.prePasswordData := obs_congr h prePasswordData fun _ => rfl
  have hc : s.client = t.client := obs_congr h client fun _ => rfl
  have hd : s.currentData = t.currentData := obs_congr h currentData fun _ => rfl
  have hiff : Collects cfg s ↔ Collects cfg t := by
    unfold Collects
    rw [hpre, hc, hd]
  by_cases hcol : Collects cfg s
  · refine agree_of_ends (collectPassword_ends cfg hcol) (collectPassword_ends cfg (hiff.mp hcol)) ?_
    exact congrArg (fun v : TelnetHandler => { v with
      sendData := false, prePasswordData := false, passwordState := typed v v.currentData }) h
  · refine agree_of_ends (collectPassword_raises cfg hcol)
      (collectPassword_raises cfg fun h' => hcol (hiff.mpr h')) ?_
    exact congrArg (fun v : TelnetHandler => { v with sendData := false }) h

theorem finishes_congr :
    Finishes cfg s.passwordState s.currentData ↔ Finishes cfg t.passwordState t.currentData := by
  rw [obs_congr h passwordState fun _ => rfl, obs_congr h currentData fun _ => rfl]

variable (p q : Bytes)

/-- A raise while the password is completed shows nothing of it. -/
theorem completePassword_agree_of_raise (hfin : ¬ Finishes cfg s.passwordState s.currentData) :
    Agree pub Eq (completePassword (cfg.withPassword p)) (completePassword (cfg.withPassword q))
      s t := by
  have hs := completePassword_raises (cfg.withPassword p) hfin
  have ht := completePassword_raises (cfg.withPassword q) (mt (finishes_congr h).mpr hfin)
  rw [← obs_congr h currentData fun _ => rfl] at ht
  refine agree_of_ends hs ht ?_
  split
  · exact h
  · exact congrArg (fun v : TelnetHandler =>
      { v with passwordState := processBackspaces v.passwordState }) h

/-- **The password reaches `currentData` only.** -/
theorem completePassword_agree :
    Agree low Eq (completePassword (cfg.withPassword p)) (completePassword (cfg.withPassword q))
      s t := by
  by_cases hfin : Finishes cfg s.passwordState s.currentData
  · obtain ⟨x, hx⟩ := Option.ne_none_iff_exists'.mp hfin.1
    obtain ⟨text, htext⟩ := Option.ne_none_iff_exists'.mp hfin.2
    have hs := completePassword_ends (cfg.withPassword p) hx htext
    rw [obs_congr h currentData fun _ => rfl] at hx
    rw [obs_congr h passwordState fun _ => rfl] at htext
    have ht := completePassword_ends (cfg.withPassword q) hx htext
    refine ⟨?_, hs.1.trans ht.1.symm⟩
    have hafter := congrArg (afterPassword cfg) h
    change afterPassword cfg s = afterPassword cfg t at hafter
    have hlow : low (exec (completePassword (cfg.withPassword p)) s).2 =
        { afterPassword cfg s with currentData := [] } :=
      congrArg (fun v : TelnetHandler => { v with currentData := [] }) hs.2
    rw [hlow, hafter]
    exact (congrArg (fun v : TelnetHandler => { v with currentData := [] }) ht.2).symm
  · exact (completePassword_agree_of_raise h p q hfin).mono (fun _ _ => id) fun _ _ => low_of_pub

theorem processPasswordInput_agree :
    Agree low Eq (processPasswordInput (cfg.withPassword p))
      (processPasswordInput (cfg.withPassword q)) s t := by
  unfold processPasswordInput
  refine agree_bind pub
    (show Agree pub Eq (collectPassword cfg) (collectPassword cfg) s t from collectPassword_agree h)
    (fun _ => rfl) (fun _ _ => low_of_pub) fun _ u v _ _ huv => agree_get ?_
  rw [obs_congr huv currentData fun _ => rfl]
  exact agree_when (low_of_pub huv) fun _ => completePassword_agree huv p q

/-- A packet that does not complete the password shows nothing of it. -/
theorem processPasswordInput_agree_of_not
    (hnot : ¬ (Collects cfg s ∧ Finishes cfg (typed s s.currentData) s.currentData)) :
    Agree pub Eq (processPasswordInput (cfg.withPassword p))
      (processPasswordInput (cfg.withPassword q)) s t := by
  unfold processPasswordInput
  refine agree_bind pub
    (show Agree pub Eq (collectPassword cfg) (collectPassword cfg) s t from collectPassword_agree h)
    (fun _ => rfl) (fun _ _ => id) fun _ u v hu _ huv => agree_get ?_
  have hcol : Collects cfg s := by
    by_contra hcol
    have := (collectPassword_raises cfg hcol).1
    rw [show exec (collectPassword cfg) s = _ from hu] at this
    cases this
  have hpub := (collectPassword_ends cfg hcol).2
  rw [show exec (collectPassword cfg) s = _ from hu] at hpub
  have hpass := congrArg passwordState hpub
  have hdata := congrArg currentData hpub
  change u.passwordState = typed s s.currentData at hpass
  change u.currentData = s.currentData at hdata
  rw [← obs_congr huv currentData fun _ => rfl]
  refine agree_when huv fun _ => completePassword_agree_of_raise huv p q fun hfin => ?_
  rw [hpass, hdata] at hfin
  exact hnot ⟨hcol, hfin⟩

omit h

/-! ## What is written to the frontend -/

/-- Nothing is written to the frontend. -/
def Quiet (s t : TelnetHandler) : Prop := toFrontend s = toFrontend t

theorem Quiet.refl (s : TelnetHandler) : Quiet s s := rfl

theorem Quiet.trans (s t u : TelnetHandler) (h : Quiet s t) (h' : Quiet t u) : Quiet s u :=
  Eq.trans h h'

theorem quiet_of_ends {α : Type} {m : TelnetM α} {s x : TelnetHandler} {r : Except PyError α}
    (h : Ends pub m s r x) (hx : Quiet s x) : Quiet s (exec m s).2 :=
  Eq.trans hx (congrArg toFrontend h.2).symm

theorem sendBackend_quiet (data : Bytes) : Along Quiet (sendBackend cfg data) := fun s =>
  quiet_of_ends (sendBackend_ends cfg data s) rfl

theorem terminatingChar_quiet (data : Bytes) : Along Quiet (terminatingChar data) := by
  unfold terminatingChar
  cases terminator data with
  | none => exact along_throw Quiet.refl _
  | some x => exact along_pure Quiet.refl _

theorem decoded_quiet (data : Bytes) : Along Quiet (decoded cfg data) := by
  unfold decoded
  cases unicodeEscape cfg.unicodeName data with
  | none => exact along_throw Quiet.refl _
  | some text => exact along_pure Quiet.refl _

theorem setProcessingStateBackend_quiet : Along Quiet (setProcessingStateBackend cfg) := by
  unfold setProcessingStateBackend
  refine along_get fun _ => along_bind Quiet.trans (along_when Quiet.refl ?_) fun _ => along_get fun _ =>
    along_bind Quiet.trans (along_when Quiet.refl ?_) fun _ => along_modify fun _ => rfl
  · exact along_bind Quiet.trans (along_modify fun _ => rfl) fun _ => along_modify fun _ => rfl
  · exact along_bind Quiet.trans (along_modify fun _ => rfl) fun _ => along_modify fun _ => rfl

theorem captureEcho_quiet : Along Quiet (captureEcho cfg) := by
  unfold captureEcho
  exact along_get fun _ => along_when Quiet.refl (along_modify fun _ => rfl)

theorem setProcessingStateFrontend_quiet : Along Quiet (setProcessingStateFrontend cfg) := fun s => by
  by_cases hneg : Negotiates cfg s.currentData
  · exact quiet_of_ends (setProcessingStateFrontend_ends cfg hneg) rfl
  · unfold Negotiates at hneg
    push Not at hneg
    obtain ⟨username, hsearch, htext⟩ := hneg
    exact quiet_of_ends (setProcessingStateFrontend_raises cfg hsearch htext) rfl

theorem logCommand_quiet (parent : Parent) (data : Bytes) : Along Quiet (logCommand parent data) := by
  unfold logCommand
  refine along_get fun _ => along_when Quiet.refl ?_
  refine along_bind Quiet.trans (along_modify fun _ => rfl) fun _ => ?_
  refine along_when Quiet.refl (along_get fun _ => ?_)
  refine along_bind Quiet.trans (along_when Quiet.refl ?_) fun _ => along_modify fun _ => rfl
  exact along_get fun _ => along_modify fun _ => rfl

/-- The password steps: quiet, and the login flag is left alone. -/
def LoginKept (s t : TelnetHandler) : Prop := Quiet s t ∧ s.inputingLogin = t.inputingLogin

theorem LoginKept.refl (s : TelnetHandler) : LoginKept s s := ⟨rfl, rfl⟩

theorem LoginKept.trans (s t u : TelnetHandler) (h : LoginKept s t) (h' : LoginKept t u) :
    LoginKept s u := ⟨Eq.trans h.1 h'.1, h.2.trans h'.2⟩

theorem loginKept_of_ends {α : Type} {m : TelnetM α} {s x : TelnetHandler} {r : Except PyError α}
    (h : Ends pub m s r x) (hx : LoginKept s x) : LoginKept s (exec m s).2 :=
  ⟨quiet_of_ends h hx.1, hx.2.trans (congrArg inputingLogin h.2).symm⟩

theorem collectPassword_loginKept : Along LoginKept (collectPassword cfg) := fun s => by
  by_cases hcol : Collects cfg s
  · exact loginKept_of_ends (collectPassword_ends cfg hcol) ⟨rfl, rfl⟩
  · exact loginKept_of_ends (collectPassword_raises cfg hcol) ⟨rfl, rfl⟩

theorem completePassword_loginKept : Along LoginKept (completePassword cfg) := fun s => by
  by_cases hfin : Finishes cfg s.passwordState s.currentData
  · obtain ⟨x, hx⟩ := Option.ne_none_iff_exists'.mp hfin.1
    obtain ⟨text, htext⟩ := Option.ne_none_iff_exists'.mp hfin.2
    exact loginKept_of_ends (completePassword_ends cfg hx htext) ⟨rfl, rfl⟩
  · refine loginKept_of_ends (completePassword_raises cfg hfin) ?_
    split <;> exact ⟨rfl, rfl⟩

theorem processPasswordInput_loginKept : Along LoginKept (processPasswordInput cfg) := by
  unfold processPasswordInput
  exact along_bind LoginKept.trans collectPassword_loginKept fun _ =>
    along_get fun _ => along_when LoginKept.refl completePassword_loginKept

/-- What was written to the frontend stays written. -/
def Shows (s t : TelnetHandler) : Prop := s.toFrontend <+: t.toFrontend

theorem Shows.refl (s : TelnetHandler) : Shows s s := List.prefix_refl _

theorem Shows.trans (s t u : TelnetHandler) (h : Shows s t) (h' : Shows t u) : Shows s u :=
  List.IsPrefix.trans h h'

theorem Quiet.shows (s t : TelnetHandler) (h : Quiet s t) : Shows s t := by
  have heq : s.toFrontend = t.toFrontend := h
  exact ⟨[], (List.append_nil _).trans heq⟩

theorem sendFrontend_toFrontend (data : Bytes) (s : TelnetHandler) :
    toFrontend (exec (sendFrontend cfg data) s).2 = s.toFrontend ++ [data] :=
  congrArg toFrontend (sendFrontend_ends cfg data s).2

/-- **What is typed at the login prompt is echoed**, whatever happens afterwards. -/
theorem processUsernameInput_toFrontend (s : TelnetHandler) :
    toFrontend (exec (processUsernameInput cfg) s).2 = s.toFrontend ++ [echo s.currentData] := by
  unfold processUsernameInput
  rw [exec_modify_bind, exec_get_bind, obs_bind toFrontend, sendFrontend_toFrontend]
  refine fun _ => along_get fun _ => along_when Quiet.refl (along_get fun _ => ?_)
  refine along_bind Quiet.trans (terminatingChar_quiet _) fun _ => ?_
  refine along_bind Quiet.trans (along_modify fun _ => rfl) fun _ => along_get fun _ => ?_
  refine along_bind Quiet.trans (decoded_quiet _) fun _ => ?_
  exact along_bind Quiet.trans (along_modify fun _ => rfl) fun _ => along_modify fun _ => rfl

theorem processUsernameInput_shows : Along Shows (processUsernameInput cfg) := fun s => by
  unfold Shows
  rw [processUsernameInput_toFrontend]
  exact List.prefix_append _ _

theorem forward_shows (parent : Parent) : Along Shows (forward cfg parent) := by
  refine along_get fun s => along_when Shows.refl ?_
  cases parent with
  | frontend => exact (sendBackend_quiet s.currentData).mono Quiet.shows
  | backend =>
    intro u
    unfold Shows
    rw [sendFrontend_toFrontend]
    exact List.prefix_append _ _

theorem spoof_shows (parent : Parent) : Along Shows (spoof cfg parent) := by
  unfold spoof
  cases parent with
  | backend =>
    exact along_bind Shows.trans (setProcessingStateBackend_quiet.mono Quiet.shows) fun _ =>
      captureEcho_quiet.mono Quiet.shows
  | frontend =>
    refine along_bind Shows.trans (setProcessingStateFrontend_quiet.mono Quiet.shows) fun _ => ?_
    refine along_get fun _ => along_bind Shows.trans (along_when Shows.refl ?_) fun _ => ?_
    · exact processPasswordInput_loginKept.mono fun s t h => Quiet.shows s t h.1
    · exact along_get fun _ => along_when Shows.refl processUsernameInput_shows

theorem addPacket_shows (parent : Parent) (data : Bytes) : Along Shows (addPacket cfg parent data) := by
  unfold addPacket
  refine along_bind Shows.trans (along_modify Shows.refl) fun _ => along_get fun _ => ?_
  refine along_bind Shows.trans (along_when Shows.refl (spoof_shows parent)) fun _ => ?_
  exact along_bind Shows.trans ((logCommand_quiet parent data).mono Quiet.shows) fun _ =>
    forward_shows parent

/-! ## One packet -/

/-- The packet in `currentData` completes the password. -/
structure Completes (cfg : Config) (s : TelnetHandler) : Prop where
  negotiates : Negotiates cfg s.currentData
  collects : s.prePasswordData → s.client →
    written cfg ((negotiated cfg s.currentData).take 3) = .ok ()
  finishes : Finishes cfg (typed s (negotiated cfg s.currentData)) (negotiated cfg s.currentData)

/-- **The password is spoofed, and the packet that completes it is echoed** as part of a login. -/
structure EchoesPassword (cfg : Config) (s : TelnetHandler) (data : Bytes) : Prop where
  spoofing : cfg.spoofAuthenticationData = true ∧ s.authDone = false
  both : s.inputingPassword = true ∧ s.inputingLogin = true
  completes : Completes cfg { s with currentData := data, sendData := true }

/-- What the frontend is sent when the packet in `currentData` is a prompt is the same. -/
theorem spoofBackend_agree {s t : TelnetHandler} (h : pub s = pub t) (p q : Bytes) :
    Agree pub Eq (spoof (cfg.withPassword p) .backend) (spoof (cfg.withPassword q) .backend) s t :=
  agree_bind pub (show Agree pub Eq (setProcessingStateBackend cfg) (setProcessingStateBackend cfg)
    s t from setProcessingStateBackend_agree h) (fun _ => rfl) (fun _ _ => id)
    fun _ u v _ _ huv => show Agree pub Eq (captureEcho cfg) (captureEcho cfg) u v from
      captureEcho_agree huv

/-- What the negotiation leaves. -/
theorem exec_negotiation {s u : TelnetHandler} {a : Unit}
    (h : exec (setProcessingStateFrontend cfg) s = (.ok a, u)) :
    Negotiates cfg s.currentData ∧
      pub u = { pub s with
        usernameState := (cfg.usernameInNegotiation.search s.currentData).getD s.usernameState
        currentData := negotiated cfg s.currentData } := by
  have hneg : Negotiates cfg s.currentData := by
    by_contra hneg
    unfold Negotiates at hneg
    push Not at hneg
    obtain ⟨username, hsearch, htext⟩ := hneg
    have hraise := (setProcessingStateFrontend_raises cfg hsearch htext).1
    rw [h] at hraise
    cases hraise
  refine ⟨hneg, ?_⟩
  have hpub := (setProcessingStateFrontend_ends cfg hneg).2
  rw [h] at hpub
  exact hpub

/-- **What a packet of the frontend shows**, unless it completes a password while a login is
typed. -/
theorem spoofFrontend_agree {s t : TelnetHandler} (h : pub s = pub t) (p q : Bytes)
    (hno : ¬ (s.inputingPassword = true ∧ s.inputingLogin = true ∧ Completes cfg s)) :
    Agree low Eq (spoof (cfg.withPassword p) .frontend) (spoof (cfg.withPassword q) .frontend)
      s t := by
  refine agree_bind pub (show Agree pub Eq (setProcessingStateFrontend cfg)
    (setProcessingStateFrontend cfg) s t from setProcessingStateFrontend_agree h) (fun _ => rfl)
    (fun _ _ => low_of_pub) fun _ u v hu _ huv => agree_get ?_
  obtain ⟨hneg, hpub⟩ := show Negotiates cfg s.currentData ∧ _ from exec_negotiation hu
  have hlogin := congrArg inputingLogin hpub
  change u.inputingLogin = s.inputingLogin at hlogin
  by_cases hin : s.inputingLogin = true
  · -- the login is being typed: the password must not be completed
    rw [obs_congr huv inputingPassword fun _ => rfl]
    refine agree_bind pub (agree_when huv fun hpass => ?_) (fun _ => rfl) (fun _ _ => low_of_pub)
      fun _ u' v' _ _ huv' => agree_get ?_
    · refine processPasswordInput_agree_of_not huv p q fun hboth => hno ⟨?_, hin, hneg, ?_, ?_⟩
      · rw [← obs_congr huv inputingPassword fun _ => rfl] at hpass
        exact (congrArg inputingPassword hpub).symm.trans hpass
      · have hcol := congrArg (Collects cfg) hpub
        exact hcol.mp hboth.1
      · have hfin := congrArg (fun w => Finishes cfg (typed w w.currentData) w.currentData) hpub
        exact hfin.mp hboth.2
    · rw [obs_congr huv' inputingLogin fun _ => rfl]
      refine (agree_when huv' fun _ => ?_).mono (fun _ _ => id) fun _ _ => low_of_pub
      exact (show Agree pub Eq (processUsernameInput cfg) (processUsernameInput cfg) u' v' from
        processUsernameInput_agree huv')
  · -- no login is being typed, before or after the password
    rw [obs_congr huv inputingPassword fun _ => rfl]
    refine agree_bind low (agree_when (low_of_pub huv) fun _ => processPasswordInput_agree huv p q)
      (fun _ => rfl) (fun _ _ => id) fun _ u' v' hu' _ huv' => agree_get ?_
    have hkept : LoginKept u (exec (when (v.inputingPassword = true)
        (processPasswordInput (cfg.withPassword p))) u).2 :=
      along_when LoginKept.refl processPasswordInput_loginKept u
    rw [hu'] at hkept
    have hu'' : ¬ u'.inputingLogin = true := by
      rw [← hkept.2, hlogin]
      exact hin
    have hv'' : ¬ v'.inputingLogin = true := by
      rwa [← obs_congr huv' inputingLogin fun _ => rfl]
    rw [when_false hu'', when_false hv'']
    exact agree_pure huv' rfl

/-- A packet that echoes no password. -/
def NoEcho (cfg : Config) (s : TelnetHandler) : Event → Prop
  | .addPacket .frontend data => ¬ EchoesPassword cfg s data
  | _ => True

theorem logCommand_agree {s t : TelnetHandler} (h : low s = low t) (parent : Parent)
    (data : Bytes) : Agree low Eq (logCommand parent data) (logCommand parent data) s t := by
  unfold logCommand
  refine agree_get ?_
  rw [obs_congr h authDone fun _ => rfl]
  refine agree_when h fun _ => agree_bind low (agree_modify low (congrArg (fun v : TelnetHandler =>
    { v with currentCommand :=
        v.currentCommand ++ replace (replace data [13, 0] []) [13, 10] [] }) h))
    (fun _ => rfl) (fun _ _ => id) fun _ s₁ t₁ _ _ h₁ => agree_when h₁ fun _ => agree_get ?_
  rw [obs_congr h₁ currentCommand fun _ => rfl]
  refine agree_bind low (agree_when h₁ fun _ => agree_get (agree_modify low h₁)) (fun _ => rfl)
    (fun _ _ => id) fun _ s₂ t₂ _ _ h₂ => agree_modify low (congrArg (fun v : TelnetHandler =>
      { v with currentCommand := [] }) h₂)

/-- What goes to the backend may differ. -/
theorem forwardFrontend_low (s : TelnetHandler) : low (exec (forward cfg .frontend) s).2 = low s := by
  unfold forward
  rw [exec_get_bind]
  by_cases hc : s.sendData = true ∧ s.currentData ≠ []
  · rw [when_true hc]
    exact low_of_pub (sendBackend_ends cfg s.currentData s).2
  · rw [when_false hc]
    rfl

theorem forwardBackend_agree {s t : TelnetHandler} (h : pub s = pub t) :
    Agree pub Eq (forward cfg .backend) (forward cfg .backend) s t := by
  unfold forward
  refine agree_get ?_
  rw [obs_congr h sendData fun _ => rfl, obs_congr h currentData fun _ => rfl]
  exact agree_when h fun _ => sendFrontend_agree h _

/-- **One packet keeps the two runs alike** to the frontend, unless it echoes the password. -/
theorem addPacket_agree {s t : TelnetHandler} (h : low s = low t) (p q : Bytes) {parent : Parent}
    {data : Bytes} (hno : NoEcho cfg s (.addPacket parent data)) :
    Agree low (fun _ _ => True) (addPacket (cfg.withPassword p) parent data)
      (addPacket (cfg.withPassword q) parent data) s t := by
  unfold addPacket
  have h₀ : pub { s with currentData := data, sendData := true } =
      pub { t with currentData := data, sendData := true } :=
    congrArg (fun u : TelnetHandler => { u with currentData := data, sendData := true }) h
  refine agree_bind pub (agree_modify pub h₀) (fun _ => trivial) (fun _ _ => low_of_pub)
    fun _ u v hu _ huv => agree_get ?_
  obtain rfl : { s with currentData := data, sendData := true } = u := congrArg Prod.snd hu
  rw [← obs_congr huv authDone fun _ => rfl]
  cases parent with
  | backend =>
    refine (show Agree pub Eq _ _ _ _ from ?_).mono (fun _ _ _ => trivial) fun _ _ => low_of_pub
    refine agree_bind pub (agree_when huv fun _ => spoofBackend_agree huv p q) (fun _ => rfl)
      (fun _ _ => id) fun _ u' v' _ _ huv' => agree_bind pub (agree_get ?_) (fun _ => rfl)
        (fun _ _ => id) fun _ u'' v'' _ _ huv'' =>
          show Agree pub Eq (forward cfg .backend) (forward cfg .backend) u'' v'' from
            forwardBackend_agree huv''
    rw [when_false (by simp), when_false (by simp)]
    exact agree_pure huv' rfl
  | frontend =>
    refine agree_bind low (agree_when (low_of_pub huv) fun hspoof => spoofFrontend_agree huv p q ?_)
      (fun _ => trivial) (fun _ _ => id) fun _ u' v' _ _ huv' => ?_
    · exact fun hall => hno ⟨hspoof, ⟨hall.1, hall.2.1⟩, hall.2.2⟩
    · refine agree_bind low (logCommand_agree huv' _ _) (fun _ => trivial) (fun _ _ => id)
        fun _ u'' v'' _ _ huv'' => ⟨?_, trivial⟩
      rw [forwardFrontend_low, forwardFrontend_low]
      exact huv''

theorem mem_of_terminator {data : Bytes} {x : UInt8} (h : terminator data = some x) :
    (13 : UInt8) ∈ data := by
  obtain ⟨hlt, -⟩ := List.getElem?_eq_some_iff.mp h
  exact List.idxOf_lt_length_iff.mp (by omega)

/-- What the end of the password line leaves to the login input. -/
theorem processPasswordInput_ends {s : TelnetHandler} {x : UInt8} {text : List Nat}
    (hcol : Collects cfg s) (hx : terminator s.currentData = some x)
    (htext : unicodeEscape cfg.unicodeName (processBackspaces (typed s s.currentData)) = some text) :
    Ends (fun u => (u.toFrontend, u.inputingLogin, u.currentData)) (processPasswordInput cfg) s
      (.ok ()) (s.toFrontend, s.inputingLogin,
        passwordToSend cfg (cfg.checkUserPass s.checks.length) ++ [13] ++ encodeChr x) := by
  unfold processPasswordInput
  refine ends_bind (collectPassword_ends cfg hcol) fun u hu => ends_get ?_
  have hdata : u.currentData = s.currentData := obs_field hu currentData fun _ => rfl
  have hpass : u.passwordState = typed s s.currentData := obs_field hu passwordState fun _ => rfl
  have hchecks : u.checks = s.checks := obs_field hu checks fun _ => rfl
  rw [hdata, when_true (mem_of_terminator hx)]
  rw [← hdata] at hx
  rw [← hpass] at htext
  obtain ⟨hres, hpub⟩ := completePassword_ends cfg hx htext
  refine ⟨hres, Prod.ext ?_ (Prod.ext ?_ ?_)⟩
  · exact (obs_field hpub toFrontend fun _ => rfl).trans (obs_field hu toFrontend fun _ => rfl)
  · exact (obs_field hpub inputingLogin fun _ => rfl).trans (obs_field hu inputingLogin fun _ => rfl)
  · rw [← hchecks]
    exact obs_field hpub currentData fun _ => rfl

/-- **The leak**: a packet that completes the password while a login is typed is echoed with the
password of the backend in its place. -/
theorem addPacket_leaks {s : TelnetHandler} {data : Bytes} (h : EchoesPassword cfg s data) :
    ∃ accepted rest, rest ≠ [] ∧
      toFrontend (exec (addPacket cfg .frontend data) s).2 =
        s.toFrontend ++ [echo (passwordToSend cfg accepted ++ rest)] := by
  obtain ⟨hspoof, ⟨hpass, hlogin⟩, hneg, hcol, hfin⟩ := h
  obtain ⟨x, hx⟩ := Option.ne_none_iff_exists'.mp hfin.1
  obtain ⟨text, htext⟩ := Option.ne_none_iff_exists'.mp hfin.2
  refine ⟨cfg.checkUserPass s.checks.length, [13] ++ encodeChr x, by simp, ?_⟩
  unfold addPacket
  rw [exec_modify_bind, exec_get_bind, obs_bind toFrontend, when_true hspoof]
  · obtain ⟨u, hu, hpub⟩ := (setProcessingStateFrontend_ends cfg hneg).exec
    unfold spoof
    have hpass' : u.inputingPassword = true :=
      (obs_field hpub inputingPassword fun _ => rfl).trans hpass
    have hdata : u.currentData = negotiated cfg data := obs_field hpub currentData fun _ => rfl
    rw [exec_bind_ok hu, exec_get_bind, when_true hpass']
    have hcol' : Collects cfg u := (congrArg (Collects cfg) hpub).mpr hcol
    rw [← hdata] at hx
    have htext' := (congrArg (fun w => unicodeEscape cfg.unicodeName
      (processBackspaces (typed w w.currentData))) hpub).trans htext
    obtain ⟨v, hv, hvobs⟩ := (processPasswordInput_ends hcol' hx htext').exec
    obtain ⟨hfront, hrest⟩ := Prod.ext_iff.mp hvobs
    obtain ⟨hlogin', hdata'⟩ := Prod.ext_iff.mp hrest
    simp only at hfront hlogin' hdata'
    have hulogin : u.inputingLogin = true := (obs_field hpub inputingLogin fun _ => rfl).trans hlogin
    have hufront : u.toFrontend = s.toFrontend := obs_field hpub toFrontend fun _ => rfl
    have huchecks : u.checks = s.checks := obs_field hpub checks fun _ => rfl
    rw [exec_bind_ok hv, exec_get_bind, when_true (hlogin'.trans hulogin),
      processUsernameInput_toFrontend, hfront, hdata', hufront, huchecks, List.append_assoc]
  · refine fun _ => along_bind Quiet.trans (logCommand_quiet _ _) fun _ => along_get fun _ => ?_
    exact along_when Quiet.refl (sendBackend_quiet _)

theorem completes_congr {s t : TelnetHandler} (h : pub s = pub t) (p : Bytes)
    (hs : Completes cfg s) : Completes (cfg.withPassword p) t := by
  have hdata : s.currentData = t.currentData := obs_congr h currentData fun _ => rfl
  refine ⟨hdata ▸ hs.negotiates, ?_, ?_⟩
  · have hcol := hs.collects
    rw [hdata, obs_congr h prePasswordData fun _ => rfl, obs_congr h client fun _ => rfl] at hcol
    exact hcol
  · have hfin := hs.finishes
    unfold typed at hfin
    rw [hdata, obs_congr h passwordState fun _ => rfl] at hfin
    exact hfin

theorem echoesPassword_congr {s t : TelnetHandler} (h : low s = low t) (p : Bytes) {data : Bytes}
    (hs : EchoesPassword cfg s data) : EchoesPassword (cfg.withPassword p) t data := by
  obtain ⟨hspoof, hboth, hcomp⟩ := hs
  have hdone : s.authDone = t.authDone := obs_congr h authDone fun _ => rfl
  have hpass : s.inputingPassword = t.inputingPassword := obs_congr h inputingPassword fun _ => rfl
  have hlogin : s.inputingLogin = t.inputingLogin := obs_congr h inputingLogin fun _ => rfl
  refine ⟨hdone ▸ hspoof, hpass ▸ hlogin ▸ hboth, completes_congr ?_ p hcomp⟩
  exact congrArg (fun u : TelnetHandler => { u with currentData := data, sendData := true }) h

theorem replaceFrom_cons {x y : UInt8} (h : x ≠ y) (new b : Bytes) :
    replace (y :: b) [x] new = y :: replace b [x] new := by
  simp [replace, replaceFrom, h]

/-- An ordinary byte is echoed as it is. -/
theorem echo_cons {x : UInt8} (h : x ≠ 0x7f) (h' : x ≠ 0) (data : Bytes) :
    echo (x :: data) = x :: echo data := by
  unfold echo
  rw [replaceFrom_cons h.symm, replaceFrom_cons h'.symm]

theorem replace_ne_nil {x : UInt8} {new b : Bytes} (hnew : new ≠ []) (hb : b ≠ []) :
    replace b [x] new ≠ [] := by
  cases b with
  | nil => exact absurd rfl hb
  | cons y b =>
    by_cases hx : x = y
    · simp [replace, replaceFrom, hx, hnew]
    · simp [replaceFrom_cons hx]

theorem echo_ne_nil {data : Bytes} (h : data ≠ []) : echo data ≠ [] :=
  replace_ne_nil (by simp) (replace_ne_nil (by simp) h)

end TelnetHandler

/-! ## Whole runs -/

open TelnetHandler

/-- Everything the frontend is sent in a run. -/
def shown (cfg : Config) (events : List Event) : Option Bytes :=
  (run (step cfg) {} events).map fun s => s.toFrontend.flatten

variable {cfg : Config}

/-- One event without an echo keeps the two runs alike. -/
theorem step_low {s t u v : TelnetHandler} (h : low s = low t) (p q : Bytes) {e : Event}
    (hno : NoEcho cfg s e) (hu : step (cfg.withPassword p) s e = some u)
    (hv : step (cfg.withPassword q) t e = some v) : low u = low v := by
  cases e with
  | setClient =>
    obtain rfl := Option.some.inj hu
    obtain rfl := Option.some.inj hv
    exact congrArg (fun w : TelnetHandler => { w with client := true }) h
  | addPacket parent data =>
    obtain rfl := Option.some.inj hu
    obtain rfl := Option.some.inj hv
    exact (addPacket_agree h p q hno).1

theorem step_shows {s u : TelnetHandler} {e : Event} (hu : step cfg s e = some u) : Shows s u := by
  cases e with
  | setClient =>
    obtain rfl := Option.some.inj hu
    exact Shows.refl _
  | addPacket parent data =>
    obtain rfl := Option.some.inj hu
    exact addPacket_shows parent data s

theorem step_isSome (cfg : Config) (s : TelnetHandler) (e : Event) : ∃ u, step cfg s e = some u := by
  cases e <;> exact ⟨_, rfl⟩

theorem run_isSome (cfg : Config) (s : TelnetHandler) (events : List Event) :
    ∃ u, run (step cfg) s events = some u := by
  induction events generalizing s with
  | nil => exact ⟨s, rfl⟩
  | cons e events ih =>
    obtain ⟨u, hu⟩ := step_isSome cfg s e
    obtain ⟨v, hv⟩ := ih u
    exact ⟨v, run_cons.mpr ⟨u, hu, hv⟩⟩

/-- A run without an echo looks the same with another password. -/
theorem run_low {s t u v : TelnetHandler} {events : List Event} (h : low s = low t) (q : Bytes)
    (hmeet : StepsMeet (step cfg) (NoEcho cfg) s events) (hu : run (step cfg) s events = some u)
    (hv : run (step (cfg.withPassword q)) t events = some v) : low u = low v := by
  induction events generalizing s t with
  | nil =>
    obtain rfl : s = u := by simpa using hu
    obtain rfl : t = v := by simpa using hv
    exact h
  | cons e events ih =>
    obtain ⟨s', hs', hu'⟩ := run_cons.mp hu
    obtain ⟨t', ht', hv'⟩ := run_cons.mp hv
    exact ih (step_low h cfg.backendPassword q hmeet.1 hs' ht') (hmeet.2 s' hs') hu' hv'

theorem run_shows {s u : TelnetHandler} {events : List Event}
    (hu : run (step cfg) s events = some u) : Shows s u :=
  run_inv' (fun v _ _ hv hw => Shows.trans s v _ hv (step_shows hw)) (Shows.refl s) hu

/-- The bytes after an echo of the password. -/
theorem run_echo {s u : TelnetHandler} {data : Bytes} {events : List Event}
    (h : EchoesPassword cfg s data)
    (hu : run (step cfg) s (.addPacket .frontend data :: events) = some u) :
    ∃ accepted rest more, rest ≠ [] ∧ u.toFrontend.flatten =
      s.toFrontend.flatten ++ (echo (passwordToSend cfg accepted ++ rest) ++ more) := by
  obtain ⟨v, hv, hrest⟩ := run_cons.mp hu
  obtain rfl := Option.some.inj hv
  obtain ⟨accepted, rest, hne, hleak⟩ := addPacket_leaks h
  obtain ⟨more, hmore⟩ := run_shows hrest
  refine ⟨accepted, rest, more.flatten, hne, ?_⟩
  rw [← hmore]
  rw [hleak]
  simp

/-- A one-byte password and its echo. -/
theorem echo_password (cfg : Config) (c : Char) (x : UInt8) (hc : encode (String.singleton c) = [x])
    (h : x ≠ 0x7f) (h' : x ≠ 0) (accepted : Bool) (rest : Bytes) :
    ∃ more, echo (passwordToSend (cfg.withPassword (encode (String.singleton c))) accepted ++ rest) =
      x :: more := by
  unfold passwordToSend
  cases accepted with
  | true => exact ⟨_, by rw [if_pos rfl]; simp only [Config.withPassword, hc]; exact echo_cons h h' _⟩
  | false =>
    exact ⟨_, by
      rw [if_neg (by simp)]
      simp only [Config.withPassword, hc, List.append_assoc]
      exact echo_cons h h' _⟩

theorem echoes_of_not {s : TelnetHandler} {e : Event} (h : ¬ NoEcho cfg s e) :
    ∃ data, e = .addPacket .frontend data ∧ EchoesPassword cfg s data := by
  cases e with
  | setClient => exact absurd trivial h
  | addPacket parent data =>
    cases parent with
    | frontend => exact ⟨data, rfl, not_not.mp h⟩
    | backend => exact absurd trivial h

/-- **A run with an echo** looks different with some other password. -/
theorem run_leaks {s u : TelnetHandler} {events : List Event} {t v : String → TelnetHandler}
    (h : ∀ w, low s = low (t w)) (hu : run (step cfg) s events = some u)
    (hv : ∀ w, run (step (cfg.withPassword (encode w))) (t w) events = some (v w))
    (hnot : ¬ StepsMeet (step cfg) (NoEcho cfg) s events) :
    ∃ w, (v w).toFrontend.flatten ≠ u.toFrontend.flatten := by
  induction events generalizing s t with
  | nil => exact absurd trivial hnot
  | cons e events ih =>
    by_cases hno : NoEcho cfg s e
    · obtain ⟨s', hs', hu'⟩ := run_cons.mp hu
      choose t' ht' hv' using fun w => run_cons.mp (hv w)
      refine ih (fun w => step_low (h w) cfg.backendPassword (encode w) hno hs' (ht' w)) hu' hv'
        fun hmeet => hnot ⟨hno, fun s'' hs'' => ?_⟩
      exact Option.some.inj (hs'.symm.trans hs'') ▸ hmeet
    · -- the echoes of two passwords that start differently are different
      obtain ⟨data, rfl, hecho⟩ := echoes_of_not hno
      obtain ⟨accepted, rest, more, hne, hout⟩ := run_echo hecho hu
      have hfirst : echo (passwordToSend cfg accepted ++ rest) ≠ [] :=
        echo_ne_nil (by simp [hne])
      obtain ⟨b, tail, hb⟩ := List.exists_cons_of_ne_nil hfirst
      have hother : ∀ c x, encode (String.singleton c) = [x] → x ≠ 0x7f → x ≠ 0 → x ≠ b →
          (v (String.singleton c)).toFrontend.flatten ≠ u.toFrontend.flatten := by
        intro c x hc h7 h0 hx heq
        obtain ⟨accepted', rest', more', -, hout'⟩ := run_echo
          (echoesPassword_congr (h (String.singleton c)) (encode (String.singleton c)) hecho)
          (hv (String.singleton c))
        obtain ⟨tail', ht'⟩ := echo_password cfg c x hc h7 h0 accepted' rest'
        have hfront : (t (String.singleton c)).toFrontend = s.toFrontend :=
          (obs_congr (h (String.singleton c)) toFrontend fun _ => rfl).symm
        rw [hout', hout, hfront, ht', hb] at heq
        exact hx (List.cons.inj (List.append_cancel_left heq)).1
      by_cases h97 : b = 97
      · exact ⟨_, hother 'b' 98 (by decide +kernel) (by decide) (by decide) (by rw [h97]; decide)⟩
      · exact ⟨_, hother 'a' 97 (by decide +kernel) (by decide) (by decide) (Ne.symm h97)⟩

/-! ## Every run -/

/-- The prompts of the configuration the program ships with, as far as they are used here. -/
def promptConfig : Config where
  backendLogin := encode "root"
  backendPassword := encode "root"
  usernameInNegotiation := ⟨fun _ => none, fun _ data => data⟩
  usernamePrompt := fun data => (encode "ubuntu login: ").isPrefixOf data
  passwordPrompt := Bytes.contains (encode "Password: ")
  checkUserPass := fun _ => false
  unicodeName := fun _ => none

/-- Both prompts of the backend, then one line of the frontend. -/
def bothPrompts : List Event :=
  [.addPacket .backend (encode "ubuntu login: "), .addPacket .backend (encode "Password: "),
    .addPacket .frontend (encode "x\r\n")]

/-- **The password of the backend is shown**: the frontend reads it off the echo of the login. -/
theorem secret_leaked :
    shown promptConfig bothPrompts = some (encode "ubuntu login: Password: rootfake\r\n") ∧
      shown (promptConfig.withPassword (encode "toor")) bothPrompts ≠
        shown promptConfig bothPrompts := by
  decide +kernel

/-- **When the password of the backend is secret.** What the frontend is sent is the same for
every password of the backend iff no packet of the frontend completes the password while a login
is being typed. -/
theorem secret_iff_noEcho (cfg : Config) (events : List Event) :
    (∀ password : String, shown (cfg.withPassword (encode password)) events = shown cfg events) ↔
      StepsMeet (step cfg) (NoEcho cfg) {} events := by
  obtain ⟨u, hu⟩ := run_isSome cfg {} events
  choose v hv using fun w : String => run_isSome (cfg.withPassword (encode w)) {} events
  unfold shown
  rw [hu]
  constructor
  · intro hall
    by_contra hnot
    obtain ⟨w, hw⟩ := run_leaks (fun _ => rfl) hu hv hnot
    have hsame := hall w
    rw [hv w] at hsame
    exact hw (Option.some.inj hsame)
  · intro hmeet w
    have hlow := run_low (t := {}) rfl (encode w) hmeet hu (hv w)
    have hfront : u.toFrontend = (v w).toFrontend := obs_congr hlow toFrontend fun _ => rfl
    rw [hv w, Option.map_some, Option.map_some, hfront]

end Cowrie.TelnetProxy
