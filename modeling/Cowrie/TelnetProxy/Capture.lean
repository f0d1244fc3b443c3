import Cowrie.Lib.Ensures
import Cowrie.TelnetProxy.ToBackend

/-!
# The capture of credentials, packet by packet (`src/cowrie/telnet_proxy/handler.py:176-301`)

Until the attacker is logged in, the handler collects what is typed at the prompts, and answers each line with
credentials of its own.

* `kept`: what the capture reads and writes. What waits for the backend counts as sent (`forBackend`), and
  what is shown or logged does not matter; `settled` is `kept` between two packets.
* **`addPacket_username_returns`**, **`addPacket_password_returns`**, **`addPacket_backend_returns`**: exactly
  when a packet is processed without an exception, and how it leaves the state.
-/

namespace Cowrie.TelnetProxy

open Cowrie.Lib TelnetHandler

variable {cfg : Config}

/-! ## What the capture of a login reads and writes -/

/-- The bytes for the backend, written or waiting. -/
def TelnetHandler.forBackend (s : TelnetHandler) : Bytes := (s.toBackend ++ s.backendBuffer).flatten

/-- What the frontend can see and the bytes for the backend, but not what has been shown. -/
def TelnetHandler.kept (s : TelnetHandler) : TelnetHandler :=
  { pub s with toFrontend := [], timeout := none, currentCommand := [], toBackend := [s.forBackend] }

/-- `kept` between two packets. -/
def TelnetHandler.settled (s : TelnetHandler) : TelnetHandler :=
  { s.kept with currentData := [], sendData := true }

/-- `data` has been sent to the backend. -/
def TelnetHandler.sentTo (data : Bytes) (s : TelnetHandler) : TelnetHandler :=
  { s with toBackend := [s.toBackend.flatten ++ data] }

/-- Writing `data` raises nothing. -/
def Writable (cfg : Config) (data : Bytes) : Prop :=
  cfg.logRaw → unicodeEscape cfg.unicodeName data ≠ none

theorem written_iff (data : Bytes) : written cfg data = .ok () ↔ Writable cfg data := by
  unfold written Writable
  split_ifs with h
  · exact iff_of_false (fun h => by cases h) fun hw => hw h.1 h.2
  · exact iff_of_true rfl fun hraw hnone => h ⟨hraw, hnone⟩

theorem writable_nil : Writable cfg [] := fun _ h => by cases h

theorem logRaw_returns (label : String) (data : Bytes) (s : TelnetHandler) :
    Returns (Writable cfg data) (logRaw cfg label data) (fun _ t => t.kept = s.kept) s := by
  unfold logRaw decoded Writable
  refine returns_when (fun hraw => ?_) fun _ => rfl
  cases h : unicodeEscape cfg.unicodeName data with
  | none => exact returns_fail (e := .unicodeDecodeError) rfl fun h => h rfl
  | some text => exact (returns_step rfl (returns_modify rfl)).congr (by simp)

theorem kept_of_sent {s t : TelnetHandler} {data : Bytes} (hpub : t.pub = s.pub)
    (hsent : t.forBackend = s.forBackend ++ data) : t.kept = sentTo data s.kept := by
  have h := congrArg₂ (fun (u : TelnetHandler) (b : Bytes) =>
    { u with toFrontend := [], timeout := none, currentCommand := [], toBackend := [b] }) hpub hsent
  refine h.trans ?_
  unfold sentTo kept
  simp

theorem sendBackend_returns (data : Bytes) (s : TelnetHandler) :
    Returns (s.client → Writable cfg data) (sendBackend cfg data)
      (fun _ t => t.kept = sentTo data s.kept) s := by
  have hends := sendBackend_ends cfg data s
  cases hclient : s.client with
  | false =>
    refine (show Returns True _ _ _ from ?_).congr (by simp)
    unfold Returns Ensures
    rw [sendBackend_waits data hclient]
    refine ⟨trivial, kept_of_sent rfl ?_⟩
    simp [forBackend]
  | true =>
    rw [if_pos hclient] at hends
    cases hw : written cfg data with
    | error e =>
      rw [hw] at hends
      obtain ⟨t, hexec, -⟩ := Ends.exec hends
      unfold Returns Ensures
      rw [hexec]
      intro hwritable
      rw [(written_iff data).mpr (hwritable rfl)] at hw
      cases hw
    | ok a =>
      rw [hw] at hends
      obtain ⟨t, hexec, hpub⟩ := Ends.exec hends
      obtain ⟨u, hexec', hout⟩ := Ends.exec (sendBackend_outgoing hw hclient)
      obtain rfl : t = u := (Prod.mk.inj (hexec.symm.trans hexec')).2
      obtain ⟨-, -, hwaiting, hsent, -⟩ := Outgoing.mk.inj hout
      unfold Returns Ensures
      rw [hexec]
      refine ⟨fun _ => (written_iff data).mp hw, kept_of_sent hpub ?_⟩
      unfold forBackend
      rw [hwaiting, hsent]
      simp

theorem sendFrontend_returns (data : Bytes) (s : TelnetHandler) :
    Returns (Writable cfg data) (sendFrontend cfg data) (fun _ t => t.kept = s.kept) s := by
  unfold sendFrontend
  refine returns_then (returns_modify ?_)
  refine returns_before ((logRaw_returns _ data _).weaken fun _ t ht => ?_)
  exact returns_step rfl (returns_when_true (fun _ => returns_modify ht) fun _ => ht)

/-- The log of commands keeps everything else. -/
theorem logCommand_returns (parent : Parent) (data : Bytes) (s : TelnetHandler) :
    Returns True (logCommand parent data) (fun _ t => t.kept = s.kept) s := by
  unfold logCommand
  refine returns_step rfl (returns_when_true (fun _ => ?_) fun _ => rfl)
  refine returns_then (returns_modify (returns_step rfl (returns_when_true (fun _ => ?_) fun _ => rfl)))
  refine returns_step rfl (returns_then (returns_when_true (fun _ => ?_) fun _ => returns_modify rfl))
  exact returns_step rfl (returns_modify (returns_modify rfl))

/-- What was typed is answered with a line. -/
theorem finish_sends {s x : TelnetHandler} {reply : Bytes} (hs : s.kept = x) (hsend : x.sendData = true)
    (hreply : x.currentData = reply) (hne : reply ≠ []) (data : Bytes) :
    Returns (s.client → Writable cfg reply) (logCommand .frontend data >>= fun _ => forward cfg .frontend)
      (fun _ t => t.settled = sentTo reply { x with currentData := [], sendData := true }) s := by
  refine returns_then ((logCommand_returns .frontend data s).weaken fun _ t ht => ?_)
  rw [hs] at ht
  have hcurrent : t.currentData = reply := (obs_field ht currentData fun _ => rfl).trans hreply
  have hclient : t.client = s.client := obs_field (ht.trans hs.symm) client fun _ => rfl
  have hwrite : Returns _ (sendBackend cfg t.currentData) _ t := sendBackend_returns t.currentData t
  unfold forward
  refine returns_step rfl ?_
  rw [when_true ⟨(obs_field ht sendData fun _ => rfl).trans hsend, by rwa [hcurrent]⟩]
  rw [hcurrent, hclient, ht] at hwrite
  rw [hcurrent]
  exact hwrite.weaken fun _ u hu => congrArg (fun v : TelnetHandler =>
    { v with currentData := [], sendData := true }) hu

/-- What was typed is withheld. -/
theorem finish_withholds {s x : TelnetHandler} (hs : s.kept = x) (hsend : x.sendData = false) (data : Bytes) :
    Returns True (logCommand .frontend data >>= fun _ => forward cfg .frontend)
      (fun _ t => t.settled = { x with currentData := [], sendData := true }) s := by
  refine returns_then ((logCommand_returns .frontend data s).weaken fun _ t ht => ?_)
  rw [hs] at ht
  unfold forward
  refine returns_step rfl (returns_when_true (fun h => absurd h.1 ?_) fun _ => ?_)
  · rw [show t.sendData = x.sendData from obs_field ht sendData fun _ => rfl, hsend]
    exact Bool.false_ne_true
  · exact congrArg (fun u : TelnetHandler => { u with currentData := [], sendData := true }) ht

/-- What the backend sent is shown. -/
theorem finish_displays {s x : TelnetHandler} (hs : s.kept = x) (hsend : x.sendData = true) (data : Bytes) :
    Returns (Writable cfg x.currentData) (logCommand .backend data >>= fun _ => forward cfg .backend)
      (fun _ t => t.settled = { x with currentData := [], sendData := true }) s := by
  refine returns_then ((logCommand_returns .backend data s).weaken fun _ t ht => ?_)
  rw [hs] at ht
  have hcurrent : t.currentData = x.currentData := obs_field ht currentData fun _ => rfl
  rw [← hcurrent]
  unfold forward
  refine returns_step rfl ?_
  by_cases hempty : t.currentData = []
  · rw [when_false fun h => h.2 hempty, hempty]
    refine (show Returns True _ _ _ from returns_pure ?_).congr (iff_of_true trivial writable_nil)
    exact congrArg (fun u : TelnetHandler => { u with currentData := [], sendData := true }) ht
  · rw [when_true ⟨(obs_field ht sendData fun _ => rfl).trans hsend, hempty⟩]
    exact (sendFrontend_returns t.currentData t).weaken fun _ u hu => congrArg (fun v : TelnetHandler =>
      { v with currentData := [], sendData := true }) (hu.trans ht)

/-! ## The user name -/

/-- The user name typed so far, with `data`. -/
def namedBy (s : TelnetHandler) (data : Bytes) : Bytes :=
  s.usernameState ++ removeAll data [[13], [0], [10]]

/-- The line that the backend gets for the line of a user name, or of a password, that `data` ends. -/
def answerLine (answer data : Bytes) : Bytes := answer ++ [13] ++ encodeChr ((terminator data).getD 0)

theorem answerLine_ne_nil (answer data : Bytes) : answerLine answer data ≠ [] := by simp [answerLine]

/-- The state after the line of the user name. -/
def afterUsername (cfg : Config) (username data : Bytes) (s : TelnetHandler) : TelnetHandler :=
  { s with
    usernameState := processBackspaces username
    inputingLogin := false
    currentData := answerLine cfg.backendLogin data
    sendData := true
    waitingLoginEcho := true }

theorem processUsernameInput_returns (s : TelnetHandler) :
    Returns (Writable cfg (echo s.currentData) ∧
        (13 ∈ s.currentData → Finishes cfg (namedBy s s.currentData) s.currentData))
      (processUsernameInput cfg)
      (fun _ t => t.kept = if 13 ∈ s.currentData
        then afterUsername cfg (namedBy s s.currentData) s.currentData s.kept
        else { s.kept with sendData := false, usernameState := namedBy s s.currentData }) s := by
  unfold processUsernameInput
  refine returns_then (returns_modify (returns_step rfl ?_))
  refine returns_bind ((sendFrontend_returns _ _).weaken fun _ t ht => returns_step rfl ?_)
  have hdata : t.currentData = s.currentData := obs_field ht currentData fun _ => rfl
  have hname : t.usernameState = namedBy s s.currentData := obs_field ht usernameState fun _ => rfl
  rw [hdata]
  refine returns_when (fun hmem => ?_) fun hmem => by rw [if_neg hmem]; exact ht
  rw [if_pos hmem]
  unfold Finishes terminatingChar decoded
  refine returns_step rfl ?_
  rw [hdata]
  cases hx : terminator s.currentData with
  | none => exact returns_fail (e := .indexError) rfl fun h => h.1 rfl
  | some x =>
    refine returns_step rfl (returns_then (returns_modify (returns_step rfl ?_)))
    simp only [hname]
    cases htext : unicodeEscape cfg.unicodeName (processBackspaces (namedBy s s.currentData)) with
    | none => exact returns_fail (e := .unicodeDecodeError) rfl fun h => h.2 rfl
    | some text =>
      refine (returns_step rfl (returns_then (returns_modify (returns_modify ?_)))).congr (by simp)
      unfold afterUsername answerLine
      rw [hx]
      exact congrArg (fun u : TelnetHandler => { u with
        usernameState := processBackspaces (namedBy s s.currentData)
        inputingLogin := false
        currentData := cfg.backendLogin ++ [13] ++ encodeChr x
        sendData := true
        waitingLoginEcho := true }) ht

/-- The credentials are spoofed, and `data` is no negotiation. -/
structure Spoofed (cfg : Config) (s : TelnetHandler) (data : Bytes) : Prop where
  spoofs : cfg.spoofAuthenticationData = true
  authDone : s.authDone = false
  plain : cfg.usernameInNegotiation.search data = none

/-- What a packet of the frontend is processed by. -/
theorem exec_addPacket_plain {s : TelnetHandler} {data : Bytes} (h : Spoofed cfg s data) :
    exec (addPacket cfg .frontend data) s = exec (do
        when s.inputingPassword (processPasswordInput cfg)
        when (← get).inputingLogin (processUsernameInput cfg)
        logCommand .frontend data
        forward cfg .frontend)
      { s with currentData := data, sendData := true } := by
  unfold addPacket spoof setProcessingStateFrontend
  rw [exec_modify_bind, exec_get_bind, when_true ⟨h.spoofs, h.authDone⟩, bind_assoc, bind_assoc,
    exec_get_bind]
  simp only [h.plain, pure_bind, bind_assoc]
  rw [exec_get_bind]

/-- **A packet of the line of the user name.** -/
theorem addPacket_username_returns {s : TelnetHandler} {data : Bytes} (h : Spoofed cfg s data)
    (hpassword : s.inputingPassword = false) (hlogin : s.inputingLogin = true) :
    Returns ((Writable cfg (echo data) ∧ (13 ∈ data → Finishes cfg (namedBy s data) data)) ∧
        (13 ∈ data → s.client → Writable cfg (answerLine cfg.backendLogin data)))
      (addPacket cfg .frontend data)
      (fun _ t => t.settled = if 13 ∈ data
        then sentTo (answerLine cfg.backendLogin data)
          { s.settled with
            usernameState := processBackspaces (namedBy s data)
            inputingLogin := false
            waitingLoginEcho := true }
        else { s.settled with usernameState := namedBy s data }) s := by
  unfold Returns Ensures
  rw [exec_addPacket_plain h, when_false (by simp [hpassword]), pure_bind, exec_get_bind, when_true hlogin]
  refine returns_bind ((processUsernameInput_returns _).weaken fun _ t ht => ?_)
  by_cases hmem : 13 ∈ data
  · rw [if_pos hmem] at ht ⊢
    have hclient : t.client = s.client := obs_field ht client fun _ => rfl
    refine (finish_sends ht rfl rfl (answerLine_ne_nil cfg.backendLogin data) data).congr ?_
    rw [hclient]
    exact ⟨fun h _ => h, fun h => h hmem⟩
  · rw [if_neg hmem] at ht ⊢
    exact (finish_withholds ht rfl data).congr (by simp [hmem])

/-! ## The password -/

/-- The first bytes after a prompt with a negotiation go to the backend. -/
def prefixed (negotiates : Bool) (data : Bytes) (s : TelnetHandler) : TelnetHandler :=
  if negotiates then sentTo (data.take 3) s else s

theorem prefixed_field {α : Type} (negotiates : Bool) (data : Bytes) (s : TelnetHandler)
    (f : TelnetHandler → α) (hf : ∀ (b : Bytes) (u : TelnetHandler), f (sentTo b u) = f u) :
    f (prefixed negotiates data s) = f s := by
  unfold prefixed
  split_ifs
  · exact hf _ s
  · rfl

theorem collectPassword_returns (s : TelnetHandler) :
    Returns (s.prePasswordData → s.client → Writable cfg (s.currentData.take 3)) (collectPassword cfg)
      (fun _ t => t.kept = prefixed s.prePasswordData s.currentData { s.kept with
        sendData := false
        prePasswordData := false
        passwordState := typed s s.currentData }) s := by
  unfold collectPassword
  refine returns_then (returns_modify (returns_step rfl (returns_before ?_)))
  refine returns_when (fun hpre => returns_step rfl (returns_before ?_)) fun hpre => returns_modify ?_
  · refine (sendBackend_returns _ _).weaken fun _ t ht => returns_modify (returns_modify ?_)
    unfold prefixed
    rw [if_pos hpre]
    exact congrArg (fun u : TelnetHandler =>
      { u with prePasswordData := false, passwordState := typed u u.currentData }) ht
  · unfold prefixed
    rw [if_neg hpre, ← show s.prePasswordData = false by simpa using hpre]
    rfl

theorem choosePassword_returns (s : TelnetHandler) :
    Returns True (choosePassword cfg)
      (fun password t => password = passwordToSend cfg (cfg.checkUserPass s.checks.length) ∧
        t.kept = { s.kept with
          checks := s.checks ++ [(s.usernameState, s.passwordState)]
          authDone := cfg.checkUserPass s.checks.length || s.authDone }) s := by
  unfold choosePassword passwordToSend
  refine returns_then (returns_modify (returns_step rfl ?_))
  simp only [List.length_append, List.length_singleton, Nat.add_sub_cancel]
  cases hcheck : cfg.checkUserPass s.checks.length with
  | true => exact returns_then (returns_modify (returns_pure ⟨rfl, rfl⟩))
  | false => exact returns_then (returns_modify (returns_pure ⟨rfl, rfl⟩))

/-- The credentials have been checked. -/
def checked (cfg : Config) (password : Bytes) (s : TelnetHandler) : TelnetHandler :=
  { s with
    passwordState := processBackspaces password
    inputingPassword := false
    checks := s.checks ++ [(s.usernameState, processBackspaces password)]
    authDone := cfg.checkUserPass s.checks.length || s.authDone }

/-- The password that is sent for the credentials of `s`. -/
def chosen (cfg : Config) (s : TelnetHandler) : Bytes :=
  passwordToSend cfg (cfg.checkUserPass s.checks.length)

theorem completePassword_returns (s : TelnetHandler) :
    Returns (Finishes cfg s.passwordState s.currentData) (completePassword cfg)
      (fun _ t => t.kept = { checked cfg s.passwordState s.kept with
        currentData := answerLine (chosen cfg s) s.currentData
        sendData := true }) s := by
  unfold completePassword Finishes terminatingChar decoded
  refine returns_step rfl ?_
  cases hx : terminator s.currentData with
  | none => exact returns_fail (e := .indexError) rfl fun h => h.1 rfl
  | some x =>
    refine returns_step rfl (returns_then (returns_modify (returns_step rfl ?_)))
    simp only
    cases htext : unicodeEscape cfg.unicodeName (processBackspaces s.passwordState) with
    | none => exact returns_fail (e := .unicodeDecodeError) rfl fun h => h.2 rfl
    | some text =>
      refine (returns_step rfl (returns_then (returns_modify (returns_then (returns_modify (returns_then
        ((choosePassword_returns _).weaken fun password t ht => returns_modify ?_))))))).congr (by simp)
      obtain ⟨rfl, ht⟩ := ht
      unfold checked answerLine
      rw [hx]
      exact congrArg (fun u : TelnetHandler => { u with
        currentData := chosen cfg s ++ [13] ++ encodeChr x
        sendData := true }) ht

theorem processPasswordInput_returns (s : TelnetHandler) :
    Returns ((s.prePasswordData → s.client → Writable cfg (s.currentData.take 3)) ∧
        (13 ∈ s.currentData → Finishes cfg (typed s s.currentData) s.currentData))
      (processPasswordInput cfg)
      (fun _ t => t.kept = prefixed s.prePasswordData s.currentData (if 13 ∈ s.currentData
        then { checked cfg (typed s s.currentData) s.kept with
          prePasswordData := false
          currentData := answerLine (chosen cfg s) s.currentData
          sendData := true }
        else { s.kept with
          sendData := false
          prePasswordData := false
          passwordState := typed s s.currentData })) s := by
  unfold processPasswordInput
  refine returns_bind ((collectPassword_returns s).weaken fun _ t ht => returns_step rfl ?_)
  have hdata : t.currentData = s.currentData :=
    (obs_field ht currentData fun _ => rfl).trans (prefixed_field _ _ _ currentData fun _ _ => rfl)
  have hpassword : t.passwordState = typed s s.currentData :=
    (obs_field ht passwordState fun _ => rfl).trans (prefixed_field _ _ _ passwordState fun _ _ => rfl)
  have hchecks : t.checks = s.checks :=
    (obs_field ht TelnetHandler.checks fun _ => rfl).trans
      (prefixed_field _ _ _ TelnetHandler.checks fun _ _ => rfl)
  rw [hdata]
  refine returns_when (fun hmem => ?_) fun hmem => by rw [if_neg hmem]; exact ht
  rw [if_pos hmem]
  have hcomplete : Returns _ (completePassword cfg) _ t := completePassword_returns t
  rw [hdata, hpassword, ht, chosen, hchecks] at hcomplete
  refine hcomplete.weaken fun _ u hu => hu.trans ?_
  unfold prefixed
  split_ifs <;> rfl

/-- **A packet of the line of the password.** -/
theorem addPacket_password_returns {s : TelnetHandler} {data : Bytes} (h : Spoofed cfg s data)
    (hpassword : s.inputingPassword = true) (hlogin : s.inputingLogin = false) :
    Returns (((s.prePasswordData → s.client → Writable cfg (data.take 3)) ∧
          (13 ∈ data → Finishes cfg (typed s data) data)) ∧
        (13 ∈ data → s.client → Writable cfg (answerLine (chosen cfg s) data)))
      (addPacket cfg .frontend data)
      (fun _ t => t.settled = if 13 ∈ data
        then sentTo (answerLine (chosen cfg s) data) (prefixed s.prePasswordData data
          { checked cfg (typed s data) s.settled with prePasswordData := false })
        else prefixed s.prePasswordData data
          { s.settled with prePasswordData := false, passwordState := typed s data }) s := by
  unfold Returns Ensures
  rw [exec_addPacket_plain h, when_true hpassword]
  refine returns_bind ((processPasswordInput_returns _).weaken fun _ t ht => returns_step rfl ?_)
  have hfield := fun {α : Type} (f : TelnetHandler → α) (hf : ∀ u : TelnetHandler, f u.kept = f u)
    (hsent : ∀ (b : Bytes) (u : TelnetHandler), f (sentTo b u) = f u) =>
      (obs_field ht f hf).trans (prefixed_field _ _ _ f hsent)
  have hlogin' : t.inputingLogin = false := by
    rw [hfield inputingLogin (fun _ => rfl) fun _ _ => rfl]
    split_ifs <;> exact hlogin
  rw [when_false (by simp [hlogin']), pure_bind]
  by_cases hmem : 13 ∈ data
  · rw [if_pos hmem] at ht ⊢
    have hclient : t.client = s.client :=
      (obs_field ht client fun _ => rfl).trans (prefixed_field _ _ _ client fun _ _ => rfl)
    refine ((finish_sends ht (prefixed_field _ _ _ sendData fun _ _ => rfl)
      (prefixed_field _ _ _ currentData fun _ _ => rfl) (answerLine_ne_nil (chosen cfg s) data) data).weaken
      fun _ u hu => hu.trans ?_).congr ?_
    · unfold prefixed
      split_ifs <;> rfl
    · rw [hclient]
      exact ⟨fun h _ => h, fun h => h hmem⟩
  · rw [if_neg hmem] at ht ⊢
    refine ((finish_withholds ht (prefixed_field _ _ _ sendData fun _ _ => rfl) data).weaken
      fun _ u hu => hu.trans ?_).congr (by simp [hmem])
    unfold prefixed
    split_ifs <;> rfl

/-! ## The prompts -/

/-- The prompts in a packet of the backend. -/
def prompted (cfg : Config) (data : Bytes) (s : TelnetHandler) : TelnetHandler :=
  { s with
    authStarted := cfg.usernamePrompt data || cfg.passwordPrompt data || s.authStarted
    inputingPassword := cfg.passwordPrompt data || s.inputingPassword
    passwordState := bif cfg.passwordPrompt data then [] else s.passwordState
    inputingLogin := cfg.usernamePrompt data || s.inputingLogin
    usernameState := bif cfg.usernamePrompt data then [] else s.usernameState
    prePasswordData := Bytes.contains [0xff, 0xfb, 1] data }

/-- What the user sees of a packet of the backend. -/
def displayed (cfg : Config) (waitingLoginEcho : Bool) (data : Bytes) : Bytes :=
  if waitingLoginEcho then replace data (cfg.backendLogin ++ [13, 10]) [] else data

theorem setProcessingStateBackend_returns (s : TelnetHandler) :
    Returns True (setProcessingStateBackend cfg)
      (fun _ t => t.kept = prompted cfg s.currentData s.kept) s := by
  unfold setProcessingStateBackend prompted
  refine returns_step rfl ?_
  cases cfg.passwordPrompt s.currentData with
  | true =>
    refine returns_step rfl (returns_step rfl ?_)
    cases cfg.usernamePrompt s.currentData <;> exact returns_step rfl (returns_modify rfl)
  | false =>
    refine returns_step rfl (returns_step rfl ?_)
    cases cfg.usernamePrompt s.currentData <;> exact returns_step rfl (returns_modify rfl)

/-- **A packet of the backend.** -/
theorem addPacket_backend_returns {s : TelnetHandler} (hspoof : cfg.spoofAuthenticationData = true)
    (hauth : s.authDone = false) (data : Bytes) :
    Returns (Writable cfg (displayed cfg s.waitingLoginEcho data)) (addPacket cfg .backend data)
      (fun _ t => t.settled = { prompted cfg data s.settled with waitingLoginEcho := false }) s := by
  unfold addPacket spoof captureEcho
  refine returns_then (returns_modify (returns_step rfl ?_))
  rw [when_true ⟨hspoof, hauth⟩, bind_assoc]
  refine returns_then ((setProcessingStateBackend_returns _).weaken fun _ t ht => ?_)
  rw [bind_assoc]
  refine returns_step rfl ?_
  have hwaiting : t.waitingLoginEcho = s.waitingLoginEcho := obs_field ht waitingLoginEcho fun _ => rfl
  rw [hwaiting]
  unfold displayed
  by_cases hecho : s.waitingLoginEcho
  · rw [when_true hecho, if_pos hecho]
    have hcaptured : TelnetHandler.kept { t with
        currentData := replace t.currentData (cfg.backendLogin ++ [13, 10]) []
        waitingLoginEcho := false } = _ := congrArg (fun u : TelnetHandler => { u with
      currentData := replace u.currentData (cfg.backendLogin ++ [13, 10]) []
      waitingLoginEcho := false }) ht
    exact returns_step rfl (finish_displays hcaptured rfl data)
  · have hquiet : s.waitingLoginEcho = false := by simpa using hecho
    rw [when_false hecho, if_neg hecho, pure_bind, ← hquiet]
    exact finish_displays ht rfl data

end Cowrie.TelnetProxy
