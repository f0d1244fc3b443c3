import Cowrie.TelnetProxy.Handler

/-!
# What the frontend can see of the telnet proxy's handler

`pub` is what the frontend can see of a state, `low` is `pub` without `currentData`, which the next
packet overwrites. Each step of `addPacket` is described by how it ends for the frontend.

* **`sendBackend_ends`**: what goes to the backend does not show, and raises the same whatever
  is buffered.
* `setProcessingStateFrontend_ends`, `collectPassword_ends`, **`completePassword_ends`**: the steps
  of a packet that completes the password; the `raises` lemmas are their error paths.
-/

namespace Cowrie.TelnetProxy

open Cowrie.Lib

namespace TelnetHandler

variable (cfg : Config)

/-! ## What the frontend can see -/

/-- Everything but what goes to the backend and to the logs. -/
def pub (s : TelnetHandler) : TelnetHandler :=
  { s with backendBuffer := [], toBackend := [], ttylog := [], ttylogSize := 0, log := [] }

/-- `pub` without `currentData`, which the next packet overwrites. -/
def low (s : TelnetHandler) : TelnetHandler := { pub s with currentData := [] }

theorem low_of_pub {s t : TelnetHandler} (h : pub s = pub t) : low s = low t :=
  congrArg (fun u => { u with currentData := [] }) h

/-- The result of a write whose data may be logged raw. -/
def written (data : Bytes) : Except PyError Unit :=
  if cfg.logRaw ∧ unicodeEscape cfg.unicodeName data = none then .error .unicodeDecodeError
  else .ok ()

theorem logRaw_ends (label : String) (data : Bytes) (s : TelnetHandler) :
    Ends pub (logRaw cfg label data) s (written cfg data) (pub s) := by
  unfold logRaw written decoded
  by_cases hraw : cfg.logRaw
  · rw [when_true hraw]
    cases unicodeEscape cfg.unicodeName data with
    | none =>
      rw [if_pos ⟨hraw, rfl⟩]
      exact ⟨rfl, rfl⟩
    | some text =>
      rw [if_neg (by simp)]
      exact ⟨rfl, rfl⟩
  · rw [when_false hraw, if_neg fun h => hraw h.1]
    exact ⟨rfl, rfl⟩

theorem writeBackend_ends (data packet : Bytes) (s : TelnetHandler) :
    Ends pub (writeBackend cfg data packet) s (written cfg data) (pub s) := by
  unfold writeBackend
  refine ends_modify_bind ?_
  have hraw := logRaw_ends cfg "to_backend - " data { s with toBackend := s.toBackend ++ [packet] }
  cases hw : written cfg data with
  | error e =>
    rw [hw] at hraw
    exact ends_bind_error hraw
  | ok a =>
    rw [hw] at hraw
    refine ends_bind hraw fun u hu => ends_get ?_
    refine ends_bind (ends_when (fun _ => ends_modify ?_) fun _ => hu) fun v hv => ends_modify hv
    exact hu

theorem forM_writeBackend_ends (data : Bytes) (packets : List Bytes) (hne : packets ≠ [])
    (s : TelnetHandler) :
    Ends pub (packets.forM (writeBackend cfg data)) s (written cfg data) (pub s) := by
  induction packets generalizing s with
  | nil => exact absurd rfl hne
  | cons packet packets ih =>
    change Ends pub (writeBackend cfg data packet >>= fun _ => packets.forM (writeBackend cfg data))
      s (written cfg data) (pub s)
    have hfirst := writeBackend_ends cfg data packet s
    cases hw : written cfg data with
    | error e =>
      rw [hw] at hfirst
      exact ends_bind_error hfirst
    | ok a =>
      rw [hw] at hfirst
      refine ends_bind hfirst fun u hu => ?_
      cases packets with
      | nil => exact ⟨rfl, hu⟩
      | cons p ps => exact hw ▸ hu ▸ ih (by simp) u

/-- **`sendBackend` shows the frontend nothing**, and raises the same whatever is buffered. -/
theorem sendBackend_ends (data : Bytes) (s : TelnetHandler) :
    Ends pub (sendBackend cfg data) s (if s.client then written cfg data else .ok ()) (pub s) := by
  unfold sendBackend
  refine ends_modify_bind (ends_get ?_)
  simp only
  by_cases hc : s.client
  · rw [when_true hc, if_pos hc]
    exact forM_writeBackend_ends cfg data _ (by simp) _
  · rw [when_false hc, if_neg hc]
    exact ⟨rfl, rfl⟩

theorem sendFrontend_ends (data : Bytes) (s : TelnetHandler) :
    Ends pub (sendFrontend cfg data) s (written cfg data)
      { pub s with toFrontend := s.toFrontend ++ [data] } := by
  unfold sendFrontend
  refine ends_modify_bind ?_
  have hraw := logRaw_ends cfg "to_frontend - " data
    { s with toFrontend := s.toFrontend ++ [data] }
  cases hw : written cfg data with
  | error e =>
    rw [hw] at hraw
    exact ends_bind_error hraw
  | ok a =>
    rw [hw] at hraw
    refine ends_bind hraw fun u hu => ends_get ?_
    exact ends_when (fun _ => ends_modify hu) fun _ => hu

theorem exec_decoded {data : Bytes} {text : List Nat}
    (h : unicodeEscape cfg.unicodeName data = some text) (s : TelnetHandler) :
    exec (decoded cfg data) s = (.ok text, s) := by
  unfold decoded
  rw [h]
  rfl

theorem decoded_raises {data : Bytes} (h : unicodeEscape cfg.unicodeName data = none)
    (s : TelnetHandler) :
    Ends pub (decoded cfg data) s (.error .unicodeDecodeError) (pub s) := by
  unfold decoded
  rw [h]
  exact ⟨rfl, rfl⟩

/-! ## The negotiation -/

/-- `currentData` after the substitution of the user name. -/
def negotiated (data : Bytes) : Bytes :=
  match cfg.usernameInNegotiation.search data with
  | none => data
  | some _ => cfg.usernameInNegotiation.sub cfg.backendLogin data

/-- The user name in the negotiation, if any, can be decoded. -/
def Negotiates (data : Bytes) : Prop :=
  ∀ username, cfg.usernameInNegotiation.search data = some username →
    unicodeEscape cfg.unicodeName username ≠ none

theorem setProcessingStateFrontend_ends {s : TelnetHandler} (h : Negotiates cfg s.currentData) :
    Ends pub (setProcessingStateFrontend cfg) s (.ok ())
      { pub s with
        usernameState := (cfg.usernameInNegotiation.search s.currentData).getD s.usernameState
        currentData := negotiated cfg s.currentData } := by
  unfold setProcessingStateFrontend negotiated
  refine ends_get ?_
  cases hsearch : cfg.usernameInNegotiation.search s.currentData with
  | none => exact ⟨rfl, rfl⟩
  | some username =>
    obtain ⟨text, htext⟩ := Option.ne_none_iff_exists'.mp (h username hsearch)
    refine ends_modify_bind ?_
    refine ends_bind_ok (exec_decoded cfg htext _) (ends_modify_bind (ends_modify_bind ?_))
    refine ends_bind (show Ends pub _ _ (.ok ()) { pub s with usernameState := username } from
      ends_when (fun _ => ends_modify rfl) fun _ => rfl) fun u hu => ?_
    exact ends_modify (congrArg (fun v : TelnetHandler =>
      { v with currentData := cfg.usernameInNegotiation.sub cfg.backendLogin v.currentData }) hu)

theorem setProcessingStateFrontend_raises {s : TelnetHandler} {username : Bytes}
    (hsearch : cfg.usernameInNegotiation.search s.currentData = some username)
    (htext : unicodeEscape cfg.unicodeName username = none) :
    Ends pub (setProcessingStateFrontend cfg) s (.error .unicodeDecodeError)
      { pub s with usernameState := username } := by
  unfold setProcessingStateFrontend
  refine ends_get ?_
  rw [hsearch]
  exact ends_modify_bind (ends_bind_error (decoded_raises cfg htext _))

/-! ## The password line -/

/-- The prefix sent ahead of the password can be written. -/
def Collects (s : TelnetHandler) : Prop :=
  s.prePasswordData → s.client → written cfg (s.currentData.take 3) = .ok ()

/-- The password typed so far, with the end of the line in `data`. -/
def typed (s : TelnetHandler) (data : Bytes) : Bytes :=
  s.passwordState ++ removeAll data [[0xff], [0xfd], [1], [13], [0], [10]]

/-- `data` ends the password line, and what was typed can be decoded. -/
def Finishes (password data : Bytes) : Prop :=
  terminator data ≠ none ∧ unicodeEscape cfg.unicodeName (processBackspaces password) ≠ none

theorem collectPassword_ends {s : TelnetHandler} (h : Collects cfg s) :
    Ends pub (collectPassword cfg) s (.ok ())
      { pub s with
        sendData := false
        prePasswordData := false
        passwordState := typed s s.currentData } := by
  unfold collectPassword
  refine ends_modify_bind (ends_get ?_)
  have hpre : Ends pub (when s.prePasswordData do
      sendBackend cfg ((← get).currentData.take 3)
      modify fun s => { s with prePasswordData := false }) { s with sendData := false } (.ok ())
      { pub s with sendData := false, prePasswordData := false } := by
    refine ends_when (fun hpre => ends_get ?_) fun hpre => ?_
    · have hsend := sendBackend_ends cfg (s.currentData.take 3) { s with sendData := false }
      have hres : (if s.client then written cfg (s.currentData.take 3) else .ok ()) = .ok () := by
        by_cases hc : s.client
        · rw [if_pos hc]
          exact h hpre hc
        · rw [if_neg hc]
      rw [show ({ s with sendData := false } : TelnetHandler).client = s.client from rfl, hres]
        at hsend
      exact ends_bind hsend fun u hu => ends_modify
        (congrArg (fun v : TelnetHandler => { v with prePasswordData := false }) hu)
    · have hfalse : s.prePasswordData = false := by simpa using hpre
      rw [← hfalse]
      rfl
  refine ends_bind hpre fun u hu => ends_modify ?_
  exact congrArg (fun v : TelnetHandler => { v with passwordState := typed v v.currentData }) hu

/-- If the prefix cannot be written, nothing is collected. -/
theorem collectPassword_raises {s : TelnetHandler} (h : ¬ Collects cfg s) :
    Ends pub (collectPassword cfg) s (.error .unicodeDecodeError) { pub s with sendData := false } := by
  unfold Collects at h
  simp only [Classical.not_imp] at h
  obtain ⟨hpre, hc, hw⟩ := h
  have hraise : written cfg (s.currentData.take 3) = .error .unicodeDecodeError := by
    unfold written at hw ⊢
    split
    · rfl
    · rename_i hn
      rw [if_neg hn] at hw
      exact absurd rfl hw
  have hsend := sendBackend_ends cfg (s.currentData.take 3) { s with sendData := false }
  rw [show ({ s with sendData := false } : TelnetHandler).client = s.client from rfl, if_pos hc,
    hraise] at hsend
  unfold collectPassword
  refine ends_modify_bind (ends_get ?_)
  simp only [when_true hpre]
  exact ends_bind_error (ends_get (ends_bind_error hsend))

/-- The password the backend gets. -/
def passwordToSend (accepted : Bool) : Bytes :=
  if accepted then cfg.backendPassword else cfg.backendPassword ++ encode "fake"

theorem exec_terminatingChar {data : Bytes} {x : UInt8} (h : terminator data = some x)
    (s : TelnetHandler) : exec (terminatingChar data) s = (.ok (encodeChr x), s) := by
  unfold terminatingChar
  rw [h]
  rfl

theorem terminatingChar_raises {data : Bytes} (h : terminator data = none) (s : TelnetHandler) :
    Ends pub (terminatingChar data) s (.error .indexError) (pub s) := by
  unfold terminatingChar
  rw [h]
  exact ⟨rfl, rfl⟩

theorem choosePassword_ends (s : TelnetHandler) :
    Ends pub (choosePassword cfg) s (.ok (passwordToSend cfg (cfg.checkUserPass s.checks.length)))
      { pub s with
        checks := s.checks ++ [(s.usernameState, s.passwordState)]
        authDone := if cfg.checkUserPass s.checks.length then true else s.authDone
        timeout := if cfg.checkUserPass s.checks.length then some cfg.idleTimeout else s.timeout } := by
  unfold choosePassword passwordToSend
  refine ends_modify_bind (ends_get ?_)
  simp only [List.length_append, List.length_singleton, Nat.add_sub_cancel]
  by_cases hok : cfg.checkUserPass s.checks.length
  · simp only [if_pos hok]
    exact ends_modify_bind ⟨rfl, rfl⟩
  · simp only [if_neg hok]
    exact ends_modify_bind ⟨rfl, rfl⟩

/-- What the frontend can see after the end of the password line, `currentData` set aside. -/
def afterPassword (s : TelnetHandler) : TelnetHandler :=
  { pub s with
    passwordState := processBackspaces s.passwordState
    inputingPassword := false
    checks := s.checks ++ [(s.usernameState, processBackspaces s.passwordState)]
    authDone := if cfg.checkUserPass s.checks.length then true else s.authDone
    timeout := if cfg.checkUserPass s.checks.length then some cfg.idleTimeout else s.timeout
    sendData := true }

theorem completePassword_ends {s : TelnetHandler} {x : UInt8} {text : List Nat}
    (hx : terminator s.currentData = some x)
    (htext : unicodeEscape cfg.unicodeName (processBackspaces s.passwordState) = some text) :
    Ends pub (completePassword cfg) s (.ok ())
      { afterPassword cfg s with
        currentData :=
          passwordToSend cfg (cfg.checkUserPass s.checks.length) ++ [13] ++ encodeChr x } := by
  unfold completePassword
  refine ends_get (ends_bind_ok (exec_terminatingChar hx s) (ends_modify_bind (ends_get ?_)))
  refine ends_bind_ok (exec_decoded cfg htext _) (ends_modify_bind (ends_modify_bind ?_))
  refine ends_bind (choosePassword_ends cfg _) fun u hu => ends_modify ?_
  exact congrArg (fun v : TelnetHandler => { v with
    currentData := passwordToSend cfg (cfg.checkUserPass s.checks.length) ++ [13] ++ encodeChr x
    sendData := true }) hu

/-- An unfinished line, or one that cannot be decoded, leaves the password of the backend out. -/
theorem completePassword_raises {s : TelnetHandler}
    (h : ¬ Finishes cfg s.passwordState s.currentData) :
    Ends pub (completePassword cfg) s
      (.error (if terminator s.currentData = none then .indexError else .unicodeDecodeError))
      (if terminator s.currentData = none then pub s
        else { pub s with passwordState := processBackspaces s.passwordState }) := by
  unfold completePassword
  cases hx : terminator s.currentData with
  | none =>
    rw [if_pos rfl, if_pos rfl]
    exact ends_get (ends_bind_error (terminatingChar_raises hx s))
  | some x =>
    rw [if_neg (by simp), if_neg (by simp)]
    have htext : unicodeEscape cfg.unicodeName (processBackspaces s.passwordState) = none := by
      by_contra hne
      exact h ⟨by simp [hx], hne⟩
    refine ends_get (ends_bind_ok (exec_terminatingChar hx s) (ends_modify_bind (ends_get ?_)))
    exact ends_bind_error (decoded_raises cfg htext _)

end TelnetHandler

end Cowrie.TelnetProxy
