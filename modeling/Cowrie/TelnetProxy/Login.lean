import Cowrie.Lib.Segments
import Cowrie.TelnetProxy.Capture
import Cowrie.TelnetProxy.CommandLog

/-!
# A login in pieces (`src/cowrie/telnet_proxy/handler.py:176-301`)

The line of the user name and the line of the password may come in any packets. The handler sees the end of a
line by the carriage return, and reads the byte after it from the same packet.

* `Typing`: the packets of a line; `Login`: the prompts and the lines.
* `username_returns`, `password_returns`: a line in any packets.
* `deliver_returns`: exactly when a whole login is processed without an exception, and how it ends.
* **`independent_iff`**: when it ends as if each line came in one packet.
-/

namespace Cowrie.TelnetProxy

open Cowrie.Lib TelnetHandler

variable {cfg : Config}

/-! ## A line and its pieces -/

/-- Bytes that are removed one by one. -/
theorem replace_byte (x : UInt8) (b : Bytes) : replace b [x] [] = b.filter (· ≠ x) := by
  unfold replace
  induction b with
  | nil => rfl
  | cons y b ih =>
    unfold replaceFrom
    by_cases hy : y = x
    · rw [if_pos (by simp [List.isPrefixOf, hy]), List.filter_cons_of_neg (by simp [hy])]
      exact ih
    · rw [if_neg (by simp [List.isPrefixOf, Ne.symm hy]), List.filter_cons_of_pos (by simp [hy]), ih]

theorem removeAll_append (xs a b : Bytes) :
    removeAll (a ++ b) (xs.map ([·])) = removeAll a (xs.map ([·])) ++ removeAll b (xs.map ([·])) := by
  unfold removeAll
  induction xs generalizing a b with
  | nil => rfl
  | cons x xs ih =>
    rw [List.map_cons, List.foldl_cons, List.foldl_cons, List.foldl_cons, replace_byte, replace_byte,
      replace_byte, List.filter_append, ih]

/-- The byte after the end of the content. -/
theorem terminator_line {content : Bytes} (h : 13 ∉ content) (b : Bytes) :
    terminator (content ++ 13 :: b) = b.head? := by
  unfold terminator
  rw [List.idxOf_append_of_notMem h, List.idxOf_cons_self, Nat.add_zero,
    List.getElem?_append_right (Nat.le_succ _), show content.length.succ - content.length = 1 by omega]
  exact List.head?_eq_getElem?.symm

/-- The packets of a typed line. None of them is a negotiation. -/
structure Typing (cfg : Config) (line : Line) extends Segmentation line.bytes where
  plain : ∀ p ∈ segments, cfg.usernameInNegotiation.search p = none

variable {line : Line}

theorem Typing.ne_nil (packets : Typing cfg line) : packets.segments ≠ [] := by
  intro h
  have hflatten := packets.flatten
  rw [h] at hflatten
  simp [Line.bytes] at hflatten

theorem answerLine_last (answer : Bytes) {c : Bytes} (h : 13 ∉ c) :
    answerLine answer (c ++ [13, line.ending.byte]) = answerLine answer line.bytes := by
  unfold answerLine Line.bytes
  rw [terminator_line h, terminator_line line.noReturn]

theorem Line.ending_ne (line : Line) : line.ending.byte ≠ 13 := by
  cases line.ending <;> decide

/-- How a line is read: what is asked of a packet after some others, what has been typed with some packets,
and the state they leave, which is `finished` if they end the line. -/
structure Reading where
  client : Bool
  answer : Bytes
  asks : List Bytes → Bytes → Prop
  word : List Bytes → Bytes
  collected : List Bytes → TelnetHandler
  finished : List Bytes → TelnetHandler

/-- What one packet does. -/
def Reading.Steps (cfg : Config) (r : Reading) (packets : List Bytes) : Prop :=
  ∀ read p rest t, packets = read ++ p :: rest → t.settled = r.collected read →
    Returns ((r.asks read p ∧ (13 ∈ p → Finishes cfg (r.word (read ++ [p])) p)) ∧
        (13 ∈ p → r.client → Writable cfg (answerLine r.answer p)))
      (addPacket cfg .frontend p)
      (fun _ u => u.settled = if 13 ∈ p
        then sentTo (answerLine r.answer p) (r.finished (read ++ [p]))
        else r.collected (read ++ [p])) t

/-- What was typed is decoded, and its answer can be written. -/
structure Accepts (cfg : Config) (client : Bool) (word answer : Bytes) : Prop where
  decodes : unicodeEscape cfg.unicodeName word ≠ none
  answer : client → Writable cfg answer

/-- **A line in any packets.** -/
theorem Reading.Steps.returns {r : Reading} {packets : Typing cfg line} (h : r.Steps cfg packets.segments)
    {s : TelnetHandler} (hs : s.settled = r.collected []) :
    Returns ((∀ p ∈ packets.segments, p.getLast? ≠ some 13) ∧ Piecewise r.asks packets.segments ∧
        Accepts cfg r.client (processBackspaces (r.word packets.segments)) (answerLine r.answer line.bytes))
      (packets.segments.forM (addPacket cfg .frontend))
      (fun _ t => t.settled = sentTo (answerLine r.answer line.bytes) (r.finished packets.segments)) s := by
  refine ReadsPieces.returns (I := fun read (t : TelnetHandler) => t.settled = r.collected read)
    ⟨?_, ?_, ?_⟩ line.ending_ne packets.nonempty hs packets.flatten line.noReturn
  · intro read p rest t hcut hmem ht
    refine ((h read p rest t hcut ht).weaken fun _ u hu => ?_).congr (by simp [hmem])
    rwa [if_neg hmem] at hu
  · intro read c t hcut hmem ht
    have hreturn : 13 ∈ c ++ [13, line.ending.byte] := by simp
    have hend : terminator (c ++ [13, line.ending.byte]) ≠ none := by
      rw [terminator_line hmem]
      exact Option.some_ne_none _
    have hlast := h read _ [] t hcut ht
    rw [answerLine_last _ hmem, ← hcut] at hlast
    refine (hlast.weaken fun _ u hu => by rwa [if_pos hreturn] at hu).congr ?_
    exact ⟨fun h => ⟨h.1.1, (h.1.2 hreturn).2, h.2 hreturn⟩,
      fun h => ⟨⟨h.1, fun _ => ⟨hend, h.2.decodes⟩⟩, fun _ => h.2.answer⟩⟩
  · intro read c rest t hcut hmem ht
    have hreturn : 13 ∈ c ++ [13] := by simp
    have hfalse : ¬ Finishes cfg (r.word (read ++ [c ++ [13]])) (c ++ [13]) := fun h => h.1 (by
      rw [terminator_line hmem]
      rfl)
    have hnone := (h read _ rest t hcut ht).congr (B := False)
      (iff_of_false (fun h => hfalse (h.1.2 hreturn)) id)
    exact Ensures.mono hnone (fun _ h => h) fun _ _ _ h => ⟨h.1, h.1⟩

/-! ## The user name -/

theorem namedBy_read {s t : TelnetHandler} {read : List Bytes}
    (h : t.usernameState = namedBy s read.flatten) (p : Bytes) :
    namedBy t p = namedBy s (read ++ [p]).flatten := by
  unfold namedBy at h ⊢
  rw [h, List.flatten_append, List.flatten_singleton, List.append_assoc]
  exact congrArg (s.usernameState ++ ·) (removeAll_append [13, 0, 10] read.flatten p).symm

/-- The line of the user name is read. -/
def readsName (cfg : Config) (s : TelnetHandler) : Reading where
  client := s.client
  answer := cfg.backendLogin
  asks _ p := Writable cfg (echo p)
  word read := namedBy s read.flatten
  collected read := { s.settled with usernameState := namedBy s read.flatten }
  finished read := { s.settled with
    usernameState := processBackspaces (namedBy s read.flatten)
    inputingLogin := false
    waitingLoginEcho := true }

/-- **The line of the user name**, in any packets. -/
theorem username_returns {s : TelnetHandler} (hspoof : cfg.spoofAuthenticationData = true)
    (hauth : s.authDone = false) (hpassword : s.inputingPassword = false) (hlogin : s.inputingLogin = true)
    (packets : Typing cfg line) :
    Returns ((∀ p ∈ packets.segments, p.getLast? ≠ some 13) ∧
        (∀ p ∈ packets.segments, Writable cfg (echo p)) ∧
        Accepts cfg s.client (processBackspaces (namedBy s line.bytes))
          (answerLine cfg.backendLogin line.bytes))
      (packets.segments.forM (addPacket cfg .frontend))
      (fun _ t => t.settled = sentTo (answerLine cfg.backendLogin line.bytes)
          { s.settled with
            usernameState := processBackspaces (namedBy s line.bytes)
            inputingLogin := false
            waitingLoginEcho := true }) s := by
  have hsteps : (readsName cfg s).Steps cfg packets.segments := by
    intro read p rest t hcut ht
    have hfield := fun {α : Type} => obs_field (α := α) ht
    have hname := namedBy_read (hfield usernameState fun _ => rfl) p
    have hspoofed : Spoofed cfg t p :=
      ⟨hspoof, (hfield authDone fun _ => rfl).trans hauth, packets.plain p (by rw [hcut]; simp)⟩
    have hnext := addPacket_username_returns hspoofed
      ((hfield inputingPassword fun _ => rfl).trans hpassword)
      ((hfield inputingLogin fun _ => rfl).trans hlogin)
    rw [hname, ht, show t.client = s.client from hfield client fun _ => rfl] at hnext
    exact hnext
  have hstart : s.settled = (readsName cfg s).collected [] := by
    simp [readsName, namedBy, removeAll, replace, replaceFrom, settled, kept, pub]
  have hline := hsteps.returns hstart
  simp only [readsName, piecewise_const, packets.flatten] at hline
  exact hline

/-! ## The password -/

/-- The state after some packets without a carriage return. -/
def collected (s : TelnetHandler) : List Bytes → TelnetHandler
  | [] => s.settled
  | first :: rest => prefixed s.prePasswordData first
      { s.settled with prePasswordData := false, passwordState := typed s (first :: rest).flatten }

theorem typed_read {s t : TelnetHandler} {read : List Bytes} (h : t.passwordState = typed s read.flatten)
    (p : Bytes) : typed t p = typed s (read ++ [p]).flatten := by
  unfold typed at h ⊢
  rw [h, List.flatten_append, List.flatten_singleton, List.append_assoc]
  exact congrArg (s.passwordState ++ ·) (removeAll_append [0xff, 0xfd, 1, 13, 0, 10] read.flatten p).symm

theorem typed_nil (s : TelnetHandler) : typed s [] = s.passwordState := List.append_nil _

/-- What all packets agree on, before the line ends. -/
theorem collected_field {α : Type} (s : TelnetHandler) (read : List Bytes) (f : TelnetHandler → α)
    (hf : ∀ (b : Bytes) (u : TelnetHandler), f (sentTo b u) = f u)
    (hpre : ∀ (u : TelnetHandler) (b : Bool) (p : Bytes),
      f { u with prePasswordData := b, passwordState := p } = f u) :
    f (collected s read) = f s.settled := by
  cases read with
  | nil => rfl
  | cons first rest => exact (prefixed_field _ _ _ f hf).trans (hpre s.settled false _)

theorem collected_password (s : TelnetHandler) (read : List Bytes) {t : TelnetHandler}
    (h : t.settled = collected s read) : t.passwordState = typed s read.flatten := by
  refine (obs_field h passwordState fun _ => rfl).trans ?_
  cases read with
  | nil => exact (typed_nil s).symm
  | cons first rest => exact prefixed_field _ _ _ passwordState fun _ _ => rfl

/-- The line of the password is read. -/
def readsPassword (cfg : Config) (s : TelnetHandler) : Reading where
  client := s.client
  answer := chosen cfg s
  asks read p := read = [] → s.prePasswordData → s.client → Writable cfg (p.take 3)
  word read := typed s read.flatten
  collected := collected s
  finished read := prefixed s.prePasswordData (read.headD [])
    { checked cfg (typed s read.flatten) s.settled with prePasswordData := false }

/-- Every packet of the line of the password is read. -/
theorem password_steps {s : TelnetHandler} (hspoof : cfg.spoofAuthenticationData = true)
    (hauth : s.authDone = false) (hpassword : s.inputingPassword = true) (hlogin : s.inputingLogin = false)
    (packets : Typing cfg line) : (readsPassword cfg s).Steps cfg packets.segments := by
  intro read p rest t hcut ht
  have hfield := fun {α : Type} (f : TelnetHandler → α) (hf : ∀ u : TelnetHandler, f u.settled = f u)
    (hsent : ∀ (b : Bytes) (u : TelnetHandler), f (sentTo b u) = f u)
    (hpre : ∀ (u : TelnetHandler) (b : Bool) (p : Bytes),
      f { u with prePasswordData := b, passwordState := p } = f u) =>
    (obs_field ht f hf).trans ((collected_field s read f hsent hpre).trans (hf s))
  have hclient : t.client = s.client := hfield client (fun _ => rfl) (fun _ _ => rfl) fun _ _ _ => rfl
  have hchosen : chosen cfg t = chosen cfg s :=
    hfield (chosen cfg) (fun _ => rfl) (fun _ _ => rfl) fun _ _ _ => rfl
  have hspoofed : Spoofed cfg t p :=
    ⟨hspoof, (hfield authDone (fun _ => rfl) (fun _ _ => rfl) fun _ _ _ => rfl).trans hauth,
      packets.plain p (by rw [hcut]; simp)⟩
  have hnext := addPacket_password_returns hspoofed
    ((hfield inputingPassword (fun _ => rfl) (fun _ _ => rfl) fun _ _ _ => rfl).trans hpassword)
    ((hfield inputingLogin (fun _ => rfl) (fun _ _ => rfl) fun _ _ _ => rfl).trans hlogin)
  rw [typed_read (collected_password s read ht) p, hclient, hchosen, ht] at hnext
  unfold readsPassword
  cases read with
  | nil =>
    have hpre : t.prePasswordData = s.prePasswordData := obs_field ht prePasswordData fun _ => rfl
    rw [hpre] at hnext
    exact hnext.congr (by simp)
  | cons first read =>
    -- the first packet has cleared the flag
    have hpre : t.prePasswordData = false := (obs_field ht prePasswordData fun _ => rfl).trans
      (prefixed_field _ _ _ prePasswordData fun _ _ => rfl)
    rw [hpre] at hnext
    refine (hnext.weaken fun _ u hu => hu.trans ?_).congr (by simp)
    unfold readsPassword collected
    cases s.prePasswordData <;> split_ifs <;> rfl

/-- **The line of the password**, in any packets. -/
theorem password_returns {s : TelnetHandler} (hspoof : cfg.spoofAuthenticationData = true)
    (hauth : s.authDone = false) (hpassword : s.inputingPassword = true) (hlogin : s.inputingLogin = false)
    (packets : Typing cfg line) :
    Returns ((∀ p ∈ packets.segments, p.getLast? ≠ some 13) ∧
        (s.prePasswordData → s.client → Writable cfg ((packets.segments.headD []).take 3)) ∧
        Accepts cfg s.client (processBackspaces (typed s line.bytes))
          (answerLine (chosen cfg s) line.bytes))
      (packets.segments.forM (addPacket cfg .frontend))
      (fun _ t => t.settled = sentTo (answerLine (chosen cfg s) line.bytes)
        (prefixed s.prePasswordData (packets.segments.headD [])
          { checked cfg (typed s line.bytes) s.settled with prePasswordData := false })) s := by
  have hline := (password_steps hspoof hauth hpassword hlogin packets).returns rfl
  have hfirst := piecewise_first (W := fun p => s.prePasswordData → s.client → Writable cfg (p.take 3))
    packets.ne_nil
  simp only [readsPassword, packets.flatten, hfirst] at hline
  exact hline

/-! ## Up to the prompt for the password -/

/-- What the user sees of some packets of the backend. -/
def displays (cfg : Config) (waitingLoginEcho : Bool) : List Bytes → List Bytes
  | [] => []
  | data :: packets => displayed cfg waitingLoginEcho data :: packets

theorem displays_false (packets : List Bytes) : displays cfg false packets = packets := by
  cases packets <;> rfl

/-- **Up to the prompt for the password.** -/
theorem prompt_returns {s : TelnetHandler} (hspoof : cfg.spoofAuthenticationData = true)
    (hauth : s.authDone = false) {echoes : List Bytes}
    (hechoes : ∀ e ∈ echoes, cfg.usernamePrompt e = false ∧ cfg.passwordPrompt e = false) {prompt : Bytes}
    (hlogin : cfg.usernamePrompt prompt = false) (hpassword : cfg.passwordPrompt prompt = true) :
    Returns (∀ data ∈ displays cfg s.waitingLoginEcho (echoes ++ [prompt]), Writable cfg data)
      ((echoes ++ [prompt]).forM (addPacket cfg .backend))
      (fun _ t => t.settled = { s.settled with
        authStarted := true
        inputingPassword := true
        passwordState := []
        prePasswordData := Bytes.contains [0xff, 0xfb, 1] prompt
        waitingLoginEcho := false }) s := by
  induction echoes generalizing s with
  | nil =>
    change Returns _ (addPacket cfg .backend prompt >>= fun _ => pure ()) _ s
    refine (returns_before ((addPacket_backend_returns hspoof hauth prompt).weaken fun _ t ht =>
      returns_pure (ht.trans ?_))).congr (by simp [displays])
    unfold prompted
    rw [hlogin, hpassword]
    rfl
  | cons e echoes ih =>
    change Returns _
      (addPacket cfg .backend e >>= fun _ => (echoes ++ [prompt]).forM (addPacket cfg .backend)) _ s
    obtain ⟨⟨hel, hep⟩, hrest⟩ := List.forall_mem_cons.mp hechoes
    refine (returns_bind (B := ∀ data ∈ echoes ++ [prompt], Writable cfg data)
      ((addPacket_backend_returns hspoof hauth e).weaken fun _ t ht => ?_)).congr (by
        rw [List.cons_append, displays, List.forall_mem_cons])
    unfold prompted at ht
    rw [hel, hep] at ht
    have hnext := ih ((obs_field ht authDone fun _ => rfl).trans hauth) hrest
    rw [show t.waitingLoginEcho = false from obs_field ht waitingLoginEcho fun _ => rfl, displays_false,
      ht] at hnext
    exact hnext

/-! ## A login -/

/-- What is sent and typed in a login: each line after its prompt, with nothing else that looks like a prompt
and no negotiation. -/
structure Login (cfg : Config) where
  loginPrompt : Bytes
  username : Line
  echoes : List Bytes
  prompt : Bytes
  password : Line
  asksUsername : cfg.usernamePrompt loginPrompt = true ∧ cfg.passwordPrompt loginPrompt = false
  quiet : ∀ e ∈ echoes, cfg.usernamePrompt e = false ∧ cfg.passwordPrompt e = false
  asksPassword : cfg.usernamePrompt prompt = false ∧ cfg.passwordPrompt prompt = true
  plainUsername : cfg.usernameInNegotiation.search username.bytes = none
  plainPassword : cfg.usernameInNegotiation.search password.bytes = none

/-- A line in one packet. -/
def Typing.whole (h : cfg.usernameInNegotiation.search line.bytes = none) : Typing cfg line where
  segments := [line.bytes]
  nonempty := by simp [Line.bytes]
  flatten := by simp
  plain := by simpa using h

namespace Login

variable (l : Login cfg) (us : Typing cfg l.username) (ps : Typing cfg l.password)

/-- The packets of a login. -/
def deliver : TelnetM Unit := do
  addPacket cfg .backend l.loginPrompt
  us.segments.forM (addPacket cfg .frontend)
  (l.echoes ++ [l.prompt]).forM (addPacket cfg .backend)
  ps.segments.forM (addPacket cfg .frontend)

def name : Bytes := processBackspaces (removeAll l.username.bytes [[13], [0], [10]])

def word : Bytes := processBackspaces (removeAll l.password.bytes [[0xff], [0xfd], [1], [13], [0], [10]])

/-- The prompt for the password comes with a negotiation, which the user answers. -/
def negotiates : Bool := Bytes.contains [0xff, 0xfb, 1] l.prompt

/-- What is written in the course of a login. -/
def writes (s : TelnetHandler) : List Bytes :=
  displayed cfg s.waitingLoginEcho l.loginPrompt :: us.segments.map echo ++
    displays cfg true (l.echoes ++ [l.prompt]) ++
    if s.client then
      answerLine cfg.backendLogin l.username.bytes :: answerLine (chosen cfg s) l.password.bytes ::
        if l.negotiates then [(ps.segments.headD []).take 3] else []
    else []

/-- The login is processed without an exception. -/
structure Accepted (s : TelnetHandler) : Prop where
  username : ∀ p ∈ us.segments, p.getLast? ≠ some 13
  password : ∀ p ∈ ps.segments, p.getLast? ≠ some 13
  decodes : unicodeEscape cfg.unicodeName l.name ≠ none ∧ unicodeEscape cfg.unicodeName l.word ≠ none
  writes : ∀ data ∈ l.writes us ps s, Writable cfg data

/-- How a login ends, if the first packet of the password is `first`. -/
structure Captured (s : TelnetHandler) (first : Bytes) (t : TelnetHandler) : Prop where
  username : t.usernameState = l.name
  password : t.passwordState = l.word
  checks : t.checks = s.checks ++ [(l.name, l.word)]
  sent : t.forBackend = s.forBackend ++ answerLine cfg.backendLogin l.username.bytes ++
    (if l.negotiates then first.take 3 else []) ++ answerLine (chosen cfg s) l.password.bytes

/-- After the prompt for the user name. -/
def asked (s : TelnetHandler) : TelnetHandler :=
  { s.settled with
    authStarted := true
    inputingLogin := true
    usernameState := []
    prePasswordData := Bytes.contains [0xff, 0xfb, 1] l.loginPrompt
    waitingLoginEcho := false }

/-- After the line of the user name. -/
def named (s : TelnetHandler) : TelnetHandler :=
  sentTo (answerLine cfg.backendLogin l.username.bytes)
    { l.asked s with usernameState := l.name, inputingLogin := false, waitingLoginEcho := true }

/-- After the prompt for the password. -/
def askedAgain (s : TelnetHandler) : TelnetHandler :=
  { l.named s with
    inputingPassword := true
    passwordState := []
    prePasswordData := l.negotiates
    waitingLoginEcho := false }

theorem asked_returns {s : TelnetHandler} (hspoof : cfg.spoofAuthenticationData = true)
    (hauth : s.authDone = false) :
    Returns (Writable cfg (displayed cfg s.waitingLoginEcho l.loginPrompt))
      (addPacket cfg .backend l.loginPrompt) (fun _ t => t.settled = l.asked s) s := by
  refine (addPacket_backend_returns hspoof hauth l.loginPrompt).weaken fun _ t ht => ht.trans ?_
  unfold prompted
  rw [l.asksUsername.1, l.asksUsername.2]
  rfl

theorem named_returns {s t : TelnetHandler} (hspoof : cfg.spoofAuthenticationData = true)
    (hauth : s.authDone = false) (hpassword : s.inputingPassword = false) (ht : t.settled = l.asked s) :
    Returns ((∀ p ∈ us.segments, p.getLast? ≠ some 13) ∧
        (∀ p ∈ us.segments, Writable cfg (echo p)) ∧
        Accepts cfg s.client l.name (answerLine cfg.backendLogin l.username.bytes))
      (us.segments.forM (addPacket cfg .frontend)) (fun _ u => u.settled = l.named s) t := by
  have hname : processBackspaces (namedBy t l.username.bytes) = l.name := by
    unfold namedBy
    rw [show t.usernameState = [] from obs_field ht usernameState fun _ => rfl]
    rfl
  have hline := username_returns hspoof ((obs_field ht authDone fun _ => rfl).trans hauth)
    ((obs_field ht inputingPassword fun _ => rfl).trans hpassword)
    (obs_field ht inputingLogin fun _ => rfl) us
  rw [hname, ht, show t.client = s.client from obs_field ht client fun _ => rfl] at hline
  exact hline

theorem askedAgain_returns {s t : TelnetHandler} (hspoof : cfg.spoofAuthenticationData = true)
    (hauth : s.authDone = false) (ht : t.settled = l.named s) :
    Returns (∀ data ∈ displays cfg true (l.echoes ++ [l.prompt]), Writable cfg data)
      ((l.echoes ++ [l.prompt]).forM (addPacket cfg .backend))
      (fun _ u => u.settled = l.askedAgain s) t := by
  have hprompt := prompt_returns hspoof ((obs_field ht authDone fun _ => rfl).trans hauth) l.quiet
    l.asksPassword.1 l.asksPassword.2
  rw [show t.waitingLoginEcho = true from obs_field ht waitingLoginEcho fun _ => rfl, ht] at hprompt
  exact hprompt

theorem captured_returns {s t : TelnetHandler} (hspoof : cfg.spoofAuthenticationData = true)
    (hauth : s.authDone = false) (ht : t.settled = l.askedAgain s) :
    Returns ((∀ p ∈ ps.segments, p.getLast? ≠ some 13) ∧
        (l.negotiates → s.client → Writable cfg ((ps.segments.headD []).take 3)) ∧
        Accepts cfg s.client l.word (answerLine (chosen cfg s) l.password.bytes))
      (ps.segments.forM (addPacket cfg .frontend))
      (fun _ u => l.Captured s (ps.segments.headD []) u) t := by
  have hword : processBackspaces (typed t l.password.bytes) = l.word := by
    unfold typed
    rw [show t.passwordState = [] from obs_field ht passwordState fun _ => rfl]
    rfl
  have hclient : t.client = s.client := obs_field ht client fun _ => rfl
  have hchosen : chosen cfg t = chosen cfg s := obs_field ht (chosen cfg) fun _ => rfl
  have hnegotiates : t.prePasswordData = l.negotiates := obs_field ht prePasswordData fun _ => rfl
  have hline := password_returns hspoof ((obs_field ht authDone fun _ => rfl).trans hauth)
    (obs_field ht inputingPassword fun _ => rfl) (obs_field ht inputingLogin fun _ => rfl) ps
  rw [hword, hclient, hnegotiates, hchosen, ht] at hline
  refine hline.weaken fun _ u hu => ?_
  have hfield := fun {α : Type} (f : TelnetHandler → α) (hf : ∀ u : TelnetHandler, f u.settled = f u)
    (hsent : ∀ (b : Bytes) (u : TelnetHandler), f (sentTo b u) = f u) =>
      (obs_field hu f hf).trans ((hsent _ _).trans (prefixed_field _ _ _ f hsent))
  refine ⟨hfield usernameState (fun _ => rfl) fun _ _ => rfl, ?_, ?_, ?_⟩
  · exact (hfield passwordState (fun _ => rfl) fun _ _ => rfl).trans hword
  · rw [hfield TelnetHandler.checks (fun _ => rfl) fun _ _ => rfl]
    change s.checks ++ [(l.name, processBackspaces (typed t l.password.bytes))] = _
    rw [hword]
  · have hsent : u.settled.toBackend.flatten = _ := congrArg (fun v => v.toBackend.flatten) hu
    unfold prefixed at hsent
    split_ifs at hsent ⊢
    · simpa [settled, kept, pub, sentTo, checked, askedAgain, named, asked] using hsent
    · simpa [settled, kept, pub, sentTo, checked, askedAgain, named, asked] using hsent

theorem writes_iff (s : TelnetHandler) :
    (∀ data ∈ l.writes us ps s, Writable cfg data) ↔
      Writable cfg (displayed cfg s.waitingLoginEcho l.loginPrompt) ∧
      (∀ p ∈ us.segments, Writable cfg (echo p)) ∧
      (∀ data ∈ displays cfg true (l.echoes ++ [l.prompt]), Writable cfg data) ∧
      (s.client → Writable cfg (answerLine cfg.backendLogin l.username.bytes)) ∧
      (s.client → Writable cfg (answerLine (chosen cfg s) l.password.bytes)) ∧
      (l.negotiates → s.client → Writable cfg ((ps.segments.headD []).take 3)) := by
  unfold writes
  simp only [List.forall_mem_append, List.forall_mem_cons, List.forall_mem_map]
  cases s.client with
  | false => simp [and_assoc]
  | true =>
    cases l.negotiates with
    | false => simp [and_assoc]
    | true => simp [and_assoc]

/-- **The whole login.** -/
theorem deliver_returns {s : TelnetHandler} (hspoof : cfg.spoofAuthenticationData = true)
    (hauth : s.authDone = false) (hpassword : s.inputingPassword = false) :
    Returns (l.Accepted us ps s) (l.deliver us ps)
      (fun _ t => l.Captured s (ps.segments.headD []) t) s := by
  unfold deliver
  refine (returns_bind ((l.asked_returns hspoof hauth).weaken fun _ s₁ h₁ =>
    returns_bind ((l.named_returns us hspoof hauth hpassword h₁).weaken fun _ s₂ h₂ =>
      returns_bind ((l.askedAgain_returns hspoof hauth h₂).weaken fun _ s₃ h₃ =>
        l.captured_returns ps hspoof hauth h₃)))).congr ?_
  constructor
  · rintro ⟨hasked, ⟨hus, hecho, hname⟩, hdisplays, hps, hfirst, hword⟩
    exact ⟨hus, hps, ⟨hname.decodes, hword.decodes⟩,
      (l.writes_iff us ps s).mpr ⟨hasked, hecho, hdisplays, hname.answer, hword.answer, hfirst⟩⟩
  · rintro ⟨hus, hps, ⟨hname, hword⟩, hwrites⟩
    obtain ⟨hasked, hecho, hdisplays, hline, hline', hfirst⟩ := (l.writes_iff us ps s).mp hwrites
    exact ⟨hasked, ⟨hus, hecho, hname, hline⟩, hdisplays, hps, hfirst, hword, hline'⟩

/-! ## Segmentation -/

/-- The same user name, password and checks, and the same bytes for the backend. -/
structure Alike (t u : TelnetHandler) : Prop where
  username : t.usernameState = u.usernameState
  password : t.passwordState = u.passwordState
  checks : t.checks = u.checks
  sent : t.forBackend = u.forBackend

/-- No exception is raised, and the login ends as if each line came in one packet. -/
def Independent (s : TelnetHandler) : Prop :=
  ∃ t u, exec (l.deliver us ps) s = (.ok (), t) ∧
    exec (l.deliver (.whole l.plainUsername) (.whole l.plainPassword)) s = (.ok (), u) ∧ Alike t u

/-- No packet ends between a carriage return and the end of its line; what was typed can be decoded, and what
is written if it is logged raw; and the packets answer a negotiation with the same three bytes as the line. -/
structure Unsplit (s : TelnetHandler) : Prop where
  username : ∀ p ∈ us.segments, p.getLast? ≠ some 13
  password : ∀ p ∈ ps.segments, p.getLast? ≠ some 13
  decodes : unicodeEscape cfg.unicodeName l.name ≠ none ∧ unicodeEscape cfg.unicodeName l.word ≠ none
  writes : ∀ data ∈ l.writes us ps s ++ l.writes (.whole l.plainUsername) (.whole l.plainPassword) s,
    Writable cfg data
  answer : l.negotiates → (ps.segments.headD []).take 3 = l.password.bytes.take 3

theorem whole_unsplit (h : cfg.usernameInNegotiation.search line.bytes = none) :
    ∀ p ∈ (Typing.whole h).segments, p.getLast? ≠ some 13 := by
  intro p hp
  rw [List.mem_singleton.mp hp]
  unfold Line.bytes
  rw [List.getLast?_append_of_ne_nil _ (by simp)]
  exact fun hlast => line.ending_ne (Option.some.inj hlast)

variable {l} in
theorem alike_iff {s t u : TelnetHandler} {first : Bytes} (ht : l.Captured s first t)
    (hu : l.Captured s l.password.bytes u) :
    Alike t u ↔ (l.negotiates → first.take 3 = l.password.bytes.take 3) := by
  constructor
  · intro h hnegotiates
    have hsent := h.sent
    rw [ht.sent, hu.sent, if_pos hnegotiates, if_pos hnegotiates] at hsent
    exact List.append_cancel_left (List.append_cancel_right hsent)
  · intro h
    refine ⟨ht.username.trans hu.username.symm, ht.password.trans hu.password.symm,
      ht.checks.trans hu.checks.symm, ?_⟩
    rw [ht.sent, hu.sent]
    split_ifs with hnegotiates
    · rw [h hnegotiates]
    · rfl

/-- **When the capture of a login does not depend on the packets.** -/
theorem independent_iff {s : TelnetHandler} (hspoof : cfg.spoofAuthenticationData = true)
    (hauth : s.authDone = false) (hpassword : s.inputingPassword = false) :
    l.Independent us ps s ↔ l.Unsplit us ps s := by
  have hsplit := l.deliver_returns us ps hspoof hauth hpassword
  have hwhole := l.deliver_returns (.whole l.plainUsername) (.whole l.plainPassword) hspoof hauth hpassword
  constructor
  · rintro ⟨t, u, ht, hu, halike⟩
    obtain ⟨hus, hps, hdecodes, hwrites⟩ := hsplit.iff.mp ⟨(), t, ht⟩
    exact ⟨hus, hps, hdecodes, List.forall_mem_append.mpr ⟨hwrites, (hwhole.iff.mp ⟨(), u, hu⟩).writes⟩,
      (alike_iff (hsplit.post ht) (hwhole.post hu)).mp halike⟩
  · rintro ⟨hus, hps, hdecodes, hwrites, hanswer⟩
    obtain ⟨hwrites, hwrites'⟩ := List.forall_mem_append.mp hwrites
    obtain ⟨⟨⟩, t, ht⟩ := hsplit.iff.mpr ⟨hus, hps, hdecodes, hwrites⟩
    obtain ⟨⟨⟩, u, hu⟩ := hwhole.iff.mpr ⟨whole_unsplit _, whole_unsplit _, hdecodes, hwrites'⟩
    exact ⟨t, u, ht, hu, (alike_iff (hsplit.post ht) (hwhole.post hu)).mpr hanswer⟩

end Login

/-- `l` and `p` are the prompts. -/
def loginConfig : Config where
  backendLogin := [114]
  backendPassword := [120]
  usernameInNegotiation := ⟨fun _ => none, fun _ b => b⟩
  usernamePrompt := fun b => b = [108]
  passwordPrompt := fun b => b = [112]
  checkUserPass := fun _ => true
  unicodeName := fun _ => none

/-- `a` and `b` are typed. -/
def shortLogin : Login loginConfig where
  loginPrompt := [108]
  username := ⟨[97], .lf, by decide⟩
  echoes := []
  prompt := [112]
  password := ⟨[98], .nul, by decide⟩
  asksUsername := ⟨rfl, rfl⟩
  quiet := by simp
  asksPassword := ⟨rfl, rfl⟩
  plainUsername := rfl
  plainPassword := rfl

/-- The user name comes in two packets, and is captured. -/
theorem independent_typed :
    shortLogin.Independent ⟨⟨[[97], [13, 10]], by decide, rfl⟩, fun _ _ => rfl⟩
      (.whole shortLogin.plainPassword) {} :=
  (Login.independent_iff _ _ _ rfl rfl rfl).mpr {
    username := by decide
    password := by decide
    decodes := by decide
    writes := fun _ _ h => by cases h
    answer := fun h => absurd h (by decide) }

/-- The line feed comes in a packet of its own: an `IndexError`. -/
theorem independent_violated :
    ¬ ∀ (us : Typing loginConfig shortLogin.username) (ps : Typing loginConfig shortLogin.password),
      shortLogin.Independent us ps {} := by
  intro h
  let us : Typing loginConfig shortLogin.username := ⟨⟨[[97, 13], [10]], by decide, rfl⟩, fun _ _ => rfl⟩
  obtain ⟨t, u, ht, -⟩ := h us (.whole shortLogin.plainPassword)
  have hraise : (exec (shortLogin.deliver us (.whole shortLogin.plainPassword)) {}).1 =
    .error .indexError := rfl
  rw [ht] at hraise
  cases hraise

end Cowrie.TelnetProxy
