import Cowrie.Lib.Run
import Cowrie.Lib.SplitOn
import Cowrie.SshProxy.SftpPackets
import Mathlib.Logic.Function.Basic

/-!
# SFTP sessions with several outstanding requests (`sftp.py:133-243`)

A client may send requests before the last ones are answered, and have several files open.
`handle_packet` has one handle, one buffer and one command, and takes a HANDLE for the answer to
the packet before it if the two have the same identifier (`sftp.py:180`).

* `Channel`: the session, what is outstanding and open by the protocol, and, as ghosts, which file the
  buffer and the command belong to. `channelStep` is one packet of either direction, if the protocol
  allows it.
* `Accounts`: a packet is handled without an exception, a WRITE leaves the contents of its file in the
  buffer, and the CLOSE of an upload stores the contents of its file, under its name.
* **`accounts_of_oneAtATime`**: so does every packet of a run in which uploads are `OneAtATime`.
* **`accounts_violated`**: two files are opened at once.
-/

namespace Cowrie.SshProxy

open Cowrie.Lib Function

/-- A request the server has not answered. -/
inductive Request
  | fxpOpen (path : SftpString) (pflags : PFlags)
  | fxpWrite
  | fxpClose
  deriving DecidableEq

structure OpenFile where
  path : SftpString
  forWriting : Bool
  contents : Bytes
  deriving DecidableEq

inductive Message
  | fxpOpen (id : UInt32) (path : SftpString) (pflags : PFlags) (attrs : Bytes)
  | fxpWrite (id : UInt32) (handle : SftpString) (offset : UInt64) (data : SftpString)
  | fxpClose (id : UInt32) (handle : SftpString)
  | fxpHandle (id : UInt32) (handle : SftpString)
  | fxpStatus (id : UInt32) (code : UInt32) (message : SftpString) (language : Bytes)

/-- Requests come from the client, responses from the server. -/
def Message.packet : Message → Parent × Bytes
  | .fxpOpen id path pflags attrs => (.client, openPacket id path pflags attrs)
  | .fxpWrite id handle offset data => (.client, writePacket id handle offset data)
  | .fxpClose id handle => (.client, closePacket id handle)
  | .fxpHandle id handle => (.server, handlePacketOf id handle)
  | .fxpStatus id code message language => (.server, statusPacket id code message language)

/-- One channel. `contents` are the bytes of the WRITE requests on a handle, answered or not. -/
structure Channel where
  session : Session
  requests : UInt32 → Option Request := fun _ => none
  files : SftpString → Option OpenFile := fun _ => none
  /-- the OPEN that was the last packet -/
  justOpened : Option UInt32 := none
  /-- the handle of the upload the buffer belongs to -/
  buffered : Option SftpString := none
  /-- the handle of the upload whose OPEN is the command -/
  named : Option SftpString := none

namespace Channel

variable (sha256 : Bytes → String)

/-- What the protocol allows: a new identifier and an open handle in a request, an outstanding
identifier and a new handle in a response. -/
def Allowed (c : Channel) : Message → Prop
  | .fxpOpen id .. => c.requests id = none
  | .fxpWrite id handle .. => c.requests id = none ∧ (c.files handle).isSome
  | .fxpClose id handle => c.requests id = none ∧ (c.files handle).isSome
  | .fxpHandle id handle =>
    (match c.requests id with
      | some (.fxpOpen ..) => True
      | _ => False) ∧ c.files handle = none
  | .fxpStatus id _ message _ => (c.requests id).isSome ∧ (decode message).isSome

instance (c : Channel) : DecidablePred c.Allowed
  | .fxpOpen id .. => inferInstanceAs (Decidable (c.requests id = none))
  | .fxpWrite .. => inferInstanceAs (Decidable (_ ∧ _))
  | .fxpClose .. => inferInstanceAs (Decidable (_ ∧ _))
  | .fxpHandle id handle =>
    have : Decidable (match c.requests id with
      | some (.fxpOpen ..) => True
      | _ => False) := by split <;> infer_instance
    inferInstanceAs (Decidable (_ ∧ c.files handle = none))
  | .fxpStatus .. => inferInstanceAs (Decidable (_ ∧ _))

/-- A WRITE on a file; one that is not open for writing stays as it is. -/
def OpenFile.write (f : OpenFile) (offset : Nat) (data : Bytes) : OpenFile :=
  if f.forWriting then { f with contents := overwrite 0 f.contents offset data } else f

/-- Everything but the session. -/
def track (c : Channel) : Message → Channel
  | .fxpOpen id path pflags _ => { c with
      requests := update c.requests id (some (.fxpOpen path pflags))
      justOpened := some id
      buffered := if pflags.write then none else c.buffered
      named := if pflags.write ∨ pflags.read then none else c.named }
  | .fxpWrite id handle offset data => { c with
      requests := update c.requests id (some .fxpWrite)
      files := update c.files handle
        ((c.files handle).map fun f => OpenFile.write f offset.toNat data)
      justOpened := none }
  | .fxpClose id handle => { c with
      requests := update c.requests id (some .fxpClose)
      files := update c.files handle none
      justOpened := none
      buffered := if c.buffered = some handle then none else c.buffered
      named := if c.named = some handle then none else c.named }
  | .fxpHandle id handle =>
    match c.requests id with
    | some (.fxpOpen path pflags) =>
      let upload := if pflags.write then some handle else none
      { c with
        requests := update c.requests id none
        files := update c.files handle (some ⟨path, pflags.write, []⟩)
        justOpened := none
        buffered := if c.justOpened = some id then upload else c.buffered
        named := if c.justOpened = some id then upload else c.named }
    | _ => c
  | .fxpStatus id .. => { c with
      requests := update c.requests id none
      justOpened := none }

/-- The call of `handle_packet`. -/
def receive (c : Channel) (m : Message) : Except PyError Unit × Session :=
  exec (Session.handlePacket sha256 m.packet.1 ⟨0, m.packet.2⟩) c.session

def channelStep (c : Channel) (m : Message) : Option Channel :=
  if c.Allowed m then some { c.track m with session := (c.receive sha256 m).2 } else none

/-- The packet is accounted to the file it belongs to. -/
def Accounts (c : Channel) (m : Message) : Prop :=
  c.Allowed m →
    let r := c.receive sha256 m
    r.1 = .ok () ∧
      match m with
      | .fxpWrite _ handle offset data => ∀ f, c.files handle = some f → f.forWriting →
          r.2.theFile = overwrite 0 f.contents offset.toNat data
      | .fxpClose _ handle => ∀ f, c.files handle = some f → f.forWriting →
          r.2.downloads = Session.stored sha256 f.contents c.session.downloads ∧
            ∃ name duplicate, decode f.path = some name ∧
              r.2.log.getLast? =
                some (.fileUpload name duplicate (sha256 f.contents) (sha256 f.contents))
      | _ => True

/-- The path is logged as it is, and not taken for a download. -/
def Plain (path : Bytes) : Prop :=
  ¬ Bytes.contains (encode "get") path ∧ ∀ name, decode path = some name → ' ' ∉ name.toList

instance (path : Bytes) : Decidable (Plain path) :=
  have := optionDecidable (p := fun name : String => ' ' ∉ name.toList) (decode path)
  inferInstanceAs (Decidable (_ ∧ _))

/-- Uploads one at a time: the buffer belongs to the file of a WRITE, buffer and command to the
upload of a CLOSE. -/
def OneAtATime (c : Channel) : Message → Prop
  | .fxpOpen _ path pflags _ => pflags.write ∨ pflags.read → (decode path).isSome
  | .fxpWrite _ handle offset data => ∀ f, c.files handle = some f → f.forWriting →
      c.buffered = some handle ∧ Fits f.contents (offset.toNat, data.val)
  | .fxpClose _ handle => ∀ f, c.files handle = some f → f.forWriting →
      c.named = some handle ∧ Plain f.path
  | .fxpHandle .. => True
  | .fxpStatus .. => True

instance (c : Channel) : ∀ m, Decidable (c.OneAtATime m)
  | .fxpOpen _ path pflags _ =>
    inferInstanceAs (Decidable (pflags.write ∨ pflags.read → (decode path).isSome))
  | .fxpWrite _ handle offset data =>
    optionDecidable (p := fun f : OpenFile => f.forWriting → c.buffered = some handle ∧
      Fits f.contents (offset.toNat, data.val)) (c.files handle)
  | .fxpClose _ handle =>
    optionDecidable (p := fun f : OpenFile => f.forWriting → c.named = some handle ∧ Plain f.path)
      (c.files handle)
  | .fxpHandle .. => isTrue trivial
  | .fxpStatus .. => isTrue trivial

/-! ## The invariant -/

/-- The buffer belongs to the open upload `f`. -/
structure Buffers (c : Channel) (handle : SftpString) (f : OpenFile) : Prop where
  file : c.files handle = some f
  forWriting : f.forWriting
  handle : c.session.handle = handle
  contents : c.session.theFile = f.contents

/-- The ghosts say what the session holds. -/
structure Sound (c : Channel) : Prop where
  text : (decode c.session.command).isSome
  unanswered : ∀ id path pflags, c.requests id = some (.fxpOpen path pflags) →
    id.toNat = c.session.id → c.justOpened = some id
  opened : ∀ id, c.justOpened = some id → ∃ path pflags,
    c.requests id = some (.fxpOpen path pflags) ∧ c.session.id = id.toNat ∧
      (pflags.write → c.session.theFile = [] ∧ c.session.command = encode "put " ++ path)
  buffers : ∀ handle, c.buffered = some handle → ∃ f, c.Buffers handle f
  names : ∀ handle, c.named = some handle → ∃ f, c.Buffers handle f ∧
    c.session.command = encode "put " ++ f.path

/-- A session before its first upload. -/
theorem sound_start {s : Session} (h : (decode s.command).isSome) : Sound { session := s } := by
  refine ⟨h, ?_, ?_, ?_, ?_⟩
  · intro id path pflags hrequest
    cases hrequest
  · intro id hopened
    cases hopened
  · intro handle hbuffered
    cases hbuffered
  · intro handle hnamed
    cases hnamed

variable {sha256}

theorem channelStep_inv {c d : Channel} {m : Message} (h : channelStep sha256 c m = some d) :
    c.Allowed m ∧ d = { c.track m with session := (c.receive sha256 m).2 } := by
  unfold channelStep at h
  split at h
  · next hallowed => exact ⟨hallowed, (Option.some.inj h).symm⟩
  · cases h

/-- An identifier is that of the request it was just given to. -/
theorem request_of_update {requests : UInt32 → Option Request} {id id' : UInt32} {r r' : Request}
    (h : update requests id (some r) id' = some r') (hid : id'.toNat = id.toNat) :
    id' = id ∧ r' = r := by
  obtain rfl : id' = id := UInt32.toNat_inj.mp hid
  rw [update_self] at h
  exact ⟨rfl, (Option.some.inj h).symm⟩

theorem not_request_of_update {requests : UInt32 → Option Request} {id id' : UInt32} {r : Request}
    (h : update requests id none id' = some r) : id'.toNat ≠ id.toNat := by
  intro hid
  obtain rfl : id' = id := UInt32.toNat_inj.mp hid
  rw [update_self] at h
  cases h

theorem decode_commandOf {path old : Bytes} {pflags : PFlags} (hold : (decode old).isSome)
    (h : pflags.write ∨ pflags.read → (decode path).isSome) :
    (decode (Session.commandOf pflags path old)).isSome := by
  unfold Session.commandOf
  by_cases hwrite : pflags.write
  · rw [if_pos hwrite, decode_append, Option.isSome_map]
    exact h (Or.inl hwrite)
  · by_cases hread : pflags.read
    · rw [if_neg hwrite, if_pos hread, decode_append, Option.isSome_map]
      exact h (Or.inr hread)
    · rw [if_neg hwrite, if_neg hread]
      exact hold

/-- An OPEN on a sound channel. -/
theorem ends_receive_open (sha256 : Bytes → String) {c : Channel} (h : c.Sound) (id : UInt32)
    {path : SftpString} {pflags : PFlags} (attrs : Bytes)
    (hpath : pflags.write ∨ pflags.read → (decode path).isSome) :
    Ends Session.view (Session.handlePacket sha256 .client ⟨0, openPacket id path pflags attrs⟩)
      c.session (.ok ())
      { c.session.view with
        id := id.toNat
        command := Session.commandOf pflags path c.session.command
        theFile := if pflags.write then [] else c.session.theFile } := by
  have hopen := Session.ends_open sha256 id path pflags attrs c.session
  obtain ⟨text, htext⟩ := Option.isSome_iff_exists.mp (decode_commandOf h.text hpath)
  rw [htext] at hopen
  exact hopen

theorem sound_open {c : Channel} (h : c.Sound) {id : UInt32} {path : SftpString}
    {pflags : PFlags} {attrs : Bytes}
    (hpath : pflags.write ∨ pflags.read → (decode path).isSome) :
    Sound { c.track (.fxpOpen id path pflags attrs) with
      session := (c.receive sha256 (.fxpOpen id path pflags attrs)).2 } := by
  obtain ⟨t, ht, hview⟩ := (ends_receive_open sha256 h id attrs hpath).exec
  have hreceive : c.receive sha256 (.fxpOpen id path pflags attrs) = (.ok (), t) := ht
  have hid : t.id = id.toNat := congrArg Session.View.id hview
  have hhandle : t.handle = c.session.handle := congrArg Session.View.handle hview
  have hcommand : t.command = Session.commandOf pflags path c.session.command :=
    congrArg Session.View.command hview
  have hfile : t.theFile = if pflags.write then [] else c.session.theFile :=
    congrArg Session.View.theFile hview
  rw [hreceive]
  refine ⟨?_, ?_, ?_, ?_, ?_⟩
  · rw [hcommand]
    exact decode_commandOf h.text hpath
  · intro id' path' pflags' hrequest hid'
    rw [hid] at hid'
    obtain ⟨rfl, -⟩ := request_of_update hrequest hid'
    rfl
  · intro id' hopened
    obtain rfl : id = id' := Option.some.inj hopened
    refine ⟨path, pflags, update_self _ _ _, hid, fun hwrite => ?_⟩
    rw [hfile, hcommand]
    unfold Session.commandOf
    rw [if_pos hwrite, if_pos hwrite]
    exact ⟨rfl, rfl⟩
  · intro handle hbuffered
    by_cases hwrite : pflags.write
    · simp only [track, hwrite, if_true] at hbuffered
      cases hbuffered
    · simp only [track, if_neg hwrite] at hbuffered
      obtain ⟨f, hf⟩ := h.buffers handle hbuffered
      refine ⟨f, hf.file, hf.forWriting, hhandle.trans hf.handle, ?_⟩
      rw [hfile, if_neg hwrite]
      exact hf.contents
  · intro handle hnamed
    by_cases hflags : pflags.write ∨ pflags.read
    · simp only [track, if_pos hflags] at hnamed
      cases hnamed
    · simp only [track, if_neg hflags] at hnamed
      obtain ⟨hwrite, hread⟩ := not_or.mp hflags
      obtain ⟨f, hf, hname⟩ := h.names handle hnamed
      refine ⟨f, ⟨hf.file, hf.forWriting, hhandle.trans hf.handle, ?_⟩, ?_⟩
      · rw [hfile, if_neg hwrite]
        exact hf.contents
      · rw [hcommand]
        unfold Session.commandOf
        rw [if_neg hwrite, if_neg hread]
        exact hname

theorem sound_write {c : Channel} (h : c.Sound) {id : UInt32} {handle : SftpString}
    {offset : UInt64} {data : SftpString}
    (hfits : c.OneAtATime (.fxpWrite id handle offset data)) :
    Sound { c.track (.fxpWrite id handle offset data) with
      session := (c.receive sha256 (.fxpWrite id handle offset data)).2 } := by
  obtain ⟨t, ht, hview⟩ := (Session.ends_write sha256 id handle offset data c.session).exec
  have hreceive : c.receive sha256 (.fxpWrite id handle offset data) = (.ok (), t) := ht
  have hid : t.id = id.toNat := congrArg Session.View.id hview
  have hhandle : t.handle = c.session.handle := congrArg Session.View.handle hview
  have hcommand : t.command = c.session.command := congrArg Session.View.command hview
  have hfile : t.theFile = if c.session.handle = handle then
      cutWrite c.session.theFile offset.toNat data else c.session.theFile :=
    congrArg Session.View.theFile hview
  -- the upload in the buffer is the one written to, or another one
  have hbuffers : ∀ handle' f, c.Buffers handle' f → ∃ f', f'.path = f.path ∧
      Buffers { c.track (.fxpWrite id handle offset data) with session := t } handle' f' := by
    intro handle' f hf
    by_cases hsame : handle' = handle
    · subst hsame
      obtain ⟨-, hfit⟩ := hfits f hf.file hf.forWriting
      refine ⟨{ f with contents := overwrite 0 f.contents offset.toNat data }, rfl, ?_, ?_, ?_, ?_⟩
      · simp only [track, update_self, hf.file, Option.map_some, OpenFile.write, hf.forWriting,
          if_true]
      · exact hf.forWriting
      · exact hhandle.trans hf.handle
      · change t.theFile = _
        rw [hfile, if_pos hf.handle, hf.contents]
        exact cutWrite_eq_overwrite_iff.mpr hfit
    · have hother : c.session.handle ≠ handle := by
        rw [hf.handle]
        exact fun heq => hsame (Subtype.ext heq)
      refine ⟨f, rfl, ?_, hf.forWriting, hhandle.trans hf.handle, ?_⟩
      · exact (update_of_ne hsame _ _).trans hf.file
      · change t.theFile = _
        rw [hfile, if_neg hother]
        exact hf.contents
  rw [hreceive]
  refine ⟨?_, ?_, ?_, ?_, ?_⟩
  · rw [hcommand]
    exact h.text
  · intro id' path' pflags' hrequest hid'
    rw [hid] at hid'
    obtain ⟨-, hrequest⟩ := request_of_update hrequest hid'
    cases hrequest
  · intro id' hopened
    cases hopened
  · intro handle' hbuffered
    obtain ⟨f, hf⟩ := h.buffers handle' hbuffered
    obtain ⟨f', -, hf'⟩ := hbuffers handle' f hf
    exact ⟨f', hf'⟩
  · intro handle' hnamed
    obtain ⟨f, hf, hname⟩ := h.names handle' hnamed
    obtain ⟨f', hpath, hf'⟩ := hbuffers handle' f hf
    refine ⟨f', hf', ?_⟩
    rw [hpath, hcommand]
    exact hname

/-- What a packet that only gives an identifier leaves of a sound channel. -/
theorem sound_of_quiet {c d : Channel} (h : c.Sound) {id : Nat}
    (hview : d.session.view =
      { c.session.view with id := id, downloads := d.session.downloads })
    (hrequests : ∀ id' path pflags, d.requests id' = some (.fxpOpen path pflags) → id'.toNat ≠ id)
    (hopened : d.justOpened = none)
    (hbuffered : ∀ handle, d.buffered = some handle →
      c.buffered = some handle ∧ d.files handle = c.files handle)
    (hnamed : ∀ handle, d.named = some handle →
      c.named = some handle ∧ d.files handle = c.files handle) : d.Sound := by
  have hid : d.session.id = id := congrArg Session.View.id hview
  have hhandle : d.session.handle = c.session.handle := congrArg Session.View.handle hview
  have hcommand : d.session.command = c.session.command := congrArg Session.View.command hview
  have hfile : d.session.theFile = c.session.theFile := congrArg Session.View.theFile hview
  refine ⟨?_, ?_, ?_, ?_, ?_⟩
  · rw [hcommand]
    exact h.text
  · intro id' path pflags hrequest hid'
    rw [hid] at hid'
    exact absurd hid' (hrequests id' path pflags hrequest)
  · intro id' hid'
    rw [hopened] at hid'
    cases hid'
  · intro handle hd
    obtain ⟨hc, hsame⟩ := hbuffered handle hd
    obtain ⟨f, hf⟩ := h.buffers handle hc
    exact ⟨f, hsame.trans hf.file, hf.forWriting, hhandle.trans hf.handle,
      hfile.trans hf.contents⟩
  · intro handle hd
    obtain ⟨hc, hsame⟩ := hnamed handle hd
    obtain ⟨f, hf, hname⟩ := h.names handle hc
    exact ⟨f, ⟨hsame.trans hf.file, hf.forWriting, hhandle.trans hf.handle,
      hfile.trans hf.contents⟩, hcommand.trans hname⟩

/-- A CLOSE on a sound channel, upload or not. -/
theorem ends_receive_close (sha256 : Bytes → String) {c : Channel} (h : c.Sound) (id : UInt32)
    (handle : SftpString) :
    ∃ t, c.receive sha256 (.fxpClose id handle) = (.ok (), t) ∧
      t.view = { c.session.view with id := id.toNat, downloads := t.downloads } := by
  by_cases huploads : c.session.Uploads handle
  · obtain ⟨command, hcommand⟩ := Option.isSome_iff_exists.mp h.text
    obtain ⟨t, ht, hview⟩ := (Session.ends_store sha256 id handle huploads hcommand).exec
    have hview := congrArg Prod.fst hview
    have hdownloads : t.downloads = _ := congrArg Session.View.downloads hview
    refine ⟨t, ht, ?_⟩
    rw [hdownloads]
    exact hview
  · obtain ⟨t, ht, hview⟩ := (Session.ends_close sha256 id handle huploads).exec
    have hdownloads : t.downloads = c.session.downloads := congrArg Session.View.downloads hview
    refine ⟨t, ht, ?_⟩
    rw [hdownloads]
    exact hview

theorem sound_close {c : Channel} (h : c.Sound) (id : UInt32) (handle : SftpString) :
    Sound { c.track (.fxpClose id handle) with
      session := (c.receive sha256 (.fxpClose id handle)).2 } := by
  obtain ⟨t, ht, hview⟩ := ends_receive_close sha256 h id handle
  rw [ht]
  refine sound_of_quiet h hview ?_ rfl ?_ ?_
  · intro id' path pflags hrequest hid
    obtain ⟨-, hrequest⟩ := request_of_update hrequest hid
    cases hrequest
  · intro handle' hbuffered
    by_cases hclosed : c.buffered = some handle
    · simp only [track, if_pos hclosed] at hbuffered
      cases hbuffered
    · simp only [track, if_neg hclosed] at hbuffered
      refine ⟨hbuffered, update_of_ne ?_ _ _⟩
      rintro rfl
      exact hclosed hbuffered
  · intro handle' hnamed
    by_cases hclosed : c.named = some handle
    · simp only [track, if_pos hclosed] at hnamed
      cases hnamed
    · simp only [track, if_neg hclosed] at hnamed
      refine ⟨hnamed, update_of_ne ?_ _ _⟩
      rintro rfl
      exact hclosed hnamed

theorem sound_status {c : Channel} (h : c.Sound) {id code : UInt32} {message : SftpString}
    {language : Bytes} (hmessage : (decode message).isSome) :
    Sound { c.track (.fxpStatus id code message language) with
      session := (c.receive sha256 (.fxpStatus id code message language)).2 } := by
  obtain ⟨t, ht, hview⟩ := (Session.ends_status sha256 id code message language h.text hmessage).exec
  have hreceive : c.receive sha256 (.fxpStatus id code message language) = (.ok (), t) := ht
  have hdownloads : t.downloads = c.session.downloads := congrArg Session.View.downloads hview
  rw [hreceive]
  refine @sound_of_quiet c _ h id.toNat ?_ ?_ rfl ?_ ?_
  · rw [hdownloads]
    exact hview
  · intro id' path pflags hrequest
    exact not_request_of_update hrequest
  · exact fun handle hbuffered => ⟨hbuffered, rfl⟩
  · exact fun handle hnamed => ⟨hnamed, rfl⟩

theorem sound_handle {c : Channel} (h : c.Sound) {id : UInt32} {handle : SftpString}
    (hallowed : c.Allowed (.fxpHandle id handle)) :
    Sound { c.track (.fxpHandle id handle) with
      session := (c.receive sha256 (.fxpHandle id handle)).2 } := by
  obtain ⟨t, ht, hview⟩ := (Session.ends_handle sha256 id handle c.session).exec
  have hreceive : c.receive sha256 (.fxpHandle id handle) = (.ok (), t) := ht
  obtain ⟨hrequest, hnew⟩ := hallowed
  obtain ⟨path, pflags, hopen⟩ : ∃ path pflags, c.requests id = some (.fxpOpen path pflags) := by
    split at hrequest
    · next path pflags heq => exact ⟨path, pflags, heq⟩
    · exact hrequest.elim
  rw [hreceive]
  simp only [track, hopen]
  by_cases hjust : c.justOpened = some id
  · -- the session takes the handle over
    obtain ⟨path', pflags', hopen', hid, hput⟩ := h.opened id hjust
    obtain ⟨rfl, rfl⟩ : path' = path ∧ pflags' = pflags := by
      rw [hopen] at hopen'
      injection hopen' with hopen'
      injection hopen' with hpath hpflags
      exact ⟨hpath.symm, hpflags.symm⟩
    rw [if_pos hid.symm] at hview
    have hcommand : t.command = c.session.command := congrArg Session.View.command hview
    have hfile : t.theFile = c.session.theFile := congrArg Session.View.theFile hview
    have hupload : ∀ handle', (if pflags'.write then some handle else none) = some handle' →
        handle' = handle ∧ pflags'.write := by
      intro handle' hsome
      split at hsome
      · next hwrite => exact ⟨(Option.some.inj hsome).symm, hwrite⟩
      · cases hsome
    have hbuffers : pflags'.write → Buffers { c with
        session := t, files := update c.files handle (some ⟨path', pflags'.write, []⟩) } handle
          ⟨path', pflags'.write, []⟩ := fun hwrite =>
      ⟨update_self _ _ _, hwrite, congrArg Session.View.handle hview, hfile.trans (hput hwrite).1⟩
    refine ⟨?_, ?_, ?_, ?_, ?_⟩
    · simp only [hcommand]
      exact h.text
    · intro id' path pflags hrequest hid'
      rw [show t.id = id.toNat from congrArg Session.View.id hview] at hid'
      exact absurd hid' (not_request_of_update hrequest)
    · intro id' hopened
      cases hopened
    · intro handle' hbuffered
      simp only [if_pos hjust] at hbuffered
      obtain ⟨rfl, hwrite⟩ := hupload handle' hbuffered
      have hb := hbuffers hwrite
      exact ⟨_, hb.file, hb.forWriting, hb.handle, hb.contents⟩
    · intro handle' hnamed
      simp only [if_pos hjust] at hnamed
      obtain ⟨rfl, hwrite⟩ := hupload handle' hnamed
      have hb := hbuffers hwrite
      exact ⟨_, ⟨hb.file, hb.forWriting, hb.handle, hb.contents⟩, hcommand.trans (hput hwrite).2⟩
  · -- the session does not see that the handle is new
    have hid : ¬ id.toNat = c.session.id := fun heq => hjust (h.unanswered id path pflags hopen heq)
    rw [if_neg hid] at hview
    have hother : ∀ handle' f, c.Buffers handle' f →
        update c.files handle (some ⟨path, pflags.write, []⟩) handle' = c.files handle' := by
      intro handle' f hf
      refine update_of_ne ?_ _ _
      rintro rfl
      exact absurd (hf.file.symm.trans hnew) (by simp)
    have hdownloads : t.downloads = c.session.downloads := congrArg Session.View.downloads hview
    refine @sound_of_quiet c _ h id.toNat ?_ ?_ rfl ?_ ?_
    · simp only [hdownloads]
      exact hview
    · intro id' path pflags hrequest
      exact not_request_of_update hrequest
    · intro handle' hbuffered
      simp only [if_neg hjust] at hbuffered
      obtain ⟨f, hf⟩ := h.buffers handle' hbuffered
      exact ⟨hbuffered, hother handle' f hf⟩
    · intro handle' hnamed
      simp only [if_neg hjust] at hnamed
      obtain ⟨f, hf, -⟩ := h.names handle' hnamed
      exact ⟨hnamed, hother handle' f hf⟩

/-- **One packet** keeps the ghosts right, if uploads are one at a time. -/
theorem sound_step {c d : Channel} {m : Message} (h : c.Sound) (hone : c.OneAtATime m)
    (hstep : channelStep sha256 c m = some d) : d.Sound := by
  obtain ⟨hallowed, rfl⟩ := channelStep_inv hstep
  cases m with
  | fxpOpen id path pflags attrs => exact sound_open h hone
  | fxpWrite id handle offset data => exact sound_write h hone
  | fxpClose id handle => exact sound_close h id handle
  | fxpHandle id handle => exact sound_handle h hallowed
  | fxpStatus id code message language => exact sound_status h hallowed.2

/-! ## Accounting -/

theorem uploadName_put {name : String} (h : ' ' ∉ name.toList) :
    Session.uploadName ("put " ++ name) = name := by
  have hput : "put " = "put" ++ String.ofList [' '] := by decide +kernel
  have hspace : " " = String.ofList [' '] := by decide +kernel
  unfold Session.uploadName
  rw [hput, hspace]
  exact getLastD_splitOn h

theorem accounts_close {c : Channel} (h : c.Sound) {id : UInt32} {handle : SftpString}
    (hone : c.OneAtATime (.fxpClose id handle)) : c.Accounts sha256 (.fxpClose id handle) := by
  intro hallowed
  obtain ⟨t, ht, -⟩ := ends_receive_close sha256 h id handle
  refine ⟨by rw [ht], fun f hf hwrite => ?_⟩
  obtain ⟨hnamed, hget, hspace⟩ := hone f hf hwrite
  obtain ⟨f', hbuffers, hcommand⟩ := h.names handle hnamed
  obtain rfl : f' = f := Option.some.inj (hbuffers.file.symm.trans hf)
  have htext := h.text
  rw [hcommand, decode_append, Option.isSome_map] at htext
  obtain ⟨name, hname⟩ := Option.isSome_iff_exists.mp htext
  have huploads : c.session.Uploads handle := by
    refine ⟨hbuffers.handle, ?_, ?_⟩
    · rw [hcommand, Session.contains_get]
      exact hget
    · rw [hcommand]
      exact Session.contains_put f'.path
  have hdecode : decode c.session.command = some ("put " ++ name) := by
    rw [hcommand, decode_append, hname]
    rfl
  obtain ⟨u, hu, hend⟩ := (Session.ends_store sha256 id handle huploads hdecode).exec
  have hreceive : c.receive sha256 (.fxpClose id handle) = (.ok (), u) := hu
  have hdownloads := congrArg (fun x => x.1.downloads) hend
  have hlog := congrArg Prod.snd hend
  simp only [hbuffers.contents, uploadName_put (hspace name hname)] at hdownloads hlog
  rw [hreceive]
  exact ⟨hdownloads, name, _, hname, hlog⟩

/-- **One packet** of a sound channel is accounted to its file, if uploads are one at a time. -/
theorem accounts_of_sound {c : Channel} {m : Message} (h : c.Sound) (hone : c.OneAtATime m) :
    c.Accounts sha256 m := by
  cases m with
  | fxpOpen id path pflags attrs =>
    intro _
    exact ⟨(ends_receive_open sha256 h id attrs hone).1, trivial⟩
  | fxpWrite id handle offset data =>
    intro _
    have hwrite := Session.ends_write sha256 id handle offset data c.session
    refine ⟨hwrite.1, fun f hf hforWriting => ?_⟩
    obtain ⟨hbuffered, hfit⟩ := hone f hf hforWriting
    obtain ⟨f', hbuffers⟩ := h.buffers handle hbuffered
    obtain rfl : f' = f := Option.some.inj (hbuffers.file.symm.trans hf)
    have hfile := congrArg Session.View.theFile hwrite.2
    simp only [if_pos hbuffers.handle, hbuffers.contents] at hfile
    exact hfile.trans (cutWrite_eq_overwrite_iff.mpr hfit)
  | fxpClose id handle => exact accounts_close h hone
  | fxpHandle id handle =>
    intro _
    exact ⟨(Session.ends_handle sha256 id handle c.session).1, trivial⟩
  | fxpStatus id code message language =>
    intro hallowed
    exact ⟨(Session.ends_status sha256 id code message language h.text hallowed.2).1, trivial⟩

/-- **Uploads one at a time**: every packet of the run is accounted to its file. -/
theorem accounts_of_oneAtATime (sha256 : Bytes → String) {s : Session} {messages : List Message}
    (htext : (decode s.command).isSome)
    (h : StepsMeet (channelStep sha256) OneAtATime { session := s } messages) :
    StepsMeet (channelStep sha256) (Accounts sha256) { session := s } messages :=
  stepsMeet_of_inv (fun _ _ _ hsound hone hstep => sound_step hsound hone hstep)
    (fun _ _ hsound hone => accounts_of_sound hsound hone) (sound_start htext) h

/-! ## Small runs -/

def fileA : SftpString := ⟨[97], by decide⟩

def fileB : SftpString := ⟨[98], by decide⟩

def handleA : SftpString := ⟨[104, 97], by decide⟩

def handleB : SftpString := ⟨[104, 98], by decide⟩

def forWriting : PFlags := ⟨false, true, false, true, true, false⟩

def openMessage (id : UInt32) (path : SftpString) : Message :=
  .fxpOpen id path forWriting [0, 0, 0, 0]

def okMessage (id : UInt32) : Message := .fxpStatus id 0 ⟨[79, 75], by decide⟩ []

/-- Two uploads, one after the other, with a pipelined WRITE and CLOSE. -/
def oneAfterTheOther : List Message :=
  [openMessage 1 fileA, .fxpHandle 1 handleA, .fxpWrite 2 handleA 0 ⟨[120, 121], by decide⟩,
    .fxpWrite 3 handleA 2 ⟨[122], by decide⟩, .fxpClose 4 handleA, okMessage 3, okMessage 2,
    okMessage 4, openMessage 5 fileB, .fxpHandle 5 handleB, .fxpWrite 6 handleB 0 ⟨[120], by decide⟩,
    okMessage 6, .fxpClose 7 handleB, okMessage 7]

theorem accounts_oneAfterTheOther :
    StepsMeet (channelStep fun b => toString b.length) (Accounts fun b => toString b.length)
      { session := {} } oneAfterTheOther :=
  accounts_of_oneAtATime _ (by decide +kernel) (by decide +kernel)

/-- Two OPENs before the first answer, then a WRITE to the first file. -/
def twoAtOnce : List Message :=
  [openMessage 1 fileA, openMessage 2 fileB, .fxpHandle 1 handleA, .fxpHandle 2 handleB,
    .fxpWrite 3 handleA 0 ⟨[120], by decide⟩]

/-- The channel after that. -/
def afterTwo : Channel :=
  (run (channelStep fun b => toString b.length) { session := {} } twoAtOnce).get (by decide +kernel)

/-- **Two files at once**: both HANDLEs are missed, and the upload is not stored. -/
theorem accounts_violated :
    (run (channelStep fun b => toString b.length) { session := {} }
        (twoAtOnce ++ [.fxpClose 4 handleA])).isSome ∧
      ¬ StepsMeet (channelStep fun b => toString b.length) (Accounts fun b => toString b.length)
        { session := {} } (twoAtOnce ++ [.fxpClose 4 handleA]) := by
  refine ⟨by decide +kernel, fun h => ?_⟩
  have hrun : run (channelStep fun b => toString b.length) { session := {} } twoAtOnce =
      some afterTwo := (Option.some_get _).symm
  have hallowed : afterTwo.Allowed (.fxpClose 4 handleA) := by decide +kernel
  have hfile : afterTwo.files handleA = some ⟨fileA, true, [120]⟩ := by decide +kernel
  have hlost : (afterTwo.receive (fun b => toString b.length) (.fxpClose 4 handleA)).2.downloads ≠
      Session.stored (fun b => toString b.length) [120] afterTwo.session.downloads := by
    decide +kernel
  have hclose := stepsMeet_iff.mp h twoAtOnce (.fxpClose 4 handleA) [] afterTwo rfl hrun
  exact hlost ((hclose hallowed).2 _ hfile rfl).1

end Channel

end Cowrie.SshProxy
