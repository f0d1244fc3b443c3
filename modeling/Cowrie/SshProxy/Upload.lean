import Cowrie.SshProxy.SftpPackets
import Mathlib.Data.Set.List

/-!
# What an SFTP upload leaves in the download directory (`sftp.py:153-181`, `sftp.py:212-243`)

A client opens a file for writing, gets its handle, writes pieces of it at offsets and closes it.
`handle_packet` follows with one buffer, `theFile`: a WRITE cuts it off at its offset and appends
the data (`sftp.py:177`). So it loses what it holds behind a piece that is written again, and it
closes the gap before a piece that is written early. What is stored at the CLOSE also hangs on the
command: one that contains `get` is a download (`sftp.py:214`), and one that is not text ends the
handling of the OPEN in an exception (`sftp.py:169`).

* **`captured_iff`**: the stored bytes are the contents of the file, for all data of the given offsets
  and lengths, iff the upload is `Recognized` and the offsets and lengths are `Intact`.
* **`captured_violated`**: a header is written again; everything behind it is lost.
-/

namespace Cowrie.SshProxy

open Cowrie.Lib

/-- An `SSH_FXP_WRITE`. -/
structure WriteRequest where
  id : UInt32
  offset : UInt64
  data : SftpString

def WriteRequest.write (w : WriteRequest) : Nat × Bytes := (w.offset.toNat, w.data)

/-- The offsets and lengths of the writes. -/
def shapes (ws : List WriteRequest) : List (Nat × Nat) := (ws.map WriteRequest.write).map shape

/-- An upload, but for its data. -/
structure Upload where
  openId : UInt32
  path : SftpString
  pflags : PFlags
  attrs : Bytes
  handle : SftpString
  closeId : UInt32
  forWriting : pflags.write = true

namespace Upload

/-- The packets that open the file. -/
def opening (u : Upload) : List (Parent × Bytes) :=
  [(.client, openPacket u.openId u.path u.pflags u.attrs),
    (.server, handlePacketOf u.openId u.handle)]

/-- The packets that write the data. -/
def writes (u : Upload) (ws : List WriteRequest) : List (Parent × Bytes) :=
  ws.map fun w => (.client, writePacket w.id u.handle w.offset w.data)

/-- The path is text, and its command is not taken for a download. -/
def Recognized (u : Upload) : Prop :=
  (decode u.path).isSome ∧ ¬ Bytes.contains (encode "get") u.path

instance (u : Upload) : Decidable u.Recognized := inferInstanceAs (Decidable (_ ∧ _))

def packets (u : Upload) (ws : List WriteRequest) : List (Parent × Bytes) :=
  u.opening ++ (u.writes ws ++ [(.client, closePacket u.closeId u.handle)])

end Upload

namespace Session

/-- The packets in turn; an exception closes the connection. -/
def feed (sha256 : Bytes → String) : List (Parent × Bytes) → SftpM Unit
  | [] => pure ()
  | p :: ps => do
    handlePacket sha256 p.1 ⟨0, p.2⟩
    feed sha256 ps

/-- The bytes stored and hashed are those of the file on the server. -/
def Captured (sha256 : Bytes → String) (s : Session) (u : Upload) (ws : List WriteRequest) : Prop :=
  let contents := writeAll 0 [] (ws.map WriteRequest.write)
  let t := (exec (feed sha256 (u.packets ws)) s).2
  t.downloads = stored sha256 contents s.downloads ∧
    ∃ name duplicate,
      t.log.getLast? = some (.fileUpload name duplicate (sha256 contents) (sha256 contents))

/-! ## The packets of an upload -/

/-- What decides about an upload whose handle is known. -/
def transfer (s : Session) : View := { s.view with id := 0 }

theorem feed_cons (sha256 : Bytes → String) (p : Parent × Bytes) (ps : List (Parent × Bytes)) :
    feed sha256 (p :: ps) = handlePacket sha256 p.1 ⟨0, p.2⟩ >>= fun _ => feed sha256 ps := rfl

theorem feed_append (sha256 : Bytes → String) (ps qs : List (Parent × Bytes)) :
    feed sha256 (ps ++ qs) = feed sha256 ps >>= fun _ => feed sha256 qs := by
  induction ps with
  | nil => rfl
  | cons p ps ih => rw [List.cons_append, feed_cons, feed_cons, ih, bind_assoc]

theorem exec_feed_singleton (sha256 : Bytes → String) (p : Parent × Bytes) (s : Session) :
    exec (feed sha256 [p]) s = exec (handlePacket sha256 p.1 ⟨0, p.2⟩) s := by
  rw [feed_cons, exec_bind]
  cases exec (handlePacket sha256 p.1 ⟨0, p.2⟩) s with
  | mk r t =>
    cases r with
    | ok a => rfl
    | error e => rfl

theorem ends_writes (sha256 : Bytes → String) (u : Upload) (ws : List WriteRequest) {s : Session}
    (h : s.handle = u.handle) :
    Ends transfer (feed sha256 (u.writes ws)) s (.ok ())
      { s.transfer with theFile := cutAll s.theFile (ws.map WriteRequest.write) } := by
  induction ws generalizing s with
  | nil => exact ⟨rfl, rfl⟩
  | cons w ws ih =>
    obtain ⟨t, ht, hview⟩ := (ends_write sha256 w.id u.handle w.offset w.data s).exec
    rw [if_pos h] at hview
    have hfile : t.theFile = cutWrite s.theFile w.offset.toNat w.data := congrArg View.theFile hview
    have htransfer : t.transfer =
        { s.transfer with theFile := cutWrite s.theFile w.offset.toNat w.data } :=
      congrArg (fun v : View => { v with id := 0 }) hview
    have hrest := ih (s := t) ((congrArg View.handle hview).trans h)
    rw [htransfer, hfile] at hrest
    exact ends_bind_ok ht hrest

/-- OPEN and HANDLE: the session is ready for the data. -/
theorem ends_opened (sha256 : Bytes → String) (u : Upload) (s : Session) :
    Ends view (feed sha256 u.opening) s
      (match decode u.path with
        | some _ => .ok ()
        | none => .error .unicodeDecodeError)
      { id := u.openId.toNat
        handle := if (decode u.path).isSome then u.handle else s.handle
        command := encode "put " ++ u.path
        theFile := []
        downloads := s.downloads } := by
  have hopen := ends_open sha256 u.openId u.path u.pflags u.attrs s
  have hcommand : commandOf u.pflags u.path s.command = encode "put " ++ u.path := by
    unfold commandOf
    rw [if_pos u.forWriting]
  rw [hcommand, decode_append, u.forWriting] at hopen
  unfold Upload.opening
  rw [feed_cons]
  cases hpath : decode u.path with
  | none =>
    rw [hpath] at hopen
    exact ends_bind_error hopen
  | some path =>
    rw [hpath] at hopen
    obtain ⟨t, ht, hview⟩ := hopen.exec
    refine ends_bind_ok ht ?_
    unfold Ends
    rw [exec_feed_singleton]
    have hid : u.openId.toNat = t.id := (congrArg View.id hview).symm
    have hhandle := ends_handle sha256 u.openId u.handle t
    rw [hview, if_pos hid] at hhandle
    exact hhandle

/-- The session before the CLOSE, if the path is text. -/
theorem ends_written (sha256 : Bytes → String) (u : Upload) (ws : List WriteRequest) (s : Session)
    (hpath : (decode u.path).isSome) :
    Ends transfer (feed sha256 u.opening >>= fun _ => feed sha256 (u.writes ws)) s (.ok ())
      { id := 0
        handle := u.handle
        command := encode "put " ++ u.path
        theFile := cutAll [] (ws.map WriteRequest.write)
        downloads := s.downloads } := by
  have hopened := ends_opened sha256 u s
  obtain ⟨path, hp⟩ := Option.isSome_iff_exists.mp hpath
  rw [hp] at hopened
  refine ends_bind hopened fun t hview => ?_
  have hwrites := ends_writes sha256 u ws (s := t) (congrArg View.handle hview)
  have htransfer := congrArg (fun v : View => { v with id := 0 }) hview
  rw [show t.theFile = [] from congrArg View.theFile hview,
    show t.transfer = _ from htransfer] at hwrites
  exact hwrites

theorem feed_packets (sha256 : Bytes → String) (u : Upload) (ws : List WriteRequest) :
    feed sha256 (u.packets ws) =
      (feed sha256 u.opening >>= fun _ => feed sha256 (u.writes ws)) >>=
        fun _ => feed sha256 [(.client, closePacket u.closeId u.handle)] := by
  unfold Upload.packets
  rw [feed_append, feed_append, bind_assoc]

/-- **A whole upload** stores the buffer, if it is recognized. -/
theorem ends_upload (sha256 : Bytes → String) (u : Upload) (ws : List WriteRequest) (s : Session)
    (h : u.Recognized) :
    let contents := cutAll [] (ws.map WriteRequest.write)
    let t := (exec (feed sha256 (u.packets ws)) s).2
    t.downloads = stored sha256 contents s.downloads ∧
      ∃ name duplicate,
        t.log.getLast? = some (.fileUpload name duplicate (sha256 contents) (sha256 contents)) := by
  obtain ⟨hpath, hget⟩ := h
  obtain ⟨path, hp⟩ := Option.isSome_iff_exists.mp hpath
  obtain ⟨t, ht, hview⟩ := (ends_written sha256 u ws s hpath).exec
  have hcommand : t.command = encode "put " ++ u.path := congrArg View.command hview
  have huploads : t.Uploads u.handle := by
    refine ⟨congrArg View.handle hview, ?_, ?_⟩
    · rw [hcommand, contains_get]
      exact hget
    · rw [hcommand]
      exact contains_put u.path
  have hdecode : decode t.command = some ("put " ++ path) := by
    rw [hcommand, decode_append, hp]
    rfl
  obtain ⟨v, hv, hend⟩ := (ends_store sha256 u.closeId u.handle huploads hdecode).exec
  have hdownloads : v.downloads = stored sha256 t.theFile t.downloads :=
    congrArg (fun x => x.1.downloads) hend
  have hlog := congrArg Prod.snd hend
  rw [show t.theFile = _ from congrArg View.theFile hview] at hdownloads hlog
  rw [show t.downloads = s.downloads from congrArg View.downloads hview] at hdownloads
  simp only
  rw [feed_packets, exec_bind_ok ht, exec_feed_singleton, hv]
  exact ⟨hdownloads, _, _, hlog⟩

/-- An upload that is not recognized stores nothing. -/
theorem downloads_of_lost (sha256 : Bytes → String) (u : Upload) (ws : List WriteRequest)
    (s : Session) (h : ¬ u.Recognized) :
    (exec (feed sha256 (u.packets ws)) s).2.downloads = s.downloads := by
  rw [feed_packets]
  by_cases hpath : (decode u.path).isSome
  · obtain ⟨t, ht, hview⟩ := (ends_written sha256 u ws s hpath).exec
    have hcommand : t.command = encode "put " ++ u.path := congrArg View.command hview
    have huploads : ¬ t.Uploads u.handle := by
      rintro ⟨-, hget, -⟩
      rw [hcommand, contains_get] at hget
      exact h ⟨hpath, hget⟩
    have hclose := (ends_close sha256 u.closeId u.handle huploads).2
    rw [exec_bind_ok ht, exec_feed_singleton]
    exact (congrArg View.downloads hclose).trans (congrArg View.downloads hview)
  · have hopened := ends_opened sha256 u s
    rw [Option.not_isSome_iff_eq_none.mp hpath] at hopened
    obtain ⟨t, ht, hview⟩ := hopened.exec
    rw [exec_bind_error (exec_bind_error ht)]
    exact congrArg View.downloads hview

/-! ## The contents -/

theorem stored_empty {sha256 : Bytes → String} {b c : Bytes}
    (h : stored sha256 b [] = stored sha256 c []) : b = c := by
  have hlist : [(sha256 b, b)] = [(sha256 c, c)] := h
  exact (Prod.mk.inj (List.cons.inj hlist).1).2

/-- Data of the same offsets and lengths can be sent by the same requests. -/
theorem exists_requests {ws : List WriteRequest} {data : List (Nat × Bytes)}
    (h : data.map shape = shapes ws) :
    ∃ ws' : List WriteRequest, ws'.map WriteRequest.write = data := by
  induction ws generalizing data with
  | nil => exact ⟨[], (List.map_eq_nil_iff.mp h).symm⟩
  | cons w ws ih =>
    cases data with
    | nil => cases h
    | cons d data =>
      obtain ⟨hhead, htail⟩ := List.cons.inj h
      obtain ⟨ws', hws'⟩ := ih htail
      obtain ⟨hoffset, hlength⟩ := Prod.mk.inj hhead
      refine ⟨⟨w.id, w.offset, ⟨d.2, by rw [hlength]; exact w.data.2⟩⟩ :: ws', ?_⟩
      rw [List.map_cons, hws']
      exact congrArg (· :: data) (Prod.ext hoffset.symm rfl)

/-- **When an upload is captured**: for all data of its offsets and lengths, iff it is recognized and
the offsets and lengths are intact. -/
theorem captured_iff (sha256 : Bytes → String) (u : Upload) (ws : List WriteRequest) :
    (∀ s ws', shapes ws' = shapes ws → Captured sha256 s u ws') ↔
      u.Recognized ∧ Intact (shapes ws) := by
  constructor
  · intro h
    have hpath : u.Recognized := by
      by_contra hlost
      have hdownloads := (h {} ws rfl).1
      rw [downloads_of_lost sha256 u ws {} hlost] at hdownloads
      cases hdownloads
    refine ⟨hpath, (cutAll_eq_writeAll_iff 0).mp fun data hdata => ?_⟩
    obtain ⟨ws', rfl⟩ := exists_requests hdata
    have hdownloads := (h {} ws' hdata).1
    rw [(ends_upload sha256 u ws' {} hpath).1] at hdownloads
    exact stored_empty hdownloads
  · rintro ⟨hpath, hintact⟩ s ws' hshape
    have hcut := (cutAll_eq_writeAll_iff 0).mpr hintact (ws'.map WriteRequest.write) hshape
    have hend := ends_upload sha256 u ws' s hpath
    simp only [hcut] at hend
    exact hend

/-- `put f`, with the handle `h`. -/
def smallUpload : Upload :=
  ⟨1, ⟨[102], by decide⟩, ⟨false, true, false, true, true, false⟩, [0, 0, 0, 0], ⟨[104], by decide⟩, 4,
    rfl⟩

/-- Four bytes, and then the first of them again. -/
def headerRewritten : List WriteRequest :=
  [⟨2, 0, ⟨[127, 69, 76, 70], by decide⟩⟩, ⟨3, 0, ⟨[127], by decide⟩⟩]

/-- **The rest of the file is lost**: one byte of four is stored. -/
theorem captured_violated :
    (exec (feed (fun b => toString b.length) (smallUpload.packets headerRewritten)) {}).2.downloads =
        [("1", [127])] ∧
      ¬ Captured (fun b => toString b.length) {} smallUpload headerRewritten := by
  have hend : (exec (feed (fun b => toString b.length)
      (smallUpload.packets headerRewritten)) {}).2.downloads = [("1", [127])] := by decide +kernel
  refine ⟨hend, fun h => ?_⟩
  have hdownloads := h.1
  rw [hend] at hdownloads
  exact absurd hdownloads (by decide +kernel)

end Session

end Cowrie.SshProxy
