import Cowrie.Shell.Artifacts
import Cowrie.Tftp.Client

/-!
# What becomes of a TFTP download (`src/cowrie/commands/tftp.py:278-407`, `src/cowrie/core/artifact.py:40-97`)

When `deferred` fires, `_ensure_artifact_closed` closes `fp`; after a success `_download_success` runs, and
`_download_error` if there was none or if that raises.

* `Artifact` is the artifact with what was written to it. `close` asks `fp` for its position first, which is a
  `ValueError` when `fp` has been closed.
* `Session` is the world, the artifact, what was given to `logDispatch` and to `write`, and whether the command has
  exited. An exception keeps what was done before it (`Lib.Prog`).
* `Transfer`: a run of the client that ends in success, with an artifact that is not empty. The world in which it
  ends is any world.
* `Arrived`: the file of the digest, the logged `shasum`, and `file_contents` of the target.

Results:
* `exec_downloadSuccess`: both handlers swallow the `ValueError`, so `shasum` and `shasumFilename` stay empty.
* **`files_completed`**: the files of the host are as before but for the temporary file, which stays.
* `contents_completed`: where the node is made, its contents are empty.
* **`never_arrives`**: no transfer arrives, since the digest that is logged is the empty string.

Left out: `log.msg`, which says what `logDispatch` does, and `cleanup`, which closes the port.
-/

namespace Cowrie.Tftp.Download

open Cowrie.Lib Shell Shell.Fs Shell.Redirect Shell.SftpUpload
open Shell.Artifacts (shasumFilename)

/-- What `_download_error` is given. -/
inductive Failure
  | transfer (outcome : Outcome)
  | cancelled
  | raised (e : FsError)
  deriving DecidableEq, Repr

structure Artifact where
  /-- `fp.name`. -/
  name : Str
  data : Bytes
  fpClosed : Bool := false
  closed : Bool := false
  shasum : Str := []
  shasumFilename : Str := []

/-- What `logDispatch` is given. -/
inductive Entry
  | fileDownload (url outfile shasum destfile : Str)
  | fileDownloadFailed (url : Str)
  deriving DecidableEq, Repr

structure Session where
  world : World
  artifact : Artifact
  dispatched : List Entry := []
  written : List Str := []
  exited : Bool := false

abbrev DownloadM (α : Type) := Prog Failure Session α

/-- The fields of `Command_tftp` when the transfer is started. -/
structure Command where
  hostname : Str
  port : Nat
  fileToGet : Str
  fakeoutfile : Str
  /-- `failure.getErrorMessage()`. -/
  getErrorMessage : Failure → Str

def Command.config (cmd : Command) : Config :=
  ⟨String.ofList cmd.hostname, cmd.port, encode (String.ofList cmd.fileToGet)⟩

def Command.url (cmd : Command) : Str :=
  "tftp://".toList ++ cmd.hostname ++ ':' :: (toString cmd.port).toList ++
    '/' :: cmd.fileToGet.dropWhile (· = '/')

variable (sv : Server) (cmd : Command)

def inWorld {α : Type} (m : RedirectM α) : DownloadM α := do
  let r := exec m (← get).world
  modify fun s => { s with world := r.2 }
  match r.1 with
  | .ok a => pure a
  | .error e => throw (.raised e)

/-! ## The artifact -/

/-- `os.remove`, which raises where there is no such file. -/
def osRemove (path : Str) : DownloadM Unit := do
  if ((← get).world.files path).isNone then throw (.raised (.osError .ENOENT path))
  else inWorld (modify fun w => { w with files := Function.update w.files path none })

/-- `os.rename`, to a name that is free. -/
def osRename (path new : Str) : DownloadM Unit := do
  let files := (← get).world.files
  if (files path).isNone then throw (.raised (.osError .ENOENT path))
  else inWorld (modify fun w => withFile { w with files := Function.update files path none } new
    ((files path).getD []))

/-- `close`. -/
def closeArtifact : DownloadM Unit := do
  let a := (← get).artifact
  -- `self.fp.tell()`
  if a.fpClosed then throw (.raised .valueError)
  else if a.data.length = 0 then
    tryCatch (osRemove a.name) fun _ => pure ()
  else
    modify fun s => { s with artifact := { a with
      fpClosed := true
      closed := true
      shasum := sv.sha256 a.data
      shasumFilename := shasumFilename sv a.data } }
    if ((← get).world.files (shasumFilename sv a.data)).isSome then osRemove a.name
    else osRename a.name (shasumFilename sv a.data)

/-! ## The callbacks -/

/-- `_ensure_artifact_closed`. -/
def ensureArtifactClosed : DownloadM Unit := do
  when ((← get).artifact.fpClosed = false) do
    modify fun s => { s with artifact := { s.artifact with fpClosed := true } }

def logDispatch (entry : Entry) : DownloadM Unit :=
  modify fun s => { s with dispatched := s.dispatched ++ [entry] }

/-- `_safe_exit`. -/
def safeExit : DownloadM Unit := modify fun s => { s with exited := true }

/-- The node of the target, and what it is backed by. -/
def updateHoneyfs (size : Nat) : DownloadM Unit := do
  let user := sv.setup.user
  -- `S_IFREG` and `rw-r--r--`
  let _ ← inWorld (inFs (mkfile cmd.fakeoutfile user.uid user.gid size 33188))
  let shasumFilename := (← get).artifact.shasumFilename
  match ← inWorld (query fun w => w.fs.getfile cmd.fakeoutfile) with
  | none => throw (.raised .typeError)
  | some x => inWorld (updateRealfile sv x shasumFilename)
  inWorld (inFs (chown cmd.fakeoutfile user.uid user.gid))

/-- `_download_success`; `size` is `bytes_received`. -/
def downloadSuccess (size : Nat) : DownloadM Unit := do
  tryCatch (closeArtifact sv) fun _ => pure ()
  let a := (← get).artifact
  logDispatch (.fileDownload cmd.url a.shasumFilename a.shasum cmd.fileToGet)
  updateHoneyfs sv cmd size
  safeExit

/-- `_download_error`. -/
def downloadError (failure : Failure) : DownloadM Unit := do
  tryCatch (closeArtifact sv) fun _ => pure ()
  if failure = .cancelled then pure ()
  else
    logDispatch (.fileDownloadFailed cmd.url)
    modify fun s => { s with written := s.written ++ ["tftp: ".toList ++ cmd.getErrorMessage failure ++ ['\n']] }
    safeExit

/-- The chain of callbacks. -/
def callbacks (outcome : Outcome) (size : Nat) : DownloadM Unit := do
  ensureArtifactClosed
  tryCatch
    (if outcome = .success then downloadSuccess sv cmd size else throw (.transfer outcome))
    (downloadError sv cmd)

/-- A transfer that is complete. -/
structure Transfer where
  events : List Event
  client : TFTPClient
  run : run (step cmd.config) (start cmd.config) events = some client
  success : client.deferred = some .success
  nonempty : client.artifact.flatten ≠ []

variable {cmd} in
/-- What was received. -/
def Transfer.received (t : Transfer cmd) : Bytes := t.client.artifact.flatten

variable {cmd} in
/-- The session when `deferred` fires: `temp` has been written. -/
def Transfer.fired (t : Transfer cmd) (w : World) (temp : Str) : Session :=
  { world := withFile w temp t.received, artifact := { name := temp, data := t.received } }

variable {cmd} in
/-- The session after the callbacks. -/
def completed (t : Transfer cmd) (w : World) (temp : Str) : Session :=
  (exec (callbacks sv cmd .success t.client.bytesReceived) (t.fired w temp)).2

/-- The download has ended up where it should. -/
structure Arrived (s : Session) (data : Bytes) : Prop where
  artifact : s.world.files (shasumFilename sv data) = some data
  logged : ∃ url outfile destfile, Entry.fileDownload url outfile (sv.sha256 data) destfile ∈ s.dispatched
  contents : fileContents sv.setup s.world cmd.fakeoutfile = .ok data

/-! ## What the callbacks do -/

variable {sv cmd} {s : Session} {w : World} {temp path : Str} {size : Nat} {d x : Ref}

theorem exec_inWorld {α : Type} (m : RedirectM α) (s : Session) :
    exec (inWorld m) s = ((exec m s.world).1.mapError .raised, { s with world := (exec m s.world).2 }) := by
  unfold inWorld
  rw [exec_get_bind, exec_modify_bind]
  cases (exec m s.world).1 <;> rfl

/-- The position of a file that is closed. -/
theorem exec_closeArtifact (h : s.artifact.fpClosed) :
    exec (closeArtifact sv) s = (.error (.raised .valueError), s) := by
  unfold closeArtifact
  rw [exec_get_bind, if_pos h]
  rfl

/-- What the handlers do of it. -/
theorem exec_swallowed (h : s.artifact.fpClosed) :
    exec (tryCatch (closeArtifact sv) fun _ => pure ()) s = (.ok (), s) := by
  rw [exec_tryCatch_error (exec_closeArtifact h), exec_pure]

/-- **`_download_success`** after `fp` has been closed. -/
theorem exec_downloadSuccess (h : s.artifact.fpClosed) (size : Nat) :
    exec (downloadSuccess sv cmd size) s =
      exec (updateHoneyfs sv cmd size >>= fun _ => safeExit) { s with dispatched := s.dispatched ++
        [.fileDownload cmd.url s.artifact.shasumFilename s.artifact.shasum cmd.fileToGet] } := by
  unfold downloadSuccess logDispatch
  rw [exec_bind_ok (exec_swallowed h), exec_get_bind, exec_modify_bind]

variable (sv cmd) in
/-- What `_download_error` leaves alone. -/
theorem exec_downloadError (h : s.artifact.fpClosed) (failure : Failure) :
    ∃ t, exec (downloadError sv cmd failure) s = (.ok (), t) ∧ t.world = s.world ∧
      (t.dispatched = s.dispatched ∨ t.dispatched = s.dispatched ++ [.fileDownloadFailed cmd.url]) := by
  unfold downloadError
  rw [exec_bind_ok (exec_swallowed h)]
  split_ifs
  · exact ⟨s, rfl, rfl, .inl rfl⟩
  · exact ⟨_, rfl, rfl, .inr rfl⟩

/-- The virtual file system has changed, if anything. -/
def Quiet (s t : Session) : Prop :=
  t.world.files = s.world.files ∧ t.artifact = s.artifact ∧ t.dispatched = s.dispatched

theorem Quiet.refl (s : Session) : Quiet s s := ⟨rfl, rfl, rfl⟩

theorem Quiet.trans (s t u : Session) (h : Quiet s t) (h' : Quiet t u) : Quiet s u :=
  ⟨h'.1.trans h.1, h'.2.1.trans h.2.1, h'.2.2.trans h.2.2⟩

theorem quiet_inWorld {α : Type} {m : RedirectM α} (h : Along (fun w v => v.files = w.files) m) :
    Along Quiet (inWorld m) := fun s => by
  rw [exec_inWorld]
  exact ⟨h s.world, rfl, rfl⟩

theorem files_inFs {α : Type} (m : FsM α) : Along (fun w v => v.files = w.files) (inFs m) := fun w => by
  rw [exec_inFs]

theorem files_updateRealfile (x : Ref) (realfile : Str) :
    Along (fun w v => v.files = w.files) (updateRealfile sv x realfile) :=
  along_get fun _ => files_inFs _

theorem updateHoneyfs_quiet (sv : Server) (cmd : Command) (size : Nat) :
    Along Quiet (updateHoneyfs sv cmd size) := by
  unfold updateHoneyfs
  refine along_bind Quiet.trans (quiet_inWorld (files_inFs _)) fun _ => along_get fun s => ?_
  refine along_bind Quiet.trans (quiet_inWorld fun w => ?_) fun file => ?_
  · rw [exec_query]
  · cases file with
    | none => exact along_throw Quiet.refl _
    | some x =>
      exact along_bind Quiet.trans (quiet_inWorld (files_updateRealfile x _)) fun _ => quiet_inWorld (files_inFs _)

theorem exec_ensureArtifactClosed (s : Session) :
    exec ensureArtifactClosed s = (.ok (), { s with artifact := { s.artifact with fpClosed := true } }) := by
  unfold ensureArtifactClosed
  rw [exec_get_bind]
  cases hclosed : s.artifact.fpClosed with
  | false =>
    rw [when_true rfl]
    rfl
  | true =>
    rw [when_false (by decide)]
    exact Prod.ext rfl (by rw [← hclosed]; rfl)

/-- The session when `updateHoneyfs` begins. -/
def announced (cmd : Command) (s : Session) : Session :=
  { s with
    artifact := { s.artifact with fpClosed := true }
    dispatched := s.dispatched ++
      [.fileDownload cmd.url s.artifact.shasumFilename s.artifact.shasum cmd.fileToGet] }

/-- **The chain after a success**: an event with the digest of an artifact that has not been closed, and the node. -/
theorem exec_callbacks (sv : Server) (cmd : Command) (s : Session) (size : Nat) :
    let t := (exec (callbacks sv cmd .success size) s).2
    t.world = (exec (updateHoneyfs sv cmd size) (announced cmd s)).2.world ∧
      (t.dispatched = (announced cmd s).dispatched ∨
        t.dispatched = (announced cmd s).dispatched ++ [.fileDownloadFailed cmd.url]) := by
  intro t
  have hquiet := updateHoneyfs_quiet sv cmd size (announced cmd s)
  have hrun : t = (exec (tryCatch (downloadSuccess sv cmd size) (downloadError sv cmd))
      { s with artifact := { s.artifact with fpClosed := true } }).2 := by
    change (exec (callbacks sv cmd .success size) s).2 = _
    unfold callbacks
    rw [exec_bind_ok (exec_ensureArtifactClosed s), if_pos rfl]
  have hsuccess : exec (downloadSuccess sv cmd size) { s with artifact := { s.artifact with fpClosed := true } } =
      exec (updateHoneyfs sv cmd size >>= fun _ => safeExit) (announced cmd s) := exec_downloadSuccess rfl size
  cases hupdate : exec (updateHoneyfs sv cmd size) (announced cmd s) with
  | mk r u =>
    rw [hupdate] at hquiet
    cases r with
    | ok a =>
      rw [exec_bind_ok hupdate] at hsuccess
      rw [exec_tryCatch_ok (hsuccess.trans rfl)] at hrun
      rw [hrun]
      exact ⟨rfl, .inl hquiet.2.2⟩
    | error e =>
      rw [exec_bind_error hupdate] at hsuccess
      have hclosed : u.artifact.fpClosed := by rw [hquiet.2.1]; rfl
      obtain ⟨v, hv, hworld, hdispatched⟩ := exec_downloadError sv cmd hclosed e
      rw [exec_tryCatch_error hsuccess, hv] at hrun
      rw [hrun, ← hquiet.2.2]
      exact ⟨hworld, hdispatched⟩

section Completed

variable (sv) (t : Transfer cmd) (w : World) (temp : Str)

/-- **The files of the host**: the temporary file is left where it is. -/
theorem files_completed : (completed sv t w temp).world.files = (withFile w temp t.received).files := by
  unfold completed
  rw [(exec_callbacks sv cmd (t.fired w temp) t.client.bytesReceived).1]
  exact (updateHoneyfs_quiet sv cmd _ _).1

/-- No event has a digest. -/
theorem shasum_completed {url outfile shasum destfile : Str}
    (h : Entry.fileDownload url outfile shasum destfile ∈ (completed sv t w temp).dispatched) : shasum = [] := by
  have hdispatched := (exec_callbacks sv cmd (t.fired w temp) t.client.bytesReceived).2
  change (completed sv t w temp).dispatched = [_] ∨ (completed sv t w temp).dispatched = [_, _] at hdispatched
  rcases hdispatched with hone | htwo
  · rw [hone, List.mem_singleton] at h
    exact (Entry.fileDownload.inj h).2.2.1
  · rw [htwo, List.mem_cons, List.mem_singleton] at h
    rcases h with h | h
    · exact (Entry.fileDownload.inj h).2.2.1
    · cases h

end Completed

/-- A file without contents, as `mkfile` makes it here. -/
structure Bare (n : Node) : Prop where
  type : n.type = .file
  contents : n.contents = .list []
  mode : n.mode = 33188
  realfile : n.realfile = none

theorem Bare.contentsOf {n : Node} (h : Bare n) (cfg : Setup) (files : Str → Option Bytes) :
    contentsOf cfg files n = .ok [] := by
  have hnone : backing n = none := by
    unfold backing
    rw [h.realfile]
  exact contentsOf_unbacked h.type hnone h.contents (by rw [h.mode]; decide)

theorem exec_chown {f : HoneyPotFilesystem} (hx : f.getfile path = .ok (some x)) (uid gid : Int) :
    ∃ g, exec (chown path uid gid) f = (.ok (), g) ∧ Edited f g x (f.node x).size (f.node x).realfile :=
  exec_editNode hx fun _ => ⟨_, _, _, rfl⟩

variable (sv size) in
/-- **The virtual file system after `updateHoneyfs`**, where the node is made. -/
theorem exec_updateHoneyfs (hf : Named s.world.fs) (hlimit : 0 < s.world.fs.limit)
    (hmade : Creates s.world.fs cmd.fakeoutfile d) (hfree : s.world.files s.artifact.shasumFilename = none) :
    let v := (exec (updateHoneyfs sv cmd size) s).2.world.fs
    ∃ g n, Replaced s.world.fs g d n ∧ n.name = basename cmd.fakeoutfile ∧ Bare n ∧
      ((v = g ∧ ∀ x, g.getfile cmd.fakeoutfile ≠ .ok (some x)) ∨
        ∃ x, g.getfile cmd.fakeoutfile = .ok (some x) ∧ Edited g v x (g.node x).size (g.node x).realfile) := by
  intro v
  let user := sv.setup.user
  obtain ⟨g, n, hmkfile, hreplaced, rfl⟩ := exec_mkfile_node user.uid user.gid size 33188 hf hlimit hmade
  refine ⟨g, _, hreplaced, rfl, ⟨rfl, rfl, rfl, rfl⟩, ?_⟩
  let u : Session := { s with world := { s.world with fs := g } }
  have hfirst : exec (inWorld (inFs (mkfile cmd.fakeoutfile user.uid user.gid size 33188))) s = (.ok true, u) := by
    rw [exec_inWorld, exec_inFs, hmkfile]
    rfl
  have hquery : exec (inWorld (query fun w : World => w.fs.getfile cmd.fakeoutfile)) u =
      ((g.getfile cmd.fakeoutfile).mapError .raised, u) := by
    rw [exec_inWorld, exec_query]
  have hv : v = (exec (updateHoneyfs sv cmd size) s).2.world.fs := rfl
  unfold updateHoneyfs at hv
  rw [exec_bind_ok hfirst, exec_get_bind] at hv
  cases hget : g.getfile cmd.fakeoutfile with
  | error e =>
    rw [hget] at hquery
    rw [exec_bind_error hquery] at hv
    exact .inl ⟨hv, fun _ => nofun⟩
  | ok file =>
    rw [hget] at hquery
    rw [exec_bind_ok hquery] at hv
    cases file with
    | none =>
      rw [exec_bind_error (exec_throw _ _)] at hv
      exact .inl ⟨hv, fun _ => nofun⟩
    | some x =>
      obtain ⟨h, hchown, hedited⟩ := exec_chown hget user.uid user.gid
      have hnothing : exec (inWorld (SftpUpload.updateRealfile sv x u.artifact.shasumFilename)) u = (.ok (), u) := by
        rw [exec_inWorld, exec_updateRealfile_free sv (by exact hfree)]
        rfl
      have howner : exec (inWorld (inFs (chown cmd.fakeoutfile user.uid user.gid))) u =
          (.ok (), { u with world := { u.world with fs := h } }) := by
        rw [exec_inWorld, exec_inFs, hchown]
        rfl
      rw [exec_bind_ok hnothing, howner] at hv
      exact .inr ⟨x, rfl, hv ▸ hedited⟩

/-- The target, if there is one after that, is bare. -/
theorem bare_updateHoneyfs (hf : Named s.world.fs) (hlimit : 0 < s.world.fs.limit)
    (hpath : Splits cmd.fakeoutfile (dirname cmd.fakeoutfile) (basename cmd.fakeoutfile))
    (hmade : Creates s.world.fs cmd.fakeoutfile d) (hfree : s.world.files s.artifact.shasumFilename = none)
    (hx : (exec (updateHoneyfs sv cmd size) s).2.world.fs.getfile cmd.fakeoutfile = .ok (some x)) :
    Bare ((exec (updateHoneyfs sv cmd size) s).2.world.fs.node x) := by
  obtain ⟨g, n, hreplaced, hname, hbare, ⟨hv, hnone⟩ | ⟨y, hy, hedited⟩⟩ :=
    exec_updateHoneyfs sv size hf hlimit hmade hfree
  · exact absurd (hv ▸ hx) (hnone x)
  · obtain rfl : y = x := Option.some.inj (Except.ok.inj ((hedited.getfile hy).symm.trans hx))
    have hnode : g.node y = n := by
      rw [hreplaced.found hf (hname ▸ hpath) hmade.2.2.1 hy, hreplaced.at_new]
    rw [hnode] at hedited
    exact ⟨hedited.type.trans (hnode ▸ hbare.type), hedited.contents.trans (hnode ▸ hbare.contents),
      hedited.mode.trans (hnode ▸ hbare.mode), hedited.realfile.trans hbare.realfile⟩

section Contents

variable (sv) (t : Transfer cmd)

/-- **What `file_contents` returns**, where the node is made: nothing of what was received. -/
theorem contents_completed (hf : Named w.fs) (hlimit : 0 < w.fs.limit) (hpath : Normal cmd.fakeoutfile)
    (hroot : cmd.fakeoutfile ≠ ['/']) (hmade : Creates w.fs cmd.fakeoutfile d) (hfree : w.files [] = none)
    (htemp : temp ≠ []) : fileContents sv.setup (completed sv t w temp).world cmd.fakeoutfile ≠ .ok t.received := by
  intro hcontents
  have hfree' : (announced cmd (t.fired w temp)).world.files [] = none :=
    (Function.update_of_ne htemp.symm _ _).trans hfree
  unfold completed fileContents at hcontents
  rw [resolvePath_of_normal hpath, (exec_callbacks sv cmd (t.fired w temp) t.client.bytesReceived).1] at hcontents
  simp only at hcontents
  split at hcontents
  · cases hcontents
  · cases hcontents
  · next x hx =>
    rw [(bare_updateHoneyfs hf hlimit (hpath.splits hroot) hmade hfree' hx).contentsOf] at hcontents
    exact t.nonempty (Except.ok.inj hcontents).symm

end Contents

section Arrival

variable (hdigest : ∀ data, (sv.sha256 data).length = 64)

include hdigest

/-- **No transfer arrives**: the digest that is logged is not that of the file. -/
theorem never_arrives (t : Transfer cmd) (w : World) (temp : Str) :
    ¬ Arrived sv cmd (completed sv t w temp) t.received := by
  rintro ⟨-, ⟨url, outfile, destfile, hlogged⟩, -⟩
  have hlength := hdigest t.received
  rw [shasum_completed sv t w temp hlogged] at hlength
  exact absurd hlength (by decide)

end Arrival

/-! ### One byte from a server -/

/-- The artifact is to be in `/tmp/f`. -/
def demoCommand : Command where
  hostname := "192.0.2.1".toList
  port := 69
  fileToGet := ['f']
  fakeoutfile := ['/', 't', 'm', 'p', '/', 'f']
  getErrorMessage _ := []

/-- One block with the byte 1. -/
def demoTransfer : Transfer demoCommand where
  events := [.datagram [0, 3, 0, 1, 1] ("192.0.2.1", 4000)]
  client := (exec (TFTPClient.datagramReceived demoCommand.config [0, 3, 0, 1, 1] ("192.0.2.1", 4000))
    (start demoCommand.config)).2
  run := rfl
  success := by decide +kernel
  nonempty := by decide +kernel

theorem demoServer_digest :
    "4bf5122f344554c53bde2ebb8cd2b7e3d1600ad631c385a5d7cce23c7785459a".toList.length = 64 := by
  decide

/-- The transfer of one byte does not arrive. -/
theorem never_arrives_demo :
    ¬ Arrived demoServer demoCommand (completed demoServer demoTransfer demoWorld "dl/tmp0".toList)
      demoTransfer.received :=
  never_arrives (fun _ => demoServer_digest) demoTransfer demoWorld "dl/tmp0".toList

/-- **One byte**: the download directory has no file of its digest. -/
theorem one_byte_lost :
    ¬ ∀ (sv : Server) (cmd : Command) (t : Transfer cmd) (w : World) (temp : Str),
      Arrived sv cmd (completed sv t w temp) t.received := by
  intro h
  have hartifact := (h demoServer demoCommand demoTransfer demoWorld "dl/tmp0".toList).artifact
  rw [files_completed] at hartifact
  exact absurd hartifact (by decide +kernel)

end Cowrie.Tftp.Download
