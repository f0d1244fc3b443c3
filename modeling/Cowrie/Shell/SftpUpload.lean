import Cowrie.Lib.FileContents
import Cowrie.Lib.Run
import Cowrie.Shell.RedirectWrites
import Mathlib.Data.Bool.AllAny

/-!
# Uploads by SFTP (`src/cowrie/shell/filetransfer.py:43-90`, `fs.py:267-275`, `446-516`, `600-639`)

An upload is `open` with `FXF_WRITE`, `FXF_CREAT` and `FXF_TRUNC`, any number of `writeChunk`s, and `close`.
Its bytes go to a temporary file of the host, `hostfile`, whose name is the second of the `open` and the
path. `close` moves it to the name of its SHA-256, `shasumfile`, or drops it if that is there. The node of
the virtual file system keeps the first real file that it was given.

* `upload` is the whole of it, in the `World` of the redirections; uploads follow one another.
* `_absPath` leaves a path without `.`, `..` and empty pieces, and with two slashes in front if there were two.
* The descriptor of an upload is open on the file at its `tempfiles` until `close`.

* **`exec_upload`**: what an upload that goes through leaves of the node and the files.
* **`stored_iff`**: in a sequence of uploads each one is stored right iff each one is `Backed` before it
  begins; where a new node is made, none is.
* `stored_violated`: one byte to `/tmp/f`, and `file_contents` raises.

Left out: `FXF_READ` and the copy that is read from, `O_APPEND`, log messages.
-/

namespace Cowrie.Shell.SftpUpload

open Cowrie.Lib Fs Heap HoneyPotFilesystem Redirect

structure Server where
  setup : Setup
  /-- `hashlib.sha256(data).hexdigest()`. -/
  sha256 : Bytes → Str
  hexdigest : ∀ data, ∀ c ∈ sha256 data, c ∈ "0123456789abcdef".toList
  /-- 0 is standard input. -/
  fd_pos : ∀ path flags mode fd, setup.host.osOpen path flags mode = .ok fd → 0 < fd
  /-- `download_limit_size`. -/
  bytesReceivedLimit : Nat

/-- What an `open` request says of the file; `uid` and `gid` come together, and so do the times. -/
structure Attrs where
  permissions : Option Nat := none
  owner : Option (Int × Int) := none
  times : Option (ℚ × ℚ) := none

variable (sv : Server)

/-! ## `HoneyPotFilesystem` -/

/-- `d[k]`; the `KeyError` that it raises otherwise is an `.indexError` here. -/
def item {α : Type} (d : HoneyPotFilesystem → Nat → Option α) (k : Nat) : RedirectM α :=
  query fun w =>
    match d w.fs k with
    | some a => .ok a
    | none => .error .indexError

def hostfile (stamp filename : Str) : Str :=
  sv.setup.host.downloadPath ++ '/' :: stamp ++ "_sftp_".toList ++ sanitize filename

def shasumfile (data : Bytes) : Str := sv.setup.host.downloadPath ++ '/' :: sv.sha256 data

/-- The file now has these bytes. -/
def withFile (w : World) (path : Str) (data : Bytes) : World :=
  { w with files := Function.update w.files path (some data) }

/-- `os.open(path, flags, mode)`; `O_TRUNC` is 512. -/
def openHostfile (path : Str) (flags mode : Nat) : RedirectM Nat := do
  let fd ← query fun _ => (sv.setup.host.osOpen path flags mode).mapError fun e => .osError e path
  modify fun w => withFile w path (if flags &&& 512 = 512 then [] else (w.files path).getD [])
  pure fd

/-- `with open(path, "rb") as f: f.read()`. -/
def readHostfile (path : Str) : RedirectM Bytes :=
  query fun w =>
    match w.files path with
    | some data => .ok data
    | none => .error (.osError .ENOENT path)

/-- `update_realfile`, on the files of the host. -/
def updateRealfile (x : Ref) (realfile : Str) : RedirectM Unit := do
  let w ← get
  inFs (Fs.updateRealfile { sv.setup.host with isRegular := fun p => (w.files p).isSome } x realfile)

/-- `open`; `O_WRONLY` is 1, `O_RDWR` is 2, `S_IFREG` is 32768. -/
def openFile (filename : Str) (openFlags mode : Nat) : RedirectM (Option Nat) := do
  if openFlags &&& 1 = 1 ∨ openFlags &&& 2 = 2 then
    let hostmode := mode - (mode &&& 111)
    let stamp ← strftime
    let hostfile := hostfile sv stamp filename
    let _ ← inFs (mkfile filename 0 0 0 (32768 ||| mode))
    let fd ← openHostfile sv hostfile openFlags hostmode
    match ← query fun w => w.fs.getfile filename with
    | none => throw .typeError
    | some x =>
      updateRealfile sv x hostfile
      inFs (modify fun f => { f with
        tempfiles := Function.update f.tempfiles fd (some hostfile)
        filenames := Function.update f.filenames fd (some filename) })
      pure (some fd)
  else pure none

/-- `lseek` and `write`. -/
def writeAt (fd : Option Nat) (offset : Nat) (data : Bytes) : RedirectM Unit := do
  match fd with
  | none => throw .typeError
  | some fd =>
    let path ← item tempfiles fd
    modify fun w => withFile w path (overwrite 0 ((w.files path).getD []) offset data)

/-- The files, when the temporary file has been moved to `shasumfile`, or removed if that exists. -/
def moved (files : Str → Option Bytes) (temp shasumfile : Str) (data : Bytes) : Str → Option Bytes :=
  let rest := Function.update files temp none
  if (files shasumfile).isSome then rest else Function.update rest shasumfile (some data)

/-- `close`. -/
def closeFile (fd : Option Nat) : RedirectM Unit := do
  match fd with
  | none | some 0 => pure ()
  | some fd =>
    let temp ← item tempfiles fd
    let data ← readHostfile temp
    let shasumfile := shasumfile sv data
    modify fun w => { w with files := moved w.files temp shasumfile data }
    let filename ← item filenames fd
    match ← query fun w => w.fs.getfile filename with
    | none => throw .typeError
    | some x =>
      updateRealfile sv x shasumfile
      inFs (modify fun f => { f with
        tempfiles := Function.update f.tempfiles fd none
        filenames := Function.update f.filenames fd none })

/-- `p = self.getfile(path)`, and an `ENOENT` if there is none. -/
def editNode (path : Str) (edit : Node → Node) : FsM Unit := do
  match ← query fun f => f.getfile path with
  | none => throw (.osError .ENOENT none)
  | some p => modify fun f => f.setNode p (edit (f.node p))

def utime (path : Str) (_atime mtime : ℚ) : FsM Unit := editNode path fun p => { p with ctime := mtime }

def chmod (path : Str) (perm : Nat) : FsM Unit :=
  -- `S_IFMT`
  editNode path fun p => { p with mode := (p.mode &&& 61440) ||| perm }

def chown (path : Str) (uid gid : Int) : FsM Unit :=
  editNode path fun p =>
    { p with uid := if uid ≠ -1 then uid else p.uid, gid := if gid ≠ -1 then gid else p.gid }

/-! ## `CowrieSFTPFile` -/

/-- `if … in attrs: act(attrs[…])`. -/
def ifGiven {α : Type} (a : Option α) (act : α → FsM Unit) : FsM Unit :=
  match a with
  | some a => act a
  | none => pure ()

/-- `_setAttrs`. -/
def setAttrs (path : Str) (attrs : Attrs) : FsM Unit := do
  ifGiven attrs.owner fun owner => chown path owner.1 owner.2
  ifGiven attrs.permissions fun perm => chmod path perm
  ifGiven attrs.times fun times => utime path times.1 times.2

structure SftpFile where
  filename : Str
  fd : Option Nat
  bytesReceived : Nat := 0

/-- The flags of `os.open`, from `FXF_READ` 1, `FXF_WRITE` 2, `FXF_APPEND` 4, `FXF_CREAT` 8,
`FXF_TRUNC` 16 and `FXF_EXCL` 32. -/
def openFlags (flags : Nat) : Nat :=
  let flag (fxf o : Nat) := if flags &&& fxf = fxf then o else 0
  (if flags &&& 2 = 2 then if flags &&& 1 = 0 then 1 else 2 else 0) ||| flag 4 1024 ||| flag 8 64 |||
    flag 16 512 ||| flag 32 128

/-- `__init__`; 511 is `0o777`. -/
def SftpFile.init (filename : Str) (flags : Nat) (attrs : Attrs) : RedirectM SftpFile := do
  let fd ← openFile sv filename (openFlags flags) (attrs.permissions.getD 511)
  inFs (setAttrs filename { attrs with permissions := none })
  pure { filename, fd }

/-- `self.bytesReceived += n`. -/
def SftpFile.count (file : SftpFile) (n : Nat) : SftpFile :=
  { file with bytesReceived := file.bytesReceived + n }

/-- `writeChunk`; a chunk beyond the limit is answered with "Quota exceeded". -/
def writeChunk (file : SftpFile) (offset : Nat) (data : Bytes) : RedirectM SftpFile := do
  let file := file.count data.length
  if sv.bytesReceivedLimit ≠ 0 ∧ sv.bytesReceivedLimit < file.bytesReceived then pure file
  else
    writeAt file.fd offset data
    pure file

/-- `close`. -/
def SftpFile.close (file : SftpFile) : RedirectM Unit := do
  when (0 < file.bytesReceived) do
    inFs (updateSize file.filename file.bytesReceived)
  closeFile sv file.fd

/-! ## Uploads -/

/-- What a client sends. -/
structure Upload where
  filename : Str
  attrs : Attrs
  chunks : List (Nat × Bytes)
  /-- As `_absPath` leaves it. -/
  absPath : ∃ p, Normal p ∧ (filename = p ∨ p ≠ ['/'] ∧ filename = '/' :: p)

def writeChunks (file : SftpFile) : List (Nat × Bytes) → RedirectM SftpFile
  | [] => pure file
  | c :: cs => do
    let file ← writeChunk sv file c.1 c.2
    writeChunks file cs

/-- `FXF_WRITE | FXF_CREAT | FXF_TRUNC`, the chunks, and `close`. -/
def upload (u : Upload) : RedirectM Unit := do
  let file ← SftpFile.init sv u.filename 26 u.attrs
  let file ← writeChunks sv file u.chunks
  file.close sv

example : openFlags 26 = 577 := by decide

/-- The chunks within the limit, after `received` bytes. -/
def taken (limit received : Nat) : List (Nat × Bytes) → List (Nat × Bytes)
  | [] => []
  | c :: cs =>
    let rest := taken limit (received + c.2.length) cs
    if limit ≠ 0 ∧ limit < received + c.2.length then rest else c :: rest

/-- The bytes of the upload. -/
def assembled (u : Upload) : Bytes := writeAll 0 [] (taken sv.bytesReceivedLimit 0 u.chunks)

/-- The number of bytes in a sequence of chunks. -/
def amount (chunks : List (Nat × Bytes)) : Nat := (chunks.map fun c => c.2.length).sum

/-- `w` has the upload: the contents, the size and the artifact. -/
structure Stored (w : World) (u : Upload) : Prop where
  contents : fileContents sv.setup w u.filename = .ok (assembled sv u)
  size : ∃ x, w.fs.getfile u.filename = .ok (some x) ∧ (w.fs.node x).size = (assembled sv u).length
  artifact : w.files (shasumfile sv (assembled sv u)) = some (assembled sv u)

/-! ## What the functions do -/

variable {sv} {w : World} {f g h : HoneyPotFilesystem} {x : Ref} {path : Str} {size size' : Nat}
  {realfile realfile' : Option Str} {u : Upload}

/-- Sizes, real files, owners and times have been edited; `x` has this size and this real file. -/
structure Edited (f g : HoneyPotFilesystem) (x : Ref) (size : Nat) (realfile : Option Str) : Prop where
  shape : SameShape f.toHeap g.toHeap
  tempfiles : g.tempfiles = f.tempfiles
  filenames : g.filenames = f.filenames
  type : (g.node x).type = (f.node x).type
  contents : (g.node x).contents = (f.node x).contents
  mode : (g.node x).mode = (f.node x).mode
  size : (g.node x).size = size
  realfile : (g.node x).realfile = realfile

namespace Edited

theorem refl (f : HoneyPotFilesystem) (x : Ref) :
    Edited f f x (f.node x).size (f.node x).realfile :=
  ⟨SameShape.refl _, rfl, rfl, rfl, rfl, rfl, rfl, rfl⟩

theorem trans (hg : Edited f g x size realfile) (hh : Edited g h x size' realfile') :
    Edited f h x size' realfile' where
  shape := hg.shape.trans hh.shape
  tempfiles := hh.tempfiles.trans hg.tempfiles
  filenames := hh.filenames.trans hg.filenames
  type := hh.type.trans hg.type
  contents := hh.contents.trans hg.contents
  mode := hh.mode.trans hg.mode
  size := hh.size
  realfile := hh.realfile

theorem getfile (hg : Edited f g x size realfile) (hx : f.getfile path = .ok (some x)) :
    g.getfile path = .ok (some x) := by rw [hg.shape.getfile, hx]

/-- An edit of the node itself. -/
theorem setNode (f : HoneyPotFilesystem) (x : Ref) {n : Node} (hname : n.name = (f.node x).name)
    (htype : n.type = (f.node x).type) (hcontents : n.contents = (f.node x).contents)
    (htarget : n.target = (f.node x).target) (hmode : n.mode = (f.node x).mode) :
    Edited f (f.setNode x n) x n.size n.realfile := by
  have hx : (f.setNode x n).node x = n := by rw [node_setNode, if_pos rfl]
  have hkept : ∀ {α : Type} (field : Node → α), field n = field (f.node x) → ∀ y,
      field ((f.setNode x n).node y) = field (f.node y) := by
    intro α field hfield y
    rw [node_setNode]
    split_ifs with hy
    · rw [hy, hfield]
    · rfl
  exact
    { shape := ⟨rfl, rfl, fun y _ => hkept Node.name hname y, fun y _ => hkept Node.type htype y,
        fun y _ => hkept Node.contents hcontents y, fun y _ => hkept Node.target htarget y⟩
      tempfiles := rfl
      filenames := rfl
      type := hkept Node.type htype x
      contents := hkept Node.contents hcontents x
      mode := hkept Node.mode hmode x
      size := by rw [hx]
      realfile := by rw [hx] }

end Edited

theorem exec_getfile (hx : w.fs.getfile path = .ok (some x)) :
    exec (query fun w : World => w.fs.getfile path) w = (.ok (some x), w) := by rw [exec_query, hx]

theorem exec_item {α : Type} {d : HoneyPotFilesystem → Nat → Option α} {k : Nat} {a : α}
    (h : d w.fs k = some a) : exec (item d k) w = (.ok a, w) := by
  unfold item
  rw [exec_query, h]

/-- The real file after `update_realfile` with a file that is there. -/
def firstBacking (old : Option Str) (size : Nat) (real : Str) : Option Str :=
  if old.getD [] = [] ∧ size < 25000000 then some real else old

theorem firstBacking_of_ne {old : Option Str} (h : old.getD [] ≠ []) (size : Nat) (real : Str) :
    firstBacking old size real = old := if_neg fun hboth => h hboth.1

theorem firstBacking_of_nil {old : Option Str} (h : old.getD [] = []) (size : Nat) (real : Str) :
    firstBacking old size real = if size < 25000000 then some real else old := by
  unfold firstBacking
  simp only [h, true_and]

theorem exec_updateRealfile (sv : Server) (x : Ref) {real : Str} (hreal : (w.files real).isSome) :
    ∃ g, exec (updateRealfile sv x real) w = (.ok (), { w with fs := g }) ∧
      Edited w.fs g x (w.fs.node x).size
        (firstBacking (w.fs.node x).realfile (w.fs.node x).size real) := by
  unfold updateRealfile Fs.updateRealfile firstBacking
  rw [exec_get_bind, exec_inFs, exec_get_bind]
  by_cases hcond : (w.fs.node x).realfile.getD [] = [] ∧ (w.fs.node x).size < 25000000
  · rw [when_true ⟨hcond.1, hreal, hcond.2⟩, if_pos hcond]
    exact ⟨_, rfl, Edited.setNode w.fs x rfl rfl rfl rfl rfl⟩
  · rw [when_false fun hboth => hcond ⟨hboth.1, hboth.2.2⟩, if_neg hcond]
    exact ⟨_, rfl, Edited.refl w.fs x⟩

/-- A file that is not there does not become the real file. -/
theorem exec_updateRealfile_free (sv : Server) {real : Str} (h : w.files real = none) (x : Ref) :
    exec (updateRealfile sv x real) w = (.ok (), w) := by
  unfold updateRealfile Fs.updateRealfile
  rw [exec_get_bind, exec_inFs, exec_get_bind, when_false]
  · rfl
  · simp [h]

/-- A file that is neither backed nor executable, and has no contents. -/
theorem contentsOf_unbacked {cfg : Setup} {files : Str → Option Bytes} {n : Node} {xs : List Ref}
    (htype : n.type = .file) (hnone : backing n = none) (hcontents : n.contents = .list xs)
    (hmode : n.mode &&& 64 = 0) : contentsOf cfg files n = .ok [] := by
  unfold contentsOf
  simp [htype, hnone, hcontents, hmode]

/-! ### `open` -/

/-- An edit of other fields than size and real file. -/
theorem exec_editNode {edit : Node → Node} (hx : f.getfile path = .ok (some x))
    (hedit : ∀ n : Node, ∃ uid gid ctime, edit n = { n with uid := uid, gid := gid, ctime := ctime }) :
    ∃ g, exec (editNode path edit) f = (.ok (), g) ∧
      Edited f g x (f.node x).size (f.node x).realfile := by
  have hquery : exec (query fun f : HoneyPotFilesystem => f.getfile path) f = (.ok (some x), f) := by
    rw [exec_query, hx]
  obtain ⟨uid, gid, ctime, hn⟩ := hedit (f.node x)
  refine ⟨f.setNode x (edit (f.node x)), ?_, ?_⟩
  · unfold editNode
    rw [exec_bind_ok hquery]
    rfl
  · rw [hn]
    exact Edited.setNode f x rfl rfl rfl rfl rfl

theorem exec_ifGiven {α : Type} {a : Option α} {act : α → FsM Unit}
    (h : ∀ a, ∃ g, exec (act a) f = (.ok (), g) ∧ Edited f g x (f.node x).size (f.node x).realfile) :
    ∃ g, exec (ifGiven a act) f = (.ok (), g) ∧ Edited f g x (f.node x).size (f.node x).realfile := by
  cases a with
  | none => exact ⟨f, rfl, Edited.refl f x⟩
  | some a => exact h a

/-- `setAttrs`, when `__init__` has taken the permissions out. -/
theorem exec_setAttrs (hx : f.getfile path = .ok (some x)) (attrs : Attrs)
    (hperm : attrs.permissions = none) :
    ∃ g, exec (setAttrs path attrs) f = (.ok (), g) ∧
      Edited f g x (f.node x).size (f.node x).realfile := by
  have howner : ∀ owner : Int × Int, ∃ g, exec (chown path owner.1 owner.2) f = (.ok (), g) ∧
      Edited f g x (f.node x).size (f.node x).realfile := fun owner =>
    exec_editNode hx fun n => ⟨_, _, _, rfl⟩
  obtain ⟨g, hg, hfg⟩ := exec_ifGiven (a := attrs.owner) howner
  have htimes : ∀ times : ℚ × ℚ, ∃ h, exec (utime path times.1 times.2) g = (.ok (), h) ∧
      Edited g h x (g.node x).size (g.node x).realfile := fun times =>
    exec_editNode (hfg.getfile hx) fun n => ⟨_, _, _, rfl⟩
  obtain ⟨h, hh, hgh⟩ := exec_ifGiven (a := attrs.times) htimes
  rw [hfg.size, hfg.realfile] at hgh
  refine ⟨h, ?_, hfg.trans hgh⟩
  unfold setAttrs
  rw [hperm]
  exact (exec_bind_ok hg).trans hh

/-- The permissions that a new file gets. -/
def Upload.mode (u : Upload) : Nat := u.attrs.permissions.getD 511

/-- The temporary file. -/
def tempOf (sv : Server) (w : World) (u : Upload) : Str := hostfile sv (w.stamps 0) u.filename

/-- What `mkfile` does. -/
def made (w : World) (u : Upload) : Except FsError Bool × HoneyPotFilesystem :=
  exec (mkfile u.filename 0 0 0 (32768 ||| u.mode)) w.fs

/-- `open` gets a descriptor and finds the node `x`. -/
structure Starts (sv : Server) (w : World) (u : Upload) (x : Ref) : Prop where
  made : ∃ b, (made w u).1 = .ok b
  opens : ∃ fd, sv.setup.host.osOpen (tempOf sv w u) 577 (u.mode - (u.mode &&& 111)) = .ok fd
  found : (SftpUpload.made w u).2.getfile u.filename = .ok (some x)

/-- The descriptor is noted. -/
def opened (f : HoneyPotFilesystem) (fd : Nat) (temp filename : Str) : HoneyPotFilesystem :=
  { f with
    tempfiles := Function.update f.tempfiles fd (some temp)
    filenames := Function.update f.filenames fd (some filename) }

theorem Edited.opened (hg : Edited f g x size realfile) (fd : Nat) (temp filename : Str) :
    Edited (opened f fd temp filename) (opened g fd temp filename) x size realfile where
  shape := hg.shape
  tempfiles := by
    unfold SftpUpload.opened
    rw [hg.tempfiles]
  filenames := by
    unfold SftpUpload.opened
    rw [hg.filenames]
  type := hg.type
  contents := hg.contents
  mode := hg.mode
  size := hg.size
  realfile := hg.realfile

theorem exec_openHostfile {real : Str} {mode fd : Nat}
    (hfd : sv.setup.host.osOpen real 577 mode = .ok fd) (w : World) :
    exec (openHostfile sv real 577 mode) w =
      (.ok fd, withFile w real []) := by
  unfold openHostfile
  rw [exec_bind, exec_query, hfd]
  rfl

/-- **`__init__`**, where it returns. -/
theorem exec_init (hu : Starts sv w u x) :
    ∃ fd v, 0 < fd ∧
      exec (SftpFile.init sv u.filename 26 u.attrs) w =
        (.ok { filename := u.filename, fd := some fd }, v) ∧
      Edited (opened (made w u).2 fd (tempOf sv w u) u.filename) v.fs x ((made w u).2.node x).size
        (firstBacking ((made w u).2.node x).realfile ((made w u).2.node x).size (tempOf sv w u)) ∧
      v.files = Function.update w.files (tempOf sv w u) (some []) := by
  obtain ⟨⟨b, hb⟩, ⟨fd, hfd⟩, hx⟩ := hu
  set g := (made w u).2 with hg
  have hmade : exec (mkfile u.filename 0 0 0 (32768 ||| u.mode)) w.fs = (.ok b, g) := Prod.ext hb rfl
  set temp := tempOf sv w u with htemp
  -- the files, when the temporary file is there
  set v : World := withFile { w with fs := g, stamps := fun i => w.stamps (i + 1) } temp [] with hv
  obtain ⟨g', hback, hedit⟩ := exec_updateRealfile sv x (w := v)
    (show (v.files temp).isSome from by simp [hv, withFile])
  have hopen : exec (openFile sv u.filename 577 u.mode) w =
      (.ok (some fd), { v with fs := opened g' fd temp u.filename }) := by
    unfold openFile strftime
    rw [if_pos (.inl rfl)]
    simp only [bind_assoc, exec_get_bind, exec_modify_bind, pure_bind]
    rw [exec_bind, exec_inFs, hmade]
    simp only [show hostfile sv (w.stamps 0) u.filename = temp from rfl]
    rw [exec_bind_ok (exec_openHostfile hfd _), exec_bind_ok (exec_getfile (w := v) hx)]
    simp only
    rw [exec_bind_ok hback, exec_bind, exec_inFs]
    rfl
  have hx' : (opened g' fd temp u.filename).getfile u.filename = .ok (some x) :=
    (hedit.opened fd temp u.filename).getfile hx
  obtain ⟨g'', hattrs, hedit'⟩ := exec_setAttrs hx' { u.attrs with permissions := none } rfl
  refine ⟨fd, { v with fs := g'' }, sv.fd_pos _ _ _ _ hfd, ?_, ?_, rfl⟩
  · unfold SftpFile.init
    rw [show openFlags 26 = 577 from rfl, show u.attrs.permissions.getD 511 = u.mode from rfl,
      exec_bind_ok hopen, exec_bind, exec_inFs, hattrs]
    rfl
  · have hopened := hedit.opened fd temp u.filename
    rw [hopened.size, hopened.realfile] at hedit'
    exact hopened.trans hedit'

/-! ### `writeChunk` and `close` -/

theorem exec_writeAt {fd : Nat} {temp : Str} (htemp : w.fs.tempfiles fd = some temp) (offset : Nat)
    (data : Bytes) :
    exec (writeAt (some fd) offset data) w =
      (.ok (), withFile w temp (overwrite 0 ((w.files temp).getD []) offset data)) := by
  unfold writeAt
  simp only
  rw [exec_bind_ok (exec_item htemp)]
  rfl

theorem taken_cons (limit received : Nat) (c : Nat × Bytes) (cs : List (Nat × Bytes)) :
    taken limit received (c :: cs) =
      if limit ≠ 0 ∧ limit < received + c.2.length then taken limit (received + c.2.length) cs
      else c :: taken limit (received + c.2.length) cs := rfl

/-- **The chunks** within the limit are written, and all are counted. -/
theorem exec_writeChunks (sv : Server) {fd : Nat} {temp : Str} {data : Bytes} (file : SftpFile)
    (chunks : List (Nat × Bytes)) (hfd : file.fd = some fd) (htemp : w.fs.tempfiles fd = some temp)
    (hdata : w.files temp = some data) :
    exec (writeChunks sv file chunks) w =
      (.ok (file.count (amount chunks)),
        withFile w temp
          (writeAll 0 data (taken sv.bytesReceivedLimit file.bytesReceived chunks))) := by
  induction chunks generalizing file w data with
  | nil =>
    have hsame : withFile w temp data = w := by
      unfold withFile
      rw [← hdata, Function.update_eq_self]
    change (Except.ok file, w) = (.ok file, withFile w temp data)
    rw [hsame]
  | cons c cs ih =>
    have hsum : (file.count c.2.length).count (amount cs) = file.count (amount (c :: cs)) := by
      simp [SftpFile.count, amount, Nat.add_assoc]
    unfold writeChunks
    rw [taken_cons]
    by_cases hlimit : sv.bytesReceivedLimit ≠ 0 ∧
        sv.bytesReceivedLimit < file.bytesReceived + c.2.length
    · have hone : exec (writeChunk sv file c.1 c.2) w = (.ok (file.count c.2.length), w) := by
        unfold writeChunk
        simp only
        rw [if_pos (show _ ∧ _ < (file.count c.2.length).bytesReceived from hlimit)]
        rfl
      rw [exec_bind_ok hone, ih (file.count c.2.length) hfd htemp hdata, hsum, if_pos hlimit]
      rfl
    · have hone : exec (writeChunk sv file c.1 c.2) w =
          (.ok (file.count c.2.length), withFile w temp (overwrite 0 data c.1 c.2)) := by
        unfold writeChunk
        simp only
        rw [if_neg (show ¬ (_ ∧ _ < (file.count c.2.length).bytesReceived) from hlimit),
          show (file.count c.2.length).fd = some fd from hfd,
          exec_bind_ok (exec_writeAt htemp c.1 c.2), hdata]
        rfl
      have hthere : (withFile w temp (overwrite 0 data c.1 c.2)).files temp =
          some (overwrite 0 data c.1 c.2) := by simp [withFile]
      have htemp' : (withFile w temp (overwrite 0 data c.1 c.2)).fs.tempfiles fd = some temp := htemp
      rw [exec_bind_ok hone, ih (file.count c.2.length) hfd htemp' hthere, hsum, if_neg hlimit]
      unfold withFile
      rw [Function.update_idem]
      rfl

/-- The size that `close` leaves in a node. -/
def sizeAfter (n : Node) (received : Nat) : Nat :=
  if 0 < received ∧ n.type = .file then received else n.size

theorem edited_resized (f : HoneyPotFilesystem) (x : Ref) (size : Nat) :
    Edited f (resized f x size) x
      (if (f.node x).type = .file then size else (f.node x).size) (f.node x).realfile := by
  unfold resized
  split_ifs with htype
  · exact Edited.setNode f x rfl rfl rfl rfl rfl
  · exact Edited.refl f x

/-- `update_size`, unless nothing has been received. -/
theorem exec_close_size (hx : w.fs.getfile path = .ok (some x)) (received : Nat) :
    ∃ g, exec (when (0 < received) (inFs (updateSize path received))) w = (.ok (), { w with fs := g }) ∧
      Edited w.fs g x (sizeAfter (w.fs.node x) received) (w.fs.node x).realfile := by
  by_cases hpos : 0 < received
  · rw [when_true hpos, exec_inFs, exec_updateSize hx]
    have hsize := edited_resized w.fs x received
    unfold sizeAfter
    simp only [hpos, true_and]
    exact ⟨_, rfl, hsize⟩
  · have hsize : sizeAfter (w.fs.node x) received = (w.fs.node x).size := if_neg fun h => hpos h.1
    rw [when_false hpos, hsize]
    exact ⟨w.fs, rfl, Edited.refl w.fs x⟩

/-- The descriptor is forgotten. -/
def closed (f : HoneyPotFilesystem) (fd : Nat) : HoneyPotFilesystem :=
  { f with
    tempfiles := Function.update f.tempfiles fd none
    filenames := Function.update f.filenames fd none }

theorem moved_shasumfile (files : Str → Option Bytes) {temp real : Str} (data : Bytes) (hne : real ≠ temp) :
    moved files temp real data real = some ((files real).getD data) := by
  unfold moved
  cases hreal : files real with
  | none => simp
  | some old => simp [hne, hreal]

/-- **`close`**. -/
theorem exec_close {fd : Nat} {temp : Str} {data : Bytes} (file : SftpFile) (hpos : 0 < fd)
    (hfd : file.fd = some fd) (htemp : w.fs.tempfiles fd = some temp)
    (hname : w.fs.filenames fd = some file.filename) (hdata : w.files temp = some data)
    (hx : w.fs.getfile file.filename = .ok (some x)) (hne : shasumfile sv data ≠ temp) :
    ∃ g, exec (file.close sv) w =
        (.ok (), { w with
          fs := closed g fd
          files := moved w.files temp (shasumfile sv data) data }) ∧
      Edited w.fs g x (sizeAfter (w.fs.node x) file.bytesReceived)
        (firstBacking (w.fs.node x).realfile (sizeAfter (w.fs.node x) file.bytesReceived)
          (shasumfile sv data)) := by
  obtain ⟨g, hsize, hedit⟩ := exec_close_size hx file.bytesReceived
  set v : World := { w with fs := g, files := moved w.files temp (shasumfile sv data) data } with hv
  obtain ⟨g', hback, hedit'⟩ := exec_updateRealfile sv x (w := v)
    (show (v.files (shasumfile sv data)).isSome from by simp [hv, moved_shasumfile w.files data hne])
  have hread : exec (readHostfile temp) { w with fs := g } = (.ok data, { w with fs := g }) := by
    unfold readHostfile
    rw [exec_query]
    simp only [hdata]
  obtain ⟨fd, rfl⟩ := Nat.exists_eq_succ_of_ne_zero hpos.ne'
  refine ⟨g', ?_, hedit.trans ?_⟩
  · unfold SftpFile.close closeFile
    rw [exec_bind_ok hsize, hfd]
    simp only
    rw [exec_bind_ok (exec_item (hedit.tempfiles ▸ htemp)), exec_bind_ok hread]
    rw [exec_modify_bind]
    rw [exec_bind_ok (exec_item (w := v) (hedit.filenames ▸ hname))]
    rw [exec_bind_ok (exec_getfile (w := v) (hedit.getfile hx))]
    simp only
    rw [exec_bind_ok hback, exec_inFs]
    rfl
  · rw [← hedit.size, ← hedit.realfile]
    exact hedit'

/-! ### A whole upload -/

theorem shasumfile_ne_hostfile (sv : Server) (data : Bytes) (stamp filename : Str) :
    shasumfile sv data ≠ hostfile sv stamp filename := by
  intro heq
  have hname : sv.sha256 data = stamp ++ "_sftp_".toList ++ sanitize filename := by
    simpa [shasumfile, hostfile] using heq
  have hmem : '_' ∈ sv.sha256 data := by simp [hname]
  exact absurd (sv.hexdigest data '_' hmem) (by decide)

/-- What an upload leaves of the node `x` and of the files. -/
structure Uploaded (sv : Server) (w : World) (u : Upload) (x : Ref) (v : World) : Prop where
  shape : SameShape (made w u).2.toHeap v.fs.toHeap
  type : (v.fs.node x).type = ((made w u).2.node x).type
  contents : (v.fs.node x).contents = ((made w u).2.node x).contents
  mode : (v.fs.node x).mode = ((made w u).2.node x).mode
  size : (v.fs.node x).size = sizeAfter ((made w u).2.node x) (amount u.chunks)
  realfile : (v.fs.node x).realfile =
    firstBacking (firstBacking ((made w u).2.node x).realfile ((made w u).2.node x).size (tempOf sv w u))
      (sizeAfter ((made w u).2.node x) (amount u.chunks)) (shasumfile sv (assembled sv u))
  files : v.files = moved (Function.update w.files (tempOf sv w u) (some (assembled sv u)))
    (tempOf sv w u) (shasumfile sv (assembled sv u)) (assembled sv u)

/-- **An upload**, where `open` returns. -/
theorem exec_upload (hu : Starts sv w u x) :
    ∃ v, exec (upload sv u) w = (.ok (), v) ∧ Uploaded sv w u x v := by
  obtain ⟨fd, v, hpos, hinit, hedit, hfiles⟩ := exec_init hu
  set file : SftpFile := { filename := u.filename, fd := some fd } with hfile
  have htemp : v.fs.tempfiles fd = some (tempOf sv w u) := by
    rw [hedit.tempfiles]
    simp [opened]
  have hname : v.fs.filenames fd = some u.filename := by
    rw [hedit.filenames]
    simp [opened]
  have hempty : v.files (tempOf sv w u) = some [] := by simp [hfiles]
  have hchunks := exec_writeChunks sv file u.chunks rfl htemp hempty
  set v' : World := withFile v (tempOf sv w u) (assembled sv u) with hv'
  have hthere : v'.files (tempOf sv w u) = some (assembled sv u) := by simp [hv', withFile]
  obtain ⟨g, hclose, hedit'⟩ := exec_close (file.count (amount u.chunks)) (w := v') hpos rfl htemp
    hname hthere (hedit.getfile hu.found) (shasumfile_ne_hostfile sv _ _ _)
  have hfiles' : v'.files = Function.update w.files (tempOf sv w u) (some (assembled sv u)) := by
    rw [hv', withFile, hfiles, Function.update_idem]
  have hsize : ∀ received, sizeAfter (v'.fs.node x) received =
      sizeAfter ((made w u).2.node x) received := fun received => by
    change sizeAfter (v.fs.node x) received = _
    unfold sizeAfter
    rw [hedit.type, hedit.size]
    rfl
  have hreal : (v'.fs.node x).realfile = _ := hedit.realfile
  have hreceived : (file.count (amount u.chunks)).bytesReceived = amount u.chunks := Nat.zero_add _
  rw [hsize, hreal, hreceived] at hedit'
  have hboth := hedit.trans hedit'
  have hrun : exec (upload sv u) w = _ :=
    (exec_bind_ok hinit).trans ((exec_bind_ok hchunks).trans hclose)
  exact ⟨_, hrun,
    { shape := hboth.shape
      type := hboth.type
      contents := hboth.contents
      mode := hboth.mode
      size := hboth.size
      realfile := hboth.realfile
      files := by rw [← hfiles'] }⟩

/-- Nothing but that returns. -/
theorem starts_of_ok {v : World} (h : exec (upload sv u) w = (.ok (), v)) : ∃ x, Starts sv w u x := by
  unfold upload SftpFile.init at h
  obtain ⟨file, v₁, hinit, -⟩ := exec_bind_inv h
  obtain ⟨fd, v₂, hopen, -⟩ := exec_bind_inv hinit
  unfold openFile strftime at hopen
  rw [if_pos (.inl rfl)] at hopen
  simp only [bind_assoc, exec_get_bind, exec_modify_bind, pure_bind] at hopen
  obtain ⟨b, v₃, hmade, hopen⟩ := exec_bind_inv hopen
  obtain ⟨fd', v₄, hhost, hopen⟩ := exec_bind_inv hopen
  obtain ⟨r, v₅, hquery, hopen⟩ := exec_bind_inv hopen
  rw [exec_inFs] at hmade
  obtain ⟨hres, rfl⟩ := Prod.mk.inj hmade
  have hopens : ∃ fd, sv.setup.host.osOpen (tempOf sv w u) 577 (u.mode - (u.mode &&& 111)) = .ok fd := by
    unfold openHostfile at hhost
    obtain ⟨fd, v₆, hfd, -⟩ := exec_bind_inv hhost
    rw [exec_query] at hfd
    cases hcase : sv.setup.host.osOpen (tempOf sv w u) 577 (u.mode - (u.mode &&& 111)) with
    | ok fd => exact ⟨fd, rfl⟩
    | error e =>
      change (Except.mapError _ (sv.setup.host.osOpen (tempOf sv w u) 577 _), _) = _ at hfd
      rw [show u.attrs.permissions.getD 511 = u.mode from rfl, hcase] at hfd
      cases hfd
  obtain ⟨fd'', hfd⟩ := hopens
  have hopened := exec_openHostfile hfd { w with fs := (made w u).2, stamps := fun i => w.stamps (i + 1) }
  obtain ⟨-, rfl⟩ := Prod.mk.inj (hopened.symm.trans hhost)
  rw [exec_query] at hquery
  obtain ⟨hfound, rfl⟩ := Prod.mk.inj hquery
  cases r with
  | none => cases hopen
  | some x => exact ⟨x, ⟨b, hres⟩, ⟨fd'', hfd⟩, hfound⟩

/-! ## What is stored -/

/-- Two slashes in front of a path are like one. -/
theorem getfile_slash {p : Str} (hp : Normal p) (hroot : p ≠ ['/']) (f : Heap) :
    f.getfile ('/' :: p) = f.getfile p := by
  obtain ⟨pieces, rfl, -⟩ := hp
  unfold getfile
  cases f.limit with
  | zero => rfl
  | succ depth =>
    unfold getfileAt
    rw [if_neg hroot, if_neg (by simp), stripSlash_cons]

theorem rstripSlash_cons {s : Str} (h : ¬ s.all (· = '/')) (c : Char) :
    rstripSlash (c :: s) = c :: rstripSlash s := by
  have hne : s.reverse.dropWhile (· = '/') ≠ [] := fun hnil =>
    h (List.all_eq_true.mpr fun a ha => List.dropWhile_eq_nil_iff.mp hnil a (List.mem_reverse.mpr ha))
  unfold rstripSlash List.rdropWhile
  rw [List.reverse_cons, List.dropWhile_append, if_neg (by simpa using hne)]
  simp

theorem resolvePath_slash {p : Str} (hp : Normal p) (hroot : p ≠ ['/']) (home cwd : Str) :
    resolvePath home ('/' :: p) cwd = some p := by
  obtain ⟨pieces, rfl, hpieces⟩ := hp
  have hnil : pieces ≠ [] := fun h => hroot (by rw [h]; rfl)
  have hstrip : rstripSlash ('/' :: '/' :: join pieces) = '/' :: '/' :: join pieces := by
    have hjoin := List.rdropWhile_eq_self_iff.mp (rstripSlash_join hpieces.1 hnil)
    refine List.rdropWhile_eq_self_iff.mpr fun hcons => ?_
    rw [List.getLast_cons (List.cons_ne_nil _ _)]
    exact hjoin _
  unfold resolvePath
  have hhome : ['~', '/'].isPrefixOf ('/' :: '/' :: join pieces) = false := rfl
  simp only [hhome, Bool.false_eq_true, if_false, if_true, Option.some.injEq]
  rw [hstrip, split_cons, split_cons, split_join hpieces.1 hnil, List.foldl_cons, List.foldl_cons]
  exact congrArg (fun pieces => '/' :: join pieces) (foldl_pushPiece hpieces [])

theorem fileContents_eq {v : World} (hx : v.fs.getfile u.filename = .ok (some x)) (cfg : Setup) :
    fileContents cfg v u.filename = contentsOf cfg v.files (v.fs.node x) := by
  obtain ⟨p, hp, hname | ⟨hroot, hname⟩⟩ := u.absPath
  · rw [hname] at hx ⊢
    unfold fileContents
    rw [resolvePath_of_normal hp]
    simp only [hx]
  · rw [hname] at hx ⊢
    unfold fileContents
    rw [resolvePath_slash hp hroot]
    rw [getfile_slash hp hroot] at hx
    simp only [hx]

/-- Before the upload `w` has a node `n` and files with which it is stored right. A node has another real
file than the temporary one, or is too large for one. -/
def Backed (sv : Server) (w : World) (u : Upload) (n : Node) : Prop :=
  let data := assembled sv u
  let shasumfile := shasumfile sv data
  sizeAfter n (amount u.chunks) = data.length ∧
    (w.files shasumfile = none ∨ w.files shasumfile = some data) ∧
    match n.type with
    | .file =>
      match backing n with
      | some real => real ≠ tempOf sv w u ∧ (real = shasumfile ∨ w.files real = some data)
      | none =>
        25000000 ≤ n.size ∧
          (data.length < 25000000 ∨
            match n.contents with
            | .bytes own => own = data
            | .list _ => n.mode &&& 64 ≠ 0 ∧ sv.setup.arch = data)
    | .dir => False
    | _ => data = []

theorem moved_eq (files : Str → Option Bytes) {temp real : Str} (data : Bytes) (hne : real ≠ temp) (p : Str) :
    moved (Function.update files temp (some data)) temp real data p =
      if p = temp then none else if p = real then some ((files real).getD data) else files p := by
  unfold moved
  rw [Function.update_of_ne hne, Function.update_idem]
  cases hreal : files real with
  | none =>
    simp only [Option.isSome_none, Bool.false_eq_true, if_false, Option.getD_none]
    by_cases htemp : p = temp
    · subst htemp
      simp [hne.symm]
    · by_cases hp : p = real <;> simp [hp, htemp, hne]
  | some old =>
    simp only [Option.isSome_some, if_true, Option.getD_some]
    by_cases htemp : p = temp
    · simp [htemp]
    · by_cases hp : p = real
      · subst hp
        simp [hne, hreal]
      · simp [htemp, hp]

theorem backing_eq_none {n : Node} : backing n = none ↔ n.realfile.getD [] = [] := by
  unfold backing
  rcases n.realfile with _ | _ | ⟨c, r⟩ <;> simp

theorem hostfile_ne_nil (sv : Server) (stamp filename : Str) : hostfile sv stamp filename ≠ [] := by
  simp [hostfile]

theorem shasumfile_ne_nil (sv : Server) (data : Bytes) : shasumfile sv data ≠ [] := by simp [shasumfile]

/-- The real file of a node is the first that it was given. -/
theorem Uploaded.backing {v : World} (h : Uploaded sv w u x v) :
    Redirect.backing (v.fs.node x) =
      match Redirect.backing ((made w u).2.node x) with
      | some real => some real
      | none =>
        if ((made w u).2.node x).size < 25000000 then some (tempOf sv w u)
        else if sizeAfter ((made w u).2.node x) (amount u.chunks) < 25000000 then
          some (shasumfile sv (assembled sv u))
        else none := by
  have hreal := h.realfile
  set n := (made w u).2.node x
  cases hn : Redirect.backing n with
  | some real =>
    obtain ⟨hsome, hne⟩ := realfile_of_backing hn
    have hkept : (some real).getD [] ≠ [] := hne
    rw [hsome, firstBacking_of_ne hkept, firstBacking_of_ne hkept] at hreal
    exact backing_some hne hreal
  | none =>
    have hnil := backing_eq_none.mp hn
    simp only
    rw [firstBacking_of_nil hnil] at hreal
    split_ifs at hreal ⊢ with hsize hafter
    · have hkept : (some (tempOf sv w u)).getD [] ≠ [] := hostfile_ne_nil sv _ _
      rw [firstBacking_of_ne hkept] at hreal
      exact backing_some (hostfile_ne_nil sv _ _) hreal
    · rw [firstBacking_of_nil hnil, if_pos hafter] at hreal
      exact backing_some (shasumfile_ne_nil sv _) hreal
    · rw [firstBacking_of_nil hnil, if_neg hafter] at hreal
      rw [backing_eq_none, hreal]
      exact hnil

/-- **One upload**, exactly. -/
theorem stored_iff_backed {v : World} (hu : Starts sv w u x) (h : Uploaded sv w u x v) :
    Stored sv v u ↔ Backed sv w u ((made w u).2.node x) := by
  set n := (made w u).2.node x with hn
  set data := assembled sv u with hdata
  have hx : v.fs.getfile u.filename = .ok (some x) := by
    rw [h.shape.getfile]
    exact hu.found
  have hne : shasumfile sv data ≠ tempOf sv w u := shasumfile_ne_hostfile sv _ _ _
  have hfiles : ∀ p, v.files p = if p = tempOf sv w u then none else
      if p = shasumfile sv data then some ((w.files (shasumfile sv data)).getD data) else w.files p := by
    intro p
    rw [h.files]
    exact moved_eq w.files data hne p
  have hartifact : v.files (shasumfile sv data) = some data ↔
      (w.files (shasumfile sv data) = none ∨ w.files (shasumfile sv data) = some data) := by
    rw [hfiles, if_neg hne, if_pos rfl]
    cases w.files (shasumfile sv data) <;> simp
  have hsize : (∃ y, v.fs.getfile u.filename = .ok (some y) ∧ (v.fs.node y).size = data.length) ↔
      sizeAfter n (amount u.chunks) = data.length := by
    rw [hx, hn, ← h.size]
    exact ⟨fun ⟨y, hy, hlen⟩ => by obtain rfl := Option.some.inj (Except.ok.inj hy); exact hlen,
      fun hlen => ⟨x, rfl, hlen⟩⟩
  have hall : Stored sv v u ↔ sizeAfter n (amount u.chunks) = data.length ∧
      (w.files (shasumfile sv data) = none ∨ w.files (shasumfile sv data) = some data) ∧
      contentsOf sv.setup v.files (v.fs.node x) = .ok data := by
    rw [← hsize, ← hartifact, ← fileContents_eq hx]
    exact ⟨fun hs => ⟨hs.size, hs.artifact, hs.contents⟩, fun ⟨hs, ha, hc⟩ => ⟨hc, hs, ha⟩⟩
  rw [hall]
  unfold Backed
  refine and_congr_right fun hlen => and_congr_right fun hart => ?_
  have hshasum : v.files (shasumfile sv data) = some data := hartifact.mpr hart
  unfold contentsOf
  rw [h.type, h.backing, h.contents, h.size, h.mode, ← hn, ← hdata, hlen]
  cases htype : n.type with
  | dir => simp
  | file =>
    rw [if_neg (by simp), if_neg (by simp)]
    cases hback : Redirect.backing n with
    | some real =>
      simp only
      by_cases htemp : real = tempOf sv w u
      · simp [hfiles, htemp]
      · by_cases hsha : real = shasumfile sv data
        · subst hsha
          simp [hshasum, htemp]
        · rw [hfiles, if_neg htemp, if_neg hsha]
          cases w.files real <;> simp [htemp, hsha]
    | none =>
      simp only
      by_cases hsmall : n.size < 25000000
      · rw [if_pos hsmall]
        simp [hfiles, hsmall]
      · rw [if_neg hsmall]
        by_cases hfit : data.length < 25000000
        · rw [if_pos hfit]
          simp [hshasum, hfit, Nat.le_of_not_lt hsmall]
        · have hlarge : 25000000 ≤ n.size := Nat.le_of_not_lt hsmall
          have hnil : data ≠ [] := fun hnil => hfit (by simp [hnil])
          rw [if_neg hfit]
          cases n.contents with
          | bytes own => simp [hfit, hlarge]
          | list entries =>
            have hpos : data.length ≠ 0 := fun hzero => hfit (by omega)
            simp only
            rw [if_neg hpos]
            split_ifs with hmode
            · simp [hfit, hlarge, hmode]
            · simp [hfit, hlarge, hmode, hnil.symm]
  | link | blk | chr | sock | fifo =>
    rw [if_neg (by simp), if_pos (by simp)]
    exact ⟨fun h => (Except.ok.inj h).symm, fun h => congrArg Except.ok h.symm⟩

/-! ### A new node -/

theorem getPath_slash (f : Heap) (s : Str) : f.getPath ('/' :: s) = f.getPath s := by
  unfold getPath
  rw [split_cons, getPathFrom, if_pos rfl]

/-- Two slashes in front: the same directory, the same name. -/
theorem splits_slash {p : Str} (hp : Normal p) (hroot : p ≠ ['/']) :
    dirname ('/' :: p) = '/' :: dirname p ∧ basename ('/' :: p) = basename p := by
  obtain ⟨pieces, rfl, hpieces⟩ := hp
  cases pieces using List.reverseRecOn with
  | nil => exact absurd rfl hroot
  | append_singleton pieces last =>
    have hlast := (hpieces.1 last (by simp)).2
    obtain ⟨s, hs⟩ := join_concat pieces last
    rw [hs, ← List.cons_append, basename_append hlast, basename_append hlast]
    refine ⟨?_, rfl⟩
    unfold dirname
    rw [rdropWhile_ne_slash hlast, rdropWhile_ne_slash hlast, List.cons_append]
    have hall : ('/' :: (s ++ ['/'])).all (· = '/') = (s ++ ['/']).all (· = '/') := by simp
    simp only [hall]
    split_ifs with hslash
    · rfl
    · exact rstripSlash_cons hslash '/'

/-- **A new node** is not backed. -/
theorem not_backed (hf : Named w.fs) (hlimit : 0 < w.fs.limit) (hcount : w.fs.newcount ≤ 10000)
    (hu : Starts sv w u x) : ¬ Backed sv w u ((made w u).2.node x) := by
  obtain ⟨⟨b, hb⟩, -, hx⟩ := hu
  have hcreates : ∃ d, Creates w.fs u.filename d := by
    by_contra hnone
    obtain ⟨e, g, hexec, -⟩ :=
      exec_mkfile_else 0 0 0 (32768 ||| u.mode) hf hcount (not_exists.mp hnone)
    rw [made, hexec] at hb
    cases hb
  obtain ⟨d, hd⟩ := hcreates
  obtain ⟨g, n, hexec, hg, hname, hsize, hreal⟩ :=
    exec_mkfile 0 0 0 (32768 ||| u.mode) hf hlimit hd
  have hmade : (made w u).2 = g := by rw [made, hexec]
  rw [hmade] at hx ⊢
  have hnode : x = w.fs.next ∨ x = w.fs.fs := by
    obtain ⟨p, hp, hfile | ⟨hroot, hfile⟩⟩ := u.absPath
    · by_cases hroot : p = ['/']
      · rw [hfile, hroot] at hx
        obtain ⟨depth, hdepth⟩ := limit_pos hx
        unfold getfile at hx
        rw [hdepth] at hx
        have hfs : g.fs = x := by simpa [getfileAt] using hx
        exact .inr (hfs.symm.trans hg.fs)
      · have hsplits := hp.splits hroot
        rw [← hfile, ← hname] at hsplits
        exact .inl (hg.found hf hsplits hd.2.2.1 hx)
    · obtain ⟨hdir, hbase⟩ := splits_slash hp hroot
      have hsplits := hp.splits hroot
      rw [hfile, hbase] at hname
      have hparent := hd.2.2.1
      rw [hfile, hdir, getPath_slash] at hparent
      rw [hfile, getfile_slash hp hroot] at hx
      rw [← hname] at hsplits
      exact .inl (hg.found hf hsplits hparent hx)
  rintro ⟨-, -, hbacked⟩
  rcases hnode with rfl | rfl
  · rw [hg.at_new, hg.type] at hbacked
    have hnone : Redirect.backing n = none := backing_eq_none.mpr (by rw [hreal]; rfl)
    simp only [hnone, hsize] at hbacked
    exact absurd hbacked.1 (by omega)
  · rw [hg.type_old (Replaced.old hf (holds_root _)), hf.root] at hbacked
    exact hbacked

/-! ## Sequences of uploads -/

/-- The `World` after an upload, whether `open` raises or not. -/
def step (sv : Server) (w : World) (u : Upload) : Option World := some (exec (upload sv u) w).2

/-- If `open` returns, the upload is stored right when it is closed. -/
def StoredRight (sv : Server) (w : World) (u : Upload) : Prop :=
  (exec (upload sv u) w).1 = .ok () → Stored sv (exec (upload sv u) w).2 u

/-- If `open` returns, the node that it finds is `Backed`. -/
def BackedRight (sv : Server) (w : World) (u : Upload) : Prop :=
  ∀ x, Starts sv w u x → Backed sv w u ((made w u).2.node x)

theorem storedRight_iff (sv : Server) (w : World) (u : Upload) :
    StoredRight sv w u ↔ BackedRight sv w u := by
  constructor
  · intro h x hu
    obtain ⟨v, hexec, hv⟩ := exec_upload hu
    have hstored := h (congrArg Prod.fst hexec)
    rw [hexec] at hstored
    exact (stored_iff_backed hu hv).mp hstored
  · intro h hok
    obtain ⟨x, hu⟩ := starts_of_ok (Prod.ext hok rfl)
    obtain ⟨v, hexec, hv⟩ := exec_upload hu
    rw [hexec]
    exact (stored_iff_backed hu hv).mpr (h x hu)

/-- **Uploads, exactly.** In a sequence of uploads each one is stored right if and only if each one is
backed before it begins. While the file system makes new nodes, none is. -/
theorem stored_iff (sv : Server) (w : World) (us : List Upload) :
    (StepsMeet (step sv) (StoredRight sv) w us ↔ StepsMeet (step sv) (BackedRight sv) w us) ∧
      (Named w.fs → 0 < w.fs.limit → w.fs.newcount ≤ 10000 →
        ∀ u x, Starts sv w u x → ¬ StoredRight sv w u) := by
  constructor
  · exact ⟨stepsMeet_mono fun w u => (storedRight_iff sv w u).mp,
      stepsMeet_mono fun w u => (storedRight_iff sv w u).mpr⟩
  · intro hf hlimit hcount u x hu h
    exact not_backed hf hlimit hcount hu ((storedRight_iff sv w u).mp h x hu)

/-! ### One byte to `/tmp/f` -/

/-- The SHA-256 is that of the byte 1. -/
def demoServer : Server where
  setup := demo
  sha256 _ := "4bf5122f344554c53bde2ebb8cd2b7e3d1600ad631c385a5d7cce23c7785459a".toList
  hexdigest := fun _ => List.all_iff_forall_prop.mp (by decide)
  fd_pos := fun _ _ _ fd h => by
    obtain rfl : 3 = fd := Except.ok.inj h
    decide
  bytesReceivedLimit := 0

def demoUpload : Upload where
  filename := ['/', 't', 'm', 'p', '/', 'f']
  attrs := {}
  chunks := [(0, [1])]
  absPath := ⟨_, normal_of_resolvePath rfl, .inl rfl⟩

theorem demoUpload_starts : Starts demoServer demoWorld demoUpload 2 :=
  ⟨⟨true, rfl⟩, ⟨3, rfl⟩, rfl⟩

/-- In `demoWorld` an upload to `/tmp/f` is not stored right. -/
theorem stored_iff_demo : ¬ StoredRight demoServer demoWorld demoUpload :=
  (stored_iff demoServer demoWorld [demoUpload]).2 (smallFs_wellFormed.named rfl) (by decide)
    (by decide) demoUpload 2 demoUpload_starts

/-- **One upload** of one byte to a new file in `/tmp`. -/
theorem stored_violated :
    ¬ ∀ (sv : Server) (w : World) (us : List Upload), Named w.fs →
      (∀ u ∈ us, ∃ d, w.fs.getPath (dirname u.filename) = .ok d) →
      StepsMeet (step sv) (StoredRight sv) w us := by
  intro h
  have hone := (h demoServer demoWorld [demoUpload] (smallFs_wellFormed.named rfl) fun u hu => by
    obtain rfl := List.mem_singleton.mp hu
    exact ⟨1, rfl⟩).1
  have hbacked := (storedRight_iff _ _ _).mp hone 2 demoUpload_starts
  exact not_backed (smallFs_wellFormed.named rfl) (by decide) (by decide) demoUpload_starts hbacked

end Cowrie.Shell.SftpUpload
