import Cowrie.Shell.FsCommands
import Cowrie.Shell.FsMkfile
import Cowrie.Shell.Pipe

/-!
# Redirection to files (`src/cowrie/shell/pipe.py:135-226`, `fs.py:267-345`, `633-639`)

The target of `>` and `>>` is a path of the virtual file system; what is written goes to a file of the
host, the backing, whose name is `A_REALFILE` of the node. `World` is both: `fs`, and the `files` of
the host. `stamps` is what `time.strftime` will say, call by call.

* `osOpen` of `Host` decides which files the host lets be opened: `"ab"` is `os.open` with the flags 1089,
  `"wb"` with 577, both with the mode 438. It opens regular files only.
* `arch` are the contents of the generic binary.
* `Setup.env` is the environment in which `PipeProtocol` runs. An exception of `_prepare_output_file`
  leaves the constructor, so that the command is not called; there it is a failure without a message.

Left out: log messages.
-/

namespace Cowrie.Shell.Redirect

open Cowrie.Lib Fs Heap HoneyPotFilesystem

structure World where
  fs : HoneyPotFilesystem
  /-- The regular files of the host. -/
  files : Str → Option Bytes
  /-- `time.strftime("%Y%m%d-%H%M%S")`. -/
  stamps : Nat → Str

/-- The configuration and the session. -/
structure Setup where
  host : Host
  contentsPath : Str
  transportId : Str
  sessionId : Str
  user : User
  cwd_normal : Normal user.cwd
  arch : Bytes

abbrev RedirectM (α : Type) := Prog FsError World α

/-- A function of the virtual file system. -/
def inFs {α : Type} (m : FsM α) : RedirectM α := zoom World.fs (fun w f => { w with fs := f }) m

variable (cfg : Setup)

/-! ## The host -/

/-- `open`; the mode is the one that Python asks for. -/
def openHost (path : Str) (flags : Nat) : RedirectM Unit :=
  query fun _ =>
    match cfg.host.osOpen path flags 438 with
    | .ok _ => .ok ()
    | .error e => .error (.osError e path)

/-- `with open(path, "ab") as f: f.write(data)`. -/
def appendFile (path : Str) (data : Bytes) : RedirectM Unit := do
  openHost cfg path 1089
  modify fun w =>
    { w with files := Function.update w.files path (some ((w.files path).getD [] ++ data)) }

/-- `open(path, "wb").close()`. -/
def truncateFile (path : Str) : RedirectM Unit := do
  openHost cfg path 577
  modify fun w => { w with files := Function.update w.files path (some []) }

/-- `time.strftime("%Y%m%d-%H%M%S")`. -/
def strftime : RedirectM Str := do
  let w ← get
  modify fun w => { w with stamps := fun i => w.stamps (i + 1) }
  pure (w.stamps 0)

/-- `os.path.join(a, b)`. -/
def pathJoin (a b : Str) : Str :=
  if b.head? = some '/' then b
  else if a = [] ∨ a.getLast? = some '/' then a ++ b
  else a ++ '/' :: b

/-! ## Contents and sizes (`fs.py:316-345`, `633-639`) -/

/-- `A_REALFILE`, unless it is empty. -/
def backing (n : Node) : Option Str :=
  match n.realfile with
  | some (c :: r) => some (c :: r)
  | _ => none

/-- What `file_contents` reads of a node; 21 is `EISDIR`. -/
def contentsOf (files : Str → Option Bytes) (n : Node) : Except FsError Bytes :=
  if n.type = .dir then .error (.osError (.host 21) none)
  else if n.type ≠ .file then .ok []
  else
    match backing n, n.contents with
    | some r, _ =>
      match files r with
      | some data => .ok data
      | none => .error (.osError .ENOENT r)
    | none, .bytes data => .ok data
    | none, .list _ =>
      if n.size = 0 then .ok []
      -- `S_IXUSR`
      else if n.mode &&& 64 ≠ 0 then .ok cfg.arch
      else .ok []

/-- `file_contents`. -/
def fileContents (w : World) (target : Str) : Except FsError Bytes :=
  match resolvePath w.fs.home target (dirname target) with
  | none => .error .indexError
  | some path =>
    match w.fs.getfile path with
    | .error e => .error e
    | .ok none => .error .fileNotFound
    | .ok (some x) => contentsOf cfg w.files (w.fs.node x)

/-- `update_size`. -/
def updateSize (filename : Str) (size : Nat) : FsM Unit := do
  match ← query fun f => f.getfile filename with
  | none => pure ()
  | some x =>
    let n := (← get).node x
    when (n.type = .file) do
      modify fun f => f.setNode x { n with size := size }

/-! ## `_prepare_output_file` -/

/-- `_needs_new_backing`. -/
def needsNewBacking (p : Option Node) : Bool :=
  match p.bind backing with
  | none => true
  | some r => cfg.contentsPath.isPrefixOf r

/-- The name of a new backing. -/
def backingName (stamp outfile : Str) : Str :=
  pathJoin cfg.host.downloadPath
    (stamp ++ '-' :: cfg.transportId ++ '-' :: cfg.sessionId ++ "-redir_".toList ++ sanitize outfile)

/-- `_create_redirect_target`; an error is the message that `_emit_redirection_error` sends. -/
def createRedirectTarget (outfile : Str) : RedirectM (Except String Str) := do
  let stamp ← strftime
  let safeoutfile := backingName cfg stamp outfile
  -- `S_IFREG` and `rw-r--r--`
  let failure ← tryCatch
    (do
      let _ ← inFs (mkfile outfile cfg.user.uid cfg.user.gid 0 33188)
      pure none)
    fun e =>
      match e with
      | .fileNotFound =>
        pure (some ("-bash: " ++ String.ofList outfile ++ ": No such file or directory\n"))
      | .permissionDenied => pure (some ("-bash: " ++ String.ofList outfile ++ ": Permission denied\n"))
      | e => throw e
  match failure with
  | some message => pure (.error message)
  | none =>
    appendFile cfg safeoutfile []
    match ← query fun w => w.fs.getfile outfile with
    | none => throw .typeError
    | some x =>
      let w ← get
      inFs (updateRealfile { cfg.host with isRegular := fun p => (w.files p).isSome } x safeoutfile)
      pure (.ok safeoutfile)

/-- `_reuse_existing_backing`; only an `OSError` is caught. -/
def reuseExistingBacking (outfile : Str) (p : Node) (append : Bool) :
    RedirectM (Option (Str × Nat)) :=
  let safeoutfile := p.realfile.getD []
  if append then pure (some (safeoutfile, p.size))
  else
    tryCatch
      (do
        truncateFile cfg safeoutfile
        inFs (updateSize outfile 0)
        pure (some (safeoutfile, 0)))
      fun e =>
        match e with
        | .osError _ _ => pure none
        | e => throw e

/-- `_prepare_output_file`. -/
def prepareOutputFile (target : Str) (append : Bool) : RedirectM Prepared := do
  let outfile ← query fun w => resolve cfg.user target w.fs
  let x ← query fun w => w.fs.getfile outfile
  if outfile = "/dev/null".toList then pure .devnull
  else
    let w ← get
    let p := x.map w.fs.node
    match p, needsNewBacking cfg p with
    | some p, false =>
      match ← reuseExistingBacking cfg outfile p append with
      | none => pure (.failed none)
      | some (safeoutfile, startSize) =>
        pure (.file { virtual := String.ofList outfile, real := String.ofList safeoutfile, startSize })
    | p, _ =>
      let startSize := match p with
        | some p => if append then p.size else 0
        | none => 0
      match ← createRedirectTarget cfg outfile with
      | .error message => pure (.failed (some message))
      | .ok safeoutfile =>
        pure (.file { virtual := String.ofList outfile, real := String.ofList safeoutfile, startSize })

/-! ## `PipeProtocol` on these files -/

/-- The environment `base`, with its output files in the `World`. -/
def Setup.env (base : Env World) : Env World :=
  { base with
    prepareOutputFile := fun w target append =>
      match exec (prepareOutputFile cfg target.toList append) w with
      | (.ok prepared, w) => (prepared, w)
      | (.error _, w) => (.failed none, w)
    appendFile := fun w path data =>
      match exec (appendFile cfg path.toList data) w with
      | (.ok _, w) => some w
      | (.error _, _) => none
    updateSize := fun w path size => { w with fs := (exec (updateSize path.toList size) w.fs).2 } }

/-- One command: its redirections are set up, then it writes; `rest` are the stages after it. -/
def runRedirected (env : Env World) (rest : List (PipeProtocol World)) (redirect : Bool)
    (ops : List RedirOp) (name : String) (cmd : Command World) (cmdargs : List String)
    (writes : List Write) : ShellM World Unit := do
  let pp ← PipeProtocol.new env name cmd cmdargs (rest ≠ []) redirect ops
  modify fun s => { s with pp := pp :: rest }
  writes.forM (write env)

/-! ## What the functions do -/

section Specs

variable {cfg} {w : World} {f : HoneyPotFilesystem} {x : Ref} {path : Str} {data : Bytes}

theorem exec_inFs {α : Type} (m : FsM α) (w : World) :
    exec (inFs m) w = ((exec m w.fs).1, { w with fs := (exec m w.fs).2 }) := exec_zoom _ _ m w

/-- The host lets a file be opened. -/
def Opens (cfg : Setup) (flags : Nat) (path : Str) : Prop := ∃ fd, cfg.host.osOpen path flags 438 = .ok fd

instance Opens.decidable (cfg : Setup) (flags : Nat) (path : Str) : Decidable (Opens cfg flags path) :=
  match h : cfg.host.osOpen path flags 438 with
  | .ok fd => isTrue ⟨fd, h⟩
  | .error e => isFalse fun ⟨fd, hfd⟩ => by
    rw [h] at hfd
    cases hfd

/-- Bytes at the end of a file, which is made if there is none. -/
def appended (files : Str → Option Bytes) (path : Str) (data : Bytes) : Str → Option Bytes :=
  Function.update files path (some ((files path).getD [] ++ data))

theorem exec_openHost {flags : Nat} (h : Opens cfg flags path) (w : World) :
    exec (openHost cfg path flags) w = (.ok (), w) := by
  obtain ⟨fd, hfd⟩ := h
  unfold openHost
  rw [exec_query, hfd]

theorem exec_openHost_else {flags : Nat} (h : ¬ Opens cfg flags path) (w : World) :
    ∃ e, exec (openHost cfg path flags) w = (.error (.osError e path), w) := by
  unfold openHost
  rw [exec_query]
  cases hopen : cfg.host.osOpen path flags 438 with
  | ok fd => exact absurd ⟨fd, hopen⟩ h
  | error e => exact ⟨e, rfl⟩

theorem exec_appendFile (h : Opens cfg 1089 path) (data : Bytes) (w : World) :
    exec (appendFile cfg path data) w = (.ok (), { w with files := appended w.files path data }) := by
  unfold appendFile
  rw [exec_bind_ok (exec_openHost h w)]
  rfl

theorem exec_appendFile_else (h : ¬ Opens cfg 1089 path) (data : Bytes) (w : World) :
    ∃ e, exec (appendFile cfg path data) w = (.error (.osError e path), w) := by
  obtain ⟨e, he⟩ := exec_openHost_else h w
  exact ⟨e, exec_bind_error he⟩

theorem exec_truncateFile (h : Opens cfg 577 path) (w : World) :
    exec (truncateFile cfg path) w =
      (.ok (), { w with files := Function.update w.files path (some []) }) := by
  unfold truncateFile
  rw [exec_bind_ok (exec_openHost h w)]
  rfl

theorem exec_truncateFile_else (h : ¬ Opens cfg 577 path) (w : World) :
    ∃ e, exec (truncateFile cfg path) w = (.error (.osError e path), w) := by
  obtain ⟨e, he⟩ := exec_openHost_else h w
  exact ⟨e, exec_bind_error he⟩

/-! ### Sizes -/

/-- `f` with the size of the file `x` set. -/
def resized (f : HoneyPotFilesystem) (x : Ref) (size : Nat) : HoneyPotFilesystem :=
  if (f.node x).type = .file then f.setNode x { f.node x with size := size } else f

theorem exec_updateSize {size : Nat} (h : f.getfile path = .ok (some x)) :
    exec (updateSize path size) f = (.ok (), resized f x size) := by
  have hquery : exec (query fun f : HoneyPotFilesystem => f.getfile path) f = (.ok (some x), f) := by
    rw [exec_query, h]
  unfold updateSize resized
  rw [exec_bind_ok hquery, exec_get_bind]
  by_cases htype : (f.node x).type = .file
  · rw [when_true htype, if_pos htype]
    rfl
  · rw [when_false htype, if_neg htype]
    rfl

theorem exec_updateSize_none {size : Nat} (h : ∀ x, f.getfile path ≠ .ok (some x)) :
    (exec (updateSize path size) f).2 = f := by
  unfold updateSize
  rw [exec_bind, exec_query]
  cases hfile : f.getfile path with
  | error e => rfl
  | ok r =>
    cases r with
    | none => rfl
    | some x => exact absurd hfile (h x)

theorem node_resized (f : HoneyPotFilesystem) (x : Ref) (size : Nat) (y : Ref) :
    (resized f x size).node y =
      if y = x ∧ (f.node x).type = .file then { f.node y with size := size } else f.node y := by
  unfold resized
  by_cases htype : (f.node x).type = .file
  · rw [if_pos htype, node_setNode]
    by_cases hy : y = x
    · subst hy
      simp [htype]
    · simp [hy]
  · simp [htype]

/-- An edit of sizes and real files. -/
structure Relabelled (f g : HoneyPotFilesystem) : Prop where
  fs : g.fs = f.fs
  limit : g.limit = f.limit
  home : g.home = f.home
  next : g.next = f.next
  node : ∀ x, ∃ size realfile, g.node x = { f.node x with size := size, realfile := realfile }

theorem Relabelled.sameShape {f g : HoneyPotFilesystem} (h : Relabelled f g) :
    SameShape f.toHeap g.toHeap where
  fs := h.fs
  limit := h.limit
  name x _ := by
    obtain ⟨size, realfile, hx⟩ := h.node x
    rw [hx]
  type x _ := by
    obtain ⟨size, realfile, hx⟩ := h.node x
    rw [hx]
  contents x _ := by
    obtain ⟨size, realfile, hx⟩ := h.node x
    rw [hx]
  target x _ := by
    obtain ⟨size, realfile, hx⟩ := h.node x
    rw [hx]

theorem relabelled_resized (f : HoneyPotFilesystem) (x : Ref) (size : Nat) :
    Relabelled f (resized f x size) := by
  have hstatic : (resized f x size).fs = f.fs ∧ (resized f x size).limit = f.limit ∧
      (resized f x size).home = f.home ∧ (resized f x size).next = f.next := by
    unfold resized
    split_ifs <;> exact ⟨rfl, rfl, rfl, rfl⟩
  refine ⟨hstatic.1, hstatic.2.1, hstatic.2.2.1, hstatic.2.2.2, fun y => ?_⟩
  rw [node_resized]
  split_ifs
  · exact ⟨_, _, rfl⟩
  · exact ⟨_, _, rfl⟩

/-! ### A new backing -/

theorem pathJoin_ne_nil (a : Str) {b : Str} (hb : b ≠ []) : pathJoin a b ≠ [] := by
  unfold pathJoin
  split_ifs
  · exact hb
  · simp [hb]
  · simp

theorem backingName_ne_nil (cfg : Setup) (stamp outfile : Str) : backingName cfg stamp outfile ≠ [] :=
  pathJoin_ne_nil _ (by simp)

theorem backing_some {n : Node} {r : Str} (hr : r ≠ []) (h : n.realfile = some r) :
    backing n = some r := by
  unfold backing
  rw [h]
  cases r with
  | nil => exact absurd rfl hr
  | cons c r => rfl

/-- `w` after `_create_redirect_target`, with the tree `g` that `mkfile` leaves. -/
def created (cfg : Setup) (outfile : Str) (w : World) (g : HoneyPotFilesystem) (n : Node) : World where
  fs := g.setNode w.fs.next { n with realfile := some (backingName cfg (w.stamps 0) outfile) }
  files := appended w.files (backingName cfg (w.stamps 0) outfile) []
  stamps := fun i => w.stamps (i + 1)

variable {outfile : Str} {r : Option Ref} {d : Ref}

/-- **`_create_redirect_target`**, where `mkfile` makes a file. -/
theorem exec_createRedirectTarget (hf : Named w.fs)
    (hpath : Splits outfile (dirname outfile) (basename outfile)) (hr : w.fs.getfile outfile = .ok r)
    (hplain : ∀ x, r = some x → w.fs.entries x = []) (hd : Creates w.fs outfile d)
    (hopen : Opens cfg 1089 (backingName cfg (w.stamps 0) outfile)) :
    ∃ g n, Replaced w.fs g d n ∧ n.name = basename outfile ∧ n.size = 0 ∧
      exec (createRedirectTarget cfg outfile) w =
        (.ok (.ok (backingName cfg (w.stamps 0) outfile)), created cfg outfile w g n) := by
  obtain ⟨depth, hlimit⟩ := limit_pos hr
  obtain ⟨g, n, hmkfile, hg, hname, hsize, hreal⟩ :=
    exec_mkfile cfg.user.uid cfg.user.gid 0 33188 hf (by omega) hd
  refine ⟨g, n, hg, hname, hsize, ?_⟩
  have htarget : g.getfile outfile = .ok (some w.fs.next) :=
    hg.target hf (by rwa [hname]) hr hd.2.2.1 hplain
  unfold createRedirectTarget strftime
  simp only [bind_assoc, exec_get_bind, exec_modify_bind, pure_bind]
  set safe := backingName cfg (w.stamps 0) outfile with hsafe
  let t : World := { w with stamps := fun i => w.stamps (i + 1) }
  have hmade : exec (do
      let _ ← inFs (mkfile outfile cfg.user.uid cfg.user.gid 0 33188)
      pure (none : Option String)) t = (.ok none, { t with fs := g }) := by
    rw [exec_bind, exec_inFs, hmkfile]
    rfl
  rw [exec_bind_ok (exec_tryCatch_ok hmade)]
  simp only
  rw [exec_bind_ok (exec_appendFile hopen [] _)]
  have hquery : exec (query fun w : World => w.fs.getfile outfile)
      { t with fs := g, files := appended t.files safe [] } =
      (.ok (some w.fs.next), { t with fs := g, files := appended t.files safe [] }) := by
    rw [exec_query]
    exact congrArg (·, _) htarget
  rw [exec_bind_ok hquery]
  simp only [exec_get_bind]
  rw [exec_bind, exec_inFs]
  unfold updateRealfile
  have hcond : (g.node w.fs.next).realfile.getD [] = [] ∧
      ((appended w.files safe []) safe).isSome = true ∧ (g.node w.fs.next).size < 25000000 := by
    rw [hg.at_new, hreal, hsize]
    exact ⟨rfl, by simp [appended], by decide⟩
  simp only [exec_get_bind]
  rw [when_true hcond]
  simp only [exec_modify, hg.at_new]
  rfl

/-- **`_create_redirect_target`**, where `mkfile` raises. -/
theorem exec_createRedirectTarget_else (cfg : Setup) (hf : Named w.fs) (hcount : w.fs.newcount ≤ 10000)
    (h : ∀ d, ¬ Creates w.fs outfile d) :
    ∃ g, Untouched w.fs g ∧
      (exec (createRedirectTarget cfg outfile) w).2 =
        { w with fs := g, stamps := fun i => w.stamps (i + 1) } ∧
      ∀ safe, (exec (createRedirectTarget cfg outfile) w).1 ≠ .ok (.ok safe) := by
  obtain ⟨e, g, hmkfile, hg⟩ := exec_mkfile_else cfg.user.uid cfg.user.gid 0 33188 hf hcount h
  refine ⟨g, hg, ?_⟩
  unfold createRedirectTarget strftime
  simp only [bind_assoc, exec_get_bind, exec_modify_bind, pure_bind]
  let t : World := { w with stamps := fun i => w.stamps (i + 1) }
  have hmade : exec (do
      let _ ← inFs (mkfile outfile cfg.user.uid cfg.user.gid 0 33188)
      pure (none : Option String)) t = (.error e, { t with fs := g }) := by
    rw [exec_bind, exec_inFs, hmkfile]
  rw [exec_bind, exec_tryCatch_error hmade]
  cases e <;> exact ⟨rfl, nofun⟩

/-- The new node gets its real file. -/
theorem relabelled_created {g : HoneyPotFilesystem} {n : Node} (cfg : Setup) (outfile : Str)
    (hg : Replaced w.fs g d n) : Relabelled g (created cfg outfile w g n).fs where
  fs := rfl
  limit := rfl
  home := rfl
  next := rfl
  node x := by
    unfold created
    simp only [node_setNode]
    split_ifs with hx
    · exact ⟨_, _, by rw [hx, hg.at_new]⟩
    · exact ⟨_, _, rfl⟩

theorem getfile_created {g : HoneyPotFilesystem} {n : Node} (cfg : Setup) (hf : Named w.fs)
    (hpath : Splits outfile (dirname outfile) (basename outfile)) (hr : w.fs.getfile outfile = .ok r)
    (hplain : ∀ x, r = some x → w.fs.entries x = []) (hd : w.fs.getPath (dirname outfile) = .ok d)
    (hg : Replaced w.fs g d n) (hname : n.name = basename outfile) :
    (created cfg outfile w g n).fs.getfile outfile = .ok (some w.fs.next) := by
  rw [(relabelled_created cfg outfile hg).sameShape.getfile]
  exact hg.target hf (by rwa [hname]) hr hd hplain

/-! ### An old backing -/

theorem realfile_of_backing {n : Node} {real : Str} (h : backing n = some real) :
    n.realfile = some real ∧ real ≠ [] := by
  unfold backing at h
  split at h
  · rename_i c r hreal
    obtain rfl := Option.some.inj h
    exact ⟨hreal, List.cons_ne_nil c r⟩
  · cases h

/-- `w` after the backing `real` of `x` is truncated. -/
def truncated (w : World) (x : Ref) (real : Str) : World :=
  { w with fs := resized w.fs x 0, files := Function.update w.files real (some []) }

theorem exec_reuse_append {real : Str} (hreal : (w.fs.node x).realfile = some real) :
    exec (reuseExistingBacking cfg outfile (w.fs.node x) true) w =
      (.ok (some (real, (w.fs.node x).size)), w) := by
  unfold reuseExistingBacking
  rw [hreal]
  rfl

/-- **`_reuse_existing_backing`**, where the host opens the file for writing. -/
theorem exec_reuse_truncate {real : Str} (hx : w.fs.getfile outfile = .ok (some x))
    (hreal : (w.fs.node x).realfile = some real) (hopen : Opens cfg 577 real) :
    exec (reuseExistingBacking cfg outfile (w.fs.node x) false) w =
      (.ok (some (real, 0)), truncated w x real) := by
  unfold reuseExistingBacking
  rw [hreal]
  refine exec_tryCatch_ok ?_
  rw [Option.getD_some, exec_bind_ok (exec_truncateFile hopen w), exec_bind, exec_inFs]
  simp only [exec_updateSize hx]
  rfl

theorem exec_reuse_else {real : Str} (hreal : (w.fs.node x).realfile = some real)
    (hopen : ¬ Opens cfg 577 real) :
    exec (reuseExistingBacking cfg outfile (w.fs.node x) false) w = (.ok none, w) := by
  unfold reuseExistingBacking
  rw [hreal]
  obtain ⟨e, he⟩ := exec_truncateFile_else hopen w
  refine (exec_tryCatch_error (exec_bind_error he)).trans ?_
  rfl

/-! ### `_prepare_output_file` -/

/-- What a path that is not the root and not `/dev/null` is redirected to, if anything. -/
inductive Opened (cfg : Setup) (w : World) (outfile : Str) (append : Bool) : OutputFile → World → Prop
  | old {x : Ref} {real : Str} (hx : w.fs.getfile outfile = .ok (some x))
      (hreal : backing (w.fs.node x) = some real) (hown : cfg.contentsPath.isPrefixOf real = false) :
      Opened cfg w outfile append
        { virtual := String.ofList outfile, real := String.ofList real
          startSize := if append then (w.fs.node x).size else 0 }
        (if append then w else truncated w x real)
  | new {r : Option Ref} {d : Ref} {g : HoneyPotFilesystem} {n : Node}
      (hr : w.fs.getfile outfile = .ok r) (hneeds : needsNewBacking cfg (r.map w.fs.node) = true)
      (hd : w.fs.getPath (dirname outfile) = .ok d) (hg : Replaced w.fs g d n)
      (hname : n.name = basename outfile) (hsize : n.size = 0) :
      Opened cfg w outfile append
        { virtual := String.ofList outfile
          real := String.ofList (backingName cfg (w.stamps 0) outfile)
          startSize := if append then ((r.map w.fs.node).map Node.size).getD 0 else 0 }
        (created cfg outfile w g n)

/-- Neither the tree nor a file of the host has changed. -/
def Quiet (w v : World) : Prop := Untouched w.fs v.fs ∧ v.files = w.files

theorem Quiet.refl (w : World) : Quiet w w := ⟨Untouched.refl w.fs, rfl⟩

/-- No file is opened. An existing file is opened for appending unless it is `/dev/null`, or needs a new
backing and cannot be replaced. -/
structure Refused (cfg : Setup) (w : World) (outfile : Str) (append : Bool)
    (res : Except FsError Prepared) (v : World) : Prop where
  quiet : Quiet w v
  no_file : ∀ info, res ≠ .ok (.file info)
  why : ∀ r, w.fs.getfile outfile = .ok r → outfile ≠ "/dev/null".toList → append = true →
    needsNewBacking cfg (r.map w.fs.node) = true ∧ ∀ d, ¬ Creates w.fs outfile d

/-- A new backing can be made for what the path denotes: names are apart, it has no entries, there is
room for a new node, and the host opens the file. -/
structure Replaceable (cfg : Setup) (w : World) (outfile : Str) (r : Option Ref) : Prop where
  named : Named w.fs
  path : Splits outfile (dirname outfile) (basename outfile)
  plain : ∀ x, r = some x → w.fs.entries x = []
  room : w.fs.newcount ≤ 10000
  opens : Opens cfg 1089 (backingName cfg (w.stamps 0) outfile)

theorem exec_prepare_new (append : Bool) (start : Nat) (hr : w.fs.getfile outfile = .ok r)
    (hready : Replaceable cfg w outfile r) (hneeds : needsNewBacking cfg (r.map w.fs.node) = true)
    (hstart : start = if append then ((r.map w.fs.node).map Node.size).getD 0 else 0) :
    let m : RedirectM Prepared := do
      match ← createRedirectTarget cfg outfile with
      | .error message => pure (.failed (some message))
      | .ok safe => pure (.file
          { virtual := String.ofList outfile, real := String.ofList safe, startSize := start })
    (∃ info v, exec m w = (.ok (.file info), v) ∧ Opened cfg w outfile append info v) ∨
      Refused cfg w outfile append (exec m w).1 (exec m w).2 := by
  by_cases hd : ∃ d, Creates w.fs outfile d
  · obtain ⟨d, hd⟩ := hd
    obtain ⟨g, n, hg, hname, hsize, hexec⟩ :=
      exec_createRedirectTarget hready.named hready.path hr hready.plain hd hready.opens
    subst hstart
    exact .inl ⟨_, _, exec_bind_ok hexec, .new hr hneeds hd.2.2.1 hg hname hsize⟩
  · obtain ⟨g, hg, hstate, hnot⟩ :=
      exec_createRedirectTarget_else cfg hready.named hready.room (not_exists.mp hd)
    have hwhy : ∀ r', w.fs.getfile outfile = .ok r' → outfile ≠ "/dev/null".toList → append = true →
        needsNewBacking cfg (r'.map w.fs.node) = true ∧ ∀ d, ¬ Creates w.fs outfile d := by
      intro r' hr' _ _
      obtain rfl : r = r' := Except.ok.inj (hr.symm.trans hr')
      exact ⟨hneeds, not_exists.mp hd⟩
    refine .inr ?_
    rw [exec_bind]
    cases hexec : exec (createRedirectTarget cfg outfile) w with
    | mk res v =>
      rw [hexec] at hstate hnot
      simp only at hstate hnot
      subst hstate
      cases res with
      | error e => exact ⟨⟨hg, rfl⟩, nofun, hwhy⟩
      | ok res =>
        cases res with
        | error message => exact ⟨⟨hg, rfl⟩, nofun, hwhy⟩
        | ok safe => exact absurd rfl (hnot safe)

/-- **`_prepare_output_file`**: a file is opened, or nothing changes. -/
theorem exec_prepareOutputFile {target : Str} (append : Bool)
    (houtfile : resolve cfg.user target w.fs = .ok outfile)
    (hready : ∀ r, w.fs.getfile outfile = .ok r → needsNewBacking cfg (r.map w.fs.node) = true →
      outfile ≠ "/dev/null".toList → Replaceable cfg w outfile r) :
    (∃ info v, exec (prepareOutputFile cfg target append) w = (.ok (.file info), v) ∧
        Opened cfg w outfile append info v ∧ outfile ≠ "/dev/null".toList) ∨
      Refused cfg w outfile append (exec (prepareOutputFile cfg target append) w).1
        (exec (prepareOutputFile cfg target append) w).2 := by
  have hresolve : exec (query fun w : World => resolve cfg.user target w.fs) w = (.ok outfile, w) := by
    rw [exec_query, houtfile]
  unfold prepareOutputFile
  rw [exec_bind_ok hresolve, exec_bind, exec_query]
  cases hr : w.fs.getfile outfile with
  | error e =>
    refine .inr ⟨Quiet.refl w, nofun, fun r hr' => ?_⟩
    rw [hr] at hr'
    cases hr'
  | ok r =>
    simp only
    by_cases hnull : outfile = "/dev/null".toList
    · rw [if_pos hnull]
      exact .inr ⟨Quiet.refl w, nofun, fun _ _ hne => absurd hnull hne⟩
    rw [if_neg hnull, exec_get_bind]
    cases hneeds : needsNewBacking cfg (r.map w.fs.node) with
    | true =>
      have hnew := fun start =>
        exec_prepare_new append start hr (hready r hr hneeds hnull) hneeds
      cases r with
      | none =>
        rcases hnew 0 (by simp) with ⟨info, v, hexec, hopened⟩ | hquiet
        · exact .inl ⟨info, v, hexec, hopened, hnull⟩
        · exact .inr hquiet
      | some x =>
        rcases hnew (if append then (w.fs.node x).size else 0) rfl with ⟨info, v, hexec, hopened⟩ | hquiet
        · exact .inl ⟨info, v, hexec, hopened, hnull⟩
        · exact .inr hquiet
    | false =>
      cases r with
      | none => cases hneeds
      | some x =>
        cases hreal : backing (w.fs.node x) with
        | none =>
          unfold needsNewBacking at hneeds
          simp [hreal] at hneeds
        | some real =>
          have hown : cfg.contentsPath.isPrefixOf real = false := by
            simpa [needsNewBacking, hreal] using hneeds
          have hreal' := (realfile_of_backing hreal).1
          simp only [Option.map_some]
          cases append with
          | true =>
            rw [exec_bind_ok (exec_reuse_append hreal')]
            exact .inl ⟨_, _, rfl, .old hr hreal hown, hnull⟩
          | false =>
            by_cases hopen : Opens cfg 577 real
            · rw [exec_bind_ok (exec_reuse_truncate hr hreal' hopen)]
              exact .inl ⟨_, _, rfl, .old hr hreal hown, hnull⟩
            · rw [exec_bind_ok (exec_reuse_else hreal' hopen)]
              exact .inr ⟨Quiet.refl w, nofun, nofun⟩

end Specs

end Cowrie.Shell.Redirect
