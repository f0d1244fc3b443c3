import Cowrie.Shell.Captured
import Cowrie.Shell.RedirectAppend
import Cowrie.Shell.RedirectLimit

/-!
# Downloads with a limit (`src/cowrie/commands/wget.py:472-567`, `curl.py:379-437`, `shell/command.py:86-110`)

`collect` gets the chunks of the body, and `collectioncomplete` is called after the last one. The chunk that exceeds
the limit makes the command exit, but nothing stops the chunks after it and `collectioncomplete`: what was written
before is stored, and the command exits again.

* `run` is the whole of it. An exception ends the callback that raises it, and is noted in `raised`.
* `save` is what `collectioncomplete` does to the files; after the writes it is `Artifacts.download`.
* **`handled_iff_suits`**: a download is handled as it should be iff it `Suits`, for both commands and any chunks.
  `not_handled`: beyond the limit it never is.

Left out: headers, output, the shell that goes on after `exit`, `redirFiles` and `processEnded`.
-/

namespace Cowrie.Shell.Fetch

open Cowrie.Lib Fs Heap HoneyPotFilesystem Redirect SftpUpload Artifacts

variable (sv : Server)

/-! ## Commands -/

inductive Tool
  | wget
  | curl
  deriving DecidableEq, Repr

/-- A transfer to a file. -/
structure Transfer where
  tool : Tool
  /-- The identity of the command. -/
  command : Nat
  /-- What `tempfile` chooses. -/
  random : Str
  random_word : ∀ c ∈ random, c.isAlphanum ∨ c = '_'
  outfile : Str
  /-- It comes from `resolve_path`. -/
  outfile_normal : Normal outfile
  not_root : outfile ≠ ['/']
  /-- As the response has it, 0 if it does not. -/
  totallength : Nat
  limitSize : Nat

structure Chunk where
  data : Bytes
  /-- `time.time() - self.started`. -/
  elapsed : ℚ

inductive Raised
  | files (e : FsError)
  | valueError
  | zeroDivisionError
  deriving DecidableEq, Repr

structure State where
  world : World
  /-- The identities of what is on the stack. -/
  cmdstack : List Nat
  currentlength : Nat := 0
  /-- The calls of `exit` (ghost). -/
  exits : Nat := 0
  /-- The exceptions of the callbacks (ghost). -/
  raised : List Raised := []

def State.raise (s : State) (e : Raised) : State := { s with raised := s.raised ++ [e] }

variable (t : Transfer)

namespace Transfer

/-- The download that it amounts to. -/
def download (data : Bytes) : Download where
  random := t.random
  random_word := t.random_word
  data := data
  currentlength := data.length
  outfile := t.outfile

/-- The name of the temporary file. -/
def temp : Str := (t.download []).temp sv

/-- `exit` of `HoneyPotCommand`. -/
def exit (s : State) : State :=
  let s := { s with exits := s.exits + 1 }
  if s.cmdstack = [] then s
  else if t.command ∈ s.cmdstack then { s with cmdstack := s.cmdstack.erase t.command }
  else s.raise .valueError

/-- `wget` divides by the time that has passed, and by the speed if the length is known. -/
def divides (currentlength : Nat) (elapsed : ℚ) : Bool :=
  t.tool = .wget && (elapsed = 0 || t.totallength ≠ 0 && currentlength = 0)

def collect (s : State) (c : Chunk) : State :=
  let s := { s with currentlength := s.currentlength + c.data.length }
  if 0 < t.limitSize ∧ t.limitSize < s.currentlength then t.exit s
  else
    let temp := t.temp sv
    let s := { s with world := withFile s.world temp ((s.world.files temp).getD [] ++ c.data) }
    if t.divides s.currentlength c.elapsed then s.raise .zeroDivisionError else s

/-- The artifact and the virtual file; 33188 is `S_IFREG` with `rw-r--r--`. -/
def save (currentlength : Nat) : RedirectM Unit := do
  let shasumFilename ← closeArtifact sv (t.temp sv)
  when (t.outfile ≠ []) do
    let _ ← inFs (mkfile t.outfile sv.setup.user.uid sv.setup.user.gid currentlength 33188)
    match ← query fun w => w.fs.getfile t.outfile with
    | none => throw .typeError
    | some x => updateRealfile sv x shasumFilename

def collectioncomplete (s : State) : State :=
  match exec (t.save sv s.currentlength) s.world with
  | (.ok _, w) => t.exit { s with world := w }
  | (.error e, w) => { s with world := w }.raise (.files e)

/-- `Artifact(label)`. -/
def start (w : World) (cmdstack : List Nat) : State where
  world := withFile w (t.temp sv) []
  cmdstack := cmdstack

def run (w : World) (cmdstack : List Nat) (chunks : List Chunk) : State :=
  t.collectioncomplete sv (chunks.foldl (t.collect sv) (t.start sv w cmdstack))

end Transfer

/-- The chunks, one behind another. -/
def body (chunks : List Chunk) : Bytes := (chunks.map Chunk.data).flatten

/-! ## What is asked for -/

/-- The artifact and the virtual file have the contents `data`, and the file has their size. -/
structure Saved (v : World) (data : Bytes) : Prop where
  artifact : v.files (shasumFilename sv data) = some data
  contents : fileContents sv.setup v t.outfile = .ok data
  size : ∃ x, v.fs.getfile t.outfile = .ok (some x) ∧ (v.fs.node x).size = data.length

/-- The command exits once, and only that command leaves the stack. Within the limit `data` is saved; beyond it
nothing is raised, and no file of the host and no virtual file is there that was not there in `w`. -/
def Handled (w : World) (cmdstack : List Nat) (s : State) (data : Bytes) : Prop :=
  s.exits = 1 ∧ s.cmdstack = cmdstack.erase t.command ∧
    if data.length ≤ t.limitSize then Saved sv t s.world data
    else s.raised = [] ∧ (∀ path, (s.world.files path).isSome → (w.files path).isSome) ∧
      ∀ x, s.world.fs.getfile t.outfile = .ok (some x) → w.fs.getfile t.outfile = .ok (some x)

/-- Before the transfer: the command is on the stack, the temporary file is new, and what is at the place of the
virtual file has no entries. -/
structure Ready (w : World) (cmdstack : List Nat) : Prop where
  running : t.command ∈ cmdstack
  fresh : w.files (t.temp sv) = none
  named : Named w.fs
  limit_pos : 0 < w.fs.limit
  plain : ∀ d y, w.fs.getPath (dirname t.outfile) = .ok d →
    Replaced.Before w.fs d (basename t.outfile) y → w.fs.entries y = []

/-- A node with the artifact for its real file, if it has none and is not too large. -/
def backed (data : Bytes) (n : Node) : Node :=
  { n with realfile := if data = [] then n.realfile else firstBacking n.realfile n.size (shasumFilename sv data) }

/-- A node of the right size, and with the artifact of the right contents. -/
def Fits (w : World) (data : Bytes) (n : Node) : Prop :=
  n.size = data.length ∧
    contentsOf sv.setup (Function.update w.files (shasumFilename sv data) (some data)) (backed sv data n) = .ok data

/-- The body is within the limit; the name of the artifact stands for the body, or is free and the body is not
empty; and `mkfile` makes a file that is not too large for a real file, or does nothing where there is one that
fits. -/
def Suits (w : World) (data : Bytes) : Prop :=
  data.length ≤ t.limitSize ∧
    (w.files (shasumFilename sv data) = some data ∨ data ≠ [] ∧ w.files (shasumFilename sv data) = none) ∧
    if w.fs.newcount ≤ 10000 then
      data.length < 25000000 ∧
        ∃ d, Creates w.fs t.outfile d ∧ w.fs.getfile (dirname t.outfile) = .ok (some d)
    else ∃ x, w.fs.getfile t.outfile = .ok (some x) ∧ Fits sv w data (w.fs.node x)

variable {sv t} {w v : World} {s : State} {data : Bytes} {chunks : List Chunk} {cmdstack : List Nat} {x : Ref}
  {g : HoneyPotFilesystem}

/-! ## The chunks -/

theorem exit_exits (t : Transfer) (s : State) : (t.exit s).exits = s.exits + 1 := by
  unfold Transfer.exit
  simp only
  split_ifs <;> rfl

/-- A command that is on the stack is taken off. -/
theorem exit_of_mem (h : t.command ∈ s.cmdstack) :
    t.exit s = { s with exits := s.exits + 1, cmdstack := s.cmdstack.erase t.command } := by
  unfold Transfer.exit
  simp only
  rw [if_neg (List.ne_nil_of_mem h), if_pos h]

theorem exits_le_collect (sv : Server) (t : Transfer) (s : State) (c : Chunk) :
    s.exits ≤ (t.collect sv s c).exits := by
  unfold Transfer.collect
  simp only
  split_ifs
  · rw [exit_exits]
    exact Nat.le_succ _
  · exact le_rfl
  · exact le_rfl

theorem exits_le_foldl (sv : Server) (t : Transfer) (s : State) (chunks : List Chunk) :
    s.exits ≤ (chunks.foldl (t.collect sv) s).exits := by
  induction chunks generalizing s with
  | nil => exact le_rfl
  | cons c chunks ih => exact (exits_le_collect sv t s c).trans (ih _)

theorem body_cons (c : Chunk) (chunks : List Chunk) : body (c :: chunks) = c.data ++ body chunks := rfl

/-- A chunk within the limit is written. -/
theorem collect_within (hfile : s.world.files (t.temp sv) = some data) {c : Chunk}
    (h : s.currentlength + c.data.length ≤ t.limitSize) :
    ∃ raised, t.collect sv s c = { s with
      world := withFile s.world (t.temp sv) (data ++ c.data)
      currentlength := s.currentlength + c.data.length
      raised := raised } := by
  unfold Transfer.collect
  simp only
  rw [if_neg (by omega), hfile]
  split_ifs
  · exact ⟨_, rfl⟩
  · exact ⟨_, rfl⟩

/-- **Within the limit** the chunks are written one behind another. -/
theorem foldl_within (chunks : List Chunk) (hfile : s.world.files (t.temp sv) = some data)
    (h : s.currentlength + (body chunks).length ≤ t.limitSize) :
    ∃ raised, chunks.foldl (t.collect sv) s = { s with
      world := withFile s.world (t.temp sv) (data ++ body chunks)
      currentlength := s.currentlength + (body chunks).length
      raised := raised } := by
  induction chunks generalizing s data with
  | nil =>
    have hsame : withFile s.world (t.temp sv) data = s.world := by
      unfold withFile
      rw [← hfile, Function.update_eq_self]
    refine ⟨s.raised, ?_⟩
    simp [body, hsame]
  | cons c chunks ih =>
    rw [body_cons, List.length_append] at h
    obtain ⟨raised, hone⟩ := collect_within hfile (c := c) (by omega)
    have hthere : (t.collect sv s c).world.files (t.temp sv) = some (data ++ c.data) := by
      rw [hone]
      exact Function.update_self _ _ _
    have hlength : (t.collect sv s c).currentlength = s.currentlength + c.data.length := by rw [hone]
    obtain ⟨raised', hrest⟩ := ih hthere (by rw [hlength]; omega)
    refine ⟨raised', ?_⟩
    rw [List.foldl_cons, hrest, hone, body_cons]
    simp only [List.append_assoc, List.length_append, Nat.add_assoc, withFile, Function.update_idem]

/-- **Beyond the limit** the command exits before the end. -/
theorem foldl_exceeded (sv : Server) (hlimit : 0 < t.limitSize) (s : State) (chunks : List Chunk)
    (hstart : s.currentlength ≤ t.limitSize) (h : t.limitSize < s.currentlength + (body chunks).length) :
    1 ≤ (chunks.foldl (t.collect sv) s).exits := by
  induction chunks generalizing s with
  | nil =>
    simp only [body, List.map_nil, List.flatten_nil, List.length_nil] at h
    omega
  | cons c chunks ih =>
    rw [List.foldl_cons]
    rw [body_cons, List.length_append] at h
    by_cases hover : t.limitSize < s.currentlength + c.data.length
    · have hexit : 1 ≤ (t.collect sv s c).exits := by
        unfold Transfer.collect
        simp only
        rw [if_pos ⟨hlimit, hover⟩, exit_exits]
        exact Nat.le_add_left 1 _
      exact hexit.trans (exits_le_foldl sv t _ chunks)
    · have hlength : (t.collect sv s c).currentlength = s.currentlength + c.data.length := by
        unfold Transfer.collect
        simp only
        rw [if_neg fun hboth => hover hboth.2]
        split_ifs <;> rfl
      exact ih _ (by rw [hlength]; omega) (by rw [hlength]; omega)

/-- `collectioncomplete` exits, or raises. -/
theorem collectioncomplete_cases (sv : Server) (t : Transfer) (s : State) :
    (t.collectioncomplete sv s).exits = s.exits + 1 ∨
      (t.collectioncomplete sv s).exits = s.exits ∧ (t.collectioncomplete sv s).raised ≠ [] := by
  unfold Transfer.collectioncomplete
  split
  · exact .inl (exit_exits t _)
  · exact .inr ⟨rfl, by simp [State.raise]⟩

/-- **Beyond the limit** no download is handled as it should be. -/
theorem not_handled (sv : Server) (t : Transfer) (w : World) (cmdstack : List Nat) (chunks : List Chunk)
    (hlimit : 0 < t.limitSize) (h : t.limitSize < (body chunks).length) :
    ¬ Handled sv t w cmdstack (t.run sv w cmdstack chunks) (body chunks) := by
  have hexits := foldl_exceeded sv hlimit (t.start sv w cmdstack) chunks (Nat.zero_le _)
    (by change t.limitSize < 0 + _; omega)
  rintro ⟨hone, -, hrest⟩
  rw [if_neg (by omega)] at hrest
  have hend := collectioncomplete_cases sv t (chunks.foldl (t.collect sv) (t.start sv w cmdstack))
  rcases hend with htwice | ⟨-, hraised⟩
  · unfold Transfer.run at hone
    omega
  · exact hraised hrest.1

/-! ## The artifact -/

theorem shasumFilename_ne_temp (sv : Server) (t : Transfer) (data : Bytes) :
    shasumFilename sv data ≠ t.temp sv :=
  Digest.ne ⟨data, .inl rfl⟩ (temp_not_digest (t.download []))

/-- The files after `close`: the artifact is there, unless it is empty. -/
def kept (sv : Server) (files : Str → Option Bytes) (data : Bytes) : Str → Option Bytes :=
  if data = [] ∨ (files (shasumFilename sv data)).isSome then files
  else Function.update files (shasumFilename sv data) (some data)

theorem storedUnlessEmpty_temp (hfresh : w.files (t.temp sv) = none) (data : Bytes) :
    storedUnlessEmpty sv (withFile w (t.temp sv) data).files (t.temp sv) = kept sv w.files data := by
  have hname := shasumFilename_ne_temp sv t data
  have hrest : Function.update (withFile w (t.temp sv) data).files (t.temp sv) none = w.files := by
    unfold withFile
    rw [Function.update_idem, ← hfresh, Function.update_eq_self]
  have hfile : (withFile w (t.temp sv) data).files (t.temp sv) = some data := Function.update_self _ _ _
  have hother : (withFile w (t.temp sv) data).files (shasumFilename sv data) = w.files (shasumFilename sv data) :=
    Function.update_of_ne hname _ _
  unfold storedUnlessEmpty kept
  by_cases hempty : data = []
  · rw [if_pos (hfile.trans (congrArg some hempty)), if_pos (.inl hempty), hrest]
  · rw [if_neg fun heq => hempty (Option.some.inj (hfile.symm.trans heq))]
    unfold stored
    rw [hfile]
    simp only
    unfold moved
    rw [hrest, hother]
    simp [hempty]

theorem exec_closeArtifact (hfresh : w.files (t.temp sv) = none) (data : Bytes) :
    exec (closeArtifact sv (t.temp sv)) (withFile w (t.temp sv) data) =
      (.ok (if data = [] then [] else shasumFilename sv data), { w with files := kept sv w.files data }) := by
  have hread : exec (readHostfile (t.temp sv)) (withFile w (t.temp sv) data) =
      (.ok data, withFile w (t.temp sv) data) := by
    unfold readHostfile
    rw [exec_query]
    simp [withFile]
  unfold closeArtifact
  rw [exec_bind_ok hread, exec_modify_bind, storedUnlessEmpty_temp hfresh]
  rfl

theorem kept_name (sv : Server) (files : Str → Option Bytes) (data : Bytes) :
    kept sv files data (shasumFilename sv data) = some data ↔
      files (shasumFilename sv data) = some data ∨ data ≠ [] ∧ files (shasumFilename sv data) = none := by
  unfold kept
  by_cases hthere : (files (shasumFilename sv data)).isSome
  · have hsome : files (shasumFilename sv data) ≠ none := Option.isSome_iff_ne_none.mp hthere
    simp [hthere, hsome]
  · have hnone : files (shasumFilename sv data) = none := Option.not_isSome_iff_eq_none.mp hthere
    by_cases hempty : data = []
    · rw [if_pos (.inl hempty), hnone]
      simp [hempty]
    · simp [hempty, hnone]

/-- With the artifact in its place, the files are as they were but for it. -/
theorem kept_eq (h : kept sv w.files data (shasumFilename sv data) = some data) :
    kept sv w.files data = Function.update w.files (shasumFilename sv data) (some data) := by
  unfold kept at h ⊢
  split_ifs at h ⊢
  · rw [← h, Function.update_eq_self]
  · rfl

/-! ## The virtual file -/

theorem contentsOf_fields {cfg : Setup} {files : Str → Option Bytes} {n m : Node} (htype : n.type = m.type)
    (hbacking : backing n = backing m) (hcontents : n.contents = m.contents) (hsize : n.size = m.size)
    (hmode : n.mode = m.mode) : contentsOf cfg files n = contentsOf cfg files m := by
  unfold contentsOf
  rw [htype, hbacking, hcontents, hsize, hmode]

theorem contentsOf_edited {f g : HoneyPotFilesystem} {realfile realfile' : Option Str}
    (h : Edited f g x (f.node x).size realfile)
    (hbacking : backing { f.node x with realfile } = backing { f.node x with realfile := realfile' })
    (cfg : Setup) (files : Str → Option Bytes) :
    contentsOf cfg files (g.node x) = contentsOf cfg files { f.node x with realfile := realfile' } :=
  contentsOf_fields h.type ((backing_congr h.realfile).trans hbacking) h.contents h.size h.mode

@[simp] theorem backed_nil (sv : Server) (n : Node) : backed sv [] n = n := by
  unfold backed
  rw [if_pos rfl]

/-- `update_realfile` without a name leaves the contents of the node. -/
theorem exec_updateRealfile_nil (sv : Server) (v : World) (x : Ref) :
    ∃ g, exec (updateRealfile sv x []) v = (.ok (), { v with fs := g }) ∧
      SameShape v.fs.toHeap g.toHeap ∧ (g.node x).size = (v.fs.node x).size ∧
      ∀ files, contentsOf sv.setup files (g.node x) = contentsOf sv.setup files (v.fs.node x) := by
  by_cases hthere : (v.files []).isSome
  · obtain ⟨g, hexec, hedit⟩ := exec_updateRealfile sv x hthere
    refine ⟨g, hexec, hedit.shape, hedit.size, contentsOf_edited hedit ?_ sv.setup⟩
    unfold firstBacking
    split_ifs with hfirst
    · exact (backing_eq_none.mpr hfirst.1).symm
    · rfl
  · have hfree := exec_updateRealfile_free sv (Option.not_isSome_iff_eq_none.mp hthere) x
    exact ⟨v.fs, hfree, SameShape.refl _, rfl, fun _ => rfl⟩

/-- `update_realfile` with the artifact, or without a name if there is none. -/
theorem exec_updateRealfile_kept (hv : v.files = kept sv w.files data) (x : Ref) :
    ∃ g, exec (updateRealfile sv x (if data = [] then [] else shasumFilename sv data)) v =
        (.ok (), { v with fs := g }) ∧
      SameShape v.fs.toHeap g.toHeap ∧ (g.node x).size = (v.fs.node x).size ∧
      ∀ files, contentsOf sv.setup files (g.node x) = contentsOf sv.setup files (backed sv data (v.fs.node x)) := by
  by_cases hempty : data = []
  · subst hempty
    rw [if_pos rfl, backed_nil]
    exact exec_updateRealfile_nil sv v x
  · rw [if_neg hempty]
    have hthere : (v.files (shasumFilename sv data)).isSome := by
      rw [hv]
      unfold kept
      split_ifs with hkept
      · exact hkept.resolve_left hempty
      · simp
    obtain ⟨g, hexec, hedit⟩ := exec_updateRealfile sv x hthere
    refine ⟨g, hexec, hedit.shape, hedit.size, ?_⟩
    unfold backed
    rw [if_neg hempty]
    exact contentsOf_edited hedit rfl sv.setup

/-- What `mkfile` does. -/
def made (sv : Server) (t : Transfer) (w : World) (size : Nat) : Except FsError Bool × HoneyPotFilesystem :=
  exec (mkfile t.outfile sv.setup.user.uid sv.setup.user.gid size 33188) w.fs

theorem outfile_ne_nil (t : Transfer) : t.outfile ≠ [] := by
  obtain ⟨pieces, hpieces, -⟩ := t.outfile_normal
  rw [hpieces]
  exact List.cons_ne_nil _ _

/-- `save`, from `mkfile` on. -/
theorem exec_save (hfresh : w.files (t.temp sv) = none) (data : Bytes) :
    exec (t.save sv data.length) (withFile w (t.temp sv) data) =
      exec (do
        let _ ← inFs (mkfile t.outfile sv.setup.user.uid sv.setup.user.gid data.length 33188)
        match ← query fun w => w.fs.getfile t.outfile with
        | none => throw .typeError
        | some x => updateRealfile sv x (if data = [] then [] else shasumFilename sv data))
        { w with files := kept sv w.files data } := by
  unfold Transfer.save
  rw [exec_bind_ok (exec_closeArtifact hfresh data), when_true (outfile_ne_nil t)]

/-- What `mkfile` does. -/
theorem exec_made {files : Str → Option Bytes} {size : Nat} {r : Except FsError Bool}
    (hmade : made sv t w size = (r, g)) :
    exec (inFs (mkfile t.outfile sv.setup.user.uid sv.setup.user.gid size 33188)) { w with files } =
      (r, { w with fs := g, files }) := by
  unfold made at hmade
  rw [exec_inFs, hmade]

/-- **`save` goes through** where a node is found. -/
theorem exec_save_found (hfresh : w.files (t.temp sv) = none) (data : Bytes) {b : Bool}
    (hmade : made sv t w data.length = (.ok b, g)) (hx : g.getfile t.outfile = .ok (some x)) :
    ∃ v, exec (t.save sv data.length) (withFile w (t.temp sv) data) = (.ok (), v) ∧
      v.files = kept sv w.files data ∧ v.fs.getfile t.outfile = .ok (some x) ∧
      (v.fs.node x).size = (g.node x).size ∧
      ∀ files, contentsOf sv.setup files (v.fs.node x) = contentsOf sv.setup files (backed sv data (g.node x)) := by
  have hfiles : ({ w with fs := g, files := kept sv w.files data } : World).files = kept sv w.files data := rfl
  obtain ⟨g', hexec, hshape, hsize, hcontents⟩ := exec_updateRealfile_kept hfiles x
  refine ⟨{ w with fs := g', files := kept sv w.files data }, ?_, rfl, ?_, hsize, hcontents⟩
  · rw [exec_save hfresh data, exec_bind_ok (exec_made hmade), exec_bind_ok (exec_getfile (by exact hx))]
    exact hexec
  · rw [hshape.getfile]
    exact hx

/-- `save` raises where none is. -/
theorem exec_save_missing (hfresh : w.files (t.temp sv) = none) (data : Bytes) {b : Bool}
    (hmade : made sv t w data.length = (.ok b, g)) (hnone : ∀ x, g.getfile t.outfile ≠ .ok (some x)) :
    ∃ e v, exec (t.save sv data.length) (withFile w (t.temp sv) data) = (.error e, v) := by
  rw [exec_save hfresh data, exec_bind_ok (exec_made hmade), exec_bind, exec_query]
  simp only
  cases hfound : g.getfile t.outfile with
  | error e => exact ⟨e, _, rfl⟩
  | ok r =>
    cases r with
    | none => exact ⟨_, _, rfl⟩
    | some x => exact absurd hfound (hnone x)

/-- `save` raises where `mkfile` does. -/
theorem exec_save_raised (hfresh : w.files (t.temp sv) = none) (data : Bytes) {e : FsError}
    (hmade : made sv t w data.length = (.error e, g)) :
    ∃ v, exec (t.save sv data.length) (withFile w (t.temp sv) data) = (.error e, v) := by
  rw [exec_save hfresh data, exec_bind_error (exec_made hmade)]
  exact ⟨_, rfl⟩

theorem saved_iff {n : Node} (hfiles : v.files = kept sv w.files data) (hx : v.fs.getfile t.outfile = .ok (some x))
    (hsize : (v.fs.node x).size = n.size)
    (hcontents : ∀ files, contentsOf sv.setup files (v.fs.node x) = contentsOf sv.setup files (backed sv data n)) :
    Saved sv t v data ↔
      (w.files (shasumFilename sv data) = some data ∨ data ≠ [] ∧ w.files (shasumFilename sv data) = none) ∧
        Fits sv w data n := by
  have hread : fileContents sv.setup v t.outfile = contentsOf sv.setup (kept sv w.files data) (backed sv data n) := by
    rw [fileContents_normal t.outfile_normal, hx]
    simp only
    rw [hcontents, hfiles]
  rw [← kept_name]
  constructor
  · rintro ⟨hartifact, hdata, y, hy, hlength⟩
    obtain rfl : x = y := Option.some.inj (Except.ok.inj (hx.symm.trans hy))
    rw [hfiles] at hartifact
    rw [hread, kept_eq hartifact] at hdata
    exact ⟨hartifact, hsize.symm.trans hlength, hdata⟩
  · rintro ⟨hartifact, hlength, hdata⟩
    refine ⟨by rw [hfiles]; exact hartifact, ?_, x, hx, hsize.trans hlength⟩
    rw [hread, kept_eq hartifact]
    exact hdata

/-- A new file is backed by the artifact, if it is not too large. -/
theorem fits_new (w : World) {n : Node} (hdigest : sv.sha256 data ≠ []) (htype : n.type = .file)
    (hsize : n.size = data.length) (hmode : n.mode = 33188) (hcontents : n.contents = .list [])
    (hreal : n.realfile = none) : Fits sv w data n ↔ data.length < 25000000 := by
  have hexecutable : n.mode &&& 64 = 0 := by rw [hmode]; decide
  unfold Fits
  simp only [hsize, true_and]
  by_cases hempty : data = []
  · subst hempty
    have hnone : backing n = none := backing_eq_none.mpr (by rw [hreal]; rfl)
    rw [backed_nil, contentsOf_unbacked htype hnone hcontents hexecutable]
    simp
  · have hfirst : (backed sv data n).realfile =
        if data.length < 25000000 then some (shasumFilename sv data) else none := by
      unfold backed
      simp only
      rw [if_neg hempty, firstBacking_of_nil (by rw [hreal]; rfl), hsize, hreal]
    by_cases hsmall : data.length < 25000000
    · rw [if_pos hsmall] at hfirst
      have hbacking : backing (backed sv data n) = some (shasumFilename sv data) :=
        backing_some (pathJoin_ne_nil _ hdigest) hfirst
      rw [contentsOf_backing (n := backed sv data n) htype hbacking, Function.update_self]
      simp [hsmall]
    · rw [if_neg hsmall] at hfirst
      have hnone : backing (backed sv data n) = none := backing_eq_none.mpr (by rw [hfirst]; rfl)
      rw [contentsOf_unbacked (n := backed sv data n) htype hnone hcontents hexecutable]
      simp [hsmall, Ne.symm hempty]

/-! ## The end of a transfer -/

/-- Within the limit, all chunks have been written when `collectioncomplete` is called. -/
theorem run_within (sv : Server) (w : World) (cmdstack : List Nat) (h : (body chunks).length ≤ t.limitSize) :
    ∃ raised, t.run sv w cmdstack chunks = t.collectioncomplete sv {
      world := withFile w (t.temp sv) (body chunks)
      cmdstack := cmdstack
      currentlength := (body chunks).length
      raised := raised } := by
  have hfile : (t.start sv w cmdstack).world.files (t.temp sv) = some [] := Function.update_self _ _ _
  obtain ⟨raised, hall⟩ := foldl_within chunks hfile (by change 0 + _ ≤ _; omega)
  refine ⟨raised, ?_⟩
  unfold Transfer.run
  rw [hall]
  unfold Transfer.start withFile
  simp only [Function.update_idem, List.nil_append, Nat.zero_add]

theorem exit_world (t : Transfer) (s : State) : (t.exit s).world = s.world := by
  unfold Transfer.exit
  simp only
  split_ifs <;> rfl

/-- **Within the limit** a transfer leaves what the download does. -/
theorem world_within (sv : Server) (w : World) (cmdstack : List Nat) (h : (body chunks).length ≤ t.limitSize) :
    (t.run sv w cmdstack chunks).world = (exec (download sv (t.download (body chunks))) w).2 := by
  obtain ⟨raised, hrun⟩ := run_within sv w cmdstack h
  have hdownload : exec (download sv (t.download (body chunks))) w =
      exec (t.save sv (body chunks).length) (withFile w (t.temp sv) (body chunks)) := rfl
  rw [hrun, hdownload]
  unfold Transfer.collectioncomplete
  simp only
  cases hexec : exec (t.save sv (body chunks).length) (withFile w (t.temp sv) (body chunks)) with
  | mk r v =>
    cases r with
    | ok a => exact exit_world t _
    | error e => rfl

theorem handled_iff_saved (hrunning : t.command ∈ cmdstack) (h : (body chunks).length ≤ t.limitSize)
    (hexec : exec (t.save sv (body chunks).length) (withFile w (t.temp sv) (body chunks)) = (.ok (), v)) :
    Handled sv t w cmdstack (t.run sv w cmdstack chunks) (body chunks) ↔ Saved sv t v (body chunks) := by
  obtain ⟨raised, hrun⟩ := run_within sv w cmdstack h
  unfold Handled
  rw [if_pos h, hrun]
  unfold Transfer.collectioncomplete
  simp only
  rw [hexec]
  simp only
  rw [exit_of_mem (by exact hrunning)]
  simp

/-- Without an exit nothing is handled. -/
theorem not_handled_of_error {e : FsError} (h : (body chunks).length ≤ t.limitSize)
    (hexec : exec (t.save sv (body chunks).length) (withFile w (t.temp sv) (body chunks)) = (.error e, v)) :
    ¬ Handled sv t w cmdstack (t.run sv w cmdstack chunks) (body chunks) := by
  obtain ⟨raised, hrun⟩ := run_within sv w cmdstack h
  rintro ⟨hexits, -⟩
  rw [hrun] at hexits
  unfold Transfer.collectioncomplete at hexits
  simp only at hexits
  rw [hexec] at hexits
  cases hexits

/-- A body within the limit, with whatever `mkfile` leaves. -/
theorem handled_iff_fits (hready : Ready sv t w cmdstack) (h : (body chunks).length ≤ t.limitSize) {b : Bool}
    (hmade : made sv t w (body chunks).length = (.ok b, g)) :
    Handled sv t w cmdstack (t.run sv w cmdstack chunks) (body chunks) ↔
      (w.files (shasumFilename sv (body chunks)) = some (body chunks) ∨
        body chunks ≠ [] ∧ w.files (shasumFilename sv (body chunks)) = none) ∧
      ∃ x, g.getfile t.outfile = .ok (some x) ∧ Fits sv w (body chunks) (g.node x) := by
  by_cases hfound : ∃ x, g.getfile t.outfile = .ok (some x)
  · obtain ⟨x, hx⟩ := hfound
    obtain ⟨v, hexec, hfiles, hvx, hsize, hcontents⟩ := exec_save_found hready.fresh (body chunks) hmade hx
    rw [handled_iff_saved hready.running h hexec, saved_iff hfiles hvx hsize hcontents]
    refine and_congr_right fun _ => ⟨fun hfits => ⟨x, hx, hfits⟩, ?_⟩
    rintro ⟨y, hy, hfits⟩
    obtain rfl : x = y := Option.some.inj (Except.ok.inj (hx.symm.trans hy))
    exact hfits
  · obtain ⟨e, v, hexec⟩ := exec_save_missing hready.fresh (body chunks) hmade (not_exists.mp hfound)
    refine iff_of_false (not_handled_of_error h hexec) ?_
    rintro ⟨-, x, hx, -⟩
    exact hfound ⟨x, hx⟩

/-- **While files can be made**: the directory is found, and the file is not too large. -/
theorem handled_iff_creates (hready : Ready sv t w cmdstack) (hdigest : ∀ data, sv.sha256 data ≠ [])
    (h : (body chunks).length ≤ t.limitSize) (hcount : w.fs.newcount ≤ 10000) :
    Handled sv t w cmdstack (t.run sv w cmdstack chunks) (body chunks) ↔
      (w.files (shasumFilename sv (body chunks)) = some (body chunks) ∨
        body chunks ≠ [] ∧ w.files (shasumFilename sv (body chunks)) = none) ∧
      (body chunks).length < 25000000 ∧
      ∃ d, Creates w.fs t.outfile d ∧ w.fs.getfile (dirname t.outfile) = .ok (some d) := by
  have hsplits := t.outfile_normal.splits t.not_root
  by_cases hcreates : ∃ d, Creates w.fs t.outfile d
  · obtain ⟨d, hd⟩ := hcreates
    obtain ⟨g, n, hmade, hg, rfl⟩ := exec_mkfile_node sv.setup.user.uid sv.setup.user.gid (body chunks).length
      33188 hready.named hready.limit_pos hd
    rw [handled_iff_fits hready h hmade]
    refine and_congr_right fun _ => ⟨?_, ?_⟩
    · rintro ⟨x, hx, hfits⟩
      obtain ⟨rfl, hparent⟩ := hg.found_parent hready.named hsplits hd.2.2.1 hx
      rw [hg.at_new, fits_new w (hdigest _) rfl rfl rfl rfl rfl] at hfits
      exact ⟨hfits, d, hd, hparent⟩
    · rintro ⟨hsmall, d', hd', hparent⟩
      obtain rfl : d = d' := Except.ok.inj (hd.2.2.1.symm.trans hd'.2.2.1)
      refine ⟨_, hg.target_of_parent hready.named hsplits hparent fun y => hready.plain d y hd.2.2.1, ?_⟩
      rw [hg.at_new, fits_new w (hdigest _) rfl rfl rfl rfl rfl]
      exact hsmall
  · obtain ⟨e, g, hmade, -⟩ := exec_mkfile_else sv.setup.user.uid sv.setup.user.gid (body chunks).length 33188
      hready.named hcount (not_exists.mp hcreates)
    obtain ⟨v, hexec⟩ := exec_save_raised hready.fresh (body chunks) hmade
    refine iff_of_false (not_handled_of_error h hexec) ?_
    rintro ⟨-, -, d, hd, -⟩
    exact hcreates ⟨d, hd⟩

/-- **A download is handled as it should be** iff it suits the limit, the files of the host and the virtual ones. -/
theorem handled_iff_suits (sv : Server) (t : Transfer) (w : World) (cmdstack : List Nat) (chunks : List Chunk)
    (hready : Ready sv t w cmdstack) (hdigest : ∀ data, sv.sha256 data ≠ []) (hlimit : 0 < t.limitSize) :
    Handled sv t w cmdstack (t.run sv w cmdstack chunks) (body chunks) ↔ Suits sv t w (body chunks) := by
  unfold Suits
  by_cases h : (body chunks).length ≤ t.limitSize
  · simp only [h, true_and]
    split_ifs with hcount
    · exact handled_iff_creates hready hdigest h hcount
    · exact handled_iff_fits hready h (exec_mkfile_limit (not_le.mp hcount))
  · exact iff_of_false (not_handled sv t w cmdstack chunks hlimit (not_le.mp h)) fun hsuits => h hsuits.1


/-! ## One byte, with a limit of one byte -/

/-- `wget -O /tmp/f`, of a body of unknown length. -/
def limited : Transfer where
  tool := .wget
  command := 1
  random := oneByte.random
  random_word := oneByte.random_word
  outfile := ['/', 't', 'm', 'p', '/', 'f']
  outfile_normal := ⟨[['t', 'm', 'p'], ['f']], rfl, by simp [Pieces], by simp⟩
  not_root := by simp
  totallength := 0
  limitSize := 1

/-- The shell has the identity 0. -/
theorem limited_ready : Ready capturing limited demoWorld [1, 0] where
  running := List.mem_cons_self
  fresh := rfl
  named := smallFs_wellFormed.named rfl
  limit_pos := by decide
  plain d y hd hy := by
    obtain rfl : 1 = d := Except.ok.inj hd
    obtain ⟨depth, -, hhop⟩ := hy
    cases hhop

theorem twoDigests_ne_nil (data : Bytes) : capturing.sha256 data ≠ [] := by
  change twoDigests data ≠ []
  unfold twoDigests
  split_ifs
  · decide
  · decide

theorem handled_oneByte :
    Handled capturing limited demoWorld [1, 0] (limited.run capturing demoWorld [1, 0] [⟨[1], 2⟩]) [1] := by
  refine (handled_iff_suits capturing limited demoWorld [1, 0] [⟨[1], 2⟩] limited_ready twoDigests_ne_nil
    (by decide)).mpr ⟨le_rfl, .inr ⟨List.cons_ne_nil _ _, rfl⟩, ?_⟩
  rw [if_pos (by decide)]
  exact ⟨by decide, 1, ⟨by decide, by decide, rfl, [], rfl⟩, rfl⟩

/-- A second byte: the command exits twice, and the first byte is an artifact. -/
theorem not_handled_twoBytes :
    let s := limited.run capturing demoWorld [1, 0] [⟨[1], 2⟩, ⟨[2], 3⟩]
    s.exits = 2 ∧ s.raised = [.valueError] ∧ s.world.files (shasumFilename capturing [1]) = some [1] ∧
      ¬ Handled capturing limited demoWorld [1, 0] s [1, 2] := by
  have hexits : (limited.run capturing demoWorld [1, 0] [⟨[1], 2⟩, ⟨[2], 3⟩]).exits = 2 := rfl
  refine ⟨hexits, rfl, rfl, ?_⟩
  rintro ⟨hone, -⟩
  rw [hexits] at hone
  cases hone

end Cowrie.Shell.Fetch
