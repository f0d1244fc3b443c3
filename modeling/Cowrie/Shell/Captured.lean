import Cowrie.Shell.Artifacts

/-!
# Captured files of a session (`src/cowrie/insults/insults.py:131-196`, `src/cowrie/shell/pipe.py:64-226`)

The nodes of the virtual file system go on pointing at the captured files, and a redirection writes to them.

* `Session`: the protocol of the shell with its redirections, the log of standard input, and, as ghost state, the
  names that were given so far. `Event` is one step of it; a pipeline is built from its last stage on.
* `redirFiles` is a set: `connectionLost` takes it in any order, and may be called more than once.

* **`immutable_of_guarded`**: in a session that redirects nothing to a file with the name of a digest, every name
  that was given keeps its contents.
* `immutable_violated`: one byte is downloaded to `/tmp/f`, then `>f`.

Left out: the TTY log, which is in another directory; what `<` reads; the limit on received data; other spellings
of the path of a file of the host; log messages.
-/

namespace Cowrie.Shell.Artifacts

open Cowrie.Lib Fs Heap HoneyPotFilesystem Redirect SftpUpload

variable (sv : Server)

/-! ## Sessions -/

structure Session where
  shell : Protocol World
  stdinlogOpen : Bool
  /-- The second in which the session began. -/
  started : Str
  /-- The names that were given. -/
  given : Str → Prop := fun _ => False

def stdinlogFile (s : Session) : Str :=
  sv.setup.host.downloadPath ++ '/' :: s.started ++ '-' :: sv.setup.transportId ++ '-' :: sv.setup.sessionId ++
    "-stdin.log".toList

inductive Event
  /-- A new pipeline: the stages of the last one are forgotten. -/
  | pipeline
  /-- A `PipeProtocol` with the descriptors that it has before its redirections, in front of the later stages. -/
  | stage (name : String) (cmd : Command World) (cmdargs : List String) (captured : Bool)
  /-- One turn of the loop of `_setup_redirections`. -/
  | redirect (op : RedirOp)
  | write (w : Write)
  /-- `HoneyPotCommand.exit`. -/
  | exit
  /-- The next stage is called. -/
  | next
  | download (d : Download)
  | upload (u : Upload)
  /-- `cp`, `mv`, `rm`, and other commands on the virtual file system. -/
  | fs (op : Op)
  /-- `dataReceived`, in a session with a command. -/
  | received (data : Bytes)
  /-- The order is that of a set. -/
  | connectionLost (order : List (String × String))

/-- The `PipeProtocol` of a new stage. -/
def newStage (name : String) (cmd : Command World) (cmdargs : List String) (captured : Bool)
    (rest : List (PipeProtocol World)) : PipeProtocol World :=
  { name, cmd, cmdargs, redirect := captured, targets := PipeProtocol.defaultTargets (rest ≠ []) captured }

/-- One redirection of the first stage. -/
def redirectOne (base : Env World) (op : RedirOp) : ShellM World Unit := do
  match (← get).pp with
  | [] => pure ()
  | pp :: rest =>
    let (pp, _) ← PipeProtocol.applyOps (sv.setup.env base) pp none [op]
    modify fun s => { s with pp := pp :: rest }

/-- What `exit` adds to `redirFiles`. -/
def redirectedBy (s : Protocol World) : List (String × String) :=
  match s.pp with
  | [] => []
  | pp :: _ => pp.redirectRealFiles

/-- The files after `connectionLost`. -/
def savedFiles (s : Session) (order : List (String × String)) (files : Str → Option Bytes) :
    Str → Option Bytes :=
  order.foldl (fun files rp => storedUnlessEmpty sv files rp.1.toList)
    (if s.stdinlogOpen then stored sv files (stdinlogFile sv s) else files)

/-- The protocol with another world. -/
def inWorld (s : Session) (w : World) : Session := { s with shell := { s.shell with world := w } }

/-- The names of digests that appeared from `w` to `v`. -/
def appearedIn (w v : World) (path : Str) : Prop :=
  Digest sv path ∧ w.files path = none ∧ (v.files path).isSome

/-- The session after a step in which names are given. -/
def giving (s : Session) (w : World) : Session :=
  { inWorld s w with given := fun path => s.given path ∨ appearedIn sv s.shell.world w path }

/-- One step; `tempfile` does not choose a name that exists. -/
def step (base : Env World) (s : Session) : Event → Option Session
  | .pipeline => some { s with shell := { s.shell with pp := [] } }
  | .stage name cmd cmdargs captured => some { s with shell := { s.shell with
      pp := newStage name cmd cmdargs captured s.shell.pp :: s.shell.pp } }
  | .redirect op => some { s with shell := (exec (redirectOne sv base op) s.shell).2 }
  | .write w => some { s with shell := (exec (write (sv.setup.env base) w) s.shell).2 }
  | .exit => some { s with shell := { s.shell with
      redirFiles := s.shell.redirFiles ++ redirectedBy s.shell } }
  | .next => some { s with shell := { s.shell with pp := s.shell.pp.tail } }
  | .download d =>
    if (s.shell.world.files (d.temp sv)).isSome then none
    else some (giving sv s (exec (download sv d) s.shell.world).2)
  | .upload u => some (giving sv s (exec (upload sv u) s.shell.world).2)
  | .fs op => some (inWorld s { s.shell.world with fs := op.apply s.shell.world.fs })
  | .received data =>
    some (if s.stdinlogOpen then inWorld s { s.shell.world with
        files := appended s.shell.world.files (stdinlogFile sv s) data } else s)
  | .connectionLost order =>
    if order.Perm s.shell.redirFiles.dedup then
      let t := giving sv s { s.shell.world with files := savedFiles sv s order s.shell.world.files }
      some { t with shell := { t.shell with redirFiles := [] }, stdinlogOpen := false }
    else none

/-! ## What is to be kept -/

/-- Every name that was given has the contents that it was given to. -/
def Immutable (s : Session) : Prop :=
  ∀ path, s.given path → ∃ data, s.shell.world.files path = some data ∧ NamedBy sv path data

/-- A redirection does not go to a file with the name of a digest. -/
def Guarded (s : Session) : Event → Prop
  | .redirect (.file _ target _) => GuardedTarget sv s.shell.world target.toList
  | _ => True

/-- A session that begins. -/
structure Fresh (s : Session) : Prop where
  pp : s.shell.pp = []
  redirFiles : s.shell.redirFiles = []
  given : ∀ path, ¬ s.given path

variable {sv} {base : Env World} {files files' : Str → Option Bytes} {w v : World}

theorem stdinlog_not_digest (s : Session) : ¬ Digest sv (stdinlogFile sv s) := by
  have hsplit : stdinlogFile sv s = (sv.setup.host.downloadPath ++ '/' :: s.started ++
      '-' :: sv.setup.transportId ++ '-' :: sv.setup.sessionId ++ "-stdin.".toList) ++ 'l' :: ['o', 'g'] := by
    simp [stdinlogFile]
  rw [hsplit]
  exact not_digest _ _ (by decide) (by decide)

theorem preserves_savedFiles (s : Session) {order : List (String × String)}
    (horder : ∀ rp ∈ order, ¬ Digest sv rp.1.toList) (files : Str → Option Bytes) :
    Preserves sv files (savedFiles sv s order files) := by
  have hloop : ∀ (order : List (String × String)) (files : Str → Option Bytes),
      (∀ rp ∈ order, ¬ Digest sv rp.1.toList) →
      Preserves sv files (order.foldl (fun files rp => storedUnlessEmpty sv files rp.1.toList) files) := by
    intro order
    induction order with
    | nil => exact fun files _ => Preserves.refl files
    | cons rp order ih =>
      intro files horder
      exact (preserves_storedUnlessEmpty files (horder rp List.mem_cons_self)).trans
        (ih _ fun rp' hrp' => horder rp' (List.mem_cons_of_mem rp hrp'))
  have hstdin : Preserves sv files (if s.stdinlogOpen then stored sv files (stdinlogFile sv s) else files) := by
    split_ifs
    · exact preserves_stored files (stdinlog_not_digest s)
    · exact Preserves.refl files
  exact hstdin.trans (hloop order _ horder)

/-! ## Stages -/

/-- A stage writes to no file with the name of a digest. -/
structure Clean (sv : Server) (pp : PipeProtocol World) : Prop where
  targets : ∀ fd info, pp.targets fd = some (.file info) → ¬ Digest sv info.real.toList
  redirected : ∀ file ∈ pp.redirectRealFiles, ¬ Digest sv file.1.toList

theorem Clean.congr {pp pp' : PipeProtocol World} (h : Clean sv pp) (htargets : pp'.targets = pp.targets)
    (hfiles : pp'.redirectRealFiles = pp.redirectRealFiles) : Clean sv pp' where
  targets fd info := htargets ▸ h.targets fd info
  redirected := hfiles ▸ h.redirected

/-- A descriptor that is no file with the name of a digest. -/
theorem Clean.update {pp pp' : PipeProtocol World} (h : Clean sv pp) {fd : Nat} {t : Target}
    (ht : ∀ info, t = .file info → ¬ Digest sv info.real.toList)
    (htargets : pp'.targets = Function.update pp.targets fd (some t))
    (hfiles : ∀ file ∈ pp'.redirectRealFiles, file ∈ pp.redirectRealFiles ∨
      ∃ info, t = .file info ∧ file.1 = info.real) : Clean sv pp' where
  targets fd' info htarget := by
    rw [htargets] at htarget
    by_cases hfd : fd' = fd
    · subst hfd
      rw [Function.update_self] at htarget
      exact ht info (Option.some.inj htarget)
    · rw [Function.update_of_ne hfd] at htarget
      exact h.targets fd' info htarget
  redirected file hfile := by
    rcases hfiles file hfile with hold | ⟨info, hinfo, hreal⟩
    · exact h.redirected file hold
    · rw [hreal]
      exact ht info hinfo

theorem defaultTargets_ne_file (hasNext redirect : Bool) (fd : Nat) (info : OutputFile) :
    PipeProtocol.defaultTargets hasNext redirect fd ≠ some (.file info) := by
  unfold PipeProtocol.defaultTargets
  split
  · rintro ⟨⟩
  · split_ifs <;> rintro ⟨⟩
  · rintro ⟨⟩
  · rintro ⟨⟩

theorem clean_newStage (name : String) (cmd : Command World) (cmdargs : List String) (captured : Bool)
    (rest : List (PipeProtocol World)) : Clean sv (newStage name cmd cmdargs captured rest) where
  targets fd info htarget := absurd htarget (defaultTargets_ne_file _ captured fd info)
  redirected _ hfile := absurd hfile List.not_mem_nil

/-- From clean stages to clean stages, with the digests kept. -/
def Safe (sv : Server) (s t : Protocol World) : Prop :=
  (∀ pp ∈ s.pp, Clean sv pp) → Preserves sv s.world.files t.world.files ∧ (∀ pp ∈ t.pp, Clean sv pp) ∧
    t.redirFiles = s.redirFiles

theorem Safe.refl (s : Protocol World) : Safe sv s s := fun h => ⟨Preserves.refl _, h, rfl⟩

theorem Safe.trans (s t u : Protocol World) (h : Safe sv s t) (h' : Safe sv t u) : Safe sv s u := by
  intro hs
  obtain ⟨hfiles, hclean, hredir⟩ := h hs
  obtain ⟨hfiles', hclean', hredir'⟩ := h' hclean
  exact ⟨hfiles.trans hfiles', hclean', hredir'.trans hredir⟩

/-- Nothing but the stages changes, and not where they write. -/
theorem safe_of_stages {s t : Protocol World} (hworld : t.world = s.world)
    (hredir : t.redirFiles = s.redirFiles)
    (hpp : (∀ pp ∈ s.pp, Clean sv pp) → ∀ pp ∈ t.pp, Clean sv pp) : Safe sv s t := by
  intro hs
  rw [hworld]
  exact ⟨Preserves.refl _, hpp hs, hredir⟩

theorem safe_modifyHead (edit : PipeProtocol World → PipeProtocol World)
    (hedit : ∀ pp, Clean sv pp → Clean sv (edit pp)) (s : Protocol World) : Safe sv s (modifyHead edit s) := by
  refine safe_of_stages rfl rfl fun hs => ?_
  unfold modifyHead
  cases hpp : s.pp with
  | nil => exact fun pp hmem => absurd hmem List.not_mem_nil
  | cons pp rest =>
    rw [hpp] at hs
    exact List.forall_mem_cons.mpr ⟨hedit pp (hs pp List.mem_cons_self), fun pp' hpp' =>
      hs pp' (List.mem_cons_of_mem pp hpp')⟩

theorem safe_pipeToNext (data : Bytes) (s : Protocol World) :
    Safe sv s { s with pp := pipeToNext data s.pp } := by
  refine safe_of_stages rfl rfl fun hs => ?_
  cases hpp : s.pp with
  | nil => exact fun pp hmem => absurd hmem List.not_mem_nil
  | cons pp rest =>
    rw [hpp] at hs
    cases rest with
    | nil => exact hs
    | cons next rest =>
      simp only [List.forall_mem_cons] at hs
      exact List.forall_mem_cons.mpr ⟨hs.1, List.forall_mem_cons.mpr ⟨hs.2.1.congr rfl rfl, hs.2.2⟩⟩

/-! ### Writes -/

theorem preserves_appendFile {v : World} {real : String} (hreal : ¬ Digest sv real.toList)
    (happend : (sv.setup.env base).appendFile w real data = some v) : Preserves sv w.files v.files := by
  have hkeep := keeping_appendFile hreal data w
  unfold Setup.env at happend
  simp only at happend
  cases hexec : exec (Redirect.appendFile sv.setup real.toList data) w with
  | mk r u =>
    rw [hexec] at happend hkeep
    cases r with
    | ok a =>
      obtain rfl := Option.some.inj happend
      exact hkeep
    | error e => cases happend

theorem safe_writeToFile {info : OutputFile} (hreal : ¬ Digest sv info.real.toList) (data : Bytes)
    (isStdout : Bool) (s : Protocol World) :
    Safe sv s (exec (writeToFile (sv.setup.env base) info data isStdout) s).2 := by
  unfold writeToFile
  rw [exec_get_bind]
  cases happend : (sv.setup.env base).appendFile s.world info.real data with
  | none => exact Safe.refl s
  | some v =>
    have hkept := preserves_appendFile hreal happend
    cases hpp : s.pp with
    | nil => exact Safe.refl s
    | cons pp rest =>
      intro hs
      rw [hpp] at hs
      obtain ⟨hpp', hrest⟩ := List.forall_mem_cons.mp hs
      refine ⟨hkept, List.forall_mem_cons.mpr ⟨?_, hrest⟩, rfl⟩
      unfold PipeProtocol.countWritten
      split_ifs
      · exact hpp'.congr rfl rfl
      · exact hpp'.congr rfl rfl

theorem safe_writeToFd (fd : Nat) (data : Bytes) (s : Protocol World) :
    Safe sv s (exec (writeToFd (sv.setup.env base) fd data) s).2 := by
  unfold writeToFd
  rw [exec_get_bind]
  cases hpp : s.pp with
  | nil => exact Safe.refl s
  | cons pp rest =>
    cases htarget : pp.targets fd with
    | none =>
      simp only [htarget]
      exact Safe.refl s
    | some t =>
      simp only [htarget]
      cases t with
      | terminal => exact safe_of_stages rfl rfl id
      | pipe => exact safe_pipeToNext data s
      | capture =>
        exact safe_modifyHead (fun pp => { pp with redirectedData := pp.redirectedData ++ data })
          (fun pp h => h.congr rfl rfl) s
      | file info =>
        intro hs
        have hclean : Clean sv pp := hs pp (by rw [hpp]; exact List.mem_cons_self)
        exact safe_writeToFile (hclean.targets fd info htarget) data _ s hs
      | stdin => exact Safe.refl s
      | fileInput target => exact Safe.refl s
      | devnull => exact Safe.refl s

theorem safe_write (w : Write) (s : Protocol World) :
    Safe sv s (exec (write (sv.setup.env base) w) s).2 := by
  cases w with
  | out data => exact safe_writeToFd 1 data s
  | err data =>
    unfold write
    rw [exec_modify_bind]
    exact Safe.trans _ _ _ (safe_modifyHead (fun pp => { pp with errData := pp.errData ++ data })
      (fun pp h => h.congr rfl rfl) s) (safe_writeToFd 2 data _)

/-! ### Redirections of a stage -/

/-- What a stage sees of `_prepare_output_file`. -/
theorem prepare_kept (base : Env World) {target : String} (append : Bool)
    (hguard : GuardedTarget sv w target.toList) :
    Preserves sv w.files ((sv.setup.env base).prepareOutputFile w target append).2.files ∧
      ∀ info, ((sv.setup.env base).prepareOutputFile w target append).1 = .file info →
        ¬ Digest sv info.real.toList := by
  have hprepared := keeps_prepareOutputFile append hguard
  unfold Keeps Ensures at hprepared
  unfold Setup.env
  simp only
  cases hexec : exec (prepareOutputFile sv.setup target.toList append) w with
  | mk r v =>
    rw [hexec] at hprepared
    cases r with
    | ok prepared => exact hprepared
    | error e => exact ⟨hprepared, by rintro info ⟨⟩⟩

theorem exec_openFile_clean (base : Env World) {pp : PipeProtocol World} (hclean : Clean sv pp) (fd : Nat)
    {target : String} (append : Bool) (s : Protocol World) (hguard : GuardedTarget sv s.world target.toList) :
    ∃ pp' t, exec (PipeProtocol.openFile (sv.setup.env base) pp fd target append) s = (.ok pp', t) ∧
      Clean sv pp' ∧ Preserves sv s.world.files t.world.files ∧ t.redirFiles = s.redirFiles := by
  obtain ⟨hkept, hfile⟩ := prepare_kept base append hguard
  unfold PipeProtocol.openFile
  rw [exec_get_bind, exec_modify_bind]
  cases hprepared : ((sv.setup.env base).prepareOutputFile s.world target append).1 with
  | devnull =>
    exact ⟨_, _, rfl, hclean.update (t := .devnull) (by rintro info ⟨⟩) rfl fun file hfile => .inl hfile, hkept, rfl⟩
  | failed message =>
    cases message with
    | none => exact ⟨_, _, rfl, hclean, hkept, rfl⟩
    | some message => exact ⟨_, _, rfl, hclean.congr rfl rfl, hkept, rfl⟩
  | file info =>
    refine ⟨_, _, rfl, hclean.update (t := .file info) (fun info' hinfo => ?_) rfl fun file hmem => ?_,
      hkept, rfl⟩
    · obtain rfl := Target.file.inj hinfo
      exact hfile info hprepared
    · rcases List.mem_append.mp hmem with hold | hnew
      · exact .inl hold
      · obtain rfl := List.mem_singleton.mp hnew
        exact .inr ⟨info, rfl, rfl⟩

theorem exec_applyOne (base : Env World) {pp : PipeProtocol World} (hclean : Clean sv pp) (op : RedirOp)
    (s : Protocol World)
    (hguard : ∀ fd target append, op = .file fd target append → GuardedTarget sv s.world target.toList) :
    ∃ pp' pending t, exec (PipeProtocol.applyOps (sv.setup.env base) pp none [op]) s =
        (.ok (pp', pending), t) ∧
      Clean sv pp' ∧ Preserves sv s.world.files t.world.files ∧ t.redirFiles = s.redirFiles := by
  cases op with
  | file fd target append =>
    obtain ⟨pp', t, hexec, hrest⟩ :=
      exec_openFile_clean base hclean fd append s (hguard fd target append rfl)
    refine ⟨pp', none, t, ?_, hrest⟩
    unfold PipeProtocol.applyOps
    rw [exec_bind_ok hexec]
    rfl
  | stdin fd target =>
    exact ⟨_, some target, s, rfl,
      hclean.update (t := .fileInput target) (by rintro info ⟨⟩) rfl fun file hfile => .inl hfile,
      Preserves.refl _, rfl⟩
  | dup fd target =>
    cases htarget : pp.targets target with
    | none =>
      refine ⟨pp, none, s, ?_, hclean, Preserves.refl _, rfl⟩
      unfold PipeProtocol.applyOps
      rw [htarget]
      rfl
    | some t =>
      refine ⟨{ pp with targets := Function.update pp.targets fd (some t) }, none, s, ?_, ?_,
        Preserves.refl _, rfl⟩
      · unfold PipeProtocol.applyOps
        rw [htarget]
        rfl
      · exact hclean.update (fun info hinfo => hclean.targets target info (hinfo ▸ htarget)) rfl
          fun file hfile => .inl hfile

/-- **One redirection.** -/
theorem safe_redirectOne (op : RedirOp) (s : Protocol World)
    (hguard : ∀ fd target append, op = .file fd target append → GuardedTarget sv s.world target.toList) :
    Safe sv s (exec (redirectOne sv base op) s).2 := by
  unfold redirectOne
  rw [exec_get_bind]
  cases hpp : s.pp with
  | nil => exact Safe.refl s
  | cons pp rest =>
    intro hs
    rw [hpp] at hs
    obtain ⟨hclean, hrest⟩ := List.forall_mem_cons.mp hs
    obtain ⟨pp', pending, t, hexec, hclean', hkept, hredir⟩ := exec_applyOne base hclean op s hguard
    simp only
    rw [exec_bind_ok hexec]
    exact ⟨hkept, List.forall_mem_cons.mpr ⟨hclean', hrest⟩, hredir⟩

/-! ## Sessions, step by step -/

/-- The names that were given have their contents, and nothing writes to a file with the name of a digest. -/
structure Sound (sv : Server) (s : Session) : Prop where
  immutable : Immutable sv s
  chain : ∀ pp ∈ s.shell.pp, Clean sv pp
  redirFiles : ∀ rp ∈ s.shell.redirFiles, ¬ Digest sv rp.1.toList

theorem Fresh.sound {s : Session} (h : Fresh s) : Sound sv s where
  immutable path hpath := absurd hpath (h.given path)
  chain := by
    rw [h.pp]
    exact fun pp hpp => absurd hpp List.not_mem_nil
  redirFiles := by
    rw [h.redirFiles]
    exact fun rp hrp => absurd hrp List.not_mem_nil

variable {s t : Session}

/-- The contents of the names that were given are kept. -/
theorem Immutable.kept (h : Immutable sv s) (hgiven : t.given = s.given)
    (hfiles : Preserves sv s.shell.world.files t.shell.world.files) : Immutable sv t := by
  intro path hpath
  rw [hgiven] at hpath
  obtain ⟨data, hdata, hname⟩ := h path hpath
  exact ⟨data, hfiles.kept path data ⟨data, hname⟩ hdata, hname⟩

/-- The names that are given in a step have the contents that they are named by. -/
theorem Immutable.giving (h : Immutable sv s) {w : World}
    (hfiles : Preserves sv s.shell.world.files w.files) : Immutable sv (giving sv s w) := by
  rintro path (hold | ⟨hdigest, hnone, hsome⟩)
  · obtain ⟨data, hdata, hname⟩ := h path hold
    exact ⟨data, hfiles.kept path data ⟨data, hname⟩ hdata, hname⟩
  · obtain ⟨data, hdata⟩ := Option.isSome_iff_exists.mp hsome
    exact ⟨data, hdata, hfiles.named path data hdigest hnone hdata⟩

/-- A step of the shell. -/
theorem Sound.shell (h : Sound sv s) {p : Protocol World} (hsafe : Safe sv s.shell p) :
    Sound sv { s with shell := p } := by
  obtain ⟨hfiles, hchain, hredir⟩ := hsafe h.chain
  exact ⟨h.immutable.kept rfl hfiles, hchain, hredir ▸ h.redirFiles⟩

/-- **One step.** -/
theorem sound_step (base : Env World) (s : Session) (e : Event) (t : Session) (h : Sound sv s)
    (hguard : Guarded sv s e) (hstep : step sv base s e = some t) : Sound sv t := by
  cases e with
  | pipeline =>
    obtain rfl := Option.some.inj hstep
    exact h.shell (safe_of_stages rfl rfl fun _ pp hpp => absurd hpp List.not_mem_nil)
  | stage name cmd cmdargs captured =>
    obtain rfl := Option.some.inj hstep
    exact h.shell (safe_of_stages rfl rfl fun hs => List.forall_mem_cons.mpr
      ⟨clean_newStage name cmd cmdargs captured _, hs⟩)
  | redirect op =>
    obtain rfl := Option.some.inj hstep
    refine h.shell (safe_redirectOne op s.shell ?_)
    rintro fd target append rfl
    exact hguard
  | write w =>
    obtain rfl := Option.some.inj hstep
    exact h.shell (safe_write w s.shell)
  | exit =>
    obtain rfl := Option.some.inj hstep
    refine ⟨h.immutable.kept rfl (Preserves.refl _), h.chain, fun rp hrp => ?_⟩
    rcases List.mem_append.mp hrp with hold | hnew
    · exact h.redirFiles rp hold
    · unfold redirectedBy at hnew
      cases hpp : s.shell.pp with
      | nil =>
        rw [hpp] at hnew
        exact absurd hnew List.not_mem_nil
      | cons pp rest =>
        rw [hpp] at hnew
        exact (h.chain pp (by rw [hpp]; exact List.mem_cons_self)).redirected rp hnew
  | next =>
    obtain rfl := Option.some.inj hstep
    exact h.shell (safe_of_stages rfl rfl fun hs pp hpp => hs pp (List.mem_of_mem_tail hpp))
  | download d =>
    simp only [step] at hstep
    split_ifs at hstep
    obtain rfl := Option.some.inj hstep
    exact ⟨h.immutable.giving (keeping_download d _), h.chain, h.redirFiles⟩
  | upload u =>
    obtain rfl := Option.some.inj hstep
    exact ⟨h.immutable.giving (keeping_upload u _), h.chain, h.redirFiles⟩
  | fs op =>
    obtain rfl := Option.some.inj hstep
    exact ⟨h.immutable.kept rfl (Preserves.refl _), h.chain, h.redirFiles⟩
  | received data =>
    obtain rfl := Option.some.inj hstep
    split_ifs
    · exact ⟨h.immutable.kept rfl (preserves_update _ (stdinlog_not_digest s) _), h.chain, h.redirFiles⟩
    · exact h
  | connectionLost order =>
    simp only [step] at hstep
    split_ifs at hstep with horder
    obtain rfl := Option.some.inj hstep
    have hclean : ∀ rp ∈ order, ¬ Digest sv rp.1.toList := fun rp hrp =>
      h.redirFiles rp (List.mem_dedup.mp (horder.mem_iff.mp hrp))
    exact ⟨h.immutable.giving (preserves_savedFiles s hclean _), h.chain, fun rp hrp =>
      absurd hrp List.not_mem_nil⟩

/-- **Every session.** While nothing is redirected to a file whose backing has the name of a digest, a name
that was given keeps the contents that it was given to. -/
theorem immutable_of_guarded (sv : Server) (base : Env World) (s : Session) (events : List Event)
    (hfresh : Fresh s) (h : StepsMeet (step sv base) (Guarded sv) s events) :
    StatesMeet (step sv base) (Immutable sv) s events :=
  statesMeet_iff.mpr fun as bs t hevents hrun =>
    (statesMeet_iff.mp (statesMeet_of_inv (sound_step base) hfresh.sound h) as bs t hevents hrun).immutable

/-! ### One byte -/

/-- The SHA-256 of no byte, and that of the byte 1. -/
def twoDigests (data : Bytes) : Str :=
  if data = [] then "e3b0c44298fc1c149afbf4c8996fb92427ae41e4649b934ca495991b7852b855".toList
  else "4bf5122f344554c53bde2ebb8cd2b7e3d1600ad631c385a5d7cce23c7785459a".toList

def capturing : Server where
  setup := demo
  sha256 := twoDigests
  hexdigest data := by
    unfold twoDigests
    split_ifs
    · exact List.all_iff_forall_prop.mp (by decide)
    · exact List.all_iff_forall_prop.mp (by decide)
  fd_pos := demoServer.fd_pos
  bytesReceivedLimit := 0

/-- `wget -O /tmp/f`, of one byte. -/
def oneByte : Download where
  random := "k3_9x0ab".toList
  random_word := List.all_iff_forall_prop.mp (by decide)
  data := [1]
  currentlength := 1
  outfile := ['/', 't', 'm', 'p', '/', 'f']

def quietSession : Session where
  shell := { world := demoWorld }
  stdinlogOpen := false
  started := []

theorem quietSession_fresh : Fresh quietSession := ⟨rfl, rfl, fun _ => id⟩

/-- The name of the captured byte. -/
def oneByteName : Str := shasumFilename capturing [1]

/-- After the download. -/
def downloaded : Session := giving capturing quietSession (exec (download capturing oneByte) demoWorld).2

theorem downloaded_given : downloaded.given oneByteName := .inr ⟨⟨[1], .inl rfl⟩, rfl, rfl⟩

/-- A download, and `echo` to another file. -/
def otherFile : List Event :=
  [.download oneByte, .stage "echo" demoCommand [] false, .redirect (.file 1 "g" false), .write (.out [1]), .exit]

set_option maxRecDepth 8000 in
theorem immutable_otherFile : StatesMeet (step capturing demoEnv) (Immutable capturing) quietSession otherFile := by
  refine immutable_of_guarded capturing demoEnv quietSession otherFile quietSession_fresh
    ⟨trivial, fun t ht => ⟨trivial, fun t' ht' => ⟨?_, fun _ _ => ⟨trivial, fun _ _ => ⟨trivial, fun _ _ =>
      trivial⟩⟩⟩⟩⟩
  obtain rfl : downloaded = t := Option.some.inj ht
  obtain rfl := Option.some.inj ht'
  intro f x real hresolve _ hfile
  obtain rfl : ['/', 't', 'm', 'p', '/', 'g'] = f := Except.ok.inj hresolve
  cases hfile

/-- The stage of a command that writes over the download. -/
def overwriting : Session :=
  { downloaded with shell := { downloaded.shell with
      pp := [newStage "echo" demoCommand [] false []] } }

set_option maxRecDepth 8000 in
/-- A byte is downloaded to `/tmp/f`, then `>f`: the file with the name of the byte is empty. -/
theorem immutable_violated :
    ¬ ∀ (sv : Server) (base : Env World) (s : Session) (events : List Event), Fresh s →
      StatesMeet (step sv base) (Immutable sv) s events := by
  intro h
  have hall := h capturing demoEnv quietSession
    [.download oneByte, .stage "echo" demoCommand [] false, .redirect (.file 1 "f" false)] quietSession_fresh
  have hlast := (((hall.2 downloaded rfl).2 overwriting rfl).2 _ rfl) oneByteName downloaded_given
  obtain ⟨data, hdata, hname⟩ := hlast
  obtain rfl : [] = data := Option.some.inj hdata
  rcases hname with hname | hname
  · exact absurd hname (by decide)
  · exact absurd hname (by decide)

end Cowrie.Shell.Artifacts
