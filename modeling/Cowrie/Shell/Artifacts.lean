import Cowrie.Shell.SftpUpload

/-!
# What is captured (`src/cowrie/core/artifact.py`, `src/cowrie/commands/wget.py:512-551`)

A captured file gets the SHA-256 of its contents for a name: a download when its `Artifact` is closed, an upload
when its descriptor is, the standard input and the redirected files of a session when the connection is lost.

* `download`: the end of a download to a file; `curl` does the same. The name of the temporary file is the
  prefix of `tempfile` and eight characters that it chooses, until there is no file of that name.
* `Digest`: the name of a digest in the download directory. No other file there has such a name (`not_digest`).
* `Preserves`: files with the name of a digest stay as they are, and those that appear have the contents they
  are named by. `Keeping m` says this of every run of `m`, `Keeps` of one run, with what it returns.

* **`keeps_prepareOutputFile`**: a redirection keeps the digests, if its target is not backed by one.
* **`keeping_download`**, **`keeping_upload`**: downloads and uploads do.
-/

namespace Cowrie.Shell.Artifacts

open Cowrie.Lib Fs Heap HoneyPotFilesystem Redirect SftpUpload

variable (sv : Server)

/-! ## Files of the host -/

/-- The name of the captured file. -/
def shasumFilename (data : Bytes) : Str := pathJoin sv.setup.host.downloadPath (sv.sha256 data)

/-- The file is moved to the name of its digest, or removed if there is one; a missing file is an `OSError`. -/
def stored (files : Str → Option Bytes) (path : Str) : Str → Option Bytes :=
  match files path with
  | none => files
  | some data => moved files path (shasumFilename sv data) data

/-- The same, without empty files. -/
def storedUnlessEmpty (files : Str → Option Bytes) (path : Str) : Str → Option Bytes :=
  if files path = some [] then Function.update files path none else stored sv files path

/-- `Artifact.close`, with the `shasumFilename` that it leaves. -/
def closeArtifact (temp : Str) : RedirectM Str := do
  let data ← readHostfile temp
  modify fun w => { w with files := storedUnlessEmpty sv w.files temp }
  pure (if data = [] then [] else shasumFilename sv data)

/-- A file of the digest's name: with `os.path.join`, or as `HoneyPotFilesystem.close` writes it. -/
def NamedBy (path : Str) (data : Bytes) : Prop :=
  path = shasumFilename sv data ∨ path = shasumfile sv data

/-- The name of a digest. -/
def Digest (path : Str) : Prop := ∃ data, NamedBy sv path data

/-- What a redirection goes to is not backed by a file with the name of a digest. -/
def GuardedTarget (w : World) (target : Str) : Prop :=
  ∀ f x real, resolve sv.setup.user target w.fs = .ok f → f ≠ "/dev/null".toList →
    w.fs.getfile f = .ok (some x) → needsNewBacking sv.setup (some (w.fs.node x)) = false →
    (w.fs.node x).realfile = some real → ¬ Digest sv real

/-! ## Downloads -/

/-- A download that is complete. -/
structure Download where
  /-- What `tempfile` chooses. -/
  random : Str
  random_word : ∀ c ∈ random, c.isAlphanum ∨ c = '_'
  /-- What was written to the artifact. -/
  data : Bytes
  currentlength : Nat
  /-- Empty for standard output. -/
  outfile : Str

/-- The name of the temporary file. -/
def Download.temp (d : Download) : Str := pathJoin sv.setup.host.downloadPath ("tmp".toList ++ d.random)

/-- `Artifact(label)`, its writes, and `collectioncomplete`. -/
def download (d : Download) : RedirectM Unit := do
  modify fun w => withFile w (d.temp sv) d.data
  let shasumFilename ← closeArtifact sv (d.temp sv)
  when (d.outfile ≠ []) do
    -- `S_IFREG` and `rw-r--r--`
    let _ ← inFs (mkfile d.outfile sv.setup.user.uid sv.setup.user.gid d.currentlength 33188)
    match ← query fun w => w.fs.getfile d.outfile with
    | none => throw .typeError
    | some x => updateRealfile sv x shasumFilename

variable {sv} {files files' : Str → Option Bytes} {path : Str} {data : Bytes} {w v : World}

/-! ## Names of digests -/

theorem pathJoin_suffix (a b : Str) : ∃ front, pathJoin a b = front ++ b := by
  unfold pathJoin
  split_ifs
  · exact ⟨[], rfl⟩
  · exact ⟨a, rfl⟩
  · exact ⟨a ++ ['/'], by simp⟩

theorem hex_of_sha256 {c : Char} (h : c ∈ sv.sha256 data) : c ∈ "0123456789abcdef".toList :=
  sv.hexdigest data c h

/-- What a name ends in, after a directory. -/
theorem mem_of_slash {front rest dir name : Str} {c : Char} (hrest : '/' ∉ c :: rest)
    (h : front ++ c :: rest = dir ++ '/' :: name) : c ∈ name := by
  rcases List.append_eq_append_iff.mp h with ⟨mid, -, hmid⟩ | ⟨mid, -, hmid⟩
  · exact absurd (by rw [hmid]; simp) hrest
  · cases mid with
    | nil =>
      obtain ⟨rfl, -⟩ := List.cons.inj hmid
      exact absurd List.mem_cons_self hrest
    | cons a mid =>
      obtain ⟨-, rfl⟩ := List.cons.inj hmid
      simp

/-- The same, if the slash is the last sign of the directory. -/
theorem mem_of_dir {front rest dir name : Str} {c : Char} (hrest : '/' ∉ c :: rest)
    (hdir : dir = [] ∨ dir.getLast? = some '/') (h : front ++ c :: rest = dir ++ name) : c ∈ name := by
  rcases hdir with rfl | hlast
  · rw [← List.nil_append name, ← h]
    simp
  · obtain ⟨dir, rfl⟩ := List.getLast?_eq_some_iff.mp hlast
    rw [List.append_assoc] at h
    exact mem_of_slash hrest h

/-- A name that ends in a sign that no digest has, and no slash after it. -/
theorem not_digest (front rest : Str) {c : Char} (hrest : '/' ∉ c :: rest)
    (hc : c ∉ "0123456789abcdef".toList) : ¬ Digest sv (front ++ c :: rest) := by
  rintro ⟨data, hname | hname⟩
  · unfold shasumFilename pathJoin at hname
    split_ifs at hname with hhead hdir
    · exact absurd (hex_of_sha256 (List.mem_of_head? hhead)) (by decide)
    · exact hc (hex_of_sha256 (mem_of_dir hrest hdir hname))
    · exact hc (hex_of_sha256 (mem_of_slash hrest hname))
  · exact hc (hex_of_sha256 (mem_of_slash hrest hname))

theorem Digest.ne {p : Str} (h : Digest sv p) (hpath : ¬ Digest sv path) : p ≠ path := by
  rintro rfl
  exact hpath h

theorem slash_not_mem_sanitize (filename : Str) : '/' ∉ sanitize filename := by
  unfold sanitize
  rw [List.mem_map]
  rintro ⟨c, -, hc⟩
  split_ifs at hc with halnum
  · subst hc
    exact absurd halnum (by decide)
  · exact absurd hc (by decide)

theorem backingName_not_digest (stamp outfile : Str) :
    ¬ Digest sv (backingName sv.setup stamp outfile) := by
  obtain ⟨front, hfront⟩ := pathJoin_suffix sv.setup.host.downloadPath
    (stamp ++ '-' :: sv.setup.transportId ++ '-' :: sv.setup.sessionId ++ "-redir_".toList ++ sanitize outfile)
  unfold backingName
  rw [hfront]
  have hsplit : front ++ (stamp ++ '-' :: sv.setup.transportId ++ '-' :: sv.setup.sessionId ++
      "-redir_".toList ++ sanitize outfile) = (front ++ (stamp ++ '-' :: sv.setup.transportId ++
        '-' :: sv.setup.sessionId ++ "-redir".toList)) ++ '_' :: sanitize outfile := by
    simp
  rw [hsplit]
  exact not_digest _ _ (by simp [slash_not_mem_sanitize]) (by decide)

theorem hostfile_not_digest (stamp filename : Str) : ¬ Digest sv (hostfile sv stamp filename) := by
  have hsplit : hostfile sv stamp filename = (sv.setup.host.downloadPath ++ '/' :: stamp ++
      "_sftp".toList) ++ '_' :: sanitize filename := by
    simp [hostfile]
  rw [hsplit]
  exact not_digest _ _ (by simp [slash_not_mem_sanitize]) (by decide)

theorem temp_not_digest (d : Download) : ¬ Digest sv (d.temp sv) := by
  obtain ⟨front, hfront⟩ := pathJoin_suffix sv.setup.host.downloadPath ("tmp".toList ++ d.random)
  unfold Download.temp
  rw [hfront]
  have hrandom : '/' ∉ d.random := fun hmem => absurd (d.random_word _ hmem) (by decide)
  change ¬ Digest sv (front ++ 't' :: 'm' :: 'p' :: d.random)
  exact not_digest front _ (by simp [hrandom]) (by decide)

/-! ## What keeps the digests -/

/-- Files with the name of a digest stay, and those that appear have the contents that they are named by. -/
structure Preserves (sv : Server) (files files' : Str → Option Bytes) : Prop where
  kept : ∀ path data, Digest sv path → files path = some data → files' path = some data
  named : ∀ path data, Digest sv path → files path = none → files' path = some data → NamedBy sv path data

theorem Preserves.refl (files : Str → Option Bytes) : Preserves sv files files where
  kept _ _ _ h := h
  named _ _ _ hnone hsome := by
    rw [hnone] at hsome
    cases hsome

theorem Preserves.trans {files'' : Str → Option Bytes} (h : Preserves sv files files')
    (h' : Preserves sv files' files'') : Preserves sv files files'' where
  kept path data hpath hdata := h'.kept path data hpath (h.kept path data hpath hdata)
  named path data hpath hnone hdata := by
    cases hmid : files' path with
    | none => exact h'.named path data hpath hmid hdata
    | some data' =>
      obtain rfl : data' = data := Option.some.inj ((h'.kept path data' hpath hmid).symm.trans hdata)
      exact h.named path data' hpath hnone hmid

theorem preserves_update (files : Str → Option Bytes) (hpath : ¬ Digest sv path) (o : Option Bytes) :
    Preserves sv files (Function.update files path o) where
  kept p data hp hdata := by
    rw [Function.update_of_ne (hp.ne hpath)]
    exact hdata
  named p data hp hnone hdata := by
    rw [Function.update_of_ne (hp.ne hpath), hnone] at hdata
    cases hdata

/-- A file gets the name of its contents. -/
theorem preserves_moved (files : Str → Option Bytes) (hpath : ¬ Digest sv path) {name : Str}
    (hname : NamedBy sv name data) : Preserves sv files (moved files path name data) := by
  have hrest : Preserves sv files _ := preserves_update files hpath none
  unfold moved
  by_cases hthere : (files name).isSome
  · rw [if_pos hthere]
    exact hrest
  · rw [if_neg hthere]
    refine hrest.trans ⟨fun p data' hp hdata => ?_, fun p data' hp hnone hdata => ?_⟩
    · rw [Function.update_of_ne fun heq => ?_]
      · exact hdata
      · subst heq
        rw [Function.update_of_ne (hp.ne hpath)] at hdata
        exact hthere (by rw [hdata]; rfl)
    · by_cases heq : p = name
      · subst heq
        rw [Function.update_self] at hdata
        obtain rfl := Option.some.inj hdata
        exact hname
      · rw [Function.update_of_ne heq, hnone] at hdata
        cases hdata

theorem preserves_stored (files : Str → Option Bytes) (hpath : ¬ Digest sv path) :
    Preserves sv files (stored sv files path) := by
  unfold stored
  cases files path with
  | none => exact Preserves.refl files
  | some data => exact preserves_moved files hpath (.inl rfl)

theorem preserves_storedUnlessEmpty (files : Str → Option Bytes) (hpath : ¬ Digest sv path) :
    Preserves sv files (storedUnlessEmpty sv files path) := by
  unfold storedUnlessEmpty
  split_ifs
  · exact preserves_update files hpath none
  · exact preserves_stored files hpath

/-! ## Redirections -/

/-- The files with the name of a digest are kept, whether `m` raises or not. -/
def Keeping (sv : Server) {α : Type} (m : RedirectM α) : Prop :=
  Along (fun w v : World => Preserves sv w.files v.files) m

section Keeping

variable {α β : Type}

theorem preserves_trans (s t u : World) (h : Preserves sv s.files t.files)
    (h' : Preserves sv t.files u.files) : Preserves sv s.files u.files := h.trans h'

theorem keeping_of_files {m : RedirectM α} (h : ∀ w, (exec m w).2.files = w.files) : Keeping sv m := by
  intro w
  simp only [h w]
  exact Preserves.refl w.files

theorem keeping_get : Keeping sv (get : RedirectM World) := keeping_of_files fun _ => rfl

theorem keeping_pure (a : α) : Keeping sv (pure a : RedirectM α) := keeping_of_files fun _ => rfl

theorem keeping_throw (e : FsError) : Keeping sv (throw e : RedirectM α) := keeping_of_files fun _ => rfl

theorem keeping_query (q : World → Except FsError α) : Keeping sv (query q) :=
  keeping_of_files fun w => by rw [exec_query]

theorem keeping_inFs (m : FsM α) : Keeping sv (inFs m) :=
  keeping_of_files fun w => by rw [exec_inFs]

theorem keeping_bind {m : RedirectM α} {k : α → RedirectM β} (hm : Keeping sv m)
    (hk : ∀ a, Keeping sv (k a)) : Keeping sv (m >>= k) := along_bind preserves_trans hm hk

theorem keeping_tryCatch {m : RedirectM α} {h : FsError → RedirectM α} (hm : Keeping sv m)
    (hh : ∀ e, Keeping sv (h e)) : Keeping sv (tryCatch m h) := along_tryCatch preserves_trans hm hh

theorem keeping_strftime : Keeping sv strftime := keeping_of_files fun _ => rfl

theorem keeping_appendFile (hpath : ¬ Digest sv path) (data : Bytes) :
    Keeping sv (appendFile sv.setup path data) :=
  keeping_bind (keeping_query _) fun _ => along_modify fun w => preserves_update w.files hpath _

theorem keeping_truncateFile (hpath : ¬ Digest sv path) : Keeping sv (truncateFile sv.setup path) :=
  keeping_bind (keeping_query _) fun _ => along_modify fun w => preserves_update w.files hpath _

/-- The digests are kept, and what is returned satisfies `Q`. -/
def Keeps (sv : Server) (files : Str → Option Bytes) (m : RedirectM α) (Q : α → World → Prop) (w : World) : Prop :=
  Ensures (fun v => Preserves sv files v.files) m (fun a v => Preserves sv files v.files ∧ Q a v) w

variable {Q : α → World → Prop} {Q' : β → World → Prop}

/-- A first part that keeps the digests in any state. -/
theorem Keeping.before {m : RedirectM α} {k : α → RedirectM β} (hm : Keeping sv m)
    (hw : Preserves sv files w.files)
    (hk : ∀ a t, exec m w = (.ok a, t) → Preserves sv files t.files → Keeps sv files (k a) Q' t) :
    Keeps sv files (m >>= k) Q' w := by
  have hstate := hm w
  unfold Keeps Ensures
  rw [exec_bind]
  cases hexec : exec m w with
  | mk r t =>
    rw [hexec] at hstate
    cases r with
    | ok a => exact hk a t hexec (hw.trans hstate)
    | error e => exact hw.trans hstate

theorem keeps_bind {m : RedirectM α} {k : α → RedirectM β} (hm : Keeps sv files m Q w)
    (hk : ∀ a t, Preserves sv files t.files → Q a t → Keeps sv files (k a) Q' t) :
    Keeps sv files (m >>= k) Q' w := by
  unfold Keeps
  rw [ensures_bind]
  exact hm.mono (fun _ h => h) fun a t _ h => hk a t h.1 h.2

theorem keeps_pure {a : α} (hw : Preserves sv files w.files) (hQ : Q a w) :
    Keeps sv files (pure a) Q w := ⟨hw, hQ⟩

theorem keeps_throw {e : FsError} (hw : Preserves sv files w.files) :
    Keeps sv files (throw e : RedirectM α) Q w := hw

theorem keeps_tryCatch {m : RedirectM α} {handle : FsError → RedirectM α} (hm : Keeps sv files m Q w)
    (hh : ∀ e t, Preserves sv files t.files → Keeps sv files (handle e) Q t) :
    Keeps sv files (tryCatch m handle) Q w := ensures_tryCatch hm hh

theorem Keeping.keeps {m : RedirectM α} (hm : Keeping sv m) (hw : Preserves sv files w.files) :
    Keeps sv files m (fun _ _ => True) w := by
  have hstate := hw.trans (hm w)
  unfold Keeps Ensures
  cases hexec : exec m w with
  | mk r t =>
    rw [hexec] at hstate
    cases r with
    | ok a => exact ⟨hstate, trivial⟩
    | error e => exact hstate

/-- The name of a new backing is no digest. -/
theorem keeps_createRedirectTarget (outfile : Str) (hw : Preserves sv files w.files) :
    Keeps sv files (createRedirectTarget sv.setup outfile)
      (fun r _ => ∀ safe, r = .ok safe → ¬ Digest sv safe) w := by
  unfold createRedirectTarget
  refine keeping_strftime.before hw fun stamp t _ ht => ?_
  refine Keeping.before (keeping_tryCatch (keeping_bind (keeping_inFs _) fun _ => keeping_pure _)
    fun e => ?_) ht fun failure u _ hu => ?_
  · cases e <;> first | exact keeping_pure _ | exact keeping_throw _
  cases failure with
  | some message => exact keeps_pure hu (by rintro safe ⟨⟩)
  | none =>
    refine (keeping_appendFile (backingName_not_digest stamp outfile) []).before hu fun _ u _ hu =>
      (keeping_query _).before hu fun r u _ hu => ?_
    cases r with
    | none => exact keeps_throw hu
    | some x =>
      refine keeping_get.before hu fun w u _ hu =>
        (keeping_inFs _).before hu fun _ u _ hu => keeps_pure hu fun safe hsafe => ?_
      obtain rfl := Except.ok.inj hsafe
      exact backingName_not_digest stamp outfile

/-- The backing that is used for an existing one is no digest either. -/
theorem keeps_reuseExistingBacking (outfile : Str) {p : Node} (append : Bool)
    (hreal : ¬ Digest sv (p.realfile.getD [])) (hw : Preserves sv files w.files) :
    Keeps sv files (reuseExistingBacking sv.setup outfile p append)
      (fun r _ => ∀ safe start, r = some (safe, start) → ¬ Digest sv safe) w := by
  unfold reuseExistingBacking
  cases append with
  | true =>
    refine keeps_pure hw fun safe start hsafe => ?_
    obtain ⟨rfl, -⟩ := Prod.mk.inj (Option.some.inj hsafe)
    exact hreal
  | false =>
    refine keeps_tryCatch ((keeping_truncateFile hreal).before hw fun _ t _ ht => ?_) fun e t ht => ?_
    · refine (keeping_inFs _).before ht fun _ t _ ht => keeps_pure ht fun safe start hsafe => ?_
      obtain ⟨rfl, -⟩ := Prod.mk.inj (Option.some.inj hsafe)
      exact hreal
    · cases e <;> first | exact ⟨ht, by rintro safe start ⟨⟩⟩ | exact ht

/-- `_create_redirect_target`, and what is made of its result. -/
theorem keeps_newBacking (outfile : Str) (start : Nat) {k : Except String Str → RedirectM Prepared}
    (herror : ∀ message, k (.error message) = pure (.failed (some message)))
    (hok : ∀ safe, k (.ok safe) = pure (.file
      { virtual := String.ofList outfile, real := String.ofList safe, startSize := start }))
    (hw : Preserves sv files w.files) :
    Keeps sv files (createRedirectTarget sv.setup outfile >>= k)
      (fun prepared _ => ∀ info, prepared = .file info → ¬ Digest sv info.real.toList) w := by
  refine keeps_bind (keeps_createRedirectTarget outfile hw) fun r t ht hr => ?_
  cases r with
  | error message =>
    rw [herror]
    exact keeps_pure ht (by rintro info ⟨⟩)
  | ok safe =>
    rw [hok]
    refine keeps_pure ht fun info hinfo => ?_
    obtain rfl := Prepared.file.inj hinfo
    simpa using hr safe rfl

/-- The backing that a guarded target has. -/
theorem GuardedTarget.realfile {target f : Str} {x : Ref} (h : GuardedTarget sv w target)
    (hf : resolve sv.setup.user target w.fs = .ok f) (hnull : f ≠ "/dev/null".toList)
    (hx : w.fs.getfile f = .ok (some x))
    (hneeds : needsNewBacking sv.setup (some (w.fs.node x)) = false) :
    ¬ Digest sv ((w.fs.node x).realfile.getD []) := by
  cases hback : backing (w.fs.node x) with
  | none => simp [needsNewBacking, hback] at hneeds
  | some real =>
    obtain ⟨hrealfile, -⟩ := realfile_of_backing hback
    rw [hrealfile]
    exact h f x real hf hnull hx hneeds hrealfile

/-- **`_prepare_output_file`** of a guarded target. -/
theorem keeps_prepareOutputFile {target : Str} (append : Bool) (hguard : GuardedTarget sv w target) :
    Keeps sv w.files (prepareOutputFile sv.setup target append)
      (fun prepared _ => ∀ info, prepared = .file info → ¬ Digest sv info.real.toList) w := by
  have hw : Preserves sv w.files w.files := Preserves.refl w.files
  unfold prepareOutputFile
  refine (keeping_query _).before hw fun outfile t houtfile _ => ?_
  rw [exec_query] at houtfile
  obtain ⟨hresolve, rfl⟩ := Prod.mk.inj houtfile
  refine (keeping_query _).before hw fun r t hr _ => ?_
  rw [exec_query] at hr
  obtain ⟨hfile, rfl⟩ := Prod.mk.inj hr
  refine ensures_ite (fun _ => ⟨hw, by rintro info ⟨⟩⟩) fun hnull => ?_
  refine keeping_get.before hw fun u t hu _ => ?_
  obtain ⟨hsame, rfl⟩ := Prod.mk.inj hu
  obtain rfl := Except.ok.inj hsame
  cases r with
  | none => exact keeps_newBacking outfile 0 (fun _ => rfl) (fun _ => rfl) hw
  | some x =>
    cases hneeds : needsNewBacking sv.setup (some (w.fs.node x)) with
    | true =>
      simp only [Option.map_some, hneeds]
      exact keeps_newBacking outfile _ (fun _ => rfl) (fun _ => rfl) hw
    | false =>
      simp only [Option.map_some, hneeds]
      have hreal := hguard.realfile hresolve hnull hfile hneeds
      refine keeps_bind (keeps_reuseExistingBacking outfile append hreal hw) fun r t ht hr => ?_
      rcases r with - | ⟨safe, start⟩
      · exact keeps_pure ht (by rintro info ⟨⟩)
      · refine keeps_pure ht fun info hinfo => ?_
        obtain rfl := Prepared.file.inj hinfo
        simpa using hr safe start rfl

end Keeping

/-! ## Downloads and uploads -/

theorem keeping_closeArtifact {temp : Str} (htemp : ¬ Digest sv temp) :
    Keeping sv (closeArtifact sv temp) :=
  keeping_bind (keeping_query _) fun _ => keeping_bind
    (along_modify fun w => preserves_storedUnlessEmpty w.files htemp) fun _ => keeping_pure _

theorem keeping_updateRealfile (x : Ref) (realfile : Str) :
    Keeping sv (SftpUpload.updateRealfile sv x realfile) := along_get fun _ => keeping_inFs _

theorem keeping_download (d : Download) : Keeping sv (download sv d) := by
  unfold download
  refine keeping_bind (along_modify fun w => preserves_update w.files (temp_not_digest d) _) fun _ =>
    keeping_bind (keeping_closeArtifact (temp_not_digest d)) fun name => ?_
  refine along_when (fun w => Preserves.refl w.files) (keeping_bind (keeping_inFs _) fun _ =>
    keeping_bind (keeping_query _) fun r => ?_)
  cases r with
  | none => exact keeping_throw _
  | some x => exact keeping_updateRealfile x name

/-- The temporary file behind a descriptor has not the name of a digest. -/
def Temporary (sv : Server) (fd : Option Nat) (w : World) : Prop :=
  ∀ k, fd = some k → ∃ temp, w.fs.tempfiles k = some temp ∧ ¬ Digest sv temp

theorem keeps_openFile (filename : Str) (flags mode : Nat) (hw : Preserves sv files w.files) :
    Keeps sv files (SftpUpload.openFile sv filename flags mode) (Temporary sv) w := by
  unfold SftpUpload.openFile
  refine ensures_ite (fun _ => ?_) fun _ => keeps_pure hw (by rintro k ⟨⟩)
  refine keeping_strftime.before hw fun stamp t _ ht => (keeping_inFs _).before ht fun _ t _ ht => ?_
  have hopen : Keeping sv (openHostfile sv (hostfile sv stamp filename) flags (mode - (mode &&& 111))) :=
    keeping_bind (keeping_query _) fun fd => keeping_bind
      (along_modify fun w => preserves_update w.files (hostfile_not_digest stamp filename) _) fun _ =>
        keeping_pure fd
  refine hopen.before ht fun fd t _ ht => (keeping_query _).before ht fun r t _ ht => ?_
  cases r with
  | none => exact keeps_throw ht
  | some x =>
    refine (keeping_updateRealfile x _).before ht fun _ t _ ht =>
      (keeping_inFs _).before ht fun _ u hu hu' => keeps_pure hu' fun k hk => ?_
    obtain rfl := Option.some.inj hk
    rw [exec_inFs] at hu
    obtain ⟨-, rfl⟩ := Prod.mk.inj hu
    exact ⟨_, Function.update_self _ _ _, hostfile_not_digest stamp filename⟩

def SameTemps (f g : HoneyPotFilesystem) : Prop := g.tempfiles = f.tempfiles

theorem SameTemps.refl (f : HoneyPotFilesystem) : SameTemps f f := rfl

theorem SameTemps.trans (f g h : HoneyPotFilesystem) (hfg : SameTemps f g) (hgh : SameTemps g h) :
    SameTemps f h := Eq.trans hgh hfg

/-- A function of the file system that leaves the descriptors alone. -/
def Quiescent {α : Type} (m : FsM α) : Prop := Along SameTemps m

theorem quiescent_bind {α β : Type} {m : FsM α} {k : α → FsM β} (hm : Quiescent m)
    (hk : ∀ a, Quiescent (k a)) : Quiescent (m >>= k) :=
  along_bind SameTemps.trans hm hk

theorem quiescent_query {α : Type} (q : HoneyPotFilesystem → Except FsError α) : Quiescent (query q) := by
  intro f
  rw [exec_query]
  exact SameTemps.refl f

theorem quiescent_editNode (path : Str) (edit : Node → Node) : Quiescent (editNode path edit) := by
  refine quiescent_bind (quiescent_query _) fun r => ?_
  cases r with
  | none => exact along_throw SameTemps.refl _
  | some p => exact along_modify fun _ => rfl

theorem quiescent_ifGiven {α : Type} {act : α → FsM Unit} (a : Option α) (h : ∀ a, Quiescent (act a)) :
    Quiescent (ifGiven a act) := by
  cases a with
  | none => exact along_pure SameTemps.refl _
  | some a => exact h a

theorem quiescent_setAttrs (path : Str) (attrs : Attrs) : Quiescent (setAttrs path attrs) :=
  quiescent_bind (quiescent_ifGiven _ fun _ => quiescent_editNode _ _) fun _ =>
    quiescent_bind (quiescent_ifGiven _ fun _ => quiescent_editNode _ _) fun _ =>
      quiescent_ifGiven _ fun _ => quiescent_editNode _ _

theorem quiescent_updateSize (filename : Str) (size : Nat) : Quiescent (updateSize filename size) := by
  refine quiescent_bind (quiescent_query _) fun r => ?_
  cases r with
  | none => exact along_pure SameTemps.refl _
  | some x => exact along_get fun f => along_when SameTemps.refl (along_modify fun _ => rfl)

theorem keeps_inFs_quiescent {m : FsM Unit} (hm : Quiescent m) {fd : Option Nat}
    (hw : Preserves sv files w.files) (hfd : Temporary sv fd w) :
    Keeps sv files (inFs m) (fun _ v => Temporary sv fd v) w := by
  refine ((keeping_inFs m).keeps hw).mono (fun _ h => h) fun _ v hexec h => ⟨h.1, fun k hk => ?_⟩
  rw [exec_inFs] at hexec
  obtain ⟨-, rfl⟩ := Prod.mk.inj hexec
  obtain ⟨temp, htemp, hdigest⟩ := hfd k hk
  exact ⟨temp, (congrFun (hm w.fs) k).trans htemp, hdigest⟩

/-- What the descriptor stands for. -/
theorem keeps_item {fd : Nat} (hw : Preserves sv files w.files) (hfd : Temporary sv (some fd) w) :
    Keeps sv files (item tempfiles fd) (fun temp v => v = w ∧ ¬ Digest sv temp) w := by
  obtain ⟨temp, htemp, hdigest⟩ := hfd fd rfl
  unfold Keeps Ensures
  rw [exec_item htemp]
  exact ⟨hw, rfl, hdigest⟩

theorem keeps_writeAt (fd : Option Nat) (offset : Nat) (data : Bytes) (hw : Preserves sv files w.files)
    (hfd : Temporary sv fd w) : Keeps sv files (writeAt fd offset data) (fun _ v => Temporary sv fd v) w := by
  cases fd with
  | none => exact keeps_throw hw
  | some fd =>
    refine keeps_bind (keeps_item hw hfd) fun temp t ht htemp => ?_
    obtain ⟨rfl, hdigest⟩ := htemp
    exact ⟨hw.trans (preserves_update t.files hdigest _), hfd⟩

theorem keeps_writeChunks (chunks : List (Nat × Bytes)) (file : SftpFile)
    (hw : Preserves sv files w.files) (hfd : Temporary sv file.fd w) :
    Keeps sv files (writeChunks sv file chunks)
      (fun file' v => file'.fd = file.fd ∧ Temporary sv file.fd v) w := by
  induction chunks generalizing file w with
  | nil => exact keeps_pure hw ⟨rfl, hfd⟩
  | cons c chunks ih =>
    have hone : Keeps sv files (writeChunk sv file c.1 c.2)
        (fun file' v => file'.fd = file.fd ∧ Temporary sv file.fd v) w := by
      unfold writeChunk
      refine ensures_ite (fun _ => keeps_pure hw ⟨rfl, hfd⟩) fun _ => ?_
      exact keeps_bind (keeps_writeAt file.fd c.1 c.2 hw hfd) fun _ t ht hfd' =>
        keeps_pure ht ⟨rfl, hfd'⟩
    exact keeps_bind hone fun file' v hv hfile => by
      have hrest := ih file' hv (hfile.1 ▸ hfile.2)
      rw [hfile.1] at hrest
      exact hrest

theorem keeps_init (u : Upload) (w : World) :
    Keeps sv w.files (SftpFile.init sv u.filename 26 u.attrs) (fun file v => Temporary sv file.fd v) w := by
  unfold SftpFile.init
  refine keeps_bind (keeps_openFile _ _ _ (Preserves.refl w.files)) fun fd t ht hfd =>
    keeps_bind (keeps_inFs_quiescent (quiescent_setAttrs _ _) ht hfd) fun _ t ht hfd =>
      keeps_pure ht hfd

theorem keeps_closeFile (fd : Option Nat) (hw : Preserves sv files w.files) (hfd : Temporary sv fd w) :
    Keeps sv files (closeFile sv fd) (fun _ _ => True) w := by
  unfold closeFile
  split
  · exact keeps_pure hw trivial
  · exact keeps_pure hw trivial
  · rename_i fd hpos
    refine keeps_bind (keeps_item hw hfd) fun temp t ht htemp => ?_
    obtain ⟨rfl, hdigest⟩ := htemp
    refine (keeping_query _).before ht fun data t _ ht => ?_
    have hmove : Keeping sv (modify fun w : World =>
        { w with files := moved w.files temp (shasumfile sv data) data }) :=
      along_modify fun w => preserves_moved w.files hdigest (.inr rfl)
    refine hmove.before ht fun _ t _ ht => (keeping_query _).before ht fun filename t _ ht =>
      (keeping_query _).before ht fun r t _ ht => ?_
    cases r with
    | none => exact keeps_throw ht
    | some x => exact (keeping_bind (keeping_updateRealfile x _) fun _ => keeping_inFs _).keeps ht

theorem keeps_close (file : SftpFile) (hw : Preserves sv files w.files) (hfd : Temporary sv file.fd w) :
    Keeps sv files (file.close sv) (fun _ _ => True) w := by
  have hsize : Keeps sv files (when (0 < file.bytesReceived) (inFs (updateSize file.filename
      file.bytesReceived))) (fun _ v => Temporary sv file.fd v) w :=
    ensures_when (fun _ => keeps_inFs_quiescent (quiescent_updateSize _ _) hw hfd) fun _ => ⟨hw, hfd⟩
  exact keeps_bind hsize fun _ t ht hfd => keeps_closeFile file.fd ht hfd

/-- **An upload.** -/
theorem keeping_upload (u : Upload) : Keeping sv (upload sv u) := by
  intro w
  have hall : Keeps sv w.files (upload sv u) (fun _ _ => True) w := by
    unfold upload
    refine keeps_bind (keeps_init u w) fun file t ht hfd =>
      keeps_bind (keeps_writeChunks u.chunks file ht hfd) fun file' t ht hfile => ?_
    obtain ⟨hsame, hfd'⟩ := hfile
    rw [← hsame] at hfd'
    exact keeps_close file' ht hfd'
  exact (hall.mono (fun _ h => h) fun _ _ _ h => h.1).final

end Cowrie.Shell.Artifacts
