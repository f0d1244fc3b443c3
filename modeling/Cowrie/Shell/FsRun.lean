import Cowrie.Lib.Run
import Cowrie.Shell.FsCareful
import Cowrie.Shell.FsCommands
import Cowrie.Shell.FsCopy

/-!
# Runs of commands and SFTP requests

`Op` is a command of the shell or a request of SFTP, with arbitrary arguments; `apply` is its effect on
the file system, also when it raises. `Careful` is the condition under which it keeps the tree: for `cp`,
`mv` and `unzip` it is one for each source or archive entry, in the state in which its turn comes
(`CpMeets`, `MvMeets`, `UnzipMeets`).

* `keeps_apply`: a careful operation keeps the tree.
* **`wellFormed_of_careful`**: every state of a careful run is a tree.
* `wellFormed_violated`: moving a file onto another leaves two entries of one name.
-/

namespace Cowrie.Shell.Fs

open Cowrie.Lib Heap HoneyPotFilesystem

variable {f : HoneyPotFilesystem} {s : Session} {user : User} {path : Str} {α : Type}

/-- The file system of the session is well-formed. -/
def Tidy (s : Session) : Prop := WellFormed s.fs

theorem ensures_onFs {m : FsM α} {Q : α → Session → Prop} {E : HoneyPotFilesystem → Prop}
    (h : Ensures E m (fun a f => Q a { s with fs := f }) s.fs) (hE : ∀ f, E f → WellFormed f) :
    Ensures Tidy (onFs m) Q s :=
  ensures_zoom (h.mono (fun t ht => hE t ht) fun _ _ _ hQ => hQ)

/-- A function of the file system that keeps the tree. -/
theorem keeps_onFs {m : FsM α} (h : Ensures WellFormed m (fun _ t => WellFormed t) s.fs) :
    Ensures Tidy (onFs m) (fun _ t => Tidy t) s := ensures_onFs h fun _ ht => ht

theorem exec_ask (q : HoneyPotFilesystem → Except FsError α) (s : Session) :
    exec (ask q) s = (q s.fs, s) := exec_query _ s

theorem ensures_ask {q : HoneyPotFilesystem → Except FsError α} {Q : α → Session → Prop}
    (hs : Tidy s) (h : ∀ a, q s.fs = .ok a → Q a s) : Ensures Tidy (ask q) Q s :=
  ensures_query hs h

theorem keeps_write (hs : Tidy s) (data : Str) : Ensures Tidy (write data) (fun _ t => Tidy t) s := hs

theorem keeps_errorWrite (hs : Tidy s) (data : Str) :
    Ensures Tidy (errorWrite data) (fun _ t => Tidy t) s := hs

/-- Write an error, go on. -/
theorem keeps_report (hs : Tidy s) (data : Str) (a : α) :
    Ensures Tidy (do errorWrite data; pure a) (fun _ t => Tidy t) s := by
  rw [ensures_bind]
  exact (keeps_errorWrite hs data).mono (fun _ ht => ht) fun _ t _ ht => ensures_pure ht

/-! ## `touch`, `mkdir`, `rmdir`, `rm` -/

theorem resolve_eq {rpath : Str} (h : resolve user path f = .ok rpath) :
    resolvePath f.home path user.cwd = some rpath := by
  unfold resolve at h
  split at h
  · cases h
  · rename_i p hp
    obtain rfl : p = rpath := by simpa using h
    exact hp

/-- A path that does not exist is not the root, so it has a base name. -/
theorem basename_missing {rpath : Str} (h : resolve user path f = .ok rpath)
    (hmissing : f.exists rpath = .ok false) : basename rpath ≠ [] := by
  refine basename_resolvePath (resolve_eq h) fun heq => ?_
  subst heq
  unfold Heap.exists getfile at hmissing
  cases hlimit : f.limit with
  | zero =>
    rw [hlimit] at hmissing
    cases hmissing
  | succ depth =>
    rw [hlimit] at hmissing
    unfold getfileAt at hmissing
    rw [if_pos rfl] at hmissing
    cases hmissing

theorem keeps_touchOne (hs : Tidy s) (arg : Str) :
    Ensures Tidy (touchOne user arg) (fun _ t => Tidy t) s := by
  unfold touchOne
  rw [ensures_bind]
  refine ensures_ask hs fun pname hpname => ?_
  rw [ensures_bind]
  refine ensures_ask hs fun parent _ => ensures_ite (fun _ => keeps_report hs _ _) fun _ => ?_
  rw [ensures_bind]
  refine ensures_ask hs fun found hfound => ensures_ite (fun _ => ensures_pure hs) fun hmissing => ?_
  obtain rfl : found = false := by simpa using hmissing
  refine ensures_ite (fun _ => keeps_report hs _ _) fun _ => ?_
  rw [ensures_bind]
  refine (keeps_onFs (keeps_mkfile hs ?_)).mono (fun _ ht => ht) fun _ t _ ht => ensures_pure ht
  intro _ _ _ _ _ _
  exact basename_missing hpname hfound

theorem keeps_touchCommand (hs : Tidy s) (args : List Str) :
    Ensures Tidy (touchCommand user args) (fun _ t => Tidy t) s := by
  unfold touchCommand
  refine ensures_ite (fun _ => ?_) fun _ => ?_
  · rw [ensures_bind]
    exact (keeps_errorWrite hs _).mono (fun _ ht => ht) fun _ t _ ht => keeps_errorWrite ht _
  · exact ensures_forEach (fun arg s hs _ => keeps_touchOne hs arg) hs (loopMeets_true args s)

/-- `mkdir`, where its first argument does not exist. -/
def MkdirCommandMeets (user : User) (args : List Str) (f : HoneyPotFilesystem) : Prop :=
  ∀ arg rest pname, args = arg :: rest → resolve user arg f = .ok pname →
    f.exists pname = .ok false → MkdirMeets pname f

theorem keeps_mkdirCommand {args : List Str} (hs : Tidy s)
    (hmeets : MkdirCommandMeets user args s.fs) :
    Ensures Tidy (mkdirCommand user args) (fun _ t => Tidy t) s := by
  cases args with
  | nil => exact ensures_pure hs
  | cons arg rest =>
    unfold mkdirCommand
    rw [ensures_bind]
    refine ensures_ask hs fun pname hpname => ?_
    rw [ensures_bind]
    refine ensures_ask hs fun found hfound =>
      ensures_ite (fun _ => keeps_errorWrite hs _) fun hmissing => ?_
    obtain rfl : found = false := by simpa using hmissing
    have hmkdir : Ensures Tidy (onFs (mkdir pname user.uid user.gid 4096 16877))
        (fun _ t => Tidy t) s :=
      keeps_onFs (keeps_mkdir hs (hmeets arg rest pname rfl hpname hfound))
    exact ensures_tryCatch hmkdir fun e t ht =>
      ensures_ite (fun _ => keeps_errorWrite ht _) fun _ => ensures_throw ht

theorem keeps_rmdirOne (hs : Tidy s) (arg : Str) :
    Ensures Tidy (rmdirOne user arg) (fun _ t => Tidy t) s := by
  unfold rmdirOne
  rw [ensures_bind]
  refine ensures_ask hs fun pname _ => ?_
  rw [ensures_bind]
  refine ensures_ask hs fun parent _ => ?_
  cases parent with
  | none => exact keeps_report hs _ _
  | some directory =>
    rw [ensures_bind]
    refine ensures_ask hs fun xs _ => ?_
    rw [ensures_bind]
    refine ensures_get ?_
    split
    · refine ensures_ite (fun _ => keeps_report hs _ _) fun _ => ?_
      rw [ensures_bind]
      exact (keeps_onFs (keeps_removeEntry hs)).mono (fun _ ht => ht) fun _ t _ ht =>
        ensures_pure ht
    · exact keeps_report hs _ _

theorem keeps_rmdirCommand (hs : Tidy s) (args : List Str) :
    Ensures Tidy (rmdirCommand user args) (fun _ t => Tidy t) s :=
  ensures_forEach (fun arg _ hs _ => keeps_rmdirOne hs arg) hs (loopMeets_true args s)

theorem keeps_rmEntry {recursive verbose : Bool} {directory : Ref} {name : Str} (hs : Tidy s)
    (i : Ref) : Ensures Tidy (rmEntry recursive verbose directory name i) (fun _ t => Tidy t) s := by
  unfold rmEntry
  rw [ensures_bind]
  refine ensures_get (ensures_ite (fun _ => ensures_pure hs) fun _ => ?_)
  refine ensures_ite (fun _ => keeps_report hs _ _) fun _ => ?_
  rw [ensures_bind]
  refine (keeps_onFs (keeps_removeEntry hs)).mono (fun _ ht => ht) fun _ t _ ht => ?_
  rw [ensures_bind]
  exact ensures_when (fun _ => ht) fun _ => ht

theorem keeps_rmOne {recursive force verbose : Bool} (hs : Tidy s) (arg : Str) :
    Ensures Tidy (rmOne user recursive force verbose arg) (fun _ t => Tidy t) s := by
  unfold rmOne
  rw [ensures_bind]
  refine ensures_ask hs fun pname _ => ?_
  rw [ensures_bind]
  refine ensures_ask hs fun directory _ => ?_
  rw [ensures_bind]
  refine ensures_ask hs fun own _ => ?_
  split
  · rw [ensures_bind]
    refine ensures_ask hs fun xs _ => ?_
    rw [ensures_bind]
    refine (ensures_forEach (fun i s hs _ => keeps_rmEntry hs i) hs (loopMeets_true xs s)).mono
      (fun _ ht => ht) fun _ t _ ht => ensures_pure ht
  · rw [ensures_bind]
    exact ensures_when (fun _ => hs) fun _ => hs

theorem keeps_rmCommand (hs : Tidy s) (args : List Str) :
    Ensures Tidy (rmCommand user args) (fun _ t => Tidy t) s := by
  unfold rmCommand
  refine ensures_ite (fun _ => ?_) fun _ => ?_
  · rw [ensures_bind]
    exact (keeps_errorWrite hs _).mono (fun _ ht => ht) fun _ t _ ht => keeps_errorWrite ht _
  · split
    · rw [ensures_bind]
      exact (keeps_errorWrite hs _).mono (fun _ ht => ht) fun _ t _ ht => keeps_errorWrite ht _
    · refine ensures_ite (fun _ => keeps_write hs _) fun _ => ?_
      exact ensures_forEach (fun arg s hs _ => keeps_rmOne hs arg) hs (loopMeets_true _ s)

/-! ## `cp` -/

theorem ensures_deepcopy (h : WellFormed f) :
    Ensures WellFormed (deepcopy path) (fun s t => WellFormed t ∧ Apart t s) f := by
  unfold deepcopy
  rw [ensures_bind]
  refine ensures_query h fun found hfound => ?_
  cases found with
  | none => exact ensures_throw h
  | some x =>
    rw [ensures_bind]
    refine ensures_query h fun r hr => ?_
    obtain ⟨s, g, memo⟩ := r
    rw [ensures_bind]
    exact ensures_modify (ensures_pure (deepcopyAt_tree h (holds_getfile hfound) hr))

/-- A turn of `cp`: where it is about to append the copy, the copy has a name. -/
def CpMeets (user : User) (p : Files) (src : Str) (f : HoneyPotFilesystem) : Prop :=
  ∀ rsrc, resolve user src f = .ok rsrc → f.exists rsrc = .ok true →
    (recursive p.optlist ∨ ¬ f.isdir rsrc) → ∀ s g, exec (deepcopy rsrc) f = (.ok s, g) →
    ∀ d xs, g.getPath p.target = .ok d → (g.node d).contents = .list xs → p.cpName src ≠ []

theorem slash_notMem_cpName (p : Files) (src : Str) : '/' ∉ p.cpName src := by
  unfold Files.cpName
  split_ifs
  · exact slash_notMem_basename _
  · exact slash_notMem_basename _

theorem keeps_cpOne {p : Files} {src : Str} (hs : Tidy s) (hmeets : CpMeets user p src s.fs) :
    Ensures Tidy (cpOne user p src) (fun _ t => Tidy t) s := by
  unfold cpOne
  rw [ensures_bind]
  refine ensures_ask hs fun rsrc hrsrc => ?_
  rw [ensures_bind]
  refine ensures_ask hs fun found hfound => ensures_ite (fun _ => keeps_report hs _ _) fun hexists => ?_
  obtain rfl : found = true := by simpa using hexists
  rw [ensures_bind]
  refine ensures_get (ensures_ite (fun _ => keeps_report hs _ _) fun hcopied => ?_)
  have hcopied : recursive p.optlist ∨ ¬ s.fs.isdir rsrc := by
    simp only [not_and_or, not_not] at hcopied
    exact hcopied
  rw [ensures_bind]
  refine ensures_onFs (E := WellFormed) ?_ fun _ ht => ht
  refine (ensures_deepcopy hs).mono (fun _ ht => ht) fun c g hcopy hg => ?_
  obtain ⟨htree, hapart⟩ := hg
  rw [ensures_bind]
  refine ensures_ask htree fun directory hdirectory => ?_
  have hholds : g.Holds directory := holds_getPath hdirectory
  rw [ensures_bind]
  refine (keeps_onFs ?_).mono (fun _ ht => ht) fun _ t _ ht => ensures_pure ht
  -- the entry of the name goes, the copy takes it and is appended
  rw [ensures_bind]
  refine (ensures_removeNamed htree hholds).mono (fun _ ht => ht) fun _ t _ ht => ?_
  have hout := ht.apart c hapart
  rw [ensures_bind]
  refine ensures_modify ?_
  refine keeps_append (ht.tree.setName_apart hout.not_holds) hout.setName ?_ fun xs hxs => ?_
  · exact reach_setName.mpr ht.holds
  · have hname : (t.setName c (p.cpName src)).name c = p.cpName src := by
      rw [name_setName, if_pos rfl]
    have hne : c ≠ directory := fun heq => hout.not_holds (heq ▸ ht.holds)
    rw [setName, node_setNode, if_neg hne.symm] at hxs
    obtain ⟨ys, hys⟩ := ht.list xs hxs
    rw [hname]
    refine ⟨⟨?_, slash_notMem_cpName p src⟩, fun y hy => ?_⟩
    · exact hmeets rsrc hrsrc hfound hcopied c g hcopy directory ys hdirectory hys
    · have hy : y ∈ t.entries directory := entries_eq hxs ▸ hy
      have hyc : y ≠ c := fun heq => hout.not_holds (heq ▸ ht.holds.entry hy)
      rw [name_setName, if_neg hyc]
      exact ht.room y hy

/-! ## `mv` -/

/-- The source in both places: renamed, and appended to the destination `d`. -/
def HoneyPotFilesystem.doubled (f : HoneyPotFilesystem) (s d : Ref) (newname : Str) :
    HoneyPotFilesystem :=
  (f.setName s newname).setEntries d (f.entries d ++ [s])

/-- A turn of `mv`, where source `s` and destination `d` are found.

* If the destination holds `bytes`, the source is only renamed, in its place, where the name must be
  free.
* Otherwise the directory of the source path must be found again after the renaming, and `s` must be
  the first entry in it that equals `s`. If `s` was an entry there, it moves: the name must be free
  in the destination, unless that is below `s` and goes with it. If it was not, since the source path
  is a link, the directory is the destination, and `s` is only renamed. -/
def MvMeets (user : User) (p : Files) (src : Str) (f : HoneyPotFilesystem) : Prop :=
  ∀ rsrc s d, resolve user src f = .ok rsrc → f.getfile rsrc = .ok (some s) →
    f.getPath p.target = .ok d →
    ((∃ data, (f.node d).contents = .bytes data) ∧ RoomBeside f s (p.mvName src)) ∨
      (∃ xs, (f.node d).contents = .list xs) ∧
        ∃ sd, (f.doubled s d (p.mvName src)).getPath (dirname rsrc) = .ok sd ∧
        FirstIs (f.doubled s d (p.mvName src)).toHeap s
          ((f.doubled s d (p.mvName src)).entries sd) ∧
        (s ∈ f.entries sd ∧ (f.objects.Reach s d ∨
            p.mvName src ≠ [] ∧ ∀ y ∈ f.entries d, y ≠ s → f.name y ≠ p.mvName src) ∨
          s ∉ f.entries sd ∧ RoomBeside f s (p.mvName src))

theorem slash_notMem_mvName (p : Files) (src : Str) : '/' ∉ p.mvName src := by
  unfold Files.mvName
  split_ifs
  · exact slash_notMem_basename _
  · exact slash_notMem_basename _

/-- The removal that completes a move. -/
theorem keeps_completed {d sd x : Ref} {newname : Str} (h : WellFormed f) (hsd : f.Holds sd)
    (hd : f.Holds d) (hslash : '/' ∉ newname)
    (hroom : x ∈ f.entries sd ∧ (f.objects.Reach x d ∨
        newname ≠ [] ∧ ∀ y ∈ f.entries d, y ≠ x → f.name y ≠ newname) ∨
      x ∉ f.entries sd ∧ x ∈ (f.doubled x d newname).entries sd ∧ RoomBeside f x newname) :
    WellFormed ((f.doubled x d newname).setEntries sd
      (((f.doubled x d newname).entries sd).erase x)) := by
  have hdoubled : ∀ q, (f.doubled x d newname).entries q =
      if q = d then f.entries d ++ [x] else f.entries q := by
    intro q
    rw [doubled, entries_setEntries, entries_setName]
  rcases hroom with ⟨hx, hroom⟩ | ⟨hx, hmem, hroom⟩
  · -- taken out of `sd` and appended to `d`, in the other order
    have hmove := h.move hsd hx newname d fun hheld => ?_
    · refine hmove.congr ?_ ?_ rfl rfl
      · funext q
        rw [entries_setEntries, entries_setEntries, hdoubled, hdoubled]
        have htaken : ∀ r, (f.takenOut sd x newname).entries r =
            if r = sd then (f.entries sd).erase x else f.entries r := by
          intro r
          rw [takenOut, entries_setName, entries_setEntries]
        rw [htaken, htaken]
        by_cases hqs : q = sd <;> by_cases hqd : q = d
        · subst hqs
          subst hqd
          simp only [if_pos]
          exact List.erase_append_left _ hx
        · subst hqs
          simp only [if_pos, if_neg hqd]
        · subst hqd
          simp only [if_pos, if_neg hqs]
        · simp only [if_neg hqs, if_neg hqd]
      · funext y
        rw [name_setEntries, name_setEntries, doubled, takenOut, name_setEntries, name_setName,
          name_setName, name_setEntries]
    · rcases hroom with hbelow | ⟨hname, hfree⟩
      · -- the destination goes with the source
        refine absurd hbelow ((detached_erase f sd x).not_reach h.tree hsd hx ?_)
        exact reach_setName.mp hheld
      · refine ⟨⟨hname, hslash⟩, fun y hy hyx => hfree y ?_ hyx⟩
        rw [takenOut, entries_setName, entries_setEntries] at hy
        split_ifs at hy with hds
        · exact hds ▸ List.mem_of_mem_erase hy
        · exact hy
  · -- renamed in its place
    have hsd : sd = d := by
      by_contra hne
      rw [hdoubled, if_neg hne] at hmem
      exact hx hmem
    subst hsd
    refine (h.setName hslash hroom).congr ?_ ?_ rfl rfl
    · funext q
      rw [entries_setEntries, hdoubled, hdoubled, entries_setName]
      by_cases hq : q = sd
      · subst hq
        simp only [if_pos]
        rw [List.erase_append_right _ hx]
        simp
      · simp only [if_neg hq]
    · rw [name_setEntries, doubled, name_setEntries]

theorem holds_doubled {d sd x : Ref} {newname : Str} (hx : f.Holds x)
    (h : (f.doubled x d newname).Holds sd) : f.Holds sd := by
  have hentries : ∀ q c, c ∈ (f.doubled x d newname).entries q → c ∈ f.entries q ∨ c = x := by
    intro q c hc
    rw [doubled, entries_setEntries, entries_setName] at hc
    split_ifs at hc with hq
    · subst hq
      rcases List.mem_append.mp hc with hc | hc
      · exact .inl hc
      · exact .inr (List.mem_singleton.mp hc)
    · exact .inl hc
  unfold Holds at h
  induction h with
  | refl => exact holds_root f.toHeap
  | tail _ hc ih =>
    rcases hentries _ _ hc with hc | rfl
    · exact ih.entry hc
    · exact hx

theorem keeps_mvOne {p : Files} {src : Str} (hs : Tidy s) (hmeets : MvMeets user p src s.fs) :
    Ensures Tidy (mvOne user p src) (fun _ t => Tidy t) s := by
  unfold mvOne
  rw [ensures_bind]
  refine ensures_ask hs fun rsrc hrsrc => ?_
  rw [ensures_bind]
  refine ensures_ask hs fun found hfound => ?_
  cases found with
  | none => exact keeps_report hs _ _
  | some x =>
    rw [ensures_bind]
    refine ensures_ask hs fun d hd => ?_
    rw [ensures_bind]
    refine (keeps_onFs ?_).mono (fun _ ht => ht) fun _ t _ ht => ensures_pure ht
    rw [ensures_bind]
    refine ensures_modify ?_
    rw [ensures_bind]
    have hcontents : ((s.fs.setName x (p.mvName src)).node d).contents = (s.fs.node d).contents := by
      rw [setName, node_setNode]
      split_ifs with hdx
      · rw [hdx]
      · rfl
    unfold append
    rw [ensures_bind]
    refine ensures_get ?_
    rw [hcontents]
    have hslash := slash_notMem_mvName p src
    rcases hmeets rsrc x d hrsrc hfound hd with
      ⟨⟨data, hdata⟩, hroom⟩ | ⟨⟨xs, hxs⟩, sd, hsd, hfirst, hroom⟩
    · rw [hdata]
      exact ensures_throw (WellFormed.setName hs hslash hroom)
    · rw [hxs]
      refine ensures_modify ?_
      obtain rfl := entries_eq hxs
      rw [ensures_bind]
      refine ensures_query_of hsd ?_
      cases hc : ((s.fs.doubled x d (p.mvName src)).node sd).contents with
      | bytes data =>
        have hmem := hfirst.mem
        unfold entries at hmem
        rw [hc] at hmem
        exact absurd hmem List.not_mem_nil
      | list ys =>
        obtain rfl := entries_eq hc
        refine ensures_removeEntry_of hc (listRemove_of_first hfirst) ?_
        have hheld := holds_doubled (holds_getfile hfound) (holds_getPath hsd)
        refine keeps_completed hs hheld (holds_getPath hd) hslash ?_
        rcases hroom with ⟨hx, hroom⟩ | ⟨hx, hroom⟩
        · exact .inl ⟨hx, hroom⟩
        · exact .inr ⟨hx, hfirst.mem, hroom⟩

/-! ## The loops of `cp` and `mv`, and `unzip` -/

theorem keeps_runFiles {plan : HoneyPotFilesystem → Except FsError (List Str ⊕ Files)}
    {one : Files → Str → CommandM Bool} {C : Files → Str → HoneyPotFilesystem → Prop}
    (hone : ∀ p src s, Tidy s → C p src s.fs → Ensures Tidy (one p src) (fun _ t => Tidy t) s)
    (hs : Tidy s)
    (hmeets : ∀ p, plan s.fs = .ok (.inr p) →
      LoopMeets (one p) (fun src s => C p src s.fs) p.sources s) :
    Ensures Tidy (runFiles plan one) (fun _ t => Tidy t) s := by
  unfold runFiles
  rw [ensures_bind]
  refine ensures_ask hs fun r hr => ?_
  cases r with
  | inl messages => exact ensures_modify hs
  | inr p => exact ensures_forEach (fun src s => hone p src s) hs (hmeets p hr)

/-- A turn of `mkfullpath`, where the directory does not exist. -/
def FullpathMeets (directory : Str) (f : HoneyPotFilesystem) : Prop :=
  f.exists directory = .ok false → MkdirMeets directory f

theorem keeps_mkfullpath (hs : Tidy s)
    (hmeets : LoopMeets (mkfullpathOne user) (fun directory s => FullpathMeets directory s.fs)
      (prefixes (split path)) s) :
    Ensures Tidy (mkfullpath user path) (fun _ t => Tidy t) s := by
  refine ensures_forEach (fun directory s hs hmeets => ?_) hs hmeets
  unfold mkfullpathOne
  rw [ensures_bind]
  refine ensures_ask hs fun found hfound =>
    ensures_ite (fun hmissing => ?_) fun _ => ensures_pure hs
  obtain rfl : found = false := by simpa using hmissing
  rw [ensures_bind]
  exact (keeps_onFs (keeps_mkdir hs (hmeets hfound))).mono (fun _ ht => ht) fun _ t _ ht =>
    ensures_pure ht

/-- The session after an entry of the archive has been announced. -/
def ZipInfo.announced (z : ZipInfo) (s : Session) : Session :=
  { s with written := s.written ++ [.out z.inflating] }

/-- A turn of `unzip`: the directory of an entry can be made, or those above a file and then the
file. -/
def UnzipMeets (user : User) (z : ZipInfo) (s : Session) : Prop :=
  ∀ dest, resolve user (stripSlash z.filename) s.fs = .ok dest →
    if z.isDir then MkdirMeets dest s.fs
    else
      LoopMeets (mkfullpathOne user) (fun directory s => FullpathMeets directory s.fs)
        (prefixes (split (dirname dest))) (z.announced s) ∧
      ∀ t, exec (mkfullpath user (dirname dest)) (z.announced s) = (.ok (), t) →
        MkfileMeets dest t.fs

theorem keeps_unzipOne {z : ZipInfo} (hs : Tidy s) (hmeets : UnzipMeets user z s) :
    Ensures Tidy (unzipOne user z) (fun _ t => Tidy t) s := by
  unfold unzipOne
  rw [ensures_bind]
  refine ensures_ask hs fun dest hdest => ?_
  have hmeets := hmeets dest hdest
  rw [ensures_bind]
  refine ensures_modify ?_
  have hs : Tidy (z.announced s) := hs
  refine ensures_ite (fun hdir => ?_) fun hfile => ?_
  · rw [if_pos hdir] at hmeets
    rw [ensures_bind]
    exact (keeps_onFs (keeps_mkdir hs hmeets)).mono (fun _ ht => ht) fun _ t _ ht => ensures_pure ht
  · rw [if_neg hfile] at hmeets
    rw [ensures_bind]
    refine (keeps_mkfullpath hs hmeets.1).mono (fun _ ht => ht) fun _ t hexec ht => ?_
    rw [ensures_bind]
    exact (keeps_onFs (keeps_mkfile ht (hmeets.2 t hexec))).mono (fun _ ht => ht) fun _ u _ hu =>
      ensures_pure hu

/-- `unzip`, where an archive is opened. -/
def UnzipCommandMeets (infolist : Str → Option (List ZipInfo)) (user : User) (args : List Str)
    (s : Session) : Prop :=
  ∀ filename rest path x t, args = filename :: rest → filename.head? ≠ some '-' →
    resolve user filename s.fs = .ok path → archive path s.fs = .ok (some x) →
    opened infolist x s.fs = some t → LoopMeets (unzipOne user) (UnzipMeets user) t
      { s with written := s.written ++ [.out ("Archive:  ".toList ++ filename ++ "\n".toList)] }

theorem keeps_unzipCommand {infolist : Str → Option (List ZipInfo)} {args : List Str} (hs : Tidy s)
    (hmeets : UnzipCommandMeets infolist user args s) :
    Ensures Tidy (unzipCommand infolist user args) (fun _ t => Tidy t) s := by
  cases args with
  | nil => exact keeps_write hs _
  | cons filename rest =>
    unfold unzipCommand
    refine ensures_ite (fun _ => keeps_write hs _) fun hdash => ?_
    rw [ensures_bind]
    refine ensures_ask hs fun path hpath => ?_
    rw [ensures_bind]
    refine ensures_ask hs fun found hfound => ?_
    cases found with
    | none => exact keeps_write hs _
    | some x =>
      rw [ensures_bind]
      refine ensures_get ?_
      cases hopened : opened infolist x s.fs with
      | none =>
        rw [ensures_bind]
        exact (keeps_write hs _).mono (fun _ ht => ht) fun _ t _ ht => keeps_write ht _
      | some t =>
        rw [ensures_bind]
        refine ensures_modify ?_
        exact ensures_forEach (fun z s hs hmeets => keeps_unzipOne hs hmeets) hs
          (hmeets filename rest path x t rfl hdash hpath hfound hopened)

/-! ## Runs -/

/-- A command of the shell, or a request of SFTP. -/
inductive Op
  | touch (user : User) (args : List Str)
  | mkdir (user : User) (args : List Str)
  | rmdir (user : User) (args : List Str)
  | rm (user : User) (args : List Str)
  | cp (user : User) (args : List Str)
  | mv (user : User) (args : List Str)
  | unzip (infolist : Str → Option (List ZipInfo)) (user : User) (args : List Str)
  | mkdir2 (path : Str)
  | sftpRmdir (path : Str)
  | sftpRemove (path : Str)
  | sftpRename (oldpath newpath : Str)
  | sftpOpen (host : Host) (filename : Str) (openFlags mode : Nat)

/-- The file system after a command that began with nothing written. -/
def after (m : CommandM Unit) (f : HoneyPotFilesystem) : HoneyPotFilesystem :=
  (exec m { fs := f }).2.fs

/-- The file system after the operation, whether it raised or not. -/
def Op.apply (f : HoneyPotFilesystem) : Op → HoneyPotFilesystem
  | touch user args => after (touchCommand user args) f
  | mkdir user args => after (mkdirCommand user args) f
  | rmdir user args => after (rmdirCommand user args) f
  | rm user args => after (rmCommand user args) f
  | cp user args => after (cpCommand user args) f
  | mv user args => after (mvCommand user args) f
  | unzip infolist user args => after (unzipCommand infolist user args) f
  | mkdir2 path => (exec (Fs.mkdir2 path) f).2
  | sftpRmdir path => (exec (Fs.rmdir path) f).2
  | sftpRemove path => (exec (Fs.remove path) f).2
  | sftpRename oldpath newpath => (exec (Fs.rename oldpath newpath) f).2
  | sftpOpen host filename openFlags mode => (exec (openFile host filename openFlags mode) f).2

def Op.step (f : HoneyPotFilesystem) (op : Op) : Option HoneyPotFilesystem := some (op.apply f)

/-- The operation gives no entry an empty name or the name of another, and removes what it means
to. -/
def Careful (f : HoneyPotFilesystem) : Op → Prop
  | .touch _ _ | .rmdir _ _ | .rm _ _ | .sftpRmdir _ | .sftpRemove _ => True
  | .mkdir user args => MkdirCommandMeets user args f
  | .cp user args => ∀ p, cpPlan user args f = .ok (.inr p) →
      LoopMeets (cpOne user p) (fun src s => CpMeets user p src s.fs) p.sources { fs := f }
  | .mv user args => ∀ p, mvPlan user args f = .ok (.inr p) →
      LoopMeets (mvOne user p) (fun src s => MvMeets user p src s.fs) p.sources { fs := f }
  | .unzip infolist user args => UnzipCommandMeets infolist user args { fs := f }
  | .mkdir2 path => Mkdir2Meets path f
  | .sftpRename oldpath newpath => RenameMeets oldpath newpath f
  | .sftpOpen _ filename openFlags _ => OpenMeets filename openFlags f

theorem keeps_after {m : CommandM Unit} (h : Ensures Tidy m (fun _ t => Tidy t) { fs := f }) :
    WellFormed (after m f) := h.final

theorem keeps_apply (h : WellFormed f) {op : Op} (hcareful : Careful f op) :
    WellFormed (op.apply f) := by
  have hs : Tidy { fs := f } := h
  cases op with
  | touch user args => exact keeps_after (keeps_touchCommand hs args)
  | mkdir user args => exact keeps_after (keeps_mkdirCommand hs hcareful)
  | rmdir user args => exact keeps_after (keeps_rmdirCommand hs args)
  | rm user args => exact keeps_after (keeps_rmCommand hs args)
  | cp user args =>
    refine keeps_after (keeps_runFiles (C := CpMeets user) (fun p src s hs hmeets => ?_) hs hcareful)
    exact keeps_cpOne hs hmeets
  | mv user args =>
    refine keeps_after (keeps_runFiles (C := MvMeets user) (fun p src s hs hmeets => ?_) hs hcareful)
    exact keeps_mvOne hs hmeets
  | unzip infolist user args => exact keeps_after (keeps_unzipCommand hs hcareful)
  | mkdir2 path => exact (keeps_mkdir2 h hcareful).final
  | sftpRmdir path => exact (keeps_rmdir h).final
  | sftpRemove path => exact (keeps_remove h).final
  | sftpRename oldpath newpath => exact (keeps_rename h hcareful).final
  | sftpOpen host filename openFlags mode => exact (keeps_openFile h hcareful).final

/-- **Every state of a careful run is a tree.** -/
theorem wellFormed_of_careful {ops : List Op} (h : WellFormed f)
    (hcareful : StepsMeet Op.step Careful f ops) : StatesMeet Op.step WellFormed f ops := by
  refine statesMeet_of_inv (fun f op t h hcareful ht => ?_) h hcareful
  obtain rfl : op.apply f = t := Option.some.inj ht
  exact keeps_apply h hcareful

/-- The root and an empty `/tmp`. -/
def smallFs : HoneyPotFilesystem where
  node r :=
    { name := if r = 0 then ['/'] else ['t', 'm', 'p'], type := .dir, uid := 0, gid := 0, size := 0
      mode := 0, ctime := 0, contents := .list (if r = 0 then [1] else []) }
  fs := 0
  limit := 100
  next := 2
  home := ['/']
  clock i := i

/-- A user in `/tmp`. -/
def tmpUser : User where
  uid := 0
  gid := 0
  cwd := ['/', 't', 'm', 'p']

theorem smallFs_wellFormed : WellFormed smallFs := by
  have hroot : smallFs.entries 0 = [1] := rfl
  have hrest : ∀ p, p ≠ 0 → smallFs.entries p = [] := by
    intro p hp
    unfold entries smallFs
    simp [hp]
  have hreach : ∀ x, smallFs.Holds x → x = 0 ∨ x = 1 := by
    intro x hx
    induction hx with
    | refl => exact .inl rfl
    | @tail p c _ hc ih =>
      change c ∈ smallFs.entries p at hc
      rcases ih with rfl | rfl
      · rw [hroot] at hc
        exact .inr (List.mem_singleton.mp hc)
      · rw [hrest 1 (by decide)] at hc
        exact absurd hc List.not_mem_nil
  have hentry : ∀ p c, c ∈ smallFs.entries p → p = 0 ∧ c = 1 := by
    intro p c hc
    by_cases hp : p = 0
    · subst hp
      rw [hroot] at hc
      exact ⟨rfl, List.mem_singleton.mp hc⟩
    · rw [hrest p hp] at hc
      exact absurd hc List.not_mem_nil
  constructor
  · apply Objects.IsTree.of_parents
    · exact (Set.toFinite {0, 1}).subset hreach
    · intro p q x _ _ hp hq
      rw [(hentry p x hp).1, (hentry q x hq).1]
    · intro p _ hmem
      exact absurd (hentry p 0 hmem).2 (by decide)
    · intro p _
      by_cases hp : p = 0
      · subst hp
        exact List.nodup_singleton _
      · change ((smallFs.entries p).map smallFs.name).Nodup
        rw [hrest p hp]
        exact List.nodup_nil
    · intro p _ x hx
      obtain ⟨-, rfl⟩ := hentry p x hx
      exact ⟨by decide, by decide⟩
  · intro x hx
    rcases hreach x hx with rfl | rfl <;> decide

/-- A careful run: `touch a; mv a b`. -/
theorem wellFormed_renamed :
    StatesMeet Op.step WellFormed smallFs [.touch tmpUser [['a']], .mv tmpUser [['a'], ['b']]] := by
  refine wellFormed_of_careful smallFs_wellFormed ⟨trivial, fun t ht => ⟨?_, fun _ _ => trivial⟩⟩
  obtain rfl := Option.some.inj ht
  intro p hp
  obtain rfl := Sum.inr.inj (Except.ok.inj (hp.symm.trans rfl))
  refine ⟨fun rsrc s d hrsrc hs hd => .inr ?_, fun _ _ => trivial⟩
  obtain rfl : ['/', 't', 'm', 'p', '/', 'a'] = rsrc := Except.ok.inj hrsrc
  obtain rfl : 2 = s := Option.some.inj (Except.ok.inj hs)
  obtain rfl : 1 = d := Except.ok.inj hd
  refine ⟨⟨[2], rfl⟩, 1, rfl, ⟨[], [2], rfl, nofun⟩, .inl ⟨List.mem_singleton_self 2, .inr ⟨nofun, ?_⟩⟩⟩
  intro y hy hne
  exact absurd (List.mem_singleton.mp hy) hne

/-- After `touch a b; mv a b`. -/
def overwritten : HoneyPotFilesystem :=
  (Op.mv tmpUser [['a'], ['b']]).apply ((Op.touch tmpUser [['a'], ['b']]).apply smallFs)

/-- Moving a file onto another leaves two entries of one name. -/
theorem wellFormed_violated :
    ¬ ∀ f ops, WellFormed f → StatesMeet Op.step WellFormed f ops := by
  intro h
  have hrun := h smallFs [.touch tmpUser [['a'], ['b']], .mv tmpUser [['a'], ['b']]] smallFs_wellFormed
  have hlast : WellFormed overwritten := (hrun.2 _ rfl).2 _ rfl
  have hmem : 1 ∈ overwritten.entries overwritten.fs := List.mem_singleton_self 1
  have hnames := hlast.tree.names 1 ((holds_root overwritten.toHeap).entry hmem)
  have heq : (overwritten.entries 1).map overwritten.name = [['b'], ['b']] := rfl
  change ((overwritten.entries 1).map overwritten.name).Nodup at hnames
  rw [heq] at hnames
  exact absurd hnames (by decide)

end Cowrie.Shell.Fs
