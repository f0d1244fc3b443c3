import Cowrie.Shell.RedirectWrites

/-!
# Redirection at the limit of new files (`pipe.py:135-210`, `fs.py:347-371`)

After 10000 new nodes `mkfile` returns `False` and makes nothing. `_create_redirect_target` looks only
for its exceptions, so it goes on with whatever the path denotes: for no node, `update_realfile` gets
`None`, and a node that is there gets the backing as its real file.

* `NeedsFile`: the target is not `/dev/null` and has no backing that may be written to.
* `FailsCleanly`: no exception, an error on the terminal, which keeps `runCommand` from calling the
  command, and the same tree.
* **`limit_never_clean`**: that never happens.
-/

namespace Cowrie.Shell.Redirect

open Cowrie.Lib Fs Heap HoneyPotFilesystem

variable {cfg : Setup} {w : World} {outfile target : Str}

/-- Past the limit, `mkfile` does nothing. -/
theorem exec_mkfile_limit {f : HoneyPotFilesystem} {path : Str} {uid gid : Int} {size mode : Nat}
    (hcount : 10000 < f.newcount) : exec (mkfile path uid gid size mode) f = (.ok false, f) := by
  unfold mkfile
  rw [exec_get_bind, if_pos hcount]
  rfl

/-- `_create_redirect_target` sends no message then. -/
theorem createRedirectTarget_limit (hcount : 10000 < w.fs.newcount) (message : String) :
    (exec (createRedirectTarget cfg outfile) w).1 ≠ .ok (.error message) := by
  unfold createRedirectTarget strftime
  simp only [bind_assoc, exec_get_bind, exec_modify_bind, pure_bind]
  let t : World := { w with stamps := fun i => w.stamps (i + 1) }
  have hmade : exec (do
      let _ ← inFs (mkfile outfile cfg.user.uid cfg.user.gid 0 33188)
      pure (none : Option String)) t = (.ok none, t) := by
    rw [exec_bind, exec_inFs, exec_mkfile_limit hcount]
    rfl
  rw [exec_bind_ok (exec_tryCatch_ok hmade)]
  simp only
  by_cases hopen : Opens cfg 1089 (backingName cfg (w.stamps 0) outfile)
  · rw [exec_bind_ok (exec_appendFile hopen [] t), exec_bind, exec_query]
    cases hfile : t.fs.getfile outfile with
    | error e => exact nofun
    | ok x =>
      cases x with
      | none => exact nofun
      | some x =>
        simp only [exec_get_bind]
        rw [exec_bind, exec_inFs]
        unfold updateRealfile
        rw [exec_get_bind]
        by_cases hreal : (t.fs.node x).realfile.getD [] = [] ∧
            ((appended t.files (backingName cfg (w.stamps 0) outfile) [])
              (backingName cfg (w.stamps 0) outfile)).isSome = true ∧ (t.fs.node x).size < 25000000
        · rw [when_true hreal]
          exact nofun
        · rw [when_false hreal]
          exact nofun
  · obtain ⟨e, he⟩ := exec_appendFile_else hopen [] t
    rw [exec_bind_error he]
    exact nofun

/-- The target has no backing that a redirection may write to. -/
def NeedsFile (cfg : Setup) (w : World) (target : Str) : Prop :=
  ∃ outfile r, resolve cfg.user target w.fs = .ok outfile ∧ outfile ≠ "/dev/null".toList ∧
    w.fs.getfile outfile = .ok r ∧ needsNewBacking cfg (r.map w.fs.node) = true

/-- Past the limit, the target is opened or an exception is raised. -/
theorem prepareOutputFile_limit (hcount : 10000 < w.fs.newcount) (hneeds : NeedsFile cfg w target)
    (append : Bool) (message : String) :
    (exec (prepareOutputFile cfg target append) w).1 ≠ .ok (.failed (some message)) := by
  obtain ⟨outfile, r, houtfile, hnull, hr, hneeds⟩ := hneeds
  have hresolve : exec (query fun w : World => resolve cfg.user target w.fs) w = (.ok outfile, w) := by
    rw [exec_query, houtfile]
  have hfile : exec (query fun w : World => w.fs.getfile outfile) w = (.ok r, w) := by
    rw [exec_query, hr]
  -- the branch of a new backing, whatever is done with it
  have hnew : ∀ k : Except String Str → RedirectM Prepared,
      (∀ safe v, (exec (k (.ok safe)) v).1 ≠ .ok (.failed (some message))) →
      (exec (createRedirectTarget cfg outfile >>= k) w).1 ≠ .ok (.failed (some message)) := by
    intro k hk
    have hcreate := @createRedirectTarget_limit cfg w outfile hcount
    rw [exec_bind]
    cases hexec : exec (createRedirectTarget cfg outfile) w with
    | mk res v =>
      rw [hexec] at hcreate
      cases res with
      | error e => simp
      | ok res =>
        cases res with
        | error message => exact absurd rfl (hcreate message)
        | ok safe => exact hk safe v
  unfold prepareOutputFile
  rw [exec_bind_ok hresolve, exec_bind_ok hfile, if_neg hnull, exec_get_bind]
  simp only [hneeds]
  cases r with
  | none => exact hnew _ fun safe v h => by cases h
  | some x => exact hnew _ fun safe v h => by cases h

/-- A command with one redirection to a file fails as it should: nothing is raised, the error is
reported, so that the command is not called, and the tree is as it was. -/
structure FailsCleanly (cfg : Setup) (base : Env World) (fd : Nat) (target : String) (append : Bool)
    (name : String) (cmd : Command World) (cmdargs : List String) (hasNext redirect : Bool)
    (s : Protocol World) : Prop where
  no_exception : ∃ prepared v,
    exec (prepareOutputFile cfg target.toList append) s.world = (.ok prepared, v)
  reported : ∃ pp t,
    exec (PipeProtocol.new (cfg.env base) name cmd cmdargs hasNext redirect [.file fd target append]) s =
      (.ok pp, t) ∧ pp.redirectionError = true ∧ t.world.fs = s.world.fs

/-- The target of a redirection is prepared without a message: then there is no error to report. -/
theorem openFile_silent {base : Env World} {fd : Nat} {target : String} {append : Bool}
    {pp pp' : PipeProtocol World} {s t : Protocol World}
    (hsilent : ∀ message, (exec (prepareOutputFile cfg target.toList append) s.world).1 ≠
      .ok (.failed (some message)))
    (h : exec (PipeProtocol.openFile (cfg.env base) pp fd target append) s = (.ok pp', t)) :
    pp'.redirectionError = pp.redirectionError := by
  unfold PipeProtocol.openFile Setup.env at h
  rw [exec_get_bind] at h
  simp only at h
  cases hprepare : exec (prepareOutputFile cfg target.toList append) s.world with
  | mk res v =>
    rw [hprepare] at h hsilent
    rw [exec_modify_bind] at h
    have hpp : ∀ p, exec (pure p : ShellM World (PipeProtocol World)) { s with world := v } = (.ok pp', t) →
        pp' = p := fun p hp => (Except.ok.inj (congrArg Prod.fst hp)).symm
    cases res with
    | error e => rw [hpp pp h]
    | ok prepared =>
      cases prepared with
      | devnull => rw [hpp _ h]
      | file info => rw [hpp _ h]
      | failed message =>
        cases message with
        | none => rw [hpp pp h]
        | some message => exact absurd rfl (hsilent message)

/-- **At the limit of new files** no redirection that needs one fails as it should. -/
theorem limit_never_clean {cfg : Setup} {base : Env World} {fd : Nat} {target : String} {append : Bool}
    {name : String} {cmd : Command World} {cmdargs : List String} {hasNext redirect : Bool}
    {s : Protocol World} (hcount : 10000 < s.world.fs.newcount)
    (hneeds : NeedsFile cfg s.world target.toList) :
    ¬ FailsCleanly cfg base fd target append name cmd cmdargs hasNext redirect s := by
  rintro ⟨-, pp, t, hnew, herror, -⟩
  have hsilent := prepareOutputFile_limit hcount hneeds append
  unfold PipeProtocol.new at hnew
  obtain ⟨⟨pp', pending⟩, u, hops, hrest⟩ := exec_bind_inv hnew
  unfold PipeProtocol.applyOps at hops
  obtain ⟨opened, v, hopen, hdone⟩ := exec_bind_inv hops
  obtain ⟨rfl, rfl⟩ := Prod.mk.inj (Except.ok.inj (congrArg Prod.fst hdone))
  obtain rfl := Except.ok.inj (congrArg Prod.fst hrest)
  rw [openFile_silent hsilent hopen] at herror
  cases herror

/-- A session that has made as many nodes as it may. -/
def fullSession : Protocol World :=
  { world := { demoWorld with fs := { smallFs with newcount := 10001 } } }

/-- `>g`, which does not exist: `None` is given to `update_realfile`. -/
theorem redirect_at_limit :
    10000 < fullSession.world.fs.newcount ∧ NeedsFile demo fullSession.world "g".toList ∧
      ¬ FailsCleanly demo demoEnv 1 "g" false "echo" demoCommand [] false false fullSession :=
  have hcount : 10000 < fullSession.world.fs.newcount := by decide
  have hneeds : NeedsFile demo fullSession.world "g".toList :=
    ⟨"/tmp/g".toList, none, by decide, by decide, by decide, by decide⟩
  ⟨hcount, hneeds, limit_never_clean hcount hneeds⟩

/-- The exception is a `TypeError`. -/
theorem missing_target_raises :
    ¬ FailsCleanly demo demoEnv 1 "g" false "echo" demoCommand [] false false fullSession := by
  rintro ⟨⟨prepared, v, hexec⟩, -⟩
  have hraise : (exec (prepareOutputFile demo "g".toList false) fullSession.world).1 =
      .error .typeError := rfl
  rw [hexec] at hraise
  cases hraise

/-- A file that is there and has no backing is opened instead. -/
example : ∃ info, (exec (prepareOutputFile demo "g".toList false)
    { demoWorld with fs := { smallFs with newcount := 10001, node := fun r =>
      { smallFs.node r with
        name := if r = 2 then ['g'] else (smallFs.node r).name
        type := if r = 2 then .file else .dir
        contents := .list (if r = 0 then [1] else if r = 1 then [2] else []) } } }).1 =
      .ok (.file info) := ⟨_, rfl⟩

end Cowrie.Shell.Redirect
