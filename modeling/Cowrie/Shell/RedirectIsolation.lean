import Cowrie.Shell.RedirectAppend

/-!
# Redirections and other files (`src/cowrie/shell/pipe.py:135-226`, `322-340`)

A session is a list of `Step`s: a command with one redirection, `cp`, `mv` or `rm`.
Nodes that share a backing share their contents: `cp` copies `A_REALFILE` with the rest of a node, and a
new backing has a name made of the time in seconds and of the path with every other sign replaced by `_`.

* `Isolated w v f`: from `w` to `v` no path but those that denote what `f` denotes has other contents.
* `Exclusive`: nothing but the target has the backing that the redirection uses; a new backing is empty, and
  what is replaced has no entries.
* **`isolated_of_exclusive`**: in a session whose redirections are all exclusive, each one leaves other files
  alone, and `cmd > g` leaves in `g` what `cmd` wrote.
* `isolated_violated`: after `cp a b`, `>a` changes `b`.
-/

namespace Cowrie.Shell.Redirect

open Cowrie.Lib Fs Heap HoneyPotFilesystem

/-! ## Sessions -/

/-- A command with one redirection. -/
structure Redirection where
  rest : List (PipeProtocol World) := []
  /-- The command is in a substitution. -/
  captured : Bool := false
  fd : Nat := 1
  target : String
  append : Bool
  name : String
  cmd : Command World
  cmdargs : List String
  writes : List Write

inductive Step
  | redirect (r : Redirection)
  | cp (args : List Str)
  | mv (args : List Str)
  | rm (args : List Str)

/-- The world after a command with one redirection. -/
def Redirection.apply (cfg : Setup) (base : Env World) (r : Redirection) (w : World) : World :=
  (exec (runRedirected (cfg.env base) r.rest r.captured [.file r.fd r.target r.append] r.name r.cmd
    r.cmdargs r.writes) { world := w }).2.world

def Step.apply (cfg : Setup) (base : Env World) (w : World) : Step → World
  | redirect r => r.apply cfg base w
  | cp args => { w with fs := (Op.cp cfg.user args).apply w.fs }
  | mv args => { w with fs := (Op.mv cfg.user args).apply w.fs }
  | rm args => { w with fs := (Op.rm cfg.user args).apply w.fs }

def Step.step (cfg : Setup) (base : Env World) (w : World) (e : Step) : Option World :=
  some (e.apply cfg base w)

/-! ## Isolation -/

/-- What `file_contents` returns, if anything. -/
def contents (cfg : Setup) (w : World) (h : Str) : Option Bytes := (fileContents cfg w h).toOption

/-- `h`, given to `file_contents`, denotes what `f` denotes. -/
def SameFile (w : World) (h f : Str) : Prop :=
  ∃ path x, resolvePath w.fs.home h (dirname h) = some path ∧ w.fs.getfile path = .ok (some x) ∧
    w.fs.getfile f = .ok (some x)

/-- The contents of other files stay. -/
def Isolated (cfg : Setup) (w v : World) (f : Str) : Prop :=
  ∀ h, ¬ SameFile v h f → contents cfg v h = contents cfg w h

/-- A redirection leaves other files alone; if it opens its target to write it anew, the target holds
in the end what the command wrote. -/
def Obeyed (cfg : Setup) (base : Env World) (w : World) : Step → Prop
  | .cp _ | .mv _ | .rm _ => True
  | .redirect r => ∀ f, resolve cfg.user r.target.toList w.fs = .ok f →
      Isolated cfg w (r.apply cfg base w) f ∧
        (r.append = false → (∃ info v, exec (prepareOutputFile cfg r.target.toList false) w =
            (.ok (.file info), v)) →
          fileContents cfg (r.apply cfg base w) f = .ok (dataTo r.fd r.writes))

/-- No node but `x` reads the file of the host. -/
def Unshared (w : World) (real : Str) (x : Option Ref) : Prop :=
  ∀ y, w.fs.Holds y → some y ≠ x → (w.fs.node y).type = .file → backing (w.fs.node y) ≠ some real

/-- The backing that is used, a new one or that of the target, belongs to the target alone. -/
structure Exclusive (cfg : Setup) (w : World) (f : Str) : Prop where
  named : Named w.fs
  new : ∀ r, w.fs.getfile f = .ok r → needsNewBacking cfg (r.map w.fs.node) = true →
    f ≠ "/dev/null".toList → Replaceable cfg w f r ∧
      Unshared w (backingName cfg (w.stamps 0) f) none ∧
      (w.files (backingName cfg (w.stamps 0) f)).getD [] = []
  old : ∀ x real, w.fs.getfile f = .ok (some x) → backing (w.fs.node x) = some real →
    cfg.contentsPath.isPrefixOf real = false → f ≠ "/dev/null".toList →
    (w.fs.node x).type = .file ∧ Opens cfg 1089 real ∧ Unshared w real (some x)

/-- Every redirection of the session is exclusive. -/
def StepExclusive (cfg : Setup) (w : World) : Step → Prop
  | .cp _ | .mv _ | .rm _ => True
  | .redirect r => ∀ f, resolve cfg.user r.target.toList w.fs = .ok f → Exclusive cfg w f

variable {cfg : Setup} {base : Env World} {w v u : World} {f h : Str} {x : Ref}

/-! ### What a path holds -/

theorem contents_found {path : Str} (hpath : resolvePath w.fs.home h (dirname h) = some path)
    (hx : w.fs.getfile path = .ok (some x)) :
    contents cfg w h = (contentsOf cfg w.files (w.fs.node x)).toOption := by
  unfold contents fileContents
  simp only [hpath, hx]

theorem contents_missing {path : Str} (hpath : resolvePath w.fs.home h (dirname h) = some path)
    (hx : ∀ x, w.fs.getfile path ≠ .ok (some x)) : contents cfg w h = none := by
  unfold contents fileContents
  simp only [hpath]
  cases hr : w.fs.getfile path with
  | error e => rfl
  | ok r =>
    cases r with
    | none => rfl
    | some x => exact absurd hr (hx x)

theorem contents_unresolved (hpath : resolvePath w.fs.home h (dirname h) = none) :
    contents cfg w h = none := by
  unfold contents fileContents
  simp only [hpath]
  rfl

/-- Lookups find what they found, or what `f` denotes in the end; what is not that has not changed. -/
theorem isolated_of_lookups (hhome : v.fs.home = w.fs.home)
    (hlookup : ∀ path y, v.fs.getfile path = .ok (some y) → v.fs.getfile f = .ok (some y) ∨
      w.fs.getfile path = .ok (some y))
    (hkept : ∀ path y, w.fs.getfile path = .ok (some y) → v.fs.getfile path = .ok (some y) ∨
      ∃ z, v.fs.getfile path = .ok (some z) ∧ v.fs.getfile f = .ok (some z))
    (hcontents : ∀ y, w.fs.Holds y → v.fs.getfile f ≠ .ok (some y) →
      contentsOf cfg v.files (v.fs.node y) = contentsOf cfg w.files (w.fs.node y)) :
    Isolated cfg w v f := by
  intro h hne
  cases hpath : resolvePath w.fs.home h (dirname h) with
  | none => rw [contents_unresolved hpath, contents_unresolved (by rw [hhome, hpath])]
  | some path =>
    have hpath' : resolvePath v.fs.home h (dirname h) = some path := by rw [hhome, hpath]
    have hnot : ∀ z, v.fs.getfile path = .ok (some z) → v.fs.getfile f ≠ .ok (some z) :=
      fun z hz hf => hne ⟨path, z, hpath', hz, hf⟩
    by_cases hfound : ∃ y, w.fs.getfile path = .ok (some y)
    · obtain ⟨y, hy⟩ := hfound
      rcases hkept path y hy with hv | ⟨z, hz, hf⟩
      · rw [contents_found hpath hy, contents_found hpath' hv,
          hcontents y (holds_getfile hy) (hnot y hv)]
      · exact absurd hf (hnot z hz)
    · rw [contents_missing hpath (not_exists.mp hfound), contents_missing hpath' fun z hz => ?_]
      rcases hlookup path z hz with hf | hw
      · exact hnot z hz hf
      · exact hfound ⟨z, hw⟩

theorem isolated_of_same (hshape : SameShape w.fs.toHeap v.fs.toHeap) (hhome : v.fs.home = w.fs.home)
    (hcontents : ∀ y, w.fs.Holds y → v.fs.getfile f ≠ .ok (some y) →
      contentsOf cfg v.files (v.fs.node y) = contentsOf cfg w.files (w.fs.node y)) :
    Isolated cfg w v f :=
  isolated_of_lookups hhome (fun path _ hy => .inr (hshape.getfile path true ▸ hy))
    (fun path _ hy => .inl ((hshape.getfile path true).trans hy)) hcontents

/-- The nodes and files that are read are the same. -/
theorem contentsOf_congr {files files' : Str → Option Bytes} {n : Node}
    (h : n.type = .file → ∀ real, backing n = some real → files' real = files real) :
    contentsOf cfg files' n = contentsOf cfg files n := by
  by_cases htype : n.type = .file
  · cases hreal : backing n with
    | some real => rw [contentsOf_backing htype hreal, contentsOf_backing htype hreal, h htype real hreal]
    | none =>
      unfold contentsOf
      rw [hreal]
      cases n.contents <;> rfl
  · unfold contentsOf
    simp [htype]

/-- The entries of a directory are not read. -/
theorem contentsOf_entries {files : Str → Option Bytes} {n : Node} {xs ys : List Ref}
    (hxs : n.contents = .list xs) :
    contentsOf cfg files { n with contents := .list ys } = contentsOf cfg files n := by
  have hbacking : backing { n with contents := .list ys } = backing n := rfl
  unfold contentsOf
  rw [hbacking, hxs]
  cases backing n <;> rfl

/-! ### A refused redirection -/

theorem isolated_refused {info : OutputFile} (hquiet : Quiet w v) (hwrote : WroteOne info [] v u) :
    Isolated cfg w u f := by
  obtain ⟨hnode, hfiles⟩ := hwrote.same
  refine isolated_of_same (hquiet.1.sameShape.trans hwrote.shape.sameShape)
    (hwrote.shape.home.trans hquiet.1.home) fun y hy _ => ?_
  rw [hnode, hfiles, hquiet.1.node y hy, hquiet.2]

/-! ### An old backing -/

/-- Nothing but the node `x` and its backing may have changed. -/
structure Within (w v : World) (x : Ref) (real : Str) : Prop where
  shape : Relabelled w.fs v.fs
  realfile : ∀ y, (v.fs.node y).realfile = (w.fs.node y).realfile
  size : ∀ y, y ≠ x → (v.fs.node y).size = (w.fs.node y).size
  files : ∀ r, r ≠ real → v.files r = w.files r

theorem Within.trans {real : Str} (h : Within w v x real) (h' : Within v u x real) :
    Within w u x real where
  shape := h.shape.trans h'.shape
  realfile y := (h'.realfile y).trans (h.realfile y)
  size y hy := (h'.size y hy).trans (h.size y hy)
  files r hr := (h'.files r hr).trans (h.files r hr)

theorem Within.refl (w : World) (x : Ref) (real : Str) : Within w w x real where
  shape := ⟨rfl, rfl, rfl, rfl, fun _ => ⟨_, _, rfl⟩⟩
  realfile _ := rfl
  size _ _ := rfl
  files _ _ := rfl

theorem within_truncated (w : World) (x : Ref) (real : Str) : Within w (truncated w x real) x real where
  shape := relabelled_resized w.fs x 0
  realfile y := by
    unfold truncated
    rw [node_resized]
    split_ifs <;> rfl
  size y hy := by
    unfold truncated
    rw [node_resized, if_neg fun hif => hy hif.1]
  files r hr := Function.update_of_ne hr _ _

theorem WroteOne.within {info : OutputFile} {chunks : List Bytes} (h : WroteOne info chunks w v)
    (hx : w.fs.getfile info.virtual.toList = .ok (some x)) : Within w v x info.real.toList where
  shape := h.shape
  realfile := h.realfile
  size y hy := by
    rw [h.size, if_neg]
    rintro ⟨-, hif, -⟩
    exact hy (Option.some.inj (Except.ok.inj (hif.symm.trans hx)))
  files r hr := by
    rw [h.files, if_neg fun hif => hr hif.1]

theorem Within.node {real : Str} (h : Within w v x real) {y : Ref} (hy : y ≠ x) :
    v.fs.node y = w.fs.node y := by
  obtain ⟨size, realfile, hnode⟩ := h.shape.node y
  have hsize := h.size y hy
  have hreal := h.realfile y
  rw [hnode] at hsize hreal
  obtain rfl : size = (w.fs.node y).size := hsize
  obtain rfl : realfile = (w.fs.node y).realfile := hreal
  exact hnode

theorem isolated_old {real : Str} (h : Within w v x real) (hx : w.fs.getfile f = .ok (some x))
    (hunshared : Unshared w real (some x)) : Isolated cfg w v f := by
  refine isolated_of_same h.shape.sameShape h.shape.home fun y hy hne => ?_
  have hyx : y ≠ x := by
    rintro rfl
    exact hne (by rw [h.shape.sameShape.getfile, hx])
  rw [h.node hyx]
  refine contentsOf_congr fun htype r hr => h.files r fun heq => ?_
  subst heq
  exact hunshared y hy (fun heq => hyx (Option.some.inj heq)) htype hr

/-! ### A new backing -/

/-- A new node `n` with the backing `safe` has taken its place, and nothing else has changed. -/
theorem isolated_new {g : HoneyPotFilesystem} {n : Node} {d : Ref} {r : Option Ref}
    (hready : Replaceable cfg w f r) (hr : w.fs.getfile f = .ok r)
    (hd : w.fs.getPath (dirname f) = .ok d) (hg : Replaced w.fs g d n) (hname : n.name = basename f)
    (hunseen : Unshared w (backingName cfg (w.stamps 0) f) none)
    (hwithin : Within (created cfg f w g n) v w.fs.next (backingName cfg (w.stamps 0) f)) :
    Isolated cfg w v f := by
  have hf := hready.named
  have hshape : SameShape g.toHeap v.fs.toHeap :=
    (relabelled_created cfg f hg).sameShape.trans hwithin.shape.sameShape
  have htarget : g.getfile f = .ok (some w.fs.next) :=
    hg.target hf (by rw [hname]; exact hready.path) hr hd hready.plain
  have hplain : ∀ y, Replaced.Before w.fs d n.name y → w.fs.entries y = [] := fun y hy =>
    hready.plain y (Replaced.before_eq hf hready.path hr hd (hname ▸ hy))
  have hhome : v.fs.home = w.fs.home :=
    hwithin.shape.home.trans ((relabelled_created cfg f hg).home.trans hg.home)
  -- what an old node holds has not changed
  have hold : ∀ y, w.fs.Holds y →
      contentsOf cfg v.files (v.fs.node y) = contentsOf cfg w.files (w.fs.node y) := by
    intro y hy
    have hnew : y ≠ w.fs.next := Replaced.old hf hy
    have hnode : v.fs.node y = g.node y := by
      rw [hwithin.node hnew]
      unfold created
      rw [node_setNode, if_neg hnew]
    have hfiles : ∀ real, real ≠ backingName cfg (w.stamps 0) f → v.files real = w.files real := by
      intro real hreal
      rw [hwithin.files real hreal]
      exact Function.update_of_ne hreal _ _
    have hsame : contentsOf cfg v.files (w.fs.node y) = contentsOf cfg w.files (w.fs.node y) := by
      refine contentsOf_congr fun htype real hreal => hfiles real fun heq => ?_
      subst heq
      exact hunseen y hy nofun htype hreal
    rw [hnode, ← hsame]
    by_cases hyd : y = d
    · -- of the directory only the entries have changed
      subst hyd
      obtain ⟨xs, hxs⟩ := hg.list
      rw [hg.at_dir, contentsOf_entries hxs]
    · rw [hg.elsewhere y hyd hnew]
  refine isolated_of_lookups hhome (fun path y hy => ?_) (fun path y hy => ?_) fun y hy _ => hold y hy
  · rw [hshape.getfile] at hy
    have hlimit : g.getfileAt g.limit path true = .ok (some y) := hy
    have hback := hg.getfileAt_backward hf hlimit
    rw [hg.limit] at hback
    rcases hback with rfl | hback
    · exact .inl (by rw [hshape.getfile, htarget])
    · exact .inr hback
  · have hafter := hg.getfileAt_forward hf hplain le_rfl hy
    rw [← hg.limit] at hafter
    simp only [hshape.getfile]
    rcases hafter with hafter | ⟨hafter, -⟩
    · exact .inl hafter
    · exact .inr ⟨_, hafter, htarget⟩

/-! ## One step -/

/-- An opened target is written through a file of the host that opens, and after the writes other files are
as they were; a target that is written anew holds what was written. -/
def Written (cfg : Setup) (w : World) (f : Str) (append : Bool) (info : OutputFile) (v : World) : Prop :=
  Opens cfg 1089 info.real.toList ∧
    ∀ chunks u, WroteOne info chunks v u → Isolated cfg w u f ∧
      (append = false → fileContents cfg u f = .ok chunks.flatten)

/-- The target has a backing of its own. -/
theorem Exclusive.written_old {append : Bool} {real : Str} (h : Exclusive cfg w f) (hf : Normal f)
    (hx : w.fs.getfile f = .ok (some x)) (hreal : backing (w.fs.node x) = some real)
    (hown : cfg.contentsPath.isPrefixOf real = false) (hnull : f ≠ "/dev/null".toList) :
    Written cfg w f append
      { virtual := String.ofList f, real := String.ofList real
        startSize := if append then (w.fs.node x).size else 0 }
      (if append then w else truncated w x real) := by
  obtain ⟨htype, hopen, hunshared⟩ := h.old x real hx hreal hown hnull
  have hopened : Within w (if append then w else truncated w x real) x real := by
    cases append with
    | true => exact Within.refl w x real
    | false => exact within_truncated w x real
  have hx' := (hopened.shape.sameShape.getfile f true).trans hx
  refine ⟨by simpa using hopen, fun chunks u hwrote => ⟨?_, ?_⟩⟩
  · have hwritten := hwrote.within (x := x) (by simpa using hx')
    refine isolated_old (hopened.trans ?_) hx hunshared
    simpa using hwritten
  · rintro rfl
    have hreal' := backing_congr (hopened.realfile x)
    refine hwrote.fileContents cfg [] hf hx' ((hopened.shape.type x).trans htype) ?_ ?_
    · rw [hreal', hreal, String.toList_ofList]
    · simp [truncated]

/-- The target gets a new backing. -/
theorem Exclusive.written_new {append : Bool} {r : Option Ref} {d : Ref} {g : HoneyPotFilesystem}
    {n : Node} {start : Nat} (h : Exclusive cfg w f) (hf : Normal f) (hr : w.fs.getfile f = .ok r)
    (hneeds : needsNewBacking cfg (r.map w.fs.node) = true) (hd : w.fs.getPath (dirname f) = .ok d)
    (hg : Replaced w.fs g d n) (hname : n.name = basename f) (hnull : f ≠ "/dev/null".toList) :
    Written cfg w f append
      { virtual := String.ofList f, real := String.ofList (backingName cfg (w.stamps 0) f)
        startSize := start } (created cfg f w g n) := by
  obtain ⟨hready, hunseen, hempty⟩ := h.new r hr hneeds hnull
  have htarget := getfile_created cfg h.named hready.path hr hready.plain hd hg hname
  have hnode : (created cfg f w g n).fs.node w.fs.next =
      { n with realfile := some (backingName cfg (w.stamps 0) f) } := by
    unfold created
    rw [node_setNode, if_pos rfl]
  refine ⟨by simpa using hready.opens, fun chunks u hwrote => ⟨?_, ?_⟩⟩
  · have hwritten := hwrote.within (x := w.fs.next) (by simpa using htarget)
    exact isolated_new hready hr hd hg hname hunseen (by simpa using hwritten)
  · rintro -
    refine hwrote.fileContents cfg [] hf htarget (by rw [hnode]; exact hg.type) ?_ ?_
    · rw [hnode, String.toList_ofList]
      exact backing_some (backingName_ne_nil _ _ _) rfl
    · simp [created, appended, hempty]

theorem Exclusive.written {append : Bool} {info : OutputFile} (h : Exclusive cfg w f) (hf : Normal f)
    (hnull : f ≠ "/dev/null".toList) (hopened : Opened cfg w f append info v) :
    Written cfg w f append info v := by
  cases hopened with
  | old hx hreal hown => exact h.written_old hf hx hreal hown hnull
  | new hr hneeds hd hg hname hsize => exact h.written_new hf hr hneeds hd hg hname hnull

theorem Opened.home {append : Bool} {info : OutputFile} (h : Opened cfg w f append info v) :
    v.fs.home = w.fs.home := by
  cases h with
  | old hx hreal hown =>
    cases append with
    | true => rfl
    | false => exact (within_truncated w _ _).shape.home
  | new hr hneeds hd hg hname hsize => exact (relabelled_created cfg f hg).home.trans hg.home

/-- The target, once it is opened, is no file that it was not before. -/
theorem Exclusive.apart {append : Bool} {info : OutputFile} {path : Str} {y : Ref} (h : Exclusive cfg w f)
    (hnull : f ≠ "/dev/null".toList) (hopened : Opened cfg w f append info v)
    (hpath : resolvePath w.fs.home path (dirname path) = some path) (hy : w.fs.getfile path = .ok (some y))
    (hne : w.fs.getfile f ≠ .ok (some y)) : ¬ SameFile v path f := by
  have hhome := hopened.home
  cases hopened with
  | @old x real hx hreal hown =>
    have hshape : SameShape w.fs.toHeap (if append then w else truncated w x real).fs.toHeap := by
      cases append with
      | true => exact (Within.refl w x real).shape.sameShape
      | false => exact (within_truncated w x real).shape.sameShape
    rintro ⟨path', z, hpath', hz, hf⟩
    rw [hhome, hpath] at hpath'
    obtain rfl := Option.some.inj hpath'
    rw [hshape.getfile] at hz hf
    obtain rfl : y = z := Option.some.inj (Except.ok.inj (hy.symm.trans hz))
    exact hne hf
  | @new r d g n hr hneeds hd hg hname hsize =>
    obtain ⟨hready, -, -⟩ := h.new r hr hneeds hnull
    have hf := hready.named
    have hshape := (relabelled_created cfg f hg).sameShape
    have htarget := getfile_created cfg hf hready.path hr hready.plain hd hg hname
    have hplain : ∀ y, Replaced.Before w.fs d n.name y → w.fs.entries y = [] := fun y hbefore =>
      hready.plain y (Replaced.before_eq hf hready.path hr hd (hname ▸ hbefore))
    rintro ⟨path', z, hpath', hz, hfz⟩
    rw [hhome, hpath] at hpath'
    obtain rfl := Option.some.inj hpath'
    obtain rfl : w.fs.next = z := Option.some.inj (Except.ok.inj (htarget.symm.trans hfz))
    rw [hshape.getfile] at hz
    -- the path leads where it led, or to what the new node has replaced
    have hafter := hg.getfileAt_forward hf hplain le_rfl hy
    rw [← hg.limit] at hafter
    rcases hafter with hsame | ⟨-, hbefore⟩
    · have hnew : y = w.fs.next := Option.some.inj (Except.ok.inj (hsame.symm.trans hz))
      exact Replaced.old hf (holds_getfile hy) hnew
    · exact hne (hr.trans (congrArg Except.ok (Replaced.before_eq hf hready.path hr hd (hname ▸ hbefore))))

/-- What the constructor of `PipeProtocol` sees of a refused redirection. -/
theorem prepare_refused (base : Env World) {target : String} {append : Bool}
    (h : Refused cfg w f append (exec (prepareOutputFile cfg target.toList append) w).1
      (exec (prepareOutputFile cfg target.toList append) w).2) :
    ∃ prepared v, (cfg.env base).prepareOutputFile w target append = (prepared, v) ∧ Quiet w v ∧
      ∀ info, prepared ≠ .file info := by
  unfold Setup.env
  simp only
  cases hexec : exec (prepareOutputFile cfg target.toList append) w with
  | mk res v =>
    rw [hexec] at h
    cases res with
    | error e => exact ⟨_, v, rfl, h.quiet, nofun⟩
    | ok prepared =>
      refine ⟨prepared, v, rfl, h.quiet, fun info heq => ?_⟩
      exact h.no_file info (by rw [heq])

/-- **One step.** An exclusive redirection leaves other files alone. -/
theorem obeyed_of_exclusive (cfg : Setup) (base : Env World) (w : World) (e : Step)
    (h : StepExclusive cfg w e) : Obeyed cfg base w e := by
  cases e with
  | cp args => trivial
  | mv args => trivial
  | rm args => trivial
  | redirect r =>
    intro f hf
    have hexclusive := h f hf
    have hnormal : Normal f := resolvePath_normal cfg.cwd_normal (resolve_eq hf)
    rcases exec_prepareOutputFile r.append hf fun r' hr hneeds hnull =>
      (hexclusive.new r' hr hneeds hnull).1 with ⟨info, v, hexec, hopened, hnull⟩ | hrefused
    · obtain ⟨hopen, hwritten⟩ := hexclusive.written hnormal hnull hopened
      have hprepared : (cfg.env base).prepareOutputFile w r.target r.append = (.file info, v) := by
        unfold Setup.env
        simp only [hexec]
      obtain ⟨u, hrun, hwrote⟩ := exec_runRedirected_file (s := { world := w }) r.rest r.captured r.fd
        r.name r.cmd r.cmdargs r.writes hprepared hopen
      have happly : r.apply cfg base w = u.world := by
        unfold Redirection.apply
        rw [hrun]
      rw [happly]
      obtain ⟨hisolated, hcontents⟩ := hwritten _ _ hwrote
      exact ⟨hisolated, fun happend _ => hcontents happend⟩
    · obtain ⟨prepared, v, hprepared, hquiet, hnot⟩ :=
        prepare_refused base hrefused
      obtain ⟨u, hrun, hwrote⟩ := exec_runRedirected_else (s := { world := w }) r.rest r.captured r.fd
        r.name r.cmd r.cmdargs r.writes hprepared hnot
      have happly : r.apply cfg base w = u.world := by
        unfold Redirection.apply
        rw [hrun]
      rw [happly]
      refine ⟨isolated_refused hquiet (hwrote ⟨"", "", 0⟩), fun happend hopened => ?_⟩
      obtain ⟨info, v', hexec⟩ := hopened
      rw [happend, hexec] at hrefused
      exact absurd rfl (hrefused.no_file info)

/-- **Every session.** -/
theorem isolated_of_exclusive (cfg : Setup) (base : Env World) (w : World) (steps : List Step)
    (h : StepsMeet (Step.step cfg base) (StepExclusive cfg) w steps) :
    StepsMeet (Step.step cfg base) (Obeyed cfg base) w steps :=
  stepsMeet_mono (fun s e he => obeyed_of_exclusive cfg base s e he) h

/-! ### `cp` shares a backing -/

/-- A command whose standard output, `data`, goes to a file. -/
def plain (target : String) (append : Bool) (data : List Bytes) : Redirection where
  target := target
  append := append
  name := "echo"
  cmd := demoCommand
  cmdargs := []
  writes := data.map .out

/-- `>a`, then `cp a b`. -/
theorem isolated_copied :
    StepsMeet (Step.step demo demoEnv) (Obeyed demo demoEnv) demoWorld
      [.redirect (plain "a" false [[1]]), .cp [['a'], ['b']]] := by
  refine isolated_of_exclusive demo demoEnv demoWorld _ ⟨fun f hf => ?_, fun _ _ =>
    ⟨trivial, fun _ _ => trivial⟩⟩
  obtain rfl : ['/', 't', 'm', 'p', '/', 'a'] = f := Except.ok.inj hf
  refine ⟨smallFs_wellFormed.named rfl, fun r hr _ _ => ?_, fun x real hx => ?_⟩
  · obtain rfl : none = r := Except.ok.inj hr
    have hnormal := resolvePath_normal demo.cwd_normal (resolve_eq hf)
    exact ⟨⟨smallFs_wellFormed.named rfl, hnormal.splits (by simp), nofun, by decide, 3, rfl⟩,
      fun _ _ _ _ => nofun, rfl⟩
  · cases hx

/-- After `>a` and `cp a b`. -/
def copied : World :=
  Step.apply demo demoEnv (Step.apply demo demoEnv demoWorld (.redirect (plain "a" false [[1]])))
    (.cp [['a'], ['b']])

set_option maxRecDepth 8000 in
/-- `>a`, `cp a b`, `>a`. -/
theorem isolated_violated :
    ¬ StepsMeet (Step.step demo demoEnv) (Obeyed demo demoEnv) demoWorld
      [.redirect (plain "a" false [[1]]), .cp [['a'], ['b']], .redirect (plain "a" false [[2]])] := by
  rintro ⟨-, h⟩
  obtain ⟨-, h⟩ := h _ rfl
  obtain ⟨h, -⟩ := h _ rfl
  obtain ⟨hisolated, -⟩ := h ['/', 't', 'm', 'p', '/', 'a'] rfl
  have hbefore : contents demo copied ['/', 't', 'm', 'p', '/', 'b'] = some [1] := rfl
  have hafter : contents demo (Step.apply demo demoEnv copied (.redirect (plain "a" false [[2]])))
      ['/', 't', 'm', 'p', '/', 'b'] = some [2] := rfl
  have hb := hisolated ['/', 't', 'm', 'p', '/', 'b'] ?_
  · exact absurd (hafter.symm.trans (hb.trans hbefore)) (by simp)
  · rintro ⟨path, x, hpath, hx, ha⟩
    obtain rfl : ['/', 't', 'm', 'p', '/', 'b'] = path := Option.some.inj hpath
    obtain rfl : 3 = x := Option.some.inj (Except.ok.inj hx)
    cases ha

end Cowrie.Shell.Redirect
