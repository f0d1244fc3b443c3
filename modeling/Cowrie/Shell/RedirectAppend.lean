import Cowrie.Shell.RedirectWrites

/-!
# One redirection of one command

`dataTo fd writes` is what a command writes to a descriptor. With one redirection, of that descriptor to a
file, it is what reaches the file: `exec_runRedirected_file`.

`Appendable` says that the session may write an existing regular file; `Holding` says what `file_contents`
returns, and that the size agrees.

* **`appended_iff_preserved`**: after `cmd >> f` the file holds the old contents and then the data, if and only
  if its size was right and it keeps its backing, or the new backing has its contents (`Preserved`).
* `appended_lost`: contents that come from the pickle file are lost.
-/

namespace Cowrie.Shell.Redirect

open Cowrie.Lib Fs Heap HoneyPotFilesystem

/-! ## One redirection -/

/-- The writes to a descriptor. -/
def writesTo (fd : Nat) (writes : List Write) : List Bytes :=
  (writes.filter fun d => d.fd = fd).map Write.data

/-- What is written to a descriptor. -/
def dataTo (fd : Nat) (writes : List Write) : Bytes := (writesTo fd writes).flatten

variable {cfg : Setup} {base : Env World} {rest : List (PipeProtocol World)} {redirect append : Bool}
  {name : String} {cmd : Command World} {cmdargs : List String} {fd : Nat} {target : String}
  {writes : List Write} {s : Protocol World} {info : OutputFile} {w v : World} {real : Str}

/-- A descriptor that no redirection has changed leads to no file. -/
theorem fileWrite_default (hasNext redirect : Bool) {targets : Nat → Option Target} {d : Write}
    (h : targets d.fd = PipeProtocol.defaultTargets hasNext redirect d.fd) :
    fileWrite cfg targets d = none := by
  unfold fileWrite
  rw [h]
  cases d <;> cases hasNext <;> cases redirect <;> rfl

theorem fileWrites_none {targets : Nat → Option Target}
    (h : ∀ d ∈ writes, fileWrite cfg targets d = none) : fileWrites cfg targets writes = [] := by
  unfold fileWrites
  rw [List.filterMap_eq_nil_iff]
  exact h

/-- The descriptor `fd` leads to the file, the others are as they were. -/
theorem fileWrites_file {targets : Nat → Option Target} (hopen : Opens cfg 1089 info.real.toList)
    (hfd : targets fd = some (.file info)) (hasNext redirect : Bool)
    (hother : ∀ n, n ≠ fd → targets n = PipeProtocol.defaultTargets hasNext redirect n) :
    fileWrites cfg targets writes =
      (writesTo fd writes).map fun data => ⟨fd = 1, info, data⟩ := by
  unfold fileWrites writesTo
  induction writes with
  | nil => rfl
  | cons d ds ih =>
    by_cases hd : d.fd = fd
    · have hone : fileWrite cfg targets d = some ⟨fd = 1, info, d.data⟩ := by
        unfold fileWrite
        rw [hd, hfd]
        simp [hopen]
      rw [List.filterMap_cons_some hone, ih, List.filter_cons_of_pos (by simpa using hd)]
      rfl
    · rw [List.filterMap_cons_none (fileWrite_default hasNext redirect (hother d.fd hd)), ih,
        List.filter_cons_of_neg (by simpa using hd)]

/-- What the chunks that are written to a file leave. -/
structure WroteOne (info : OutputFile) (chunks : List Bytes) (w v : World) : Prop where
  shape : Relabelled w.fs v.fs
  realfile : ∀ x, (v.fs.node x).realfile = (w.fs.node x).realfile
  files : ∀ real, v.files real =
    if real = info.real.toList ∧ chunks ≠ [] then some ((w.files real).getD [] ++ chunks.flatten)
    else w.files real
  size : ∀ x, (v.fs.node x).size =
    if chunks ≠ [] ∧ w.fs.getfile info.virtual.toList = .ok (some x) ∧ (w.fs.node x).type = .file then
      info.startSize + chunks.flatten.length
    else (w.fs.node x).size

/-- The counts of a command with one redirection. -/
def counts (fd start : Nat) (isStdout : Bool) : Nat :=
  if fd = (if isStdout then 1 else 2) then start else 0

theorem writesTo_eq_nil (h : fd ≠ 1) (h' : fd ≠ 2) : writesTo fd writes = [] := by
  unfold writesTo
  rw [List.filter_eq_nil_iff.mpr, List.map_nil]
  intro d _
  cases d
  · simp [Write.fd, h.symm]
  · simp [Write.fd, h'.symm]

theorem lastWriter_const (f : HoneyPotFilesystem) (x : Ref) (b : Bool) (info : OutputFile)
    (chunks : List Bytes) :
    lastWriter f x (chunks.map fun data => ⟨b, info, data⟩) =
      if chunks ≠ [] ∧ f.getfile info.virtual.toList = .ok (some x) then some b else none := by
  induction chunks with
  | nil => rfl
  | cons data chunks ih =>
    rw [List.map_cons]
    unfold lastWriter
    rw [ih]
    by_cases hx : f.getfile info.virtual.toList = .ok (some x)
    · by_cases hnil : chunks = []
      · simp [hnil, hx, FileWrite.virtual]
      · simp [hnil, hx]
    · simp [hx, FileWrite.virtual]

theorem Wrote.one (h : Wrote (counts fd info.startSize)
    ((writesTo fd writes).map fun data => ⟨fd = 1, info, data⟩) w v) :
    WroteOne info (writesTo fd writes) w v where
  shape := h.shape
  realfile := h.realfile
  files real := by
    have hbytes : ∀ chunks : List Bytes,
        bytesTo info.real.toList (chunks.map fun data => ⟨fd = 1, info, data⟩) = chunks.flatten := by
      intro chunks
      induction chunks with
      | nil => rfl
      | cons data chunks ih =>
        rw [List.map_cons, bytesTo_cons, ih]
        simp [FileWrite.real]
    rw [h.files]
    by_cases hreal : real = info.real.toList
    · subst hreal
      rw [hbytes]
      cases writesTo fd writes with
      | nil => simp
      | cons data chunks => simp [FileWrite.real]
    · have hnone : ¬ ∃ e ∈ (writesTo fd writes).map fun data => (⟨fd = 1, info, data⟩ : FileWrite),
          e.real = real := by
        rintro ⟨e, he, heq⟩
        obtain ⟨data, -, rfl⟩ := List.mem_map.mp he
        exact hreal heq.symm
      rw [if_neg hnone, if_neg fun hif => hreal hif.1]
  size x := by
    have hamount : ∀ chunks : List Bytes,
        amount (fd = 1) (chunks.map fun data => ⟨fd = 1, info, data⟩) = chunks.flatten.length := by
      intro chunks
      induction chunks with
      | nil => rfl
      | cons data chunks ih =>
        rw [List.map_cons, amount_cons, ih]
        simp
    rw [h.size, lastWriter_const]
    by_cases hx : writesTo fd writes ≠ [] ∧ w.fs.getfile info.virtual.toList = .ok (some x)
    · have hcount : counts fd info.startSize (fd = 1) = info.startSize := by
        have hfd : fd = 1 ∨ fd = 2 := by
          by_contra hnot
          rw [not_or] at hnot
          exact hx.1 (writesTo_eq_nil hnot.1 hnot.2)
        rcases hfd with rfl | rfl <;> rfl
      rw [if_pos hx]
      simp only [hamount, hcount]
      simp [hx]
    · rw [if_neg hx]
      simp only
      rw [if_neg fun hif => hx ⟨hif.1, hif.2.1⟩]

/-- No chunks, no change. -/
theorem Wrote.none {c : Bool → Nat} (h : Wrote c [] w v) (info : OutputFile) :
    WroteOne info [] w v where
  shape := h.shape
  realfile := h.realfile
  files real := by
    rw [h.files]
    simp
  size x := by
    rw [h.size]
    simp [lastWriter]

/-- The protocol of a command with one redirection, to a file. -/
theorem exec_new_file (hasNext redirect : Bool) (fd : Nat) (name : String) (cmd : Command World)
    (cmdargs : List String)
    (hprepared : (cfg.env base).prepareOutputFile s.world target append = (.file info, w)) :
    ∃ p, exec (PipeProtocol.new (cfg.env base) name cmd cmdargs hasNext redirect
        [.file fd target append]) s = (.ok p, { s with world := w }) ∧
      p.cmd = cmd ∧ p.cmdargs = cmdargs ∧ p.inputData = none ∧
      p.targets = Function.update (PipeProtocol.defaultTargets hasNext redirect) fd (some (.file info)) ∧
      p.written = counts fd info.startSize := by
  unfold PipeProtocol.new PipeProtocol.applyOps PipeProtocol.openFile
  simp only [bind_assoc, exec_get_bind, exec_modify_bind, hprepared, pure_bind]
  refine ⟨_, rfl, rfl, rfl, rfl, rfl, ?_⟩
  funext b
  cases b <;> simp [PipeProtocol.written, counts]

/-- What the writes of such a command leave. -/
theorem exec_writes_file (base : Env World) {p : PipeProtocol World} (rest : List (PipeProtocol World))
    {hasNext redirect : Bool} (writes : List Write) (hpp : s.pp = p :: rest) (hopen : Opens cfg 1089 info.real.toList)
    (htargets : p.targets =
      Function.update (PipeProtocol.defaultTargets hasNext redirect) fd (some (.file info)))
    (hwritten : p.written = counts fd info.startSize) :
    ∃ u, exec (writes.forM (write (cfg.env base))) s = (.ok (), u) ∧
      WroteOne info (writesTo fd writes) s.world u.world := by
  obtain ⟨u, hexec, hwrote⟩ := exec_writes cfg base writes hpp
  refine ⟨u, hexec, ?_⟩
  have hfiles : fileWrites cfg p.targets writes = _ :=
    fileWrites_file hopen (by rw [htargets, Function.update_self]) hasNext redirect fun n hn => by
      rw [htargets, Function.update_of_ne hn]
  rw [hwritten, hfiles] at hwrote
  exact hwrote.one

/-- **One redirection**, to a file. -/
theorem exec_runRedirected_file (rest : List (PipeProtocol World)) (redirect : Bool) (fd : Nat)
    (name : String) (cmd : Command World) (cmdargs : List String) (writes : List Write)
    (hprepared : (cfg.env base).prepareOutputFile s.world target append = (.file info, w))
    (hopen : Opens cfg 1089 info.real.toList) :
    ∃ u, exec (runRedirected (cfg.env base) rest redirect [.file fd target append] name cmd cmdargs
        writes) s = (.ok (), u) ∧
      WroteOne info (writesTo fd writes) w u.world := by
  obtain ⟨p, hp, -, -, -, htargets, hwritten⟩ :=
    exec_new_file (rest ≠ []) redirect fd name cmd cmdargs hprepared
  obtain ⟨u, hexec, hwrote⟩ := exec_writes_file base rest writes
    (s := { s with world := w, pp := p :: rest }) rfl hopen htargets hwritten
  refine ⟨u, ?_, hwrote⟩
  unfold runRedirected
  rw [exec_bind_ok hp, exec_modify_bind]
  exact hexec

/-- One redirection, where no file is opened. -/
theorem exec_runRedirected_else (rest : List (PipeProtocol World)) (redirect : Bool) (fd : Nat)
    (name : String) (cmd : Command World) (cmdargs : List String) (writes : List Write)
    {prepared : Prepared} (hprepared : (cfg.env base).prepareOutputFile s.world target append = (prepared, w))
    (hnot : ∀ info, prepared ≠ .file info) :
    ∃ u, exec (runRedirected (cfg.env base) rest redirect [.file fd target append] name cmd cmdargs
        writes) s = (.ok (), u) ∧ ∀ info, WroteOne info [] w u.world := by
  have hnew : ∃ p t, exec (PipeProtocol.new (cfg.env base) name cmd cmdargs (rest ≠ []) redirect
        [.file fd target append]) s = (.ok p, t) ∧ t.world = w ∧
      ∀ d, fileWrite cfg p.targets d = none := by
    have hdefault : ∀ d, fileWrite cfg
        (PipeProtocol.defaultTargets (rest ≠ []) redirect) d = none :=
      fun d => fileWrite_default (rest ≠ []) redirect rfl
    unfold PipeProtocol.new PipeProtocol.applyOps PipeProtocol.openFile
    simp only [bind_assoc, exec_get_bind, exec_modify_bind, hprepared]
    cases prepared with
    | file info => exact absurd rfl (hnot info)
    | failed message =>
      cases message with
      | none => exact ⟨_, _, rfl, rfl, hdefault⟩
      | some message => exact ⟨_, _, rfl, rfl, hdefault⟩
    | devnull =>
      refine ⟨_, _, rfl, rfl, fun d => ?_⟩
      by_cases hd : d.fd = fd
      · simp [fileWrite, hd]
      · exact fileWrite_default (rest ≠ []) redirect (Function.update_of_ne hd _ _)
  obtain ⟨p, t, hp, rfl, hnone⟩ := hnew
  obtain ⟨u, hexec, hwrote⟩ :=
    exec_writes cfg base writes (s := { t with pp := p :: rest }) (p := p) rfl
  refine ⟨u, ?_, fun info => ?_⟩
  · unfold runRedirected
    rw [exec_bind_ok hp, exec_modify_bind, hexec]
  · rw [fileWrites_none fun d _ => hnone d] at hwrote
    exact hwrote.none info

/-! ## Appending -/

/-- The file that takes what is redirected to the node `x`. -/
def usedBacking (cfg : Setup) (w : World) (f : Str) (x : Ref) : Str :=
  if needsNewBacking cfg (some (w.fs.node x)) then backingName cfg (w.stamps 0) f
  else (w.fs.node x).realfile.getD []

/-- `f` is an existing regular file `x` with the contents `old`, and the session may write it: the host
opens the backing, and where a new node is needed, the quota is not used up and the directory is none of
the special ones. -/
structure Appendable (cfg : Setup) (w : World) (target f : Str) (x : Ref) (old : Bytes) : Prop where
  named : Named w.fs
  resolves : resolve cfg.user target w.fs = .ok f
  denotes : w.fs.getfile f = .ok (some x)
  regular : (w.fs.node x).type = .file
  leaf : w.fs.entries x = []
  contents : fileContents cfg w f = .ok old
  opens : Opens cfg 1089 (usedBacking cfg w f x)
  allowed : needsNewBacking cfg (some (w.fs.node x)) = true →
    w.fs.newcount ≤ 10000 ∧ ¬ isSpecial (dirname f)

/-- `file_contents(f)` is `data`, and the size is its length. -/
def Holding (cfg : Setup) (w : World) (f : Str) (data : Bytes) : Prop :=
  fileContents cfg w f = .ok data ∧
    ∀ x, w.fs.getfile f = .ok (some x) → (w.fs.node x).size = data.length

/-- When `cmd >> f` keeps what was there. The size was right, unless the node is new and nothing is
written; a new backing has the old contents already; and nothing is written to `/dev/null`. -/
def Preserved (cfg : Setup) (w : World) (f : Str) (x : Ref) (old : Bytes) (chunks : List Bytes) :
    Prop :=
  if f = "/dev/null".toList then chunks.flatten = [] ∧ (w.fs.node x).size = old.length
  else if needsNewBacking cfg (some (w.fs.node x)) then
    (w.files (backingName cfg (w.stamps 0) f)).getD [] = old ∧
      if chunks = [] then old = [] else (w.fs.node x).size = old.length
  else (w.fs.node x).size = old.length

variable {f : Str} {x : Ref} {old : Bytes}

theorem fileContents_normal (h : Normal f) (w : World) :
    fileContents cfg w f =
      match w.fs.getfile f with
      | .error e => .error e
      | .ok none => .error .fileNotFound
      | .ok (some x) => contentsOf cfg w.files (w.fs.node x) := by
  unfold fileContents
  exact resolvePath_of_normal h w.fs.home (dirname f) ▸ rfl

theorem backing_congr {n m : Node} (h : n.realfile = m.realfile) : backing n = backing m := by
  unfold backing
  rw [h]

theorem contentsOf_backing {files : Str → Option Bytes} {n : Node} (htype : n.type = .file)
    (hreal : backing n = some real) :
    contentsOf cfg files n =
      match files real with
      | some data => .ok data
      | none => .error (.osError .ENOENT real) := by
  unfold contentsOf
  simp only [htype, hreal]
  rfl

namespace Appendable

theorem normal (h : Appendable cfg w target.toList f x old) : Normal f :=
  resolvePath_normal cfg.cwd_normal (resolve_eq h.resolves)

theorem not_root (h : Appendable cfg w target.toList f x old) : f ≠ ['/'] := by
  rintro rfl
  obtain ⟨depth, hlimit⟩ := limit_pos h.denotes
  have hroot : w.fs.getfile ['/'] = .ok (some w.fs.fs) := by
    unfold getfile
    rw [hlimit]
    rfl
  obtain rfl : w.fs.fs = x := Option.some.inj (Except.ok.inj (hroot.symm.trans h.denotes))
  have hregular := h.regular
  rw [h.named.root] at hregular
  cases hregular

theorem splits (h : Appendable cfg w target.toList f x old) : Splits f (dirname f) (basename f) :=
  h.normal.splits h.not_root

/-- `mkfile` can replace the node. -/
theorem creates (h : Appendable cfg w target.toList f x old)
    (hneeds : needsNewBacking cfg (some (w.fs.node x)) = true) : ∃ d, Creates w.fs f d := by
  obtain ⟨d, hd, hmem⟩ := getPath_parent h.named h.splits h.denotes
  refine ⟨d, (h.allowed hneeds).1, (h.allowed hneeds).2, hd, ?_⟩
  cases hc : (w.fs.node d).contents with
  | list xs => exact ⟨xs, rfl⟩
  | bytes data =>
    unfold Heap.entries at hmem
    rw [hc] at hmem
    cases hmem

theorem replaceable (h : Appendable cfg w target.toList f x old)
    (hneeds : needsNewBacking cfg (some (w.fs.node x)) = true) : Replaceable cfg w f (some x) where
  named := h.named
  path := h.splits
  plain y hy := by
    obtain rfl := Option.some.inj hy
    exact h.leaf
  room := (h.allowed hneeds).1
  opens := by
    have hopen := h.opens
    unfold usedBacking at hopen
    rwa [if_pos hneeds] at hopen

/-- What a backing of its own has. -/
theorem files_backing (h : Appendable cfg w target.toList f x old) {real : Str}
    (hreal : backing (w.fs.node x) = some real) : w.files real = some old := by
  have hcontents := h.contents
  rw [fileContents_normal h.normal, h.denotes] at hcontents
  simp only at hcontents
  rw [contentsOf_backing h.regular hreal] at hcontents
  cases hfile : w.files real with
  | none =>
    rw [hfile] at hcontents
    cases hcontents
  | some data =>
    rw [hfile] at hcontents
    rw [Except.ok.inj hcontents]

theorem opens_backing (h : Appendable cfg w target.toList f x old) {real : Str}
    (hreal : backing (w.fs.node x) = some real) (hneeds : needsNewBacking cfg (some (w.fs.node x)) = false) :
    Opens cfg 1089 real := by
  have hopens := h.opens
  unfold usedBacking at hopens
  rwa [hneeds, (realfile_of_backing hreal).1] at hopens

/-- The file is opened, unless it is `/dev/null`. -/
theorem opened (h : Appendable cfg w target.toList f x old) (hnull : f ≠ "/dev/null".toList) :
    ∃ info v, exec (prepareOutputFile cfg target.toList true) w = (.ok (.file info), v) ∧
      Opened cfg w f true info v := by
  have hprepare := exec_prepareOutputFile true h.resolves fun r hr hneeds _ => by
    obtain rfl : some x = r := Except.ok.inj (h.denotes.symm.trans hr)
    exact h.replaceable hneeds
  rcases hprepare with ⟨info, v, hexec, hopened, -⟩ | hrefused
  · exact ⟨info, v, hexec, hopened⟩
  · obtain ⟨hneeds, hnot⟩ := hrefused.why _ h.denotes hnull rfl
    obtain ⟨d, hd⟩ := h.creates hneeds
    exact absurd hd (hnot d)

end Appendable

/-- What `file_contents` returns, after some chunks were written to a backing. -/
theorem WroteOne.fileContents (cfg : Setup) {chunks : List Bytes} (h : WroteOne info chunks w v)
    (before : Bytes) (hf : Normal f) (hx : w.fs.getfile f = .ok (some x))
    (htype : (w.fs.node x).type = .file) (hreal : backing (w.fs.node x) = some info.real.toList)
    (hbefore : w.files info.real.toList = some before) :
    fileContents cfg v f = .ok (before ++ chunks.flatten) := by
  have hvx : v.fs.getfile f = .ok (some x) := by rw [h.shape.sameShape.getfile, hx]
  have hvreal : backing (v.fs.node x) = some info.real.toList := by
    rw [backing_congr (h.realfile x), hreal]
  have hvfiles : v.files info.real.toList = some (before ++ chunks.flatten) := by
    rw [h.files, hbefore]
    by_cases hnil : chunks = []
    · simp [hnil]
    · simp [hnil]
  rw [fileContents_normal hf, hvx]
  simp only
  rw [contentsOf_backing ((h.shape.type x).trans htype) hvreal, hvfiles]

/-- What a file with a backing holds, after some chunks were written to it. -/
theorem WroteOne.holding_iff (cfg : Setup) {chunks : List Bytes} (h : WroteOne info chunks w v)
    (before data : Bytes) (hf : Normal f)
    (hvirtual : info.virtual.toList = f) (hx : w.fs.getfile f = .ok (some x))
    (htype : (w.fs.node x).type = .file) (hreal : backing (w.fs.node x) = some info.real.toList)
    (hbefore : w.files info.real.toList = some before) :
    Holding cfg v f data ↔ before ++ chunks.flatten = data ∧
      (if chunks ≠ [] then info.startSize + chunks.flatten.length else (w.fs.node x).size) =
        data.length := by
  have hvx : v.fs.getfile f = .ok (some x) := by rw [h.shape.sameShape.getfile, hx]
  have hvcontents := h.fileContents cfg before hf hx htype hreal hbefore
  have hvsize : (v.fs.node x).size =
      if chunks ≠ [] then info.startSize + chunks.flatten.length else (w.fs.node x).size := by
    rw [h.size, hvirtual]
    simp only [hx, htype, and_true]
  unfold Holding
  rw [hvcontents, hvx, ← hvsize]
  constructor
  · rintro ⟨hdata, hsize⟩
    exact ⟨Except.ok.inj hdata, hsize x rfl⟩
  · rintro ⟨rfl, hsize⟩
    refine ⟨rfl, fun y hy => ?_⟩
    obtain rfl := Option.some.inj (Except.ok.inj hy)
    exact hsize

/-- No chunks: every node and every file is as it was. -/
theorem WroteOne.same (h : WroteOne info [] w v) :
    (∀ x, v.fs.node x = w.fs.node x) ∧ v.files = w.files := by
  constructor
  · intro x
    have hsize := h.size x
    have hreal := h.realfile x
    obtain ⟨size, realfile, hx⟩ := h.shape.node x
    rw [hx] at hsize hreal
    obtain rfl : size = (w.fs.node x).size := by simpa using hsize
    obtain rfl : realfile = (w.fs.node x).realfile := hreal
    exact hx
  · funext real
    rw [h.files]
    simp

/-- What a file holds, after nothing was written. -/
theorem holding_same_iff (cfg : Setup) (h : WroteOne info [] w v) (data : Bytes) (hf : Normal f)
    (hx : w.fs.getfile f = .ok (some x)) (hcontents : fileContents cfg w f = .ok old) :
    Holding cfg v f (old ++ data) ↔ data = [] ∧ (w.fs.node x).size = old.length := by
  obtain ⟨hnode, hfiles⟩ := h.same
  have hvx : v.fs.getfile f = .ok (some x) := by rw [h.shape.sameShape.getfile, hx]
  have hvcontents : fileContents cfg v f = .ok old := by
    rw [← hcontents, fileContents_normal hf, fileContents_normal hf, hvx, hx]
    simp only [hnode, hfiles]
  unfold Holding
  rw [hvcontents, hvx]
  constructor
  · rintro ⟨hdata, hsize⟩
    have hdata : data = [] := by simpa using Except.ok.inj hdata
    have hsize := hsize x rfl
    rw [hnode, hdata, List.append_nil] at hsize
    exact ⟨hdata, hsize⟩
  · rintro ⟨rfl, hsize⟩
    rw [List.append_nil]
    refine ⟨rfl, fun y hy => ?_⟩
    obtain rfl := Option.some.inj (Except.ok.inj hy)
    rw [hnode, hsize]

theorem prepare_devnull (base : Env World) (h : Appendable cfg w target.toList f x old)
    (hnull : f = "/dev/null".toList) :
    (cfg.env base).prepareOutputFile w target true = (.devnull, w) := by
  have hexec : exec (prepareOutputFile cfg target.toList true) w = (.ok .devnull, w) := by
    have hresolve : exec (query fun w : World => resolve cfg.user target.toList w.fs) w = (.ok f, w) := by
      rw [exec_query, h.resolves]
    unfold prepareOutputFile
    rw [exec_bind_ok hresolve, exec_bind, exec_query, h.denotes]
    simp only
    rw [if_pos hnull]
    rfl
  unfold Setup.env
  simp only [hexec]

/-- **Appending, exactly.** -/
theorem appended_iff_preserved (cfg : Setup) (base : Env World) (rest : List (PipeProtocol World))
    (redirect : Bool) (target : String) (name : String) (cmd : Command World) (cmdargs : List String)
    (writes : List Write) (s : Protocol World) (f : Str) (x : Ref) (old : Bytes)
    (h : Appendable cfg s.world target.toList f x old) :
    Holding cfg (exec (runRedirected (cfg.env base) rest redirect [.file 1 target true] name cmd
        cmdargs writes) s).2.world f (old ++ dataTo 1 writes) ↔
      Preserved cfg s.world f x old (writesTo 1 writes) := by
  unfold Preserved
  by_cases hnull : f = "/dev/null".toList
  · rw [if_pos hnull]
    obtain ⟨u, hrun, hwrote⟩ := exec_runRedirected_else rest redirect 1 name cmd cmdargs writes
      (prepare_devnull base h hnull) nofun
    rw [hrun]
    exact holding_same_iff cfg (hwrote ⟨"", "", 0⟩) (dataTo 1 writes) h.normal h.denotes h.contents
  rw [if_neg hnull]
  obtain ⟨info, w, hexec, hopened⟩ := h.opened hnull
  have hprepared : (cfg.env base).prepareOutputFile s.world target true = (.file info, w) := by
    unfold Setup.env
    simp only [hexec]
  cases hopened with
  | @old x' real hx hreal hown =>
    obtain rfl : x = x' := Option.some.inj (Except.ok.inj (h.denotes.symm.trans hx))
    have hneeds : needsNewBacking cfg (some (s.world.fs.node x)) = false := by
      simpa [needsNewBacking, hreal] using hown
    have hopen := h.opens_backing hreal hneeds
    have hold := h.files_backing hreal
    obtain ⟨u, hrun, hwrote⟩ := exec_runRedirected_file rest redirect 1 name cmd cmdargs writes hprepared
      (by simpa using hopen)
    rw [hrun, hneeds]
    have hiff := hwrote.holding_iff cfg old (old ++ dataTo 1 writes) h.normal (by simp) hx h.regular
      (by simpa using hreal) (by simpa using hold)
    refine hiff.trans ?_
    unfold dataTo
    by_cases hnil : writesTo 1 writes = []
    · simp [hnil]
    · simp [hnil]
  | @new r d g n hr hneeds hd hg hname hsize =>
    obtain rfl : some x = r := Except.ok.inj (h.denotes.symm.trans hr)
    rw [Option.map_some] at hneeds
    have hready := h.replaceable hneeds
    set safe := backingName cfg (s.world.stamps 0) f with hsafe
    obtain ⟨u, hrun, hwrote⟩ := exec_runRedirected_file rest redirect 1 name cmd cmdargs writes hprepared
      (by simpa using hready.opens)
    have htarget : (created cfg f s.world g n).fs.getfile f = .ok (some s.world.fs.next) :=
      getfile_created cfg h.named h.splits h.denotes hready.plain hd hg hname
    have hnode : (created cfg f s.world g n).fs.node s.world.fs.next =
        { n with realfile := some safe } := by
      unfold created
      rw [node_setNode, if_pos rfl]
    have hreal : backing ((created cfg f s.world g n).fs.node s.world.fs.next) = some safe := by
      rw [hnode]
      exact backing_some (backingName_ne_nil _ _ _) rfl
    rw [hrun, if_pos hneeds]
    have hiff := hwrote.holding_iff cfg ((s.world.files safe).getD []) (old ++ dataTo 1 writes) h.normal
      (by simp) htarget (by rw [hnode]; exact hg.type) (by simpa using hreal)
      (by simp [created, appended, hsafe])
    refine hiff.trans ?_
    rw [hnode]
    unfold dataTo
    by_cases hnil : writesTo 1 writes = []
    · simp [hnil, hsize, eq_comm]
    · simp [hnil]

/-! ### The file `/tmp/f` -/

/-- `smallFs` with the node `n` in `/tmp`. -/
def fileFs (n : Node) : HoneyPotFilesystem where
  node r :=
    if r = 2 then n
    else
      { name := if r = 0 then ['/'] else ['t', 'm', 'p'], type := .dir, uid := 0, gid := 0, size := 0
        mode := 0, ctime := 0, contents := .list (if r = 0 then [1] else if r = 1 then [2] else []) }
  fs := 0
  limit := 100
  next := 3
  home := ['/']
  clock i := i

/-- A file `f`. -/
def fileNode (size : Nat) (contents : Contents) (realfile : Option Str) : Node where
  name := ['f']
  type := .file
  uid := 0
  gid := 0
  size := size
  mode := 33188
  ctime := 0
  contents := contents
  realfile := realfile

theorem fileFs_named {n : Node} (hn : ∀ x xs, n.contents ≠ .list (x :: xs)) : Named (fileFs n) := by
  have hleaf : (fileFs n).entries 2 = [] := by
    unfold entries fileFs
    simp only [if_true]
    cases hc : n.contents with
    | bytes data => rfl
    | list xs =>
      cases xs with
      | nil => rfl
      | cons x xs => exact absurd hc (hn x xs)
  have hentries : ∀ p, (fileFs n).entries p = if p = 0 then [1] else if p = 1 then [2] else [] := by
    intro p
    by_cases hp : p = 2
    · subst hp
      exact hleaf
    · unfold entries fileFs
      simp [hp]
  constructor
  · rintro p -
    rw [hentries]
    split_ifs <;> simp
  · intro x hx
    have hle : x ≤ 2 := by
      induction hx with
      | refl => exact Nat.zero_le 2
      | @tail p c _ hc _ =>
        change c ∈ (fileFs n).entries p at hc
        rw [hentries] at hc
        split_ifs at hc
        · rw [List.mem_singleton.mp hc]
          decide
        · rw [List.mem_singleton.mp hc]
        · exact absurd hc List.not_mem_nil
    exact Nat.lt_succ_of_le hle
  · rfl

/-- `/tmp/f` is the node `n`. -/
def fileWorld (n : Node) (files : Str → Option Bytes) : World where
  fs := fileFs n
  files := files
  stamps _ := "20240101-000000".toList

/-- A file with the backing `dl/x`. -/
def ownFile : World :=
  fileWorld (fileNode 3 (.list []) (some ['d', 'l', '/', 'x'])) fun r =>
    if r = ['d', 'l', '/', 'x'] then some [1, 2, 3] else none

/-- `>>f`, where `f` has a backing of its own and the right size. -/
theorem appended_kept :
    Holding demo (exec (runRedirected (demo.env demoEnv) [] false [.file 1 "f" true] "echo" demoCommand []
      [.out [4], .out [5]]) { world := ownFile }).2.world ['/', 't', 'm', 'p', '/', 'f']
      ([1, 2, 3] ++ dataTo 1 [.out [4], .out [5]]) := by
  have happendable : Appendable demo ownFile "f".toList ['/', 't', 'm', 'p', '/', 'f'] 2 [1, 2, 3] :=
    { named := fileFs_named (by simp [fileNode])
      resolves := rfl
      denotes := rfl
      regular := rfl
      leaf := rfl
      contents := rfl
      opens := ⟨3, rfl⟩
      allowed := fun _ => ⟨by decide, by decide⟩ }
  refine (appended_iff_preserved demo demoEnv [] false "f" "echo" demoCommand [] [.out [4], .out [5]]
    { world := ownFile } ['/', 't', 'm', 'p', '/', 'f'] 2 [1, 2, 3] happendable).mpr ?_
  unfold Preserved
  rw [if_neg (by decide), if_neg (by decide)]
  rfl

/-- A file of the pickle file. -/
def pickledFile : World := fileWorld (fileNode 2 (.bytes [104, 105]) none) fun _ => none

/-- `>>f`, where the contents of `f` come from the pickle file. -/
theorem appended_lost :
    ¬ ∀ (cfg : Setup) (base : Env World) (rest : List (PipeProtocol World)) (redirect : Bool)
      (target name : String) (cmd : Command World) (cmdargs : List String) (writes : List Write)
      (s : Protocol World) (f : Str) (x : Ref) (old : Bytes),
      Appendable cfg s.world target.toList f x old →
      Holding cfg (exec (runRedirected (cfg.env base) rest redirect [.file 1 target true] name cmd
        cmdargs writes) s).2.world f (old ++ dataTo 1 writes) := by
  intro h
  have happendable :
      Appendable demo pickledFile "f".toList ['/', 't', 'm', 'p', '/', 'f'] 2 [104, 105] :=
    { named := fileFs_named (by simp [fileNode])
      resolves := rfl
      denotes := rfl
      regular := rfl
      leaf := rfl
      contents := rfl
      opens := ⟨3, rfl⟩
      allowed := fun _ => ⟨by decide, by decide⟩ }
  have hheld := (h demo demoEnv [] false "f" "echo" demoCommand [] [.out [33]] { world := pickledFile }
    ['/', 't', 'm', 'p', '/', 'f'] 2 [104, 105] happendable).1
  have hafter : fileContents demo
      (exec (runRedirected (demo.env demoEnv) [] false [.file 1 "f" true] "echo" demoCommand []
        [.out [33]]) { world := pickledFile }).2.world ['/', 't', 'm', 'p', '/', 'f'] = .ok [33] := rfl
  rw [hafter] at hheld
  exact absurd (Except.ok.inj hheld) (by decide)

end Cowrie.Shell.Redirect
