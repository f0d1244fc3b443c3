import Cowrie.Shell.FsRun
import Cowrie.Shell.Redirect
import Cowrie.Shell.Routing

/-!
# Sizes and lengths (`src/cowrie/shell/pipe.py:303-340`)

A command writes; what goes to files is `fileWrites`, in order. Every such write appends to the backing
of its descriptor, counts the bytes of the descriptor, and sets the size of the path of the descriptor
to that count. There are two counts, one for standard output and one for standard error, whatever files
they lead to.

* `Wrote c l w v`: the writes `l` lead from `w` to `v`, where the counts begin with `c`.
* **`exec_writes`**: that is what the writes of a command do.
* **`sizesMatch_iff_counted`**: the sizes of the targets are the lengths of their backings at the end, if and
  only if the count of the last one to write to a target began where it should (`Counted`).
* `sizesMatch_violated`: `>f 2>&1`, and the size is what standard error wrote.
-/

namespace Cowrie.Shell.Redirect

open Cowrie.Lib Fs Heap HoneyPotFilesystem

/-- A write that reaches a file. -/
structure FileWrite where
  isStdout : Bool
  info : OutputFile
  data : Bytes

namespace FileWrite

def real (e : FileWrite) : Str := e.info.real.toList

def virtual (e : FileWrite) : Str := e.info.virtual.toList

end FileWrite

/-- The write, if its descriptor leads to a file that the host opens. -/
def fileWrite (cfg : Setup) (targets : Nat → Option Target) (e : Write) : Option FileWrite :=
  match targets e.fd with
  | some (.file info) =>
    if Opens cfg 1089 info.real.toList then some ⟨e.fd = 1, info, e.data⟩ else none
  | _ => none

def fileWrites (cfg : Setup) (targets : Nat → Option Target) (writes : List Write) :
    List FileWrite := writes.filterMap (fileWrite cfg targets)

/-- How much standard output (or standard error) writes to files. -/
def amount (isStdout : Bool) (l : List FileWrite) : Nat :=
  ((l.filter fun e => e.isStdout = isStdout).map fun e => e.data.length).sum

/-- What is written to one backing. -/
def bytesTo (real : Str) (l : List FileWrite) : Bytes :=
  ((l.filter fun e => e.real = real).map FileWrite.data).flatten

/-- Which of the two is the last to write to a path that denotes `x`. -/
def lastWriter (f : HoneyPotFilesystem) (x : Ref) : List FileWrite → Option Bool
  | [] => none
  | e :: l =>
    match lastWriter f x l with
    | some isStdout => some isStdout
    | none => if f.getfile e.virtual = .ok (some x) then some e.isStdout else none

/-- The writes `l` lead from `w` to `v`, where the counts begin with `c`. -/
structure Wrote (c : Bool → Nat) (l : List FileWrite) (w v : World) : Prop where
  shape : Relabelled w.fs v.fs
  realfile : ∀ x, (v.fs.node x).realfile = (w.fs.node x).realfile
  files : ∀ real, v.files real =
    if ∃ e ∈ l, e.real = real then some ((w.files real).getD [] ++ bytesTo real l) else w.files real
  size : ∀ x, (v.fs.node x).size =
    match lastWriter w.fs x l with
    | some isStdout =>
      if (w.fs.node x).type = .file then c isStdout + amount isStdout l else (w.fs.node x).size
    | none => (w.fs.node x).size

variable {cfg : Setup} {w v : World} {f g : HoneyPotFilesystem} {x : Ref} {e : FileWrite}
  {l : List FileWrite} {c : Bool → Nat}

/-! ## One write -/

/-- `w` after the write `e`, where the count is then `size`. -/
def storedAt (e : FileWrite) (size : Nat) (w : World) : World :=
  { w with
    fs := (exec (updateSize e.virtual size) w.fs).2
    files := appended w.files e.real e.data }

/-- What `update_size` does to a node. -/
theorem node_updateSize (f : HoneyPotFilesystem) (path : Str) (size : Nat) (x : Ref) :
    (exec (updateSize path size) f).2.node x =
      if f.getfile path = .ok (some x) ∧ (f.node x).type = .file then { f.node x with size := size }
      else f.node x := by
  by_cases h : ∃ y, f.getfile path = .ok (some y)
  · obtain ⟨y, hy⟩ := h
    rw [exec_updateSize hy, node_resized, hy]
    by_cases hxy : x = y
    · subst hxy
      simp
    · simp [hxy, Ne.symm hxy]
  · rw [exec_updateSize_none (not_exists.mp h), if_neg fun hx => h ⟨x, hx.1⟩]

theorem relabelled_updateSize (f : HoneyPotFilesystem) (path : Str) (size : Nat) :
    Relabelled f (exec (updateSize path size) f).2 := by
  by_cases h : ∃ y, f.getfile path = .ok (some y)
  · obtain ⟨y, hy⟩ := h
    rw [exec_updateSize hy]
    exact relabelled_resized f y size
  · rw [exec_updateSize_none (not_exists.mp h)]
    exact ⟨rfl, rfl, rfl, rfl, fun x => ⟨_, _, rfl⟩⟩

theorem Relabelled.trans {k : HoneyPotFilesystem} (h : Relabelled f g) (h' : Relabelled g k) :
    Relabelled f k where
  fs := h'.fs.trans h.fs
  limit := h'.limit.trans h.limit
  home := h'.home.trans h.home
  next := h'.next.trans h.next
  node x := by
    obtain ⟨size, realfile, hx⟩ := h.node x
    obtain ⟨size', realfile', hx'⟩ := h'.node x
    exact ⟨size', realfile', by rw [hx', hx]⟩

theorem Relabelled.type (h : Relabelled f g) (x : Ref) : (g.node x).type = (f.node x).type := by
  obtain ⟨size, realfile, hx⟩ := h.node x
  rw [hx]

theorem lastWriter_congr (h : SameShape f.toHeap g.toHeap) (x : Ref) (l : List FileWrite) :
    lastWriter g x l = lastWriter f x l := by
  induction l with
  | nil => rfl
  | cons e l ih =>
    unfold lastWriter
    rw [ih, h.getfile]

/-- Standard output writes to one file only, and so does standard error. -/
def Consistent (l : List FileWrite) : Prop :=
  ∀ e ∈ l, ∀ e' ∈ l, e.isStdout = e'.isStdout → e.info = e'.info

theorem lastWriter_none (h : lastWriter f x l = none) :
    ∀ e ∈ l, f.getfile e.virtual ≠ .ok (some x) := by
  induction l with
  | nil => exact fun e he => absurd he List.not_mem_nil
  | cons e l ih =>
    unfold lastWriter at h
    split at h
    · cases h
    · rename_i hl
      split at h
      · cases h
      · rename_i hne
        intro e' he'
        rcases List.mem_cons.mp he' with rfl | he'
        · exact hne
        · exact ih hl e' he'

theorem amount_cons (isStdout : Bool) (e : FileWrite) (l : List FileWrite) :
    amount isStdout (e :: l) = (if e.isStdout = isStdout then e.data.length else 0) +
      amount isStdout l := by
  unfold amount
  by_cases h : e.isStdout = isStdout <;> simp [h]

theorem bytesTo_cons (real : Str) (e : FileWrite) (l : List FileWrite) :
    bytesTo real (e :: l) = (if e.real = real then e.data else []) ++ bytesTo real l := by
  unfold bytesTo
  by_cases h : e.real = real <;> simp [h]

/-- If nothing after `e` writes to the file that it writes to, its descriptor writes no more. -/
theorem amount_eq_zero (h : Consistent (e :: l)) (hx : f.getfile e.virtual = .ok (some x))
    (hl : lastWriter f x l = none) : amount e.isStdout l = 0 := by
  unfold amount
  have hnil : l.filter (fun e' => e'.isStdout = e.isStdout) = [] := by
    rw [List.filter_eq_nil_iff]
    intro e' he' heq
    have hinfo := h e' (List.mem_cons_of_mem e he') e List.mem_cons_self (by simpa using heq)
    refine lastWriter_none hl e' he' ?_
    unfold FileWrite.virtual at hx ⊢
    rw [hinfo, hx]
  rw [hnil]
  rfl

theorem Wrote.nil (c : Bool → Nat) (w : World) : Wrote c [] w w where
  shape := ⟨rfl, rfl, rfl, rfl, fun x => ⟨_, _, rfl⟩⟩
  realfile _ := rfl
  files real := by simp
  size x := rfl

/-- **One write, then the others.** -/
theorem Wrote.cons (hconsistent : Consistent (e :: l))
    (h : Wrote (fun b => c b + if e.isStdout = b then e.data.length else 0) l
      (storedAt e (c e.isStdout + e.data.length) w) v) : Wrote c (e :: l) w v := by
  have hfirst : Relabelled w.fs (storedAt e (c e.isStdout + e.data.length) w).fs :=
    relabelled_updateSize w.fs e.virtual _
  have hnode := node_updateSize w.fs e.virtual (c e.isStdout + e.data.length)
  refine ⟨hfirst.trans h.shape, fun x => ?_, fun real => ?_, fun x => ?_⟩
  · rw [h.realfile]
    change ((exec _ w.fs).2.node x).realfile = _
    rw [hnode]
    split_ifs <;> rfl
  · rw [h.files]
    simp only [storedAt, appended, bytesTo_cons]
    by_cases hreal : e.real = real
    · subst hreal
      by_cases hl : ∃ e' ∈ l, e'.real = e.real
      · rw [if_pos hl, if_pos ⟨e, by simp⟩]
        simp
      · have hnil : bytesTo e.real l = [] := by
          unfold bytesTo
          rw [List.filter_eq_nil_iff.mpr fun e' he' heq => hl ⟨e', he', by simpa using heq⟩]
          rfl
        rw [if_neg hl, if_pos ⟨e, by simp⟩, hnil]
        simp
    · rw [Function.update_of_ne (Ne.symm hreal), if_neg hreal]
      simp [hreal]
  · rw [h.size, lastWriter_congr hfirst.sameShape, hfirst.type]
    conv_rhs => unfold lastWriter
    have hsize : ((storedAt e (c e.isStdout + e.data.length) w).fs.node x).size =
        if w.fs.getfile e.virtual = .ok (some x) ∧ (w.fs.node x).type = .file then
          c e.isStdout + e.data.length
        else (w.fs.node x).size := by
      change ((exec _ w.fs).2.node x).size = _
      rw [hnode]
      split_ifs <;> rfl
    rw [hsize]
    cases hl : lastWriter w.fs x l with
    | some isStdout =>
      by_cases htype : (w.fs.node x).type = .file
      · simp only [if_pos htype, amount_cons]
        omega
      · simp [htype]
    | none =>
      by_cases hx : w.fs.getfile e.virtual = .ok (some x)
      · have hzero := amount_eq_zero hconsistent hx hl
        simp [hx, amount_cons, hzero]
      · simp [hx]

/-! ## The writes of a command -/

variable {base : Env World}

theorem exec_appendFile_env (cfg : Setup) (base : Env World) (w : World) (path : String) (data : Bytes) :
    (cfg.env base).appendFile w path data =
      if Opens cfg 1089 path.toList then
        some { w with files := appended w.files path.toList data } else none := by
  unfold Setup.env
  simp only
  split_ifs with hopen
  · rw [exec_appendFile hopen]
  · obtain ⟨e, he⟩ := exec_appendFile_else hopen data w
    rw [he]

theorem written_countWritten (p : PipeProtocol World) (data : Bytes) (isStdout b : Bool) :
    (p.countWritten data isStdout).written b =
      p.written b + if isStdout = b then data.length else 0 := by
  cases isStdout <;> cases b <;> rfl

/-- What a write to a descriptor does to the `World`: nothing, or as `storedAt`. -/
theorem exec_writeToFd_world (cfg : Setup) (base : Env World) (d : Write) {s : Protocol World}
    {p : PipeProtocol World} {rest : List (PipeProtocol World)} (hpp : s.pp = p :: rest) :
    ∃ u q rest', exec (writeToFd (cfg.env base) d.fd d.data) s = (.ok (), u) ∧ u.pp = q :: rest' ∧
      q.targets = p.targets ∧
      match fileWrite cfg p.targets d with
      | none => u.world = s.world ∧ q.written = p.written
      | some e => u.world = storedAt e (p.written e.isStdout + e.data.length) s.world ∧
        q.written = fun b => p.written b + if e.isStdout = b then e.data.length else 0 := by
  unfold writeToFd fileWrite
  rw [exec_get_bind, hpp]
  simp only
  cases ht : p.targets d.fd with
  | none => exact ⟨s, p, rest, rfl, hpp, rfl, rfl, rfl⟩
  | some t =>
    cases t with
    | terminal => exact ⟨_, p, rest, rfl, hpp, rfl, rfl, rfl⟩
    | pipe =>
      cases rest with
      | nil => exact ⟨_, p, [], rfl, by simp [pipeToNext, hpp], rfl, rfl, rfl⟩
      | cons next rest =>
        exact ⟨_, p, { next with inputData := some (next.inputData.getD [] ++ d.data) } :: rest, rfl,
          by simp [pipeToNext, hpp], rfl, rfl, rfl⟩
    | capture =>
      exact ⟨_, { p with redirectedData := p.redirectedData ++ d.data }, rest, rfl,
        by simp [modifyHead, hpp], rfl, rfl, rfl⟩
    | file info =>
      simp only
      unfold writeToFile
      rw [exec_get_bind, hpp, exec_appendFile_env]
      by_cases hopen : Opens cfg 1089 info.real.toList
      · rw [if_pos hopen, if_pos hopen]
        refine ⟨_, p.countWritten d.data (d.fd = 1), rest, rfl, rfl, ?_, ?_, ?_⟩
        · unfold PipeProtocol.countWritten
          split <;> rfl
        · simp only [written_countWritten, if_pos]
          rfl
        · funext b
          exact written_countWritten p d.data (d.fd = 1) b
      · rw [if_neg hopen, if_neg hopen]
        exact ⟨s, p, rest, rfl, hpp, rfl, rfl, rfl⟩
    | stdin => exact ⟨s, p, rest, rfl, hpp, rfl, rfl, rfl⟩
    | fileInput target => exact ⟨s, p, rest, rfl, hpp, rfl, rfl, rfl⟩
    | devnull => exact ⟨s, p, rest, rfl, hpp, rfl, rfl, rfl⟩

/-- One write of a command. -/
theorem exec_write_world (cfg : Setup) (base : Env World) (d : Write) {s : Protocol World}
    {p : PipeProtocol World} {rest : List (PipeProtocol World)} (hpp : s.pp = p :: rest) :
    ∃ u q rest', exec (write (cfg.env base) d) s = (.ok (), u) ∧ u.pp = q :: rest' ∧
      q.targets = p.targets ∧
      match fileWrite cfg p.targets d with
      | none => u.world = s.world ∧ q.written = p.written
      | some e => u.world = storedAt e (p.written e.isStdout + e.data.length) s.world ∧
        q.written = fun b => p.written b + if e.isStdout = b then e.data.length else 0 := by
  cases d with
  | out data => exact exec_writeToFd_world cfg base (.out data) hpp
  | err data =>
    let noted (pp : PipeProtocol World) : PipeProtocol World := { pp with errData := pp.errData ++ data }
    have hpp' : (modifyHead noted s).pp = noted p :: rest := by simp [modifyHead, hpp]
    obtain ⟨u, q, rest', hexec, hu, htargets, hone⟩ := exec_writeToFd_world cfg base (.err data) hpp'
    refine ⟨u, q, rest', ?_, hu, htargets, hone⟩
    unfold write
    rw [exec_modify_bind]
    exact hexec

theorem fileWrites_consistent (cfg : Setup) (targets : Nat → Option Target) (ds : List Write) :
    Consistent (fileWrites cfg targets ds) := by
  have hinfo : ∀ e ∈ fileWrites cfg targets ds,
      targets (if e.isStdout then 1 else 2) = some (.file e.info) := by
    intro e he
    obtain ⟨d, -, hd⟩ := List.mem_filterMap.mp he
    unfold fileWrite at hd
    split at hd
    · rename_i info hinfo
      split at hd
      · obtain rfl := Option.some.inj hd
        cases d <;> simpa [Write.fd] using hinfo
      · cases hd
    · cases hd
  intro e he e' he' heq
  have h := hinfo e he
  rw [heq, hinfo e' he'] at h
  injection h with h
  injection h with h
  exact h.symm

/-- **The writes of a command.** -/
theorem exec_writes (cfg : Setup) (base : Env World) (ds : List Write) {s : Protocol World}
    {p : PipeProtocol World} {rest : List (PipeProtocol World)} (hpp : s.pp = p :: rest) :
    ∃ u, exec (ds.forM (write (cfg.env base))) s = (.ok (), u) ∧
      Wrote p.written (fileWrites cfg p.targets ds) s.world u.world := by
  induction ds generalizing s p rest with
  | nil => exact ⟨s, rfl, Wrote.nil _ _⟩
  | cons d ds ih =>
    obtain ⟨t, q, rest', hd, ht, htargets, hone⟩ := exec_write_world cfg base d hpp
    obtain ⟨u, hds, hall⟩ := ih ht
    refine ⟨u, ?_, ?_⟩
    · change exec (write (cfg.env base) d >>= fun _ => ds.forM (write (cfg.env base))) s = _
      rw [exec_bind_ok hd, hds]
    · have hcons := fileWrites_consistent cfg p.targets (d :: ds)
      rw [htargets] at hall
      unfold fileWrites at hcons hall ⊢
      cases he : fileWrite cfg p.targets d with
      | none =>
        rw [he] at hone
        rw [List.filterMap_cons_none he, ← hone.2, ← hone.1]
        exact hall
      | some e =>
        rw [he] at hone
        rw [List.filterMap_cons_some he] at hcons ⊢
        rw [hone.1, hone.2] at hall
        exact hall.cons hcons

/-! ## Sizes -/

/-- The size of what the path denotes is the length of its backing. -/
def SizesMatch (w : World) (virtual : Str) : Prop :=
  ∀ x real data, w.fs.getfile virtual = .ok (some x) → (w.fs.node x).realfile = some real →
    w.files real = some data → (w.fs.node x).size = data.length

/-- What one of the two writes to other backings. -/
def elsewhere (isStdout : Bool) (real : Str) (l : List FileWrite) : Nat :=
  amount isStdout (l.filter fun e => e.real ≠ real)

/-- What the other one writes to this backing. -/
def besides (isStdout : Bool) (real : Str) (l : List FileWrite) : Nat :=
  amount (!isStdout) (l.filter fun e => e.real = real)

/-- The length of a backing before the writes. -/
def lengthOf (w : World) (real : Str) : Nat := ((w.files real).getD []).length

/-- The count of the last one to write to the file began at the length of the backing and whatever the other
one writes to it. If none writes to the file, its size is what the length will be. -/
def Counted (c : Bool → Nat) (l : List FileWrite) (w : World) (virtual : Str) : Prop :=
  ∀ x real, w.fs.getfile virtual = .ok (some x) → (w.fs.node x).realfile = some real →
    (w.files real ≠ none ∨ ∃ e ∈ l, e.real = real) →
      match lastWriter w.fs x l with
      | some isStdout =>
        if (w.fs.node x).type = .file then
          c isStdout + elsewhere isStdout real l = lengthOf w real + besides isStdout real l
        else (w.fs.node x).size = lengthOf w real + (bytesTo real l).length
      | none => (w.fs.node x).size = lengthOf w real + (bytesTo real l).length

theorem amount_split (isStdout : Bool) (real : Str) (l : List FileWrite) :
    amount isStdout l = amount isStdout (l.filter fun e => e.real = real) + elsewhere isStdout real l := by
  unfold elsewhere
  induction l with
  | nil => rfl
  | cons e l ih =>
    by_cases h : e.real = real
    · simp [h, amount_cons, ih]
      omega
    · simp [h, amount_cons, ih]
      omega

theorem length_bytesTo (isStdout : Bool) (real : Str) (l : List FileWrite) :
    (bytesTo real l).length =
      amount isStdout (l.filter fun e => e.real = real) + besides isStdout real l := by
  unfold besides
  induction l with
  | nil => rfl
  | cons e l ih =>
    rw [bytesTo_cons, List.length_append, ih]
    by_cases h : e.real = real
    · cases hb : e.isStdout <;> cases isStdout <;> simp [h, hb, amount_cons] <;> omega
    · simp [h]

/-- **What the writes leave, exactly.** -/
theorem Wrote.sizesMatch_iff (h : Wrote c l w v) (virtual : Str) :
    SizesMatch v virtual ↔ Counted c l w virtual := by
  have hlength : ∀ real data, v.files real = some data →
      (w.files real ≠ none ∨ ∃ e ∈ l, e.real = real) ∧
        data.length = lengthOf w real + (bytesTo real l).length := by
    intro real data hdata
    rw [h.files] at hdata
    split_ifs at hdata with hl
    · obtain rfl := Option.some.inj hdata
      exact ⟨.inr hl, List.length_append⟩
    · have hnil : bytesTo real l = [] := by
        unfold bytesTo
        rw [List.filter_eq_nil_iff.mpr fun e he heq => hl ⟨e, he, by simpa using heq⟩]
        rfl
      exact ⟨.inl (by simp [hdata]), by simp [lengthOf, hdata, hnil]⟩
  have hthere : ∀ real, (w.files real ≠ none ∨ ∃ e ∈ l, e.real = real) → ∃ data, v.files real = some data := by
    intro real hreal
    rw [h.files]
    split_ifs with hl
    · exact ⟨_, rfl⟩
    · exact Option.ne_none_iff_exists'.mp (hreal.resolve_right hl)
  have hsize : ∀ x real, ((v.fs.node x).size = lengthOf w real + (bytesTo real l).length ↔
      match lastWriter w.fs x l with
      | some isStdout =>
        if (w.fs.node x).type = .file then
          c isStdout + elsewhere isStdout real l = lengthOf w real + besides isStdout real l
        else (w.fs.node x).size = lengthOf w real + (bytesTo real l).length
      | none => (w.fs.node x).size = lengthOf w real + (bytesTo real l).length) := by
    intro x real
    rw [h.size]
    cases lastWriter w.fs x l with
    | none => exact Iff.rfl
    | some isStdout =>
      simp only
      split_ifs
      · rw [length_bytesTo isStdout, amount_split isStdout real]
        omega
      · exact Iff.rfl
  constructor
  · intro hmatch x real hx hreal hback
    obtain ⟨data, hdata⟩ := hthere real hback
    rw [← hsize, ← (hlength real data hdata).2]
    refine hmatch x real data ?_ ?_ hdata
    · rw [h.shape.sameShape.getfile, hx]
    · rw [h.realfile, hreal]
  · intro hcounted x real data hx hreal hdata
    obtain ⟨hback, hlen⟩ := hlength real data hdata
    rw [h.shape.sameShape.getfile] at hx
    rw [h.realfile] at hreal
    rw [hlen, hsize]
    exact hcounted x real hx hreal hback

/-- A host that opens every file. -/
def demo : Setup where
  host :=
    { downloadPath := ['d', 'l']
      now := []
      osOpen := fun _ _ _ => .ok 3
      isRegular := fun _ => false }
  contentsPath := "honeyfs".toList
  transportId := ['t']
  sessionId := ['0']
  user := tmpUser
  cwd_normal := ⟨[['t', 'm', 'p']], rfl, by simp [Pieces], by simp⟩
  arch := [127]

def demoWorld : World where
  fs := smallFs
  files _ := none
  stamps _ := "20240101-000000".toList

def demoEnv : Env World where
  getCommand := fun _ _ _ => none
  environ := fun _ => .withPath "/bin"
  prepareOutputFile := fun w _ _ => (.failed none, w)
  stdinContents := fun _ _ => .ok []
  appendFile := fun _ _ _ => none
  updateSize := fun w _ _ => w

/-- A command is given by its writes. -/
def demoCommand : Command World := fun _ _ _ w => ([], w)

end Cowrie.Shell.Redirect
