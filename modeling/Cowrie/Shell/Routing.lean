import Cowrie.Shell.Pipe

/-!
# Where redirections lead (`src/cowrie/shell/pipe.py:64-117`, `278-320`)

`reference` is the meaning of a list of redirections: from the left to the right, each one changes one
descriptor, and `n>&m` makes `n` a copy of what `m` is at that moment. A stage of a pipeline starts with
its standard output `inherited`: the next stage, if there is one, else the capture of a substitution,
else the terminal.

* `Delivered σ writes s u`: with the descriptors `σ`, every chunk of `writes` has reached the one place
  where it belongs, and there the chunks are in order. Standard input and `/dev/null` take nothing; a file
  is appended to, and its size set to some number.
* **`delivered_overridden`**: the table that `_setup_redirections` builds is the one of `reference`, except
  that in a substitution the capture takes the place of the next stage.
* **`routed_iff`**: so all writes go where `reference` says, unless a stage of a substitution that is
  not the last one writes to the next stage (`routed_violated`).
-/

namespace Cowrie.Shell

open Cowrie.Lib PipeProtocol

/-! ## The meaning of redirections -/

/-- Where a chunk goes. -/
inductive Sink
  | input
  | terminal
  | capture
  | pipe
  | null
  | file (info : OutputFile)
  deriving DecidableEq, Repr

namespace Write

def fd : Write → Nat
  | .out _ => 1
  | .err _ => 2

def data : Write → Bytes
  | .out data => data
  | .err data => data

end Write

/-- The descriptors of a stage before its redirections. -/
def inherited (hasNext redirect : Bool) : Nat → Sink
  | 0 => .input
  | 1 => if hasNext then .pipe else if redirect then .capture else .terminal
  | _ => .terminal

/-- The sink that is opened. -/
def Prepared.sink : Prepared → Sink
  | .devnull => .null
  | .file info => .file info
  | .failed _ => .input

variable {ω : Type} (env : Env ω)

/-- The descriptors after some redirections; files are opened as their turn comes. -/
def reference (σ : Nat → Sink) : ω → List RedirOp → Nat → Sink
  | _, [] => σ
  | w, .file fd target append :: ops =>
    let r := env.prepareOutputFile w target append
    reference (Function.update σ fd r.1.sink) r.2 ops
  | w, .stdin fd _ :: ops => reference (Function.update σ fd .input) w ops
  | w, .dup fd target :: ops => reference (Function.update σ fd (σ target)) w ops

/-- Redirections of the descriptors 0 to 2 whose files can be prepared. -/
def Proper : ω → List RedirOp → Prop
  | _, [] => True
  | w, .file fd target append :: ops =>
    fd ≤ 2 ∧ (∀ message, (env.prepareOutputFile w target append).1 ≠ .failed message) ∧
      Proper (env.prepareOutputFile w target append).2 ops
  | w, .stdin fd _ :: ops => fd ≤ 2 ∧ Proper w ops
  | w, .dup fd target :: ops => fd ≤ 2 ∧ target ≤ 2 ∧ Proper w ops

/-- What goes to one sink, chunk by chunk. -/
def chunks (σ : Nat → Sink) (sink : Sink) (writes : List Write) : List Bytes :=
  (writes.filter fun w => σ w.fd = sink).map Write.data

/-- The file of a sink. -/
def Sink.file? : Sink → Option OutputFile
  | .file info => some info
  | _ => none

/-- What goes to files. -/
def fileChunks (σ : Nat → Sink) (writes : List Write) : List (OutputFile × Bytes) :=
  writes.filterMap fun w => (σ w.fd).file?.map fun info => (info, w.data)

/-- Append a chunk to a file and record a size. -/
def store (info : OutputFile) (data : Bytes) (size : Nat) (w : ω) : ω :=
  match env.appendFile w info.real data with
  | some v => env.updateSize v info.virtual size
  | none => w

/-- The chunks are stored one after the other. -/
inductive Stored : List (OutputFile × Bytes) → ω → ω → Prop
  | nil (w : ω) : Stored [] w w
  | cons (info : OutputFile) (data : Bytes) (size : Nat) {rest : List (OutputFile × Bytes)} {w v : ω}
      (h : Stored rest (store env info data size w) v) : Stored ((info, data) :: rest) w v

/-- What the substitution has captured from the command. -/
def Protocol.captured (s : Protocol ω) : Bytes := (s.pp.head?.map (·.redirectedData)).getD []

/-- What the next stage has got. -/
def Protocol.nextInput (s : Protocol ω) : Bytes := ((s.pp[1]?).bind (·.inputData)).getD []

/-- Every chunk has reached its sink, and only that. -/
structure Delivered (σ : Nat → Sink) (writes : List Write) (s u : Protocol ω) : Prop where
  terminal : u.terminal = s.terminal ++ (chunks σ .terminal writes).map fun data => (s.segment, data)
  captured : u.captured = s.captured ++ (chunks σ .capture writes).flatten
  piped : u.nextInput = s.nextInput ++ (chunks σ .pipe writes).flatten
  stored : Stored env (fileChunks σ writes) s.world u.world
  segment : u.segment = s.segment

/-- Whenever the command of a stage writes, it writes to the descriptors of `reference`. -/
def Routed (redirect : Bool) (rest : List (PipeProtocol ω)) (ops : List RedirOp) (writes : List Write)
    (name : String) (cmd : Command ω) (cmdargs : List String) (s : Protocol ω) : Prop :=
  ∀ p t, exec (PipeProtocol.new env name cmd cmdargs (rest ≠ []) redirect ops) s = (.ok p, t) →
    ∀ v, v.pp = p :: rest →
      (exec (writes.forM (write env)) v).1 = .ok () ∧
        Delivered env (reference env (inherited (rest ≠ []) redirect) s.world ops) writes v
          (exec (writes.forM (write env)) v).2

/-! ## The table of descriptors -/

variable {env : Env ω} {σ τ : Nat → Sink}

/-- What a target of the table stands for. -/
def Target.sink : Target → Sink
  | .stdin | .fileInput _ => .input
  | .terminal => .terminal
  | .pipe => .pipe
  | .capture => .capture
  | .file info => .file info
  | .devnull => .null

/-- The table says what `σ` says. -/
def TableOf (pp : PipeProtocol ω) (σ : Nat → Sink) : Prop :=
  ∀ fd ≤ 2, (pp.targets fd).map Target.sink = some (σ fd)

theorem TableOf.update {pp q : PipeProtocol ω} (h : TableOf pp σ) {fd : Nat} {t : Target}
    (hq : q.targets = Function.update pp.targets fd (some t)) :
    TableOf q (Function.update σ fd t.sink) := by
  rintro n hn
  rw [hq]
  by_cases heq : n = fd
  · subst heq
    simp
  · rw [Function.update_of_ne heq, Function.update_of_ne heq]
    exact h n hn

/-- A file is opened. -/
theorem exec_openFile {pp : PipeProtocol ω} (fd : Nat) (h : TableOf pp σ) {s : Protocol ω}
    {target : String} {append : Bool}
    (hprepared : ∀ message, (env.prepareOutputFile s.world target append).1 ≠ .failed message) :
    ∃ q, exec (openFile env pp fd target append) s =
        (.ok q, { s with world := (env.prepareOutputFile s.world target append).2 }) ∧
      TableOf q (Function.update σ fd (env.prepareOutputFile s.world target append).1.sink) := by
  unfold openFile
  rw [exec_get_bind, exec_modify_bind]
  cases hr : (env.prepareOutputFile s.world target append).1 with
  | devnull => exact ⟨_, rfl, h.update (t := .devnull) rfl⟩
  | failed message => exact absurd hr (hprepared message)
  | file info => exact ⟨_, rfl, h.update (t := .file info) rfl⟩

/-- **The loop over the redirections.** -/
theorem exec_applyOps {ops : List RedirOp} {pp : PipeProtocol ω} (h : TableOf pp σ)
    {pending : Option String} {s : Protocol ω} (hproper : Proper env s.world ops) :
    ∃ q pending' w, exec (applyOps env pp pending ops) s = (.ok (q, pending'), { s with world := w }) ∧
      TableOf q (reference env σ s.world ops) := by
  induction ops generalizing pp σ pending s with
  | nil => exact ⟨pp, pending, s.world, rfl, h⟩
  | cons op ops ih =>
    cases op with
    | file fd target append =>
      obtain ⟨-, hprepared, hrest⟩ := hproper
      obtain ⟨q, hq, htable⟩ := exec_openFile fd h hprepared
      obtain ⟨q', pending', w, hexec, hq'⟩ :=
        ih htable (s := { s with world := (env.prepareOutputFile s.world target append).2 }) hrest
      refine ⟨q', pending', w, ?_, hq'⟩
      unfold applyOps
      rw [exec_bind_ok hq, hexec]
    | stdin fd target =>
      unfold applyOps
      exact ih (h.update (t := .fileInput target) rfl) hproper.2
    | dup fd target =>
      unfold applyOps
      obtain ⟨t, ht, hsink⟩ := Option.map_eq_some_iff.mp (h target hproper.2.1)
      simp only [ht]
      have hupdate : TableOf { pp with targets := Function.update pp.targets fd (some t) }
          (Function.update σ fd t.sink) := h.update rfl
      rw [hsink] at hupdate
      exact ih hupdate hproper.2.2

/-- Reading standard input does not change the table. -/
theorem targets_prepareStdin {pp p : PipeProtocol ω} {target : String} {s t : Protocol ω}
    (h : exec (prepareStdin env pp target) s = (.ok p, t)) : p.targets = pp.targets := by
  unfold prepareStdin at h
  rw [exec_get_bind] at h
  split at h
  · obtain ⟨rfl, -⟩ := Prod.mk.inj h |>.imp_left Except.ok.inj
    rfl
  · unfold emitError at h
    obtain ⟨rfl, -⟩ := Prod.mk.inj h |>.imp_left Except.ok.inj
    rfl

/-- A stage before its redirections. -/
def fresh (name : String) (cmd : Command ω) (cmdargs : List String) (hasNext redirect : Bool) :
    PipeProtocol ω :=
  { name := name, cmd := cmd, cmdargs := cmdargs, redirect := redirect,
    targets := defaultTargets hasNext redirect }

theorem exec_new_ok {name : String} {cmd : Command ω} {cmdargs : List String}
    {hasNext redirect : Bool} {ops : List RedirOp} {s : Protocol ω}
    (hproper : Proper env s.world ops) (hfresh : TableOf (fresh name cmd cmdargs hasNext redirect) σ) :
    ∃ p t, exec (PipeProtocol.new env name cmd cmdargs hasNext redirect ops) s = (.ok p, t) := by
  obtain ⟨q, pending, w, hexec, -⟩ := exec_applyOps hfresh hproper
  unfold PipeProtocol.new
  rw [exec_bind_ok (by exact hexec)]
  cases pending with
  | none => exact ⟨q, _, rfl⟩
  | some target =>
    simp only
    split
    · exact ⟨q, _, rfl⟩
    · unfold prepareStdin
      rw [exec_get_bind]
      split
      · exact ⟨_, _, rfl⟩
      · exact ⟨_, _, rfl⟩

/-- **The table of a new stage.** -/
theorem tableOf_new {name : String} {cmd : Command ω} {cmdargs : List String} {hasNext redirect : Bool}
    {ops : List RedirOp} {s t : Protocol ω} {p : PipeProtocol ω} (hproper : Proper env s.world ops)
    (hnew : exec (PipeProtocol.new env name cmd cmdargs hasNext redirect ops) s = (.ok p, t))
    (hfresh : TableOf (fresh name cmd cmdargs hasNext redirect) σ) :
    TableOf p (reference env σ s.world ops) := by
  unfold PipeProtocol.new at hnew
  obtain ⟨⟨q, pending⟩, u, hops, hrest⟩ := exec_bind_inv hnew
  obtain ⟨q', pending', w, hexec, htable⟩ := exec_applyOps hfresh hproper
  obtain ⟨hq, -⟩ := Prod.mk.inj (hexec.symm.trans hops) |>.imp_left Except.ok.inj
  obtain ⟨rfl, rfl⟩ := Prod.mk.inj hq
  have htargets : p.targets = q'.targets := by
    cases pending' with
    | none =>
      obtain ⟨rfl, -⟩ := Prod.mk.inj hrest |>.imp_left Except.ok.inj
      rfl
    | some target =>
      simp only at hrest
      split at hrest
      · obtain ⟨rfl, -⟩ := Prod.mk.inj hrest |>.imp_left Except.ok.inj
        rfl
      · exact targets_prepareStdin hrest
  unfold TableOf
  rw [htargets]
  exact htable

/-! ## Capture and next stage -/

/-- In a substitution the capture takes the place of the next stage. -/
def overridden (redirect : Bool) (sink : Sink) : Sink :=
  if redirect ∧ sink = .pipe then .capture else sink

theorem tableOf_fresh (name : String) (cmd : Command ω) (cmdargs : List String)
    (hasNext redirect : Bool) :
    TableOf (fresh name cmd cmdargs hasNext redirect)
      fun fd => overridden redirect (inherited hasNext redirect fd) := by
  intro fd hfd
  have hfd : fd = 0 ∨ fd = 1 ∨ fd = 2 := by omega
  rcases hfd with rfl | rfl | rfl <;> cases hasNext <;> cases redirect <;> rfl

/-- Renaming sinks that no redirection names. -/
theorem reference_map {φ : Sink → Sink} (hinput : φ .input = .input) (hnull : φ .null = .null)
    (hfile : ∀ info, φ (.file info) = .file info) (ops : List RedirOp) (w : ω) (σ : Nat → Sink) :
    reference env (fun fd => φ (σ fd)) w ops = fun fd => φ (reference env σ w ops fd) := by
  have hset : ∀ (σ : Nat → Sink) fd (sink : Sink), φ sink = sink →
      Function.update (fun n => φ (σ n)) fd sink = fun n => φ (Function.update σ fd sink n) := by
    intro σ fd sink hsink
    funext n
    by_cases heq : n = fd
    · subst heq
      rw [Function.update_self, Function.update_self, hsink]
    · rw [Function.update_of_ne heq, Function.update_of_ne heq]
  induction ops generalizing w σ with
  | nil => rfl
  | cons op ops ih =>
    cases op with
    | file fd target append =>
      have hsink : φ (env.prepareOutputFile w target append).1.sink =
          (env.prepareOutputFile w target append).1.sink := by
        cases (env.prepareOutputFile w target append).1 with
        | devnull => exact hnull
        | file info => exact hfile info
        | failed message => exact hinput
      unfold reference
      rw [← ih, ← hset σ fd _ hsink]
    | stdin fd target =>
      unfold reference
      rw [← ih, ← hset σ fd _ hinput]
    | dup fd target =>
      unfold reference
      rw [← ih]
      congr 1
      funext n
      by_cases heq : n = fd
      · subst heq
        rw [Function.update_self, Function.update_self]
      · rw [Function.update_of_ne heq, Function.update_of_ne heq]

/-- What holds of the sinks before and of those that redirections name. -/
theorem reference_forall (env : Env ω) {P : Sink → Prop} (hinput : P .input) (hnull : P .null)
    (hfile : ∀ info, P (.file info)) (ops : List RedirOp) (w : ω) (h : ∀ n, P (σ n)) (fd : Nat) :
    P (reference env σ w ops fd) := by
  have hset : ∀ {σ : Nat → Sink} {sink : Sink} n, P sink → (∀ m, P (σ m)) →
      ∀ m, P (Function.update σ n sink m) := by
    rintro σ sink n hsink hσ m
    by_cases heq : m = n
    · subst heq
      rw [Function.update_self]
      exact hsink
    · rw [Function.update_of_ne heq]
      exact hσ m
  induction ops generalizing w σ with
  | nil => exact h fd
  | cons op ops ih =>
    cases op with
    | file n target append =>
      refine ih _ (hset n ?_ h)
      cases (env.prepareOutputFile w target append).1 with
      | devnull => exact hnull
      | file info => exact hfile info
      | failed message => exact hinput
    | stdin n target => exact ih _ (hset n hinput h)
    | dup n target => exact ih _ (hset n (h target) h)

/-! ## Writing -/

theorem chunks_cons (sink : Sink) (w : Write) (ws : List Write) :
    chunks σ sink (w :: ws) = (if σ w.fd = sink then [w.data] else []) ++ chunks σ sink ws := by
  unfold chunks
  by_cases h : σ w.fd = sink <;> simp [h]

theorem fileChunks_cons (w : Write) (ws : List Write) :
    fileChunks σ (w :: ws) =
      ((σ w.fd).file?.map fun info => (info, w.data)).toList ++ fileChunks σ ws := by
  unfold fileChunks
  cases h : (σ w.fd).file? <;> simp [h]

theorem Stored.append {a b : List (OutputFile × Bytes)} {u v w : ω} (h : Stored env a u v)
    (h' : Stored env b v w) : Stored env (a ++ b) u w := by
  induction h with
  | nil _ => exact h'
  | cons info data size _ ih => exact .cons info data size (ih h')

theorem Delivered.nil (s : Protocol ω) : Delivered env σ [] s s where
  terminal := by simp [chunks]
  captured := by simp [chunks]
  piped := by simp [chunks]
  stored := .nil _
  segment := rfl

theorem Delivered.cons {w : Write} {ws : List Write} {s t u : Protocol ω}
    (h : Delivered env σ [w] s t) (h' : Delivered env σ ws t u) : Delivered env σ (w :: ws) s u where
  terminal := by
    rw [h'.terminal, h.terminal, h.segment, List.append_assoc, ← List.map_append, chunks_cons _ w [],
      chunks_cons _ w ws, List.append_assoc]
    rfl
  captured := by
    rw [h'.captured, h.captured, List.append_assoc, ← List.flatten_append, chunks_cons _ w [],
      chunks_cons _ w ws, List.append_assoc]
    rfl
  piped := by
    rw [h'.piped, h.piped, List.append_assoc, ← List.flatten_append, chunks_cons _ w [],
      chunks_cons _ w ws, List.append_assoc]
    rfl
  stored := by
    have hone := h.stored
    rw [fileChunks_cons] at hone ⊢
    exact Stored.append (by simpa [fileChunks] using hone) h'.stored
  segment := h'.segment.trans h.segment

/-- Nothing but the chunk of one sink changes. -/
theorem delivered_one {w : Write} {sink : Sink} (hsink : σ w.fd = sink) {s u : Protocol ω}
    (hterminal : u.terminal = s.terminal ++ if sink = .terminal then [(s.segment, w.data)] else [])
    (hcaptured : u.captured = s.captured ++ if sink = .capture then w.data else [])
    (hpiped : u.nextInput = s.nextInput ++ if sink = .pipe then w.data else [])
    (hstored : Stored env (sink.file?.map fun info => (info, w.data)).toList s.world u.world)
    (hsegment : u.segment = s.segment) : Delivered env σ [w] s u := by
  have hchunks : ∀ k, chunks σ k [w] = if sink = k then [w.data] else [] := by
    intro k
    rw [chunks_cons, hsink]
    exact List.append_nil _
  refine ⟨?_, ?_, ?_, ?_, hsegment⟩
  · rw [hterminal, hchunks]
    split <;> rfl
  · rw [hcaptured, hchunks]
    split <;> simp
  · rw [hpiped, hchunks]
    split <;> simp
  · rw [fileChunks_cons, hsink]
    simpa [fileChunks] using hstored

/-- One write, to a descriptor of the table. -/
theorem exec_writeToFd_sink (env : Env ω) (w : Write) {s : Protocol ω} {p : PipeProtocol ω}
    {rest : List (PipeProtocol ω)} (hpp : s.pp = p :: rest) (htable : TableOf p σ)
    (hpipe : rest = [] → ∀ n, σ n ≠ .pipe) :
    ∃ u q rest', exec (writeToFd env w.fd w.data) s = (.ok (), u) ∧ u.pp = q :: rest' ∧
      q.targets = p.targets ∧ (rest' = [] ↔ rest = []) ∧ Delivered env σ [w] s u := by
  have hfd : w.fd ≤ 2 := by cases w <;> simp [Write.fd]
  obtain ⟨t, ht, hsink⟩ := Option.map_eq_some_iff.mp (htable w.fd hfd)
  unfold writeToFd
  rw [exec_get_bind, hpp]
  simp only [ht]
  cases t with
  | stdin =>
    refine ⟨s, p, rest, rfl, hpp, rfl, Iff.rfl, delivered_one hsink.symm ?_ ?_ ?_ (.nil _) rfl⟩ <;>
      simp [Target.sink]
  | terminal =>
    refine ⟨_, p, rest, rfl, hpp, rfl, Iff.rfl, delivered_one hsink.symm ?_ ?_ ?_ (.nil _) rfl⟩ <;>
      simp [Target.sink, Protocol.captured, Protocol.nextInput]
  | pipe =>
    cases rest with
    | nil => exact absurd hsink.symm (hpipe rfl w.fd)
    | cons q rest =>
      refine ⟨_, p, { q with inputData := some (q.inputData.getD [] ++ w.data) } :: rest, rfl, ?_, rfl,
        by simp, delivered_one hsink.symm ?_ ?_ ?_ (.nil _) rfl⟩ <;>
        simp [Target.sink, Protocol.captured, Protocol.nextInput, pipeToNext, hpp]
  | capture =>
    refine ⟨_, { p with redirectedData := p.redirectedData ++ w.data }, rest, rfl, ?_, rfl, Iff.rfl,
      delivered_one hsink.symm ?_ ?_ ?_ (.nil _) rfl⟩ <;>
      simp [Target.sink, Protocol.captured, Protocol.nextInput, modifyHead, hpp]
  | file info =>
    unfold writeToFile
    rw [exec_get_bind, hpp]
    cases happend : env.appendFile s.world info.real w.data with
    | none =>
      refine ⟨s, p, rest, rfl, hpp, rfl, Iff.rfl, delivered_one hsink.symm ?_ ?_ ?_ ?_ rfl⟩
      · simp [Target.sink]
      · simp [Target.sink]
      · simp [Target.sink]
      · refine .cons info w.data 0 ?_
        unfold store
        rw [happend]
        exact .nil _
    | some v =>
      have htargets : (p.countWritten w.data (w.fd = 1)).targets = p.targets := by
        unfold PipeProtocol.countWritten
        split <;> rfl
      have hdata : (p.countWritten w.data (w.fd = 1)).redirectedData = p.redirectedData := by
        unfold PipeProtocol.countWritten
        split <;> rfl
      refine ⟨_, p.countWritten w.data (w.fd = 1), rest, rfl, rfl, htargets, Iff.rfl,
        delivered_one hsink.symm ?_ ?_ ?_ ?_ rfl⟩
      · simp [Target.sink]
      · simp [Target.sink, Protocol.captured, hpp, hdata]
      · simp [Target.sink, Protocol.nextInput, hpp]
      · refine .cons info w.data ((p.countWritten w.data (w.fd = 1)).written (w.fd = 1)) ?_
        unfold store
        rw [happend]
        exact .nil _
  | fileInput target =>
    refine ⟨s, p, rest, rfl, hpp, rfl, Iff.rfl, delivered_one hsink.symm ?_ ?_ ?_ (.nil _) rfl⟩ <;>
      simp [Target.sink]
  | devnull =>
    refine ⟨s, p, rest, rfl, hpp, rfl, Iff.rfl, delivered_one hsink.symm ?_ ?_ ?_ (.nil _) rfl⟩ <;>
      simp [Target.sink]

/-- One write of the command. -/
theorem exec_write_sink (env : Env ω) (w : Write) {s : Protocol ω} {p : PipeProtocol ω}
    {rest : List (PipeProtocol ω)} (hpp : s.pp = p :: rest) (htable : TableOf p σ)
    (hpipe : rest = [] → ∀ n, σ n ≠ .pipe) :
    ∃ u q rest', exec (write env w) s = (.ok (), u) ∧ u.pp = q :: rest' ∧
      q.targets = p.targets ∧ (rest' = [] ↔ rest = []) ∧ Delivered env σ [w] s u := by
  cases w with
  | out data => exact exec_writeToFd_sink env (.out data) hpp htable hpipe
  | err data =>
    -- what goes to standard error is kept as well
    let noted (pp : PipeProtocol ω) : PipeProtocol ω := { pp with errData := pp.errData ++ data }
    have hpp' : (modifyHead noted s).pp = noted p :: rest := by simp [modifyHead, hpp]
    obtain ⟨u, q, rest', hexec, hu, htargets, hrest, hd⟩ :=
      exec_writeToFd_sink env (.err data) hpp' (by exact htable) hpipe
    refine ⟨u, q, rest', ?_, hu, htargets, hrest, ?_⟩
    · unfold write
      rw [exec_modify_bind]
      exact hexec
    · have hcaptured : (modifyHead noted s).captured = s.captured := by
        simp [Protocol.captured, modifyHead, hpp, noted]
      have hnext : (modifyHead noted s).nextInput = s.nextInput := by
        simp [Protocol.nextInput, modifyHead, hpp, noted]
      exact ⟨hd.terminal, hcaptured ▸ hd.captured, hnext ▸ hd.piped, hd.stored, hd.segment⟩

/-- **All writes of the command.** -/
theorem exec_writes_sink (ws : List Write) {s : Protocol ω} {p : PipeProtocol ω}
    {rest : List (PipeProtocol ω)} (hpp : s.pp = p :: rest) (htable : TableOf p σ)
    (hpipe : rest = [] → ∀ n, σ n ≠ .pipe) :
    ∃ u, exec (ws.forM (write env)) s = (.ok (), u) ∧ Delivered env σ ws s u := by
  induction ws generalizing s p rest with
  | nil => exact ⟨s, rfl, Delivered.nil s⟩
  | cons w ws ih =>
    obtain ⟨t, q, rest', hw, ht, htargets, hrest, hone⟩ := exec_write_sink env w hpp htable hpipe
    have hq : TableOf q σ := by
      unfold TableOf
      rw [htargets]
      exact htable
    obtain ⟨u, hws, hall⟩ := ih ht hq fun hnil => hpipe (hrest.mp hnil)
    refine ⟨u, ?_, hone.cons hall⟩
    change exec (write env w >>= fun _ => ws.forM (write env)) s = _
    rw [exec_bind_ok hw, hws]

/-- **Where the writes of a new stage go.** -/
theorem delivered_overridden {redirect : Bool} {rest : List (PipeProtocol ω)} {ops : List RedirOp}
    {name : String} {cmd : Command ω} {cmdargs : List String} {s t v : Protocol ω} {p : PipeProtocol ω}
    (hproper : Proper env s.world ops)
    (hnew : exec (PipeProtocol.new env name cmd cmdargs (rest ≠ []) redirect ops) s = (.ok p, t))
    (hv : v.pp = p :: rest) (ws : List Write) :
    ∃ u, exec (ws.forM (write env)) v = (.ok (), u) ∧
      Delivered env (fun fd => overridden redirect
        (reference env (inherited (rest ≠ []) redirect) s.world ops fd)) ws v u := by
  have htable := tableOf_new hproper hnew (tableOf_fresh name cmd cmdargs (rest ≠ []) redirect)
  rw [reference_map (by simp [overridden]) (by simp [overridden]) (by simp [overridden])] at htable
  refine exec_writes_sink ws hv htable fun hnil fd => ?_
  -- without a next stage nothing leads to it
  have hnot : reference env (inherited (rest ≠ []) redirect) s.world ops fd ≠ .pipe :=
    reference_forall env (P := (· ≠ .pipe)) (by simp) (by simp) (by simp) ops s.world (fun n => ?_) fd
  · unfold overridden
    split
    · simp
    · exact hnot
  · subst hnil
    unfold inherited
    split <;> cases redirect <;> simp

/-- No data goes to the next stage. -/
def NothingPiped (σ : Nat → Sink) (writes : List Write) : Prop :=
  ∀ w ∈ writes, σ w.fd = .pipe → w.data = []

theorem flatten_chunks_eq_nil {sink : Sink} {ws : List Write} :
    (chunks σ sink ws).flatten = [] ↔ ∀ w ∈ ws, σ w.fd = sink → w.data = [] := by
  induction ws with
  | nil => simp [chunks]
  | cons w ws ih =>
    rw [chunks_cons, List.flatten_append, List.append_eq_nil_iff, ih]
    by_cases h : σ w.fd = sink <;> simp [h]

theorem chunks_congr {σ τ : Nat → Sink} {sink : Sink} (h : ∀ n, σ n = sink ↔ τ n = sink)
    (ws : List Write) : chunks σ sink ws = chunks τ sink ws := by
  unfold chunks
  congr 1
  exact List.filter_congr fun w _ => by simp [h]

/-- If nothing is piped, the capture gets what it should. -/
theorem flatten_captured {ws : List Write} (h : NothingPiped σ ws) :
    (chunks (fun fd => overridden true (σ fd)) .capture ws).flatten =
      (chunks σ .capture ws).flatten := by
  induction ws with
  | nil => rfl
  | cons w ws ih =>
    have hrest := ih fun w' hw' => h w' (List.mem_cons_of_mem _ hw')
    rw [chunks_cons, chunks_cons, List.flatten_append, List.flatten_append, hrest]
    congr 1
    unfold overridden
    by_cases hpipe : σ w.fd = .pipe
    · simp [hpipe, h w List.mem_cons_self hpipe]
    · simp [hpipe]

theorem file?_overridden (redirect : Bool) (sink : Sink) :
    (overridden redirect sink).file? = sink.file? := by
  unfold overridden
  split
  · rename_i hif
    rw [hif.2]
    rfl
  · rfl

/-- The override is harmless exactly if nothing is piped. -/
theorem delivered_iff_nothingPiped {ws : List Write} {s u : Protocol ω}
    (h : Delivered env (fun fd => overridden true (σ fd)) ws s u) :
    Delivered env σ ws s u ↔ NothingPiped σ ws := by
  have hsame : ∀ k, k ≠ .pipe → k ≠ .capture → ∀ n, overridden true (σ n) = k ↔ σ n = k := by
    intro k hpipe hcapture n
    unfold overridden
    split
    · rename_i hif
      rw [hif.2]
      exact iff_of_false (Ne.symm hcapture) (Ne.symm hpipe)
    · exact Iff.rfl
  have hnone : (chunks (fun fd => overridden true (σ fd)) .pipe ws).flatten = [] := by
    refine flatten_chunks_eq_nil.mpr fun w _ hw => ?_
    unfold overridden at hw
    split at hw
    · cases hw
    · rename_i hif
      exact absurd ⟨rfl, hw⟩ hif
  have hfiles : fileChunks (fun fd => overridden true (σ fd)) ws = fileChunks σ ws := by
    unfold fileChunks
    exact List.filterMap_congr fun w _ => by rw [file?_overridden]
  constructor
  · intro hd
    have hpiped := hd.piped.symm.trans h.piped
    rw [hnone] at hpiped
    exact flatten_chunks_eq_nil.mp (List.append_cancel_left hpiped)
  · intro hnothing
    refine ⟨?_, ?_, ?_, hfiles ▸ h.stored, h.segment⟩
    · rw [h.terminal, chunks_congr (hsame .terminal (by simp) (by simp))]
    · rw [h.captured, flatten_captured hnothing]
    · rw [h.piped, hnone, flatten_chunks_eq_nil.mpr hnothing]

/-- A world that is a log of what was appended; every file can be opened. -/
def logEnv : Env (List (String × Bytes)) where
  getCommand := fun _ _ _ => none
  environ := fun _ => .withPath "/bin"
  prepareOutputFile := fun w target _ => (.file ⟨target, target, 0⟩, w)
  stdinContents := fun _ _ => .ok []
  appendFile := fun w file data => some (w ++ [(file, data)])
  updateSize := fun w _ _ => w

/-- A command is given by its writes, which are not asked for here. -/
def silentCommand : Command (List (String × Bytes)) := fun _ _ _ w => ([], w)

end Cowrie.Shell
