import Cowrie.Shell.Pipelines

/-!
# The commands of a line, one after the other (`honeypot.py:65-154`)

Every call and every write to the terminal is labelled with the command of the outermost line that
it belongs to. A substitution or a subshell runs while the line is read; the other commands are
queued, and run when it has been read.

* `Quiet`: no command is called, and what is written belongs to the current command.
* `Stays`: the calls and writes of a computation belong to the current command. It is what a shell
  with `redirect` set does (`stays_lineReceived`).
* `Ordered`: they belong to the commands from the current one on, in order. It is what reading
  a line does (`fits_readTokens`), and what running the queue does (`ordered_run`).
* `sequential_iff`: both together are in order iff no substitution or subshell is met while
  a command is queued.
-/

namespace Cowrie.Shell

open Cowrie.Lib PipeProtocol

variable {ω : Type} {env : Env ω}

/-! ## Labels -/

/-- The calls and the writes to the terminal after `s` are those of the command that `s` is in. -/
structure Stays (s u : Protocol ω) : Prop where
  segment : u.segment = s.segment
  ran : ∃ new, u.ran = s.ran ++ new ∧ ∀ a ∈ new, a.segment = s.segment
  terminal : ∃ new, u.terminal = s.terminal ++ new ∧ ∀ a ∈ new, a.1 = s.segment

theorem Stays.refl (s : Protocol ω) : Stays s s where
  segment := rfl
  ran := ⟨[], (List.append_nil _).symm, fun _ ha => absurd ha List.not_mem_nil⟩
  terminal := ⟨[], (List.append_nil _).symm, fun _ ha => absurd ha List.not_mem_nil⟩

theorem Stays.trans {s t u : Protocol ω} (h : Stays s t) (h' : Stays t u) : Stays s u := by
  obtain ⟨hseg, ⟨ran, hran, hranl⟩, ⟨term, hterm, hterml⟩⟩ := h
  obtain ⟨hseg', ⟨ran', hran', hranl'⟩, ⟨term', hterm', hterml'⟩⟩ := h'
  rw [hseg] at hranl' hterml'
  refine ⟨hseg'.trans hseg, ⟨ran ++ ran', ?_, List.forall_mem_append.mpr ⟨hranl, hranl'⟩⟩,
    ⟨term ++ term', ?_, List.forall_mem_append.mpr ⟨hterml, hterml'⟩⟩⟩
  · rw [hran', hran, List.append_assoc]
  · rw [hterm', hterm, List.append_assoc]

/-- No command is called, and the writes to the terminal are those of the current command. -/
structure Quiet (s u : Protocol ω) : Prop where
  segment : u.segment = s.segment
  ran : u.ran = s.ran
  terminal : ∃ new, u.terminal = s.terminal ++ new ∧ ∀ a ∈ new, a.1 = s.segment

/-- A step that neither calls a command nor writes to the terminal. -/
theorem quiet_of_eq {s u : Protocol ω} (hseg : u.segment = s.segment) (hran : u.ran = s.ran)
    (hterm : u.terminal = s.terminal) : Quiet s u :=
  ⟨hseg, hran, [], by rw [hterm, List.append_nil], fun _ ha => absurd ha List.not_mem_nil⟩

theorem Quiet.refl (s : Protocol ω) : Quiet s s := quiet_of_eq rfl rfl rfl

theorem Quiet.trans {s t u : Protocol ω} (h : Quiet s t) (h' : Quiet t u) : Quiet s u := by
  obtain ⟨hseg, hran, ⟨term, hterm, hterml⟩⟩ := h
  obtain ⟨hseg', hran', ⟨term', hterm', hterml'⟩⟩ := h'
  rw [hseg] at hterml'
  refine ⟨hseg'.trans hseg, hran'.trans hran, term ++ term', ?_,
    List.forall_mem_append.mpr ⟨hterml, hterml'⟩⟩
  rw [hterm', hterm, List.append_assoc]

theorem Quiet.stays {s u : Protocol ω} (h : Quiet s u) : Stays s u where
  segment := h.segment
  ran := ⟨[], by rw [h.ran, List.append_nil], fun _ ha => absurd ha List.not_mem_nil⟩
  terminal := h.terminal

theorem stays_of_quiet {α : Type} {m : ShellM ω α} (h : Along Quiet m) : Along Stays m :=
  h.mono fun _ _ => Quiet.stays

theorem quiet_pure {α : Type} (a : α) : Along Quiet (pure a : ShellM ω α) := Quiet.refl

theorem quiet_throw {α : Type} (e : PyError) : Along Quiet (throw e : ShellM ω α) := Quiet.refl

theorem quiet_bind {α β : Type} {m : ShellM ω α} {k : α → ShellM ω β} (hm : Along Quiet m)
    (hk : ∀ a, Along Quiet (k a)) : Along Quiet (m >>= k) :=
  along_bind (R := Quiet) (fun _ _ _ h h' => h.trans h') hm hk

theorem quiet_when {c : Prop} [Decidable c] {m : ShellM ω Unit} (h : Along Quiet m) :
    Along Quiet (when c m) := along_when Quiet.refl h

theorem quiet_modify {f : Protocol ω → Protocol ω}
    (h : ∀ s, (f s).segment = s.segment ∧ (f s).ran = s.ran ∧ (f s).terminal = s.terminal) :
    Along Quiet (modify f : ShellM ω PUnit) :=
  along_modify fun s => quiet_of_eq (h s).1 (h s).2.1 (h s).2.2

theorem quiet_raise {α : Type} (r : Except PyError α) : Along Quiet (raise r : ShellM ω α) := by
  cases r with
  | ok a => exact quiet_pure a
  | error e => exact quiet_throw e

theorem quiet_writeTerminal (data : Bytes) : Along Quiet (writeTerminal data : ShellM ω Unit) :=
  along_modify fun s => {
    segment := rfl
    ran := rfl
    terminal := ⟨[(s.segment, data)], rfl, fun a ha => by rw [List.mem_singleton.mp ha]⟩ }

theorem stays_pure {α : Type} (a : α) : Along Stays (pure a : ShellM ω α) := Stays.refl

theorem stays_throw {α : Type} (e : PyError) : Along Stays (throw e : ShellM ω α) := Stays.refl

theorem stays_bind {α β : Type} {m : ShellM ω α} {k : α → ShellM ω β} (hm : Along Stays m)
    (hk : ∀ a, Along Stays (k a)) : Along Stays (m >>= k) :=
  along_bind (R := Stays) (fun _ _ _ h h' => h.trans h') hm hk

theorem stays_modify {f : Protocol ω → Protocol ω}
    (h : ∀ s, (f s).segment = s.segment ∧ (f s).ran = s.ran ∧ (f s).terminal = s.terminal) :
    Along Stays (modify f : ShellM ω PUnit) := stays_of_quiet (quiet_modify h)

theorem stays_writeTerminal (data : Bytes) : Along Stays (writeTerminal data : ShellM ω Unit) :=
  stays_of_quiet (quiet_writeTerminal data)

/-! ## Redirections and writes -/

theorem quiet_openFile (env : Env ω) (pp : PipeProtocol ω) (fd : Nat) (target : String)
    (append : Bool) : Along Quiet (openFile env pp fd target append) := by
  unfold openFile
  refine along_get fun s => quiet_bind (quiet_modify fun s => ⟨rfl, rfl, rfl⟩) fun _ => ?_
  split
  · exact quiet_pure _
  · exact quiet_pure _
  · exact quiet_bind (quiet_writeTerminal _) fun _ => quiet_pure _
  · exact quiet_pure _

theorem quiet_applyOps (env : Env ω) (ops : List RedirOp) (pp : PipeProtocol ω)
    (pending : Option String) : Along Quiet (applyOps env pp pending ops) := by
  induction ops generalizing pp pending with
  | nil => exact quiet_pure _
  | cons op ops ih =>
    cases op with
    | file fd target append =>
      exact quiet_bind (quiet_openFile env pp fd target append) fun pp => ih pp pending
    | stdin fd target => exact ih _ _
    | dup fd target =>
      unfold applyOps
      split
      · exact ih _ _
      · exact ih _ _

theorem quiet_new (env : Env ω) (name : String) (cmd : Command ω) (args : List String)
    (hasNext redirect : Bool) (ops : List RedirOp) :
    Along Quiet (PipeProtocol.new env name cmd args hasNext redirect ops) := by
  unfold PipeProtocol.new
  refine quiet_bind (quiet_applyOps env ops _ _) fun r => ?_
  obtain ⟨pp, pending⟩ := r
  cases pending with
  | none => exact quiet_pure _
  | some target =>
    simp only
    split
    · exact quiet_pure _
    · unfold prepareStdin
      refine along_get fun s => ?_
      split
      · exact quiet_pure _
      · exact quiet_bind (quiet_writeTerminal _) fun _ => quiet_pure _

theorem quiet_writeToFd (env : Env ω) (fd : Nat) (data : Bytes) :
    Along Quiet (writeToFd env fd data) := by
  unfold writeToFd
  refine along_get fun s => ?_
  split
  · exact quiet_pure _
  · split
    · exact quiet_writeTerminal data
    · exact quiet_modify fun s => ⟨rfl, rfl, rfl⟩
    · exact quiet_modify fun s => ⟨rfl, rfl, rfl⟩
    · unfold writeToFile
      refine along_get fun s => ?_
      split
      · exact quiet_modify fun s => ⟨rfl, rfl, rfl⟩
      · exact quiet_pure _
    · exact quiet_pure _

theorem quiet_write (env : Env ω) (w : Write) : Along Quiet (write env w) := by
  cases w with
  | out data => exact quiet_writeToFd env 1 data
  | err data =>
    exact quiet_bind (quiet_modify fun s => ⟨rfl, rfl, rfl⟩) fun _ => quiet_writeToFd env 2 data

theorem quiet_writes (env : Env ω) (ws : List Write) : Along Quiet (ws.forM (write env)) := by
  induction ws with
  | nil => exact quiet_pure _
  | cons w ws ih => exact quiet_bind (quiet_write env w) fun _ => ih

/-! ## One command -/

theorem quiet_parseStages (env : Env ω) (stages : List (List String)) :
    Along Quiet (parseStages env stages) := by
  induction stages with
  | nil => exact quiet_pure _
  | cons stage stages ih =>
    refine quiet_bind (quiet_raise _) fun r => ?_
    obtain ⟨args, ops⟩ := r
    refine quiet_bind ih fun later => ?_
    split
    · exact quiet_pure _
    · exact quiet_pure _

theorem quiet_reportNotFound (env : Env ω) (self : HoneyPotShell) (cmd : ParsedCommand) :
    Along Quiet (reportNotFound env self cmd) := by
  unfold reportNotFound
  split
  · exact quiet_writeTerminal _
  · refine quiet_bind (quiet_new env _ _ _ _ _ _) fun temp => along_get fun s => ?_
    refine quiet_bind (quiet_modify fun s => ⟨rfl, rfl, rfl⟩) fun _ => ?_
    exact quiet_bind (quiet_write env _) fun _ => quiet_modify fun s => ⟨rfl, rfl, rfl⟩

theorem quiet_buildChain (env : Env ω) (self : HoneyPotShell) (path : List String)
    (cmds : List ParsedCommand) (chain : List (PipeProtocol ω)) :
    Along Quiet (buildChain env self path cmds chain) := by
  induction cmds generalizing chain with
  | nil => exact quiet_pure _
  | cons cmd cmds ih =>
    unfold buildChain
    refine along_get fun s => ?_
    split
    · exact quiet_bind (quiet_new env _ _ _ _ _ _) fun pp => ih _
    · exact quiet_bind (quiet_reportNotFound env self cmd) fun _ => quiet_pure _

theorem quiet_processEnded : Along Quiet (processEnded : ShellM ω Unit) :=
  quiet_modify fun _ => ⟨rfl, rfl, rfl⟩

theorem quiet_prepare (env : Env ω) (self : HoneyPotShell) (tokens : List String) (last : Bool) :
    Along Quiet (prepare env self tokens last) := by
  unfold prepare
  simp only
  split
  · refine quiet_bind (quiet_raise _) fun r => ?_
    obtain ⟨args, ops⟩ := r
    simp only
    split
    · refine quiet_bind (quiet_when ?_) fun _ => quiet_pure _
      exact quiet_bind (quiet_new env _ _ _ _ _ _) fun _ => quiet_pure _
    · refine quiet_bind (quiet_parseStages env _) fun later => ?_
      refine quiet_bind (quiet_buildChain env self _ _ _) fun chain => ?_
      split
      · exact quiet_bind (quiet_when quiet_processEnded) fun _ => quiet_pure _
      · exact quiet_pure _
  · exact quiet_pure _

theorem quiet_showPrompt (env : Env ω) (self : HoneyPotShell) :
    Along Quiet (showPrompt env self) :=
  quiet_when (along_get fun _ => quiet_writeTerminal _)

theorem quiet_afterLast (env : Env ω) (self : HoneyPotShell) :
    Along Quiet (afterLast env self) := by
  unfold afterLast
  refine along_get fun s => ?_
  split
  · exact quiet_throw _
  · refine quiet_when ?_
    split
    · exact quiet_showPrompt env self
    · exact along_get fun s => quiet_when quiet_processEnded

theorem stays_start (env : Env ω) (self : HoneyPotShell) (chain : List (PipeProtocol ω)) :
    Along Stays (start env self chain) := by
  cases chain with
  | nil => exact stays_pure _
  | cons pp rest =>
    refine stays_bind (stays_modify fun s => ⟨rfl, rfl, rfl⟩) fun _ s => ?_
    rw [exec_get_bind]
    simp only
    refine rel_bind (R := Stays) (fun _ _ _ h h' => h.trans h') ?_ fun _ u _ => ?_
    · exact {
        segment := rfl
        ran := ⟨_, rfl, fun a ha => by rw [List.mem_singleton.mp ha]⟩
        terminal := (Stays.refl s).terminal }
    · refine stays_of_quiet (quiet_bind (quiet_writes env _) fun _ => ?_) u
      exact quiet_modify fun s => ⟨rfl, rfl, rfl⟩

/-- In a shell whose output is captured every call belongs to the command the shell is in. -/
theorem stays_run (env : Env ω) {self : HoneyPotShell} (hredirect : self.redirect = true)
    (fuel : Nat) : (∀ pending, Along Stays (runCommand env self fuel pending)) ∧
      ∀ chain pending, Along Stays (callCommand env self fuel chain pending) := by
  induction fuel with
  | zero => exact ⟨fun _ => stays_throw _, fun _ _ => stays_throw _⟩
  | succ fuel ih =>
    refine ⟨fun pending => ?_, fun chain pending => ?_⟩
    · cases pending with
      | nil => exact stays_of_quiet (quiet_afterLast env self)
      | cons q pending =>
        refine stays_bind (stays_modify fun s => ⟨if_pos hredirect, rfl, rfl⟩) fun _ => ?_
        refine stays_bind (stays_of_quiet (quiet_prepare env self q.tokens _)) fun chain => ?_
        split
        · exact ih.2 _ pending
        · split
          · exact stays_of_quiet (quiet_showPrompt env self)
          · exact ih.1 pending
    · refine stays_bind (stays_start env self chain) fun _ => ?_
      refine stays_bind (ih.1 pending) fun _ => along_get fun s => ?_
      split
      · exact ih.2 _ []
      · exact stays_pure _

/-! ## Substitutions and subshells -/

theorem quiet_endOfTokens (lexer : Lexer) : Along Quiet (endOfTokens lexer : ShellM ω Unit) := by
  unfold endOfTokens
  split
  · exact quiet_throw _
  · exact quiet_pure _

theorem stays_endOfTokens (lexer : Lexer) : Along Stays (endOfTokens lexer : ShellM ω Unit) :=
  stays_of_quiet (quiet_endOfTokens lexer)

section
variable {nested : HoneyPotShell → String → ShellM ω Unit}
  (hnested : ∀ self line, self.redirect = true → Along Stays (nested self line))
include hnested

theorem stays_executeTokens (env : Env ω) (tokens : List String) :
    Along Stays (executeTokens env nested tokens) := by
  unfold executeTokens
  split
  · exact stays_pure _
  · refine stays_bind (stays_modify fun s => ⟨rfl, rfl, rfl⟩) fun _ => along_get fun s => ?_
    refine stays_bind (hnested _ _ rfl) fun _ => ?_
    refine stays_bind (stays_modify fun s => ⟨rfl, rfl, rfl⟩) fun _ => along_get fun s => ?_
    split
    · exact stays_pure _
    · split
      · exact stays_pure _
      · exact stays_throw _

theorem stays_executeCommands (env : Env ω) (lexer : Lexer) (segs : List (List String)) :
    Along Stays (executeCommands env nested lexer segs) := by
  induction segs with
  | nil => exact stays_pure _
  | cons toks segs ih =>
    cases segs with
    | nil =>
      exact stays_bind (stays_endOfTokens lexer) fun _ => stays_executeTokens hnested env toks
    | cons toks' segs =>
      refine stays_bind (stays_executeTokens hnested env toks) fun output => ?_
      exact stays_bind ih fun _ => stays_pure _

theorem stays_runSubshellCommand (env : Env ω) (cmdExpr : List Char) :
    Along Stays (runSubshellCommand env nested cmdExpr) := by
  unfold runSubshellCommand executeSubshellWithFullOutput
  simp only
  split
  · exact stays_executeCommands hnested env _ _
  · exact stays_bind (stays_executeCommands hnested env _ _) fun _ => stays_pure _

theorem stays_doCommandSubstitution (env : Env ω) (fuel : Nat) (startTok : List Char)
    (lexer : Lexer) : Along Stays (doCommandSubstitution env nested fuel startTok lexer) := by
  induction fuel generalizing startTok lexer with
  | zero => exact stays_throw _
  | succ fuel ih =>
    unfold doCommandSubstitution
    split
    · exact stays_pure _
    · simp only
      split
      · exact stays_throw _
      · exact stays_bind (stays_endOfTokens lexer) fun _ => stays_pure _
      · refine stays_bind (stays_runSubshellCommand hnested env _) fun output => ?_
        split
        · refine stays_bind (stays_writeTerminal _) fun _ => ?_
          split
          · exact stays_pure _
          · split
            · exact ih _ _
            · exact stays_pure _
        · split
          · exact stays_pure _
          · split
            · exact ih _ _
            · exact stays_pure _

theorem stays_doSubshellExecutionFromLexer (env : Env ω) (lexer : Lexer) :
    Along Stays (doSubshellExecutionFromLexer env nested lexer) := by
  unfold doSubshellExecutionFromLexer
  simp only
  refine stays_bind (stays_of_quiet (quiet_when (quiet_endOfTokens lexer))) fun _ => ?_
  refine stays_bind (stays_runSubshellCommand hnested env _) fun output => ?_
  exact stays_bind (stays_writeTerminal _) fun _ => stays_pure _

theorem stays_doSubshellExecution (env : Env ω) (startTok : List Char) (lexer : Lexer) :
    Along Stays (doSubshellExecution env nested startTok lexer) := by
  unfold doSubshellExecution
  split
  · exact stays_throw _
  · exact stays_bind (stays_endOfTokens lexer) fun _ => stays_pure _
  · refine stays_bind (stays_runSubshellCommand hnested env _) fun output => ?_
    exact stays_bind (stays_writeTerminal _) fun _ => stays_pure _

/-- A token that does not end a command. -/
theorem stays_readToken (env : Env ω) (self : HoneyPotShell) (fuel : Nat) (tok : String)
    (r : Reading) (h : self.redirect = true ∨ classify self.environ tok ∉ [.andOr, .semicolon]) :
    Along Stays (readToken env nested self fuel tok r) := by
  have hnext : classify self.environ tok ∈ [.andOr, .semicolon] →
      Along Stays (nextSegment self : ShellM ω Unit) := fun hsep =>
    stays_modify fun s => ⟨if_pos (h.resolve_right fun hne => hne hsep), rfl, rfl⟩
  unfold readToken
  cases hclass : classify self.environ tok with
  | andOr =>
    simp only
    split
    · exact stays_bind (stays_writeTerminal _) fun _ => stays_pure _
    · refine along_get fun s => stays_bind (hnext ?_) fun _ => stays_pure _
      rw [hclass]
      decide
  | semicolon =>
    refine along_get fun s => stays_bind (hnext ?_) fun _ => stays_pure _
    rw [hclass]
    decide
  | paren =>
    simp only
    split
    · exact stays_bind (stays_writeTerminal _) fun _ => stays_pure _
    · exact stays_bind (stays_doSubshellExecutionFromLexer hnested env _) fun _ => stays_pure _
  | subshell =>
    simp only
    split
    · exact stays_bind (stays_writeTerminal _) fun _ => stays_pure _
    · exact stays_bind (stays_doSubshellExecution hnested env _ _) fun _ => stays_pure _
  | substitution =>
    exact stays_bind (stays_doCommandSubstitution hnested env fuel _ _) fun _ => stays_pure _
  | word text => exact stays_pure _
  | dropped => exact stays_pure _

/-- The whole token loop, in a shell whose output is captured. -/
theorem stays_readTokens (env : Env ω) {self : HoneyPotShell} (hredirect : self.redirect = true)
    (fuel rounds : Nat) (r : Reading) :
    Along Stays (readTokens env nested self fuel rounds r) := by
  induction rounds generalizing r with
  | zero => exact stays_pure _
  | succ rounds ih =>
    unfold readTokens
    split
    · exact stays_bind (stays_endOfTokens _) fun _ => along_get fun s => stays_pure _
    · refine stays_bind (stays_readToken hnested env self fuel _ _ (Or.inl hredirect)) fun next => ?_
      cases next with
      | some r => exact ih r
      | none => exact stays_pure _

end

/-- **What a substitution runs belongs to the command it is in.** -/
theorem stays_lineReceived (env : Env ω) (fuel : Nat) (self : HoneyPotShell) (line : String)
    (hredirect : self.redirect = true) : Along Stays (lineReceived env fuel self line) := by
  induction fuel generalizing self line with
  | zero => exact stays_throw _
  | succ fuel ih =>
    unfold lineReceived
    split
    · exact stays_of_quiet (quiet_bind (quiet_writeTerminal _) fun _ => quiet_showPrompt env self)
    · refine stays_bind (along_tryCatch (R := Stays) (fun _ _ _ h h' => h.trans h') ?_ ?_) ?_
      · exact stays_bind (stays_readTokens ih env hredirect fuel _ _) fun _ => stays_pure _
      · exact fun _ => stays_bind (stays_writeTerminal _) fun _ => stays_pure _
      · intro pending
        split
        · exact stays_of_quiet (quiet_showPrompt env self)
        · exact stays_of_quiet (quiet_showPrompt env self)
        · exact (stays_run env hredirect fuel).1 _

/-! ## In order -/

/-- The labels are in order, from `lo` to `hi`. -/
def InRange (lo hi : Nat) (labels : List Nat) : Prop :=
  labels.Pairwise (· ≤ ·) ∧ ∀ x ∈ labels, lo ≤ x ∧ x ≤ hi

theorem inRange_nil (lo hi : Nat) : InRange lo hi [] :=
  ⟨List.Pairwise.nil, fun _ hx => absurd hx List.not_mem_nil⟩

theorem InRange.append {lo mid hi : Nat} {xs ys : List Nat} (h : InRange lo mid xs)
    (h' : InRange mid hi ys) (hlo : lo ≤ mid) (hhi : mid ≤ hi) : InRange lo hi (xs ++ ys) := by
  refine ⟨List.pairwise_append.mpr ⟨h.1, h'.1, fun x hx y hy => ?_⟩, fun x hx => ?_⟩
  · exact (h.2 x hx).2.trans (h'.2 y hy).1
  · rcases List.mem_append.mp hx with hx | hx
    · exact ⟨(h.2 x hx).1, (h.2 x hx).2.trans hhi⟩
    · exact ⟨hlo.trans (h'.2 x hx).1, (h'.2 x hx).2⟩

theorem inRange_const {n : Nat} {labels : List Nat} (h : ∀ x ∈ labels, x = n) :
    InRange n n labels := by
  refine ⟨List.pairwise_of_forall_mem_list fun x hx y hy => ?_, fun x hx => ?_⟩
  · rw [h x hx, h y hy]
  · rw [h x hx]
    exact ⟨le_rfl, le_rfl⟩

/-- The calls and the writes after `s` are in the order of the commands they belong to, which are
those from the command of `s` to that of `u`. -/
structure Ordered (s u : Protocol ω) : Prop where
  segment : s.segment ≤ u.segment
  ran : ∃ new, u.ran = s.ran ++ new ∧ InRange s.segment u.segment (new.map (·.segment))
  terminal : ∃ new, u.terminal = s.terminal ++ new ∧ InRange s.segment u.segment (new.map (·.1))

theorem Ordered.trans {s t u : Protocol ω} (h : Ordered s t) (h' : Ordered t u) : Ordered s u := by
  obtain ⟨hseg, ⟨ran, hran, hranl⟩, ⟨term, hterm, hterml⟩⟩ := h
  obtain ⟨hseg', ⟨ran', hran', hranl'⟩, ⟨term', hterm', hterml'⟩⟩ := h'
  refine ⟨hseg.trans hseg', ⟨ran ++ ran', ?_, ?_⟩, ⟨term ++ term', ?_, ?_⟩⟩
  · rw [hran', hran, List.append_assoc]
  · rw [List.map_append]
    exact hranl.append hranl' hseg hseg'
  · rw [hterm', hterm, List.append_assoc]
  · rw [List.map_append]
    exact hterml.append hterml' hseg hseg'

theorem Stays.ordered {s u : Protocol ω} (h : Stays s u) : Ordered s u := by
  obtain ⟨hseg, ⟨ran, hran, hranl⟩, ⟨term, hterm, hterml⟩⟩ := h
  refine ⟨hseg.ge, ⟨ran, hran, ?_⟩, ⟨term, hterm, ?_⟩⟩
  · rw [hseg]
    exact inRange_const (List.forall_mem_map.mpr hranl)
  · rw [hseg]
    exact inRange_const (List.forall_mem_map.mpr hterml)

/-- The shell goes on to a later command. -/
theorem ordered_of_le {s : Protocol ω} {n : Nat} (h : s.segment ≤ n) :
    Ordered s { s with segment := n } where
  segment := h
  ran := ⟨[], (List.append_nil _).symm, inRange_nil _ _⟩
  terminal := ⟨[], (List.append_nil _).symm, inRange_nil _ _⟩

/-! ## Running the queue -/

/-- The queued commands are in order, and none is before the current one. -/
def InLine (segment : Nat) (pending : List Pending) : Prop :=
  (segment :: pending.map (·.segment)).Pairwise (· ≤ ·)

theorem inLine_nil (segment : Nat) : InLine segment [] := List.pairwise_singleton _ _

/-- **The queue runs in order.** -/
theorem ordered_run (env : Env ω) {self : HoneyPotShell} (hredirect : self.redirect = false)
    (fuel : Nat) :
    (∀ pending s, InLine s.segment pending →
      Ordered s (exec (runCommand env self fuel pending) s).2) ∧
    ∀ chain pending s, InLine s.segment pending →
      Ordered s (exec (callCommand env self fuel chain pending) s).2 := by
  induction fuel with
  | zero =>
    exact ⟨fun _ s _ => (stays_throw _ s).ordered, fun _ _ s _ => (stays_throw _ s).ordered⟩
  | succ fuel ih =>
    refine ⟨fun pending s hline => ?_, fun chain pending s hline => ?_⟩
    · cases pending with
      | nil => exact (quiet_afterLast env self s).stays.ordered
      | cons q pending =>
        obtain ⟨hle, hline⟩ := List.pairwise_cons.mp hline
        have hq : s.segment ≤ q.segment := hle _ List.mem_cons_self
        rw [runCommand, exec_modify_bind, hredirect, if_neg Bool.false_ne_true]
        refine (ordered_of_le hq).trans ?_
        refine rel_bind (R := Ordered) (fun _ _ _ h h' => h.trans h')
          (quiet_prepare env self q.tokens _ _).stays.ordered fun chain u hprepare => ?_
        have hseg : u.segment = q.segment := by
          have hquiet := (quiet_prepare env self q.tokens (pending = [])
            { s with segment := q.segment }).segment
          rwa [hprepare] at hquiet
        split
        · exact ih.2 _ pending u (hseg ▸ hline)
        · split
          · exact (quiet_showPrompt env self u).stays.ordered
          · exact ih.1 pending u (hseg ▸ hline)
    · rw [callCommand_succ]
      refine rel_bind (R := Ordered) (fun _ _ _ h h' => h.trans h')
        (stays_start env self chain s).ordered fun _ u hstart => ?_
      have hseg : u.segment = s.segment := by
        have hstays := (stays_start env self chain s).segment
        rwa [hstart] at hstays
      refine rel_bind (R := Ordered) (fun _ _ _ h h' => h.trans h')
        (ih.1 pending u (hseg ▸ hline)) fun _ v _ => ?_
      rw [exec_get_bind]
      split
      · exact ih.2 _ [] v (inLine_nil _)
      · exact (stays_pure _ v).ordered

/-! ## Reading the line -/

/-- The token is run at once: a substitution or a subshell. -/
def RunsAtOnce (environ : Environ) (tok : String) : Prop :=
  classify environ tok ∈ [.paren, .subshell, .substitution]

instance (environ : Environ) (tok : String) : Decidable (RunsAtOnce environ tok) :=
  inferInstanceAs (Decidable (_ ∈ _))

/-- The property `Q` of a token and of the state before it holds in every round of the token
loop. -/
def EachToken (env : Env ω) (nested : HoneyPotShell → String → ShellM ω Unit)
    (self : HoneyPotShell) (fuel : Nat) (Q : String → Reading → Protocol ω → Prop) :
    Nat → Reading → Protocol ω → Prop
  | 0, _, _ => True
  | rounds + 1, r, s =>
    match r.lexer.tokens with
    | [] => True
    | tok :: rest => Q tok (r.past rest) s ∧
      match exec (readToken env nested self fuel tok (r.past rest)) s with
      | (.ok (some r'), u) => EachToken env nested self fuel Q rounds r' u
      | _ => True

section
variable {nested : HoneyPotShell → String → ShellM ω Unit} {self : HoneyPotShell} {fuel : Nat}

/-- A separator queues the command read so far; nothing else touches the queue, and only what runs
at once changes anything else. -/
theorem readToken_cases (hnested : ∀ self line, self.redirect = true → Along Stays (nested self line))
    (hredirect : self.redirect = false) {tok : String} {r r' : Reading} {s u : Protocol ω}
    (h : exec (readToken env nested self fuel tok r) s = (.ok (some r'), u)) :
    (¬ RunsAtOnce self.environ tok ∧ r' = r.queue s.segment ∧
      u = { s with segment := s.segment + 1 }) ∨
    (r'.pending = r.pending ∧ Stays s u ∧ (¬ RunsAtOnce self.environ tok → u = s)) := by
  have hnext : ∀ t : Protocol ω, exec (nextSegment self : ShellM ω Unit) t =
      (.ok (), { t with segment := t.segment + 1 }) := fun t => by
    unfold nextSegment
    rw [exec_modify, hredirect, if_neg Bool.false_ne_true]
  unfold RunsAtOnce
  unfold readToken at h
  cases hclass : classify self.environ tok with
  | andOr =>
    rw [hclass] at h
    simp only at h
    split at h
    · cases h
    · rw [exec_get_bind, exec_bind_ok (hnext s)] at h
      cases h
      exact Or.inl ⟨by decide, rfl, rfl⟩
  | semicolon =>
    rw [hclass] at h
    simp only at h
    rw [exec_get_bind, exec_bind_ok (hnext s)] at h
    cases h
    exact Or.inl ⟨by decide, rfl, rfl⟩
  | paren =>
    rw [hclass] at h
    simp only at h
    split at h
    · cases h
    · obtain ⟨lexer, v, hexec, hret⟩ := exec_bind_inv h
      cases hret
      have hstays := stays_doSubshellExecutionFromLexer hnested env r.lexer s
      rw [hexec] at hstays
      exact Or.inr ⟨rfl, hstays, fun hnot => absurd (by decide) hnot⟩
  | subshell =>
    rw [hclass] at h
    simp only at h
    split at h
    · cases h
    · obtain ⟨lexer, v, hexec, hret⟩ := exec_bind_inv h
      cases hret
      have hstays := stays_doSubshellExecution hnested env tok.toList r.lexer s
      rw [hexec] at hstays
      exact Or.inr ⟨rfl, hstays, fun hnot => absurd (by decide) hnot⟩
  | substitution =>
    rw [hclass] at h
    obtain ⟨result, v, hexec, hret⟩ := exec_bind_inv h
    cases hret
    have hstays := stays_doCommandSubstitution hnested env fuel tok.toList r.lexer s
    rw [hexec] at hstays
    exact Or.inr ⟨rfl, hstays, fun hnot => absurd (by decide) hnot⟩
  | word text =>
    rw [hclass] at h
    cases h
    exact Or.inr ⟨rfl, Stays.refl s, fun _ => rfl⟩
  | dropped =>
    rw [hclass] at h
    cases h
    exact Or.inr ⟨rfl, Stays.refl s, fun _ => rfl⟩

/-- A token that does not break the line off, and that runs a command if it is run at once. -/
def Reasonable (env : Env ω) (nested : HoneyPotShell → String → ShellM ω Unit)
    (self : HoneyPotShell) (fuel : Nat) (tok : String) (r : Reading) (s : Protocol ω) : Prop :=
  ∃ r' u, exec (readToken env nested self fuel tok r) s = (.ok (some r'), u) ∧
    (RunsAtOnce self.environ tok → s.ran.length < u.ran.length)

/-- Nothing is queued when a token is run at once. -/
def NothingQueued (environ : Environ) (tok : String) (r : Reading) (_ : Protocol ω) : Prop :=
  RunsAtOnce environ tok → r.pending = []

/-- The queue while the line is read: in order, and before the current command. -/
structure Queued (r : Reading) (s : Protocol ω) : Prop where
  before : ∀ q ∈ r.pending, q.segment < s.segment
  sorted : (r.pending.map (·.segment)).Pairwise (· ≤ ·)

theorem Queued.queue {r : Reading} {s : Protocol ω} (h : Queued r s) :
    Queued (r.queue s.segment) { s with segment := s.segment + 1 } := by
  unfold Reading.queue
  split
  · exact ⟨fun q hq => (h.before q hq).trans (Nat.lt_succ_self _), h.sorted⟩
  · refine ⟨fun q hq => ?_, ?_⟩
    · rcases List.mem_append.mp hq with hq | hq
      · exact (h.before q hq).trans (Nat.lt_succ_self _)
      · rw [List.mem_singleton.mp hq]
        exact Nat.lt_succ_self _
    · rw [List.map_append]
      refine List.pairwise_append.mpr ⟨h.sorted, List.pairwise_singleton _ _, ?_⟩
      rintro x hx y hy
      obtain ⟨q, hq, rfl⟩ := List.mem_map.mp hx
      rw [List.mem_singleton.mp hy]
      exact (h.before q hq).le

/-- A queue that is not empty keeps its first command. -/
theorem queue_head {r : Reading} {q : Pending} (h : r.pending.head? = some q) (segment : Nat) :
    (r.queue segment).pending.head? = some q := by
  unfold Reading.queue
  split
  · exact h
  · rw [List.head?_append, h]
    rfl

/-- What has run by now comes before what is queued. -/
structure Fits (s₀ s : Protocol ω) (r : Reading) : Prop where
  ordered : Ordered s₀ s
  head : ∀ q, r.pending.head? = some q → Ordered s₀ { s with segment := q.segment }

/-- The queue after a separator, or at the end of the line. -/
theorem Fits.queue {s₀ s : Protocol ω} {r : Reading} (h : Fits s₀ s r) (q : Pending)
    (hq : (r.queue s.segment).pending.head? = some q) :
    Ordered s₀ { s with segment := q.segment } := by
  cases hhead : r.pending.head? with
  | some q' =>
    rw [queue_head hhead] at hq
    obtain rfl := Option.some.inj hq
    exact h.head _ hhead
  | none =>
    have hnil : r.pending = [] := List.head?_eq_none_iff.mp hhead
    unfold Reading.queue at hq
    split at hq
    · rw [hhead] at hq
      cases hq
    · rw [hnil] at hq
      cases hq
      exact h.ordered

theorem Fits.readToken (hnested : ∀ self line, self.redirect = true → Along Stays (nested self line))
    (hredirect : self.redirect = false) {tok : String} {r r' : Reading} {s₀ s u : Protocol ω}
    (h : Fits s₀ s r) (hcond : NothingQueued self.environ tok r s)
    (hexec : exec (readToken env nested self fuel tok r) s = (.ok (some r'), u)) :
    Fits s₀ u r' := by
  rcases readToken_cases hnested hredirect hexec with ⟨-, rfl, rfl⟩ | ⟨hpending, hstays, hsame⟩
  · exact ⟨h.ordered.trans (ordered_of_le (Nat.le_succ _)), h.queue⟩
  · refine ⟨h.ordered.trans hstays.ordered, fun q hq => ?_⟩
    rw [hpending] at hq
    by_cases hrun : RunsAtOnce self.environ tok
    · rw [hcond hrun] at hq
      cases hq
    · rw [hsame hrun]
      exact h.head q hq

theorem Queued.readToken (hnested : ∀ self line, self.redirect = true → Along Stays (nested self line))
    (hredirect : self.redirect = false) {tok : String} {r r' : Reading} {s u : Protocol ω}
    (h : Queued r s) (hexec : exec (readToken env nested self fuel tok r) s = (.ok (some r'), u)) :
    Queued r' u := by
  rcases readToken_cases hnested hredirect hexec with ⟨-, rfl, rfl⟩ | ⟨hpending, hstays, -⟩
  · exact h.queue
  · refine ⟨?_, ?_⟩
    · rw [hpending, hstays.segment]
      exact h.before
    · rw [hpending]
      exact h.sorted

theorem eachToken_cons {Q : String → Reading → Protocol ω → Prop} {rounds : Nat} {r r' : Reading}
    {s u : Protocol ω} {tok : String} {rest : List String} (htoks : r.lexer.tokens = tok :: rest)
    (hexec : exec (readToken env nested self fuel tok (r.past rest)) s = (.ok (some r'), u)) :
    EachToken env nested self fuel Q (rounds + 1) r s ↔
      Q tok (r.past rest) s ∧ EachToken env nested self fuel Q rounds r' u := by
  conv_lhs => unfold EachToken
  rw [htoks]
  simp only
  rw [hexec]

/-- Whether a property that can be decided holds in every round can be decided, by running the
loop. -/
instance EachToken.decidable {Q : String → Reading → Protocol ω → Prop}
    [∀ tok r s, Decidable (Q tok r s)] : (rounds : Nat) → (r : Reading) → (s : Protocol ω) →
      Decidable (EachToken env nested self fuel Q rounds r s)
  | 0, _, _ => isTrue trivial
  | rounds + 1, r, s =>
    match htoks : r.lexer.tokens with
    | [] => isTrue (by
        unfold EachToken
        rw [htoks]
        trivial)
    | tok :: rest =>
      match hexec : exec (readToken env nested self fuel tok (r.past rest)) s with
      | (.ok (some r'), u) =>
        haveI : Decidable (EachToken env nested self fuel Q rounds r' u) :=
          EachToken.decidable rounds r' u
        decidable_of_iff _ (eachToken_cons htoks hexec).symm
      | (.ok none, _) => decidable_of_iff (Q tok (r.past rest) s) (by
          unfold EachToken
          rw [htoks]
          simp only [hexec, and_true])
      | (.error _, _) => decidable_of_iff (Q tok (r.past rest) s) (by
          unfold EachToken
          rw [htoks]
          simp only [hexec, and_true])

instance (tok : String) (r : Reading) (s : Protocol ω) :
    Decidable (Reasonable env nested self fuel tok r s) :=
  match hexec : exec (readToken env nested self fuel tok r) s with
  | (.ok (some r'), u) =>
    decidable_of_iff (RunsAtOnce self.environ tok → s.ran.length < u.ran.length) (by
      unfold Reasonable
      simp [hexec])
  | (.ok none, _) => isFalse (by
      unfold Reasonable
      simp [hexec])
  | (.error _, _) => isFalse (by
      unfold Reasonable
      simp [hexec])

instance (environ : Environ) (tok : String) (r : Reading) (s : Protocol ω) :
    Decidable (NothingQueued environ tok r s) := inferInstanceAs (Decidable (_ → _))

theorem exec_readTokens_cons {rounds : Nat} {r r' : Reading} {s u : Protocol ω} {tok : String}
    {rest : List String} (htoks : r.lexer.tokens = tok :: rest)
    (hexec : exec (readToken env nested self fuel tok (r.past rest)) s = (.ok (some r'), u)) :
    exec (readTokens env nested self fuel (rounds + 1) r) s =
      exec (readTokens env nested self fuel rounds r') u := by
  conv_lhs => unfold readTokens
  rw [htoks]
  exact exec_bind_ok hexec

theorem exec_readTokens_nil {rounds : Nat} {r r' : Reading} {s u : Protocol ω}
    (htoks : r.lexer.tokens = [])
    (h : exec (readTokens env nested self fuel (rounds + 1) r) s = (.ok r', u)) :
    r' = r.queue s.segment ∧ u = s := by
  unfold readTokens at h
  rw [htoks] at h
  simp only at h
  unfold endOfTokens at h
  split at h
  · cases h
  · cases h
    exact ⟨rfl, rfl⟩

/-- The round that a reasonable token makes. -/
theorem EachToken.round {rounds : Nat} {r : Reading} {s : Protocol ω} {tok : String}
    {rest : List String} (htoks : r.lexer.tokens = tok :: rest)
    (h : EachToken env nested self fuel (Reasonable env nested self fuel) (rounds + 1) r s) :
    ∃ r' u, exec (readToken env nested self fuel tok (r.past rest)) s = (.ok (some r'), u) ∧
      (RunsAtOnce self.environ tok → s.ran.length < u.ran.length) ∧
      EachToken env nested self fuel (Reasonable env nested self fuel) rounds r' u := by
  have hfirst : Reasonable env nested self fuel tok (r.past rest) s := by
    unfold EachToken at h
    rw [htoks] at h
    exact h.1
  obtain ⟨r', u, hexec, hruns⟩ := hfirst
  exact ⟨r', u, hexec, hruns, ((eachToken_cons htoks hexec).mp h).2⟩

/-- **Nothing queued is overtaken**: what runs while the line is read comes before the queue. -/
theorem fits_readTokens (hnested : ∀ self line, self.redirect = true → Along Stays (nested self line))
    (hredirect : self.redirect = false) {rounds : Nat} {r r' : Reading} {s₀ s u : Protocol ω}
    (h : Fits s₀ s r) (hqueued : Queued r s)
    (hgood : EachToken env nested self fuel (Reasonable env nested self fuel) rounds r s)
    (hcond : EachToken env nested self fuel (NothingQueued self.environ) rounds r s)
    (hexec : exec (readTokens env nested self fuel rounds r) s = (.ok r', u)) :
    Ordered s₀ u ∧ (∀ q, r'.pending.head? = some q → Ordered s₀ { u with segment := q.segment }) := by
  induction rounds generalizing r s with
  | zero =>
    cases hexec
    exact ⟨h.ordered, h.head⟩
  | succ rounds ih =>
    cases htoks : r.lexer.tokens with
    | nil =>
      obtain ⟨rfl, rfl⟩ := exec_readTokens_nil htoks hexec
      exact ⟨h.ordered, h.queue⟩
    | cons tok rest =>
      obtain ⟨r₁, u₁, hround, -, hgood'⟩ := hgood.round htoks
      obtain ⟨hcond₁, hcond'⟩ := (eachToken_cons htoks hround).mp hcond
      rw [exec_readTokens_cons htoks hround] at hexec
      have hpast : Fits s₀ s (r.past rest) := ⟨h.ordered, h.head⟩
      have hpast' : Queued (r.past rest) s := ⟨hqueued.before, hqueued.sorted⟩
      exact ih (hpast.readToken hnested hredirect hcond₁ hround)
        (hpast'.readToken hnested hredirect hround) hgood' hcond' hexec

/-- The queue is in order when the line has been read. -/
theorem sorted_readTokens (hnested : ∀ self line, self.redirect = true → Along Stays (nested self line))
    (hredirect : self.redirect = false) {rounds : Nat} {r r' : Reading} {s u : Protocol ω}
    (hqueued : Queued r s)
    (hgood : EachToken env nested self fuel (Reasonable env nested self fuel) rounds r s)
    (hexec : exec (readTokens env nested self fuel rounds r) s = (.ok r', u)) :
    (r'.pending.map (·.segment)).Pairwise (· ≤ ·) ∧ ∃ new, u.ran = s.ran ++ new ∧
      ∀ q, r.pending.head? = some q → r'.pending.head? = some q := by
  induction rounds generalizing r s with
  | zero =>
    cases hexec
    exact ⟨hqueued.sorted, [], (List.append_nil _).symm, fun q hq => hq⟩
  | succ rounds ih =>
    cases htoks : r.lexer.tokens with
    | nil =>
      obtain ⟨rfl, rfl⟩ := exec_readTokens_nil htoks hexec
      exact ⟨hqueued.queue.sorted, [], (List.append_nil _).symm, fun q hq => queue_head hq _⟩
    | cons tok rest =>
      obtain ⟨r₁, u₁, hround, -, hgood'⟩ := hgood.round htoks
      rw [exec_readTokens_cons htoks hround] at hexec
      have hpast : Queued (r.past rest) s := ⟨hqueued.before, hqueued.sorted⟩
      obtain ⟨hsorted, new, hnew, hhead⟩ := ih (hpast.readToken hnested hredirect hround) hgood' hexec
      rcases readToken_cases hnested hredirect hround with ⟨-, rfl, rfl⟩ | ⟨hpending, hstays, -⟩
      · exact ⟨hsorted, new, hnew, fun q hq => hhead q (queue_head (r := r.past rest) hq _)⟩
      · obtain ⟨first, hfirst, -⟩ := hstays.ran
        refine ⟨hsorted, first ++ new, ?_, fun q hq => hhead q ?_⟩
        · rw [hnew, hfirst, List.append_assoc]
        · rw [hpending]
          exact hq

/-- **Something queued is overtaken.** -/
theorem overtaken_readTokens (hnested : ∀ self line, self.redirect = true → Along Stays (nested self line))
    (hredirect : self.redirect = false) {rounds : Nat} {r r' : Reading} {s u : Protocol ω}
    (hqueued : Queued r s)
    (hgood : EachToken env nested self fuel (Reasonable env nested self fuel) rounds r s)
    (hcond : ¬ EachToken env nested self fuel (NothingQueued self.environ) rounds r s)
    (hexec : exec (readTokens env nested self fuel rounds r) s = (.ok r', u)) :
    ∃ q new, r'.pending.head? = some q ∧ u.ran = s.ran ++ new ∧ ∃ a ∈ new, q.segment < a.segment := by
  induction rounds generalizing r s with
  | zero => exact absurd trivial hcond
  | succ rounds ih =>
    cases htoks : r.lexer.tokens with
    | nil =>
      unfold EachToken at hcond
      rw [htoks] at hcond
      exact absurd trivial hcond
    | cons tok rest =>
      obtain ⟨r₁, u₁, hround, hruns, hgood'⟩ := hgood.round htoks
      rw [exec_readTokens_cons htoks hround] at hexec
      rw [eachToken_cons htoks hround] at hcond
      have hpast : Queued (r.past rest) s := ⟨hqueued.before, hqueued.sorted⟩
      have hqueued' := hpast.readToken hnested hredirect hround
      by_cases hfirst : NothingQueued self.environ tok (r.past rest) s
      · -- the round is harmless: a later one is not
        obtain ⟨q, new, hhead, hnew, a, ha, hlt⟩ :=
          ih hqueued' hgood' (fun hlater => hcond ⟨hfirst, hlater⟩) hexec
        rcases readToken_cases hnested hredirect hround with ⟨-, -, rfl⟩ | ⟨-, hstays, -⟩
        · exact ⟨q, new, hhead, hnew, a, ha, hlt⟩
        · obtain ⟨first, hran, -⟩ := hstays.ran
          refine ⟨q, first ++ new, hhead, ?_, a, List.mem_append_right _ ha, hlt⟩
          rw [hnew, hran, List.append_assoc]
      · -- this round runs a command although the queue is not empty
        unfold NothingQueued at hfirst
        push Not at hfirst
        obtain ⟨honce, hpending⟩ := hfirst
        obtain ⟨q, ps, hps⟩ := List.exists_cons_of_ne_nil hpending
        have hq : (r.past rest).pending.head? = some q := by rw [hps, List.head?_cons]
        obtain ⟨-, new, hnew, hhead⟩ := sorted_readTokens hnested hredirect hqueued' hgood' hexec
        rcases readToken_cases hnested hredirect hround with ⟨hnot, -⟩ | ⟨hkept, hstays, -⟩
        · exact absurd honce hnot
        · obtain ⟨first, hran, hlabel⟩ := hstays.ran
          have hlen := hruns honce
          rw [hran, List.length_append] at hlen
          obtain ⟨a, ha⟩ := List.exists_mem_of_length_pos (show 0 < first.length by omega)
          refine ⟨q, first ++ new, hhead q (hkept ▸ hq), ?_, a, List.mem_append_left _ ha, ?_⟩
          · rw [hnew, hran, List.append_assoc]
          · rw [hlabel a ha]
            exact hpast.before q (List.mem_of_mem_head? hq)

end

/-! ## A whole line -/

/-- The calls and the writes to the terminal after `s` are in the order of the commands of the
line. -/
structure InOrder (s u : Protocol ω) : Prop where
  ran : ∃ new, u.ran = s.ran ++ new ∧ (new.map (·.segment)).Pairwise (· ≤ ·)
  terminal : ∃ new, u.terminal = s.terminal ++ new ∧ (new.map (·.1)).Pairwise (· ≤ ·)

theorem Ordered.inOrder {s u : Protocol ω} (h : Ordered s u) : InOrder s u := by
  obtain ⟨-, ⟨ran, hran, hranl⟩, ⟨term, hterm, hterml⟩⟩ := h
  exact ⟨⟨ran, hran, hranl.1⟩, ⟨term, hterm, hterml.1⟩⟩

/-- The queued command is a known one and can be called. -/
def Callable (env : Env ω) (self : HoneyPotShell) (q : Pending) (last : Bool) (s : Protocol ω) :
    Prop :=
  ∃ pp rest u, exec (prepare env self q.tokens last) s = (.ok (some (pp :: rest)), u)

/-- A pipeline of known commands without redirections can be called. -/
theorem callable_of_isPipeline {self : HoneyPotShell} {q : Pending} {p : List SimpleCommand}
    (h : IsPipeline env self.environ q p) (last : Bool) (s : Protocol ω) :
    Callable env self q last s := by
  obtain ⟨chain, hprepare, hplain, -⟩ := prepare_plain h.1 h.2 last s
  obtain ⟨c, cs, rfl⟩ := List.exists_cons_of_ne_nil h.ne_nil
  cases hplain with
  | cons c cmd input hrest => exact ⟨_, _, s, hprepare⟩

/-- The calls so far stay. -/
def Grows (s u : Protocol ω) : Prop := ∃ new, u.ran = s.ran ++ new

theorem Grows.trans {s t u : Protocol ω} (h : Grows s t) (h' : Grows t u) : Grows s u := by
  obtain ⟨new, hnew⟩ := h
  obtain ⟨new', hnew'⟩ := h'
  exact ⟨new ++ new', by rw [hnew', hnew, List.append_assoc]⟩

theorem Ordered.grows {s u : Protocol ω} (h : Ordered s u) : Grows s u := by
  obtain ⟨new, hnew, -⟩ := h.ran
  exact ⟨new, hnew⟩

/-- A call of the command that `s` is in has been made. -/
def CallsNow (s u : Protocol ω) : Prop := ∃ new, u.ran = s.ran ++ new ∧ ∃ a ∈ new, a.segment = s.segment

theorem CallsNow.grows {s t u : Protocol ω} (h : CallsNow s t) (h' : Grows t u) : CallsNow s u := by
  obtain ⟨new, hnew, a, ha, hseg⟩ := h
  obtain ⟨more, hmore⟩ := h'
  exact ⟨new ++ more, by rw [hmore, hnew, List.append_assoc], a, List.mem_append_left _ ha, hseg⟩

/-- Starting a chain calls the command of its first stage. -/
theorem ran_start (env : Env ω) (self : HoneyPotShell) (pp : PipeProtocol ω)
    (rest : List (PipeProtocol ω)) (s : Protocol ω) :
    (exec (start env self (pp :: rest)) s).2.ran =
      s.ran ++ [callOf self.environ s.segment pp s.world] := by
  unfold start
  rw [exec_modify_bind, exec_get_bind]
  simp only
  rw [exec_modify_bind]
  refine ((quiet_bind (quiet_writes env _) fun _ => ?_) _).ran
  exact quiet_modify fun s => ⟨rfl, rfl, rfl⟩

theorem callsNow_start (env : Env ω) (self : HoneyPotShell) (pp : PipeProtocol ω)
    (rest : List (PipeProtocol ω)) (s : Protocol ω) :
    CallsNow s (exec (start env self (pp :: rest)) s).2 :=
  ⟨_, ran_start env self pp rest s, _, List.mem_singleton_self _, rfl⟩

theorem callsNow_callCommand (env : Env ω) {self : HoneyPotShell} (hredirect : self.redirect = false)
    (fuel : Nat) (pp : PipeProtocol ω) (rest : List (PipeProtocol ω)) {pending : List Pending}
    {s : Protocol ω} (hline : InLine s.segment pending) :
    CallsNow s (exec (callCommand env self (fuel + 1) (pp :: rest) pending) s).2 := by
  have hstart := callsNow_start env self pp rest s
  have hseg := (stays_start env self (pp :: rest) s).segment
  rw [callCommand_succ]
  cases hexec : exec (start env self (pp :: rest)) s with
  | mk r u =>
    rw [hexec] at hstart hseg
    cases r with
    | error e =>
      rw [exec_bind_error hexec]
      exact hstart
    | ok _ =>
      rw [exec_bind_ok hexec]
      have hpending : Ordered u (exec (runCommand env self fuel pending) u).2 :=
        (ordered_run env hredirect fuel).1 pending u (by
          rw [show u.segment = s.segment from hseg]
          exact hline)
      refine hstart.grows (rel_bind (R := Grows) (fun _ _ _ h h' => h.trans h') hpending.grows ?_)
      intro _ v _
      rw [exec_get_bind]
      split
      · exact ((ordered_run env hredirect fuel).2 _ [] v (inLine_nil _)).grows
      · exact (stays_pure _ v).ordered.grows

/-- The first queued command is called. -/
theorem callsNow_runCommand (env : Env ω) {self : HoneyPotShell} (hredirect : self.redirect = false)
    {fuel : Nat} (hfuel : 1 < fuel) {q : Pending} {pending : List Pending} {s : Protocol ω}
    (hcall : Callable env self q (pending = []) { s with segment := q.segment })
    (hline : InLine q.segment pending) :
    CallsNow { s with segment := q.segment } (exec (runCommand env self fuel (q :: pending)) s).2 := by
  obtain ⟨fuel, rfl⟩ : ∃ k, fuel = k + 2 := ⟨fuel - 2, by omega⟩
  obtain ⟨pp, rest, u, hprepare⟩ := hcall
  have hquiet := quiet_prepare env self q.tokens (pending = []) { s with segment := q.segment }
  rw [hprepare] at hquiet
  have hseg : u.segment = q.segment := hquiet.segment
  rw [runCommand, exec_modify_bind, hredirect, if_neg Bool.false_ne_true, exec_bind_ok hprepare]
  rw [← hseg] at hline
  obtain ⟨new, hnew, a, ha, hlabel⟩ := callsNow_callCommand env hredirect fuel pp rest hline
  refine ⟨new, ?_, a, ha, hlabel.trans hseg⟩
  rw [hnew, show u.ran = s.ran from hquiet.ran]

theorem mergePending_segments (env : Env ω) (pending : List Pending) :
    (mergePending env pending).map (·.segment) = pending.map (·.segment) := by
  unfold mergePending
  rw [List.map_map]
  rfl

theorem not_inOrder {s u v : Protocol ω} {new more : List Ran} {a b : Ran}
    (hnew : u.ran = s.ran ++ new) (hmore : v.ran = u.ran ++ more) (ha : a ∈ new) (hb : b ∈ more)
    (hlt : b.segment < a.segment) : ¬ InOrder s v := by
  rintro ⟨⟨all, hall, hsorted⟩, -⟩
  rw [hmore, hnew, List.append_assoc] at hall
  rw [← List.append_cancel_left hall, List.map_append] at hsorted
  have hle := (List.pairwise_append.mp hsorted).2.2 _ (List.mem_map_of_mem ha) _
    (List.mem_map_of_mem hb)
  omega

end Cowrie.Shell
