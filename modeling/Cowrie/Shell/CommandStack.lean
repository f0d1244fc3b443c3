import Cowrie.Lib.Run
import Cowrie.Shell.Parser

/-!
# The command stack (`src/cowrie/shell/command.py:79-110`, `protocol.py:163-219`, `273-296`,
`honeypot.py:336-352`, `pipe.py:246-268`, `commands/bash.py:81-112`)

`protocol.cmdstack` is a list of shells and commands. Whatever is typed goes to the last of them. A command
is appended by `call_command` and removes itself (`exit`); a nested shell, in which a substitution, a subshell
or a script runs, is appended and popped by whoever runs it.

## The model

Everything runs in one thread: between two events of the reactor a stack of Python calls is worked off,
`frames`, and an `Event` says what the innermost of them does next.

* A command is whatever it does: in its code (`method`, `call`) any `Act` may come next, any number
  of times, and `callback` calls its code again (a timer, a `Deferred`), also after it has left the stack.
* A shell that reads a line may run any substitutions, and then any pipelines. What it has queued is not
  modelled: `run` calls any pipeline, or none, which over-approximates the shell.
* An exception leaves every call but the token loop, which catches it.
* `started`, `exited` and `raised` are ghost state.

Left out: output, `redirFiles`, the modes of the terminal, `processEnded`; `_safe_exit` of `tftp.py`, which
catches the `ValueError` of `exit`; and a nested shell after the connection was lost, which has no environment.

## Results

* `Orderly`: a command calls `exit` once; when a nested shell is popped, all commands called since it was
  appended have called `exit`; no shell is opened or left for good inside a nested one.
* **`disciplined_of_orderly`**: then every `exit` removes its command, nothing else does, every nested
  execution restores the stack, and nothing is raised.
* `disciplined_violated`: `rm -q` calls `exit` twice.
-/

namespace Cowrie.Shell.CommandStack

open Cowrie.Lib

/-! ## Objects and calls -/

/-- `start` of a class: `call` and then `exit`, as in `HoneyPotCommand`, or its own. -/
inductive Start
  | base
  | own
  deriving DecidableEq, Repr

inductive Kind
  | shell (interactive : Bool)
  | command (start : Start)
  deriving DecidableEq, Repr

/-- An object of the stack; `ref` is its identity. -/
structure Obj where
  ref : Nat
  kind : Kind
  deriving DecidableEq, Repr

def Obj.isShell (o : Obj) : Bool :=
  match o.kind with
  | .shell _ => true
  | .command _ => false

/-- A Python call that is under way. -/
inductive Frame
  /-- The token loop of `lineReceived` of a shell. -/
  | reading
  /-- `runCommand` of a shell. -/
  | running
  /-- A method of a command. -/
  | method (c : Obj)
  /-- `call` of a command, called by `start` of `HoneyPotCommand`. -/
  | call (c : Obj)
  /-- `call_command`, once `obj.start()` has returned. -/
  | calling
  /-- A nested execution, once `lineReceived` of its shell has returned; `before` is the stack at its
  start (ghost). -/
  | nested (shell : Obj) (before : List Obj)
  deriving DecidableEq, Repr

structure Sys where
  /-- The last object first. -/
  cmdstack : List Obj
  /-- The innermost call first. -/
  frames : List Frame := []
  /-- `protocol.pp` with those after it in its pipeline; empty for `None`. -/
  pp : List Start := []
  next : Nat
  connected : Bool := true
  started : List Obj := []
  exited : List Obj := []
  raised : List PyError := []

/-- `connectionMade`: a `HoneyPotExecProtocol` reads its line at once. -/
def Sys.start (exec : Bool) : Sys where
  cmdstack := [⟨0, .shell (!exec)⟩]
  frames := if exec then [.reading] else []
  next := 1

/-- What the code of a command does next. -/
inductive Act
  | exit
  /-- Run some lines in a new shell: a script, or `sh -c`. -/
  | script
  | insertCommand (cmd : Start)
  | outConnectionLost
  /-- `interactive_shell` of `Command_sh`. -/
  | interactiveShell
  /-- `call` of `Command_exit`. -/
  | leaveShell
  deriving DecidableEq, Repr

inductive Event
  -- the reactor
  | line
  | key
  | callback (c : Obj)
  | connectionLost
  -- the innermost call
  | substitute
  | read
  | run (chain : List Start)
  | act (a : Act)
  | raise (e : PyError)
  | ret
  deriving DecidableEq, Repr

/-! ## Steps -/

/-- The calls that an exception does not leave. -/
def unwind : List Frame → List Frame
  | [] => []
  | .reading :: fs => fs
  | _ :: fs => unwind fs

def Sys.raise (s : Sys) (e : PyError) : Sys :=
  { s with frames := unwind s.frames, raised := s.raised ++ [e] }

/-- `cmdstack[-1].resume()`, which for a command does nothing. -/
def resume (s : Sys) : Sys :=
  match s.cmdstack with
  | [] => s
  | o :: _ => if o.isShell then { s with frames := .running :: s.frames } else s

/-- `exit`. -/
def exit (c : Obj) (s : Sys) : Sys :=
  let t := { s with exited := c :: s.exited }
  if t.cmdstack = [] then t
  else if c ∈ t.cmdstack then resume { t with cmdstack := t.cmdstack.erase c }
  else t.raise .valueError

/-- `call_command` up to `obj.start()`, if there is something to call; the environment of the command is that of
`cmdstack[-1]`. -/
def callCommand (chain : List Start) (s : Sys) : Sys :=
  match chain with
  | [] => s
  | cmd :: _ =>
    if s.cmdstack = [] then { s with pp := chain }.raise .indexError
    else
      let obj : Obj := ⟨s.next, .command cmd⟩
      { s with
        cmdstack := obj :: s.cmdstack
        frames := (if cmd = .base then .call obj else .method obj) :: .calling :: s.frames
        pp := chain
        next := s.next + 1
        started := obj :: s.started }

/-- A nested execution up to the call of `lineReceived`. -/
def openNested (s : Sys) : Sys :=
  let shell : Obj := ⟨s.next, .shell false⟩
  { s with
    cmdstack := shell :: s.cmdstack
    frames := .reading :: .nested shell s.cmdstack :: s.frames
    next := s.next + 1 }

/-- `cmdstack.pop()`. -/
def pop (s : Sys) : Sys :=
  match s.cmdstack with
  | [] => s.raise .indexError
  | _ :: rest => { s with cmdstack := rest }

/-- `interactive_shell`. -/
def interactiveShell (c : Obj) (s : Sys) : Sys :=
  let shell : Obj := ⟨s.next, .shell true⟩
  let t := { s with next := s.next + 1 }
  match t.cmdstack with
  -- `cmdstack[-2]`
  | _ :: _ :: _ =>
    let t := { t with cmdstack := shell :: t.cmdstack, exited := c :: t.exited }
    if c ∈ t.cmdstack then { t with cmdstack := t.cmdstack.erase c } else t.raise .valueError
  | _ => t.raise .indexError

/-- `cmdstack.pop(-2)`. -/
def leaveShell (s : Sys) : Sys :=
  match s.cmdstack with
  | top :: _ :: rest => { s with cmdstack := top :: rest }
  | _ => s.raise .indexError

/-- What the code of `c` does. -/
def Act.apply (c : Obj) (s : Sys) : Act → Option Sys
  | exit => some (CommandStack.exit c s)
  | script => if s.connected then some (openNested s) else none
  | insertCommand cmd =>
    some (match s.pp with
      | [] => s.raise .attributeError
      | pp :: rest => { s with pp := pp :: cmd :: rest })
  | outConnectionLost =>
    some (if s.pp = [] then s.raise .attributeError else callCommand s.pp.tail s)
  | interactiveShell => some (CommandStack.interactiveShell c s)
  | leaveShell => some (CommandStack.leaveShell s)

/-- The command whose code is the innermost call. -/
def codeOf : List Frame → Option Obj
  | .method c :: _ => some c
  | .call c :: _ => some c
  | _ => none

/-- A call returns. -/
def ret (s : Sys) : Option Sys :=
  match s.frames with
  | .method _ :: fs => some { s with frames := fs }
  -- `start` of `HoneyPotCommand`: `self.call()`, then `self.exit()`
  | .call c :: fs => some (exit c { s with frames := fs })
  | .calling :: fs => some (callCommand s.pp.tail { s with frames := fs })
  | .nested _ _ :: fs => some (pop { s with frames := fs })
  | _ => none

/-- The last object of the stack gets a line, or a control key; a shell does nothing to the stack on a key. -/
def receive (isLine : Bool) (s : Sys) : Sys :=
  match s.cmdstack with
  | [] => s
  | o :: _ =>
    if o.isShell then if isLine then { s with frames := [.reading] } else s
    else { s with frames := [.method o] }

def step (s : Sys) : Event → Option Sys
  | .line => if s.frames = [] then some (receive true s) else none
  | .key => if s.frames = [] then some (receive false s) else none
  | .callback c =>
    if s.frames = [] ∧ c ∈ s.started then some { s with frames := [.method c] } else none
  | .connectionLost =>
    if s.frames = [] then some { s with cmdstack := [], pp := [], connected := false } else none
  | .substitute =>
    match s.frames with
    | .reading :: _ => some (openNested s)
    | _ => none
  | .read =>
    match s.frames with
    | .reading :: fs => some { s with frames := .running :: fs }
    | _ => none
  | .run chain =>
    match s.frames with
    | .running :: fs => some (callCommand chain { s with frames := fs })
    | _ => none
  | .act a =>
    match codeOf s.frames with
    | some c => a.apply c s
    | none => none
  | .raise e =>
    match s.frames with
    | .running :: _ => some (s.raise e)
    | _ => if codeOf s.frames = none then none else some (s.raise e)
  | .ret => ret s

/-! ## Discipline -/

/-- The command that takes itself off the stack in the step. -/
def exiting (s : Sys) : Event → Option Obj
  | .act .exit | .act .interactiveShell => codeOf s.frames
  | .ret =>
    match s.frames with
    | .call c :: _ => some c
    | _ => none
  | _ => none

/-- The nested execution that ends in the step: its shell, and the stack at its start. -/
def ending (s : Sys) : Event → Option (Obj × List Obj)
  | .ret =>
    match s.frames with
    | .nested shell before :: _ => some (shell, before)
    | _ => none
  | _ => none

/-- What is called in the step. -/
def calls (s : Sys) : Event → List Start
  | .run chain => chain
  | .act .outConnectionLost => s.pp.tail
  | .ret =>
    match s.frames with
    | .calling :: _ => s.pp.tail
    | _ => []
  | _ => []

/-- The step from `s` to `t` raises nothing; a command is on the stack, once, until it exits, and is taken off by
that alone; a nested execution leaves the stack as it was at its start. -/
structure Disciplined (s t : Sys) (e : Event) : Prop where
  no_exception : t.raised = s.raised
  nodup : t.cmdstack.Nodup
  until_exit : t.connected = true → ∀ c ∈ t.started, c ∈ t.cmdstack ↔ c ∉ t.exited
  removed : ∀ c, exiting s e = some c → s.connected = true → c ∈ s.cmdstack ∧ c ∉ t.cmdstack
  kept : ∀ c, c.isShell = false → c.ref < s.next → exiting s e ≠ some c → e ≠ .connectionLost →
    (c ∈ t.cmdstack ↔ c ∈ s.cmdstack)
  restored : ∀ shell before, ending s e = some (shell, before) → t.cmdstack = before

def Obeyed (s : Sys) (e : Event) : Prop := ∀ t, step s e = some t → Disciplined s t e

def Frame.isNested : Frame → Bool
  | .nested _ _ => true
  | _ => false

/-- No shell is opened or left inside a nested execution, and the shell that is left is the one before
the command. -/
def ShellsOutside (s : Sys) : Event → Prop
  | .act .interactiveShell => (∀ fr ∈ s.frames, fr.isNested = false) ∧ 2 ≤ s.cmdstack.length
  | .act .leaveShell =>
    (∀ fr ∈ s.frames, fr.isNested = false) ∧ (s.cmdstack[1]?.map Obj.isShell) = some true
  | _ => True

/-- There is a pipeline to insert into, or to go on with, and the code of commands raises nothing. -/
def Regular (s : Sys) : Event → Prop
  | .act (.insertCommand _) | .act .outConnectionLost => s.pp ≠ []
  | .raise _ => False
  | _ => True

/-- The condition on a step: whoever exits has not done so before; who was called in a nested execution has
exited at its end; shells are opened and left outside; commands are called while there is a shell. -/
def Orderly (s : Sys) (e : Event) : Prop :=
  (∀ c ∈ exiting s e, s.connected = true → c ∉ s.exited) ∧
    (∀ p ∈ ending s e, ∀ c ∈ s.started, p.1.ref < c.ref → c ∈ s.exited) ∧
    ShellsOutside s e ∧ (calls s e ≠ [] → s.cmdstack ≠ []) ∧ Regular s e

instance (s : Sys) (e : Event) : Decidable (ShellsOutside s e) :=
  match e with
  | .act .interactiveShell => inferInstanceAs (Decidable (_ ∧ _))
  | .act .leaveShell => inferInstanceAs (Decidable (_ ∧ _))
  | .act .exit | .act .script | .act (.insertCommand _) | .act .outConnectionLost | .line | .key
  | .callback _ | .connectionLost | .substitute | .read | .run _ | .raise _ | .ret => isTrue trivial

instance (s : Sys) (e : Event) : Decidable (Regular s e) :=
  match e with
  | .act (.insertCommand _) | .act .outConnectionLost => inferInstanceAs (Decidable (_ ≠ _))
  | .raise _ => isFalse id
  | .act .exit | .act .script | .act .interactiveShell | .act .leaveShell | .line | .key
  | .callback _ | .connectionLost | .substitute | .read | .run _ | .ret => isTrue trivial

instance (s : Sys) (e : Event) : Decidable (Orderly s e) :=
  inferInstanceAs (Decidable (_ ∧ _ ∧ _ ∧ _ ∧ _))

/-! ## The invariant -/

/-- The code of `c` runs inside the nested executions of `fs`. -/
def Inside (started : List Obj) (c : Obj) (fs : List Frame) : Prop :=
  c ∈ started ∧ ∀ shell before, .nested shell before ∈ fs → shell.ref < c.ref

/-- Above the shell of a nested execution there are only commands, below it is what was there at its start. -/
def Nests (started : List Obj) : List Frame → List Obj → Prop
  | [], _ => True
  | .nested shell before :: fs, stack =>
    (∃ above, stack = above ++ shell :: before ∧ (∀ o ∈ above, o.isShell = false) ∧
      shell.isShell = true) ∧ Nests started fs before
  | .method c :: fs, stack => Inside started c fs ∧ Nests started fs stack
  | .call c :: fs, stack => Inside started c fs ∧ Nests started fs stack
  | .reading :: fs, stack => Nests started fs stack
  | .running :: fs, stack => Nests started fs stack
  | .calling :: fs, stack => Nests started fs stack

structure Inv (s : Sys) : Prop where
  sorted : s.cmdstack.Pairwise fun o o' => o'.ref < o.ref
  bounded : ∀ o ∈ s.cmdstack, o.ref < s.next
  known : ∀ c ∈ s.started, c.ref < s.next ∧ c.isShell = false
  past : ∀ c ∈ s.exited, c ∈ s.started
  live : ∀ c ∈ s.cmdstack, c.isShell = false → c ∈ s.started ∧ c ∉ s.exited
  present : s.connected = true → ∀ c ∈ s.started, c ∉ s.exited → c ∈ s.cmdstack
  lost : s.connected = false → s.cmdstack = []
  idle : s.connected = false → .reading ∉ s.frames
  nests : Nests s.started s.frames s.cmdstack

variable {s t : Sys} {c o shell : Obj} {fs : List Frame} {fr : Frame} {stack before : List Obj}
  {started started' : List Obj}

theorem Inside.mono (h : Inside started c fs) (hsub : started ⊆ started') : Inside started' c fs :=
  ⟨hsub h.1, h.2⟩

theorem isNested_eq (h : fr.isNested = true) : ∃ shell before, fr = .nested shell before := by
  cases fr with
  | nested shell before => exact ⟨shell, before, rfl⟩
  | reading | running | method | call | calling => cases h

/-- A call that is no nested execution. -/
theorem nests_cons (hfr : fr.isNested = false) :
    Nests started (fr :: fs) stack ↔
      (∀ c, codeOf [fr] = some c → Inside started c fs) ∧ Nests started fs stack := by
  cases fr with
  | nested shell before => cases hfr
  | reading | running | calling => simp [Nests, codeOf]
  | method c | call c => simp [Nests, codeOf]

theorem Nests.mono (h : Nests started fs stack) (hsub : started ⊆ started') :
    Nests started' fs stack := by
  induction fs generalizing stack with
  | nil => trivial
  | cons fr fs ih =>
    cases hfr : fr.isNested with
    | true =>
      obtain ⟨shell, before, rfl⟩ := isNested_eq hfr
      exact ⟨h.1, ih h.2⟩
    | false =>
      rw [nests_cons hfr] at h ⊢
      exact ⟨fun c hc => (h.1 c hc).mono hsub, ih h.2⟩

/-- A command is appended. -/
theorem Nests.push (h : Nests started fs stack) (ho : o.isShell = false) :
    Nests started fs (o :: stack) := by
  induction fs with
  | nil => trivial
  | cons fr fs ih =>
    cases hfr : fr.isNested with
    | true =>
      obtain ⟨shell, before, rfl⟩ := isNested_eq hfr
      obtain ⟨⟨above, hstack, habove, hshell⟩, hfs⟩ := h
      refine ⟨⟨o :: above, by rw [hstack, List.cons_append], ?_, hshell⟩, hfs⟩
      exact List.forall_mem_cons.mpr ⟨ho, habove⟩
    | false =>
      rw [nests_cons hfr] at h ⊢
      exact ⟨h.1, ih h.2⟩

/-- A command is removed, from inside all nested executions. -/
theorem Nests.erase (h : Nests started fs stack) (hsorted : stack.Pairwise fun o o' => o'.ref < o.ref)
    (hc : ∀ shell before, .nested shell before ∈ fs → shell.ref < c.ref) :
    Nests started fs (stack.erase c) := by
  induction fs with
  | nil => trivial
  | cons fr fs ih =>
    cases hfr : fr.isNested with
    | true =>
      obtain ⟨shell, before, rfl⟩ := isNested_eq hfr
      obtain ⟨⟨above, rfl, habove, hshell⟩, hfs⟩ := h
      have hlt : shell.ref < c.ref := hc shell before List.mem_cons_self
      -- what is below is older than the shell
      have hbelow : c ∉ shell :: before := by
        have hcons := (List.pairwise_append.mp hsorted).2.1
        rw [List.mem_cons, not_or]
        refine ⟨fun heq => ?_, fun hmem => ?_⟩
        · subst heq
          omega
        · have hold := (List.pairwise_cons.mp hcons).1 c hmem
          omega
      refine ⟨⟨above.erase c, ?_, fun o ho => habove o (List.mem_of_mem_erase ho), hshell⟩, hfs⟩
      by_cases hmem : c ∈ above
      · exact List.erase_append_left _ hmem
      · rw [List.erase_of_not_mem hmem, List.erase_of_not_mem]
        rw [List.mem_append, not_or]
        exact ⟨hmem, hbelow⟩
    | false =>
      rw [nests_cons hfr] at h ⊢
      exact ⟨h.1, ih h.2 fun shell before hmem => hc shell before (List.mem_cons_of_mem _ hmem)⟩

/-- Outside of nested executions the stack is free. -/
theorem Nests.outside (h : Nests started fs stack) (hfs : ∀ fr ∈ fs, fr.isNested = false)
    (stack' : List Obj) : Nests started fs stack' := by
  induction fs with
  | nil => trivial
  | cons fr fs ih =>
    have hfr := hfs fr List.mem_cons_self
    rw [nests_cons hfr] at h ⊢
    exact ⟨h.1, ih h.2 fun fr hmem => hfs fr (List.mem_cons_of_mem _ hmem)⟩

/-- The code of a command that is under way. -/
theorem Nests.inside (h : Nests started fs stack) (hc : codeOf fs = some c) : Inside started c fs := by
  cases fs with
  | nil => cases hc
  | cons fr fs =>
    cases fr with
    | method d | call d =>
      obtain rfl := Option.some.inj hc
      refine ⟨h.1.1, fun shell before hmem => h.1.2 shell before ?_⟩
      simpa using hmem
    | reading | running | calling | nested => cases hc

namespace Inv

theorem nodup (h : Inv s) : s.cmdstack.Nodup := by
  refine h.sorted.imp fun hlt heq => ?_
  subst heq
  exact Nat.lt_irrefl _ hlt

theorem until_exit (h : Inv s) (hconn : s.connected = true) :
    ∀ c ∈ s.started, c ∈ s.cmdstack ↔ c ∉ s.exited := fun c hc =>
  ⟨fun hmem => (h.live c hmem (h.known c hc).2).2, h.present hconn c hc⟩

theorem connected_of_ne (h : Inv s) (hne : s.cmdstack ≠ []) : s.connected = true := by
  cases hconn : s.connected with
  | true => rfl
  | false => exact absurd (h.lost hconn) hne

/-- Other calls are under way. -/
theorem withFrames (h : Inv s) (hidle : s.connected = false → .reading ∉ fs)
    (hnests : Nests s.started fs s.cmdstack) : Inv { s with frames := fs } :=
  { h with idle := hidle, nests := hnests }

theorem tail (h : Inv s) (hfs : s.frames = fr :: fs) (hfr : fr.isNested = false) :
    Inv { s with frames := fs } := by
  refine h.withFrames (fun hconn hmem => h.idle hconn ?_) ?_
  · rw [hfs]
    exact List.mem_cons_of_mem _ hmem
  · have hnests := h.nests
    rw [hfs] at hnests
    exact ((nests_cons hfr).mp hnests).2

theorem resume (h : Inv s) : Inv (resume s) := by
  unfold CommandStack.resume
  split
  · exact h
  · split_ifs
    · refine h.withFrames (fun hconn hmem => h.idle hconn ?_) h.nests
      simpa using hmem
    · exact h

end Inv

theorem cmdstack_resume (s : Sys) : (resume s).cmdstack = s.cmdstack := by
  unfold resume
  split
  · rfl
  · split_ifs <;> rfl

theorem raised_resume (s : Sys) : (resume s).raised = s.raised := by
  unfold resume
  split
  · rfl
  · split_ifs <;> rfl

/-! ## What the operations do -/

/-- A command that has not exited takes itself off the stack. -/
theorem Inv.removed (h : Inv s) (hin : Inside s.started c s.frames) :
    Inv { s with exited := c :: s.exited, cmdstack := s.cmdstack.erase c } where
  sorted := h.sorted.sublist List.erase_sublist
  bounded o ho := h.bounded o (List.mem_of_mem_erase ho)
  known := h.known
  past := List.forall_mem_cons.mpr ⟨hin.1, h.past⟩
  live d hd hshell := by
    obtain ⟨hne, hmem⟩ := h.nodup.mem_erase_iff.mp hd
    obtain ⟨hstarted, hnot⟩ := h.live d hmem hshell
    exact ⟨hstarted, fun hif => (List.mem_cons.mp hif).elim hne hnot⟩
  present hconn d hd hnot := by
    rw [List.mem_cons, not_or] at hnot
    exact h.nodup.mem_erase_iff.mpr ⟨hnot.1, h.present hconn d hd hnot.2⟩
  lost hconn := by
    simp only [h.lost hconn, List.erase_nil]
  idle := h.idle
  nests := h.nests.erase h.sorted hin.2

/-- **`exit`**, for the first time. -/
theorem exit_spec (h : Inv s) (hin : Inside s.started c s.frames)
    (hnot : s.connected = true → c ∉ s.exited) :
    Inv (exit c s) ∧ (exit c s).raised = s.raised ∧ (exit c s).cmdstack = s.cmdstack.erase c ∧
      (s.connected = true → c ∈ s.cmdstack) := by
  have hpresent : s.connected = true → c ∈ s.cmdstack := fun hconn =>
    h.present hconn c hin.1 (hnot hconn)
  have hremoved := h.removed hin
  unfold exit
  simp only
  by_cases hempty : s.cmdstack = []
  · rw [if_pos hempty]
    simp only [hempty, List.erase_nil] at hremoved hpresent ⊢
    exact ⟨hremoved, trivial, trivial, hpresent⟩
  · rw [if_neg hempty, if_pos (hpresent (h.connected_of_ne hempty))]
    refine ⟨hremoved.resume, ?_, ?_, hpresent⟩
    · rw [raised_resume]
    · rw [cmdstack_resume]

/-- The shell of a nested execution is on the stack. -/
theorem Nests.shell_mem (h : Nests started fs stack) (hmem : .nested shell before ∈ fs) :
    shell ∈ stack := by
  induction fs generalizing stack with
  | nil => cases hmem
  | cons fr fs ih =>
    cases hfr : fr.isNested with
    | true =>
      obtain ⟨shell', before', rfl⟩ := isNested_eq hfr
      obtain ⟨⟨above, rfl, -, -⟩, hfs⟩ := h
      rcases List.mem_cons.mp hmem with heq | hmem
      · obtain ⟨rfl, rfl⟩ := Frame.nested.inj heq
        simp
      · simp [ih hfs hmem]
    | false =>
      rw [nests_cons hfr] at h
      refine ih h.2 ((List.mem_cons.mp hmem).resolve_left fun heq => ?_)
      rw [← heq] at hfr
      cases hfr

/-- An object that is new. -/
theorem Inv.sorted_push (h : Inv s) (ho : o.ref = s.next) :
    (o :: s.cmdstack).Pairwise fun o o' => o'.ref < o.ref := by
  refine List.pairwise_cons.mpr ⟨fun o' ho' => ?_, h.sorted⟩
  rw [ho]
  exact h.bounded o' ho'

theorem Inv.bounded_push (h : Inv s) (ho : o.ref = s.next) : ∀ o' ∈ o :: s.cmdstack, o'.ref < s.next + 1 := by
  rw [List.forall_mem_cons]
  refine ⟨by omega, fun o' ho' => ?_⟩
  have hlt := h.bounded o' ho'
  omega

/-- What has no step added to the stack but a new object. -/
def Adds (s t : Sys) : Prop :=
  t.cmdstack = s.cmdstack ∨ ∃ o, o.ref = s.next ∧ t.cmdstack = o :: s.cmdstack

/-- **`call_command`**, while there is a shell. -/
theorem callCommand_spec (h : Inv s) {chain : List Start} (hne : chain ≠ [] → s.cmdstack ≠ []) :
    Inv (callCommand chain s) ∧ (callCommand chain s).raised = s.raised ∧ Adds s (callCommand chain s) := by
  cases chain with
  | nil => exact ⟨h, rfl, .inl rfl⟩
  | cons cmd chain =>
    have hempty := hne (List.cons_ne_nil _ _)
    have hconn := h.connected_of_ne hempty
    unfold callCommand
    simp only [if_neg hempty]
    set obj : Obj := ⟨s.next, .command cmd⟩ with hobj
    have hnew : obj ∉ s.started := fun hmem => Nat.lt_irrefl _ (h.known obj hmem).1
    have hcode : Inside (obj :: s.started) obj (.calling :: s.frames) := by
      refine ⟨List.mem_cons_self, fun shell before hmem => ?_⟩
      exact h.bounded shell (h.nests.shell_mem (by simpa using hmem))
    have hnests : Nests (obj :: s.started) (.calling :: s.frames) (obj :: s.cmdstack) :=
      (h.nests.mono (List.subset_cons_self _ _)).push rfl
    refine ⟨?_, trivial, .inr ⟨obj, rfl, rfl⟩⟩
    exact
      { sorted := h.sorted_push rfl
        bounded := h.bounded_push rfl
        known := by
          rw [List.forall_mem_cons]
          refine ⟨⟨Nat.lt_succ_self _, rfl⟩, fun c hc => ?_⟩
          exact ⟨Nat.lt_succ_of_lt (h.known c hc).1, (h.known c hc).2⟩
        past := fun c hc => List.mem_cons_of_mem _ (h.past c hc)
        live := fun c hc hshell => by
          rcases List.mem_cons.mp hc with rfl | hc
          · exact ⟨List.mem_cons_self, fun hmem => hnew (h.past _ hmem)⟩
          · obtain ⟨hstarted, hnot⟩ := h.live c hc hshell
            exact ⟨List.mem_cons_of_mem _ hstarted, hnot⟩
        present := fun hc d hd hnot => by
          rcases List.mem_cons.mp hd with rfl | hd
          · exact List.mem_cons_self
          · exact List.mem_cons_of_mem _ (h.present hc d hd hnot)
        lost := fun hlost => by simp [hconn] at hlost
        idle := fun hlost => by simp [hconn] at hlost
        nests := by
          cases cmd with
          | base => exact ⟨hcode, hnests⟩
          | own => exact ⟨hcode, hnests⟩ }

/-- A new shell is appended. -/
theorem Inv.pushed (h : Inv s) (hconn : s.connected = true) (ho : o.ref = s.next) (hshell : o.isShell = true)
    (hnests : Nests s.started fs (o :: s.cmdstack)) :
    Inv { s with cmdstack := o :: s.cmdstack, frames := fs, next := s.next + 1 } where
  sorted := h.sorted_push ho
  bounded := h.bounded_push ho
  known c hc := ⟨Nat.lt_succ_of_lt (h.known c hc).1, (h.known c hc).2⟩
  past := h.past
  live c hc hcommand := by
    rcases List.mem_cons.mp hc with rfl | hc
    · simp [hshell] at hcommand
    · exact h.live c hc hcommand
  present hc d hd hnot := List.mem_cons_of_mem _ (h.present hc d hd hnot)
  lost hlost := by simp [hconn] at hlost
  idle hlost := by simp [hconn] at hlost
  nests := hnests

/-- **The start of a nested execution.** -/
theorem openNested_spec (h : Inv s) (hconn : s.connected = true) :
    Inv (openNested s) ∧ (openNested s).raised = s.raised ∧ Adds s (openNested s) := by
  refine ⟨h.pushed hconn rfl rfl ?_, rfl, .inr ⟨_, rfl, rfl⟩⟩
  exact ⟨⟨[], rfl, by simp, rfl⟩, h.nests⟩

/-- **The end of a nested execution**, when all commands called in it have exited. -/
theorem pop_spec (h : Inv s) (hframes : s.frames = .nested shell before :: fs)
    (hall : ∀ c ∈ s.started, shell.ref < c.ref → c ∈ s.exited) :
    Inv (pop { s with frames := fs }) ∧ (pop { s with frames := fs }).raised = s.raised ∧
      s.cmdstack = shell :: before ∧ (pop { s with frames := fs }).cmdstack = before := by
  have hnests := h.nests
  rw [hframes] at hnests
  obtain ⟨⟨above, hstack, habove, hshell⟩, hfs⟩ := hnests
  -- what is above the shell is younger, and has exited
  have hnil : above = [] := by
    cases above with
    | nil => rfl
    | cons o above =>
      have hmem : o ∈ s.cmdstack := by
        rw [hstack]
        exact List.mem_cons_self
      have hsorted := h.sorted
      rw [hstack, List.cons_append, List.pairwise_cons] at hsorted
      have hlt : shell.ref < o.ref := hsorted.1 shell (by simp)
      obtain ⟨hstarted, hnot⟩ := h.live o hmem (habove o List.mem_cons_self)
      exact absurd (hall o hstarted hlt) hnot
  subst hnil
  rw [List.nil_append] at hstack
  have hconn : s.connected = true := h.connected_of_ne (by simp [hstack])
  have hpop : pop { s with frames := fs } = { s with cmdstack := before, frames := fs } := by
    unfold pop
    simp only [hstack]
  rw [hpop]
  have hsub : ∀ o ∈ before, o ∈ s.cmdstack := fun o ho => hstack ▸ List.mem_cons_of_mem _ ho
  refine ⟨?_, rfl, hstack, rfl⟩
  exact
    { sorted := by
        have hsorted := h.sorted
        rw [hstack] at hsorted
        exact hsorted.of_cons
      bounded := fun o ho => h.bounded o (hsub o ho)
      known := h.known
      past := h.past
      live := fun c hc hcommand => h.live c (hsub c hc) hcommand
      present := fun hc d hd hnot => by
        have hmem := h.present hc d hd hnot
        rw [hstack] at hmem
        refine (List.mem_cons.mp hmem).resolve_left fun heq => ?_
        subst heq
        have hcommand := (h.known d hd).2
        simp [hshell] at hcommand
      lost := fun hlost => by simp [hconn] at hlost
      idle := fun hlost => by simp [hconn] at hlost
      nests := hfs }

theorem two_of_length (h : 2 ≤ stack.length) : ∃ top below rest, stack = top :: below :: rest :=
  match stack, h with
  | top :: below :: rest, _ => ⟨top, below, rest, rfl⟩

/-- **`interactive_shell`**, outside of nested executions. -/
theorem interactiveShell_spec (h : Inv s) (hin : Inside s.started c s.frames)
    (hnot : s.connected = true → c ∉ s.exited) (houtside : ∀ fr ∈ s.frames, fr.isNested = false)
    (hlength : 2 ≤ s.cmdstack.length) :
    Inv (interactiveShell c s) ∧ (interactiveShell c s).raised = s.raised ∧ c ∈ s.cmdstack ∧
      (interactiveShell c s).cmdstack = ⟨s.next, .shell true⟩ :: s.cmdstack.erase c := by
  have hne : s.cmdstack ≠ [] := by
    rintro hnil
    simp [hnil] at hlength
  have hconn := h.connected_of_ne hne
  have hmem : c ∈ s.cmdstack := h.present hconn c hin.1 (hnot hconn)
  have hnew : (⟨s.next, .shell true⟩ : Obj) ≠ c := by
    rintro rfl
    exact Nat.lt_irrefl _ (h.known _ hin.1).1
  have heq : interactiveShell c s =
      { s with
        cmdstack := ⟨s.next, .shell true⟩ :: s.cmdstack.erase c
        next := s.next + 1
        exited := c :: s.exited } := by
    unfold interactiveShell
    simp only
    split
    · rename_i hstack
      rw [if_pos (List.mem_cons_of_mem _ (hstack ▸ hmem)), List.erase_cons_tail (by simpa using hnew)]
    · rename_i hshort
      obtain ⟨top, below, rest, hstack⟩ := two_of_length hlength
      exact absurd hstack (hshort top below rest)
  rw [heq]
  refine ⟨?_, rfl, hmem, rfl⟩
  have hremoved := h.removed hin
  exact hremoved.pushed hconn rfl rfl (h.nests.outside houtside _)

/-- **`cmdstack.pop(-2)`**, where that is a shell, outside of nested executions. -/
theorem leaveShell_spec (h : Inv s) (houtside : ∀ fr ∈ s.frames, fr.isNested = false)
    (hshell : (s.cmdstack[1]?.map Obj.isShell) = some true) :
    Inv (leaveShell s) ∧ (leaveShell s).raised = s.raised ∧
      ∃ top below rest, s.cmdstack = top :: below :: rest ∧ below.isShell = true ∧
        (leaveShell s).cmdstack = top :: rest := by
  have hlength : 2 ≤ s.cmdstack.length := by
    by_contra hlt
    rw [List.getElem?_eq_none (by omega)] at hshell
    cases hshell
  obtain ⟨top, below, rest, hstack⟩ := two_of_length hlength
  rw [hstack] at hshell
  have hbelow : below.isShell = true := Option.some.inj hshell
  have hleave : leaveShell s = { s with cmdstack := top :: rest } := by
    unfold leaveShell
    simp only [hstack]
  have hconn := h.connected_of_ne (by simp [hstack])
  have hsub : (top :: rest).Sublist s.cmdstack := by
    rw [hstack]
    exact (List.sublist_cons_self below rest).cons_cons top
  rw [hleave]
  refine ⟨?_, rfl, top, below, rest, hstack, hbelow, rfl⟩
  exact
    { sorted := h.sorted.sublist hsub
      bounded := fun o ho => h.bounded o (hsub.subset ho)
      known := h.known
      past := h.past
      live := fun c hc hcommand => h.live c (hsub.subset hc) hcommand
      present := fun hc d hd hnot => by
        have hmem := h.present hc d hd hnot
        rw [hstack] at hmem
        -- the shell that is left is no command
        have hne : d ≠ below := by
          rintro rfl
          have hcommand := (h.known d hd).2
          simp [hbelow] at hcommand
        simpa [hne] using hmem
      lost := fun hlost => by simp [hconn] at hlost
      idle := h.idle
      nests := h.nests.outside houtside _ }

/-! ## Steps and runs -/

/-- Nothing exits, and nothing but a new object comes to the stack. -/
theorem disciplined_of_adds {e : Event} (h : Inv t) (hraised : t.raised = s.raised) (hadds : Adds s t)
    (hexit : exiting s e = none) (hend : ending s e = none) : Disciplined s t e where
  no_exception := hraised
  nodup := h.nodup
  until_exit := h.until_exit
  removed c hc := by simp [hexit] at hc
  kept c _ hold _ _ := by
    rcases hadds with hsame | ⟨o, ho, hcons⟩
    · rw [hsame]
    · rw [hcons, List.mem_cons]
      refine or_iff_right fun heq => ?_
      subst heq
      omega
  restored shell before hending := by simp [hend] at hending

/-- A command exits. -/
theorem disciplined_of_exit {e : Event} (h : Inv t) (hs : Inv s) (hraised : t.raised = s.raised)
    (hexit : exiting s e = some c) (hend : ending s e = none) (hmem : s.connected = true → c ∈ s.cmdstack)
    (hstack : ∀ d, d.ref < s.next → (d ∈ t.cmdstack ↔ d ∈ s.cmdstack.erase c)) : Disciplined s t e where
  no_exception := hraised
  nodup := h.nodup
  until_exit := h.until_exit
  removed d hd hconn := by
    obtain rfl := Option.some.inj (hexit.symm.trans hd)
    have hin := hmem hconn
    refine ⟨hin, fun hif => ?_⟩
    rw [hstack c (hs.bounded c hin)] at hif
    exact hs.nodup.not_mem_erase hif
  kept d _ hold hne _ := by
    rw [hstack d hold]
    refine List.mem_erase_of_ne fun heq => hne ?_
    rw [heq, hexit]
  restored shell before hending := by simp [hend] at hending

/-- The last object of the stack gets something. -/
theorem receive_spec (h : Inv s) (isLine : Bool) :
    Inv (receive isLine s) ∧ (receive isLine s).raised = s.raised ∧
      (receive isLine s).cmdstack = s.cmdstack := by
  unfold receive
  split
  · exact ⟨h, rfl, rfl⟩
  · rename_i o rest hstack
    have hconn := h.connected_of_ne (by simp [hstack])
    cases ho : o.isShell with
    | true =>
      cases isLine with
      | true => exact ⟨h.withFrames (fun hlost => by simp [hconn] at hlost) trivial, rfl, rfl⟩
      | false => exact ⟨h, rfl, rfl⟩
    | false =>
      have hstarted := (h.live o (by simp [hstack]) ho).1
      refine ⟨h.withFrames (fun hlost => by simp [hconn] at hlost) ?_, rfl, rfl⟩
      exact ⟨⟨hstarted, nofun⟩, trivial⟩

/-- **What the code of a command does.** -/
theorem act_spec {a : Act} (h : Inv s) (ho : Orderly s (.act a)) (hc : codeOf s.frames = some c)
    (hstep : a.apply c s = some t) : Inv t ∧ Disciplined s t (.act a) := by
  obtain ⟨hexits, -, hshells, hcalls, hregular⟩ := ho
  have hin := h.nests.inside hc
  cases a with
  | exit =>
    obtain rfl := Option.some.inj hstep
    obtain ⟨hinv, hraised, hstack, hmem⟩ := exit_spec h hin (hexits c hc)
    refine ⟨hinv, disciplined_of_exit hinv h hraised hc rfl hmem fun d _ => ?_⟩
    rw [hstack]
  | script =>
    simp only [Act.apply, Option.ite_none_right_eq_some, Option.some.injEq] at hstep
    obtain ⟨hconn, rfl⟩ := hstep
    obtain ⟨hinv, hraised, hadds⟩ := openNested_spec h hconn
    exact ⟨hinv, disciplined_of_adds hinv hraised hadds rfl rfl⟩
  | insertCommand cmd =>
    obtain rfl := Option.some.inj hstep
    cases hpp : s.pp with
    | nil => exact absurd hpp hregular
    | cons pp rest =>
      have hinv : Inv { s with pp := pp :: cmd :: rest } := { h with }
      exact ⟨hinv, disciplined_of_adds hinv rfl (.inl rfl) rfl rfl⟩
  | outConnectionLost =>
    obtain rfl := Option.some.inj hstep
    rw [if_neg hregular]
    obtain ⟨hinv, hraised, hadds⟩ := callCommand_spec h hcalls
    exact ⟨hinv, disciplined_of_adds hinv hraised hadds rfl rfl⟩
  | interactiveShell =>
    obtain rfl := Option.some.inj hstep
    obtain ⟨hinv, hraised, hmem, hstack⟩ :=
      interactiveShell_spec h hin (hexits c hc) hshells.1 hshells.2
    refine ⟨hinv, disciplined_of_exit hinv h hraised hc rfl (fun _ => hmem) fun d hd => ?_⟩
    rw [hstack, List.mem_cons]
    refine or_iff_right fun heq => ?_
    subst heq
    exact Nat.lt_irrefl _ hd
  | leaveShell =>
    obtain rfl := Option.some.inj hstep
    obtain ⟨hinv, hraised, top, below, rest, hstack, hbelow, hleft⟩ :=
      leaveShell_spec h hshells.1 hshells.2
    refine ⟨hinv, hraised, hinv.nodup, hinv.until_exit, nofun, fun d hcommand _ _ _ => ?_, nofun⟩
    have hne : d ≠ below := by
      rintro rfl
      simp [hbelow] at hcommand
    change d ∈ (leaveShell s).cmdstack ↔ _
    rw [hleft, hstack]
    simp [hne]

/-- **What happens when a call returns.** -/
theorem ret_spec (h : Inv s) (ho : Orderly s .ret) (hstep : ret s = some t) :
    Inv t ∧ Disciplined s t .ret := by
  obtain ⟨hexits, hends, -, hcalls, -⟩ := ho
  have hnests := h.nests
  unfold ret at hstep
  cases hframes : s.frames with
  | nil =>
    rw [hframes] at hstep
    cases hstep
  | cons fr fs =>
    rw [hframes] at hstep hnests
    simp only [exiting, ending, calls, hframes] at hexits hends hcalls
    cases fr with
    | reading | running => cases hstep
    | method c =>
      obtain rfl := Option.some.inj hstep
      have hinv := h.tail hframes rfl
      refine ⟨hinv, disciplined_of_adds hinv rfl (.inl rfl) ?_ ?_⟩
      · simp [exiting, hframes]
      · simp [ending, hframes]
    | call c =>
      obtain rfl := Option.some.inj hstep
      obtain ⟨hinv, hraised, hstack, hmem⟩ := exit_spec (h.tail hframes rfl) hnests.1 (hexits c rfl)
      refine ⟨hinv, disciplined_of_exit hinv h hraised ?_ ?_ hmem fun d _ => ?_⟩
      · simp [exiting, hframes]
      · simp [ending, hframes]
      · rw [hstack]
    | calling =>
      obtain rfl := Option.some.inj hstep
      obtain ⟨hinv, hraised, hadds⟩ := callCommand_spec (h.tail hframes rfl) hcalls
      refine ⟨hinv, disciplined_of_adds hinv hraised hadds ?_ ?_⟩
      · simp [exiting, hframes]
      · simp [ending, hframes]
    | nested shell before =>
      obtain rfl := Option.some.inj hstep
      obtain ⟨hinv, hraised, hstack, hpopped⟩ := pop_spec h hframes (hends (shell, before) rfl)
      have hshell : shell.isShell = true := by
        obtain ⟨⟨-, -, -, hshell⟩, -⟩ := hnests
        exact hshell
      refine ⟨hinv, hraised, hinv.nodup, hinv.until_exit, fun d hd => ?_, fun d hcommand _ _ _ => ?_,
        fun shell' before' hend => ?_⟩
      · simp [exiting, hframes] at hd
      · have hne : d ≠ shell := by
          rintro rfl
          simp [hshell] at hcommand
        rw [hpopped, hstack]
        simp [hne]
      · simp only [ending, hframes, Option.some.injEq, Prod.mk.injEq] at hend
        rw [hpopped, hend.2]

/-- **One step.** -/
theorem step_spec {e : Event} (h : Inv s) (ho : Orderly s e) (hstep : step s e = some t) :
    Inv t ∧ Disciplined s t e := by
  cases e with
  | line =>
    simp only [step, Option.ite_none_right_eq_some, Option.some.injEq] at hstep
    obtain ⟨-, rfl⟩ := hstep
    obtain ⟨hinv, hraised, hstack⟩ := receive_spec h true
    exact ⟨hinv, disciplined_of_adds hinv hraised (.inl hstack) rfl rfl⟩
  | key =>
    simp only [step, Option.ite_none_right_eq_some, Option.some.injEq] at hstep
    obtain ⟨-, rfl⟩ := hstep
    obtain ⟨hinv, hraised, hstack⟩ := receive_spec h false
    exact ⟨hinv, disciplined_of_adds hinv hraised (.inl hstack) rfl rfl⟩
  | callback c =>
    simp only [step, Option.ite_none_right_eq_some, Option.some.injEq] at hstep
    obtain ⟨⟨-, hc⟩, rfl⟩ := hstep
    have hinv : Inv { s with frames := [.method c] } :=
      h.withFrames (fun _ => by simp) ⟨⟨hc, nofun⟩, trivial⟩
    exact ⟨hinv, disciplined_of_adds hinv rfl (.inl rfl) rfl rfl⟩
  | connectionLost =>
    simp only [step, Option.ite_none_right_eq_some, Option.some.injEq] at hstep
    obtain ⟨hframes, rfl⟩ := hstep
    refine ⟨?_, rfl, List.nodup_nil, nofun, nofun, fun _ _ _ _ hne => absurd rfl hne, nofun⟩
    exact
      { sorted := List.Pairwise.nil
        bounded := nofun
        known := h.known
        past := h.past
        live := nofun
        present := nofun
        lost := fun _ => rfl
        idle := fun _ => by simp [hframes]
        nests := by simp [hframes, Nests] }
  | substitute =>
    simp only [step] at hstep
    split at hstep
    · rename_i fs hframes
      obtain rfl := Option.some.inj hstep
      have hconn : s.connected = true := by
        by_contra hlost
        exact h.idle (by simpa using hlost) (by simp [hframes])
      obtain ⟨hinv, hraised, hadds⟩ := openNested_spec h hconn
      exact ⟨hinv, disciplined_of_adds hinv hraised hadds rfl rfl⟩
    · cases hstep
  | read =>
    simp only [step] at hstep
    split at hstep
    · rename_i fs hframes
      obtain rfl := Option.some.inj hstep
      have htail := h.tail hframes rfl
      have hinv : Inv { s with frames := .running :: fs } :=
        htail.withFrames (fun hlost => by simpa using htail.idle hlost) htail.nests
      exact ⟨hinv, disciplined_of_adds hinv rfl (.inl rfl) rfl rfl⟩
    · cases hstep
  | run chain =>
    simp only [step] at hstep
    split at hstep
    · rename_i fs hframes
      obtain rfl := Option.some.inj hstep
      obtain ⟨hinv, hraised, hadds⟩ := callCommand_spec (h.tail hframes rfl) ho.2.2.2.1
      exact ⟨hinv, disciplined_of_adds hinv hraised hadds rfl rfl⟩
    · cases hstep
  | act a =>
    simp only [step] at hstep
    cases hc : codeOf s.frames with
    | none => simp [hc] at hstep
    | some c =>
      simp only [hc] at hstep
      exact act_spec h ho hc hstep
  | raise err => exact ho.2.2.2.2.elim
  | ret => exact ret_spec h ho hstep

theorem inv_start (exec : Bool) : Inv (Sys.start exec) where
  sorted := List.pairwise_singleton _ _
  bounded := by simp [Sys.start]
  known := nofun
  past := nofun
  live := by simp [Sys.start, Obj.isShell]
  present := nofun
  lost := nofun
  idle := nofun
  nests := by cases exec <;> trivial

/-- **Every run.** If commands exit once, and before the nested execution in which they were called is over, every
step is disciplined. -/
theorem disciplined_of_orderly (exec : Bool) (events : List Event)
    (h : StepsMeet step Orderly (Sys.start exec) events) :
    StepsMeet step Obeyed (Sys.start exec) events :=
  stepsMeet_of_inv (fun _ _ _ hinv ho hstep => (step_spec hinv ho hstep).1)
    (fun _ _ hinv ho _ hstep => (step_spec hinv ho hstep).2) (inv_start exec) h

/-- `echo $(date)`, then `sleep 9`, which is interrupted. -/
theorem disciplined_substitution :
    StepsMeet step Obeyed (Sys.start false)
      [.line, .substitute, .read, .run [.base], .ret, .run [], .ret, .ret, .read, .run [.base], .ret, .run [],
        .ret, .line, .read, .run [.own], .ret, .ret, .key, .act .exit, .run [], .ret] :=
  disciplined_of_orderly false _ (by decide)

/-- `rm -q`: `call` calls `exit`, and so does `start` after it. -/
theorem disciplined_violated :
    ¬ StepsMeet step Obeyed (Sys.start false)
      [.line, .read, .run [.base], .act .exit, .run [], .ret] := by
  intro h
  have hlast := stepsMeet_iff.mp h [.line, .read, .run [.base], .act .exit, .run []] .ret [] _ rfl rfl
  have hraised : [PyError.valueError] = [] := (hlast _ rfl).no_exception
  cases hraised

end Cowrie.Shell.CommandStack
