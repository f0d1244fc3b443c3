import Cowrie.Shell.Stages
import Mathlib.Data.List.Forall2

/-!
# The order in which the pipelines of a line run (`honeypot.py:354-531`, `protocol.py:288-296`)

`call_command` starts the first stage of a pipeline; its exit resumes the shell, which goes on with
the next pipeline of the line before the second stage is called. When that one comes back,
`protocol.pp` is the last stage of the last pipeline, and no second stage is ever called.

* `HeadsFirst`: the calls of a line in the order they are made: the first stages of all pipelines
  but the last, and then the last pipeline (`exec_runCommand`).
* `runsInOrder_iff`: every pipeline runs as a whole, in order, iff every one but the last has
  a single stage.
-/

namespace Cowrie.Shell

open Cowrie.Lib

variable {ω : Type} {env : Env ω}

/-- The command of a call. -/
def Ran.command (r : Ran) : SimpleCommand := ⟨r.name, r.args⟩

/-- The input of `b` is the output of `a`; `input_data` that was never set is no bytes. -/
def Linked (a b : Ran) : Prop := b.input.getD [] = a.stdout

/-- The calls are the stages of the pipeline, each on the output of the one before it. -/
def RunsPipeline (p : List SimpleCommand) (calls : List Ran) : Prop :=
  calls.map Ran.command = p ∧ calls.IsChain Linked

/-- The calls are those of the pipelines, one pipeline after the other. -/
def RunsInOrder (ps : List (List SimpleCommand)) (calls : List Ran) : Prop :=
  ∃ parts, calls = parts.flatten ∧ List.Forall₂ RunsPipeline ps parts

/-- The queued command line is the pipeline `p` of known commands, without redirections. -/
def IsPipeline (env : Env ω) (environ : Environ) (q : Pending) (p : List SimpleCommand) : Prop :=
  Parses env environ q.tokens p ∧ ∀ c ∈ p, Known env (pathOf environ q.tokens) c

theorem IsPipeline.ne_nil {environ : Environ} {q : Pending} {p : List SimpleCommand}
    (h : IsPipeline env environ q p) : p ≠ [] := by
  rintro rfl
  exact List.splitOn_ne_nil _ _ (List.map_eq_nil_iff.mp h.1)

/-! ## One pipeline -/

theorem Calls.map_command {redirect : Bool} {environ : Environ} {segment : Nat}
    {chain : List (PipeProtocol ω)} {w w' : ω} {calls : List Ran} {p : List SimpleCommand}
    (h : Calls redirect environ segment chain w calls w') (hplain : PlainChain redirect p chain) :
    calls.map Ran.command = p := by
  induction h generalizing p with
  | nil w =>
    cases hplain
    rfl
  | cons handed _ ih =>
    cases hplain with
    | cons c cmd input hrest => rw [List.map_cons, ih (handed.plain hrest)]; rfl

/-- The stages that are not captured are linked. -/
theorem Calls.linked {environ : Environ} {segment : Nat} {chain : List (PipeProtocol ω)} {w w' : ω}
    {calls : List Ran} (h : Calls false environ segment chain w calls w')
    (hfresh : ∀ q ∈ chain.tail, q.inputData = none) : calls.IsChain Linked := by
  induction h with
  | nil w => exact List.IsChain.nil
  | @cons p rest rest' w w' calls handed h ih =>
    cases (show Fed _ rest rest' from handed) with
    | nil =>
      cases h
      exact List.IsChain.singleton _
    | cons q input rest hin =>
      cases h with
      | cons handed' h' =>
        refine List.isChain_cons_cons.mpr ⟨?_, ih fun r hr => ?_⟩
        · rw [hfresh q List.mem_cons_self] at hin
          exact hin
        · exact hfresh r (List.mem_cons_of_mem _ hr)

/-! ## The calls of a line -/

/-- The first stages of all pipelines but the last, and then the stages of the last one. -/
inductive HeadsFirst : List (List SimpleCommand) → List Ran → Prop
  | last {p : List SimpleCommand} {calls : List Ran} (h : RunsPipeline p calls) :
      HeadsFirst [p] calls
  | head {c : SimpleCommand} (cs : List SimpleCommand) {ps : List (List SimpleCommand)} {a : Ran}
      {calls : List Ran} (ha : a.command = c) (h : HeadsFirst ps calls) :
      HeadsFirst ((c :: cs) :: ps) (a :: calls)

theorem exec_showPrompt (env : Env ω) (self : HoneyPotShell) (s : Protocol ω) :
    ∃ u, exec (showPrompt env self) s = (.ok (), u) ∧ u.ran = s.ran := by
  unfold showPrompt when
  split
  · exact ⟨_, rfl, rfl⟩
  · exact ⟨s, rfl, rfl⟩

theorem exec_runCommand_cons (env : Env ω) {self : HoneyPotShell} {q : Pending}
    {p : List SimpleCommand} (hq : IsPipeline env self.environ q p) (fuel : Nat)
    (pending : List Pending) (s : Protocol ω) :
    ∃ u chain, exec (runCommand env self (fuel + 1) (q :: pending)) s =
        exec (callCommand env self fuel chain pending) u ∧
      PlainChain self.redirect p chain ∧ FoundIn env (pathOf self.environ q.tokens) s.world chain ∧
      u = { s with segment := if self.redirect then s.segment else q.segment } := by
  obtain ⟨chain, hprepare, hplain, hfound⟩ := prepare_plain hq.1 hq.2 (pending = [])
    { s with segment := if self.redirect then s.segment else q.segment }
  refine ⟨_, chain, ?_, hplain, hfound, rfl⟩
  rw [runCommand, exec_modify_bind, exec_bind_ok hprepare]

/-- **The calls of the queue**, in a shell whose output is not captured. -/
theorem exec_runCommand (env : Env ω) {self : HoneyPotShell} (hredirect : self.redirect = false)
    {pending : List Pending} {ps : List (List SimpleCommand)} (hne : ps ≠ [])
    (h : List.Forall₂ (IsPipeline env self.environ) pending ps) {fuel : Nat}
    (hfuel : 2 * ps.length + ps.flatten.length < fuel) (s : Protocol ω) :
    ∃ u p' calls, exec (runCommand env self fuel pending) s = (.ok (), u) ∧ u.pp = [p'] ∧
      u.ran = s.ran ++ calls ∧ HeadsFirst ps calls := by
  induction h generalizing fuel s with
  | nil => exact absurd rfl hne
  | @cons q p pending ps hq h ih =>
    obtain ⟨c, cs, rfl⟩ := List.exists_cons_of_ne_nil hq.ne_nil
    rw [List.flatten_cons, List.length_append, List.length_cons, List.length_cons] at hfuel
    obtain ⟨fuel, rfl⟩ : ∃ k, fuel = k + 2 := ⟨fuel - 2, by omega⟩
    obtain ⟨u, chain, hexec, hplain, hfound, hu⟩ := exec_runCommand_cons env hq (fuel + 1) pending s
    rw [hexec]
    have hran : u.ran = s.ran := by rw [hu]
    cases h with
    | nil =>
      have hlt : cs.length + 1 < fuel + 1 := by
        rw [List.length_nil] at hfuel
        omega
      obtain ⟨v, p', calls, _, hlast, hv, _, hcalls, hstages, _⟩ :=
        exec_callCommand_last env self hplain hlt u
      refine ⟨v, p', calls, hlast, hv, hran ▸ hcalls, HeadsFirst.last ⟨hstages.map_command hplain, ?_⟩⟩
      rw [hredirect] at hstages
      exact hstages.linked fun r hr => (hfound r (List.mem_of_mem_tail hr)).2
    | @cons q' p₂ pending ps hq' h =>
      cases hplain with
      | @cons _ cmd input _ rest hrest =>
        obtain ⟨v, p', rest', hstart, hstarted⟩ := exec_start env self
          (PlainChain.cons c cmd input hrest) u
        have hlt : 2 * (p₂ :: ps).length + (p₂ :: ps).flatten.length < fuel := by omega
        obtain ⟨t, p'', calls, hrun, ht, hcalls, hheads⟩ := ih (List.cons_ne_nil _ _) hlt v
        rw [hstarted.ran, hran, List.append_assoc] at hcalls
        refine ⟨t, p'', _, ?_, ht, hcalls, HeadsFirst.head cs rfl hheads⟩
        rw [callCommand_succ, exec_bind_ok hstart]
        -- what comes back is the last stage of the last pipeline: there is no next command
        refine (exec_bind_ok hrun).trans ?_
        rw [exec_get_bind, ht]
        rfl

/-! ## The order -/

theorem HeadsFirst.runsInOrder {ps : List (List SimpleCommand)} {calls : List Ran}
    (h : HeadsFirst ps calls) (hone : ∀ p ∈ ps.dropLast, p.length = 1) : RunsInOrder ps calls := by
  induction h with
  | @last p calls h => exact ⟨[calls], by simp, List.Forall₂.cons h List.Forall₂.nil⟩
  | @head c cs ps a calls ha h ih =>
    cases ps with
    | nil => cases h
    | cons p ps =>
      rw [List.dropLast_cons_cons] at hone
      obtain ⟨parts, hparts, hall⟩ := ih fun q hq => hone q (List.mem_cons_of_mem _ hq)
      have hnil : cs = [] := by simpa using hone (c :: cs) List.mem_cons_self
      subst hnil
      refine ⟨[a] :: parts, ?_, List.Forall₂.cons ⟨?_, List.IsChain.singleton a⟩ hall⟩
      · rw [List.flatten_cons, ← hparts]
        rfl
      · rw [List.map_singleton, ha]

theorem RunsInOrder.map_command {ps : List (List SimpleCommand)} {calls : List Ran}
    (h : RunsInOrder ps calls) : calls.map Ran.command = ps.flatten := by
  obtain ⟨parts, rfl, hall⟩ := h
  induction hall with
  | nil => rfl
  | cons hp _ ih => rw [List.flatten_cons, List.map_append, hp.1, ih, List.flatten_cons]

/-- There are no calls for the later stages of the pipelines before the last. -/
theorem HeadsFirst.length_lt {ps : List (List SimpleCommand)} {calls : List Ran}
    (h : HeadsFirst ps calls) :
    calls.length ≤ ps.flatten.length ∧
      (calls.length = ps.flatten.length → ∀ p ∈ ps.dropLast, p.length = 1) := by
  induction h with
  | @last p calls h =>
    refine ⟨?_, fun _ q hq => absurd hq List.not_mem_nil⟩
    rw [List.flatten_singleton, ← h.1, List.length_map]
  | @head c cs ps a calls ha h ih =>
    rw [List.flatten_cons, List.length_cons, List.length_append, List.length_cons]
    refine ⟨by omega, fun hlen => ?_⟩
    have hcs : cs.length = 0 := by omega
    cases ps with
    | nil => exact fun q hq => absurd hq List.not_mem_nil
    | cons p ps =>
      intro q hq
      rw [List.dropLast_cons_cons] at hq
      rcases List.mem_cons.mp hq with rfl | hq
      · rw [List.length_cons, hcs]
      · exact ih.2 (by omega) q hq

theorem HeadsFirst.runsInOrder_iff {ps : List (List SimpleCommand)} {calls : List Ran}
    (h : HeadsFirst ps calls) : RunsInOrder ps calls ↔ ∀ p ∈ ps.dropLast, p.length = 1 := by
  refine ⟨fun horder => h.length_lt.2 ?_, h.runsInOrder⟩
  rw [← horder.map_command, List.length_map]

end Cowrie.Shell
