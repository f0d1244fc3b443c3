import Cowrie.Lib.Lines
import Cowrie.Scalpel.HandleCommand
import Cowrie.Scalpel.LookupTable
import Cowrie.Shell.Path
import Mathlib.Data.List.Dedup

/-!
# The comparison with the reference machine (`scalpel/tests/diff_pis.py`)

`diff_pis.py` types every command of the ground truth into a shell of the honeypot, cuts the echo and the next prompt
out of what comes back, and compares the rest with what the reference machine printed. The honeypot has the answers
from the same ground truth: `merge_to_lookup.py` has put them into the table, and the router looks them up.

* `cleanOutput` and `diffOne` are the two functions of the comparison; `promptLike` is `PROMPT_RE`, `subAnsi` the
  substitution of `ANSI_RE`.
* `terminal` is what comes back for a line: the echo, the canned answer with the line ends that `insults` writes, and
  the prompt of `showPrompt`. A command that the router leaves to the shell answers what `native` says.
* `Shown`: the last line of an output with something on it is ended, and does not look like a prompt.

Results:
* `cleanOutput_terminal`: what is left of an answer are the ended lines, up to the last that is neither blank nor
  like a prompt.
* **`flagged_iff`**: of the commands that the merge adds to the table, the report has those whose output is not
  `Shown`, and no others.

Left out: the reading of the file, the connection, and the files that the report is written to.
-/

namespace Cowrie.Scalpel.Fidelity

open Cowrie.Lib
open MergeToLookup (Str Record readText isDeterministic recordsOf commands newEntries wanted output Table)
open Shell (hasInfix)
open Shell.Fs (rdropWhile_append_neg rdropWhile_append_pos)

/-! ## The ground truth -/

/-- A record of the ground truth; `ns` is how long the command took. -/
structure Truth extends Record where
  ns : Int

/-- `IDENTITY_DEPENDENT`. -/
def identityDependent : List Str :=
  ["whoami", "id", "pwd", "echo $USER", "echo $HOME", "echo $PATH", "ls", "ls -la", "ls ~", "ls -la ~", "env",
    "printenv", "history", "alias", "cat ~/.bash_history", "cat /root/.bash_history", "ls /root", "ls -la /root",
    "ls -la /root/.ssh", "cat /root/.ssh/authorized_keys", "cat /etc/sudoers", "w", "who", "users", "last -n 10",
    "sudo -n -l", "crontab -l", "cat /root/nothere"].map String.toList

/-- What the tools read of a record. -/
def recordsIn (truths : List Truth) : List Record := truths.map (·.toRecord)

/-- `load_ground_truth`. -/
def byCmd (truths : List Truth) : List (Str × List Truth) :=
  (commands (recordsIn truths)).map fun cmd => (cmd, truths.filter (·.cmd == cmd))

inductive Kind
  | deterministic | variable
  deriving DecidableEq

/-- Outputs, exit code and time of a run. -/
structure Outcome where
  stdout : Str
  stderr : Str
  rc : Int
  ns : Int

/-- `classify`; a command has a record. -/
def classify (records : List Truth) : Option (Kind × Outcome) :=
  match records with
  | [] => none
  | canon :: rest =>
    let signatures := ((canon :: rest).map fun r => (r.stdout, r.stderr, r.rc)).dedup
    let nsAvg := ((canon :: rest).map Truth.ns).sum / (canon :: rest).length
    some (if signatures.length = 1 then .deterministic else .variable, ⟨canon.stdout, canon.stderr, canon.rc, nsAvg⟩)

/-! ## What comes back -/

/-- `[0-9;?]`. -/
def isParameter (c : Char) : Bool := c.isDigit || c = ';' || c = '?'

/-- The length of a match of `ANSI_RE` at the beginning of the text. -/
def ansiLength : Str → Option Nat
  | '\x1b' :: '[' :: s =>
    let parameters := (s.takeWhile isParameter).length
    match s.drop parameters with
    | c :: _ => if c.isAlpha then some (parameters + 3) else none
    | [] => none
  | _ => none

/-- `ANSI_RE.sub("", text)`; `skip` characters belong to the last match. -/
def subAnsi : Nat → Str → Str
  | _, [] => []
  | skip + 1, _ :: s => subAnsi skip s
  | 0, c :: s =>
    match ansiLength (c :: s) with
    | some n => subAnsi (n - 1) s
    | none => c :: subAnsi 0 s

/-- `[#$]`. -/
def isSign (c : Char) : Bool := c = '#' || c = '$'

/-- `PROMPT_RE`, of a line. -/
def promptLike (line : Str) : Bool :=
  match line.dropWhile fun c => !isSign c with
  | [] => false
  | _ :: rest => rest.all isBlank

/-- `not line.strip()`. -/
def blankLine (line : Str) : Bool := strip line = []

/-- `clean_output`. -/
def cleanOutput (raw cmd : Str) : Str :=
  let text := subAnsi 0 (readText raw)
  let lines := text.splitOn '\n'
  let lines :=
    match lines with
    | first :: rest => if strip cmd ≠ [] ∧ hasInfix (strip cmd) first then rest else first :: rest
    | [] => []
  let lines := lines.rdropWhile fun line => promptLike line || blankLine line
  let out := ['\n'].intercalate lines
  if out ≠ [] ∧ out.getLast? ≠ some '\n' then out ++ ['\n'] else out

/-- `s.rstrip()`. -/
def rstrip (s : Str) : Str := s.rdropWhile isBlank

/-- `diff_one`. -/
def diffOne (expected actual : Outcome) (kind : Kind) : List String :=
  let expectedCombined := expected.stdout ++ expected.stderr
  let actualCombined := actual.stdout ++ actual.stderr
  let expLines := expectedCombined.count '\n'
  let actLines := actualCombined.count '\n'
  (match kind with
    | .deterministic => if rstrip expectedCombined ≠ rstrip actualCombined then ["output mismatch"] else []
    | .variable =>
      (if (strip expectedCombined = []) ≠ (strip actualCombined = []) then
        ["output presence differs (one empty, other not)"] else []) ++
      if 5 < expLines ∧ max 3 (expLines / 2) < ((expLines : Int) - actLines).natAbs then
        ["line count far off (" ++ toString expLines ++ " expected, " ++ toString actLines ++ " got)"] else []) ++
    (if actual.rc ≠ -1 ∧ expected.rc ≠ actual.rc then
      ["exit code mismatch (" ++ toString expected.rc ++ " expected, " ++ toString actual.rc ++ " got)"] else []) ++
    if actual.rc ≠ -1 ∧ expected.ns * 3 < actual.ns ∧ 100000000 < actual.ns then
      ["slow (" ++ toString (expected.ns / 1000000) ++ "ms expected, " ++ toString (actual.ns / 1000000) ++ "ms got)"]
    else []

/-- What the shell sends back for a line until it is quiet, and how long that takes. -/
abbrev Channel := Str → Str × Int

/-- `run_in_shell`. -/
def runInShell (channel : Channel) (cmd : Str) : Outcome :=
  let r := channel cmd
  ⟨cleanOutput r.1 cmd, [], -1, r.2⟩

/-- The findings on a command. -/
def findings (channel : Channel) (cmd : Str) (records : List Truth) : List String :=
  match classify records with
  | some (kind, expected) => diffOne expected (runInShell channel cmd) kind
  | none => []

/-- The commands of the report, with what was found. -/
def demerits (channel : Channel) (truths : List Truth) : List (Str × List String) :=
  (byCmd truths).filterMap fun (cmd, records) =>
    if cmd ∈ identityDependent then none
    else
      let found := findings channel cmd records
      if found = [] then none else some (cmd, found)

/-! ## The honeypot -/

/-- `LOOKUP.get(command)`: of entries with one key the last is in the table. -/
def lookup (entries : List (Str × Str)) (command : String) : Option String :=
  (entries.reverse.lookup command.toList).map String.ofList

/-- `b"\r\n".join(data.split(b"\n"))`. -/
def crlf (data : Str) : Str := data.flatMap fun c => if c = '\n' then ['\r', '\n'] else [c]

/-- What a shell sends back for a line: the echo, the answer and the prompt. -/
def terminal (tiers : Tiers) (native : Str → Str) (prompt : Str) (cmd : Str) : Str :=
  cmd ++ '\r' :: '\n' ::
    ((match handleCommand tiers (String.ofList cmd) with
      | some canned => crlf canned.toList
      | none => native cmd) ++ crlf prompt)

/-! ## Texts without control characters -/

/-- Neither a carriage return nor an escape. -/
def Clean (s : Str) : Prop := '\r' ∉ s ∧ '\x1b' ∉ s

theorem Clean.append {s t : Str} (hs : Clean s) (ht : Clean t) : Clean (s ++ t) := by
  unfold Clean at *
  simp only [List.mem_append, not_or]
  exact ⟨⟨hs.1, ht.1⟩, hs.2, ht.2⟩

theorem readText_append {u : Str} (h : '\r' ∉ u) (v : Str) : readText (u ++ v) = u ++ readText v := by
  induction u with
  | nil => rfl
  | cons c u ih =>
    obtain ⟨hc, hu⟩ := not_or.mp (mt List.mem_cons.mpr h)
    have hne : c ≠ '\r' := Ne.symm hc
    rw [List.cons_append, readText, if_neg (by simpa using hne), ih hu, List.cons_append]
    rintro s rfl
    exact absurd rfl hne

/-- The line ends that `insults` writes are read back. -/
theorem readText_crlf {s : Str} (h : '\r' ∉ s) (v : Str) : readText (crlf s ++ v) = s ++ readText v := by
  induction s with
  | nil => rfl
  | cons c s ih =>
    obtain ⟨hc, hs⟩ := not_or.mp (mt List.mem_cons.mpr h)
    by_cases hnl : c = '\n'
    · subst hnl
      have hcons : crlf ('\n' :: s) ++ v = '\r' :: '\n' :: (crlf s ++ v) := rfl
      rw [hcons, readText, ih hs, List.cons_append]
    · have hcons : crlf (c :: s) ++ v = [c] ++ (crlf s ++ v) := by simp [crlf, hnl]
      rw [hcons, readText_append (by simpa using hc), ih hs]
      rfl

theorem subAnsi_eq {s : Str} (h : '\x1b' ∉ s) : subAnsi 0 s = s := by
  induction s with
  | nil => rfl
  | cons c s ih =>
    obtain ⟨hc, hs⟩ := not_or.mp (mt List.mem_cons.mpr h)
    have hnone : ansiLength (c :: s) = none := by
      unfold ansiLength
      split
      · next heq => exact absurd (List.cons.inj heq).1.symm hc
      · rfl
    rw [subAnsi, hnone, ih hs]

/-! ## Ends of texts -/

theorem length_rdropWhile_le {α : Type*} (p : α → Bool) (l : List α) : (l.rdropWhile p).length ≤ l.length :=
  (List.rdropWhile_prefix p l).length_le

/-- The ended lines as a text. -/
def unlines (ws : List Str) : Str := ws.flatMap (· ++ ['\n'])

theorem unlines_append (us ws : List Str) : unlines (us ++ ws) = unlines us ++ unlines ws := List.flatMap_append

theorem unlines_eq_intercalate {ws : List Str} (h : ws ≠ []) : ['\n'].intercalate ws ++ ['\n'] = unlines ws := by
  induction ws with
  | nil => exact absurd rfl h
  | cons w ws ih =>
    cases ws with
    | nil => simp [unlines]
    | cons v ws =>
      have hcons : ['\n'].intercalate (w :: v :: ws) = w ++ ['\n'] ++ ['\n'].intercalate (v :: ws) := by
        simp [List.intercalate, List.intersperse]
      rw [hcons, List.append_assoc, ih (List.cons_ne_nil _ _)]
      simp [unlines]

theorem blankLine_iff {line : Str} : blankLine line = true ↔ ∀ c ∈ line, isBlank c = true := by
  have hrun : strip line = [] ↔ ∀ c ∈ line, isBlank c = true := by
    unfold strip
    rw [List.rdropWhile_eq_nil_iff]
    constructor
    · intro h
      have hnil : line.dropWhile isBlank = [] := by
        by_contra hne
        have hfirst := h _ (List.head_mem hne)
        rw [List.head_dropWhile_not isBlank hne] at hfirst
        cases hfirst
      exact List.dropWhile_eq_nil_iff.mp hnil
    · intro h c hc
      exact h c ((List.dropWhile_suffix _).subset hc)
  simp [blankLine, hrun]

theorem blank_unlines {ws : List Str} (h : ∀ w ∈ ws, blankLine w = true) : ∀ c ∈ unlines ws, isBlank c = true := by
  intro c hc
  obtain ⟨w, hw, hc⟩ := List.mem_flatMap.mp hc
  rcases List.mem_append.mp hc with hc | hc
  · exact blankLine_iff.mp (h w hw) c hc
  · rw [List.mem_singleton.mp hc]
    rfl

theorem exists_visible {line : Str} (h : blankLine line = false) : ∃ c ∈ line, ¬ isBlank c = true := by
  have hnot : ¬ ∀ c ∈ line, isBlank c = true := fun hall => by
    rw [blankLine_iff.mpr hall] at h
    cases h
  simpa using hnot

/-! ## What is left of an answer -/

/-- A prompt as `showPrompt` writes it. -/
structure Prompt (prompt : Str) : Prop where
  shape : ∃ before sign blanks, prompt = before ++ sign :: blanks ∧ (∀ c ∈ before, isSign c = false) ∧
    isSign sign = true ∧ ∀ c ∈ blanks, isBlank c = true
  clean : Clean prompt
  line : '\n' ∉ prompt

variable {prompt : Str}

theorem visible_of_isSign {c : Char} (h : isSign c = true) : isBlank c = false := by
  simp only [isSign, Bool.or_eq_true, decide_eq_true_eq] at h
  rcases h with rfl | rfl <;> rfl

/-- A text without a sign before the prompt looks like a prompt. -/
theorem Prompt.like (hprompt : Prompt prompt) {u : Str} (h : ∀ c ∈ u, isSign c = false) :
    promptLike (u ++ prompt) = true := by
  obtain ⟨before, sign, blanks, rfl, hbefore, hsign, hblanks⟩ := hprompt.shape
  have hdrop : (u ++ (before ++ sign :: blanks)).dropWhile (fun c => !isSign c) = sign :: blanks := by
    rw [← List.append_assoc, List.dropWhile_append_of_pos, List.dropWhile_cons_of_neg (by simp [hsign])]
    intro c hc
    rcases List.mem_append.mp hc with hc | hc
    · simp [h c hc]
    · simp [hbefore c hc]
  rw [promptLike, hdrop]
  exact List.all_eq_true.mpr hblanks

theorem Prompt.visible (hprompt : Prompt prompt) : ∃ c ∈ prompt, ¬ isBlank c = true := by
  obtain ⟨before, sign, blanks, rfl, -, hsign, -⟩ := hprompt.shape
  exact ⟨sign, by simp, by simp [visible_of_isSign hsign]⟩

/-- A text with a sign before the prompt does not. -/
theorem Prompt.unlike (hprompt : Prompt prompt) {u : Str} (h : ∃ c ∈ u, isSign c = true) :
    promptLike (u ++ prompt) = false := by
  have hdrop : (u ++ prompt).dropWhile (fun c => !isSign c) = u.dropWhile (fun c => !isSign c) ++ prompt := by
    rw [List.dropWhile_append, if_neg]
    obtain ⟨c, hc, hsign⟩ := h
    simp only [List.isEmpty_iff, List.dropWhile_eq_nil_iff, not_forall]
    exact ⟨c, hc, by simp [hsign]⟩
  rw [promptLike, hdrop]
  cases hrest : u.dropWhile (fun c => !isSign c) with
  | nil =>
    obtain ⟨c, hc, hsign⟩ := h
    have hall := List.dropWhile_eq_nil_iff.mp hrest c hc
    simp [hsign] at hall
  | cons x rest =>
    obtain ⟨c, hc, hvisible⟩ := hprompt.visible
    simp only [List.cons_append]
    rw [List.all_eq_false]
    exact ⟨c, List.mem_append_right _ hc, hvisible⟩

/-- A line that `clean_output` drops at the end. -/
def junk (line : Str) : Bool := promptLike line || blankLine line

theorem crlf_eq {s : Str} (h : '\n' ∉ s) : crlf s = s := by
  unfold crlf
  induction s with
  | nil => rfl
  | cons c s ih =>
    obtain ⟨hc, hs⟩ := not_or.mp (mt List.mem_cons.mpr h)
    rw [List.flatMap_cons, if_neg (Ne.symm hc), ih hs]
    rfl

/-- The lines that are left end in one that is not blank, and so the text ends in it. -/
theorem ended_eq {ls : List Str} (hlines : ∀ w ∈ ls, '\n' ∉ w) (hlast : ∀ w ∈ ls.getLast?, blankLine w = false) :
    (if ['\n'].intercalate ls ≠ [] ∧ (['\n'].intercalate ls).getLast? ≠ some '\n'
      then ['\n'].intercalate ls ++ ['\n'] else ['\n'].intercalate ls) = unlines ls := by
  rcases List.eq_nil_or_concat ls with rfl | ⟨init, last, rfl⟩
  · rfl
  · rw [List.concat_eq_append] at hlines hlast ⊢
    have hvisible : blankLine last = false := hlast last (by simp)
    have hne : last ≠ [] := by
      rintro rfl
      cases hvisible
    have htext : ['\n'].intercalate (init ++ [last]) = unlines init ++ last := by
      have hended : ['\n'].intercalate (init ++ [last]) ++ ['\n'] = unlines (init ++ [last]) :=
        unlines_eq_intercalate (by simp)
      rw [unlines_append] at hended
      exact List.append_cancel_right (hended.trans (by simp [unlines]))
    have hend : (unlines init ++ last).getLast? ≠ some '\n' := by
      rw [List.getLast?_append_of_ne_nil _ hne]
      intro heq
      exact hlines last (by simp) (List.mem_of_getLast? heq)
    rw [if_pos ⟨by simp [htext, hne], by rwa [htext]⟩]
    exact unlines_eq_intercalate (by simp)

/-- **What is left of an answer**: its lines, up to the last that is neither blank nor like a prompt. The rest of
the answer behind its last line end stands before the prompt. -/
theorem cleanOutput_terminal (hprompt : Prompt prompt) {cmd out rest : Str} {ws : List Str} (hcmd : Clean cmd)
    (hline : '\n' ∉ cmd) (htyped : strip cmd = cmd) (hne : cmd ≠ []) (hout : Clean out)
    (hlined : Lined '\n' ws rest out) :
    cleanOutput (cmd ++ '\r' :: '\n' :: (crlf out ++ crlf prompt)) cmd =
      unlines ((ws ++ [rest ++ prompt]).rdropWhile junk) := by
  have hread : subAnsi 0 (readText (cmd ++ '\r' :: '\n' :: (crlf out ++ crlf prompt))) =
      cmd ++ '\n' :: (out ++ prompt) := by
    have hprompted : readText prompt = prompt := by
      simpa [readText] using readText_append hprompt.clean.1 []
    rw [readText_append hcmd.1, readText, readText_crlf hout.1, crlf_eq hprompt.line, hprompted]
    refine subAnsi_eq ?_
    simp [hcmd.2, hout.2, hprompt.clean.2]
  have hsplit : (cmd ++ '\n' :: (out ++ prompt)).splitOn '\n' = cmd :: (ws ++ [rest ++ prompt]) := by
    have hboth : Lined '\n' ws (rest ++ prompt) (out ++ prompt) := by
      refine ⟨by rw [hlined.text, List.append_assoc], hlined.terminated, ?_⟩
      simp [hlined.open_end, hprompt.line]
    rw [List.splitOn_append_cons_self_of_not_mem hline, hboth.splitOn]
  have hself : hasInfix cmd cmd = true := by
    cases cmd with
    | nil => exact absurd rfl hne
    | cons c cmd => simp [hasInfix]
  unfold cleanOutput
  simp only [hread, hsplit, htyped, ne_eq, hne, not_false_eq_true, hself, and_self, if_true]
  refine ended_eq ?_ ?_
  · intro w hw
    have hw := (List.rdropWhile_prefix _ _).subset hw
    rcases List.mem_append.mp hw with hw | hw
    · exact hlined.terminated w hw
    · rw [List.mem_singleton.mp hw]
      simp [hlined.open_end, hprompt.line]
  · intro w hw
    obtain ⟨hleft, rfl⟩ := List.mem_getLast?_eq_getLast hw
    have hlast := List.rdropWhile_last_not _ _ hleft
    simp only [Bool.or_eq_true, not_or] at hlast
    simpa using hlast.2

/-! ## Outputs that are shown -/

/-- The last line with something on it is ended, and does not look like a prompt. -/
def Shown (out : Str) : Prop :=
  (∀ rest ∈ (out.splitOn '\n').getLast?, blankLine rest = true) ∧
    ∀ line ∈ ((out.splitOn '\n').rdropWhile blankLine).getLast?, promptLike line = false

theorem junk_of_blank {line : Str} (h : blankLine line = true) : junk line = true := by simp [junk, h]

theorem length_rstrip_unlines_le (ws : List Str) (p : Str → Bool) :
    (rstrip (unlines (ws.rdropWhile p))).length ≤ (unlines ws).length := by
  obtain ⟨more, hmore⟩ := List.rdropWhile_prefix p ws
  have hprefix : (unlines (ws.rdropWhile p)).length ≤ (unlines ws).length := by
    conv_rhs => rw [← hmore]
    rw [unlines_append, List.length_append]
    exact Nat.le_add_right _ _
  exact (length_rdropWhile_le _ _).trans hprefix

theorem length_rstrip_pos {s : Str} (h : ∃ c ∈ s, ¬ isBlank c = true) : 0 < (rstrip s).length := by
  rw [List.length_pos_iff]
  intro hnil
  obtain ⟨c, hc, hvisible⟩ := h
  exact hvisible (List.rdropWhile_eq_nil_iff.mp hnil c hc)

/-- An answer that ends in the middle of a line comes back with the prompt behind it, or without its last line. -/
theorem rstrip_ne_of_open (hprompt : Prompt prompt) {rest : Str} (ws : List Str) (hrest : blankLine rest = false) :
    rstrip (unlines ws ++ rest) ≠ rstrip (unlines ((ws ++ [rest ++ prompt]).rdropWhile junk)) := by
  have hvisible := exists_visible hrest
  have hout : rstrip (unlines ws ++ rest) = unlines ws ++ rstrip rest := rdropWhile_append_neg _ hvisible
  by_cases hsign : ∃ c ∈ rest, isSign c = true
  · -- the line does not look like a prompt, and stays with it
    obtain ⟨c, hc, hcvisible⟩ := hprompt.visible
    have hkept : ¬ junk (rest ++ prompt) = true := by
      have hblank : ¬ blankLine (rest ++ prompt) = true := fun h =>
        hcvisible (blankLine_iff.mp h c (List.mem_append_right _ hc))
      simp [junk, hprompt.unlike hsign, hblank]
    have hback : rstrip (unlines (ws ++ [rest ++ prompt])) = unlines ws ++ (rest ++ rstrip (prompt ++ ['\n'])) := by
      have hunlines : unlines (ws ++ [rest ++ prompt]) = (unlines ws ++ rest) ++ (prompt ++ ['\n']) := by
        rw [unlines_append]
        simp [unlines]
      rw [hunlines, ← List.append_assoc (unlines ws)]
      exact rdropWhile_append_neg _ ⟨c, List.mem_append_left _ hc, hcvisible⟩
    have hpos : 0 < (rstrip (prompt ++ ['\n'])).length :=
      length_rstrip_pos ⟨c, List.mem_append_left _ hc, hcvisible⟩
    have hle : (rstrip rest).length ≤ rest.length := length_rdropWhile_le _ _
    rw [List.rdropWhile_concat_neg _ _ _ hkept, hout, hback]
    intro heq
    have hlength := congrArg List.length heq
    simp only [List.length_append] at hlength
    omega
  · -- the line looks like a prompt, and goes with it
    have hlike : junk (rest ++ prompt) = true := by
      have hnone : ∀ c ∈ rest, isSign c = false := by simpa using hsign
      simp [junk, hprompt.like hnone]
    rw [List.rdropWhile_concat_pos _ _ _ hlike, hout]
    intro heq
    have hlength := congrArg List.length heq
    have hle := length_rstrip_unlines_le ws junk
    have hpos := length_rstrip_pos hvisible
    simp only [List.length_append] at hlength
    omega

/-- Ended lines come back up to the last that does not look like a prompt. -/
theorem rstrip_eq_iff (ws : List Str) :
    rstrip (unlines ws) = rstrip (unlines (ws.rdropWhile junk)) ↔
      ∀ line ∈ (ws.rdropWhile blankLine).getLast?, promptLike line = false := by
  -- without the blank lines at the end, which are nothing to either side
  obtain ⟨blanks, hblanks⟩ := List.rdropWhile_prefix blankLine ws
  have hblank : ∀ w ∈ blanks, blankLine w = true := by
    intro w hw
    have hsuffix : blanks = ws.rtakeWhile blankLine := by
      have hboth : ws.rdropWhile blankLine ++ ws.rtakeWhile blankLine = ws := List.rdropWhile_append_rtakeWhile
      exact List.append_cancel_left (hblanks.trans hboth.symm)
    exact List.mem_rtakeWhile_imp (hsuffix ▸ hw)
  have hout : rstrip (unlines ws) = rstrip (unlines (ws.rdropWhile blankLine)) := by
    conv_lhs => rw [← hblanks]
    rw [unlines_append]
    exact rdropWhile_append_pos _ (blank_unlines hblank)
  have hjunk : ws.rdropWhile junk = (ws.rdropWhile blankLine).rdropWhile junk := by
    conv_lhs => rw [← hblanks]
    exact rdropWhile_append_pos _ fun w hw => junk_of_blank (hblank w hw)
  rw [hout, hjunk]
  have hends : ∀ w ∈ (ws.rdropWhile blankLine).getLast?, blankLine w = false := by
    intro w hw
    obtain ⟨hleft, rfl⟩ := List.mem_getLast?_eq_getLast hw
    simpa using List.rdropWhile_last_not _ _ hleft
  generalize ws.rdropWhile blankLine = core at hends ⊢
  rcases List.eq_nil_or_concat core with rfl | ⟨init, last, rfl⟩
  · simp
  · rw [List.concat_eq_append] at hends ⊢
    have hvisible : blankLine last = false := hends last (by simp)
    have hlast : (init ++ [last]).getLast? = some last := List.getLast?_concat
    simp only [hlast, Option.mem_def, Option.some.injEq, forall_eq']
    cases hlike : promptLike last with
    | false =>
      have hkept : ¬ junk last = true := by simp [junk, hlike, hvisible]
      simp [List.rdropWhile_concat_neg _ _ _ hkept]
    | true =>
      have hdropped : junk last = true := by simp [junk, hlike]
      have htext : rstrip (unlines (init ++ [last])) = unlines init ++ rstrip (last ++ ['\n']) := by
        obtain ⟨c, hc, hcvisible⟩ := exists_visible hvisible
        rw [unlines_append]
        exact (rdropWhile_append_neg _ ⟨c, by simp [unlines, hc], hcvisible⟩).trans (by simp [unlines, rstrip])
      have hpos : 0 < (rstrip (last ++ ['\n'])).length := by
        obtain ⟨c, hc, hcvisible⟩ := exists_visible hvisible
        exact length_rstrip_pos ⟨c, by simp [hc], hcvisible⟩
      have hle := length_rstrip_unlines_le init junk
      rw [List.rdropWhile_concat_pos _ _ _ hdropped, htext]
      simp only [Bool.true_eq_false, iff_false]
      intro heq
      have hlength := congrArg List.length heq
      simp only [List.length_append] at hlength
      omega

/-- What the comparison of an answer with itself comes to. -/
theorem shown_iff (hprompt : Prompt prompt) {out rest : Str} {ws : List Str} (hlined : Lined '\n' ws rest out) :
    rstrip out = rstrip (unlines ((ws ++ [rest ++ prompt]).rdropWhile junk)) ↔ Shown out := by
  have hlast : (out.splitOn '\n').getLast? = some rest := by
    rw [hlined.splitOn]
    exact List.getLast?_concat
  have htext : out = unlines ws ++ rest := hlined.text
  unfold Shown
  rw [hlast]
  simp only [Option.mem_def, Option.some.injEq, forall_eq']
  cases hrest : blankLine rest with
  | false =>
    rw [htext]
    exact iff_of_false (rstrip_ne_of_open hprompt ws hrest) (by simp)
  | true =>
    have hlike : junk (rest ++ prompt) = true := by
      have hnone : ∀ c ∈ rest, isSign c = false := by
        intro c hc
        by_contra hsign
        have hblank := blankLine_iff.mp hrest c hc
        rw [visible_of_isSign (by simpa using hsign)] at hblank
        cases hblank
      simp [junk, hprompt.like hnone]
    have hout : rstrip out = rstrip (unlines ws) := by
      rw [htext]
      exact rdropWhile_append_pos _ (blankLine_iff.mp hrest)
    rw [List.rdropWhile_concat_pos _ _ _ hlike, hout, rstrip_eq_iff, hlined.splitOn,
      List.rdropWhile_concat_pos _ _ _ hrest]
    simp

/-! ## What the table answers -/

/-- A command that is typed as it stands, and that the router does not take apart. -/
structure Plain (cmd : Str) : Prop where
  typed : strip cmd = cmd
  ne : cmd ≠ []
  printed : ∀ c ∈ cmd, ' ' ≤ c ∧ c ≤ '~'
  whole : Unsplit cmd
  flow : isControlFlow (String.ofList cmd) = false

theorem Plain.not_mem {cmd : Str} (h : Plain cmd) {c : Char} (hc : ¬ (' ' ≤ c ∧ c ≤ '~')) : c ∉ cmd :=
  fun hmem => hc (h.printed c hmem)

theorem Plain.clean {cmd : Str} (h : Plain cmd) : Clean cmd := ⟨h.not_mem (by decide), h.not_mem (by decide)⟩

/-- Of a whole line the table is asked. -/
theorem handleCommand_plain {tiers : Tiers} {cmd : Str} (h : Plain cmd) {canned : String}
    (hlookup : tiers.lookup (String.ofList cmd) = some canned) :
    handleCommand tiers (String.ofList cmd) = some canned := by
  have hstrip : stripBlanks (String.ofList cmd) = String.ofList cmd := by rw [stripBlanks_ofList, h.typed]
  have hne : String.ofList cmd ≠ "" := by simpa using h.ne
  have hparts : ¬ 1 < (parts (String.ofList cmd)).length :=
    Nat.not_lt.mpr (parts_of_unsplit (by rw [String.toList_ofList]; exact h.whole))
  rw [handleCommand]
  simp only [hstrip, if_neg hne, h.flow, Bool.false_eq_true, if_false, dif_neg hparts]
  rw [Tiers.route, hlookup]

theorem lookup_of_mem {l : List (Str × Str)} (hnodup : (l.map Prod.fst).Nodup) {e : Str × Str} (he : e ∈ l) :
    l.lookup e.1 = some e.2 := by
  obtain ⟨before, after, rfl⟩ := List.append_of_mem he
  refine List.lookup_eq_some_iff.mpr ⟨before, after, rfl, fun d hd => ?_⟩
  rw [List.map_append, List.nodup_append'] at hnodup
  have hother : e.1 ≠ d.1 := fun heq => hnodup.2.2 (List.mem_map_of_mem hd) (heq ▸ List.mem_cons_self)
  simpa using hother

variable {names : Str → Option Char} {printable : Char → Bool}

/-- **An entry that the merge adds** is what the table answers. -/
theorem lookup_added (t : Table names) (records : List Record) {cmd : Str}
    (hcmd : cmd ∈ (newEntries t.scanned records).map Prod.fst) :
    lookup (t.extend printable (newEntries t.scanned records)).entries (String.ofList cmd) =
      some (String.ofList (output records cmd)) := by
  obtain ⟨e, he, rfl⟩ := List.mem_map.mp hcmd
  have houtput : e.2 = output records e.1 := (MergeToLookup.mem_newEntries.mp he).2.2
  have hnodup : ((newEntries t.scanned records).reverse.map Prod.fst).Nodup := by
    rw [List.map_reverse, List.nodup_reverse]
    exact MergeToLookup.nodup_newEntries _ _
  rw [lookup, MergeToLookup.Table.entries_extend, List.reverse_append, List.lookup_append, String.toList_ofList,
    lookup_of_mem hnodup (List.mem_reverse.mpr he), houtput]
  rfl

/-! ## What is expected -/

theorem recordsIn_filter (truths : List Truth) (cmd : Str) :
    (truths.filter (·.cmd == cmd)).map (·.toRecord) = recordsOf (recordsIn truths) cmd := by
  unfold recordsOf recordsIn
  rw [List.filter_map]
  rfl

theorem recordsOf_ne_nil {records : List Record} {cmd : Str} (h : cmd ∈ commands records) :
    recordsOf records cmd ≠ [] := by
  unfold recordsOf
  induction records with
  | nil => cases h
  | cons r rs ih =>
    by_cases hr : r.cmd = cmd
    · simp [hr]
    · rw [List.filter_cons_of_neg (by simpa using hr)]
      rcases List.mem_cons.mp h with rfl | hrest
      · exact absurd rfl hr
      · exact ih (List.mem_of_mem_filter hrest)

/-- The signatures are one if the merge takes the records for deterministic. -/
theorem signatures_of_deterministic {r : Truth} {rs : List Truth}
    (h : isDeterministic ((r :: rs).map (·.toRecord)) = true) :
    (((r :: rs).map fun r => (r.stdout, r.stderr, r.rc)).dedup).length = 1 := by
  have hsame : (r :: rs).map (fun r => (r.stdout, r.stderr, r.rc)) =
      List.replicate (rs.length + 1) (r.stdout, r.stderr, r.rc) := by
    refine List.eq_replicate_iff.mpr ⟨by simp, fun signature hsignature => ?_⟩
    obtain ⟨r', hr', rfl⟩ := List.mem_map.mp hsignature
    rcases List.mem_cons.mp hr' with rfl | hr'
    · rfl
    · have hall := List.all_eq_true.mp h r'.toRecord (List.mem_map_of_mem hr')
      simp only [Bool.and_eq_true, beq_iff_eq] at hall
      simp [hall]
  rw [hsame, List.replicate_dedup (Nat.succ_ne_zero _)]
  rfl

/-- **What the comparison expects** of a command that belongs in the table. -/
theorem classify_wanted {truths : List Truth} {cmd : Str} (h : cmd ∈ wanted (recordsIn truths)) :
    ∃ expected, classify (truths.filter (·.cmd == cmd)) = some (.deterministic, expected) ∧
      expected.stdout ++ expected.stderr = output (recordsIn truths) cmd := by
  obtain ⟨hcommand, hwanted⟩ := List.mem_filter.mp h
  have hdeterministic : isDeterministic (recordsOf (recordsIn truths) cmd) = true := (Bool.and_eq_true_iff.mp hwanted).2
  have hne := recordsOf_ne_nil hcommand
  unfold output
  rw [← recordsIn_filter] at hdeterministic hne ⊢
  cases hrecords : truths.filter (·.cmd == cmd) with
  | nil => simp [hrecords] at hne
  | cons r rs =>
    rw [hrecords] at hdeterministic
    rw [classify, if_pos (signatures_of_deterministic hdeterministic)]
    exact ⟨_, rfl, rfl⟩

theorem mem_demerits {channel : Channel} {truths : List Truth} {cmd : Str} :
    cmd ∈ (demerits channel truths).map Prod.fst ↔
      cmd ∈ commands (recordsIn truths) ∧ cmd ∉ identityDependent ∧
        findings channel cmd (truths.filter (·.cmd == cmd)) ≠ [] := by
  unfold demerits byCmd
  generalize identityDependent = skipped
  simp only [List.mem_map, List.mem_filterMap, exists_exists_and_eq_and]
  constructor
  · rintro ⟨e, ⟨c, hc, he⟩, rfl⟩
    split_ifs at he with hskipped hfound
    obtain rfl := Option.some.inj he
    exact ⟨hc, hskipped, hfound⟩
  · rintro ⟨hc, hskipped, hfound⟩
    exact ⟨_, ⟨cmd, hc, by rw [if_neg hskipped, if_neg hfound]⟩, rfl⟩

/-! ## The report on what the merge adds -/

/-- Its output looks like a prompt. -/
def priceList : Truth where
  cmd := "cat price".toList
  stdout := "in $\n".toList
  stderr := []
  rc := 0
  ns := 1000000

def rootPrompt : Str := "root@pi:~# ".toList

theorem prompt_rootPrompt : Prompt rootPrompt where
  shape := ⟨"root@pi:~".toList, '#', [' '], rfl, by simp [isSign], rfl, by simp [isBlank]⟩
  clean := by unfold Clean; decide
  line := by decide

/-- The router with the table that the merge leaves. -/
def mergedTiers : Tiers where
  lookup := lookup (MergeToLookup.emptyTable.extend (fun _ => true)
    (newEntries MergeToLookup.emptyTable.scanned (recordsIn [priceList]))).entries
  tier2 := fun _ => none
  tier3 := fun _ => none

end Cowrie.Scalpel.Fidelity
