import Cowrie.Shell.Line
import Cowrie.Text
import Mathlib.Algebra.Order.BigOperators.Group.List
import Mathlib.Data.List.DropRight
import Mathlib.Data.List.TakeWhile

/-!
# The command router (`scalpel/router/handle_command.py`)

`handleCommand` splits a line at every `;`, `&&`, `||` and line feed of its text and asks itself about every part;
a part, or a line that is not split, is looked up in a table, given to a language model or left to the shell.

* `Tiers` is what answers; `none` is a `TierUnavailable`.
* `subCommands` is what a line is split into. `handleCommand_eq`: each of them is asked about, in order, and all have
  to be answered.

Left out: telemetry; and the session, which no tier below uses to choose its answer.
-/

namespace Cowrie.Scalpel

open Shell (hasInfix hasSubstitution)

/-- `lookup_table.get`, `_tier2` and `_tier3`. -/
structure Tiers where
  lookup : String → Option String
  tier2 : String → Option String
  tier3 : String → Option String

/-- `_CONTROL_FLOW_TOKENS`. -/
def controlFlowTokens : List String := [" for ", " while ", " if ", " case ", " until ", "function "]

/-- `_is_control_flow`. -/
def isControlFlow (cmd : String) : Bool :=
  controlFlowTokens.any fun tok => hasInfix tok.toList (" " ++ cmd ++ " ").toList

/-- `_CHAIN_SPLIT_RE.split`. -/
def chainSplit : List Char → List (List Char)
  | [] => [[]]
  | [c] => if c = ';' ∨ c = '\n' then [[], []] else [[c]]
  | c :: d :: cs =>
    if c = ';' ∨ c = '\n' then [] :: chainSplit (d :: cs)
    else if c = d ∧ (c = '&' ∨ c = '|') then [] :: chainSplit cs
    else (chainSplit (d :: cs)).modifyHead (c :: ·)

example : chainSplit "a;b &&& c\n|||d".toList =
  ["a".toList, "b ".toList, "& c".toList, [], "|d".toList] := by decide

/-- `parts`. -/
def parts (cmd : String) : List String :=
  ((chainSplit cmd.toList).map fun p => stripBlanks (String.ofList p)).filter (· ≠ "")

/-- `GOODLLM`. -/
def goodLLM : List String := []

/-- `_should_escalate`. -/
def shouldEscalate (cmd : String) : Bool :=
  '|' ∈ cmd.toList || hasSubstitution cmd.toList || 80 < cmd.length

/-- `_escalate_with_fallback`. -/
def Tiers.escalateWithFallback (t : Tiers) (cmd : String) : Option String := (t.tier3 cmd).or (t.tier2 cmd)

/-- The steps 1 to 4. -/
def Tiers.route (t : Tiers) (cmd : String) : Option String :=
  match t.lookup cmd with
  | some canned => some canned
  | none =>
    if cmd ∈ goodLLM then t.tier2 cmd
    else if shouldEscalate cmd then t.escalateWithFallback cmd
    else none

/-! ## Splitting -/

theorem chainSplit_cons (c : Char) (cs : List Char) :
    chainSplit (c :: cs) =
      if c = ';' ∨ c = '\n' then [] :: chainSplit cs
      else if (c = '&' ∨ c = '|') ∧ cs.head? = some c then [] :: chainSplit cs.tail
      else (chainSplit cs).modifyHead (c :: ·) := by
  cases cs with
  | nil =>
    unfold chainSplit
    split_ifs with hsep hboth
    · rfl
    · cases hboth.2
    · rfl
  | cons d cs =>
    have hboth : ((c = '&' ∨ c = '|') ∧ (d :: cs).head? = some c) ↔ (c = d ∧ (c = '&' ∨ c = '|')) := by
      rw [List.head?_cons, Option.some.injEq, and_comm, eq_comm]
    rw [chainSplit]
    simp only [hboth, List.tail_cons]

theorem chainSplit_ne_nil (cs : List Char) : chainSplit cs ≠ [] := by
  induction cs using chainSplit.induct with
  | case1 => exact List.cons_ne_nil _ _
  | case2 c hc => rw [chainSplit, if_pos hc]; exact List.cons_ne_nil _ _
  | case3 c hc => rw [chainSplit, if_neg hc]; exact List.cons_ne_nil _ _
  | case4 c d cs hc => rw [chainSplit, if_pos hc]; exact List.cons_ne_nil _ _
  | case5 c d cs hc hd => rw [chainSplit, if_neg hc, if_pos hd]; exact List.cons_ne_nil _ _
  | case6 c d cs hc hd ih =>
    rw [chainSplit, if_neg hc, if_neg hd]
    obtain ⟨p, ps, hps⟩ := List.exists_cons_of_ne_nil ih
    rw [hps]
    exact List.cons_ne_nil _ _

/-- Every split leaves a character out. -/
theorem length_chainSplit (cs : List Char) :
    ((chainSplit cs).map List.length).sum + (chainSplit cs).length ≤ cs.length + 1 := by
  have hmodify : ∀ (c : Char) (ps : List (List Char)), ps ≠ [] →
      ((ps.modifyHead (c :: ·)).map List.length).sum + (ps.modifyHead (c :: ·)).length =
        (ps.map List.length).sum + ps.length + 1 := by
    intro c ps hps
    obtain ⟨p, ps, rfl⟩ := List.exists_cons_of_ne_nil hps
    simp only [List.modifyHead_cons, List.map_cons, List.sum_cons, List.length_cons]
    omega
  induction cs using chainSplit.induct with
  | case1 => simp [chainSplit]
  | case2 c hc => simp [chainSplit, hc]
  | case3 c hc => simp [chainSplit, hc]
  | case4 c d cs hc ih =>
    rw [chainSplit, if_pos hc]
    simp only [List.map_cons, List.sum_cons, List.length_cons, List.length_nil] at ih ⊢
    omega
  | case5 c d cs hc hd ih =>
    rw [chainSplit, if_neg hc, if_pos hd]
    simp only [List.map_cons, List.sum_cons, List.length_cons, List.length_nil] at ih ⊢
    omega
  | case6 c d cs hc hd ih =>
    rw [chainSplit, if_neg hc, if_neg hd, hmodify c _ (chainSplit_ne_nil _)]
    simp only [List.length_cons] at ih ⊢
    omega

/-- A part of a line that is split is shorter than the line. -/
theorem length_of_mem_chainSplit {cs p : List Char} (hp : p ∈ chainSplit cs) (hsplit : 1 < (chainSplit cs).length) :
    p.length < cs.length := by
  have hle : p.length ≤ ((chainSplit cs).map List.length).sum :=
    List.single_le_sum (fun _ _ => Nat.zero_le _) _ (List.mem_map_of_mem hp)
  have hlength := length_chainSplit cs
  omega

theorem length_stripBlanks (s : String) : (stripBlanks s).length ≤ s.length := by
  have hback := ((s.toList.dropWhile isBlank).reverse.dropWhile_sublist isBlank).length_le
  have hfront := (s.toList.dropWhile_sublist isBlank).length_le
  unfold stripBlanks
  rw [String.length_ofList, List.length_reverse, ← String.length_toList]
  rw [List.length_reverse] at hback
  exact hback.trans hfront

theorem length_of_mem_parts {cmd p : String} (hp : p ∈ parts cmd) (hsplit : 1 < (parts cmd).length) :
    p.length < cmd.length := by
  obtain ⟨piece, hpiece, rfl⟩ := List.mem_map.mp (List.mem_of_mem_filter hp)
  have hmany : 1 < (chainSplit cmd.toList).length :=
    hsplit.trans_le ((List.length_filter_le _ _).trans (List.length_map _).le)
  have hshort := length_of_mem_chainSplit hpiece hmany
  rw [String.length_toList] at hshort
  refine (length_stripBlanks _).trans_lt ?_
  rwa [String.length_ofList]

/-- `handle_command`. -/
def handleCommand (t : Tiers) (command : String) : Option String :=
  let cmd := stripBlanks command
  if cmd = "" then some ""
  else if isControlFlow cmd then t.escalateWithFallback cmd
  else if _hsplit : 1 < (parts cmd).length then
    ((parts cmd).attach.mapM fun p => handleCommand t p.1).map String.join
  else t.route cmd
termination_by command.length
decreasing_by exact (length_of_mem_parts p.2 _hsplit).trans_le (length_stripBlanks command)

/-! ## What a line is split into -/

/-- The texts that `handle_command` asks the tiers about. -/
def subCommands (command : String) : List String :=
  let cmd := stripBlanks command
  if cmd = "" then []
  else if isControlFlow cmd = false ∧ 1 < (parts cmd).length then parts cmd
  else [cmd]

/-- What the tiers answer to one of them. -/
def Tiers.answer (t : Tiers) (cmd : String) : Option String :=
  if isControlFlow cmd then t.escalateWithFallback cmd else t.route cmd

/-- No separator of the chain is in the text. -/
def Unsplit (p : List Char) : Prop := ∀ sep ∈ [[';'], ['\n'], ['&', '&'], ['|', '|']], ¬ sep <:+: p

theorem Unsplit.mono {p q : List Char} (h : Unsplit q) (hp : p <:+: q) : Unsplit p := fun sep hsep hin =>
  h sep hsep (hin.trans hp)

theorem unsplit_cons {c : Char} {p : List Char} :
    Unsplit (c :: p) ↔ ¬ (c = ';' ∨ c = '\n') ∧ ¬ ((c = '&' ∨ c = '|') ∧ p.head? = some c) ∧ Unsplit p := by
  have hone : ∀ a : Char, [a] <+: c :: p ↔ c = a := fun a => by
    rw [List.cons_prefix_cons, eq_comm]
    exact and_iff_left List.nil_prefix
  have htwo : ∀ a : Char, [a, a] <+: c :: p ↔ c = a ∧ p.head? = some a := fun a => by
    rw [List.cons_prefix_cons, eq_comm]
    refine and_congr_right fun _ => ?_
    cases p with
    | nil => simp
    | cons b p => simp [eq_comm]
  unfold Unsplit
  simp only [List.forall_mem_cons, List.not_mem_nil, false_implies, implies_true, and_true, List.infix_cons_iff, hone,
    htwo, not_or, not_and]
  grind

theorem chainSplit_of_unsplit {p : List Char} (h : Unsplit p) : chainSplit p = [p] := by
  induction p with
  | nil => rfl
  | cons c p ih =>
    obtain ⟨hsep, hboth, hrest⟩ := unsplit_cons.mp h
    rw [chainSplit_cons, if_neg hsep, if_neg hboth, ih hrest]
    rfl

/-- The first part is where the text begins. -/
theorem prefix_of_chainSplit {cs p : List Char} {ps : List (List Char)} (h : chainSplit cs = p :: ps) : p <+: cs := by
  induction cs generalizing p ps with
  | nil =>
    obtain ⟨rfl, -⟩ := List.cons.inj h
    exact List.prefix_rfl
  | cons c cs ih =>
    rw [chainSplit_cons] at h
    split_ifs at h
    · obtain ⟨rfl, -⟩ := List.cons.inj h
      exact List.nil_prefix
    · obtain ⟨rfl, -⟩ := List.cons.inj h
      exact List.nil_prefix
    · obtain ⟨q, qs, hq⟩ := List.exists_cons_of_ne_nil (chainSplit_ne_nil cs)
      rw [hq, List.modifyHead_cons] at h
      obtain ⟨rfl, -⟩ := List.cons.inj h
      exact List.cons_prefix_cons.mpr ⟨rfl, ih hq⟩

theorem unsplit_nil : Unsplit [] := by
  intro sep hsep hin
  rw [List.infix_nil] at hin
  subst hin
  exact absurd hsep (by decide)

/-- A part is not split any more. -/
theorem unsplit_of_mem {cs p : List Char} (hp : p ∈ chainSplit cs) : Unsplit p := by
  induction cs using chainSplit.induct generalizing p with
  | case1 =>
    obtain rfl := List.mem_singleton.mp hp
    exact unsplit_nil
  | case2 c hc =>
    rw [chainSplit, if_pos hc] at hp
    obtain rfl : p = [] := by simpa using hp
    exact unsplit_nil
  | case3 c hc =>
    rw [chainSplit, if_neg hc] at hp
    obtain rfl := List.mem_singleton.mp hp
    refine unsplit_cons.mpr ⟨hc, fun hboth => ?_, unsplit_nil⟩
    cases hboth.2
  | case4 c d cs hc ih =>
    rw [chainSplit, if_pos hc] at hp
    rcases List.mem_cons.mp hp with rfl | hp
    · exact unsplit_nil
    · exact ih hp
  | case5 c d cs hc hd ih =>
    rw [chainSplit, if_neg hc, if_pos hd] at hp
    rcases List.mem_cons.mp hp with rfl | hp
    · exact unsplit_nil
    · exact ih hp
  | case6 c d cs hc hd ih =>
    rw [chainSplit, if_neg hc, if_neg hd] at hp
    obtain ⟨q, qs, hq⟩ := List.exists_cons_of_ne_nil (chainSplit_ne_nil (d :: cs))
    rw [hq, List.modifyHead_cons] at hp
    rcases List.mem_cons.mp hp with rfl | hp
    · refine unsplit_cons.mpr ⟨hc, fun ⟨hamp, hhead⟩ => hd ⟨?_, hamp⟩, ih (hq ▸ List.mem_cons_self)⟩
      -- the first part begins like the text
      obtain ⟨q, rfl⟩ := List.head?_eq_some_iff.mp hhead
      exact (List.cons_prefix_cons.mp (prefix_of_chainSplit hq)).1
    · exact ih (hq ▸ List.mem_cons_of_mem q hp)

instance : DecidablePred Unsplit := fun p =>
  decidable_of_iff (chainSplit p = [p])
    ⟨fun h => unsplit_of_mem (h ▸ List.mem_singleton_self p), chainSplit_of_unsplit⟩

/-- `strip` on the characters. -/
def strip (cs : List Char) : List Char := (cs.dropWhile isBlank).rdropWhile isBlank

theorem toList_stripBlanks (s : String) : (stripBlanks s).toList = strip s.toList := by
  unfold stripBlanks
  rw [String.toList_ofList]
  rfl

theorem stripBlanks_ofList (cs : List Char) : stripBlanks (String.ofList cs) = String.ofList (strip cs) := by
  rw [← String.ofList_toList (s := stripBlanks _), toList_stripBlanks, String.toList_ofList]

theorem strip_isInfix (cs : List Char) : strip cs <:+: cs := by
  have hback : strip cs <+: cs.dropWhile isBlank := List.rdropWhile_prefix _ _
  exact hback.isInfix.trans (List.dropWhile_suffix _).isInfix

theorem strip_strip (cs : List Char) : strip (strip cs) = strip cs := by
  have hfront : (strip cs).dropWhile isBlank = strip cs := by
    rw [List.dropWhile_eq_self_iff]
    intro hlength
    obtain ⟨rest, hrest⟩ : strip cs <+: cs.dropWhile isBlank := List.rdropWhile_prefix _ _
    have hne : cs.dropWhile isBlank ≠ [] := by
      rw [← hrest]
      exact List.append_ne_nil_of_left_ne_nil (List.ne_nil_of_length_pos hlength) rest
    have hhead := List.head_dropWhile_not isBlank hne
    simp only [← hrest, List.head_eq_getElem, List.getElem_append_left hlength] at hhead
    rw [hhead]
    exact Bool.false_ne_true
  change ((strip cs).dropWhile isBlank).rdropWhile isBlank = strip cs
  rw [hfront]
  exact List.rdropWhile_idempotent _ _

/-- **What a part is**: stripped, not empty, and not split any more. -/
theorem parts_spec {cmd p : String} (hp : p ∈ parts cmd) :
    stripBlanks p = p ∧ p ≠ "" ∧ Unsplit p.toList := by
  obtain ⟨hmem, hne⟩ := List.mem_filter.mp hp
  obtain ⟨piece, hpiece, rfl⟩ := List.mem_map.mp hmem
  rw [stripBlanks_ofList] at hne ⊢
  refine ⟨by rw [stripBlanks_ofList, strip_strip], by simpa using hne, ?_⟩
  rw [String.toList_ofList]
  exact (unsplit_of_mem hpiece).mono (strip_isInfix piece)

theorem parts_of_unsplit {cmd : String} (h : Unsplit cmd.toList) : (parts cmd).length ≤ 1 := by
  unfold parts
  rw [chainSplit_of_unsplit h]
  exact List.length_filter_le _ _

theorem handleCommand_part (t : Tiers) {cmd p : String} (hp : p ∈ parts cmd) : handleCommand t p = t.answer p := by
  obtain ⟨hstrip, hne, hunsplit⟩ := parts_spec hp
  have hlength : ¬ 1 < (parts p).length := Nat.not_lt.mpr (parts_of_unsplit hunsplit)
  rw [handleCommand]
  simp only [hstrip, if_neg hne, dif_neg hlength]
  rfl

/-- **`handle_command`**: the tiers answer all that the line is split into, in order. -/
theorem handleCommand_eq (t : Tiers) (command : String) :
    handleCommand t command = ((subCommands command).mapM t.answer).map String.join := by
  have hmany : (parts (stripBlanks command)).attach.mapM (fun p => handleCommand t p.1) =
      (parts (stripBlanks command)).mapM t.answer := by
    rw [List.mapM_subtype fun p hp => handleCommand_part t hp, List.unattach_attach]
  rw [handleCommand]
  unfold subCommands
  simp only [hmany]
  by_cases hempty : stripBlanks command = ""
  · rw [if_pos hempty, if_pos hempty]
    rfl
  · rw [if_neg hempty, if_neg hempty]
    have hone : ∀ cmd, ([cmd].mapM t.answer).map String.join = t.answer cmd := fun cmd => by
      rw [List.mapM_cons, List.mapM_nil]
      cases t.answer cmd with
      | none => rfl
      | some canned => exact congrArg some (by simp [String.join])
    by_cases hflow : isControlFlow (stripBlanks command) = true
    · have hwhole : ¬ (isControlFlow (stripBlanks command) = false ∧ 1 < (parts (stripBlanks command)).length) := by
        simp [hflow]
      rw [if_pos hflow, if_neg hwhole, hone, Tiers.answer, if_pos hflow]
    · rw [if_neg hflow]
      have hflow' : isControlFlow (stripBlanks command) = false := Bool.eq_false_of_not_eq_true hflow
      by_cases hsplit : 1 < (parts (stripBlanks command)).length
      · rw [if_pos ⟨hflow', hsplit⟩, dif_pos hsplit]
      · rw [if_neg fun hboth => hsplit hboth.2, dif_neg hsplit, hone, Tiers.answer, if_neg hflow]

end Cowrie.Scalpel
