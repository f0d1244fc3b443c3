import Cowrie.Shell.Plan

/-!
# What `parse_redirections` makes of every token (`src/cowrie/shell/parser.py:60-172`)

* `Recognised` says which tokens are one redirection, and what operation it is: a token that spells a
  descriptor, an operator and a target, or one that spells no target and the token after it. Closing a
  descriptor (`>&-`) is recognised and is no operation.
* `Accounted`: the tokens fall into arguments and redirections. **`accounted_of_parse`**: they do
  whenever the parser returns.
* `arrivals` are the tokens at which the loop arrives, each with the one after it, and `Raises` is when
  `int` does not convert one of them: too many digits before the operator, or after `>&` a text that
  `str.isdigit` accepts and `int` does not.
* **`parse_accounted_iff`**: all is well exactly if no token at which the loop arrives raises.
-/

namespace Cowrie.Shell

/-! ## Redirections -/

def Operator.text : Operator → List Char
  | .append => ['>', '>']
  | .dup => ['>', '&']
  | .output => ['>']
  | .input => ['<']

variable (u : Digits)

/-- The token is a descriptor, an operator and a target, which may be empty. -/
def Spells (tok : String) (fd : Option Nat) (op : Operator) (inlineTarget : String) : Prop :=
  ∃ fdText rest, tok.toList = fdText ++ (op.text ++ rest) ∧
    (fdText = [] ∧ fd = none ∨ ∃ n, intOf u fdText = .ok n ∧ fd = some n) ∧
    restOfLine rest = some inlineTarget

/-- The operation of an operator with a target; closing a descriptor is none. -/
inductive Stands (fd : Option Nat) : Operator → String → Option RedirOp → Prop
  | output (target : String) : Stands fd .output target (some (.file (fd.getD 1) target false))
  | append (target : String) : Stands fd .append target (some (.file (fd.getD 1) target true))
  | input (target : String) : Stands fd .input target (some (.stdin (fd.getD 0) target))
  | close : Stands fd .dup "-" none
  | dup {target : String} {n : Nat} (hdigits : isDigits u target = true)
      (hint : intOf u target.toList = .ok n) :
      Stands fd .dup target (some (.dup (fd.getD 1) n))

/-- The tokens of one redirection. -/
inductive Recognised : List String → Option RedirOp → Prop
  | inline {tok target : String} {fd : Option Nat} {op : Operator} {r : Option RedirOp}
      (hspells : Spells u tok fd op target) (hne : target ≠ "") (hstands : Stands u fd op target r) :
      Recognised [tok] r
  | separate {tok target : String} {fd : Option Nat} {op : Operator} {r : Option RedirOp}
      (hspells : Spells u tok fd op "") (hstands : Stands u fd op target r) :
      Recognised [tok, target] r

/-- A part of a command line. -/
inductive Segment
  | argument (tok : String)
  | redirection (tokens : List String) (op : Option RedirOp)

namespace Segment

def tokens : Segment → List String
  | argument tok => [tok]
  | redirection tokens _ => tokens

def cleaned : Segment → List String
  | argument tok => [tok]
  | redirection _ _ => []

def ops : Segment → List RedirOp
  | argument _ => []
  | redirection _ op => op.toList

def Valid : Segment → Prop
  | argument _ => True
  | redirection tokens op => Recognised u tokens op

theorem cleaned_sublist (segment : Segment) : segment.cleaned.Sublist segment.tokens := by
  cases segment with
  | argument tok => exact List.Sublist.refl _
  | redirection tokens op => exact List.nil_sublist _

end Segment

/-- Every token is an argument or belongs to one redirection. -/
structure Accounted (arguments cleaned : List String) (ops : List RedirOp) : Prop where
  segments : ∃ segments : List Segment, segments.flatMap Segment.tokens = arguments ∧
    segments.flatMap Segment.cleaned = cleaned ∧ segments.flatMap Segment.ops = ops ∧
    ∀ segment ∈ segments, segment.Valid u
  sublist : cleaned.Sublist arguments
  plain : (∀ tok ∈ arguments, '<' ∉ tok.toList ∧ '>' ∉ tok.toList) → cleaned = arguments ∧ ops = []

/-! ## One token -/

theorem eq_of_operatorOf {text rest : List Char} {op : Operator} (h : operatorOf text = some (op, rest)) :
    text = op.text ++ rest := by
  unfold operatorOf at h
  split at h <;> cases h <;> rfl

section Token

variable {u}

theorem spells_of_extract {tok inlineTarget : String} {fd : Option Nat} {op : Operator}
    (h : extractRedirOp u tok = .ok (some (op, fd, inlineTarget))) : Spells u tok fd op inlineTarget := by
  unfold extractRedirOp at h
  simp only at h
  generalize hfd : tok.toList.takeWhile (fun c => (u.decimal c).isSome) = fdText at h
  have hsplit : tok.toList = fdText ++ tok.toList.drop fdText.length := by
    obtain ⟨more, hmore⟩ := List.takeWhile_prefix (l := tok.toList) (fun c => (u.decimal c).isSome)
    rw [hfd] at hmore
    rw [← hmore, List.drop_left]
  split at h
  · cases h
  · rename_i op' rest hop
    split at h
    · cases h
    · rename_i inline hline
      rw [eq_of_operatorOf hop] at hsplit
      split_ifs at h with hnil
      · obtain ⟨rfl, rfl, rfl⟩ := by simpa using h
        exact ⟨fdText, rest, hsplit, .inl ⟨hnil, rfl⟩, hline⟩
      · cases hint : intOf u fdText with
        | error e =>
          rw [hint] at h
          cases h
        | ok n =>
          rw [hint] at h
          obtain ⟨rfl, rfl, rfl⟩ := by simpa using Except.ok.inj h
          exact ⟨fdText, rest, hsplit, .inr ⟨n, hint, rfl⟩, hline⟩

/-- What the loop makes of an operator: the token stays, or a redirection is taken out. -/
theorem applied_cases {tok inlineTarget : String} {fd : Option Nat} {op : Operator}
    {next : Option String} {applied : Applied}
    (hop : extractRedirOp u tok = .ok (some (op, fd, inlineTarget)))
    (h : applyRedirection u op fd inlineTarget next tok = .ok applied) :
    applied = { cleaned := [tok] } ∨
    (∃ r, Recognised u [tok] r ∧ applied = { ops := r.toList, consumed := 1 }) ∨
    (∃ target r, next = some target ∧ Recognised u [tok, target] r ∧
      applied = { ops := r.toList, consumed := 2 }) := by
  have hspells := spells_of_extract hop
  -- a target with its operation is either inline or the next token
  have htaken : ∀ target r, (if inlineTarget = "" then next else some inlineTarget) = some target →
      Stands u fd op target r →
      applied = { ops := r.toList, consumed := if inlineTarget = "" then 2 else 1 } →
      (∃ r, Recognised u [tok] r ∧ applied = { ops := r.toList, consumed := 1 }) ∨
      (∃ target r, next = some target ∧ Recognised u [tok, target] r ∧
        applied = { ops := r.toList, consumed := 2 }) := by
    intro target r htarget hstands happlied
    by_cases hinline : inlineTarget = ""
    · subst hinline
      exact .inr ⟨target, r, htarget, .separate hspells hstands, happlied⟩
    · rw [if_neg hinline] at htarget happlied
      obtain rfl := Option.some.inj htarget
      exact .inl ⟨r, .inline hspells hinline hstands, happlied⟩
  unfold applyRedirection at h
  simp only at h
  cases htarget : (if inlineTarget = "" then next else some inlineTarget) with
  | none =>
    rw [htarget] at h
    exact .inl (Except.ok.inj h).symm
  | some target =>
    rw [htarget] at h
    cases op with
    | output => exact .inr (htaken target _ htarget (.output target) (Except.ok.inj h).symm)
    | append => exact .inr (htaken target _ htarget (.append target) (Except.ok.inj h).symm)
    | input => exact .inr (htaken target _ htarget (.input target) (Except.ok.inj h).symm)
    | dup =>
      simp only at h
      by_cases hdash : target = "-"
      · subst hdash
        rw [if_pos rfl] at h
        exact .inr (htaken "-" none htarget .close (Except.ok.inj h).symm)
      rw [if_neg hdash] at h
      by_cases hdigits : isDigits u target = true
      · rw [if_pos hdigits] at h
        cases hint : intOf u target.toList with
        | error e =>
          rw [hint] at h
          cases h
        | ok n =>
          rw [hint] at h
          exact .inr (htaken target _ htarget (.dup hdigits hint) (Except.ok.inj h).symm)
      · rw [if_neg hdigits] at h
        exact .inl (Except.ok.inj h).symm

/-! ## The loop -/

/-- One round: the tokens begin with a segment, and the loop goes on behind it. -/
theorem parse_round {tok : String} {rest : List String} {r : List String × List RedirOp}
    (h : parseFrom u 0 (tok :: rest) = .ok r) :
    ∃ (segment : Segment) (left : List String) (r' : List String × List RedirOp),
      segment.Valid u ∧ segment.tokens ≠ [] ∧ tok :: rest = segment.tokens ++ left ∧
      parseFrom u 0 left = .ok r' ∧ r = (segment.cleaned ++ r'.1, segment.ops ++ r'.2) := by
  unfold parseFrom at h
  cases hop : extractRedirOp u tok with
  | error e =>
    rw [hop] at h
    cases h
  | ok found =>
    rw [hop] at h
    rcases found with - | ⟨op, fd, inlineTarget⟩
    · obtain ⟨r', hrest, heq⟩ := parseFrom_map_ok h
      exact ⟨.argument tok, rest, r', trivial, List.cons_ne_nil _ _, rfl, hrest, heq.symm⟩
    simp only at h
    cases happly : applyRedirection u op fd inlineTarget rest.head? tok with
    | error e =>
      rw [happly] at h
      cases h
    | ok applied =>
      rw [happly] at h
      obtain ⟨r', hrest, heq⟩ := parseFrom_map_ok h
      rcases applied_cases hop happly with rfl | ⟨op, hrec, rfl⟩ | ⟨target, op, hnext, hrec, rfl⟩
      · exact ⟨.argument tok, rest, r', trivial, List.cons_ne_nil _ _, rfl, hrest, heq.symm⟩
      · exact ⟨.redirection [tok] op, rest, r', hrec, List.cons_ne_nil _ _, rfl, hrest, heq.symm⟩
      · obtain ⟨left, rfl⟩ := List.head?_eq_some_iff.mp hnext
        have hleft : parseFrom u 1 (target :: left) = parseFrom u 0 left := by rw [parseFrom]
        exact ⟨.redirection [tok, target] op, left, r', hrec, List.cons_ne_nil _ _, rfl,
          hleft.symm.trans hrest, heq.symm⟩

/-- The whole command line is segments. -/
theorem segments_of_parse {arguments : List String} {r : List String × List RedirOp}
    (h : parseFrom u 0 arguments = .ok r) :
    ∃ segments : List Segment, segments.flatMap Segment.tokens = arguments ∧
      segments.flatMap Segment.cleaned = r.1 ∧ segments.flatMap Segment.ops = r.2 ∧
      ∀ segment ∈ segments, segment.Valid u := by
  induction hlen : arguments.length using Nat.strongRecOn generalizing arguments r with
  | ind n ih =>
    cases arguments with
    | nil =>
      obtain rfl := Except.ok.inj h
      exact ⟨[], rfl, rfl, rfl, fun _ hmem => absurd hmem List.not_mem_nil⟩
    | cons tok rest =>
      obtain ⟨segment, left, r', hvalid, hne, hsplit, hleft, rfl⟩ := parse_round h
      have hshort : left.length < n := by
        have hlength := congrArg List.length hsplit
        rw [List.length_append] at hlength
        have hpos := List.length_pos_of_ne_nil hne
        omega
      obtain ⟨segments, htokens, hcleaned, hops, hall⟩ := ih left.length hshort hleft rfl
      refine ⟨segment :: segments, ?_, ?_, ?_, List.forall_mem_cons.mpr ⟨hvalid, hall⟩⟩
      · rw [List.flatMap_cons, htokens, hsplit]
      · rw [List.flatMap_cons, hcleaned]
      · rw [List.flatMap_cons, hops]

theorem cleaned_sublist (segments : List Segment) :
    (segments.flatMap Segment.cleaned).Sublist (segments.flatMap Segment.tokens) := by
  induction segments with
  | nil => exact List.Sublist.refl _
  | cons segment segments ih => exact segment.cleaned_sublist.append ih

theorem unredirected_of_plain {arguments : List String}
    (h : ∀ tok ∈ arguments, '<' ∉ tok.toList ∧ '>' ∉ tok.toList) : Unredirected u arguments := by
  induction arguments with
  | nil => trivial
  | cons tok rest ih =>
    obtain ⟨htok, hrest⟩ := List.forall_mem_cons.mp h
    exact ⟨not_redirects_of_plain htok _, ih hrest⟩

/-- **Whenever the parser returns**, it has accounted for every token. -/
theorem accounted_of_parse {arguments cleaned : List String} {ops : List RedirOp}
    (h : parseRedirections u arguments = .ok (cleaned, ops)) : Accounted u arguments cleaned ops := by
  obtain ⟨segments, htokens, hcleaned, hops, hall⟩ := segments_of_parse h
  refine ⟨⟨segments, htokens, hcleaned, hops, hall⟩, ?_, fun hplain => ?_⟩
  · have hsub := cleaned_sublist segments
    rwa [htokens, hcleaned] at hsub
  · have hsame := parseFrom_unredirected (u := u) (unredirected_of_plain hplain)
    exact Prod.mk.inj (Except.ok.inj (h.symm.trans hsame))

end Token

/-! ## When a token raises -/

/-- A text that `int` converts. -/
def Convertible (text : List Char) : Prop :=
  text ≠ [] ∧ (∀ c ∈ text, (u.decimal c).isSome) ∧ text.length ≤ intMaxStrDigits

/-- The text of the descriptor, the operator and the inline target of a token. -/
def shape (tok : String) : Option (List Char × Operator × String) :=
  let fdText := tok.toList.takeWhile fun c => (u.decimal c).isSome
  match operatorOf (tok.toList.drop fdText.length) with
  | none => none
  | some (op, rest) => (restOfLine rest).map fun inlineTarget => (fdText, op, inlineTarget)

/-- The target of an operator, if there is one that it takes. -/
def takenTarget (op : Operator) (inlineTarget : String) (next : Option String) : Option String :=
  (if inlineTarget = "" then next else some inlineTarget).filter fun target =>
    op ≠ .dup || target == "-" || isDigits u target

/-- How many tokens the loop takes at once. -/
def width (tok : String) (next : Option String) : Nat :=
  match shape u tok with
  | none => 1
  | some (_, op, inlineTarget) =>
    if inlineTarget = "" ∧ (takenTarget u op inlineTarget next).isSome then 2 else 1

/-- The tokens at which the loop arrives, each with the one after it. -/
def arrivals : Nat → List String → List (String × Option String)
  | _, [] => []
  | skip + 1, _ :: rest => arrivals skip rest
  | 0, tok :: rest => (tok, rest.head?) :: arrivals (width u tok rest.head? - 1) rest

/-- The descriptor that `>&` duplicates is no number for `int`. -/
def Unreadable (op : Operator) (inlineTarget : String) (next : Option String) : Prop :=
  op = .dup ∧ ∃ target, takenTarget u op inlineTarget next = some target ∧ target ≠ "-" ∧
    ¬ Convertible u target.toList

/-- `int` fails on the descriptor, or on what `>&` duplicates. -/
def Raises (tok : String) (next : Option String) : Prop :=
  match shape u tok with
  | none => False
  | some (fdText, op, inlineTarget) =>
    fdText ≠ [] ∧ ¬ Convertible u fdText ∨ Unreadable u op inlineTarget next

section Raises

variable {u}

theorem map_ok_iff {α β : Type} {r : Except PyError α} {f : α → β} :
    (∃ b, r.map f = .ok b) ↔ ∃ a, r = .ok a := by
  cases r with
  | error e => exact iff_of_false (fun ⟨b, hb⟩ => by cases hb) fun ⟨a, ha⟩ => by cases ha
  | ok a => exact iff_of_true ⟨f a, rfl⟩ ⟨a, rfl⟩

theorem foldlM_decimal_isSome (text : List Char) (n : Nat) :
    (∃ m, text.foldlM (fun n c => (u.decimal c).map (10 * n + ·)) n = some m) ↔
      ∀ c ∈ text, (u.decimal c).isSome := by
  induction text generalizing n with
  | nil => exact iff_of_true ⟨n, rfl⟩ fun c hc => absurd hc List.not_mem_nil
  | cons c text ih =>
    rw [List.foldlM_cons, List.forall_mem_cons]
    cases hc : u.decimal c with
    | none =>
      refine iff_of_false ?_ fun h => ?_
      · rintro ⟨m, hm⟩
        cases hm
      · cases h.1
    | some d => exact (ih (10 * n + d)).trans (and_iff_right rfl).symm

theorem intOf_ok_iff {text : List Char} : (∃ n, intOf u text = .ok n) ↔ Convertible u text := by
  have hfold := foldlM_decimal_isSome (u := u) text 0
  unfold intOf Convertible
  cases hvalue : text.foldlM (fun n c => (u.decimal c).map (10 * n + ·)) 0 with
  | none =>
    refine iff_of_false ?_ fun h => ?_
    · rintro ⟨n, hn⟩
      cases hn
    · obtain ⟨m, hm⟩ := hfold.mpr h.2.1
      rw [hvalue] at hm
      cases hm
  | some n =>
    have hdecimal := hfold.mp ⟨n, hvalue⟩
    simp only
    split_ifs with hnil hlong
    · exact iff_of_false (fun ⟨m, hm⟩ => by cases hm) fun h => h.1 hnil
    · exact iff_of_false (fun ⟨m, hm⟩ => by cases hm) fun h => absurd h.2.2 (by omega)
    · exact iff_of_true ⟨n, rfl⟩ ⟨hnil, hdecimal, by omega⟩

theorem extractRedirOp_eq (tok : String) :
    extractRedirOp u tok =
      match shape u tok with
      | none => .ok none
      | some (fdText, op, inlineTarget) =>
        if fdText = [] then .ok (some (op, none, inlineTarget))
        else (intOf u fdText).map fun fd => some (op, some fd, inlineTarget) := by
  unfold extractRedirOp shape
  simp only
  cases operatorOf (tok.toList.drop (tok.toList.takeWhile fun c => (u.decimal c).isSome).length) with
  | none => rfl
  | some found =>
    obtain ⟨op, rest⟩ := found
    simp only
    cases restOfLine rest with
    | none => rfl
    | some inlineTarget => rfl

/-- What `_apply_redirection` does, by the target it takes. -/
theorem applyRedirection_eq (op : Operator) (fd : Option Nat) (inlineTarget tok : String)
    (next : Option String) :
    (takenTarget u op inlineTarget next = none ∧
      applyRedirection u op fd inlineTarget next tok = .ok { cleaned := [tok] }) ∨
    ∃ target, takenTarget u op inlineTarget next = some target ∧
      if op = .dup ∧ target ≠ "-" then
        applyRedirection u op fd inlineTarget next tok = (intOf u target.toList).map fun n =>
          { ops := [.dup (fd.getD 1) n], consumed := if inlineTarget = "" then 2 else 1 }
      else ∃ ops, applyRedirection u op fd inlineTarget next tok =
        .ok { ops := ops, consumed := if inlineTarget = "" then 2 else 1 } := by
  unfold takenTarget applyRedirection
  simp only
  cases (if inlineTarget = "" then next else some inlineTarget) with
  | none => exact .inl ⟨rfl, rfl⟩
  | some target =>
    cases op with
    | append => exact .inr ⟨target, rfl, ⟨_, rfl⟩⟩
    | output => exact .inr ⟨target, rfl, ⟨_, rfl⟩⟩
    | input => exact .inr ⟨target, rfl, ⟨_, rfl⟩⟩
    | dup =>
      by_cases hdash : target = "-"
      · subst hdash
        exact .inr ⟨"-", rfl, [], rfl⟩
      by_cases hdigits : isDigits u target = true
      · refine .inr ⟨target, by simp [Option.filter, hdigits], ?_⟩
        rw [if_pos ⟨rfl, hdash⟩]
        simp [hdash, hdigits]
      · refine .inl ⟨by simp [Option.filter, hdash, hdigits], ?_⟩
        simp [hdash, hdigits]

theorem applyRedirection_ok_iff (op : Operator) (fd : Option Nat) (inlineTarget tok : String)
    (next : Option String) :
    (∃ applied, applyRedirection u op fd inlineTarget next tok = .ok applied) ↔
      ¬ Unreadable u op inlineTarget next := by
  unfold Unreadable
  rcases applyRedirection_eq op fd inlineTarget tok next with ⟨hnone, happly⟩ | ⟨target, hsome, happly⟩
  · refine iff_of_true ⟨_, happly⟩ ?_
    rintro ⟨-, target, htarget, -⟩
    rw [hnone] at htarget
    cases htarget
  by_cases hdup : op = .dup ∧ target ≠ "-"
  · rw [if_pos hdup] at happly
    rw [happly, map_ok_iff, intOf_ok_iff]
    constructor
    · rintro hconv ⟨-, target', htarget', -, hnot⟩
      rw [hsome] at htarget'
      rw [Option.some.inj htarget'] at hconv
      exact hnot hconv
    · intro h
      by_contra hnot
      exact h ⟨hdup.1, target, hsome, hdup.2, hnot⟩
  · rw [if_neg hdup] at happly
    obtain ⟨ops, happly⟩ := happly
    refine iff_of_true ⟨_, happly⟩ ?_
    rintro ⟨hop, target', htarget', hdash, -⟩
    rw [hsome] at htarget'
    rw [← Option.some.inj htarget'] at hdash
    exact hdup ⟨hop, hdash⟩

theorem consumed_eq_width {tok inlineTarget : String} {fdText : List Char} {op : Operator}
    {fd : Option Nat} {next : Option String} {applied : Applied}
    (hshape : shape u tok = some (fdText, op, inlineTarget))
    (h : applyRedirection u op fd inlineTarget next tok = .ok applied) :
    applied.consumed = width u tok next := by
  unfold width
  rw [hshape]
  simp only
  rcases applyRedirection_eq op fd inlineTarget tok next with ⟨hnone, happly⟩ | ⟨target, hsome, happly⟩
  · rw [happly] at h
    rw [hnone, ← Except.ok.inj h]
    simp
  rw [hsome]
  simp only [Option.isSome_some, and_true]
  by_cases hdup : op = .dup ∧ target ≠ "-"
  · rw [if_pos hdup, h] at happly
    cases hint : intOf u target.toList with
    | error e =>
      rw [hint] at happly
      cases happly
    | ok n =>
      rw [hint] at happly
      exact congrArg Applied.consumed (Except.ok.inj happly)
  · rw [if_neg hdup] at happly
    obtain ⟨ops, happly⟩ := happly
    rw [happly] at h
    exact congrArg Applied.consumed (Except.ok.inj h).symm

/-- The loop goes on behind what an operator consumes. -/
theorem parse_operator_ok_iff {tok inlineTarget : String} {fdText : List Char} {op : Operator}
    {fd : Option Nat} (hshape : shape u tok = some (fdText, op, inlineTarget))
    (hextract : extractRedirOp u tok = .ok (some (op, fd, inlineTarget))) (rest : List String) :
    (∃ r, parseFrom u 0 (tok :: rest) = .ok r) ↔
      ¬ Unreadable u op inlineTarget rest.head? ∧
        ∃ r, parseFrom u (width u tok rest.head? - 1) rest = .ok r := by
  rw [parseFrom, hextract, ← applyRedirection_ok_iff op fd inlineTarget tok rest.head?]
  simp only
  cases happly : applyRedirection u op fd inlineTarget rest.head? tok with
  | error e =>
    refine iff_of_false ?_ ?_
    · rintro ⟨r, hr⟩
      cases hr
    · rintro ⟨⟨a, ha⟩, -⟩
      cases ha
  | ok applied =>
    simp only
    rw [map_ok_iff, consumed_eq_width hshape happly, and_iff_right ⟨applied, rfl⟩]

/-- The first token raises, or the rest decides. -/
theorem parse_cons_ok_iff (tok : String) (rest : List String) :
    (∃ r, parseFrom u 0 (tok :: rest) = .ok r) ↔
      ¬ Raises u tok rest.head? ∧ ∃ r, parseFrom u (width u tok rest.head? - 1) rest = .ok r := by
  have hextract := extractRedirOp_eq (u := u) tok
  unfold Raises
  cases hshape : shape u tok with
  | none =>
    have hwidth : width u tok rest.head? = 1 := by
      unfold width
      rw [hshape]
    rw [hshape] at hextract
    rw [parseFrom, hextract]
    simp only
    rw [map_ok_iff, hwidth, and_iff_right not_false]
  | some found =>
    obtain ⟨fdText, op, inlineTarget⟩ := found
    rw [hshape] at hextract
    simp only at hextract ⊢
    by_cases hnil : fdText = []
    · rw [if_pos hnil] at hextract
      refine (parse_operator_ok_iff hshape hextract rest).trans
        (and_congr_left' (not_congr (or_iff_right ?_).symm))
      exact fun h => h.1 hnil
    rw [if_neg hnil] at hextract
    cases hint : intOf u fdText with
    | error e =>
      have hnot : ¬ Convertible u fdText := by
        rw [← intOf_ok_iff, hint]
        rintro ⟨n, hn⟩
        cases hn
      rw [hint] at hextract
      refine iff_of_false ?_ fun h => h.1 (.inl ⟨hnil, hnot⟩)
      rintro ⟨r, hr⟩
      rw [parseFrom, hextract] at hr
      cases hr
    | ok n =>
      have hconv := intOf_ok_iff.mp ⟨n, hint⟩
      rw [hint] at hextract
      refine (parse_operator_ok_iff hshape hextract rest).trans
        (and_congr_left' (not_congr (or_iff_right ?_).symm))
      exact fun h => h.2 hconv

theorem parse_ok_iff (skip : Nat) (toks : List String) :
    (∃ r, parseFrom u skip toks = .ok r) ↔ ∀ p ∈ arrivals u skip toks, ¬ Raises u p.1 p.2 := by
  induction toks generalizing skip with
  | nil =>
    have hnil : parseFrom u skip [] = .ok ([], []) := by cases skip <;> rfl
    have hnone : arrivals u skip [] = [] := by cases skip <;> rfl
    rw [hnone]
    exact iff_of_true ⟨_, hnil⟩ fun p hp => absurd hp List.not_mem_nil
  | cons tok rest ih =>
    cases skip with
    | succ skip => rw [parseFrom, arrivals, ih]
    | zero => rw [parse_cons_ok_iff, arrivals, List.forall_mem_cons, ih]

end Raises

/-- **Every token is accounted for** exactly if `int` reads the numbers of all redirections at which
the loop arrives. -/
theorem parse_accounted_iff (u : Digits) (arguments : List String) :
    (∃ cleaned ops, parseRedirections u arguments = .ok (cleaned, ops) ∧
        Accounted u arguments cleaned ops) ↔
      ∀ p ∈ arrivals u 0 arguments, ¬ Raises u p.1 p.2 := by
  rw [← parse_ok_iff]
  constructor
  · rintro ⟨cleaned, ops, hparse, -⟩
    exact ⟨_, hparse⟩
  · rintro ⟨⟨cleaned, ops⟩, hparse⟩
    exact ⟨cleaned, ops, hparse, accounted_of_parse hparse⟩

/-- The digits of Latin-1: `str.isdigit` accepts the superscripts, which are no decimal digits. -/
def latin1Digits : Digits where
  decimal := asciiDigits.decimal
  isDigit c := c.isDigit || c == '²' || c == '³' || c == '¹'

/-- `>&²`. -/
theorem superscript_raises :
    ¬ ∃ cleaned ops, parseRedirections latin1Digits [">&²"] = .ok (cleaned, ops) ∧
      Accounted latin1Digits [">&²"] cleaned ops := by
  rintro ⟨cleaned, ops, hparse, -⟩
  have hraise : parseRedirections latin1Digits [">&²"] = .error .valueError := by decide +kernel
  rw [hraise] at hparse
  cases hparse

end Cowrie.Shell
