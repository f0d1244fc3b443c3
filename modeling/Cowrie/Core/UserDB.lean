import Cowrie.Bytes
import Cowrie.Lib.OrderedDict

/-!
# The user database (`UserDB` of `src/cowrie/core/auth.py`)

The lines of `userdb.txt` are loaded into a dictionary from a login rule and a password rule to a policy, and
`checklogin` returns the policy of the first entry whose rules match. The text is ASCII, so it is kept as its
bytes. `compile` is `re.compile` with or without `re.IGNORECASE` and `search` the search for a compiled expression,
of any type with an equality; `none` is an exception of the constructor.

* `credentials` are the logins and passwords of the lines, `rules` the rules and policies they say, in the order
  of the file. `firstMatch` is what `etc/userdb.example` says of them: processing stops on the first match.
* `Loads` is a file that the constructor takes. `MarksAgree` says of a login that the first line to match it is
  not overruled: a key that comes again keeps its place in the dictionary and takes the new policy.

Results:
* `load_eq_some_iff`: a file that loads gives the dictionary of its rules.
* `checklogin_ofPairs`: the first key that matches is that of the first line that does, with the policy of the
  last line that has this key.
* **`ask_eq_firstMatch_iff`**: the first match decides iff the file loads and the marks agree.
* **`load_contributes_iff`**: the constructor does not fail, and every line enters its rules, iff the file loads.
-/

namespace Cowrie.Core.UserDB

open Lib

/-! ## Reading the file -/

/-- A text file read line by line has one kind of line end. -/
def universalNewlines : Bytes → Bytes
  | 13 :: 10 :: text => 10 :: universalNewlines text
  | 13 :: text => 10 :: universalNewlines text
  | x :: text => x :: universalNewlines text
  | [] => []

/-- `db.readlines()`. -/
def readlines (text : Bytes) : List Bytes :=
  let parts := (universalNewlines text).splitOn 10
  parts.dropLast.map (· ++ [10]) ++ parts.getLast?.toList.filter (· ≠ [])

/-- White space in ASCII. -/
def isSpace (x : UInt8) : Bool := (9 ≤ x && x ≤ 13) || (28 ≤ x && x ≤ 32)

/-- `s.strip()`. -/
def strip (s : Bytes) : Bytes := ((s.dropWhile isSpace).reverse.dropWhile isSpace).reverse

/-- `_USERDB_DEFAULTS`. -/
def defaults : List Bytes :=
  ["root:x:!root", "root:x:!123456", "root:x:!/honeypot/i", "root:x:*", "phil:x:*", "phil:x:fout"].map encode

/-- The lines of the file, or the defaults where it cannot be opened. -/
def dblines : Option Bytes → Option (List Bytes)
  | none => some defaults
  | some text => if text.all (· < 128) then some (readlines text) else none

/-- The login and the password of a line; none for a comment or a line with fewer than three fields. -/
def fields (user : Bytes) : Option (Bytes × Bytes) :=
  if user.head? = some 35 then none
  else match user.splitOn 58 with
    | login :: _ :: password :: _ => some (login, strip password)
    | _ => none

/-- The logins and passwords in the order of the file. -/
def credentials (file : Option Bytes) : List (Bytes × Bytes) := ((dblines file).getD []).filterMap fields

/-! ## Rules -/

inductive Rule (P : Type) where
  | bytes (rule : Bytes)
  | pattern (rule : P)
  deriving DecidableEq

section
variable {P : Type} (compile : Bytes → Bool → Option P) (search : P → Bytes → Bool)

/-- `re_or_bytes`. The expression `/(.+)/(i)?$` is read for a rule without a line end. -/
def reOrBytes (rule : Bytes) : Option (Rule P) :=
  match rule with
  | 47 :: rest =>
    if [47] <:+ rest ∧ 2 ≤ rest.length then (compile rest.dropLast false).map .pattern
    else if [47, 105] <:+ rest ∧ 3 ≤ rest.length then (compile rest.dropLast.dropLast true).map .pattern
    else some (.bytes rule)
  | _ => some (.bytes rule)

/-- `match_rule`. -/
def matchRule (rule : Rule P) (data : Bytes) : Bool :=
  match rule with
  | .bytes rule => rule = [42] ∨ rule = data
  | .pattern rule => search rule data

/-- Whether both rules match. -/
def bothMatch (thelogin thepasswd : Bytes) (rules : Rule P × Rule P) : Bool :=
  matchRule search rules.1 thelogin && matchRule search rules.2 thepasswd

variable [DecidableEq P]

/-- `adduser`. -/
def adduser (login passwd : Bytes) (userdb : OrderedDict (Rule P × Rule P) Bool) :
    Option (OrderedDict (Rule P × Rule P) Bool) := do
  let user ← reOrBytes compile login
  let first ← passwd.head?
  if first = 33 then
    let p ← reOrBytes compile passwd.tail
    return userdb.set (user, p) false
  else
    let p ← reOrBytes compile passwd
    return userdb.set (user, p) true

/-- One line of the loop in `load`. -/
def addLine (userdb : OrderedDict (Rule P × Rule P) Bool) (user : Bytes) :
    Option (OrderedDict (Rule P × Rule P) Bool) :=
  match fields user with
  | some (login, password) => adduser compile login password userdb
  | none => some userdb

/-- `load`. -/
def load (file : Option Bytes) : Option (OrderedDict (Rule P × Rule P) Bool) := do
  let lines ← dblines file
  lines.foldlM (addLine compile) .empty

/-- `checklogin`. -/
def checklogin (userdb : OrderedDict (Rule P × Rule P) Bool) (thelogin thepasswd : Bytes) : Bool :=
  ((userdb.entries.find? fun e => bothMatch search thelogin thepasswd e.1).map Prod.snd).getD false

/-- A database made from the file and asked. -/
def ask (file : Option Bytes) (thelogin thepasswd : Bytes) : Option Bool :=
  (load compile file).map fun userdb => checklogin search userdb thelogin thepasswd

end

/-! ## What the lines say -/

/-- Whether the password is marked with `!`. -/
def marked (password : Bytes) : Bool := password.head? = some 33

/-- The password without its mark. -/
def unmarked (password : Bytes) : Bytes := if marked password then password.tail else password

section
variable {P : Type} (compile : Bytes → Bool → Option P) (search : P → Bytes → Bool)

/-- The two rules of a line and its policy. -/
def lineRules (line : Bytes × Bytes) : Option ((Rule P × Rule P) × Bool) :=
  (reOrBytes compile line.1).bind fun user =>
    (reOrBytes compile (unmarked line.2)).map fun p => ((user, p), !marked line.2)

/-- The rules of the lines in the order of the file. -/
def rules (file : Option Bytes) : List ((Rule P × Rule P) × Bool) :=
  (credentials file).filterMap (lineRules compile)

/-- The policy of the first line that matches. -/
def firstMatch (rules : List ((Rule P × Rule P) × Bool)) (thelogin thepasswd : Bytes) : Bool :=
  ((rules.find? fun e => bothMatch search thelogin thepasswd e.1).map Prod.snd).getD false

/-- The file is ASCII, and every line that counts has a password and expressions that compile. -/
structure Loads (file : Option Bytes) : Prop where
  ascii : ∀ text, file = some text → ∀ x ∈ text, x < 128
  password : ∀ line ∈ credentials file, line.2 ≠ []
  compiles : ∀ line ∈ credentials file,
    (reOrBytes compile line.1).isSome ∧ (reOrBytes compile (unmarked line.2)).isSome

/-- The last line with the rules of the first one that matches has the mark of that one. -/
def MarksAgree [DecidableEq P] (rules : List ((Rule P × Rule P) × Bool)) (thelogin thepasswd : Bytes) : Prop :=
  ∀ first, (rules.find? fun e => bothMatch search thelogin thepasswd e.1) = some first →
    ∀ last, (rules.filter (·.1 = first.1)).getLast? = some last → last.2 = first.2

end

/-! ## Loading -/

section
variable {P : Type} {compile : Bytes → Bool → Option P} {search : P → Bytes → Bool} [DecidableEq P]

omit [DecidableEq P] in
theorem isSome_lineRules {line : Bytes × Bytes} :
    (lineRules compile line).isSome ↔
      (reOrBytes compile line.1).isSome ∧ (reOrBytes compile (unmarked line.2)).isSome := by
  unfold lineRules
  cases reOrBytes compile line.1 <;> cases reOrBytes compile (unmarked line.2) <;> simp

/-- **One line** enters its rules, if it has a password and they compile. -/
theorem adduser_eq (login password : Bytes) (userdb : OrderedDict (Rule P × Rule P) Bool) :
    adduser compile login password userdb =
      if password = [] then none
      else (lineRules compile (login, password)).map fun e => userdb.set e.1 e.2 := by
  unfold adduser lineRules unmarked marked
  cases reOrBytes compile login with
  | none => split_ifs <;> rfl
  | some user =>
    cases password with
    | nil => rfl
    | cons first passwd =>
      by_cases hfirst : first = 33
      · cases hrule : reOrBytes compile passwd <;> simp [hfirst, hrule]
      · cases hrule : reOrBytes compile (first :: passwd) <;> simp [hfirst, hrule]

/-- **The lines in turn**: the dictionary of the rules so far, as long as every line has its password and they
compile. -/
theorem foldlM_addLine (pairs : List ((Rule P × Rule P) × Bool)) (lines : List Bytes) :
    lines.foldlM (addLine compile) (.ofPairs pairs) =
      if ∀ line ∈ lines.filterMap fields, line.2 ≠ [] ∧ (lineRules compile line).isSome then
        some (.ofPairs (pairs ++ (lines.filterMap fields).filterMap (lineRules compile)))
      else none := by
  induction lines generalizing pairs with
  | nil => simp
  | cons line lines ih =>
    rw [List.foldlM_cons]
    cases hfields : fields line with
    | none =>
      have hline : addLine compile (.ofPairs pairs) line = some (.ofPairs pairs) := by
        unfold addLine
        rw [hfields]
      rw [hline, List.filterMap_cons_none hfields]
      exact ih pairs
    | some pair =>
      obtain ⟨login, password⟩ := pair
      have hline : addLine compile (.ofPairs pairs) line =
          if password = [] then none
          else (lineRules compile (login, password)).map fun e => .ofPairs (pairs ++ [e]) := by
        unfold addLine
        rw [hfields]
        simp only [adduser_eq, OrderedDict.ofPairs_concat]
      rw [hline, List.filterMap_cons_some hfields]
      by_cases hpassword : password = []
      · simp [hpassword]
      · cases hrules : lineRules compile (login, password) with
        | none => simp [hpassword, hrules]
        | some e =>
          rw [if_neg hpassword, Option.map_some, Option.bind_eq_bind, Option.bind_some, ih]
          simp only [List.forall_mem_cons, hrules, List.filterMap_cons_some hrules, List.append_assoc]
          simp only [ne_eq, hpassword, not_false_eq_true, Option.isSome_some, and_self, true_and]
          rfl

theorem isSome_dblines {file : Option Bytes} :
    (dblines file).isSome ↔ ∀ text, file = some text → ∀ x ∈ text, x < 128 := by
  cases file with
  | none => simp [dblines]
  | some text =>
    have hall : (text.all (· < 128) = true) ↔ ∀ x ∈ text, x < 128 := by simp
    have hone : (∀ other, some text = some other → ∀ x ∈ other, x < 128) ↔ ∀ x ∈ text, x < 128 := by simp
    rw [hone, ← hall]
    change (if text.all (· < 128) then some (readlines text) else none).isSome ↔ _
    split_ifs with hascii <;> simp [hascii]

/-- A file that loads gives the dictionary of its rules. -/
theorem load_eq_some_iff {file : Option Bytes} {userdb : OrderedDict (Rule P × Rule P) Bool} :
    load compile file = some userdb ↔ Loads compile file ∧ userdb = .ofPairs (rules compile file) := by
  have hloads : Loads compile file ↔ (dblines file).isSome ∧
      ∀ line ∈ credentials file, line.2 ≠ [] ∧ (lineRules compile line).isSome := by
    constructor
    · intro h
      exact ⟨isSome_dblines.mpr h.ascii,
        fun line hline => ⟨h.password line hline, isSome_lineRules.mpr (h.compiles line hline)⟩⟩
    · intro h
      exact ⟨isSome_dblines.mp h.1, fun line hline => (h.2 line hline).1,
        fun line hline => isSome_lineRules.mp (h.2 line hline).2⟩
  rw [hloads]
  unfold load credentials rules credentials
  cases dblines file with
  | none => simp
  | some lines =>
    simp only [Option.bind_eq_bind, Option.bind_some, Option.getD_some, Option.isSome_some, true_and]
    change lines.foldlM (addLine compile) (.ofPairs []) = some userdb ↔ _
    rw [foldlM_addLine, List.nil_append]
    by_cases hall : ∀ line ∈ lines.filterMap fields, line.2 ≠ [] ∧ (lineRules compile line).isSome
    · rw [if_pos hall, Option.some.injEq, eq_comm]
      exact (and_iff_right hall).symm
    · rw [if_neg hall]
      exact iff_of_false (by simp) fun h => hall h.1

/-! ## Asking -/

/-- The first key that matches is that of the first line that does, and the last line with it gives the policy. -/
theorem checklogin_ofPairs (pairs : List ((Rule P × Rule P) × Bool)) (thelogin thepasswd : Bytes) :
    checklogin search (.ofPairs pairs) thelogin thepasswd =
      ((pairs.find? fun e => bothMatch search thelogin thepasswd e.1).bind fun first =>
        (pairs.filter (·.1 = first.1)).getLast?.map Prod.snd).getD false := by
  unfold checklogin
  rw [OrderedDict.find?_entries (bothMatch search thelogin thepasswd), OrderedDict.find?_keys_ofPairs,
    List.find?_map, Option.bind_map]
  simp only [Function.comp_def, OrderedDict.get?_ofPairs]

/-- **The first line decides** iff the last one with the same rules agrees with it. -/
theorem checklogin_eq_firstMatch_iff {pairs : List ((Rule P × Rule P) × Bool)} {thelogin thepasswd : Bytes} :
    checklogin search (.ofPairs pairs) thelogin thepasswd = firstMatch search pairs thelogin thepasswd ↔
      MarksAgree search pairs thelogin thepasswd := by
  rw [checklogin_ofPairs]
  unfold firstMatch MarksAgree
  cases hfind : pairs.find? fun e => bothMatch search thelogin thepasswd e.1 with
  | none => simp
  | some first =>
    have hmem : first ∈ pairs.filter (·.1 = first.1) :=
      List.mem_filter.mpr ⟨List.mem_of_find?_eq_some hfind, decide_eq_true rfl⟩
    cases hlast : (pairs.filter (·.1 = first.1)).getLast? with
    | none => exact absurd (List.getLast?_eq_none_iff.mp hlast ▸ hmem) List.not_mem_nil
    | some last =>
      simp only [Option.bind_some, hlast, Option.map_some, Option.getD_some, Option.some.injEq, forall_eq']

/-- **The first match decides** iff the file loads and no later line with the same rules overrules it. -/
theorem ask_eq_firstMatch_iff (file : Option Bytes) (thelogin thepasswd : Bytes) :
    ask compile search file thelogin thepasswd =
        some (firstMatch search (rules compile file) thelogin thepasswd) ↔
      Loads compile file ∧ MarksAgree search (rules compile file) thelogin thepasswd := by
  unfold ask
  rw [Option.map_eq_some_iff]
  constructor
  · rintro ⟨userdb, hload, hcheck⟩
    obtain ⟨hloads, rfl⟩ := load_eq_some_iff.mp hload
    exact ⟨hloads, checklogin_eq_firstMatch_iff.mp hcheck⟩
  · rintro ⟨hloads, hagree⟩
    exact ⟨_, load_eq_some_iff.mpr ⟨hloads, rfl⟩, checklogin_eq_firstMatch_iff.mpr hagree⟩

end

/-- A login that is allowed first and denied later is denied. -/
theorem deny_overrules_allow :
    let file := some (encode "root:x:a\nroot:x:!a\n")
    let compile : Bytes → Bool → Option Bytes := fun rule _ => some rule
    let search : Bytes → Bytes → Bool := Bytes.contains
    ask compile search file (encode "root") (encode "a") = some false ∧
      firstMatch search (rules compile file) (encode "root") (encode "a") = true := by
  decide +kernel

/-! ## Every line counts -/

section
variable {P : Type} {compile : Bytes → Bool → Option P} [DecidableEq P]

/-- The rules of the line are a key, with the policy of the line where no line after it has the same rules. -/
def Contributes (compile : Bytes → Bool → Option P) (userdb : OrderedDict (Rule P × Rule P) Bool)
    (line : Bytes × Bytes) (after : List (Bytes × Bytes)) : Prop :=
  ∃ e policy, lineRules compile line = some e ∧ userdb.get? e.1 = some policy ∧
    ((∀ later ∈ after, ∀ e', lineRules compile later = some e' → e'.1 ≠ e.1) → policy = e.2)

/-- Each line of a list contributes to the dictionary of their rules. -/
theorem contributes_ofPairs {before after : List (Bytes × Bytes)} {line : Bytes × Bytes}
    {e : (Rule P × Rule P) × Bool} (hrules : lineRules compile line = some e) :
    Contributes compile (.ofPairs ((before ++ line :: after).filterMap (lineRules compile))) line after := by
  have hsplit : ((before ++ line :: after).filterMap (lineRules compile)).filter (·.1 = e.1) =
      (before.filterMap (lineRules compile)).filter (·.1 = e.1) ++
        e :: (after.filterMap (lineRules compile)).filter (·.1 = e.1) := by
    rw [List.filterMap_append, List.filterMap_cons_some hrules, List.filter_append,
      List.filter_cons_of_pos (by simp)]
  have hget := OrderedDict.get?_ofPairs ((before ++ line :: after).filterMap (lineRules compile)) e.1
  rw [hsplit, List.getLast?_append_cons] at hget
  cases hlater : (after.filterMap (lineRules compile)).filter (·.1 = e.1) with
  | nil =>
    rw [hlater] at hget
    exact ⟨e, e.2, hrules, hget, fun _ => rfl⟩
  | cons first rest =>
    -- a later line has the same rules
    rw [hlater, List.getLast?_cons_cons] at hget
    have hfirst : first ∈ (after.filterMap (lineRules compile)).filter (·.1 = e.1) := by
      rw [hlater]
      exact List.mem_cons_self
    obtain ⟨hmem, hsame⟩ := List.mem_filter.mp hfirst
    obtain ⟨later, hin, hsome⟩ := List.mem_filterMap.mp hmem
    cases hlast : (first :: rest).getLast? with
    | none => exact absurd (List.getLast?_eq_none_iff.mp hlast) (List.cons_ne_nil first rest)
    | some last =>
      rw [hlast] at hget
      exact ⟨e, last.2, hrules, hget, fun hnone => absurd (of_decide_eq_true hsame) (hnone later hin first hsome)⟩

/-- **Loading does not fail and skips nothing** iff every line that counts has a password, and its expressions
compile. -/
theorem load_contributes_iff (file : Option Bytes) :
    (∃ userdb, load compile file = some userdb ∧
        ∀ before line after, credentials file = before ++ line :: after → line.2 ≠ [] →
          Contributes compile userdb line after) ↔
      Loads compile file := by
  constructor
  · rintro ⟨userdb, hload, -⟩
    exact (load_eq_some_iff.mp hload).1
  · intro hloads
    refine ⟨_, load_eq_some_iff.mpr ⟨hloads, rfl⟩, fun before line after hsplit _ => ?_⟩
    have hmem : line ∈ credentials file := by
      rw [hsplit]
      exact List.mem_append_right before List.mem_cons_self
    obtain ⟨e, he⟩ := Option.isSome_iff_exists.mp (isSome_lineRules.mpr (hloads.compiles line hmem))
    unfold rules
    rw [hsplit]
    exact contributes_ofPairs he

end

/-- An empty password ends the constructor with an `IndexError`, and so does an expression that does not compile,
with its own; the other lines of the file are lost with it. -/
theorem load_fails :
    let compile : Bytes → Bool → Option Bytes := fun rule _ => if rule = encode "(" then none else some rule
    load compile (some (encode "root:x:\nphil:x:fout\n")) = none ∧
      load compile (some (encode "root:x:/(/\nphil:x:fout\n")) = none := by
  decide +kernel

end Cowrie.Core.UserDB
