import Cowrie.Literal
import Cowrie.Text
import Mathlib.Data.List.Sort

/-!
# The merge into the lookup table (`scalpel/scripts/merge_to_lookup.py`)

`merge` is `main`: it reads the keys of the table out of its source text, takes the commands that are new
and always had one output, and writes a line for each of them before the closing brace.

* `scan` is `finditer` of the pattern of `extract_existing_keys`, where `lazyBody` is its group with the
  order in which the engine tries the alternatives. The group is the text between the quotes as it
  stands: nothing is unescaped.
* `closing` is the search for the closing brace.
* `readText` is what reading a file makes of its line ends. `printable` is `str.isprintable` beyond ASCII,
  which `repr` asks.
* `scan_append`, `closing_append`: a text is scanned line by line.
* **`lazyBody_closed`**: of a literal the group is all that is between its quotes.

Left out: the check that the ground truth exists, its JSON, and what is printed.
-/

namespace Cowrie.Scalpel.MergeToLookup

abbrev Str := List Char

/-! ## The ground truth -/

/-- What is read of a record. -/
structure Record where
  cmd : Str
  stdout : Str
  stderr : Str
  rc : Int

def DYNAMIC_SKIP : List Str :=
  ["date", "uptime", "free", "free -m", "free -h", "hostname", "whoami", "id", "w", "who", "users",
    "last -n 10", "ps", "ps aux", "ps -ef", "top", "top -bn1", "ls", "ls -la", "ls ~", "ls -la ~", "env",
    "printenv", "history", "alias", "ss -tulpn", "ss -tnp", "ss -tuln", "ss -tulwn", "netstat -tulpn",
    "netstat -rn", "netstat -an", "pwd", "tail -20 /var/log/auth.log", "tail -20 /var/log/syslog",
    "cat /var/log/dpkg.log", "echo $USER", "echo $HOME", "echo $PATH", "echo $SHELL"].map String.toList

/-- The commands, each once, in the order of their first records. -/
def commands : List Record → List Str
  | [] => []
  | r :: rs => r.cmd :: (commands rs).filter (· != r.cmd)

def recordsOf (records : List Record) (cmd : Str) : List Record := records.filter (·.cmd == cmd)

/-- `load_ground_truth`. -/
def byCmd (records : List Record) : List (Str × List Record) :=
  (commands records).map fun cmd => (cmd, recordsOf records cmd)

def isDeterministic : List Record → Bool
  | [] => true
  | first :: rest =>
    rest.all fun r => r.stdout == first.stdout && r.stderr == first.stderr && r.rc == first.rc

/-- `records[0]["stdout"] + records[0]["stderr"]`. -/
def value (records : List Record) : Str :=
  match records with
  | [] => []
  | r :: _ => r.stdout ++ r.stderr

/-! ## The keys of the table -/

def isQuote (c : Char) : Bool := c == '\'' || c == '"'

/-- `\1:\s`. -/
def closes (q : Char) : Str → Bool
  | c :: d :: w :: _ => c == q && d == ':' && isBlank w
  | _ => false

/-- `((?:\\.|(?!\1).)*?)\1:\s`: the group, and how many characters are taken. The fewest turns come first, and
in a turn the escape. -/
def lazyBody (q : Char) : Str → Option (Str × Nat)
  | [] => none
  | [_] => none
  | c :: d :: s =>
    if closes q (c :: d :: s) then some ([], 3)
    else
      let escape := if c == '\\' && d != '\n' then (lazyBody q s).map fun r => (c :: d :: r.1, r.2 + 2)
        else none
      let single := if c != q && c != '\n' then (lazyBody q (d :: s)).map fun r => (c :: r.1, r.2 + 1)
        else none
      escape.or single

/-- The pattern, at the beginning of a line. -/
def matchAt (s : Str) : Option (Str × Nat) :=
  match s.drop 4 with
  | [] => none
  | q :: rest =>
    if (s.take 4).all isBlank && isQuote q then (lazyBody q rest).map fun r => (r.1, r.2 + 5) else none

/-- The groups of `finditer`; `start` says that a line begins here, and `skip` characters of a match are
left. -/
def scan : Bool → Nat → Str → List Str
  | _, _, [] => []
  | _, skip + 1, c :: s => scan (c == '\n') skip s
  | false, 0, c :: s => scan (c == '\n') 0 s
  | true, 0, c :: s =>
    match matchAt (c :: s) with
    | none => scan (c == '\n') 0 s
    | some r => r.1 :: scan (c == '\n') (r.2 - 1) s

def extractExistingKeys (lookupSrc : Str) : List Str := scan true 0 lookupSrc

/-- `re.search(r"^\}\s*\n", …, re.MULTILINE)`: what is before the match, and the rest. -/
def closing : Bool → Str → Option (Str × Str)
  | _, [] => none
  | start, c :: s =>
    if start && c == '\x7d' && (s.takeWhile isBlank).contains '\n' then some ([], c :: s)
    else (closing (c == '\n') s).map fun r => (c :: r.1, r.2)

/-! ## The merge -/

/-- `read_text`: every end of a line is a line feed. -/
def readText : Str → Str
  | [] => []
  | '\r' :: '\n' :: s => '\n' :: readText s
  | c :: s => (if c == '\r' then '\n' else c) :: readText s

/-- `<=` of strings. -/
def strLe : Str → Str → Bool
  | [], _ => true
  | _ :: _, [] => false
  | c :: s, d :: t => c.toNat < d.toNat || (c == d && strLe s t)

/-- `new_entries`. -/
def newEntries (existing : List Str) (records : List Record) : List (Str × Str) :=
  ((byCmd records).filterMap fun (cmd, rs) =>
    if existing.contains cmd then none
    else if DYNAMIC_SKIP.contains cmd then none
    else if isDeterministic rs then some (cmd, value rs)
    else none).insertionSort fun x y => strLe x.1 y.1

/-- `f"    {c!r}: {v!r},\n"`. -/
def entryText (printable : Char → Bool) (e : Str × Str) : Str :=
  "    ".toList ++ reprOf printable e.1 ++ ": ".toList ++ reprOf printable e.2 ++ ",\n".toList

structure Outcome where
  code : Nat
  source : Str
  added : List (Str × Str)

/-- `main`, from the file that it finds to the file that it leaves. -/
def merge (printable : Char → Bool) (content : Str) (records : List Record) : Outcome :=
  let lookupSrc := readText content
  let entries := newEntries (extractExistingKeys lookupSrc) records
  if entries.isEmpty then { code := 0, source := content, added := [] }
  else
    match closing true lookupSrc with
    | none => { code := 2, source := content, added := [] }
    | some (before, rest) =>
      let addition := entries.flatMap (entryText printable)
      { code := 0, source := before ++ addition ++ rest, added := entries }

/-! ## The scan of a literal -/

section Scan

variable {q c : Char} {raw s u v : Str} {n : Nat}

theorem quote_ne (hq : isQuote q) : q ≠ '\\' ∧ q ≠ '\n' ∧ q ≠ ' ' ∧ q ≠ '\x7d' ∧ q ≠ '#' := by
  unfold isQuote at hq
  rw [Bool.or_eq_true_iff, beq_iff_eq, beq_iff_eq] at hq
  rcases hq with rfl | rfl <;> decide

theorem not_closes (h : c ≠ q) (s : Str) : closes q (c :: s) = false := by
  unfold closes
  split
  · rename_i heq
    obtain ⟨rfl, -⟩ := List.cons.inj heq
    simp [h]
  · rfl

/-- A turn, where the quote is not there. -/
theorem lazyBody_turn (hc : c ≠ q) (hs : s ≠ []) : lazyBody q (c :: s) =
    (if c == '\\' && s.head? != some '\n' then (lazyBody q s.tail).map fun r =>
        (c :: s.headD c :: r.1, r.2 + 2)
      else none).or
    (if c != '\n' then (lazyBody q s).map fun r => (c :: r.1, r.2 + 1) else none) := by
  obtain ⟨d, s, rfl⟩ := List.exists_cons_of_ne_nil hs
  rw [lazyBody, not_closes hc]
  simp [hc]

/-- **Of a literal** the group is what is between its quotes. -/
theorem lazyBody_closed (hq : isQuote q) (h : Closed q raw) (rest : Str) :
    lazyBody q (raw ++ q :: ':' :: ' ' :: rest) = some (raw, raw.length + 3) := by
  induction h with
  | nil =>
    rw [List.nil_append, lazyBody, if_pos (by simp [closes]; rfl)]
    rfl
  | @plain c raw hne hback hline _ ih =>
    rw [List.cons_append, lazyBody_turn hne (by simp), ih]
    simp [hback, hline]
  | @escape c raw hline _ ih =>
    rw [List.cons_append, lazyBody_turn (quote_ne hq).1.symm (by simp)]
    simp only [List.cons_append, List.tail_cons, List.head?_cons, List.headD_cons, ih]
    simp [hline]

/-! ## Line by line -/

/-- A text of whole lines. -/
def Lines (s : Str) : Prop := s = [] ∨ s.getLast? = some '\n'

theorem Lines.tail (h : Lines (c :: s)) (hs : s ≠ []) : Lines s := by
  right
  rcases h with h | h
  · cases h
  · rwa [List.getLast?_cons_of_ne_nil hs] at h

theorem Lines.single (h : Lines [c]) : c = '\n' := by
  rcases h with h | h
  · cases h
  · simpa using h

theorem Lines.append (hu : Lines u) (hv : Lines v) : Lines (u ++ v) := by
  rcases hv with rfl | hv
  · rwa [List.append_nil]
  · right
    rw [List.getLast?_append, hv]
    rfl

theorem lines_concat (s : Str) : Lines (s ++ ['\n']) := .inr List.getLast?_concat

theorem closes_append {d : Char} (hu : Lines (c :: d :: s)) (v : Str) :
    closes q (c :: d :: (s ++ v)) = closes q (c :: d :: s) := by
  cases s with
  | nil =>
    obtain rfl := (hu.tail (by simp)).single
    cases v <;> simp [closes]
  | cons w s => rfl

/-- A literal does not go on behind the end of a line. -/
theorem lazyBody_append (hq : isQuote q) (hu : Lines u) (hne : u ≠ []) (v : Str) :
    lazyBody q (u ++ v) = lazyBody q u := by
  induction u using lazyBody.induct q with
  | case1 => exact absurd rfl hne
  | case2 c =>
    obtain rfl := hu.single
    cases v with
    | nil => rfl
    | cons d v =>
      rw [List.singleton_append, lazyBody_turn (quote_ne hq).2.1.symm (by simp)]
      rfl
  | case3 c d s hcloses =>
    rw [List.cons_append, List.cons_append, lazyBody, lazyBody, closes_append hu, if_pos hcloses,
      if_pos hcloses]
  | case4 c d s hcloses ih₁ ih₂ =>
    have hsingle := ih₂ (hu.tail (by simp)) (by simp)
    rw [List.cons_append] at hsingle
    have hescape : (if c == '\\' && d != '\n' then (lazyBody q (s ++ v)).map fun r => (c :: d :: r.1, r.2 + 2)
        else none) = if c == '\\' && d != '\n' then (lazyBody q s).map fun r => (c :: d :: r.1, r.2 + 2)
        else none := by
      by_cases hs : s = []
      · subst hs
        obtain rfl := (hu.tail (by simp)).single
        simp
      · rw [ih₁ ((hu.tail (by simp)).tail hs) hs]
    rw [List.cons_append, List.cons_append, lazyBody, lazyBody, closes_append hu, if_neg hcloses,
      if_neg hcloses, hescape, hsingle]

theorem lazyBody_le {r : Str × Nat} (h : lazyBody q s = some r) : r.2 ≤ s.length := by
  induction s using lazyBody.induct q generalizing r with
  | case1 => cases h
  | case2 c => cases h
  | case3 c d s hcloses =>
    rw [lazyBody, if_pos hcloses] at h
    obtain rfl := Option.some.inj h
    unfold closes at hcloses
    split at hcloses
    · rename_i heq
      rw [heq]
      simp
    · cases hcloses
  | case4 c d s hcloses ih₁ ih₂ =>
    rw [lazyBody, if_neg hcloses] at h
    rcases Option.or_eq_some_iff.mp h with h | ⟨-, h⟩
    · split_ifs at h
      obtain ⟨r, hr, rfl⟩ := Option.map_eq_some_iff.mp h
      exact Nat.add_le_add_right (ih₁ hr) 2
    · split_ifs at h
      obtain ⟨r, hr, rfl⟩ := Option.map_eq_some_iff.mp h
      exact Nat.add_le_add_right (ih₂ hr) 1

/-- Nothing that begins before `v` is a match with the beginning of `v`. -/
def Solid (v : Str) : Prop := ∀ u, u ≠ [] → u.length ≤ 4 → matchAt (u ++ v) = none

theorem matchAt_drop {rest : Str} (h : s.drop 4 = q :: rest) : matchAt s =
    if (s.take 4).all isBlank && isQuote q then (lazyBody q rest).map fun r => (r.1, r.2 + 5) else none := by
  unfold matchAt
  rw [h]

theorem matchAt_le {r : Str × Nat} (h : matchAt s = some r) : r.2 ≤ s.length := by
  cases hdrop : s.drop 4 with
  | nil =>
    unfold matchAt at h
    rw [hdrop] at h
    cases h
  | cons q rest =>
    have hlength := congrArg List.length hdrop
    rw [List.length_drop, List.length_cons] at hlength
    rw [matchAt_drop hdrop] at h
    split_ifs at h
    obtain ⟨r, hr, rfl⟩ := Option.map_eq_some_iff.mp h
    have hle := lazyBody_le hr
    dsimp only
    omega

theorem matchAt_append (hu : Lines u) (hne : u ≠ []) (hv : Solid v) : matchAt (u ++ v) = matchAt u := by
  by_cases hshort : u.length ≤ 4
  · rw [hv u hne hshort]
    unfold matchAt
    rw [List.drop_eq_nil_of_le hshort]
  · have hlength : 4 < u.length := by omega
    obtain ⟨q, rest, hdrop⟩ := List.exists_cons_of_ne_nil (l := u.drop 4) (by simpa using hlength)
    have htake : (u ++ v).take 4 = u.take 4 := List.take_append_of_le_length hlength.le
    have hdrop' : (u ++ v).drop 4 = q :: (rest ++ v) := by
      rw [List.drop_append_of_le_length hlength.le, hdrop, List.cons_append]
    rw [matchAt_drop hdrop, matchAt_drop hdrop', htake]
    by_cases hcond : ((u.take 4).all isBlank && isQuote q) = true
    · have hq : isQuote q := (Bool.and_eq_true_iff.mp hcond).2
      have hwhole : Lines (q :: rest) := by
        right
        rcases hu with rfl | hu
        · exact absurd rfl hne
        · rw [← hdrop, List.getLast?_drop, if_neg (by omega)]
          exact hu
      have hnil : rest ≠ [] := by
        rintro rfl
        exact absurd hwhole.single (quote_ne hq).2.1
      rw [if_pos hcond, if_pos hcond, lazyBody_append hq (hwhole.tail hnil) hnil v]
    · rw [if_neg hcond, if_neg hcond]

theorem scan_start (c : Char) (s : Str) : scan true 0 (c :: s) =
    match matchAt (c :: s) with
    | none => scan (c == '\n') 0 s
    | some r => r.1 :: scan (c == '\n') (r.2 - 1) s := rfl

/-- **Lines before others** are scanned for themselves. -/
theorem scan_append (hu : Lines u) (hv : Solid v) :
    extractExistingKeys (u ++ v) = extractExistingKeys u ++ extractExistingKeys v := by
  unfold extractExistingKeys
  suffices hall : ∀ start skip, skip ≤ u.length → (u = [] → start = true) →
      scan start skip (u ++ v) = scan start skip u ++ scan true 0 v from
    hall true 0 (Nat.zero_le _) fun _ => rfl
  induction u with
  | nil =>
    intro start skip hskip hstart
    obtain rfl := Nat.le_zero.mp hskip
    rw [hstart rfl]
    rfl
  | cons c u ih =>
    intro start skip hskip _
    have hrest : ∀ k ≤ u.length, scan (c == '\n') k (u ++ v) =
        scan (c == '\n') k u ++ scan true 0 v := by
      intro k hk
      by_cases hnil : u = []
      · subst hnil
        obtain rfl := hu.single
        obtain rfl := Nat.le_zero.mp hk
        rfl
      · exact ih (hu.tail hnil) (c == '\n') k hk fun heq => absurd heq hnil
    rw [List.cons_append]
    cases skip with
    | succ skip => exact hrest skip (Nat.le_of_succ_le_succ hskip)
    | zero =>
      cases start with
      | false => exact hrest 0 (Nat.zero_le _)
      | true =>
        have hsame := matchAt_append hu (by simp) hv
        rw [List.cons_append] at hsame
        rw [scan_start, scan_start, hsame]
        cases hmatch : matchAt (c :: u) with
        | none => exact hrest 0 (Nat.zero_le _)
        | some r =>
          have hlength := matchAt_le hmatch
          rw [List.length_cons] at hlength
          dsimp only
          rw [hrest (r.2 - 1) (by omega), List.cons_append]

/-- The rest of a line has no match. -/
theorem scan_rest (hs : '\n' ∉ s) (start : Bool) (skip : Nat) (h : start = false ∨ 0 < skip) :
    scan start skip (s ++ ['\n']) = [] := by
  induction s generalizing start skip with
  | nil =>
    cases skip with
    | succ skip => rfl
    | zero =>
      rcases h with rfl | h
      · rfl
      · cases h
  | cons c s ih =>
    rw [List.mem_cons, not_or] at hs
    have hc : (c == '\n') = false := by simpa using Ne.symm hs.1
    rw [List.cons_append]
    cases skip with
    | succ skip =>
      unfold scan
      rw [hc]
      exact ih hs.2 false skip (.inl rfl)
    | zero =>
      rcases h with rfl | h
      · unfold scan
        rw [hc]
        exact ih hs.2 false 0 (.inl rfl)
      · cases h

/-! ## The closing brace -/

theorem contains_takeWhile (hu : Lines u) (hne : u ≠ []) (v : Str) :
    ((u ++ v).takeWhile isBlank).contains '\n' = (u.takeWhile isBlank).contains '\n' := by
  induction u with
  | nil => exact absurd rfl hne
  | cons c u ih =>
    rw [List.cons_append]
    by_cases hc : isBlank c
    · rw [List.takeWhile_cons_of_pos hc, List.takeWhile_cons_of_pos hc, List.contains_cons, List.contains_cons]
      by_cases hnil : u = []
      · obtain rfl := (hnil ▸ hu : Lines [c]).single
        rfl
      · rw [ih (hu.tail hnil) hnil]
    · rw [List.takeWhile_cons_of_neg hc, List.takeWhile_cons_of_neg hc]

/-- **Lines without a closing brace** are before it. -/
theorem closing_append (hu : Lines u) (h : closing true u = none) (v : Str) :
    closing true (u ++ v) = (closing true v).map fun r => (u ++ r.1, r.2) := by
  suffices hall : ∀ start, closing start u = none → (u = [] → start = true) →
      closing start (u ++ v) = (closing true v).map fun r => (u ++ r.1, r.2) from
    hall true h fun _ => rfl
  clear h
  induction u with
  | nil =>
    intro start _ hstart
    rw [hstart rfl]
    simp
  | cons c u ih =>
    intro start h _
    unfold closing at h
    have hcond : (start && c == '\x7d' && (u.takeWhile isBlank).contains '\n') = false := by
      by_contra hcond
      rw [Bool.not_eq_false] at hcond
      rw [if_pos hcond] at h
      cases h
    rw [hcond, if_neg (by simp), Option.map_eq_none_iff] at h
    have hcond' : (start && c == '\x7d' && ((u ++ v).takeWhile isBlank).contains '\n') = false := by
      by_cases hnil : u = []
      · obtain rfl := (hnil ▸ hu : Lines [c]).single
        simp
      · rw [contains_takeWhile (hu.tail hnil) hnil, hcond]
    have hstep : closing (c == '\n') (u ++ v) = (closing true v).map fun r => (u ++ r.1, r.2) := by
      by_cases hnil : u = []
      · subst hnil
        obtain rfl := hu.single
        simp
      · exact ih (hu.tail hnil) (c == '\n') h fun heq => absurd heq hnil
    rw [List.cons_append, closing, hcond', if_neg (by simp), hstep, Option.map_map]
    rfl

/-- A line that does not begin with a brace. -/
theorem closing_line (hs : '\n' ∉ s) (hhead : s.head? ≠ some '\x7d') :
    closing true (s ++ ['\n']) = none := by
  have hrest : ∀ s : Str, '\n' ∉ s → closing false (s ++ ['\n']) = none := by
    intro s hs
    induction s with
    | nil => rfl
    | cons c s ih =>
      rw [List.mem_cons, not_or] at hs
      have hc : (c == '\n') = false := by simpa using Ne.symm hs.1
      rw [List.cons_append, closing, hc, ih hs.2]
      rfl
  cases s with
  | nil => rfl
  | cons c s =>
    rw [List.mem_cons, not_or] at hs
    have hc : (c == '\n') = false := by simpa using Ne.symm hs.1
    have hbrace : (c == '\x7d') = false := by simpa using hhead
    rw [List.cons_append, closing, hc, hbrace, hrest s hs.2]
    rfl

end Scan

end Cowrie.Scalpel.MergeToLookup
