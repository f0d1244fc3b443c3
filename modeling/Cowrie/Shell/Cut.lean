import Cowrie.Lib.Interval
import Cowrie.Lib.SplitText
import Cowrie.Shell.Filter
import Cowrie.Text

/-!
# `cut` (`src/cowrie/commands/cut.py`)

`cut` reads its list of fields with `int`, and takes the slices of the fields in the order of the list.

* `pyInt` is `int` for any text: blanks around it, a sign, underscores between digits, at most 4300 digits.
* `parseFieldSpec` and `selectFields` are the methods of these names; `cutStart` is `start`.
* `fieldList` reads a valid list: its parts are `N`, `N-M` with `N ≤ M`, `N-` and `-M`, of numbers from one on.
  `expectedFields` are the fields that one of them covers, in the order of the line.
* A line is the text that `decode("utf-8", errors="replace")` gives.
* **`cut_follows_set_iff`**: for the lines with as many fields as a given one, `cut` does that exactly if the
  delimiter is not empty, the list is valid, its numbers are short enough, and its parts are disjoint and increasing.
-/

namespace Cowrie.Shell.Filter

open Cowrie.Lib Cowrie.Lib.Getopt Fs Heap HoneyPotFilesystem Redirect

/-! ## The command -/

def CUT_HELP : String :=
  "Usage: cut OPTION... [FILE]...\n" ++
  "Print selected parts of lines from each FILE to standard output.\n" ++
  "\n" ++
  "With no FILE, or when FILE is -, read standard input.\n" ++
  "\n" ++
  "Mandatory arguments to long options are mandatory for short options too.\n" ++
  "  -b, --bytes=LIST        select only these bytes\n" ++
  "  -c, --characters=LIST   select only these characters\n" ++
  "  -d, --delimiter=DELIM   use DELIM instead of TAB for field delimiter\n" ++
  "  -f, --fields=LIST       select only these fields;  also print any line\n" ++
  "                            that contains no delimiter character, unless\n" ++
  "                            the -s option is specified\n" ++
  "  -s, --only-delimited    do not print lines not containing delimiters\n" ++
  "      --help     display this help and exit\n" ++
  "      --version  output version information and exit\n" ++
  "\n" ++
  "Use one, and only one of -b, -c or -f.  Each LIST is made up of one\n" ++
  "range, or many ranges separated by commas.\n" ++
  "\n" ++
  "Each range is one of:\n" ++
  "  N     N'th byte, character or field, counted from 1\n" ++
  "  N-    from N'th byte, character or field, to end of line\n" ++
  "  N-M   from N'th to M'th (included) byte, character or field\n" ++
  "  -M    from first to M'th (included) byte, character or field\n" ++
  "\n" ++
  "GNU coreutils online help: <http://www.gnu.org/software/coreutils/>\n" ++
  "Full documentation at: <http://www.gnu.org/software/coreutils/cut>\n" ++
  "or available locally via: info '(coreutils) cut invocation'\n"

/-- Digits, with single underscores between them. -/
def magnitude (u : Digits) (text : Str) : Option Nat :=
  if (text.splitOn '_').any (· = []) then none
  else
    let digits := text.filter (· ≠ '_')
    if intMaxStrDigits < digits.length then none
    else digits.foldlM (fun n c => ((withAscii u).decimal c).map (10 * n + ·)) 0

/-- `int(text)`; none is a `ValueError`. -/
def pyInt (u : Digits) (text : Str) : Option Int :=
  match ((text.dropWhile isBlank).reverse.dropWhile isBlank).reverse with
  | '-' :: digits => (magnitude u digits).map fun n => -(n : Int)
  | '+' :: digits => (magnitude u digits).map fun n => (n : Int)
  | digits => (magnitude u digits).map fun n => (n : Int)

/-- `part.split("-", 1)`, the second only if there is a dash. -/
def splitDash (part : Str) : Str × Option Str :=
  let head := part.takeWhile (· ≠ '-')
  (head, if part.contains '-' then some (part.drop (head.length + 1)) else none)

/-- A turn of the loop of `_parse_field_spec`. -/
def parsePart (u : Digits) (part : Str) : Option (Int × Option Int) :=
  match splitDash part with
  | (startS, some endS) =>
    (if startS ≠ [] then (pyInt u startS).map (· - 1) else some 0).bind fun start =>
      (if endS ≠ [] then (pyInt u endS).map some else some none).map fun stop => (start, stop)
  | (_, none) => (pyInt u part).map fun n => (n - 1, some (n - 1 + 1))

/-- `_parse_field_spec`; none is a `ValueError`. -/
def parseFieldSpec (u : Digits) (spec : Str) : Option (List (Int × Option Int)) :=
  (spec.splitOn ',').mapM (parsePart u)

/-- An index of a slice, counting from the end if it is below zero. -/
def sliceIndex (length : Nat) (i : Int) : Nat := if i < 0 then (i + length).toNat else min i.toNat length

/-- `fields[start:end]`. -/
def slice {β : Type} (fields : List β) (range : Int × Option Int) : List β :=
  (fields.take (range.2.elim fields.length (sliceIndex fields.length))).drop (sliceIndex fields.length range.1)

/-- `_select_fields`. -/
def selectFields {β : Type} (fieldIndices : List (Int × Option Int)) (fields : List β) : List β :=
  fieldIndices.flatMap (slice fields)

/-- The fields of `Command_cut`. -/
structure Cut where
  delimiter : Str := ['\t']
  fieldSpec : Option Str := none
  suppress : Bool := false
  fieldIndices : List (Int × Option Int) := []

/-- The loop over the options; an error is the text that ends the command. -/
def cutOptions : List (OptionName × Str) → Cut → Except Str Cut
  | [], c => .ok c
  | (opt, val) :: optlist, c =>
    if opt = .long "help".toList then .error CUT_HELP.toList
    else if opt = .long "version".toList then .error "cut (GNU coreutils) 8.30\n".toList
    else if opt = .short 'd' ∨ opt = .long "delimiter".toList then cutOptions optlist { c with delimiter := val }
    else if opt = .short 'f' ∨ opt = .long "fields".toList then cutOptions optlist { c with fieldSpec := some val }
    else if opt = .short 's' then cutOptions optlist { c with suppress := true }
    else if opt = .short 'b' ∨ opt = .short 'c' then cutOptions optlist { c with fieldSpec := some val }
    else cutOptions optlist c

/-- A line in `_process`. -/
def cutLine (c : Cut) (line : Bytes) : FilterM Unit Unit :=
  let lineStr := (decodeReplace line).toList
  if ¬ c.delimiter <:+: lineStr then when (c.suppress = false) (writeText (lineStr ++ ['\n']))
  -- "empty separator"
  else if c.delimiter = [] then throw .valueError
  else
    writeText (c.delimiter.intercalate (selectFields c.fieldIndices (splitText c.delimiter lineStr)) ++ ['\n'])

/-- `_process`. -/
def cutProcess (c : Cut) (data : Bytes) : FilterM Unit Unit := (bodyLines data).forM (cutLine c)

/-- One file. -/
def cutFile (c : Cut) (r : Reading) (arg : Str) : FilterM Unit Unit := do
  let pname ← r.resolvePath arg
  tryCatch
    (do
      let contents ← r.fileContents pname
      cutProcess c contents)
    fun _ => errorWrite ("cut: ".toList ++ arg ++ ": No such file or directory\n".toList)

def cutLongopts : List Str := ["help", "version", "delimiter=", "fields="].map String.toList

def cutStart (u : Digits) (r : Reading) (args : List Str) : FilterM Unit Unit :=
  match Getopt.gnuGetopt "d:f:b:c:s".toList cutLongopts args with
  | .error opt => do
    errorWrite ("cut: invalid option -- '".toList ++ opt ++ "'\n".toList)
    errorWrite "Try 'cut --help' for more information.\n".toList
  | .ok (optlist, args) =>
    match cutOptions optlist {} with
    | .error text => writeText text
    | .ok c =>
      match c.fieldSpec with
      | none => do
        errorWrite "cut: you must specify a list of bytes, characters, or fields\n".toList
        errorWrite "Try 'cut --help' for more information.\n".toList
      | some spec =>
        match parseFieldSpec u spec with
        | none => throw .valueError
        | some fieldIndices =>
          let c := { c with fieldIndices }
          if r.noInput then args.forM (cutFile c r) else cutProcess c (r.inputData.getD [])

/-! ## What is asked for -/

/-- A number from one on. -/
def number (text : Str) : Option Nat :=
  if text ≠ [] ∧ text.all Char.isDigit ∧ 0 < Nat.ofDigitChars 10 text 0 then some (Nat.ofDigitChars 10 text 0)
  else none

/-- `N`, `N-M`, `N-` or `-M`. -/
def listPart (part : Str) : Option Interval :=
  match splitDash part with
  | (n, none) => (number n).map fun n => ⟨n, some n⟩
  | ([], some []) => none
  | ([], some m) => (number m).map fun m => ⟨1, some m⟩
  | (n, some []) => (number n).map fun n => ⟨n, none⟩
  | (n, some m) => (number n).bind fun n => (number m).bind fun m => if n ≤ m then some ⟨n, some m⟩ else none

/-- A valid list. -/
def fieldList (spec : Str) : Option (List Interval) := (spec.splitOn ',').mapM listPart

/-- The fields that a part of the list covers, in their order. -/
def expectedFields {β : Type} (parts : List Interval) (fields : List β) : List β :=
  ((fields.zipIdx 1).filter fun e => parts.any (·.covers e.2)).map Prod.fst

/-- The fields of a line; all of it without the delimiter. -/
def fieldsOf (delimiter line : Str) : List Str :=
  if delimiter ≠ [] ∧ delimiter <:+: line then splitText delimiter line else [line]

/-- What is to be printed for a line. -/
def expectedLine (parts : List Interval) (delimiter line : Str) : Str :=
  if delimiter ≠ [] ∧ delimiter <:+: line then delimiter.intercalate (expectedFields parts (splitText delimiter line))
  else line

/-- What is to be printed for a text. -/
def expectedText (parts : List Interval) (delimiter : Str) (contents : Bytes) : Bytes :=
  (bodyLines contents).flatMap fun line =>
    encode (String.ofList (expectedLine parts delimiter (decodeReplace line).toList ++ ['\n']))

/-- The command ends and has written to standard error. -/
def Reports {σ : Type} (m : FilterM σ Unit) (own : σ) : Prop :=
  ∃ s, exec m ⟨own, []⟩ = (.ok (), s) ∧ ∃ data, Write.err data ∈ s.written

/-- `cut -d delimiter -f spec`, with operands. -/
def cutInvocation (delimiter spec : Str) (operands : List Str) : List Str :=
  ['-', 'd'] :: delimiter :: ['-', 'f'] :: spec :: operands

/-- A valid list is followed, another is reported. -/
def FollowsList (u : Digits) (r : Reading) (delimiter spec : Str) (operands : List Str) (contents : Bytes) : Prop :=
  match fieldList spec with
  | some parts =>
    Prints (cutStart u r (cutInvocation delimiter spec operands)) () (expectedText parts delimiter contents)
  | none => Reports (cutStart u r (cutInvocation delimiter spec operands)) ()

variable {u : Digits} {r : Reading} {delimiter spec part text : Str} {operands : List Str} {contents : Bytes}
  {ranges : List (Int × Option Int)} {parts : List Interval} {n : Nat}

/-! ## Reading a list -/

theorem isBlank_of_isDigit {c : Char} (h : c.isDigit = true) : isBlank c = false := by
  have hrange : 48 ≤ c.toNat ∧ c.toNat ≤ 57 := by
    simpa [Char.isDigit, UInt32.le_iff_toNat_le] using h
  obtain ⟨hlow, hhigh⟩ := hrange
  unfold isBlank
  simp only [Bool.or_eq_false_iff, Bool.and_eq_false_iff, decide_eq_false_iff_not, List.mem_cons, List.not_mem_nil,
    or_false]
  omega

theorem dropWhile_isBlank {text : Str} (h : ∀ c ∈ text, c.isDigit = true) : text.dropWhile isBlank = text := by
  cases text with
  | nil => rfl
  | cons c text => simp [isBlank_of_isDigit (h c List.mem_cons_self)]

theorem number_digits (h : number text = some n) :
    text ≠ [] ∧ (∀ c ∈ text, c.isDigit = true) ∧ Nat.ofDigitChars 10 text 0 = n ∧ 0 < n := by
  unfold number at h
  split_ifs at h with hif
  obtain ⟨hne, hdigits, hpos⟩ := hif
  obtain rfl := Option.some.inj h
  exact ⟨hne, List.all_eq_true.mp hdigits, rfl, hpos⟩

/-- `int` reads a number, unless it has too many digits. -/
theorem pyInt_number (u : Digits) (h : number text = some n) :
    pyInt u text = if text.length ≤ intMaxStrDigits then some (n : Int) else none := by
  obtain ⟨hne, hdigits, hvalue, -⟩ := number_digits h
  have hstrip : ((text.dropWhile isBlank).reverse.dropWhile isBlank).reverse = text := by
    rw [dropWhile_isBlank hdigits, dropWhile_isBlank fun c hc => hdigits c (List.mem_reverse.mp hc),
      List.reverse_reverse]
  have hother {c : Char} (hc : c.isDigit = false) : c ∉ text := fun hmem => by
    rw [hdigits c hmem] at hc
    cases hc
  have hsplit : text.splitOn '_' = [text] := List.splitOn_eq_singleton (hother rfl)
  have hfilter : text.filter (· ≠ '_') = text := by
    refine List.filter_eq_self.mpr fun c hc => decide_eq_true fun heq => ?_
    exact hother (c := '_') rfl (heq ▸ hc)
  have hmagnitude : magnitude u text = if text.length ≤ intMaxStrDigits then some n else none := by
    unfold magnitude
    rw [hsplit, hfilter, if_neg (by simpa using hne)]
    by_cases hshort : text.length ≤ intMaxStrDigits
    · rw [if_pos hshort]
      simp only [if_neg (Nat.not_lt.mpr hshort), foldlM_digits u hdigits, hvalue]
    · rw [if_neg hshort]
      exact if_pos (Nat.lt_of_not_le hshort)
  unfold pyInt
  rw [hstrip]
  split
  · exact absurd List.mem_cons_self (hother rfl)
  · exact absurd List.mem_cons_self (hother rfl)
  · rw [hmagnitude]
    split_ifs <;> rfl

/-- The indices that a part of a valid list has. -/
def indices (p : Interval) : Int × Option Int := ((p.first : Int) - 1, p.last.map fun (l : Nat) => (l : Int))

/-- The numbers of a part have no more digits than `int` takes. -/
def ShortPart (part : Str) : Prop :=
  (splitDash part).1.length ≤ intMaxStrDigits ∧ ∀ m ∈ (splitDash part).2, m.length ≤ intMaxStrDigits

theorem splitDash_none {a : Str} (h : splitDash part = (a, none)) : a = part := by
  unfold splitDash at h
  obtain ⟨rfl, hnone⟩ := Prod.mk.inj h
  split_ifs at hnone with hdash
  refine List.takeWhile_eq_self_iff.mpr fun c hc => decide_eq_true fun heq => hdash ?_
  exact List.contains_iff_mem.mpr (heq ▸ hc)

/-- What a part of a valid list is read as. -/
theorem listPart_cases {p : Interval} (h : listPart part = some p) :
    (∃ n, splitDash part = (part, none) ∧ number part = some n ∧ p = ⟨n, some n⟩) ∨
      (∃ b m, splitDash part = ([], some b) ∧ number b = some m ∧ p = ⟨1, some m⟩) ∨
      (∃ a n, splitDash part = (a, some []) ∧ number a = some n ∧ p = ⟨n, none⟩) ∨
      ∃ a b n m, splitDash part = (a, some b) ∧ number a = some n ∧ number b = some m ∧ n ≤ m ∧
        p = ⟨n, some m⟩ := by
  unfold listPart at h
  split at h
  · rename_i a hsplit
    obtain rfl := splitDash_none hsplit
    obtain ⟨n, hn, rfl⟩ := Option.map_eq_some_iff.mp h
    exact .inl ⟨n, hsplit, hn, rfl⟩
  · cases h
  · rename_i b hb hsplit
    obtain ⟨m, hm, rfl⟩ := Option.map_eq_some_iff.mp h
    exact .inr (.inl ⟨b, m, hsplit, hm, rfl⟩)
  · rename_i a ha hsplit
    obtain ⟨n, hn, rfl⟩ := Option.map_eq_some_iff.mp h
    exact .inr (.inr (.inl ⟨a, n, hsplit, hn, rfl⟩))
  · rename_i a b _ _ _ hsplit
    obtain ⟨n, hn, h⟩ := Option.bind_eq_some_iff.mp h
    obtain ⟨m, hm, h⟩ := Option.bind_eq_some_iff.mp h
    split_ifs at h with hle
    exact .inr (.inr (.inr ⟨a, b, n, m, hsplit, hn, hm, hle, (Option.some.inj h).symm⟩))

theorem listPart_valid {p : Interval} (h : listPart part = some p) : p.Valid := by
  rcases listPart_cases h with ⟨n, -, hn, rfl⟩ | ⟨b, m, -, hm, rfl⟩ | ⟨a, n, -, hn, rfl⟩ |
    ⟨a, b, n, m, -, hn, hm, hle, rfl⟩
  · exact ⟨(number_digits hn).2.2.2, fun l hl => (Option.some.inj hl).le⟩
  · exact ⟨le_refl 1, fun l hl => Option.some.inj hl ▸ (number_digits hm).2.2.2⟩
  · exact ⟨(number_digits hn).2.2.2, fun l hl => by cases hl⟩
  · exact ⟨(number_digits hn).2.2.2, fun l hl => Option.some.inj hl ▸ hle⟩

/-- `int` reads the numbers of a part, unless one has too many digits. -/
theorem parsePart_listPart (u : Digits) {p : Interval} (h : listPart part = some p) :
    (ShortPart part → parsePart u part = some (indices p)) ∧ (¬ ShortPart part → parsePart u part = none) := by
  unfold parsePart ShortPart indices
  rcases listPart_cases h with ⟨n, hsplit, hn, rfl⟩ | ⟨b, m, hsplit, hm, rfl⟩ | ⟨a, n, hsplit, hn, rfl⟩ |
    ⟨a, b, n, m, hsplit, hn, hm, -, rfl⟩
  · rw [hsplit]
    simp only [pyInt_number u hn]
    constructor
    · intro hshort
      simp [hshort.1]
    · intro hlong
      have hlong : ¬ part.length ≤ intMaxStrDigits := fun hle => hlong ⟨hle, fun m hm => by cases hm⟩
      simp [hlong]
  · rw [hsplit]
    have hne := (number_digits hm).1
    simp only [pyInt_number u hm]
    constructor
    · intro hshort
      simp [hne, hshort.2 b rfl]
    · intro hlong
      have hlong : ¬ b.length ≤ intMaxStrDigits := fun hle =>
        hlong ⟨Nat.zero_le _, fun m hm => Option.some.inj hm ▸ hle⟩
      simp [hne, hlong]
  · rw [hsplit]
    have hne := (number_digits hn).1
    simp only [pyInt_number u hn]
    constructor
    · intro hshort
      simp [hne, hshort.1]
    · intro hlong
      have hlong : ¬ a.length ≤ intMaxStrDigits := fun hle =>
        hlong ⟨hle, fun m hm => Option.some.inj hm ▸ Nat.zero_le _⟩
      simp [hne, hlong]
  · rw [hsplit]
    have hnea := (number_digits hn).1
    have hneb := (number_digits hm).1
    simp only [pyInt_number u hn, pyInt_number u hm]
    constructor
    · intro hshort
      simp [hnea, hneb, hshort.1, hshort.2 b rfl]
    · intro hlong
      by_cases ha : a.length ≤ intMaxStrDigits
      · have hb : ¬ b.length ≤ intMaxStrDigits := fun hle =>
          hlong ⟨ha, fun m hm => Option.some.inj hm ▸ hle⟩
        simp [hnea, hneb, hb]
      · simp [hnea, ha]

/-- The parts of a valid list are read, unless a number has too many digits. -/
theorem mapM_parsePart (u : Digits) {texts : List Str} (h : texts.mapM listPart = some parts) :
    ((∀ part ∈ texts, ShortPart part) → texts.mapM (parsePart u) = some (parts.map indices)) ∧
      (¬ (∀ part ∈ texts, ShortPart part) → texts.mapM (parsePart u) = none) ∧ ∀ p ∈ parts, p.Valid := by
  induction texts generalizing parts with
  | nil =>
    obtain rfl := Option.some.inj h
    exact ⟨fun _ => rfl, fun hlong => absurd (by simp) hlong, by simp⟩
  | cons part texts ih =>
    rw [List.mapM_cons] at h
    obtain ⟨p, hp, h⟩ := Option.bind_eq_some_iff.mp h
    obtain ⟨ps, hps, h⟩ := Option.bind_eq_some_iff.mp h
    obtain rfl := Option.some.inj h
    obtain ⟨hread, hfail⟩ := parsePart_listPart u hp
    obtain ⟨hreads, hfails, hvalid⟩ := ih hps
    rw [List.mapM_cons, List.forall_mem_cons]
    refine ⟨fun hshort => ?_, fun hlong => ?_, List.forall_mem_cons.mpr ⟨listPart_valid hp, hvalid⟩⟩
    · rw [hread hshort.1, hreads hshort.2]
      rfl
    · by_cases hshort : ShortPart part
      · rw [hread hshort, hfails fun hall => hlong ⟨hshort, hall⟩]
        rfl
      · rw [hfail hshort]
        rfl

/-- No number of the list has more digits than `int` takes. -/
def ShortList (spec : Str) : Prop := ∀ part ∈ spec.splitOn ',', ShortPart part

/-! ## Selecting fields -/

/-- The fields by their positions. -/
theorem eq_map_positions {β : Type} (fields : List β) (default : β) :
    fields = (List.range' 1 fields.length).map fun i => fields.getD (i - 1) default := by
  refine List.ext_getElem (by simp) fun i hi hi' => ?_
  rw [List.getElem_map, List.getElem_range', List.getD_eq_getElem?_getD, Nat.one_mul, Nat.add_sub_cancel_left,
    List.getElem?_eq_getElem hi, Option.getD_some]

/-- The slice for a part of a valid list. -/
theorem slice_indices {β : Type} {p : Interval} (hp : p.Valid) (fields : List β) :
    slice fields (indices p) = (fields.take (p.last.getD fields.length)).drop (p.first - 1) := by
  have hpos := hp.pos
  have hfirst : sliceIndex fields.length ((p.first : Int) - 1) = min (p.first - 1) fields.length := by
    unfold sliceIndex
    rw [if_neg (by omega)]
    omega
  have hlast : fields.take ((indices p).2.elim fields.length (sliceIndex fields.length)) =
      fields.take (p.last.getD fields.length) := by
    unfold indices
    cases p.last with
    | none => rfl
    | some l =>
      have hindex : sliceIndex fields.length (l : Int) = min l fields.length := by
        unfold sliceIndex
        rw [if_neg (by omega), Int.toNat_natCast]
      simp only [Option.map_some, Option.elim_some, Option.getD_some, hindex]
      rw [← List.take_take, List.take_length]
  unfold slice
  rw [hlast, show (indices p).1 = (p.first : Int) - 1 from rfl, hfirst]
  rcases Nat.le_total (p.first - 1) fields.length with hle | hge
  · rw [Nat.min_eq_left hle]
  · have hlength : (fields.take (p.last.getD fields.length)).length ≤ fields.length := List.length_take_le' _ _
    rw [Nat.min_eq_right hge, List.drop_eq_nil_of_le hlength, List.drop_eq_nil_of_le (hlength.trans hge)]

/-- What the slices select, by positions. -/
theorem selectFields_map {β : Type} (hparts : ∀ p ∈ parts, p.Valid) (k : Nat) (f : Nat → β) :
    selectFields (parts.map indices) ((List.range' 1 k).map f) = (parts.flatMap (Interval.positions k)).map f := by
  unfold selectFields
  rw [List.flatMap_map, List.map_flatMap, List.flatMap_def, List.flatMap_def]
  congr 1
  refine List.map_congr_left fun p hp => ?_
  rw [slice_indices (hparts p hp), ← Interval.drop_take_range' (hparts p hp), List.map_drop, List.map_take,
    List.length_map, List.length_range']

theorem zipIdx_map_range' {β : Type} (k : Nat) (f : Nat → β) :
    ((List.range' 1 k).map f).zipIdx 1 = (List.range' 1 k).map fun i => (f i, i) := by
  refine List.ext_getElem (by simp) fun i hi hi' => ?_
  simp [List.getElem_zipIdx]

/-- What is to be selected, by positions. -/
theorem expectedFields_map {β : Type} (parts : List Interval) (k : Nat) (f : Nat → β) :
    expectedFields parts ((List.range' 1 k).map f) =
      ((List.range' 1 k).filter fun i => parts.any (·.covers i)).map f := by
  unfold expectedFields
  rw [zipIdx_map_range', List.filter_map, List.map_map]
  rfl

/-- Disjoint, increasing parts select what they should. -/
theorem selectFields_eq_expectedFields {β : Type} (hparts : ∀ p ∈ parts, p.Valid) (fields : List β)
    (hbefore : parts.Pairwise (Interval.Before fields.length)) :
    selectFields (parts.map indices) fields = expectedFields parts fields := by
  cases fields with
  | nil =>
    have hslice (p : Interval) : slice ([] : List β) (indices p) = [] := by
      unfold slice
      rw [List.take_nil, List.drop_nil]
    unfold selectFields expectedFields
    rw [List.flatMap_map]
    simp [hslice]
  | cons default fields =>
    rw [eq_map_positions (default :: fields) default, selectFields_map hparts, expectedFields_map,
      (Interval.flatMap_positions_iff hparts).mpr hbefore]

/-! ## The runs -/

/-- What `cut` makes of a line, without its line feed. -/
def cutText (delimiter : Str) (ranges : List (Int × Option Int)) (line : Str) : Str :=
  if ¬ delimiter <:+: line then line
  else delimiter.intercalate (selectFields ranges (splitText delimiter line))

/-- What `cut` writes for a line. -/
def cutOutput (delimiter : Str) (ranges : List (Int × Option Int)) (line : Bytes) : Bytes :=
  encode (String.ofList (cutText delimiter ranges (decodeReplace line).toList ++ ['\n']))

theorem exec_cutLine {c : Cut} (hdelimiter : c.delimiter ≠ []) (hsuppress : c.suppress = false) (line : Bytes)
    (s : Progress Unit) :
    exec (cutLine c line) s =
      (.ok (), { s with written := s.written ++ [.out (cutOutput c.delimiter c.fieldIndices line)] }) := by
  unfold cutLine cutOutput cutText
  simp only
  by_cases hoccurs : c.delimiter <:+: (decodeReplace line).toList
  · rw [if_neg (not_not.mpr hoccurs), if_neg hdelimiter, if_neg (not_not.mpr hoccurs)]
    rfl
  · rw [if_pos hoccurs, when_true hsuppress, if_pos hoccurs]
    rfl

theorem exec_cutProcess {c : Cut} (hdelimiter : c.delimiter ≠ []) (hsuppress : c.suppress = false) (data : Bytes)
    (s : Progress Unit) :
    exec (cutProcess c data) s =
      (.ok (), { s with
        written := s.written ++ ((bodyLines data).map (cutOutput c.delimiter c.fieldIndices)).map .out }) :=
  exec_forM_out (fun line t => exec_cutLine hdelimiter hsuppress line t) (bodyLines data)

theorem getopt_cutInvocation (delimiter spec : Str) (h : Gives r operands contents) :
    Getopt.gnuGetopt "d:f:b:c:s".toList cutLongopts (cutInvocation delimiter spec operands) =
      .ok ([(.short 'd', delimiter), (.short 'f', spec)], operands) := by
  unfold Getopt.gnuGetopt cutInvocation
  rw [scanOptions_pair (by decide) (by decide), scanOptions_pair (by decide) (by decide)]
  cases h with
  | piped hinput => rfl
  | file hinput harg hresolve hplain hcontents =>
    rw [scanOptions_operand harg]
    rfl

/-- The command after its options. -/
theorem cutStart_invocation (u : Digits) (delimiter spec : Str) (h : Gives r operands contents) :
    cutStart u r (cutInvocation delimiter spec operands) =
      match parseFieldSpec u spec with
      | none => throw .valueError
      | some fieldIndices =>
        let c : Cut := { delimiter, fieldSpec := some spec, fieldIndices }
        if r.noInput then operands.forM (cutFile c r) else cutProcess c (r.inputData.getD []) := by
  unfold cutStart
  rw [getopt_cutInvocation delimiter spec h]
  rfl

/-- A run with a list that `int` takes. -/
theorem exec_cutStart (hdelimiter : delimiter ≠ []) (hparse : parseFieldSpec u spec = some ranges)
    (h : Gives r operands contents) :
    exec (cutStart u r (cutInvocation delimiter spec operands)) ⟨(), []⟩ =
      (.ok (), ⟨(), ((bodyLines contents).map (cutOutput delimiter ranges)).map .out⟩) := by
  rw [cutStart_invocation u delimiter spec h, hparse]
  simp only
  set c : Cut := { delimiter, fieldSpec := some spec, fieldIndices := ranges } with hc
  have hprocess := exec_cutProcess (c := c) hdelimiter rfl contents ⟨(), []⟩
  rw [List.nil_append] at hprocess
  cases h with
  | piped hinput =>
    by_cases hempty : r.noInput = true
    · have hnil : contents = [] := by
        unfold Reading.noInput at hempty
        rw [hinput] at hempty
        exact of_decide_eq_true hempty
      rw [if_pos hempty, hnil]
      rfl
    · rw [if_neg hempty, hinput]
      exact hprocess
  | @file arg pname _ hinput harg hresolve hplain hcontents =>
    have hpath : exec (r.resolvePath arg) ⟨(), []⟩ = (.ok pname, ⟨(), []⟩) := by
      unfold Reading.resolvePath
      rw [exec_query, hresolve]
    have hfile : exec (cutFile c r arg) ⟨(), []⟩ = exec (cutProcess c contents) ⟨(), []⟩ := by
      unfold cutFile
      have hbody := (exec_bind_ok (exec_fileContents hcontents)).trans hprocess
      rw [exec_bind_ok hpath, exec_tryCatch_ok hbody, hprocess]
    have hone : ([arg].forM (cutFile c r) : FilterM Unit Unit) = (cutFile c r arg >>= fun _ => pure ⟨⟩) := rfl
    rw [if_pos hinput, hone, exec_bind_ok (hfile.trans hprocess)]
    rfl

/-- A list that `int` does not take ends the command. -/
theorem exec_cutStart_error (hparse : parseFieldSpec u spec = none) (h : Gives r operands contents) :
    exec (cutStart u r (cutInvocation delimiter spec operands)) ⟨(), []⟩ = (.error .valueError, ⟨(), []⟩) := by
  rw [cutStart_invocation u delimiter spec h, hparse]
  rfl

/-! ## When the list is followed -/

theorem bodyLines_line {line : Bytes} (h : 10 ∉ line) : bodyLines (line ++ [10]) = [line] := by
  have hlined : Lined (10 : UInt8) [line] [] (line ++ [10]) := ⟨by simp, by simpa using h, by simp⟩
  unfold bodyLines
  rw [hlined.splitOn]
  simp

/-- A line of text that is piped in. -/
def typed (line : Str) : Bytes := encode (String.ofList line) ++ [10]

theorem bodyLines_typed {line : Str} (h : '\n' ∉ line) : bodyLines (typed line) = [encode (String.ofList line)] :=
  bodyLines_line (newline_not_mem_encode (by rwa [String.toList_ofList]))

theorem not_followsList_of_error {e : FsError} {s : Progress Unit}
    (h : exec (cutStart u r (cutInvocation delimiter spec operands)) ⟨(), []⟩ = (.error e, s)) :
    ¬ FollowsList u r delimiter spec operands contents := by
  unfold FollowsList Prints Reports
  cases fieldList spec with
  | none =>
    rintro ⟨t, ht, -⟩
    rw [h] at ht
    cases ht
  | some parts =>
    rintro ⟨t, ht, -⟩
    rw [h] at ht
    cases ht

/-- An empty delimiter is an exception in the first line. -/
theorem exec_cutStart_empty (u : Digits) (spec : Str) {line : Str} (hline : '\n' ∉ line) :
    ∃ s, exec (cutStart u (pipedIn (typed line)) (cutInvocation [] spec [])) ⟨(), []⟩ = (.error .valueError, s) := by
  have hpiped := gives_pipedIn (typed line)
  cases hparse : parseFieldSpec u spec with
  | none => exact ⟨_, exec_cutStart_error hparse hpiped⟩
  | some ranges =>
    have hinput : (pipedIn (typed line)).noInput = false := by
      unfold Reading.noInput pipedIn typed
      simp
    have hraise (c : Cut) (hc : c.delimiter = []) (data : Bytes) (s : Progress Unit) :
        exec (cutLine c data) s = (.error .valueError, s) := by
      unfold cutLine
      simp only [hc]
      rw [if_neg (not_not.mpr (List.nil_infix)), if_pos trivial]
      rfl
    rw [cutStart_invocation u [] spec hpiped, hparse]
    simp only [hinput, Bool.false_eq_true, if_false]
    unfold cutProcess pipedIn
    rw [Option.getD_some, bodyLines_typed hline]
    exact ⟨_, exec_bind_error (hraise _ rfl _ _)⟩

/-- A line whose fields differ in length, of a character with which the delimiter does not begin. -/
theorem exists_line (hdelimiter : delimiter ≠ []) (hnewline : '\n' ∉ delimiter) {k : Nat} (hk : 2 ≤ k) :
    ∃ (x c : Char) (rest line : Str), delimiter = x :: rest ∧ x ≠ c ∧ '\n' ∉ line ∧ delimiter <:+: line ∧
      splitText delimiter line = (List.range' 1 k).map fun i => List.replicate i c := by
  obtain ⟨x, rest, rfl⟩ := List.exists_cons_of_ne_nil hdelimiter
  obtain ⟨c, hxc, hc⟩ : ∃ c, x ≠ c ∧ c ≠ '\n' := by
    by_cases hx : x = 'a'
    · exact ⟨'b', by rw [hx]; decide, by decide⟩
    · exact ⟨'a', hx, by decide⟩
  have hfields : ∀ field ∈ (List.range' 1 k).map fun i => List.replicate i c, x ∉ field := by
    intro field hfield hmem
    obtain ⟨i, -, rfl⟩ := List.mem_map.mp hfield
    exact hxc (List.eq_of_mem_replicate hmem)
  have hne : ((List.range' 1 k).map fun i => List.replicate i c) ≠ [] := by
    simp
    omega
  have hsplit := splitText_intercalate rest hne hfields
  refine ⟨x, c, rest, _, rfl, hxc, fun hmem => ?_, ?_, hsplit⟩
  · rcases mem_intercalate hmem with hmem | ⟨field, hfield, hmem⟩
    · exact hnewline hmem
    · obtain ⟨i, -, rfl⟩ := List.mem_map.mp hfield
      exact hc (List.eq_of_mem_replicate hmem).symm
  · by_contra hnot
    have hlength := congrArg List.length (hsplit.symm.trans (splitText_absent hnot))
    simp only [List.length_map, List.length_range', List.length_singleton] at hlength
    omega

/-- Where all these fields are selected as they should, the parts are disjoint and increasing. -/
theorem before_of_selected {x c : Char} {rest : Str} (hxc : x ≠ c) (hparts : ∀ p ∈ parts, p.Valid) (k : Nat)
    (h : (x :: rest).intercalate (selectFields (parts.map indices)
        ((List.range' 1 k).map fun i => List.replicate i c)) =
      (x :: rest).intercalate (expectedFields parts ((List.range' 1 k).map fun i => List.replicate i c))) :
    parts.Pairwise (Interval.Before k) := by
  rw [selectFields_map hparts, expectedFields_map] at h
  have hfield (l : List Nat) (hl : ∀ i ∈ l, 1 ≤ i) :
      ∀ field ∈ l.map fun i => List.replicate i c, x ∉ field ∧ field ≠ [] := by
    intro field hmem
    obtain ⟨i, hi, rfl⟩ := List.mem_map.mp hmem
    have hpos := hl i hi
    exact ⟨fun hx => hxc (List.eq_of_mem_replicate hx), by simp; omega⟩
  have hinjective : Function.Injective fun i => List.replicate i c := fun i j hij => by
    simpa using congrArg List.length hij
  rw [← Interval.flatMap_positions_iff hparts]
  refine List.map_injective_iff.mpr hinjective
    (intercalate_inj rest (hfield _ fun i hi => ?_) (hfield _ fun i hi => ?_) h)
  · obtain ⟨p, -, hi⟩ := List.mem_flatMap.mp hi
    exact (Interval.mem_positions.mp hi).1.1
  · exact (List.mem_range'_1.mp (List.mem_of_mem_filter hi)).1

theorem fieldsOf_split (hdelimiter : delimiter ≠ []) {line : Str} (h : delimiter <:+: line) :
    fieldsOf delimiter line = splitText delimiter line := if_pos ⟨hdelimiter, h⟩

theorem infix_of_many {line : Str} (h : (fieldsOf delimiter line).length ≠ 1) : delimiter <:+: line := by
  by_contra hnot
  unfold fieldsOf at h
  exact h (by rw [if_neg fun hif => hnot hif.2, List.length_singleton])

/-- Nothing is ever reported of a list. -/
theorem not_followsList_of_invalid (hdelimiter : delimiter ≠ []) (hlist : fieldList spec = none)
    (hgives : Gives r operands contents) : ¬ FollowsList u r delimiter spec operands contents := by
  unfold FollowsList Reports
  rw [hlist]
  rintro ⟨s, hs, data, hmem⟩
  cases hparse : parseFieldSpec u spec with
  | none =>
    rw [exec_cutStart_error hparse hgives] at hs
    cases hs
  | some ranges =>
    rw [exec_cutStart hdelimiter hparse hgives] at hs
    rw [← (Prod.mk.inj hs).2] at hmem
    obtain ⟨piece, -, hpiece⟩ := List.mem_map.mp hmem
    cases hpiece

/-- Where a list is followed on one line, the fields that are selected are those that are expected. -/
theorem selected_of_followsList {line : Str} (hdelimiter : delimiter ≠ []) (hlist : fieldList spec = some parts)
    (hread : parseFieldSpec u spec = some (parts.map indices)) (hline : '\n' ∉ line) (hoccurs : delimiter <:+: line)
    (h : FollowsList u (pipedIn (typed line)) delimiter spec [] (typed line)) :
    delimiter.intercalate (selectFields (parts.map indices) (splitText delimiter line)) =
      delimiter.intercalate (expectedFields parts (splitText delimiter line)) := by
  unfold FollowsList Prints at h
  rw [hlist] at h
  obtain ⟨s, hs, hdata⟩ := h
  rw [exec_cutStart hdelimiter hread (gives_pipedIn _)] at hs
  rw [← (Prod.mk.inj hs).2, stdoutOf_out, expectedText, bodyLines_typed hline] at hdata
  simp only [List.map_cons, List.map_nil, List.flatten_singleton, List.flatMap_singleton, cutOutput,
    decodeReplace_encode, String.toList_ofList] at hdata
  have htext := List.append_cancel_right (String.ofList_injective (encode_injective hdata))
  unfold cutText expectedLine at htext
  rwa [if_neg (not_not.mpr hoccurs), if_pos ⟨hdelimiter, hoccurs⟩] at htext

/-- A list whose parts are disjoint and increasing, wherever the delimiter occurs, is followed. -/
theorem followsList_of_before (hdelimiter : delimiter ≠ []) (hshort : ShortList spec)
    (hlist : fieldList spec = some parts) (hgives : Gives r operands contents)
    (hbefore : ∀ line ∈ bodyLines contents, delimiter <:+: (decodeReplace line).toList →
      parts.Pairwise (Interval.Before (splitText delimiter (decodeReplace line).toList).length)) :
    FollowsList u r delimiter spec operands contents := by
  obtain ⟨hread, -, hvalid⟩ := mapM_parsePart u hlist
  unfold FollowsList
  rw [hlist]
  refine ⟨_, exec_cutStart hdelimiter (hread hshort) hgives, ?_⟩
  rw [stdoutOf_out, expectedText, List.flatMap_def]
  congr 1
  refine List.map_congr_left fun line hmem => ?_
  unfold cutOutput
  congr 3
  unfold cutText expectedLine
  by_cases hoccurs : delimiter <:+: (decodeReplace line).toList
  · rw [if_neg (not_not.mpr hoccurs), if_pos ⟨hdelimiter, hoccurs⟩,
      selectFields_eq_expectedFields hvalid _ (hbefore line hmem hoccurs)]
  · rw [if_pos hoccurs, if_neg fun hif => hoccurs hif.2]

/-- **`cut -f` follows its list as a set** exactly if the delimiter is not empty, the list is valid, no number in
it has more digits than `int` takes, and, where the delimiter occurs, its parts are disjoint and increasing. -/
theorem cut_follows_set_iff (u : Digits) (delimiter spec line₀ : Str) (hline : '\n' ∉ line₀) :
    (∀ r operands contents, Gives r operands contents →
        (∀ line ∈ bodyLines contents,
          (fieldsOf delimiter (decodeReplace line).toList).length = (fieldsOf delimiter line₀).length) →
        FollowsList u r delimiter spec operands contents) ↔
      delimiter ≠ [] ∧ ShortList spec ∧ ∃ parts, fieldList spec = some parts ∧
        ((fieldsOf delimiter line₀).length = 1 ∨
          parts.Pairwise (Interval.Before (fieldsOf delimiter line₀).length)) := by
  constructor
  · intro h
    have hone (line : Str) (hnewline : '\n' ∉ line)
        (hfields : (fieldsOf delimiter line).length = (fieldsOf delimiter line₀).length) :
        FollowsList u (pipedIn (typed line)) delimiter spec [] (typed line) := by
      refine h _ [] _ (gives_pipedIn _) fun data hdata => ?_
      rw [bodyLines_typed hnewline, List.mem_singleton] at hdata
      rw [hdata, decodeReplace_encode, String.toList_ofList, hfields]
    have hfirst := hone line₀ hline rfl
    have hpiped := gives_pipedIn (typed line₀)
    have hdelimiter : delimiter ≠ [] := by
      rintro rfl
      obtain ⟨s, hraise⟩ := exec_cutStart_empty u spec hline
      exact not_followsList_of_error hraise hfirst
    cases hlist : fieldList spec with
    | none => exact absurd hfirst (not_followsList_of_invalid hdelimiter hlist hpiped)
    | some parts =>
      obtain ⟨hread, hfail, hvalid⟩ := mapM_parsePart u hlist
      have hshort : ShortList spec := by
        by_contra hlong
        exact not_followsList_of_error (exec_cutStart_error (hfail hlong) hpiped) hfirst
      refine ⟨hdelimiter, hshort, parts, rfl, or_iff_not_imp_left.mpr fun hmany => ?_⟩
      have hoccurs := infix_of_many hmany
      rw [fieldsOf_split hdelimiter hoccurs] at hone ⊢
      -- a line with as many fields, all of them different
      obtain ⟨x, c, rest, line, rfl, hxc, hnewline, hinfix, hsplit⟩ :=
        exists_line hdelimiter (fun hmem => hline (hoccurs.subset hmem)) (two_le_length_splitText hdelimiter hoccurs)
      have hfollows := hone line hnewline (by
        rw [fieldsOf_split hdelimiter hinfix, hsplit, List.length_map, List.length_range'])
      have hselected := selected_of_followsList hdelimiter hlist (hread hshort) hnewline hinfix hfollows
      rw [hsplit] at hselected
      exact before_of_selected hxc hvalid _ hselected
  · rintro ⟨hdelimiter, hshort, parts, hlist, hbefore⟩ r operands contents hgives hcount
    refine followsList_of_before hdelimiter hshort hlist hgives fun line hmem hoccurs => ?_
    have hfields := hcount line hmem
    rw [fieldsOf_split hdelimiter hoccurs] at hfields
    have htwo := two_le_length_splitText hdelimiter hoccurs
    rw [hfields]
    exact hbefore.resolve_left (by omega)

/-- `echo a:b:c | cut -d : -f 1,3-`. -/
theorem cut_increasing :
    Prints (cutStart asciiDigits (pipedIn (typed "a:b:c".toList)) (cutInvocation [':'] "1,3-".toList [])) ()
      (encode "a:c\n") := by
  have hfollows := (cut_follows_set_iff asciiDigits [':'] "1,3-".toList "a:b:c".toList (by decide)).mpr
    ⟨by decide, by unfold ShortList ShortPart; decide, [⟨1, some 1⟩, ⟨3, none⟩], by decide,
      .inr (by unfold Interval.Before; decide)⟩ (pipedIn (typed "a:b:c".toList)) [] (typed "a:b:c".toList)
    (gives_pipedIn _) fun line hline => by
      rw [bodyLines_typed (by decide), List.mem_singleton] at hline
      rw [hline, decodeReplace_encode, String.toList_ofList]
  have hlist : fieldList "1,3-".toList = some [⟨1, some 1⟩, ⟨3, none⟩] := by decide
  have htext : expectedText [⟨1, some 1⟩, ⟨3, none⟩] [':'] (typed "a:b:c".toList) = encode "a:c\n" := by
    decide +kernel
  unfold FollowsList at hfollows
  rw [hlist] at hfollows
  rw [← htext]
  exact hfollows

/-- `echo a:b | cut -d : -f 2,1` writes `b:a`; of the list `0` nothing is reported, and `x` is an exception. -/
theorem cut_violated :
    ¬ FollowsList asciiDigits (pipedIn (typed "a:b".toList)) [':'] "2,1".toList [] (typed "a:b".toList) ∧
      ¬ FollowsList asciiDigits (pipedIn (typed "a:b".toList)) [':'] "0".toList [] (typed "a:b".toList) ∧
      ¬ FollowsList asciiDigits (pipedIn (typed "a:b".toList)) [':'] "x".toList [] (typed "a:b".toList) := by
  have hpiped := gives_pipedIn (typed "a:b".toList)
  refine ⟨?_, ?_, not_followsList_of_error (exec_cutStart_error (by decide) hpiped)⟩
  · have hlist : fieldList "2,1".toList = some [⟨2, some 2⟩, ⟨1, some 1⟩] := by decide
    have hparse : parseFieldSpec asciiDigits "2,1".toList = some [(1, some 2), (0, some 1)] := by decide
    unfold FollowsList Prints
    rw [hlist]
    rintro ⟨s, hs, hdata⟩
    rw [exec_cutStart (by decide) hparse hpiped] at hs
    rw [← (Prod.mk.inj hs).2, stdoutOf_out] at hdata
    exact absurd hdata (by decide +kernel)
  · have hlist : fieldList "0".toList = none := by decide
    have hparse : parseFieldSpec asciiDigits "0".toList = some [(-1, some 0)] := by decide
    unfold FollowsList Reports
    rw [hlist]
    rintro ⟨s, hs, data, hmem⟩
    rw [exec_cutStart (by decide) hparse hpiped] at hs
    rw [← (Prod.mk.inj hs).2] at hmem
    obtain ⟨piece, -, hpiece⟩ := List.mem_map.mp hmem
    cases hpiece

end Cowrie.Shell.Filter
