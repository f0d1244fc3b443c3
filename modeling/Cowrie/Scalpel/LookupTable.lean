import Cowrie.Scalpel.MergeToLookup

/-!
# The merge into the lookup table, twice

A `Table` is the source text of a lookup table: lines before it, its entries and notes line by line, the
closing brace and what follows. Literals carry the text that they stand for.

* `extract_render`: the keys that are read out of the source are the texts of its literals as they stand.
* `merge_render`: the merge puts a line for each entry that it adds at the end of the table.
* `Merged` is what is asked of the merge: a second run adds nothing, and each key is defined once.
* **`merge_twice_iff`**: so it is exactly if no two keys of the table are equal, each command that is asked for
  stands in the source as it is if it is a key, and each that is added is one that `repr` does not escape.
-/

namespace Cowrie.Scalpel.MergeToLookup

variable {names : Str → Option Char} {printable : Char → Bool}

/-! ## Tables -/

/-- A string literal, with the text that it stands for. -/
structure Literal (names : Str → Option Char) where
  quote : Char
  raw : Str
  value : Str
  quoted : isQuote quote
  closed : Closed quote raw
  denotes : Denotes names raw value

def Literal.text (l : Literal names) : Str := l.quote :: l.raw ++ [l.quote]

/-- The literal that `repr` writes. -/
def literalOf (names : Str → Option Char) (printable : Char → Bool) (s : Str) : Literal names where
  quote := reprQuote s
  raw := reprBody printable s
  value := s
  quoted := by
    unfold isQuote
    rcases reprQuote_eq s with h | h <;> rw [h] <;> rfl
  closed := closed_reprBody s
  denotes := denotes_reprBody s

/-- Blanks, and perhaps a comment, up to the end of a line. -/
abbrev Note := { s : Str // '\n' ∉ s ∧ ∀ c ∈ (s.dropWhile isBlank).head?, c = '#' }

/-- A line of the table. -/
inductive Line (names : Str → Option Char)
  | entry (key value : Literal names) (tail : Note)
  | comment (note : Note)

def Line.body : Line names → Str
  | .entry key value tail => "    ".toList ++ (key.text ++ (": ".toList ++ (value.text ++ ',' :: tail.1)))
  | .comment note => note.1

def Line.text (l : Line names) : Str := l.body ++ ['\n']

/-- The text of the key, as it stands. -/
def Line.raws : Line names → List Str
  | .entry key _ _ => [key.raw]
  | .comment _ => []

/-- Key and value. -/
def Line.entries : Line names → List (Str × Str)
  | .entry key value _ => [(key.value, value.value)]
  | .comment _ => []

structure Table (names : Str → Option Char) where
  header : Str
  lines : List (Line names)
  footer : Str
  header_lines : Lines header
  header_open : closing true header = none
  no_return : '\r' ∉ header ++ lines.flatMap Line.text ++ footer

namespace Table

variable (t : Table names)

/-- The closing brace, and what follows. -/
def rest : Str := '\x7d' :: '\n' :: t.footer

def render : Str := t.header ++ (t.lines.flatMap Line.text ++ t.rest)

def entries : List (Str × Str) := t.lines.flatMap Line.entries

def keys : List Str := t.entries.map Prod.fst

/-- What stands like a key: in the header, in the table and behind it. -/
def scanned : List Str :=
  extractExistingKeys t.header ++ (t.lines.flatMap Line.raws ++ extractExistingKeys t.rest)

end Table

/-! ## The source of a table -/

theorem matchAt_none {s : Str} (h : ∀ q ∈ s[4]?, isQuote q = false) : matchAt s = none := by
  unfold matchAt
  cases hdrop : s.drop 4 with
  | nil => rfl
  | cons q rest =>
    have hq : s[4]? = some q := by rw [← List.head?_drop, hdrop, List.head?_cons]
    dsimp only
    rw [h q hq, Bool.and_false]
    rfl

theorem matchAt_dark {s : Str} {i : Nat} {c : Char} (hi : i < 4) (h : s[i]? = some c)
    (hc : isBlank c = false) : matchAt s = none := by
  unfold matchAt
  have hmem : c ∈ s.take 4 := by
    rw [List.mem_iff_getElem?]
    exact ⟨i, by rw [List.getElem?_take_of_lt hi, h]⟩
  have hall : (s.take 4).all isBlank = false := by
    rw [List.all_eq_false]
    exact ⟨c, hmem, by simp [hc]⟩
  rw [hall]
  cases s.drop 4 <;> rfl

theorem solid_spaces (s : Str) : Solid ("    ".toList ++ s) := by
  intro u hne hlength
  refine matchAt_none fun q hq => ?_
  have hu : 0 < u.length := List.length_pos_iff.mpr hne
  have hblank : q = ' ' := by
    rw [List.getElem?_append_right hlength] at hq
    have hsmall : 4 - u.length < 4 := by omega
    generalize 4 - u.length = i at hq hsmall
    match i, hsmall with
    | 0, _ | 1, _ | 2, _ | 3, _ => simpa using hq.symm
  rw [hblank]
  rfl

/-- Something that is no blank and no quote. -/
theorem solid_dark {c : Char} (hblank : isBlank c = false) (hquote : isQuote c = false) (s : Str) :
    Solid (c :: s) := by
  intro u hne hlength
  have hget : (u ++ c :: s)[u.length]? = some c := by simp
  rcases Nat.lt_or_ge u.length 4 with hlt | hge
  · exact matchAt_dark hlt hget hblank
  · rw [show u.length = 4 by omega] at hget
    refine matchAt_none fun q hq => ?_
    rw [hget, Option.mem_some_iff] at hq
    rw [← hq, hquote]

theorem quote_dark {q : Char} (hq : isQuote q) : isBlank q = false := by
  unfold isQuote at hq
  rw [Bool.or_eq_true_iff, beq_iff_eq, beq_iff_eq] at hq
  rcases hq with rfl | rfl <;> rfl

theorem solid_blank {c : Char} {v : Str} (hc : isBlank c = true) (hv : Solid v) : Solid (c :: v) := by
  intro u hne hlength
  rcases Nat.lt_or_ge u.length 4 with hlt | hge
  · have happ := hv (u ++ [c]) (by simp) (by rw [List.length_append]; exact hlt)
    rwa [List.append_assoc, List.singleton_append] at happ
  · refine matchAt_none fun q hq => ?_
    rw [← show u.length = 4 by omega, List.getElem?_append_right (Nat.le_refl _)] at hq
    obtain rfl : c = q := by simpa using hq
    by_contra hquote
    rw [Bool.not_eq_false] at hquote
    rw [quote_dark hquote] at hc
    cases hc

theorem solid_note {s v : Str} (hhash : ∀ c ∈ (s.dropWhile isBlank).head?, c = '#') (hv : Solid v) :
    Solid (s ++ '\n' :: v) := by
  induction s with
  | nil => exact solid_blank rfl hv
  | cons c s ih =>
    by_cases hc : isBlank c = true
    · rw [List.dropWhile_cons_of_pos hc] at hhash
      exact solid_blank hc (ih hhash)
    · rw [List.dropWhile_cons_of_neg hc] at hhash
      obtain rfl := hhash c rfl
      exact solid_dark rfl rfl _

theorem solid_rest (t : Table names) : Solid t.rest := solid_dark rfl rfl _

theorem solid_lines (lines : List (Line names)) {v : Str} (hv : Solid v) :
    Solid (lines.flatMap Line.text ++ v) := by
  induction lines with
  | nil => exact hv
  | cons l lines ih =>
    rw [List.flatMap_cons, List.append_assoc]
    cases l with
    | entry key value tail =>
      unfold Line.text Line.body
      rw [List.append_assoc, List.append_assoc]
      exact solid_spaces _
    | comment note =>
      unfold Line.text Line.body
      rw [List.append_assoc]
      exact solid_note note.2.2 ih

theorem newline_notMem_text (l : Literal names) : '\n' ∉ l.text := by
  unfold Literal.text
  have hquote := (quote_ne l.quoted).2.1.symm
  rw [List.mem_append, List.mem_cons, List.mem_singleton]
  rintro ((h | h) | h)
  · exact hquote h
  · exact l.closed.newline_notMem h
  · exact hquote h

theorem newline_notMem_body (l : Line names) : '\n' ∉ l.body := by
  cases l with
  | entry key value tail =>
    unfold Line.body
    simp only [List.mem_append, List.mem_cons, not_or]
    exact ⟨by decide, newline_notMem_text key, by decide, newline_notMem_text value, by decide, tail.2.1⟩
  | comment note => exact note.2.1

theorem matchAt_literal (l : Literal names) (s : Str) :
    matchAt ("    ".toList ++ (l.text ++ (": ".toList ++ s))) = some (l.raw, l.raw.length + 8) := by
  have hshape : "    ".toList ++ (l.text ++ (": ".toList ++ s)) =
      ' ' :: ' ' :: ' ' :: ' ' :: l.quote :: (l.raw ++ l.quote :: ':' :: ' ' :: s) := by
    simp [Literal.text]
  have hblank : ([' ', ' ', ' ', ' '].all isBlank && isQuote l.quote) = true := by
    rw [l.quoted]
    rfl
  rw [hshape, matchAt_drop rfl]
  exact (if_pos hblank).trans (by rw [lazyBody_closed l.quoted l.closed]; rfl)

/-- A match begins with blanks and a quote. -/
theorem matchAt_head {s : Str} {r : Str × Nat} (h : matchAt s = some r) :
    ∃ q ∈ (s.dropWhile isBlank).head?, isQuote q := by
  cases hdrop : s.drop 4 with
  | nil =>
    unfold matchAt at h
    rw [hdrop] at h
    cases h
  | cons q rest =>
    rw [matchAt_drop hdrop] at h
    split_ifs at h with hcond
    obtain ⟨hblank, hquote⟩ := Bool.and_eq_true_iff.mp hcond
    refine ⟨q, ?_, hquote⟩
    rw [← List.take_append_drop 4 s, hdrop, List.dropWhile_append_of_pos (List.all_eq_true.mp hblank),
      List.dropWhile_cons_of_neg (by rw [quote_dark hquote]; exact Bool.false_ne_true)]
    rfl

/-- A note is no key. -/
theorem matchAt_note {s : Str} (hhash : ∀ c ∈ (s.dropWhile isBlank).head?, c = '#') :
    matchAt (s ++ ['\n']) = none := by
  by_contra hmatch
  obtain ⟨r, hr⟩ := Option.ne_none_iff_exists'.mp hmatch
  obtain ⟨q, hhead, hquote⟩ := matchAt_head hr
  rw [List.dropWhile_append] at hhead
  cases hrest : s.dropWhile isBlank with
  | nil =>
    rw [hrest] at hhead
    cases hhead
  | cons c rest =>
    rw [hrest] at hhead hhash
    obtain rfl := hhash c rfl
    obtain rfl : '#' = q := Option.some.inj hhead
    cases hquote

/-- **The keys of a line**: the text of the key as it stands. -/
theorem extract_line (l : Line names) : extractExistingKeys l.text = l.raws := by
  have hbody := newline_notMem_body l
  unfold extractExistingKeys Line.text
  cases l with
  | entry key value tail =>
    have hmatch := matchAt_literal key (value.text ++ ',' :: tail.1 ++ ['\n'])
    have hlength : 0 < key.raw.length + 8 - 1 := by omega
    generalize hkey : (Line.entry key value tail).body = body at hbody
    have hshape : body ++ ['\n'] = "    ".toList ++ (key.text ++ (": ".toList ++
        (value.text ++ ',' :: tail.1 ++ ['\n']))) := by
      rw [← hkey]
      simp [Line.body]
    rw [← hshape] at hmatch
    cases body with
    | nil => cases hshape
    | cons c body =>
      rw [List.mem_cons, not_or] at hbody
      rw [List.cons_append] at hmatch ⊢
      rw [scan_start, hmatch]
      dsimp only
      rw [scan_rest hbody.2 _ _ (.inr hlength)]
      rfl
  | comment note =>
    have hnone := matchAt_note note.2.2
    change scan true 0 (note.1 ++ ['\n']) = []
    cases hnote : note.1 with
    | nil => rfl
    | cons c s =>
      have hline := note.2.1
      rw [hnote] at hnone hline
      rw [List.mem_cons, not_or] at hline
      rw [List.cons_append] at hnone ⊢
      rw [scan_start, hnone]
      exact scan_rest hline.2 _ _ (.inl (by simpa using Ne.symm hline.1))

theorem lines_text (l : Line names) : Lines l.text := lines_concat _

/-- **The keys that are read out**: each literal as it stands. -/
theorem extract_render (t : Table names) : extractExistingKeys t.render = t.scanned := by
  unfold Table.render Table.scanned
  rw [scan_append t.header_lines (solid_lines _ (solid_rest t))]
  congr 1
  induction t.lines with
  | nil => rfl
  | cons l lines ih =>
    rw [List.flatMap_cons, List.flatMap_cons, List.append_assoc, List.append_assoc,
      scan_append (lines_text l) (solid_lines _ (solid_rest t)), extract_line, ih]

theorem head_body (l : Line names) : l.body.head? ≠ some '\x7d' := by
  cases l with
  | entry key value tail =>
    intro h
    cases h
  | comment note =>
    intro h
    obtain ⟨s, hs⟩ := List.head?_eq_some_iff.mp (show note.1.head? = some '\x7d' from h)
    have hhash := note.2.2 '\x7d'
    rw [hs, List.dropWhile_cons_of_neg (by decide)] at hhash
    exact absurd (hhash rfl) (by decide)

/-- The closing brace is where it belongs. -/
theorem closing_render (t : Table names) :
    closing true t.render = some (t.header ++ t.lines.flatMap Line.text, t.rest) := by
  have hlines : ∀ lines : List (Line names), closing true (lines.flatMap Line.text ++ t.rest) =
      some (lines.flatMap Line.text, t.rest) := by
    intro lines
    induction lines with
    | nil => rfl
    | cons l lines ih =>
      rw [List.flatMap_cons, List.append_assoc,
        closing_append (lines_text l) (closing_line (newline_notMem_body l) (head_body l)), ih]
      rfl
  unfold Table.render
  rw [closing_append t.header_lines t.header_open, hlines]
  rfl

theorem readText_eq {s : Str} (h : '\r' ∉ s) : readText s = s := by
  induction s with
  | nil => rfl
  | cons c s ih =>
    rw [List.mem_cons, not_or] at h
    have hc : (c == '\r') = false := by simpa using Ne.symm h.1
    rw [readText, ih h.2, hc]
    · rfl
    · rintro s rfl
      exact absurd rfl h.1

theorem readText_render (t : Table names) : readText t.render = t.render := by
  have hno := t.no_return
  refine readText_eq ?_
  unfold Table.render Table.rest
  simp only [List.mem_append, List.mem_cons, not_or] at hno ⊢
  exact ⟨hno.1.1, hno.1.2, by decide, by decide, hno.2⟩

/-! ## The merge of a table -/

def emptyNote : Note := ⟨[], List.not_mem_nil, fun _ h => by cases h⟩

/-- The line of an entry. -/
def entryLine (names : Str → Option Char) (printable : Char → Bool) (e : Str × Str) : Line names :=
  .entry (literalOf names printable e.1) (literalOf names printable e.2) emptyNote

theorem text_entryLine (e : Str × Str) : (entryLine names printable e).text = entryText printable e := by
  change "    ".toList ++ (reprOf printable e.1 ++ (": ".toList ++ (reprOf printable e.2 ++ [',']))) ++ ['\n'] =
    entryText printable e
  unfold entryText
  simp only [List.append_assoc]
  rfl

theorem return_notMem_entryText (printable : Char → Bool) (e : Str × Str) :
    '\r' ∉ entryText printable e := by
  have hquote : ∀ s, '\r' ≠ reprQuote s := by
    intro s h
    rcases reprQuote_eq s with hs | hs <;> rw [hs] at h <;> cases h
  have hrepr : ∀ s, '\r' ∉ reprOf printable s := by
    intro s
    unfold reprOf
    simp only [List.mem_append, List.mem_cons, not_or]
    exact ⟨⟨hquote s, return_notMem_reprBody s⟩, hquote s, List.not_mem_nil⟩
  unfold entryText
  simp only [List.mem_append, not_or]
  exact ⟨⟨⟨⟨by decide, hrepr _⟩, by decide⟩, hrepr _⟩, by decide⟩

/-- The table with more entries at its end. -/
def Table.extend (t : Table names) (printable : Char → Bool) (added : List (Str × Str)) : Table names where
  header := t.header
  lines := t.lines ++ added.map (entryLine names printable)
  footer := t.footer
  header_lines := t.header_lines
  header_open := t.header_open
  no_return := by
    have hno := t.no_return
    have hadded : '\r' ∉ (added.map (entryLine names printable)).flatMap Line.text := by
      rw [List.mem_flatMap]
      rintro ⟨l, hl, hmem⟩
      obtain ⟨e, -, rfl⟩ := List.mem_map.mp hl
      rw [text_entryLine] at hmem
      exact return_notMem_entryText printable e hmem
    rw [List.flatMap_append]
    simp only [List.mem_append, not_or] at hno ⊢
    exact ⟨⟨hno.1.1, hno.1.2, hadded⟩, hno.2⟩

/-- **What the merge leaves** of a table. -/
theorem merge_render (t : Table names) (records : List Record) :
    merge printable t.render records =
      { code := 0, source := (t.extend printable (newEntries t.scanned records)).render,
        added := newEntries t.scanned records } := by
  unfold merge
  dsimp only
  rw [readText_render, extract_render, closing_render]
  have hsource : (t.extend printable (newEntries t.scanned records)).render =
      t.header ++ t.lines.flatMap Line.text ++
        (newEntries t.scanned records).flatMap (entryText printable) ++ t.rest := by
    simp [Table.render, Table.extend, Table.rest, List.flatMap_map, text_entryLine]
  rw [hsource]
  cases hadded : newEntries t.scanned records with
  | nil => simp [Table.render]
  | cons e added => rfl

namespace Table

variable (t : Table names) (added : List (Str × Str))

theorem entries_extend : (t.extend printable added).entries = t.entries ++ added := by
  simp [Table.entries, Table.extend, List.flatMap_map, entryLine, Line.entries, literalOf]

theorem keys_extend : (t.extend printable added).keys = t.keys ++ added.map Prod.fst := by
  rw [Table.keys, entries_extend, List.map_append]
  rfl

theorem mem_scanned_extend (c : Str) : c ∈ (t.extend printable added).scanned ↔
    c ∈ t.scanned ∨ ∃ e ∈ added, reprBody printable e.1 = c := by
  have hraws : c ∈ (t.extend printable added).lines.flatMap Line.raws ↔
      c ∈ t.lines.flatMap Line.raws ∨ ∃ e ∈ added, reprBody printable e.1 = c := by
    simp [Table.extend, List.flatMap_map, entryLine, Line.raws, literalOf, eq_comm]
  change c ∈ extractExistingKeys t.header ++ (_ ++ extractExistingKeys t.rest) ↔ _
  unfold Table.scanned
  simp only [List.mem_append, hraws]
  rw [or_right_comm, ← or_assoc]

end Table

/-! ## What is added -/

/-- The commands that belong in the table. -/
def wanted (records : List Record) : List Str :=
  (commands records).filter fun cmd =>
    !DYNAMIC_SKIP.contains cmd && isDeterministic (recordsOf records cmd)

/-- The output of a command. -/
def output (records : List Record) (cmd : Str) : Str := value (recordsOf records cmd)

theorem nodup_commands (records : List Record) : (commands records).Nodup := by
  induction records with
  | nil => exact List.nodup_nil
  | cons r rs ih => exact List.nodup_cons.mpr ⟨by simp, ih.filter _⟩

theorem newEntries_perm (existing : List Str) (records : List Record) :
    (newEntries existing records).Perm
      (((wanted records).filter fun cmd => !existing.contains cmd).map fun cmd =>
        (cmd, output records cmd)) := by
  unfold newEntries
  refine (List.perm_insertionSort _ _).trans (List.Perm.of_eq ?_)
  unfold byCmd wanted
  rw [List.filterMap_map]
  generalize DYNAMIC_SKIP = skip
  induction commands records with
  | nil => rfl
  | cons c cs ih =>
    rw [List.filterMap_cons, ih, List.filter_cons]
    by_cases hskip : skip.contains c <;> by_cases hone : isDeterministic (recordsOf records c) <;>
      by_cases hknown : existing.contains c <;>
      simp only [Function.comp, hskip, hone, hknown, if_true, if_false, Bool.not_true, Bool.not_false,
        Bool.true_and, Bool.false_and, List.filter_cons, List.map_cons, Bool.false_eq_true, output]

theorem mem_newEntries {existing : List Str} {records : List Record} {e : Str × Str} :
    e ∈ newEntries existing records ↔
      e.1 ∈ wanted records ∧ e.1 ∉ existing ∧ e.2 = output records e.1 := by
  rw [(newEntries_perm existing records).mem_iff, List.mem_map]
  constructor
  · rintro ⟨c, hc, rfl⟩
    obtain ⟨hwanted, hnew⟩ := List.mem_filter.mp hc
    exact ⟨hwanted, by simpa using hnew, rfl⟩
  · rintro ⟨hwanted, hnew, houtput⟩
    exact ⟨e.1, List.mem_filter.mpr ⟨hwanted, by simpa using hnew⟩, by rw [← houtput]⟩

theorem nodup_newEntries (existing : List Str) (records : List Record) :
    ((newEntries existing records).map Prod.fst).Nodup := by
  rw [((newEntries_perm existing records).map Prod.fst).nodup_iff, List.map_map]
  have hid : (Prod.fst ∘ fun cmd => (cmd, output records cmd)) = id := rfl
  rw [hid, List.map_id]
  exact ((nodup_commands records).filter _).filter _

/-! ## The merge, twice -/

/-- What is asked of the merge. -/
structure Merged (printable : Char → Bool) (t : Table names) (records : List Record) : Prop where
  again : (merge printable (merge printable t.render records).source records).added = []
  source : (merge printable t.render records).source =
    (t.extend printable (merge printable t.render records).added).render
  once : (t.extend printable (merge printable t.render records).added).keys.Nodup
  /-- A key that the table does not have yet is defined with the output of the command. -/
  defined : ∀ c ∈ wanted records,
    ∃ v, (c, v) ∈ (t.extend printable (merge printable t.render records).added).entries ∧
      (c ∉ t.keys → v = output records c)

/-- A second run adds nothing: each command is read out of what the first leaves. -/
theorem again_iff (t : Table names) (records : List Record) :
    (merge printable (merge printable t.render records).source records).added = [] ↔
      ∀ c ∈ wanted records, c ∈ t.scanned ∨
        ∃ d ∈ wanted records, d ∉ t.scanned ∧ reprBody printable d = c := by
  rw [merge_render]
  dsimp only
  rw [merge_render]
  dsimp only
  rw [List.eq_nil_iff_forall_not_mem]
  constructor
  · intro h c hc
    have hread : c ∈ (t.extend printable (newEntries t.scanned records)).scanned := by
      by_contra hnot
      exact h (c, output records c) (mem_newEntries.mpr ⟨hc, hnot, rfl⟩)
    rcases (Table.mem_scanned_extend t _ c).mp hread with hold | ⟨e, he, rfl⟩
    · exact .inl hold
    · obtain ⟨hwanted, hnew, -⟩ := mem_newEntries.mp he
      exact .inr ⟨e.1, hwanted, hnew, rfl⟩
  · intro h e he
    obtain ⟨hwanted, hnew, -⟩ := mem_newEntries.mp he
    rw [Table.mem_scanned_extend, not_or] at hnew
    rcases h e.1 hwanted with hold | ⟨d, hd, hdnew, heq⟩
    · exact hnew.1 hold
    · exact hnew.2 ⟨(d, output records d), mem_newEntries.mpr ⟨hd, hdnew, rfl⟩, heq⟩

/-- Where each text of a set is written as one of them, none is escaped: the shortest that is would not be
written. -/
theorem reprBody_of_again {added : Str → Prop}
    (h : ∀ c, added c → ∃ d, added d ∧ reprBody printable d = c) (c : Str) (hc : added c) :
    reprBody printable c = c := by
  induction hlength : c.length using Nat.strong_induction_on generalizing c with
  | _ n ih =>
    obtain ⟨d, hd, rfl⟩ := h c hc
    have hle := @length_reprBody printable d
    rcases Nat.lt_or_eq_of_le hle with hlt | heq
    · have hsame := ih d.length (hlength ▸ hlt) d hd rfl
      rw [hsame] at hlt
      exact absurd hlt (Nat.lt_irrefl _)
    · rw [reprBody_eq_of_length heq.symm, reprBody_eq_of_length heq.symm]

theorem added_merge (t : Table names) (records : List Record) :
    (merge printable t.render records).added = newEntries t.scanned records := by
  rw [merge_render]

theorem mem_added {existing : List Str} {records : List Record} {c : Str} :
    c ∈ (newEntries existing records).map Prod.fst ↔ c ∈ wanted records ∧ c ∉ existing := by
  rw [List.mem_map]
  constructor
  · rintro ⟨e, he, rfl⟩
    exact ⟨(mem_newEntries.mp he).1, (mem_newEntries.mp he).2.1⟩
  · rintro ⟨hc, hnew⟩
    exact ⟨(c, output records c), mem_newEntries.mpr ⟨hc, hnew, rfl⟩, rfl⟩

/-- Each key once: what is read out of the source is what the keys are. -/
theorem once_iff (t : Table names) (records : List Record) :
    (t.extend printable (merge printable t.render records).added).keys.Nodup ↔
      t.keys.Nodup ∧ ∀ c ∈ wanted records, c ∈ t.keys → c ∈ t.scanned := by
  rw [added_merge, Table.keys_extend, List.nodup_append']
  constructor
  · rintro ⟨honce, -, hdisjoint⟩
    refine ⟨honce, fun c hc hkey => ?_⟩
    by_contra hnew
    exact hdisjoint hkey (mem_added.mpr ⟨hc, hnew⟩)
  · rintro ⟨honce, hall⟩
    refine ⟨honce, nodup_newEntries _ _, fun c hkey hnew => ?_⟩
    obtain ⟨hc, hnew⟩ := mem_added.mp hnew
    exact hnew (hall c hc hkey)

/-- Every command is defined: nothing but a key is read out as one. -/
theorem defined_iff (t : Table names) (records : List Record) :
    (∀ c ∈ wanted records,
      ∃ v, (c, v) ∈ (t.extend printable (merge printable t.render records).added).entries ∧
        (c ∉ t.keys → v = output records c)) ↔
      ∀ c ∈ wanted records, c ∈ t.scanned → c ∈ t.keys := by
  rw [added_merge, Table.entries_extend]
  constructor
  · intro h c hc hold
    obtain ⟨v, hv, -⟩ := h c hc
    rcases List.mem_append.mp hv with hv | hv
    · exact List.mem_map.mpr ⟨(c, v), hv, rfl⟩
    · exact absurd hold (mem_newEntries.mp hv).2.1
  · intro hall c hc
    by_cases hkey : c ∈ t.keys
    · obtain ⟨e, he, rfl⟩ := List.mem_map.mp hkey
      exact ⟨e.2, List.mem_append_left _ he, fun hnot => absurd hkey hnot⟩
    · have hnew : c ∉ t.scanned := fun hold => hkey (hall c hc hold)
      exact ⟨output records c, List.mem_append_right _ (mem_newEntries.mpr ⟨hc, hnew, rfl⟩), fun _ => rfl⟩

/-- **The merge holds good twice** exactly if the table has no key twice, what is read out of its source is
what its keys are, and each command that is added is written without an escape. -/
theorem merge_twice_iff (t : Table names) (records : List Record) :
    Merged printable t records ↔ t.keys.Nodup ∧ ∀ c ∈ wanted records,
      (c ∈ t.scanned ↔ c ∈ t.keys) ∧ (c ∈ t.keys ∨ reprBody printable c = c) := by
  constructor
  · intro h
    have hagain := (again_iff t records).mp h.again
    obtain ⟨honce, hread⟩ := (once_iff t records).mp h.once
    have hkeys := (defined_iff t records).mp h.defined
    -- an added command is read out again, so it is how an added command is written
    have hplain := @reprBody_of_again printable (fun c => c ∈ wanted records ∧ c ∉ t.scanned) fun c hc => by
        obtain hold | ⟨d, hd, hnew, heq⟩ := hagain c hc.1
        · exact absurd hold hc.2
        · exact ⟨d, ⟨hd, hnew⟩, heq⟩
    refine ⟨honce, fun c hc => ⟨⟨hkeys c hc, hread c hc⟩, ?_⟩⟩
    by_cases hkey : c ∈ t.keys
    · exact .inl hkey
    · exact .inr (hplain c ⟨hc, fun hold => hkey (hkeys c hc hold)⟩)
  · rintro ⟨honce, hall⟩
    have hagain : ∀ c ∈ wanted records, c ∈ t.scanned ∨
        ∃ d ∈ wanted records, d ∉ t.scanned ∧ reprBody printable d = c := by
      intro c hc
      obtain ⟨hread, hplain⟩ := hall c hc
      by_cases hold : c ∈ t.scanned
      · exact .inl hold
      · exact .inr ⟨c, hc, hold, hplain.resolve_left fun hkey => hold (hread.mpr hkey)⟩
    exact {
      again := (again_iff t records).mpr hagain
      source := by rw [merge_render]
      once := (once_iff t records).mpr ⟨honce, fun c hc => (hall c hc).1.mpr⟩
      defined := (defined_iff t records).mpr fun c hc => (hall c hc).1.mp }

/-! ## A table without entries -/

def emptyTable : Table fun _ => none where
  header := "LOOKUP: dict[str, str] = \x7b\n".toList
  lines := []
  footer := []
  header_lines := .inr (by decide)
  header_open := by decide
  no_return := by decide

/-- A command of two lines. -/
def twoLines : Record where
  cmd := "echo a\necho b".toList
  stdout := "a\nb\n".toList
  stderr := []
  rc := 0

/-- The second run adds it again. -/
theorem merge_adds_again : ¬ Merged (fun _ => true) emptyTable [twoLines] := by
  intro h
  have hagain := h.again
  revert hagain
  decide

end Cowrie.Scalpel.MergeToLookup
