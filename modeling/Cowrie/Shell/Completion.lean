import Cowrie.Lib.Words
import Cowrie.Shell.FsRun
import Cowrie.Text

/-!
# Completion with TAB (`src/cowrie/shell/honeypot.py:579-664`)

`handleTab` is what `HoneyPotShell.handle_TAB` puts into `lineBuffer`, the cursor being at the end. The line
is UTF-8, here as text: `bytes.split` cuts it at ASCII white space, where no character is cut.

With one match the line is put together from the words of `str.split()`, without the last of them; with
several from those of `str.split(" ")`. An exception, or no match, leaves the line as it is.

* `before` and `lastWord` are the parts of the line that `Keeps` asks for, at the beginning of the new one.
* `rebuilt` is what stands in the place of `before`, and what comes after `basedirOf`.
* **`tab_keeps_iff`**: the line is kept exactly if nothing is completed, or that is `before` and the
  directory of the word has no doubled slash (`Spaced`), or there is a space behind the last word
  (`Trails`), or the name repeats what was lost (`Repeats`).
* `keeps_proper_iff`: names of files as they should be do not repeat it, but for the one that is on the line.

Left out: what is written to the terminal.
-/

namespace Cowrie.Shell.Completion

open Cowrie.Lib Cowrie.Shell.Fs Heap

/-! ## The code -/

/-- White space of `bytes.split`. -/
def isAsciiBlank (c : Char) : Bool := c.toNat = 0x20 || (0x09 ≤ c.toNat && c.toNat ≤ 0x0d)

/-- `clue`, none for an `IndexError`: the line has blanks only. -/
def clueOf (line : Str) : Option Str :=
  if line.getLast? = some ' ' then some [] else (words isAsciiBlank line).getLast?

def basedirOf (clue : Str) : Str :=
  let basedir := dirname clue
  if basedir ≠ [] ∧ basedir.getLast? ≠ some '/' then basedir ++ ['/'] else basedir

/-- The loop over the entries. -/
def matching (f : HoneyPotFilesystem) (clue : Str) (xs : List Ref) : List Ref :=
  xs.filter fun x => clue.isEmpty || (basename clue).isPrefixOf (f.name x)

/-- `files`. Of `bytes` the elements have no name; that is found out here, or after the loop. -/
def filesOf (f : HoneyPotFilesystem) (cwd clue : Str) : Except FsError (List Ref) :=
  let tmppath := if basedirOf clue = [] then cwd else basedirOf clue
  match resolvePath f.home tmppath cwd with
  | none => .ok []
  | some r =>
    match f.exists r with
    | .error e => .error e
    | .ok false => .ok []
    | .ok true =>
      match f.getPath r with
      | .error e => .error e
      | .ok d => (f.listing d).map (matching f clue)

/-- The longest common prefix of two texts. -/
def commonPrefix₂ : Str → Str → Str
  | c :: s, d :: t => if c = d then c :: commonPrefix₂ s t else []
  | _, _ => []

/-- `os.path.commonprefix`. -/
def commonPrefix : List Str → Str
  | [] => []
  | s :: ss => ss.foldl commonPrefix₂ s

/-- `/` or a space. -/
def suffixOf (f : HoneyPotFilesystem) (x : Ref) : Char := if (f.node x).type = .dir then '/' else ' '

/-- The new line. -/
def handleTab (f : HoneyPotFilesystem) (cwd line : Str) : Str :=
  match clueOf line with
  | none => line
  | some clue =>
    match filesOf f cwd clue with
    | .error _ | .ok [] => line
    | .ok [x] =>
      [' '].intercalate ((words isBlank line).dropLast ++ [basedirOf clue ++ f.name x]) ++ [suffixOf f x]
    | .ok files =>
      let common := if basename clue ≠ [] then commonPrefix (files.map f.name) else []
      [' '].intercalate ((line.splitOn ' ').dropLast ++ [basedirOf clue ++ common])

/-! ## What is asked -/

/-- The last word of the line; it is empty if the line ends in a space. -/
def lastWord (line : Str) : Str :=
  if line.getLast? = some ' ' then []
  else (line.rdropWhile isAsciiBlank).rtakeWhile fun c => !isAsciiBlank c

/-- The line up to the beginning of its last word. -/
def before (line : Str) : Str :=
  if line.getLast? = some ' ' then line
  else (line.rdropWhile isAsciiBlank).rdropWhile fun c => !isAsciiBlank c

/-- What follows the last word. -/
def trail (line : Str) : Str :=
  if line.getLast? = some ' ' then [] else line.rtakeWhile isAsciiBlank

/-- The new line begins like the old one, and then with the last word. -/
def Keeps (line new : Str) : Prop := before line ++ lastWord line <+: new

theorem line_eq (line : Str) : before line ++ lastWord line ++ trail line = line := by
  unfold before lastWord trail
  split_ifs with h
  · simp
  · rw [List.rdropWhile_append_rtakeWhile, List.rdropWhile_append_rtakeWhile]

theorem ends_before (line : Str) : EndsIn isAsciiBlank (before line) := by
  unfold before
  split_ifs with h
  · intro c hc
    rw [h, Option.mem_some_iff] at hc
    exact hc ▸ rfl
  · intro c hc
    by_cases hnil : (line.rdropWhile isAsciiBlank).rdropWhile (fun c => !isAsciiBlank c) = []
    · rw [hnil] at hc
      cases hc
    · rw [List.getLast?_eq_some_getLast hnil, Option.mem_some_iff] at hc
      have hlast := List.rdropWhile_last_not _ _ hnil
      rw [hc] at hlast
      simpa using hlast

theorem notBlank_lastWord {line : Str} {c : Char} (h : c ∈ lastWord line) : isAsciiBlank c = false := by
  unfold lastWord at h
  split_ifs at h
  · cases h
  · simpa using List.mem_rtakeWhile_imp h

theorem blank_trail {line : Str} {c : Char} (h : c ∈ trail line) : isAsciiBlank c := by
  unfold trail at h
  split_ifs at h
  · cases h
  · exact List.mem_rtakeWhile_imp h

theorem isBlank_of_ascii {c : Char} (h : isAsciiBlank c) : isBlank c := by
  unfold isAsciiBlank at h
  unfold isBlank
  simp only [Bool.or_eq_true, Bool.and_eq_true, decide_eq_true_eq] at h ⊢
  omega

/-- The words of the line, at more blanks than ASCII has. -/
theorem words_line (line : Str) :
    words isBlank line = words isBlank (before line) ++ words isBlank (lastWord line) := by
  have hends : EndsIn isBlank (before line) := fun c hc => isBlank_of_ascii (ends_before line c hc)
  conv_lhs => rw [← line_eq line]
  rw [words_append_blank fun c hc => isBlank_of_ascii (blank_trail hc), words_append hends]

/-- **The clue** is the last word. -/
theorem clueOf_eq {line clue : Str} (h : clueOf line = some clue) : clue = lastWord line := by
  unfold clueOf at h
  split_ifs at h with hspace
  · unfold lastWord
    rw [if_pos hspace]
    exact (Option.some.inj h).symm
  · have hwords : words isAsciiBlank line =
        words isAsciiBlank (before line) ++ words isAsciiBlank (lastWord line) := by
      conv_lhs => rw [← line_eq line]
      rw [words_append_blank fun c hc => blank_trail hc, words_append (ends_before line)]
    by_cases hnil : lastWord line = []
    · -- a line without a word is all blanks
      have hbody : line.rdropWhile isAsciiBlank = [] := by
        by_contra hbody
        unfold lastWord at hnil
        rw [if_neg hspace, List.rtakeWhile_eq_nil_iff] at hnil
        exact hnil hbody (by simpa using List.rdropWhile_last_not _ _ hbody)
      rw [words_of_blank (List.rdropWhile_eq_nil_iff.mp hbody)] at h
      cases h
    · rw [hwords, words_of_none (fun c hc => notBlank_lastWord hc) hnil, List.getLast?_concat] at h
      exact (Option.some.inj h).symm

/-! ## The directory of the word -/

/-- The word up to its last slash. -/
def directory (clue : Str) : Str := clue.rdropWhile fun c => c ≠ '/'

theorem directory_basename (clue : Str) : directory clue ++ basename clue = clue :=
  List.rdropWhile_append_rtakeWhile

/-- `basedir` has one slash at its end, where the word may have more. -/
theorem directory_eq (clue : Str) :
    ∃ slashes, directory clue = basedirOf clue ++ slashes ∧ ∀ c ∈ slashes, c = '/' := by
  have hdirname : dirname clue = if (directory clue).all (· = '/') then directory clue
      else rstripSlash (directory clue) := rfl
  unfold basedirOf
  dsimp only
  rw [hdirname]
  by_cases hnil : directory clue = []
  · rw [hnil]
    exact ⟨[], rfl, fun c hc => absurd hc List.not_mem_nil⟩
  obtain ⟨u, c, hu⟩ := List.eq_nil_or_concat (directory clue) |>.resolve_left hnil
  rw [List.concat_eq_append] at hu
  have hc : c = '/' := by
    have hlast := List.rdropWhile_last_not _ clue hnil
    have hget : (directory clue).getLast hnil = c := by simp [hu]
    change ¬ decide ((directory clue).getLast hnil ≠ '/') = true at hlast
    rw [hget] at hlast
    simpa using hlast
  subst hc
  split_ifs with hall hcond hcond
  · rw [hu, List.getLast?_concat] at hcond
    exact absurd rfl hcond.2
  · exact ⟨[], (List.append_nil _).symm, fun c hc => absurd hc List.not_mem_nil⟩
  · -- the slashes at the end, but for one
    have htail : ∀ c ∈ (directory clue).rtakeWhile (· = '/'), c = '/' := fun c hc => by
      simpa using List.mem_rtakeWhile_imp hc
    cases hs : (directory clue).rtakeWhile (· = '/') with
    | nil =>
      rw [hu, List.rtakeWhile_concat_pos _ _ _ (by simp)] at hs
      simp at hs
    | cons c slashes =>
      rw [hs] at htail
      refine ⟨slashes, ?_, fun d hd => htail d (List.mem_cons_of_mem c hd)⟩
      rw [← htail c List.mem_cons_self, List.append_assoc, List.singleton_append, ← hs]
      exact List.rdropWhile_append_rtakeWhile.symm
  · -- there is something else than slashes
    have hstrip : rstripSlash (directory clue) ≠ [] := fun hstrip =>
      hall (List.all_eq_true.mpr (List.rdropWhile_eq_nil_iff.mp hstrip))
    refine absurd ⟨hstrip, fun hlast => ?_⟩ hcond
    rw [List.getLast?_eq_some_getLast hstrip] at hlast
    refine List.rdropWhile_last_not _ _ hstrip ?_
    exact decide_eq_true (Option.some.inj hlast)

/-! ## What the line is put together from -/

section Rebuilt

variable {f : HoneyPotFilesystem} {cwd line clue : Str} {files : List Ref}

/-- What stands before `basedir`, and after it. -/
def rebuilt (f : HoneyPotFilesystem) (line clue : Str) : List Ref → Str × Str
  | [x] => (spaced ' ' (words isBlank line).dropLast, f.name x ++ [suffixOf f x])
  | files => (spaced ' ' (line.splitOn ' ').dropLast,
      if basename clue ≠ [] then commonPrefix (files.map f.name) else [])

/-- **The new line**, if something is completed. -/
theorem handleTab_eq (hclue : clueOf line = some clue) (hfiles : filesOf f cwd clue = .ok files)
    (hne : files ≠ []) :
    handleTab f cwd line =
      (rebuilt f line clue files).1 ++ basedirOf clue ++ (rebuilt f line clue files).2 := by
  unfold handleTab
  rw [hclue]
  dsimp only
  rw [hfiles]
  match files, hne with
  | [x], _ =>
    dsimp only [rebuilt]
    rw [intercalate_concat, List.append_assoc, List.append_assoc, List.append_assoc]
  | x :: y :: files, _ =>
    dsimp only [rebuilt]
    rw [intercalate_concat, List.append_assoc]

/-- Otherwise it is the old one. -/
theorem handleTab_idle (h : ∀ clue files, clueOf line = some clue →
    filesOf f cwd clue = .ok files → files = []) : handleTab f cwd line = line := by
  unfold handleTab
  cases hclue : clueOf line with
  | none => rfl
  | some clue =>
    dsimp only
    cases hfiles : filesOf f cwd clue with
    | error e => rfl
    | ok files =>
      rw [h clue files hclue hfiles]

theorem mem_filesOf {x : Ref} (hfiles : filesOf f cwd clue = .ok files) (hx : x ∈ files) :
    basename clue <+: f.name x := by
  unfold filesOf at hfiles
  dsimp only at hfiles
  split at hfiles
  · cases hfiles
    cases hx
  · split at hfiles
    · cases hfiles
    · cases hfiles
      cases hx
    · split at hfiles
      · cases hfiles
      · rename_i d _
        cases hlist : f.listing d with
        | error e =>
          rw [hlist] at hfiles
          cases hfiles
        | ok xs =>
          rw [hlist] at hfiles
          obtain rfl := Except.ok.inj hfiles
          obtain ⟨-, hmatch⟩ := List.mem_filter.mp hx
          rcases Bool.or_eq_true_iff.mp hmatch with hnil | hstart
          · rw [List.isEmpty_iff.mp hnil]
            exact List.nil_prefix
          · exact List.isPrefixOf_iff_prefix.mp hstart

theorem prefix_commonPrefix₂ {s t u : Str} (hs : u <+: s) (ht : u <+: t) :
    u <+: commonPrefix₂ s t := by
  induction u generalizing s t with
  | nil => exact List.nil_prefix
  | cons c u ih =>
    obtain ⟨s, rfl⟩ := hs
    obtain ⟨t, rfl⟩ := ht
    rw [List.cons_append, List.cons_append, commonPrefix₂, if_pos rfl, List.cons_prefix_cons]
    exact ⟨rfl, ih (List.prefix_append u s) (List.prefix_append u t)⟩

theorem prefix_commonPrefix {names : List Str} {u : Str} (hne : names ≠ [])
    (h : ∀ s ∈ names, u <+: s) : u <+: commonPrefix names := by
  obtain ⟨s, names, rfl⟩ := List.exists_cons_of_ne_nil hne
  unfold commonPrefix
  have hs := h s List.mem_cons_self
  replace h : ∀ t ∈ names, u <+: t := fun t ht => h t (List.mem_cons_of_mem s ht)
  clear hne
  induction names generalizing s with
  | nil => exact hs
  | cons t names ih =>
    exact ih _ (prefix_commonPrefix₂ hs (h t List.mem_cons_self)) fun v hv =>
      h v (List.mem_cons_of_mem t hv)

/-- The base name is completed. -/
theorem prefix_basename (hfiles : filesOf f cwd clue = .ok files) (hne : files ≠ []) :
    basename clue <+: (rebuilt f line clue files).2 := by
  match files, hne with
  | [x], _ =>
    exact (mem_filesOf hfiles List.mem_cons_self).trans (List.prefix_append _ _)
  | x :: y :: files, _ =>
    dsimp only [rebuilt]
    split_ifs with hbase
    · refine prefix_commonPrefix (by simp) fun s hs => ?_
      obtain ⟨z, hz, rfl⟩ := List.mem_map.mp hs
      exact mem_filesOf hfiles hz
    · rw [not_not.mp hbase]

/-! ## Exactly when the line is kept -/

/-- The line up to its last word is what it is put together from, and the directory of the word has no
doubled slash at its end. -/
def Spaced (line first : Str) : Prop :=
  before line = first ∧ directory (lastWord line) = basedirOf (lastWord line)

/-- Several names match, and there is a space behind the last word: it comes again. -/
def Trails (line : Str) (files : List Ref) : Prop := 2 ≤ files.length ∧ ' ' ∈ trail line

/-- The completed name begins with what was lost. -/
def Repeats (line first text : Str) : Prop :=
  ∃ lost, before line ++ lastWord line = first ++ basedirOf (lastWord line) ++ lost ∧ lost <+: text

/-- Nothing is completed. -/
def Idle (f : HoneyPotFilesystem) (cwd line : Str) : Prop :=
  ∀ clue files, clueOf line = some clue → filesOf f cwd clue = .ok files → files = []

theorem space_notMem_lastWord (line : Str) : ' ' ∉ lastWord line := fun h => by
  have hblank := notBlank_lastWord h
  cases hblank

/-- What ends in a space does not end in the last word. -/
theorem prefix_before {u : Str} (h : u ++ [' '] <+: before line ++ lastWord line) :
    u ++ [' '] <+: before line := by
  rcases List.prefix_or_prefix_of_prefix h (List.prefix_append _ _) with hbefore | ⟨r, hr⟩
  · exact hbefore
  · rw [← hr, List.prefix_append_right_inj] at h
    rcases List.eq_nil_or_concat r with rfl | ⟨r, c, rfl⟩
    · rw [← hr, List.append_nil]
    · rw [List.concat_eq_append, ← List.append_assoc] at hr
      obtain rfl : c = ' ' := by simpa using congrArg List.getLast? hr
      exact absurd (h.subset (by simp)) (space_notMem_lastWord line)

/-- With `split(" ")` the line is cut before its last word, or behind it. -/
theorem trail_splitOn (line : Str) :
    (' ' ∈ trail line → before line ++ lastWord line <+: spaced ' ' (line.splitOn ' ').dropLast) ∧
      (' ' ∉ trail line → spaced ' ' (line.splitOn ' ').dropLast <+: before line) := by
  have hline := line_eq line
  rcases spaced_splitOn ' ' line with ⟨hnone, hfirst⟩ | ⟨u, v, huv, hv, hfirst⟩
  · rw [hfirst]
    exact ⟨fun htrail => absurd (hline ▸ List.mem_append_right _ htrail) hnone, fun _ => List.nil_prefix⟩
  rw [hfirst]
  have hcut : line = u ++ [' '] ++ v := by rw [huv, List.append_assoc, List.singleton_append]
  rcases List.prefix_or_prefix_of_prefix ⟨trail line, hline⟩ ⟨v, hcut.symm⟩ with ⟨r, hr⟩ | ⟨r, hr⟩
  · refine ⟨fun _ => ⟨r, hr⟩, fun htrail => ?_⟩
    have hrest : trail line = r ++ v := by
      refine (List.append_right_inj (before line ++ lastWord line)).mp ?_
      rw [hline, ← List.append_assoc, hr, hcut]
    rcases List.eq_nil_or_concat r with rfl | ⟨r, c, rfl⟩
    · rw [List.append_nil] at hr
      exact prefix_before (hr ▸ List.prefix_rfl)
    · -- the space is behind the last word
      rw [List.concat_eq_append, ← List.append_assoc] at hr
      obtain rfl : c = ' ' := by simpa using congrArg List.getLast? hr
      rw [hrest] at htrail
      exact absurd (by simp) htrail
  · have hrest : v = r ++ trail line := by
      refine (List.append_right_inj (u ++ [' '])).mp ?_
      rw [← hcut, ← List.append_assoc, hr, hline]
    refine ⟨fun htrail => absurd ?_ hv, fun _ => prefix_before ⟨r, hr⟩⟩
    rw [hrest]
    exact List.mem_append_right r htrail

/-- The directory of the last word, as it is put together, is in the word. -/
theorem prefix_basedirOf (clue : Str) : basedirOf clue <+: clue := by
  obtain ⟨slashes, hdirectory, -⟩ := directory_eq clue
  have hclue := directory_basename clue
  rw [hdirectory, List.append_assoc] at hclue
  exact ⟨_, hclue⟩

variable {first text : Str}

theorem keeps_of_repeats (h : Repeats line first text) :
    Keeps line (first ++ basedirOf (lastWord line) ++ text) := by
  obtain ⟨lost, heq, htext⟩ := h
  unfold Keeps
  rw [heq]
  exact (List.prefix_append_right_inj _).mpr htext

theorem repeats_of_keeps (hfirst : first <+: before line)
    (h : Keeps line (first ++ basedirOf (lastWord line) ++ text)) : Repeats line first text := by
  have hlength : (first ++ basedirOf (lastWord line)).length ≤ (before line ++ lastWord line).length := by
    rw [List.length_append, List.length_append]
    exact Nat.add_le_add hfirst.length_le (prefix_basedirOf _).length_le
  obtain ⟨lost, hlost⟩ := List.prefix_of_prefix_length_le (List.prefix_append _ text) h hlength
  refine ⟨lost, hlost.symm, ?_⟩
  unfold Keeps at h
  rw [← hlost] at h
  exact (List.prefix_append_right_inj _).mp h

theorem repeats_of_spaced (h : Spaced line first) (htext : basename (lastWord line) <+: text) :
    Repeats line first text := by
  refine ⟨basename (lastWord line), ?_, htext⟩
  rw [h.1, ← h.2, List.append_assoc, directory_basename]

/-- What the line is put together from is no more than what it was, if the last word is kept. -/
theorem prefix_first (h : Keeps line ((rebuilt f line clue files).1 ++ basedirOf clue ++ text))
    (htrails : ¬ Trails line files) (hne : files ≠ []) :
    (rebuilt f line clue files).1 <+: before line := by
  match files, hne with
  | [x], _ =>
    dsimp only [rebuilt] at h ⊢
    unfold Keeps at h
    rw [List.append_assoc, words_line] at h
    rw [words_line]
    exact prefix_spaced_words rfl (fun c hc => isBlank_of_ascii (ends_before line c hc))
      (space_notMem_lastWord line) h
  | x :: y :: files, _ =>
    refine (trail_splitOn line).2 fun htrail => htrails ⟨?_, htrail⟩
    rw [List.length_cons, List.length_cons]
    omega

/-- What is completed keeps the line. -/
def Completes (line first text : Str) (files : List Ref) : Prop :=
  Spaced line first ∨ Trails line files ∨ Repeats line first text

theorem keeps_iff (hclue : clueOf line = some clue) (hfiles : filesOf f cwd clue = .ok files)
    (hne : files ≠ []) : Keeps line (handleTab f cwd line) ↔
      Completes line (rebuilt f line clue files).1 (rebuilt f line clue files).2 files := by
  obtain rfl := clueOf_eq hclue
  rw [handleTab_eq hclue hfiles hne]
  constructor
  · intro h
    by_cases htrails : Trails line files
    · exact .inr (.inl htrails)
    · exact .inr (.inr (repeats_of_keeps (prefix_first h htrails hne) h))
  · rintro (hspaced | ⟨hseveral, htrail⟩ | hrepeats)
    · exact keeps_of_repeats (repeats_of_spaced hspaced (prefix_basename hfiles hne))
    · match files, hseveral with
      | x :: y :: files, _ =>
        have hkept := (trail_splitOn line).1 htrail
        unfold Keeps
        rw [List.append_assoc]
        exact hkept.trans (List.prefix_append _ _)
    · exact keeps_of_repeats hrepeats

/-- Not empty, without slashes and blanks. -/
def ProperNames (f : HoneyPotFilesystem) (files : List Ref) : Prop :=
  ∀ x ∈ files, f.name x ≠ [] ∧ ∀ c ∈ f.name x, c ≠ '/' ∧ isAsciiBlank c = false

theorem commonPrefix₂_start (s t : Str) : commonPrefix₂ s t <+: s := by
  induction s generalizing t with
  | nil => exact List.nil_prefix
  | cons c s ih =>
    cases t with
    | nil => exact List.nil_prefix
    | cons d t =>
      unfold commonPrefix₂
      split_ifs with heq
      · exact List.cons_prefix_cons.mpr ⟨rfl, ih t⟩
      · exact List.nil_prefix

theorem commonPrefix_start (s : Str) (names : List Str) : commonPrefix (s :: names) <+: s := by
  unfold commonPrefix
  induction names generalizing s with
  | nil => exact List.prefix_rfl
  | cons t names ih => exact (ih _).trans (commonPrefix₂_start s t)

/-- Several names have what is common to them from the first. -/
theorem rebuilt_several (f : HoneyPotFilesystem) (line clue : Str) (x y : Ref) (files : List Ref) :
    (rebuilt f line clue (x :: y :: files)).2 <+: f.name x := by
  dsimp only [rebuilt]
  split_ifs
  · exact commonPrefix_start _ _
  · exact List.nil_prefix

/-- A completion does not begin with a slash. -/
theorem head_ne_slash (hproper : ProperNames f files) (hne : files ≠ []) {c : Char} {u : Str}
    (h : (rebuilt f line clue files).2 = c :: u) : c ≠ '/' := by
  match files, hne with
  | [x], _ =>
    obtain ⟨hname, hall⟩ := hproper x List.mem_cons_self
    obtain ⟨d, name, hd⟩ := List.exists_cons_of_ne_nil hname
    dsimp only [rebuilt] at h
    rw [hd, List.cons_append, List.cons.injEq] at h
    exact h.1 ▸ (hall d (hd ▸ List.mem_cons_self)).1
  | x :: y :: files, _ =>
    have hstart := rebuilt_several f line clue x y files
    rw [h] at hstart
    exact ((hproper x List.mem_cons_self).2 c (hstart.subset List.mem_cons_self)).1

/-- A blank in a completion is at its end, behind the only name. -/
theorem blank_completion (hproper : ProperNames f files) (hne : files ≠ []) {c : Char} {u v : Str}
    (h : (rebuilt f line clue files).2 = u ++ c :: v) (hc : isAsciiBlank c) :
    v = [] ∧ ∃ x, files = [x] ∧ u = f.name x ∧ c = ' ' ∧ suffixOf f x = ' ' := by
  match files, hne with
  | [x], _ =>
    have hname := (hproper x List.mem_cons_self).2
    dsimp only [rebuilt] at h
    rcases List.eq_nil_or_concat v with rfl | ⟨v, d, rfl⟩
    · obtain ⟨hu, hsuffix⟩ := List.append_inj' h rfl
      obtain rfl : suffixOf f x = c := by simpa using hsuffix
      have hspace : suffixOf f x = ' ' := by
        unfold suffixOf at hc ⊢
        split_ifs at hc ⊢
        · cases hc
        · rfl
      exact ⟨rfl, x, rfl, hu.symm, hspace, hspace⟩
    · -- it would be in the name
      rw [List.concat_eq_append, ← List.cons_append, ← List.append_assoc] at h
      obtain ⟨hu, -⟩ := List.append_inj' h rfl
      have hblank := (hname c (hu ▸ by simp)).2
      rw [hc] at hblank
      cases hblank
  | x :: y :: files, _ =>
    have hstart := rebuilt_several f line clue x y files
    have hblank := ((hproper x List.mem_cons_self).2 c (hstart.subset (h ▸ by simp))).2
    rw [hc] at hblank
    cases hblank

theorem line_of_space (h : line.getLast? = some ' ') : before line = line ∧ lastWord line = [] :=
  ⟨if_pos h, if_pos h⟩

/-- A line without a last word ends in a space. -/
theorem ends_of_lastWord (hclue : clueOf line = some clue) (h : lastWord line = []) :
    line.getLast? = some ' ' := by
  by_contra hspace
  have heq := clueOf_eq hclue
  unfold clueOf at hclue
  rw [if_neg hspace] at hclue
  exact (notMem_words (List.mem_of_getLast? hclue)).1 (heq.trans h)

/-- The new line is the old one, by accident: the only match is a file with the name of the last word. -/
def Named (f : HoneyPotFilesystem) (line first : Str) (files : List Ref) : Prop :=
  ∃ x, files = [x] ∧ suffixOf f x = ' ' ∧ line = first ++ f.name x ++ [' ']

/-- With proper names, a name that repeats what was lost is on the line. -/
theorem named_of_repeats (hclue : clueOf line = some clue) (hne : files ≠ [])
    (hproper : ProperNames f files) (hfirst : first <+: before line)
    (h : Repeats line first (rebuilt f line clue files).2) :
    Spaced line first ∨ Named f line first files := by
  obtain ⟨lost, heq, rest, htext⟩ := h
  obtain ⟨gap, hgap⟩ := hfirst
  rw [← hgap, List.append_assoc, List.append_assoc, List.append_cancel_left_eq] at heq
  rcases List.eq_nil_or_concat gap with rfl | ⟨gap, c, rfl⟩
  · -- nothing is lost but slashes
    refine .inl ⟨by rw [← hgap, List.append_nil], ?_⟩
    obtain ⟨slashes, hdirectory, hslashes⟩ := directory_eq (lastWord line)
    have hword : lastWord line = basedirOf (lastWord line) ++ (slashes ++ basename (lastWord line)) := by
      rw [← List.append_assoc, ← hdirectory, directory_basename]
    replace heq := List.append_cancel_left (hword.symm.trans heq)
    cases slashes with
    | nil => rw [hdirectory, List.append_nil]
    | cons s slashes =>
      rw [← heq, List.cons_append, List.cons_append] at htext
      exact absurd (hslashes s List.mem_cons_self) (head_ne_slash hproper hne htext.symm)
  · -- a blank is lost: it would be in the name
    rw [List.concat_eq_append] at hgap heq
    have hc : isAsciiBlank c := ends_before line c (by simp [← hgap])
    rw [List.append_assoc, List.singleton_append] at heq
    obtain ⟨d, hd, hlost⟩ : ∃ d, gap = basedirOf (lastWord line) ++ d ∧ lost = d ++ c :: lastWord line := by
      rcases List.append_eq_append_iff.mp heq with ⟨d, hbasedir, hd⟩ | hbehind
      · cases d with
        | nil => exact ⟨[], by rw [hbasedir, List.append_nil, List.append_nil], hd.symm⟩
        | cons e d =>
          obtain ⟨rfl, -⟩ := List.cons.inj hd
          have hmem : c ∈ lastWord line := (prefix_basedirOf _).subset (hbasedir ▸ by simp)
          rw [notBlank_lastWord hmem] at hc
          cases hc
      · exact hbehind
    rw [hlost, List.append_assoc, List.cons_append] at htext
    obtain ⟨hnil, x, hx, hname, rfl, hsuffix⟩ := blank_completion hproper hne htext.symm hc
    have hword : lastWord line = [] := (List.append_eq_nil_iff.mp hnil).1
    have hspace := ends_of_lastWord hclue hword
    refine .inr ⟨x, hx, hsuffix, ?_⟩
    rw [hword, show basedirOf [] = [] from rfl, List.nil_append] at hd
    rw [← hname, ← hd, List.append_assoc, hgap]
    exact (line_of_space hspace).1.symm

/-- **With proper names** the line is kept if its blanks and slashes are, or a space follows the last word,
or the file is on the line already. -/
theorem keeps_proper_iff (hclue : clueOf line = some clue) (hfiles : filesOf f cwd clue = .ok files)
    (hne : files ≠ []) (hproper : ProperNames f files) : Keeps line (handleTab f cwd line) ↔
      Spaced line (rebuilt f line clue files).1 ∨ Trails line files ∨
        Named f line (rebuilt f line clue files).1 files := by
  rw [keeps_iff hclue hfiles hne]
  constructor
  · intro h
    by_cases htrails : Trails line files
    · exact .inr (.inl htrails)
    · have hkeeps := handleTab_eq hclue hfiles hne ▸ (keeps_iff hclue hfiles hne).mpr h
      have hfirst := prefix_first hkeeps htrails hne
      rcases h with hspaced | htrails | hrepeats
      · exact .inl hspaced
      · exact .inr (.inl htrails)
      · exact (named_of_repeats hclue hne hproper hfirst hrepeats).imp_right .inr
  · rintro (hspaced | htrails | ⟨x, rfl, hsuffix, hline⟩)
    · exact .inl hspaced
    · exact .inr (.inl htrails)
    · have hspace : line.getLast? = some ' ' := by rw [hline, List.getLast?_concat]
      obtain ⟨hbefore, hword⟩ := line_of_space hspace
      refine .inr (.inr ⟨f.name x ++ [' '], ?_, ?_⟩)
      · rw [hbefore, hword, List.append_nil, show basedirOf [] = [] from rfl, List.append_nil,
          ← List.append_assoc]
        exact hline
      · dsimp only [rebuilt]
        rw [hsuffix]

end Rebuilt

end Cowrie.Shell.Completion
