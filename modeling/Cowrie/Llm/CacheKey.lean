import Cowrie.Lib.Words
import Cowrie.Llm.Bedrock

/-!
# The key of the response cache (`build_cache_key` in `src/cowrie/llm/bedrock.py`)

The key is the digest of the normalised command, the working directory, the user name and the host name, with
`|` between them, and each of the four may contain a `|`. Lone surrogates, which `encode` refuses, are left out.

* `raw` is the digested text. `cut` finds the first separator, where the text before it has none.
* `Unambiguous`: no `|` after the first character of a word of the command, at its very beginning, or in one of
  the other three.

Results:
* `eq_of_raw_eq`: nothing else has the raw text of an unambiguous tuple.
* `shared_of_ambiguous`: an ambiguous one shares its raw text, by a `|` taken for a separator.
* **`buildCacheKey_separates_iff`**: exactly the unambiguous tuples have a key of their own.
-/

namespace Cowrie.Llm

open Lib

/-! ## The text that is digested -/

/-- `" ".join(command.split())`. -/
def normalise (command : String) : String := " ".intercalate (splitBlanks command)

/-- What is digested, from a normalised command. -/
def raw (command cwd username hostname : List Char) : List Char :=
  command ++ '|' :: (cwd ++ '|' :: (username ++ '|' :: hostname))

/-- No `|` can be taken for a separator, nor a separator for anything else. -/
def Unambiguous (command cwd username hostname : String) : Prop :=
  (∀ word ∈ splitBlanks command, '|' ∉ word.toList.tail) ∧
    (∀ word ∈ (splitBlanks command).head?, word.toList.head? ≠ some '|') ∧
    '|' ∉ cwd.toList ∧ '|' ∉ username.toList ∧ '|' ∉ hostname.toList

theorem splitBlanks_eq (s : String) : splitBlanks s = (words isBlank s.toList).map String.ofList := by
  unfold splitBlanks words
  congr 2
  funext w
  cases w <;> rfl

theorem toList_normalise (command : String) :
    (normalise command).toList = [' '].intercalate (words isBlank command.toList) := by
  unfold normalise
  rw [String.toList_intercalate, splitBlanks_eq, List.map_map]
  simp

theorem buildCacheKey_eq (sha256 : String → String) (command cwd username hostname : String) :
    buildCacheKey sha256 command cwd username hostname =
      sha256 (String.ofList (raw (normalise command).toList cwd.toList username.toList hostname.toList)) := by
  have hbar : "|".toList = ['|'] := rfl
  show sha256 (normalise command ++ "|" ++ cwd ++ "|" ++ username ++ "|" ++ hostname) = _
  refine congrArg sha256 (String.toList_injective ?_)
  simp only [String.toList_append, String.toList_ofList, hbar, raw, List.append_assoc, List.cons_append,
    List.nil_append]

/-- Two ways to cut a text at a bar. -/
theorem cut {s s' t t' : List Char} (h : s ++ '|' :: t = s' ++ '|' :: t') :
    (s = s' ∧ t = t') ∨ (∃ m, s' = s ++ '|' :: m ∧ t = m ++ '|' :: t') ∨
      ∃ m, s = s' ++ '|' :: m ∧ t' = m ++ '|' :: t := by
  rcases List.append_eq_append_iff.mp h with ⟨m, rfl, hm⟩ | ⟨m, rfl, hm⟩
  · cases m with
    | nil => exact .inl ⟨(List.append_nil s).symm, by simpa using hm⟩
    | cons c m =>
      obtain ⟨rfl, rfl⟩ := List.cons.inj hm
      exact .inr (.inl ⟨m, rfl, rfl⟩)
  · cases m with
    | nil => exact .inl ⟨List.append_nil s', by simpa using hm.symm⟩
    | cons c m =>
      obtain ⟨rfl, rfl⟩ := List.cons.inj hm
      exact .inr (.inr ⟨m, rfl, rfl⟩)

/-! ## Bars in a normalised command -/

section
variable {ws vs : List (List Char)} {m : List Char}

theorem isBlank_space : isBlank ' ' = true := by decide

theorem isBlank_bar : isBlank '|' = false := by decide

/-- What is before a bar of an unambiguous command is no normalised command. -/
theorem not_cut (hws : Plain isBlank ws) (hbars : ∀ w ∈ ws, '|' ∉ w.tail)
    (hfirst : ∀ w ∈ ws.head?, w.head? ≠ some '|') (hvs : Plain isBlank vs) :
    [' '].intercalate ws ≠ [' '].intercalate vs ++ '|' :: m := by
  intro h
  have hwords := words_intercalate isBlank_space hws
  rw [h] at hwords
  rcases List.eq_nil_or_concat vs with rfl | ⟨us, v, rfl⟩
  · -- the bar is the first character
    obtain ⟨rest, ws', heq⟩ := words_append_of_none (p := isBlank) (s := ['|']) (t := m)
      (fun x hx => List.mem_singleton.mp hx ▸ isBlank_bar) (by simp)
    have hhead : ws = ('|' :: rest) :: ws' := hwords.symm.trans heq
    exact hfirst ('|' :: rest) (by rw [hhead]; rfl) rfl
  · -- the word that `v` is the beginning of has a bar behind it
    rw [List.concat_eq_append] at hvs hwords
    obtain ⟨hne, hv⟩ := hvs v (by simp)
    have hnone : ∀ x ∈ v ++ ['|'], isBlank x = false := fun x hx => by
      rcases List.mem_append.mp hx with hx | hx
      · exact hv x hx
      · exact List.mem_singleton.mp hx ▸ isBlank_bar
    obtain ⟨rest, ws', heq⟩ := words_append_of_none (t := m) hnone (by simp)
    rw [words_intercalate_append isBlank_space fun u hu => hvs u (List.mem_append_left _ hu),
      List.append_cons, heq] at hwords
    have hmem : v ++ ['|'] ++ rest ∈ ws := by simp [← hwords]
    refine hbars _ hmem ?_
    rw [List.append_assoc, List.tail_append_of_ne_nil hne]
    exact List.mem_append_right _ List.mem_cons_self

/-- A bar that is not directly behind a space ends a normalised command. -/
theorem exists_cut (hws : Plain isBlank ws)
    (h : (∃ w ∈ ws, '|' ∈ w.tail) ∨ ∃ w ∈ ws.head?, w.head? = some '|') :
    ∃ vs m, Plain isBlank vs ∧ [' '].intercalate ws = [' '].intercalate vs ++ '|' :: m := by
  rcases h with ⟨w, hw, hbar⟩ | ⟨w, hw, hbar⟩
  · obtain ⟨us, ws', rfl⟩ := List.append_of_mem hw
    obtain ⟨hne, hplain⟩ := hws w hw
    obtain ⟨c, w, rfl⟩ := List.exists_cons_of_ne_nil hne
    obtain ⟨x, y, rfl⟩ := List.append_of_mem (List.tail_cons ▸ hbar)
    obtain ⟨rest, hjoin⟩ := intercalate_append_cons (b := ' ') us (c :: (x ++ '|' :: y)) ws'
    refine ⟨us ++ [c :: x], y ++ rest, fun v hv => ?_, ?_⟩
    · rcases List.mem_append.mp hv with hv | hv
      · exact hws v (List.mem_append_left _ hv)
      · obtain rfl := List.mem_singleton.mp hv
        refine ⟨List.cons_ne_nil c x, fun z hz => hplain z ?_⟩
        rw [← List.cons_append]
        exact List.mem_append_left _ hz
    · rw [hjoin, intercalate_concat]
      simp
  · obtain ⟨us, rfl⟩ : ∃ us, ws = w :: us := List.head?_eq_some_iff.mp hw
    obtain ⟨x, rfl⟩ : ∃ x, w = '|' :: x := List.head?_eq_some_iff.mp hbar
    obtain ⟨rest, hjoin⟩ := intercalate_append_cons (b := ' ') [] ('|' :: x) us
    refine ⟨[], x ++ rest, fun v hv => absurd hv List.not_mem_nil, ?_⟩
    rw [List.nil_append] at hjoin
    rw [hjoin]
    rfl

end

/-! ## Whose key it is -/

section
variable {command cwd username hostname command' cwd' username' hostname' : String}

theorem plain_words (s : String) : Plain isBlank (words isBlank s.toList) := fun _ hw => notMem_words hw

theorem unambiguous_iff : Unambiguous command cwd username hostname ↔
    (∀ w ∈ words isBlank command.toList, '|' ∉ w.tail) ∧
      (∀ w ∈ (words isBlank command.toList).head?, w.head? ≠ some '|') ∧
      '|' ∉ cwd.toList ∧ '|' ∉ username.toList ∧ '|' ∉ hostname.toList := by
  unfold Unambiguous
  rw [splitBlanks_eq]
  simp

/-- **Nothing else has the text** of an unambiguous tuple. -/
theorem eq_of_raw_eq (h : Unambiguous command cwd username hostname)
    (heq : raw (normalise command).toList cwd.toList username.toList hostname.toList =
      raw (normalise command').toList cwd'.toList username'.toList hostname'.toList) :
    normalise command = normalise command' ∧ cwd = cwd' ∧ username = username' ∧ hostname = hostname' := by
  obtain ⟨hbars, hfirst, hcwd, husername, hhostname⟩ := unambiguous_iff.mp h
  have hnone : ∀ {s : List Char}, '|' ∉ s → s.count '|' = 0 := List.count_eq_zero.mpr
  unfold raw at heq
  rcases cut heq with ⟨hcommand, heq⟩ | ⟨m, -, heq⟩ | ⟨m, hcommand, -⟩
  · rcases cut heq with ⟨hcwds, heq⟩ | ⟨m, -, heq⟩ | ⟨m, hbar, -⟩
    · rcases cut heq with ⟨husernames, hhostnames⟩ | ⟨m, -, heq⟩ | ⟨m, hbar, -⟩
      · exact ⟨String.toList_injective hcommand, String.toList_injective hcwds,
          String.toList_injective husernames, String.toList_injective hhostnames⟩
      · exact absurd (heq ▸ List.mem_append_right m List.mem_cons_self) hhostname
      · exact absurd (hbar ▸ List.mem_append_right _ List.mem_cons_self) husername
    · have hcount := congrArg (List.count '|') heq
      simp only [List.count_append, List.count_cons_self, hnone husername, hnone hhostname] at hcount
      omega
    · exact absurd (hbar ▸ List.mem_append_right _ List.mem_cons_self) hcwd
  · have hcount := congrArg (List.count '|') heq
    simp only [List.count_append, List.count_cons_self, hnone hcwd, hnone husername, hnone hhostname] at hcount
    omega
  · rw [toList_normalise, toList_normalise] at hcommand
    exact absurd hcommand (not_cut (plain_words command) hbars hfirst (plain_words command'))

theorem toList_normalise_ofList {ws : List (List Char)} (h : Plain isBlank ws) :
    (normalise (String.ofList ([' '].intercalate ws))).toList = [' '].intercalate ws := by
  rw [toList_normalise, String.toList_ofList, words_intercalate isBlank_space h]

/-- A text cannot be the beginning of itself before a bar. -/
theorem ne_before_bar {s x m : List Char} (h : s = x ++ '|' :: m) : s ≠ x := fun heq => by
  have hlength := congrArg List.length h
  rw [heq, List.length_append, List.length_cons] at hlength
  omega

/-- Another tuple has the same text. -/
def Shared (command cwd username hostname : String) : Prop :=
  ∃ command' cwd' username' hostname',
    raw (normalise command).toList cwd.toList username.toList hostname.toList =
      raw (normalise command').toList cwd'.toList username'.toList hostname'.toList ∧
    ¬ (normalise command = normalise command' ∧ cwd = cwd' ∧ username = username' ∧ hostname = hostname')

/-- The bar in the command is taken for the first separator. -/
theorem shared_of_command (h : (∃ w ∈ words isBlank command.toList, '|' ∈ w.tail) ∨
    ∃ w ∈ (words isBlank command.toList).head?, w.head? = some '|') : Shared command cwd username hostname := by
  obtain ⟨vs, m, hvs, hcut⟩ := exists_cut (plain_words command) h
  rw [← toList_normalise] at hcut
  refine ⟨String.ofList ([' '].intercalate vs), String.ofList m,
    String.ofList (cwd.toList ++ '|' :: username.toList), hostname, ?_, ?_⟩
  · rw [toList_normalise_ofList hvs, hcut]
    simp [raw]
  · rintro ⟨hsame, -⟩
    exact ne_before_bar hcut (by rw [hsame, toList_normalise_ofList hvs])

/-- A bar in the working directory is taken for the separator behind it. -/
theorem shared_of_cwd (h : '|' ∈ cwd.toList) : Shared command cwd username hostname := by
  obtain ⟨x, y, hcut⟩ := List.append_of_mem h
  refine ⟨command, String.ofList x, String.ofList (y ++ '|' :: username.toList), hostname, ?_, ?_⟩
  · simp [raw, hcut]
  · rintro ⟨-, hsame, -⟩
    exact ne_before_bar hcut (by rw [hsame, String.toList_ofList])

/-- The separator before the user name is taken for a part of the working directory, and a bar in it for one. -/
theorem shared_of_username (h : '|' ∈ username.toList) : Shared command cwd username hostname := by
  obtain ⟨x, y, hcut⟩ := List.append_of_mem h
  refine ⟨command, String.ofList (cwd.toList ++ '|' :: x), String.ofList y, hostname, ?_, ?_⟩
  · simp [raw, hcut]
  · rintro ⟨-, hsame, -⟩
    have hlist := congrArg String.toList hsame
    rw [String.toList_ofList] at hlist
    exact ne_before_bar rfl hlist.symm

theorem shared_of_hostname (h : '|' ∈ hostname.toList) : Shared command cwd username hostname := by
  obtain ⟨x, y, hcut⟩ := List.append_of_mem h
  refine ⟨command, cwd, String.ofList (username.toList ++ '|' :: x), String.ofList y, ?_, ?_⟩
  · simp [raw, hcut]
  · rintro ⟨-, -, hsame, -⟩
    have hlist := congrArg String.toList hsame
    rw [String.toList_ofList] at hlist
    exact ne_before_bar rfl hlist.symm

/-- **An ambiguous tuple shares its text** with one that is cut at another bar. -/
theorem shared_of_ambiguous (h : ¬ Unambiguous command cwd username hostname) :
    Shared command cwd username hostname := by
  by_contra hown
  refine h (unambiguous_iff.mpr ⟨fun w hw hbar => ?_, fun w hw hbar => ?_, fun hbar => ?_, fun hbar => ?_,
    fun hbar => ?_⟩)
  · exact hown (shared_of_command (.inl ⟨w, hw, hbar⟩))
  · exact hown (shared_of_command (.inr ⟨w, hw, hbar⟩))
  · exact hown (shared_of_cwd hbar)
  · exact hown (shared_of_username hbar)
  · exact hown (shared_of_hostname hbar)

end

theorem buildCacheKey_eq_iff {sha256 : String → String} (h : Function.Injective sha256)
    (command cwd username hostname command' cwd' username' hostname' : String) :
    buildCacheKey sha256 command cwd username hostname = buildCacheKey sha256 command' cwd' username' hostname' ↔
      raw (normalise command).toList cwd.toList username.toList hostname.toList =
        raw (normalise command').toList cwd'.toList username'.toList hostname'.toList := by
  rw [buildCacheKey_eq, buildCacheKey_eq, h.eq_iff, String.ofList_inj]

/-- **The tuples that have a key of their own**, if no two texts have one digest. -/
theorem buildCacheKey_separates_iff {sha256 : String → String} (h : Function.Injective sha256)
    (command cwd username hostname : String) :
    (∀ command' cwd' username' hostname',
        buildCacheKey sha256 command cwd username hostname = buildCacheKey sha256 command' cwd' username' hostname' ↔
          normalise command = normalise command' ∧ cwd = cwd' ∧ username = username' ∧ hostname = hostname') ↔
      Unambiguous command cwd username hostname := by
  constructor
  · intro hkey
    by_contra hambiguous
    obtain ⟨command', cwd', username', hostname', hraw, hdiffer⟩ := shared_of_ambiguous hambiguous
    exact hdiffer ((hkey command' cwd' username' hostname').mp ((buildCacheKey_eq_iff h ..).mpr hraw))
  · intro hclear command' cwd' username' hostname'
    rw [buildCacheKey_eq_iff h]
    constructor
    · exact eq_of_raw_eq hclear
    · rintro ⟨hcommand, rfl, rfl, rfl⟩
      rw [hcommand]

/-- The digest of the text of one tuple, and texts that are no digests for all the others. -/
def sampleDigest (text : String) : String :=
  if text = "ls|/root|root|svr04" then "dbda7c17e9e568b3026d1ab18293eab6a26cbe7616a8126fd003a51f81df3274"
  else "x" ++ text

theorem sampleDigest_injective : Function.Injective sampleDigest := by
  have hdigest : ∀ t, "dbda7c17e9e568b3026d1ab18293eab6a26cbe7616a8126fd003a51f81df3274" ≠ "x" ++ t := by
    intro t heq
    have hfirst : "dbda7c17e9e568b3026d1ab18293eab6a26cbe7616a8126fd003a51f81df3274".toList.head? = some 'd' := by
      decide +kernel
    have hother : "x".toList = ['x'] := rfl
    rw [heq, String.toList_append, hother] at hfirst
    cases hfirst
  intro s t h
  unfold sampleDigest at h
  split_ifs at h with hs ht ht
  · rw [hs, ht]
  · exact absurd h (hdigest t)
  · exact absurd h.symm (hdigest s)
  · exact String.append_right_inj "x" |>.mp h

/-- `ls` in `/root` has a key of its own. -/
theorem buildCacheKey_separates_ls :
    Unambiguous "ls" "/root" "root" "svr04" ∧ ∀ command' cwd' username' hostname',
      buildCacheKey sampleDigest "ls" "/root" "root" "svr04" =
          buildCacheKey sampleDigest command' cwd' username' hostname' ↔
        normalise "ls" = normalise command' ∧ "/root" = cwd' ∧ "root" = username' ∧ "svr04" = hostname' := by
  have hclear : Unambiguous "ls" "/root" "root" "svr04" := by
    unfold Unambiguous
    decide +kernel
  exact ⟨hclear, (buildCacheKey_separates_iff sampleDigest_injective "ls" "/root" "root" "svr04").mpr hclear⟩

/-- Two sessions with one key, whatever the digest. -/
theorem buildCacheKey_collision :
    (∀ sha256 : String → String, buildCacheKey sha256 "ls" "/tmp/a|b" "root" "svr04" =
      buildCacheKey sha256 "ls" "/tmp/a" "b|root" "svr04") ∧ "/tmp/a|b" ≠ "/tmp/a" :=
  ⟨fun _ => rfl, by decide⟩

end Cowrie.Llm
