import Mathlib.Data.List.DropRight
import Mathlib.Data.List.Induction

/-!
# Paths (`src/cowrie/shell/fs.py:159-190` and `posixpath`)

A path is a list of characters. `stripSlash` and `rstripSlash` are `s.strip("/")` and `s.rstrip("/")`,
`s.split("/")` is `List.splitOn`, `"/".join(pieces)` is `List.intercalate`; `dirname` and `basename`
are those of `posixpath`. `resolvePath` is `HoneyPotFilesystem.resolve_path`; `none` is the
`IndexError` of `path[0]` on an empty path.

* `slash_notMem_basename`: a base name has no slash.
* **`resolvePath_eq`**: a resolved path is a slash and then pieces joined by slashes, none of them
  empty.
* `basename_resolvePath`: so its base name is empty only if it is the root.
* `Normal`: an absolute path without empty pieces, `.` and `..`. **`resolvePath_normal`**: resolving gives
  such a path, and `resolvePath_of_normal` leaves it as it is.
* **`resolvePath_append`**: a path can be resolved in two parts, wherever it is cut at a slash.
-/

namespace Cowrie.Shell.Fs

abbrev Str := List Char

instance Str.decidableMem (s : Str) (l : List Str) : Decidable (s ∈ l) :=
  List.instDecidableMemOfLawfulBEq s l

def rstripSlash (s : Str) : Str := s.rdropWhile (· = '/')

def stripSlash (s : Str) : Str := (rstripSlash s).dropWhile (· = '/')

def split (s : Str) : List Str := s.splitOn '/'

def join (pieces : List Str) : Str := ['/'].intercalate pieces

/-- What follows the last slash. -/
def basename (p : Str) : Str := p.rtakeWhile (· ≠ '/')

/-- `p[:p.rfind("/") + 1]`, without the slashes at its end unless it has nothing else. -/
def dirname (p : Str) : Str :=
  let head := p.rdropWhile (· ≠ '/')
  if head.all (· = '/') then head else rstripSlash head

/-- One piece on the stack of `resolve_path`. -/
def pushPiece (cwdpieces : List Str) (piece : Str) : List Str :=
  if piece = ['.', '.'] then cwdpieces.dropLast
  else if piece = ['.'] ∨ piece = [] then cwdpieces
  else cwdpieces ++ [piece]

/-- `resolve_path`. -/
def resolvePath (home pathspec cwd : Str) : Option Str :=
  let path := if ['~', '/'].isPrefixOf pathspec then home ++ pathspec.drop 1 else pathspec
  let pieces := split (rstripSlash path)
  match path with
  | [] => none
  | c :: _ =>
    let cwdpieces := if c = '/' then [] else (split cwd).filter (· ≠ [])
    some ('/' :: join (pieces.foldl pushPiece cwdpieces))

theorem slash_notMem_basename (p : Str) : '/' ∉ basename p := fun h => by
  simpa using List.mem_rtakeWhile_imp h

/-- The base name is what follows a slash, if no slash follows. -/
theorem basename_append {s t : Str} (h : '/' ∉ t) : basename (s ++ '/' :: t) = t := by
  induction t using List.reverseRecOn with
  | nil => exact List.rtakeWhile_concat_neg _ s '/' (by simp)
  | append_singleton t c ih =>
    rw [List.mem_append, List.mem_singleton, not_or] at h
    have hcons : s ++ '/' :: (t ++ [c]) = (s ++ '/' :: t) ++ [c] := by simp
    rw [hcons, basename, List.rtakeWhile_concat_pos _ _ _ (by simpa using Ne.symm h.2)]
    exact congrArg (· ++ [c]) (ih h.1)

theorem slash_notMem_split {s piece : Str} (h : piece ∈ split s) : '/' ∉ piece := by
  unfold split at h
  induction s generalizing piece with
  | nil =>
    obtain rfl : piece = [] := by simpa using h
    exact List.not_mem_nil
  | cons c s ih =>
    rw [List.splitOn_cons_eq_if_modifyHead] at h
    split_ifs at h with hc
    · rcases List.mem_cons.mp h with rfl | h
      · exact List.not_mem_nil
      · exact ih h
    · -- the first piece grows by `c`, which is not a slash
      obtain ⟨first, rest, heq⟩ := List.exists_cons_of_ne_nil (List.splitOn_ne_nil '/' s)
      rw [heq, List.modifyHead_cons] at h
      rw [heq] at ih
      rcases List.mem_cons.mp h with rfl | h
      · rw [List.mem_cons, not_or]
        exact ⟨fun hslash => hc (beq_iff_eq.mpr hslash.symm), ih List.mem_cons_self⟩
      · exact ih (List.mem_cons_of_mem first h)

/-- Pieces of a normalised path. -/
def Pieces (pieces : List Str) : Prop := ∀ piece ∈ pieces, piece ≠ [] ∧ '/' ∉ piece

theorem pieces_pushPiece {cwdpieces : List Str} {piece : Str} (h : Pieces cwdpieces)
    (hpiece : '/' ∉ piece) : Pieces (pushPiece cwdpieces piece) := by
  unfold pushPiece
  split_ifs with hup hskip
  · exact fun x hx => h x (List.dropLast_subset cwdpieces hx)
  · exact h
  · intro x hx
    rcases List.mem_append.mp hx with hx | hx
    · exact h x hx
    · obtain rfl := List.mem_singleton.mp hx
      exact ⟨fun hnil => hskip (.inr hnil), hpiece⟩

theorem pieces_foldl {cwdpieces pieces : List Str} (h : Pieces cwdpieces)
    (hpieces : ∀ piece ∈ pieces, '/' ∉ piece) : Pieces (pieces.foldl pushPiece cwdpieces) := by
  induction pieces generalizing cwdpieces with
  | nil => exact h
  | cons piece pieces ih =>
    exact ih (pieces_pushPiece h (hpieces piece List.mem_cons_self)) fun x hx =>
      hpieces x (List.mem_cons_of_mem piece hx)

/-- **Resolved paths** are normalised. -/
theorem resolvePath_eq {home pathspec cwd path : Str} (h : resolvePath home pathspec cwd = some path) :
    ∃ pieces, path = '/' :: join pieces ∧ Pieces pieces := by
  unfold resolvePath at h
  simp only at h
  split at h
  · cases h
  · obtain rfl := Option.some.inj h
    refine ⟨_, rfl, pieces_foldl ?_ fun piece => slash_notMem_split⟩
    split_ifs
    · exact fun x hx => absurd hx List.not_mem_nil
    · intro x hx
      rw [List.mem_filter] at hx
      exact ⟨by simpa using hx.2, slash_notMem_split hx.1⟩

theorem join_concat (pieces : List Str) (last : Str) :
    ∃ s, '/' :: join (pieces ++ [last]) = s ++ '/' :: last := by
  induction pieces with
  | nil => exact ⟨[], by simp [join]⟩
  | cons piece pieces ih =>
    obtain ⟨s, hs⟩ := ih
    obtain ⟨next, rest, heq⟩ : ∃ next rest, pieces ++ [last] = next :: rest := by
      cases pieces with
      | nil => exact ⟨last, [], rfl⟩
      | cons a l => exact ⟨a, l ++ [last], rfl⟩
    refine ⟨'/' :: piece ++ s, ?_⟩
    rw [List.append_assoc, ← hs, List.cons_append, heq]
    simp [join]

/-- A resolved path that is not the root ends in a name. -/
theorem basename_resolvePath {home pathspec cwd path : Str}
    (h : resolvePath home pathspec cwd = some path) (hroot : path ≠ ['/']) : basename path ≠ [] := by
  obtain ⟨pieces, rfl, hpieces⟩ := resolvePath_eq h
  cases pieces using List.reverseRecOn with
  | nil => exact absurd (by simp [join]) hroot
  | append_singleton pieces last =>
    obtain ⟨s, hs⟩ := join_concat pieces last
    have hlast := hpieces last (by simp)
    rw [hs, basename_append hlast.2]
    exact hlast.1

/-! ## Normal paths -/

/-- The pieces of a normal path. -/
def ProperPieces (pieces : List Str) : Prop :=
  Pieces pieces ∧ ∀ piece ∈ pieces, piece ≠ ['.'] ∧ piece ≠ ['.', '.']

/-- A path that `resolve_path` leaves as it is. -/
def Normal (path : Str) : Prop := ∃ pieces, path = '/' :: join pieces ∧ ProperPieces pieces

theorem properPieces_pushPiece {cwdpieces : List Str} {piece : Str} (h : ProperPieces cwdpieces)
    (hpiece : '/' ∉ piece) : ProperPieces (pushPiece cwdpieces piece) := by
  refine ⟨pieces_pushPiece h.1 hpiece, ?_⟩
  unfold pushPiece
  split_ifs with hup hskip
  · exact fun x hx => h.2 x (List.dropLast_subset cwdpieces hx)
  · exact h.2
  · intro x hx
    rcases List.mem_append.mp hx with hx | hx
    · exact h.2 x hx
    · obtain rfl := List.mem_singleton.mp hx
      exact ⟨fun hdot => hskip (.inl hdot), hup⟩

theorem properPieces_foldl {cwdpieces pieces : List Str} (h : ProperPieces cwdpieces)
    (hpieces : ∀ piece ∈ pieces, '/' ∉ piece) : ProperPieces (pieces.foldl pushPiece cwdpieces) := by
  induction pieces generalizing cwdpieces with
  | nil => exact h
  | cons piece pieces ih =>
    exact ih (properPieces_pushPiece h (hpieces piece List.mem_cons_self)) fun x hx =>
      hpieces x (List.mem_cons_of_mem piece hx)

theorem split_join {pieces : List Str} (h : Pieces pieces) (hne : pieces ≠ []) :
    split (join pieces) = pieces :=
  List.splitOn_intercalate '/' (fun piece hpiece => (h piece hpiece).2) hne

theorem split_cons (s : Str) : split ('/' :: s) = [] :: split s := by
  unfold split
  rw [List.splitOn_cons_eq_if_modifyHead]
  simp

theorem join_split (s : Str) : join (split s) = s := List.intercalate_splitOn '/'

/-- Names without a slash stand before the first piece. -/
theorem split_append_left {s : Str} (h : '/' ∉ s) (t : Str) :
    split (s ++ t) = (split t).modifyHead (s ++ ·) := by
  obtain ⟨first, rest, heq⟩ : ∃ first rest, split t = first :: rest :=
    List.exists_cons_of_ne_nil (List.splitOn_ne_nil '/' t)
  rw [heq]
  induction s with
  | nil => exact heq
  | cons c s ih =>
    rw [List.mem_cons, not_or] at h
    rw [List.cons_append, split, List.splitOn_cons_eq_if_modifyHead,
      if_neg (by simpa using Ne.symm h.1), show (s ++ t).splitOn '/' = _ from ih h.2]
    rfl

theorem split_append (s t : Str) : split (s ++ '/' :: t) = split s ++ split t :=
  List.splitOnP_append_cons s t (beq_self_eq_true '/')

/-- The pieces of a normal path, as a working directory. -/
theorem filter_split_normal {pieces : List Str} (h : Pieces pieces) :
    (split ('/' :: join pieces)).filter (· ≠ []) = pieces := by
  rw [split_cons]
  by_cases hnil : pieces = []
  · subst hnil
    rfl
  · rw [split_join h hnil, List.filter_cons_of_neg (by simp)]
    exact List.filter_eq_self.mpr fun x hx => by simpa using (h x hx).1

/-- Nothing is stripped from the end of a normal path. -/
theorem rstripSlash_join {pieces : List Str} (h : Pieces pieces) (hne : pieces ≠ []) :
    rstripSlash ('/' :: join pieces) = '/' :: join pieces := by
  cases pieces using List.reverseRecOn with
  | nil => exact absurd rfl hne
  | append_singleton pieces last =>
    obtain ⟨s, hs⟩ := join_concat pieces last
    obtain ⟨hlast, hslash⟩ := h last (by simp)
    obtain ⟨t, c, rfl⟩ := List.eq_nil_or_concat last |>.resolve_left hlast
    have hc : c ≠ '/' := fun heq => hslash (by simp [heq])
    have hcons : s ++ '/' :: t.concat c = (s ++ '/' :: t) ++ [c] := by simp
    rw [hs, hcons, rstripSlash, List.rdropWhile_concat_neg _ _ _ (by simpa using hc)]

theorem resolvePath_normal {home pathspec cwd path : Str} (hcwd : Normal cwd)
    (h : resolvePath home pathspec cwd = some path) : Normal path := by
  unfold resolvePath at h
  simp only at h
  split at h
  · cases h
  · obtain rfl := Option.some.inj h
    refine ⟨_, rfl, properPieces_foldl ?_ fun piece => slash_notMem_split⟩
    split_ifs
    · exact ⟨fun x hx => absurd hx List.not_mem_nil, fun x hx => absurd hx List.not_mem_nil⟩
    · obtain ⟨pieces, rfl, hpieces⟩ := hcwd
      rw [filter_split_normal hpieces.1]
      exact hpieces

/-- A test for normal paths. -/
theorem normal_of_resolvePath {path : Str} (h : resolvePath [] path ['/'] = some path) : Normal path :=
  resolvePath_normal ⟨[], rfl, nofun, nofun⟩ h

theorem foldl_pushPiece {pieces : List Str} (h : ProperPieces pieces) (cwdpieces : List Str) :
    pieces.foldl pushPiece cwdpieces = cwdpieces ++ pieces := by
  induction pieces generalizing cwdpieces with
  | nil => simp
  | cons piece pieces ih =>
    have hrest : ProperPieces pieces :=
      ⟨fun x hx => h.1 x (List.mem_cons_of_mem piece hx),
        fun x hx => h.2 x (List.mem_cons_of_mem piece hx)⟩
    have hpush : pushPiece cwdpieces piece = cwdpieces ++ [piece] := by
      unfold pushPiece
      rw [if_neg (h.2 piece List.mem_cons_self).2, if_neg]
      rintro (hdot | hnil)
      · exact (h.2 piece List.mem_cons_self).1 hdot
      · exact (h.1 piece List.mem_cons_self).1 hnil
    rw [List.foldl_cons, hpush, ih hrest, List.append_assoc]
    rfl

theorem resolvePath_of_normal {path : Str} (h : Normal path) (home cwd : Str) :
    resolvePath home path cwd = some path := by
  obtain ⟨pieces, rfl, hpieces⟩ := h
  unfold resolvePath
  have hhome : ['~', '/'].isPrefixOf ('/' :: join pieces) = false := rfl
  simp only [hhome, Bool.false_eq_true, if_false, if_true, Option.some.injEq]
  by_cases hnil : pieces = []
  · subst hnil
    rfl
  · rw [rstripSlash_join hpieces.1 hnil, split_cons, split_join hpieces.1 hnil, List.foldl_cons]
    exact congrArg (fun pieces => '/' :: join pieces) (foldl_pushPiece hpieces [])

/-! ## Directory and name of a normal path -/

theorem join_append_singleton {pieces : List Str} (hne : pieces ≠ []) (last : Str) :
    join (pieces ++ [last]) = join pieces ++ '/' :: last := by
  induction pieces with
  | nil => exact absurd rfl hne
  | cons piece pieces ih =>
    cases pieces with
    | nil => simp [join]
    | cons next rest =>
      have hrest := ih (List.cons_ne_nil next rest)
      have hcons : ∀ l : List Str, join (piece :: next :: l) = piece ++ '/' :: join (next :: l) := by
        intro l
        simp [join]
      rw [List.cons_append, List.cons_append, hcons, hcons, ← List.cons_append, hrest]
      simp

theorem stripSlash_cons (s : Str) : stripSlash ('/' :: s) = stripSlash s := by
  unfold stripSlash rstripSlash
  induction s using List.reverseRecOn with
  | nil => rfl
  | append_singleton s c ih =>
    rw [← List.cons_append]
    by_cases hc : c = '/'
    · rw [List.rdropWhile_concat_pos _ _ _ (by simpa using hc),
        List.rdropWhile_concat_pos _ _ _ (by simpa using hc), ih]
    · rw [List.rdropWhile_concat_neg _ _ _ (by simpa using hc),
        List.rdropWhile_concat_neg _ _ _ (by simpa using hc)]
      rfl

/-- Joined pieces start with a name. -/
theorem join_head {pieces : List Str} (h : Pieces pieces) (hne : pieces ≠ []) :
    ∃ c t, join pieces = c :: t ∧ c ≠ '/' := by
  obtain ⟨piece, rest, rfl⟩ := List.exists_cons_of_ne_nil hne
  obtain ⟨hpiece, hslash⟩ := h piece List.mem_cons_self
  obtain ⟨c, t, rfl⟩ := List.exists_cons_of_ne_nil hpiece
  have hc : c ≠ '/' := fun heq => hslash (by simp [heq])
  cases rest with
  | nil => exact ⟨c, t, by simp [join], hc⟩
  | cons next rest => exact ⟨c, t ++ '/' :: join (next :: rest), by simp [join], hc⟩

/-- The pieces of a normal path, as `getfile` gets them. -/
theorem split_stripSlash {pieces : List Str} (h : Pieces pieces) (hne : pieces ≠ []) :
    split (stripSlash ('/' :: join pieces)) = pieces := by
  have hstrip : stripSlash ('/' :: join pieces) = join pieces := by
    obtain ⟨c, t, hs, hc⟩ := join_head h hne
    unfold stripSlash
    rw [rstripSlash_join h hne, List.dropWhile_cons_of_pos (by simp), hs,
      List.dropWhile_cons_of_neg (by simpa using hc)]
  rw [hstrip, split_join h hne]

theorem join_append {pieces rest : List Str} (hne : pieces ≠ []) (hrest : rest ≠ []) :
    join (pieces ++ rest) = join pieces ++ '/' :: join rest := by
  induction rest using List.reverseRecOn with
  | nil => exact absurd rfl hrest
  | append_singleton rest last ih =>
    rw [← List.append_assoc, join_append_singleton (by simp [hne])]
    by_cases hnil : rest = []
    · subst hnil
      simp [join]
    · rw [ih hnil, join_append_singleton hnil]
      simp

/-- A text begins with the names of a path. -/
theorem join_prefix_iff {ps qs : List Str} (hps : Pieces ps) (hne : ps ≠ [])
    (hqs : ∀ piece ∈ qs, '/' ∉ piece) :
    (join qs = join ps ∨ join ps ++ ['/'] <+: join qs) ↔ ps <+: qs := by
  have hnil : ∀ s : Str, join ps ++ s ≠ join [] := by
    obtain ⟨c, t, hjoin, -⟩ := join_head hps hne
    intro s
    rw [hjoin]
    simp [join]
  constructor
  · intro h
    by_cases hqne : qs = []
    · subst hqne
      rcases h with heq | ⟨t, ht⟩
      · exact absurd (by simpa using heq.symm) (hnil [])
      · exact absurd (by simpa using ht) (hnil (['/'] ++ t))
    · rw [← show split (join qs) = qs from List.splitOn_intercalate '/' hqs hqne]
      rcases h with heq | ⟨t, ht⟩
      · exact ⟨[], by rw [heq, split_join hps hne, List.append_nil]⟩
      · have hsplit := split_append (join ps) t
        rw [split_join hps hne] at hsplit
        exact ⟨split t, by rw [← hsplit, ← ht, List.append_assoc]; rfl⟩
  · rintro ⟨rest, rfl⟩
    by_cases hrest : rest = []
    · subst hrest
      exact .inl (by rw [List.append_nil])
    · refine .inr ⟨join rest, ?_⟩
      rw [join_append hne hrest, List.append_assoc]
      rfl

/-- An end without anything to keep. -/
theorem rdropWhile_append_pos {α : Type*} {p : α → Bool} (l : List α) {m : List α} (h : ∀ x ∈ m, p x) :
    (l ++ m).rdropWhile p = l.rdropWhile p := by
  induction m using List.reverseRecOn with
  | nil => rw [List.append_nil]
  | append_singleton m x ih =>
    rw [← List.append_assoc, List.rdropWhile_concat_pos _ _ _ (h x (by simp)), ih fun y hy => h y (by simp [hy])]

/-- An end with something to keep. -/
theorem rdropWhile_append_neg {α : Type*} {p : α → Bool} (l : List α) {m : List α} (h : ∃ x ∈ m, ¬ p x) :
    (l ++ m).rdropWhile p = l ++ m.rdropWhile p := by
  induction m using List.reverseRecOn with
  | nil => simp at h
  | append_singleton m x ih =>
    rw [← List.append_assoc]
    by_cases hx : p x = true
    · rw [List.rdropWhile_concat_pos _ _ _ hx, List.rdropWhile_concat_pos _ _ _ hx]
      refine ih ?_
      obtain ⟨y, hy, hpy⟩ := h
      rcases List.mem_append.mp hy with hy | hy
      · exact ⟨y, hy, hpy⟩
      · exact absurd (List.mem_singleton.mp hy ▸ hx) hpy
    · rw [List.rdropWhile_concat_neg _ _ _ hx, List.rdropWhile_concat_neg _ _ _ hx, List.append_assoc]

/-- Without what follows the last slash. -/
theorem rdropWhile_ne_slash {s t : Str} (h : '/' ∉ t) :
    (s ++ '/' :: t).rdropWhile (· ≠ '/') = s ++ ['/'] := by
  have hname : ∀ c ∈ t, decide (c ≠ '/') = true := fun c hc => by
    simpa using ne_of_mem_of_not_mem hc h
  rw [List.append_cons, rdropWhile_append_pos _ hname]
  exact List.rdropWhile_concat_neg _ _ _ (by simp)

/-- The directory of an absolute path is absolute. -/
theorem dirname_absolute (t : Str) : ∃ s, dirname ('/' :: t) = '/' :: s := by
  have hstart : ∀ l : Str, l <+: '/' :: t → l ≠ [] → ∃ s, l = '/' :: s := by
    rintro (- | ⟨c, l⟩) hprefix hne
    · exact absurd rfl hne
    · exact ⟨l, congrArg (· :: l) (List.cons_prefix_cons.mp hprefix).1⟩
  have hhead : ('/' :: t).rdropWhile (· ≠ '/') <+: '/' :: t := List.rdropWhile_prefix _ _
  have hne : ('/' :: t).rdropWhile (· ≠ '/') ≠ [] := fun hnil => by
    simpa using List.rdropWhile_eq_nil_iff.mp hnil '/' List.mem_cons_self
  unfold dirname
  simp only
  split_ifs with hall
  · exact hstart _ hhead hne
  · refine hstart _ ((List.rdropWhile_prefix _ _).trans hhead) fun hnil => hall ?_
    exact List.all_eq_true.mpr (List.rdropWhile_eq_nil_iff.mp hnil)

theorem dirname_join {pieces : List Str} {last : Str} (h : Pieces (pieces ++ [last])) :
    dirname ('/' :: join (pieces ++ [last])) = '/' :: join pieces := by
  have hlast := (h last (by simp)).2
  unfold dirname
  by_cases hnil : pieces = []
  · subst hnil
    have hhead := rdropWhile_ne_slash (s := []) hlast
    have hjoin : '/' :: join ([] ++ [last]) = [] ++ '/' :: last := by simp [join]
    rw [hjoin, hhead]
    rfl
  · have hpieces : Pieces pieces := fun x hx => h x (by simp [hx])
    have hnot : ¬ ('/' :: join pieces ++ ['/']).all (· = '/') = true := by
      obtain ⟨piece, rest, rfl⟩ := List.exists_cons_of_ne_nil hnil
      obtain ⟨hpiece, hslash⟩ := hpieces piece List.mem_cons_self
      obtain ⟨c, t, rfl⟩ := List.exists_cons_of_ne_nil hpiece
      have hc : c ≠ '/' := fun heq => hslash (by simp [heq])
      have hmem : c ∈ join ((c :: t) :: rest) := by
        cases rest <;> simp [join]
      intro hall
      have hone := List.all_eq_true.mp hall c (by simp [hmem])
      exact hc (by simpa using hone)
    have hhead := rdropWhile_ne_slash (s := '/' :: join pieces) hlast
    rw [join_append_singleton hnil, ← List.cons_append]
    simp only [hhead, if_neg hnot]
    rw [rstripSlash, List.rdropWhile_concat_pos _ _ _ (by simp)]
    exact rstripSlash_join hpieces hnil

theorem basename_join {pieces : List Str} {last : Str} (h : Pieces (pieces ++ [last])) :
    basename ('/' :: join (pieces ++ [last])) = last := by
  obtain ⟨s, hs⟩ := join_concat pieces last
  rw [hs, basename_append (h last (by simp)).2]

/-! ## Resolving in two parts -/

/-- Slashes at the end of a path add nothing to the stack. -/
theorem foldl_rstripSlash (s : Str) (cwdpieces : List Str) :
    (split (rstripSlash s)).foldl pushPiece cwdpieces = (split s).foldl pushPiece cwdpieces := by
  induction s using List.reverseRecOn with
  | nil => rfl
  | append_singleton s c ih =>
    unfold rstripSlash
    by_cases hc : c = '/'
    · subst hc
      have hpush : ∀ pieces : List Str, pushPiece pieces [] = pieces := fun pieces => rfl
      have hnil : split [] = [[]] := rfl
      rw [List.rdropWhile_concat_pos _ _ _ (by simp), split_append, List.foldl_append, hnil]
      exact ih.trans (hpush _).symm
    · rw [List.rdropWhile_concat_neg _ _ _ (by simpa using hc)]

/-- `path` before its slashes are stripped. -/
def expandHome (home pathspec : Str) : Str :=
  if ['~', '/'].isPrefixOf pathspec then home ++ pathspec.drop 1 else pathspec

/-- The stack that the pieces of `path` are pushed on. -/
def startPieces (path cwd : Str) : List Str :=
  if path.head? = some '/' then [] else (split cwd).filter (· ≠ [])

theorem pieces_startPieces (path cwd : Str) : Pieces (startPieces path cwd) := by
  intro x hx
  unfold startPieces at hx
  split_ifs at hx
  · exact absurd hx List.not_mem_nil
  · rw [List.mem_filter] at hx
    exact ⟨by simpa using hx.2, slash_notMem_split hx.1⟩

theorem resolvePath_expand {home pathspec : Str} (cwd : Str) (h : expandHome home pathspec ≠ []) :
    resolvePath home pathspec cwd =
      some ('/' :: join ((split (expandHome home pathspec)).foldl pushPiece
        (startPieces (expandHome home pathspec) cwd))) := by
  rw [← foldl_rstripSlash]
  unfold resolvePath
  change (match expandHome home pathspec with
    | [] => none
    | c :: _ => some ('/' :: join ((split (rstripSlash (expandHome home pathspec))).foldl pushPiece
        (if c = '/' then [] else (split cwd).filter (· ≠ []))))) = _
  obtain ⟨c, t, hpath⟩ := List.exists_cons_of_ne_nil h
  rw [hpath]
  simp [startPieces]

theorem expandHome_ne_nil {home pathspec : Str} (h : pathspec ≠ []) : expandHome home pathspec ≠ [] := by
  unfold expandHome
  split_ifs with hhome
  · obtain ⟨t, rfl⟩ := List.isPrefixOf_iff_prefix.mp hhome
    simp
  · exact h

/-- Only the front of a path is expanded. -/
theorem expandHome_append {home p₁ : Str} (p₂ : Str) (hne : p₁ ≠ []) (htilde : p₁ ≠ ['~']) :
    expandHome home (p₁ ++ '/' :: p₂) = expandHome home p₁ ++ '/' :: p₂ := by
  unfold expandHome
  cases p₁ with
  | nil => exact absurd rfl hne
  | cons c t =>
    cases t with
    | nil =>
      have hc : c ≠ '~' := fun heq => htilde (congrArg (fun c => [c]) heq)
      simp [List.isPrefixOf, Ne.symm hc]
    | cons d t =>
      by_cases hhome : ['~', '/'].isPrefixOf (c :: d :: t) = true
      · have hlong : ['~', '/'].isPrefixOf (c :: d :: t ++ '/' :: p₂) = true := by
          simpa [List.isPrefixOf] using hhome
        rw [if_pos hhome, if_pos hlong]
        simp
      · have hlong : ¬ ['~', '/'].isPrefixOf (c :: d :: t ++ '/' :: p₂) = true := by
          simpa [List.isPrefixOf] using hhome
        rw [if_neg hhome, if_neg hlong]

/-- A path cut at a slash is resolved in two parts. -/
theorem resolvePath_append {home p₁ p₂ cwd r : Str} (hne₁ : p₁ ≠ []) (htilde : p₁ ≠ ['~'])
    (hne₂ : p₂ ≠ []) (hslash : p₂.head? ≠ some '/') (hhome : ¬ ['~', '/'] <+: p₂)
    (hr : resolvePath home p₁ cwd = some r) :
    resolvePath home p₂ r = resolvePath home (p₁ ++ '/' :: p₂) cwd := by
  have hpath₁ := @expandHome_ne_nil home p₁ hne₁
  obtain ⟨c, t, hct⟩ := List.exists_cons_of_ne_nil hpath₁
  have hstart : startPieces (expandHome home p₁ ++ '/' :: p₂) cwd =
      startPieces (expandHome home p₁) cwd := by
    rw [hct]
    rfl
  have hfull := @resolvePath_expand home (p₁ ++ '/' :: p₂) cwd
    (expandHome_ne_nil (by simp))
  rw [expandHome_append p₂ hne₁ htilde, hstart, split_append, List.foldl_append] at hfull
  have hplain : expandHome home p₂ = p₂ :=
    if_neg fun hpre => hhome (List.isPrefixOf_iff_prefix.mp hpre)
  have hsecond := @resolvePath_expand home p₂ r (by rw [hplain]; exact hne₂)
  rw [hplain] at hsecond
  rw [hsecond, hfull]
  -- what the first part left on the stack is the working directory of the second
  have hpieces := pieces_foldl (pieces_startPieces (expandHome home p₁) cwd)
    fun piece => slash_notMem_split (s := expandHome home p₁)
  rw [resolvePath_expand cwd hpath₁] at hr
  have hstack : startPieces p₂ r = (split (expandHome home p₁)).foldl pushPiece
      (startPieces (expandHome home p₁) cwd) := by
    unfold startPieces
    rw [if_neg hslash, ← Option.some.inj hr]
    exact filter_split_normal hpieces
  rw [hstack]

/-- An absolute path, on an empty stack. -/
theorem resolvePath_absolute (home s cwd : Str) :
    resolvePath home ('/' :: s) cwd = some ('/' :: join ((split ('/' :: s)).foldl pushPiece [])) :=
  @resolvePath_expand home ('/' :: s) cwd (List.cons_ne_nil '/' s)

/-- Without dots, only empty pieces are left out. -/
theorem foldl_pushPiece_filter {pieces : List Str}
    (h : ∀ piece ∈ pieces, piece ≠ ['.'] ∧ piece ≠ ['.', '.']) (cwdpieces : List Str) :
    pieces.foldl pushPiece cwdpieces = cwdpieces ++ pieces.filter (· ≠ []) := by
  induction pieces generalizing cwdpieces with
  | nil => simp
  | cons piece pieces ih =>
    obtain ⟨hdots, hrest⟩ := List.forall_mem_cons.mp h
    rw [List.foldl_cons, ih hrest, pushPiece, if_neg hdots.2]
    by_cases hnil : piece = []
    · rw [if_pos (.inr hnil), List.filter_cons_of_neg (by simpa using hnil)]
    · rw [if_neg (not_or.mpr ⟨hdots.1, hnil⟩), List.filter_cons_of_pos (by simpa using hnil),
        List.append_assoc]
      rfl

/-- A normal path ends in a slash only if it is the root. -/
theorem Normal.getLast?_ne {path : Str} (h : Normal path) : path = ['/'] ∨ path.getLast? ≠ some '/' := by
  obtain ⟨pieces, rfl, hpieces, -⟩ := h
  by_cases hnil : pieces = []
  · subst hnil
    exact .inl rfl
  · refine .inr fun hlast => ?_
    obtain ⟨s, hs⟩ := List.getLast?_eq_some_iff.mp hlast
    have hstrip := rstripSlash_join hpieces hnil
    rw [hs, rstripSlash, List.rdropWhile_concat_pos _ _ _ (by simp)] at hstrip
    have hlen := congrArg List.length hstrip
    have hle := (List.rdropWhile_prefix (· = '/') (l := s)).length_le
    rw [List.length_append, List.length_singleton] at hlen
    omega

/-- **Resolving a path** normalises it, is done once and for all, and can be done in two parts. -/
theorem resolvePath_composes (home : Str) {cwd p₁ p₂ : Str} (hcwd : Normal cwd) (hne₁ : p₁ ≠ [])
    (htilde : p₁ ≠ ['~']) (hne₂ : p₂ ≠ []) (hslash : p₂.head? ≠ some '/')
    (hhome : ¬ ['~', '/'] <+: p₂) :
    ∃ r q, resolvePath home p₁ cwd = some r ∧
      Normal r ∧ (r = ['/'] ∨ r.getLast? ≠ some '/') ∧
      (∀ cwd', resolvePath home r cwd' = some r) ∧
      resolvePath home p₂ r = some q ∧ resolvePath home (p₁ ++ '/' :: p₂) cwd = some q := by
  have hr := resolvePath_expand cwd (@expandHome_ne_nil home p₁ hne₁)
  have hq := @resolvePath_expand home (p₁ ++ '/' :: p₂) cwd
    (expandHome_ne_nil (by simp))
  have hnormal := resolvePath_normal hcwd hr
  have happend := resolvePath_append hne₁ htilde hne₂ hslash hhome hr
  exact ⟨_, _, hr, hnormal, hnormal.getLast?_ne, resolvePath_of_normal hnormal home,
    happend.trans hq, hq⟩

/-- `~/a/..//b/` under `/home/x`, and then `../c`. -/
theorem resolvePath_composes_home :
    Normal "/tmp".toList ∧
    ∃ r q, resolvePath "/home/x".toList "~/a/..//b/".toList "/tmp".toList = some r ∧
      Normal r ∧ (r = ['/'] ∨ r.getLast? ≠ some '/') ∧
      (∀ cwd', resolvePath "/home/x".toList r cwd' = some r) ∧
      resolvePath "/home/x".toList "../c".toList r = some q ∧
      resolvePath "/home/x".toList ("~/a/..//b/".toList ++ '/' :: "../c".toList) "/tmp".toList =
        some q :=
  have hcwd : Normal "/tmp".toList := normal_of_resolvePath (by decide)
  ⟨hcwd, resolvePath_composes _ hcwd (by decide) (by decide) (by decide) (by decide) (by decide)⟩

end Cowrie.Shell.Fs
