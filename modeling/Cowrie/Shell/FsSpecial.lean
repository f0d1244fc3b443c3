import Cowrie.Shell.FsRun

/-!
# Special directories (`src/cowrie/shell/fs.py:42`, `347-371`)

`mkfile` refuses a path whose `dirname` begins with `/sys`, `/proc` or `/dev/pts`, as a text. So it refuses
`/sysfoo/x` as well, and does not refuse `//proc/x`, which `get_path` takes for the same file as
`/proc/x`. `os.path.abspath`, through which SFTP sends its paths, keeps two slashes at the front.

* `Protected`: the directory, normalised, is a special one or lies below one.
* `Sibling` and `Doubled` are the two kinds of texts that are misjudged. A path with a piece `.` or `..`
  (`Dotted`), which names a directory only if there is an entry of that name, is judged by its text too.
* **`mkfile_refuses_iff`**: for which paths `mkfile` refuses exactly the protected ones.
-/

namespace Cowrie.Shell.Fs

open Cowrie.Lib Heap HoneyPotFilesystem

/-- The directory, after normalisation, is a special one or lies below one. -/
def Protected (dir : Str) : Prop :=
  ∃ n, resolvePath [] dir ['/'] = some n ∧ ∃ p ∈ specialPaths, n = p ∨ p ++ ['/'] <+: n

/-- A special path, with more characters in its last name. -/
def Sibling (dir : Str) : Prop := ∃ p ∈ specialPaths, ∃ c t, c ≠ '/' ∧ dir = p ++ c :: t

/-- A protected directory, with a slash too many before the special name ends. -/
def Doubled (dir : Str) : Prop := Protected dir ∧ ("//".toList <+: dir ∨ "/dev//".toList <+: dir)

/-- One of the pieces is `.` or `..`. -/
def Dotted (dir : Str) : Prop := ∃ piece ∈ split dir, piece = ['.'] ∨ piece = ['.', '.']

/-! ## By pieces -/

/-- The names of the special paths. -/
def specialNames : List (List Str) := [["sys".toList], ["proc".toList], ["dev".toList, "pts".toList]]

theorem specialPaths_eq : specialPaths = specialNames.map fun names => '/' :: join names := by decide

theorem specialNames_pieces : ∀ names ∈ specialNames, Pieces names ∧ names ≠ [] := by
  have hpieces : ∀ names ∈ specialNames, (∀ piece ∈ names, piece ≠ [] ∧ '/' ∉ piece) ∧ names ≠ [] := by
    decide
  exact hpieces

theorem protected_iff (s : Str) :
    Protected ('/' :: s) ↔
      ∃ names ∈ specialNames, names <+: (split ('/' :: s)).foldl pushPiece [] := by
  have hpieces : Pieces ((split ('/' :: s)).foldl pushPiece []) :=
    pieces_foldl (fun piece hpiece => absurd hpiece List.not_mem_nil) fun piece => slash_notMem_split
  unfold Protected
  rw [resolvePath_absolute, specialPaths_eq]
  simp only [Option.some.injEq, exists_eq_left', List.mem_map, exists_exists_and_eq_and]
  refine exists_congr fun names => and_congr_right fun hnames => ?_
  obtain ⟨hproper, hne⟩ := specialNames_pieces names hnames
  rw [← join_prefix_iff hproper hne fun piece hpiece => (hpieces piece hpiece).2, List.cons.injEq,
    List.cons_append, List.cons_prefix_cons]
  simp

theorem isSpecial_iff (s : Str) :
    isSpecial ('/' :: s) = true ↔ ∃ names ∈ specialNames, join names <+: s := by
  unfold isSpecial
  rw [specialPaths_eq, List.any_map, List.any_eq_true]
  simp only [Function.comp, List.isPrefixOf_iff_prefix, List.cons_prefix_cons, true_and]

/-- The names, and then the text ends or a slash follows. -/
theorem names_prefix_split {names : List Str} (h : names ∈ specialNames) (s : Str) :
    names <+: split s ↔ s = join names ∨ join names ++ ['/'] <+: s := by
  obtain ⟨hproper, hne⟩ := specialNames_pieces names h
  rw [← join_prefix_iff hproper hne fun piece => slash_notMem_split, join_split]

/-- A text that begins with a special path goes on with a slash, or is a sibling. -/
theorem special_cases {s : Str} (h : isSpecial ('/' :: s) = true) :
    (∃ names ∈ specialNames, names <+: split s) ∨ Sibling ('/' :: s) := by
  obtain ⟨names, hnames, t, rfl⟩ := (isSpecial_iff s).mp h
  cases t with
  | nil => exact .inl ⟨names, hnames, (names_prefix_split hnames _).mpr (.inl (List.append_nil _))⟩
  | cons c t =>
    by_cases hc : c = '/'
    · subst hc
      refine .inl ⟨names, hnames, (names_prefix_split hnames _).mpr (.inr ⟨t, ?_⟩)⟩
      rw [List.append_assoc]
      rfl
    · refine .inr ⟨'/' :: join names, ?_, c, t, hc, rfl⟩
      rw [specialPaths_eq]
      exact List.mem_map_of_mem hnames

/-- A piece that goes on behind `s`. -/
theorem split_append_cons {s : Str} (h : '/' ∉ s) {c : Char} (hc : c ≠ '/') (t : Str) :
    ∃ first rest, split (s ++ c :: t) = (s ++ c :: first) :: rest := by
  obtain ⟨first, rest, heq⟩ : ∃ first rest, split t = first :: rest :=
    List.exists_cons_of_ne_nil (List.splitOn_ne_nil '/' t)
  have hone : '/' ∉ [c] := fun hmem => hc (List.mem_singleton.mp hmem).symm
  have htail : split (c :: t) = (c :: first) :: rest := by
    rw [show c :: t = [c] ++ t from rfl, split_append_left hone, heq]
    rfl
  exact ⟨first, rest, by rw [split_append_left h, htail]; rfl⟩

theorem isSpecial_of_sibling {dir : Str} (h : Sibling dir) : isSpecial dir = true := by
  obtain ⟨p, hp, c, t, -, rfl⟩ := h
  exact List.any_eq_true.mpr ⟨p, hp, List.isPrefixOf_iff_prefix.mpr (List.prefix_append p _)⟩

/-- A slash too many keeps a text from beginning with a special path. -/
theorem not_isSpecial_of_doubled {dir : Str} (h : Doubled dir) : ¬ isSpecial dir = true := by
  intro hspecial
  obtain ⟨p, hp, hstart⟩ := List.any_eq_true.mp hspecial
  rw [List.isPrefixOf_iff_prefix] at hstart
  have hapart : ∀ p ∈ specialPaths, ∀ q ∈ ["//".toList, "/dev//".toList],
      ¬ p.isPrefixOf q = true ∧ ¬ q.isPrefixOf p = true := by decide
  have hboth : ∀ q ∈ ["//".toList, "/dev//".toList], ¬ q <+: dir := by
    intro q hq hqdir
    obtain ⟨hpq, hqp⟩ := hapart p hp q hq
    rw [List.isPrefixOf_iff_prefix] at hpq hqp
    exact (List.prefix_or_prefix_of_prefix hstart hqdir).elim hpq hqp
  exact h.2.elim (hboth _ List.mem_cons_self) (hboth _ (List.mem_cons_of_mem _ List.mem_cons_self))

section Plain

variable {s : Str} (hplain : ¬ Dotted ('/' :: s))

include hplain in
theorem protected_plain_iff :
    Protected ('/' :: s) ↔ ∃ names ∈ specialNames, names <+: (split s).filter (· ≠ []) := by
  have hdots : ∀ piece ∈ split ('/' :: s), piece ≠ ['.'] ∧ piece ≠ ['.', '.'] := fun piece hpiece =>
    not_or.mp fun hdot => hplain ⟨piece, hpiece, hdot⟩
  rw [protected_iff, foldl_pushPiece_filter hdots, split_cons, List.nil_append,
    List.filter_cons_of_neg (by simp)]

include hplain in
theorem protected_of_names (h : ∃ names ∈ specialNames, names <+: split s) : Protected ('/' :: s) := by
  obtain ⟨names, hnames, hstart⟩ := h
  refine (protected_plain_iff hplain).mpr ⟨names, hnames, ?_⟩
  have hself : names.filter (· ≠ []) = names :=
    List.filter_eq_self.mpr fun piece hpiece => by
      simpa using ((specialNames_pieces names hnames).1 piece hpiece).1
  have hfilter := hstart.filter (· ≠ [])
  rwa [hself] at hfilter

include hplain in
/-- The last name of a sibling is no special one. -/
theorem not_protected_of_sibling (h : Sibling ('/' :: s)) : ¬ Protected ('/' :: s) := by
  rw [protected_plain_iff hplain]
  rintro ⟨names, hnames, hstart⟩
  obtain ⟨p, hp, c, t, hc, hs⟩ := h
  have hpieces : (∃ a ∈ ["sys".toList, "proc".toList], ∃ first rest,
        split s = (a ++ c :: first) :: rest) ∨
      ∃ first rest, split s = "dev".toList :: ("pts".toList ++ c :: first) :: rest := by
    rw [specialPaths_eq] at hp
    obtain ⟨own, hown, rfl⟩ := List.mem_map.mp hp
    obtain rfl : s = join own ++ c :: t := (List.cons.inj hs).2
    have hjoin : ∀ own ∈ specialNames, (∃ a ∈ ["sys".toList, "proc".toList], '/' ∉ a ∧ join own = a) ∨
        join own = "dev".toList ++ '/' :: "pts".toList := by decide
    rcases hjoin own hown with ⟨a, ha, hslash, heq⟩ | heq
    · rw [heq]
      exact .inl ⟨a, ha, split_append_cons hslash hc t⟩
    · obtain ⟨first, rest, hsplit⟩ := split_append_cons (s := "pts".toList) (by decide) hc t
      rw [heq, List.append_assoc, List.cons_append, split_append, hsplit]
      exact .inr ⟨first, rest, rfl⟩
  have hhead : ∀ names ∈ specialNames, (∀ a ∈ ["sys".toList, "proc".toList], ∀ n ∈ names.head?,
      a <+: n → n = a) ∧ ("dev".toList ∈ names.head? → names[1]? = some "pts".toList) := by decide
  obtain ⟨hone, htwo⟩ := hhead names hnames
  obtain ⟨n, ns, rfl⟩ := List.exists_cons_of_ne_nil (specialNames_pieces names hnames).2
  rcases hpieces with ⟨a, ha, first, rest, hsplit⟩ | ⟨first, rest, hsplit⟩
  · rw [hsplit, List.filter_cons_of_pos (by simp), List.cons_prefix_cons] at hstart
    have heq := hone a ha n rfl (hstart.1 ▸ List.prefix_append a _)
    simpa using hstart.1.symm.trans heq
  · rw [hsplit, List.filter_cons_of_pos (by simp), List.filter_cons_of_pos (by simp),
      List.cons_prefix_cons] at hstart
    have hpts := htwo (hstart.1 ▸ rfl)
    cases ns with
    | nil => cases hpts
    | cons m ms =>
      obtain rfl : m = "pts".toList := Option.some.inj hpts
      simpa using (List.cons_prefix_cons.mp hstart.2).1

include hplain in
/-- A protected directory begins with its special path, or has a slash too many. -/
theorem special_or_doubled (h : Protected ('/' :: s)) :
    isSpecial ('/' :: s) = true ∨ Doubled ('/' :: s) := by
  obtain ⟨names, hnames, hstart⟩ := (protected_plain_iff hplain).mp h
  have hwhole : names <+: split s → isSpecial ('/' :: s) = true := by
    intro hsplit
    refine (isSpecial_iff s).mpr ⟨names, hnames, ?_⟩
    rcases (names_prefix_split hnames s).mp hsplit with rfl | hbelow
    · exact List.prefix_rfl
    · exact (List.prefix_append _ _).trans hbelow
  have hjoin := join_split s
  obtain ⟨n, ns, rfl⟩ := List.exists_cons_of_ne_nil (specialNames_pieces names hnames).2
  cases hsplit : split s with
  | nil => exact absurd hsplit (List.splitOn_ne_nil '/' s)
  | cons first rest =>
    rw [hsplit] at hstart hwhole hjoin
    by_cases hfirst : first = []
    · -- nothing stands before the first slash of `s`
      subst hfirst
      cases rest with
      | nil => exact absurd hstart (by simp)
      | cons next rest =>
        refine .inr ⟨h, .inl ⟨join (next :: rest), ?_⟩⟩
        rw [← hjoin]
        simp [join]
    rw [List.filter_cons_of_pos (by simpa using hfirst), List.cons_prefix_cons] at hstart
    obtain ⟨rfl, hrest⟩ := hstart
    cases ns with
    | nil => exact .inl (hwhole (List.cons_prefix_cons.mpr ⟨rfl, List.nil_prefix⟩))
    | cons m ms =>
      have htwo : ∀ names ∈ specialNames, 2 ≤ names.length → names = ["dev".toList, "pts".toList] := by
        decide
      obtain ⟨rfl, hpts⟩ := List.cons.inj (htwo _ hnames (by simp))
      obtain ⟨rfl, rfl⟩ := List.cons.inj hpts
      cases rest with
      | nil => exact absurd hrest (by simp)
      | cons second rest =>
        by_cases hsecond : second = []
        · subst hsecond
          cases rest with
          | nil => exact absurd hrest (by simp)
          | cons third rest =>
            refine .inr ⟨h, .inr ⟨join (third :: rest), ?_⟩⟩
            rw [← hjoin]
            simp [join]
        · rw [List.filter_cons_of_pos (by simpa using hsecond), List.cons_prefix_cons] at hrest
          obtain ⟨rfl, -⟩ := hrest
          exact .inl (hwhole (List.cons_prefix_cons.mpr ⟨rfl, List.cons_prefix_cons.mpr
            ⟨rfl, List.nil_prefix⟩⟩))

include hplain in
/-- **Without dots**, a directory is judged right unless it is a sibling or has a slash too many. -/
theorem special_iff_protected : (isSpecial ('/' :: s) = true ↔ Protected ('/' :: s)) ↔
    ¬ Sibling ('/' :: s) ∧ ¬ Doubled ('/' :: s) := by
  constructor
  · intro h
    exact ⟨fun hsib => not_protected_of_sibling hplain hsib (h.mp (isSpecial_of_sibling hsib)),
      fun hdoubled => not_isSpecial_of_doubled hdoubled (h.mpr hdoubled.1)⟩
  · rintro ⟨hsib, hdoubled⟩
    exact ⟨fun hspecial => protected_of_names hplain ((special_cases hspecial).resolve_right hsib),
      fun hprotected => (special_or_doubled hplain hprotected).resolve_right hdoubled⟩

end Plain

/-! ## What `mkfile` raises -/

section Raises

variable {f : Heap}

theorem allEqual_ne {eq : Ref → Ref → Except FsError Bool}
    (heq : ∀ x y, eq x y ≠ .error .permissionDenied) (xs ys : List Ref) :
    allEqual eq xs ys ≠ .error .permissionDenied := by
  induction xs generalizing ys with
  | nil => cases ys <;> exact nofun
  | cons x xs ih =>
    cases ys with
    | nil => exact nofun
    | cons y ys =>
      unfold allEqual
      cases hxy : eq x y with
      | error e => exact fun h => heq x y (hxy.trans h)
      | ok b => cases b <;> [exact nofun; exact ih ys]

theorem equalAt_ne (depth : Nat) (x y : Ref) : f.equalAt depth x y ≠ .error .permissionDenied := by
  induction depth generalizing x y with
  | zero =>
    unfold equalAt
    split_ifs <;> simp
  | succ depth ih =>
    unfold equalAt
    simp only
    split_ifs
    · simp
    · simp
    · simp
    split
    · split_ifs
      · simp
      · rename_i xs ys _ _ _
        have hall := allEqual_ne ih xs ys
        split
        · rename_i e he
          exact fun h => hall (he.trans h)
        · simp
        · simp
    · simp
    · simp

theorem listRemove_ne (x : Ref) (xs : List Ref) : f.listRemove x xs ≠ .error .permissionDenied := by
  induction xs with
  | nil => simp [listRemove]
  | cons y xs ih =>
    unfold listRemove
    have heq := equalAt_ne (f := f) f.limit y x
    unfold equal
    cases hyx : f.equalAt f.limit y x with
    | error e => exact fun h => heq (hyx.trans (congrArg _ (Except.error.inj h)))
    | ok b =>
      cases b with
      | true => simp
      | false =>
        simp only
        cases hrest : f.listRemove x xs with
        | error e => exact fun h => ih (hrest.trans (congrArg _ (Except.error.inj h)))
        | ok ys => simp [Except.map]

end Raises

theorem append_spares (d x : Ref) : Spares .permissionDenied (append d x) := by
  unfold append
  refine spares_bind spares_get fun f => ?_
  cases (f.node d).contents with
  | bytes data => exact spares_throw nofun
  | list xs => exact spares_modify _

theorem removeNamed_spares (d : Ref) (outfile : Str) : Spares .permissionDenied (removeNamed d outfile) := by
  unfold removeNamed
  refine spares_bind (spares_query fun f => ?_) fun xs => spares_bind spares_get fun f => ?_
  · unfold listing
    split <;> exact nofun
  cases xs.find? fun x => f.name x = outfile with
  | none => exact spares_pure _
  | some x =>
    unfold removeEntry
    refine spares_bind spares_get fun f => ?_
    cases (f.node d).contents with
    | bytes data => exact spares_throw nofun
    | list ys => exact spares_bind (spares_query fun f => listRemove_ne x ys) fun zs => spares_modify _

/-- Whether `mkfile` refuses depends on the count and the text of the directory. -/
theorem mkfile_refuses {f : HoneyPotFilesystem} {path : Str} {d : Ref} (uid gid : Int) (size mode : Nat)
    (hd : f.getPath (dirname path) = .ok d) :
    (exec (mkfile path uid gid size mode) f).1 = .error .permissionDenied ↔
      f.newcount ≤ 10000 ∧ isSpecial (dirname path) = true := by
  unfold mkfile time
  rw [exec_get_bind]
  by_cases hcount : f.newcount > 10000
  · rw [if_pos hcount]
    exact iff_of_false nofun fun h => absurd hcount (by omega)
  rw [if_neg hcount, and_iff_right (by omega)]
  simp only [bind_assoc, exec_get_bind, exec_modify_bind, pure_bind]
  by_cases hspecial : isSpecial (dirname path) = true
  · rw [if_pos hspecial]
    exact iff_of_true rfl hspecial
  · rw [if_neg hspecial]
    refine iff_of_false ?_ hspecial
    have hquery : exec (query fun f : HoneyPotFilesystem => f.getPath (dirname path))
        { f with clock := fun i => f.clock (i + 1) } =
        (.ok d, { f with clock := fun i => f.clock (i + 1) }) := by
      rw [exec_query]
      exact congrArg (·, _) hd
    rw [exec_bind_ok hquery]
    refine spares_bind (removeNamed_spares d _) (fun _ => ?_) _
    refine spares_bind ?_ fun _ => spares_bind (spares_modify _) fun _ => spares_pure _
    unfold appendNew
    exact spares_bind spares_get fun f => spares_bind (spares_modify _) fun _ => append_spares d _

/-- What keeps `mkfile` from misjudging a directory. -/
structure JudgedRight (f : HoneyPotFilesystem) (dir : Str) : Prop where
  /-- Past the limit of new files nothing is refused. -/
  limit : 10000 < f.newcount → ¬ Protected dir
  plain : f.newcount ≤ 10000 → ¬ Dotted dir → ¬ Sibling dir ∧ ¬ Doubled dir
  dotted : f.newcount ≤ 10000 → Dotted dir → (isSpecial dir = true ↔ Protected dir)

/-- **Special directories**: `mkfile` refuses exactly the protected ones, unless it misjudges the text. -/
theorem mkfile_refuses_iff {f : HoneyPotFilesystem} {path : Str} {d : Ref} (uid gid : Int)
    (size mode : Nat) (habsolute : path.head? = some '/') (hd : f.getPath (dirname path) = .ok d) :
    ((exec (mkfile path uid gid size mode) f).1 = .error .permissionDenied ↔ Protected (dirname path)) ↔
      JudgedRight f (dirname path) := by
  obtain ⟨t, rfl⟩ := List.head?_eq_some_iff.mp habsolute
  obtain ⟨s, hs⟩ := dirname_absolute t
  rw [mkfile_refuses uid gid size mode hd, hs]
  by_cases hcount : f.newcount ≤ 10000
  · rw [and_iff_right hcount]
    constructor
    · exact fun h => ⟨fun hlt => absurd hcount (by omega), fun _ hplain =>
        (special_iff_protected hplain).mp h, fun _ _ => h⟩
    · intro h
      by_cases hdotted : Dotted ('/' :: s)
      · exact h.dotted hcount hdotted
      · exact (special_iff_protected hdotted).mpr (h.plain hcount hdotted)
  · constructor
    · exact fun h => ⟨fun _ hprotected => hcount (h.mpr hprotected).1, fun hle => absurd hle hcount,
        fun hle => absurd hle hcount⟩
    · exact fun h => iff_of_false (fun hle => hcount hle.1) (h.limit (by omega))

/-- A root with one directory. -/
def rootWith (name : Str) : HoneyPotFilesystem :=
  { smallFs with node := fun r => if r = 1 then { smallFs.node 1 with name := name } else smallFs.node r }

theorem mkfile_refuses_proc :
    ((exec (mkfile "/proc/x".toList 0 0 0 0) (rootWith "proc".toList)).1 = .error .permissionDenied ↔
        Protected (dirname "/proc/x".toList)) ↔
      JudgedRight (rootWith "proc".toList) (dirname "/proc/x".toList) :=
  mkfile_refuses_iff (d := 1) 0 0 0 0 rfl rfl

/-- `//proc/x` is accepted, and `/sysfoo/x` is refused. -/
theorem special_misjudged :
    ((rootWith "proc".toList).getPath (dirname "//proc/x".toList) = .ok 1 ∧
      ¬ ((exec (mkfile "//proc/x".toList 0 0 0 0) (rootWith "proc".toList)).1 =
        .error .permissionDenied ↔ Protected (dirname "//proc/x".toList))) ∧
    ((rootWith "sysfoo".toList).getPath (dirname "/sysfoo/x".toList) = .ok 1 ∧
      ¬ ((exec (mkfile "/sysfoo/x".toList 0 0 0 0) (rootWith "sysfoo".toList)).1 =
        .error .permissionDenied ↔ Protected (dirname "/sysfoo/x".toList))) := by
  refine ⟨⟨rfl, fun h => ?_⟩, rfl, fun h => ?_⟩
  · have hprotected : Protected (dirname "//proc/x".toList) :=
      ⟨"/proc".toList, by decide, "/proc".toList, by decide, .inl rfl⟩
    have hok : (exec (mkfile "//proc/x".toList 0 0 0 0) (rootWith "proc".toList)).1 = .ok true := rfl
    have hraise := h.mpr hprotected
    rw [hok] at hraise
    cases hraise
  · obtain ⟨n, hn, p, hp, hspecial⟩ := h.mp rfl
    obtain rfl : "/sysfoo".toList = n := Option.some.inj hn
    revert p
    decide

end Cowrie.Shell.Fs
