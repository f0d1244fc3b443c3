import Cowrie.Lib.Recursion
import Cowrie.Shell.FsRun

/-!
# Links and the end of lookups (`src/cowrie/shell/fs.py:75-79`, `221-314`)

`getfile` calls itself with the target of every link it meets, and nothing counts these calls:
`TooManyLevels` is declared and never raised. Here the lookups are recursions by questions, a question
being the path of a nested lookup.

* `scanAsk`, `walkAsk`, `lookupAsk`, `getPathAsk`: the loops of `getfile` and `get_path`, asking where
  the source calls `getfile`. `getfileAt_eq` and `getPathFrom_eq` say that they compute the same.
* `f.Leads follow path t`: `getfile(path, follow)` gets to a nested `getfile(t, follow)`, and
  `f.PathLeads path t`: `get_path(path)` does. They are about what hangs below the root only, not about
  a number of calls.
* **`lookup_ends_iff`**: the lookups of a path end, given enough stack, iff no target that they get to
  leads back to itself, and they meet no link without a target and no name below `bytes`.
* `loopFs`: `/l -> /l`, where `getfile("/l")` ends with a `RecursionError` however large the stack is.
-/

namespace Cowrie.Shell.Fs

open Cowrie.Lib Cowrie.Lib.Ask Heap HoneyPotFilesystem

/-- The same nodes with room for `limit` nested calls. -/
def Heap.withLimit (f : Heap) (limit : Nat) : Heap := { f with limit := limit }

namespace Heap

variable (f : Heap)

/-! ## Lookups that ask -/

/-- What `getfile` asks: the path of a nested lookup. -/
abbrev Lookup := Ask Str (Option Ref) FsError

/-- The inner loop of `getfile`, and then `next`. -/
def scanAsk (keep : Bool) (piece : Str) (next : Ref → Lookup) : List Ref → Ref → Lookup
  | [], p => next p
  | x :: xs, p =>
    if f.name x ≠ piece then scanAsk keep piece next xs p
    else if keep ∨ (f.node x).type ≠ .link then scanAsk keep piece next xs x
    else
      match (f.node x).target with
      | none => .done (.error .typeError)
      | some [] => .done (.error .indexError)
      | some (c :: t) =>
        .ask (if c = '/' then c :: t else '/' :: c :: t) fun
          | none => .done (.ok none)
          | some q => scanAsk keep piece next xs q

/-- The outer loop of `getfile`. -/
def walkAsk (last : Str) (follow : Bool) : List Str → Ref → Lookup
  | [], p => .done (.ok (some p))
  | piece :: rest, p =>
    match f.listing p with
    | .error e => .done (.error e)
    | .ok xs =>
      if piece ∉ xs.map f.name then .done (.ok none)
      else f.scanAsk (piece = last ∧ ¬ follow) piece (walkAsk last follow rest) xs p

/-- `getfile(path, follow)`. -/
def lookupAsk (follow : Bool) (path : Str) : Lookup :=
  if path = ['/'] then .done (.ok (some f.fs))
  else
    let pieces := split (stripSlash path)
    f.walkAsk (pieces.getLastD []) follow pieces f.fs

/-- The loop of `get_path`; it returns `none` where the source raises `FileNotFound`. -/
def getPathAsk : List Str → Ref → Lookup
  | [], cwd => .done (.ok (some cwd))
  | part :: rest, cwd =>
    if part = [] then getPathAsk rest cwd
    else
      match f.listing cwd with
      | .error e => .done (.error e)
      | .ok xs =>
        match xs.find? fun c => f.name c = part with
        | none => .done (.ok none)
        | some c =>
          if (f.node c).type = .link then
            match (f.node c).target with
            | none => .done (.error .attributeError)
            | some target =>
              .ask target fun
                | none => .done (.ok none)
                | some x => getPathAsk rest x
          else getPathAsk rest c

/-- `getfile(path, follow)` gets to a nested `getfile(t, follow)`. -/
def Leads (follow : Bool) (path t : Str) : Prop :=
  Reaches (f.lookupAsk follow) (f.lookupAsk follow path) t

/-- `get_path(path)` gets to a nested `getfile(t)`. -/
def PathLeads (path t : Str) : Prop :=
  Reaches (f.lookupAsk true) (f.getPathAsk (split path) f.fs) t

end Heap

variable {f : Heap} {follow keep : Bool} {path piece last : Str} {p : Ref} {xs : List Ref}
  {pieces : List Str} {look : Str → Except FsError (Option Ref)}

theorem run_scanAsk (next : Ref → Lookup) :
    (f.scanAsk keep piece next xs p).run look =
      match f.scan look keep piece xs p with
      | .error e => .error e
      | .ok none => .ok none
      | .ok (some q) => (next q).run look := by
  induction xs generalizing p with
  | nil => rfl
  | cons x xs ih =>
    unfold scanAsk Heap.scan
    split
    · exact ih
    · split
      · exact ih
      · unfold followLink
        cases (f.node x).target with
        | none => rfl
        | some target =>
          cases target with
          | nil => rfl
          | cons c t =>
            simp only [Ask.run]
            cases look (if c = '/' then c :: t else '/' :: c :: t) with
            | error e => rfl
            | ok r =>
              cases r with
              | none => rfl
              | some q => exact ih

theorem run_walkAsk : (f.walkAsk last follow pieces p).run look = f.walk look last follow pieces p := by
  induction pieces generalizing p with
  | nil => rfl
  | cons piece rest ih =>
    unfold walkAsk Heap.walk
    cases f.listing p with
    | error e => rfl
    | ok xs =>
      simp only
      split
      · rfl
      · rw [run_scanAsk]
        cases f.scan look (piece = last ∧ ¬ follow) piece xs p with
        | error e => rfl
        | ok r =>
          cases r with
          | none => rfl
          | some q => exact ih

/-- `getfile` is the recursion that `lookupAsk` describes. -/
theorem getfileAt_eq (depth : Nat) (path : Str) (follow : Bool) :
    f.getfileAt depth path follow = answerAt .recursionError (f.lookupAsk follow) depth path := by
  induction depth generalizing path with
  | zero => rfl
  | succ depth ih =>
    have hlook : (fun t => f.getfileAt depth t follow) =
        answerAt .recursionError (f.lookupAsk follow) depth := by
      funext t
      exact ih t
    unfold getfileAt answerAt lookupAsk
    rw [hlook]
    split
    · rfl
    · exact run_walkAsk.symm

/-- `get_path`, with `getfile` for the nested lookups. -/
theorem getPathFrom_eq (parts : List Str) (cwd : Ref) :
    f.getPathFrom parts cwd =
      match (f.getPathAsk parts cwd).run (fun t => f.getfile t) with
      | .error e => .error e
      | .ok none => .error .fileNotFound
      | .ok (some d) => .ok d := by
  induction parts generalizing cwd with
  | nil => rfl
  | cons part rest ih =>
    unfold getPathFrom getPathAsk
    split
    · exact ih cwd
    · cases f.listing cwd with
      | error e => rfl
      | ok xs =>
        simp only
        cases xs.find? fun c => f.name c = part with
        | none => rfl
        | some c =>
          simp only
          split
          · cases (f.node c).target with
            | none => rfl
            | some target =>
              simp only [Ask.run]
              cases f.getfile target with
              | error e => rfl
              | ok r =>
                cases r with
                | none => rfl
                | some x => exact ih x
          · exact ih c

/-! ## Finitely many targets -/

/-- The two ways in which a link's target is looked up. -/
def Heap.IsTarget (f : Heap) (t : Str) : Prop :=
  ∃ x target, f.Holds x ∧ (f.node x).target = some target ∧ (t = target ∨ t = '/' :: target)

theorem isTarget_finite (hfinite : {x | f.Holds x}.Finite) : {t | f.IsTarget t}.Finite := by
  let targets : Ref → Set Str := fun x => {(f.node x).target.getD [], '/' :: (f.node x).target.getD []}
  refine (hfinite.biUnion (t := targets) fun x _ => Set.toFinite _).subset ?_
  rintro t ⟨x, target, hx, htarget, ht⟩
  refine Set.mem_biUnion hx ?_
  simpa [targets, htarget] using ht

/-- **The format of a node**: contents are lists, and links have a target. -/
structure Heap.Typed (f : Heap) : Prop where
  contents : ∀ p, f.Holds p → ∃ xs, (f.node p).contents = .list xs
  target : ∀ x, f.Holds x → (f.node x).type = .link → ∃ c t, (f.node x).target = some (c :: t)

theorem Heap.Typed.listing (h : f.Typed) (hp : f.Holds p) : f.listing p = .ok (f.entries p) := by
  obtain ⟨xs, hxs⟩ := h.contents p hp
  unfold Heap.listing Heap.entries
  rw [hxs]

/-- A lookup asks for targets of nodes of the file system and returns nodes of it. It raises something
only where the format is broken, and never `FileNotFound`. -/
abbrev Heap.Stays (f : Heap) : Lookup → Prop :=
  All f.IsTarget (fun r => ∀ x, r = some x → f.Holds x) fun e => e ≠ .fileNotFound ∧ ¬ f.Typed

theorem not_typed_of_listing {e : FsError} (hp : f.Holds p) (h : f.listing p = .error e) :
    e ≠ .fileNotFound ∧ ¬ f.Typed := by
  refine ⟨?_, fun htyped => ?_⟩
  · rintro rfl
    unfold listing at h
    split at h <;> cases h
  · rw [htyped.listing hp] at h
    cases h

theorem stays_scanAsk {next : Ref → Lookup} (hnext : ∀ q, f.Holds q → f.Stays (next q))
    (hxs : ∀ x ∈ xs, f.Holds x) (hp : f.Holds p) : f.Stays (f.scanAsk keep piece next xs p) := by
  induction xs generalizing p with
  | nil => exact hnext p hp
  | cons x xs ih =>
    have hx := hxs x List.mem_cons_self
    have hrest : ∀ y ∈ xs, f.Holds y := fun y hy => hxs y (List.mem_cons_of_mem x hy)
    unfold scanAsk
    split
    · exact ih hrest hp
    · split
      · exact ih hrest hx
      · rename_i hnot
        have hlink : (f.node x).type = .link := by
          by_contra hother
          exact hnot (.inr hother)
        have hbroken : (∀ c t, (f.node x).target ≠ some (c :: t)) → ¬ f.Typed := by
          intro hnone htyped
          obtain ⟨c, t, htarget⟩ := htyped.target x hx hlink
          exact hnone c t htarget
        cases htarget : (f.node x).target with
        | none => exact ⟨nofun, hbroken (by simp [htarget])⟩
        | some target =>
          cases target with
          | nil => exact ⟨nofun, hbroken (by simp [htarget])⟩
          | cons c t =>
            refine ⟨⟨x, c :: t, hx, htarget, ?_⟩, fun r hr => ?_⟩
            · split_ifs
              · exact .inl rfl
              · exact .inr rfl
            · cases r with
              | none => nofun
              | some q => exact ih hrest (hr q rfl)

theorem stays_walkAsk (hp : f.Holds p) : f.Stays (f.walkAsk last follow pieces p) := by
  induction pieces generalizing p with
  | nil =>
    rintro x ⟨⟩
    exact hp
  | cons piece rest ih =>
    unfold walkAsk
    cases hlist : f.listing p with
    | error e => exact not_typed_of_listing hp hlist
    | ok xs =>
      simp only
      split
      · nofun
      · exact stays_scanAsk (fun q hq => ih hq) (fun x hx => hp.entry (listing_eq hlist ▸ hx)) hp

theorem stays_lookupAsk (f : Heap) (follow : Bool) (path : Str) :
    f.Stays (f.lookupAsk follow path) := by
  unfold lookupAsk
  split
  · rintro x ⟨⟩
    exact holds_root f
  · exact stays_walkAsk (holds_root f)

theorem stays_getPathAsk {parts : List Str} (hp : f.Holds p) : f.Stays (f.getPathAsk parts p) := by
  induction parts generalizing p with
  | nil =>
    rintro x ⟨⟩
    exact hp
  | cons part rest ih =>
    unfold getPathAsk
    split
    · exact ih hp
    · cases hlist : f.listing p with
      | error e => exact not_typed_of_listing hp hlist
      | ok xs =>
        simp only
        cases hc : xs.find? fun c => f.name c = part with
        | none => nofun
        | some c =>
          have hcholds : f.Holds c := hp.entry (listing_eq hlist ▸ List.mem_of_find?_eq_some hc)
          simp only
          split
          · rename_i hlink
            cases htarget : (f.node c).target with
            | none =>
              refine ⟨nofun, fun htyped => ?_⟩
              obtain ⟨d, t, hsome⟩ := htyped.target c hcholds hlink
              rw [htarget] at hsome
              cases hsome
            | some target =>
              refine ⟨⟨c, target, hcholds, htarget, .inl rfl⟩, fun r hr => ?_⟩
              cases r with
              | none => nofun
              | some x => exact ih (hr x rfl)
          · exact ih hcholds

theorem leads_finite (hfinite : {x | f.Holds x}.Finite) (follow : Bool) (path : Str) :
    {t | f.Leads follow path t}.Finite :=
  (isTarget_finite hfinite).subset fun _ ht =>
    ht.of_all (stays_lookupAsk f follow) (stays_lookupAsk f follow path)

theorem pathLeads_finite (hfinite : {x | f.Holds x}.Finite) (path : Str) :
    {t | f.PathLeads path t}.Finite :=
  (isTarget_finite hfinite).subset fun _ ht =>
    ht.of_all (stays_lookupAsk f true) (stays_getPathAsk (holds_root f))

/-! ## When lookups end -/

/-- The lookups of a path end with a node, with `None` or with a declared error. -/
structure Heap.LookupEnds (f : Heap) (path : Str) : Prop where
  getfile_ok : ∀ follow, ∃ r, f.getfile path follow = .ok r
  exists_ok : ∃ b, f.exists path = .ok b
  getPath_ok : (∃ d, f.getPath path = .ok d) ∨ f.getPath path = .error .fileNotFound

/-- `getfile(t, follow)` gets back to `getfile(t, follow)`. -/
def Heap.Loops (f : Heap) (follow : Bool) (t : Str) : Prop :=
  Relation.TransGen (Call (f.lookupAsk follow)) t t

/-- `getfile(path, follow)` raises something that no nested lookup raised: it looks for a name in
`bytes`, or meets a link without a target. -/
def Heap.Trips (f : Heap) (follow : Bool) (path : Str) : Prop :=
  ∃ e, Fails (f.lookupAsk follow) (f.lookupAsk follow path) e

/-- The same for `get_path(path)`. -/
def Heap.PathTrips (f : Heap) (path : Str) : Prop :=
  ∃ e, Fails (f.lookupAsk true) (f.getPathAsk (split path) f.fs) e

/-- No link that the lookups of a path meet leads back to itself, and the format is not broken on the
way. -/
structure Heap.Orderly (f : Heap) (path : Str) : Prop where
  loop : ∀ follow t, f.Leads follow path t → ¬ f.Loops follow t
  trip : ∀ follow, ¬ f.Trips follow path
  trips : ∀ follow t, f.Leads follow path t → ¬ f.Trips follow t
  pathLoop : ∀ t, f.PathLeads path t → ¬ f.Loops true t
  pathTrip : ¬ f.PathTrips path
  pathTrips : ∀ t, f.PathLeads path t → ¬ f.Trips true t

/-! ### The limit is no part of the lookups -/

theorem scanAsk_withLimit (n : Nat) (next : Ref → Lookup) :
    (f.withLimit n).scanAsk keep piece next xs p = f.scanAsk keep piece next xs p := by
  induction xs generalizing p with
  | nil => rfl
  | cons x xs ih =>
    unfold scanAsk
    simp only [ih]
    rfl

theorem walkAsk_withLimit (n : Nat) :
    (f.withLimit n).walkAsk last follow pieces p = f.walkAsk last follow pieces p := by
  induction pieces generalizing p with
  | nil => rfl
  | cons piece rest ih =>
    have hrest : (f.withLimit n).walkAsk last follow rest = f.walkAsk last follow rest := by
      funext q
      exact ih
    unfold walkAsk
    simp only [hrest, scanAsk_withLimit]
    rfl

theorem lookupAsk_withLimit (n : Nat) : (f.withLimit n).lookupAsk follow = f.lookupAsk follow := by
  funext path
  unfold lookupAsk
  rw [walkAsk_withLimit]
  rfl

theorem getPathAsk_withLimit (n : Nat) (parts : List Str) (cwd : Ref) :
    (f.withLimit n).getPathAsk parts cwd = f.getPathAsk parts cwd := by
  induction parts generalizing cwd with
  | nil => rfl
  | cons part rest ih =>
    unfold getPathAsk
    simp only [ih]
    rfl

theorem getfile_withLimit (n : Nat) :
    (f.withLimit n).getfile path follow = answerAt .recursionError (f.lookupAsk follow) n path := by
  rw [← lookupAsk_withLimit n]
  exact getfileAt_eq n path follow

theorem getPath_withLimit (n : Nat) :
    (f.withLimit n).getPath path =
      match (f.getPathAsk (split path) f.fs).run (answerAt .recursionError (f.lookupAsk true) n) with
      | .error e => .error e
      | .ok none => .error .fileNotFound
      | .ok (some d) => .ok d := by
  have hlook : (fun t => (f.withLimit n).getfile t) =
      answerAt .recursionError (f.lookupAsk true) n := by
    funext t
    exact getfile_withLimit n
  unfold getPath
  rw [getPathFrom_eq, hlook, getPathAsk_withLimit]
  rfl

/-- `FileNotFound` is for `get_path` to raise. -/
theorem getfile_ne_fileNotFound {n : Nat} {e : FsError}
    (h : (f.withLimit n).getfile path follow = .error e) : e ≠ .fileNotFound := by
  rw [getfile_withLimit] at h
  rcases answerAt_error_of_all (stays_lookupAsk f follow) h with rfl | ⟨he, -⟩
  · nofun
  · exact he

/-! ### With enough stack -/

theorem getfile_ends_iff (hfinite : {x | f.Holds x}.Finite) (path : Str) (follow : Bool) :
    (∃ d, ∀ n, d ≤ n → ∃ r, (f.withLimit n).getfile path follow = .ok r) ↔
      (∀ t, f.Leads follow path t → ¬ f.Loops follow t) ∧ ¬ f.Trips follow path ∧
        ∀ t, f.Leads follow path t → ¬ f.Trips follow t := by
  simp only [getfile_withLimit, Heap.Trips, not_exists]
  exact answered_iff (leads_finite hfinite follow path)

/-- `get_path` ends as its nested lookups do. -/
theorem getPath_ok_iff (n : Nat) :
    ((∃ d, (f.withLimit n).getPath path = .ok d) ∨
        (f.withLimit n).getPath path = .error .fileNotFound) ↔
      ∃ r, (f.getPathAsk (split path) f.fs).run
        (answerAt .recursionError (f.lookupAsk true) n) = .ok r := by
  rw [getPath_withLimit]
  cases hrun : (f.getPathAsk (split path) f.fs).run
      (answerAt .recursionError (f.lookupAsk true) n) with
  | error e =>
    have he : e ≠ .fileNotFound := by
      rcases run_error_of_all (stays_lookupAsk f true) (stays_getPathAsk (holds_root f)) hrun with
        rfl | ⟨he, -⟩
      · nofun
      · exact he
    simp [he]
  | ok r =>
    cases r with
    | none => simp
    | some d => simp

theorem getPath_ends_iff (hfinite : {x | f.Holds x}.Finite) (path : Str) :
    (∃ d, ∀ n, d ≤ n → (∃ d, (f.withLimit n).getPath path = .ok d) ∨
        (f.withLimit n).getPath path = .error .fileNotFound) ↔
      (∀ t, f.PathLeads path t → ¬ f.Loops true t) ∧ ¬ f.PathTrips path ∧
        ∀ t, f.PathLeads path t → ¬ f.Trips true t := by
  simp only [getPath_ok_iff, Heap.Trips, Heap.PathTrips, not_exists]
  exact ends_iff (pathLeads_finite hfinite path)

/-- The root with the link `/l -> /l`. -/
def loopFs : Heap where
  node r :=
    { name := if r = 0 then ['/'] else ['l'], type := if r = 0 then .dir else .link, uid := 0, gid := 0
      size := 0, mode := 0, ctime := 0, contents := .list (if r = 0 then [1] else [])
      target := if r = 0 then none else some ['/', 'l'] }
  fs := 0
  limit := 1000

theorem loopFs_finite : {x | loopFs.Holds x}.Finite := by
  refine (Set.toFinite {0, 1}).subset fun x hx => ?_
  induction hx with
  | refl => exact .inl rfl
  | @tail p c _ hc _ =>
    change c ∈ (if p = 0 then [1] else []) at hc
    split_ifs at hc
    · exact .inr (List.mem_singleton.mp hc)
    · exact absurd hc List.not_mem_nil

theorem getfileAt_loopFs (depth : Nat) :
    loopFs.getfileAt depth ['/', 'l'] true = .error .recursionError := by
  rw [getfileAt_eq]
  induction depth with
  | zero => rfl
  | succ depth ih =>
    obtain ⟨next, hask⟩ : ∃ next, loopFs.lookupAsk true ['/', 'l'] = .ask ['/', 'l'] next := ⟨_, rfl⟩
    unfold answerAt
    rw [hask]
    unfold Ask.run
    rw [ih]

end Cowrie.Shell.Fs
