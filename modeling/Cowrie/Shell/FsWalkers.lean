import Cowrie.Shell.FsLinks
import Cowrie.Shell.FsLookup

/-!
# The two walkers (`src/cowrie/shell/fs.py:221-245`, `277-314`)

`get_path` stops at the first entry of a name and hands the targets of links to `getfile`; `getfile`
goes through all entries, puts a relative target below the root and calls itself.

* `Regular`: siblings have different names, what is no directory has no entries, links have targets
  and do not loop.
* **`walkers_agree`**: on a normal path `get_path` returns the contents of the node that `getfile`
  finds, and raises `FileNotFound` where `getfile` returns `None`.

The two are compared in one place of a program: what `getfile` does with `n + 1` calls left is compared
with what `get_path` does with `n` left for the calls of `getfile` that it makes.
-/

namespace Cowrie.Shell.Fs

open Cowrie.Lib Cowrie.Lib.Ask Heap HoneyPotFilesystem

/-- **A regular file system.** -/
structure Heap.Regular (f : Heap) : Prop extends f.Typed where
  finite : {x | f.Holds x}.Finite
  names : ∀ p, f.Holds p → ((f.entries p).map f.name).Nodup
  leaf : ∀ p, f.Holds p → (f.node p).type ≠ .dir → f.entries p = []
  acyclic : ∀ t, ¬ f.Loops true t

variable {f : Heap} {path : Str} {p : Ref} {pieces : List Str} {n : Nat}

/-- Both look up the target of a link in the same way. -/
theorem followLink_links {x : Ref} {c : Char} {t : Str} (htarget : (f.node x).target = some (c :: t)) :
    f.followLink (f.links n) x = f.getfileAt n (c :: t) true := by
  unfold followLink
  rw [htarget]
  by_cases hc : c = '/'
  · simp only [if_pos hc]
    rfl
  · simp only [if_neg hc]
    exact getfileAt_cons_slash c t hc true

/-- **Piece by piece**, `get_path` does what `getfile` does. -/
theorem getPathFrom_eq_route (h : f.Typed) (hlimit : f.limit = n) (hpieces : Pieces pieces)
    (hp : f.Holds p) :
    f.getPathFrom pieces p =
      match f.route (f.links n) pieces p with
      | .error e => .error e
      | .ok none => .error .fileNotFound
      | .ok (some d) => .ok d := by
  induction pieces generalizing p with
  | nil => rfl
  | cons piece rest ih =>
    have hrest : Pieces rest := fun x hx => hpieces x (List.mem_cons_of_mem piece hx)
    rw [route_cons]
    unfold getPathFrom hop
    rw [if_neg (hpieces piece List.mem_cons_self).1, h.listing hp]
    simp only
    cases hx : (f.entries p).find? fun x => f.name x = piece with
    | none => rfl
    | some x =>
      have hxh : f.Holds x := hp.entry (List.mem_of_find?_eq_some hx)
      simp only
      by_cases hlink : (f.node x).type = .link
      · obtain ⟨c, t, htarget⟩ := h.target x hxh hlink
        have hfile : f.getfile (c :: t) = f.getfileAt n (c :: t) true := by
          unfold getfile
          rw [hlimit]
        rw [if_pos hlink, if_pos hlink, followLink_links htarget]
        simp only [htarget, hfile]
        cases hlook : f.getfileAt n (c :: t) true with
        | error e => rfl
        | ok r =>
          cases r with
          | none => rfl
          | some q => exact ih hrest (holds_getfileAt hlook)
      · rw [if_neg hlink, if_neg hlink]
        exact ih hrest hxh

theorem Heap.Typed.withLimit (h : f.Typed) (n : Nat) : (f.withLimit n).Typed :=
  ⟨h.contents, h.target⟩

/-- `get_path`, by `getfile`. -/
theorem getPath_eq_getfile (h : f.Typed)
    (hnames : ∀ p, f.Holds p → ((f.entries p).map f.name).Nodup) (hpath : Normal path) (n : Nat) :
    (f.withLimit n).getPath path =
      match (f.withLimit (n + 1)).getfile path with
      | .error e => .error e
      | .ok none => .error .fileNotFound
      | .ok (some d) => .ok d := by
  obtain ⟨pieces, rfl, hpieces⟩ := hpath
  have hroute : (f.withLimit (n + 1)).getfile ('/' :: join pieces) =
      (f.withLimit n).route ((f.withLimit n).links n) pieces f.fs := by
    have hlimit : (f.withLimit (n + 1)).getfile ('/' :: join pieces) =
        (f.withLimit n).getfileAt (n + 1) ('/' :: join pieces) true := by
      rw [getfile_withLimit, getfileAt_eq, lookupAsk_withLimit]
    rw [hlimit]
    exact getfileAt_normal hnames hpieces.1
  rw [hroute, getPath_normal hpieces.1]
  exact getPathFrom_eq_route (h.withLimit n) rfl hpieces.1 (holds_root _)

/-- Links do not loop if every target can be looked up. -/
theorem not_loops_of_targets
    (h : ∀ t, f.IsTarget t → ∃ n r, (f.withLimit n).getfile t = .ok r) (t : Str) :
    ¬ f.Loops true t := by
  intro hloop
  obtain ⟨t', -, hcall⟩ := Relation.TransGen.tail'_iff.mp hloop
  obtain ⟨n, r, hr⟩ := h t (hcall.of_all (stays_lookupAsk f true) (stays_lookupAsk f true t'))
  rw [getfile_withLimit] at hr
  exact not_cycle_of_acc (acc_of_answered hr) hloop

/-- In a regular file system lookups end. -/
theorem Heap.Regular.getfile_ends (h : f.Regular) (path : Str) :
    ∃ d, ∀ n, d ≤ n → ∃ r, (f.withLimit n).getfile path = .ok r := by
  have htrips : ∀ t, ¬ f.Trips true t := by
    rintro t ⟨e, hfails⟩
    exact (hfails.of_all (stays_lookupAsk f true) (stays_lookupAsk f true t)).2 h.toTyped
  exact (getfile_ends_iff h.finite path true).mpr
    ⟨fun t _ => h.acyclic t, htrips path, fun t _ => htrips t⟩

/-- **The two walkers agree**, and with enough stack both of them end. -/
theorem walkers_agree (f : Heap) (h : f.Regular) (path : Str) (hpath : Normal path) :
    (∀ n x, (f.withLimit (n + 1)).getfile path = .ok (some x) ↔ (f.withLimit n).getPath path = .ok x) ∧
      (∀ n, (f.withLimit (n + 1)).getfile path = .ok none ↔
        (f.withLimit n).getPath path = .error .fileNotFound) ∧
      ∃ d, ∀ n, d ≤ n → ∃ r, (f.withLimit n).getfile path = .ok r := by
  refine ⟨fun n x => ?_, fun n => ?_, h.getfile_ends path⟩
  · rw [getPath_eq_getfile h.toTyped h.names hpath]
    cases (f.withLimit (n + 1)).getfile path with
    | error e => simp
    | ok r => cases r <;> simp
  · rw [getPath_eq_getfile h.toTyped h.names hpath]
    cases hfile : (f.withLimit (n + 1)).getfile path with
    | error e =>
      simp [getfile_ne_fileNotFound hfile]
    | ok r => cases r <;> simp

/-- The root, a directory `/d` and the links `/a -> d`, `/d/b -> /a` and `/d/c -> b`. -/
def linkFs : Heap where
  node r :=
    { name := [['/'], ['d'], ['a'], ['b'], ['c']].getD r [], type := if r < 2 then .dir else .link
      uid := 0, gid := 0, size := 0, mode := 0, ctime := 0
      contents := .list ([[1, 2], [3, 4]].getD r [])
      target := [none, none, some ['d'], some ['/', 'a'], some ['b']].getD r none }
  fs := 0
  limit := 1000

theorem linkFs_holds {x : Ref} (hx : linkFs.Holds x) : x = 0 ∨ x = 1 ∨ x = 2 ∨ x = 3 ∨ x = 4 := by
  induction hx with
  | refl => exact .inl rfl
  | @tail p c _ hc ih =>
    change c ∈ linkFs.entries p at hc
    rcases ih with rfl | rfl | rfl | rfl | rfl
    · rcases List.mem_cons.mp (hc : c ∈ [1, 2]) with rfl | hc
      · exact .inr (.inl rfl)
      · exact .inr (.inr (.inl (List.mem_singleton.mp hc)))
    · rcases List.mem_cons.mp (hc : c ∈ [3, 4]) with rfl | hc
      · exact .inr (.inr (.inr (.inl rfl)))
      · exact .inr (.inr (.inr (.inr (List.mem_singleton.mp hc))))
    · exact absurd hc List.not_mem_nil
    · exact absurd hc List.not_mem_nil
    · exact absurd hc List.not_mem_nil

theorem linkFs_regular : linkFs.Regular where
  contents _ _ := ⟨_, rfl⟩
  target x hx hlink := by
    rcases linkFs_holds hx with rfl | rfl | rfl | rfl | rfl
    · cases hlink
    · cases hlink
    · exact ⟨'d', [], rfl⟩
    · exact ⟨'/', ['a'], rfl⟩
    · exact ⟨'b', [], rfl⟩
  finite := by
    refine (Set.toFinite {0, 1, 2, 3, 4}).subset fun x hx => ?_
    simpa using linkFs_holds hx
  names p hp := by
    rcases linkFs_holds hp with rfl | rfl | rfl | rfl | rfl <;> decide
  leaf p hp htype := by
    rcases linkFs_holds hp with rfl | rfl | rfl | rfl | rfl
    · exact absurd rfl htype
    · exact absurd rfl htype
    · rfl
    · rfl
    · rfl
  acyclic := by
    refine not_loops_of_targets fun t ht => ?_
    obtain ⟨x, target, hx, htarget, ht⟩ := ht
    refine ⟨3, ?_⟩
    rcases linkFs_holds hx with rfl | rfl | rfl | rfl | rfl
    · cases htarget
    · cases htarget
    · obtain rfl := Option.some.inj htarget
      rcases ht with rfl | rfl
      · exact ⟨some 1, rfl⟩
      · exact ⟨some 1, rfl⟩
    · obtain rfl := Option.some.inj htarget
      rcases ht with rfl | rfl
      · exact ⟨some 1, rfl⟩
      · exact ⟨some 1, rfl⟩
    · -- `b` is looked up below the root
      obtain rfl := Option.some.inj htarget
      rcases ht with rfl | rfl
      · exact ⟨none, rfl⟩
      · exact ⟨none, rfl⟩

/-- `/d/b` goes through two links, for both walkers. -/
theorem walkers_agree_linkFs :
    (∀ n x, (linkFs.withLimit (n + 1)).getfile ['/', 'd', '/', 'b'] = .ok (some x) ↔
        (linkFs.withLimit n).getPath ['/', 'd', '/', 'b'] = .ok x) ∧
      (∀ n, (linkFs.withLimit (n + 1)).getfile ['/', 'd', '/', 'b'] = .ok none ↔
        (linkFs.withLimit n).getPath ['/', 'd', '/', 'b'] = .error .fileNotFound) ∧
      ∃ d, ∀ n, d ≤ n → ∃ r, (linkFs.withLimit n).getfile ['/', 'd', '/', 'b'] = .ok r :=
  walkers_agree linkFs linkFs_regular ['/', 'd', '/', 'b'] (normal_of_resolvePath rfl)

end Cowrie.Shell.Fs
