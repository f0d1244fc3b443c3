import Cowrie.Shell.FsLookup
import Cowrie.Shell.FsRun

/-!
# Renaming (`src/cowrie/shell/fs.py:588-598`, `src/cowrie/commands/fs.py:515-555`)

`rename` takes the source out of its directory before it looks for the directory of the new path, and
`mv` puts the source into the destination before it looks for the directory that it takes it out of. What
they take out is an entry that equals what the source path leads to, which for a link is not the entry
that the path names.

* `f.relocated d e x newname`: the entry `x` of `d` is in `e`, under its new name.
* `Moved f g oldpath newpath`: that has become of the entry that `oldpath` names; `e` is the directory of
  `newpath` and not below `x`.
* **`renames_iff`**: `rename` and `mv` with one source, to a path that does not exist, leave everything as
  it is or move the entry, exactly if `RenameSafe` and `MvSafe` hold.
* `Thinned f g`: `g` has fewer entries than `f`. A lookup that succeeds in `g` does in `f`
  (`Thinned.getPath`).
-/

namespace Cowrie.Shell.Fs

open Cowrie.Lib Heap HoneyPotFilesystem

/-- The entry `x` of `d` in `e` under the name `newname`, and nothing else changed. -/
def HoneyPotFilesystem.relocated (f : HoneyPotFilesystem) (d e x : Ref) (newname : Str) :
    HoneyPotFilesystem :=
  { f with node := fun p =>
      { f.node p with
        name := if p = x then newname else (f.node p).name
        contents :=
          if p = d ∨ p = e then
            .list ((if p = d then (f.entries d).erase x else f.entries p) ++ if p = e then [x] else [])
          else (f.node p).contents } }

/-- **The entry named by `oldpath` is the one named by `newpath`**, and nothing else has changed. -/
def Moved (f g : HoneyPotFilesystem) (oldpath newpath : Str) : Prop :=
  ∃ d e x, f.getPath (dirname oldpath) = .ok d ∧ f.getPath (dirname newpath) = .ok e ∧
    x ∈ f.entries d ∧ f.name x = basename oldpath ∧ ¬ f.objects.Reach x e ∧
    g = f.relocated d e x (basename newpath)

variable {f g : HoneyPotFilesystem} {d e p q s x y : Ref} {path oldpath newpath newname : Str}
  {xs ys : List Ref}

/-! ## The two states -/

theorem entries_relocated (f : HoneyPotFilesystem) (d e x : Ref) (newname : Str) (p : Ref) :
    (f.relocated d e x newname).entries p =
      (if p = d then (f.entries d).erase x else f.entries p) ++ if p = e then [x] else [] := by
  unfold Heap.entries relocated
  by_cases hd : p = d
  · simp [hd, Heap.entries]
  · by_cases he : p = e
    · simp [he, Heap.entries]
    · simp [hd, he]

theorem name_relocated (f : HoneyPotFilesystem) (d e x : Ref) (newname : Str) (p : Ref) :
    (f.relocated d e x newname).name p = if p = x then newname else f.name p := rfl

theorem entries_doubled (f : HoneyPotFilesystem) (x d : Ref) (newname : Str) (p : Ref) :
    (f.doubled x d newname).entries p = if p = d then f.entries d ++ [x] else f.entries p := by
  rw [doubled, entries_setEntries, entries_setName]

theorem name_doubled (f : HoneyPotFilesystem) (x d : Ref) (newname : Str) (p : Ref) :
    (f.doubled x d newname).name p = if p = x then newname else f.name p := by
  rw [doubled, name_setEntries, name_setName]

theorem entries_takenOut (f : HoneyPotFilesystem) (d x : Ref) (newname : Str) (p : Ref) :
    (f.takenOut d x newname).entries p = if p = d then (f.entries d).erase x else f.entries p := by
  rw [takenOut, entries_setName, entries_setEntries]

theorem node_setEntries (f : HoneyPotFilesystem) (p : Ref) (xs : List Ref) (q : Ref) :
    (f.setEntries p xs).node q =
      { f.node q with contents := if q = p then .list xs else (f.node q).contents } := by
  unfold setEntries
  rw [node_setNode]
  split_ifs with h
  · rw [h]
  · rfl

theorem node_setName (f : HoneyPotFilesystem) (x : Ref) (newname : Str) (q : Ref) :
    (f.setName x newname).node q =
      { f.node q with name := if q = x then newname else (f.node q).name } := by
  unfold HoneyPotFilesystem.setName
  rw [node_setNode]
  split_ifs with h
  · rw [h]
  · rfl

/-- States that differ in nodes at most are known by their nodes. -/
theorem eq_of_node (hrest : g = { f with node := g.node }) (hnode : ∀ p, g.node p = f.node p) :
    g = f := by
  rw [hrest, funext hnode]

/-- What `rename` leaves. -/
theorem relocated_of_takenOut {zs : List Ref}
    (hlist : ((f.takenOut d x newname).node e).contents = .list zs) :
    (f.takenOut d x newname).setEntries e (zs ++ [x]) = f.relocated d e x newname := by
  have hzs : zs = if e = d then (f.entries d).erase x else f.entries e := by
    rw [← entries_takenOut f d x newname e, entries_eq hlist]
  refine eq_of_node rfl fun p => ?_
  rw [node_setEntries, takenOut, node_setName, node_setEntries, hzs]
  unfold relocated
  by_cases hpe : p = e
  · subst hpe
    simp only [if_pos, or_true]
  · by_cases hpd : p = d
    · subst hpd
      simp only [if_pos, if_neg hpe, true_or, List.append_nil]
    · simp only [if_neg hpe, if_neg hpd, if_neg (not_or.mpr ⟨hpd, hpe⟩)]

/-! ## Removal and insertion -/

theorem exec_removeEntry :
    exec (removeEntry d x) f =
      match (f.node d).contents with
      | .bytes _ => (.error .attributeError, f)
      | .list xs =>
        match f.listRemove x xs with
        | .error e => (.error e, f)
        | .ok ys => (.ok ⟨⟩, f.setEntries d ys) := by
  unfold removeEntry
  rw [exec_get_bind]
  cases (f.node d).contents with
  | bytes data => rfl
  | list xs =>
    simp only
    rw [exec_bind, exec_query]
    cases f.listRemove x xs with
    | error e => rfl
    | ok ys => rfl

theorem exec_append :
    exec (append d x) f =
      match (f.node d).contents with
      | .bytes _ => (.error .attributeError, f)
      | .list xs => (.ok ⟨⟩, f.setEntries d (xs ++ [x])) := by
  unfold append
  rw [exec_get_bind]
  cases (f.node d).contents with
  | bytes data => rfl
  | list xs => rfl

/-- Where `remove` finds what it removes. -/
theorem listRemove_split {f : Heap} (h : f.listRemove s xs = .ok ys) :
    ∃ pre y post, xs = pre ++ y :: post ∧ ys = pre ++ post ∧ f.name y = f.name s ∧
      ∀ z ∈ pre, f.equal z s = .ok false := by
  induction xs generalizing ys with
  | nil => cases h
  | cons x xs ih =>
    unfold listRemove at h
    split at h
    · cases h
    · rename_i heq
      obtain rfl : xs = ys := by simpa using h
      exact ⟨[], x, xs, rfl, rfl, name_of_equalAt heq, nofun⟩
    · rename_i hne
      cases hrest : f.listRemove s xs with
      | error e =>
        rw [hrest] at h
        cases h
      | ok zs =>
        rw [hrest] at h
        obtain rfl : x :: zs = ys := by simpa [Except.map] using h
        obtain ⟨pre, y, post, rfl, rfl, hname, hpre⟩ := ih hrest
        refine ⟨x :: pre, y, post, rfl, rfl, hname, fun z hz => ?_⟩
        rcases List.mem_cons.mp hz with rfl | hz
        · exact hne
        · exact hpre z hz

/-- What is removed is the node itself, if it is there and siblings have different names. -/
theorem listRemove_of_mem {f : Heap} (hnames : (xs.map f.name).Nodup) (hx : x ∈ xs)
    (h : f.listRemove x xs = .ok ys) : ys = xs.erase x := by
  obtain ⟨pre, y, post, rfl, rfl, hname, -⟩ := listRemove_split h
  obtain rfl : y = x := List.inj_on_of_nodup_map hnames (by simp) hx hname
  have hpre : y ∉ pre := fun hmem =>
    (List.nodup_append.mp (List.Nodup.of_map _ hnames)).2.2 y hmem y (by simp) rfl
  rw [List.erase_append_right _ hpre, List.erase_cons_head]

/-! ## Fewer entries -/

/-- `g` has a part of the entries of `f`, and they are as they were. -/
structure Thinned (f g : HoneyPotFilesystem) : Prop where
  fs : g.fs = f.fs
  limit : g.limit = f.limit
  sublist : ∀ p, g.Holds p → (g.entries p).Sublist (f.entries p)
  bytes : ∀ p data, (f.node p).contents = .bytes data → (g.node p).contents = .bytes data
  name : ∀ x, g.Holds x → g.name x = f.name x
  type : ∀ x, g.Holds x → (g.node x).type = (f.node x).type
  target : ∀ x, g.Holds x → (g.node x).target = (f.node x).target

namespace Thinned

variable {look look' : Str → Except FsError (Option Ref)} {piece : Str} {pieces : List Str}

theorem holds (h : Thinned f g) (hx : g.Holds x) : f.Holds x := by
  unfold Holds at hx
  rw [h.fs] at hx
  induction hx with
  | refl => exact holds_root f.toHeap
  | @tail p c hp hc ih =>
    have hp : g.Holds p := by
      unfold Holds
      rw [h.fs]
      exact hp
    exact ih.entry ((h.sublist p hp).subset hc)

/-- A name that is found in `g` is found in `f`. -/
theorem find (h : Thinned f g) (hnames : ((f.entries p).map f.name).Nodup) (hp : g.Holds p)
    (hx : (g.entries p).find? (fun x => g.name x = piece) = some x) :
    (f.entries p).find? (fun x => f.name x = piece) = some x := by
  have hmem := List.mem_of_find?_eq_some hx
  have hname : f.name x = piece := by
    rw [← h.name x (hp.entry hmem)]
    simpa using List.find?_some hx
  cases hy : (f.entries p).find? fun x => f.name x = piece with
  | none => simpa [hname] using List.find?_eq_none.mp hy x ((h.sublist p hp).subset hmem)
  | some y =>
    have hyname : f.name y = piece := by simpa using List.find?_some hy
    rw [List.inj_on_of_nodup_map hnames (List.mem_of_find?_eq_some hy) ((h.sublist p hp).subset hmem)
      (hyname.trans hname.symm)]

/-- A listing that `g` has is one in `f`. -/
theorem listing (h : Thinned f g) (hnonempty : g.entries p ≠ []) :
    f.listing p = .ok (f.entries p) ∧ g.listing p = .ok (g.entries p) := by
  constructor
  · unfold Heap.listing Heap.entries
    cases hc : (f.node p).contents with
    | list zs => rfl
    | bytes data =>
      refine absurd ?_ hnonempty
      unfold Heap.entries
      rw [h.bytes p data hc]
  · unfold Heap.listing Heap.entries
    cases hc : (g.node p).contents with
    | list zs => rfl
    | bytes data =>
      refine absurd ?_ hnonempty
      unfold Heap.entries
      rw [hc]

theorem followLink (h : Thinned f g) (hlook : ∀ t x, look t = .ok (some x) → look' t = .ok (some x))
    (hx : g.Holds x) (hq : g.followLink look x = .ok (some q)) : f.followLink look' x = .ok (some q) := by
  unfold Heap.followLink at hq ⊢
  rw [← h.target x hx]
  split at hq
  · cases hq
  · cases hq
  · exact hlook _ _ hq

theorem hop (h : Thinned f g) (hnames : ∀ p, f.Holds p → ((f.entries p).map f.name).Nodup)
    (hlook : ∀ t x, look t = .ok (some x) → look' t = .ok (some x)) (hp : g.Holds p)
    (hq : g.hop look piece p = .ok (some q)) : f.hop look' piece p = .ok (some q) := by
  unfold Heap.hop at hq ⊢
  cases hlist : g.listing p with
  | error e =>
    rw [hlist] at hq
    cases hq
  | ok zs =>
    rw [hlist] at hq
    obtain rfl := listing_eq hlist
    simp only at hq
    cases hx : (g.entries p).find? fun x => g.name x = piece with
    | none =>
      rw [hx] at hq
      cases hq
    | some x =>
      have hmem := List.mem_of_find?_eq_some hx
      rw [hx] at hq
      rw [(h.listing (List.ne_nil_of_mem hmem)).1]
      simp only at hq ⊢
      rw [h.find (hnames p (h.holds hp)) hp hx]
      simp only
      rw [h.type x (hp.entry hmem)] at hq
      split at hq
      · rename_i hlink
        rw [if_pos hlink]
        exact h.followLink hlook (hp.entry hmem) hq
      · rename_i hlink
        rw [if_neg hlink]
        exact hq

theorem route (h : Thinned f g) (hnames : ∀ p, f.Holds p → ((f.entries p).map f.name).Nodup)
    (hholds : ∀ t x, look t = .ok (some x) → g.Holds x)
    (hlook : ∀ t x, look t = .ok (some x) → look' t = .ok (some x)) (hp : g.Holds p)
    (hq : g.route look pieces p = .ok (some q)) : f.route look' pieces p = .ok (some q) := by
  induction pieces generalizing p with
  | nil => exact hq
  | cons piece rest ih =>
    rw [route_cons] at hq ⊢
    cases hr : g.hop look piece p with
    | error e =>
      rw [hr] at hq
      cases hq
    | ok r =>
      rw [hr] at hq
      cases r with
      | none => cases hq
      | some r =>
        rw [h.hop hnames hlook hp hr]
        exact ih (hop_holds hholds hp hr) hq

theorem getfileAt (h : Thinned f g) (hf : ∀ p, f.Holds p → ((f.entries p).map f.name).Nodup)
    (hg : ∀ p, g.Holds p → ((g.entries p).map g.name).Nodup) {depth : Nat}
    (hx : g.getfileAt depth path true = .ok (some x)) : f.getfileAt depth path true = .ok (some x) := by
  induction depth generalizing path x with
  | zero => cases hx
  | succ depth ih =>
    by_cases hroot : path = ['/']
    · subst hroot
      rw [← hx]
      exact congrArg (fun r => Except.ok (some r)) h.fs.symm
    · rw [getfileAt_eq_route hg hroot] at hx
      rw [getfileAt_eq_route hf hroot, ← h.fs]
      exact h.route hf (fun t x => links_holds) (fun t x ht => ih ht) (holds_root _) hx

/-- **What is found in `g`** is found in `f`. -/
theorem getPath (h : Thinned f g) (hf : ∀ p, f.Holds p → ((f.entries p).map f.name).Nodup)
    (hg : ∀ p, g.Holds p → ((g.entries p).map g.name).Nodup) (hd : g.getPath path = .ok d) :
    f.getPath path = .ok d := by
  have hfrom : ∀ parts p, g.Holds p → g.getPathFrom parts p = .ok d → f.getPathFrom parts p = .ok d := by
    intro parts
    induction parts with
    | nil => exact fun p _ hd => hd
    | cons part rest ih =>
      intro p hp hd
      unfold getPathFrom at hd ⊢
      split at hd
      · rename_i hnil
        rw [if_pos hnil]
        exact ih p hp hd
      · rename_i hnil
        rw [if_neg hnil]
        cases hlist : g.listing p with
        | error e =>
          rw [hlist] at hd
          cases hd
        | ok zs =>
          rw [hlist] at hd
          obtain rfl := listing_eq hlist
          simp only at hd
          cases hx : (g.entries p).find? fun x => g.name x = part with
          | none =>
            rw [hx] at hd
            cases hd
          | some x =>
            have hmem := List.mem_of_find?_eq_some hx
            rw [hx] at hd
            rw [(h.listing (List.ne_nil_of_mem hmem)).1]
            simp only at hd ⊢
            rw [h.find (hf p (h.holds hp)) hp hx]
            simp only
            rw [h.type x (hp.entry hmem), h.target x (hp.entry hmem)] at hd
            split at hd
            · rename_i hlink
              rw [if_pos hlink]
              cases htarget : (f.node x).target with
              | none =>
                rw [htarget] at hd
                cases hd
              | some t =>
                rw [htarget] at hd
                simp only at hd ⊢
                cases hfile : g.getfile t with
                | error e =>
                  rw [hfile] at hd
                  cases hd
                | ok r =>
                  rw [hfile] at hd
                  cases r with
                  | none => cases hd
                  | some q =>
                    have hfile' : f.getfile t = .ok (some q) := by
                      unfold getfile at hfile ⊢
                      rw [← h.limit]
                      exact h.getfileAt hf hg hfile
                    rw [hfile']
                    exact ih q (holds_getfile hfile) hd
            · rename_i hlink
              rw [if_neg hlink]
              exact ih x (hp.entry hmem) hd
  unfold Heap.getPath at hd ⊢
  rw [← h.fs]
  exact hfrom _ _ (holds_root _) hd

end Thinned

theorem thinned_takenOut (h : WellFormed f) (hd : f.Holds d) (hx : x ∈ f.entries d)
    (newname : Str) : Thinned f (f.takenOut d x newname) := by
  obtain ⟨-, hapart⟩ := h.takenOut hd hx newname
  have hnode : ∀ p, (f.takenOut d x newname).node p =
      { f.node p with
        name := if p = x then newname else (f.node p).name
        contents := if p = d then .list ((f.entries d).erase x) else (f.node p).contents } := by
    intro p
    rw [takenOut, node_setName, node_setEntries]
  refine ⟨rfl, rfl, fun p _ => ?_, fun p data hbytes => ?_, fun y hy => ?_, fun y _ => ?_, fun y _ => ?_⟩
  · rw [entries_takenOut]
    split_ifs with hp
    · exact hp ▸ List.erase_sublist
    · exact List.Sublist.refl _
  · have hpd : p ≠ d := by
      rintro rfl
      unfold Heap.entries at hx
      rw [hbytes] at hx
      cases hx
    rw [hnode]
    simp only [if_neg hpd, hbytes]
  · have hyx : y ≠ x := fun heq => hapart.not_holds (heq ▸ hy)
    unfold Heap.name
    rw [hnode]
    simp only [if_neg hyx]
  · rw [hnode]
  · rw [hnode]

/-! ## `rename` -/

/-- `rename` takes an entry out of `d`: one that equals `x`, which is what the path leads to. -/
structure TakesOut (f : HoneyPotFilesystem) (oldpath newpath : Str) (x d : Ref) (ys : List Ref) :
    Prop where
  source : f.getfile oldpath = .ok (some x)
  missing : f.getfile newpath = .ok none
  directory : f.getPath (dirname oldpath) = .ok d
  removed : f.listRemove x (f.entries d) = .ok ys

/-- **`rename` is safe** where it takes an entry out: the path leads to the entry that it names, and the
directory of the new path is found without it. -/
def RenameSafe (f : HoneyPotFilesystem) (oldpath newpath : Str) : Prop :=
  ∀ x d ys, TakesOut f oldpath newpath x d ys →
    x ∈ f.entries d ∧ f.name x = basename oldpath ∧
      ∃ e zs, (f.takenOut d x (basename newpath)).getPath (dirname newpath) = .ok e ∧
        ((f.takenOut d x (basename newpath)).node e).contents = .list zs

/-- `rename` ends with an exception and changes nothing, or moves the entry. -/
def RenameAtomic (f : HoneyPotFilesystem) (oldpath newpath : Str) : Prop :=
  match exec (rename oldpath newpath) f with
  | (.error _, g) => g = f
  | (.ok _, g) => Moved f g oldpath newpath

theorem rename_stops (h : ∀ x d ys, ¬ TakesOut f oldpath newpath x d ys) :
    ∃ e, exec (rename oldpath newpath) f = (.error e, f) := by
  unfold rename
  rw [exec_bind, exec_query]
  cases hsource : f.getfile oldpath with
  | error e => exact ⟨e, rfl⟩
  | ok found =>
    cases found with
    | none => exact ⟨_, rfl⟩
    | some x =>
      simp only
      rw [exec_bind, exec_query]
      cases hnew : f.getfile newpath with
      | error e => exact ⟨e, rfl⟩
      | ok new =>
        cases new with
        | some y => exact ⟨_, rfl⟩
        | none =>
          simp only [Option.isSome_none, Bool.false_eq_true, if_false]
          rw [exec_bind, exec_query]
          cases hd : f.getPath (dirname oldpath) with
          | error e => exact ⟨e, rfl⟩
          | ok d =>
            simp only
            rw [exec_bind, exec_removeEntry]
            cases hc : (f.node d).contents with
            | bytes data => exact ⟨_, rfl⟩
            | list xs =>
              simp only
              cases hys : f.listRemove x xs with
              | error e => exact ⟨e, rfl⟩
              | ok ys => exact absurd ⟨hsource, hnew, hd, entries_eq hc ▸ hys⟩ (h x d ys)

theorem rename_goes (h : TakesOut f oldpath newpath x d ys) :
    exec (rename oldpath newpath) f =
      match ((f.setEntries d ys).setName x (basename newpath)).getPath (dirname newpath) with
      | .error e => (.error e, (f.setEntries d ys).setName x (basename newpath))
      | .ok e => exec (append e x) ((f.setEntries d ys).setName x (basename newpath)) := by
  have hlist : ∃ xs, (f.node d).contents = .list xs := by
    cases hc : (f.node d).contents with
    | list xs => exact ⟨xs, rfl⟩
    | bytes data =>
      have hremoved := h.removed
      unfold Heap.entries at hremoved
      rw [hc] at hremoved
      cases hremoved
  obtain ⟨xs, hxs⟩ := hlist
  have hremoved : f.listRemove x xs = .ok ys := entries_eq hxs ▸ h.removed
  unfold rename
  rw [exec_bind, exec_query, h.source]
  simp only
  rw [exec_bind, exec_query, h.missing]
  simp only [Option.isSome_none, Bool.false_eq_true, if_false]
  rw [exec_bind, exec_query, h.directory]
  simp only
  rw [exec_bind, exec_removeEntry, hxs]
  simp only [hremoved]
  rw [exec_modify_bind, exec_bind, exec_query]
  cases ((f.setEntries d ys).setName x (basename newpath)).getPath (dirname newpath) with
  | error e => rfl
  | ok e => rfl

/-- An entry that is taken out and not put back leaves a shorter listing. -/
theorem not_unchanged (h : TakesOut f oldpath newpath x d ys) :
    (f.setEntries d ys).setName x newname ≠ f := by
  intro heq
  obtain ⟨pre, y, post, hxs, rfl, -, -⟩ := listRemove_split h.removed
  have hentries : (f.entries d).length = ((f.setEntries d (pre ++ post)).setName x newname |>.entries d).length := by
    rw [heq]
  rw [entries_setName, entries_setEntries, if_pos rfl, hxs] at hentries
  simp at hentries

/-- If another entry than the source has moved, then not by this. -/
theorem moved_other {x' t : Ref} (hf : WellFormed f) (hd : f.Holds d) (he : f.Holds e)
    (hx' : x' ∈ f.entries d) (hne : x' ≠ x) (hremoved : f.listRemove x (f.entries d) = .ok ys) :
    ((f.setEntries d ys).setName x newname).setEntries t
        (((f.setEntries d ys).setName x newname).entries t ++ [x]) ≠
      f.relocated d e x' newname := by
  intro hg
  have hnames : ∀ p, (if p = x then newname else f.name p) = if p = x' then newname else f.name p := by
    intro p
    rw [← name_relocated f d e x' newname p, ← hg, name_setEntries, name_setName, name_setEntries]
  have hname' : f.name x' = newname := by
    have hthis := hnames x'
    rwa [if_neg hne, if_pos rfl] at hthis
  have hname : f.name x = newname := by
    have hthis := hnames x
    rw [if_pos rfl, if_neg (Ne.symm hne)] at hthis
    exact hthis.symm
  -- what has been taken out has the name, and so is the entry that has moved
  obtain ⟨pre, y, post, hxs, rfl, hy, -⟩ := listRemove_split hremoved
  obtain rfl : y = x' :=
    hf.tree.sibling_eq hd (by change y ∈ f.entries d; rw [hxs]; simp) hx'
      (hy.trans (hname.trans hname'.symm))
  have hmem : y ∈ (f.relocated d e y newname).entries e := by
    rw [entries_relocated, if_pos rfl]
    simp
  rw [← hg] at hmem
  simp only [entries_setEntries, entries_setName] at hmem
  have hkept : y ∈ if e = d then pre ++ post else f.entries e := by
    by_cases het : e = t
    · subst het
      rw [if_pos rfl] at hmem
      exact (List.mem_append.mp hmem).resolve_right fun hx => hne (List.mem_singleton.mp hx)
    · rwa [if_neg het] at hmem
  split_ifs at hkept with hed
  · have hnodup := hf.tree.once d hd
    change (f.entries d).Nodup at hnodup
    rw [hxs] at hnodup
    exact (List.nodup_cons.mp (List.nodup_middle.mp hnodup)).1 hkept
  · exact hed (hf.tree.parent e d y he hd hkept hx')

theorem safe_of_atomic (hf : WellFormed f) (hatomic : RenameAtomic f oldpath newpath) :
    RenameSafe f oldpath newpath := by
  intro x d ys h
  have hd : f.Holds d := holds_getPath h.directory
  unfold RenameAtomic at hatomic
  rw [rename_goes h] at hatomic
  cases htarget : ((f.setEntries d ys).setName x (basename newpath)).getPath (dirname newpath) with
  | error e =>
    rw [htarget] at hatomic
    exact absurd hatomic (not_unchanged h)
  | ok t =>
    rw [htarget] at hatomic
    simp only [exec_append] at hatomic
    cases hc : (((f.setEntries d ys).setName x (basename newpath)).node t).contents with
    | bytes data =>
      rw [hc] at hatomic
      exact absurd hatomic (not_unchanged h)
    | list zs =>
      rw [hc] at hatomic
      obtain ⟨d', e, x', hd', he, hx', hname, hbelow, hg⟩ := hatomic
      obtain rfl : d = d' := Except.ok.inj (h.directory.symm.trans hd')
      obtain rfl := entries_eq hc
      obtain rfl : x' = x := by
        by_contra hne
        exact moved_other hf hd (holds_getPath he) hx' hne h.removed hg
      obtain rfl := listRemove_of_mem (hf.tree.names d hd) hx' h.removed
      exact ⟨hx', hname, t, _, htarget, hc⟩

theorem atomic_of_safe (hf : WellFormed f) (hsafe : RenameSafe f oldpath newpath) :
    RenameAtomic f oldpath newpath := by
  unfold RenameAtomic
  by_cases htakes : ∃ x d ys, TakesOut f oldpath newpath x d ys
  · obtain ⟨x, d, ys, h⟩ := htakes
    have hd : f.Holds d := holds_getPath h.directory
    obtain ⟨hx, hname, e, zs, he, hzs⟩ := hsafe x d ys h
    obtain ⟨hout, -⟩ := hf.takenOut hd hx (basename newpath)
    have hys : ys = (f.entries d).erase x := listRemove_of_mem (hf.tree.names d hd) hx h.removed
    have hg : (f.setEntries d ys).setName x (basename newpath) = f.takenOut d x (basename newpath) := by
      rw [hys, takenOut]
    have hfound := (thinned_takenOut hf hd hx (basename newpath)).getPath hf.tree.names
      hout.tree.names he
    rw [rename_goes h, hg, he]
    simp only [exec_append, hzs]
    refine ⟨d, e, x, h.directory, hfound, hx, hname, ?_, relocated_of_takenOut hzs⟩
    exact (detached_erase f d x).not_reach hf.tree hd hx (reach_setName.mp (holds_getPath he))
  · simp only [not_exists] at htakes
    obtain ⟨e, he⟩ := rename_stops htakes
    rw [he]

/-! ## `mv` -/

/-- What `mv` does to the file system once it has found the source `x` and the directory `d`. -/
def mvEdit (rsrc newname : Str) (x d : Ref) : FsM Unit := do
  modify fun f => f.setName x newname
  append d x
  let sdir ← query fun f => f.getPath (dirname rsrc)
  removeEntry sdir x

theorem exec_mvEdit (rsrc newname : Str) :
    exec (mvEdit rsrc newname x d) f =
      match (f.node d).contents with
      | .bytes _ => (.error .attributeError, f.setName x newname)
      | .list _ =>
        match (f.doubled x d newname).getPath (dirname rsrc) with
        | .error e => (.error e, f.doubled x d newname)
        | .ok sd => exec (removeEntry sd x) (f.doubled x d newname) := by
  unfold mvEdit
  rw [exec_modify_bind, exec_bind, exec_append, node_setName]
  simp only
  cases hc : (f.node d).contents with
  | bytes data => rfl
  | list xs =>
    obtain rfl := entries_eq hc
    simp only
    rw [exec_bind, exec_query, ← doubled]
    cases (f.doubled x d newname).getPath (dirname rsrc) with
    | error e => rfl
    | ok sd => rfl

/-- `mv rsrc rdest` gets as far as changing something. -/
structure Arrives (f : HoneyPotFilesystem) (rsrc rdest : Str) (x d : Ref) : Prop where
  source : f.getfile rsrc = .ok (some x)
  parent : f.exists (dirname rdest) = .ok true
  directory : f.getPath (dirname rdest) = .ok d

/-- The arguments are one source and a destination that does not exist. -/
structure OneSource (user : User) (f : HoneyPotFilesystem) (args : List Str) (src dest rdest : Str) :
    Prop where
  options : ∃ optlist, gnuGetopt "-bfiStTuv".toList [] args = .ok (optlist, [src, dest])
  resolved : resolve user dest f = .ok rdest
  missing : f.getfile rdest = .ok none

section Mv

variable {user : User} {s : Session} {args : List Str} {src dest rdest rsrc : Str}

theorem OneSource.plan (h : OneSource user f args src dest rdest) :
    ∃ optlist why, mvPlan user args f =
      match f.exists (dirname rdest) with
      | .error e => .error e
      | .ok false => .ok (.inl why)
      | .ok true => .ok (.inr ⟨optlist, [src], dest, rdest, false⟩) := by
  obtain ⟨optlist, hoptions⟩ := h.options
  have hargs : args ≠ [] := by
    rintro rfl
    cases hoptions
  have hisdir : f.isdir rdest = false := by
    unfold isdir
    have hroot : rdest ≠ ['/'] := by
      rintro rfl
      have hmissing := h.missing
      unfold getfile at hmissing
      cases hlimit : f.limit with
      | zero =>
        rw [hlimit] at hmissing
        cases hmissing
      | succ n =>
        rw [hlimit] at hmissing
        cases hmissing
    rw [if_neg hroot, h.missing]
  have hexists : f.exists rdest = .ok false := by
    unfold Heap.exists
    rw [h.missing]
    rfl
  refine ⟨optlist, ["mv".toList ++ ": cannot create regular file `".toList ++ dest ++
    "': No such file or directory\n".toList], ?_⟩
  unfold mvPlan files
  have hrest : ([src, dest] : List Str).dropLast = [src] ∧ ([src, dest] : List Str).getLastD [] = dest :=
    ⟨rfl, rfl⟩
  simp only [if_neg hargs, hoptions, hrest, h.resolved, hisdir, hexists]
  cases f.exists (dirname rdest) with
  | error e => split_ifs <;> simp_all
  | ok found => cases found <;> split_ifs <;> simp_all

theorem onFs_final (m : FsM Unit) (s : Session) :
    (exec (do onFs m; pure true : CommandM Bool) s).2.fs = (exec m s.fs).2 := by
  unfold onFs
  rw [exec_bind, exec_zoom]
  cases exec m s.fs with
  | mk r g => cases r <;> rfl

/-- A loop over one argument leaves what its body leaves. -/
theorem forEach_single (body : Str → CommandM Bool) (a : Str) (s : Session) :
    (exec (forEach body [a]) s).2 = (exec (body a) s).2 := by
  unfold forEach
  rw [exec_bind]
  cases exec (body a) s with
  | mk r t =>
    cases r with
    | error e => rfl
    | ok again => cases again <;> rfl

theorem mvCommand_eq (h : OneSource user s.fs args src dest rdest)
    (hparent : s.fs.exists (dirname rdest) = .ok true) :
    ∃ optlist, (exec (mvCommand user args) s).2 =
      (exec (mvOne user ⟨optlist, [src], dest, rdest, false⟩ src) s).2 := by
  obtain ⟨optlist, why, hplan⟩ := h.plan
  rw [hparent] at hplan
  refine ⟨optlist, ?_⟩
  rw [← forEach_single]
  unfold mvCommand runFiles
  rw [exec_bind, exec_ask, hplan]

theorem mv_arrives (h : OneSource user s.fs args src dest rdest) (hsrc : resolve user src s.fs = .ok rsrc)
    (harrives : Arrives s.fs rsrc rdest x d) :
    (exec (mvCommand user args) s).2.fs = (exec (mvEdit rsrc (basename dest) x d) s.fs).2 := by
  obtain ⟨optlist, hcommand⟩ := mvCommand_eq h harrives.parent
  rw [hcommand]
  unfold mvOne
  rw [exec_bind, exec_ask, hsrc]
  simp only
  rw [exec_bind, exec_ask, harrives.source]
  simp only
  rw [exec_bind, exec_ask]
  have htarget : Files.target ⟨optlist, [src], dest, rdest, false⟩ = dirname rdest := rfl
  rw [htarget, harrives.directory]
  exact onFs_final (mvEdit rsrc (basename dest) x d) s

theorem mv_stops (h : OneSource user s.fs args src dest rdest)
    (hstops : ∀ rsrc x d, resolve user src s.fs = .ok rsrc → ¬ Arrives s.fs rsrc rdest x d) :
    (exec (mvCommand user args) s).2.fs = s.fs := by
  by_cases hparent : s.fs.exists (dirname rdest) = .ok true
  · obtain ⟨optlist, hcommand⟩ := mvCommand_eq h hparent
    rw [hcommand]
    unfold mvOne
    rw [exec_bind, exec_ask]
    cases hsrc : resolve user src s.fs with
    | error e => rfl
    | ok rsrc =>
      simp only
      rw [exec_bind, exec_ask]
      cases hfile : s.fs.getfile rsrc with
      | error e => rfl
      | ok found =>
        cases found with
        | none => rfl
        | some x =>
          simp only
          rw [exec_bind, exec_ask]
          have htarget : Files.target ⟨optlist, [src], dest, rdest, false⟩ = dirname rdest := rfl
          rw [htarget]
          cases hd : s.fs.getPath (dirname rdest) with
          | error e => rfl
          | ok d => exact absurd ⟨hfile, hparent, hd⟩ (hstops rsrc x d hsrc)
  · obtain ⟨optlist, why, hplan⟩ := h.plan
    unfold mvCommand runFiles
    rw [exec_bind, exec_ask, hplan]
    cases hexists : s.fs.exists (dirname rdest) with
    | error e => rfl
    | ok found =>
      cases found with
      | false => rfl
      | true => exact absurd hexists hparent

/-- **`mv` is safe** where it changes something. The source, renamed and in both places, is the first entry
that equals it in the directory of its path. And it was the entry that the path names, under the
new path's own name and not above it; or else nothing changes. -/
def MvSafe (f : HoneyPotFilesystem) (rsrc rdest newname : Str) : Prop :=
  ∀ x d, Arrives f rsrc rdest x d →
    (∃ data, (f.node d).contents = .bytes data) ∧ f.name x = newname ∨
      ∃ xs sd, (f.node d).contents = .list xs ∧
        (f.doubled x d newname).getPath (dirname rsrc) = .ok sd ∧
        FirstIs (f.doubled x d newname).toHeap x ((f.doubled x d newname).entries sd) ∧
        (x ∈ f.entries sd ∧ f.getPath (dirname rsrc) = .ok sd ∧ f.name x = basename rsrc ∧
            newname = basename rdest ∧ ¬ f.objects.Reach x d ∨
          sd = d ∧ f.name x = newname ∧ (f.entries d ++ [x]).erase x = f.entries d)

/-- `mv` changes nothing or moves the entry. -/
def MvAtomic (user : User) (s : Session) (args : List Str) (src rdest : Str) : Prop :=
  (exec (mvCommand user args) s).2.fs = s.fs ∨
    ∃ rsrc, resolve user src s.fs = .ok rsrc ∧ Moved s.fs (exec (mvCommand user args) s).2.fs rsrc rdest

theorem setName_self (hname : f.name x = newname) : f.setName x newname = f := by
  refine eq_of_node rfl fun p => ?_
  rw [node_setName]
  by_cases hp : p = x
  · subst hp
    rw [if_pos rfl, ← hname]
    rfl
  · rw [if_neg hp]

/-- `mv` has moved the entry. -/
theorem relocated_of_doubled {sd : Ref} (hx : x ∈ f.entries sd) (hlist : (f.node d).contents = .list xs) :
    (f.doubled x d newname).setEntries sd (((f.doubled x d newname).entries sd).erase x) =
      f.relocated sd d x newname := by
  refine eq_of_node rfl fun p => ?_
  rw [node_setEntries, entries_doubled, doubled, node_setEntries, node_setName]
  unfold relocated
  by_cases hps : p = sd
  · subst hps
    by_cases hpd : p = d
    · subst hpd
      simp only [if_pos, true_or, List.erase_append_left _ hx]
    · simp only [if_pos, if_neg hpd, true_or, List.append_nil]
  · by_cases hpd : p = d
    · subst hpd
      simp only [if_pos, if_neg hps, or_true]
    · simp only [if_neg hps, if_neg hpd, if_neg (not_or.mpr ⟨hps, hpd⟩)]

/-- `mv` has put the source in and taken it out again. -/
theorem doubled_undone (hname : f.name x = newname) (hlist : (f.node d).contents = .list xs)
    (hundone : (f.entries d ++ [x]).erase x = f.entries d) :
    (f.doubled x d newname).setEntries d (((f.doubled x d newname).entries d).erase x) = f := by
  refine eq_of_node rfl fun p => ?_
  rw [entries_doubled, if_pos rfl, hundone, node_setEntries, doubled, node_setEntries, setName_self hname]
  by_cases hp : p = d
  · subst hp
    rw [entries_eq hlist]
    simp only [if_pos, ← hlist]
  · simp only [if_neg hp]

theorem mvAtomic_of_safe (h : OneSource user s.fs args src dest rdest)
    (hsafe : ∀ rsrc, resolve user src s.fs = .ok rsrc → MvSafe s.fs rsrc rdest (basename dest)) :
    MvAtomic user s args src rdest := by
  unfold MvAtomic
  by_cases harrives : ∃ rsrc x d, resolve user src s.fs = .ok rsrc ∧ Arrives s.fs rsrc rdest x d
  · obtain ⟨rsrc, x, d, hsrc, harrives⟩ := harrives
    rw [mv_arrives h hsrc harrives, exec_mvEdit]
    rcases hsafe rsrc hsrc x d harrives with
      ⟨⟨data, hdata⟩, hname⟩ | ⟨xs, sd, hlist, hsd, hfirst, hroom⟩
    · rw [hdata]
      exact .inl (setName_self hname)
    · rw [hlist]
      simp only [hsd, exec_removeEntry]
      cases hc : ((s.fs.doubled x d (basename dest)).node sd).contents with
      | bytes data =>
        have hmem := hfirst.mem
        unfold Heap.entries at hmem
        rw [hc] at hmem
        exact absurd hmem List.not_mem_nil
      | list zs =>
        obtain rfl := entries_eq hc
        simp only [listRemove_of_first hfirst]
        rcases hroom with ⟨hx, hdir, hname, hnew, hbelow⟩ | ⟨rfl, hname, hundone⟩
        · refine .inr ⟨rsrc, hsrc, sd, d, x, hdir, harrives.directory, hx, hname, hbelow, ?_⟩
          rw [relocated_of_doubled hx hlist, hnew]
        · exact .inl (doubled_undone hname hlist hundone)
  · refine .inl (mv_stops h fun rsrc x d hsrc harr => harrives ⟨rsrc, x, d, hsrc, harr⟩)

/-- A source that is in both places has not moved. -/
theorem not_moved_doubled (hd : f.getPath (dirname rdest) = .ok d) :
    f.doubled x d newname ≠ f ∧ ¬ Moved f (f.doubled x d newname) rsrc rdest := by
  constructor
  · intro heq
    have hentries := entries_doubled f x d newname d
    rw [heq, if_pos rfl] at hentries
    simpa using congrArg List.length hentries
  · rintro ⟨d', e, x', -, he, hx', -, -, hg⟩
    obtain rfl : d = e := Except.ok.inj (hd.symm.trans he)
    have hentries := entries_doubled f x d newname d'
    rw [hg, entries_relocated, if_pos rfl] at hentries
    have hlength := congrArg List.length hentries
    have hpos := List.length_pos_of_mem hx'
    by_cases hdd : d' = d
    · simp only [hdd, if_pos, List.length_append, List.length_singleton] at hlength hpos hx'
      rw [List.length_erase_of_mem hx'] at hlength
      omega
    · simp only [if_neg hdd, List.append_nil] at hlength
      rw [List.length_erase_of_mem hx'] at hlength
      omega

theorem eq_of_rotated {post : List Ref} (h : post ++ [x] = y :: post) : x = y := by
  induction post generalizing y with
  | nil => simpa using h
  | cons a l ih =>
    obtain ⟨rfl, hrest⟩ := List.cons.inj h
    exact ih hrest

section Removed

variable {sd : Ref} {pre post : List Ref}
  (hpre : ∀ z ∈ pre, (f.doubled x d newname).equal z x = .ok false)
include hpre

theorem notMem_pre : x ∉ pre := by
  intro hmem
  have hself := hpre x hmem
  rw [equal_self] at hself
  cases hself

variable (hlist : (f.doubled x d newname).entries sd = pre ++ y :: post)
include hlist

/-- If nothing has changed, the source has been put in and taken out. -/
theorem undone_of_unchanged (hg : (f.doubled x d newname).setEntries sd (pre ++ post) = f) :
    y = x ∧ sd = d ∧ f.name x = newname ∧ (f.entries d ++ [x]).erase x = f.entries d := by
  have hentries : f.entries sd = pre ++ post := by
    conv_lhs => rw [← hg]
    rw [entries_setEntries, if_pos rfl]
  have hname : f.name x = newname := by
    conv_lhs => rw [← hg]
    rw [name_setEntries, name_doubled, if_pos rfl]
  have hnot := notMem_pre hpre
  rw [entries_doubled] at hlist
  by_cases hsd : sd = d
  · subst hsd
    rw [if_pos rfl, hentries, List.append_assoc] at hlist
    obtain rfl := eq_of_rotated (List.append_cancel_left hlist)
    refine ⟨rfl, rfl, hname, ?_⟩
    rw [hentries, List.append_assoc, List.append_cancel_left hlist, List.erase_append_right _ hnot,
      List.erase_cons_head]
  · rw [if_neg hsd, hentries] at hlist
    simpa using congrArg List.length hlist

/-- If the entry has moved, it is the source that has been taken out, or nothing has changed. -/
theorem removed_of_moved (hd : f.getPath (dirname rdest) = .ok d)
    (hg : Moved f ((f.doubled x d newname).setEntries sd (pre ++ post)) rsrc rdest) :
    y = x ∧ (x ∈ f.entries sd ∧ f.getPath (dirname rsrc) = .ok sd ∧ f.name x = basename rsrc ∧
        newname = basename rdest ∧ ¬ f.objects.Reach x d ∨
      sd = d ∧ f.name x = newname ∧ (f.entries d ++ [x]).erase x = f.entries d) := by
  obtain ⟨d', e, x', hd', he, hx', hname, hbelow, hg⟩ := hg
  obtain rfl : d = e := Except.ok.inj (hd.symm.trans he)
  have hnot := notMem_pre hpre
  have hentries : ∀ p, (if p = sd then pre ++ post else (f.doubled x d newname).entries p) =
      (if p = d' then (f.entries d').erase x' else f.entries p) ++ if p = d then [x'] else [] := by
    intro p
    rw [← entries_relocated f d' d x' (basename rdest), ← hg, entries_setEntries]
  have hnames : ∀ p, (if p = x then newname else f.name p) =
      if p = x' then basename rdest else f.name p := by
    intro p
    rw [← name_relocated f d' d x' (basename rdest), ← hg, name_setEntries, name_doubled]
  have hsplit : pre ++ y :: post = f.entries sd ++ if sd = d then [x] else [] := by
    rw [← hlist, entries_doubled]
    split_ifs with hsd
    · rw [hsd]
    · rw [List.append_nil]
  -- one entry less is in the directory of the source
  obtain rfl : d' = sd := by
    by_contra hne
    have hhere := hentries sd
    rw [if_pos rfl, if_neg (Ne.symm hne)] at hhere
    have hone := congrArg List.length hsplit
    have htwo := congrArg List.length hhere
    by_cases hsd : sd = d
    · simp [hsd] at hone htwo
      omega
    · simp [hsd] at hone htwo
      omega
  have hhere := hentries d'
  rw [if_pos rfl, if_pos rfl] at hhere
  by_cases hxx : x' = x
  · subst hxx
    have hnew := hnames x'
    rw [if_pos rfl, if_pos rfl] at hnew
    refine ⟨?_, .inl ⟨hx', hd', hname, hnew, hbelow⟩⟩
    -- the source is in the listing once less than before
    by_contra hy
    have hone := congrArg (List.count x') hsplit
    have htwo := congrArg (List.count x') hhere
    have hpos := List.count_pos_iff.mpr hx'
    simp only [List.count_append, List.count_cons_of_ne hy, List.count_erase_self] at hone htwo
    by_cases hsd : d' = d
    · simp only [hsd, if_pos] at hone htwo hpos
      omega
    · simp only [if_neg hsd] at hone htwo
      omega
  · have hsd : d' = d := by
      by_contra hne
      have hthere := hentries d
      rw [if_neg (Ne.symm hne), if_neg (Ne.symm hne), if_pos rfl, entries_doubled, if_pos rfl] at hthere
      exact hxx (List.singleton_inj.mp (List.append_cancel_left hthere)).symm
    subst hsd
    have hkept := hnames x
    rw [if_pos rfl, if_neg (Ne.symm hxx)] at hkept
    rw [if_pos rfl] at hsplit hhere
    cases post using List.reverseRecOn with
    | nil =>
      obtain ⟨hsame, hyx⟩ := List.append_inj' hsplit rfl
      obtain rfl := List.singleton_inj.mp hyx
      refine ⟨rfl, .inr ⟨rfl, hkept.symm, ?_⟩⟩
      rw [List.erase_append_right _ (hsame ▸ hnot), List.erase_cons_head, List.append_nil]
    | append_singleton post z =>
      -- the last entry is the source, and the one that moved
      rw [← List.cons_append, ← List.append_assoc] at hsplit
      rw [← List.append_assoc] at hhere
      have hz := List.singleton_inj.mp (List.append_inj' hsplit rfl).2
      have hz' := List.singleton_inj.mp (List.append_inj' hhere rfl).2
      exact absurd (hz'.symm.trans hz) hxx

end Removed

theorem safe_of_mvAtomic (h : OneSource user s.fs args src dest rdest)
    (hatomic : MvAtomic user s args src rdest) (hsrc : resolve user src s.fs = .ok rsrc) :
    MvSafe s.fs rsrc rdest (basename dest) := by
  intro x d harrives
  have hcases : (exec (mvEdit rsrc (basename dest) x d) s.fs).2 = s.fs ∨
      Moved s.fs (exec (mvEdit rsrc (basename dest) x d) s.fs).2 rsrc rdest := by
    rw [← mv_arrives h hsrc harrives]
    rcases hatomic with hsame | ⟨rsrc', hsrc', hmoved⟩
    · exact .inl hsame
    · obtain rfl := Except.ok.inj (hsrc.symm.trans hsrc')
      exact .inr hmoved
  have hstuck : ¬ (s.fs.doubled x d (basename dest) = s.fs ∨
      Moved s.fs (s.fs.doubled x d (basename dest)) rsrc rdest) := by
    obtain ⟨hchanged, hnotMoved⟩ := not_moved_doubled harrives.directory
    exact not_or.mpr ⟨hchanged, hnotMoved⟩
  rw [exec_mvEdit] at hcases
  cases hlist : (s.fs.node d).contents with
  | bytes data =>
    rw [hlist] at hcases
    simp only at hcases
    refine .inl ⟨⟨data, rfl⟩, ?_⟩
    rcases hcases with hsame | ⟨d', e, x', -, he, -, -, -, hg⟩
    · have hname : (s.fs.setName x (basename dest)).name x = basename dest := by
        rw [name_setName, if_pos rfl]
      rwa [hsame] at hname
    · -- a directory that holds `bytes` gets no entry
      obtain rfl : d = e := Except.ok.inj (harrives.directory.symm.trans he)
      have hnode : ((s.fs.setName x (basename dest)).node d).contents = .bytes data := by
        rw [node_setName]
        exact hlist
      rw [hg] at hnode
      unfold relocated at hnode
      simp at hnode
  | list xs =>
    rw [hlist] at hcases
    simp only at hcases
    cases hsd : (s.fs.doubled x d (basename dest)).getPath (dirname rsrc) with
    | error e =>
      rw [hsd] at hcases
      exact absurd hcases hstuck
    | ok sd =>
      rw [hsd] at hcases
      simp only [exec_removeEntry] at hcases
      cases hc : ((s.fs.doubled x d (basename dest)).node sd).contents with
      | bytes data =>
        rw [hc] at hcases
        exact absurd hcases hstuck
      | list zs =>
        rw [hc] at hcases
        simp only at hcases
        obtain rfl := entries_eq hc
        cases hys : (s.fs.doubled x d (basename dest)).listRemove x
            ((s.fs.doubled x d (basename dest)).entries sd) with
        | error e =>
          rw [hys] at hcases
          exact absurd hcases hstuck
        | ok ys =>
          rw [hys] at hcases
          obtain ⟨pre, y, post, hsplit, rfl, -, hpre⟩ := listRemove_split hys
          have hend : y = x ∧ (x ∈ s.fs.entries sd ∧ s.fs.getPath (dirname rsrc) = .ok sd ∧
                s.fs.name x = basename rsrc ∧ basename dest = basename rdest ∧
                ¬ s.fs.objects.Reach x d ∨
              sd = d ∧ s.fs.name x = basename dest ∧
                (s.fs.entries d ++ [x]).erase x = s.fs.entries d) := by
            rcases hcases with hsame | hmoved
            · obtain ⟨hy, hundone⟩ := undone_of_unchanged hpre hsplit hsame
              exact ⟨hy, .inr hundone⟩
            · exact removed_of_moved hpre hsplit harrives.directory hmoved
          obtain ⟨rfl, hroom⟩ := hend
          exact .inr ⟨xs, sd, rfl, rfl, ⟨pre, post, hsplit, hpre⟩, hroom⟩

end Mv

/-- **Renaming is atomic** exactly where it is safe. -/
theorem renames_iff (f : HoneyPotFilesystem) (hf : WellFormed f) :
    (∀ oldpath newpath, RenameAtomic f oldpath newpath ↔ RenameSafe f oldpath newpath) ∧
      ∀ user written args src dest rdest, OneSource user f args src dest rdest →
        (MvAtomic user ⟨f, written⟩ args src rdest ↔
          ∀ rsrc, resolve user src f = .ok rsrc → MvSafe f rsrc rdest (basename dest)) :=
  ⟨fun _ _ => ⟨safe_of_atomic hf, atomic_of_safe hf⟩, fun _ written _ _ _ _ h =>
    ⟨fun hatomic _ hsrc => safe_of_mvAtomic (s := ⟨f, written⟩) h hatomic hsrc,
      fun hsafe => mvAtomic_of_safe (s := ⟨f, written⟩) h hsafe⟩⟩

/-- `mv /tmp /n` and the renaming of `/tmp`. -/
theorem renames_smallFs :
    (RenameAtomic smallFs ['/', 't', 'm', 'p'] ['/', 'n'] ↔
        RenameSafe smallFs ['/', 't', 'm', 'p'] ['/', 'n']) ∧
      (MvAtomic tmpUser ⟨smallFs, []⟩ [['/', 't', 'm', 'p'], ['/', 'n']] ['/', 't', 'm', 'p'] ['/', 'n'] ↔
        ∀ rsrc, resolve tmpUser ['/', 't', 'm', 'p'] smallFs = .ok rsrc →
          MvSafe smallFs rsrc ['/', 'n'] ['n']) := by
  obtain ⟨hrename, hmv⟩ := renames_iff smallFs smallFs_wellFormed
  exact ⟨hrename _ _, hmv tmpUser [] _ _ ['/', 'n'] ['/', 'n'] ⟨⟨[], rfl⟩, rfl, rfl⟩⟩

/-- With no directory `/n`, renaming `/tmp` to `/n/x` loses it. -/
theorem renames_violated :
    ¬ ∀ f, WellFormed f → (∀ oldpath newpath, RenameAtomic f oldpath newpath) ∧
      ∀ user written args src dest rdest, OneSource user f args src dest rdest →
        MvAtomic user ⟨f, written⟩ args src rdest := by
  intro h
  have hatomic := (h smallFs smallFs_wellFormed).1 ['/', 't', 'm', 'p'] ['/', 'n', '/', 'x']
  unfold RenameAtomic at hatomic
  have hexec : exec (rename ['/', 't', 'm', 'p'] ['/', 'n', '/', 'x']) smallFs =
      (.error .fileNotFound, (smallFs.setEntries 0 []).setName 1 ['x']) := rfl
  rw [hexec] at hatomic
  have hentries : ((smallFs.setEntries 0 []).setName 1 ['x']).entries 0 = [1] := by
    rw [hatomic]
    rfl
  cases hentries

end Cowrie.Shell.Fs
