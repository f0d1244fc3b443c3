import Cowrie.Shell.FsTree

/-!
# Which calls keep the tree

For every function that edits the tree, the condition under which it keeps it: `MkfileMeets`,
`MkdirMeets`, `Mkdir2Meets`, `RenameMeets` and `OpenMeets`; `rmdir` and `remove` always do. A condition is
about the state before the call, and asks for something only where the call is about to edit.

* `keeps_mkfile`, …, `keeps_openFile`: the tree is kept, whether the call returns or raises.
* `listRemove_of_first`: `remove` takes out the node itself if nothing before it is equal.
-/

namespace Cowrie.Shell.Fs

open Cowrie.Lib Heap HoneyPotFilesystem

variable {f : HoneyPotFilesystem} {d s x : Ref} {path : Str} {n : Node} {outfile : Str}

/-! ## One edit -/

/-- Raising changes nothing. -/
theorem ensures_removeEntry :
    Ensures (fun t => t = f) (removeEntry d s) (fun _ t => ∃ xs ys,
      (f.node d).contents = .list xs ∧ f.listRemove s xs = .ok ys ∧ t = f.setEntries d ys) f := by
  unfold removeEntry
  rw [ensures_bind]
  refine ensures_get ?_
  cases hc : (f.node d).contents with
  | bytes data => exact ensures_throw rfl
  | list xs =>
    rw [ensures_bind]
    refine ensures_query rfl fun ys hys => ensures_modify ?_
    exact ⟨xs, ys, rfl, hys, rfl⟩

theorem keeps_removeEntry (h : WellFormed f) :
    Ensures WellFormed (removeEntry d s) (fun _ t => WellFormed t) f := by
  refine ensures_removeEntry.mono (fun t ht => ht ▸ h) fun _ t _ ht => ?_
  obtain ⟨xs, ys, hlist, hys, rfl⟩ := ht
  exact h.erase (entries_eq hlist ▸ listRemove_sublist hys)

theorem keeps_append (h : WellFormed f) (hs : Apart f s) (hd : f.Holds d)
    (hroom : ∀ xs, (f.node d).contents = .list xs →
      GoodName (f.name s) ∧ ∀ y ∈ xs, f.name y ≠ f.name s) :
    Ensures WellFormed (append d s) (fun _ t => WellFormed t) f := by
  unfold append
  rw [ensures_bind]
  refine ensures_get ?_
  cases hc : (f.node d).contents with
  | bytes data => exact ensures_throw h
  | list xs =>
    obtain ⟨hgood, hnew⟩ := hroom xs hc
    refine ensures_modify ?_
    rw [← entries_eq hc]
    exact h.append hs hd hgood (entries_eq hc ▸ hnew)

theorem keeps_appendNew (h : WellFormed f) (hd : f.Holds d) (hn : n.contents = .list [])
    (hroom : ∀ xs, (f.node d).contents = .list xs →
      GoodName n.name ∧ ∀ y ∈ xs, f.name y ≠ n.name) :
    Ensures WellFormed (appendNew d n) (fun _ t => WellFormed t) f := by
  unfold appendNew
  rw [ensures_bind]
  refine ensures_get ?_
  rw [ensures_bind]
  refine ensures_modify ?_
  have hnew : (f.alloc n).name f.next = n.name := by
    unfold name
    rw [node_alloc, if_pos rfl]
  have hold : ∀ y, f.Holds y → (f.alloc n).node y = f.node y := fun y hy => by
    rw [node_alloc, if_neg (Nat.ne_of_lt (h.used y hy))]
  refine keeps_append (h.alloc hn) (apart_alloc h hn) (holds_alloc h hn hd) fun xs hxs => ?_
  rw [hold d hd] at hxs
  obtain ⟨hgood, hfree⟩ := hroom xs hxs
  rw [hnew]
  refine ⟨hgood, fun y hy => ?_⟩
  unfold name
  rw [hold y (hd.entry (entries_eq hxs ▸ hy))]
  exact hfree y hy

/-- What `removeNamed` leaves: the tree, with no entry of the name in the directory. -/
structure Pruned (f : HoneyPotFilesystem) (d : Ref) (outfile : Str) (t : HoneyPotFilesystem) : Prop where
  tree : WellFormed t
  holds : t.Holds d
  list : ∀ xs, (t.node d).contents = .list xs → ∃ ys, (f.node d).contents = .list ys
  room : ∀ y ∈ t.entries d, t.name y ≠ outfile
  apart : ∀ s, Apart f s → Apart t s

theorem ensures_removeNamed (h : WellFormed f) (hd : f.Holds d) :
    Ensures WellFormed (removeNamed d outfile) (fun _ t => Pruned f d outfile t) f := by
  unfold removeNamed
  rw [ensures_bind]
  refine ensures_query h fun xs hxs => ?_
  obtain rfl := listing_eq hxs
  rw [ensures_bind]
  refine ensures_get ?_
  cases hfind : (f.entries d).find? fun x => f.name x = outfile with
  | none =>
    refine ensures_pure ⟨h, hd, fun xs hxs => ⟨xs, hxs⟩, fun y hy => ?_, fun s hs => hs⟩
    simpa using List.find?_eq_none.mp hfind y hy
  | some x =>
    have hname : f.name x = outfile := by simpa using List.find?_some hfind
    refine ensures_removeEntry.mono (fun t ht => ht ▸ h) fun _ t _ ht => ?_
    obtain ⟨xs, ys, hlist, hys, rfl⟩ := ht
    obtain rfl := entries_eq hlist
    have hsub := listRemove_sublist hys
    refine ⟨h.erase hsub, holds_setEntries hd ys, fun _ _ => ⟨_, hlist⟩, fun y hy => ?_,
      fun s hs => hs.erase hsub⟩
    rw [entries_setEntries, if_pos rfl] at hy
    rw [name_setEntries, ← hname]
    exact listRemove_name hys (h.tree.names d hd) hy

/-- A reading of the clock. -/
theorem ensures_time {Q : ℚ → HoneyPotFilesystem → Prop} {E : HoneyPotFilesystem → Prop}
    (h : ∀ c r, Q r { f with clock := c }) : Ensures E time Q f := h _ _

theorem WellFormed.tick (h : WellFormed f) (c : Nat → ℚ) : WellFormed { f with clock := c } :=
  h.congr rfl rfl rfl rfl

theorem WellFormed.count (h : WellFormed f) (k : Nat) : WellFormed { f with newcount := k } :=
  h.congr rfl rfl rfl rfl

/-! ## New files and directories -/

/-- `mkfile` gets a name: where it is about to append an entry, the path does not end in a slash. -/
def MkfileMeets (path : Str) (f : HoneyPotFilesystem) : Prop :=
  f.newcount ≤ 10000 → ¬ isSpecial (dirname path) →
    ∀ d xs, f.getPath (dirname path) = .ok d → (f.node d).contents = .list xs → basename path ≠ []

/-- `mkdir` gets a new name: where it is about to append an entry, the path does not end in a slash
and the directory has no entry of its name. -/
def MkdirMeets (path : Str) (f : HoneyPotFilesystem) : Prop :=
  f.newcount ≤ 10000 → stripSlash path ≠ [] →
    ∀ d xs, f.getPath (dirname (stripSlash path)) = .ok d → (f.node d).contents = .list xs →
      basename path ≠ [] ∧ ∀ x ∈ xs, f.name x ≠ basename path

theorem goodName_basename (h : basename path ≠ []) : GoodName (basename path) :=
  ⟨h, slash_notMem_basename path⟩

theorem keeps_mkfile {uid gid : Int} {size mode : Nat} (h : WellFormed f)
    (hmeets : MkfileMeets path f) :
    Ensures WellFormed (mkfile path uid gid size mode) (fun _ t => WellFormed t) f := by
  unfold mkfile
  rw [ensures_bind]
  refine ensures_get (ensures_ite (fun _ => ensures_pure h) fun hcount => ?_)
  rw [ensures_bind]
  refine ensures_time fun c ctime => ensures_ite (fun _ => ensures_throw (h.tick c)) fun hspecial => ?_
  rw [ensures_bind]
  refine ensures_query (h.tick c) fun d hd => ?_
  rw [ensures_bind]
  refine (ensures_removeNamed (h.tick c) (holds_getPath hd)).mono (fun _ ht => ht) fun _ t _ ht => ?_
  rw [ensures_bind]
  refine (keeps_appendNew ht.tree ht.holds rfl fun xs hxs => ?_).mono (fun _ hu => hu) fun _ u _ hu => ?_
  · obtain ⟨ys, hys⟩ := ht.list xs hxs
    have hbase := hmeets (Nat.le_of_not_lt hcount) hspecial d ys hd hys
    exact ⟨goodName_basename hbase, fun y hy => ht.room y (entries_eq hxs ▸ hy)⟩
  · rw [ensures_bind]
    exact ensures_modify (ensures_pure (hu.count _))

theorem getPathOrENOENT_eq {parent : Str} (h : getPathOrENOENT path parent f = .ok d) :
    f.getPath parent = .ok d := by
  unfold getPathOrENOENT at h
  split at h
  · cases h
  · cases h
  · exact h

theorem keeps_mkdir {uid gid : Int} {size mode : Nat} (h : WellFormed f)
    (hmeets : MkdirMeets path f) :
    Ensures WellFormed (mkdir path uid gid size mode) (fun _ t => WellFormed t) f := by
  unfold mkdir
  rw [ensures_bind]
  refine ensures_get (ensures_ite (fun _ => ensures_throw h) fun hcount => ?_)
  rw [ensures_bind]
  refine ensures_time fun c ctime => ensures_ite (fun _ => ensures_throw (h.tick c)) fun hpath => ?_
  rw [ensures_bind]
  refine ensures_query (h.tick c) fun d hd => ?_
  have hd : f.getPath (dirname (stripSlash path)) = .ok d := getPathOrENOENT_eq hd
  rw [ensures_bind]
  refine (keeps_appendNew (h.tick c) (holds_getPath hd) rfl fun xs hxs => ?_).mono
    (fun _ hu => hu) fun _ u _ hu => ensures_modify (hu.count _)
  obtain ⟨hbase, hnew⟩ := hmeets (Nat.le_of_not_lt hcount) hpath d xs hd hxs
  exact ⟨goodName_basename hbase, hnew⟩

/-- `mkdir2`, where the path is not found. -/
def Mkdir2Meets (path : Str) (f : HoneyPotFilesystem) : Prop :=
  f.getfile path = .ok none → MkdirMeets path f

theorem keeps_mkdir2 (h : WellFormed f) (hmeets : Mkdir2Meets path f) :
    Ensures WellFormed (mkdir2 path) (fun _ t => WellFormed t) f := by
  unfold mkdir2
  rw [ensures_bind]
  refine ensures_query h fun found hfound => ensures_ite (fun _ => ensures_throw h) fun hnone => ?_
  obtain rfl : found = none := by simpa using hnone
  exact keeps_mkdir h (hmeets hfound)

/-! ## Removal -/

theorem keeps_rmdir (h : WellFormed f) :
    Ensures WellFormed (rmdir path) (fun _ t => WellFormed t) f := by
  unfold rmdir
  rw [ensures_bind]
  refine ensures_query h fun found _ => ?_
  cases found with
  | none => exact ensures_throw h
  | some x =>
    rw [ensures_bind]
    refine ensures_get (ensures_ite (fun _ => ensures_throw h) fun _ => ?_)
    rw [ensures_bind]
    refine ensures_query h fun own _ => ?_
    rw [ensures_bind]
    refine ensures_get ?_
    rw [ensures_bind]
    refine ensures_get (ensures_ite (fun _ => ensures_throw h) fun _ => ?_)
    rw [ensures_bind]
    refine ensures_query h fun pdir _ => ?_
    rw [ensures_bind]
    refine ensures_query h fun xs _ => ?_
    rw [ensures_bind]
    refine ensures_get ?_
    cases xs.find? fun i => f.name i = basename (rstripSlash path) with
    | none => exact ensures_pure h
    | some i =>
      rw [ensures_bind]
      exact (keeps_removeEntry h).mono (fun _ ht => ht) fun _ t _ ht => ensures_pure ht

theorem keeps_remove (h : WellFormed f) :
    Ensures WellFormed (remove path) (fun _ t => WellFormed t) f := by
  unfold remove
  rw [ensures_bind]
  refine ensures_query h fun found _ => ?_
  cases found with
  | none => exact ensures_throw h
  | some x =>
    rw [ensures_bind]
    exact ensures_query h fun directory _ => keeps_removeEntry h

/-! ## Renaming -/

/-- The first element of the list that equals `s` is `s` itself. -/
def FirstIs (f : Heap) (s : Ref) (xs : List Ref) : Prop :=
  ∃ pre post, xs = pre ++ s :: post ∧ ∀ y ∈ pre, f.equal y s = .ok false

theorem equal_self (g : Heap) (x : Ref) : g.equal x x = .ok true := by
  unfold equal
  cases g.limit with
  | zero =>
    unfold equalAt
    rw [if_pos rfl]
  | succ depth =>
    unfold equalAt
    simp only [if_pos]

theorem listRemove_of_first {g : Heap} {xs : List Ref} (h : FirstIs g s xs) :
    g.listRemove s xs = .ok (xs.erase s) := by
  obtain ⟨pre, post, rfl, hpre⟩ := h
  induction pre with
  | nil =>
    unfold listRemove
    simp [equal_self]
  | cons y pre ih =>
    have hy := hpre y List.mem_cons_self
    have hne : y ≠ s := by
      rintro rfl
      rw [equal_self] at hy
      cases hy
    have hrest := ih fun z hz => hpre z (List.mem_cons_of_mem y hz)
    rw [List.cons_append, List.erase_cons_tail (by simpa using hne)]
    unfold listRemove
    rw [hy, hrest]
    rfl

theorem FirstIs.mem {g : Heap} {xs : List Ref} (h : FirstIs g s xs) : s ∈ xs := by
  obtain ⟨pre, post, rfl, -⟩ := h
  simp

theorem ensures_removeEntry_of {xs ys : List Ref} {E : HoneyPotFilesystem → Prop}
    {Q : Unit → HoneyPotFilesystem → Prop} (hlist : (f.node d).contents = .list xs)
    (hys : f.listRemove s xs = .ok ys) (h : Q () (f.setEntries d ys)) :
    Ensures E (removeEntry d s) Q f := by
  unfold removeEntry
  rw [ensures_bind]
  refine ensures_get ?_
  rw [hlist, ensures_bind]
  exact ensures_query_of hys (ensures_modify h)

/-- `rename`, where it is about to take an entry out of a directory: none there equals the source, or
the first that does is the source itself; and then the new path does not end in a slash, and its
directory has no entry of the name once the source is out. -/
def RenameMeets (oldpath newpath : Str) (f : HoneyPotFilesystem) : Prop :=
  ∀ old d xs, f.getfile oldpath = .ok (some old) → f.getfile newpath = .ok none →
    f.getPath (dirname oldpath) = .ok d → (f.node d).contents = .list xs →
    (∀ ys, f.listRemove old xs ≠ .ok ys) ∨
      FirstIs f.toHeap old xs ∧
        ∀ q zs, (f.takenOut d old (basename newpath)).getPath (dirname newpath) = .ok q →
          ((f.takenOut d old (basename newpath)).node q).contents = .list zs →
          basename newpath ≠ [] ∧ ∀ y ∈ zs, f.name y ≠ basename newpath

theorem keeps_rename {oldpath newpath : Str} (h : WellFormed f)
    (hmeets : RenameMeets oldpath newpath f) :
    Ensures WellFormed (rename oldpath newpath) (fun _ t => WellFormed t) f := by
  unfold rename
  rw [ensures_bind]
  refine ensures_query h fun found hold => ?_
  cases found with
  | none => exact ensures_throw h
  | some old =>
    rw [ensures_bind]
    refine ensures_query h fun new hnew => ensures_ite (fun _ => ensures_throw h) fun hnone => ?_
    obtain rfl : new = none := by simpa using hnone
    rw [ensures_bind]
    refine ensures_query h fun d hd => ?_
    rw [ensures_bind]
    refine ensures_removeEntry.mono (fun t ht => ht ▸ h) fun _ t _ ht => ?_
    obtain ⟨xs, ys, hlist, hys, rfl⟩ := ht
    rcases hmeets old d xs hold hnew hd hlist with hne | ⟨hfirst, hroom⟩
    · exact absurd hys (hne ys)
    · -- the source is out of the tree, renamed, and goes back in if its new directory is found
      obtain rfl : xs.erase old = ys := Except.ok.inj ((listRemove_of_first hfirst).symm.trans hys)
      obtain rfl := entries_eq hlist
      obtain ⟨htree, hapart⟩ := h.takenOut (holds_getPath hd) hfirst.mem (basename newpath)
      rw [ensures_bind]
      refine ensures_modify ?_
      rw [ensures_bind]
      refine ensures_query htree fun q hq => keeps_append htree hapart (holds_getPath hq) ?_
      intro zs hzs
      obtain ⟨hbase, hfree⟩ := hroom q zs hq hzs
      have hname : (f.takenOut d old (basename newpath)).name old = basename newpath := by
        rw [takenOut, name_setName, if_pos rfl]
      change GoodName ((f.takenOut d old (basename newpath)).name old) ∧
        ∀ y ∈ zs, (f.takenOut d old (basename newpath)).name y ≠
          (f.takenOut d old (basename newpath)).name old
      rw [hname]
      refine ⟨goodName_basename hbase, fun y hy => ?_⟩
      have hout : y ≠ old := by
        rintro rfl
        exact hapart.not_holds ((holds_getPath hq).entry (entries_eq hzs ▸ hy))
      rw [takenOut, name_setName, if_neg hout, name_setEntries]
      exact hfree y hy

/-! ## `open` -/

theorem keeps_updateRealfile {host : Host} {realfile : Str} (h : WellFormed f) :
    Ensures WellFormed (updateRealfile host x realfile) (fun _ t => WellFormed t) f := by
  unfold updateRealfile
  rw [ensures_bind]
  refine ensures_get (ensures_ite (fun _ => ensures_modify ?_) fun _ => ensures_pure h)
  refine h.congr ?_ ?_ rfl rfl
  · funext p
    unfold entries
    rw [node_setNode]
    split_ifs with hp
    · rw [hp]
    · rfl
  · funext y
    unfold name
    rw [node_setNode]
    split_ifs with hy
    · rw [hy]
    · rfl

/-- `open`, for writing. -/
def OpenMeets (filename : Str) (openFlags : Nat) (f : HoneyPotFilesystem) : Prop :=
  openFlags &&& 1 = 1 ∨ openFlags &&& 2 = 2 → MkfileMeets filename f

theorem keeps_openFile {host : Host} {filename : Str} {openFlags mode : Nat} (h : WellFormed f)
    (hmeets : OpenMeets filename openFlags f) :
    Ensures WellFormed (openFile host filename openFlags mode) (fun _ t => WellFormed t) f := by
  unfold openFile
  refine ensures_ite (fun hflags => ?_) fun _ => ensures_pure h
  rw [ensures_bind]
  refine (keeps_mkfile h (hmeets hflags)).mono (fun _ ht => ht) fun _ t _ ht => ?_
  rw [ensures_bind]
  refine ensures_query ht fun fd _ => ?_
  rw [ensures_bind]
  refine ensures_query ht fun found _ => ?_
  cases found with
  | none => exact ensures_throw ht
  | some x =>
    rw [ensures_bind]
    refine (keeps_updateRealfile ht).mono (fun _ hu => hu) fun _ u _ hu => ?_
    rw [ensures_bind]
    exact ensures_modify (ensures_pure (hu.congr rfl rfl rfl rfl))

end Cowrie.Shell.Fs
