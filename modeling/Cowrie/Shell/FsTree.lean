import Cowrie.Shell.Fs

/-!
# The tree of the file system

`objects` is the heap as a graph, and `WellFormed` says that what hangs below the root is a finite tree
in which siblings have different names, none of them empty or with a slash. `Apart f s` says the same
of what hangs below `s`, which is not in the tree.

* `holds_getfile`, `holds_getPath`: a lookup finds nodes of the tree only.
* `listRemove_eq`: what `remove` removes has the name of what it was asked to remove.
* **`WellFormed.erase`, `WellFormed.append`, `WellFormed.move`, `WellFormed.setName`**: dropping entries,
  appending a separate tree, moving an entry and renaming one in its place keep the tree, if the new
  name is good and free.
-/

namespace Cowrie.Shell.Fs

open Cowrie.Lib Heap HoneyPotFilesystem

/-- The nodes as objects: entries and names. -/
def Heap.objects (f : Heap) : Objects Ref Str where
  kids := f.entries
  label := f.name

/-- A name that an entry may have. -/
def GoodName (name : Str) : Prop := name ≠ [] ∧ '/' ∉ name

/-- The node is in the file system. -/
def Heap.Holds (f : Heap) (x : Ref) : Prop := f.objects.Reach f.fs x

/-- **A well-formed file system** is a finite tree in which no node occurs twice and siblings have
different good names; its nodes are in use. -/
structure WellFormed (f : HoneyPotFilesystem) : Prop where
  tree : f.objects.IsTree GoodName f.fs
  used : ∀ x, f.Holds x → x < f.next

variable {f : Heap} {d p q s x y : Ref} {path : Str}

/-! ## Lookups stay in the tree -/

theorem holds_root (f : Heap) : f.Holds f.fs := Objects.Reach.refl _ _

theorem Heap.Holds.entry (h : f.Holds p) (hx : x ∈ f.entries p) : f.Holds x := Objects.Reach.tail h hx

theorem entries_eq {xs : List Ref} (h : (f.node p).contents = .list xs) : f.entries p = xs := by
  rw [entries, h]

theorem listing_eq {xs : List Ref} (h : f.listing p = .ok xs) : xs = f.entries p := by
  unfold listing at h
  unfold entries
  cases hc : (f.node p).contents with
  | list ys =>
    rw [hc] at h
    exact (Except.ok.inj h).symm
  | bytes data =>
    rw [hc] at h
    cases data with
    | nil => exact (Except.ok.inj h).symm
    | cons b data => cases h

theorem holds_scan {look : Str → Except FsError (Option Ref)} {keep : Bool} {piece : Str}
    (hlook : ∀ t x, look t = .ok (some x) → f.Holds x) {xs : List Ref}
    (hxs : ∀ x ∈ xs, f.Holds x) (hp : f.Holds p) (h : f.scan look keep piece xs p = .ok (some q)) :
    f.Holds q := by
  induction xs generalizing p with
  | nil =>
    obtain rfl : p = q := by simpa [scan] using h
    exact hp
  | cons x xs ih =>
    have hrest : ∀ y ∈ xs, f.Holds y := fun y hy => hxs y (List.mem_cons_of_mem x hy)
    unfold scan at h
    split at h
    · exact ih hrest hp h
    · split at h
      · exact ih hrest (hxs x List.mem_cons_self) h
      · split at h
        · cases h
        · cases h
        · rename_i r hr
          refine ih hrest ?_ h
          unfold followLink at hr
          split at hr
          · cases hr
          · cases hr
          · exact hlook _ _ hr

theorem holds_walk {look : Str → Except FsError (Option Ref)} {last : Str} {follow : Bool}
    (hlook : ∀ t x, look t = .ok (some x) → f.Holds x) {pieces : List Str} (hp : f.Holds p)
    (h : f.walk look last follow pieces p = .ok (some q)) : f.Holds q := by
  induction pieces generalizing p with
  | nil =>
    obtain rfl : p = q := by simpa [walk] using h
    exact hp
  | cons piece rest ih =>
    unfold walk at h
    split at h
    · cases h
    · rename_i xs hxs
      split at h
      · cases h
      · split at h
        · cases h
        · cases h
        · rename_i r hr
          refine ih (holds_scan hlook (fun x hx => ?_) hp hr) h
          exact hp.entry (listing_eq hxs ▸ hx)

theorem holds_getfileAt {depth : Nat} {follow : Bool}
    (h : f.getfileAt depth path follow = .ok (some x)) : f.Holds x := by
  induction depth generalizing path x with
  | zero => cases h
  | succ depth ih =>
    unfold getfileAt at h
    split at h
    · obtain rfl : f.fs = x := by simpa using h
      exact holds_root f
    · exact holds_walk (fun t x ht => ih ht) (holds_root f) h

theorem holds_getfile {follow : Bool} (h : f.getfile path follow = .ok (some x)) : f.Holds x :=
  holds_getfileAt h

theorem holds_getPathFrom {parts : List Str} (hp : f.Holds p)
    (h : f.getPathFrom parts p = .ok q) : f.Holds q := by
  induction parts generalizing p with
  | nil =>
    obtain rfl : p = q := by simpa [getPathFrom] using h
    exact hp
  | cons part rest ih =>
    unfold getPathFrom at h
    split at h
    · exact ih hp h
    · split at h
      · cases h
      · rename_i xs hxs
        split at h
        · cases h
        · rename_i c hc
          have hc : f.Holds c := hp.entry (listing_eq hxs ▸ List.mem_of_find?_eq_some hc)
          split at h
          · split at h
            · cases h
            · split at h
              · cases h
              · cases h
              · rename_i r hr
                exact ih (holds_getfile hr) h
          · exact ih hc h

theorem holds_getPath (h : f.getPath path = .ok d) : f.Holds d :=
  holds_getPathFrom (holds_root f) h

/-! ## Removal by equality -/

theorem name_of_equalAt {depth : Nat} (h : f.equalAt depth x y = .ok true) :
    f.name x = f.name y := by
  by_cases hxy : x = y
  · rw [hxy]
  · cases depth with
    | zero =>
      unfold equalAt at h
      rw [if_neg hxy] at h
      cases h
    | succ depth =>
      unfold equalAt at h
      simp only [if_neg hxy] at h
      split at h
      · cases h
      · rename_i heq
        simp only [ne_eq, not_not, Prod.mk.injEq] at heq
        exact heq.1

/-- What `remove` removes: some element that equals `s`, hence has its name. -/
theorem listRemove_eq {xs ys : List Ref} (h : f.listRemove s xs = .ok ys) :
    ∃ pre x post, xs = pre ++ x :: post ∧ ys = pre ++ post ∧ f.name x = f.name s := by
  induction xs generalizing ys with
  | nil => cases h
  | cons x xs ih =>
    unfold listRemove at h
    split at h
    · cases h
    · rename_i heq
      obtain rfl : xs = ys := by simpa using h
      exact ⟨[], x, xs, rfl, rfl, name_of_equalAt heq⟩
    · cases hrest : f.listRemove s xs with
      | error e =>
        rw [hrest] at h
        cases h
      | ok zs =>
        rw [hrest] at h
        obtain rfl : x :: zs = ys := by simpa [Except.map] using h
        obtain ⟨pre, y, post, rfl, rfl, hname⟩ := ih hrest
        exact ⟨x :: pre, y, post, rfl, rfl, hname⟩

theorem listRemove_sublist {xs ys : List Ref} (h : f.listRemove s xs = .ok ys) :
    ys.Sublist xs := by
  obtain ⟨pre, x, post, rfl, rfl, -⟩ := listRemove_eq h
  exact List.Sublist.append_left (List.sublist_cons_self x post) pre

/-- With names apart, none of the name is left. -/
theorem listRemove_name {xs ys : List Ref} (h : f.listRemove s xs = .ok ys)
    (hnodup : (xs.map f.name).Nodup) (hy : y ∈ ys) : f.name y ≠ f.name s := by
  obtain ⟨pre, x, post, rfl, rfl, hname⟩ := listRemove_eq h
  have hperm : (pre ++ x :: post).Perm (x :: (pre ++ post)) := List.perm_middle
  have hapart := (hperm.map f.name).nodup_iff.mp hnodup
  rw [List.map_cons, List.nodup_cons] at hapart
  intro heq
  exact hapart.1 (List.mem_map.mpr ⟨y, hy, heq.trans hname.symm⟩)

/-! ## Edits -/

section Edits

variable {f : HoneyPotFilesystem} {xs ys : List Ref} {newname : Str} {n : Node}

theorem node_setNode (f : HoneyPotFilesystem) (x : Ref) (n : Node) (q : Ref) :
    (f.setNode x n).node q = if q = x then n else f.node q := by
  change Function.update f.node x n q = _
  rw [Function.update_apply]

@[simp] theorem entries_setEntries (f : HoneyPotFilesystem) (p : Ref) (xs : List Ref) (q : Ref) :
    (f.setEntries p xs).entries q = if q = p then xs else f.entries q := by
  unfold setEntries entries
  rw [node_setNode]
  split_ifs <;> rfl

@[simp] theorem name_setEntries (f : HoneyPotFilesystem) (p : Ref) (xs : List Ref) :
    (f.setEntries p xs).name = f.name := by
  funext x
  unfold setEntries name
  rw [node_setNode]
  split_ifs with h
  · rw [h]
  · rfl

@[simp] theorem entries_setName (f : HoneyPotFilesystem) (x : Ref) (newname : Str) :
    (f.setName x newname).entries = f.entries := by
  funext q
  unfold setName entries
  rw [node_setNode]
  split_ifs with h
  · rw [h]
  · rfl

@[simp] theorem name_setName (f : HoneyPotFilesystem) (x : Ref) (newname : Str) (y : Ref) :
    (f.setName x newname).name y = if y = x then newname else f.name y := by
  unfold setName name
  rw [node_setNode]
  split_ifs <;> rfl

theorem node_alloc (f : HoneyPotFilesystem) (n : Node) (q : Ref) :
    (f.alloc n).node q = if q = f.next then n else f.node q := node_setNode f f.next n q

theorem entries_alloc (hn : n.contents = .list []) (q : Ref) :
    (f.alloc n).entries q = if q = f.next then [] else f.entries q := by
  unfold entries
  rw [node_alloc]
  split_ifs
  · rw [hn]
  · rfl

/-- What lies outside the tree, and is one itself. -/
structure Apart (f : HoneyPotFilesystem) (s : Ref) : Prop where
  tree : f.objects.IsTree GoodName s
  apart : ∀ y, f.Holds y → ¬ f.objects.Reach s y
  used : ∀ y, f.objects.Reach s y → y < f.next

theorem Apart.not_holds (h : Apart f s) : ¬ f.Holds s := fun hs =>
  h.apart s hs (Objects.Reach.refl _ s)

/-- A change of nothing that the tree is made of. -/
theorem WellFormed.congr {g : HoneyPotFilesystem} (h : WellFormed f)
    (hentries : g.entries = f.entries) (hname : g.name = f.name) (hfs : g.fs = f.fs)
    (hnext : g.next = f.next) : WellFormed g := by
  have hobjects : g.objects = f.objects := by
    unfold objects
    rw [hentries, hname]
  constructor
  · rw [hobjects, hfs]
    exact h.tree
  · unfold Holds
    rw [hobjects, hfs, hnext]
    exact h.used

theorem holds_setEntries (hd : f.Holds d) (xs : List Ref) : (f.setEntries d xs).Holds d :=
  Objects.Reach.edited hd fun a ha => by simp [objects, ha]

theorem sublist_setEntries (hsub : ys.Sublist (f.entries d)) (p : Ref) :
    ((f.setEntries d ys).objects.kids p).Sublist (f.objects.kids p) := by
  change ((f.setEntries d ys).entries p).Sublist (f.entries p)
  rw [entries_setEntries]
  split_ifs with hp
  · rw [hp]
    exact hsub
  · exact List.Sublist.refl _

theorem reach_erase (hsub : ys.Sublist (f.entries d)) {r : Ref}
    (h : (f.setEntries d ys).objects.Reach r x) : f.objects.Reach r x :=
  Objects.Reach.mono (fun p _ _ _ hc => (sublist_setEntries hsub p).subset hc) h

/-- **Dropping entries.** -/
theorem WellFormed.erase (h : WellFormed f) (hsub : ys.Sublist (f.entries d)) :
    WellFormed (f.setEntries d ys) where
  tree := h.tree.shrink (fun p _ _ => sublist_setEntries hsub p) fun p _ _ x _ => by
    rw [objects, name_setEntries, objects]
  used x hx := h.used x (reach_erase hsub hx)

theorem Apart.erase (h : Apart f s) (hsub : ys.Sublist (f.entries d)) :
    Apart (f.setEntries d ys) s where
  tree := h.tree.shrink (fun p _ _ => sublist_setEntries hsub p) fun p _ _ x _ => by
    rw [objects, name_setEntries, objects]
  apart y hy hs := h.apart y (reach_erase hsub hy) (reach_erase hsub hs)
  used y hy := h.used y (reach_erase hsub hy)

theorem reach_setName {r : Ref} :
    (f.setName x newname).objects.Reach r y ↔ f.objects.Reach r y := by
  have hchild : (f.setName x newname).objects.Child = f.objects.Child := by
    funext p c
    unfold Objects.Child objects
    rw [entries_setName]
  unfold Objects.Reach
  rw [hchild]

theorem WellFormed.setName_apart (h : WellFormed f) (hs : ¬ f.Holds s) :
    WellFormed (f.setName s newname) where
  tree := h.tree.relabel (entries_setName f s newname)
    (fun y hy => by simp only [objects, name_setName, if_neg hy])
    fun p hp hmem => absurd (Objects.Reach.tail hp hmem) hs
  used x hx := h.used x (reach_setName.mp hx)

theorem Apart.setName (h : Apart f s) : Apart (f.setName s newname) s where
  tree := h.tree.relabel (entries_setName f s newname)
    (fun y hy => by simp only [objects, name_setName, if_neg hy])
    fun p hp hmem => absurd hmem (h.tree.orphan hp)
  apart y hy hs := h.apart y (reach_setName.mp hy) (reach_setName.mp hs)
  used y hy := h.used y (reach_setName.mp hy)

/-- **Appending a separate tree** under a name that is free. -/
theorem WellFormed.append (h : WellFormed f) (hs : Apart f s) (hd : f.Holds d)
    (hgood : GoodName (f.name s)) (hnew : ∀ y ∈ f.entries d, f.name y ≠ f.name s) :
    WellFormed (f.setEntries d (f.entries d ++ [s])) := by
  have hgraft : Objects.Grafted f.objects (f.setEntries d (f.entries d ++ [s])).objects d s := by
    constructor
    · change (f.setEntries d (f.entries d ++ [s])).entries d = f.entries d ++ [s]
      rw [entries_setEntries, if_pos rfl]
    · intro p hp
      change (f.setEntries d (f.entries d ++ [s])).entries p = f.entries p
      rw [entries_setEntries, if_neg hp]
    · exact name_setEntries f d _
  constructor
  · exact h.tree.graft hs.tree hgraft hd hs.apart hgood hnew
  · intro y hy
    exact (hgraft.reach hy).elim (h.used y) (hs.used y)

/-- The listing of a node outside the tree. -/
theorem WellFormed.setEntries_outside (h : WellFormed f) (hd : ¬ f.Holds d) :
    WellFormed (f.setEntries d xs) := by
  have hsame : ∀ p, f.Holds p → (f.setEntries d xs).entries p = f.entries p := by
    intro p hp
    have hne : p ≠ d := fun heq => hd (heq ▸ hp)
    rw [entries_setEntries, if_neg hne]
  constructor
  · refine h.tree.congr (fun p _ hp => hsame p hp) fun p _ _ x _ => ?_
    rw [objects, name_setEntries, objects]
  · intro x hx
    refine h.used x (Objects.Reach.mono (fun p _ hp c hc => ?_) hx)
    change c ∈ (f.setEntries d xs).entries p at hc
    rwa [hsame p hp] at hc

theorem detached_erase (f : HoneyPotFilesystem) (d s : Ref) :
    Objects.Detached f.objects (f.setEntries d ((f.entries d).erase s)).objects d s where
  at_p := by
    change (f.setEntries d ((f.entries d).erase s)).entries d = (f.entries d).erase s
    rw [entries_setEntries, if_pos rfl]
  elsewhere p hp := by
    change (f.setEntries d ((f.entries d).erase s)).entries p = f.entries p
    rw [entries_setEntries, if_neg hp]

/-- What hangs below a dropped entry lies outside the tree. -/
theorem apart_erase (h : WellFormed f) (hd : f.Holds d) (hs : s ∈ f.entries d) :
    Apart (f.setEntries d ((f.entries d).erase s)) s := by
  have hdetached := detached_erase f d s
  constructor
  · refine hdetached.isTree h.tree (hd.entry hs) fun a _ y _ => ?_
    rw [objects, name_setEntries, objects]
  · intro y hy hback
    exact hdetached.not_reach h.tree hd hs hy (hdetached.reach hback)
  · intro y hy
    exact h.used y (Objects.Reach.trans (hd.entry hs) (hdetached.reach hy))

/-- The entry `s` of `p`, taken out of it and renamed. -/
def HoneyPotFilesystem.takenOut (f : HoneyPotFilesystem) (p s : Ref) (newname : Str) :
    HoneyPotFilesystem :=
  (f.setEntries p ((f.entries p).erase s)).setName s newname

theorem WellFormed.takenOut (h : WellFormed f) (hp : f.Holds p) (hs : s ∈ f.entries p)
    (newname : Str) : WellFormed (f.takenOut p s newname) ∧ Apart (f.takenOut p s newname) s := by
  have hapart := apart_erase h hp hs
  exact ⟨(h.erase List.erase_sublist).setName_apart hapart.not_holds, hapart.setName⟩

/-- **Moving an entry.** -/
theorem WellFormed.move (h : WellFormed f) (hp : f.Holds p) (hs : s ∈ f.entries p)
    (newname : Str) (q : Ref) (hroom : (f.takenOut p s newname).Holds q →
      GoodName newname ∧ ∀ y ∈ (f.takenOut p s newname).entries q, y ≠ s → f.name y ≠ newname) :
    WellFormed ((f.takenOut p s newname).setEntries q
      ((f.takenOut p s newname).entries q ++ [s])) := by
  obtain ⟨htree, hapart⟩ := h.takenOut hp hs newname
  by_cases hq : (f.takenOut p s newname).Holds q
  · obtain ⟨hgood, hnew⟩ := hroom hq
    have hname : (f.takenOut p s newname).name s = newname := by
      rw [HoneyPotFilesystem.takenOut, name_setName, if_pos rfl]
    refine htree.append hapart hq (by rwa [hname]) fun y hy => ?_
    have hne : y ≠ s := fun heq => hapart.not_holds (heq ▸ hq.entry hy)
    rw [hname, HoneyPotFilesystem.takenOut, name_setName, if_neg hne, name_setEntries]
    exact hnew y hy hne
  · exact htree.setEntries_outside hq

/-- `newname` is free for `x` wherever it is an entry. -/
def RoomBeside (f : HoneyPotFilesystem) (x : Ref) (newname : Str) : Prop :=
  ∀ p, f.Holds p → x ∈ f.entries p →
    newname ≠ [] ∧ ∀ y ∈ f.entries p, y ≠ x → f.name y ≠ newname

/-- **Renaming in place.** -/
theorem WellFormed.setName (h : WellFormed f) (hslash : '/' ∉ newname)
    (hroom : RoomBeside f x newname) : WellFormed (f.setName x newname) where
  tree := by
    refine h.tree.relabel (x := x) (entries_setName f x newname) (fun y hy => ?_) fun p hp hmem => ?_
    · change (f.setName x newname).name y = f.name y
      rw [name_setName, if_neg hy]
    · have hname : (f.setName x newname).objects.label x = newname := by
        change (f.setName x newname).name x = newname
        rw [name_setName, if_pos rfl]
      rw [hname]
      exact ⟨⟨(hroom p hp hmem).1, hslash⟩, (hroom p hp hmem).2⟩
  used y hy := h.used y (reach_setName.mp hy)

theorem reach_alloc (h : WellFormed f) (hn : n.contents = .list [])
    (hx : (f.alloc n).Holds x) : f.Holds x := by
  refine Objects.Reach.mono (fun p _ hp c hc => ?_) hx
  change c ∈ (f.alloc n).entries p at hc
  rwa [entries_alloc hn, if_neg (Nat.ne_of_lt (h.used p hp))] at hc

theorem holds_alloc (h : WellFormed f) (hn : n.contents = .list []) (hd : f.Holds d) :
    (f.alloc n).Holds d := by
  refine Objects.Reach.mono (fun p hp _ c hc => ?_) hd
  change c ∈ (f.alloc n).entries p
  rwa [entries_alloc hn, if_neg (Nat.ne_of_lt (h.used p hp))]

theorem WellFormed.alloc (h : WellFormed f) (hn : n.contents = .list []) :
    WellFormed (f.alloc n) where
  tree := by
    refine h.tree.congr (fun p _ hp => ?_) fun p _ hp x hx => ?_
    · change (f.alloc n).entries p = f.entries p
      rw [entries_alloc hn, if_neg (Nat.ne_of_lt (h.used p hp))]
    · change x ∈ (f.alloc n).entries p at hx
      rw [entries_alloc hn, if_neg (Nat.ne_of_lt (h.used p hp))] at hx
      change ((f.alloc n).node x).name = (f.node x).name
      rw [node_alloc, if_neg (Nat.ne_of_lt (h.used x (Heap.Holds.entry hp hx)))]
  used x hx := Nat.lt_succ_of_lt (h.used x (reach_alloc h hn hx))

/-- **A new node** without entries. -/
theorem apart_alloc (h : WellFormed f) (hn : n.contents = .list []) :
    Apart (f.alloc n) f.next := by
  have hleaf : (f.alloc n).objects.kids f.next = [] := by
    change (f.alloc n).entries f.next = []
    rw [entries_alloc hn, if_pos rfl]
  have hself : ∀ y, (f.alloc n).objects.Reach f.next y → y = f.next := by
    intro y hy
    induction hy with
    | refl => rfl
    | tail _ hc ih =>
      rw [Objects.Child, ih, hleaf] at hc
      exact absurd hc List.not_mem_nil
  constructor
  · exact Objects.IsTree.leaf hleaf
  · intro y hy hback
    have hlt := h.used y (reach_alloc h hn hy)
    rw [hself y hback] at hlt
    exact Nat.lt_irrefl _ hlt
  · intro y hy
    rw [hself y hy]
    exact Nat.lt_succ_self _

end Edits

end Cowrie.Shell.Fs
