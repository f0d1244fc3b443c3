import Cowrie.Scripts.Fsctl
import Mathlib.Data.Finset.Insert
import Mathlib.Tactic.Abel

/-!
# The tree that the editor holds

`WellFormed` says that the heap holds a finite tree whose siblings have different names, none of them empty, that no
two nodes of it share a list, and that the root has the name that `createfs.py` gives it. `TreeAt h low r` says this
of what hangs below `r`, made of objects from `low` on, so that trees of different times have nothing in common.

* `free_of_exists`: where `exists` finds nothing at a path and finds its directory, the name is free there.
* `listRemove_self`: `remove` takes the object that it is given, if no other has its name.
* **`TreeAt.append`**: a separate tree under a name that is free.
* **`WellFormed.moved`**: an entry gives way to a copy of it with the same list, which is not below it. `nodes` are
  those of before, but for the name of the one that has moved.
* **`deepcopyAt_spec`**: a deep copy is a tree of new objects.
-/

namespace Cowrie.Scripts.Fsctl

open Cowrie.Lib
open Shell.Fs (Str Ref NodeType FsError split join slash_notMem_split)

/-- A name that an entry may have. -/
def GoodName (name : Str) : Prop := name ≠ []

/-- The nodes as objects: entries and names. -/
def Heap.objects (h : Heap) : Objects Ref Str where
  kids := h.kids
  label := h.name

/-- `y` hangs below `x`, or is `x`. -/
def Heap.Below (h : Heap) (x y : Ref) : Prop := h.objects.Reach x y

/-- The node is in the tree. -/
def Heap.Holds (h : Heap) (x : Ref) : Prop := h.Below h.root x

/-- What hangs below `r` is a tree of objects from `low` on, and every node has a list of its own. -/
structure TreeAt (h : Heap) (low r : Ref) : Prop where
  tree : h.objects.IsTree GoodName r
  own : ∀ x y l, h.Below r x → h.Below r y → (h.node x).contents = .list l → (h.node y).contents = .list l → x = y
  used : ∀ x, h.Below r x → low ≤ x ∧ x < h.next
  usedList : ∀ x l, h.Below r x → (h.node x).contents = .list l → low ≤ l ∧ l < h.next

/-- **A well-formed tree.** -/
structure WellFormed (h : Heap) : Prop where
  tree : TreeAt h 0 h.root
  rootName : h.name h.root = ['/']

variable {h g : Heap} {x y p q c l low r : Ref} {part name : Str} {parts : List Str}

/-! ## Lookup -/

theorem find_ok (hfind : h.find part p = .ok x) : x ∈ h.kids p ∧ h.name x = part := by
  unfold Heap.find at hfind
  split at hfind
  · cases hfind
  · split at hfind
    · cases hfind
    · next c hc =>
      obtain rfl := Except.ok.inj hfind
      exact ⟨List.mem_of_find?_eq_some hc, by simpa using List.find?_some hc⟩

theorem find_missing (hfind : h.find part p = .error .fileNotFound) : ∀ c ∈ h.kids p, h.name c ≠ part := by
  unfold Heap.find at hfind
  split at hfind
  · cases hfind
  · split at hfind
    · next hnone => simpa using List.find?_eq_none.mp hnone
    · cases hfind

theorem getpathFrom_append (as bs : List Str) (p : Ref) :
    h.getpathFrom (as ++ bs) p =
      match h.getpathFrom as p with
      | .error e => .error e
      | .ok q => h.getpathFrom bs q := by
  induction as generalizing p with
  | nil => rfl
  | cons a as ih =>
    rw [List.cons_append, Heap.getpathFrom, Heap.getpathFrom]
    split_ifs
    · exact ih p
    · cases h.find a p with
      | error e => rfl
      | ok q => exact ih q

/-- What a lookup finds is where it began, or an entry that has one of the parts for a name. -/
theorem getpathFrom_ok (hfind : h.getpathFrom parts p = .ok x) :
    h.Below p x ∧ (x = p ∨ ∃ d, h.Below p d ∧ x ∈ h.kids d ∧ h.name x ∈ parts) := by
  induction parts generalizing p with
  | nil =>
    obtain rfl := Except.ok.inj hfind
    exact ⟨Objects.Reach.refl _ _, .inl rfl⟩
  | cons part rest ih =>
    rw [Heap.getpathFrom] at hfind
    split_ifs at hfind
    · obtain ⟨hbelow, hcase⟩ := ih hfind
      exact ⟨hbelow, hcase.imp_right fun ⟨d, hd, hx, hname⟩ => ⟨d, hd, hx, List.mem_cons_of_mem part hname⟩⟩
    · cases hc : h.find part p with
      | error e =>
        rw [hc] at hfind
        cases hfind
      | ok c =>
        rw [hc] at hfind
        obtain ⟨hkid, hname⟩ := find_ok hc
        have hfirst : h.Below p c := Objects.Reach.tail (Objects.Reach.refl _ p) hkid
        obtain ⟨hbelow, rfl | ⟨d, hd, hx, hin⟩⟩ := ih hfind
        · exact ⟨hfirst, .inr ⟨p, Objects.Reach.refl _ p, hkid, by simp [hname]⟩⟩
        · exact ⟨hfirst.trans hbelow, .inr ⟨d, hfirst.trans hd, hx, List.mem_cons_of_mem part hin⟩⟩

theorem holds_getpath {path : Str} (hfind : h.getpath path = .ok x) : h.Holds x := (getpathFrom_ok hfind).1

/-- What is found under a name has that name, and no slash in it. -/
theorem getpath_entry {path : Str} (hfind : h.getpath path = .ok x) (hx : x ≠ h.root) :
    ∃ d, h.Holds d ∧ x ∈ h.kids d ∧ '/' ∉ h.name x := by
  obtain ⟨-, hroot | ⟨d, hd, hmem, hname⟩⟩ := getpathFrom_ok hfind
  · exact absurd hroot hx
  · exact ⟨d, hd, hmem, slash_notMem_split hname⟩

theorem exists_false {path : Str} (hexists : h.exists path = .ok false) :
    h.getpath path = .error .fileNotFound := by
  unfold Heap.exists at hexists
  split at hexists
  · cases hexists
  · next hfind => exact hfind
  · cases hexists

/-- **A name that is free.** -/
theorem free_of_exists {path : Str} {init : List Str} (hsplit : split path = init ++ [name])
    (hexists : h.exists path = .ok false) (hq : h.getpathFrom init h.root = .ok q) :
    name ≠ [] ∧ ∀ c ∈ h.kids q, h.name c ≠ name := by
  have hfind := exists_false hexists
  unfold Heap.getpath at hfind
  rw [hsplit, getpathFrom_append, hq] at hfind
  change h.getpathFrom [name] q = _ at hfind
  rw [Heap.getpathFrom] at hfind
  split_ifs at hfind with hname
  · cases hfind
  · refine ⟨hname, find_missing ?_⟩
    cases hc : h.find name q with
    | error e =>
      rw [hc] at hfind
      exact hfind
    | ok c =>
      rw [hc] at hfind
      cases hfind

/-- A path is its directory and its last part. -/
theorem split_parts (path : Str) : split path = (split path).dropLast ++ [lastOf path] := by
  have hne : split path ≠ [] := List.splitOn_ne_nil '/' path
  unfold lastOf
  rw [List.getLastD_eq_getLast?, List.getLast?_eq_getLast_of_ne_nil hne]
  exact (List.dropLast_append_getLast hne).symm

theorem getpath_parentOf (h : Heap) (path : Str) :
    h.getpath (parentOf path) = h.getpathFrom (split path).dropLast h.root := by
  unfold Heap.getpath parentOf
  by_cases hnil : (split path).dropLast = []
  · rw [hnil]
    rfl
  · rw [show split (join (split path).dropLast) = (split path).dropLast from
      List.splitOn_intercalate '/' (fun piece hpiece => slash_notMem_split (List.dropLast_subset _ hpiece)) hnil]

/-! ## Removal by equality -/

theorem equalAt_of_name (depth : Nat) (hname : h.name x ≠ h.name y) : h.equalAt (depth + 1) x y = .ok false := by
  have hne : x ≠ y := fun heq => hname (by rw [heq])
  rw [Heap.equalAt, if_neg hne, if_pos]
  intro hfields
  exact hname (Prod.mk.inj hfields).1

/-- **`remove` takes the object itself**, if those before it have other names. -/
theorem listRemove_self {xs ys : List Ref} (hnames : ∀ y ∈ xs, h.name y ≠ h.name x) :
    h.listRemove x (xs ++ x :: ys) = .ok (xs ++ ys) := by
  induction xs with
  | nil =>
    rw [List.nil_append, Heap.listRemove, Heap.equalAt, if_pos rfl]
    rfl
  | cons y xs ih =>
    rw [List.cons_append, Heap.listRemove, equalAt_of_name _ (hnames y List.mem_cons_self),
      ih fun z hz => hnames z (List.mem_cons_of_mem y hz)]
    rfl

theorem listRemove_sublist {xs ys : List Ref} (hremove : h.listRemove x xs = .ok ys) : ys.Sublist xs := by
  induction xs generalizing ys with
  | nil => cases hremove
  | cons y xs ih =>
    rw [Heap.listRemove] at hremove
    split at hremove
    · cases hremove
    · obtain rfl := Except.ok.inj hremove
      exact List.sublist_cons_self y xs
    · cases hrest : h.listRemove x xs with
      | error e =>
        rw [hrest] at hremove
        cases hremove
      | ok zs =>
        rw [hrest] at hremove
        obtain rfl := Except.ok.inj hremove
        exact (ih hrest).cons_cons y

/-! ## What is left as it was -/

theorem kids_congr (hcontents : (g.node y).contents = (h.node x).contents)
    (hlist : ∀ l, (h.node x).contents = .list l → g.entries l = h.entries l) : g.kids y = h.kids x := by
  unfold Heap.kids
  rw [hcontents]
  split
  · next l hl => exact hlist l hl
  · rfl

theorem kids_list (hl : (h.node p).contents = .list l) : h.kids p = h.entries l := by
  unfold Heap.kids
  rw [hl]

theorem kids_setEntries (h : Heap) (l : Ref) (xs : List Ref) (p : Ref) :
    (h.setEntries l xs).kids p = if (h.node p).contents = .list l then xs else h.kids p := by
  split_ifs with hl
  · have hsame : ((h.setEntries l xs).node p).contents = .list l := hl
    rw [kids_list hsame]
    exact Function.update_self l xs h.entries
  · refine kids_congr rfl fun m hm => Function.update_of_ne ?_ _ _
    rintro rfl
    exact hl hm

/-- Nothing below `r` has changed. -/
structure Keeps (h g : Heap) (r : Ref) : Prop where
  node : ∀ x, h.Below r x → g.node x = h.node x
  list : ∀ x l, h.Below r x → (h.node x).contents = .list l → g.entries l = h.entries l
  next : h.next ≤ g.next

theorem Keeps.kids (hk : Keeps h g r) (hx : h.Below r x) : g.kids x = h.kids x :=
  kids_congr (by rw [hk.node x hx]) fun l => hk.list x l hx

theorem Keeps.below (hk : Keeps h g r) : g.Below r x ↔ h.Below r x := Objects.reach_congr fun _ hp => hk.kids hp

theorem Keeps.treeAt (hk : Keeps h g r) (ht : TreeAt h low r) : TreeAt g low r where
  tree := ht.tree.congr (fun p _ hp => hk.kids hp) fun p _ hp x hx => by
    rw [show g.objects.kids p = h.objects.kids p from hk.kids hp] at hx
    exact congrArg Node.name (hk.node x (Objects.Reach.tail hp hx))
  own x y l hx hy hxl hyl := by
    rw [hk.below] at hx hy
    exact ht.own x y l hx hy (hk.node x hx ▸ hxl) (hk.node y hy ▸ hyl)
  used x hx := by
    rw [hk.below] at hx
    exact ⟨(ht.used x hx).1, (ht.used x hx).2.trans_le hk.next⟩
  usedList x l hx hl := by
    rw [hk.below] at hx
    have hbounds := ht.usedList x l hx (hk.node x hx ▸ hl)
    exact ⟨hbounds.1, hbounds.2.trans_le hk.next⟩

/-- Objects have been added, and the old ones are as they were. -/
structure Extends (h g : Heap) : Prop where
  root : g.root = h.root
  limit : g.limit = h.limit
  next : h.next ≤ g.next
  node : ∀ x, x < h.next → g.node x = h.node x
  list : ∀ l, l < h.next → g.entries l = h.entries l

namespace Extends

theorem refl (h : Heap) : Extends h h := ⟨rfl, rfl, le_rfl, fun _ _ => rfl, fun _ _ => rfl⟩

theorem trans {k : Heap} (hg : Extends h g) (hk : Extends g k) : Extends h k where
  root := hk.root.trans hg.root
  limit := hk.limit.trans hg.limit
  next := hg.next.trans hk.next
  node x hx := (hk.node x (hx.trans_le hg.next)).trans (hg.node x hx)
  list l hl := (hk.list l (hl.trans_le hg.next)).trans (hg.list l hl)

theorem keeps (hg : Extends h g) (ht : TreeAt h low r) : Keeps h g r where
  node x hx := hg.node x (ht.used x hx).2
  list x l hx hl := hg.list l (ht.usedList x l hx hl).2
  next := hg.next

theorem wellFormed (hg : Extends h g) (hw : WellFormed h) : WellFormed g where
  tree := hg.root ▸ (hg.keeps hw.tree).treeAt hw.tree
  rootName := by
    have hroot := hg.node h.root (hw.tree.used _ (Objects.Reach.refl _ _)).2
    rw [hg.root]
    exact (congrArg Node.name hroot).trans hw.rootName

end Extends

theorem node_alloc (h : Heap) (n : Node) (x : Ref) : (h.alloc n).node x = if x = h.next then n else h.node x := by
  change Function.update h.node h.next n x = _
  rw [Function.update_apply]

theorem extends_alloc (h : Heap) (n : Node) : Extends h (h.alloc n) where
  root := rfl
  limit := rfl
  next := Nat.le_succ _
  node _ hx := Function.update_of_ne (Nat.ne_of_lt hx) _ _
  list _ _ := rfl

theorem extends_allocList (h : Heap) : Extends h h.allocList where
  root := rfl
  limit := rfl
  next := Nat.le_succ _
  node _ _ := rfl
  list _ hl := Function.update_of_ne (Nat.ne_of_lt hl) _ _

theorem extends_allocWithList (h : Heap) (n : Node) : Extends h (h.allocWithList n) :=
  (extends_allocList h).trans (extends_alloc _ _)

/-- A change of objects that are newer than `h`. -/
theorem Extends.setEntries (hg : Extends h g) (hl : h.next ≤ l) (xs : List Ref) : Extends h (g.setEntries l xs) where
  root := hg.root
  limit := hg.limit
  next := hg.next
  node := hg.node
  list m hm := (Function.update_of_ne (Nat.ne_of_lt (hm.trans_le hl)) _ _).trans (hg.list m hm)

theorem Extends.setName (hg : Extends h g) (hc : h.next ≤ c) (name : Str) : Extends h (g.setName c name) where
  root := hg.root
  limit := hg.limit
  next := hg.next
  node x hx := (Function.update_of_ne (Nat.ne_of_lt (hx.trans_le hc)) _ _).trans (hg.node x hx)
  list := hg.list

/-! ## Dropping and appending entries -/

/-- **Fewer entries.** -/
theorem WellFormed.erase (hw : WellFormed h) {ys : List Ref} (hsub : ys.Sublist (h.entries l)) :
    WellFormed (h.setEntries l ys) := by
  have hkids : ∀ p, ((h.setEntries l ys).kids p).Sublist (h.kids p) := by
    intro p
    rw [kids_setEntries]
    split_ifs with hl
    · rwa [kids_list hl]
    · exact List.Sublist.refl _
  have hbelow : ∀ x, (h.setEntries l ys).Holds x → h.Holds x := fun x =>
    Objects.Reach.mono fun p _ _ k hk => (hkids p).subset hk
  exact
    { tree :=
        { tree := hw.tree.tree.shrink (fun p _ _ => hkids p) fun _ _ _ _ _ => rfl
          own := fun x y m hx hy => hw.tree.own x y m (hbelow x hx) (hbelow y hy)
          used := fun x hx => hw.tree.used x (hbelow x hx)
          usedList := fun x m hx => hw.tree.usedList x m (hbelow x hx) }
      rootName := hw.rootName }

/-- **A separate tree under a name that is free.** -/
theorem TreeAt.append (ht : TreeAt h low r) (hc : TreeAt h low c) (hq : h.Below r q)
    (hl : (h.node q).contents = .list l) (hapart : ∀ y, h.Below r y → ¬ h.Below c y)
    (hlists : ∀ y z m, h.Below r y → h.Below c z → (h.node y).contents = .list m → (h.node z).contents ≠ .list m)
    (hgood : GoodName (h.name c)) (hnew : ∀ y ∈ h.kids q, h.name y ≠ h.name c) :
    TreeAt (h.setEntries l (h.entries l ++ [c])) low r := by
  have hgraft := Objects.grafted_attach h.objects q c
  have htree := ht.tree.graft hc.tree hgraft hq hapart hgood hnew
  have hreach : ∀ y, (h.objects.attach q c).Reach r y → h.Below r y ∨ h.Below c y := fun y => hgraft.reach
  have hkids : ∀ p, (h.objects.attach q c).Reach r p →
      (h.setEntries l (h.entries l ++ [c])).objects.kids p = (h.objects.attach q c).kids p := by
    intro p hp
    change (h.setEntries l (h.entries l ++ [c])).kids p = _
    rw [kids_setEntries]
    by_cases hpq : p = q
    · subst hpq
      rw [if_pos hl, hgraft.at_q, ← kids_list hl]
      rfl
    · rw [hgraft.elsewhere p hpq, if_neg]
      · rfl
      · intro hpl
        rcases hreach p hp with hp | hp
        · exact hpq (ht.own p q l hp hq hpl hl)
        · exact hlists q p l hq hp hl hpl
  have hbelow : ∀ y, (h.setEntries l (h.entries l ++ [c])).Below r y → h.Below r y ∨ h.Below c y := fun y hy =>
    hreach y ((Objects.reach_congr hkids).mp hy)
  exact
    { tree := htree.congr (fun p _ hp => hkids p hp) fun _ _ _ _ _ => rfl
      own := fun x y m hx hy hxm hym => by
        rcases hbelow x hx with hx | hx <;> rcases hbelow y hy with hy | hy
        · exact ht.own x y m hx hy hxm hym
        · exact absurd hym (hlists x y m hx hy hxm)
        · exact absurd hxm (hlists y x m hy hx hym)
        · exact hc.own x y m hx hy hxm hym
      used := fun x hx => (hbelow x hx).elim (ht.used x) (hc.used x)
      usedList := fun x m hx => (hbelow x hx).elim (ht.usedList x m) (hc.usedList x m) }

/-- What is made of objects of different times has nothing in common. -/
theorem TreeAt.append_later (ht : TreeAt g low r) (hext : Extends g h) (hc : TreeAt h g.next c) (hlow : low ≤ g.next)
    (hq : g.Below r q) (hl : (g.node q).contents = .list l) (hgood : GoodName (h.name c))
    (hnew : ∀ y ∈ g.kids q, g.name y ≠ h.name c) : TreeAt (h.setEntries l (h.entries l ++ [c])) low r := by
  have hkeeps := hext.keeps ht
  have hlater : TreeAt h low c :=
    { hc with
      used := fun x hx => ⟨hlow.trans (hc.used x hx).1, (hc.used x hx).2⟩
      usedList := fun x m hx hm => ⟨hlow.trans (hc.usedList x m hx hm).1, (hc.usedList x m hx hm).2⟩ }
  have hold : ∀ y, h.Below r y → y < g.next := fun y hy => (ht.used y (hkeeps.below.mp hy)).2
  refine (hkeeps.treeAt ht).append hlater (hkeeps.below.mpr hq) (hkeeps.node q hq ▸ hl) (fun y hy hyc => ?_)
    (fun y z m hy hz hym hzm => ?_) hgood fun y hy => ?_
  · exact absurd (hold y hy) (Nat.not_lt.mpr (hc.used y hyc).1)
  · have hy := hkeeps.below.mp hy
    exact absurd (ht.usedList y m hy (hkeeps.node y hy ▸ hym)).2 (Nat.not_lt.mpr (hc.usedList z m hz hzm).1)
  · rw [hkeeps.kids hq] at hy
    rw [show h.name y = g.name y from congrArg Node.name (hkeeps.node y (Objects.Reach.tail hq hy))]
    exact hnew y hy

/-! ## Moving an entry -/

/-- After `mv`: a copy of `x` has been appended to the list `l`, and `x` removed from the list `m`. -/
def Heap.moved (h : Heap) (x l m : Ref) (name : Str) : Heap :=
  let g := (h.alloc ((h.node x).renamed name)).setEntries l (h.entries l ++ [h.next])
  g.setEntries m ((g.entries m).erase x)

section Moved

variable {m : Ref} (hw : WellFormed h) (hp : h.Holds p) (hx : x ∈ h.kids p) (hm : (h.node p).contents = .list m)
  (hq : h.Holds q) (hl : (h.node q).contents = .list l) (hbelow : ¬ h.Below x q) (hname : name ≠ [])
  (hnew : ∀ y ∈ h.kids q, h.name y ≠ name)

theorem node_moved (h : Heap) (x l m : Ref) (name : Str) (y : Ref) :
    (h.moved x l m name).node y = if y = h.next then ((h.node x).renamed name) else h.node y := by
  change Function.update h.node h.next ((h.node x).renamed name) y = _
  rw [Function.update_apply]

/-- A list of `moved`. -/
theorem entries_moved (h : Heap) (x l m : Ref) (name : Str) (n : Ref) :
    (h.moved x l m name).entries n =
      if n = m then (if n = l then h.entries l ++ [h.next] else h.entries n).erase x
      else if n = l then h.entries l ++ [h.next] else h.entries n := by
  change Function.update (Function.update h.entries l (h.entries l ++ [h.next])) m
    ((Function.update h.entries l (h.entries l ++ [h.next]) m).erase x) n = _
  rw [Function.update_apply, Function.update_apply, Function.update_apply]
  split_ifs with hnm hml hnl hnl hnl
  · rfl
  · exact absurd (hnm.trans hml) hnl
  · exact absurd (hnm.symm.trans hnl) hml
  · rw [hnm]
  · rfl
  · rfl

include hw hp hx in
theorem holds_entry : h.Holds x ∧ x ≠ p ∧ x < h.next ∧ p < h.next := by
  have hholds : h.Holds x := Objects.Reach.tail hp hx
  refine ⟨hholds, ?_, (hw.tree.used x hholds).2, (hw.tree.used p hp).2⟩
  rintro rfl
  exact hw.tree.tree.not_reach_parent hp hx (Objects.Reach.refl _ _)

include hw hp hx hm hq hl hbelow

/-- The entries after `mv`, of the nodes that are in the tree then. -/
theorem kids_moved (hy : y = h.next ∨ y ≠ x ∧ h.Holds y) :
    (h.moved x l m name).kids y =
      (((h.alloc ((h.node x).renamed name)).objects.detach p x).attach q h.next).kids y := by
  obtain ⟨hholds, hxp, hxnext, hpnext⟩ := holds_entry hw hp hx
  have hqnext : q < h.next := (hw.tree.used q hq).2
  have hxq : x ≠ q := fun heq => hbelow (heq ▸ Objects.Reach.refl _ _)
  have hd := Objects.detached_detach (h.alloc ((h.node x).renamed name)).objects p x
  have hg := Objects.grafted_attach ((h.alloc ((h.node x).renamed name)).objects.detach p x) q h.next
  have hold : ∀ z, z < h.next → (h.alloc ((h.node x).renamed name)).objects.kids z = h.kids z := fun z hz =>
    kids_congr (by rw [(extends_alloc h _).node z hz]) fun _ _ => rfl
  rcases hy with rfl | ⟨hyx, hy⟩
  · -- the copy has the list of `x`, which is neither of the two
    rw [hg.elsewhere _ (Nat.ne_of_gt hqnext), hd.elsewhere _ (Nat.ne_of_gt hpnext)]
    refine kids_congr (by rw [node_moved, node_alloc, if_pos rfl]) fun n hn => ?_
    · rw [node_alloc, if_pos rfl] at hn
      have hnm : n ≠ m := fun heq => hxp (hw.tree.own x p m hholds hp (heq ▸ hn) hm)
      have hnl : n ≠ l := fun heq => hxq (hw.tree.own x q l hholds hq (heq ▸ hn) hl)
      rw [entries_moved, if_neg hnm, if_neg hnl]
      rfl
  · have hynext : y < h.next := (hw.tree.used y hy).2
    have hnode : (h.moved x l m name).node y = h.node y := by rw [node_moved, if_neg (Nat.ne_of_lt hynext)]
    have hkids : ∀ n, (h.node y).contents = .list n →
        (h.moved x l m name).kids y = (h.moved x l m name).entries n := fun n hn => kids_list (hnode ▸ hn)
    by_cases hyp : y = p
    · subst hyp
      rw [hkids m hm, entries_moved, if_pos rfl]
      by_cases hyq : y = q
      · subst hyq
        obtain rfl : m = l := Contents.list.inj (hm.symm.trans hl)
        rw [if_pos rfl, hg.at_q, hd.at_p, hold y hynext, ← kids_list hm, List.erase_append_left _ hx]
      · have hml : m ≠ l := fun heq => hyq (hw.tree.own y q l hy hq (heq ▸ hm) hl)
        rw [if_neg hml, hg.elsewhere y hyq, hd.at_p, hold y hynext, ← kids_list hm]
    · by_cases hyq : y = q
      · subst hyq
        have hlm : l ≠ m := fun heq => hyp (hw.tree.own y p m hy hp (heq ▸ hl) hm)
        rw [hkids l hl, entries_moved, if_neg hlm, if_pos rfl, hg.at_q, hd.elsewhere y hyp, hold y hynext,
          ← kids_list hl]
      · rw [hg.elsewhere y hyq, hd.elsewhere y hyp, hold y hynext]
        refine kids_congr (by rw [hnode]) fun n hn => ?_
        have hnm : n ≠ m := fun heq => hyp (hw.tree.own y p m hy hp (heq ▸ hn) hm)
        have hnl : n ≠ l := fun heq => hyq (hw.tree.own y q l hy hq (heq ▸ hn) hl)
        rw [entries_moved, if_neg hnm, if_neg hnl]

omit hm hl in
/-- The heap with the copy, which is not in the tree. -/
theorem alloc_copy (name : Str) :
    let g := (h.alloc ((h.node x).renamed name)).objects
    g.IsTree GoodName h.root ∧ g.Reach h.root p ∧ x ∈ g.kids p ∧ ¬ g.Reach h.root h.next ∧
      g.kids h.next = g.kids x ∧ g.Reach h.root q ∧ ¬ g.Reach x q ∧ ∀ y, g.Reach h.root y ↔ h.Holds y := by
  intro g
  obtain ⟨hholds, -, hxnext, -⟩ := holds_entry hw hp hx
  have hkeeps := (extends_alloc h ((h.node x).renamed name)).keeps hw.tree
  have hsame : ∀ y, g.Reach h.root y ↔ h.Holds y := fun y => hkeeps.below
  have hcontents : ((h.alloc ((h.node x).renamed name)).node h.next).contents =
      ((h.alloc ((h.node x).renamed name)).node x).contents := by
    rw [node_alloc, node_alloc, if_pos rfl, if_neg (Nat.ne_of_lt hxnext)]
    rfl
  refine ⟨(hkeeps.treeAt hw.tree).tree, (hsame p).mpr hp, ?_, fun hback => ?_,
    kids_congr hcontents fun _ _ => rfl, (hsame q).mpr hq, fun hback => hbelow ?_, hsame⟩
  · rw [show g.kids p = h.kids p from hkeeps.kids hp]
    exact hx
  · exact Nat.lt_irrefl _ (hw.tree.used _ ((hsame _).mp hback)).2
  · exact (Objects.reach_congr fun z hz => hkeeps.kids (Objects.Reach.trans hholds hz)).mp hback

/-- **What is in the tree after `mv`**: the copy, and all but the entry. -/
theorem holds_moved : (h.moved x l m name).Holds y ↔ y = h.next ∨ y ≠ x ∧ h.Holds y := by
  obtain ⟨htree, hp', hx', hc, hkids, hq', hbelow', hsame⟩ := alloc_copy hw hp hx hq hbelow name
  have hreach : ∀ z, (((h.alloc ((h.node x).renamed name)).objects.detach p x).attach q h.next).Reach h.root z ↔
      z = h.next ∨ z ≠ x ∧ h.Holds z := fun z => by
    rw [Objects.reach_moved htree hp' hx' hc hkids hq' hbelow', hsame]
  rw [← hreach y]
  exact Objects.reach_congr fun z hz => kids_moved hw hp hx hm hq hl hbelow ((hreach z).mp hz)

include hname hnew

/-- **`mv` keeps the tree**, if the directory is not below what moves. -/
theorem WellFormed.moved : WellFormed (h.moved x l m name) := by
  obtain ⟨htree, hp', hx', hc, hkids, hq', hbelow', hsame⟩ := alloc_copy hw hp hx hq hbelow name
  have hkeeps := (extends_alloc h ((h.node x).renamed name)).keeps hw.tree
  have hin : ∀ y, (h.moved x l m name).Holds y → y = h.next ∨ y ≠ x ∧ h.Holds y := fun y =>
    (holds_moved hw hp hx hm hq hl hbelow).mp
  have hcopy : (h.alloc ((h.node x).renamed name)).objects.label h.next = name := by
    change ((h.alloc ((h.node x).renamed name)).node h.next).name = name
    rw [node_alloc, if_pos rfl]
    rfl
  have hmoved := htree.moved hp' hx' hc hkids hq' hbelow' (by rwa [hcopy]) fun y hy => by
    rw [show (h.alloc ((h.node x).renamed name)).objects.kids q = h.kids q from hkeeps.kids hq] at hy
    rw [hcopy, show (h.alloc ((h.node x).renamed name)).objects.label y = h.name y from
      congrArg Node.name (hkeeps.node y (Objects.Reach.tail hq hy))]
    exact hnew y hy
  have hreach : ∀ z, (((h.alloc ((h.node x).renamed name)).objects.detach p x).attach q h.next).Reach h.root z →
      z = h.next ∨ z ≠ x ∧ h.Holds z := fun z hz => by
    rwa [Objects.reach_moved htree hp' hx' hc hkids hq' hbelow', hsame] at hz
  have hnode : ∀ y, h.Holds y → (h.moved x l m name).node y = h.node y := fun y hy => by
    rw [node_moved, if_neg (Nat.ne_of_lt (hw.tree.used y hy).2)]
  -- the node whose list it was
  have hlist : ∀ y n, (h.moved x l m name).Holds y → ((h.moved x l m name).node y).contents = .list n →
      ∃ z, h.Holds z ∧ (h.node z).contents = .list n ∧ (z = y ∧ y ≠ x ∨ z = x ∧ y = h.next) := by
    intro y n hy hn
    rcases hin y hy with rfl | ⟨hyx, hy⟩
    · rw [node_moved, if_pos rfl] at hn
      exact ⟨x, (holds_entry hw hp hx).1, hn, .inr ⟨rfl, rfl⟩⟩
    · exact ⟨y, hy, hnode y hy ▸ hn, .inl ⟨rfl, hyx⟩⟩
  refine ⟨⟨?_, fun y y' n hy hy' hn hn' => ?_, fun y hy => ⟨Nat.zero_le _, ?_⟩,
    fun y n hy hn => ⟨Nat.zero_le _, ?_⟩⟩, ?_⟩
  · exact hmoved.congr (fun z _ hz => kids_moved hw hp hx hm hq hl hbelow (hreach z hz)) fun _ _ _ _ _ => rfl
  · obtain ⟨z, hz, hzn, hcase⟩ := hlist y n hy hn
    obtain ⟨z', hz', hzn', hcase'⟩ := hlist y' n hy' hn'
    obtain rfl := hw.tree.own z z' n hz hz' hzn hzn'
    rcases hcase with ⟨rfl, hyx⟩ | ⟨rfl, rfl⟩ <;> rcases hcase' with ⟨rfl, hyx'⟩ | ⟨hzx, rfl⟩
    · rfl
    · exact absurd hzx hyx
    · exact absurd rfl hyx'
    · rfl
  · rcases hin y hy with rfl | ⟨-, hy⟩
    · exact Nat.lt_succ_self _
    · exact Nat.lt_succ_of_lt (hw.tree.used y hy).2
  · obtain ⟨z, hz, hzn, -⟩ := hlist y n hy hn
    exact Nat.lt_succ_of_lt (hw.tree.usedList z n hz hzn).2
  · exact (congrArg Node.name (hnode h.root (Objects.Reach.refl _ _))).trans hw.rootName

end Moved

/-! ## The nodes of the tree -/

/-- The node without the identity of its list. -/
def Node.attributes (n : Node) : Node :=
  { n with contents := match n.contents with
      | .list _ => .list 0
      | .bytes data => .bytes data }

open Classical in
/-- The nodes of the tree, each without the identity of its list. -/
noncomputable def Heap.nodes (h : Heap) : Multiset Node :=
  if hfinite : {x | h.Holds x}.Finite then hfinite.toFinset.val.map fun x => (h.node x).attributes else 0

theorem nodes_eq {S : Finset Ref} (hS : ∀ x, x ∈ S ↔ h.Holds x) :
    h.nodes = S.val.map fun x => (h.node x).attributes := by
  have hset : {x | h.Holds x} = ↑S := Set.ext fun x => (hS x).symm
  have hfinite : {x | h.Holds x}.Finite := hset ▸ S.finite_toSet
  have hsame : hfinite.toFinset = S := by
    ext x
    rw [Set.Finite.mem_toFinset, hS]
    rfl
  unfold Heap.nodes
  rw [dif_pos hfinite, hsame]

/-- Nothing below the root has changed. -/
theorem Keeps.nodes (hw : WellFormed h) (hk : Keeps h g h.root) (hroot : g.root = h.root) : g.nodes = h.nodes := by
  have hS : ∀ x, x ∈ hw.tree.tree.finite.toFinset ↔ h.Holds x := fun x => Set.Finite.mem_toFinset _
  have hS' : ∀ x, x ∈ hw.tree.tree.finite.toFinset ↔ g.Holds x := fun x => by
    unfold Heap.Holds
    rw [hroot, hk.below]
    exact hS x
  rw [nodes_eq hS, nodes_eq hS']
  refine Multiset.map_congr rfl fun x hx => ?_
  rw [hk.node x ((hS x).mp hx)]

/-- **The nodes after `mv`** are those before, with the new name for the one that has moved. -/
theorem nodes_moved {m : Ref} (hw : WellFormed h) (hp : h.Holds p) (hx : x ∈ h.kids p)
    (hm : (h.node p).contents = .list m) (hq : h.Holds q) (hl : (h.node q).contents = .list l)
    (hbelow : ¬ h.Below x q) (name : Str) :
    (h.moved x l m name).nodes + {(h.node x).attributes} = h.nodes + {((h.node x).renamed name).attributes} := by
  have hS : ∀ y, y ∈ hw.tree.tree.finite.toFinset ↔ h.Holds y := fun y => Set.Finite.mem_toFinset _
  generalize hw.tree.tree.finite.toFinset = S at hS
  have hxS : x ∈ S := (hS x).mpr (holds_entry hw hp hx).1
  have hnew : h.next ∉ S.erase x := fun hmem =>
    Nat.lt_irrefl _ (hw.tree.used _ ((hS _).mp (Finset.mem_of_mem_erase hmem))).2
  have hS' : ∀ y, y ∈ insert h.next (S.erase x) ↔ (h.moved x l m name).Holds y := fun y => by
    rw [holds_moved hw hp hx hm hq hl hbelow, Finset.mem_insert, Finset.mem_erase, hS]
  have hrest : (S.erase x).val.map (fun y => ((h.moved x l m name).node y).attributes) =
      (S.erase x).val.map fun y => (h.node y).attributes :=
    Multiset.map_congr rfl fun y hy => by
      have hne : y ≠ h.next := fun heq => hnew (heq ▸ Finset.mem_def.mpr hy)
      rw [node_moved, if_neg hne]
  have hbefore : S.val.map (fun y => (h.node y).attributes) =
      (h.node x).attributes ::ₘ (S.erase x).val.map fun y => (h.node y).attributes := by
    have hval : S.val = x ::ₘ (S.erase x).val := by rw [Finset.erase_val, Multiset.cons_erase hxS]
    exact (congrArg _ hval).trans (Multiset.map_cons _ x _)
  rw [nodes_eq hS, nodes_eq hS', Finset.insert_val_of_notMem hnew, Multiset.map_cons, hrest, hbefore, node_moved,
    if_pos rfl]
  rw [← Multiset.singleton_add, ← Multiset.singleton_add (h.node x).attributes]
  abel

/-! ## Deep copies -/

theorem treeAt_leaf (hkids : h.kids c = []) (hlow : low ≤ c) (hc : c < h.next)
    (hlist : ∀ l, (h.node c).contents = .list l → low ≤ l ∧ l < h.next) : TreeAt h low c := by
  have hself : ∀ x, h.Below c x → x = c := fun x hx => by
    induction hx with
    | refl => rfl
    | @tail a b _ hb ih =>
      subst ih
      change b ∈ h.kids a at hb
      rw [hkids] at hb
      cases hb
  exact
    { tree := Objects.IsTree.leaf hkids
      own := fun x y _ hx hy _ _ => (hself x hx).trans (hself y hy).symm
      used := fun x hx => hself x hx ▸ ⟨hlow, hc⟩
      usedList := fun x m hx hm => hlist m (hself x hx ▸ hm) }

/-- What a copy of `x` is, made in `g`. -/
structure CopyOf (h g : Heap) (x : Ref) (k : Heap) (c : Ref) : Prop where
  later : Extends g k
  tree : TreeAt k g.next c
  name : k.name c = h.name x

/-- **The copies of the entries** are appended to the list `l` of the copy `c`. -/
theorem copyAll_spec {copy : Ref → Heap → Except FsError (Ref × Heap)}
    (hcopy : ∀ x g y k, h.Holds x → Extends h g → copy x g = .ok (y, k) → CopyOf h g x k y) {xs : List Ref}
    {k k' : Heap} (hxs : ∀ x ∈ xs, h.Holds x) (hg : Extends h g) (hk : Extends g k) (hlow : g.next ≤ l)
    (hc : TreeAt k g.next c) (hl : (k.node c).contents = .list l)
    (hnames : ((k.kids c).map k.name ++ xs.map h.name).Nodup) (hgood : ∀ x ∈ xs, GoodName (h.name x))
    (hall : Heap.copyAll copy l xs k = .ok k') :
    Extends g k' ∧ TreeAt k' g.next c ∧ k'.node c = k.node c := by
  induction xs generalizing k with
  | nil =>
    obtain rfl := Except.ok.inj hall
    exact ⟨hk, hc, rfl⟩
  | cons x xs ih =>
    rw [Heap.copyAll] at hall
    split at hall
    · cases hall
    · next y k₁ hy =>
      obtain ⟨hlater, htree, hname⟩ := hcopy x k y k₁ (hxs x List.mem_cons_self) (hg.trans hk) hy
      have hself : k.Below c c := Objects.Reach.refl _ _
      have hbounds := hc.used c hself
      have hlbounds := hc.usedList c l hself hl
      have hnode : k₁.node c = k.node c := hlater.node c hbounds.2
      have hentries : k₁.entries l = k.kids c := by rw [hlater.list l hlbounds.2, kids_list hl]
      rw [List.map_cons, List.nodup_append] at hnames
      obtain ⟨hdone, hrest, hapart⟩ := hnames
      have hnew : ∀ z ∈ k.kids c, k.name z ≠ k₁.name y := fun z hz => by
        rw [hname]
        exact hapart _ (List.mem_map_of_mem hz) _ List.mem_cons_self
      have hold : ∀ z ∈ k.kids c, k₁.name z = k.name z := fun z hz =>
        congrArg Node.name (hlater.node z (hc.used z (Objects.Reach.tail hself hz)).2)
      have hgoody : GoodName (k₁.name y) := hname ▸ hgood x List.mem_cons_self
      have happended : TreeAt (k₁.setEntries l (k₁.entries l ++ [y])) g.next c :=
        hc.append_later hlater htree hk.next hself hl hgoody hnew
      have hnext := ih (fun z hz => hxs z (List.mem_cons_of_mem x hz))
        ((hk.trans hlater).setEntries hlow (k₁.entries l ++ [y])) happended (hnode ▸ hl) ?_
        (fun z hz => hgood z (List.mem_cons_of_mem x hz)) hall
      · exact ⟨hnext.1, hnext.2.1, hnext.2.2.trans hnode⟩
      · have hkids : (k₁.setEntries l (k₁.entries l ++ [y])).kids c = k.kids c ++ [y] := by
          rw [kids_setEntries, if_pos (hnode ▸ hl), hentries]
        have hmap : (k.kids c ++ [y]).map k₁.name = (k.kids c).map k.name ++ [h.name x] := by
          rw [List.map_append, List.map_congr_left hold, List.map_singleton, hname]
        change (((k₁.setEntries l (k₁.entries l ++ [y])).kids c).map k₁.name ++ xs.map h.name).Nodup
        rw [hkids, hmap, List.append_assoc, List.singleton_append, List.nodup_append]
        exact ⟨hdone, hrest, hapart⟩

theorem node_allocWithList (h : Heap) (n : Node) :
    (h.allocWithList n).node (h.next + 1) = { n with contents := .list h.next } := by
  unfold Heap.allocWithList
  rw [node_alloc]
  exact if_pos rfl

/-- A node with a new list is a tree. -/
theorem treeAt_allocWithList (h : Heap) (n : Node) : TreeAt (h.allocWithList n) h.next (h.next + 1) := by
  have hnode := node_allocWithList h n
  refine treeAt_leaf ?_ (Nat.le_succ _) (Nat.lt_succ_self _) fun l hl => ?_
  · rw [kids_list (congrArg Node.contents hnode)]
    exact Function.update_self h.next [] h.entries
  · rw [hnode] at hl
    obtain rfl := Contents.list.inj hl
    exact ⟨le_rfl, Nat.lt_succ_of_lt (Nat.lt_succ_self _)⟩

/-- **A deep copy** of a node of the tree. -/
theorem deepcopyAt_spec (hw : WellFormed h) {depth : Nat} {k : Heap} (hx : h.Holds x) (hg : Extends h g)
    (hcopy : deepcopyAt depth x g = .ok (c, k)) : CopyOf h g x k c := by
  induction depth using Nat.strong_induction_on generalizing x g c k with
  | _ depth ih =>
    have hnode : g.node x = h.node x := hg.node x (hw.tree.used x hx).2
    rw [deepcopyAt.eq_def] at hcopy
    cases hcontents : (g.node x).contents with
    | bytes data =>
      simp only [hcontents] at hcopy
      obtain ⟨rfl, rfl⟩ := Prod.mk.inj (Except.ok.inj hcopy)
      have hcopied : (g.alloc (g.node x)).node g.next = g.node x := by rw [node_alloc, if_pos rfl]
      refine ⟨extends_alloc g _, treeAt_leaf ?_ le_rfl (Nat.lt_succ_self _) fun l hl => ?_,
        congrArg Node.name (hcopied.trans hnode)⟩
      · unfold Heap.kids
        rw [hcopied, hcontents]
      · rw [hcopied, hcontents] at hl
        cases hl
    | list l =>
      simp only [hcontents] at hcopy
      have hlist : (h.node x).contents = .list l := hnode ▸ hcontents
      have hentries : g.entries l = h.kids x := by
        rw [hg.list l (hw.tree.usedList x l hx hlist).2, kids_list hlist]
      have hmem : ∀ z ∈ g.entries l, z ∈ h.objects.kids x := fun z hz => by
        rw [hentries] at hz
        exact hz
      have hstart := node_allocWithList g (g.node x)
      have hempty : (g.allocWithList (g.node x)).kids (g.next + 1) = [] := by
        rw [kids_list (congrArg Node.contents hstart)]
        exact Function.update_self g.next [] g.entries
      have hnames : (((g.allocWithList (g.node x)).kids (g.next + 1)).map (g.allocWithList (g.node x)).name ++
          (g.entries l).map h.name).Nodup := by
        rw [hempty, hentries]
        exact hw.tree.tree.names x hx
      cases depth with
      | zero => cases hcopy
      | succ depth =>
        simp only at hcopy
        split at hcopy
        · cases hcopy
        · next k' hall =>
          obtain ⟨rfl, rfl⟩ := Prod.mk.inj (Except.ok.inj hcopy)
          obtain ⟨hlater, htree, hsame⟩ := copyAll_spec
            (fun z g z' k hz hg hcopy => ih depth (Nat.lt_succ_self _) hz hg hcopy)
            (fun z hz => Objects.Reach.tail hx (hmem z hz)) hg (extends_allocWithList g _) le_rfl
            (treeAt_allocWithList g _) (congrArg Node.contents hstart) hnames
            (fun z hz => hw.tree.tree.good x hx z (hmem z hz)) hall
          refine ⟨hlater, htree, ?_⟩
          change (k'.node (g.next + 1)).name = (h.node x).name
          rw [hsame, hstart, hnode]

end Cowrie.Scripts.Fsctl
