import Cowrie.Scripts.FsctlTree

/-!
# What the editor keeps (`src/cowrie/scripts/fsctl.py`)

`Sound` says that the tree in memory and the one in the pickle file are well-formed, and that the working directory is
absolute.

* `mkfile_sound`, `rm_keeping`: whatever their arguments, these keep the trees.
* `Checked`: what the checks of `mv` and `cp` have seen. The name is free in the directory and has no slash.
* **`cp_keeping`**: a copy is a deep one, so that it may go below its source.
-/

namespace Cowrie.Scripts.Fsctl

open Cowrie.Lib
open Shell (Digits)
open Shell.Redirect (pathJoin)
open Shell.Fs (Str Ref NodeType FsError split join stripSlash slash_notMem_split join_append_singleton)

/-! ## What is kept -/

/-- An absolute path. -/
def Absolute (path : Str) : Prop := path.head? = some '/'

/-- The tree in memory, the tree in the pickle file, and the working directory. -/
structure Sound (s : FseditCmd) : Prop where
  fs : WellFormed s.fs
  image : WellFormed s.image
  pwd : Absolute s.pwd

variable {s t : FseditCmd} {h g : Heap} {x p q c l : Ref} {name path src dst : Str}

/-! ## Computations that keep the trees -/

/-- If the trees were well-formed they still are. -/
def Keeping (s t : FseditCmd) : Prop := Sound s → Sound t

theorem Keeping.refl (s : FseditCmd) : Keeping s s := id

theorem Keeping.trans (s t v : FseditCmd) (hst : Keeping s t) (htv : Keeping t v) : Keeping s v := htv ∘ hst

theorem print_keeping (text : Str) : Along Keeping (print text) :=
  along_modify fun _ hs => ⟨hs.fs, hs.image, hs.pwd⟩

theorem savePickle_keeping : Along Keeping savePickle := along_modify fun _ hs => ⟨hs.fs, hs.fs, hs.pwd⟩

theorem Sound.bind {α β : Type} {m : FsctlM α} {k : α → FsctlM β} (hm : Sound (exec m s).2)
    (hk : ∀ a, Along Keeping (k a)) : Sound (exec (m >>= k) s).2 := by
  cases h : exec m s with
  | mk r v =>
    rw [h] at hm
    cases r with
    | ok a =>
      rw [exec_bind_ok h]
      exact hk a v hm
    | error e =>
      rw [exec_bind_error h]
      exact hm

/-- What a query answers is known of the state. -/
theorem keeping_query {α β : Type} {ask : FseditCmd → Except FsError α} {k : α → FsctlM β}
    (hk : ∀ a, ask s = .ok a → Keeping s (exec (k a) s).2) : Keeping s (exec (query ask >>= k) s).2 := by
  refine rel_bind Keeping.trans ?_ fun a v hv => ?_
  · rw [exec_query]
    exact Keeping.refl s
  · rw [exec_query] at hv
    obtain ⟨ha, rfl⟩ := Prod.mk.inj hv
    exact hk a ha

/-- The trees are not touched. -/
def SameTree (s t : FseditCmd) : Prop := t.fs = s.fs ∧ t.image = s.image ∧ (Absolute s.pwd → Absolute t.pwd)

theorem SameTree.refl (s : FseditCmd) : SameTree s s := ⟨rfl, rfl, id⟩

theorem SameTree.trans (s t v : FseditCmd) (hst : SameTree s t) (htv : SameTree t v) : SameTree s v :=
  ⟨htv.1.trans hst.1, htv.2.1.trans hst.2.1, htv.2.2 ∘ hst.2.2⟩

theorem SameTree.keeping (hst : SameTree s t) : Keeping s t := fun hs =>
  ⟨hst.1 ▸ hs.fs, hst.2.1 ▸ hs.image, hst.2.2 hs.pwd⟩

theorem query_sameTree {α : Type} (ask : FseditCmd → Except FsError α) : Along SameTree (query ask) := fun s => by
  rw [exec_query]
  exact SameTree.refl s

theorem print_sameTree (text : Str) : Along SameTree (print text) := along_modify fun _ => ⟨rfl, rfl, id⟩

theorem absolute_normpath (hpath : Absolute path) : Absolute (normpath path) := by
  obtain ⟨rest, rfl⟩ := List.head?_eq_some_iff.mp hpath
  have hslashes : ∃ n, initialSlashes ('/' :: rest) = n + 1 := by
    unfold initialSlashes
    split
    · exact ⟨0, rfl⟩
    · exact ⟨1, rfl⟩
    · exact ⟨0, rfl⟩
    · next hno => exact absurd rfl (hno rest)
  obtain ⟨n, hn⟩ := hslashes
  unfold normpath
  dsimp only
  rw [hn, List.replicate_succ, List.cons_append, if_neg (List.cons_ne_nil _ _)]
  rfl

/-- A reference is absolute if the working directory is. -/
theorem absolute_resolveReference {pwd : Str} (hpwd : Absolute pwd) (ref : Str) :
    Absolute (resolveReference pwd ref) := by
  obtain ⟨rest, rfl⟩ := List.head?_eq_some_iff.mp hpwd
  refine absolute_normpath ?_
  unfold pathJoin
  split_ifs with href
  · exact href
  · rfl
  · rfl

/-- Without its slashes it is not. -/
theorem not_absolute_stripSlash (path : Str) : ¬ Absolute (stripSlash path) := by
  unfold Absolute stripSlash
  intro hhead
  obtain ⟨rest, hrest⟩ := List.head?_eq_some_iff.mp hhead
  have hne : (Shell.Fs.rstripSlash path).dropWhile (fun c => decide (c = '/')) ≠ [] := by
    rw [hrest]
    exact List.cons_ne_nil _ _
  have hnot := List.head_dropWhile_not (fun c => decide (c = '/')) hne
  simp [hrest] at hnot

theorem cd_sameTree (arguments : Str) (s : FseditCmd) : SameTree s (exec (cd arguments) s).2 := by
  unfold cd
  split
  · exact ⟨rfl, rfl, fun _ => rfl⟩
  · rw [exec_get_bind]
    refine rel_bind SameTree.trans (query_sameTree _ s) fun found v hv => ?_
    split_ifs
    · exact print_sameTree _ v
    · refine rel_bind SameTree.trans (query_sameTree _ v) fun isDir w hw => ?_
      rw [exec_query] at hv hw
      obtain ⟨-, rfl⟩ := Prod.mk.inj hv
      obtain ⟨-, rfl⟩ := Prod.mk.inj hw
      split_ifs
      · exact ⟨rfl, rfl, fun hpwd => absolute_resolveReference hpwd _⟩
      · exact print_sameTree _ _

/-! ## Appending and removing -/

/-- **A new tree** is appended to a directory of the old one. -/
theorem WellFormed.append_new (hw : WellFormed h) (hext : Extends h g) (hc : TreeAt g h.next c) (hq : h.Holds q)
    (hl : (h.node q).contents = .list l) (hgood : GoodName (g.name c))
    (hnew : ∀ y ∈ h.kids q, h.name y ≠ g.name c) : WellFormed (g.setEntries l (g.entries l ++ [c])) where
  tree := by
    have htree := hw.tree.append_later hext hc (Nat.zero_le _) hq hl hgood hnew
    rwa [show (g.setEntries l (g.entries l ++ [c])).root = h.root from hext.root]
  rootName := (hext.wellFormed hw).rootName

theorem append_sound (hw : WellFormed h) (himage : WellFormed s.image) (hpwd : Absolute s.pwd) (hext : Extends h s.fs)
    (hc : TreeAt s.fs h.next c) (hq : h.Holds q) (hgood : GoodName (s.fs.name c))
    (hnew : ∀ y ∈ h.kids q, h.name y ≠ s.fs.name c) : Sound (exec (append q c) s).2 := by
  have hnode : s.fs.node q = h.node q := hext.node q (hw.tree.used q hq).2
  unfold append
  rw [exec_get_bind, hnode]
  cases hl : (h.node q).contents with
  | bytes data => exact ⟨hext.wellFormed hw, himage, hpwd⟩
  | list l => exact ⟨hw.append_new hext hc hq hl hgood hnew, himage, hpwd⟩

theorem remove_keeping (p x : Ref) : Along Keeping (remove p x) := by
  refine along_get fun s => ?_
  split
  · exact along_throw Keeping.refl _
  · intro t
    refine keeping_query fun xs hxs ht => ?_
    exact ⟨ht.fs.erase (listRemove_sublist hxs), ht.image, ht.pwd⟩

/-! ## `touch`, `mkdir` and `rm` -/

theorem exec_time (s : FseditCmd) :
    exec time s = (.ok (s.clock 0), { s with clock := fun i => s.clock (i + 1) }) := rfl

/-- The end of `mkfile`: a new node under a name that is free. -/
theorem create_keeping (path : Str) {fileType : NodeType} (size : Int) (hexists : s.fs.exists path = .ok false)
    (hcwd : s.fs.getpath (parentOf path) = .ok p) :
    Keeping s (exec (do
      let ctime ← time
      let h := (← get).fs
      edit fun h => h.allocWithList (newNode (h.node p) (lastOf path) fileType size ctime)
      append p (h.next + 1)
      savePickle
      print ("Added '".toList ++ path ++ ['\''])) s).2 := by
  intro hs
  rw [exec_bind_ok (exec_time s), exec_get_bind]
  unfold edit
  rw [exec_modify_bind]
  obtain ⟨hname, hnew⟩ := free_of_exists (split_parts path) hexists (getpath_parentOf s.fs path ▸ hcwd)
  have hnode : (s.fs.allocWithList (newNode (s.fs.node p) (lastOf path) fileType size (s.clock 0))).name
      (s.fs.next + 1) = lastOf path := congrArg Node.name (node_allocWithList s.fs _)
  have hgood : GoodName ((s.fs.allocWithList (newNode (s.fs.node p) (lastOf path) fileType size (s.clock 0))).name
      (s.fs.next + 1)) := by rwa [hnode]
  refine Sound.bind (append_sound hs.fs hs.image hs.pwd (extends_allocWithList _ _) (treeAt_allocWithList _ _)
    (holds_getpath hcwd) hgood fun y hy => ?_) fun _ => ?_
  · exact fun heq => hnew y hy (heq.trans hnode)
  · exact along_bind Keeping.trans savePickle_keeping fun _ => print_keeping _

/-- A call of `mkfile`, where `makeParent` keeps the trees. -/
theorem make_keeping (u : Digits) (path : Str) (args : List Str) (fileType : NodeType) {makeParent : FsctlM Unit}
    (hparent : Along Keeping makeParent) :
    Along Keeping (do
      when ((← query fun s => s.fs.exists (parentOf path)) = false) makeParent
      if ← query fun s => s.fs.exists path then print ("Error: ".toList ++ path ++ " already exists!".toList)
      else
        let cwd ← query fun s => s.fs.getpath (parentOf path)
        let size ← query fun _ => sizeOf u args
        let ctime ← time
        let h := (← get).fs
        edit fun h => h.allocWithList (newNode (h.node cwd) (lastOf path) fileType size ctime)
        append cwd (h.next + 1)
        savePickle
        print ("Added '".toList ++ path ++ ['\''])) := by
  refine along_bind Keeping.trans (fun s => (query_sameTree _ s).keeping) fun found => ?_
  refine along_bind Keeping.trans (along_when Keeping.refl hparent) fun _ s => ?_
  refine keeping_query fun found hfound => ?_
  split_ifs with hexists
  · exact print_keeping _ s
  · refine keeping_query fun cwd hcwd => keeping_query fun size _ => ?_
    exact create_keeping _ size (by rw [hfound, Bool.eq_false_of_not_eq_true hexists]) hcwd

/-- **`mkfile`**, whatever its arguments. -/
theorem mkfile_sound (u : Digits) (depth : Nat) (args : List Str) (fileType : NodeType) :
    Along Keeping (mkfile u depth args fileType) := by
  induction depth generalizing args fileType with
  | zero =>
    cases args with
    | nil => exact along_throw Keeping.refl _
    | cons arg args =>
      refine along_get fun s => make_keeping u _ _ _ ?_
      exact along_bind Keeping.trans (print_keeping _) fun _ => along_throw Keeping.refl _
  | succ depth ih =>
    cases args with
    | nil => exact along_throw Keeping.refl _
    | cons arg args =>
      refine along_get fun s => make_keeping u _ _ _ ?_
      exact along_bind Keeping.trans (print_keeping _) fun _ => ih _ _

/-- `touch` and `mkdir`. -/
theorem touch_keeping (u : Digits) (arguments : Str) : Along Keeping (touch u arguments) := by
  unfold touch
  dsimp only
  split_ifs
  · exact print_keeping _
  · exact along_get fun s => mkfile_sound u _ _ _

theorem mkdir_keeping (u : Digits) (arguments : Str) : Along Keeping (mkdir u arguments) := by
  unfold mkdir
  dsimp only
  split_ifs
  · exact print_keeping _
  · induction words arguments with
    | nil => exact along_pure Keeping.refl _
    | cons arg args ih =>
      exact along_bind Keeping.trans (along_get fun s => mkfile_sound u _ _ _) fun _ => ih

theorem rm_keeping (arguments : Str) : Along Keeping (rm arguments) := by
  have hquery : ∀ {α : Type} (ask : FseditCmd → Except FsError α), Along Keeping (query ask) := fun ask s =>
    (query_sameTree ask s).keeping
  unfold rm
  dsimp only
  split_ifs
  · exact print_keeping _
  · exact print_keeping _
  · refine along_get fun s => along_bind Keeping.trans (hquery _) fun found => ?_
    split_ifs
    · exact print_keeping _
    · exact print_keeping _
    · refine along_bind Keeping.trans (hquery _) fun targetObject => along_get fun t => ?_
      split_ifs
      · exact print_keeping _
      · refine along_bind Keeping.trans (hquery _) fun parentObject => ?_
        refine along_bind Keeping.trans (remove_keeping _ _) fun _ => ?_
        exact along_bind Keeping.trans savePickle_keeping fun _ => print_keeping _

/-! ## The checks of `mv` and `cp` -/

/-- What the checks have seen of a target. -/
structure Checked (h : Heap) (x : Ref) (dst : Str) (t : Target) : Prop where
  found : h.getpath t.dstparent = .ok t.directory
  free : h.exists (t.dstparent ++ '/' :: t.dstname) = .ok false
  name : t.dstname = h.name x ∨ t.dstname = lastOf dst

/-- The name is that of the source, or the last part of the path. -/
theorem destination_name {d : Str × Str} (hd : h.destination x dst = .ok d) :
    d.2 = h.name x ∨ d.2 = lastOf dst := by
  have hname : ∀ isDir : Bool, (if isDir then (dst, h.name x) else (parentOf dst, lastOf dst)) = d →
      d.2 = h.name x ∨ d.2 = lastOf dst := by
    rintro isDir rfl
    cases isDir with
    | true => exact .inl rfl
    | false => exact .inr rfl
  simp only [Heap.destination, bind, Except.bind, pure, Except.pure] at hd
  split at hd
  · cases hd
  · next found _ =>
    cases found with
    | false => exact hname false (Except.ok.inj hd)
    | true =>
      rw [if_pos rfl] at hd
      split at hd
      · cases hd
      · exact hname _ (Except.ok.inj hd)

theorem target_checked {taken missing : Str → Str → Str} {t : Target}
    (ht : h.target taken missing x dst = .ok (.ok t)) : Checked h x dst t := by
  simp only [Heap.target, bind, Except.bind, pure, Except.pure] at ht
  split at ht
  · cases ht
  · next d hd =>
    split at ht
    · cases ht
    · next free hfree =>
      split_ifs at ht with hf
      · cases ht
      · split at ht
        · cases ht
        · split_ifs at ht
          · cases ht
          · split at ht
            · cases ht
            · next directory hdirectory =>
              obtain rfl := Except.ok.inj (Except.ok.inj ht)
              exact ⟨hdirectory, by rw [hfree, Bool.eq_false_of_not_eq_true hf], destination_name hd⟩

theorem split_append (a b : Str) : split (a ++ '/' :: b) = split a ++ split b :=
  List.splitOnP_append_cons _ _ (beq_self_eq_true '/')

theorem split_of_no_slash (hname : '/' ∉ name) : split name = [name] :=
  List.splitOnP_eq_singleton fun _ hc => beq_false_of_ne fun heq => hname (heq ▸ hc)

/-- **The name has no slash.** The root cannot be put anywhere under its own name, which is no part of a path. -/
theorem Checked.no_slash {t : Target} (ht : Checked h x dst t) (hw : WellFormed h) (hx : h.getpath src = .ok x) :
    '/' ∉ t.dstname := by
  rcases ht.name with hname | hname
  · by_cases hroot : x = h.root
    · -- `dstparent + "//"` is the directory itself
      have hpath : split (t.dstparent ++ '/' :: t.dstname) = split t.dstparent ++ [[], []] := by
        rw [hname, hroot, hw.rootName, split_append]
        rfl
      have hfree := exists_false ht.free
      unfold Heap.getpath at hfree
      rw [hpath, getpathFrom_append, show h.getpathFrom (split t.dstparent) h.root = _ from ht.found] at hfree
      cases hfree
    · obtain ⟨-, -, -, hslash⟩ := getpath_entry hx hroot
      rwa [hname]
  · rw [hname]
    exact slash_notMem_split (split_parts dst ▸ List.mem_append_right _ List.mem_cons_self)

/-- **The name is free in the directory.** -/
theorem Checked.free_name {t : Target} (ht : Checked h x dst t) (hw : WellFormed h) (hx : h.getpath src = .ok x) :
    h.Holds t.directory ∧ GoodName t.dstname ∧ ∀ y ∈ h.kids t.directory, h.name y ≠ t.dstname := by
  have hpath : split (t.dstparent ++ '/' :: t.dstname) = split t.dstparent ++ [t.dstname] := by
    rw [split_append, split_of_no_slash (ht.no_slash hw hx)]
  exact ⟨holds_getpath ht.found, free_of_exists hpath ht.free ht.found⟩

/-- What the checks of `mv` have seen. -/
structure MvChecked (h : Heap) (src dst : Str) (plan : Plan) : Prop where
  source : h.getpath src = .ok plan.source
  parent : h.getpath (parentOf src) = .ok plan.parent
  target : Checked h plan.source dst plan.toTarget

theorem mvPlan_checked {plan : Plan} (hplan : h.mvPlan src dst = .ok (.ok plan)) : MvChecked h src dst plan := by
  simp only [Heap.mvPlan, bind, Except.bind, pure, Except.pure] at hplan
  split at hplan
  · cases hplan
  · split_ifs at hplan
    · cases hplan
    · split at hplan
      · cases hplan
      · next source hsource =>
        split at hplan
        · cases hplan
        · next parent hparent =>
          split at hplan
          · cases hplan
          · next t ht =>
            cases t with
            | error text => cases hplan
            | ok t =>
              obtain rfl := Except.ok.inj (Except.ok.inj hplan)
              exact ⟨hsource, hparent, target_checked ht⟩

theorem cpPlan_checked {t : Target} (hplan : h.cpPlan src dst = .ok (.ok (x, t))) :
    h.getpath src = .ok x ∧ Checked h x dst t := by
  simp only [Heap.cpPlan, bind, Except.bind, pure, Except.pure] at hplan
  split at hplan
  · cases hplan
  · split_ifs at hplan
    · cases hplan
    · split at hplan
      · cases hplan
      · next source hsource =>
        split at hplan
        · cases hplan
        · next t' ht =>
          cases t' with
          | error text => cases hplan
          | ok t' =>
            obtain ⟨rfl, rfl⟩ := Prod.mk.inj (Except.ok.inj (Except.ok.inj hplan))
            exact ⟨hsource, target_checked ht⟩

/-- The last part of a stripped path is empty only if the path is. -/
theorem lastOf_stripSlash (path : Str) (hlast : lastOf (stripSlash path) = []) : stripSlash path = [] := by
  by_contra hne
  have hsplit := split_parts (stripSlash path)
  rw [hlast] at hsplit
  have hjoin : join (split (stripSlash path)) = stripSlash path := List.intercalate_splitOn '/'
  rw [hsplit] at hjoin
  by_cases hnil : (split (stripSlash path)).dropLast = []
  · rw [hnil] at hjoin
    exact hne hjoin.symm
  · rw [join_append_singleton hnil] at hjoin
    obtain ⟨front, hfront⟩ : stripSlash path <:+ path.rdropWhile (· = '/') := List.dropWhile_suffix _
    rw [← hjoin, ← List.append_assoc] at hfront
    have hne' : path.rdropWhile (· = '/') ≠ [] := by
      rw [← hfront]
      exact List.append_ne_nil_of_right_ne_nil _ (List.cons_ne_nil _ _)
    have hend := List.rdropWhile_last_not _ path hne'
    simp only [← hfront, List.getLast_append_singleton, decide_true, not_true_eq_false] at hend

/-- **The source is an entry of its parent**, or the root. -/
theorem MvChecked.entry {plan : Plan} (hplan : MvChecked h (stripSlash path) dst plan) :
    plan.source = h.root ∧ plan.parent = h.root ∨ plan.source ∈ h.kids plan.parent := by
  have hsource := hplan.source
  have hparent := hplan.parent
  rw [getpath_parentOf] at hparent
  unfold Heap.getpath at hsource
  rw [split_parts, getpathFrom_append, hparent] at hsource
  change h.getpathFrom [lastOf (stripSlash path)] plan.parent = _ at hsource
  rw [Heap.getpathFrom] at hsource
  split_ifs at hsource with hlast
  · refine .inl ?_
    rw [lastOf_stripSlash path hlast] at hparent
    have hroot : plan.parent = h.root := (Except.ok.inj hparent).symm
    exact ⟨(Except.ok.inj hsource).symm.trans hroot, hroot⟩
  · cases hfind : h.find (lastOf (stripSlash path)) plan.parent with
    | error e =>
      rw [hfind] at hsource
      cases hsource
    | ok x =>
      rw [hfind] at hsource
      obtain rfl := Except.ok.inj hsource
      exact .inr (find_ok hfind).1

/-! ## `cp` -/

theorem node_setName (h : Heap) (c : Ref) (name : Str) (x : Ref) :
    (h.setName c name).node x = if x = c then (h.node c).renamed name else h.node x := by
  change Function.update h.node c ((h.node c).renamed name) x = _
  rw [Function.update_apply]

/-- The root of a tree may have any name. -/
theorem TreeAt.setName {low : Ref} (ht : TreeAt h low c) (name : Str) : TreeAt (h.setName c name) low c := by
  have hcontents : ∀ x, ((h.setName c name).node x).contents = (h.node x).contents := fun x => by
    rw [node_setName]
    split_ifs with hx
    · rw [hx]
      rfl
    · rfl
  have hkids : (h.setName c name).objects.kids = h.objects.kids :=
    funext fun x => kids_congr (hcontents x) fun _ _ => rfl
  have hbelow : ∀ x, (h.setName c name).Below c x ↔ h.Below c x := fun x =>
    Objects.reach_congr fun p _ => congrFun hkids p
  refine ⟨ht.tree.relabel hkids (fun y hy => ?_) fun p hp hmem => absurd hmem (ht.tree.orphan hp),
    fun x y l hx hy hxl hyl => ?_, fun x hx => ht.used x ((hbelow x).mp hx), fun x l hx hl => ?_⟩
  · exact congrArg Node.name (by rw [node_setName, if_neg hy])
  · rw [hcontents] at hxl hyl
    exact ht.own x y l ((hbelow x).mp hx) ((hbelow y).mp hy) hxl hyl
  · rw [hcontents] at hl
    exact ht.usedList x l ((hbelow x).mp hx) hl

/-- **A copy** is put under a name that is free, wherever that is. -/
theorem copy_sound (hs : Sound s) {t : Target} (hx : s.fs.getpath src = .ok x) (ht : Checked s.fs x dst t) :
    Sound (exec (copy x t) s).2 := by
  obtain ⟨hq, hgood, hnew⟩ := ht.free_name hs.fs hx
  unfold copy
  refine keeping_query (fun ck hcopy _ => ?_) hs
  obtain ⟨c, k⟩ := ck
  obtain ⟨hlater, htree, -⟩ := deepcopyAt_spec hs.fs (holds_getpath hx) (Extends.refl s.fs) hcopy
  have hnode : (k.setName c t.dstname).node c = (k.node c).renamed t.dstname := by rw [node_setName, if_pos rfl]
  have hname : (k.setName c t.dstname).name c = t.dstname := congrArg Node.name hnode
  have hc : s.fs.next ≤ c := (htree.used c (Objects.Reach.refl _ _)).1
  unfold edit
  change Sound (exec (modify _ >>= fun _ => append t.directory c) s).2
  rw [exec_modify_bind]
  have hgood : GoodName ((k.setName c t.dstname).name c) := by rwa [hname]
  exact append_sound hs.fs hs.image hs.pwd (hlater.setName hc t.dstname) (htree.setName t.dstname) hq hgood
    fun y hy heq => hnew y hy (heq.trans hname)

theorem cp_keeping (arguments : Str) : Along Keeping (cp arguments) := by
  unfold cp
  split
  · refine along_get fun s₀ s => ?_
    refine keeping_query fun plan hplan hs => ?_
    cases plan with
    | error text => exact print_keeping text s hs
    | ok plan =>
      obtain ⟨hx, ht⟩ := cpPlan_checked hplan
      refine Sound.bind (copy_sound hs hx ht) fun _ => ?_
      exact along_bind Keeping.trans savePickle_keeping fun _ => print_keeping _
  · exact print_keeping _

end Cowrie.Scripts.Fsctl
