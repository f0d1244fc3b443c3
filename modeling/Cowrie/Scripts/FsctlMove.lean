import Cowrie.Scripts.FsctlRun

/-!
# What `mv` does to the tree (`src/cowrie/scripts/fsctl.py:531-589`)

`mv` puts a copy of the node that has the same list in the new place, and removes the node from the list of its
parent. Its checks do not ask whether the new place is below the node.

* `exec_mv`: the checks fail and the tree is not touched, or `mv` moves what they have seen.
* `exec_move`: the copy takes the place of the source, unless there is no list to append it to.
* `mv_kept`: if the directory is not below the source, the tree is well-formed again and has the nodes that it had,
  but for the name of the one that has moved.
* `not_kept`: if it is the source or below, all that hangs there is lost. The root, which `//` gets past the check,
  is an entry of no list, so that its copy becomes one of itself (`root_lost`).
* **`tree_kept_iff`**: a run keeps the tree and what `mv` has to keep, iff no such `mv` passes its checks in it.
* `subtree_lost`: `mv /a /a/b`.
-/

namespace Cowrie.Scripts.Fsctl

open Cowrie.Lib
open Shell (Digits)
open Shell.Fs (Str Ref NodeType FsError stripSlash)

/-- The move that the arguments ask for, if the checks pass. -/
def mvPlanOf (s : FseditCmd) (arguments : Str) : Option Plan :=
  match words arguments with
  | [arg0, arg1] =>
    if resolveReference s.pwd arg0 = ['/'] then none
    else
      match s.fs.mvPlan (stripSlash (resolveReference s.pwd arg0)) (stripSlash (resolveReference s.pwd arg1)) with
      | .ok (.ok plan) => some plan
      | _ => none
  | _ => none

/-- The nodes in `t` are those in `s`, but for the name of the one that `mv` has moved. -/
def Preserved (s t : FseditCmd) (arguments : Str) : Prop :=
  t.fs.nodes = s.fs.nodes ∨
    ∃ plan, mvPlanOf s arguments = some plan ∧
      t.fs.nodes + {(s.fs.node plan.source).attributes} =
        s.fs.nodes + {((s.fs.node plan.source).renamed plan.dstname).attributes}

/-- **What a command should do**: the tree in memory and the one in the file are well-formed after it, and an `mv`
has kept the nodes. -/
def Kept (u : Digits) (s : FseditCmd) (c : Command) : Prop :=
  let t := (exec (onecmd u c) s).2
  WellFormed t.fs ∧ WellFormed t.image ∧ ∀ arguments, c = .mv arguments → Preserved s t arguments

/-- Not an `mv` that passes its checks and whose directory, which has a list, is the source or below it. -/
def Apart (s : FseditCmd) (c : Command) : Prop :=
  ∀ arguments plan l, c = .mv arguments → mvPlanOf s arguments = some plan →
    (s.fs.node plan.directory).contents = .list l → ¬ s.fs.Below plan.source plan.directory

variable {s t : FseditCmd} {h g : Heap} {x y p q c l m : Ref} {plan : Plan} {arguments : Str}

/-! ## The checks -/

/-- What the checks of `mv` have seen. -/
structure Planned (h : Heap) (plan : Plan) : Prop where
  parent : h.Holds plan.parent
  entry : plan.source = h.root ∧ plan.parent = h.root ∨ plan.source ∈ h.kids plan.parent
  directory : h.Holds plan.directory
  name : plan.dstname ≠ []
  no_slash : '/' ∉ plan.dstname
  free : ∀ y ∈ h.kids plan.directory, h.name y ≠ plan.dstname

theorem MvChecked.planned {path dst : Str} (hw : WellFormed h) (hplan : MvChecked h (stripSlash path) dst plan) :
    Planned h plan := by
  obtain ⟨hdirectory, hname, hfree⟩ := hplan.target.free_name hw hplan.source
  exact
    { parent := holds_getpath hplan.parent
      entry := hplan.entry
      directory := hdirectory
      name := hname
      no_slash := hplan.target.no_slash hw hplan.source
      free := hfree }

/-- `mv` of two words. -/
theorem exec_mv_words {arg0 arg1 : Str} (hwords : words arguments = [arg0, arg1])
    (hroot : resolveReference s.pwd arg0 ≠ ['/']) :
    exec (mv arguments) s =
      match s.fs.mvPlan (stripSlash (resolveReference s.pwd arg0)) (stripSlash (resolveReference s.pwd arg1)) with
      | .error e => (.error e, s)
      | .ok (.error text) => exec (print text) s
      | .ok (.ok plan) =>
        exec (do
          when (stripSlash (resolveReference s.pwd arg0) = s.pwd) do cd "..".toList
          move plan
          savePickle
          print ("File moved from /".toList ++ stripSlash (resolveReference s.pwd arg0) ++ " to /".toList ++
            stripSlash (resolveReference s.pwd arg1))) s := by
  unfold mv
  rw [hwords]
  simp only
  rw [exec_get_bind, if_neg hroot, exec_bind, exec_query]
  cases s.fs.mvPlan (stripSlash (resolveReference s.pwd arg0)) (stripSlash (resolveReference s.pwd arg1)) with
  | error e => rfl
  | ok plan =>
    cases plan with
    | error text => rfl
    | ok plan => rfl

/-- **`mv`**: its checks fail and it touches nothing, or it does what they have planned. -/
theorem exec_mv (hs : Sound s) (arguments : Str) :
    mvPlanOf s arguments = none ∧ SameTree s (exec (mv arguments) s).2 ∨
      ∃ plan text, mvPlanOf s arguments = some plan ∧ Planned s.fs plan ∧
        exec (mv arguments) s = exec (do move plan; savePickle; print text) s := by
  by_cases hwords : ∃ arg0 arg1, words arguments = [arg0, arg1]
  · obtain ⟨arg0, arg1, hwords⟩ := hwords
    by_cases hroot : resolveReference s.pwd arg0 = ['/']
    · refine .inl ⟨by rw [mvPlanOf, hwords]; exact if_pos hroot, ?_⟩
      unfold mv
      rw [hwords]
      simp only
      rw [exec_get_bind, if_pos hroot]
      exact print_sameTree _ s
    · rw [mvPlanOf, hwords, exec_mv_words hwords hroot]
      simp only [if_neg hroot]
      -- the working directory is absolute, which a stripped path is not
      have hpwd : stripSlash (resolveReference s.pwd arg0) ≠ s.pwd := fun heq =>
        not_absolute_stripSlash _ (heq ▸ hs.pwd)
      rw [when_false hpwd]
      cases hplan : s.fs.mvPlan (stripSlash (resolveReference s.pwd arg0))
          (stripSlash (resolveReference s.pwd arg1)) with
      | error e => exact .inl ⟨rfl, SameTree.refl s⟩
      | ok plan =>
        cases plan with
        | error text => exact .inl ⟨rfl, print_sameTree text s⟩
        | ok plan => exact .inr ⟨plan, _, rfl, (mvPlan_checked hplan).planned hs.fs, rfl⟩
  · have hnone : mvPlanOf s arguments = none := by
      unfold mvPlanOf
      split
      · next arg0 arg1 heq => exact absurd ⟨arg0, arg1, heq⟩ hwords
      · rfl
    have husage : mv arguments = print "Usage: mv <source> <destination>".toList := by
      unfold mv
      split
      · next arg0 arg1 heq => exact absurd ⟨arg0, arg1, heq⟩ hwords
      · rfl
    exact .inl ⟨hnone, husage ▸ print_sameTree _ s⟩

/-! ## The move -/

/-- A copy of `x` has been appended to the list `l`. -/
def Heap.copied (h : Heap) (x l : Ref) (name : Str) : Heap :=
  (h.alloc ((h.node x).renamed name)).setEntries l (h.entries l ++ [h.next])

theorem exec_append (hl : (s.fs.node q).contents = .list l) (c : Ref) :
    exec (append q c) s = (.ok (), { s with fs := s.fs.setEntries l (s.fs.entries l ++ [c]) }) := by
  unfold append
  rw [exec_get_bind, hl]
  rfl

theorem exec_append_bytes {data : Bytes} (hq : (s.fs.node q).contents = .bytes data) (c : Ref) :
    exec (append q c) s = (.error .attributeError, s) := by
  unfold append
  rw [exec_get_bind, hq]
  rfl

theorem exec_remove {xs : List Ref} (hl : (s.fs.node p).contents = .list l)
    (hremove : s.fs.listRemove x (s.fs.entries l) = .ok xs) :
    exec (remove p x) s = (.ok (), { s with fs := s.fs.setEntries l xs }) := by
  have hquery : exec (query fun s : FseditCmd => s.fs.listRemove x (s.fs.entries l)) s = (.ok xs, s) := by
    rw [exec_query, hremove]
  unfold remove
  rw [exec_get_bind, hl]
  exact exec_bind_ok hquery

theorem exec_remove_error {e : FsError} (hl : (s.fs.node p).contents = .list l)
    (hremove : s.fs.listRemove x (s.fs.entries l) = .error e) : exec (remove p x) s = (.error e, s) := by
  have hquery : exec (query fun s : FseditCmd => s.fs.listRemove x (s.fs.entries l)) s = (.error e, s) := by
    rw [exec_query, hremove]
  unfold remove
  rw [exec_get_bind, hl]
  exact exec_bind_error hquery

/-- The first half of a move. -/
theorem exec_move_copy (hw : WellFormed s.fs) (hq : s.fs.Holds plan.directory)
    (hl : (s.fs.node plan.directory).contents = .list l) :
    exec (move plan) s =
      exec (remove plan.parent plan.source) { s with fs := s.fs.copied plan.source l plan.dstname } := by
  have hold := (extends_alloc s.fs ((s.fs.node plan.source).renamed plan.dstname)).node _ (hw.tree.used _ hq).2
  unfold move edit
  rw [exec_get_bind, exec_modify_bind]
  exact exec_bind_ok (exec_append (hold ▸ hl) _)

/-- There is no list to append to. -/
theorem exec_move_bytes (hw : WellFormed s.fs) (hq : s.fs.Holds plan.directory) {data : Bytes}
    (hdata : (s.fs.node plan.directory).contents = .bytes data) :
    exec (move plan) s =
      (.error .attributeError, { s with fs := s.fs.alloc ((s.fs.node plan.source).renamed plan.dstname) }) := by
  have hold := (extends_alloc s.fs ((s.fs.node plan.source).renamed plan.dstname)).node _ (hw.tree.used _ hq).2
  unfold move edit
  rw [exec_get_bind, exec_modify_bind]
  exact exec_bind_error (exec_append_bytes (hold ▸ hdata) _)

theorem node_copied (hw : WellFormed h) (hy : h.Holds y) (x l : Ref) (name : Str) :
    (h.copied x l name).node y = h.node y := (extends_alloc h _).node y (hw.tree.used y hy).2

/-- The list `l` is that of `q`. -/
theorem kids_copied (hw : WellFormed h) (hq : h.Holds q) (hl : (h.node q).contents = .list l) (hy : h.Holds y)
    (x : Ref) (name : Str) :
    (h.copied x l name).kids y = if y = q then h.kids q ++ [h.next] else h.kids y := by
  have hnode := node_copied hw hy x l name
  split_ifs with hyq
  · subst hyq
    rw [kids_list (hnode ▸ hl), kids_list hl]
    exact Function.update_self _ _ _
  · refine kids_congr (by rw [hnode]) fun n hn => Function.update_of_ne ?_ _ _
    rintro rfl
    exact hyq (hw.tree.own y q n hy hq hn hl)

/-- Where the entry `x` is removed from a list, it is that entry. -/
theorem listRemove_entry (hw : WellFormed h) (hp : h.Holds p) (hx : x ∈ h.kids p) (hname : g.name x = h.name x)
    (hnames : ∀ y ∈ h.kids p, g.name y = h.name y) (rest : List Ref) :
    g.listRemove x (h.kids p ++ rest) = .ok ((h.kids p ++ rest).erase x) := by
  obtain ⟨pre, post, hsplit⟩ := List.append_of_mem hx
  have hnodup := hw.tree.tree.names p hp
  change ((h.kids p).map h.name).Nodup at hnodup
  rw [hsplit, List.map_append, List.map_cons, List.nodup_append] at hnodup
  have hpre : ∀ y ∈ pre, h.name y ≠ h.name x := fun y hy =>
    hnodup.2.2 _ (List.mem_map_of_mem hy) _ List.mem_cons_self
  have hnotin : x ∉ pre := fun hmem => hpre x hmem rfl
  rw [hsplit, List.append_assoc, List.cons_append, listRemove_self, List.erase_append_right _ hnotin,
    List.erase_cons_head]
  intro y hy
  rw [hname, hnames y (hsplit ▸ List.mem_append_left _ hy)]
  exact hpre y hy

/-- **What a move does**: the copy takes the place of the source. -/
theorem exec_move (hw : WellFormed s.fs) (hp : s.fs.Holds plan.parent) (hx : plan.source ∈ s.fs.kids plan.parent)
    (hq : s.fs.Holds plan.directory) (hl : (s.fs.node plan.directory).contents = .list l) :
    ∃ m, (s.fs.node plan.parent).contents = .list m ∧
      exec (move plan) s = (.ok (), { s with fs := s.fs.moved plan.source l m plan.dstname }) := by
  cases hm : (s.fs.node plan.parent).contents with
  | bytes data =>
    unfold Heap.kids at hx
    rw [hm] at hx
    cases hx
  | list m =>
    refine ⟨m, rfl, ?_⟩
    let g := s.fs.copied plan.source l plan.dstname
    have hnode : ∀ y, s.fs.Holds y → g.node y = s.fs.node y := fun y hy => node_copied hw hy _ _ _
    have hname : ∀ y, s.fs.Holds y → g.name y = s.fs.name y := fun y hy => congrArg Node.name (hnode y hy)
    have hgm : (g.node plan.parent).contents = .list m := hnode _ hp ▸ hm
    obtain ⟨rest, hrest⟩ : ∃ rest, g.entries m = s.fs.kids plan.parent ++ rest := by
      rw [← kids_list hgm, kids_copied hw hq hl hp]
      split_ifs with hpq
      · exact ⟨[s.fs.next], by rw [hpq]⟩
      · exact ⟨[], (List.append_nil _).symm⟩
    have hremove : g.listRemove plan.source (g.entries m) = .ok ((g.entries m).erase plan.source) := by
      rw [hrest]
      exact listRemove_entry hw hp hx (hname _ (Objects.Reach.tail hp hx))
        (fun y hy => hname y (Objects.Reach.tail hp hy)) rest
    rw [exec_move_copy hw hq hl]
    exact exec_remove hgm hremove

/-! ## A directory that is apart -/

/-- What comes after the move. -/
theorem exec_finish (text : Str) (hmove : exec (move plan) s = (.ok (), t)) :
    (exec (do move plan; savePickle; print text) s).2 =
      { t with image := t.fs, printed := t.printed ++ [text] } := by
  rw [exec_bind_ok hmove]
  rfl

theorem exec_finish_error (text : Str) {e : FsError} (hmove : exec (move plan) s = (.error e, t)) :
    (exec (do move plan; savePickle; print text) s).2 = t := by rw [exec_bind_error hmove]

/-- **`mv` keeps the tree and the nodes.** -/
theorem mv_kept (hs : Sound s) (hapart : Apart s (.mv arguments)) :
    Sound (exec (mv arguments) s).2 ∧ Preserved s (exec (mv arguments) s).2 arguments := by
  rcases exec_mv hs arguments with ⟨-, hsame⟩ | ⟨plan, text, hplan, hplanned, hexec⟩
  · exact ⟨hsame.keeping hs, .inl (by rw [hsame.1])⟩
  · rw [hexec]
    have hq := hplanned.directory
    cases hl : (s.fs.node plan.directory).contents with
    | bytes data =>
      have hext := extends_alloc s.fs ((s.fs.node plan.source).renamed plan.dstname)
      rw [exec_finish_error text (exec_move_bytes hs.fs hq hl)]
      exact ⟨⟨hext.wellFormed hs.fs, hs.image, hs.pwd⟩, .inl ((hext.keeps hs.fs.tree).nodes hs.fs hext.root)⟩
    | list l =>
      have hbelow := hapart arguments plan l rfl hplan hl
      rcases hplanned.entry with ⟨hroot, -⟩ | hx
      · exact absurd (hroot ▸ hq) hbelow
      · obtain ⟨m, hm, hmove⟩ := exec_move hs.fs hplanned.parent hx hq hl
        have hmoved := hs.fs.moved hplanned.parent hx hm hq hl hbelow hplanned.name hplanned.free
        rw [exec_finish text hmove]
        exact ⟨⟨hmoved, hmoved, hs.pwd⟩,
          .inr ⟨plan, hplan, nodes_moved hs.fs hplanned.parent hx hm hq hl hbelow plan.dstname⟩⟩

/-! ## A directory that is the source or below it -/

theorem card_nodes {S : Finset Ref} (hS : ∀ x, x ∈ S ↔ h.Holds x) : h.nodes.card = S.card := by
  rw [nodes_eq hS, Multiset.card_map]
  rfl

open Classical in
/-- **Nodes are lost** where an entry has been dropped and nothing else has changed in what is left. -/
theorem fewer_nodes (hw : WellFormed h) (hp : h.Holds p) (hx : x ∈ h.kids p) (hroot : g.root = h.root)
    (hkids : ∀ a, (h.objects.detach p x).Reach h.root a → g.kids a = (h.objects.detach p x).kids a) :
    g.nodes.card < h.nodes.card := by
  have hd := Objects.detached_detach h.objects p x
  have hS : ∀ y, y ∈ hw.tree.tree.finite.toFinset ↔ h.Holds y := fun y => Set.Finite.mem_toFinset _
  generalize hw.tree.tree.finite.toFinset = S at hS
  have hholds : ∀ y, g.Holds y ↔ (h.objects.detach p x).Reach h.root y := fun y => by
    unfold Heap.Holds
    rw [hroot]
    exact Objects.reach_congr hkids
  have hS' : ∀ y, y ∈ S.filter g.Holds ↔ g.Holds y := fun y => by
    rw [Finset.mem_filter, hS, and_iff_right_iff_imp, hholds]
    exact hd.reach
  rw [card_nodes hS, card_nodes hS']
  refine Finset.card_lt_card (Finset.filter_ssubset.mpr ⟨x, (hS x).mpr (Objects.Reach.tail hp hx), ?_⟩)
  rw [hholds]
  exact fun hback => hd.not_reach hw.tree.tree hp hx hback (Objects.Reach.refl _ _)

theorem not_preserved (hfewer : t.fs.nodes.card < s.fs.nodes.card) : ¬ Preserved s t arguments := by
  rintro (hsame | ⟨plan, -, hmoved⟩)
  · rw [hsame] at hfewer
    exact Nat.lt_irrefl _ hfewer
  · have hcard := congrArg Multiset.card hmoved
    rw [Multiset.card_add, Multiset.card_add, Multiset.card_singleton, Multiset.card_singleton] at hcard
    exact Nat.ne_of_lt hfewer (Nat.succ.inj hcard)

/-- An entry of the tree that has the entries of the root. -/
theorem cyclic (hq : g.Holds q) (hc : c ∈ g.kids q) (hkids : g.kids c = g.kids g.root) : ¬ WellFormed g := by
  intro hw
  refine hw.tree.tree.acyclic c (Objects.Reach.tail hq hc) ?_
  rcases Relation.ReflTransGen.cases_head hq with heq | ⟨k, hk, hreach⟩
  · refine Relation.TransGen.single ?_
    change c ∈ g.kids c
    rwa [hkids, heq]
  · refine Relation.TransGen.head' (b := k) ?_ (hreach.tail hc)
    change k ∈ g.kids c
    rwa [hkids]

/-- The entries when the list `m` of `p` has become `xs`. -/
theorem kids_removed (hw : WellFormed h) (hp : h.Holds p) (hm : (h.node p).contents = .list m) (hq : h.Holds q)
    (hl : (h.node q).contents = .list l) (hy : h.Holds y) (x : Ref) (name : Str) (xs : List Ref) :
    ((h.copied x l name).setEntries m xs).kids y =
      if y = p then xs else if y = q then h.kids q ++ [h.next] else h.kids y := by
  have hlist : ((h.copied x l name).node y).contents = .list m ↔ y = p := by
    rw [node_copied hw hy]
    constructor
    · exact fun hym => hw.tree.own y p m hy hp hym hm
    · exact fun hyp => hyp ▸ hm
  rw [kids_setEntries, kids_copied hw hq hl hy]
  by_cases hyp : y = p
  · rw [if_pos (hlist.mpr hyp), if_pos hyp]
  · rw [if_neg (mt hlist.mp hyp), if_neg hyp]

/-- What was below an entry is lost if the copy is put there. -/
theorem fewer_nodes_below (hw : WellFormed h) (hp : h.Holds p) (hx : x ∈ h.kids p)
    (hm : (h.node p).contents = .list m) (hq : h.Holds q) (hl : (h.node q).contents = .list l) (hbelow : h.Below x q)
    (z : Ref) (name : Str) :
    ((h.copied z l name).setEntries m ((h.kids p).erase x)).nodes.card < h.nodes.card := by
  have hd := Objects.detached_detach h.objects p x
  refine fewer_nodes hw hp hx rfl fun a ha => ?_
  have haq : a ≠ q := fun heq => hd.not_reach hw.tree.tree hp hx ha (heq ▸ hbelow)
  rw [kids_removed hw hp hm hq hl (hd.reach ha)]
  by_cases hap : a = p
  · rw [if_pos hap, hap, hd.at_p]
    rfl
  · rw [if_neg hap, if_neg haq, hd.elsewhere a hap]
    rfl

/-- What `remove` has removed. -/
theorem listRemove_ok {xs ys : List Ref} (hremove : h.listRemove x xs = .ok ys) :
    ∃ y pre post, xs = pre ++ y :: post ∧ ys = pre ++ post ∧ h.name y = h.name x := by
  induction xs generalizing ys with
  | nil => cases hremove
  | cons y xs ih =>
    rw [Heap.listRemove] at hremove
    split at hremove
    · cases hremove
    · next heq =>
      refine ⟨y, [], xs, rfl, (Except.ok.inj hremove).symm, ?_⟩
      by_contra hname
      rw [equalAt_of_name _ hname] at heq
      cases heq
    · cases hrest : h.listRemove x xs with
      | error e =>
        rw [hrest] at hremove
        cases hremove
      | ok zs =>
        rw [hrest] at hremove
        obtain rfl := Except.ok.inj hremove
        obtain ⟨z, pre, post, rfl, rfl, hname⟩ := ih hrest
        exact ⟨z, y :: pre, post, rfl, rfl, hname⟩

/-- The copy of the root has the entries of the root. -/
theorem kids_copy_root (hw : WellFormed h) (l m : Ref) (name : Str) (xs : List Ref) :
    ((h.copied h.root l name).setEntries m xs).kids h.next =
      ((h.copied h.root l name).setEntries m xs).kids h.root := by
  have hroot := node_copied hw (Objects.Reach.refl _ h.root : h.Holds h.root) h.root l name
  have hcopy : (h.copied h.root l name).node h.next = (h.node h.root).renamed name :=
    (node_alloc h _ _).trans (if_pos rfl)
  refine kids_congr ?_ fun _ _ => rfl
  change ((h.copied h.root l name).node h.next).contents = ((h.copied h.root l name).node h.root).contents
  rw [hroot, hcopy]
  rfl

theorem root_list (hq : h.Holds q) (hl : (h.node q).contents = .list l) :
    ∃ m, (h.node h.root).contents = .list m := by
  rcases Relation.ReflTransGen.cases_head hq with heq | ⟨k, hk, -⟩
  · exact ⟨l, heq ▸ hl⟩
  · change k ∈ h.kids h.root at hk
    unfold Heap.kids at hk
    cases hm : (h.node h.root).contents with
    | list m => exact ⟨m, rfl⟩
    | bytes data =>
      rw [hm] at hk
      cases hk

/-- The directory is still in the tree, and so the copy is an entry of itself or below one. -/
theorem root_cyclic (hw : WellFormed h) (hm : (h.node h.root).contents = .list m) (hq : h.Holds q)
    (hl : (h.node q).contents = .list l) {o : Objects Ref Str} {xs : List Ref} {name : Str}
    (hsub : ∀ a, ∀ b ∈ o.kids a, b ∈ h.kids a) (hreach : o.Reach h.root q) (hxs : ∀ b ∈ o.kids h.root, b ∈ xs)
    (hcopy : h.root = q → h.next ∈ xs) : ¬ WellFormed ((h.copied h.root l name).setEntries m xs) := by
  have hself : h.Holds h.root := Objects.Reach.refl _ _
  have hholds : ∀ {a}, o.Reach h.root a → h.Holds a := fun ha => Objects.Reach.mono (fun b _ _ => hsub b) ha
  refine cyclic (q := q) (c := h.next) ?_ ?_ (kids_copy_root hw l m name xs)
  · refine Objects.Reach.mono (fun a ha _ b hb => ?_) hreach
    change b ∈ ((h.copied h.root l name).setEntries m xs).kids a
    rw [kids_removed hw hself hm hq hl (hholds ha)]
    split_ifs with haroot haq
    · subst haroot
      exact hxs b hb
    · exact List.mem_append_left _ (haq ▸ hsub a b hb)
    · exact hsub a b hb
  · rw [kids_removed hw hself hm hq hl hq, if_pos rfl]
    split_ifs with hroot
    · exact hcopy hroot.symm
    · exact List.mem_append_right _ List.mem_cons_self

/-- **The root** is an entry of no directory: its copy comes below itself, or another entry is removed and takes it
along. -/
theorem root_lost (hw : WellFormed s.fs) (hplanned : Planned s.fs plan) (hsource : plan.source = s.fs.root)
    (hparent : plan.parent = s.fs.root) (hl : (s.fs.node plan.directory).contents = .list l) (text : Str) :
    let t := (exec (do move plan; savePickle; print text) s).2
    ¬ WellFormed t.fs ∨ t.fs.nodes.card < s.fs.nodes.card := by
  have hq := hplanned.directory
  obtain ⟨m, hm⟩ := root_list hq hl
  have hself : s.fs.Holds s.fs.root := Objects.Reach.refl _ _
  let g := s.fs.copied s.fs.root l plan.dstname
  have hgm : (g.node s.fs.root).contents = .list m := node_copied hw hself _ _ _ ▸ hm
  have hgkids : g.entries m = if s.fs.root = plan.directory then s.fs.kids plan.directory ++ [s.fs.next]
      else s.fs.kids s.fs.root := by rw [← kids_list hgm, kids_copied hw hq hl hself]
  have hold : ∀ b ∈ s.fs.kids s.fs.root, b ∈ g.entries m := fun b hb => by
    rw [hgkids]
    split_ifs with hroot
    · exact List.mem_append_left _ (hroot ▸ hb)
    · exact hb
  have hcopied : s.fs.root = plan.directory → s.fs.next ∈ g.entries m := fun heq => by
    rw [hgkids, if_pos heq]
    exact List.mem_append_right _ List.mem_cons_self
  have hmove := exec_move_copy hw hq hl
  rw [hparent, hsource] at hmove
  cases hremove : g.listRemove s.fs.root (g.entries m) with
  | error e =>
    rw [exec_finish_error text (hmove.trans (exec_remove_error hgm hremove))]
    have hsame : g.setEntries m (g.entries m) = g := by
      unfold Heap.setEntries
      rw [Function.update_eq_self]
    left
    change ¬ WellFormed g
    rw [← hsame]
    exact root_cyclic hw hm hq hl (fun _ _ hb => hb) hq hold hcopied
  | ok xs =>
    rw [exec_finish text (hmove.trans (exec_remove hgm hremove))]
    obtain ⟨y, pre, post, hsplit, rfl, hname⟩ := listRemove_ok hremove
    have hrest : ∀ b ∈ g.entries m, b ≠ y → b ∈ pre ++ post := fun b hb hby => by
      rw [hsplit, List.mem_append, List.mem_cons] at hb
      exact List.mem_append.mpr (hb.imp_right fun hb => hb.resolve_left hby)
    -- what is removed has the name of the root, which the copy has not
    have hcopy : s.fs.next ≠ y := by
      rintro rfl
      have hnext : g.name s.fs.next = plan.dstname := congrArg Node.name ((node_alloc s.fs _ _).trans (if_pos rfl))
      have hrootname : g.name s.fs.root = ['/'] := (congrArg Node.name (node_copied hw hself _ _ _)).trans hw.rootName
      refine hplanned.no_slash ?_
      rw [← hnext, hname, hrootname]
      exact List.mem_cons_self
    have hy : y ∈ s.fs.kids s.fs.root := by
      have hmem : y ∈ g.entries m := hsplit ▸ List.mem_append_right _ List.mem_cons_self
      rw [hgkids] at hmem
      split_ifs at hmem with hroot
      · rw [List.mem_append, List.mem_singleton] at hmem
        exact hroot ▸ hmem.resolve_right (Ne.symm hcopy)
      · exact hmem
    have hd := Objects.detached_detach s.fs.objects s.fs.root y
    have hnodup : (s.fs.kids s.fs.root).Nodup := hw.tree.tree.once _ hself
    by_cases hbelow : s.fs.Below y plan.directory
    · right
      have hroot : s.fs.root ≠ plan.directory := fun heq =>
        hw.tree.tree.not_reach_parent hself hy (heq ▸ hbelow)
      rw [if_neg hroot] at hgkids
      have herase : pre ++ post = (s.fs.kids s.fs.root).erase y := by
        rw [← hgkids, hsplit] at hnodup ⊢
        have hpre : y ∉ pre := fun hmem => (List.nodup_append.mp hnodup).2.2 y hmem y List.mem_cons_self rfl
        rw [List.erase_append_right _ hpre, List.erase_cons_head]
      rw [herase]
      exact fewer_nodes_below hw hself hy hm hq hl hbelow _ _
    · left
      refine root_cyclic hw hm hq hl (fun a b hb => (hd.sublist a).subset hb) (hd.reach_else hq hbelow)
        (fun b hb => ?_) fun heq => hrest _ (hcopied heq) hcopy
      rw [hd.at_p] at hb
      obtain ⟨hby, hb⟩ := hnodup.mem_erase_iff.mp hb
      exact hrest b (hold b hb) hby

/-- **It breaks the tree or loses nodes.** -/
theorem not_kept (u : Digits) (hs : Sound s) (hplan : mvPlanOf s arguments = some plan)
    (hl : (s.fs.node plan.directory).contents = .list l) (hbelow : s.fs.Below plan.source plan.directory) :
    ¬ Kept u s (.mv arguments) := by
  intro hkept
  change WellFormed (exec (mv arguments) s).2.fs ∧ _ at hkept
  obtain ⟨hw, -, hpreserved⟩ := hkept
  have hpreserved : Preserved s (exec (mv arguments) s).2 arguments := hpreserved arguments rfl
  rcases exec_mv hs arguments with ⟨hnone, -⟩ | ⟨plan', text, hplan', hplanned, hexec⟩
  · rw [hnone] at hplan
    cases hplan
  · obtain rfl : plan' = plan := Option.some.inj (hplan'.symm.trans hplan)
    rw [hexec] at hw hpreserved
    rcases hplanned.entry with ⟨hsource, hparent⟩ | hx
    · rcases root_lost hs.fs hplanned hsource hparent hl text with hbroken | hfewer
      · exact hbroken hw
      · exact not_preserved hfewer hpreserved
    · obtain ⟨m, hm, hmove⟩ := exec_move hs.fs hplanned.parent hx hplanned.directory hl
      rw [exec_finish text hmove] at hpreserved
      refine not_preserved ?_ hpreserved
      -- the directory is not the parent, whose list is all that is left of the two
      have hne : plan'.parent ≠ plan'.directory := fun heq =>
        hs.fs.tree.tree.not_reach_parent hplanned.parent hx (heq ▸ hbelow)
      have hentries : (s.fs.copied plan'.source l plan'.dstname).entries m = s.fs.kids plan'.parent := by
        rw [← kids_list (node_copied hs.fs hplanned.parent _ _ _ ▸ hm),
          kids_copied hs.fs hplanned.directory hl hplanned.parent, if_neg hne]
      have hfewer := fewer_nodes_below hs.fs hplanned.parent hx hm hplanned.directory hl hbelow plan'.source
        plan'.dstname
      rwa [← hentries] at hfewer

/-! ## Runs -/

theorem onecmd_sound (u : Digits) (hs : Sound s) {c : Command} (hapart : Apart s c) :
    Sound (exec (onecmd u c) s).2 := by
  cases c with
  | touch arguments => exact touch_keeping u arguments s hs
  | mkdir arguments => exact mkdir_keeping u arguments s hs
  | rm arguments => exact rm_keeping arguments s hs
  | mv arguments => exact (mv_kept hs hapart).1
  | cp arguments => exact cp_keeping arguments s hs
  | cd arguments => exact (cd_sameTree arguments s).keeping hs

/-- One command. -/
theorem apart_iff_kept (u : Digits) (hs : Sound s) (c : Command) : Apart s c ↔ Kept u s c := by
  constructor
  · intro hapart
    have hsound := onecmd_sound u hs hapart
    refine ⟨hsound.fs, hsound.image, fun arguments hc => ?_⟩
    subst hc
    exact (mv_kept hs hapart).2
  · rintro hkept arguments plan l rfl hplan hl hbelow
    exact not_kept u hs hplan hl hbelow hkept

/-- `fseditCmd` on a pickle file. -/
def opened (h : Heap) (clock : Nat → ℚ) : FseditCmd := { fs := h, image := h, clock }

theorem opened_sound (hw : WellFormed h) (clock : Nat → ℚ) : Sound (opened h clock) := ⟨hw, hw, rfl⟩

/-- **The tree stays well-formed and `mv` keeps the nodes**, exactly as long as no `mv` that passes its checks moves
a node to itself or below. -/
theorem tree_kept_iff (u : Digits) (hw : WellFormed h) (clock : Nat → ℚ) (cs : List Command) :
    StepsMeet (step u) (Kept u) (opened h clock) cs ↔ StepsMeet (step u) Apart (opened h clock) cs := by
  have hstep : ∀ s c t, Sound s → Apart s c → step u s c = some t → Sound t := fun s c t hs hapart ht =>
    Option.some.inj ht ▸ onecmd_sound u hs hapart
  exact (stepsMeet_iff_of_inv hstep (fun s c hs => apart_iff_kept u hs c) (opened_sound hw clock)).symm

/-- A root with the directory `a`. -/
def oneDirectory : Heap where
  node x :=
    { name := if x = 0 then ['/'] else ['a']
      type := .dir
      uid := 0
      gid := 0
      size := 4096
      mode := 16877
      ctime := 0
      contents := .list x }
  entries l := if l = 0 then [1] else []
  root := 0
  next := 2
  limit := 1000

theorem oneDirectory_below (hy : oneDirectory.Below 1 y) : y = 1 := by
  rcases Relation.ReflTransGen.cases_head hy with heq | ⟨k, hk, -⟩
  · exact heq.symm
  · cases hk

theorem oneDirectory_holds (hy : oneDirectory.Holds y) : y = 0 ∨ y = 1 := by
  rcases Relation.ReflTransGen.cases_head hy with heq | ⟨k, hk, hreach⟩
  · exact .inl heq.symm
  · obtain rfl := List.mem_singleton.mp hk
    exact .inr (oneDirectory_below hreach)

theorem oneDirectory_wellFormed : WellFormed oneDirectory := by
  have htree : oneDirectory.objects.IsTree GoodName 0 := by
    apply Objects.IsTree.of_parents
    · exact (Set.toFinite {0, 1}).subset fun y hy => oneDirectory_holds hy
    · intro p q x hp hq hxp hxq
      rcases oneDirectory_holds hp with rfl | rfl <;> rcases oneDirectory_holds hq with rfl | rfl
      · rfl
      · cases hxq
      · cases hxp
      · rfl
    · intro p hp
      rcases oneDirectory_holds hp with rfl | rfl
      · decide
      · exact List.not_mem_nil
    · intro p hp
      rcases oneDirectory_holds hp with rfl | rfl
      · exact List.nodup_singleton _
      · exact List.nodup_nil
    · intro p hp x hx
      rcases oneDirectory_holds hp with rfl | rfl
      · obtain rfl := List.mem_singleton.mp hx
        exact List.cons_ne_nil _ _
      · cases hx
  have hlist : ∀ x l, (oneDirectory.node x).contents = .list l → x = l := fun x l hl => Contents.list.inj hl
  have hused : ∀ x, oneDirectory.Holds x → 0 ≤ x ∧ x < 2 := fun x hx => by
    rcases oneDirectory_holds hx with rfl | rfl <;> decide
  exact ⟨⟨htree, fun x y l _ _ hx hy => (hlist x l hx).trans (hlist y l hy).symm, hused,
    fun x l hx hl => hlist x l hl ▸ hused x hx⟩, rfl⟩

theorem tree_kept_oneDirectory :
    StepsMeet (step Shell.asciiDigits) (Kept Shell.asciiDigits) (opened oneDirectory fun _ => 0)
      [.mv "/a /b".toList, .cd "/b".toList] := by
  refine (tree_kept_iff Shell.asciiDigits oneDirectory_wellFormed _ _).mpr ⟨?_, fun t _ => ⟨?_, fun _ _ => trivial⟩⟩
  · rintro arguments plan l hc hplan - hbelow
    obtain rfl := Command.mv.inj hc
    have hplanned : mvPlanOf (opened oneDirectory fun _ => 0) "/a /b".toList =
        some { source := 1, parent := 0, directory := 0, dstparent := [], dstname := ['b'] } := rfl
    obtain rfl := Option.some.inj (hplanned.symm.trans hplan)
    exact absurd (oneDirectory_below hbelow) (by decide)
  · rintro arguments plan l hc
    cases hc

/-- **`mv /a /a/b`**: the directory is put below itself and taken from the root, and the tree is empty. -/
theorem subtree_lost :
    WellFormed oneDirectory ∧
      (exec (mv "/a /a/b".toList) (opened oneDirectory fun _ => 0)).2.fs.kids 0 = [] ∧
      ¬ StepsMeet (step Shell.asciiDigits) (Kept Shell.asciiDigits) (opened oneDirectory fun _ => 0)
        [.mv "/a /a/b".toList] := by
  have hplanned : mvPlanOf (opened oneDirectory fun _ => 0) "/a /a/b".toList =
      some { source := 1, parent := 0, directory := 1, dstparent := ['a'], dstname := ['b'] } := rfl
  refine ⟨oneDirectory_wellFormed, rfl, fun hkept => ?_⟩
  exact not_kept Shell.asciiDigits (opened_sound oneDirectory_wellFormed _) hplanned rfl (Objects.Reach.refl _ _)
    hkept.1

end Cowrie.Scripts.Fsctl
