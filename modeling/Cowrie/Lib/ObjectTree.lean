import Mathlib.Data.List.Nodup
import Mathlib.Data.Set.Finite.Basic
import Mathlib.Data.Set.Finite.Lattice
import Mathlib.Logic.Relation

/-!
# Trees of objects held by reference

`Objects` is a heap of mutable objects, seen as a graph: the ordered children of an object and its
name. Nothing in it rules out sharing or cycles; `IsTree Good root` says that what is reachable from
`root` is a finite tree whose siblings have different names, all of them `Good`. The name of the root
itself is free.

* `IsTree.of_parents`: acyclicity follows from unique parents and a root without one.
* **`IsTree.shrink`**: dropping entries from listings keeps a tree.
* **`IsTree.graft`**: so does appending a separate tree with a new name to a listing.
* **`IsTree.map`**: an isomorphic copy of a tree is a tree.
* **`IsTree.relabel`**: giving an object a name that its siblings do not have keeps a tree.
* `Detached.not_reach`: what hangs below an entry is out of reach once the entry is dropped.
* **`IsTree.moved`**: replacing an entry by a copy of it elsewhere, not below itself, keeps a tree, and changes
  what can be reached by these two objects alone.
-/

namespace Cowrie.Lib

variable {ρ ρ' ν : Type*}

/-- The children of every object, in order, and its name. -/
structure Objects (ρ ν : Type*) where
  kids : ρ → List ρ
  label : ρ → ν

namespace Objects

variable {g g' : Objects ρ ν} {Good : ν → Prop} {root x y p q : ρ}

/-- `c` is an entry of `p`. -/
def Child (g : Objects ρ ν) (p c : ρ) : Prop := c ∈ g.kids p

/-- `x` is reachable from `r`. -/
def Reach (g : Objects ρ ν) (r x : ρ) : Prop := Relation.ReflTransGen g.Child r x

/-- What is reachable from `root` is a finite tree, its siblings named apart. -/
structure IsTree (g : Objects ρ ν) (Good : ν → Prop) (root : ρ) : Prop where
  finite : {x | g.Reach root x}.Finite
  acyclic : ∀ x, g.Reach root x → ¬ Relation.TransGen g.Child x x
  /-- No object is an entry twice, in one listing … -/
  once : ∀ p, g.Reach root p → (g.kids p).Nodup
  /-- … or in two. -/
  parent : ∀ p q x, g.Reach root p → g.Reach root q → x ∈ g.kids p → x ∈ g.kids q → p = q
  names : ∀ p, g.Reach root p → ((g.kids p).map g.label).Nodup
  good : ∀ p, g.Reach root p → ∀ x ∈ g.kids p, Good (g.label x)

@[simp] theorem Reach.refl (g : Objects ρ ν) (r : ρ) : g.Reach r r := Relation.ReflTransGen.refl

theorem Reach.tail (h : g.Reach root p) (hx : x ∈ g.kids p) : g.Reach root x :=
  Relation.ReflTransGen.tail h hx

theorem Reach.trans (h : g.Reach root p) (hx : g.Reach p x) : g.Reach root x :=
  Relation.ReflTransGen.trans h hx

/-- Reachability with fewer children. -/
theorem Reach.mono
    (hk : ∀ p, g'.Reach root p → g.Reach root p → ∀ c ∈ g'.kids p, c ∈ g.kids p)
    (h : g'.Reach root x) : g.Reach root x := by
  induction h with
  | refl => exact Reach.refl g root
  | tail hp hc ih => exact ih.tail (hk _ hp ih _ hc)

/-- An object whose listing alone was edited can still be reached. -/
theorem Reach.edited (h : g.Reach root p) (helse : ∀ a, a ≠ p → g'.kids a = g.kids a) :
    g'.Reach root p := by
  induction h using Relation.ReflTransGen.head_induction_on with
  | refl => exact Reach.refl g' p
  | @head a b hab _ ih =>
    by_cases ha : a = p
    · exact ha ▸ Reach.refl g' a
    · exact Relation.ReflTransGen.head (by rwa [Child, helse a ha]) ih

/-- Reachability, where what is reached has the same entries. -/
theorem reach_congr (hkids : ∀ p, g.Reach root p → g'.kids p = g.kids p) : g'.Reach root x ↔ g.Reach root x := by
  constructor
  · exact Reach.mono fun p _ hp c hc => hkids p hp ▸ hc
  · intro h
    induction h with
    | refl => exact Reach.refl g' root
    | @tail p x hp hc ih =>
      refine ih.tail ?_
      rw [hkids p hp]
      exact hc

/-- What can be reached from a copy is a copy. -/
theorem reach_map {g : Objects ρ ν} {g' : Objects ρ' ν} {x : ρ} {φ : ρ → ρ'} {z : ρ'}
    (hkids : ∀ y, g.Reach x y → g'.kids (φ y) = (g.kids y).map φ) (h : g'.Reach (φ x) z) :
    ∃ y, g.Reach x y ∧ φ y = z := by
  induction h with
  | refl => exact ⟨x, Reach.refl g x, rfl⟩
  | tail hp hc ih =>
    obtain ⟨y, hy, rfl⟩ := ih
    rw [Child, hkids y hy] at hc
    obtain ⟨c, hmem, rfl⟩ := List.mem_map.mp hc
    exact ⟨c, hy.tail hmem, rfl⟩

theorem acyclic_of_parents
    (hparent : ∀ p q x, g.Reach root p → g.Reach root q → x ∈ g.kids p → x ∈ g.kids q → p = q)
    (horphan : ∀ p, g.Reach root p → root ∉ g.kids p) (h : g.Reach root x) :
    ¬ Relation.TransGen g.Child x x := by
  induction h with
  | refl =>
    intro hcycle
    obtain ⟨p, hp, hchild⟩ := Relation.TransGen.tail'_iff.mp hcycle
    exact horphan p hp hchild
  | @tail p x hp hchild ih =>
    -- a cycle through `x` enters it from its only parent, and so is one through the parent
    intro hcycle
    obtain ⟨q, hq, hlast⟩ := Relation.TransGen.tail'_iff.mp hcycle
    have hreach : g.Reach root q := (Reach.tail hp hchild).trans hq
    obtain rfl : q = p := hparent q p x hreach hp hlast hchild
    exact ih (Relation.TransGen.head'_iff.mpr ⟨x, hchild, hq⟩)

/-- **Acyclic by counting parents.** -/
theorem IsTree.of_parents (hfinite : {x | g.Reach root x}.Finite)
    (hparent : ∀ p q x, g.Reach root p → g.Reach root q → x ∈ g.kids p → x ∈ g.kids q → p = q)
    (horphan : ∀ p, g.Reach root p → root ∉ g.kids p)
    (hnames : ∀ p, g.Reach root p → ((g.kids p).map g.label).Nodup)
    (hgood : ∀ p, g.Reach root p → ∀ x ∈ g.kids p, Good (g.label x)) : g.IsTree Good root where
  finite := hfinite
  acyclic _ h := acyclic_of_parents hparent horphan h
  once p h := List.Nodup.of_map _ (hnames p h)
  parent := hparent
  names := hnames
  good := hgood

namespace IsTree

theorem orphan (h : g.IsTree Good root) (hp : g.Reach root p) : root ∉ g.kids p := fun hmem =>
  h.acyclic root (Reach.refl g root) (Relation.TransGen.tail' hp hmem)

/-- Siblings of one name are one. -/
theorem sibling_eq (h : g.IsTree Good root) (hp : g.Reach root p) (hx : x ∈ g.kids p)
    (hy : y ∈ g.kids p) (heq : g.label x = g.label y) : x = y :=
  List.inj_on_of_nodup_map (h.names p hp) hx hy heq

/-- What hangs below an object is a tree. -/
theorem subtree (h : g.IsTree Good root) (hx : g.Reach root x) : g.IsTree Good x where
  finite := h.finite.subset fun _ hy => hx.trans hy
  acyclic y hy := h.acyclic y (hx.trans hy)
  once p hp := h.once p (hx.trans hp)
  parent p q y hp hq := h.parent p q y (hx.trans hp) (hx.trans hq)
  names p hp := h.names p (hx.trans hp)
  good p hp := h.good p (hx.trans hp)

/-- No object is below its own entry. -/
theorem not_reach_parent (h : g.IsTree Good root) (hp : g.Reach root p) (hx : x ∈ g.kids p) :
    ¬ g.Reach x p := fun hback =>
  h.acyclic p hp (Relation.TransGen.head' hx hback)

/-- **Fewer entries**: a part of each listing, with the names as they were. -/
theorem shrink (h : g.IsTree Good root)
    (hkids : ∀ p, g'.Reach root p → g.Reach root p → (g'.kids p).Sublist (g.kids p))
    (hlabel : ∀ p, g'.Reach root p → g.Reach root p → ∀ x ∈ g'.kids p, g'.label x = g.label x) :
    g'.IsTree Good root := by
  have hreach : ∀ x, g'.Reach root x → g.Reach root x := fun x hx =>
    Reach.mono (fun p hp hp' c hc => (hkids p hp hp').subset hc) hx
  have hkids : ∀ p, g'.Reach root p → (g'.kids p).Sublist (g.kids p) := fun p hp =>
    hkids p hp (hreach p hp)
  have hlabel : ∀ p, g'.Reach root p → ∀ x ∈ g'.kids p, g'.label x = g.label x := fun p hp =>
    hlabel p hp (hreach p hp)
  apply IsTree.of_parents
  · exact h.finite.subset hreach
  · intro p q x hp hq hxp hxq
    exact h.parent p q x (hreach p hp) (hreach q hq) ((hkids p hp).subset hxp)
      ((hkids q hq).subset hxq)
  · intro p hp hmem
    exact h.orphan (hreach p hp) ((hkids p hp).subset hmem)
  · intro p hp
    rw [List.map_congr_left (hlabel p hp)]
    exact (h.names p (hreach p hp)).sublist ((hkids p hp).map g.label)
  · intro p hp x hx
    rw [hlabel p hp x hx]
    exact h.good p (hreach p hp) x ((hkids p hp).subset hx)

/-- Objects out of reach do not matter. -/
theorem congr (h : g.IsTree Good root)
    (hkids : ∀ p, g'.Reach root p → g.Reach root p → g'.kids p = g.kids p)
    (hlabel : ∀ p, g'.Reach root p → g.Reach root p → ∀ x ∈ g'.kids p, g'.label x = g.label x) :
    g'.IsTree Good root :=
  h.shrink (fun p hp hp' => hkids p hp hp' ▸ List.Sublist.refl _) hlabel

/-- An object without entries. -/
theorem leaf (h : g.kids x = []) : g.IsTree Good x := by
  have hreach : ∀ y, g.Reach x y → y = x := by
    intro y hy
    induction hy with
    | refl => rfl
    | tail _ hc ih =>
      rw [Child, ih, h] at hc
      exact absurd hc List.not_mem_nil
  have hkids : ∀ y, g.Reach x y → g.kids y = [] := fun y hy => hreach y hy ▸ h
  apply IsTree.of_parents
  · exact (Set.finite_singleton x).subset hreach
  · intro p q y hp _ hy
    rw [hkids p hp] at hy
    exact absurd hy List.not_mem_nil
  · intro p hp
    rw [hkids p hp]
    exact List.not_mem_nil
  · intro p hp
    rw [hkids p hp]
    exact List.nodup_nil
  · intro p hp y hy
    rw [hkids p hp] at hy
    exact absurd hy List.not_mem_nil

/-- **A new name** that no sibling has. -/
theorem relabel (h : g.IsTree Good root) (hkids : g'.kids = g.kids)
    (hlabel : ∀ y, y ≠ x → g'.label y = g.label y)
    (hroom : ∀ p, g.Reach root p → x ∈ g.kids p →
      Good (g'.label x) ∧ ∀ y ∈ g.kids p, y ≠ x → g.label y ≠ g'.label x) :
    g'.IsTree Good root := by
  have hchild : g'.Child = g.Child := by
    funext p c
    rw [Child, Child, hkids]
  have hreach : ∀ y, g'.Reach root y ↔ g.Reach root y := fun y => by rw [Reach, Reach, hchild]
  apply IsTree.of_parents
  · exact h.finite.subset fun y hy => (hreach y).mp hy
  · intro p q y hp hq
    rw [hkids]
    exact h.parent p q y ((hreach p).mp hp) ((hreach q).mp hq)
  · intro p hp
    rw [hkids]
    exact h.orphan ((hreach p).mp hp)
  · intro p hp
    have hp := (hreach p).mp hp
    rw [hkids]
    refine (h.once p hp).map_on fun y hy z hz heq => ?_
    by_cases hyx : y = x <;> by_cases hzx : z = x
    · exact hyx.trans hzx.symm
    · subst hyx
      rw [hlabel z hzx] at heq
      exact absurd heq.symm ((hroom p hp hy).2 z hz hzx)
    · subst hzx
      rw [hlabel y hyx] at heq
      exact absurd heq ((hroom p hp hz).2 y hy hyx)
    · rw [hlabel y hyx, hlabel z hzx] at heq
      exact h.sibling_eq hp hy hz heq
  · intro p hp y hy
    have hp := (hreach p).mp hp
    rw [hkids] at hy
    by_cases hyx : y = x
    · subst hyx
      exact (hroom p hp hy).1
    · rw [hlabel y hyx]
      exact h.good p hp y hy

/-- **A copy**: what `φ` maps a tree to, object by object. -/
theorem map {g : Objects ρ ν} {g' : Objects ρ' ν} {x : ρ} (h : g.IsTree Good x) (φ : ρ → ρ')
    (hinj : ∀ y z, g.Reach x y → g.Reach x z → φ y = φ z → y = z)
    (hkids : ∀ y, g.Reach x y → g'.kids (φ y) = (g.kids y).map φ)
    (hlabel : ∀ y, g.Reach x y → ∀ z ∈ g.kids y, g'.label (φ z) = g.label z) :
    g'.IsTree Good (φ x) := by
  have hreach : ∀ z, g'.Reach (φ x) z → ∃ y, g.Reach x y ∧ φ y = z := fun _ => reach_map hkids
  apply IsTree.of_parents
  · refine (h.finite.image φ).subset fun z hz => ?_
    obtain ⟨y, hy, rfl⟩ := hreach z hz
    exact ⟨y, hy, rfl⟩
  · intro p q z hp hq hzp hzq
    obtain ⟨a, ha, rfl⟩ := hreach p hp
    obtain ⟨b, hb, rfl⟩ := hreach q hq
    rw [hkids a ha] at hzp
    rw [hkids b hb] at hzq
    obtain ⟨c, hca, rfl⟩ := List.mem_map.mp hzp
    obtain ⟨d, hdb, heq⟩ := List.mem_map.mp hzq
    obtain rfl := hinj d c (hb.tail hdb) (ha.tail hca) heq
    rw [h.parent a b d ha hb hca hdb]
  · intro p hp hmem
    obtain ⟨a, ha, rfl⟩ := hreach p hp
    rw [hkids a ha] at hmem
    obtain ⟨c, hc, heq⟩ := List.mem_map.mp hmem
    obtain rfl := hinj c x (ha.tail hc) (Reach.refl g x) heq
    exact h.orphan ha hc
  · intro p hp
    obtain ⟨a, ha, rfl⟩ := hreach p hp
    rw [hkids a ha, List.map_map]
    have hcongr : (g.kids a).map (g'.label ∘ φ) = (g.kids a).map g.label :=
      List.map_congr_left (hlabel a ha)
    rw [hcongr]
    exact h.names a ha
  · intro p hp z hz
    obtain ⟨a, ha, rfl⟩ := hreach p hp
    rw [hkids a ha] at hz
    obtain ⟨c, hc, rfl⟩ := List.mem_map.mp hz
    rw [hlabel a ha c hc]
    exact h.good a ha c hc

end IsTree

/-! ## Appending a tree -/

/-- `g'` is `g` with `x` appended to the listing of `q`. -/
structure Grafted (g g' : Objects ρ ν) (q x : ρ) : Prop where
  at_q : g'.kids q = g.kids q ++ [x]
  elsewhere : ∀ p, p ≠ q → g'.kids p = g.kids p
  label : g'.label = g.label

namespace Grafted

theorem mem (h : Grafted g g' q x) {c : ρ} (hc : c ∈ g'.kids p) :
    c ∈ g.kids p ∨ p = q ∧ c = x := by
  by_cases hp : p = q
  · subst hp
    rw [h.at_q] at hc
    rcases List.mem_append.mp hc with hc | hc
    · exact .inl hc
    · exact .inr ⟨rfl, List.mem_singleton.mp hc⟩
  · exact .inl (h.elsewhere p hp ▸ hc)

/-- Nothing becomes reachable but what hangs below `x`. -/
theorem reach (h : Grafted g g' q x) (hy : g'.Reach root y) :
    g.Reach root y ∨ g.Reach x y := by
  induction hy with
  | refl => exact .inl (Reach.refl g root)
  | tail _ hc ih =>
    rcases h.mem hc with hc | ⟨-, rfl⟩
    · exact ih.imp (fun hr => hr.tail hc) (fun hr => hr.tail hc)
    · exact .inr (Reach.refl g _)

end Grafted

/-- **A separate tree under a new name.** -/
theorem IsTree.graft (h : g.IsTree Good root) (hx : g.IsTree Good x) (hg : Grafted g g' q x)
    (hq : g.Reach root q) (hapart : ∀ y, g.Reach root y → ¬ g.Reach x y)
    (hgood : Good (g.label x)) (hnew : ∀ y ∈ g.kids q, g.label y ≠ g.label x) :
    g'.IsTree Good root := by
  have hreach : ∀ y, g'.Reach root y → g.Reach root y ∨ g.Reach x y := fun y => hg.reach
  have hne : ∀ p, g.Reach x p → p ≠ q := fun p hp heq => hapart q hq (heq ▸ hp)
  have hbelow : ∀ p, g.Reach x p → g'.kids p = g.kids p := fun p hp => hg.elsewhere p (hne p hp)
  have hxroot : ¬ g.Reach root x := fun hr => hapart x hr (Reach.refl g x)
  apply IsTree.of_parents
  · exact (h.finite.union hx.finite).subset hreach
  · intro a b y ha hb hya hyb
    rcases hreach a ha with ha | ha <;> rcases hreach b hb with hb | hb
    · rcases hg.mem hya with hya | ⟨haq, hyx⟩ <;> rcases hg.mem hyb with hyb | ⟨hbq, hyx'⟩
      · exact h.parent a b y ha hb hya hyb
      · exact absurd (hyx' ▸ ha.tail hya) hxroot
      · exact absurd (hyx ▸ hb.tail hyb) hxroot
      · exact haq.trans hbq.symm
    · rw [hbelow b hb] at hyb
      rcases hg.mem hya with hya | ⟨rfl, rfl⟩
      · exact absurd (hb.tail hyb) (hapart y (ha.tail hya))
      · exact absurd hyb (hx.orphan hb)
    · rw [hbelow a ha] at hya
      rcases hg.mem hyb with hyb | ⟨rfl, rfl⟩
      · exact absurd (ha.tail hya) (hapart y (hb.tail hyb))
      · exact absurd hya (hx.orphan ha)
    · rw [hbelow a ha] at hya
      rw [hbelow b hb] at hyb
      exact hx.parent a b y ha hb hya hyb
  · intro p hp hmem
    rcases hreach p hp with hp | hp
    · rcases hg.mem hmem with hmem | ⟨rfl, rfl⟩
      · exact h.orphan hp hmem
      · exact hxroot (Reach.refl g _)
    · rw [hbelow p hp] at hmem
      exact hapart root (Reach.refl g root) (hp.tail hmem)
  · intro p hp
    rw [hg.label]
    by_cases hpq : p = q
    · subst hpq
      rw [hg.at_q, List.map_append, List.map_singleton]
      refine List.Nodup.append (h.names p hq) (List.nodup_singleton _) ?_
      rw [List.disjoint_singleton]
      intro hmem
      obtain ⟨y, hy, heq⟩ := List.mem_map.mp hmem
      exact hnew y hy heq
    · rw [hg.elsewhere p hpq]
      exact (hreach p hp).elim (h.names p) (hx.names p)
  · intro p hp y hy
    rw [hg.label]
    rcases hg.mem hy with hy | ⟨-, rfl⟩
    · exact (hreach p hp).elim (fun hp => h.good p hp y hy) (fun hp => hx.good p hp y hy)
    · exact hgood

/-! ## Dropping an entry -/

/-- `g'` is `g` with `x` dropped from the listing of `p`. -/
structure Detached [DecidableEq ρ] (g g' : Objects ρ ν) (p x : ρ) : Prop where
  at_p : g'.kids p = (g.kids p).erase x
  elsewhere : ∀ a, a ≠ p → g'.kids a = g.kids a

namespace Detached

variable [DecidableEq ρ]

theorem sublist (h : Detached g g' p x) (a : ρ) : (g'.kids a).Sublist (g.kids a) := by
  by_cases ha : a = p
  · rw [ha, h.at_p]
    exact List.erase_sublist
  · rw [h.elsewhere a ha]

theorem reach (h : Detached g g' p x) {r : ρ} (hy : g'.Reach r y) : g.Reach r y :=
  Reach.mono (fun a _ _ _ hc => (h.sublist a).subset hc) hy

/-- **Out of reach**: what hung below the dropped entry. -/
theorem not_reach (hd : Detached g g' p x) (h : g.IsTree Good root) (hp : g.Reach root p)
    (hx : x ∈ g.kids p) (hy : g'.Reach root y) : ¬ g.Reach x y := by
  induction hy with
  | refl =>
    intro hback
    exact h.not_reach_parent hp hx (hback.trans hp)
  | @tail a y ha hc ih =>
    intro hbelow
    have hroot : g.Reach root a := hd.reach ha
    have hmem : y ∈ g.kids a := (hd.sublist a).subset hc
    rcases Relation.ReflTransGen.cases_tail hbelow with rfl | ⟨b, hb, hlast⟩
    · -- the dropped entry itself: its only listing has it no more
      obtain rfl : a = p := h.parent a p y hroot hp hmem hx
      rw [Child, hd.at_p] at hc
      exact (h.once a hroot).not_mem_erase hc
    · have hreach : g.Reach root b := (hp.tail hx).trans hb
      obtain rfl : b = a := h.parent b a y hreach hroot hlast hmem
      exact ih hb

/-- What is left, and what was dropped. -/
theorem isTree (hd : Detached g g' p x) (h : g.IsTree Good root) {r : ρ} (hr : g.Reach root r)
    (hlabel : ∀ a, g'.Reach r a → ∀ y ∈ g'.kids a, g'.label y = g.label y) : g'.IsTree Good r :=
  (h.subtree hr).shrink (fun a _ _ => hd.sublist a) fun a ha _ => hlabel a ha

/-- **Still in reach**: what does not hang below the dropped entry. -/
theorem reach_else (hd : Detached g g' p x) {r : ρ} (hy : g.Reach r y) (hbelow : ¬ g.Reach x y) :
    g'.Reach r y := by
  induction hy with
  | refl => exact Reach.refl g' r
  | @tail a y ha hc ih =>
    have hyx : y ≠ x := fun heq => hbelow (heq ▸ Reach.refl g x)
    refine (ih fun hback => hbelow (hback.tail hc)).tail ?_
    by_cases hap : a = p
    · subst hap
      rw [hd.at_p]
      exact (List.mem_erase_of_ne hyx).mpr hc
    · rwa [hd.elsewhere a hap]

/-- What is reached from where the listing is not. -/
theorem reach_away (hd : Detached g g' p x) {r : ρ} (hy : g.Reach r y) (hr : ¬ g.Reach r p) : g'.Reach r y := by
  induction hy with
  | refl => exact Reach.refl g' r
  | @tail a y ha hc ih =>
    have hap : a ≠ p := fun heq => hr (heq ▸ ha)
    refine ih.tail ?_
    rwa [hd.elsewhere a hap]

end Detached

/-! ## Replacing an entry by a copy -/

section Moved

variable [DecidableEq ρ] {c : ρ}

/-- Without the entry `x` of `p`. -/
def detach (g : Objects ρ ν) (p x : ρ) : Objects ρ ν :=
  { g with kids := Function.update g.kids p ((g.kids p).erase x) }

/-- With `c` as the last entry of `q`. -/
def attach (g : Objects ρ ν) (q c : ρ) : Objects ρ ν :=
  { g with kids := Function.update g.kids q (g.kids q ++ [c]) }

theorem detached_detach (g : Objects ρ ν) (p x : ρ) : Detached g (g.detach p x) p x where
  at_p := Function.update_self _ _ _
  elsewhere _ ha := Function.update_of_ne ha _ _

theorem grafted_attach (g : Objects ρ ν) (q c : ρ) : Grafted g (g.attach q c) q c where
  at_q := Function.update_self _ _ _
  elsewhere _ hp := Function.update_of_ne hp _ _
  label := rfl

omit [DecidableEq ρ] in
/-- What can be reached from an object that has the entries of `x`. -/
theorem reach_of_kids (hkids : g.kids c = g.kids x) (h : g.Reach c y) :
    y = c ∨ ∃ k ∈ g.kids x, g.Reach k y := by
  rcases Relation.ReflTransGen.cases_head h with rfl | ⟨k, hk, hreach⟩
  · exact .inl rfl
  · rw [Child, hkids] at hk
    exact .inr ⟨k, hk, hreach⟩

/-- An object that has the entries of the root of a tree is the root of one. -/
theorem IsTree.of_kids (h : g.IsTree Good x) (hkids : g.kids c = g.kids x) (hc : ¬ g.Reach x c) :
    g.IsTree Good c := by
  have hid : ∀ y, g.Reach x y → (g.kids y).map (fun z => if z = x then c else z) = g.kids y := by
    intro y hy
    refine (List.map_congr_left fun z hz => ?_).trans (List.map_id _)
    rw [if_neg]
    · rfl
    · rintro rfl
      exact h.orphan hy hz
  have hmap : g.IsTree Good (if x = x then c else x) :=
    h.map (fun z => if z = x then c else z) (fun y z hy hz heq => ?_) (fun y hy => ?_) fun y hy z hz => ?_
  · rwa [if_pos rfl] at hmap
  · split_ifs at heq with hyx hzx hzx
    · exact hyx.trans hzx.symm
    · exact absurd (heq ▸ hz) hc
    · exact absurd (heq ▸ hy) hc
    · exact heq
  · rw [hid y hy]
    split_ifs with hyx
    · rw [hkids, hyx]
    · rfl
  · rw [if_neg]
    rintro rfl
    exact h.orphan hy hz

variable (h : g.IsTree Good root) (hp : g.Reach root p) (hx : x ∈ g.kids p) (hc : ¬ g.Reach root c)
  (hkids : g.kids c = g.kids x)

include h hp hx hc hkids

theorem kids_detach_copy : (g.detach p x).kids c = (g.detach p x).kids x := by
  have hd := detached_detach g p x
  have hcp : c ≠ p := fun heq => hc (heq ▸ hp)
  have hxp : x ≠ p := fun heq => h.not_reach_parent hp hx (heq ▸ Reach.refl g x)
  rw [hd.elsewhere c hcp, hkids, hd.elsewhere x hxp]

/-- What is below the copy, when the entry has been dropped. -/
theorem reach_copy (hy : (g.detach p x).Reach c y) : y = c ∨ y ≠ x ∧ g.Reach x y := by
  have hd := detached_detach g p x
  rcases reach_of_kids (kids_detach_copy h hp hx hc hkids) hy with hyc | ⟨k, hk, hreach⟩
  · exact .inl hyc
  · have hk : k ∈ g.kids x := (hd.sublist x).subset hk
    refine .inr ⟨?_, (Reach.tail (Reach.refl g x) hk).trans (hd.reach hreach)⟩
    rintro rfl
    exact h.acyclic y (hp.tail hx) (Relation.TransGen.head' hk (hd.reach hreach))

/-- **A copy in another place.** -/
theorem IsTree.moved (hq : g.Reach root q) (hbelow : ¬ g.Reach x q) (hgood : Good (g.label c))
    (hnew : ∀ y ∈ g.kids q, g.label y ≠ g.label c) : ((g.detach p x).attach q c).IsTree Good root := by
  have hd := detached_detach g p x
  have htree : ∀ r, g.Reach root r → (g.detach p x).IsTree Good r := fun r hr =>
    hd.isTree h hr fun _ _ _ _ => rfl
  have hcopy : (g.detach p x).IsTree Good c := by
    refine (htree x (hp.tail hx)).of_kids (kids_detach_copy h hp hx hc hkids) fun hback => ?_
    exact hc ((hp.tail hx).trans (hd.reach hback))
  refine (htree root (Reach.refl g root)).graft hcopy (grafted_attach _ q c) (hd.reach_else hq hbelow)
    (fun y hy hyc => ?_) hgood fun y hy => hnew y ((hd.sublist q).subset hy)
  rcases reach_copy h hp hx hc hkids hyc with rfl | ⟨-, hxy⟩
  · exact hc (hd.reach hy)
  · exact hd.not_reach h hp hx hy hxy

/-- **What can be reached then**: the copy, and all but the entry. -/
theorem reach_moved (hq : g.Reach root q) (hbelow : ¬ g.Reach x q) :
    ((g.detach p x).attach q c).Reach root y ↔ y = c ∨ y ≠ x ∧ g.Reach root y := by
  have hd := detached_detach g p x
  have hg := grafted_attach (g.detach p x) q c
  have hmore : ∀ {r z}, (g.detach p x).Reach r z → ((g.detach p x).attach q c).Reach r z := fun hz =>
    Reach.mono (fun a _ _ k hk => by
      by_cases haq : a = q
      · subst haq
        rw [hg.at_q]
        exact List.mem_append_left _ hk
      · rwa [hg.elsewhere a haq]) hz
  have hroot : ((g.detach p x).attach q c).Reach root c := by
    refine (hmore (hd.reach_else hq hbelow)).tail ?_
    rw [hg.at_q]
    exact List.mem_append_right _ List.mem_cons_self
  constructor
  · intro hy
    rcases hg.reach hy with hy | hy
    · refine .inr ⟨?_, hd.reach hy⟩
      rintro rfl
      exact hd.not_reach h hp hx hy (Reach.refl g y)
    · exact (reach_copy h hp hx hc hkids hy).imp_right fun ⟨hne, hxy⟩ => ⟨hne, (hp.tail hx).trans hxy⟩
  · rintro (rfl | ⟨hyx, hy⟩)
    · exact hroot
    · by_cases hxy : g.Reach x y
      · -- below an entry of `x`, which is an entry of the copy
        rcases Relation.ReflTransGen.cases_head hxy with rfl | ⟨k, hk, hky⟩
        · exact absurd rfl hyx
        · have hkp : ¬ g.Reach k p := fun hback =>
            h.not_reach_parent hp hx ((Reach.tail (Reach.refl g x) hk).trans hback)
          have hcp : c ≠ p := fun heq => hc (heq ▸ hp)
          have hkc : k ∈ (g.detach p x).kids c := by rwa [hd.elsewhere c hcp, hkids]
          exact hroot.trans (hmore ((Reach.tail (Reach.refl _ c) hkc).trans (hd.reach_away hky hkp)))
      · exact hmore (hd.reach_else hy hxy)

end Moved

end Objects

end Cowrie.Lib
