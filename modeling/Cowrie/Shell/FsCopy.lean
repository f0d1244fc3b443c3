import Cowrie.Shell.FsTree

/-!
# Copies (`copy.deepcopy`)

A deep copy is a tree outside the tree, and leaves the tree as it is. `memo` maps what has been copied
to its copies; a call adds to it (`Copied`), and when it returns the copies it added are complete: their
entries are the copies of the entries.
-/

namespace Cowrie.Shell.Fs

open Cowrie.Lib Heap HoneyPotFilesystem

/-- A file system with copies of some of its nodes. -/
abbrev CopyState := HoneyPotFilesystem × (Ref → Option Ref)

/-- The nodes of `f` are as they were, and the copies are new and different. -/
structure Copying (f : HoneyPotFilesystem) (s : CopyState) : Prop where
  fs : s.1.fs = f.fs
  next : f.next ≤ s.1.next
  old : ∀ r, r < f.next → s.1.node r = f.node r
  fresh : ∀ a b, s.2 a = some b → f.next ≤ b ∧ b < s.1.next
  inj : ∀ a a' b, s.2 a = some b → s.2 a' = some b → a = a'

/-- What a call adds to `s`. -/
structure Copied (f : HoneyPotFilesystem) (s t : CopyState) : Prop where
  copying : Copying f t
  next : s.1.next ≤ t.1.next
  nodes : ∀ r, r < s.1.next → t.1.node r = s.1.node r
  kept : ∀ a b, s.2 a = some b → t.2 a = some b
  complete : ∀ a b, t.2 a = some b → s.2 a = none →
    (t.1.entries b).map some = (f.entries a).map t.2 ∧ t.1.name b = f.name a

variable {f : HoneyPotFilesystem} {s t u : CopyState} {x y : Ref}

theorem Copied.refl (h : Copying f s) : Copied f s s where
  copying := h
  next := Nat.le_refl _
  nodes _ _ := rfl
  kept _ _ h := h
  complete a b h hnone := by rw [hnone] at h; cases h

theorem entries_congr {f g : Heap} {x y : Ref} (h : f.node x = g.node y) : f.entries x = g.entries y := by
  unfold entries
  rw [h]

theorem name_congr {f g : Heap} {x y : Ref} (h : f.node x = g.node y) : f.name x = g.name y := by
  unfold name
  rw [h]

theorem Copied.trans (h : Copied f s t) (h' : Copied f t u) : Copied f s u where
  copying := h'.copying
  next := Nat.le_trans h.next h'.next
  nodes r hr := (h'.nodes r (Nat.lt_of_lt_of_le hr h.next)).trans (h.nodes r hr)
  kept a b hab := h'.kept a b (h.kept a b hab)
  complete a b hab hnone := by
    cases ha : t.2 a with
    | none => exact h'.complete a b hab ha
    | some c =>
      obtain rfl : c = b := Option.some.inj ((h'.kept a c ha).symm.trans hab)
      obtain ⟨hentries, hname⟩ := h.complete a c ha hnone
      have hsame := h'.nodes c (h.copying.fresh a c ha).2
      rw [entries_congr hsame, name_congr hsame]
      refine ⟨?_, hname⟩
      -- the copies of the entries were made before
      rw [hentries]
      refine List.map_congr_left fun e he => ?_
      have hmem : t.2 e ∈ (t.1.entries c).map some := hentries ▸ List.mem_map_of_mem he
      obtain ⟨b, -, hb⟩ := List.mem_map.mp hmem
      rw [← hb, h'.kept e b hb.symm]

theorem copyAll_spec {D : Ref → Prop}
    {copy : Ref → CopyState → Except FsError (Ref × CopyState)}
    (hcopy : ∀ x y s t, D x → Copying f s → copy x s = .ok (y, t) → Copied f s t ∧ t.2 x = some y)
    {xs ys : List Ref} (hxs : ∀ x ∈ xs, D x) (hs : Copying f s)
    (h : copyAll copy xs s = .ok (ys, t)) : Copied f s t ∧ ys.map some = xs.map t.2 := by
  induction xs generalizing s ys with
  | nil =>
    obtain ⟨rfl, rfl⟩ : [] = ys ∧ s = t := by simpa [copyAll] using h
    exact ⟨Copied.refl hs, rfl⟩
  | cons x xs ih =>
    unfold copyAll at h
    split at h
    · cases h
    · rename_i y v hy
      split at h
      · cases h
      · rename_i zs w hzs
        obtain ⟨rfl, rfl⟩ : y :: zs = ys ∧ w = t := by simpa using h
        obtain ⟨hfirst, hmemo⟩ := hcopy x y s v (hxs x List.mem_cons_self) hs hy
        obtain ⟨hrest, hlist⟩ := ih (fun z hz => hxs z (List.mem_cons_of_mem x hz)) hfirst.copying hzs
        refine ⟨hfirst.trans hrest, ?_⟩
        rw [List.map_cons, List.map_cons, hlist, hrest.kept x y hmemo]

/-- A new copy, still without the copies of its entries. -/
theorem copying_started {n : Node} (h : Copying f s) :
    Copying f (s.1.alloc n, Function.update s.2 x (some s.1.next)) := by
  have hmemo : ∀ a b, Function.update s.2 x (some s.1.next) a = some b →
      a = x ∧ b = s.1.next ∨ a ≠ x ∧ s.2 a = some b := by
    intro a b hab
    rw [Function.update_apply] at hab
    split_ifs at hab with ha
    · exact .inl ⟨ha, (Option.some.inj hab).symm⟩
    · exact .inr ⟨ha, hab⟩
  constructor
  · exact h.fs
  · exact Nat.le_succ_of_le h.next
  · intro r hr
    rw [node_alloc, if_neg (Nat.ne_of_lt (Nat.lt_of_lt_of_le hr h.next))]
    exact h.old r hr
  · intro a b hab
    rcases hmemo a b hab with ⟨-, rfl⟩ | ⟨-, hab⟩
    · exact ⟨h.next, Nat.lt_succ_self _⟩
    · exact ⟨(h.fresh a b hab).1, Nat.lt_succ_of_lt (h.fresh a b hab).2⟩
  · intro a a' b hab hab'
    rcases hmemo a b hab with ⟨ha, hb⟩ | ⟨-, hb⟩ <;>
      rcases hmemo a' b hab' with ⟨ha', hb'⟩ | ⟨-, hb'⟩
    · exact ha.trans ha'.symm
    · exact absurd (hb ▸ (h.fresh a' b hb').2) (Nat.lt_irrefl _)
    · exact absurd (hb' ▸ (h.fresh a b hb).2) (Nat.lt_irrefl _)
    · exact h.inj a a' b hb hb'

theorem deepcopyAt_spec {D : Ref → Prop} (hused : ∀ x, D x → x < f.next)
    (hclosed : ∀ x, D x → ∀ c ∈ f.entries x, D c) {depth : Nat} (hx : D x) (hs : Copying f s)
    (h : deepcopyAt depth x s = .ok (y, t)) : Copied f s t ∧ t.2 x = some y := by
  induction depth generalizing x y s t with
  | zero => cases h
  | succ depth ih =>
    obtain ⟨g, memo⟩ := s
    unfold deepcopyAt at h
    cases hmemo : memo x with
    | some z =>
      simp only [hmemo] at h
      obtain ⟨rfl, rfl⟩ : z = y ∧ (g, memo) = t := by simpa using h
      exact ⟨Copied.refl hs, hmemo⟩
    | none =>
      simp only [hmemo] at h
      have hstart : Copying f (g.alloc (g.node x), Function.update memo x (some g.next)) :=
        copying_started hs
      have hnode : g.node x = f.node x := hs.old x (hused x hx)
      have hself : (g.alloc (g.node x)).node g.next = f.node x := by
        rw [node_alloc, if_pos rfl, hnode]
      have hbelow : ∀ r, r < g.next → (g.alloc (g.node x)).node r = g.node r := fun r hr => by
        rw [node_alloc, if_neg (Nat.ne_of_lt hr)]
      have hmine : Function.update memo x (some g.next) x = some g.next := Function.update_self _ _ _
      have hothers : ∀ a, a ≠ x → Function.update memo x (some g.next) a = memo a :=
        fun a ha => Function.update_of_ne ha _ _
      have hne : ∀ a b, memo a = some b → a ≠ x := by
        rintro a b hab rfl
        rw [hmemo] at hab
        cases hab
      cases hc : (g.node x).contents with
      | bytes data =>
        simp only [hc] at h
        obtain ⟨rfl, rfl⟩ : g.next = y ∧
            (g.alloc (g.node x), Function.update memo x (some g.next)) = t := by
          simpa using h
        refine ⟨⟨hstart, Nat.le_succ _, hbelow, ?_, ?_⟩, hmine⟩
        · intro a b hab
          exact (hothers a (hne a b hab)).trans hab
        · intro a b hab hnone
          by_cases ha : a = x
          · subst ha
            obtain rfl : g.next = b := Option.some.inj (hmine.symm.trans hab)
            have hnil : f.entries a = [] := by
              unfold entries
              rw [← hnode, hc]
            refine ⟨?_, name_congr hself⟩
            rw [entries_congr hself, hnil]
            rfl
          · have hold : memo a = some b := (hothers a ha).symm.trans hab
            rw [show memo a = none from hnone] at hold
            cases hold
      | list xs =>
        simp only [hc] at h
        have hentries : f.entries x = xs := by
          unfold entries
          rw [← hnode, hc]
        split at h
        · cases h
        · rename_i ys g' memo' hall
          obtain ⟨rfl, rfl⟩ : g.next = y ∧ (g'.setEntries g.next ys, memo') = t := by
            simpa using h
          obtain ⟨hdone, hlist⟩ := copyAll_spec (fun x y s t hx hs h => ih hx hs h)
            (fun c hcx => hclosed x hx c (hentries ▸ hcx)) hstart hall
          have hkept : memo' x = some g.next := hdone.kept x g.next hmine
          have hlater : ∀ r, r ≠ g.next → (g'.setEntries g.next ys).node r = g'.node r := fun r hr => by
            rw [setEntries, node_setNode, if_neg hr]
          refine ⟨⟨⟨hdone.copying.fs, hdone.copying.next, ?_, hdone.copying.fresh,
            hdone.copying.inj⟩, ?_, ?_, ?_, ?_⟩, hkept⟩
          · intro r hr
            rw [hlater r (Nat.ne_of_lt (Nat.lt_of_lt_of_le hr hs.next))]
            exact hdone.copying.old r hr
          · exact Nat.le_of_succ_le hdone.next
          · intro r hr
            rw [hlater r (Nat.ne_of_lt hr), hdone.nodes r (Nat.lt_succ_of_lt hr)]
            exact hbelow r hr
          · intro a b hab
            exact hdone.kept a b ((hothers a (hne a b hab)).trans hab)
          · intro a b hab hnone
            by_cases ha : a = x
            · subst ha
              obtain rfl : g.next = b := Option.some.inj (hkept.symm.trans hab)
              constructor
              · rw [entries_setEntries, if_pos rfl, hentries]
                exact hlist
              · rw [name_setEntries]
                exact name_congr ((hdone.nodes _ (Nat.lt_succ_self _)).trans hself)
            · have hbne : b ≠ g.next := fun heq =>
                ha (hdone.copying.inj a x b hab (heq ▸ hkept))
              obtain ⟨hkids, hname⟩ := hdone.complete a b hab ((hothers a ha).trans hnone)
              rw [entries_setEntries, if_neg hbne, name_setEntries]
              exact ⟨hkids, hname⟩

/-- **A deep copy** is a tree outside the tree. -/
theorem deepcopyAt_tree {depth : Nat} {g : HoneyPotFilesystem} {memo : Ref → Option Ref}
    (h : WellFormed f) (hx : f.Holds x)
    (hcopy : deepcopyAt depth x (f, fun _ => none) = .ok (y, g, memo)) :
    WellFormed g ∧ Apart g y := by
  have hstart : Copying f (f, fun _ => none) :=
    ⟨rfl, Nat.le_refl _, fun _ _ => rfl, nofun, nofun⟩
  obtain ⟨hdone, hy⟩ := deepcopyAt_spec h.used (fun p hp c hc => hp.entry hc) hx hstart hcopy
  obtain ⟨⟨hfs, hnext, hold, hfresh, hinj⟩, -, -, -, hcomplete⟩ := hdone
  -- everything below the source has been copied
  have hall : ∀ a, f.objects.Reach x a → ∃ b, memo a = some b := by
    intro a ha
    induction ha with
    | refl => exact ⟨y, hy⟩
    | @tail a c _ hc ih =>
      obtain ⟨b, hb⟩ := ih
      have hmem : memo c ∈ (g.entries b).map some :=
        (hcomplete a b hb rfl).1 ▸ List.mem_map_of_mem hc
      obtain ⟨d, -, hd⟩ := List.mem_map.mp hmem
      exact ⟨d, hd.symm⟩
  have hcopies : ∀ a, f.objects.Reach x a → memo a = some ((memo a).getD y) := by
    intro a ha
    obtain ⟨b, hb⟩ := hall a ha
    rw [hb]
    rfl
  let φ : Ref → Ref := fun a => (memo a).getD y
  have hkids : ∀ a, f.objects.Reach x a → g.objects.kids (φ a) = (f.objects.kids a).map φ := by
    intro a ha
    have hmap := (hcomplete a _ (hcopies a ha) rfl).1
    refine List.map_injective_iff.mpr (Option.some_injective Ref) ?_
    rw [List.map_map]
    refine hmap.trans (List.map_congr_left fun c hc => ?_)
    exact hcopies c (Objects.Reach.tail ha hc)
  have hroot : (memo x).getD y = y := by
    rw [show memo x = some y from hy]
    rfl
  have hsame : ∀ p, f.Holds p → g.entries p = f.entries p := fun p hp =>
    entries_congr (hold p (h.used p hp))
  have hholds : ∀ p, g.Holds p → f.Holds p := by
    intro p hp
    unfold Holds at hp
    rw [hfs] at hp
    refine Objects.Reach.mono (fun q _ hq c hc => ?_) hp
    change c ∈ g.entries q at hc
    rwa [hsame q hq] at hc
  refine ⟨⟨?_, ?_⟩, ⟨?_, ?_, ?_⟩⟩
  · rw [hfs]
    refine h.tree.congr (fun p _ hp => hsame p hp) fun p _ hp c hc => ?_
    change c ∈ g.entries p at hc
    rw [hsame p hp] at hc
    exact name_congr (hold c (h.used c (Heap.Holds.entry hp hc)))
  · intro p hp
    exact Nat.lt_of_lt_of_le (h.used p (hholds p hp)) hnext
  · have htree : g.objects.IsTree GoodName ((memo x).getD y) := by
      refine (h.tree.subtree hx).map (fun a => (memo a).getD y) (fun a b ha hb heq => ?_) hkids
        fun a ha c hc => ?_
      · exact hinj a b _ (hcopies a ha) (heq ▸ hcopies b hb)
      · exact (hcomplete c _ (hcopies c (Objects.Reach.tail ha hc)) rfl).2
    rwa [hroot] at htree
  · intro z hz hback
    rw [← hroot] at hback
    obtain ⟨a, ha, rfl⟩ := Objects.reach_map hkids hback
    have hlow := h.used _ (hholds _ hz)
    have hhigh := (hfresh a _ (hcopies a ha)).1
    exact Nat.lt_irrefl _ (Nat.lt_of_lt_of_le hlow hhigh)
  · intro z hz
    rw [← hroot] at hz
    obtain ⟨a, ha, rfl⟩ := Objects.reach_map hkids hz
    exact (hfresh a _ (hcopies a ha)).2

end Cowrie.Shell.Fs
