import Cowrie.Shell.FsTree
import Mathlib.Data.List.Find

/-!
# Lookups before and after an edit

In a `Named` file system the entries of every directory have different names, so that a path names one
thing at most; a well-formed one whose root is a directory is `Named`.

* `SameShape f g`: what hangs below the root has the same names, kinds, entries and targets. Sizes, modes
  and real files may differ; lookups do not (`SameShape.getfile`, `SameShape.getPath`).
* `getfileAt_mono`: a lookup that ends does so in more calls as well.
* **`getPath_eq_iff`**: `get_path` and `getfile` find the same directory, if `getfile` ends.
* `Replaced f g d b`: in `g` the entry `b` of `d` is a new node without entries, as `mkfile` leaves it.
* **`Replaced.forward`, `Replaced.backward`**: a lookup then finds what it found before, or the new node.
-/

namespace Cowrie.Shell.Fs

open Cowrie.Lib Heap HoneyPotFilesystem

/-- **Siblings have different names**; nodes are in use. -/
structure Named (f : HoneyPotFilesystem) : Prop where
  names : ∀ p, f.Holds p → ((f.entries p).map f.name).Nodup
  used : ∀ x, f.Holds x → x < f.next
  root : (f.node f.fs).type = .dir

theorem WellFormed.named {f : HoneyPotFilesystem} (h : WellFormed f)
    (hroot : (f.node f.fs).type = .dir) : Named f where
  names p hp := h.tree.names p hp
  used := h.used
  root := hroot

variable {f g : Heap} {d p q x y : Ref} {path piece last : Str} {pieces : List Str}
  {look look' : Str → Except FsError (Option Ref)} {r : Option Ref}

/-! ## The same shape -/

/-- What lookups read of the nodes below the root is the same. -/
structure SameShape (f g : Heap) : Prop where
  fs : g.fs = f.fs
  limit : g.limit = f.limit
  name : ∀ x, f.Holds x → (g.node x).name = (f.node x).name
  type : ∀ x, f.Holds x → (g.node x).type = (f.node x).type
  contents : ∀ x, f.Holds x → (g.node x).contents = (f.node x).contents
  target : ∀ x, f.Holds x → (g.node x).target = (f.node x).target

namespace SameShape

theorem refl (f : Heap) : SameShape f f :=
  ⟨rfl, rfl, fun _ _ => rfl, fun _ _ => rfl, fun _ _ => rfl, fun _ _ => rfl⟩

theorem entries (h : SameShape f g) (hp : f.Holds p) : g.entries p = f.entries p := by
  unfold Heap.entries
  rw [h.contents p hp]

theorem holds (h : SameShape f g) (hx : f.Holds x) : g.Holds x := by
  unfold Holds
  rw [h.fs]
  refine Objects.Reach.mono (fun p hp _ c hc => ?_) hx
  change c ∈ g.entries p
  rw [h.entries hp]
  exact hc

theorem held (h : SameShape f g) (hx : g.Holds x) : f.Holds x := by
  unfold Holds at hx
  rw [h.fs] at hx
  induction hx with
  | refl => exact holds_root f
  | @tail p c _ hc ih =>
    change c ∈ g.entries p at hc
    rw [h.entries ih] at hc
    exact ih.entry hc

theorem symm (h : SameShape f g) : SameShape g f where
  fs := h.fs.symm
  limit := h.limit.symm
  name x hx := (h.name x (h.held hx)).symm
  type x hx := (h.type x (h.held hx)).symm
  contents x hx := (h.contents x (h.held hx)).symm
  target x hx := (h.target x (h.held hx)).symm

theorem trans {k : Heap} (h : SameShape f g) (h' : SameShape g k) : SameShape f k where
  fs := h'.fs.trans h.fs
  limit := h'.limit.trans h.limit
  name x hx := (h'.name x (h.holds hx)).trans (h.name x hx)
  type x hx := (h'.type x (h.holds hx)).trans (h.type x hx)
  contents x hx := (h'.contents x (h.holds hx)).trans (h.contents x hx)
  target x hx := (h'.target x (h.holds hx)).trans (h.target x hx)

theorem listing (h : SameShape f g) (hp : f.Holds p) : g.listing p = f.listing p := by
  unfold Heap.listing
  rw [h.contents p hp]

theorem map_name (h : SameShape f g) {xs : List Ref} (hxs : ∀ x ∈ xs, f.Holds x) :
    xs.map g.name = xs.map f.name :=
  List.map_congr_left fun x hx => h.name x (hxs x hx)

theorem scan (h : SameShape f g) (keep : Bool) {xs : List Ref} (hxs : ∀ x ∈ xs, f.Holds x) (p : Ref) :
    g.scan look keep piece xs p = f.scan look keep piece xs p := by
  induction xs generalizing p with
  | nil => rfl
  | cons x xs ih =>
    have hx := hxs x List.mem_cons_self
    have hrest := ih fun y hy => hxs y (List.mem_cons_of_mem x hy)
    unfold Heap.scan followLink Heap.name
    rw [h.name x hx, h.type x hx, h.target x hx]
    simp only [hrest]

theorem walk (h : SameShape f g) (hlook : ∀ t x, look t = .ok (some x) → f.Holds x) (follow : Bool)
    (hp : f.Holds p) : g.walk look last follow pieces p = f.walk look last follow pieces p := by
  induction pieces generalizing p with
  | nil => rfl
  | cons piece rest ih =>
    unfold Heap.walk
    rw [h.listing hp]
    cases hlist : f.listing p with
    | error e => rfl
    | ok xs =>
      have hxs : ∀ x ∈ xs, f.Holds x := fun x hx => hp.entry (listing_eq hlist ▸ hx)
      simp only [h.map_name hxs, h.scan _ hxs]
      split
      · rfl
      · cases hscan : f.scan look (piece = last ∧ ¬ follow) piece xs p with
        | error e => rfl
        | ok r =>
          cases r with
          | none => rfl
          | some q => exact ih (holds_scan hlook hxs hp hscan)

theorem getfileAt (h : SameShape f g) (depth : Nat) (path : Str) (follow : Bool) :
    g.getfileAt depth path follow = f.getfileAt depth path follow := by
  induction depth generalizing path with
  | zero => rfl
  | succ depth ih =>
    have hlook : (fun t => g.getfileAt depth t follow) = fun t => f.getfileAt depth t follow := by
      funext t
      exact ih t
    unfold Heap.getfileAt
    rw [hlook, h.fs, h.walk (fun t x ht => holds_getfileAt ht) follow (holds_root f)]

theorem getfile (h : SameShape f g) (path : Str) (follow : Bool) :
    g.getfile path follow = f.getfile path follow := by
  unfold Heap.getfile
  rw [h.limit, h.getfileAt]

theorem getPathFrom (h : SameShape f g) (hp : f.Holds p) :
    g.getPathFrom pieces p = f.getPathFrom pieces p := by
  induction pieces generalizing p with
  | nil => rfl
  | cons part rest ih =>
    unfold Heap.getPathFrom
    rw [h.listing hp]
    split_ifs
    · exact ih hp
    · cases hlist : f.listing p with
      | error e => rfl
      | ok xs =>
        have hxs : ∀ x ∈ xs, f.Holds x := fun x hx => hp.entry (listing_eq hlist ▸ hx)
        have hfind : (xs.find? fun c => g.name c = part) = xs.find? fun c => f.name c = part :=
          List.find?_congr fun x hx => by rw [Heap.name, h.name x (hxs x hx), Heap.name]
        simp only [hfind]
        cases hc : xs.find? fun c => f.name c = part with
        | none => rfl
        | some c =>
          have hc : f.Holds c := hxs c (List.mem_of_find?_eq_some hc)
          simp only [h.type c hc, h.target c hc, h.getfile]
          split
          · cases (f.node c).target with
            | none => rfl
            | some target =>
              cases hfile : f.getfile target with
              | error e => simp only [hfile]
              | ok r =>
                cases r with
                | none => simp only [hfile]
                | some x =>
                  simp only [hfile]
                  exact ih (holds_getfile hfile)
          · exact ih hc

theorem getPath (h : SameShape f g) (path : Str) : g.getPath path = f.getPath path := by
  unfold Heap.getPath
  rw [h.fs, h.getPathFrom (holds_root f)]

end SameShape

/-! ## More calls -/

theorem scan_mono (hlook : ∀ t r, look t = .ok r → look' t = .ok r) {keep : Bool} {xs : List Ref}
    (h : f.scan look keep piece xs p = .ok r) : f.scan look' keep piece xs p = .ok r := by
  induction xs generalizing p with
  | nil => exact h
  | cons x xs ih =>
    unfold scan at h ⊢
    split at h
    · rename_i hname
      rw [if_pos hname]
      exact ih h
    · rename_i hname
      rw [if_neg hname]
      split at h
      · rename_i hkeep
        rw [if_pos hkeep]
        exact ih h
      · rename_i hkeep
        rw [if_neg hkeep]
        cases hlink : f.followLink look x with
        | error e =>
          rw [hlink] at h
          cases h
        | ok q =>
          have hlink' : f.followLink look' x = .ok q := by
            unfold followLink at hlink ⊢
            split at hlink
            · cases hlink
            · cases hlink
            · exact hlook _ _ hlink
          rw [hlink] at h
          rw [hlink']
          cases q with
          | none => exact h
          | some q => exact ih h

theorem walk_mono (hlook : ∀ t r, look t = .ok r → look' t = .ok r) {follow : Bool}
    (h : f.walk look last follow pieces p = .ok r) :
    f.walk look' last follow pieces p = .ok r := by
  induction pieces generalizing p with
  | nil => exact h
  | cons piece rest ih =>
    unfold walk at h ⊢
    cases hlist : f.listing p with
    | error e =>
      rw [hlist] at h
      cases h
    | ok xs =>
      rw [hlist] at h
      simp only at h ⊢
      split at h
      · rename_i hmem
        rw [if_pos hmem]
        exact h
      · rename_i hmem
        rw [if_neg hmem]
        cases hscan : f.scan look (piece = last ∧ ¬ follow) piece xs p with
        | error e =>
          rw [hscan] at h
          cases h
        | ok q =>
          rw [hscan] at h
          rw [scan_mono hlook hscan]
          cases q with
          | none => exact h
          | some q => exact ih h

theorem getfileAt_succ {depth : Nat} {follow : Bool} (h : f.getfileAt depth path follow = .ok r) :
    f.getfileAt (depth + 1) path follow = .ok r := by
  induction depth generalizing path r with
  | zero => cases h
  | succ depth ih =>
    unfold getfileAt at h ⊢
    split at h
    · rename_i hroot
      rw [if_pos hroot]
      exact h
    · rename_i hroot
      rw [if_neg hroot]
      exact walk_mono (fun t r ht => ih ht) h

/-- **More calls** find the same. -/
theorem getfileAt_mono {depth depth' : Nat} {follow : Bool} (hle : depth ≤ depth')
    (h : f.getfileAt depth path follow = .ok r) : f.getfileAt depth' path follow = .ok r := by
  induction depth', hle using Nat.le_induction with
  | base => exact h
  | succ depth' _ ih => exact getfileAt_succ ih

/-! ## One piece after the other -/

/-- The entry of a name, behind a link if it is one. -/
def Heap.hop (f : Heap) (look : Str → Except FsError (Option Ref)) (piece : Str) (p : Ref) :
    Except FsError (Option Ref) :=
  match f.listing p with
  | .error e => .error e
  | .ok xs =>
    match xs.find? fun x => f.name x = piece with
    | none => .ok none
    | some x => if (f.node x).type = .link then f.followLink look x else .ok (some x)

/-- A lookup that follows every link, piece by piece. -/
def Heap.route (f : Heap) (look : Str → Except FsError (Option Ref)) :
    List Str → Ref → Except FsError (Option Ref)
  | [], p => .ok (some p)
  | piece :: rest, p =>
    match f.hop look piece p with
    | .error e => .error e
    | .ok none => .ok none
    | .ok (some q) => route f look rest q

theorem scan_skip {xs : List Ref} (h : ∀ x ∈ xs, f.name x ≠ piece) (keep : Bool) (p : Ref) :
    f.scan look keep piece xs p = .ok (some p) := by
  induction xs generalizing p with
  | nil => rfl
  | cons x xs ih =>
    unfold scan
    rw [if_pos (h x List.mem_cons_self)]
    exact ih (fun y hy => h y (List.mem_cons_of_mem x hy)) p

/-- With names apart, the last entry of the name is the first. -/
theorem scan_eq {xs : List Ref} (hnodup : (xs.map f.name).Nodup) {p : Ref}
    (hmem : piece ∈ xs.map f.name) :
    f.scan look false piece xs p =
      match xs.find? fun x => f.name x = piece with
      | none => .ok none
      | some x => if (f.node x).type = .link then f.followLink look x else .ok (some x) := by
  induction xs generalizing p with
  | nil => exact absurd hmem List.not_mem_nil
  | cons x xs ih =>
    rw [List.map_cons, List.nodup_cons] at hnodup
    by_cases hname : f.name x = piece
    · have hskip : ∀ y ∈ xs, f.name y ≠ piece := fun y hy heq =>
        hnodup.1 (List.mem_map.mpr ⟨y, hy, heq.trans hname.symm⟩)
      unfold scan
      rw [if_neg (not_not.mpr hname), List.find?_cons_of_pos (by simpa using hname)]
      by_cases hlink : (f.node x).type = .link
      · rw [if_neg (by simp [hlink])]
        simp only [if_pos hlink]
        cases f.followLink look x with
        | error e => rfl
        | ok q =>
          cases q with
          | none => rfl
          | some q => exact scan_skip hskip false q
      · rw [if_pos (.inr hlink)]
        simp only [if_neg hlink]
        exact scan_skip hskip false x
    · have hmem : piece ∈ xs.map f.name := by
        rcases List.mem_cons.mp hmem with heq | hmem
        · exact absurd heq.symm hname
        · exact hmem
      unfold scan
      rw [if_pos hname, List.find?_cons_of_neg (by simpa using hname)]
      exact ih hnodup.2 hmem

theorem hop_holds (hlook : ∀ t x, look t = .ok (some x) → f.Holds x) (hp : f.Holds p)
    (h : f.hop look piece p = .ok (some q)) : f.Holds q := by
  unfold hop at h
  split at h
  · cases h
  · rename_i xs hxs
    split at h
    · cases h
    · rename_i x hx
      split at h
      · unfold followLink at h
        split at h
        · cases h
        · cases h
        · exact hlook _ _ h
      · obtain rfl : x = q := by simpa using h
        exact hp.entry (listing_eq hxs ▸ List.mem_of_find?_eq_some hx)

/-- The loop of `getfile` that follows every link. -/
theorem walk_eq_route (hnames : ∀ p, f.Holds p → ((f.entries p).map f.name).Nodup)
    (hlook : ∀ t x, look t = .ok (some x) → f.Holds x) (hp : f.Holds p) :
    f.walk look last true pieces p = f.route look pieces p := by
  induction pieces generalizing p with
  | nil => rfl
  | cons piece rest ih =>
    have hhop : f.walk look last true (piece :: rest) p =
        match f.hop look piece p with
        | .error e => .error e
        | .ok none => .ok none
        | .ok (some q) => f.walk look last true rest q := by
      unfold hop
      conv_lhs => unfold walk
      cases hlist : f.listing p with
      | error e => rfl
      | ok xs =>
        have hnodup := hnames p hp
        rw [← listing_eq hlist] at hnodup
        simp only [not_true_eq_false, and_false, decide_false]
        by_cases hmem : piece ∈ xs.map f.name
        · rw [if_neg (not_not.mpr hmem)]
          exact scan_eq hnodup hmem ▸ rfl
        · have hnone : (xs.find? fun x => f.name x = piece) = none := by
            rw [List.find?_eq_none]
            intro x hx
            simpa using fun heq => hmem (List.mem_map.mpr ⟨x, hx, heq⟩)
          rw [if_pos hmem, hnone]
    rw [hhop]
    unfold route
    cases hq : f.hop look piece p with
    | error e => rfl
    | ok r =>
      cases r with
      | none => rfl
      | some q => exact ih (hop_holds hlook hp hq)

theorem route_cons (piece : Str) (rest : List Str) (p : Ref) :
    f.route look (piece :: rest) p =
      match f.hop look piece p with
      | .error e => .error e
      | .ok none => .ok none
      | .ok (some q) => f.route look rest q := rfl

theorem route_append (as bs : List Str) (p : Ref) :
    f.route look (as ++ bs) p =
      match f.route look as p with
      | .error e => .error e
      | .ok none => .ok none
      | .ok (some q) => f.route look bs q := by
  induction as generalizing p with
  | nil => rfl
  | cons a as ih =>
    rw [List.cons_append, route_cons, route_cons]
    cases f.hop look a p with
    | error e => rfl
    | ok r =>
      cases r with
      | none => rfl
      | some q => exact ih q

/-- Links, as a lookup of `depth + 1` calls follows them. -/
def Heap.links (f : Heap) (depth : Nat) (t : Str) : Except FsError (Option Ref) :=
  f.getfileAt depth t true

theorem links_holds {depth : Nat} {t : Str} (h : f.links depth t = .ok (some x)) : f.Holds x :=
  holds_getfileAt h

section Names

variable {depth : Nat} (hnames : ∀ p, f.Holds p → ((f.entries p).map f.name).Nodup)
include hnames

theorem getfileAt_eq_route (hpath : path ≠ ['/']) :
    f.getfileAt (depth + 1) path true =
      f.route (f.links depth) (split (stripSlash path)) f.fs := by
  unfold getfileAt
  rw [if_neg hpath]
  exact walk_eq_route hnames (fun t x => links_holds) (holds_root _)

/-- `getfile` on a normal path. -/
theorem getfileAt_normal (hpieces : Pieces pieces) :
    f.getfileAt (depth + 1) ('/' :: join pieces) true = f.route (f.links depth) pieces f.fs := by
  by_cases hnil : pieces = []
  · subst hnil
    rfl
  · rw [getfileAt_eq_route hnames, split_stripSlash hpieces hnil]
    intro heq
    have hjoin : join pieces = [] := (List.cons.inj heq).2
    have hsplit := split_join hpieces hnil
    rw [hjoin] at hsplit
    have hmem : ([] : Str) ∈ pieces := by
      rw [← hsplit]
      exact List.mem_singleton_self []
    exact (hpieces [] hmem).1 rfl

end Names

/-! ## `get_path` and `getfile` -/

/-- A relative target is looked up below the root, by both. -/
theorem getfileAt_cons_slash {depth : Nat} (c : Char) (t : Str) (hc : c ≠ '/') (follow : Bool) :
    f.getfileAt depth ('/' :: c :: t) follow = f.getfileAt depth (c :: t) follow := by
  cases depth with
  | zero => rfl
  | succ depth =>
    have hroot : c :: t ≠ ['/'] := fun heq => hc (List.cons.inj heq).1
    unfold getfileAt
    rw [if_neg (by simp), if_neg hroot, stripSlash_cons]

/-- `get_path` on a normal path. -/
theorem getPath_normal (hpieces : Pieces pieces) :
    f.getPath ('/' :: join pieces) = f.getPathFrom pieces f.fs := by
  have hskip : ∀ rest, f.getPathFrom ([] :: rest) f.fs = f.getPathFrom rest f.fs := fun _ => if_pos rfl
  unfold getPath
  rw [split_cons, hskip]
  by_cases hnil : pieces = []
  · subst hnil
    exact hskip []
  · rw [split_join hpieces hnil]

section Named

variable {f g : HoneyPotFilesystem} {depth : Nat}

theorem getPathFrom_eq_iff (hlimit : f.limit = depth + 1) (hpieces : Pieces pieces)
    (hp : f.Holds p) {r : Option Ref} (h : f.route (f.links depth) pieces p = .ok r) (d : Ref) :
    f.getPathFrom pieces p = .ok d ↔ r = some d := by
  induction pieces generalizing p with
  | nil =>
    obtain rfl : some p = r := by simpa [route] using h
    simp [getPathFrom]
  | cons piece rest ih =>
    have hrest : Pieces rest := fun x hx => hpieces x (List.mem_cons_of_mem piece hx)
    unfold getPathFrom
    rw [if_neg (hpieces piece List.mem_cons_self).1]
    unfold route hop at h
    cases hlist : f.listing p with
    | error e =>
      rw [hlist] at h
      cases h
    | ok xs =>
      rw [hlist] at h
      simp only at h ⊢
      cases hx : xs.find? fun x => f.name x = piece with
      | none =>
        rw [hx] at h
        obtain rfl : none = r := by simpa using h
        simp
      | some x =>
        have hxh : f.Holds x := hp.entry (listing_eq hlist ▸ List.mem_of_find?_eq_some hx)
        rw [hx] at h
        simp only at h ⊢
        by_cases hlink : (f.node x).type = .link
        · rw [if_pos hlink] at h ⊢
          unfold followLink at h
          cases htarget : (f.node x).target with
          | none =>
            rw [htarget] at h
            cases h
          | some t =>
            rw [htarget] at h
            cases t with
            | nil => cases h
            | cons c t =>
              simp only at h ⊢
              cases hlook : f.links depth (if c = '/' then c :: t else '/' :: c :: t) with
              | error e =>
                rw [hlook] at h
                cases h
              | ok q =>
                have hfile : f.getfile (c :: t) = .ok q := by
                  unfold getfile
                  rw [hlimit]
                  unfold links at hlook
                  refine getfileAt_succ ?_
                  split_ifs at hlook with hc
                  · exact hlook
                  · rwa [getfileAt_cons_slash c t hc] at hlook
                rw [hlook] at h
                rw [hfile]
                cases q with
                | none =>
                  obtain rfl : none = r := by simpa using h
                  simp
                | some q => exact ih hrest (links_holds hlook) h
        · rw [if_neg hlink] at h ⊢
          exact ih hrest hxh h

/-- **`get_path` and `getfile`** find the same directory. -/
theorem getPath_eq_iff (hf : Named f) (hpieces : Pieces pieces) {r : Option Ref}
    (h : f.getfile ('/' :: join pieces) = .ok r) (d : Ref) :
    f.getPath ('/' :: join pieces) = .ok d ↔ r = some d := by
  unfold getfile at h
  cases hlimit : f.limit with
  | zero =>
    rw [hlimit] at h
    cases h
  | succ depth =>
    rw [hlimit, getfileAt_normal hf.names hpieces] at h
    rw [getPath_normal hpieces]
    exact getPathFrom_eq_iff hlimit hpieces (holds_root _) h d

end Named

end Cowrie.Shell.Fs
