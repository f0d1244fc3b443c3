import Cowrie.Shell.FsLookup
import Cowrie.Shell.FsCareful

/-!
# What `mkfile` leaves (`src/cowrie/shell/fs.py:347-371`)

`Replaced f g d n` says that `g` is `f`, except that in the directory `d` a new node `n`, a file without
entries, has taken the place of the entry of its name.

* `Replaced.named`: names stay apart.
* **`Replaced.forward`**: a lookup that found a node finds it still, or the new node where it had found what
  was replaced; `Replaced.backward`: it finds nothing that it did not find before, but the new node.
* **`exec_mkfile`**: what `mkfile` does to a `Named` file system; either it replaces the entry in the
  directory that `get_path` finds, or lookups are as before.
-/

namespace Cowrie.Shell.Fs

open Cowrie.Lib Heap HoneyPotFilesystem

variable {f g : HoneyPotFilesystem} {d p q x y : Ref} {n : Node} {path piece : Str}
  {pieces : List Str} {look look' : Str → Except FsError (Option Ref)} {depth : Nat}

/-- In `d` the new node `n` has taken the place of the entry of its name. -/
structure Replaced (f g : HoneyPotFilesystem) (d : Ref) (n : Node) : Prop where
  fs : g.fs = f.fs
  limit : g.limit = f.limit
  home : g.home = f.home
  next : g.next = f.next + 1
  held : f.Holds d
  list : ∃ xs, (f.node d).contents = .list xs
  at_new : g.node f.next = n
  at_dir : g.node d = { f.node d with
    contents := .list ((f.entries d).filter (fun x => f.name x ≠ n.name) ++ [f.next]) }
  elsewhere : ∀ x, x ≠ d → x ≠ f.next → g.node x = f.node x
  type : n.type = .file
  contents : n.contents = .list []

namespace Replaced

theorem listing_new (h : Replaced f g d n) : g.listing f.next = .ok [] := by
  unfold Heap.listing
  rw [h.at_new, h.contents]

theorem listing_dir (h : Replaced f g d n) :
    g.listing d = .ok ((f.entries d).filter (fun x => f.name x ≠ n.name) ++ [f.next]) := by
  unfold Heap.listing
  rw [h.at_dir]

theorem listing_before (h : Replaced f g d n) : f.listing d = .ok (f.entries d) := by
  obtain ⟨xs, hxs⟩ := h.list
  unfold Heap.listing
  rw [hxs, entries_eq hxs]

theorem listing_other (h : Replaced f g d n) (hd : p ≠ d) (hnew : p ≠ f.next) :
    g.listing p = f.listing p := by
  unfold Heap.listing
  rw [h.elsewhere p hd hnew]

theorem name_new (h : Replaced f g d n) : g.name f.next = n.name := by
  unfold Heap.name
  rw [h.at_new]

theorem type_new (h : Replaced f g d n) : (g.node f.next).type = .file := by rw [h.at_new, h.type]

/-- Of an old node only the entries may change. -/
theorem node_old (h : Replaced f g d n) (hnew : x ≠ f.next) :
    g.node x = { f.node x with contents := (g.node x).contents } := by
  by_cases hd : x = d
  · subst hd
    rw [h.at_dir]
  · rw [h.elsewhere x hd hnew]

theorem name_old (h : Replaced f g d n) (hnew : x ≠ f.next) : g.name x = f.name x := by
  unfold Heap.name
  rw [h.node_old hnew]

theorem type_old (h : Replaced f g d n) (hnew : x ≠ f.next) : (g.node x).type = (f.node x).type := by
  rw [h.node_old hnew]

theorem followLink_old (h : Replaced f g d n) (hnew : x ≠ f.next) :
    g.followLink look x = f.followLink look x := by
  unfold followLink
  rw [h.node_old hnew]

theorem old (hf : Named f) (hx : f.Holds x) : x ≠ f.next := Nat.ne_of_lt (hf.used x hx)

/-! ### One piece of a path -/

/-- The entry of a name among old entries. -/
theorem find_old (h : Replaced f g d n) {xs : List Ref} (hxs : ∀ x ∈ xs, x ≠ f.next) (piece : Str) :
    (xs.find? fun x => g.name x = piece) = xs.find? fun x => f.name x = piece :=
  List.find?_congr fun x hx => by rw [h.name_old (hxs x hx)]

theorem hop_new (h : Replaced f g d n) : g.hop look piece f.next = .ok none := by
  unfold hop
  rw [h.listing_new]
  rfl

theorem hop_other (hf : Named f) (h : Replaced f g d n) (hp : f.Holds p) (hd : p ≠ d) :
    g.hop look piece p = f.hop look piece p := by
  unfold hop
  rw [h.listing_other hd (old hf hp)]
  cases hlist : f.listing p with
  | error e => rfl
  | ok xs =>
    have hxs : ∀ x ∈ xs, x ≠ f.next := fun x hx => old hf (hp.entry (listing_eq hlist ▸ hx))
    simp only [h.find_old hxs]
    cases hx : xs.find? fun x => f.name x = piece with
    | none => rfl
    | some x =>
      have hnew := hxs x (List.mem_of_find?_eq_some hx)
      simp only [h.type_old hnew, h.followLink_old hnew]

theorem entries_old (hf : Named f) (h : Replaced f g d n) (hx : x ∈ f.entries d) : x ≠ f.next :=
  old hf (h.held.entry hx)

theorem hop_dir (hf : Named f) (h : Replaced f g d n) :
    g.hop look n.name d = .ok (some f.next) := by
  have hnone : ((f.entries d).filter fun x => f.name x ≠ n.name).find?
      (fun x => g.name x = n.name) = none := by
    rw [List.find?_eq_none]
    intro x hx
    rw [List.mem_filter] at hx
    rw [h.name_old (entries_old hf h hx.1)]
    simpa using hx.2
  unfold hop
  rw [h.listing_dir]
  simp only [List.find?_append, hnone]
  simp [h.name_new, h.type_new]

theorem hop_dir_ne (hf : Named f) (h : Replaced f g d n) (hpiece : piece ≠ n.name) :
    g.hop look piece d = f.hop look piece d := by
  have hold : ((f.entries d).filter fun x => f.name x ≠ n.name).find? (fun x => g.name x = piece) =
      (f.entries d).find? fun x => f.name x = piece := by
    rw [h.find_old fun x hx => entries_old hf h (List.mem_filter.mp hx).1, List.find?_filter]
    congr 1
    funext x
    by_cases hname : f.name x = piece
    · simp [hname, hpiece]
    · simp [hname]
  have hnew : [f.next].find? (fun x => g.name x = piece) = none := by
    rw [List.find?_eq_none]
    intro x hx
    rw [List.mem_singleton.mp hx, h.name_new]
    simpa using Ne.symm hpiece
  unfold hop
  rw [h.listing_dir, h.listing_before]
  simp only [List.find?_append, hold, hnew, Option.or_none]
  cases hx : (f.entries d).find? fun x => f.name x = piece with
  | none => rfl
  | some x =>
    have hx := entries_old hf h (List.mem_of_find?_eq_some hx)
    simp only [h.type_old hx, h.followLink_old hx]

end Replaced

/-- A hop ends at an entry, or behind a link. -/
theorem hop_inv {f : Heap} (h : f.hop look piece p = .ok (some q)) :
    (∀ look', f.hop look' piece p = .ok (some q)) ∨
      ∃ t, look t = .ok (some q) ∧ ∀ look', f.hop look' piece p = look' t := by
  unfold hop at h ⊢
  cases hlist : f.listing p with
  | error e =>
    rw [hlist] at h
    cases h
  | ok xs =>
    rw [hlist] at h
    simp only at h ⊢
    cases hx : xs.find? fun x => f.name x = piece with
    | none =>
      rw [hx] at h
      cases h
    | some x =>
      rw [hx] at h
      simp only at h ⊢
      by_cases hlink : (f.node x).type = .link
      · rw [if_pos hlink] at h
        simp only [if_pos hlink]
        unfold followLink at h ⊢
        cases htarget : (f.node x).target with
        | none =>
          rw [htarget] at h
          cases h
        | some t =>
          rw [htarget] at h
          cases t with
          | nil => cases h
          | cons c t => exact .inr ⟨_, h, fun _ => rfl⟩
      · rw [if_neg hlink] at h
        exact .inl fun look' => by simpa [if_neg hlink] using h

/-- A node without entries leads nowhere. -/
theorem route_entries_nil {f : Heap} (hp : f.entries p = [])
    (h : f.route look pieces p = .ok (some q)) : pieces = [] ∧ q = p := by
  cases pieces with
  | nil =>
    obtain rfl : p = q := by simpa [route] using h
    exact ⟨rfl, rfl⟩
  | cons piece rest =>
    rw [route_cons] at h
    unfold hop at h
    cases hlist : f.listing p with
    | error e =>
      rw [hlist] at h
      cases h
    | ok xs =>
      have hxs := listing_eq hlist
      rw [hp] at hxs
      subst hxs
      rw [hlist] at h
      cases h

namespace Replaced

theorem holds (hf : Named f) (h : Replaced f g d n) (hx : g.Holds x) : f.Holds x ∨ x = f.next := by
  unfold Holds at hx
  rw [h.fs] at hx
  induction hx with
  | refl => exact .inl (holds_root _)
  | @tail p c _ hc ih =>
    change c ∈ g.entries p at hc
    rcases ih with hp | rfl
    · by_cases hd : p = d
      · subst hd
        rw [← listing_eq h.listing_dir, List.mem_append, List.mem_singleton] at hc
        rcases hc with hc | rfl
        · exact .inl (hp.entry (List.mem_filter.mp hc).1)
        · exact .inr rfl
      · unfold entries at hc
        rw [h.elsewhere p hd (old hf hp)] at hc
        exact .inl (hp.entry hc)
    · rw [← listing_eq h.listing_new] at hc
      exact absurd hc List.not_mem_nil

/-- **Names stay apart.** -/
theorem named (hf : Named f) (h : Replaced f g d n) : Named g where
  names p hp := by
    rcases h.holds hf hp with hp | rfl
    · by_cases hd : p = d
      · subst hd
        rw [← listing_eq h.listing_dir, List.map_append]
        have hmap : ((f.entries p).filter fun x => f.name x ≠ n.name).map g.name =
            ((f.entries p).filter fun x => f.name x ≠ n.name).map f.name :=
          List.map_congr_left fun x hx => h.name_old (entries_old hf h (List.mem_filter.mp hx).1)
        rw [hmap, List.map_singleton, h.name_new]
        refine List.Nodup.append ((hf.names p hp).sublist ?_) (List.nodup_singleton _) ?_
        · exact List.Sublist.map _ List.filter_sublist
        · rintro name hname hnew
          obtain rfl := List.mem_singleton.mp hnew
          obtain ⟨x, hx, hxname⟩ := List.mem_map.mp hname
          simpa [hxname] using (List.mem_filter.mp hx).2
      · have hentries : g.entries p = f.entries p := by
          unfold entries
          rw [h.elsewhere p hd (old hf hp)]
        have hmap : (f.entries p).map g.name = (f.entries p).map f.name :=
          List.map_congr_left fun x hx => h.name_old (old hf (hp.entry hx))
        rw [hentries, hmap]
        exact hf.names p hp
    · rw [← listing_eq h.listing_new]
      exact List.nodup_nil
  used x hx := by
    rw [h.next]
    rcases h.holds hf hx with hx | rfl
    · exact Nat.lt_succ_of_lt (hf.used x hx)
    · exact Nat.lt_succ_self _
  root := by
    rw [h.fs, h.type_old (old hf (holds_root _))]
    exact hf.root

/-! ### Whole paths -/

/-- What the entry that is replaced leads to, in some number of calls. -/
def Before (f : HoneyPotFilesystem) (d : Ref) (piece : Str) (y : Ref) : Prop :=
  ∃ depth < f.limit, f.hop (f.links depth) piece d = .ok (some y)

theorem route_forward (hf : Named f) (h : Replaced f g d n)
    (hplain : ∀ y, Before f d n.name y → f.entries y = []) (hdepth : depth < f.limit)
    (hlook : ∀ t y, f.links depth t = .ok (some y) →
      g.links depth t = .ok (some y) ∨ (g.links depth t = .ok (some f.next) ∧ Before f d n.name y))
    (hp : f.Holds p) (hy : f.route (f.links depth) pieces p = .ok (some y)) :
    g.route (g.links depth) pieces p = .ok (some y) ∨
      (g.route (g.links depth) pieces p = .ok (some f.next) ∧ Before f d n.name y) := by
  induction pieces generalizing p with
  | nil => exact .inl hy
  | cons piece rest ih =>
    rw [route_cons] at hy ⊢
    cases hhop : f.hop (f.links depth) piece p with
    | error e =>
      rw [hhop] at hy
      cases hy
    | ok r =>
      rw [hhop] at hy
      cases r with
      | none => cases hy
      | some q =>
        have hone : g.hop (g.links depth) piece p = .ok (some q) ∨
            (g.hop (g.links depth) piece p = .ok (some f.next) ∧ Before f d n.name q) := by
          by_cases hd : p = d ∧ piece = n.name
          · obtain ⟨rfl, rfl⟩ := hd
            exact .inr ⟨hop_dir hf h, depth, hdepth, hhop⟩
          · have hsame : ∀ look, g.hop look piece p = f.hop look piece p := by
              intro look
              by_cases hp' : p = d
              · subst hp'
                exact hop_dir_ne hf h fun heq => hd ⟨rfl, heq⟩
              · exact hop_other hf h hp hp'
            rw [hsame]
            rcases hop_inv hhop with hall | ⟨t, ht, hall⟩
            · exact .inl (hall _)
            · rw [hall]
              exact hlook t q ht
        rcases hone with hq | ⟨hq, hbefore⟩
        · rw [hq]
          exact ih (hop_holds (fun t x => links_holds) hp hhop) hy
        · obtain ⟨rfl, rfl⟩ := route_entries_nil (hplain q hbefore) hy
          rw [hq]
          exact .inr ⟨rfl, hbefore⟩

theorem getfileAt_forward (hf : Named f) (h : Replaced f g d n)
    (hplain : ∀ y, Before f d n.name y → f.entries y = []) (hdepth : depth ≤ f.limit)
    (hy : f.getfileAt depth path true = .ok (some y)) :
    g.getfileAt depth path true = .ok (some y) ∨
      (g.getfileAt depth path true = .ok (some f.next) ∧ Before f d n.name y) := by
  induction depth generalizing path y with
  | zero => cases hy
  | succ depth ih =>
    by_cases hroot : path = ['/']
    · subst hroot
      obtain rfl : f.fs = y := by simpa [getfileAt] using hy
      exact .inl (by simp [getfileAt, h.fs])
    · rw [getfileAt_eq_route hf.names hroot] at hy
      rw [getfileAt_eq_route (h.named hf).names hroot, h.fs]
      exact route_forward hf h hplain hdepth (fun t y => ih (Nat.le_of_succ_le hdepth)) (holds_root _) hy

theorem route_backward (hf : Named f) (h : Replaced f g d n)
    (hlook : ∀ t y, g.links depth t = .ok (some y) → y = f.next ∨ f.links depth t = .ok (some y))
    (hp : f.Holds p) (hy : g.route (g.links depth) pieces p = .ok (some y)) :
    y = f.next ∨ f.route (f.links depth) pieces p = .ok (some y) := by
  induction pieces generalizing p with
  | nil => exact .inr hy
  | cons piece rest ih =>
    rw [route_cons] at hy ⊢
    cases hhop : g.hop (g.links depth) piece p with
    | error e =>
      rw [hhop] at hy
      cases hy
    | ok r =>
      rw [hhop] at hy
      cases r with
      | none => cases hy
      | some q =>
        have hone : q = f.next ∨ f.hop (f.links depth) piece p = .ok (some q) := by
          by_cases hd : p = d ∧ piece = n.name
          · obtain ⟨rfl, rfl⟩ := hd
            rw [hop_dir hf h] at hhop
            exact .inl (Option.some.inj (Except.ok.inj hhop)).symm
          · have hsame : ∀ look, g.hop look piece p = f.hop look piece p := by
              intro look
              by_cases hp' : p = d
              · subst hp'
                exact hop_dir_ne hf h fun heq => hd ⟨rfl, heq⟩
              · exact hop_other hf h hp hp'
            rw [hsame] at hhop
            rcases hop_inv hhop with hall | ⟨t, ht, hall⟩
            · exact .inr (hall _)
            · rw [hall]
              exact hlook t q ht
        rcases hone with rfl | hq
        · have hnil : g.entries f.next = [] := (listing_eq h.listing_new).symm
          exact .inl (route_entries_nil hnil hy).2
        · rw [hq]
          exact ih (hop_holds (fun t x => links_holds) hp hq) hy

/-- **Backward.** -/
theorem getfileAt_backward (hf : Named f) (h : Replaced f g d n)
    (hy : g.getfileAt depth path true = .ok (some y)) :
    y = f.next ∨ f.getfileAt depth path true = .ok (some y) := by
  induction depth generalizing path y with
  | zero => cases hy
  | succ depth ih =>
    by_cases hroot : path = ['/']
    · subst hroot
      have hfs : g.fs = y := by simpa [getfileAt] using hy
      exact .inr (by simp [getfileAt, ← hfs, h.fs])
    · rw [getfileAt_eq_route (h.named hf).names hroot, h.fs] at hy
      rw [getfileAt_eq_route hf.names hroot]
      exact route_backward hf h (fun t y => ih) (holds_root _) hy

end Replaced

/-! ## The entry of a path -/

/-- A path that is not the root: its directory, then its name. -/
theorem getfile_append {pieces : List Str} {last : Str} (hf : Named f) (hlimit : f.limit = depth + 1)
    (hpieces : Pieces (pieces ++ [last])) :
    f.getfile ('/' :: join (pieces ++ [last])) =
      match f.getfile ('/' :: join pieces) with
      | .error e => .error e
      | .ok none => .ok none
      | .ok (some p) => f.hop (f.links depth) last p := by
  have hdir : Pieces pieces := fun x hx => hpieces x (List.mem_append_left _ hx)
  unfold getfile
  rw [hlimit, getfileAt_normal hf.names hpieces, getfileAt_normal hf.names hdir, route_append]
  cases f.route (f.links depth) pieces f.fs with
  | error e => rfl
  | ok r =>
    cases r with
    | none => rfl
    | some p =>
      simp only [route_cons]
      cases f.hop (f.links depth) last p with
      | error e => rfl
      | ok r => cases r <;> rfl

/-- The directory and the name of a path. -/
def Splits (path parent base : Str) : Prop :=
  ∃ pieces, parent = '/' :: join pieces ∧ path = '/' :: join (pieces ++ [base]) ∧
    Pieces (pieces ++ [base])

theorem Normal.splits (h : Normal path) (hroot : path ≠ ['/']) :
    Splits path (dirname path) (basename path) := by
  obtain ⟨pieces, rfl, hpieces, -⟩ := h
  cases pieces using List.reverseRecOn with
  | nil => exact absurd rfl hroot
  | append_singleton pieces last =>
    rw [dirname_join hpieces, basename_join hpieces]
    exact ⟨pieces, rfl, rfl, hpieces⟩

section Target

variable {parent base : Str} {r : Option Ref}

theorem limit_pos {follow : Bool} (h : f.getfile path follow = .ok r) :
    ∃ depth, f.limit = depth + 1 := by
  unfold getfile at h
  cases hlimit : f.limit with
  | zero =>
    rw [hlimit] at h
    cases h
  | succ depth => exact ⟨depth, rfl⟩

/-- Where `get_path` finds the directory, `getfile` does, and goes on to the entry. -/
theorem getfile_parent (hf : Named f) (hpath : Splits path parent base)
    (h : f.getfile path = .ok r) (hd : f.getPath parent = .ok d) :
    f.getfile parent = .ok (some d) := by
  obtain ⟨depth, hlimit⟩ := limit_pos h
  obtain ⟨pieces, rfl, rfl, hpieces⟩ := hpath
  have hdir : Pieces pieces := fun x hx => hpieces x (List.mem_append_left _ hx)
  rw [getfile_append hf hlimit hpieces] at h
  cases hparent : f.getfile ('/' :: join pieces) with
  | error e =>
    rw [hparent] at h
    cases h
  | ok q => rw [(getPath_eq_iff hf hdir hparent d).mp hd]

/-- The entry that `getfile` finds is in the directory that `get_path` finds. -/
theorem getPath_parent (hf : Named f) (hpath : Splits path parent base)
    (h : f.getfile path = .ok (some x)) :
    ∃ d, f.getPath parent = .ok d ∧ base ∈ (f.entries d).map f.name := by
  obtain ⟨depth, hlimit⟩ := limit_pos h
  obtain ⟨pieces, rfl, rfl, hpieces⟩ := hpath
  have hdir : Pieces pieces := fun x hx => hpieces x (List.mem_append_left _ hx)
  rw [getfile_append hf hlimit hpieces] at h
  cases hparent : f.getfile ('/' :: join pieces) with
  | error e =>
    rw [hparent] at h
    cases h
  | ok q =>
    rw [hparent] at h
    cases q with
    | none => cases h
    | some d =>
      refine ⟨d, (getPath_eq_iff hf hdir hparent d).mpr rfl, ?_⟩
      simp only at h
      unfold hop at h
      cases hlist : f.listing d with
      | error e =>
        rw [hlist] at h
        cases h
      | ok xs =>
        rw [hlist] at h
        simp only at h
        cases hy : xs.find? fun y => f.name y = base with
        | none =>
          rw [hy] at h
          cases h
        | some y =>
          rw [← listing_eq hlist]
          exact List.mem_map.mpr
            ⟨y, List.mem_of_find?_eq_some hy, by simpa using List.find?_some hy⟩

/-- What is replaced is what the path denotes. -/
theorem Replaced.before_eq (hf : Named f) (hpath : Splits path parent base)
    (hr : f.getfile path = .ok r) (hd : f.getPath parent = .ok d) (hy : Before f d base y) :
    r = some y := by
  have hparent := getfile_parent hf hpath hr hd
  obtain ⟨depth, hlimit⟩ := limit_pos hr
  obtain ⟨pieces, rfl, rfl, hpieces⟩ := hpath
  rw [getfile_append hf hlimit hpieces, hparent] at hr
  obtain ⟨depth', hlt, hhop⟩ := hy
  have hsame : f.hop (f.links depth) base d = .ok (some y) := by
    rcases hop_inv hhop with hall | ⟨t, ht, hall⟩
    · exact hall _
    · rw [hall]
      exact getfileAt_mono (by omega) ht
  exact Except.ok.inj (hr.symm.trans hsame)

/-- **The path now denotes the new node**, if its directory is found and nothing with entries is replaced. -/
theorem Replaced.target_of_parent (hf : Named f) (h : Replaced f g d n) (hpath : Splits path parent n.name)
    (hparent : f.getfile parent = .ok (some d)) (hbefore : ∀ y, Before f d n.name y → f.entries y = []) :
    g.getfile path = .ok (some f.next) := by
  obtain ⟨depth, hlimit⟩ := limit_pos hparent
  obtain ⟨pieces, rfl, rfl, hpieces⟩ := hpath
  rw [getfile_append (h.named hf) (h.limit.trans hlimit) hpieces]
  have hgdir : g.getfile ('/' :: join pieces) = .ok (some d) := by
    unfold getfile at hparent ⊢
    rw [h.limit]
    rcases h.getfileAt_forward hf hbefore le_rfl hparent with hsame | ⟨-, depth', hlt, hhop⟩
    · exact hsame
    · -- the directory is not its own entry
      have hnil := hbefore d ⟨depth', hlt, hhop⟩
      have hroute : f.route (f.links depth') [n.name] d = .ok (some d) := by
        rw [route_cons, hhop]
        rfl
      exact absurd (route_entries_nil hnil hroute).1 (by simp)
  rw [hgdir]
  exact hop_dir hf h

/-- The same, if the path denoted nothing with entries. -/
theorem Replaced.target (hf : Named f) (h : Replaced f g d n) (hpath : Splits path parent n.name)
    (hr : f.getfile path = .ok r) (hd : f.getPath parent = .ok d)
    (hplain : ∀ x, r = some x → f.entries x = []) : g.getfile path = .ok (some f.next) :=
  h.target_of_parent hf hpath (getfile_parent hf hpath hr hd) fun y hy =>
    hplain y (before_eq hf hpath hr hd hy)

/-- **What the path denotes now**, if anything, is the new node, in a directory that was found before. -/
theorem Replaced.found_parent (hf : Named f) (h : Replaced f g d n) (hpath : Splits path parent n.name)
    (hd : f.getPath parent = .ok d) (hx : g.getfile path = .ok (some x)) :
    x = f.next ∧ f.getfile parent = .ok (some d) := by
  obtain ⟨depth, hlimit⟩ := limit_pos hx
  obtain ⟨pieces, rfl, rfl, hpieces⟩ := hpath
  have hdir : Pieces pieces := fun x hx => hpieces x (List.mem_append_left _ hx)
  rw [getfile_append (h.named hf) hlimit hpieces] at hx
  cases hparent : g.getfile ('/' :: join pieces) with
  | error e =>
    rw [hparent] at hx
    cases hx
  | ok r =>
    rw [hparent] at hx
    cases r with
    | none => cases hx
    | some q =>
      simp only at hx
      unfold getfile at hparent
      rw [h.limit] at hparent
      rcases h.getfileAt_backward hf hparent with rfl | hold
      · rw [hop_new h] at hx
        cases hx
      · obtain rfl : q = d := Option.some.inj ((getPath_eq_iff hf hdir hold d).mp hd)
        rw [hop_dir hf h] at hx
        exact ⟨(Option.some.inj (Except.ok.inj hx)).symm, hold⟩

theorem Replaced.found (hf : Named f) (h : Replaced f g d n) (hpath : Splits path parent n.name)
    (hd : f.getPath parent = .ok d) (hx : g.getfile path = .ok (some x)) : x = f.next :=
  (h.found_parent hf hpath hd hx).1

end Target

/-! ## `mkfile` -/

/-- Nothing that a lookup can find has changed. -/
structure Untouched (f g : HoneyPotFilesystem) : Prop where
  fs : g.fs = f.fs
  limit : g.limit = f.limit
  home : g.home = f.home
  next : f.next ≤ g.next
  node : ∀ x, f.Holds x → g.node x = f.node x

theorem Untouched.refl (f : HoneyPotFilesystem) : Untouched f f := ⟨rfl, rfl, rfl, le_rfl, fun _ _ => rfl⟩

theorem Untouched.sameShape (h : Untouched f g) : SameShape f.toHeap g.toHeap where
  fs := h.fs
  limit := h.limit
  name x hx := by rw [h.node x hx]
  type x hx := by rw [h.node x hx]
  contents x hx := by rw [h.node x hx]
  target x hx := by rw [h.node x hx]

/-- Another shape, other names. -/
theorem Named.sameShape (hf : Named f) (h : SameShape f.toHeap g.toHeap) (hnext : f.next ≤ g.next) :
    Named g where
  names p hp := by
    have hp := h.held hp
    rw [h.entries hp, h.map_name fun x hx => hp.entry hx]
    exact hf.names p hp
  used x hx := Nat.lt_of_lt_of_le (hf.used x (h.held hx)) hnext
  root := by
    rw [h.fs, h.type _ (holds_root _)]
    exact hf.root

theorem setEntries_self {xs : List Ref} (hlist : (f.node d).contents = .list xs) :
    f.setEntries d xs = f := by
  have hnode : { f.node d with contents := .list xs } = f.node d := by rw [← hlist]
  unfold setEntries setNode
  rw [hnode, Function.update_eq_self]

/-- `_dir.remove(next(x for x in _dir if x[A_NAME] == outfile))` drops the entry of the name. -/
theorem exec_removeNamed {xs : List Ref} {outfile : Str} (hlimit : 0 < f.limit)
    (hnodup : (xs.map f.name).Nodup) (hlist : (f.node d).contents = .list xs) :
    exec (removeNamed d outfile) f =
      (.ok (), f.setEntries d (xs.filter fun x => f.name x ≠ outfile)) := by
  have hlisting : f.listing d = .ok xs := by
    unfold listing
    rw [hlist]
  unfold removeNamed
  rw [exec_bind, exec_query, hlisting]
  simp only [exec_get_bind]
  cases hx : xs.find? fun x => f.name x = outfile with
  | none =>
    have hall : xs.filter (fun x => f.name x ≠ outfile) = xs :=
      List.filter_eq_self.mpr fun x hx' => by simpa using List.find?_eq_none.mp hx x hx'
    rw [hall, setEntries_self hlist]
    rfl
  | some x =>
    obtain ⟨hname, pre, post, rfl, hpre⟩ := List.find?_eq_some_iff_append.mp hx
    have hname : f.name x = outfile := by simpa using hname
    have hfirst : FirstIs f.toHeap x (pre ++ x :: post) := by
      refine ⟨pre, post, rfl, fun y hy => ?_⟩
      have hyname : f.name y ≠ f.name x := by
        rw [hname]
        simpa using hpre y hy
      obtain ⟨depth, hdepth⟩ := Nat.exists_eq_succ_of_ne_zero hlimit.ne'
      unfold equal
      rw [hdepth]
      unfold equalAt
      have hne : y ≠ x := fun heq => hyname (by rw [heq])
      have hfields : (f.node y).name ≠ (f.node x).name := hyname
      simp [hne, hfields]
    have herase : (pre ++ x :: post).erase x =
        (pre ++ x :: post).filter fun y => f.name y ≠ outfile := by
      rw [List.Nodup.erase_eq_filter (List.Nodup.of_map _ hnodup)]
      refine List.filter_congr fun y hy => ?_
      have hinj : f.name y = outfile ↔ y = x := by
        rw [← hname]
        exact ⟨fun heq => List.inj_on_of_nodup_map hnodup hy (by simp) heq, fun heq => by rw [heq]⟩
      by_cases hyx : y = x <;> simp [hname, hinj, hyx]
    unfold removeEntry
    simp only [exec_get_bind, hlist]
    rw [exec_bind, exec_query, listRemove_of_first hfirst, herase]
    rfl

/-- `mkfile` gets as far as changing the directory `d`. -/
def Creates (f : HoneyPotFilesystem) (path : Str) (d : Ref) : Prop :=
  f.newcount ≤ 10000 ∧ ¬ isSpecial (dirname path) ∧ f.getPath (dirname path) = .ok d ∧
    ∃ xs, (f.node d).contents = .list xs

/-- `f` with the new node `n` in the place of the entry of its name in `d`. -/
def HoneyPotFilesystem.replaceEntry (f : HoneyPotFilesystem) (d : Ref) (n : Node) :
    HoneyPotFilesystem :=
  let ys := (f.entries d).filter fun x => f.name x ≠ n.name
  ((f.setEntries d ys).alloc n).setEntries d (ys ++ [f.next])

theorem replaced_replaceEntry (hf : Named f) (hd : f.Holds d) {xs : List Ref}
    (hlist : (f.node d).contents = .list xs) (htype : n.type = .file)
    (hcontents : n.contents = .list []) : Replaced f (f.replaceEntry d n) d n := by
  have hne : d ≠ f.next := Nat.ne_of_lt (hf.used d hd)
  refine ⟨rfl, rfl, rfl, rfl, hd, ⟨_, hlist⟩, ?_, ?_, fun x hx hnew => ?_, htype, hcontents⟩
  · simp [replaceEntry, setEntries, setNode, alloc, hne.symm]
  · simp [replaceEntry, setEntries, setNode, alloc, hne]
  · simp [replaceEntry, setEntries, setNode, alloc, hx, hnew]

theorem exec_appendNew {xs : List Ref} (hlist : (f.node d).contents = .list xs) (hd : d ≠ f.next) :
    exec (appendNew d n) f = (.ok (), (f.alloc n).setEntries d (xs ++ [f.next])) := by
  have hnode : (f.alloc n).node d = f.node d := by rw [node_alloc, if_neg hd]
  unfold appendNew append
  rw [exec_get_bind, exec_modify_bind, exec_get_bind, hnode, hlist]
  rfl

theorem exec_replaceEntry {α : Type} {k : FsM α} {xs : List Ref} (hf : Named f) (hlimit : 0 < f.limit)
    (hd : f.Holds d) (hlist : (f.node d).contents = .list xs) :
    exec (do removeNamed d n.name; appendNew d n; k) f = exec k (f.replaceEntry d n) := by
  have hnodup : (xs.map f.name).Nodup := entries_eq hlist ▸ hf.names d hd
  have hne : d ≠ f.next := Nat.ne_of_lt (hf.used d hd)
  obtain rfl := entries_eq hlist
  rw [exec_bind_ok (exec_removeNamed hlimit hnodup hlist)]
  refine exec_bind_ok (exec_appendNew ?_ hne)
  simp [setEntries, setNode]

/-- **`mkfile`**, where it makes a file. -/
theorem exec_mkfile_node (uid gid : Int) (size mode : Nat) (hf : Named f) (hlimit : 0 < f.limit)
    (h : Creates f path d) :
    ∃ g n, exec (mkfile path uid gid size mode) f = (.ok true, g) ∧ Replaced f g d n ∧
      n = { name := basename path, type := .file, uid, gid, size, mode, ctime := f.clock 0 } := by
  obtain ⟨hcount, hspecial, hd, xs, hlist⟩ := h
  let t : HoneyPotFilesystem := { f with clock := fun i => f.clock (i + 1) }
  have ht : Untouched f t := ⟨rfl, rfl, rfl, le_rfl, fun _ _ => rfl⟩
  let n : Node := { name := basename path, type := .file, uid, gid, size, mode, ctime := f.clock 0 }
  have hr := replaced_replaceEntry (n := n) hf (holds_getPath hd) hlist rfl rfl
  refine ⟨{ t.replaceEntry d n with newcount := t.newcount + 1 }, n, ?_, ?_, rfl⟩
  · unfold mkfile time
    rw [exec_get_bind, if_neg (by omega)]
    simp only [bind_assoc, exec_get_bind, exec_modify_bind, pure_bind]
    rw [if_neg hspecial]
    refine (exec_bind_ok (a := d) (u := t) ?_).trans ?_
    · rw [exec_query]
      exact congrArg (·, t) hd
    · exact exec_replaceEntry (n := n) (hf.sameShape ht.sameShape le_rfl) hlimit (holds_getPath hd) hlist
  · exact ⟨hr.fs, hr.limit, hr.home, hr.next, hr.held, hr.list, hr.at_new, hr.at_dir, hr.elsewhere, rfl,
      rfl⟩

/-- The fields of the new node that are looked up later. -/
theorem exec_mkfile (uid gid : Int) (size mode : Nat) (hf : Named f) (hlimit : 0 < f.limit)
    (h : Creates f path d) :
    ∃ g n, exec (mkfile path uid gid size mode) f = (.ok true, g) ∧ Replaced f g d n ∧
      n.name = basename path ∧ n.size = size ∧ n.realfile = none := by
  obtain ⟨g, n, hmade, hr, rfl⟩ := exec_mkfile_node uid gid size mode hf hlimit h
  exact ⟨g, _, hmade, hr, rfl, rfl, rfl⟩

theorem Untouched.trans {k : HoneyPotFilesystem} (h : Untouched f g) (h' : Untouched g k) :
    Untouched f k where
  fs := h'.fs.trans h.fs
  limit := h'.limit.trans h.limit
  home := h'.home.trans h.home
  next := h.next.trans h'.next
  node x hx := (h'.node x (h.sameShape.holds hx)).trans (h.node x hx)

/-- Where the contents are `bytes` there is no entry to replace. -/
theorem exec_replaceEntry_bytes {α : Type} {k : FsM α} {data : Bytes} (hf : Named f) (hd : f.Holds d)
    (hbytes : (f.node d).contents = .bytes data) (outfile : Str) :
    ∃ e g, exec (do removeNamed d outfile; appendNew d n; k) f = (.error e, g) ∧ Untouched f g := by
  cases data with
  | cons b data =>
    have hremove : exec (removeNamed d outfile) f = (.error .typeError, f) := by
      unfold removeNamed listing
      rw [exec_bind, exec_query, hbytes]
    exact ⟨_, f, exec_bind_error hremove, Untouched.refl f⟩
  | nil =>
    have hne : d ≠ f.next := Nat.ne_of_lt (hf.used d hd)
    have hremove : exec (removeNamed d outfile) f = (.ok (), f) := by
      unfold removeNamed listing
      rw [exec_bind, exec_query, hbytes]
      rfl
    have hnode : (f.alloc n).node d = f.node d := by rw [node_alloc, if_neg hne]
    have happend : exec (appendNew d n) f = (.error .attributeError, f.alloc n) := by
      unfold appendNew append
      rw [exec_get_bind, exec_modify_bind, exec_get_bind, hnode, hbytes]
      rfl
    refine ⟨.attributeError, f.alloc n, ?_, rfl, rfl, rfl, Nat.le_succ _, fun x hx => ?_⟩
    · rw [exec_bind_ok hremove]
      exact exec_bind_error happend
    · rw [node_alloc, if_neg (Nat.ne_of_lt (hf.used x hx))]

/-- **`mkfile`**, where it raises. -/
theorem exec_mkfile_else (uid gid : Int) (size mode : Nat) (hf : Named f) (hcount : f.newcount ≤ 10000)
    (h : ∀ d, ¬ Creates f path d) :
    ∃ e g, exec (mkfile path uid gid size mode) f = (.error e, g) ∧ Untouched f g := by
  let t : HoneyPotFilesystem := { f with clock := fun i => f.clock (i + 1) }
  have ht : Untouched f t := ⟨rfl, rfl, rfl, le_rfl, fun _ _ => rfl⟩
  unfold mkfile time
  rw [exec_get_bind, if_neg (by omega)]
  simp only [bind_assoc, exec_get_bind, exec_modify_bind, pure_bind]
  by_cases hspecial : isSpecial (dirname path) = true
  · rw [if_pos hspecial]
    exact ⟨_, t, rfl, ht⟩
  rw [if_neg hspecial]
  have hquery : exec (query fun f : HoneyPotFilesystem => f.getPath (dirname path)) t =
      (f.getPath (dirname path), t) := exec_query _ _
  cases hd : f.getPath (dirname path) with
  | error e =>
    rw [hd] at hquery
    exact ⟨e, t, exec_bind_error hquery, ht⟩
  | ok d =>
    rw [hd] at hquery
    rw [exec_bind_ok hquery]
    cases hcontents : (f.node d).contents with
    | list xs => exact absurd ⟨hcount, hspecial, hd, xs, hcontents⟩ (h d)
    | bytes data =>
      obtain ⟨e, g, hexec, hg⟩ := exec_replaceEntry_bytes (hf.sameShape ht.sameShape le_rfl)
        (holds_getPath hd) hcontents (basename path)
      exact ⟨e, g, hexec, ht.trans hg⟩

end Cowrie.Shell.Fs
