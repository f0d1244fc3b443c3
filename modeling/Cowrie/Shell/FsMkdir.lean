import Cowrie.Shell.FsMkfile
import Cowrie.Shell.FsRun

/-!
# `mkdir` and its arguments (`src/cowrie/commands/fs.py:567-581`, `fs.py:373-395`)

The loop of `Command_mkdir.call` returns at the end of its first turn, so that it handles one argument. It
catches `fs.FileNotFound`, but `HoneyPotFilesystem.mkdir` raises an `OSError` where the parent is missing.

* `Handled` is what is asked for one argument, `HandledAll` for all of them, one after the other: a
  directory is made where there is a parent and no such path, and otherwise there is one error.
* Each handled argument adds one to the `weight` of a session, and `mkdir` adds at most one in all.
* **`mkdir_handles_iff`**: the arguments are handled exactly if there is at most one, and that exists or
  has a parent.
-/

namespace Cowrie.Shell.Fs

open Cowrie.Lib Heap HoneyPotFilesystem

/-- `g` is `f` with a new directory in `d`, and nothing else is different. -/
structure MadeDirectory (f g : HoneyPotFilesystem) (d : Ref) (name : Str) : Prop where
  new : (g.node f.next).name = name ∧ (g.node f.next).type = .dir ∧ (g.node f.next).contents = .list []
  parent : ∃ xs, (f.node d).contents = .list xs ∧
    g.node d = { f.node d with contents := .list (xs ++ [f.next]) }
  others : ∀ x, x ≠ d → x ≠ f.next → g.node x = f.node x
  fs : g.fs = f.fs
  limit : g.limit = f.limit
  home : g.home = f.home
  next : g.next = f.next + 1
  newcount : g.newcount = f.newcount + 1
  tempfiles : g.tempfiles = f.tempfiles
  filenames : g.filenames = f.filenames

/-- The parent of a path: a node with a list of entries. -/
def HasParent (f : HoneyPotFilesystem) (pname : Str) (d : Ref) : Prop :=
  f.getPath (dirname (stripSlash pname)) = .ok d ∧ ∃ xs, (f.node d).contents = .list xs

/-- The argument names a path that does not exist, with a parent that does. -/
def Missing (user : User) (arg : Str) (f : HoneyPotFilesystem) (pname : Str) (d : Ref) : Prop :=
  resolve user arg f = .ok pname ∧ f.exists pname = .ok false ∧ HasParent f pname d

/-- What is asked for one argument. -/
inductive Handled (user : User) (arg : Str) (s : Session) : Session → Prop
  | created {pname : Str} {d : Ref} {g : HoneyPotFilesystem} (h : Missing user arg s.fs pname d)
      (hg : MadeDirectory s.fs g d (basename pname)) : Handled user arg s { s with fs := g }
  | refused (message : Str) (h : ¬ ∃ pname d, Missing user arg s.fs pname d) :
      Handled user arg s { s with written := s.written ++ [.err message] }

/-- What is asked for all of them; each argument meets what the ones before it have left. -/
inductive HandledAll (user : User) : List Str → Session → Session → Prop
  | nil (s : Session) : HandledAll user [] s s
  | cons {arg : Str} {args : List Str} {s u t : Session} (harg : Handled user arg s u)
      (hargs : HandledAll user args u t) : HandledAll user (arg :: args) s t

/-- How much has been made or written. -/
def Session.weight (s : Session) : Nat := s.fs.newcount + s.written.length

theorem Handled.weight {user : User} {arg : Str} {s t : Session} (h : Handled user arg s t) :
    t.weight = s.weight + 1 := by
  unfold Session.weight
  cases h with
  | created h hg =>
    simp only [hg.newcount]
    omega
  | refused message h =>
    simp only [List.length_append, List.length_singleton]
    omega

theorem HandledAll.weight {user : User} {args : List Str} {s t : Session}
    (h : HandledAll user args s t) : t.weight = s.weight + args.length := by
  induction h with
  | nil s => rfl
  | cons harg hargs ih =>
    rw [ih, harg.weight, List.length_cons]
    omega

/-! ## One call of `HoneyPotFilesystem.mkdir` -/

section Mkdir

variable {f : HoneyPotFilesystem} {path : Str} {d : Ref} (uid gid : Int) (size mode : Nat)

theorem exec_mkdir (hused : ∀ x, f.Holds x → x < f.next) (hcount : f.newcount ≤ 10000)
    (hpath : stripSlash path ≠ []) (h : HasParent f path d) :
    ∃ g, exec (mkdir path uid gid size mode) f = (.ok (), g) ∧
      MadeDirectory f g d (basename path) := by
  obtain ⟨hd, xs, hlist⟩ := h
  have hne : d ≠ f.next := Nat.ne_of_lt (hused d (holds_getPath hd))
  let t : HoneyPotFilesystem := { f with clock := fun i => f.clock (i + 1) }
  let n : Node := { name := basename path, type := .dir, uid, gid, size, mode, ctime := f.clock 0 }
  refine ⟨{ (t.alloc n).setEntries d (xs ++ [f.next]) with newcount := f.newcount + 1 }, ?_, ?_⟩
  · unfold mkdir time
    rw [exec_get_bind, if_neg (by omega)]
    simp only [bind_assoc, exec_get_bind, exec_modify_bind, pure_bind]
    rw [if_neg hpath]
    have hquery : exec (query (getPathOrENOENT path (dirname (stripSlash path)))) t = (.ok d, t) := by
      rw [exec_query]
      unfold getPathOrENOENT
      rw [show t.getPath (dirname (stripSlash path)) = .ok d from hd]
    rw [exec_bind_ok hquery, exec_bind_ok (exec_appendNew (f := t) (n := n) hlist hne)]
    rfl
  · have hnode : ∀ x, ((t.alloc n).setEntries d (xs ++ [f.next])).node x =
        if x = d then { f.node d with contents := .list (xs ++ [f.next]) }
        else if x = f.next then n else f.node x := by
      intro x
      rw [setEntries, node_setNode, node_alloc, node_alloc, if_neg hne]
    have hnew : ((t.alloc n).setEntries d (xs ++ [f.next])).node f.next = n := by
      rw [hnode, if_neg hne.symm, if_pos rfl]
    refine ⟨?_, ⟨xs, hlist, ?_⟩, fun x hx hnext => ?_, rfl, rfl, rfl, rfl, rfl, rfl, rfl⟩
    · exact ⟨congrArg Node.name hnew, congrArg Node.type hnew, congrArg Node.contents hnew⟩
    · exact (hnode d).trans (if_pos rfl)
    · exact (hnode x).trans ((if_neg hx).trans (if_neg hnext))

/-- `bytes` have no `append`. -/
theorem exec_appendNew_bytes {n : Node} {data : Bytes} (hbytes : (f.node d).contents = .bytes data)
    (hd : d ≠ f.next) : exec (appendNew d n) f = (.error .attributeError, f.alloc n) := by
  have hnode : (f.alloc n).node d = f.node d := by rw [node_alloc, if_neg hd]
  unfold appendNew append
  rw [exec_get_bind, exec_modify_bind, exec_get_bind, hnode, hbytes]
  rfl

/-- Without a parent it raises, but not what the command catches. -/
theorem exec_mkdir_else (hcount : f.newcount ≤ 10000) (hused : ∀ x, f.Holds x → x < f.next)
    (h : ¬ ∃ d, HasParent f path d) :
    ∃ e g, exec (mkdir path uid gid size mode) f = (.error e, g) ∧ e ≠ .fileNotFound := by
  let t : HoneyPotFilesystem := { f with clock := fun i => f.clock (i + 1) }
  unfold mkdir time
  rw [exec_get_bind, if_neg (by omega)]
  simp only [bind_assoc, exec_get_bind, exec_modify_bind, pure_bind]
  by_cases hpath : stripSlash path = []
  · rw [if_pos hpath]
    exact ⟨_, t, rfl, by simp⟩
  rw [if_neg hpath]
  have hquery : exec (query (getPathOrENOENT path (dirname (stripSlash path)))) t =
      (getPathOrENOENT path (dirname (stripSlash path)) f, t) := exec_query _ _
  cases hparent : f.getPath (dirname (stripSlash path)) with
  | error e =>
    obtain ⟨e', he', hne⟩ : ∃ e', getPathOrENOENT path (dirname (stripSlash path)) f = .error e' ∧
        e' ≠ .fileNotFound := by
      unfold getPathOrENOENT
      rw [hparent]
      cases e <;> exact ⟨_, rfl, by simp⟩
    rw [he'] at hquery
    exact ⟨e', t, exec_bind_error hquery, hne⟩
  | ok d =>
    -- the parent is there, but its contents are `bytes`
    have hd : getPathOrENOENT path (dirname (stripSlash path)) f = .ok d := by
      unfold getPathOrENOENT
      rw [hparent]
    rw [hd] at hquery
    rw [exec_bind_ok hquery]
    have hne : d ≠ t.next := Nat.ne_of_lt (hused d (holds_getPath hparent))
    cases hcontents : (f.node d).contents with
    | list xs => exact absurd ⟨d, hparent, xs, hcontents⟩ h
    | bytes data =>
      exact ⟨.attributeError, _, exec_bind_error (exec_appendNew_bytes hcontents hne), by simp⟩

/-- The count grows by one, unless it raises. -/
theorem counts_mkdir : Ensures (fun g => g.newcount = f.newcount) (mkdir path uid gid size mode)
    (fun _ g => g.newcount = f.newcount + 1) f := by
  unfold mkdir
  rw [ensures_bind]
  refine ensures_get (ensures_ite (fun _ => ensures_throw rfl) fun _ => ?_)
  unfold time
  simp only [ensures_bind]
  refine ensures_get (ensures_modify (ensures_pure ?_))
  refine ensures_ite (fun _ => ensures_throw rfl) fun _ => ?_
  rw [ensures_bind]
  refine ensures_query rfl fun d _ => ?_
  rw [ensures_bind]
  unfold appendNew
  rw [ensures_bind]
  refine ensures_get ?_
  rw [ensures_bind]
  refine ensures_modify ?_
  unfold append
  rw [ensures_bind]
  refine ensures_get ?_
  split
  · exact ensures_throw rfl
  · exact ensures_modify (ensures_modify rfl)

end Mkdir

/-! ## The command -/

section Command

variable {user : User} {args : List Str} {arg : Str} {s t : Session}

theorem stripSlash_missing {f : HoneyPotFilesystem} {pname : Str}
    (h : resolve user arg f = .ok pname) (hmissing : f.exists pname = .ok false) :
    stripSlash pname ≠ [] := fun hstrip => by
  have hbase := basename_missing h hmissing
  obtain ⟨pieces, rfl, hpieces⟩ := resolvePath_eq (resolve_eq h)
  have hne : pieces ≠ [] := by
    rintro rfl
    exact hbase rfl
  have hsplit := split_stripSlash hpieces hne
  rw [hstrip] at hsplit
  exact (hpieces [] (hsplit ▸ List.mem_singleton_self [])).1 rfl

/-- It makes one directory or writes one error, at most. -/
theorem weight_mkdirCommand (h : exec (mkdirCommand user args) s = (.ok (), t)) :
    t.weight ≤ s.weight + 1 := by
  have hreport : ∀ u : Session, u.weight = s.weight → ∀ data, Ensures (fun _ => True)
      (errorWrite data) (fun _ v => v.weight ≤ s.weight + 1) u := by
    intro u hu data
    refine ensures_modify ?_
    change u.fs.newcount + (u.written ++ [_]).length ≤ _
    rw [List.length_append, List.length_singleton, ← hu, Session.weight, Nat.add_assoc]
  suffices hall : Ensures (fun _ => True) (mkdirCommand user args)
      (fun _ v => v.weight ≤ s.weight + 1) s from hall.ok h
  cases args with
  | nil => exact ensures_pure (Nat.le_succ _)
  | cons arg rest =>
    unfold mkdirCommand
    rw [ensures_bind]
    refine ensures_query trivial fun pname _ => ?_
    rw [ensures_bind]
    refine ensures_query trivial fun found _ => ensures_ite (fun _ => hreport s rfl _) fun _ => ?_
    refine ensures_tryCatch (E := fun u => u.weight = s.weight) (ensures_zoom ?_) fun e u hu => ?_
    · refine (counts_mkdir user.uid user.gid 4096 16877).mono (fun g hg => ?_) fun _ g _ hg => ?_
      · change g.newcount + s.written.length = s.weight
        rw [hg, Session.weight]
      · change g.newcount + s.written.length ≤ s.weight + 1
        rw [hg, Session.weight]
        omega
    · exact ensures_ite (fun _ => hreport u hu _) fun _ => ensures_throw trivial

/-- One argument is handled: its path exists, or has a parent. -/
def Accepts (user : User) (arg : Str) (f : HoneyPotFilesystem) : Prop :=
  ∃ pname, resolve user arg f = .ok pname ∧
    (f.exists pname = .ok true ∨ f.exists pname = .ok false ∧ ∃ d, HasParent f pname d)

theorem not_missing {pname : Str} (hpname : resolve user arg s.fs = .ok pname)
    (h : s.fs.exists pname = .ok true) : ¬ ∃ pname d, Missing user arg s.fs pname d := by
  rintro ⟨other, d, hother, hmissing, -⟩
  obtain rfl : pname = other := Except.ok.inj (hpname.symm.trans hother)
  cases h.symm.trans hmissing

theorem accepts_iff {f : HoneyPotFilesystem} {pname : Str} (h : resolve user arg f = .ok pname) :
    Accepts user arg f ↔
      f.exists pname = .ok true ∨ f.exists pname = .ok false ∧ ∃ d, HasParent f pname d := by
  constructor
  · rintro ⟨other, hother, hexists⟩
    obtain rfl : pname = other := Except.ok.inj (h.symm.trans hother)
    exact hexists
  · exact fun hexists => ⟨pname, h, hexists⟩

/-- **The first argument**, which is the only one. -/
theorem handled_iff (hused : ∀ x, s.fs.Holds x → x < s.fs.next) (hcount : s.fs.newcount ≤ 10000)
    (rest : List Str) :
    (∃ t, exec (mkdirCommand user (arg :: rest)) s = (.ok (), t) ∧ Handled user arg s t) ↔
      Accepts user arg s.fs := by
  unfold mkdirCommand
  cases hpname : resolve user arg s.fs with
  | error e =>
    have hq : exec (ask (resolve user arg)) s = (.error e, s) := (exec_ask _ s).trans (by rw [hpname])
    rw [exec_bind_error hq]
    refine iff_of_false ?_ ?_
    · rintro ⟨t, ht, -⟩
      cases ht
    · rintro ⟨pname, hok, -⟩
      cases hpname.symm.trans hok
  | ok pname =>
    have hq : exec (ask (resolve user arg)) s = (.ok pname, s) := (exec_ask _ s).trans (by rw [hpname])
    rw [accepts_iff hpname, exec_bind_ok hq]
    have hq : exec (ask fun fs => fs.exists pname) s = (s.fs.exists pname, s) := exec_ask _ s
    cases hfound : s.fs.exists pname with
    | error e =>
      rw [hfound] at hq
      rw [exec_bind_error hq]
      refine iff_of_false ?_ (by simp)
      rintro ⟨t, ht, -⟩
      cases ht
    | ok found =>
      rw [hfound] at hq
      rw [exec_bind_ok hq]
      cases found with
      | true =>
        rw [if_pos rfl]
        exact iff_of_true ⟨_, rfl, .refused _ (not_missing hpname hfound)⟩ (.inl rfl)
      | false =>
        rw [if_neg (by simp), exec_tryCatch]
        unfold onFs
        rw [exec_zoom]
        by_cases hparent : ∃ d, HasParent s.fs pname d
        · obtain ⟨d, hd⟩ := hparent
          obtain ⟨g, hexec, hmade⟩ := exec_mkdir user.uid user.gid 4096 16877 hused hcount
            (stripSlash_missing hpname hfound) hd
          rw [hexec]
          exact iff_of_true ⟨_, rfl, .created ⟨hpname, hfound, hd⟩ hmade⟩ (.inr ⟨rfl, d, hd⟩)
        · obtain ⟨e, g, hexec, hne⟩ :=
            exec_mkdir_else user.uid user.gid 4096 16877 hcount hused hparent
          rw [hexec]
          dsimp only
          rw [if_neg hne]
          refine iff_of_false ?_ fun h => hparent (h.resolve_left (by simp)).2
          rintro ⟨t, ht, -⟩
          cases ht

/-- **The arguments are handled exactly if there is at most one**, and that exists or has a parent. -/
theorem mkdir_handles_iff (hused : ∀ x, s.fs.Holds x → x < s.fs.next)
    (hcount : s.fs.newcount + args.length ≤ 10001) :
    (∃ t, exec (mkdirCommand user args) s = (.ok (), t) ∧ HandledAll user args s t) ↔
      args = [] ∨ ∃ arg, args = [arg] ∧ Accepts user arg s.fs := by
  rcases args with _ | ⟨arg, _ | ⟨next, rest⟩⟩
  · exact ⟨fun _ => .inl rfl, fun _ => ⟨s, rfl, .nil s⟩⟩
  · have hone := @handled_iff user arg s hused (Nat.le_of_succ_le_succ hcount) []
    constructor
    · rintro ⟨t, ht, hall⟩
      cases hall with
      | cons harg hargs =>
        cases hargs
        exact .inr ⟨arg, rfl, hone.mp ⟨t, ht, harg⟩⟩
    · rintro (hnil | ⟨other, heq, haccepts⟩)
      · cases hnil
      · cases heq
        obtain ⟨t, ht, harg⟩ := hone.mpr haccepts
        exact ⟨t, ht, .cons harg (.nil t)⟩
  · -- two arguments weigh two
    constructor
    · rintro ⟨t, ht, hall⟩
      have htwo := hall.weight
      have hone := weight_mkdirCommand ht
      rw [List.length_cons, List.length_cons] at htwo
      omega
    · rintro (hnil | ⟨other, heq, -⟩)
      · cases hnil
      · cases heq

/-- `mkdir a` in `/tmp`. -/
theorem mkdir_handles_one : ∃ t, exec (mkdirCommand tmpUser [['a']]) { fs := smallFs } = (.ok (), t) ∧
    HandledAll tmpUser [['a']] { fs := smallFs } t :=
  (mkdir_handles_iff smallFs_wellFormed.used (by decide)).mpr
    (.inr ⟨['a'], rfl, ['/', 't', 'm', 'p', '/', 'a'], rfl, .inr ⟨rfl, 1, rfl, [], rfl⟩⟩)

/-- `mkdir a b` makes one directory, and `mkdir a/b` raises. -/
theorem mkdir_mishandles :
    (¬ ∃ t, exec (mkdirCommand tmpUser [['a'], ['b']]) { fs := smallFs } = (.ok (), t) ∧
      HandledAll tmpUser [['a'], ['b']] { fs := smallFs } t) ∧
    (exec (mkdirCommand tmpUser [['a', '/', 'b']]) { fs := smallFs }).1 =
      .error (.osError .ENOENT (some ['/', 't', 'm', 'p', '/', 'a', '/', 'b'])) := by
  constructor
  · rintro ⟨t, ht, hall⟩
    have htwo := hall.weight
    have hone := weight_mkdirCommand ht
    rw [List.length_cons, List.length_singleton] at htwo
    omega
  · rfl

end Command

end Cowrie.Shell.Fs
