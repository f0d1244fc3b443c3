import Cowrie.Bytes
import Cowrie.Lib.Ensures
import Cowrie.Lib.ObjectTree
import Cowrie.Shell.Path
import Mathlib.Algebra.Order.Ring.Rat

/-!
# The virtual file system (`src/cowrie/shell/fs.py`)

A node is a Python list of ten fields, and a directory holds its entries by reference: an object can
be an entry of two directories or of itself, and `getfile` hands out the object, not a copy. So the
file system is a heap: `node` says what is behind each reference, those from `next` on are unused,
and `fs` is the root. `get_path` returns the contents list of a node for its callers to edit; here
`getPath` returns the node.

* `A_CONTENTS` is a list of entries or, in nodes of the pickle file, `bytes`. `listing` is a loop over
  it that reads names: an element of `bytes` is an `int`, which has none.
* `limit` is the depth of calls that the interpreter allows `getfile`, `==` and `copy.deepcopy`; below
  it is a `RecursionError`. `clock` is what `time.time()` will say, call by call.
* `==` on nodes compares the objects by identity first, as lists do with their elements.
* `Host` is what `open` learns from the host: `os.open`, whether a path is a regular file, the time.

Left out: `file_contents` and the other readers, `chmod`, `chown`, `utime`, and the loading of the
pickle file and of `honeyfs`.
-/

namespace Cowrie.Shell.Fs

open Cowrie.Lib

/-- `T_LINK, T_DIR, …`. -/
inductive NodeType
  | link | dir | file | blk | chr | sock | fifo
  deriving DecidableEq, Repr

/-- The identity of a node. -/
abbrev Ref := Nat

/-- `A_CONTENTS`. -/
inductive Contents
  | list (entries : List Ref)
  | bytes (data : Bytes)
  deriving DecidableEq, Repr

/-- `[A_NAME, …, A_REALFILE]`. -/
structure Node where
  name : Str
  type : NodeType
  uid : Int
  gid : Int
  size : Nat
  mode : Nat
  ctime : ℚ
  contents : Contents := .list []
  target : Option Str := none
  realfile : Option Str := none
  deriving DecidableEq

/-- The `errno` of an `OSError`; `host` are those that `os.open` gives. -/
inductive Errno
  | EDQUOT | ENOENT | EEXIST | ENOTDIR | ENOTEMPTY
  | host (n : Nat)
  deriving DecidableEq, Repr

/-- What the functions of the file system raise. -/
inductive FsError
  | fileNotFound
  | permissionDenied
  | osError (errno : Errno) (path : Option Str)
  | indexError
  | typeError
  | valueError
  | attributeError
  | recursionError
  deriving DecidableEq, Repr

/-- What a lookup reads. -/
structure Heap where
  node : Ref → Node
  fs : Ref
  limit : Nat

structure HoneyPotFilesystem extends Heap where
  next : Ref
  home : Str
  newcount : Nat := 0
  tempfiles : Nat → Option Str := fun _ => none
  filenames : Nat → Option Str := fun _ => none
  clock : Nat → ℚ

/-- `SPECIAL_PATHS`. -/
def specialPaths : List Str := ["/sys".toList, "/proc".toList, "/dev/pts".toList]

/-- `any([path.startswith(_p) for _p in SPECIAL_PATHS])`. -/
def isSpecial (path : Str) : Bool := specialPaths.any fun p => p.isPrefixOf path

namespace Heap

variable (f : Heap)

/-! ## Lookup (`fs.py:221-314`) -/

def name (x : Ref) : Str := (f.node x).name

/-- The entries of a node, none for `bytes`. -/
def entries (p : Ref) : List Ref :=
  match (f.node p).contents with
  | .list xs => xs
  | .bytes _ => []

/-- A loop over `A_CONTENTS` that takes the `A_NAME` of each element. -/
def listing (p : Ref) : Except FsError (List Ref) :=
  match (f.node p).contents with
  | .list xs => .ok xs
  | .bytes [] => .ok []
  | .bytes (_ :: _) => .error .typeError

/-- The link `x`, by `look`: an absolute target as it is, a relative one below the root, since `cwd`
stays empty. -/
def followLink (look : Str → Except FsError (Option Ref)) (x : Ref) :
    Except FsError (Option Ref) :=
  match (f.node x).target with
  | none => .error .typeError
  | some [] => .error .indexError
  | some (c :: t) => look (if c = '/' then c :: t else '/' :: c :: t)

/-- The inner loop of `getfile`. It has no `break`: the last entry of the name wins. -/
def scan (look : Str → Except FsError (Option Ref)) (keep : Bool) (piece : Str) :
    List Ref → Ref → Except FsError (Option Ref)
  | [], p => .ok (some p)
  | x :: xs, p =>
    if f.name x ≠ piece then scan look keep piece xs p
    else if keep ∨ (f.node x).type ≠ .link then scan look keep piece xs x
    else
      match f.followLink look x with
      | .error e => .error e
      | .ok none => .ok none
      | .ok (some q) => scan look keep piece xs q

/-- The outer loop of `getfile`, over the pieces; `last` is `pieces[-1]`. -/
def walk (look : Str → Except FsError (Option Ref)) (last : Str) (follow : Bool) :
    List Str → Ref → Except FsError (Option Ref)
  | [], p => .ok (some p)
  | piece :: rest, p =>
    match f.listing p with
    | .error e => .error e
    | .ok xs =>
      if piece ∉ xs.map f.name then .ok none
      else
        match f.scan look (piece = last ∧ ¬ follow) piece xs p with
        | .error e => .error e
        | .ok none => .ok none
        | .ok (some q) => walk look last follow rest q

/-- `getfile`, in `depth` calls. -/
def getfileAt : Nat → Str → Bool → Except FsError (Option Ref)
  | 0, _, _ => .error .recursionError
  | depth + 1, path, follow =>
    if path = ['/'] then .ok (some f.fs)
    else
      let pieces := split (stripSlash path)
      f.walk (fun target => getfileAt depth target follow) (pieces.getLastD []) follow pieces f.fs

/-- `getfile(path, follow_symlinks)`. -/
def getfile (path : Str) (follow : Bool := true) : Except FsError (Option Ref) :=
  f.getfileAt f.limit path follow

/-- `isdir`; an exception is a `False`. -/
def isdir (path : Str) : Bool :=
  if path = ['/'] then true
  else
    match f.getfile path with
    | .ok (some x) => (f.node x).type = .dir
    | _ => false

/-- The loop of `get_path`, over the parts. -/
def getPathFrom : List Str → Ref → Except FsError Ref
  | [], cwd => .ok cwd
  | part :: rest, cwd =>
    if part = [] then getPathFrom rest cwd
    else
      match f.listing cwd with
      | .error e => .error e
      | .ok xs =>
        match xs.find? fun c => f.name c = part with
        | none => .error .fileNotFound
        | some c =>
          if (f.node c).type = .link then
            match (f.node c).target with
            | none => .error .attributeError
            | some target =>
              match f.getfile target with
              | .error e => .error e
              | .ok none => .error .fileNotFound
              | .ok (some x) => getPathFrom rest x
          else getPathFrom rest c

/-- `get_path(path)`: the node whose contents it returns. -/
def getPath (path : Str) : Except FsError Ref := f.getPathFrom (split path) f.fs

/-! ## Equality and removal -/

/-- `x == y` on two lists of nodes of one length. -/
def allEqual (eq : Ref → Ref → Except FsError Bool) : List Ref → List Ref → Except FsError Bool
  | x :: xs, y :: ys =>
    match eq x y with
    | .error e => .error e
    | .ok false => .ok false
    | .ok true => allEqual eq xs ys
  | _, _ => .ok true

/-- `x == y` on two nodes, in `depth` calls: field by field, up to the first difference. -/
def equalAt : Nat → Ref → Ref → Except FsError Bool
  | 0, x, y => if x = y then .ok true else .error .recursionError
  | depth + 1, x, y =>
    let a := f.node x
    let b := f.node y
    if x = y then .ok true
    else if (a.name, a.type, a.uid, a.gid) ≠ (b.name, b.type, b.uid, b.gid) then .ok false
    else if (a.size, a.mode, a.ctime) ≠ (b.size, b.mode, b.ctime) then .ok false
    else
      match a.contents, b.contents with
      | .list xs, .list ys =>
        if xs.length ≠ ys.length then .ok false
        else
          match allEqual (equalAt depth) xs ys with
          | .error e => .error e
          | .ok false => .ok false
          | .ok true => .ok (a.target = b.target ∧ a.realfile = b.realfile)
      | .bytes c, .bytes d => .ok (c = d ∧ a.target = b.target ∧ a.realfile = b.realfile)
      | _, _ => .ok false

def equal (x y : Ref) : Except FsError Bool := f.equalAt f.limit x y

/-- `xs.remove(s)`: without its first element that equals `s`. -/
def listRemove (s : Ref) : List Ref → Except FsError (List Ref)
  | [] => .error .valueError
  | x :: xs =>
    match f.equal x s with
    | .error e => .error e
    | .ok true => .ok xs
    | .ok false => (listRemove s xs).map (x :: ·)

end Heap

/-- `exists`. -/
def Heap.exists (f : Heap) (path : Str) : Except FsError Bool :=
  (f.getfile path).map Option.isSome

namespace HoneyPotFilesystem

variable (f : HoneyPotFilesystem)

/-! ## Edits -/

def setNode (x : Ref) (n : Node) : HoneyPotFilesystem :=
  { f with node := Function.update f.node x n }

def setEntries (p : Ref) (xs : List Ref) : HoneyPotFilesystem :=
  f.setNode p { f.node p with contents := .list xs }

/-- `s[A_NAME] = name`. -/
def setName (x : Ref) (name : Str) : HoneyPotFilesystem :=
  f.setNode x { f.node x with name := name }

/-- A new list; its identity is `f.next`. -/
def alloc (n : Node) : HoneyPotFilesystem := { f.setNode f.next n with next := f.next + 1 }

/-! ## Copies -/

/-- `copy.deepcopy` on the elements of a list, with the copies made so far. -/
def copyAll (copy : Ref → HoneyPotFilesystem × (Ref → Option Ref) →
      Except FsError (Ref × HoneyPotFilesystem × (Ref → Option Ref))) :
    List Ref → HoneyPotFilesystem × (Ref → Option Ref) →
      Except FsError (List Ref × HoneyPotFilesystem × (Ref → Option Ref))
  | [], s => .ok ([], s)
  | x :: xs, s =>
    match copy x s with
    | .error e => .error e
    | .ok (y, t) =>
      match copyAll copy xs t with
      | .error e => .error e
      | .ok (ys, u) => .ok (y :: ys, u)

/-- `copy.deepcopy`, in `depth` calls; `memo` has the copies made so far. -/
def deepcopyAt : Nat → Ref → HoneyPotFilesystem × (Ref → Option Ref) →
    Except FsError (Ref × HoneyPotFilesystem × (Ref → Option Ref))
  | 0, _, _ => .error .recursionError
  | depth + 1, x, (g, memo) =>
    match memo x with
    | some y => .ok (y, g, memo)
    | none =>
      let started := (g.alloc (g.node x), Function.update memo x (some g.next))
      match (g.node x).contents with
      | .bytes _ => .ok (g.next, started)
      | .list xs =>
        match copyAll (deepcopyAt depth) xs started with
        | .error e => .error e
        | .ok (ys, h, memo') => .ok (g.next, h.setEntries g.next ys, memo')

end HoneyPotFilesystem

/-! ## The functions that change the tree (`fs.py:347-395`, `446-598`) -/

/-- What the functions do, to the file system. -/
abbrev FsM (α : Type) := Prog FsError HoneyPotFilesystem α

open HoneyPotFilesystem

/-- `time.time()`. -/
def time : FsM ℚ := do
  let f ← get
  modify fun f => { f with clock := fun i => f.clock (i + 1) }
  pure (f.clock 0)

/-- `directory.append(s)`. -/
def append (directory s : Ref) : FsM Unit := do
  match ((← get).node directory).contents with
  | .bytes _ => throw .attributeError
  | .list xs => modify fun f => f.setEntries directory (xs ++ [s])

/-- `directory.remove(s)`. -/
def removeEntry (directory s : Ref) : FsM Unit := do
  match ((← get).node directory).contents with
  | .bytes _ => throw .attributeError
  | .list xs =>
    let ys ← query fun f => f.listRemove s xs
    modify fun f => f.setEntries directory ys

/-- `if outfile in [x[A_NAME] for x in directory]: directory.remove(next(…))`. -/
def removeNamed (directory : Ref) (outfile : Str) : FsM Unit := do
  let xs ← query fun f => f.listing directory
  let f ← get
  match xs.find? fun x => f.name x = outfile with
  | none => pure ()
  | some x => removeEntry directory x

/-- `directory.append([…])` with a new node. -/
def appendNew (directory : Ref) (n : Node) : FsM Unit := do
  let r := (← get).next
  modify fun f => f.alloc n
  append directory r

def mkfile (path : Str) (uid gid : Int) (size mode : Nat) : FsM Bool := do
  if (← get).newcount > 10000 then pure false
  else
    let ctime ← time
    if isSpecial (dirname path) then throw .permissionDenied
    else
      let dir ← query fun f => f.getPath (dirname path)
      removeNamed dir (basename path)
      appendNew dir
        { name := basename path, type := .file, uid, gid, size, mode, ctime }
      modify fun f => { f with newcount := f.newcount + 1 }
      pure true

/-- `get_path`, where an `IndexError` or a `FileNotFound` becomes an `ENOENT`. -/
def getPathOrENOENT (path parent : Str) (f : HoneyPotFilesystem) : Except FsError Ref :=
  match f.getPath parent with
  | .error .indexError | .error .fileNotFound => .error (.osError .ENOENT path)
  | r => r

def mkdir (path : Str) (uid gid : Int) (size mode : Nat) : FsM Unit := do
  if (← get).newcount > 10000 then throw (.osError .EDQUOT path)
  else
    let ctime ← time
    if stripSlash path = [] then throw (.osError .ENOENT path)
    else
      let directory ← query (getPathOrENOENT path (dirname (stripSlash path)))
      appendNew directory
        { name := basename path, type := .dir, uid, gid, size, mode, ctime }
      modify fun f => { f with newcount := f.newcount + 1 }

def mkdir2 (path : Str) : FsM Unit := do
  let directory ← query fun f => f.getfile path
  if directory.isSome then throw (.osError .EEXIST path)
  else mkdir path 0 0 4096 16877

def rmdir (path : Str) : FsM Bool := do
  let p := rstripSlash path
  match ← query fun f => f.getfile p false with
  | none => throw (.osError .EEXIST p)
  | some directory =>
    if ((← get).node directory).type ≠ .dir then throw (.osError .ENOTDIR p)
    else
      let own ← query fun f => f.getPath p
      if ((← get).node own).contents ≠ .list [] ∧ ((← get).node own).contents ≠ .bytes [] then
        throw (.osError .ENOTEMPTY p)
      else
        let pdir ← query fun f => f.getPath (dirname p)
        let xs ← query fun f => f.listing pdir
        let f ← get
        match xs.find? fun i => f.name i = basename p with
        | none => pure false
        | some i =>
          removeEntry pdir i
          pure true

def remove (path : Str) : FsM Unit := do
  match ← query fun f => f.getfile path false with
  | none => throw (.osError .ENOENT none)
  | some p =>
    let directory ← query fun f => f.getPath (dirname path)
    removeEntry directory p

def rename (oldpath newpath : Str) : FsM Unit := do
  match ← query fun f => f.getfile oldpath with
  | none => throw (.osError .ENOENT none)
  | some old =>
    let new ← query fun f => f.getfile newpath
    if new.isSome then throw (.osError .EEXIST none)
    else
      let directory ← query fun f => f.getPath (dirname oldpath)
      removeEntry directory old
      modify fun f => f.setName old (basename newpath)
      let target ← query fun f => f.getPath (dirname newpath)
      append target old

/-- What the host answers. -/
structure Host where
  downloadPath : Str
  /-- `time.strftime("%Y%m%d-%H%M%S")`. -/
  now : Str
  /-- `os.open(path, flags, mode)`. -/
  osOpen : Str → Nat → Nat → Except Errno Nat
  /-- `os.path.exists(path) and not os.path.islink(path) and os.path.isfile(path)`. -/
  isRegular : Str → Bool

def updateRealfile (host : Host) (x : Ref) (realfile : Str) : FsM Unit := do
  let n := (← get).node x
  when (n.realfile.getD [] = [] ∧ host.isRegular realfile ∧ n.size < 25000000) do
    modify fun f => f.setNode x { n with realfile := some realfile }

/-- `re.sub("[^A-Za-z0-9]", "_", filename)`. -/
def sanitize (filename : Str) : Str := filename.map fun c => if c.isAlphanum then c else '_'

/-- `open`, by the flags of Linux: `O_WRONLY` is 1, `O_RDWR` is 2, `S_IFREG` is 32768. -/
def openFile (host : Host) (filename : Str) (openFlags mode : Nat) : FsM (Option Nat) := do
  if openFlags &&& 1 = 1 ∨ openFlags &&& 2 = 2 then
    let hostmode := mode - (mode &&& 111)
    let hostfile :=
      host.downloadPath ++ ['/'] ++ host.now ++ "_sftp_".toList ++ sanitize filename
    let _ ← mkfile filename 0 0 0 (32768 ||| mode)
    let fd ← query fun _ =>
      (host.osOpen hostfile openFlags hostmode).mapError fun e => .osError e hostfile
    match ← query fun f => f.getfile filename with
    | none => throw .typeError
    | some x =>
      updateRealfile host x hostfile
      modify fun f => { f with
        tempfiles := Function.update f.tempfiles fd (some hostfile)
        filenames := Function.update f.filenames fd (some filename) }
      pure (some fd)
  else pure none

end Cowrie.Shell.Fs
