import Cowrie.Lib.ObjectTree
import Cowrie.Lib.Run
import Cowrie.Shell.Redirect
import Cowrie.Text

/-!
# The editor of the pickle file (`src/cowrie/scripts/fsctl.py:56-69, 91-99, 330-360, 371-486, 531-647`)

`fseditCmd` holds the tree of the pickle file in memory and edits its nested lists by reference. A node is a list of
ten fields, one of which, `A_CONTENTS`, is a list of nodes, itself an object: `srcl[:]` of `mv` is a new node with the
same list. So `Heap` has nodes and lists, both behind references.

* `A_CONTENTS` is `bytes` where `load` has put the contents of a file there. An element of it has no name.
* `limit` is the depth of calls that `mkfile`, `==` and `copy.deepcopy` are allowed; the first call is always
  possible.
* An exception ends the command and keeps what it has done (`Lib.Prog`).
* `image` is what `save_pickle` has written last.
* `Plan` is what `mv` and `cp` are going to do once their checks have passed.
* `int` is Python's, over the decimal digits of the `Digits` that it is given.

Left out: a pickle file that cannot be written, which ends the program; the prompt; and the `memo` of
`copy.deepcopy`, which a tree never asks.
-/

namespace Cowrie.Scripts.Fsctl

open Cowrie.Lib
open Shell (Digits intOf)
open Shell.Fs (Str Ref NodeType FsError split join stripSlash)
open Shell.Redirect (pathJoin)

/-- `A_CONTENTS`; a list is given by its identity. -/
inductive Contents
  | list (l : Ref)
  | bytes (data : Bytes)
  deriving DecidableEq, Repr

/-- `[A_NAME, …, A_REALFILE]`. -/
structure Node where
  name : Str
  type : NodeType
  uid : Int
  gid : Int
  size : Int
  mode : Nat
  ctime : ℚ
  contents : Contents
  target : Option Str := none
  realfile : Option Str := none
  deriving DecidableEq

/-- `n[A_NAME] = name`. -/
def Node.renamed (n : Node) (name : Str) : Node := { n with name }

/-- The nodes and the lists; those from `next` on are unused. -/
structure Heap where
  node : Ref → Node
  entries : Ref → List Ref
  root : Ref
  next : Ref
  limit : Nat

namespace Heap

variable (h : Heap)

/-! ## Lookup -/

def name (x : Ref) : Str := (h.node x).name

/-- The entries of a node, none for `bytes`. -/
def kids (p : Ref) : List Ref :=
  match (h.node p).contents with
  | .list l => h.entries l
  | .bytes _ => []

/-- The loop over `cwd[A_CONTENTS]`. -/
def find (part : Str) (cwd : Ref) : Except FsError Ref :=
  match (h.node cwd).contents with
  | .bytes (_ :: _) => .error .typeError
  | _ =>
    match (h.kids cwd).find? fun c => h.name c = part with
    | none => .error .fileNotFound
    | some c => .ok c

def getpathFrom : List Str → Ref → Except FsError Ref
  | [], cwd => .ok cwd
  | part :: rest, cwd =>
    if part = [] then getpathFrom rest cwd
    else
      match h.find part cwd with
      | .error e => .error e
      | .ok c => getpathFrom rest c

def getpath (path : Str) : Except FsError Ref := h.getpathFrom (split path) h.root

def isDirectory (path : Str) : Except FsError Bool := (h.getpath path).map fun x => (h.node x).type = .dir

/-! ## Equality and removal -/

/-- `x == y` on two lists of nodes of one length. -/
def allEqual (eq : Ref → Ref → Except FsError Bool) : List Ref → List Ref → Except FsError Bool
  | x :: xs, y :: ys =>
    match eq x y with
    | .error e => .error e
    | .ok false => .ok false
    | .ok true => allEqual eq xs ys
  | _, _ => .ok true

/-- `x == y` on two nodes: objects that are the same are equal, others field by field up to a difference. -/
def equalAt : Nat → Ref → Ref → Except FsError Bool
  | 0, x, y => if x = y then .ok true else .error .recursionError
  | depth + 1, x, y =>
    let a := h.node x
    let b := h.node y
    if x = y then .ok true
    else if (a.name, a.type, a.uid, a.gid, a.size, a.mode, a.ctime) ≠
        (b.name, b.type, b.uid, b.gid, b.size, b.mode, b.ctime) then .ok false
    else
      let rest : Bool := a.target = b.target ∧ a.realfile = b.realfile
      match a.contents, b.contents with
      | .list l, .list m =>
        if l = m then .ok rest
        else if (h.entries l).length ≠ (h.entries m).length then .ok false
        else (allEqual (equalAt depth) (h.entries l) (h.entries m)).map (· && rest)
      | .bytes c, .bytes d => .ok (c = d ∧ rest)
      | _, _ => .ok false

/-- `xs.remove(s)`: without its first element that equals `s`. -/
def listRemove (s : Ref) : List Ref → Except FsError (List Ref)
  | [] => .error .valueError
  | x :: xs =>
    match h.equalAt (h.limit + 1) x s with
    | .error e => .error e
    | .ok true => .ok xs
    | .ok false => (listRemove s xs).map (x :: ·)

end Heap

/-- `exists`. -/
def Heap.exists (h : Heap) (path : Str) : Except FsError Bool :=
  match h.getpath path with
  | .ok _ => .ok true
  | .error .fileNotFound => .ok false
  | .error e => .error e

namespace Heap

variable (h : Heap)

/-! ## Edits -/

def setNode (x : Ref) (n : Node) : Heap := { h with node := Function.update h.node x n }

def setName (x : Ref) (name : Str) : Heap := h.setNode x ((h.node x).renamed name)

def setEntries (l : Ref) (xs : List Ref) : Heap := { h with entries := Function.update h.entries l xs }

/-- A new node; its identity is `h.next`. -/
def alloc (n : Node) : Heap := { h.setNode h.next n with next := h.next + 1 }

/-- A new empty list. -/
def allocList : Heap := { h.setEntries h.next [] with next := h.next + 1 }

/-- A new node with a new empty list, which comes first. -/
def allocWithList (n : Node) : Heap := h.allocList.alloc { n with contents := .list h.next }

/-! ## Copies -/

/-- `copy.deepcopy` on the elements of a list, appended to the copy `l` one by one. -/
def copyAll (copy : Ref → Heap → Except FsError (Ref × Heap)) (l : Ref) : List Ref → Heap → Except FsError Heap
  | [], g => .ok g
  | x :: xs, g =>
    match copy x g with
    | .error e => .error e
    | .ok (y, k) => copyAll copy l xs (k.setEntries l (k.entries l ++ [y]))

end Heap

/-- `copy.deepcopy`, in `depth` calls below the first. -/
def deepcopyAt : Nat → Ref → Heap → Except FsError (Ref × Heap)
  | depth, x, g =>
    match (g.node x).contents with
    | .bytes _ => .ok (g.next, g.alloc (g.node x))
    | .list l =>
      match depth with
      | 0 => .error .recursionError
      | depth + 1 =>
        match Heap.copyAll (deepcopyAt depth) g.next (g.entries l) (g.allocWithList (g.node x)) with
        | .error e => .error e
        | .ok k => .ok (g.next + 1, k)

/-! ## Paths -/

/-- `initial_slashes` of `posixpath.normpath`: two are kept, three or more count as one. -/
def initialSlashes : Str → Nat
  | '/' :: '/' :: '/' :: _ => 1
  | '/' :: '/' :: _ => 2
  | '/' :: _ => 1
  | _ => 0

/-- One component on the stack of `normpath`. -/
def pushComp (slashes : Nat) (comps : List Str) (comp : Str) : List Str :=
  if comp = [] ∨ comp = ['.'] then comps
  else if comp ≠ ['.', '.'] ∨ (slashes = 0 ∧ comps = []) ∨ comps.getLast? = some ['.', '.'] then comps ++ [comp]
  else comps.dropLast

/-- `os.path.normpath`. -/
def normpath (path : Str) : Str :=
  let slashes := initialSlashes path
  let result := List.replicate slashes '/' ++ join ((split path).foldl (pushComp slashes) [])
  if result = [] then ['.'] else result

def resolveReference (pwd relativeReference : Str) : Str := normpath (pathJoin pwd relativeReference)

example : resolveReference ['/'] "//a/../b/".toList = "//b".toList := by decide

/-- `arguments.split()`. -/
def words (arguments : Str) : List Str := (splitBlanks (String.ofList arguments)).map String.toList

/-- The directory of a path and its last part, by `path.split("/")`. -/
def parentOf (path : Str) : Str := join (split path).dropLast

def lastOf (path : Str) : Str := (split path).getLastD []

variable (u : Digits)

/-- `int(s)`, for an `s` without blanks. -/
def int (s : Str) : Except FsError Int :=
  let negative := s.head? = some '-'
  let digits := if negative ∨ s.head? = some '+' then s.tail else s
  if [] ∈ digits.splitOn '_' then .error .valueError
  else
    match intOf u (digits.filter (· ≠ '_')) with
    | .ok n => .ok (if negative then -n else n)
    | .error _ => .error .valueError

/-! ## The editor -/

structure FseditCmd where
  fs : Heap
  image : Heap
  pwd : Str := ['/']
  /-- What `time.time()` will say. -/
  clock : Nat → ℚ
  printed : List Str := []

abbrev FsctlM (α : Type) := Prog FsError FseditCmd α

def print (text : Str) : FsctlM Unit := modify fun s => { s with printed := s.printed ++ [text] }

/-- `save_pickle`. -/
def savePickle : FsctlM Unit := modify fun s => { s with image := s.fs }

def edit (f : Heap → Heap) : FsctlM Unit := modify fun s => { s with fs := f s.fs }

/-- `p[A_CONTENTS].append(x)`. -/
def append (p x : Ref) : FsctlM Unit := do
  match ((← get).fs.node p).contents with
  | .bytes _ => throw .attributeError
  | .list l => edit fun h => h.setEntries l (h.entries l ++ [x])

/-- `p[A_CONTENTS].remove(x)`. -/
def remove (p x : Ref) : FsctlM Unit := do
  match ((← get).fs.node p).contents with
  | .bytes _ => throw .attributeError
  | .list l =>
    let xs ← query fun s => s.fs.listRemove x (s.fs.entries l)
    edit fun h => h.setEntries l xs

/-- `time.time()`. -/
def time : FsctlM ℚ := do
  let s ← get
  modify fun s => { s with clock := fun i => s.clock (i + 1) }
  pure (s.clock 0)

/-- `do_cd`. -/
def cd (arguments : Str) : FsctlM Unit := do
  match words arguments with
  | [] => modify fun s => { s with pwd := ['/'] }
  | relativeDir :: _ =>
    let targetDir := resolveReference (← get).pwd relativeDir
    if (← query fun s => s.fs.exists targetDir) = false then
      print ("cd: ".toList ++ targetDir ++ ": No such file or directory".toList)
    else if ← query fun s => s.fs.isDirectory targetDir then modify fun s => { s with pwd := targetDir }
    else print ("cd: ".toList ++ targetDir ++ ": Not a directory".toList)

/-- The size of a new node: `int(args[1])`, or 4096. -/
def sizeOf (args : List Str) : Except FsError Int :=
  match args with
  | _ :: size :: _ => int u size
  | _ => .ok 4096

/-- The node that `mkfile` appends. -/
def newNode (parent : Node) (fileName : Str) (fileType : NodeType) (size : Int) (ctime : ℚ) : Node :=
  { name := fileName
    type := fileType
    uid := parent.uid
    gid := parent.gid
    size
    -- `0o100000` and the nine bits of the permissions
    mode := if fileType = .file then 32768 + (parent.mode &&& 511) else parent.mode
    ctime
    contents := .bytes [] }

/-- `mkfile`, in `depth` calls below the first. -/
def mkfile : Nat → List Str → NodeType → FsctlM Unit
  | depth, args, fileType => do
    match args with
    | [] => throw .indexError
    | arg :: _ =>
      let path := resolveReference (← get).pwd arg
      let parentdir := parentOf path
      when ((← query fun s => s.fs.exists parentdir) = false) do
        print ("Parent directory ".toList ++ parentdir ++ " doesn't exist!".toList)
        match depth with
        | 0 => throw .recursionError
        | depth + 1 => mkfile depth (words parentdir) .dir
      if ← query fun s => s.fs.exists path then print ("Error: ".toList ++ path ++ " already exists!".toList)
      else
        let cwd ← query fun s => s.fs.getpath parentdir
        let size ← query fun _ => sizeOf u args
        let ctime ← time
        let h := (← get).fs
        edit fun h => h.allocWithList (newNode (h.node cwd) (lastOf path) fileType size ctime)
        append cwd (h.next + 1)
        savePickle
        print ("Added '".toList ++ path ++ ['\''])

/-- `do_touch`. -/
def touch (arguments : Str) : FsctlM Unit := do
  let args := words arguments
  if args.length < 1 then print "Usage: touch <destination> (<size in bytes>)".toList
  else mkfile u (← get).fs.limit args .file

/-- `do_mkdir`. -/
def mkdir (arguments : Str) : FsctlM Unit := do
  let args := words arguments
  if args.length < 1 then print "usage: mkdir <new directory> <new directory>...".toList
  else args.forM fun arg => do mkfile u (← get).fs.limit (words arg) .dir

/-- `do_rm`. -/
def rm (arguments : Str) : FsctlM Unit := do
  let args := words arguments
  if args.length < 1 ∨ 2 < args.length then print "Usage: rm [-r] <target>".toList
  else if args.length = 2 ∧ args.head? ≠ some "-r".toList then print "Usage: rm [-r] <target>".toList
  else
    -- `args[0]`, or `args[1]` after `-r`
    let targetPath := resolveReference (← get).pwd (args.getLastD [])
    if (← query fun s => s.fs.exists targetPath) = false then
      print ("File '".toList ++ targetPath ++ "' doesn't exist".toList)
    else if targetPath = ['/'] then print "rm: cannot delete root directory '/'".toList
    else
      let targetObject ← query fun s => s.fs.getpath targetPath
      if ((← get).fs.node targetObject).type = .dir ∧ args.head? ≠ some "-r".toList then
        print ("rm: cannot remove '".toList ++ targetPath ++ "': Is a directory".toList)
      else
        let parentObject ← query fun s => s.fs.getpath (parentOf targetPath)
        remove parentObject targetObject
        savePickle
        print ("Deleted ".toList ++ targetPath)

/-! ## Moving and copying -/

/-- Where a node is going to be. -/
structure Target where
  directory : Ref
  dstparent : Str
  dstname : Str

structure Plan extends Target where
  source : Ref
  /-- The directory of the source. -/
  parent : Ref

namespace Heap

variable (h : Heap)

/-- `dstparent` and `dstname`. -/
def destination (x : Ref) (dst : Str) : Except FsError (Str × Str) := do
  let isDir ← if ← h.exists dst then h.isDirectory dst else pure false
  pure (if isDir then (dst, h.name x) else (parentOf dst, lastOf dst))

/-- The checks on them; the messages are those of `mv` and of `cp`. -/
def target (taken missing : Str → Str → Str) (x : Ref) (dst : Str) :
    Except FsError (Except Str Target) := do
  let (dstparent, dstname) ← h.destination x dst
  if ← h.exists (dstparent ++ '/' :: dstname) then pure (.error (taken dstparent dstname))
  else if (← h.exists dstparent) = false then pure (.error (missing dstparent dstname))
  else
    let directory ← h.getpath dstparent
    pure (.ok { directory, dstparent, dstname })

def sourceMissing (src : Str) : Str := "Source file '".toList ++ src ++ "' does not exist!".toList

/-- The checks of `do_mv`. -/
def mvPlan (src dst : Str) : Except FsError (Except Str Plan) := do
  if (← h.exists src) = false then pure (.error (sourceMissing src))
  else
    let source ← h.getpath src
    let parent ← h.getpath (parentOf src)
    let t ← h.target (fun _ _ => "A file already exists at ".toList ++ dst ++ ['!'])
      (fun _ _ => "Destination directory '".toList ++ dst ++ "' doesn't exist!".toList) source dst
    pure (t.map fun t => { t with source, parent })

/-- The checks of `do_cp`, and the node to copy. -/
def cpPlan (src dst : Str) : Except FsError (Except Str (Ref × Target)) := do
  if (← h.exists src) = false then pure (.error (sourceMissing src))
  else
    let source ← h.getpath src
    let t ← h.target
      (fun dstparent dstname => "A file already exists at ".toList ++ dstparent ++ '/' :: dstname ++ ['!'])
      (fun dstparent _ => "Destination directory ".toList ++ dstparent ++ " doesn't exist!".toList) source dst
    pure (t.map fun t => (source, t))

end Heap

/-- `copy = srcl[:]`, `append` and `remove`. -/
def move (plan : Plan) : FsctlM Unit := do
  let h := (← get).fs
  edit fun h => h.alloc ((h.node plan.source).renamed plan.dstname)
  append plan.directory h.next
  remove plan.parent plan.source

/-- `do_mv`. -/
def mv (arguments : Str) : FsctlM Unit := do
  match words arguments with
  | [arg0, arg1] =>
    let pwd := (← get).pwd
    if resolveReference pwd arg0 = ['/'] then print "mv: cannot move the root directory '/'".toList
    else
      let src := stripSlash (resolveReference pwd arg0)
      let dst := stripSlash (resolveReference pwd arg1)
      match ← query fun s => s.fs.mvPlan src dst with
      | .error text => print text
      | .ok plan =>
        when (src = pwd) do cd "..".toList
        move plan
        savePickle
        print ("File moved from /".toList ++ src ++ " to /".toList ++ dst)
  | _ => print "Usage: mv <source> <destination>".toList

/-- `copy.deepcopy(srcl)`, the new name, and `append`. -/
def copy (source : Ref) (t : Target) : FsctlM Unit := do
  let (c, h) ← query fun s => deepcopyAt s.fs.limit source s.fs
  edit fun _ => h.setName c t.dstname
  append t.directory c

/-- `do_cp`. -/
def cp (arguments : Str) : FsctlM Unit := do
  match words arguments with
  | [arg0, arg1] =>
    let pwd := (← get).pwd
    let src := stripSlash (resolveReference pwd arg0)
    let dst := stripSlash (resolveReference pwd arg1)
    match ← query fun s => s.fs.cpPlan src dst with
    | .error text => print text
    | .ok (source, t) =>
      copy source t
      savePickle
      print ("File copied from /".toList ++ src ++ " to /".toList ++ t.dstparent ++ '/' :: t.dstname)
  | _ => print "Usage: cp <source> <destination>".toList

inductive Command
  | touch (arguments : Str)
  | mkdir (arguments : Str)
  | rm (arguments : Str)
  | mv (arguments : Str)
  | cp (arguments : Str)
  | cd (arguments : Str)
  deriving DecidableEq, Repr

/-- `onecmd`. -/
def onecmd : Command → FsctlM Unit
  | .touch arguments => touch u arguments
  | .mkdir arguments => mkdir u arguments
  | .rm arguments => rm arguments
  | .mv arguments => mv arguments
  | .cp arguments => cp arguments
  | .cd arguments => cd arguments

/-- One command, which may raise. -/
def step (s : FseditCmd) (c : Command) : Option FseditCmd := some (exec (onecmd u c) s).2

end Cowrie.Scripts.Fsctl
