import Cowrie.Shell.Fs

/-!
# The commands that change the file system (`src/cowrie/commands/fs.py:300-670`, `unzip.py`)

`touch`, `mkdir`, `rmdir`, `rm`, `cp`, `mv` and `unzip`, each as a computation on a `Session`: the file
system and what the command has written. An exception ends the command and leaves both as they are.

* `gnuGetopt` is `getopt.gnu_getopt` up to Python 3.13 for options without arguments, `POSIXLY_CORRECT`
  not being set; the error is `err.opt`.
* `cp` and `mv` check their arguments alike: `files` does, with what differs as parameters.
* `mv` compares the list that `get_path` returns with a string; they always differ, so its last
  branch is not here.
* `infolist` is `zipfile.ZipFile(path).infolist()`, `none` if it raises.

Left out: `exit`, which closes the command's output.
-/

namespace Cowrie.Shell.Fs

open Cowrie.Lib Heap HoneyPotFilesystem

/-- `write` or `errorWrite`. -/
inductive Output
  | out (data : Str)
  | err (data : Str)
  deriving DecidableEq, Repr

structure Session where
  fs : HoneyPotFilesystem
  written : List Output := []

/-- `protocol.user` and `protocol.cwd`. -/
structure User where
  uid : Int
  gid : Int
  cwd : Str

abbrev CommandM (α : Type) := Prog FsError Session α

/-- A function of the file system, called by a command. -/
def onFs {α : Type} (m : FsM α) : CommandM α := zoom Session.fs (fun s f => { s with fs := f }) m

def ask {α : Type} (q : HoneyPotFilesystem → Except FsError α) : CommandM α := query fun s => q s.fs

def write (data : Str) : CommandM Unit :=
  modify fun s => { s with written := s.written ++ [.out data] }

def errorWrite (data : Str) : CommandM Unit :=
  modify fun s => { s with written := s.written ++ [.err data] }

/-- `self.fs.resolve_path(path, self.protocol.cwd)`. -/
def resolve (user : User) (path : Str) (f : HoneyPotFilesystem) : Except FsError Str :=
  match resolvePath f.home path user.cwd with
  | none => .error .indexError
  | some p => .ok p

/-- `except (IndexError, fs.FileNotFound)`: nothing. -/
def orNone {α : Type} (r : Except FsError α) : Except FsError (Option α) :=
  match r with
  | .ok a => .ok (some a)
  | .error .indexError | .error .fileNotFound => .ok none
  | .error e => .error e

/-- `"/".join(pname.split("/")[:-1])`. -/
def parentOf (pname : Str) : Str := join (split pname).dropLast

/-! ## `getopt.gnu_getopt` -/

/-- `do_shorts`. -/
def doShorts (shortopts : Str) : Str → Except Str (List Str)
  | [] => .ok []
  | opt :: optstring =>
    if opt ∈ shortopts ∧ opt ≠ ':' then (doShorts shortopts optstring).map (['-', opt] :: ·)
    else .error [opt]

/-- `do_longs`; a prefix of one option only stands for it. -/
def doLongs (longopts : List Str) (opt : Str) : Except Str Str :=
  let given := opt.takeWhile (· ≠ '=')
  let named : Except Str Str :=
    match longopts.filter given.isPrefixOf with
    | [] => .error given
    | [o] => .ok o
    | os => if given ∈ os then .ok given else .error given
  match named with
  | .error e => .error e
  | .ok o => if '=' ∈ opt then .error o else .ok ("--".toList ++ o)

def gnuGetopt (shortopts : Str) (longopts : List Str) : List Str → Except Str (List Str × List Str)
  | [] => .ok ([], [])
  | arg :: rest =>
    if arg = "--".toList then .ok ([], rest)
    else if "--".toList.isPrefixOf arg then
      match doLongs longopts (arg.drop 2), gnuGetopt shortopts longopts rest with
      | .error e, _ => .error e
      | .ok _, .error e => .error e
      | .ok o, .ok (optlist, args) => .ok (o :: optlist, args)
    else if arg.head? = some '-' ∧ arg ≠ ['-'] then
      match doShorts shortopts (arg.drop 1), gnuGetopt shortopts longopts rest with
      | .error e, _ => .error e
      | .ok _, .error e => .error e
      | .ok os, .ok (optlist, args) => .ok (os ++ optlist, args)
    else
      match gnuGetopt shortopts longopts rest with
      | .error e => .error e
      | .ok (optlist, args) => .ok (optlist, arg :: args)

/-! ## `touch`, `mkdir`, `rmdir` (`fs.py:562-666`) -/

def touchOne (user : User) (f : Str) : CommandM Bool := do
  let pname ← ask (resolve user f)
  if ¬ (← ask fun fs => fs.exists (dirname pname)) then do
    errorWrite ("touch: cannot touch `".toList ++ pname ++ "`: No such file or directory\n".toList)
    pure false
  else if ← ask fun fs => fs.exists pname then pure true
  else if isSpecial pname then do
    errorWrite ("touch: cannot touch `".toList ++ pname ++ "`: Permission denied\n".toList)
    pure false
  else do
    let _ ← onFs (mkfile pname user.uid user.gid 0 33188)
    pure true

def touchCommand (user : User) (args : List Str) : CommandM Unit := do
  if args = [] then
    errorWrite "touch: missing file operand\n".toList
    errorWrite "Try `touch --help' for more information.\n".toList
  else forEach (touchOne user) args

/-- The loop of `mkdir` returns in its first turn. -/
def mkdirCommand (user : User) : List Str → CommandM Unit
  | [] => pure ()
  | f :: _ => do
    let pname ← ask (resolve user f)
    if ← ask fun fs => fs.exists pname then
      errorWrite ("mkdir: cannot create directory `".toList ++ f ++ "': File exists\n".toList)
    else
      tryCatch (onFs (mkdir pname user.uid user.gid 4096 16877)) fun e =>
        if e = .fileNotFound then
          errorWrite ("mkdir: cannot create directory `".toList ++ f ++
            "': No such file or directory\n".toList)
        else throw e

/-- What the `try` block of `rmdir` finds: the directory is not empty, or its parent, if any. -/
def rmdirParent (pname : Str) (f : HoneyPotFilesystem) : Except FsError (Option (Option Ref)) :=
  match orNone (f.getPath pname) with
  | .error e => .error e
  | .ok none => .ok (some none)
  | .ok (some own) =>
    match (f.node own).contents with
    | .list (_ :: _) | .bytes (_ :: _) => .ok none
    | _ => (orNone (f.getPath (parentOf pname))).map some

def rmdirOne (user : User) (f : Str) : CommandM Bool := do
  let pname ← ask (resolve user f)
  match ← ask (rmdirParent pname) with
  | none => do
    errorWrite ("rmdir: failed to remove `".toList ++ f ++ "': Directory not empty\n".toList)
    pure true
  | some directory => do
    let xs ← ask fun fs => (directory.map fs.listing).getD (.ok [])
    let s ← get
    match directory, xs.find? fun i => s.fs.name i = basename f with
    | some directory, some i =>
      if (s.fs.node i).type ≠ .dir then do
        errorWrite ("rmdir: failed to remove '".toList ++ f ++ "': Not a directory\n".toList)
        pure false
      else do
        onFs (removeEntry directory i)
        pure true
    | _, _ => do
      errorWrite ("rmdir: failed to remove `".toList ++ f ++
        "': No such file or directory\n".toList)
      pure true

def rmdirCommand (user : User) (args : List Str) : CommandM Unit := forEach (rmdirOne user) args

/-! ## `rm` (`fs.py:300-413`) -/

def rmHelp : String :=
  "Usage: rm [OPTION]... [FILE]...\n" ++
  "Remove (unlink) the FILE(s).\n" ++
  "\n" ++
  " -f, --force           ignore nonexistent files and arguments, never prompt\n" ++
  " -i                    prompt before every removal\n" ++
  " -I                    prompt once before removing more than three files, or\n" ++
  "                         when removing recursively; less intrusive than -i,\n" ++
  "                         while still giving protection against most mistakes\n" ++
  "      --interactive[=WHEN]  prompt according to WHEN: never, once (-I), or\n" ++
  "                         always (-i); without WHEN, prompt always\n" ++
  "      --one-file-system  when removing a hierarchy recursively, skip any\n" ++
  "                         directory that is on a file system different from\n" ++
  "                         that of the corresponding command line argument\n" ++
  "      --no-preserve-root  do not treat '/' specially\n" ++
  "      --preserve-root   do not remove '/' (default)\n" ++
  " -r, -R, --recursive   remove directories and their contents recursively\n" ++
  " -d, --dir             remove empty directories\n" ++
  " -v, --verbose         explain what is being done\n" ++
  "     --help     display this help and exit\n" ++
  "     --version  output version information and exit\n" ++
  "\n" ++
  "By default, rm does not remove directories.  Use the --recursive (-r or -R)\n" ++
  "option to remove each listed directory, too, along with all of its contents.\n" ++
  "\n" ++
  "To remove a file whose name starts with a '-', for example '-foo',\n" ++
  "use one of these commands:\n" ++
  " rm -- -foo\n" ++
  "\n" ++
  " rm ./-foo\n" ++
  "\n" ++
  "Note that if you use rm to remove a file, it might be possible to recover\n" ++
  "some of its contents, given sufficient expertise and/or time.  For greater\n" ++
  "assurance that the contents are truly unrecoverable, consider using shred.\n" ++
  "\n" ++
  "GNU coreutils online help: <http://www.gnu.org/software/coreutils/>\n" ++
  "Full documentation at: <http://www.gnu.org/software/coreutils/rm>\n" ++
  "or available locally via: info '(coreutils) rm invocation'\n"

/-- One entry `i` of the directory. -/
def rmEntry (recursive verbose : Bool) (directory : Ref) (name : Str) (i : Ref) :
    CommandM Bool := do
  let n := (← get).fs.node i
  if n.name ≠ name then pure true
  else if n.type = .dir ∧ ¬ recursive then do
    errorWrite ("rm: cannot remove `".toList ++ n.name ++ "': Is a directory\n".toList)
    pure true
  else do
    onFs (removeEntry directory i)
    when verbose do
      let what := if n.type = .dir then "removed directory '" else "removed '"
      write (what.toList ++ n.name ++ "'\n".toList)
    pure true

def rmOne (user : User) (recursive force verbose : Bool) (f : Str) : CommandM Bool := do
  let pname ← ask (resolve user f)
  let directory ← ask fun fs => orNone (fs.getPath (parentOf pname))
  let own ← ask fun fs => if directory.isSome then orNone (fs.getPath pname) else .ok none
  match directory, own with
  | some directory, some _ => do
    let xs ← ask fun fs => fs.listing directory
    forEach (rmEntry recursive verbose directory ((split pname).getLastD [])) xs
    pure true
  | _, _ => do
    when (¬ force) do
      errorWrite ("rm: cannot remove `".toList ++ f ++ "': No such file or directory\n".toList)
    pure true

def paramError : CommandM Unit := errorWrite "Try 'rm --help' for more information\n".toList

def rmCommand (user : User) (args : List Str) : CommandM Unit := do
  if args = [] then
    errorWrite "rm: missing operand\n".toList
    paramError
  else
    match gnuGetopt "rTfvh".toList
        ["help".toList, "recursive".toList, "force".toList, "verbose".toList] args with
    | .error opt => do
      errorWrite ("rm: invalid option -- '".toList ++ opt ++ "'\n".toList)
      paramError
    | .ok (optlist, args) =>
      if optlist.any (· ∈ ["--help".toList, "-h".toList]) then write rmHelp.toList
      else
        let recursive := optlist.any (· ∈ ["--recursive".toList, "-r".toList, "-R".toList])
        let force := optlist.any (· ∈ ["--force".toList, "-f".toList])
        let verbose := optlist.any (· ∈ ["--verbose".toList, "-v".toList])
        forEach (rmOne user recursive force verbose) args

/-! ## `cp` and `mv` (`fs.py:416-555`) -/

/-- What `cp` and `mv` know when their loop begins. -/
structure Files where
  optlist : List Str
  sources : List Str
  dest : Str
  /-- `resolv(dest)`. -/
  rdest : Str
  isdir : Bool

/-- Where the sources go. -/
def Files.target (p : Files) : Str := if p.isdir then p.rdest else dirname p.rdest

/-- The name of the copy of `src`. -/
def Files.cpName (p : Files) (src : Str) : Str :=
  if p.isdir then basename src else basename (rstripSlash p.dest)

/-- The new name of `src`. -/
def Files.mvName (p : Files) (src : Str) : Str := if p.isdir then basename src else basename p.dest

/-- The checks before the loop: error messages, or the loop. `bare optlist sources` says whether a
destination that ends in a slash need not exist. -/
def files (cmd : Str) (shortopts : Str) (bare : List Str → List Str → Bool) (user : User)
    (args : List Str) (f : HoneyPotFilesystem) : Except FsError (List Str ⊕ Files) :=
  let help := "Try `".toList ++ cmd ++ " --help' for more information.\n".toList
  if args = [] then .ok (.inl [cmd ++ ": missing file operand\n".toList, help])
  else
    match gnuGetopt shortopts [] args with
    | .error _ => .ok (.inl ["Unrecognized option\n".toList])
    | .ok (optlist, rest) =>
      if rest.length < 2 then
        .ok (.inl [cmd ++ ": missing destination file operand after `".toList ++ args.headD [] ++
          "'\n".toList, help])
      else
        let sources := rest.dropLast
        let dest := rest.getLastD []
        -- an empty destination is an `IndexError` here or at `dest[-1]`
        match resolve user dest f with
        | .error e => .error e
        | .ok rdest =>
          if sources.length > 1 ∧ ¬ f.isdir rdest then
            .ok (.inl [cmd ++ ": target `".toList ++ dest ++ "' is not a directory\n".toList])
          else
            let cannotCreate (why : String) :=
              cmd ++ ": cannot create regular file `".toList ++ dest ++ why.toList
            match if dest.getLast? = some '/' then f.exists rdest else .ok true with
            | .error e => .error e
            | .ok found =>
              if ¬ found ∧ ¬ bare optlist sources then
                .ok (.inl [cannotCreate "': Is a directory\n"])
              else if f.isdir rdest then .ok (.inr { optlist, sources, dest, rdest, isdir := true })
              else
                match f.exists (dirname rdest) with
                | .error e => .error e
                | .ok false => .ok (.inl [cannotCreate "': No such file or directory\n"])
                | .ok true => .ok (.inr { optlist, sources, dest, rdest, isdir := false })

/-- `opt[0] in ("-r", "-a", "-R")`. -/
def recursive (optlist : List Str) : Bool :=
  optlist.any (· ∈ ["-r".toList, "-a".toList, "-R".toList])

/-- `copy.deepcopy(self.fs.getfile(path))`. -/
def deepcopy (path : Str) : FsM Ref := do
  match ← query fun f => f.getfile path with
  | none => throw .typeError
  | some x =>
    let (s, g, _) ← query fun f => deepcopyAt f.limit x (f, fun _ => none)
    modify fun _ => g
    pure s

def cpOne (user : User) (p : Files) (src : Str) : CommandM Bool := do
  let rsrc ← ask (resolve user src)
  if ¬ (← ask fun fs => fs.exists rsrc) then do
    errorWrite ("cp: cannot stat `".toList ++ src ++ "': No such file or directory\n".toList)
    pure true
  else if ¬ recursive p.optlist ∧ (← get).fs.isdir rsrc then do
    errorWrite ("cp: omitting directory `".toList ++ src ++ "'\n".toList)
    pure true
  else do
    let s ← onFs (deepcopy rsrc)
    let directory ← ask fun fs => fs.getPath p.target
    onFs do
      removeNamed directory (p.cpName src)
      modify fun fs => fs.setName s (p.cpName src)
      append directory s
    pure true

def mvOne (user : User) (p : Files) (src : Str) : CommandM Bool := do
  let rsrc ← ask (resolve user src)
  match ← ask fun fs => fs.getfile rsrc with
  | none => do
    errorWrite ("mv: cannot stat `".toList ++ src ++ "': No such file or directory\n".toList)
    pure true
  | some s => do
    let directory ← ask fun fs => fs.getPath p.target
    onFs do
      modify fun fs => fs.setName s (p.mvName src)
      append directory s
      let sdir ← query fun fs => fs.getPath (dirname rsrc)
      removeEntry sdir s
    pure true

/-- Write the messages, or run the loop. -/
def runFiles (plan : HoneyPotFilesystem → Except FsError (List Str ⊕ Files))
    (one : Files → Str → CommandM Bool) : CommandM Unit := do
  match ← ask plan with
  | .inl messages => modify fun s => { s with written := s.written ++ messages.map .err }
  | .inr p => forEach (one p) p.sources

def cpPlan : User → List Str → HoneyPotFilesystem → Except FsError (List Str ⊕ Files) :=
  files "cp".toList "-abdfiHlLPpRrsStTuvx".toList fun optlist _ => recursive optlist

def cpCommand (user : User) (args : List Str) : CommandM Unit :=
  runFiles (cpPlan user args) (cpOne user)

def mvPlan : User → List Str → HoneyPotFilesystem → Except FsError (List Str ⊕ Files) :=
  files "mv".toList "-bfiStTuv".toList fun _ sources => sources.length = 1

def mvCommand (user : User) (args : List Str) : CommandM Unit :=
  runFiles (mvPlan user args) (mvOne user)

/-! ## `unzip` (`unzip.py`) -/

def unzipUsage : String :=
  "UnZip 6.00 of 20 April 2009, by Debian. Original by Info-ZIP.\n" ++
  "\n" ++
  "Usage: unzip [-Z] [-opts[modifiers]] file[.zip] [list] [-x xlist] [-d exdir]\n" ++
  "  Default action is to extract files in list, except those in xlist, to exdir;\n" ++
  "  file[.zip] may be a wildcard.  -Z => ZipInfo mode (\"unzip -Z\" for usage).\n" ++
  "\n" ++
  "  -p  extract files to pipe, no messages     -l  list files (short format)\n" ++
  "  -f  freshen existing files, create none    -t  test compressed archive data\n" ++
  "  -u  update files, create if necessary      -z  display archive comment only\n" ++
  "  -v  list verbosely/show version info       -T  timestamp archive to latest\n" ++
  "  -x  exclude files that follow (in xlist)   -d  extract files into exdir\n" ++
  "modifiers:\n" ++
  "   -n  never overwrite existing files         -q  quiet mode (-qq => quieter)\n" ++
  "  -o  overwrite files WITHOUT prompting      -a  auto-convert any text files\n" ++
  "  -j  junk paths (do not make directories)   -aa treat ALL files as text\n" ++
  "  -U  use escapes for all non-ASCII Unicode  -UU ignore any Unicode fields\n" ++
  "  -C  match filenames case-insensitively     -L  make (some) names lowercase\n" ++
  "  -X  restore UID/GID info                   -V  retain VMS version numbers\n" ++
  "  -K  keep setuid/setgid/tacky permissions   -M  pipe through \"more\" pager\n" ++
  "See \"unzip -hh\" or unzip.txt for more help.  Examples:\n" ++
  "  unzip data1 -x joe   => extract all files except joe from zipfile data1.zip\n" ++
  "  unzip -p foo | more  => send contents of foo.zip via pipe into program more\n" ++
  "  unzip -fo foo ReadMe => quietly replace existing ReadMe if archive file newer\n"

/-- `zipfile.ZipInfo`. -/
structure ZipInfo where
  filename : Str
  fileSize : Nat
  deriving DecidableEq, Repr

/-- `is_dir()`. -/
def ZipInfo.isDir (z : ZipInfo) : Bool := z.filename.getLast? = some '/'

/-- The directories that `mkfullpath` goes through. -/
def prefixes (components : List Str) : List Str :=
  components.inits.tail.map fun d => '/' :: join d

def mkfullpathOne (user : User) (directory : Str) : CommandM Bool := do
  if ¬ (← ask fun fs => fs.exists directory) then do
    onFs (mkdir directory user.uid user.gid 4096 33188)
    pure true
  else pure true

def mkfullpath (user : User) (path : Str) : CommandM Unit :=
  forEach (mkfullpathOne user) (prefixes (split path))

def ZipInfo.inflating (z : ZipInfo) : Str := "  inflating: ".toList ++ z.filename ++ "\n".toList

def unzipOne (user : User) (z : ZipInfo) : CommandM Bool := do
  let dest ← ask (resolve user (stripSlash z.filename))
  write z.inflating
  if z.isDir then do
    onFs (mkdir dest user.uid user.gid 4096 33188)
    pure true
  else do
    mkfullpath user (dirname dest)
    let _ ← onFs (mkfile dest user.uid user.gid z.fileSize 33188)
    pure true

/-- The archive: the path, or the path with `.zip`. -/
def archive (path : Str) (f : HoneyPotFilesystem) : Except FsError (Option Ref) :=
  match f.getfile path with
  | .ok none => f.getfile (path ++ ".zip".toList)
  | r => r

/-- The entries of the archive, from the real file behind it. -/
def opened (infolist : Str → Option (List ZipInfo)) (x : Ref) (f : HoneyPotFilesystem) :
    Option (List ZipInfo) :=
  let realfile := (f.node x).realfile.getD []
  if realfile = [] then none else infolist realfile

def cannotFind (filename : Str) : Str :=
  "unzip:  cannot find or open ".toList ++ filename ++ ", ".toList ++ filename ++ ".zip or ".toList ++
    filename ++ ".ZIP.\n".toList

def noSignature : String :=
  "  End-of-central-directory signature not found.  Either this file is not\n" ++
  "  a zipfile, or it constitutes one disk of a multi-part archive.  In the\n" ++
  "  latter case the central directory and zipfile comment will be found on\n" ++
  "  the last disk(s) of this archive.\n"

def unzipCommand (infolist : Str → Option (List ZipInfo)) (user : User) :
    List Str → CommandM Unit
  | [] => write unzipUsage.toList
  | filename :: _ => do
    if filename.head? = some '-' then write unzipUsage.toList
    else
      let path ← ask (resolve user filename)
      match ← ask (archive path) with
      | none => write (cannotFind filename)
      | some x => do
        match opened infolist x (← get).fs with
        | none => do
          write noSignature.toList
          write (cannotFind filename)
        | some t => do
          write ("Archive:  ".toList ++ filename ++ "\n".toList)
          forEach (unzipOne user) t

end Cowrie.Shell.Fs
