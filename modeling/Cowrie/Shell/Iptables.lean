import Cowrie.Lib.Optparse
import Cowrie.Lib.OrderedDict
import Cowrie.Lib.Program

/-!
# `iptables` (`src/cowrie/commands/iptables.py`)

The tables of a session are an attribute of its server; the first call makes them. `-F` and `-L` may be followed by
the name of a chain, which the parser keeps in `opts.flush` or `opts.list`; what is passed on is
`"" if opts.flush else opts.flush`, so that the name is lost (`chainArgument`).

* `start` is the method of this name; `onChains` is what `list_rules`, `list_chains` and `flush` have in common.
* `Confined`: the chain that is named, or all of the table, is empty afterwards, and nothing else has changed.
* **`flush_confined_iff`**: for all arguments that ask for a flush, what they do is confined exactly if no chain of
  the table has rules but those that are named, for `root`; for anyone else, if none of those named has rules.

Left out: `exit`, and `unknown_option`, since this parser never exits.
-/

namespace Cowrie.Shell.Iptables

open Cowrie.Lib Optparse

abbrev Str := List Char

/-- The places of a rule, under the headings of `list_chains`; two have none. -/
structure Rule where
  target : Str
  prot : Str
  opt : Str
  source : Str
  destination : Str
  matching : Str
  details : Str
  deriving DecidableEq

abbrev Chains := OrderedDict Str (List Rule)

abbrev Tables := OrderedDict Str Chains

/-- `self.protocol.user`; `written` is what the command writes. -/
structure Session where
  username : Str
  /-- `user.server.iptables`, if there is such an attribute. -/
  iptables : Option Tables
  written : List Str := []

abbrev IptablesM (α : Type) := Prog Empty Session α

/-! ## The command -/

def DEFAULT_TABLE : Str := "filter".toList

/-- What an option sets (`dest`). -/
inductive Dest
  | help | version | verbose | exact | lineNumbers | numeric | modprobe | table | flush | zero | listRules | list
  | append | delete | insert | replace | newChain | deleteChain | policy | renameChain | protocol | source
  | destination | jump | goto | inInterface | outInterface | fragment | setCounters | matching | sourcePorts
  | destPorts | ports | state
  deriving DecidableEq, Repr

def opt (shorts : List Char) (longs : List String) (dest : Dest) (action : Action) : Opt Dest :=
  ⟨shorts, longs.map String.toList, dest, action⟩

/-- The options of the parser. -/
def options : List (Opt Dest) := [
  opt ['h'] ["help"] .help .storeTrue,
  opt ['V'] ["version"] .version .storeTrue,
  opt ['v'] ["verbose"] .verbose .storeTrue,
  opt ['x'] ["exact"] .exact .storeTrue,
  opt [] ["line-numbers"] .lineNumbers .storeTrue,
  opt ['n'] ["numeric"] .numeric .storeTrue,
  opt [] ["modprobe"] .modprobe .store,
  opt ['t'] ["table"] .table .store,
  opt ['F'] ["flush"] .flush .optional,
  opt ['Z'] ["zero"] .zero .optional,
  opt ['S'] ["list-rules"] .listRules .optional,
  opt ['L'] ["list"] .list .optional,
  opt ['A'] ["append"] .append .store,
  opt ['D'] ["delete"] .delete .store,
  opt ['I'] ["insert"] .insert .store,
  opt ['R'] ["replace"] .replace .store,
  opt ['N'] ["new-chain"] .newChain .store,
  opt ['X'] ["delete-chain"] .deleteChain .store,
  opt ['P'] ["policy"] .policy .store,
  opt ['E'] ["rename-chain"] .renameChain .store,
  opt ['p'] ["protocol"] .protocol .store,
  opt ['s'] ["source"] .source .store,
  opt ['d'] ["destination"] .destination .store,
  opt ['j'] ["jump"] .jump .store,
  opt ['g'] ["goto"] .goto .store,
  opt ['i'] ["in-interface"] .inInterface .store,
  opt ['o'] ["out-interface"] .outInterface .store,
  opt ['f'] ["fragment"] .fragment .storeTrue,
  opt ['c'] ["set-counters"] .setCounters .store,
  opt ['m'] ["match"] .matching .store,
  opt [] ["sport", "source-ports"] .sourcePorts .store,
  opt [] ["dport", "destination-ports"] .destPorts .store,
  opt [] ["ports"] .ports .store,
  opt [] ["state"] .state .store]

/-- The rules that a session begins with. -/
def freshTables : Tables :=
  let chains (names : List String) : Chains := .ofPairs (names.map fun name => (name.toList, []))
  .ofPairs [
    ("raw".toList, chains ["PREROUTING", "OUTPUT"]),
    ("filter".toList, (chains ["INPUT", "FORWARD", "OUTPUT"]).set "INPUT".toList [
      ⟨"ACCEPT".toList, "tcp".toList, "--".toList, "anywhere".toList, "anywhere".toList, "tcp".toList,
        "dpt:ssh".toList⟩,
      ⟨"DROP".toList, "all".toList, "--".toList, "anywhere".toList, "anywhere".toList, [], []⟩]),
    ("mangle".toList, chains ["PREROUTING", "INPUT", "FORWARD", "OUTPUT", "POSTROUTING"]),
    ("nat".toList, chains ["PREROUTING", "OUTPUT"])]

namespace Session

variable (s : Session)

/-- `user_is_root`. -/
def userIsRoot : Bool := s.username = "root".toList

/-- `self.tables`. -/
def tables : Tables := s.iptables.getD freshTables

/-- `self.current_table`. -/
def currentTable (table : Str) : Chains := (s.tables.get? table).getD .empty

/-- `self.current_table[chain] = rules`. -/
def setChain (table chain : Str) (rules : List Rule) : Session :=
  { s with iptables := some (s.tables.set table ((s.currentTable table).set chain rules)) }

/-- The rules of a chain, if there is such a one. -/
def rules (table chain : Str) : Option (List Rule) := (s.tables.get? table).bind fun chains => chains.get? chain

end Session

def write (data : Str) : IptablesM Unit := modify fun s => { s with written := s.written ++ [data] }

def noPermission : IptablesM Unit :=
  write ("iptables v1.4.14: can't initialize iptables table 'filter': Permission denied (you must be root)\n" ++
    "Perhaps iptables or your kernel needs to be upgraded.\n").toList

def noCommand : IptablesM Unit :=
  write ("iptables v1.4.14: no command specified'\n" ++
    "Try `iptables -h' or 'iptables --help' for more information.\n").toList

def badArgument (argument : Str) : IptablesM Unit :=
  write ("Bad argument '".toList ++ argument ++
    "'\nTry `iptables -h' or 'iptables --help' for more information.\n".toList)

def showVersion : IptablesM Unit := write "iptables v1.4.14\n".toList

def HELP : String :=
  "iptables v1.4.14'\n" ++
  "\n" ++
  "Usage: iptables -[AD] chain rule-specification [options]\n" ++
  "       iptables -I chain [rulenum] rule-specification [options]\n" ++
  "       iptables -R chain rulenum rule-specification [options]\n" ++
  "       iptables -D chain rulenum [options]\n" ++
  "       iptables -[LS] [chain [rulenum]] [options]\n" ++
  "       iptables -[FZ] [chain] [options]\n" ++
  "       iptables -[NX] chain\n" ++
  "       iptables -E old-chain-name new-chain-name\n" ++
  "       iptables -P chain target [options]\n" ++
  "       iptables -h (print this help information)\n" ++
  "\n" ++
  "Commands:\n" ++
  "Either long or short options are allowed.\n" ++
  "  --append  -A chain       Append to chain\n" ++
  "  --delete  -D chain       Delete matching rule from chain\n" ++
  "  --delete  -D chain rulenum\n" ++
  "               Delete rule rulenum (1 = first) from chain\n" ++
  "  --insert  -I chain [rulenum]\n" ++
  "               Insert in chain as rulenum (default 1=first)\n" ++
  "  --replace -R chain rulenum\n" ++
  "               Replace rule rulenum (1 = first) in chain\n" ++
  "  --list    -L [chain [rulenum]]\n" ++
  "               List the rules in a chain or all chains\n" ++
  "  --list-rules -S [chain [rulenum]]\n" ++
  "               Print the rules in a chain or all chains\n" ++
  "  --flush   -F [chain]     Delete all rules in  chain or all chains\n" ++
  "  --zero    -Z [chain [rulenum]]\n" ++
  "               Zero counters in chain or all chains\n" ++
  "  --new     -N chain       Create a new user-defined chain\n" ++
  "  --delete-chain\n" ++
  "            -X [chain]     Delete a user-defined chain\n" ++
  "  --policy  -P chain target\n" ++
  "               Change policy on chain to target\n" ++
  "  --rename-chain\n" ++
  "            -E old-chain new-chain\n" ++
  "               Change chain name, (moving any references)\n" ++
  "Options:\n" ++
  "[!] --proto    -p proto    protocol: by number or name, eg. 'tcp'\n" ++
  "[!] --source   -s address[/mask][...]\n" ++
  "               source specification\n" ++
  "[!] --destination -d address[/mask][...]\n" ++
  "               destination specification\n" ++
  "[!] --in-interface -i input name[+]\n" ++
  "               network interface name ([+] for wildcard)\n" ++
  "  --jump    -j target\n" ++
  "               target for rule (may load target extension)\n" ++
  "  --goto      -g chain\n" ++
  "                              jump to chain with no return\n" ++
  "  --match  -m match\n" ++
  "               extended match (may load extension)\n" ++
  "  --numeric    -n      numeric output of addresses and ports\n" ++
  "[!] --out-interface -o output name[+]\n" ++
  "               network interface name ([+] for wildcard)\n" ++
  "  --table  -t table    table to manipulate (default: 'filter')\n" ++
  "  --verbose    -v      verbose mode\n" ++
  "  --line-numbers       print line numbers when listing\n" ++
  "  --exact  -x      expand numbers (display exact values)\n" ++
  "[!] --fragment -f      match second or further fragments only\n" ++
  "  --modprobe=<command>     try to insert modules using this command\n" ++
  "  --set-counters PKTS BYTES    set the counter during insert/append\n" ++
  "[!] --version  -V      print package version.\n"

def showHelp : IptablesM Unit := write HELP.toList

def isValidTable (table : Str) : IptablesM Bool := do
  let s ← get
  if s.userIsRoot then
    if (s.tables.get? table).isSome then pure true
    else do
      write ("iptables: can't initialize iptables table '".toList ++ table ++
        ("': Table does not exist (do you need to insmod?)\n" ++
          "Perhaps iptables or your kernel needs to be upgraded.\n").toList)
      pure false
  else do
    noPermission
    pure false

def setupTable (table : Str) : IptablesM Bool := do
  modify fun s => { s with iptables := some s.tables }
  isValidTable table

def isValidChain (table chain : Str) : IptablesM Bool := do
  let s ← get
  if ((s.currentTable table).get? chain).isSome then pure true
  else do
    write "iptables: No chain/target/match by that name.\n".toList
    pure false

/-- `body` on the chain that is named, or on all of the table. -/
def onChains (table chain : Str) (body : List Str → IptablesM Unit) : IptablesM Unit := do
  let s ← get
  if s.userIsRoot then
    if 0 < chain.length then do
      let valid ← isValidChain table chain
      when valid (body [chain])
    else body (s.currentTable table).keys
  else noPermission

def listRules (table chain : Str) : IptablesM Unit :=
  onChains table chain fun chains =>
    write (['\n'].intercalate (chains.map fun chain => "-P ".toList ++ chain ++ " ACCEPT".toList) ++ ['\n'])

/-- `f"{text:width}"`. -/
def padded (text : Str) (width : Nat) : Str := text ++ List.replicate (width - text.length) ' '

def formatRule (rule : Rule) : Str :=
  padded rule.target 10 ++ [' '] ++ padded rule.prot 4 ++ [' '] ++ padded rule.opt 3 ++ ['s', ' '] ++
    padded rule.source 20 ++ [' '] ++ padded rule.destination 20 ++ [' '] ++ rule.matching ++ [' '] ++ rule.details

def listChains (table chain : Str) : IptablesM Unit :=
  onChains table chain fun chains => do
    let s ← get
    let output := chains.map fun chain =>
      ['\n'].intercalate ([
        "Chain ".toList ++ chain ++ " (policy ACCEPT)".toList,
        "target     prot opt source               destination".toList] ++
        (((s.currentTable table).get? chain).getD []).map formatRule)
    write (['\n', '\n'].intercalate output ++ ['\n'])

def flush (table chain : Str) : IptablesM Unit :=
  onChains table chain fun chains => chains.forM fun chain => modify fun s => s.setChain table chain []

/-- Whether the value of an option counts as true. -/
def truthy : Option Value → Bool
  | none => false
  | some .flag => true
  | some (.text value) => value ≠ []

/-- `"" if value else value`, of a value that is true. -/
def chainArgument (value : Option Value) : Str :=
  if truthy value then []
  else
    match value with
    | some (.text value) => value
    | _ => []

/-- `opts.table`. -/
def tableOf (sets : List (Dest × Value)) : Str :=
  match getLast sets .table with
  | some (.text table) => table
  | _ => DEFAULT_TABLE

/-- What the options ask for. -/
def dispatch (opts : Dest → Option Value) (table : Str) : IptablesM Unit :=
  if truthy (opts .help) then showHelp
  else if truthy (opts .version) then showVersion
  else if truthy (opts .flush) then flush table (chainArgument (opts .flush))
  else if truthy (opts .list) then listChains table (chainArgument (opts .list))
  else when (truthy (opts .listRules)) (listRules table (chainArgument (opts .listRules)))

def start (args : List Str) : IptablesM Unit :=
  if args = [] then noCommand
  else
    match parseArgs options args with
    | none => badArgument (args.headD [])
    | some sets => do
      let valid ← setupTable (tableOf sets)
      when valid (dispatch (getLast sets) (tableOf sets))

/-! ## What is asked for -/

/-- The chain that an option names; none if it means all. -/
def named : Value → Option Str
  | .flag => none
  | .text chain => some chain

/-- The chain is emptied, or all of the table where none is named, and nothing else changes. -/
def Confined (table : Str) (chain : Option Str) (s s' : Session) : Prop :=
  ∀ t c, s'.rules t c = if t = table ∧ chain.getD c = c then (s.rules t c).map fun _ => [] else s.rules t c

/-- What has rules is named, if there will be a flush; if not, what is named has none. -/
def Suited (table : Str) (chain : Option Str) (s : Session) : Prop :=
  ∀ c rules, s.rules table c = some rules → rules ≠ [] →
    if s.userIsRoot ∧ chain ≠ some [] then chain.getD c = c else chain.getD c ≠ c

variable {s s' : Session} {table chain : Str} {sets : List (Dest × Value)} {args : List Str}

/-! ## One chain -/

theorem rules_congr (h : s'.tables = s.tables) (t c : Str) : s'.rules t c = s.rules t c := by
  unfold Session.rules
  rw [h]

theorem currentTable_get? (s : Session) (table c : Str) : (s.currentTable table).get? c = s.rules table c := by
  unfold Session.currentTable Session.rules
  cases s.tables.get? table with
  | none => exact OrderedDict.get?_empty c
  | some chains => rfl

theorem rules_setChain (s : Session) (table chain : Str) (rules : List Rule) (t c : Str) :
    (s.setChain table chain rules).rules t c = if t = table ∧ c = chain then some rules else s.rules t c := by
  unfold Session.rules Session.setChain
  simp only [Session.tables, Option.getD_some, OrderedDict.get?_set]
  by_cases ht : t = table
  · subst ht
    by_cases hc : c = chain
    · simp [hc]
    · have hget := currentTable_get? s t c
      unfold Session.rules Session.tables at hget
      simp [hc, hget]
  · simp [ht]

/-- Chain by chain. -/
theorem exec_emptied (s : Session) (table : Str) (chains : List Str) :
    ∃ s', exec (chains.forM fun chain => modify fun s => s.setChain table chain [] : IptablesM Unit) s =
        (.ok (), s') ∧
      ∀ t c, s'.rules t c = if t = table ∧ c ∈ chains then some [] else s.rules t c := by
  induction chains generalizing s with
  | nil => exact ⟨s, rfl, fun t c => by simp⟩
  | cons chain chains ih =>
    obtain ⟨s', hexec, hrules⟩ := ih (s.setChain table chain [])
    refine ⟨s', ?_, fun t c => ?_⟩
    · have hcons : ((chain :: chains).forM fun chain => modify fun s => s.setChain table chain [] : IptablesM Unit) =
          (modify fun s => s.setChain table chain []) >>= fun _ =>
            chains.forM fun chain => modify fun s => s.setChain table chain [] := rfl
      rw [hcons, exec_modify_bind, hexec]
    · rw [hrules, rules_setChain]
      by_cases hc : c = chain
      · by_cases ht : t = table
        · simp [hc, ht]
        · simp [ht]
      · simp [hc]

/-! ## The methods -/

/-- A computation that writes, and leaves the tables. -/
def OnlyWrites (m : IptablesM Unit) : Prop := ∀ s, (exec m s).2.tables = s.tables

theorem onlyWrites_write (data : Str) : OnlyWrites (write data) := fun _ => rfl

theorem onlyWrites_when {c : Prop} [Decidable c] {m : IptablesM Unit} (h : OnlyWrites m) : OnlyWrites (when c m) := by
  unfold when
  split_ifs
  · exact h
  · exact fun _ => rfl

theorem exec_isValidChain (s : Session) (table chain : Str) :
    ∃ valid s', exec (isValidChain table chain) s = (.ok valid, s') ∧ s'.tables = s.tables := by
  unfold isValidChain
  rw [exec_get_bind]
  split_ifs
  · exact ⟨true, s, rfl, rfl⟩
  · exact ⟨false, _, rfl, rfl⟩

theorem onlyWrites_onChains {body : List Str → IptablesM Unit} (hbody : ∀ chains, OnlyWrites (body chains))
    (table chain : Str) : OnlyWrites (onChains table chain body) := by
  intro s
  unfold onChains
  rw [exec_get_bind]
  split_ifs with hroot hchain
  · obtain ⟨valid, s', hvalid, htables⟩ := exec_isValidChain s table chain
    rw [exec_bind_ok hvalid, onlyWrites_when (hbody [chain]), htables]
  · exact hbody _ s
  · rfl

theorem onlyWrites_listRules (table chain : Str) : OnlyWrites (listRules table chain) :=
  onlyWrites_onChains (fun _ => onlyWrites_write _) table chain

theorem onlyWrites_listChains (table chain : Str) : OnlyWrites (listChains table chain) :=
  onlyWrites_onChains (fun _ _ => rfl) table chain

/-- `flush("")`. -/
theorem rules_flush (hroot : s.userIsRoot = true) (table : Str) (t c : Str) :
    (exec (flush table []) s).2.rules t c =
      if t = table then (s.rules t c).map fun _ => [] else s.rules t c := by
  obtain ⟨s', hexec, hrules⟩ := exec_emptied s table (s.currentTable table).keys
  have hflush : exec (flush table []) s = (.ok (), s') := by
    unfold flush onChains
    rw [exec_get_bind, if_pos hroot, if_neg (by simp), hexec]
  rw [hflush, hrules]
  by_cases ht : t = table
  · subst ht
    have hmem : c ∈ (s.currentTable t).keys ↔ ∃ rules, s.rules t c = some rules := by
      rw [OrderedDict.mem_keys_iff, currentTable_get?]
    cases hrules : s.rules t c with
    | none =>
      have hnot : c ∉ (s.currentTable t).keys := fun hc => by
        obtain ⟨rules, hsome⟩ := hmem.mp hc
        rw [hrules] at hsome
        cases hsome
      simp [hnot]
    | some rules => simp [hmem.mpr ⟨rules, hrules⟩]
  · simp [ht]

theorem exec_isValidTable (s : Session) (table : Str) :
    ∃ s', exec (isValidTable table) s = (.ok (s.userIsRoot && (s.tables.get? table).isSome), s') ∧
      s'.tables = s.tables ∧ s'.username = s.username := by
  unfold isValidTable
  rw [exec_get_bind]
  cases s.userIsRoot with
  | false => exact ⟨_, rfl, rfl, rfl⟩
  | true =>
    cases (s.tables.get? table).isSome with
    | false => exact ⟨_, rfl, rfl, rfl⟩
    | true => exact ⟨_, rfl, rfl, rfl⟩

theorem exec_setupTable (s : Session) (table : Str) :
    ∃ s', exec (setupTable table) s = (.ok (s.userIsRoot && (s.tables.get? table).isSome), s') ∧
      s'.tables = s.tables ∧ s'.username = s.username := by
  unfold setupTable
  rw [exec_modify_bind]
  exact exec_isValidTable { s with iptables := some s.tables } table

/-! ## The whole command -/

/-- Arguments that ask for a flush, and for neither help nor the version. -/
structure AsksFlush (args : List Str) (sets : List (Dest × Value)) (value : Value) : Prop where
  parsed : parseArgs options args = some sets
  help : getLast sets .help = none
  version : getLast sets .version = none
  flush : getLast sets .flush = some value

variable {value : Value}

theorem truthy_iff (value : Value) : truthy (some value) = true ↔ named value ≠ some [] := by
  cases value with
  | flag => simp [truthy, named]
  | text chain => simp [truthy, named]

theorem chainArgument_of_truthy {value : Option Value} (h : truthy value = true) : chainArgument value = [] :=
  if_pos h

theorem rules_dispatch (h : AsksFlush args sets value) (hroot : s.userIsRoot = true) (t c : Str) :
    (exec (dispatch (getLast sets) table) s).2.rules t c =
      if t = table ∧ named value ≠ some [] then (s.rules t c).map fun _ => [] else s.rules t c := by
  have hfalse : ¬ truthy none = true := Bool.false_ne_true
  unfold dispatch
  rw [h.help, h.version, h.flush, if_neg hfalse, if_neg hfalse]
  by_cases hvalue : truthy (some value) = true
  · have hnamed := (truthy_iff value).mp hvalue
    rw [if_pos hvalue, chainArgument_of_truthy hvalue, rules_flush hroot]
    by_cases ht : t = table
    · rw [if_pos ht, if_pos ⟨ht, hnamed⟩]
    · rw [if_neg ht, if_neg fun hif => ht hif.1]
  · have hnot : ¬ (t = table ∧ named value ≠ some []) := fun hif => hvalue ((truthy_iff value).mpr hif.2)
    rw [if_neg hvalue, if_neg hnot]
    split_ifs
    · exact rules_congr (onlyWrites_listChains _ _ s) t c
    · exact rules_congr (onlyWrites_when (onlyWrites_listRules _ _) s) t c

/-- **What `-F` does.** -/
theorem rules_start (h : AsksFlush args sets value) (s : Session) (t c : Str) :
    (exec (start args) s).2.rules t c =
      if t = tableOf sets ∧ s.userIsRoot ∧ named value ≠ some [] then (s.rules t c).map fun _ => []
      else s.rules t c := by
  have hargs : args ≠ [] := by
    rintro rfl
    have hnil : sets = [] := (Option.some.inj h.parsed).symm
    have hflush := h.flush
    rw [hnil] at hflush
    cases hflush
  obtain ⟨s', hsetup, htables, hname⟩ := exec_setupTable s (tableOf sets)
  have hrules := rules_congr htables
  have hrootEq : s'.userIsRoot = s.userIsRoot := by
    unfold Session.userIsRoot
    rw [hname]
  unfold start
  rw [if_neg hargs, h.parsed]
  simp only
  rw [exec_bind_ok hsetup]
  by_cases hroot : s.userIsRoot = true
  · by_cases htable : (s.tables.get? (tableOf sets)).isSome = true
    · rw [when_true (by rw [hroot, htable]; rfl), rules_dispatch h (hrootEq.trans hroot), hrules]
      simp [hroot]
    · -- there is no such table
      rw [when_false (by simp [htable]), exec_pure, hrules]
      split_ifs with hif
      · obtain ⟨rfl, -⟩ := hif
        have hnone : s.rules (tableOf sets) c = none := by
          unfold Session.rules
          rw [Option.not_isSome_iff_eq_none.mp htable]
          rfl
        rw [hnone]
        rfl
      · rfl
  · rw [when_false (by simp [hroot]), exec_pure, hrules, if_neg fun hif => hroot hif.2.1]

/-- **`-F` is confined** iff, for `root`, no chain of the table but those that are named has rules; for anyone else,
or a name without signs, if none of those named has. -/
theorem flush_confined_iff (s : Session) (args : List Str) (sets : List (Dest × Value)) (value : Value)
    (h : AsksFlush args sets value) :
    Confined (tableOf sets) (named value) s (exec (start args) s).2 ↔ Suited (tableOf sets) (named value) s := by
  unfold Confined Suited
  simp only [rules_start h]
  by_cases hdone : s.userIsRoot = true ∧ named value ≠ some []
  · simp only [hdone, and_true, ne_eq, not_false_eq_true, and_self, if_true]
    constructor
    · intro hall c rules hrules hne
      by_contra hother
      have heq := hall (tableOf sets) c
      rw [if_pos rfl, if_neg fun hif => hother hif.2, hrules] at heq
      exact hne (Option.some.inj heq).symm
    · intro hall t c
      by_cases ht : t = tableOf sets
      · subst ht
        cases hrules : s.rules (tableOf sets) c with
        | none => simp
        | some rules =>
          by_cases hne : rules = []
          · simp [hne]
          · rw [if_pos rfl, if_pos ⟨rfl, hall c rules hrules hne⟩]
      · rw [if_neg ht, if_neg fun hif => ht hif.1]
  · simp only [hdone, and_false, if_false]
    constructor
    · intro hall c rules hrules hne hnamed
      have heq := hall (tableOf sets) c
      rw [if_pos ⟨rfl, hnamed⟩, hrules] at heq
      exact hne (Option.some.inj heq)
    · intro hall t c
      split_ifs with hif
      · obtain ⟨rfl, hnamed⟩ := hif
        cases hrules : s.rules (tableOf sets) c with
        | none => rfl
        | some rules =>
          by_cases hne : rules = []
          · simp [hne]
          · exact absurd hnamed (hall c rules hrules hne)
      · rfl

/-! ### `iptables -F OUTPUT` -/

/-- `-F` and a chain. -/
theorem asksFlush_chain {chain : Str} (h : chain.head? ≠ some '-') :
    AsksFlush [['-', 'F'], chain] [(.flush, .text chain)] (.text chain) where
  parsed := by
    have htake : takeOptional [chain] = (.text chain, []) := if_neg h
    have hone : processOpt options ['-', 'F'] [chain] = some ([(.flush, .text chain)], []) := by
      have hstep : processOpt options ['-', 'F'] [chain] =
          some ([(.flush, (takeOptional [chain]).1)], (takeOptional [chain]).2) := rfl
      rw [hstep, htake]
    rw [parseArgs_cons, if_neg (by decide), hone]
    rfl
  help := rfl
  version := rfl
  flush := rfl

/-- `INPUT` and `OUTPUT` have these rules, and there is nothing else. -/
def session (input output : List Rule) : Session where
  username := "root".toList
  iptables := some (OrderedDict.empty.set DEFAULT_TABLE
    ((OrderedDict.empty.set "INPUT".toList input).set "OUTPUT".toList output))

theorem rules_session (input output : List Rule) (c : Str) :
    (session input output).rules DEFAULT_TABLE c =
      if c = "OUTPUT".toList then some output else if c = "INPUT".toList then some input else none := by
  unfold session Session.rules Session.tables
  rw [Option.getD_some, OrderedDict.get?_set, if_pos rfl, Option.bind_some, OrderedDict.get?_set,
    OrderedDict.get?_set, OrderedDict.get?_empty]

def dropRule : Rule :=
  ⟨"DROP".toList, "all".toList, "--".toList, "anywhere".toList, "anywhere".toList, [], []⟩

/-- No other chain has rules. -/
theorem flush_confined_output :
    Confined DEFAULT_TABLE (some "OUTPUT".toList) (session [] [dropRule])
      (exec (start [['-', 'F'], "OUTPUT".toList]) (session [] [dropRule])).2 := by
  refine (flush_confined_iff (session [] [dropRule]) _ _ _ (asksFlush_chain (by decide))).mpr ?_
  intro c rules hrules hne
  change (session [] [dropRule]).rules DEFAULT_TABLE c = some rules at hrules
  rw [rules_session] at hrules
  split_ifs at hrules with hc hc'
  · rw [hc]
    rfl
  · exact absurd (Option.some.inj hrules).symm hne

/-- `INPUT` is emptied too. -/
theorem flush_not_confined :
    ¬ Confined DEFAULT_TABLE (some "OUTPUT".toList) (session [dropRule] [dropRule])
      (exec (start [['-', 'F'], "OUTPUT".toList]) (session [dropRule] [dropRule])).2 := by
  intro h
  have hinput := h DEFAULT_TABLE "INPUT".toList
  have hrules : (session [dropRule] [dropRule]).rules DEFAULT_TABLE "INPUT".toList = some [dropRule] := by
    rw [rules_session, if_neg (by decide), if_pos rfl]
  rw [rules_start (asksFlush_chain (by decide)), if_pos (by decide), if_neg (by decide), hrules] at hinput
  cases hinput

end Cowrie.Shell.Iptables
