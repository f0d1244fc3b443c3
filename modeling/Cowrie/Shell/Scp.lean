import Cowrie.Shell.Captured

/-!
# Uploads with `scp` (`src/cowrie/commands/scp.py:204-222`, `src/cowrie/insults/insults.py:97-158`)

What a client sends is appended to the log of standard input, in a session with a command. At the end of the input
`scp` takes the first line off the log, if it looks like the header of a file, and `connectionLost` stores the rest.
The size in the header is not looked at, so that the zero byte behind the contents stays.

* `dataReceived` has the limit on received data in front of the step of `Session` (`step_received`); `handleCtrlD` is
  `handle_CTRL_D`. `savedStdin` is the file that `connectionLost` names in its event, and its contents.
* `Upload` is what a client sends for one file.
* **`captured_iff_suits`**: the artifact consists of the contents of the file iff the limit cuts the zero byte off,
  and nothing else, or what is logged happens to be the contents. `not_suits_of_whole`: never within the limit.

Left out: `parse_scp_data` and `save_file`, which nothing calls; `exit`; what the terminal makes of the input.
-/

namespace Cowrie.Shell.Scp

open Cowrie.Lib Redirect SftpUpload Artifacts
open Fs (Str)

variable (sv : Server)

/-! ## The session -/

structure Sink where
  session : Session
  bytesReceived : Nat := 0

/-- The log of standard input with more data. -/
def logged (s : Session) (data : Bytes) : Session :=
  if s.stdinlogOpen then
    inWorld s { s.shell.world with files := appended s.shell.world.files (stdinlogFile sv s) data }
  else s

def dataReceived (k : Sink) (data : Bytes) : Sink :=
  let bytesReceived := k.bytesReceived + data.length
  if sv.bytesReceivedLimit ≠ 0 ∧ sv.bytesReceivedLimit < bytesReceived then { k with bytesReceived }
  else { session := logged sv k.session data, bytesReceived }

def isDigit (c : UInt8) : Bool := 48 ≤ c.toNat && c.toNat ≤ 57

/-- `\s`, for bytes. -/
def isSpace (c : UInt8) : Bool := c.toNat = 32 || 9 ≤ c.toNat && c.toNat ≤ 13

/-- `re.match(rb"C0[\d]{3} [\d]+ [^\s]+", header)`. -/
def isHeader (header : Bytes) : Bool :=
  let mode := (header.drop 2).take 3
  let rest := header.drop 6
  let name := rest.dropWhile isDigit
  header.take 2 = [67, 48] && mode.length = 3 && mode.all isDigit && header[5]? = some 32 &&
    rest.takeWhile isDigit ≠ [] && name.head? = some 32 && name[1]?.any fun c => !isSpace c

/-- `data[: data.find(b"\n")]`; without a line feed `find` returns -1. -/
def headerOf (data : Bytes) : Bytes := if data.any (· == 10) then data.takeWhile (· ≠ 10) else data.dropLast

/-- `data[data.find(b"\n") + 1 :]`. -/
def bodyOf (data : Bytes) : Bytes := if data.any (· == 10) then (data.dropWhile (· ≠ 10)).tail else data

def contentOf (data : Bytes) : Bytes := if isHeader (headerOf data) then bodyOf data else []

/-- What the log is after `handle_CTRL_D`. -/
def kept (data : Bytes) : Bytes := if contentOf data ≠ [] then contentOf data else data

def handleCtrlD (s : Session) : Session :=
  if s.stdinlogOpen then
    match s.shell.world.files (stdinlogFile sv s) with
    | none => s
    | some data => inWorld s { s.shell.world with
        files := Function.update s.shell.world.files (stdinlogFile sv s) (some (kept data)) }
  else s

/-- `outfile` of the event of `connectionLost`, and the contents that have this name. -/
def savedStdin (s : Session) : Option (Str × Bytes) :=
  if s.stdinlogOpen then
    (s.shell.world.files (stdinlogFile sv s)).map fun data => (shasumFilename sv data, data)
  else none

/-! ## What a client sends -/

/-- A number in decimal. -/
def decimal (n : Nat) : Bytes := (Nat.toDigits 10 n).map fun c => UInt8.ofNat c.toNat

/-- One file. -/
structure Upload where
  mode : Bytes
  name : Bytes
  content : Bytes
  mode_length : mode.length = 3
  mode_digits : ∀ c ∈ mode, isDigit c = true
  name_ne_nil : name ≠ []
  name_line : 10 ∉ name

namespace Upload

variable (u : Upload)

def header : Bytes := [67, 48] ++ u.mode ++ [32] ++ decimal u.content.length ++ [32] ++ u.name

/-- `C0mode size name`, and a line feed. -/
def line : Bytes := u.header ++ [10]

def stream : Bytes := u.line ++ u.content ++ [0]

/-- The name does not begin with white space. -/
def Plain : Prop := ∀ c ∈ u.name.head?, isSpace c = false

end Upload

/-! ## What is asked for -/

/-- The log is open and empty, and nothing was redirected. -/
structure Ready (s : Session) : Prop where
  stdinlogOpen : s.stdinlogOpen = true
  files : s.shell.world.files (stdinlogFile sv s) = none
  redirFiles : s.shell.redirFiles = []

/-- The artifact of a session that ends in `s`, and is then `t`, has these contents, and their name. -/
def Captured (s t : Session) (content : Bytes) : Prop :=
  savedStdin sv s = some (shasumFilename sv content, content) ∧
    (s.shell.world.files (shasumFilename sv content) = none →
      t.shell.world.files (shasumFilename sv content) = some content)

/-- The chunks that do not exceed the limit, where some bytes were received before. -/
def within (limit : Nat) : Nat → List Bytes → List Bytes
  | _, [] => []
  | received, data :: chunks =>
    if limit ≠ 0 ∧ limit < received + data.length then within limit (received + data.length) chunks
    else data :: within limit (received + data.length) chunks

/-- Some chunk is within the limit. What the chunks within it amount to is the header line with the contents, and the
line is recognised; or it is the contents, and nothing is taken off. -/
def Suits (u : Upload) (chunks : List Bytes) : Prop :=
  let received := within sv.bytesReceivedLimit 0 chunks
  received ≠ [] ∧
    (u.Plain ∧ u.content ≠ [] ∧ received.flatten = u.line ++ u.content ∨
      received.flatten = u.content ∧ ¬ (u.Plain ∧ ∃ rest, rest ≠ [] ∧ received.flatten = u.line ++ rest))

variable {sv} {base : Env World} {s t : Session} {u : Upload} {data rest : Bytes} {chunks : List Bytes}
  {limit n : Nat}

/-! ## Headers -/

theorem isDigit_of_mem_decimal {c : UInt8} (hc : c ∈ decimal n) : isDigit c = true := by
  obtain ⟨d, hd, rfl⟩ := List.mem_map.mp hc
  have hdigit : d.isDigit = true := Nat.isDigit_of_mem_toDigits (by omega) (by omega) hd
  have hrange : 48 ≤ d.toNat ∧ d.toNat ≤ 57 := by
    simpa [Char.isDigit, UInt32.le_iff_toNat_le] using hdigit
  have hnat : (UInt8.ofNat d.toNat).toNat = d.toNat := by
    rw [UInt8.toNat_ofNat']
    omega
  unfold isDigit
  rw [hnat]
  simpa using hrange

theorem decimal_ne_nil (n : Nat) : decimal n ≠ [] := by
  unfold decimal
  simp [Nat.toDigits_ne_nil]

theorem newline_not_mem_header (u : Upload) : 10 ∉ u.header := by
  have hdigit : isDigit 10 = false := rfl
  have hmode : (10 : UInt8) ∉ u.mode := fun h => by
    rw [u.mode_digits 10 h] at hdigit
    cases hdigit
  have hsize : (10 : UInt8) ∉ decimal u.content.length := fun h => by
    rw [isDigit_of_mem_decimal h] at hdigit
    cases hdigit
  unfold Upload.header
  simp [hmode, hsize, u.name_line]

/-- The header of a file is recognised if its name does not begin with white space. -/
theorem isHeader_header (u : Upload) : isHeader u.header = true ↔ u.Plain := by
  obtain ⟨a, b, c, hmode⟩ : ∃ a b c, u.mode = [a, b, c] := List.length_eq_three.mp u.mode_length
  obtain ⟨x, name, hname⟩ := List.exists_cons_of_ne_nil u.name_ne_nil
  have hdigits := u.mode_digits
  rw [hmode] at hdigits
  have hspace : isDigit 32 = false := rfl
  have htake : (decimal u.content.length ++ 32 :: x :: name).takeWhile isDigit = decimal u.content.length := by
    rw [List.takeWhile_append_of_pos fun c hc => isDigit_of_mem_decimal hc]
    simp [hspace]
  have hdrop : (decimal u.content.length ++ 32 :: x :: name).dropWhile isDigit = 32 :: x :: name := by
    rw [List.dropWhile_append_of_pos fun c hc => isDigit_of_mem_decimal hc]
    simp [hspace]
  have hheader : u.header = 67 :: 48 :: a :: b :: c :: 32 :: (decimal u.content.length ++ 32 :: x :: name) := by
    unfold Upload.header
    simp [hmode, hname]
  unfold isHeader Upload.Plain
  rw [hheader, hname]
  simp only [List.drop_succ_cons, List.drop_zero, htake, hdrop]
  simp [hdigits, decimal_ne_nil]

/-! ## What is kept -/

theorem any_newline_iff (data : Bytes) : data.any (· == 10) = true ↔ 10 ∈ data := by
  simp [List.any_eq_true]

/-- Without a line feed there is nothing to take off. -/
theorem kept_of_notMem (h : 10 ∉ data) : kept data = data := by
  have hbody : bodyOf data = data := if_neg (mt (any_newline_iff data).mp h)
  have hcontent : contentOf data = data ∨ contentOf data = [] := by
    unfold contentOf
    rw [hbody]
    split_ifs
    · exact .inl rfl
    · exact .inr rfl
  unfold kept
  rcases hcontent with hcontent | hcontent
  · rw [hcontent]
    exact ite_self data
  · rw [hcontent, if_neg (not_not.mpr rfl)]

theorem contentOf_line (u : Upload) (rest : Bytes) :
    contentOf (u.line ++ rest) = if isHeader u.header then rest else [] := by
  have hline : u.line ++ rest = u.header ++ 10 :: rest := by
    unfold Upload.line
    simp
  have hother : ∀ c ∈ u.header, decide (c ≠ 10) = true := fun c hc =>
    decide_eq_true fun heq => newline_not_mem_header u (heq ▸ hc)
  have hany : (u.header ++ 10 :: rest).any (· == 10) = true := (any_newline_iff _).mpr (by simp)
  have hheader : headerOf (u.line ++ rest) = u.header := by
    unfold headerOf
    rw [hline, if_pos hany, List.takeWhile_append_of_pos hother]
    simp
  have hbody : bodyOf (u.line ++ rest) = rest := by
    unfold bodyOf
    rw [hline, if_pos hany, List.dropWhile_append_of_pos hother]
    simp
  unfold contentOf
  rw [hheader, hbody]

/-- The header line is taken off, if it is recognised and something follows. -/
theorem kept_line (hplain : u.Plain) (hrest : rest ≠ []) : kept (u.line ++ rest) = rest := by
  have hcontent : contentOf (u.line ++ rest) = rest := by
    rw [contentOf_line, if_pos ((isHeader_header u).mpr hplain)]
  unfold kept
  rw [hcontent, if_pos hrest]

theorem kept_line_else (h : ¬ (u.Plain ∧ rest ≠ [])) : kept (u.line ++ rest) = u.line ++ rest := by
  have hcontent : contentOf (u.line ++ rest) = [] := by
    rw [contentOf_line]
    split_ifs with hplain
    · exact not_not.mp fun hrest => h ⟨(isHeader_header u).mp hplain, hrest⟩
    · rfl
  unfold kept
  rw [hcontent, if_neg (not_not.mpr rfl)]

/-- What is logged of the stream holds the header line, or no line feed. -/
theorem prefix_cases (h : data <+: u.stream) : (∃ rest, data = u.line ++ rest) ∨ 10 ∉ data := by
  have hline : u.line <+: u.stream := ⟨u.content ++ [0], by simp [Upload.stream]⟩
  rcases List.prefix_or_prefix_of_prefix h hline with hshort | ⟨rest, hrest⟩
  · rcases List.prefix_concat_iff.mp hshort with hwhole | hshort
    · exact .inl ⟨[], by simp [hwhole, Upload.line]⟩
    · exact .inr fun hmem => newline_not_mem_header u (hshort.subset hmem)
  · exact .inl ⟨rest, hrest.symm⟩

/-- **What is kept of the log is the contents.** -/
theorem kept_eq_content_iff (h : data <+: u.stream) :
    kept data = u.content ↔
      u.Plain ∧ u.content ≠ [] ∧ data = u.line ++ u.content ∨
        data = u.content ∧ ¬ (u.Plain ∧ ∃ rest, rest ≠ [] ∧ data = u.line ++ rest) := by
  by_cases htaken : u.Plain ∧ ∃ rest, rest ≠ [] ∧ data = u.line ++ rest
  · obtain ⟨hplain, rest, hrest, rfl⟩ := htaken
    rw [kept_line hplain hrest]
    constructor
    · rintro rfl
      exact .inl ⟨hplain, hrest, rfl⟩
    · rintro (⟨-, -, heq⟩ | ⟨-, hnot⟩)
      · exact List.append_cancel_left heq
      · exact absurd ⟨hplain, rest, hrest, rfl⟩ hnot
  · have hkept : kept data = data := by
      rcases prefix_cases h with ⟨rest, rfl⟩ | hline
      · exact kept_line_else fun hif => htaken ⟨hif.1, rest, hif.2, rfl⟩
      · exact kept_of_notMem hline
    rw [hkept]
    constructor
    · exact fun heq => .inr ⟨heq, htaken⟩
    · rintro (⟨hplain, hne, heq⟩ | ⟨heq, -⟩)
      · exact absurd ⟨hplain, u.content, hne, heq⟩ htaken
      · exact heq

/-! ## The chunks -/

theorem step_received (base : Env World) (s : Session) (data : Bytes) :
    step sv base s (.received data) = some (logged sv s data) := rfl

/-- After a chunk beyond the limit there is none within it. -/
theorem within_of_exceeded (hlimit : limit ≠ 0) (h : limit < n) (chunks : List Bytes) :
    within limit n chunks = [] := by
  induction chunks generalizing n with
  | nil => rfl
  | cons data chunks ih =>
    unfold within
    rw [if_pos ⟨hlimit, by omega⟩]
    exact ih (by omega)

theorem within_prefix (limit n : Nat) (chunks : List Bytes) : within limit n chunks <+: chunks := by
  induction chunks generalizing n with
  | nil => exact List.prefix_refl []
  | cons data chunks ih =>
    unfold within
    split_ifs with hover
    · rw [within_of_exceeded hover.1 hover.2]
      exact List.nil_prefix
    · exact (List.cons_prefix_cons).mpr ⟨rfl, ih _⟩

/-- All chunks, if together they are within the limit. -/
theorem within_all (h : limit = 0 ∨ n + chunks.flatten.length ≤ limit) : within limit n chunks = chunks := by
  induction chunks generalizing n with
  | nil => rfl
  | cons data chunks ih =>
    rw [List.flatten_cons, List.length_append] at h
    unfold within
    rw [if_neg (by omega), ih (by omega)]

theorem session_received (chunks : List Bytes) (s : Session) (n : Nat) :
    (chunks.foldl (dataReceived sv) ⟨s, n⟩).session =
      (within sv.bytesReceivedLimit n chunks).foldl (logged sv) s := by
  induction chunks generalizing s n with
  | nil => rfl
  | cons data chunks ih =>
    have hstep : dataReceived sv ⟨s, n⟩ data =
        if sv.bytesReceivedLimit ≠ 0 ∧ sv.bytesReceivedLimit < n + data.length then ⟨s, n + data.length⟩
        else ⟨logged sv s data, n + data.length⟩ := rfl
    rw [List.foldl_cons, hstep]
    unfold within
    split_ifs
    · exact ih s _
    · exact ih (logged sv s data) _

theorem logged_open (h : s.stdinlogOpen = true) (data : Bytes) :
    logged sv s data =
      inWorld s { s.shell.world with files := appended s.shell.world.files (stdinlogFile sv s) data } := if_pos h

theorem logged_logged (h : s.stdinlogOpen = true) (a b : Bytes) :
    logged sv (logged sv s a) b = logged sv s (a ++ b) := by
  have happended (files : Str → Option Bytes) (path : Str) :
      appended (appended files path a) path b = appended files path (a ++ b) := by
    unfold appended
    simp
  rw [logged_open h, logged_open h, logged_open (by exact h)]
  exact congrArg (fun files => inWorld s { s.shell.world with files }) (happended _ _)

/-- The chunks are logged one behind another. -/
theorem foldl_logged (hopen : s.stdinlogOpen = true) (hne : chunks ≠ []) :
    chunks.foldl (logged sv) s = logged sv s chunks.flatten := by
  induction chunks generalizing s with
  | nil => exact absurd rfl hne
  | cons data chunks ih =>
    by_cases hrest : chunks = []
    · subst hrest
      simp
    · have hstill : (logged sv s data).stdinlogOpen = true := by
        rw [logged_open hopen]
        exact hopen
      rw [List.foldl_cons, ih hstill hrest, logged_logged hopen, List.flatten_cons]

/-! ## The artifact -/

/-- The session after the chunks and `handle_CTRL_D`. -/
def uploaded (sv : Server) (s : Session) (chunks : List Bytes) : Session :=
  handleCtrlD sv (chunks.foldl (dataReceived sv) ⟨s, 0⟩).session

/-- What the log is in the end, if there is one. -/
theorem uploaded_log (h : Ready sv s) (chunks : List Bytes) :
    (uploaded sv s chunks).stdinlogOpen = true ∧
      (uploaded sv s chunks).shell.world.files (stdinlogFile sv (uploaded sv s chunks)) =
        (if within sv.bytesReceivedLimit 0 chunks = [] then none
        else some (kept (within sv.bytesReceivedLimit 0 chunks).flatten)) := by
  unfold uploaded
  rw [session_received]
  unfold handleCtrlD
  by_cases hnone : within sv.bytesReceivedLimit 0 chunks = []
  · rw [hnone, List.foldl_nil, if_pos h.stdinlogOpen, h.files]
    exact ⟨h.stdinlogOpen, h.files⟩
  · set received := (within sv.bytesReceivedLimit 0 chunks).flatten with hreceived
    have hfile : (logged sv s received).shell.world.files (stdinlogFile sv (logged sv s received)) =
        some received := by
      rw [logged_open h.stdinlogOpen]
      change appended s.shell.world.files (stdinlogFile sv s) received (stdinlogFile sv s) = some received
      unfold appended
      rw [Function.update_self, h.files, Option.getD_none, List.nil_append]
    have hopen : (logged sv s received).stdinlogOpen = true := by
      rw [logged_open h.stdinlogOpen]
      exact h.stdinlogOpen
    rw [foldl_logged h.stdinlogOpen hnone, if_pos hopen, hfile, if_neg hnone]
    exact ⟨hopen, Function.update_self _ _ _⟩

theorem savedStdin_uploaded (h : Ready sv s) (chunks : List Bytes) :
    savedStdin sv (uploaded sv s chunks) =
      if within sv.bytesReceivedLimit 0 chunks = [] then none
      else some (shasumFilename sv (kept (within sv.bytesReceivedLimit 0 chunks).flatten),
        kept (within sv.bytesReceivedLimit 0 chunks).flatten) := by
  obtain ⟨hopen, hlog⟩ := uploaded_log h chunks
  unfold savedStdin
  rw [if_pos hopen, hlog]
  split_ifs <;> rfl

/-- The file that the event names holds what was logged, unless there was one of that name. -/
theorem held_of_saved {name : Str} (hsaved : savedStdin sv s = some (name, data))
    (hlost : step sv base s (.connectionLost []) = some t) (hnew : s.shell.world.files name = none) :
    t.shell.world.files name = some data := by
  unfold savedStdin at hsaved
  split_ifs at hsaved with hopen
  obtain ⟨data', hlog, heq⟩ := Option.map_eq_some_iff.mp hsaved
  obtain ⟨rfl, rfl⟩ := Prod.mk.inj heq
  have hfiles : t.shell.world.files = savedFiles sv s [] s.shell.world.files := by
    unfold Artifacts.step at hlost
    simp only at hlost
    split_ifs at hlost
    rw [← Option.some.inj hlost]
    rfl
  rw [hfiles]
  unfold savedFiles stored
  rw [List.foldl_nil, if_pos hopen, hlog]
  simp only
  unfold moved
  rw [hnew]
  exact Function.update_self _ _ _

/-- **The artifact consists of the contents** iff the condition on what is logged is met. -/
theorem captured_iff_suits (sv : Server) (base : Env World) (s t : Session) (u : Upload) (chunks : List Bytes)
    (hready : Ready sv s) (hstream : chunks.flatten = u.stream)
    (hlost : step sv base (uploaded sv s chunks) (.connectionLost []) = some t) :
    Captured sv (uploaded sv s chunks) t u.content ↔ Suits sv u chunks := by
  have hprefix : (within sv.bytesReceivedLimit 0 chunks).flatten <+: u.stream := by
    obtain ⟨later, hlater⟩ := within_prefix sv.bytesReceivedLimit 0 chunks
    refine ⟨later.flatten, ?_⟩
    rw [← hstream, ← List.flatten_append, hlater]
  have hsaved := savedStdin_uploaded hready chunks
  unfold Suits
  simp only
  rw [← kept_eq_content_iff hprefix]
  constructor
  · rintro ⟨hevent, -⟩
    rw [hsaved] at hevent
    split_ifs at hevent with hnone
    exact ⟨hnone, (Prod.mk.inj (Option.some.inj hevent)).2⟩
  · rintro ⟨hsome, hkept⟩
    rw [if_neg hsome, hkept] at hsaved
    exact ⟨hsaved, held_of_saved hsaved hlost⟩

/-- Where all of the stream is within the limit, it is not. -/
theorem not_suits_of_whole (hstream : chunks.flatten = u.stream)
    (hlimit : sv.bytesReceivedLimit = 0 ∨ u.stream.length ≤ sv.bytesReceivedLimit) : ¬ Suits sv u chunks := by
  have hall : within sv.bytesReceivedLimit 0 chunks = chunks :=
    within_all (by rw [hstream, Nat.zero_add]; exact hlimit)
  unfold Suits
  simp only
  rw [hall, hstream]
  rintro ⟨-, ⟨-, -, heq⟩ | ⟨heq, -⟩⟩
  · have hlength := congrArg List.length heq
    unfold Upload.stream at hlength
    simp only [List.length_append, List.length_singleton] at hlength
    omega
  · have hlength := congrArg List.length heq
    unfold Upload.stream at hlength
    simp only [List.length_append, List.length_singleton] at hlength
    omega

/-! ### `scp` of one byte -/

/-- A file `a` that holds `x`. -/
def oneByteUpload : Upload where
  mode := [54, 52, 52]
  name := [97]
  content := [120]
  mode_length := rfl
  mode_digits := List.all_eq_true.mp rfl
  name_ne_nil := by simp
  name_line := by decide

/-- A session with a command. -/
def execSession : Session := { quietSession with stdinlogOpen := true }

/-- The server, with a limit on received data. -/
def limited (bytesReceivedLimit : Nat) : Server := { capturing with bytesReceivedLimit }

theorem execSession_ready (limit : Nat) : Ready (limited limit) execSession := ⟨rfl, rfl, rfl⟩

/-- The zero byte comes in a chunk of its own, which is beyond the limit. -/
def cutChunks : List Bytes := [oneByteUpload.line ++ [120], [0]]

theorem captured_cut :
    ∃ t, step (limited 11) demoEnv (uploaded (limited 11) execSession cutChunks) (.connectionLost []) = some t ∧
      Captured (limited 11) (uploaded (limited 11) execSession cutChunks) t [120] := by
  refine ⟨_, rfl, (captured_iff_suits (limited 11) demoEnv execSession _ oneByteUpload cutChunks
    (execSession_ready 11) rfl rfl).mpr ?_⟩
  have hwithin : within (limited 11).bytesReceivedLimit 0 cutChunks = [oneByteUpload.line ++ [120]] := rfl
  have hplain : oneByteUpload.Plain := by
    intro c hc
    obtain rfl : 97 = c := Option.some.inj hc
    rfl
  unfold Suits
  simp only
  rw [hwithin]
  exact ⟨List.cons_ne_nil _ _, .inl ⟨hplain, List.cons_ne_nil _ _, rfl⟩⟩

/-- Without a limit the zero byte is stored. -/
theorem captured_zero_byte :
    savedStdin (limited 0) (uploaded (limited 0) execSession [oneByteUpload.stream]) =
        some (shasumFilename (limited 0) [120, 0], [120, 0]) ∧
      ∀ t, ¬ Captured (limited 0) (uploaded (limited 0) execSession [oneByteUpload.stream]) t [120] := by
  have hkept : kept (within (limited 0).bytesReceivedLimit 0 [oneByteUpload.stream]).flatten = [120, 0] := rfl
  have hsaved := savedStdin_uploaded (execSession_ready 0) [oneByteUpload.stream]
  rw [if_neg (by decide), hkept] at hsaved
  refine ⟨hsaved, ?_⟩
  rintro t ⟨hevent, -⟩
  rw [hsaved] at hevent
  have hdata : ([120, 0] : Bytes) = [120] := (Prod.mk.inj (Option.some.inj hevent)).2
  exact absurd hdata (by decide)

end Cowrie.Shell.Scp
