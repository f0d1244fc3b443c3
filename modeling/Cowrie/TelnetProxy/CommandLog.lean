import Cowrie.Lib.Run
import Cowrie.TelnetProxy.ToBackend

/-!
# The log of commands (`src/cowrie/telnet_proxy/handler.py:204-216`)

Once the attacker is logged in, every packet of the frontend is stripped of its line ends and added to
`currentCommand`; a packet that contains a carriage return sends what has been collected to the log.

* `Lines`: the bytes that the frontend sends. Every carriage return begins a line end.
* `text`: the bytes without line ends, which is what is collected of a packet that does not split one
  (`strip_eq_text`).
* `commands`: what the packets send to the log (`run_typing`).
* **`loggedByLine_iff`**: the log has the lines exactly if no packet ends within a line end, and the packets
  with a carriage return cut the text where the lines end.
-/

namespace Cowrie.TelnetProxy

open Cowrie.Lib TelnetHandler

/-! ## Line ends -/

/-- The second byte of a line end. -/
inductive LineEnd
  | lf
  | nul
  deriving DecidableEq, Repr

def LineEnd.byte : LineEnd → UInt8
  | lf => 10
  | nul => 0

/-- A line without a carriage return of its own. -/
structure Line where
  content : Bytes
  ending : LineEnd
  noReturn : 13 ∉ content

def Line.bytes (l : Line) : Bytes := l.content ++ [13, l.ending.byte]

/-- The bytes of some lines. -/
def stream (lines : List Line) : Bytes := lines.flatMap Line.bytes

/-- Every carriage return begins a line end. -/
def Paired : Bytes → Prop
  | [] => True
  | [c] => c ≠ 13
  | c :: d :: b => if c = 13 then (d = 10 ∨ d = 0) ∧ Paired b else Paired (d :: b)

/-- The bytes without line ends. -/
def text : Bytes → Bytes
  | [] => []
  | [c] => [c]
  | c :: d :: b => if c = 13 then text b else c :: text (d :: b)

/-- What is collected of a packet. -/
def strip (data : Bytes) : Bytes := replace (replace data [13, 0] []) [13, 10] []

theorem paired_cons {c : UInt8} (h : c ≠ 13) (b : Bytes) : Paired (c :: b) ↔ Paired b := by
  cases b with
  | nil => exact iff_of_true h trivial
  | cons d b => exact iff_of_eq (if_neg h)

theorem text_cons {c : UInt8} (h : c ≠ 13) (b : Bytes) : text (c :: b) = c :: text b := by
  cases b with
  | nil => rfl
  | cons d b => exact if_neg h

theorem text_end (d : UInt8) (b : Bytes) : text (13 :: d :: b) = text b := if_pos rfl

theorem replaceFrom_pair (x : UInt8) (b : Bytes) :
    replaceFrom [13, x] [] 0 (13 :: x :: b) = replaceFrom [13, x] [] 0 b := by
  conv_lhs => unfold replaceFrom
  rw [if_pos (by simp [List.isPrefixOf])]
  rfl

theorem replaceFrom_other {x c : UInt8} (h : c ≠ 13) (b : Bytes) :
    replaceFrom [13, x] [] 0 (c :: b) = c :: replaceFrom [13, x] [] 0 b := by
  conv_lhs => unfold replaceFrom
  rw [if_neg (by simp [List.isPrefixOf, Ne.symm h])]

theorem replaceFrom_unpaired {x d : UInt8} (h : d ≠ x) (b : Bytes) :
    replaceFrom [13, x] [] 0 (13 :: d :: b) = 13 :: replaceFrom [13, x] [] 0 (d :: b) := by
  conv_lhs => unfold replaceFrom
  rw [if_neg (by simp [List.isPrefixOf, Ne.symm h])]

/-- **What is collected is the text**, if no line end is split. -/
theorem strip_eq_text : ∀ {b : Bytes}, Paired b → strip b = text b
  | [], _ => rfl
  | [c], h => by
    unfold strip replace
    rw [replaceFrom_other h]
    exact replaceFrom_other h []
  | c :: d :: b, h => by
    unfold Paired at h
    unfold strip replace text
    by_cases hc : c = 13
    · subst hc
      rw [if_pos rfl] at h ⊢
      have hrest := strip_eq_text h.2
      unfold strip replace at hrest
      rcases h.1 with rfl | rfl
      · have hlf : (10 : UInt8) ≠ 13 := by decide
        rw [replaceFrom_unpaired (by decide), replaceFrom_other hlf, replaceFrom_pair]
        exact hrest
      · rw [replaceFrom_pair]
        exact hrest
    · rw [if_neg hc] at h ⊢
      have hrest := strip_eq_text h
      unfold strip replace at hrest
      rw [replaceFrom_other hc, replaceFrom_other hc, hrest]

/-- A part that does not end within a line end. -/
theorem paired_append : ∀ {p q : Bytes}, p.getLast? ≠ some 13 → Paired (p ++ q) →
    Paired p ∧ Paired q ∧ text (p ++ q) = text p ++ text q
  | [], q, _, h => ⟨trivial, h, rfl⟩
  | [c], q, hlast, h => by
    have hc : c ≠ 13 := fun hc => hlast (by rw [hc]; rfl)
    exact ⟨hc, (paired_cons hc q).mp h, text_cons hc q⟩
  | c :: d :: b, q, hlast, h => by
    by_cases hc : c = 13
    · subst hc
      have hsplit : (d = 10 ∨ d = 0) ∧ Paired (b ++ q) := by simpa [Paired] using h
      have hlast' : b.getLast? ≠ some 13 := by
        cases b with
        | nil => exact fun h => by cases h
        | cons e b => rwa [List.getLast?_cons_cons, List.getLast?_cons_cons] at hlast
      obtain ⟨hp, hq, htext⟩ := paired_append hlast' hsplit.2
      refine ⟨?_, hq, ?_⟩
      · unfold Paired
        rw [if_pos rfl]
        exact ⟨hsplit.1, hp⟩
      · rw [List.cons_append, List.cons_append, text_end, text_end, htext]
    · rw [List.cons_append, paired_cons hc] at h
      have hlast' : (d :: b).getLast? ≠ some 13 := by
        rwa [List.getLast?_cons_cons] at hlast
      obtain ⟨hp, hq, htext⟩ := paired_append hlast' h
      refine ⟨(paired_cons hc _).mpr hp, hq, ?_⟩
      rw [List.cons_append, text_cons hc, text_cons hc, htext, List.cons_append]

theorem paired_content {content : Bytes} (h : 13 ∉ content) (b : Bytes) :
    (Paired (content ++ b) ↔ Paired b) ∧ text (content ++ b) = content ++ text b := by
  induction content with
  | nil => exact ⟨Iff.rfl, rfl⟩
  | cons c content ih =>
    obtain ⟨hc, hcontent⟩ := List.ne_and_not_mem_of_not_mem_cons h
    obtain ⟨hpaired, htext⟩ := ih hcontent
    rw [List.cons_append, paired_cons (Ne.symm hc), text_cons (Ne.symm hc), htext]
    exact ⟨hpaired, rfl⟩

/-- **The text of some lines** are their contents. -/
theorem paired_stream (lines : List Line) :
    Paired (stream lines) ∧ text (stream lines) = lines.flatMap Line.content := by
  induction lines with
  | nil => exact ⟨trivial, rfl⟩
  | cons l lines ih =>
    obtain ⟨hpaired, htext⟩ := ih
    have hbytes : stream (l :: lines) = l.content ++ 13 :: l.ending.byte :: stream lines := by
      unfold stream Line.bytes
      rw [List.flatMap_cons, List.append_assoc]
      rfl
    obtain ⟨hline, hcontent⟩ := paired_content l.noReturn (13 :: l.ending.byte :: stream lines)
    rw [hbytes, hline, hcontent, text_end, htext, List.flatMap_cons]
    refine ⟨?_, rfl⟩
    unfold Paired
    rw [if_pos rfl]
    exact ⟨by cases l.ending <;> decide, hpaired⟩

theorem replaceFrom_concat {x : UInt8} (hx : x ≠ 13) :
    ∀ b : Bytes, ∃ b', replaceFrom [13, x] [] 0 (b ++ [13]) = b' ++ [13]
  | [] => ⟨[], rfl⟩
  | [c] => by
    by_cases hc : c = 13
    · obtain ⟨b', hb'⟩ := replaceFrom_concat hx []
      refine ⟨13 :: b', ?_⟩
      rw [hc, List.singleton_append, replaceFrom_unpaired (Ne.symm hx)]
      exact congrArg (13 :: ·) hb'
    · obtain ⟨b', hb'⟩ := replaceFrom_concat hx []
      refine ⟨c :: b', ?_⟩
      rw [List.singleton_append, replaceFrom_other hc]
      exact congrArg (c :: ·) hb'
  | c :: d :: b => by
    by_cases hc : c = 13
    · subst hc
      by_cases hd : d = x
      · obtain ⟨b', hb'⟩ := replaceFrom_concat hx b
        exact ⟨b', by rw [hd, List.cons_append, List.cons_append, replaceFrom_pair, hb']⟩
      · obtain ⟨b', hb'⟩ := replaceFrom_concat hx (d :: b)
        refine ⟨13 :: b', ?_⟩
        rw [List.cons_append, List.cons_append, replaceFrom_unpaired hd]
        exact congrArg (13 :: ·) hb'
    · obtain ⟨b', hb'⟩ := replaceFrom_concat hx (d :: b)
      refine ⟨c :: b', ?_⟩
      rw [List.cons_append, replaceFrom_other hc]
      exact congrArg (c :: ·) hb'

/-- A carriage return at the end of a packet is collected. -/
theorem mem_strip {data : Bytes} (h : data.getLast? = some 13) : 13 ∈ strip data := by
  obtain ⟨b, rfl⟩ : ∃ b, data = b ++ [13] := List.getLast?_eq_some_iff.mp h
  obtain ⟨b', hb'⟩ := replaceFrom_concat (x := 0) (by decide) b
  obtain ⟨b'', hb''⟩ := replaceFrom_concat (x := 10) (by decide) b'
  unfold strip replace
  rw [hb', hb'']
  exact List.mem_append_right _ List.mem_cons_self

/-! ## One packet -/

/-- The commands in the log. -/
def inputs (s : TelnetHandler) : List Bytes :=
  s.log.filterMap fun
    | .commandInput c => some c
    | _ => none

/-- What the log of commands reads and writes. -/
def typing (s : TelnetHandler) : Bool × Bytes × List Bytes := (s.authDone, s.currentCommand, inputs s)

/-- It is left alone. -/
def KeepsTyping (s t : TelnetHandler) : Prop := typing s = typing t

theorem KeepsTyping.refl (s : TelnetHandler) : KeepsTyping s s := rfl

theorem KeepsTyping.trans (s t u : TelnetHandler) (h : KeepsTyping s t) (h' : KeepsTyping t u) :
    KeepsTyping s u := Eq.trans h h'

variable (cfg : Config)

theorem logRaw_keepsTyping (label : String) (data : Bytes) : Along KeepsTyping (logRaw cfg label data) := by
  unfold logRaw decoded
  refine along_when KeepsTyping.refl (along_bind KeepsTyping.trans ?_ fun decoded => ?_)
  · cases unicodeEscape cfg.unicodeName data with
    | none => exact along_throw KeepsTyping.refl _
    | some decoded => exact along_pure KeepsTyping.refl _
  · exact along_modify fun s => by simp [KeepsTyping, typing, inputs]

theorem sendBackend_keepsTyping (data : Bytes) : Along KeepsTyping (sendBackend cfg data) := by
  have hwrites : ∀ packets : List Bytes, Along KeepsTyping (packets.forM (writeBackend cfg data)) := by
    intro packets
    induction packets with
    | nil => exact along_pure KeepsTyping.refl _
    | cons packet packets ih =>
      refine along_bind KeepsTyping.trans ?_ fun _ => ih
      refine along_bind KeepsTyping.trans (along_modify fun _ => rfl) fun _ => ?_
      refine along_bind KeepsTyping.trans (logRaw_keepsTyping cfg _ data) fun _ => along_get fun _ => ?_
      refine along_bind KeepsTyping.trans (along_when KeepsTyping.refl ?_) fun _ => along_modify fun _ => rfl
      exact along_modify fun _ => rfl
  unfold sendBackend
  refine along_bind KeepsTyping.trans (along_modify fun _ => rfl) fun _ => along_get fun s => ?_
  exact along_when KeepsTyping.refl (hwrites s.backendBuffer)

theorem sendFrontend_keepsTyping (data : Bytes) : Along KeepsTyping (sendFrontend cfg data) := by
  unfold sendFrontend
  refine along_bind KeepsTyping.trans (along_modify fun _ => rfl) fun _ => ?_
  refine along_bind KeepsTyping.trans (logRaw_keepsTyping cfg _ data) fun _ => along_get fun _ => ?_
  exact along_when KeepsTyping.refl (along_modify fun _ => rfl)

theorem forward_keepsTyping (parent : Parent) : Along KeepsTyping (forward cfg parent) := by
  unfold forward
  refine along_get fun s => along_when KeepsTyping.refl ?_
  cases parent with
  | frontend => exact sendBackend_keepsTyping cfg _
  | backend => exact sendFrontend_keepsTyping cfg _

/-- What is collected, and what has been logged, after a packet of the frontend. -/
def afterPacket (data : Bytes) (x : Bool × Bytes × List Bytes) : Bool × Bytes × List Bytes :=
  if 13 ∈ data then (x.1, [], x.2.2 ++ if x.2.1 ++ strip data = [] then [] else [x.2.1 ++ strip data])
  else (x.1, x.2.1 ++ strip data, x.2.2)

theorem logCommand_typing {s : TelnetHandler} (hauth : s.authDone = true) (data : Bytes) :
    typing (exec (logCommand .frontend data) s).2 = afterPacket data (typing s) := by
  unfold logCommand afterPacket
  rw [exec_get_bind, when_true ⟨rfl, hauth⟩, exec_modify_bind]
  by_cases hreturn : 13 ∈ data
  · rw [when_true hreturn, if_pos hreturn, exec_get_bind]
    change typing (exec (when (0 < (s.currentCommand ++ strip data).length) _ >>= _) _).2 = _
    by_cases hempty : s.currentCommand ++ strip data = []
    · rw [when_false (by rw [hempty]; exact Nat.lt_irrefl 0), pure_bind]
      simp [typing, inputs, hempty]
    · rw [when_true (List.length_pos_iff.mpr hempty), bind_assoc, exec_get_bind]
      unfold strip at hempty
      simp [typing, inputs, logEvent, hempty, strip]
  · rw [when_false hreturn, if_neg hreturn]
    rfl

/-- **One packet of the frontend.** -/
theorem addPacket_typing {s : TelnetHandler} (hauth : s.authDone = true) (data : Bytes) :
    typing (exec (addPacket cfg .frontend data) s).2 = afterPacket data (typing s) := by
  unfold addPacket
  rw [exec_modify_bind, exec_get_bind, when_false (by simp [hauth]), pure_bind,
    obs_bind typing fun _ => forward_keepsTyping cfg .frontend]
  exact logCommand_typing (s := { s with currentData := data, sendData := true }) hauth data

/-- What the backend sends does not matter. -/
theorem addPacket_backend_keepsTyping {s : TelnetHandler} (hauth : s.authDone = true) (data : Bytes) :
    KeepsTyping s (exec (addPacket cfg .backend data) s).2 := by
  unfold addPacket logCommand
  rw [exec_modify_bind, exec_get_bind, when_false (by simp [hauth]), pure_bind, bind_assoc, exec_get_bind,
    when_false (by simp), pure_bind]
  exact forward_keepsTyping cfg .backend { s with currentData := data, sendData := true }

/-! ## A whole connection -/

/-- The packets of the frontend. -/
def received : List Event → List Bytes
  | [] => []
  | .addPacket .frontend data :: es => data :: received es
  | _ :: es => received es

/-- What some packets send to the log, after `current` has been collected. -/
def commands : Bytes → List Bytes → List Bytes
  | _, [] => []
  | current, p :: ps =>
    if 13 ∈ p then (if current ++ strip p = [] then [] else [current ++ strip p]) ++ commands [] ps
    else commands (current ++ strip p) ps

/-- **What the connection sends to the log.** -/
theorem run_typing {s t : TelnetHandler} {es : List Event} (hauth : s.authDone = true)
    (hrun : run (step cfg) s es = some t) :
    inputs t = inputs s ++ commands s.currentCommand (received es) := by
  induction es generalizing s with
  | nil =>
    obtain rfl : s = t := by simpa using hrun
    exact (List.append_nil _).symm
  | cons e es ih =>
    obtain ⟨u, hu, hrest⟩ := run_cons.mp hrun
    have hquiet : KeepsTyping s u → inputs t = inputs s ++ commands s.currentCommand (received es) := by
      intro hkeeps
      obtain ⟨hdone, hcurrent, hinputs⟩ : s.authDone = u.authDone ∧
          s.currentCommand = u.currentCommand ∧ inputs s = inputs u := by
        simpa [KeepsTyping, typing] using hkeeps
      rw [hinputs, hcurrent]
      exact ih (hdone ▸ hauth) hrest
    cases e with
    | setClient =>
      obtain rfl : _ = u := Option.some.inj hu
      exact hquiet rfl
    | addPacket parent data =>
      obtain rfl : _ = u := Option.some.inj hu
      cases parent with
      | backend => exact hquiet (addPacket_backend_keepsTyping cfg hauth data)
      | frontend =>
        have hpacket := addPacket_typing cfg hauth data
        unfold received commands
        unfold afterPacket typing at hpacket
        by_cases hreturn : 13 ∈ data
        · rw [if_pos hreturn] at hpacket ⊢
          simp only [Prod.mk.injEq] at hpacket
          rw [ih (hpacket.1.trans hauth) hrest, hpacket.2.1, hpacket.2.2, List.append_assoc]
        · rw [if_neg hreturn] at hpacket ⊢
          simp only [Prod.mk.injEq] at hpacket
          rw [ih (hpacket.1.trans hauth) hrest, hpacket.2.1, hpacket.2.2]

/-! ## Lines and packets -/

/-- How much text there is from one packet with a carriage return to the next. -/
def pieces : Nat → List Bytes → List Nat
  | _, [] => []
  | n, p :: ps =>
    if 13 ∈ p then (n + (text p).length) :: pieces 0 ps else pieces (n + (text p).length) ps

/-- No line end is split, and the packets with a carriage return cut the text where the lines end; empty
lines do not count. -/
def CutAtLines (lines : List Line) (packets : List Bytes) : Prop :=
  (∀ p ∈ packets, p.getLast? ≠ some 13) ∧
  (pieces 0 packets).filter (· ≠ 0) = (lines.map fun l => l.content.length).filter (· ≠ 0)

instance (lines : List Line) (packets : List Bytes) : Decidable (CutAtLines lines packets) :=
  inferInstanceAs (Decidable (_ ∧ _))

/-- The lines that are not empty. -/
def typedLines (lines : List Line) : List Bytes := (lines.map Line.content).filter (· ≠ [])

/-- A packet that splits a line end sends a carriage return to the log. -/
theorem return_mem_commands (current : Bytes) {packets : List Bytes} {p : Bytes} (hp : p ∈ packets)
    (hlast : p.getLast? = some 13) : ∃ c ∈ commands current packets, 13 ∈ c := by
  induction packets generalizing current with
  | nil => cases hp
  | cons q qs ih =>
    unfold commands
    rcases List.mem_cons.mp hp with rfl | hp
    · have hreturn : 13 ∈ current ++ strip p := List.mem_append_right _ (mem_strip hlast)
      rw [if_pos (List.mem_of_getLast? hlast), if_neg (List.ne_nil_of_mem hreturn)]
      exact ⟨_, List.mem_append_left _ List.mem_cons_self, hreturn⟩
    · split_ifs
      · exact ih _ hp
      · obtain ⟨c, hc, hreturn⟩ := ih [] hp
        exact ⟨c, List.mem_append_right _ hc, hreturn⟩
      · exact ih _ hp

/-- Packets that split no line end send text to the log, in the pieces that they cut. -/
theorem commands_text (current : Bytes) {packets : List Bytes}
    (hlast : ∀ p ∈ packets, p.getLast? ≠ some 13) (hpaired : Paired packets.flatten) :
    (commands current packets).flatten <+: current ++ text packets.flatten ∧
    (commands current packets).map List.length = (pieces current.length packets).filter (· ≠ 0) := by
  induction packets generalizing current with
  | nil => exact ⟨List.nil_prefix, rfl⟩
  | cons p ps ih =>
    obtain ⟨hp, hps, htext⟩ := paired_append (hlast p List.mem_cons_self) hpaired
    have hstrip : strip p = text p := strip_eq_text hp
    have ih' := fun current => ih current (fun q hq => hlast q (List.mem_cons_of_mem p hq)) hps
    unfold commands pieces
    rw [List.flatten_cons, htext, hstrip, ← List.append_assoc]
    by_cases hreturn : 13 ∈ p
    · obtain ⟨hinitial, hlength⟩ := ih' []
      rw [if_pos hreturn, if_pos hreturn]
      by_cases hempty : current ++ text p = []
      · have hzero : current.length + (text p).length = 0 := by
          rw [← List.length_append, hempty]
          rfl
        rw [if_pos hempty, hempty, hzero]
        exact ⟨hinitial, hlength⟩
      · have hpos : current.length + (text p).length ≠ 0 := by
          rw [← List.length_append]
          exact fun h => hempty (List.length_eq_zero_iff.mp h)
        rw [if_neg hempty, List.singleton_append, List.flatten_cons, List.map_cons,
          List.filter_cons_of_pos (p := fun n => decide (n ≠ 0)) (decide_eq_true hpos), List.length_append]
        exact ⟨(List.prefix_append_right_inj _).mpr hinitial, congrArg _ hlength⟩
    · obtain ⟨hinitial, hlength⟩ := ih' (current ++ text p)
      rw [if_neg hreturn, if_neg hreturn]
      rw [List.length_append] at hlength
      exact ⟨hinitial, hlength⟩

/-- Texts cut into pieces of the same lengths. -/
theorem eq_of_lengths {as bs : List Bytes} (hinitial : as.flatten <+: bs.flatten)
    (hlength : as.map List.length = bs.map List.length) : as = bs := by
  induction as generalizing bs with
  | nil => exact (List.map_eq_nil_iff.mp hlength.symm).symm
  | cons a as ih =>
    cases bs with
    | nil => cases hlength
    | cons b bs =>
      obtain ⟨hhead, htail⟩ := List.cons.inj hlength
      rw [List.flatten_cons, List.flatten_cons] at hinitial
      obtain rfl : a = b := by
        have ha := List.prefix_iff_eq_take.mp ((List.prefix_append a _).trans hinitial)
        rwa [hhead, List.take_left] at ha
      rw [ih ((List.prefix_append_right_inj _).mp hinitial) htail]

theorem typedLines_text (lines : List Line) :
    (typedLines lines).flatten = lines.flatMap Line.content ∧
    (typedLines lines).map List.length = (lines.map fun l => l.content.length).filter (· ≠ 0) := by
  induction lines with
  | nil => exact ⟨rfl, rfl⟩
  | cons l lines ih =>
    unfold typedLines at ih ⊢
    rw [List.map_cons, List.flatMap_cons, ← ih.1, List.map_cons]
    by_cases hempty : l.content = []
    · rw [List.filter_cons_of_neg (by simp [hempty]), List.filter_cons_of_neg (by simp [hempty]), ih.2, hempty]
      exact ⟨rfl, rfl⟩
    · rw [List.filter_cons_of_pos (by simp [hempty]), List.filter_cons_of_pos (by simp [hempty]),
        List.map_cons, ih.2]
      exact ⟨rfl, rfl⟩

/-- The packets send the lines to the log. -/
theorem commands_iff {lines : List Line} {packets : List Bytes} (h : packets.flatten = stream lines) :
    commands [] packets = typedLines lines ↔ CutAtLines lines packets := by
  obtain ⟨hpaired, htext⟩ := paired_stream lines
  obtain ⟨hflatten, hlengths⟩ := typedLines_text lines
  by_cases hlast : ∀ p ∈ packets, p.getLast? ≠ some 13
  · obtain ⟨hinitial, hlength⟩ := commands_text [] hlast (h ▸ hpaired)
    refine Iff.trans ?_ (and_iff_right hlast).symm
    rw [← hlengths]
    change _ ↔ (pieces ([] : Bytes).length packets).filter _ = _
    rw [← hlength]
    refine ⟨congrArg _, eq_of_lengths ?_⟩
    rw [hflatten, ← htext, ← h]
    exact hinitial
  · refine iff_of_false (fun hcommands => ?_) fun hcut => hlast hcut.1
    push Not at hlast
    obtain ⟨p, hp, hreturn⟩ := hlast
    obtain ⟨c, hc, hmem⟩ := return_mem_commands [] hp hreturn
    rw [hcommands] at hc
    obtain ⟨l, -, rfl⟩ := List.mem_map.mp (List.mem_of_mem_filter hc)
    exact l.noReturn hmem

/-- **When the log of commands has the lines**, on a connection of which nothing has been collected. -/
theorem loggedByLine_iff {cfg : Config} {s t : TelnetHandler} {es : List Event} {lines : List Line}
    (hauth : s.authDone = true) (hcurrent : s.currentCommand = [])
    (hstream : (received es).flatten = stream lines) (hrun : run (step cfg) s es = some t) :
    inputs t = inputs s ++ typedLines lines ↔ CutAtLines lines (received es) := by
  rw [run_typing cfg hauth hrun, hcurrent, List.append_cancel_left_eq]
  exact commands_iff hstream

/-- `ls`. -/
def listing : Line := ⟨[108, 115], .lf, by decide⟩

/-- `ls` is logged, typed in two packets. -/
theorem loggedByLine_typed : ∃ t,
    run (step feedConfig) { authDone := true } [.addPacket .frontend [108], .addPacket .frontend [115, 13, 10]] =
      some t ∧ inputs t = typedLines [listing] := by
  have hrun : run (step feedConfig) { authDone := true }
    [.addPacket .frontend [108], .addPacket .frontend [115, 13, 10]] = some _ := rfl
  have hstream : (received [.addPacket .frontend [108], .addPacket .frontend [115, 13, 10]]).flatten =
    stream [listing] := by decide
  exact ⟨_, hrun, (loggedByLine_iff rfl rfl hstream hrun).mpr (by decide)⟩

/-- Two lines in one packet are one command. -/
theorem loggedByLine_violated :
    ¬ ∀ (es : List Event) (lines : List Line) (t : TelnetHandler),
      (received es).flatten = stream lines →
      run (step feedConfig) { authDone := true } es = some t → inputs t = typedLines lines := by
  intro h
  have hlines := h [.addPacket .frontend [97, 13, 10, 98, 13, 10]]
    [⟨[97], .lf, by decide⟩, ⟨[98], .lf, by decide⟩] _ (by decide) rfl
  revert hlines
  decide +kernel

end Cowrie.TelnetProxy
