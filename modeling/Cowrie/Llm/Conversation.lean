import Cowrie.Lib.Lines
import Cowrie.Lib.Simulation
import Cowrie.Scalpel.Chain
import Cowrie.Shell.Line

/-!
# A session with the language model (`src/cowrie/llm/protocol.py:26-35`, `108-236`, `src/cowrie/llm/llm.py:129-156`,
`192-230`)

The router answers a line itself or leaves it to the model. The model is asked with a text about the machine and
with the end of `command_history`, a list of texts in which commands and answers differ by their first word only.
A line can be entered while a request is under way, and the answers come in any order.

* `Session` is what of the protocol deals with it, with what has been passed to `get_response` and written to the
  terminal. `Reply` is a response of the service; `json` is what `json.loads` makes of the body.
* `Dialogue` is the same session with turns for texts: who spoke, and in answer to which line.
* `\w` is a parameter. The router is one too: an event of a line carries what `scalpel_on_command` returned.

Results:
* **`refines`**: a session is a dialogue, and what the service gets is the text about the machine and the end of the
  dialogue up to the command, with the role of everyone who spoke, whatever the texts look like.
* **`prompts_accounted`**: whatever the service sends, a connected session has shown one prompt for every line that
  is not waiting for a response, and one more.
* **`paired_iff`**: every answer stands behind its own command iff no answer comes after a further line.
* **`window_of_orderly`**: where every line is answered before the next one, a request shows the last five commands, and from
  the sixth line on one more answer, the command of which is cut off.

Left out: lone surrogates in a response, which cannot be written to the terminal, and the sessions of one command.
-/

namespace Cowrie.Llm.Chat

open Cowrie.Lib
open Cowrie.Scalpel (strip_cons strip_isInfix toList_stripBlanks stripBlanks_ofList)
open Cowrie.Shell (backtick hasInfix rstripNewlines)

/-! ## The service -/

/-- A JSON value; of a number, whether it is zero. -/
inductive Json
  | null
  | bool (b : Bool)
  | num (zero : Bool)
  | str (text : String)
  | arr (items : List Json)
  | obj (fields : List (String × Json))

namespace Json

/-- `key in value`; `none` where it raises. -/
def contains (key : String) : Json → Option Bool
  | str text => some (hasInfix key.toList text.toList)
  | arr items => some (items.any fun | str text => text = key | _ => false)
  | obj fields => some (fields.lookup key).isSome
  | _ => none

/-- `len(value)`. -/
def length : Json → Option Nat
  | str text => some text.length
  | arr items => some items.length
  | obj fields => some fields.length
  | _ => none

/-- `value[0]`. -/
def first : Json → Option Json
  | str text => text.toList.head?.map fun c => str (String.singleton c)
  | arr items => items.head?
  | _ => none

/-- `value[key]`. -/
def field (key : String) : Json → Option Json
  | obj fields => fields.lookup key
  | _ => none

/-- `bool(value)`. -/
def truthy : Json → Bool
  | null => false
  | bool b => b
  | num zero => !zero
  | str text => text ≠ ""
  | arr items => !items.isEmpty
  | obj fields => !fields.isEmpty

end Json

/-- What `json.loads` does with a body. -/
inductive Loaded
  | value (json : Json)
  | jsonDecodeError
  | unicodeDecodeError

structure Reply where
  status : Int := 200
  body : Bytes := []
  json : Loaded

/-- `content = response_json["choices"][0]["message"]["content"]`, behind its two tests. -/
def content (json : Json) : Option Json := do
  if ← json.contains "choices" then
    let choices ← json.field "choices"
    if 0 < (← choices.length) then
      let message ← (← choices.first).field "message"
      return ← message.field "content"
  return .str ""

/-- `get_response`; `none` where it raises. -/
def getResponse (r : Reply) : Option Json :=
  if r.status ≠ 200 then (decode r.body).map fun _ => .str ""
  else
    match r.json with
    | .value json => content json
    | .jsonDecodeError => some (.str "")
    | .unicodeDecodeError => none

structure ChatMessage where
  role : String
  content : String
  deriving DecidableEq

/-- A message of the prompt behind the first one. -/
def formatMessage (message : String) : ChatMessage :=
  if "User:".toList.isPrefixOf message.toList then
    ⟨"user", stripBlanks (String.ofList (message.toList.drop 5))⟩
  else if "System:".toList.isPrefixOf message.toList then
    ⟨"assistant", stripBlanks (String.ofList (message.toList.drop 7))⟩
  else ⟨"user", message⟩

def formatMessages : List String → List ChatMessage
  | [] => []
  | first :: rest => ⟨"system", first⟩ :: rest.map formatMessage

/-- What the requests of an `LLMClient` say besides the messages. -/
structure LLMClient (F : Type) where
  model : String := "gpt-4o-mini"
  maxTokens : Int := 500
  temperature : F

structure RequestBody (F : Type) where
  model : String
  messages : List ChatMessage
  maxTokens : Int
  temperature : F

/-- `_format_request_body`. -/
def formatRequestBody {F : Type} (client : LLMClient F) (prompt : List String) : RequestBody F :=
  ⟨client.model, formatMessages prompt, client.maxTokens, client.temperature⟩

/-! ## Markdown -/

def fence : List Char := List.replicate 3 backtick

/-- The length of `\w*\n?` at the beginning of the text. -/
def fenceLine (isWord : Char → Bool) (text : List Char) : Nat :=
  let word := (text.takeWhile isWord).length
  if (text.drop word).head? = some '\n' then word + 1 else word

/-- The text without its fences; `skip` characters belong to the last one. -/
def subFences (isWord : Char → Bool) : Nat → List Char → List Char
  | _, [] => []
  | skip + 1, _ :: text => subFences isWord skip text
  | 0, c :: text =>
    if fence.isPrefixOf (c :: text) then subFences isWord (2 + fenceLine isWord (text.drop 2)) text
    else c :: subFences isWord 0 text

/-- `strip_markdown`. -/
def stripMarkdown (isWord : Char → Bool) (text : String) : String :=
  stripBlanks (String.ofList ((subFences isWord 0 text.toList).filter (· ≠ backtick)))

theorem subFences_append {isWord : Char → Bool} {text : List Char} (h : backtick ∉ text) (rest : List Char) :
    subFences isWord 0 (text ++ rest) = text ++ subFences isWord 0 rest := by
  induction text with
  | nil => rfl
  | cons c text ih =>
    have hc : ¬ fence.isPrefixOf (c :: (text ++ rest)) = true := by
      rw [List.isPrefixOf_iff_prefix]
      rintro ⟨more, hmore⟩
      exact h (List.mem_cons.mpr (.inl (List.cons.inj hmore).1))
    rw [List.cons_append, subFences, if_neg hc, ih fun hmem => h (List.mem_cons_of_mem c hmem), List.cons_append]

theorem subFences_skip {isWord : Char → Bool} (skipped rest : List Char) :
    subFences isWord skipped.length (skipped ++ rest) = subFences isWord 0 rest := by
  induction skipped with
  | nil => rfl
  | cons c skipped ih => exact ih

/-- No response brings a backtick. -/
theorem backtick_not_mem_stripMarkdown (isWord : Char → Bool) (text : String) :
    backtick ∉ (stripMarkdown isWord text).toList := by
  rw [stripMarkdown, stripBlanks_ofList, String.toList_ofList]
  intro hmem
  simpa using (strip_isInfix _).subset hmem

/-- The text inside a fenced block. -/
theorem stripMarkdown_fenced {isWord : Char → Bool} {language body : List Char} (hlanguage : ∀ c ∈ language, isWord c)
    (hnewline : isWord '\n' = false) (hbody : backtick ∉ body) :
    stripMarkdown isWord (String.ofList (fence ++ language ++ '\n' :: body ++ fence)) =
      stripBlanks (String.ofList body) := by
  have hword : (language ++ '\n' :: (body ++ fence)).takeWhile isWord = language := by
    rw [List.takeWhile_append_of_pos hlanguage, List.takeWhile_cons_of_neg (by simp [hnewline]), List.append_nil]
  have hline : fenceLine isWord (language ++ '\n' :: (body ++ fence)) = (language ++ ['\n']).length := by
    simp [fenceLine, hword]
  have hclose : subFences isWord 0 fence = [] := by
    simp [fence, fenceLine, subFences, List.replicate, List.isPrefixOf]
  have hsub : subFences isWord 0 (fence ++ language ++ '\n' :: body ++ fence) = body := by
    have hopen : subFences isWord 0 (fence ++ language ++ '\n' :: body ++ fence) =
        subFences isWord (2 + (language ++ ['\n']).length)
          ([backtick, backtick] ++ (language ++ ['\n']) ++ (body ++ fence)) := by
      rw [← hline]
      simp [fence, subFences, List.replicate, List.isPrefixOf]
    have hskip : 2 + (language ++ ['\n']).length = ([backtick, backtick] ++ (language ++ ['\n'])).length := by
      simp
      omega
    rw [hopen, hskip, subFences_skip, subFences_append hbody, hclose, List.append_nil]
  rw [stripMarkdown, String.toList_ofList, hsub, List.filter_eq_self.mpr]
  intro c hc
  simp only [ne_eq, decide_not, Bool.not_eq_true', decide_eq_false_iff_not]
  rintro rfl
  exact hbody hc

/-! ## The session -/

structure Account where
  username : String
  hostname : String
  cwd : String := "/"
  /-- `\w` of the regular expressions. -/
  isWord : Char → Bool

def systemContext (a : Account) : String :=
  "You are simulating a Linux server that has been accessed via SSH. " ++
    "Respond as if you were the shell on this system. " ++
    "Your response should be the output that would be displayed after executing the command. " ++
    "Keep responses realistic, including appropriate error messages for invalid commands. " ++
    "For file paths, maintain consistent state with previous commands. " ++
    "The hostname is '" ++ a.hostname ++ "' and username is '" ++ a.username ++ "'. " ++
    "The current working directory is '" ++ a.cwd ++ "'. "

def promptText (a : Account) : String :=
  a.username ++ "@" ++ a.hostname ++ ":" ++ a.cwd ++ if a.username = "root" then "# " else "$ "

/-- What is written to the terminal. -/
inductive Written
  | prompt (text : String)
  | output (text : String)
  deriving DecidableEq

def Written.isPrompt : Written → Bool
  | .prompt _ => true
  | .output _ => false

structure Session where
  /-- `self.terminal` is not `None`. -/
  terminal : Bool := true
  commandHistory : List String := []
  /-- The prompts passed to `get_response`. -/
  requests : List (List String) := []
  /-- The requests without a response yet. -/
  waiting : List Nat := []
  written : List Written := []

/-- The prompt of a request: the text about the machine and the end of the history. -/
def promptOf (a : Account) (history : List String) : List String := systemContext a :: history.rtake 10

namespace Session

variable (a : Account)

/-- `_show_prompt`. -/
def showPrompt (s : Session) : Session := { s with written := s.written ++ [.prompt (promptText a)] }

/-- What `connectionMade` leaves. -/
def start : Session := showPrompt a {}

/-- `_process_command_with_llm`. -/
def processCommandWithLlm (command : String) (s : Session) : Session :=
  let commandHistory := s.commandHistory ++ ["User: " ++ command]
  { s with
    commandHistory
    requests := s.requests ++ [promptOf a commandHistory]
    waiting := s.waiting ++ [s.requests.length] }

/-- The router has an answer. -/
def answerCanned (string canned : String) (s : Session) : Session :=
  showPrompt a
    { s with
      commandHistory := s.commandHistory ++ ["User: " ++ string] ++ ["System: " ++ rstripNewlines canned]
      written := s.written ++ [.output canned] }

/-- `lineReceived`, with what the router returns, `none` where it raises. A line that is not UTF-8 raises. -/
def lineReceived (line : Bytes) (router : Option (Option String)) (s : Session) : Session :=
  match decode line with
  | none => s
  | some string =>
    match router with
    | some (some canned) => s.answerCanned a string canned
    | _ => s.processCommandWithLlm a string

/-- `_handle_llm_response`; `none` where it raises, which `strip_markdown` does if the value is no text. -/
def handleLlmResponse (response : Json) (s : Session) : Option Session :=
  if !s.terminal then some s
  else if !response.truthy then some (s.showPrompt a)
  else
    match response with
    | .str text =>
      let cleanResponse := stripMarkdown a.isWord text
      some (showPrompt a
        { s with
          commandHistory := s.commandHistory ++ ["System: " ++ cleanResponse]
          written := s.written ++ [.output (cleanResponse ++ "\n")] })
    | _ => none

/-- `_handle_llm_error`. -/
def handleLlmError (s : Session) : Session := if s.terminal then s.showPrompt a else s

/-- A response arrives: the callback, and behind it the errback. -/
def responseReceived (r : Reply) (s : Session) : Session :=
  (((getResponse r).bind fun response => s.handleLlmResponse a response)).getD (s.handleLlmError a)

end Session

inductive Event
  | line (line : Bytes) (router : Option (Option String))
  /-- A response to the request with this number. -/
  | reply (request : Nat) (r : Reply)
  | connectionLost

/-- Lines come from a connected terminal, and a request has one response. -/
def Session.step (a : Account) (s : Session) : Event → Option Session
  | .line line router => if s.terminal then some (s.lineReceived a line router) else none
  | .reply request r =>
    if request ∈ s.waiting then
      some ({ s with waiting := s.waiting.erase request }.responseReceived a r)
    else none
  | .connectionLost => if s.terminal then some { s with terminal := false } else none

/-! ## The dialogue -/

/-- What was said, and in which line or in answer to which line. -/
inductive Turn
  | command (line : Nat) (text : String)
  | answer (line : Nat) (text : String)
  deriving DecidableEq

namespace Turn

/-- The entry of `command_history`. -/
def entry : Turn → String
  | command _ text => "User: " ++ text
  | answer _ text => "System: " ++ text

def message : Turn → ChatMessage
  | command _ text => ⟨"user", stripBlanks text⟩
  | answer _ text => ⟨"assistant", stripBlanks text⟩

end Turn

/-- A request: its line, and the turns that it shows. -/
structure Request where
  line : Nat
  shown : List Turn

structure Dialogue where
  connected : Bool := true
  turns : List Turn := []
  /-- The number of lines so far. -/
  lines : Nat := 0
  requests : List Request := []
  waiting : List Nat := []
  prompts : Nat := 1

/-- A line with its answer if the router has one; an answer to a request if it has a text. -/
inductive Said
  | command (text : String) (answer : Option String)
  | answer (request : Nat) (text : Option String)
  | hungUp

namespace Dialogue

/-- The line and its answer. -/
def direct (text answer : String) (d : Dialogue) : Dialogue :=
  { d with
    turns := d.turns ++ [.command d.lines text] ++ [.answer d.lines answer]
    lines := d.lines + 1
    prompts := d.prompts + 1 }

/-- The line is sent with the last turns. -/
def ask (text : String) (d : Dialogue) : Dialogue :=
  let turns := d.turns ++ [.command d.lines text]
  { d with
    turns
    lines := d.lines + 1
    requests := d.requests ++ [⟨d.lines, turns.rtake 10⟩]
    waiting := d.waiting ++ [d.requests.length] }

/-- The response to a request; one that is no text leaves no turn. -/
def respond (request line : Nat) (text : Option String) (d : Dialogue) : Dialogue :=
  if d.connected then
    { d with
      waiting := d.waiting.erase request
      turns := d.turns ++ (text.map (Turn.answer line)).toList
      prompts := d.prompts + 1 }
  else { d with waiting := d.waiting.erase request }

def step (d : Dialogue) : Said → Option Dialogue
  | .command text (some answer) => if d.connected then some (d.direct text answer) else none
  | .command text none => if d.connected then some (d.ask text) else none
  | .answer request text =>
    if request ∈ d.waiting then (d.requests[request]?).map fun r => d.respond request r.line text else none
  | .hungUp => if d.connected then some { d with connected := false } else none

end Dialogue

/-! ## Steps of the dialogue -/

namespace Dialogue

variable {d d' : Dialogue} {e : Said}

/-- What an event does to a dialogue. -/
inductive Stepped (d : Dialogue) : Said → Dialogue → Prop
  | direct (text answer : String) (hopen : d.connected = true) :
      Stepped d (.command text (some answer)) (d.direct text answer)
  | asked (text : String) (hopen : d.connected = true) : Stepped d (.command text none) (d.ask text)
  | answered (request : Nat) (text : Option String) (r : Request) (hwaits : request ∈ d.waiting)
      (hr : d.requests[request]? = some r) (hopen : d.connected = true) :
      Stepped d (.answer request text)
        { d with
          waiting := d.waiting.erase request
          turns := d.turns ++ (text.map (Turn.answer r.line)).toList
          prompts := d.prompts + 1 }
  | late (request : Nat) (text : Option String) (hwaits : request ∈ d.waiting) (hlost : d.connected = false) :
      Stepped d (.answer request text) { d with waiting := d.waiting.erase request }
  | hungUp : Stepped d .hungUp { d with connected := false }

theorem step_cases (h : d.step e = some d') : Stepped d e d' := by
  match e with
  | .command text (some answer) =>
    simp only [step, Option.ite_none_right_eq_some, Option.some.injEq] at h
    exact h.2 ▸ .direct text answer h.1
  | .command text none =>
    simp only [step, Option.ite_none_right_eq_some, Option.some.injEq] at h
    exact h.2 ▸ .asked text h.1
  | .answer request text =>
    simp only [step, Option.ite_none_right_eq_some, Option.map_eq_some_iff] at h
    obtain ⟨hwaits, r, hr, rfl⟩ := h
    unfold respond
    split_ifs with hopen
    · exact .answered request text r hwaits hr hopen
    · exact .late request text hwaits (by simpa using hopen)
  | .hungUp =>
    simp only [step, Option.ite_none_right_eq_some, Option.some.injEq] at h
    exact h.2 ▸ .hungUp

/-- The request shows the last turns up to its command. -/
def Fits (turns : List Turn) (r : Request) : Prop :=
  ∃ before text after, turns = before ++ .command r.line text :: after ∧
    r.shown = (before ++ [.command r.line text]).rtake 10

theorem Fits.append {turns : List Turn} {r : Request} (h : Fits turns r) (more : List Turn) :
    Fits (turns ++ more) r := by
  obtain ⟨before, text, after, rfl, hshown⟩ := h
  exact ⟨before, text, after ++ more, by simp, hshown⟩

/-- What holds of every dialogue. -/
structure Sound (d : Dialogue) : Prop where
  waits : ∀ i ∈ d.waiting, i < d.requests.length
  nodup : d.waiting.Nodup
  lines : ∀ r ∈ d.requests, r.line < d.lines
  ordered : d.requests.Pairwise (·.line < ·.line)
  fits : ∀ r ∈ d.requests, Fits d.turns r
  prompts : d.connected = true → d.prompts + d.waiting.length = d.lines + 1
  last : ∀ n text, d.turns.getLast? = some (.command n text) → n + 1 = d.lines

theorem sound_new : Sound {} where
  waits := by simp
  nodup := List.nodup_nil
  lines := by simp
  ordered := List.Pairwise.nil
  fits := by simp
  prompts := fun _ => rfl
  last := by simp

/-- A step keeps `Sound`. -/
theorem Sound.step (hd : Sound d) (hstep : d.step e = some d') : Sound d' := by
  cases step_cases hstep with
  | direct text answer hopen =>
    refine ⟨hd.waits, hd.nodup, fun r hr => (hd.lines r hr).trans (Nat.lt_succ_self _), hd.ordered, ?_, ?_, ?_⟩
    · intro r hr
      exact ((hd.fits r hr).append _).append _
    · intro _
      have hcount := hd.prompts hopen
      simp only [Dialogue.direct]
      omega
    · intro n t hlast
      simp [Dialogue.direct] at hlast
  | asked text hopen =>
    refine ⟨?_, ?_, ?_, ?_, ?_, ?_, ?_⟩
    · intro i hi
      simp only [ask, List.mem_append, List.mem_singleton, List.length_append, List.length_singleton] at hi ⊢
      rcases hi with hi | rfl
      · exact (hd.waits i hi).trans (Nat.lt_succ_self _)
      · exact Nat.lt_succ_self _
    · have hfresh : d.requests.length ∉ d.waiting := fun h => (hd.waits _ h).false
      refine List.nodup_append.mpr ⟨hd.nodup, by simp, ?_⟩
      intro i hi j hj
      rw [List.mem_singleton.mp hj]
      exact fun h => hfresh (h ▸ hi)
    · intro r hr
      simp only [ask, List.mem_append, List.mem_singleton] at hr ⊢
      rcases hr with hr | rfl
      · exact (hd.lines r hr).trans (Nat.lt_succ_self _)
      · exact Nat.lt_succ_self _
    · refine List.pairwise_append.mpr ⟨hd.ordered, List.pairwise_singleton _ _, ?_⟩
      intro r hr r' hr'
      rw [List.mem_singleton.mp hr']
      exact hd.lines r hr
    · intro r hr
      simp only [ask, List.mem_append, List.mem_singleton] at hr ⊢
      rcases hr with hr | rfl
      · exact (hd.fits r hr).append _
      · exact ⟨d.turns, text, [], rfl, rfl⟩
    · intro _
      have hcount := hd.prompts hopen
      simp only [ask, List.length_append, List.length_singleton]
      omega
    · intro n t hlast
      simp only [ask, List.getLast?_append, List.getLast?_singleton, Option.some_or, Option.some.injEq,
        Turn.command.injEq] at hlast
      rw [← hlast.1]
      rfl
  | answered request text r hwaits hr hopen =>
    refine ⟨fun i hi => hd.waits i (List.mem_of_mem_erase hi), hd.nodup.erase _, hd.lines, hd.ordered, ?_, ?_, ?_⟩
    · intro r' hr'
      exact (hd.fits r' hr').append _
    · intro _
      have hcount := hd.prompts hopen
      have hone := List.length_erase_of_mem hwaits
      have hpos := List.length_pos_of_mem hwaits
      simp only [hone]
      omega
    · intro n t hlast
      cases text with
      | none => exact hd.last n t (by simpa using hlast)
      | some answer => simp at hlast
  | late request text hwaits hlost =>
    refine ⟨fun i hi => hd.waits i (List.mem_of_mem_erase hi), hd.nodup.erase _, hd.lines, hd.ordered, hd.fits, ?_,
      hd.last⟩
    intro hopen
    exact absurd hopen (by simp [hlost])
  | hungUp =>
    exact ⟨hd.waits, hd.nodup, hd.lines, hd.ordered, hd.fits, fun h => absurd h (by simp), hd.last⟩

theorem sound_run {es : List Said} (hrun : run step {} es = some d) : Sound d :=
  run_inv' (fun _ _ _ hs ht => hs.step ht) sound_new hrun

end Dialogue

/-! ## A session is a dialogue -/

/-- The text that a response comes to. -/
def answerText (isWord : Char → Bool) (r : Reply) : Option String :=
  match getResponse r with
  | some (.str text) => if text = "" then none else some (stripMarkdown isWord text)
  | _ => none

/-- What an event says. -/
def Event.said (a : Account) : Event → Option Said
  | .line bytes router => (decode bytes).map fun string => .command string (router.join.map rstripNewlines)
  | .reply request r => some (.answer request (answerText a.isWord r))
  | .connectionLost => some .hungUp

/-- The messages of a request. -/
def Request.messages (a : Account) (r : Request) : List ChatMessage :=
  ⟨"system", systemContext a⟩ :: r.shown.map Turn.message

/-- The session, with a text for every turn. -/
structure Matches (a : Account) (s : Session) (d : Dialogue) : Prop where
  terminal : s.terminal = d.connected
  history : s.commandHistory = d.turns.map Turn.entry
  requests : s.requests = d.requests.map fun r => systemContext a :: r.shown.map Turn.entry
  waiting : s.waiting = d.waiting
  prompts : s.written.countP Written.isPrompt = d.prompts

theorem formatMessage_entry (t : Turn) : formatMessage t.entry = t.message := by
  have hblank : ∀ text : String, stripBlanks (String.ofList (' ' :: text.toList)) = stripBlanks text := by
    intro text
    rw [stripBlanks_ofList, strip_cons (by decide), ← toList_stripBlanks, String.ofList_toList]
  cases t with
  | command n text =>
    have huser : (Turn.command n text).entry.toList = "User:".toList ++ ' ' :: text.toList := by
      simp [Turn.entry]
    unfold formatMessage
    rw [huser, if_pos (by simp)]
    simpa [Turn.message] using hblank text
  | answer n text =>
    have hsystem : (Turn.answer n text).entry.toList = "System:".toList ++ ' ' :: text.toList := by
      simp [Turn.entry]
    unfold formatMessage
    rw [hsystem, if_neg (by simp), if_pos (by simp)]
    simpa [Turn.message] using hblank text

theorem map_rtake {α β : Type*} (f : α → β) (l : List α) (n : Nat) : (l.rtake n).map f = (l.map f).rtake n := by
  rw [List.rtake, List.rtake, List.map_drop, List.length_map]

namespace Session

variable {a : Account} {s t : Session}

/-- What a response does: at most one text, and one prompt. -/
theorem responseReceived_eq (r : Reply) (s : Session) :
    s.responseReceived a r =
      if s.terminal then
        match answerText a.isWord r with
        | some text => showPrompt a
            { s with
              commandHistory := s.commandHistory ++ ["System: " ++ text]
              written := s.written ++ [.output (text ++ "\n")] }
        | none => s.showPrompt a
      else s := by
  unfold responseReceived answerText handleLlmError
  cases hopen : s.terminal with
  | false => cases getResponse r <;> simp [handleLlmResponse, hopen]
  | true =>
    cases getResponse r with
    | none => simp
    | some json =>
      cases json with
      | str text => by_cases hempty : text = "" <;> simp [handleLlmResponse, hopen, hempty, Json.truthy]
      | null => simp [handleLlmResponse, hopen, Json.truthy]
      | bool b => cases b <;> simp [handleLlmResponse, hopen, Json.truthy]
      | num zero => cases zero <;> simp [handleLlmResponse, hopen, Json.truthy]
      | arr items => cases items <;> simp [handleLlmResponse, hopen, Json.truthy]
      | obj fields => cases fields <;> simp [handleLlmResponse, hopen, Json.truthy]

/-- The requests that wait have been sent. -/
def Waits (s : Session) : Prop := ∀ i ∈ s.waiting, i < s.requests.length

theorem responseReceived_waits (r : Reply) (s : Session) :
    (s.responseReceived a r).waiting = s.waiting ∧ (s.responseReceived a r).requests = s.requests := by
  rw [responseReceived_eq]
  split_ifs
  · cases answerText a.isWord r <;> exact ⟨rfl, rfl⟩
  · exact ⟨rfl, rfl⟩

theorem Waits.step {e : Event} (hs : s.Waits) (hstep : s.step a e = some t) : t.Waits := by
  cases e with
  | line bytes router =>
    simp only [Session.step, Option.ite_none_right_eq_some, Option.some.injEq] at hstep
    obtain ⟨-, rfl⟩ := hstep
    unfold lineReceived
    split
    · exact hs
    · split
      · exact hs
      · intro i hi
        simp only [processCommandWithLlm, List.mem_append, List.mem_singleton, List.length_append,
          List.length_singleton] at hi ⊢
        rcases hi with hi | rfl
        · exact (hs i hi).trans (Nat.lt_succ_self _)
        · exact Nat.lt_succ_self _
  | reply request r =>
    simp only [Session.step, Option.ite_none_right_eq_some, Option.some.injEq] at hstep
    obtain ⟨-, rfl⟩ := hstep
    obtain ⟨hwaiting, hrequests⟩ := responseReceived_waits (a := a) r { s with waiting := s.waiting.erase request }
    intro i hi
    rw [hwaiting] at hi
    rw [hrequests]
    exact hs i (List.mem_of_mem_erase hi)
  | connectionLost =>
    simp only [Session.step, Option.ite_none_right_eq_some, Option.some.injEq] at hstep
    obtain ⟨-, rfl⟩ := hstep
    exact hs

theorem matches_start (a : Account) : Matches a (start a) {} :=
  ⟨rfl, rfl, rfl, rfl, rfl⟩

/-! Each event of a session, and what it says. -/

section Events

variable {d : Dialogue} (h : Matches a s d)
include h

theorem matches_canned (string canned : String) :
    Matches a (s.answerCanned a string canned) (d.direct string (rstripNewlines canned)) where
  terminal := h.terminal
  history := by simp [answerCanned, showPrompt, Dialogue.direct, h.history, Turn.entry]
  requests := h.requests
  waiting := h.waiting
  prompts := by simp [answerCanned, showPrompt, Dialogue.direct, Written.isPrompt, h.prompts]

theorem matches_ask (command : String) :
    Matches a (s.processCommandWithLlm a command) (d.ask command) where
  terminal := h.terminal
  history := by simp [processCommandWithLlm, Dialogue.ask, h.history, Turn.entry]
  requests := by
    simp [processCommandWithLlm, Dialogue.ask, promptOf, h.requests, h.history, map_rtake, Turn.entry]
  waiting := by simp [processCommandWithLlm, Dialogue.ask, h.waiting, h.requests]
  prompts := h.prompts

theorem matches_respond (request line : Nat) (r : Reply) :
    Matches a ({ s with waiting := s.waiting.erase request }.responseReceived a r)
      (d.respond request line (answerText a.isWord r)) := by
  have herase : s.waiting.erase request = d.waiting.erase request := by rw [h.waiting]
  rw [responseReceived_eq]
  unfold Dialogue.respond
  by_cases hopen : d.connected = true
  · have hterminal : s.terminal = true := h.terminal.trans hopen
    rw [if_pos hterminal, if_pos hopen]
    cases answerText a.isWord r with
    | none =>
      exact ⟨h.terminal, by simp [showPrompt, h.history], h.requests, herase,
        by simp [showPrompt, Written.isPrompt, h.prompts]⟩
    | some text =>
      exact ⟨h.terminal, by simp [showPrompt, h.history, Turn.entry], h.requests, herase,
        by simp [showPrompt, Written.isPrompt, h.prompts]⟩
  · have hterminal : ¬ s.terminal = true := fun hs => hopen (h.terminal.symm.trans hs)
    rw [if_neg hterminal, if_neg hopen]
    exact ⟨h.terminal, h.history, h.requests, herase, h.prompts⟩

end Events

/-- **A session is a dialogue**, step by step. -/
theorem simulates (a : Account) (P : Session → Event → Prop) :
    Simulates (Session.step a) Dialogue.step (fun _ => Event.said a) (Matches a) Waits P where
  kept _ _ _ hs _ hstep := hs.step hstep
  follows s d e t h hs _ hstep := by
    cases e with
    | line bytes router =>
      simp only [Session.step, Option.ite_none_right_eq_some, Option.some.injEq] at hstep
      obtain ⟨hopen, rfl⟩ := hstep
      have hconnected : d.connected = true := h.terminal.symm.trans hopen
      simp only [lineReceived, Event.said]
      cases decode bytes with
      | none => exact h
      | some string =>
        match router with
        | some (some canned) =>
          exact ⟨_, by simp [Dialogue.step, hconnected], matches_canned h string canned⟩
        | some none => exact ⟨_, by simp [Dialogue.step, hconnected], matches_ask h string⟩
        | none => exact ⟨_, by simp [Dialogue.step, hconnected], matches_ask h string⟩
    | reply request r =>
      simp only [Session.step, Option.ite_none_right_eq_some, Option.some.injEq] at hstep
      obtain ⟨hwaits, rfl⟩ := hstep
      have hlt : request < d.requests.length := by
        have hsent := hs request hwaits
        rwa [h.requests, List.length_map] at hsent
      refine ⟨_, ?_, matches_respond h request d.requests[request].line r⟩
      simp only [Dialogue.step, ← h.waiting, if_pos hwaits, List.getElem?_eq_getElem hlt, Option.map_some]
    | connectionLost =>
      simp only [Session.step, Option.ite_none_right_eq_some, Option.some.injEq] at hstep
      obtain ⟨hopen, rfl⟩ := hstep
      have hconnected : d.connected = true := h.terminal.symm.trans hopen
      exact ⟨{ d with connected := false }, by simp [Dialogue.step, hconnected],
        rfl, h.history, h.requests, h.waiting, h.prompts⟩

/-- The dialogue of a run. -/
theorem exists_dialogue {es : List Event} (hrun : run (Session.step a) (start a) es = some s) :
    ∃ d, run Dialogue.step {} (es.filterMap (Event.said a)) = some d ∧ Matches a s d := by
  have hsim := simulates a fun _ _ => True
  obtain ⟨d, hd, hmatches⟩ := hsim.run (matches_start a) (by simp [Waits, start, showPrompt])
    (stepsMeet_true _ _) hrun
  exact ⟨d, project_eq_filterMap hrun ▸ hd, hmatches⟩

/-- **What the service gets**: the text about the machine, and the last ten turns up to the command of the request.
Every turn has the role of the one who spoke, whatever its text looks like. -/
theorem refines {es : List Event} (hrun : run (Session.step a) (start a) es = some s) :
    ∃ d, run Dialogue.step {} (es.filterMap (Event.said a)) = some d ∧ Matches a s d ∧
      s.requests.map formatMessages = d.requests.map (Request.messages a) ∧
      ∀ r ∈ d.requests, Dialogue.Fits d.turns r := by
  obtain ⟨d, hd, hmatches⟩ := exists_dialogue hrun
  refine ⟨d, hd, hmatches, ?_, (Dialogue.sound_run hd).fits⟩
  rw [hmatches.requests, List.map_map]
  refine List.map_congr_left fun r _ => ?_
  simp [Request.messages, formatMessages, formatMessage_entry]

/-- A line, the response to it, and a line that the router answers. -/
def sampleEvents : List Event :=
  [.line (encode "id") none,
    .reply 0 { json := .value (.obj [("choices", .arr [.obj [("message", .obj [("content", .str "uid=0(root)")])]])]) },
    .line (encode "pwd") (some (some "/\n"))]

def sampleAccount : Account where
  username := "root"
  hostname := "svr04"
  isWord c := c.isAlphanum || c = '_'

theorem sampleRun : ∃ s, run (Session.step sampleAccount) (Session.start sampleAccount) sampleEvents = some s := by
  refine Option.isSome_iff_exists.mp ?_
  simp only [sampleEvents, run, Session.step, Session.lineReceived, decode_encode]
  rfl

theorem sampleRun_refines :
    ∃ s, run (Session.step sampleAccount) (start sampleAccount) sampleEvents = some s ∧
      ∃ d, run Dialogue.step {} (sampleEvents.filterMap (Event.said sampleAccount)) = some d ∧
        Matches sampleAccount s d ∧
        s.requests.map formatMessages = d.requests.map (Request.messages sampleAccount) ∧
        ∀ r ∈ d.requests, Dialogue.Fits d.turns r := by
  obtain ⟨s, hs⟩ := sampleRun
  exact ⟨s, hs, refines hs⟩

end Session

/-! ## Prompts -/

/-- The event is a line that is text. -/
def Event.isLine : Event → Bool
  | .line bytes _ => (decode bytes).isSome
  | _ => false

def Said.isCommand : Said → Bool
  | .command _ _ => true
  | _ => false

theorem Dialogue.lines_step (d : Dialogue) (e : Said) (d' : Dialogue) (hstep : Dialogue.step d e = some d') :
    d'.lines = d.lines + if e.isCommand then 1 else 0 := by
  cases Dialogue.step_cases hstep <;> rfl

theorem countP_said (a : Account) (es : List Event) :
    (es.filterMap (Event.said a)).countP Said.isCommand = es.countP Event.isLine := by
  rw [List.countP_filterMap]
  refine List.countP_congr fun e _ => ?_
  cases e with
  | line bytes router =>
    simp only [Event.said, Event.isLine]
    cases decode bytes <;> simp [Said.isCommand]
  | reply request r => simp [Event.said, Event.isLine, Said.isCommand]
  | connectionLost => simp [Event.said, Event.isLine, Said.isCommand]

namespace Session

variable {a : Account} {s t : Session}

/-- What is written to a terminal that is gone. -/
theorem written_step {e : Event} (hlost : s.terminal = false) (hstep : s.step a e = some t) :
    t.terminal = false ∧ t.written = s.written := by
  cases e with
  | line bytes router => simp [Session.step, hlost] at hstep
  | reply request r =>
    simp only [Session.step, Option.ite_none_right_eq_some, Option.some.injEq] at hstep
    obtain ⟨-, rfl⟩ := hstep
    rw [responseReceived_eq, if_neg (by simp [hlost])]
    exact ⟨hlost, rfl⟩
  | connectionLost => simp [Session.step, hlost] at hstep

/-- **Prompts**: whatever the service sends, a connected session has shown one prompt at its start and one for
every line that does not wait for a response. Nothing is written to a terminal that is gone. -/
theorem prompts_accounted {es : List Event} (hrun : run (Session.step a) (start a) es = some s) :
    (s.terminal = true →
      s.written.countP Written.isPrompt + s.waiting.length = es.countP Event.isLine + 1) ∧
    (s.terminal = false → ∀ fs t, run (Session.step a) s fs = some t → t.written = s.written) := by
  constructor
  · intro hopen
    obtain ⟨d, hd, hmatches⟩ := exists_dialogue hrun
    have hlines := run_count Dialogue.lines_step hd
    rw [countP_said] at hlines
    have hcount := (Dialogue.sound_run hd).prompts (hmatches.terminal.symm.trans hopen)
    rw [hmatches.prompts, hmatches.waiting, hcount, hlines]
    simp
  · intro hlost fs t hfs
    have hstep : ∀ u e v, (u.terminal = false ∧ u.written = s.written) → Session.step a u e = some v →
        v.terminal = false ∧ v.written = s.written := by
      intro u e v hu hv
      obtain ⟨hterminal, hwritten⟩ := written_step hu.1 hv
      exact ⟨hterminal, hwritten.trans hu.2⟩
    exact (run_inv' hstep ⟨hlost, rfl⟩ hfs).2

theorem sampleRun_prompts :
    ∃ s, run (Session.step sampleAccount) (start sampleAccount) sampleEvents = some s ∧
      (s.terminal = true →
        s.written.countP Written.isPrompt + s.waiting.length = sampleEvents.countP Event.isLine + 1) ∧
      (s.terminal = false → ∀ fs t, run (Session.step sampleAccount) s fs = some t → t.written = s.written) := by
  obtain ⟨s, hs⟩ := sampleRun
  exact ⟨s, hs, prompts_accounted hs⟩

end Session

/-! ## Answers behind their commands -/

namespace Dialogue

variable {d d' : Dialogue} {e : Said}

/-- Every answer directly follows its command. -/
def Paired (turns : List Turn) : Prop :=
  ∀ before n text, before ++ [.answer n text] <+: turns → ∃ command, before.getLast? = some (.command n command)

/-- An answer comes before any further line. -/
def OnTime (d : Dialogue) : Said → Prop
  | .answer request (some _) => d.connected = true → ∀ r, d.requests[request]? = some r → r.line + 1 = d.lines
  | _ => True

theorem paired_append_command {turns : List Turn} {n : Nat} {text : String} :
    Paired (turns ++ [.command n text]) ↔ Paired turns := by
  constructor
  · intro h before m t hbefore
    exact h before m t (hbefore.trans (List.prefix_append _ _))
  · intro h before m t hbefore
    rcases List.prefix_concat_iff.mp hbefore with heq | hprefix
    · simp at heq
    · exact h before m t hprefix

theorem paired_append_answer {turns : List Turn} {n : Nat} {text : String} :
    Paired (turns ++ [.answer n text]) ↔ Paired turns ∧ ∃ command, turns.getLast? = some (.command n command) := by
  constructor
  · intro h
    exact ⟨fun before m t hbefore => h before m t (hbefore.trans (List.prefix_append _ _)),
      h turns n text (List.prefix_refl _)⟩
  · rintro ⟨h, hlast⟩ before m t hbefore
    rcases List.prefix_concat_iff.mp hbefore with heq | hprefix
    · obtain ⟨rfl, hanswer⟩ := List.append_inj' heq rfl
      simp only [List.cons.injEq, Turn.answer.injEq, and_true] at hanswer
      rwa [hanswer.1]
    · exact h before m t hprefix

/-- A dialogue in which every answer was on time so far. -/
structure Punctual (d : Dialogue) : Prop where
  sound : Sound d
  paired : Paired d.turns
  /-- The last line is the last turn as long as it waits. -/
  latest : ∀ i ∈ d.waiting, ∀ r, d.requests[i]? = some r → r.line + 1 = d.lines →
    ∃ text, d.turns.getLast? = some (.command r.line text)

theorem Sound.line_of_get {i : Nat} {r : Request} (hd : Sound d) (hr : d.requests[i]? = some r) : r.line < d.lines :=
  hd.lines r (List.mem_of_getElem? hr)

/-- Two requests are not of one line. -/
theorem Sound.eq_of_line {i j : Nat} {r r' : Request} (hd : Sound d) (hi : d.requests[i]? = some r)
    (hj : d.requests[j]? = some r') (heq : r.line = r'.line) : i = j := by
  obtain ⟨hilt, rfl⟩ := List.getElem?_eq_some_iff.mp hi
  obtain ⟨hjlt, rfl⟩ := List.getElem?_eq_some_iff.mp hj
  have hpair := List.pairwise_iff_getElem.mp hd.ordered
  rcases lt_trichotomy i j with hij | hij | hij
  · exact absurd heq (hpair i j hilt hjlt hij).ne
  · exact hij
  · exact absurd heq.symm (hpair j i hjlt hilt hij).ne

theorem Punctual.step (hd : Punctual d) (hmeet : OnTime d e) (hstep : d.step e = some d') : Punctual d' := by
  suffices hkept : Paired d'.turns ∧ ∀ i ∈ d'.waiting, ∀ r, d'.requests[i]? = some r → r.line + 1 = d'.lines →
      ∃ text, d'.turns.getLast? = some (.command r.line text) from
    ⟨hd.sound.step hstep, hkept.1, hkept.2⟩
  cases step_cases hstep with
  | direct text answer hopen =>
    refine ⟨?_, fun i hi r hr hline => ?_⟩
    · exact paired_append_answer.mpr ⟨paired_append_command.mpr hd.paired, text, by simp⟩
    · have hlt := hd.sound.line_of_get hr
      simp only [Dialogue.direct] at hline
      omega
  | asked text hopen =>
    refine ⟨paired_append_command.mpr hd.paired, fun i hi r hr hline => ?_⟩
    simp only [ask] at hr hline ⊢
    rcases Nat.lt_or_ge i d.requests.length with hlt | hge
    · rw [List.getElem?_append_left hlt] at hr
      have hearlier := hd.sound.line_of_get hr
      omega
    · rw [List.getElem?_append_right hge] at hr
      have hnew := List.mem_singleton.mp (List.mem_of_getElem? hr)
      exact ⟨text, by simp [hnew]⟩
  | answered request text r hwaits hr hopen =>
    cases text with
    | none =>
      refine ⟨by simpa using hd.paired, fun i hi r' hr' hline => ?_⟩
      simpa using hd.latest i (List.mem_of_mem_erase hi) r' hr' hline
    | some answer =>
      have hlast : r.line + 1 = d.lines := hmeet hopen r hr
      refine ⟨?_, fun i hi r' hr' hline => ?_⟩
      · exact paired_append_answer.mpr ⟨hd.paired, hd.latest request hwaits r hr hlast⟩
      · -- the last line has no other request
        have hsame : i = request := hd.sound.eq_of_line hr' hr (by simp only at hline; omega)
        exact absurd hi (hsame ▸ hd.sound.nodup.not_mem_erase)
  | late request text hwaits hlost =>
    exact ⟨hd.paired, fun i hi => hd.latest i (List.mem_of_mem_erase hi)⟩
  | hungUp => exact ⟨hd.paired, hd.latest⟩

/-- An answer that comes late stands behind something else. -/
theorem onTime_of_paired (hd : Punctual d) (hstep : d.step e = some d') (hpaired : Paired d'.turns) : OnTime d e := by
  cases step_cases hstep with
  | answered request text r hwaits hr hopen =>
    cases text with
    | none => trivial
    | some answer =>
      intro _ r' hr'
      obtain rfl : r = r' := Option.some.inj (hr.symm.trans hr')
      obtain ⟨-, command, hlast⟩ := paired_append_answer.mp hpaired
      exact hd.sound.last r.line command hlast
  | late request text hwaits hlost =>
    cases text with
    | none => trivial
    | some answer => exact fun hopen => absurd hopen (by simp [hlost])
  | direct => trivial
  | asked => trivial
  | hungUp => trivial

theorem punctual_new : Punctual {} :=
  ⟨sound_new, fun before n text hbefore => by simp at hbefore, by simp⟩

end Dialogue

/-- **Answers stand behind their commands** throughout a session iff each that is a text comes before any further
line. -/
theorem Session.paired_iff {a : Account} {s : Session} {es : List Event}
    (hrun : run (Session.step a) (Session.start a) es = some s) :
    StatesMeet Dialogue.step (fun d => Dialogue.Paired d.turns) {} (es.filterMap (Event.said a)) ↔
      StepsMeet Dialogue.step Dialogue.OnTime {} (es.filterMap (Event.said a)) := by
  obtain ⟨d, hd, -⟩ := exists_dialogue hrun
  have hstep : ∀ d e d', Dialogue.Punctual d → Dialogue.OnTime d e → Dialogue.step d e = some d' →
      Dialogue.Punctual d' := fun _ _ _ h hp ht => h.step hp ht
  exact statesMeet_iff_of_inv hstep (fun _ h => h.paired) (fun _ _ _ h ht hq => Dialogue.onTime_of_paired h ht hq)
    Dialogue.punctual_new hd

theorem Session.sampleRun_paired :
    StatesMeet Dialogue.step (fun d => Dialogue.Paired d.turns) {}
        (sampleEvents.filterMap (Event.said sampleAccount)) ↔
      StepsMeet Dialogue.step Dialogue.OnTime {} (sampleEvents.filterMap (Event.said sampleAccount)) := by
  obtain ⟨s, hs⟩ := sampleRun
  exact paired_iff hs

/-! ## The window of a request -/

/-- The turns of the lines from `m` to before `n`, each line with its answer. -/
inductive Exchanges (m : Nat) : Nat → List Turn → Prop
  | nil : Exchanges m m []
  | snoc {n : Nat} {turns : List Turn} (h : Exchanges m n turns) (text answer : String) :
      Exchanges m (n + 1) (turns ++ [.command n text] ++ [.answer n answer])

namespace Exchanges

variable {m n : Nat} {turns : List Turn}

theorem length (h : Exchanges m n turns) : m ≤ n ∧ turns.length = 2 * (n - m) := by
  induction h with
  | nil => simp
  | snoc h text answer ih =>
    obtain ⟨hle, hlength⟩ := ih
    refine ⟨Nat.le_succ_of_le hle, ?_⟩
    simp only [List.length_append, List.length_singleton, hlength]
    omega

/-- The turns of a line and the later ones stand together. -/
theorem split (h : Exchanges m n turns) {k : Nat} (hm : m ≤ k) (hn : k ≤ n) :
    ∃ earlier later, turns = earlier ++ later ∧ Exchanges m k earlier ∧ Exchanges k n later := by
  induction h with
  | nil =>
    obtain rfl : k = m := by omega
    exact ⟨[], [], rfl, nil, nil⟩
  | @snoc n turns h text answer ih =>
    rcases Nat.lt_or_ge n k with hlast | hearlier
    · obtain rfl : k = n + 1 := by omega
      exact ⟨_, [], (List.append_nil _).symm, h.snoc text answer, nil⟩
    · obtain ⟨earlier, later, rfl, hfirst, hsecond⟩ := ih hearlier
      exact ⟨earlier, _, by simp, hfirst, hsecond.snoc text answer⟩

/-- The last line. -/
theorem last (h : Exchanges m (n + 1) turns) (hne : turns ≠ []) :
    ∃ earlier answer, turns = earlier ++ [.answer n answer] := by
  cases h with
  | nil => exact absurd rfl hne
  | snoc h text answer => exact ⟨_, answer, rfl⟩

end Exchanges

/-- The first five lines are shown with everything before them. A later one is shown with the four lines before it
and the answer to a fifth, but not its command. -/
inductive Window : Request → Prop
  | whole {n : Nat} {turns : List Turn} (hfew : n < 5) (h : Exchanges 0 n turns) (text : String) :
      Window ⟨n, turns ++ [.command n text]⟩
  | cut {n : Nat} {turns : List Turn} (h : Exchanges (n + 1) (n + 5) turns) (answer text : String) :
      Window ⟨n + 5, .answer n answer :: (turns ++ [.command (n + 5) text])⟩

theorem rtake_of_length_le {α : Type*} {l : List α} {n : Nat} (h : l.length ≤ n) : l.rtake n = l := by
  rw [List.rtake, Nat.sub_eq_zero_of_le h, List.drop_zero]

theorem Exchanges.window {n : Nat} {turns : List Turn} (h : Exchanges 0 n turns) (text : String) :
    Window ⟨n, (turns ++ [Turn.command n text]).rtake 10⟩ := by
  rcases Nat.lt_or_ge n 5 with hfew | hmany
  · have hlength := h.length.2
    rw [rtake_of_length_le (by simp only [List.length_append, List.length_singleton]; omega)]
    exact .whole hfew h text
  · obtain ⟨k, rfl⟩ := Nat.exists_eq_add_of_le' hmany
    obtain ⟨earlier, later, rfl, hearlier, hlater⟩ := h.split (Nat.zero_le (k + 1)) (by omega : k + 1 ≤ k + 5)
    have hnonempty : earlier ≠ [] := by
      have hlength := hearlier.length.2
      rintro rfl
      simp at hlength
    obtain ⟨before, answer, rfl⟩ := hearlier.last hnonempty
    -- an answer, eight turns and the command
    have hten : (Turn.answer k answer :: (later ++ [Turn.command (k + 5) text])).length = 10 := by
      have hlength := hlater.length.2
      simp only [List.length_cons, List.length_append, List.length_nil, hlength]
      omega
    have hsplit : before ++ [Turn.answer k answer] ++ later ++ [Turn.command (k + 5) text] =
        before ++ Turn.answer k answer :: (later ++ [Turn.command (k + 5) text]) := by simp
    rw [hsplit, rtake_append_of_le hten.ge, rtake_of_length_le hten.le]
    exact .cut hlater answer text

namespace Dialogue

variable {d d' : Dialogue} {e : Said}

/-- A line is answered before the next one. -/
def Orderly (d : Dialogue) : Said → Prop
  | .command _ _ => d.waiting = []
  | .answer _ text => text.isSome = true
  | .hungUp => True

/-- How far an orderly dialogue is: all lines are answered, or the last one waits. -/
inductive Phase (d : Dialogue) : Prop
  | idle (hwaiting : d.waiting = []) (h : Exchanges 0 d.lines d.turns)
  | asked (request n : Nat) (text : String) (turns : List Turn) (hwaiting : d.waiting = [request])
      (hr : ∃ r, d.requests[request]? = some r ∧ r.line = n) (hlines : d.lines = n + 1) (h : Exchanges 0 n turns)
      (hturns : d.turns = turns ++ [.command n text])

structure InOrder (d : Dialogue) : Prop where
  windows : ∀ r ∈ d.requests, Window r
  phase : d.connected = true → Phase d

theorem inOrder_new : InOrder {} := ⟨by simp, fun _ => .idle rfl .nil⟩

theorem Phase.exchanges (h : Phase d) (hwaiting : d.waiting = []) : Exchanges 0 d.lines d.turns := by
  cases h with
  | idle _ h => exact h
  | asked request n text turns hone => simp [hwaiting] at hone

theorem InOrder.step (hd : InOrder d) (hmeet : Orderly d e) (hstep : d.step e = some d') : InOrder d' := by
  cases step_cases hstep with
  | direct text answer hopen =>
    exact ⟨hd.windows, fun _ => .idle hmeet (((hd.phase hopen).exchanges hmeet).snoc text answer)⟩
  | asked text hopen =>
    have hturns := (hd.phase hopen).exchanges hmeet
    refine ⟨?_, fun _ => ?_⟩
    · intro r hr
      rcases List.mem_append.mp hr with hr | hr
      · exact hd.windows r hr
      · rw [List.mem_singleton.mp hr]
        exact hturns.window text
    · refine .asked d.requests.length d.lines text d.turns ?_ ?_ rfl hturns rfl
      · rw [ask, hmeet, List.nil_append]
      · exact ⟨⟨d.lines, (d.turns ++ [Turn.command d.lines text]).rtake 10⟩, by simp [ask], rfl⟩
  | answered request text r hwaits hr hopen =>
    obtain ⟨answer, rfl⟩ := Option.isSome_iff_exists.mp hmeet
    refine ⟨hd.windows, fun _ => ?_⟩
    cases hd.phase hopen with
    | idle hnone h => simp [hnone] at hwaits
    | asked request' n command turns hone hr' hlines h hturns =>
      obtain ⟨r', hget, hline⟩ := hr'
      obtain rfl : request = request' := by simpa [hone] using hwaits
      obtain rfl : r = r' := Option.some.inj (hr.symm.trans hget)
      refine .idle (by simp [hone]) ?_
      simp only [hlines, hturns, hline]
      exact h.snoc command answer
  | late request text hwaits hlost => exact ⟨hd.windows, fun hopen => absurd hopen (by simp [hlost])⟩
  | hungUp => exact ⟨hd.windows, fun hopen => absurd hopen (by simp)⟩

end Dialogue

namespace Session

/-- A line is answered before the next one. -/
def Orderly (a : Account) (s : Session) : Event → Prop
  | .line bytes _ => (decode bytes).isSome = true → s.waiting = []
  | .reply _ r => (answerText a.isWord r).isSome = true
  | .connectionLost => True

/-- **The window**: in a session where every line is answered before the next one, a request shows all earlier lines
as long as there are four at most, and then the last four with the answer to the one before them. -/
theorem window_of_orderly {a : Account} {s : Session} {es : List Event}
    (hmeet : StepsMeet (Session.step a) (Orderly a) (start a) es)
    (hrun : run (Session.step a) (start a) es = some s) :
    ∃ d, run Dialogue.step {} (es.filterMap (Event.said a)) = some d ∧ Matches a s d ∧
      ∀ r ∈ d.requests, Window r := by
  obtain ⟨d, hd, hmatches⟩ := exists_dialogue hrun
  have hpass : ∀ s d e e', Matches a s d → s.Waits → Orderly a s e → Event.said a e = some e' →
      Dialogue.Orderly d e' := by
    intro s d e e' h _ horderly hsaid
    cases e with
    | line bytes router =>
      obtain ⟨string, hdecode, rfl⟩ := Option.map_eq_some_iff.mp hsaid
      exact h.waiting.symm.trans (horderly (by simp [hdecode]))
    | reply request r =>
      obtain rfl := Option.some.inj hsaid
      exact horderly
    | connectionLost =>
      obtain rfl := Option.some.inj hsaid
      trivial
  have hin := (simulates a (Orderly a)).stepsMeet hpass (matches_start a) (by simp [Waits, start, showPrompt])
    hmeet hrun
  rw [project_eq_filterMap hrun] at hin
  exact ⟨d, hd, hmatches,
    (run_inv (fun _ _ _ h hp ht => Dialogue.InOrder.step h hp ht) Dialogue.inOrder_new hin hd).windows⟩

theorem sampleRun_orderly : StepsMeet (Session.step sampleAccount) (Orderly sampleAccount) (start sampleAccount)
    sampleEvents := by
  refine ⟨fun _ => rfl, fun t ht => ⟨rfl, fun u hu => ⟨fun _ => ?_, fun _ _ => trivial⟩⟩⟩
  simp only [Session.step, lineReceived, decode_encode] at ht
  obtain rfl := Option.some.inj ht
  obtain rfl := Option.some.inj hu
  rfl

theorem sampleRun_window :
    ∃ s d, run (Session.step sampleAccount) (start sampleAccount) sampleEvents = some s ∧
      run Dialogue.step {} (sampleEvents.filterMap (Event.said sampleAccount)) = some d ∧
      Matches sampleAccount s d ∧ ∀ r ∈ d.requests, Window r := by
  obtain ⟨s, hs⟩ := sampleRun
  obtain ⟨d, hd⟩ := window_of_orderly sampleRun_orderly hs
  exact ⟨s, d, hs, hd⟩

end Session

end Cowrie.Llm.Chat
