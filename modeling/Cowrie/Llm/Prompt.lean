import Cowrie.Bytes

/-!
# The prompt of the Bedrock client (`BedrockClient._build_prompt` in `src/cowrie/llm/bedrock.py`)

The user message is the line of a shell prompt with the command behind it. What `max_prompt_chars` leaves is for
the system prompt, which is cut behind its last full stop within that room. The requirements, the property test
and `cowrie.cfg.dist` call `max_prompt_chars` the limit of the whole prompt; the user message is never cut.

* A text is the list of its characters where it is cut (`truncateSentence`). The temperature is of any type.
* `truncateSentence_isPrefix`, `length_truncateSentence_le`: the cut text is a prefix within the room.
* **`buildPrompt_budget_iff`**: the prompt keeps to its limit iff the user message does.
-/

namespace Cowrie.Llm

/-- `_SYSTEM_PROMPT`. -/
def systemPrompt : String :=
  "You are a Linux bash shell running on a server. " ++
    "When given a command, respond ONLY with the exact terminal output that command would produce. " ++
    "Do not explain, do not add commentary, do not use markdown. " ++
    "If the command is not found, respond exactly as bash would: " ++
    "'-bash: <command>: command not found'. " ++
    "Keep responses concise and realistic."

/-- `s.rfind(c)`. -/
def rfind (c : Char) (s : List Char) : Int :=
  match s.reverse.findIdx? (· == c) with
  | some i => s.length - 1 - i
  | none => -1

/-- The beginning of the text that fits, up to its last full stop if it has one. -/
def truncateSentence (text : List Char) (available : Nat) : List Char :=
  let truncated := text.take available
  let dotPos := rfind '.' truncated
  if dotPos ≠ -1 then truncated.take (dotPos + 1).toNat else truncated

/-- The settings that `_build_prompt` reads. -/
structure PromptSettings (F : Type) where
  modelId : String
  maxTokens : Int
  temperature : F
  maxPromptChars : Int := 500

structure Message where
  role : String
  content : List String

/-- The payload for `converse`. -/
structure Payload (F : Type) where
  modelId : String
  system : List String
  messages : List Message
  maxTokens : Int
  temperature : F

def userMessage (command hostname username cwd : String) : String :=
  "[" ++ username ++ "@" ++ hostname ++ " " ++ cwd ++ "]$ " ++ command

/-- The system text beside a user message of this length. -/
def systemText (maxPromptChars : Int) (length : Nat) : String :=
  let available := maxPromptChars - length
  if available ≤ 0 then ""
  else if systemPrompt.length > available then
    String.ofList (truncateSentence systemPrompt.toList available.toNat)
  else systemPrompt

variable {F : Type}

/-- `_build_prompt`. -/
def buildPrompt (settings : PromptSettings F) (command hostname username cwd : String) : Payload F :=
  let message := userMessage command hostname username cwd
  { modelId := settings.modelId
    system := [systemText settings.maxPromptChars message.length]
    messages := [⟨"user", [message]⟩]
    maxTokens := settings.maxTokens
    temperature := settings.temperature }

/-- The characters of the system text and the messages. -/
def Payload.totalChars (payload : Payload F) : Nat :=
  (payload.system.map String.length).sum +
    (payload.messages.map fun message => (message.content.map String.length).sum).sum

/-! ## The cut -/

theorem truncateSentence_isPrefix (text : List Char) (available : Nat) :
    truncateSentence text available <+: text := by
  simp only [truncateSentence]
  split_ifs
  · exact List.IsPrefix.trans (List.take_prefix _ _) (List.take_prefix _ _)
  · exact List.take_prefix _ _

theorem length_truncateSentence_le (text : List Char) (available : Nat) :
    (truncateSentence text available).length ≤ available := by
  simp only [truncateSentence]
  have htake := List.length_take_le available text
  split_ifs
  · exact (List.length_take_le' _ _).trans htake
  · exact htake

theorem systemText_isPrefix (maxPromptChars : Int) (length : Nat) :
    (systemText maxPromptChars length).toList <+: systemPrompt.toList := by
  simp only [systemText]
  split_ifs
  · exact List.nil_prefix
  · rw [String.toList_ofList]
    exact truncateSentence_isPrefix _ _
  · exact List.prefix_refl _

/-- The system text takes no more than the user message leaves. -/
theorem length_systemText_le {maxPromptChars : Int} {length : Nat} (h : length ≤ maxPromptChars) :
    ((systemText maxPromptChars length).length : Int) + length ≤ maxPromptChars := by
  simp only [systemText]
  split_ifs with hnone hlong
  · simpa using h
  · have hcut := length_truncateSentence_le systemPrompt.toList (maxPromptChars - length).toNat
    rw [String.length_ofList]
    omega
  · omega

/-! ## The budget -/

theorem length_userMessage (command hostname username cwd : String) :
    (userMessage command hostname username cwd).length =
      username.length + hostname.length + cwd.length + command.length + 6 := by
  have hopen : "[".length = 1 := rfl
  have hat : "@".length = 1 := rfl
  have hblank : " ".length = 1 := rfl
  have hclose : "]$ ".length = 3 := rfl
  simp only [userMessage, String.length_append]
  omega

theorem totalChars_buildPrompt (settings : PromptSettings F) (command hostname username cwd : String) :
    (buildPrompt settings command hostname username cwd).totalChars =
      (systemText settings.maxPromptChars (userMessage command hostname username cwd).length).length +
        (userMessage command hostname username cwd).length := by
  simp [buildPrompt, Payload.totalChars]

/-- **The prompt keeps to its limit**, with a beginning of the system prompt as the system text, iff the user
message alone does. -/
theorem buildPrompt_budget_iff (settings : PromptSettings F) (command hostname username cwd : String) :
    ((buildPrompt settings command hostname username cwd).totalChars ≤ settings.maxPromptChars ∧
        ∃ text, (buildPrompt settings command hostname username cwd).system = [text] ∧
          text.toList <+: systemPrompt.toList) ↔
      (username.length + hostname.length + cwd.length + command.length + 6 : Nat) ≤ settings.maxPromptChars := by
  rw [totalChars_buildPrompt, ← length_userMessage]
  constructor
  · rintro ⟨hbudget, -⟩
    omega
  · intro h
    have hsystem := length_systemText_le h
    exact ⟨by omega, _, rfl, systemText_isPrefix _ _⟩

/-- A command of 500 characters at the limit of `cowrie.cfg.dist`. -/
theorem buildPrompt_over_budget :
    ¬ (buildPrompt (⟨"amazon.nova-micro-v1:0", 300, (), 500⟩ : PromptSettings Unit)
      (String.ofList (List.replicate 500 'a')) "svr04" "root" "~").totalChars ≤ 500 := by
  have hlong : (String.ofList (List.replicate 500 'a')).length = 500 := by
    rw [String.length_ofList, List.length_replicate]
  rw [totalChars_buildPrompt, length_userMessage, hlong]
  omega

end Cowrie.Llm
