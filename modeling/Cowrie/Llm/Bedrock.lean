import Cowrie.Llm.ResponseCache
import Cowrie.Text

/-!
# The Bedrock client (`src/cowrie/llm/bedrock.py:89-145, 332-509`)

A call of `get_response` looks in the cache, asks Bedrock, once more after each `ThrottlingException` while the
budget lasts, and counts what came of it. What the outside does in a call is in `Call`: what the clock shows,
what `converse` does at each attempt, the events of a stream, and whether the answer comes too late. A
`BedrockClient` has the fields that a call reads or writes; of `_client` only whether it is there.

* `attempts` is the loop of `_call_bedrock`; `Called` is what it returns or raises, whether there is a client
  after it, and what the API was asked. With no client `self._client.converse` raises an `AttributeError`,
  which is none of the exceptions that are caught.
* `getResponseSync` may raise; `getResponse` returns the empty text then (`_on_error`).
* A timed out attempt goes on in its thread, which is waited for, so it may still lose the client.

Results:
* **`callBedrock_result`**: the loop returns what the first attempt that is not throttled gives, if there is one
  in the budget.
* `getResponse_cases`: what a call can do.
-/

namespace Cowrie.Llm

variable {T : Type}

/-! ## Requests and their outcomes -/

/-- What is raised by an attempt. -/
inductive Raised
  | clientError (code : String)
  | endpointConnectionError
  | botoCoreError
  | other
  deriving DecidableEq, Repr

/-- What `converse` does: it returns the blocks of a message, some with a text, or raises. -/
abbrev Converse := Except Raised (List (Option String))

/-- An event of a stream: its text, empty if it has none, and whether it is the last one. -/
structure StreamEvent where
  text : String
  messageStop : Bool
  deriving DecidableEq, Repr

/-- `_fallback_response`. -/
def fallbackResponse (command : String) : String :=
  let firstToken := (splitBlanks command).head?.getD command
  "-bash: " ++ firstToken ++ ": command not found"

/-- The text of a message. -/
def blocksText (blocks : List (Option String)) : String := stripBlanks (String.join (blocks.filterMap id))

/-- `_call_bedrock_once`, with a client or with none. -/
def callBedrockOnce (client : Bool) (converse : Converse) : Except Raised String :=
  if client then
    match converse with
    | .ok blocks => .ok (blocksText blocks)
    | .error err => .error err
  else .error .other

/-- What `_call_bedrock` does. -/
structure Called where
  result : Except Raised String
  client : Bool
  invoked : List Converse

/-- The attempts of `_call_bedrock`. -/
def attempts (maxRetries : Int) (command : String) (client : Bool) (aws : Nat → Converse) : List Nat → Called
  | [] => ⟨.ok (fallbackResponse command), client, []⟩
  | attempt :: rest =>
    let invoked := if client then [aws attempt] else []
    match callBedrockOnce client (aws attempt) with
    | .ok text => ⟨.ok text, client, invoked⟩
    | .error (.clientError code) =>
      if code = "ThrottlingException" then
        if attempt < maxRetries then
          let next := attempts maxRetries command client aws rest
          { next with invoked := invoked ++ next.invoked }
        else ⟨.ok (fallbackResponse command), client, invoked⟩
      else ⟨.ok (fallbackResponse command), client, invoked⟩
    | .error .endpointConnectionError => ⟨.ok (fallbackResponse command), false, invoked⟩
    | .error .botoCoreError => ⟨.ok (fallbackResponse command), client, invoked⟩
    | .error .other => ⟨.error .other, client, invoked⟩

/-- `_call_bedrock`. -/
def callBedrock (maxRetries : Int) (command : String) (client : Bool) (aws : Nat → Converse) : Called :=
  attempts maxRetries command client aws (List.range (maxRetries + 1).toNat)

/-- The first attempt in the budget that is not throttled. -/
def firstAnswer (maxRetries : Int) (aws : Nat → Converse) : Option Converse :=
  ((List.range (maxRetries + 1).toNat).map aws).find? (· ≠ .error (.clientError "ThrottlingException"))

/-- What is made of it. -/
def answered (command : String) : Option Converse → Except Raised String
  | some (.ok blocks) => .ok (blocksText blocks)
  | some (.error .other) => .error .other
  | some (.error (.clientError _)) => .ok (fallbackResponse command)
  | some (.error .endpointConnectionError) => .ok (fallbackResponse command)
  | some (.error .botoCoreError) => .ok (fallbackResponse command)
  | none => .ok (fallbackResponse command)

section
variable {maxRetries : Int} {command : String} {aws : Nat → Converse}

/-- By induction on the attempts that are left. -/
theorem attempts_range {k m : Nat} (h : k + m = (maxRetries + 1).toNat) :
    (attempts maxRetries command true aws (List.range' k m)).result =
        answered command (((List.range' k m).map aws).find? (· ≠ .error (.clientError "ThrottlingException"))) ∧
      (attempts maxRetries command true aws (List.range' k m)).client =
        decide (((List.range' k m).map aws).find? (· ≠ .error (.clientError "ThrottlingException")) ≠
          some (.error .endpointConnectionError)) := by
  induction m generalizing k with
  | zero => exact ⟨rfl, rfl⟩
  | succ m ih =>
    rw [List.range'_succ, List.map_cons]
    unfold attempts
    by_cases hthrottled : aws k = .error (.clientError "ThrottlingException")
    · rw [List.find?_cons_of_neg (by simpa using hthrottled), hthrottled]
      by_cases hlast : (k : Int) < maxRetries
      · simpa [callBedrockOnce, hlast] using ih (k := k + 1) (by omega)
      · obtain rfl : m = 0 := by omega
        simp [callBedrockOnce, hlast, answered]
    · rw [List.find?_cons_of_pos (by simpa using hthrottled)]
      cases hk : aws k with
      | ok blocks => simp [callBedrockOnce, answered]
      | error err =>
        cases err with
        | clientError code =>
          have hcode : code ≠ "ThrottlingException" := fun heq => hthrottled (by rw [hk, heq])
          simp [callBedrockOnce, hcode, answered]
        | endpointConnectionError => simp [callBedrockOnce, answered]
        | botoCoreError => simp [callBedrockOnce, answered]
        | other => simp [callBedrockOnce, answered]

/-- **What `_call_bedrock` returns**, with a client. -/
theorem callBedrock_result :
    (callBedrock maxRetries command true aws).result = answered command (firstAnswer maxRetries aws) := by
  unfold callBedrock firstAnswer
  rw [List.range_eq_range']
  exact (attempts_range (Nat.zero_add _)).1

/-- The client is lost to an `EndpointConnectionError`. -/
theorem callBedrock_client : (callBedrock maxRetries command true aws).client =
    decide (firstAnswer maxRetries aws ≠ some (.error .endpointConnectionError)) := by
  unfold callBedrock firstAnswer
  rw [List.range_eq_range']
  exact (attempts_range (Nat.zero_add _)).2

/-- With no client, the first attempt raises. -/
theorem callBedrock_of_gone : callBedrock maxRetries command false aws =
    ⟨if maxRetries < 0 then .ok (fallbackResponse command) else .error .other, false, []⟩ := by
  unfold callBedrock
  by_cases hneg : maxRetries < 0
  · have hnone : (maxRetries + 1).toNat = 0 := by omega
    rw [hnone, if_pos hneg]
    rfl
  · obtain ⟨n, hn⟩ : ∃ n, (maxRetries + 1).toNat = n + 1 := ⟨maxRetries.toNat, by omega⟩
    rw [hn, List.range_succ_eq_map, if_neg hneg]
    rfl

end

/-- The texts of a stream, and whether it breaks. -/
def readStream (breaks : Bool) : List StreamEvent → List String × Bool
  | [] => ([], breaks)
  | event :: events =>
    let chunks := if event.text ≠ "" then [event.text] else []
    if event.messageStop then (chunks, false)
    else (chunks ++ (readStream breaks events).1, (readStream breaks events).2)

/-- `_call_bedrock_streaming`. -/
def callBedrockStreaming (command : String) (client : Bool) (events : List StreamEvent) (breaks : Bool) :
    String :=
  let read := if client then readStream breaks events else ([], true)
  stripBlanks (String.join (read.1 ++ if read.2 then [fallbackResponse command] else []))

/-- `build_cache_key`, with the digest of a text as a parameter. -/
def buildCacheKey (sha256 : String → String) (command cwd username hostname : String) : String :=
  let normalisedCommand := " ".intercalate (splitBlanks command)
  sha256 (normalisedCommand ++ "|" ++ cwd ++ "|" ++ username ++ "|" ++ hostname)

/-! ## The statistics -/

inductive CallOutcome
  | hit
  | miss
  | timeout
  | error
  deriving DecidableEq, Repr

structure LatencyStats (T : Type) where
  totalCalls : Nat := 0
  cacheHits : Nat := 0
  cacheMisses : Nat := 0
  timeouts : Nat := 0
  errors : Nat := 0
  totalLatencyMs : T
  deriving DecidableEq

/-- `record`. -/
def LatencyStats.record [Add T] (outcome : CallOutcome) (latencyMs : T) (stats : LatencyStats T) :
    LatencyStats T :=
  let stats :=
    { stats with totalCalls := stats.totalCalls + 1, totalLatencyMs := stats.totalLatencyMs + latencyMs }
  match outcome with
  | .hit => { stats with cacheHits := stats.cacheHits + 1 }
  | .miss => { stats with cacheMisses := stats.cacheMisses + 1 }
  | .timeout => { stats with timeouts := stats.timeouts + 1 }
  | .error => { stats with errors := stats.errors + 1 }

/-! ## A call -/

structure BedrockClient (T : Type) where
  maxRetries : Int := 2
  timeoutSeconds : T
  streaming : Bool := false
  cache : Option (ResponseCache T)
  stats : LatencyStats T
  client : Bool := true
  deriving DecidableEq

/-- The arguments of `get_response`, and what the outside does. -/
structure Call (T : Type) where
  command : String
  hostname : String
  username : String
  cwd : String
  /-- What `time.monotonic()` shows at the start, in the lookup, at the end and when the response is stored. -/
  t0 : T
  lookup : T
  t1 : T
  stored : T
  aws : Nat → Converse
  events : List StreamEvent := []
  breaks : Bool := false
  /-- `future.result` raises a `TimeoutError`. -/
  late : Bool := false

namespace BedrockClient

/-! ## Exceptions that leave `_call_bedrock` -/

section
variable (call : Call T) (c : BedrockClient T)

/-- An exception leaves `_call_bedrock`: one that is not caught, or there is no client. -/
def Escapes : Prop :=
  if c.client then firstAnswer c.maxRetries call.aws = some (.error .other) else 0 ≤ c.maxRetries

instance : Decidable (c.Escapes call) := by
  unfold Escapes
  infer_instance

/-- What `_call_bedrock` does in the call. -/
def called : Called := callBedrock c.maxRetries call.command c.client call.aws

theorem called_escapes (h : c.Escapes call) : (c.called call).result = .error .other := by
  unfold called
  unfold Escapes at h
  cases hclient : c.client with
  | true =>
    rw [hclient, if_pos rfl] at h
    rw [callBedrock_result, h]
    rfl
  | false =>
    rw [hclient, if_neg Bool.false_ne_true] at h
    rw [callBedrock_of_gone, if_neg (not_lt.mpr h)]

theorem called_ok (h : ¬c.Escapes call) : ∃ text, (c.called call).result = .ok text := by
  unfold called
  unfold Escapes at h
  cases hclient : c.client with
  | true =>
    rw [hclient, if_pos rfl] at h
    rw [callBedrock_result]
    cases hfirst : firstAnswer c.maxRetries call.aws with
    | none => exact ⟨_, rfl⟩
    | some answer =>
      cases answer with
      | ok blocks => exact ⟨_, rfl⟩
      | error err =>
        cases err with
        | clientError code => exact ⟨_, rfl⟩
        | endpointConnectionError => exact ⟨_, rfl⟩
        | botoCoreError => exact ⟨_, rfl⟩
        | other => exact absurd hfirst h
  | false =>
    rw [hclient, if_neg Bool.false_ne_true] at h
    rw [callBedrock_of_gone, if_pos (not_le.mp h)]
    exact ⟨_, rfl⟩

end

/-! ## The parts of a call -/

variable [AddCommGroup T] [LinearOrder T]

def record (outcome : CallOutcome) (latencyMs : T) (c : BedrockClient T) : BedrockClient T :=
  { c with stats := c.stats.record outcome latencyMs }

/-- The call times out. -/
def timesOut (call : Call T) (c : BedrockClient T) : Bool := c.timeoutSeconds ≠ 0 && call.late

/-- `_call_bedrock_with_timeout`. -/
def callBedrockWithTimeout (call : Call T) (c : BedrockClient T) : Except Raised String × BedrockClient T :=
  let called := c.called call
  if c.timesOut call then
    (.ok (fallbackResponse call.command),
      { c.record .timeout (1000 • c.timeoutSeconds) with client := called.client })
  else (called.result, { c with client := called.client })

/-- The response of Bedrock. -/
def ask (call : Call T) (c : BedrockClient T) : Except Raised String × BedrockClient T :=
  if c.streaming then (.ok (callBedrockStreaming call.command c.client call.events call.breaks), c)
  else c.callBedrockWithTimeout call

/-- The cache, looked up. -/
def look (now : T) (key : String) (c : BedrockClient T) : Option String × BedrockClient T :=
  match c.cache with
  | none => (none, c)
  | some cache => ((cache.get now key).1, { c with cache := some (cache.get now key).2 })

/-- The response, stored. -/
def store (now : T) (key value : String) (c : BedrockClient T) : BedrockClient T :=
  { c with cache := c.cache.map (ResponseCache.put now key value) }

/-- `_get_response_sync`. -/
def getResponseSync (sha256 : String → String) (call : Call T) (c : BedrockClient T) :
    Except Raised String × BedrockClient T :=
  let key := buildCacheKey sha256 call.command call.cwd call.username call.hostname
  let latencyMs := 1000 • (call.t1 - call.t0)
  let looked := c.look call.lookup key
  match looked.1 with
  | some cached => (.ok cached, looked.2.record .hit latencyMs)
  | none =>
    let asked := looked.2.ask call
    match asked.1 with
    | .ok result => (.ok result, (asked.2.store call.stored key result).record .miss latencyMs)
    | .error err => (.error err, asked.2)

/-- `get_response`: with the empty text for an error. -/
def getResponse (sha256 : String → String) (call : Call T) (c : BedrockClient T) : String × BedrockClient T :=
  match c.getResponseSync sha256 call with
  | (.ok result, c') => (result, c')
  | (.error _, c') => ("", c')

/-! ## What a call does -/

section
variable (sha256 : String → String) (call : Call T) (c : BedrockClient T)

/-- Where the call finds its response. -/
def key : String := buildCacheKey sha256 call.command call.cwd call.username call.hostname

/-- The cache has the response. -/
def Hits : Prop := (c.look call.lookup (key sha256 call)).1.isSome = true

instance : Decidable (c.Hits sha256 call) := inferInstanceAs (Decidable (_ = true))

end

/-- The client after a call of `_call_bedrock`. -/
def asked (call : Call T) (c : BedrockClient T) : BedrockClient T := { c with client := (c.called call).client }

/-- A response of Bedrock, stored and recorded. -/
def missed (sha256 : String → String) (call : Call T) (result : String) (c : BedrockClient T) : BedrockClient T :=
  (c.store call.stored (key sha256 call) result).record .miss (1000 • (call.t1 - call.t0))

/-- What a call can do. -/
inductive Answered (sha256 : String → String) (c : BedrockClient T) (call : Call T) :
    String → BedrockClient T → Prop
  | hit {cached : String} (h : (c.look call.lookup (key sha256 call)).1 = some cached) :
    Answered sha256 c call cached
      ((c.look call.lookup (key sha256 call)).2.record .hit (1000 • (call.t1 - call.t0)))
  | streamed (h : ¬c.Hits sha256 call) (hstreaming : c.streaming = true) :
    Answered sha256 c call (callBedrockStreaming call.command c.client call.events call.breaks)
      ((c.look call.lookup (key sha256 call)).2.missed sha256 call
        (callBedrockStreaming call.command c.client call.events call.breaks))
  | timedOut (h : ¬c.Hits sha256 call) (hstreaming : c.streaming = false) (htimes : c.timesOut call = true) :
    Answered sha256 c call (fallbackResponse call.command)
      ((((c.look call.lookup (key sha256 call)).2.asked call).record .timeout (1000 • c.timeoutSeconds)).missed
        sha256 call (fallbackResponse call.command))
  | returned {text : String} (h : ¬c.Hits sha256 call) (hstreaming : c.streaming = false)
      (htimes : c.timesOut call = false) (hescapes : ¬c.Escapes call)
      (htext : (c.called call).result = .ok text) :
    Answered sha256 c call text
      (((c.look call.lookup (key sha256 call)).2.asked call).missed sha256 call text)
  | raised (h : ¬c.Hits sha256 call) (hstreaming : c.streaming = false) (htimes : c.timesOut call = false)
      (hescapes : c.Escapes call) :
    Answered sha256 c call "" ((c.look call.lookup (key sha256 call)).2.asked call)

/-- A lookup changes the cache only. -/
theorem look_eq (now : T) (key : String) (c : BedrockClient T) :
    ∃ cache, (c.look now key).2 = { c with cache := cache } := by
  obtain ⟨maxRetries, timeoutSeconds, streaming, cache, stats, client⟩ := c
  cases cache with
  | none => exact ⟨none, rfl⟩
  | some cache => exact ⟨_, rfl⟩

section
variable {sha256 : String → String} {call : Call T} {c c' : BedrockClient T}

theorem getResponse_of_hit {cached : String} (h : (c.look call.lookup (key sha256 call)).1 = some cached) :
    c.getResponse sha256 call =
      (cached, (c.look call.lookup (key sha256 call)).2.record .hit (1000 • (call.t1 - call.t0))) := by
  unfold getResponse getResponseSync
  unfold key at h ⊢
  simp only [h]

/-- A miss, where Bedrock gives a response. -/
theorem getResponse_of_ok (h : ¬c.Hits sha256 call) {result : String}
    (hasked : (c.look call.lookup (key sha256 call)).2.ask call = (.ok result, c')) :
    c.getResponse sha256 call = (result, c'.missed sha256 call result) := by
  have hnone : (c.look call.lookup (key sha256 call)).1 = none := by simpa [Hits] using h
  unfold getResponse getResponseSync missed
  unfold key at hnone hasked ⊢
  simp only [hnone, hasked]

/-- A miss, where an exception is raised. -/
theorem getResponse_of_error (h : ¬c.Hits sha256 call) {err : Raised}
    (hasked : (c.look call.lookup (key sha256 call)).2.ask call = (.error err, c')) :
    c.getResponse sha256 call = ("", c') := by
  have hnone : (c.look call.lookup (key sha256 call)).1 = none := by simpa [Hits] using h
  unfold getResponse getResponseSync
  unfold key at hnone hasked
  simp only [hnone, hasked]

end

/-- **What a call can do.** -/
theorem getResponse_cases (sha256 : String → String) (c : BedrockClient T) (call : Call T) :
    Answered sha256 c call (c.getResponse sha256 call).1 (c.getResponse sha256 call).2 := by
  obtain ⟨cache, hlooked⟩ := look_eq call.lookup (key sha256 call) c
  by_cases hhit : c.Hits sha256 call
  · obtain ⟨cached, hcached⟩ := Option.isSome_iff_exists.mp hhit
    rw [getResponse_of_hit hcached]
    exact .hit hcached
  · cases hstreaming : c.streaming with
    | true =>
      have hasked : (c.look call.lookup (key sha256 call)).2.ask call =
          (.ok (callBedrockStreaming call.command c.client call.events call.breaks),
            (c.look call.lookup (key sha256 call)).2) := by
        rw [hlooked]
        exact if_pos hstreaming
      rw [getResponse_of_ok hhit hasked]
      exact .streamed hhit hstreaming
    | false =>
      have hask : (c.look call.lookup (key sha256 call)).2.ask call =
          (c.look call.lookup (key sha256 call)).2.callBedrockWithTimeout call := by
        rw [hlooked]
        exact if_neg (by simp [hstreaming])
      cases htimes : c.timesOut call with
      | true =>
        have hasked := hask.trans (if_pos (by rw [hlooked]; exact htimes))
        rw [getResponse_of_ok hhit hasked]
        exact hlooked ▸ .timedOut hhit hstreaming htimes
      | false =>
        have hasked : (c.look call.lookup (key sha256 call)).2.ask call =
            ((c.called call).result, (c.look call.lookup (key sha256 call)).2.asked call) := by
          refine hask.trans ((if_neg ?_).trans ?_)
          · rw [hlooked]
            simpa [timesOut] using htimes
          · rw [hlooked]
            rfl
        by_cases hescapes : c.Escapes call
        · rw [c.called_escapes call hescapes] at hasked
          rw [getResponse_of_error hhit hasked]
          exact .raised hhit hstreaming htimes hescapes
        · obtain ⟨text, htext⟩ := c.called_ok call hescapes
          rw [htext] at hasked
          rw [getResponse_of_ok hhit hasked]
          exact .returned hhit hstreaming htimes hescapes htext

end BedrockClient

end Cowrie.Llm
