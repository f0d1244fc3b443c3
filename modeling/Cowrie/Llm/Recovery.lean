import Cowrie.Llm.Bedrock

/-!
# A client that is lost (`src/cowrie/llm/bedrock.py:332-399, 441-509`)

Calls of `get_response` with the cache off. An `EndpointConnectionError` resets `_client`, and nothing creates
another one: from then on every attempt raises an `AttributeError`, which `_on_error` turns into the empty text.

* `Foreseen`: what AWS does in the call is one of text, `ClientError`, `EndpointConnectionError` and
  `BotoCoreError`; a stream breaks before its first text or not at all.
* `modelText`, `expected`: the text of AWS, where an attempt in the budget succeeds in time, else the fallback.
* `Served`: there is a client, or the call does not depend on one.

Results:
* `client_getResponse`: what becomes of the client.
* **`recovers_iff`**: every call returns what is expected iff every call is served.
* **`recovers_lost`**: a call after an `EndpointConnectionError` returns the empty text.
-/

namespace Cowrie.Llm

open Lib

variable {T : Type}

/-! ## The fallback -/

theorem toList_fallbackResponse (command : String) : ∃ middle,
    (fallbackResponse command).toList = '-' :: middle ++ ['d'] := by
  refine ⟨"bash: ".toList ++ ((splitBlanks command).head?.getD command).toList ++ ": command not foun".toList, ?_⟩
  unfold fallbackResponse
  simp only [String.toList_append]
  have hstart : "-bash: ".toList = '-' :: "bash: ".toList := rfl
  have hend : ": command not found".toList = ": command not foun".toList ++ ['d'] := rfl
  rw [hstart, hend]
  simp only [List.cons_append, List.append_assoc]

theorem fallbackResponse_ne_empty (command : String) : fallbackResponse command ≠ "" := by
  obtain ⟨middle, hmiddle⟩ := toList_fallbackResponse command
  intro heq
  rw [heq] at hmiddle
  cases hmiddle

/-- There is no blank around it. -/
theorem stripBlanks_fallbackResponse (command : String) :
    stripBlanks (fallbackResponse command) = fallbackResponse command := by
  obtain ⟨middle, hmiddle⟩ := toList_fallbackResponse command
  have hfirst : isBlank '-' = false := by decide
  have hlast : isBlank 'd' = false := by decide
  unfold stripBlanks
  rw [hmiddle, List.cons_append, List.dropWhile_cons_of_neg (by simp [hfirst]), ← List.cons_append,
    List.reverse_append, List.reverse_singleton, List.singleton_append,
    List.dropWhile_cons_of_neg (by simp [hlast]), ← List.singleton_append, List.reverse_append,
    List.reverse_reverse, List.reverse_singleton, ← hmiddle, String.ofList_toList]

/-! ## What is expected -/

/-- The first attempt in the budget that is not throttled succeeds. -/
def modelText (maxRetries : Int) (aws : Nat → Converse) : Option String :=
  match firstAnswer maxRetries aws with
  | some (.ok blocks) => some (blocksText blocks)
  | _ => none

/-- What AWS does is one of the kinds that are caught. -/
def Call.Foreseen (call : Call T) : Prop :=
  (∀ n, call.aws n ≠ .error .other) ∧
    ((readStream call.breaks call.events).2 = true → (readStream call.breaks call.events).1 = [])

/-- No attempt that counts raises anything else. -/
theorem Call.Foreseen.firstAnswer {call : Call T} (h : call.Foreseen) (maxRetries : Int) :
    firstAnswer maxRetries call.aws ≠ some (.error .other) := by
  intro hfirst
  obtain ⟨n, -, hn⟩ := List.mem_map.mp (List.mem_of_find?_eq_some hfirst)
  exact h.1 n hn

/-- What `_call_bedrock` gives, with a client. -/
theorem BedrockClient.called_eq {c : BedrockClient T} {call : Call T} (hclient : c.client = true)
    (hforeseen : call.Foreseen) :
    (c.called call).result =
      .ok ((modelText c.maxRetries call.aws).getD (fallbackResponse call.command)) := by
  have hother := hforeseen.firstAnswer c.maxRetries
  unfold called modelText
  rw [hclient, callBedrock_result]
  cases hfirst : firstAnswer c.maxRetries call.aws with
  | none => rfl
  | some answer =>
    cases answer with
    | ok blocks => rfl
    | error err =>
      cases err with
      | clientError code => rfl
      | endpointConnectionError => rfl
      | botoCoreError => rfl
      | other => exact absurd hfirst hother

/-- What `_call_bedrock_streaming` gives, with a client. -/
theorem callBedrockStreaming_eq {call : Call T} (hforeseen : call.Foreseen) :
    callBedrockStreaming call.command true call.events call.breaks =
      if (readStream call.breaks call.events).2 then fallbackResponse call.command
      else stripBlanks (String.join (readStream call.breaks call.events).1) := by
  unfold callBedrockStreaming
  simp only [if_true]
  cases hbreaks : (readStream call.breaks call.events).2 with
  | true =>
    rw [hforeseen.2 hbreaks]
    exact stripBlanks_fallbackResponse call.command
  | false => exact congrArg (fun texts => stripBlanks (String.join texts)) (List.append_nil _)

namespace BedrockClient

variable [AddCommGroup T] [LinearOrder T] {sha256 : String → String}

/-- The text of AWS where it succeeds in time, else the fallback. -/
def expected (c : BedrockClient T) (call : Call T) : String :=
  if c.streaming then
    if (readStream call.breaks call.events).2 then fallbackResponse call.command
    else stripBlanks (String.join (readStream call.breaks call.events).1)
  else if c.timesOut call then fallbackResponse call.command
  else (modelText c.maxRetries call.aws).getD (fallbackResponse call.command)

/-- The call returns what is expected. -/
def Recovers (sha256 : String → String) (c : BedrockClient T) (call : Call T) : Prop :=
  (c.getResponse sha256 call).1 = c.expected call

instance (c : BedrockClient T) (call : Call T) : Decidable (Recovers sha256 c call) :=
  inferInstanceAs (Decidable (_ = _))

/-- There is a client; or the call makes no attempt, or gives up waiting for it, or its text is empty. -/
def Served (c : BedrockClient T) (call : Call T) : Prop :=
  c.client = true ∨ c.maxRetries < 0 ∨ c.timesOut call = true ∨ modelText c.maxRetries call.aws = some ""

instance (c : BedrockClient T) (call : Call T) : Decidable (Served c call) := by
  unfold Served
  infer_instance

/-! ## One call -/

/-- The cache is off, and a client that streams is there. -/
structure Uncached (c : BedrockClient T) : Prop where
  cache : c.cache = none
  client : c.streaming = true → c.client = true

theorem look_of_uncached {c : BedrockClient T} (hc : c.Uncached) (now : T) (key : String) :
    c.look now key = (none, c) := by
  unfold look
  rw [hc.cache]

omit [LinearOrder T] in
theorem missed_of_uncached {c : BedrockClient T} (hcache : c.cache = none) (call : Call T) (text : String) :
    ∃ stats, c.missed sha256 call text = { c with stats := stats } := by
  obtain ⟨maxRetries, timeoutSeconds, streaming, cache, stats, client⟩ := c
  obtain rfl : cache = none := hcache
  exact ⟨_, rfl⟩

/-- What a call leaves: other statistics, and what `_call_bedrock` left of the client. -/
theorem getResponse_leaves {c : BedrockClient T} (hc : c.Uncached) (call : Call T) :
    ∃ stats, (c.getResponse sha256 call).2 =
      { c with stats := stats, client := if c.streaming then c.client else (c.called call).client } := by
  have hcases := getResponse_cases sha256 c call
  generalize (c.getResponse sha256 call).1 = result at hcases
  generalize (c.getResponse sha256 call).2 = c' at hcases ⊢
  have hlook := look_of_uncached hc call.lookup (key sha256 call)
  cases hcases with
  | hit h =>
    rw [hlook] at h
    cases h
  | streamed h hstreaming =>
    rw [hlook, if_pos hstreaming]
    exact missed_of_uncached hc.cache call _
  | timedOut h hstreaming htimes =>
    rw [hlook, if_neg (by simp [hstreaming])]
    exact missed_of_uncached (c := (c.asked call).record .timeout (1000 • c.timeoutSeconds)) hc.cache call _
  | returned h hstreaming htimes hescapes htext =>
    rw [hlook, if_neg (by simp [hstreaming])]
    exact missed_of_uncached (c := c.asked call) hc.cache call _
  | raised h hstreaming htimes hescapes =>
    rw [hlook, if_neg (by simp [hstreaming])]
    exact ⟨c.stats, rfl⟩

/-- **What becomes of the client**: it is lost to an `EndpointConnectionError`, for good. -/
theorem client_getResponse {c : BedrockClient T} (hc : c.Uncached) (call : Call T) :
    (c.getResponse sha256 call).2.client =
      (c.client && (c.streaming ||
        decide (firstAnswer c.maxRetries call.aws ≠ some (.error .endpointConnectionError)))) := by
  obtain ⟨stats, hleaves⟩ := getResponse_leaves hc call
  rw [hleaves]
  unfold called
  cases hstreaming : c.streaming with
  | true => simp
  | false =>
    cases hclient : c.client with
    | true => simpa using callBedrock_client
    | false => simp [callBedrock_of_gone]

theorem Uncached.step {c : BedrockClient T} (hc : c.Uncached) (call : Call T) :
    (c.getResponse sha256 call).2.Uncached := by
  obtain ⟨stats, hleaves⟩ := getResponse_leaves hc call
  rw [hleaves]
  exact ⟨hc.cache, fun hstreaming => (if_pos hstreaming).trans (hc.client hstreaming)⟩

/-- **A call returns what is expected iff it is served.** -/
theorem recovers_iff_served {c : BedrockClient T} (hc : c.Uncached) {call : Call T} (hforeseen : call.Foreseen) :
    Recovers sha256 c call ↔ Served c call := by
  have hcases := getResponse_cases sha256 c call
  unfold Recovers expected
  generalize (c.getResponse sha256 call).1 = result at hcases ⊢
  generalize (c.getResponse sha256 call).2 = c' at hcases
  cases hcases with
  | hit h =>
    rw [look_of_uncached hc] at h
    cases h
  | streamed h hstreaming =>
    have hclient := hc.client hstreaming
    rw [if_pos hstreaming, hclient]
    exact iff_of_true (callBedrockStreaming_eq hforeseen) (.inl hclient)
  | timedOut h hstreaming htimes =>
    rw [if_neg (by simp [hstreaming]), if_pos htimes]
    exact iff_of_true rfl (.inr (.inr (.inl htimes)))
  | returned h hstreaming htimes hescapes htext =>
    rw [if_neg (by simp [hstreaming]), if_neg (by simp [htimes])]
    cases hclient : c.client with
    | true =>
      rw [called_eq hclient hforeseen] at htext
      exact iff_of_true (Except.ok.inj htext).symm (.inl hclient)
    | false =>
      -- no attempt is made
      have hneg : c.maxRetries < 0 := by simpa [Escapes, hclient] using hescapes
      have hnone : modelText c.maxRetries call.aws = none := by
        have hrange : (c.maxRetries + 1).toNat = 0 := by omega
        unfold modelText firstAnswer
        rw [hrange]
        rfl
      unfold called at htext
      rw [hclient, callBedrock_of_gone, if_pos hneg] at htext
      rw [hnone]
      exact iff_of_true (Except.ok.inj htext).symm (.inr (.inl hneg))
  | raised h hstreaming htimes hescapes =>
    rw [if_neg (by simp [hstreaming]), if_neg (by simp [htimes])]
    cases hclient : c.client with
    | true =>
      rw [Escapes, hclient, if_pos rfl] at hescapes
      exact absurd hescapes (hforeseen.firstAnswer c.maxRetries)
    | false =>
      have hbudget : 0 ≤ c.maxRetries := by simpa [Escapes, hclient] using hescapes
      have hserved : Served c call ↔ modelText c.maxRetries call.aws = some "" := by
        simp [Served, hclient, htimes, not_lt.mpr hbudget]
      rw [hserved]
      cases htext : modelText c.maxRetries call.aws with
      | none => exact iff_of_false (fallbackResponse_ne_empty call.command).symm (by simp)
      | some text => exact ⟨fun heq => congrArg some heq.symm, fun heq => (Option.some.inj heq).symm⟩

/-! ## Every run -/

/-- The next call, one whose outcomes are foreseen. -/
def next (sha256 : String → String) (c : BedrockClient T) (call : {call : Call T // call.Foreseen}) :
    Option (BedrockClient T) :=
  some (c.getResponse sha256 call.1).2

/-- **Every call returns what is expected iff every call is served.** -/
theorem recovers_iff {c : BedrockClient T} (hcache : c.cache = none) (hclient : c.client = true)
    (calls : List {call : Call T // call.Foreseen}) :
    StepsMeet (next sha256) (fun c call => Recovers sha256 c call.1) c calls ↔
      StepsMeet (next sha256) (fun c call => Served c call.1) c calls := by
  have hc : c.Uncached := ⟨hcache, fun _ => hclient⟩
  refine stepsMeet_iff_of_inv (fun c call c' hc _ hstep => ?_) (fun c call hc => recovers_iff_served hc call.2) hc
  obtain rfl := Option.some.inj hstep
  exact hc.step call.1

/-- A client with the cache off. -/
def uncached : BedrockClient Int := { timeoutSeconds := 10, cache := none, stats := { totalLatencyMs := 0 } }

/-- A call for which AWS does the same at every attempt. -/
def constantly (answer : Converse) : Call Int :=
  { command := "ls", hostname := "svr04", username := "root", cwd := "~", t0 := 0, lookup := 0, t1 := 1,
    stored := 1, aws := fun _ => answer }

theorem foreseen_constantly {answer : Converse} (h : answer ≠ .error .other) : (constantly answer).Foreseen :=
  ⟨fun _ => h, fun hbreaks => Bool.noConfusion hbreaks⟩

/-- The text of AWS, after a call that was throttled. -/
theorem recovers_iff_throttled : StepsMeet (next id) (fun c call => Recovers id c call.1) uncached
    [⟨constantly (.error (.clientError "ThrottlingException")), foreseen_constantly (by decide)⟩,
      ⟨constantly (.ok [some "bin"]), foreseen_constantly (by decide)⟩] :=
  (recovers_iff rfl rfl _).mpr (by decide +kernel)

/-- **A call after an `EndpointConnectionError`** returns the empty text, whatever AWS would do. -/
theorem recovers_lost : ¬StepsMeet (next id) (fun c call => Recovers id c call.1) uncached
    [⟨constantly (.error .endpointConnectionError), foreseen_constantly (by decide)⟩,
      ⟨constantly (.ok [some "bin"]), foreseen_constantly (by decide)⟩] := by
  decide +kernel

end BedrockClient

end Cowrie.Llm
