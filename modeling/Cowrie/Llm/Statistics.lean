import Cowrie.Llm.Bedrock

/-!
# The statistics of the Bedrock client (`src/cowrie/llm/bedrock.py:96-139, 384-509`)

Calls of `get_response`, one after the other. A call is recorded on the hit path, where an attempt timed out, and
at the end of the miss path, which a call that timed out reaches as well; a call that raises reaches none.

* `AddUp`: `total_calls` is the sum of the other counters. Every `record` keeps this.
* `recorded`: how often a call is recorded; `Once` says when it is once.

Results:
* **`counted_iff`**: every call counts as one, and the counters add up, iff every call is a hit, streams, or
  neither times out nor raises.
* **`counted_twice`**: a call that times out counts as two.
-/

namespace Cowrie.Llm

open Lib

variable {T : Type}

/-- The counters add up. -/
def LatencyStats.AddUp (stats : LatencyStats T) : Prop :=
  stats.totalCalls = stats.cacheHits + stats.cacheMisses + stats.timeouts + stats.errors

instance (stats : LatencyStats T) : Decidable stats.AddUp := inferInstanceAs (Decidable (_ = _))

@[simp] theorem LatencyStats.totalCalls_record [Add T] (outcome : CallOutcome) (latencyMs : T)
    (stats : LatencyStats T) : (stats.record outcome latencyMs).totalCalls = stats.totalCalls + 1 := by
  cases outcome <;> rfl

theorem LatencyStats.AddUp.record [Add T] {stats : LatencyStats T} (h : stats.AddUp) (outcome : CallOutcome)
    (latencyMs : T) : (stats.record outcome latencyMs).AddUp := by
  unfold AddUp at h ⊢
  cases outcome <;> simp only [LatencyStats.record] <;> omega

namespace BedrockClient

variable [AddCommGroup T] [LinearOrder T] {sha256 : String → String}

/-- The next call. -/
def step (sha256 : String → String) (c : BedrockClient T) (call : Call T) : Option (BedrockClient T) :=
  some (c.getResponse sha256 call).2

/-- The call is recorded once. -/
def Once (sha256 : String → String) (c : BedrockClient T) (call : Call T) : Prop :=
  c.Hits sha256 call ∨ c.streaming = true ∨ (c.timesOut call = false ∧ ¬c.Escapes call)

instance (c : BedrockClient T) (call : Call T) : Decidable (Once sha256 c call) := by
  unfold Once
  infer_instance

/-- How often a call is recorded. -/
def recorded (sha256 : String → String) (c : BedrockClient T) (call : Call T) : Nat :=
  if c.Hits sha256 call ∨ c.streaming = true then 1
  else if c.timesOut call then 2
  else if c.Escapes call then 0
  else 1

theorem recorded_eq_one_iff (c : BedrockClient T) (call : Call T) :
    recorded sha256 c call = 1 ↔ Once sha256 c call := by
  unfold recorded Once
  split_ifs with hdirect htimes hescapes
  · exact iff_of_true rfl (hdirect.elim .inl fun h => .inr (.inl h))
  · simp_all
  · simp_all
  · simp_all

theorem look_stats (now : T) (key : String) (c : BedrockClient T) : (c.look now key).2.stats = c.stats := by
  obtain ⟨cache, hlooked⟩ := look_eq now key c
  rw [hlooked]

/-- **How often a call is recorded.** -/
theorem totalCalls_getResponse (c : BedrockClient T) (call : Call T) :
    (c.getResponse sha256 call).2.stats.totalCalls = c.stats.totalCalls + recorded sha256 c call := by
  have hcases := getResponse_cases sha256 c call
  have hlook := look_stats call.lookup (key sha256 call) c
  unfold recorded
  generalize (c.getResponse sha256 call).1 = result at hcases
  generalize (c.getResponse sha256 call).2 = c' at hcases ⊢
  cases hcases with
  | hit h =>
    rw [if_pos (.inl (by simp [Hits, h]))]
    exact (LatencyStats.totalCalls_record _ _ _).trans (by rw [hlook])
  | streamed h hstreaming =>
    rw [if_pos (.inr hstreaming)]
    exact (LatencyStats.totalCalls_record _ _ _).trans (congrArg (· + 1) (congrArg _ hlook))
  | timedOut h hstreaming htimes =>
    rw [if_neg (by simp [h, hstreaming]), if_pos htimes]
    refine (LatencyStats.totalCalls_record _ _ _).trans (congrArg (· + 1) ?_)
    exact (LatencyStats.totalCalls_record _ _ _).trans (congrArg (· + 1) (congrArg _ hlook))
  | returned h hstreaming htimes hescapes htext =>
    rw [if_neg (by simp [h, hstreaming]), if_neg (by simp [htimes]), if_neg hescapes]
    exact (LatencyStats.totalCalls_record _ _ _).trans (congrArg (· + 1) (congrArg _ hlook))
  | raised h hstreaming htimes hescapes =>
    rw [if_neg (by simp [h, hstreaming]), if_neg (by simp [htimes]), if_pos hescapes]
    exact congrArg LatencyStats.totalCalls hlook

/-- Every call keeps the counters adding up. -/
theorem addUp_getResponse {c : BedrockClient T} (hc : c.stats.AddUp) (call : Call T) :
    (c.getResponse sha256 call).2.stats.AddUp := by
  have hcases := getResponse_cases sha256 c call
  have hlook : (c.look call.lookup (key sha256 call)).2.stats.AddUp := look_stats _ _ c ▸ hc
  generalize (c.getResponse sha256 call).1 = result at hcases
  generalize (c.getResponse sha256 call).2 = c' at hcases ⊢
  cases hcases with
  | hit h => exact hlook.record _ _
  | streamed h hstreaming => exact hlook.record _ _
  | timedOut h hstreaming htimes => exact (LatencyStats.AddUp.record hlook .timeout _).record _ _
  | returned h hstreaming htimes hescapes htext => exact hlook.record _ _
  | raised h hstreaming htimes hescapes => exact hlook

/-- The call counts as one. -/
def CountsOne (sha256 : String → String) (c : BedrockClient T) (call : Call T) : Prop :=
  (c.getResponse sha256 call).2.stats.totalCalls = c.stats.totalCalls + 1

instance (c : BedrockClient T) (call : Call T) : Decidable (CountsOne sha256 c call) :=
  inferInstanceAs (Decidable (_ = _))

/-- **Every call counts as one, and the counters add up, iff every call is recorded once.** -/
theorem counted_iff {c : BedrockClient T} (hc : c.stats.AddUp) (calls : List (Call T)) :
    (StepsMeet (step sha256) (CountsOne sha256) c calls ∧
        StatesMeet (step sha256) (fun c => c.stats.AddUp) c calls) ↔
      StepsMeet (step sha256) (Once sha256) c calls := by
  have hadd : StatesMeet (step sha256) (fun c => c.stats.AddUp) c calls := by
    refine statesMeet_of_inv (fun c call c' hc _ hstep => ?_) hc (stepsMeet_true c calls)
    obtain rfl := Option.some.inj hstep
    exact addUp_getResponse hc call
  rw [and_iff_left hadd]
  have hone : ∀ (c : BedrockClient T) (call : Call T), CountsOne sha256 c call ↔ Once sha256 c call := by
    intro c call
    rw [← recorded_eq_one_iff]
    unfold CountsOne
    rw [totalCalls_getResponse]
    exact Nat.add_left_cancel_iff
  exact ⟨stepsMeet_mono fun c call => (hone c call).mp, stepsMeet_mono fun c call => (hone c call).mpr⟩

/-- A client with its defaults, before its first call. -/
def new : BedrockClient Int :=
  { timeoutSeconds := 10, cache := some { maxEntries := 1000, ttlSeconds := 3600 },
    stats := { totalLatencyMs := 0 } }

/-- A call that takes a while, and is answered `bin`. -/
def listing (took : Int) (late : Bool) : Call Int :=
  { command := "ls", hostname := "svr04", username := "root", cwd := "~", t0 := 0, lookup := 0, t1 := took,
    stored := took, aws := fun _ => .ok [some "bin"], late := late }

/-- A miss and a hit. -/
theorem counted_iff_hit : StepsMeet (step id) (CountsOne id) new [listing 1 false, listing 0 true] :=
  ((counted_iff (by decide) _).mpr (by decide +kernel)).1

/-- **A call that times out counts as two.** -/
theorem counted_twice :
    ¬(StepsMeet (step id) (CountsOne id) new [listing 11 true] ∧
      StatesMeet (step id) (fun c => c.stats.AddUp) new [listing 11 true]) := by
  decide +kernel

end BedrockClient

end Cowrie.Llm
