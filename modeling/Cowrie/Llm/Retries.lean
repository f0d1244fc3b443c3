import Cowrie.Llm.Bedrock

/-!
# The retries of `_call_bedrock` (`src/cowrie/llm/bedrock.py:355-382`)

What the attempts come to is an unbounded sequence of outcomes, of the kinds that the code tells apart. The
back-off between two attempts returns; from the thirty-sixth in a row on, after more than five hundred years of
waiting, it would be longer than a clock of the platform can count.

* `Outcome`: what an attempt comes to; an `otherError` has any code but that of throttling.
* `SucceedsAt`: the attempt gives a text, and all before it are throttled.

Results:
* `attempts_invoked`: what is asked of the API, from any attempt of the loop on.
* **`callBedrock_retries`**: how often, when again, and what is returned.
-/

namespace Cowrie.Llm

/-- What an attempt comes to. -/
inductive Outcome
  | text (blocks : List (Option String))
  | throttled
  | otherError (code : String) (ne_throttling : code ≠ "ThrottlingException")
  | connectionError
  | botoError

/-- What `converse` does then. -/
def Outcome.converse : Outcome → Converse
  | .text blocks => .ok blocks
  | .throttled => .error (.clientError "ThrottlingException")
  | .otherError code _ => .error (.clientError code)
  | .connectionError => .error .endpointConnectionError
  | .botoError => .error .botoCoreError

variable {maxRetries : Nat} {command : String} {outcomes : Nat → Outcome} {blocks : List (Option String)}

/-- The first attempt that is not throttled is number `k`, and it gives a text. -/
def SucceedsAt (outcomes : Nat → Outcome) (k : Nat) (blocks : List (Option String)) : Prop :=
  outcomes k = .text blocks ∧ ∀ j < k, outcomes j = .throttled

theorem Outcome.converse_throttled_iff {outcome : Outcome} :
    outcome.converse = .error (.clientError "ThrottlingException") ↔ outcome = .throttled := by
  cases outcome with
  | otherError code hcode => simp [converse, hcode]
  | text blocks => simp [converse]
  | throttled => simp [converse]
  | connectionError => simp [converse]
  | botoError => simp [converse]

/-! ## What the API is asked -/

/-- By induction on the attempts that are left: each is asked about once, up to the first that is not throttled. -/
theorem attempts_invoked (command : String) (outcomes : Nat → Outcome) (first : Nat) {m : Nat}
    (h : first + m = maxRetries + 1) :
    ∃ n ≤ m, (attempts maxRetries command true (fun k => (outcomes k).converse) (List.range' first m)).invoked =
        (List.range' first n).map (fun k => (outcomes k).converse) ∧
      ∀ k, first ≤ k → k + 1 < first + n → outcomes k = .throttled := by
  induction m generalizing first with
  | zero => exact ⟨0, Nat.le_refl 0, rfl, fun k _ _ => by omega⟩
  | succ m ih =>
    rw [List.range'_succ]
    unfold attempts
    have hlast : ∃ n ≤ m + 1, [(outcomes first).converse] =
          (List.range' first n).map (fun k => (outcomes k).converse) ∧
        ∀ k, first ≤ k → k + 1 < first + n → outcomes k = .throttled :=
      ⟨1, by omega, rfl, fun k _ _ => by omega⟩
    cases hfirst : outcomes first with
    | text blocks => simpa [callBedrockOnce, Outcome.converse, hfirst] using hlast
    | otherError code hcode => simpa [callBedrockOnce, Outcome.converse, hfirst, hcode] using hlast
    | connectionError => simpa [callBedrockOnce, Outcome.converse, hfirst] using hlast
    | botoError => simpa [callBedrockOnce, Outcome.converse, hfirst] using hlast
    | throttled =>
      by_cases hbudget : first < maxRetries
      · -- the only attempt that another one follows
        obtain ⟨n, hn, hinvoked, hthrottled⟩ := ih (first + 1) (by omega)
        refine ⟨n + 1, by omega, ?_, fun k hk hlt => ?_⟩
        · simpa [callBedrockOnce, Outcome.converse, hbudget, hfirst, List.range'_succ] using hinvoked
        · rcases Nat.eq_or_lt_of_le hk with rfl | hk
          · exact hfirst
          · exact hthrottled k hk (by omega)
      · simpa [callBedrockOnce, Outcome.converse, hfirst, hbudget] using hlast

/-! ## What is returned -/

/-- The first attempt in the budget that is not throttled. -/
theorem firstAnswer_eq : firstAnswer maxRetries (fun k => (outcomes k).converse) =
    ((List.range (maxRetries + 1)).find? fun k =>
      (outcomes k).converse ≠ .error (.clientError "ThrottlingException")).map fun k => (outcomes k).converse := by
  unfold firstAnswer
  have hbudget : ((maxRetries : Int) + 1).toNat = maxRetries + 1 := by omega
  rw [hbudget, List.find?_map]
  rfl

theorem firstAnswer_of_succeedsAt {k : Nat} (hk : k ≤ maxRetries) (h : SucceedsAt outcomes k blocks) :
    firstAnswer maxRetries (fun k => (outcomes k).converse) = some (.ok blocks) := by
  have hfind : ((List.range (maxRetries + 1)).find? fun k =>
      (outcomes k).converse ≠ .error (.clientError "ThrottlingException")) = some k := by
    rw [List.find?_range_eq_some]
    refine ⟨?_, List.mem_range.mpr (by omega), fun j hj => ?_⟩
    · simp [h.1, Outcome.converse]
    · simp [h.2 j hj, Outcome.converse]
  rw [firstAnswer_eq, hfind, Option.map_some, h.1]
  rfl

/-- An attempt that counts, and is neither throttled nor successful, ends in the fallback. -/
theorem answered_of_not_succeedsAt (h : ∀ k ≤ maxRetries, ∀ blocks, ¬ SucceedsAt outcomes k blocks) :
    answered command (firstAnswer maxRetries (fun k => (outcomes k).converse)) =
      .ok (fallbackResponse command) := by
  rw [firstAnswer_eq]
  cases hfind : ((List.range (maxRetries + 1)).find? fun k =>
      (outcomes k).converse ≠ .error (.clientError "ThrottlingException")) with
  | none => rfl
  | some k =>
    rw [List.find?_range_eq_some] at hfind
    obtain ⟨-, hk, hbefore⟩ := hfind
    have hthrottled : ∀ j < k, outcomes j = .throttled := fun j hj => by
      simpa [Outcome.converse_throttled_iff] using hbefore j hj
    rw [Option.map_some]
    cases houtcome : outcomes k with
    | text blocks =>
      have hbudget := List.mem_range.mp hk
      exact absurd ⟨houtcome, hthrottled⟩ (h k (by omega) blocks)
    | throttled => rfl
    | otherError code hcode => rfl
    | connectionError => rfl
    | botoError => rfl

/-- **The retries**: the API is asked at most `maxRetries + 1` times and again only after throttling; the first
success is returned if it is within the budget and only throttling precedes it, else the fallback. -/
theorem callBedrock_retries (maxRetries : Nat) (command : String) (outcomes : Nat → Outcome) :
    let called := callBedrock maxRetries command true fun k => (outcomes k).converse
    (∃ n ≤ maxRetries + 1, called.invoked = (List.range n).map (fun k => (outcomes k).converse) ∧
        ∀ k, k + 1 < n → outcomes k = .throttled) ∧
      (∀ k ≤ maxRetries, ∀ blocks, SucceedsAt outcomes k blocks → called.result = .ok (blocksText blocks)) ∧
      ((∀ k ≤ maxRetries, ∀ blocks, ¬ SucceedsAt outcomes k blocks) →
        called.result = .ok (fallbackResponse command)) := by
  refine ⟨?_, fun k hk blocks h => ?_, fun h => ?_⟩
  · obtain ⟨n, hn, hinvoked, hthrottled⟩ :=
      attempts_invoked command outcomes 0 (Nat.zero_add (maxRetries + 1))
    refine ⟨n, hn, ?_, fun k hk => hthrottled k (Nat.zero_le k) (by omega)⟩
    have hbudget : ((maxRetries : Int) + 1).toNat = maxRetries + 1 := by omega
    rw [callBedrock, hbudget, List.range_eq_range', hinvoked, List.range_eq_range']
  · rw [callBedrock_result, firstAnswer_of_succeedsAt hk h]
    rfl
  · rw [callBedrock_result]
    exact answered_of_not_succeedsAt h

end Cowrie.Llm
