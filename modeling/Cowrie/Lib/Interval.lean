import Mathlib.Data.List.Sort

/-!
# Intervals of positions

An `Interval` goes from `first` to `last`, or on without end. Of the positions `1, …, k` the intervals of a list can
be taken one behind the other, or all positions that one of them covers in their order.

* `Before k p q`: of the first `k` positions, all of `p` come before those of `q`.
* **`flatMap_positions_iff`**: both give the same list exactly if each interval is before the later ones.
-/

namespace Cowrie.Lib

structure Interval where
  first : Nat
  last : Option Nat
  deriving DecidableEq, Repr

namespace Interval

def covers (p : Interval) (i : Nat) : Bool := p.first ≤ i && p.last.all (i ≤ ·)

/-- Positions count from one, and the interval is not empty. -/
structure Valid (p : Interval) : Prop where
  pos : 1 ≤ p.first
  le : ∀ l ∈ p.last, p.first ≤ l

/-- The first `k` positions, as far as the interval covers them. -/
def positions (k : Nat) (p : Interval) : List Nat := (List.range' 1 k).filter p.covers

/-- All of `p` comes before all of `q`, among the first `k` positions. -/
def Before (k : Nat) (p q : Interval) : Prop := k < p.first ∨ k < q.first ∨ ∃ l ∈ p.last, l < q.first

variable {k i : Nat} {p q : Interval} {ps : List Interval}

theorem covers_iff : p.covers i = true ↔ p.first ≤ i ∧ ∀ l ∈ p.last, i ≤ l := by
  unfold covers
  rw [Bool.and_eq_true, decide_eq_true_iff]
  cases p.last <;> simp

theorem mem_positions : i ∈ p.positions k ↔ (1 ≤ i ∧ i ≤ k) ∧ p.first ≤ i ∧ ∀ l ∈ p.last, i ≤ l := by
  unfold positions
  rw [List.mem_filter, covers_iff, List.mem_range'_1]
  refine and_congr ⟨fun h => ⟨h.1, by omega⟩, fun h => ⟨h.1, by omega⟩⟩ Iff.rfl

theorem sorted_positions (k : Nat) (p : Interval) : (p.positions k).Pairwise (· < ·) :=
  List.Pairwise.filter _ List.pairwise_lt_range'

theorem take_range' (n k : Nat) : (List.range' 1 k).take n = List.range' 1 (min n k) := by
  rcases Nat.le_total k n with h | h
  · rw [List.take_range'_of_length_le h, Nat.min_eq_right h]
  · rw [List.take_range'_of_length_ge h, Nat.min_eq_left h]

/-- A slice of the positions. -/
theorem drop_take_range' (hp : p.Valid) (k : Nat) :
    ((List.range' 1 k).take (p.last.getD k)).drop (p.first - 1) = p.positions k := by
  rw [take_range', List.drop_range']
  refine List.Pairwise.eq_of_mem_iff List.pairwise_lt_range' (sorted_positions k p) fun i => ?_
  rw [mem_positions, List.mem_range'_1]
  have hpos := hp.pos
  cases hlast : p.last with
  | none =>
    simp only [Option.getD_none, Option.mem_def, reduceCtorEq, false_implies, implies_true, and_true]
    omega
  | some l =>
    have hle := hp.le l hlast
    simp only [Option.getD_some, Option.mem_some_iff, forall_eq']
    omega

/-- One interval is before another if its positions are. -/
theorem before_iff (hp : p.Valid) (hq : q.Valid) :
    Before k p q ↔ ∀ i ∈ p.positions k, ∀ j ∈ q.positions k, i < j := by
  constructor
  · intro h i hi j hj
    rw [mem_positions] at hi hj
    rcases h with h | h | ⟨l, hl, h⟩
    · omega
    · omega
    · have := hi.2.2 l hl
      omega
  · intro h
    by_contra hnot
    unfold Before at hnot
    push Not at hnot
    obtain ⟨hpk, hqk, hlast⟩ := hnot
    have hfirst : q.first ∈ q.positions k :=
      mem_positions.mpr ⟨⟨hq.pos, hqk⟩, le_refl _, hq.le⟩
    have hpos := hp.pos
    cases hl : p.last with
    | none =>
      have hmem : k ∈ p.positions k :=
        mem_positions.mpr ⟨⟨by omega, le_refl k⟩, hpk, by simp [hl]⟩
      have := h k hmem q.first hfirst
      omega
    | some l =>
      have hle := hlast l hl
      have hpl := hp.le l hl
      have hmem : min k l ∈ p.positions k := by
        refine mem_positions.mpr ⟨⟨by omega, by omega⟩, by omega, fun l' hl' => ?_⟩
        obtain rfl : l = l' := by simpa [hl] using hl'
        omega
      have := h (min k l) hmem q.first hfirst
      omega

/-- **Taken one behind the other, intervals give the covered positions in order** iff each is before the later
ones. -/
theorem flatMap_positions_iff (hps : ∀ p ∈ ps, p.Valid) :
    ps.flatMap (positions k) = (List.range' 1 k).filter (fun i => ps.any (covers · i)) ↔
      ps.Pairwise (Before k) := by
  have hunion : ((List.range' 1 k).filter fun i => ps.any (covers · i)).Pairwise (· < ·) :=
    List.Pairwise.filter _ List.pairwise_lt_range'
  have hmem (i : Nat) : i ∈ ps.flatMap (positions k) ↔
      i ∈ (List.range' 1 k).filter fun i => ps.any (covers · i) := by
    unfold positions
    simp only [List.mem_flatMap, List.mem_filter, List.any_eq_true]
    constructor
    · rintro ⟨p, hp, hi, hcovers⟩
      exact ⟨hi, p, hp, hcovers⟩
    · rintro ⟨hi, p, hp, hcovers⟩
      exact ⟨p, hp, hi, hcovers⟩
  have hbefore : (ps.flatMap (positions k)).Pairwise (· < ·) ↔ ps.Pairwise (Before k) := by
    rw [List.pairwise_flatMap, and_iff_right fun p _ => sorted_positions k p]
    exact List.Pairwise.iff_of_mem fun {p q} hp hq => (before_iff (hps p hp) (hps q hq)).symm
  rw [← hbefore]
  constructor
  · intro h
    rw [h]
    exact hunion
  · intro h
    exact h.eq_of_mem_iff hunion hmem

end Interval

end Cowrie.Lib
