import Mathlib.Data.String.Basic

/-!
# Splitting a text at a character

* `splitOn_singleton`: `String.splitOn` on a separator of one character is `List.splitOnP`.
* **`getLastD_splitOn`**: what follows the last separator is the last part.
-/

namespace Cowrie.Lib

open String

/-- The state of the scan: `l` is behind the parts in `acc`, `m` is the part under way. -/
theorem splitOnAux_of_valid (c : Char) (l m r : List Char) (acc : List String) :
    splitOnAux (ofList (l ++ m ++ r)) (ofList [c]) ⟨utf8Len l⟩ ⟨utf8Len l + utf8Len m⟩ 0 acc =
      acc.reverse ++ (List.splitOnPPrepend (· == c) r m.reverse).map ofList := by
  have hget : Pos.Raw.get (ofList [c]) 0 = c := get_of_valid [] [c]
  have hnext : Pos.Raw.next (ofList [c]) 0 = ⟨c.utf8Size⟩ := by simpa using next_of_valid [] c []
  have hend : Pos.Raw.atEnd (ofList [c]) ⟨c.utf8Size⟩ = true := by simpa using atEnd_of_valid [c] []
  induction r generalizing l m acc with
  | nil =>
    have hpos : (⟨utf8Len l + utf8Len m⟩ : Pos.Raw) = ⟨utf8Len (l ++ m)⟩ := by rw [utf8Len_append]
    have hstop : Pos.Raw.atEnd (ofList (l ++ m ++ [])) ⟨utf8Len l + utf8Len m⟩ = true := by
      rw [hpos]
      exact (atEnd_of_valid (l ++ m) []).mpr rfl
    unfold splitOnAux
    rw [if_pos hstop, extract_of_valid]
    simp
  | cons x r ih =>
    have hpos : (⟨utf8Len l + utf8Len m⟩ : Pos.Raw) = ⟨utf8Len (l ++ m)⟩ := by rw [utf8Len_append]
    have hstop : ¬ Pos.Raw.atEnd (ofList (l ++ m ++ x :: r)) ⟨utf8Len l + utf8Len m⟩ = true := by
      rw [hpos, atEnd_of_valid]
      simp
    have hgetx : Pos.Raw.get (ofList (l ++ m ++ x :: r)) ⟨utf8Len l + utf8Len m⟩ = x := by
      rw [hpos]
      exact get_of_valid (l ++ m) (x :: r)
    have hnextx : Pos.Raw.next (ofList (l ++ m ++ x :: r)) ⟨utf8Len l + utf8Len m⟩ =
        ⟨utf8Len l + utf8Len m + x.utf8Size⟩ := by
      rw [hpos, next_of_valid, utf8Len_append]
    unfold splitOnAux
    rw [if_neg hstop, hgetx, hget, List.splitOnPPrepend_cons_eq_if]
    by_cases hx : x == c
    · -- the part under way ends
      obtain rfl := beq_iff_eq.mp hx
      have hback : Pos.Raw.unoffsetBy ⟨utf8Len l + utf8Len m + x.utf8Size⟩ ⟨x.utf8Size⟩ =
          ⟨utf8Len l + utf8Len m⟩ := by
        simp [Pos.Raw.unoffsetBy]
      have h := ih (l ++ m ++ [x]) [] (ofList m :: acc)
      simp only [utf8Len_append, utf8Len_cons, utf8Len_nil, Nat.zero_add, Nat.add_zero,
        List.append_assoc, List.cons_append, List.nil_append, ← Nat.add_assoc] at h
      rw [if_pos hx, if_pos hx]
      simp only [hnextx, hnext, hend, if_true]
      rw [hback, extract_of_valid, List.append_assoc, h]
      simp
    · -- it goes on
      have hback : Pos.Raw.unoffsetBy ⟨utf8Len l + utf8Len m⟩ 0 = ⟨utf8Len l + utf8Len m⟩ := by
        simp [Pos.Raw.unoffsetBy]
      have h := ih l (m ++ [x]) acc
      simp only [utf8Len_append, utf8Len_cons, utf8Len_nil, Nat.zero_add, List.append_assoc,
        List.cons_append, List.nil_append, ← Nat.add_assoc, List.reverse_append,
        List.reverse_singleton] at h
      rw [if_neg hx, if_neg hx, hback, hnextx, List.append_assoc]
      exact h

theorem splitOn_singleton (s : String) (c : Char) :
    s.splitOn (ofList [c]) = (s.toList.splitOnP (· == c)).map ofList := by
  unfold splitOn
  rw [if_neg (by simp)]
  have h := splitOnAux_of_valid c [] [] s.toList []
  simpa using h

/-- **The last part** of a text is what follows its last separator. -/
theorem getLastD_splitOn {s t : String} {c : Char} (h : c ∉ t.toList) :
    ((s ++ ofList [c] ++ t).splitOn (ofList [c])).getLastD "" = t := by
  have htail : t.toList.splitOnP (· == c) = [t.toList] :=
    List.splitOnP_eq_singleton fun x hx => beq_false_of_ne fun heq => h (heq ▸ hx)
  have hlist : (s ++ ofList [c] ++ t).toList = s.toList ++ c :: t.toList := by simp
  have hsplit : (s.toList ++ c :: t.toList).splitOnP (· == c) =
      s.toList.splitOnP (· == c) ++ t.toList.splitOnP (· == c) :=
    List.splitOnP_append_cons _ _ (beq_self_eq_true c)
  rw [splitOn_singleton, hlist, hsplit, htail]
  simp

end Cowrie.Lib
