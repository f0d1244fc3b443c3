import Mathlib.Data.List.Basic
import Mathlib.Data.List.DropRight

/-!
# Words between blanks

`words p s` are the longest parts of `s` without an element that satisfies `p`, and `spaced b ws` is
each of the words `ws` with one `b` after it.

* `EndsIn p s`: `s` is empty or its last element satisfies `p`; then words do not go on behind `s`.
* `words_spaced`: the words of spaced text.
* `prefix_spaced`: a beginning of spaced text that ends in a blank is the first words, spaced.
* **`prefix_spaced_words`**: of `K ++ C`, with all words but the last spaced, not more than `K` is left if
  it begins with the whole.
-/

namespace Cowrie.Lib

variable {α : Type} {p : α → Bool} {s t K C T : List α} {b c : α} {ws : List (List α)}

def words (p : α → Bool) (s : List α) : List (List α) := (s.splitOnP p).filter fun w => !w.isEmpty

/-- Each word, with one `b` after it. -/
def spaced (b : α) (ws : List (List α)) : List α := ws.flatMap (· ++ [b])

/-- Empty, or its last element satisfies `p`. -/
def EndsIn (p : α → Bool) (s : List α) : Prop := ∀ c ∈ s.getLast?, p c

theorem endsIn_nil : EndsIn p ([] : List α) := fun c hc => by cases hc

theorem EndsIn.cases (h : EndsIn p s) : s = [] ∨ ∃ t c, s = t ++ [c] ∧ p c := by
  rcases List.eq_nil_or_concat s with rfl | ⟨t, c, rfl⟩
  · exact .inl rfl
  · exact .inr ⟨t, c, List.concat_eq_append, h c (by simp)⟩

/-- What ends in a blank, behind something. -/
theorem EndsIn.of_append (h : EndsIn p (s ++ t)) (ht : t ≠ []) : EndsIn p t := fun c hc => by
  obtain ⟨d, t', rfl⟩ := List.eq_nil_or_concat t |>.resolve_left ht
  refine h c ?_
  rw [List.concat_eq_append] at hc ⊢
  rwa [← List.append_assoc, List.getLast?_concat, ← List.getLast?_concat (l := d)]

/-! ## The words of a text -/

theorem words_nil : words p ([] : List α) = [] := rfl

theorem words_append_cons (h : p c) : words p (s ++ c :: t) = words p s ++ words p t := by
  unfold words
  rw [List.splitOnP_append_cons s t h, List.filter_append]

theorem words_cons_blank (h : p c) : words p (c :: t) = words p t := words_append_cons (s := []) h

theorem words_of_blank (h : ∀ x ∈ s, p x) : words p s = [] := by
  induction s with
  | nil => rfl
  | cons x s ih =>
    rw [words_cons_blank (h x List.mem_cons_self)]
    exact ih fun y hy => h y (List.mem_cons_of_mem x hy)

theorem words_of_none (h : ∀ x ∈ s, p x = false) (hne : s ≠ []) : words p s = [s] := by
  unfold words
  rw [List.splitOnP_eq_singleton h, List.filter_cons_of_pos (by simpa using hne), List.filter_nil]

/-- The first word goes on to the first blank. -/
theorem words_append_of_none (h : ∀ x ∈ s, p x = false) (hne : s ≠ []) :
    ∃ rest ws, words p (s ++ t) = (s ++ rest) :: ws := by
  induction t generalizing s with
  | nil => exact ⟨[], [], by rw [List.append_nil, words_of_none h hne]⟩
  | cons c t ih =>
    by_cases hc : p c
    · exact ⟨[], words p t, by rw [words_append_cons hc, words_of_none h hne, List.append_nil]; rfl⟩
    · have hgrown : ∀ x ∈ s ++ [c], p x = false := fun x hx => by
        rcases List.mem_append.mp hx with hx | hx
        · exact h x hx
        · rw [List.mem_singleton.mp hx]
          exact Bool.eq_false_iff.mpr hc
      obtain ⟨rest, ws, heq⟩ := ih hgrown (by simp)
      exact ⟨c :: rest, ws, by simpa using heq⟩

/-- Words end where blanks begin. -/
theorem words_append_blank (h : ∀ x ∈ t, p x) : words p (s ++ t) = words p s := by
  cases t with
  | nil => rw [List.append_nil]
  | cons c t =>
    rw [words_append_cons (h c List.mem_cons_self),
      words_of_blank fun x hx => h x (List.mem_cons_of_mem c hx), List.append_nil]

/-- Words begin where blanks end. -/
theorem words_append (h : EndsIn p s) : words p (s ++ t) = words p s ++ words p t := by
  rcases h.cases with rfl | ⟨s, c, rfl, hc⟩
  · rfl
  · rw [List.append_assoc, List.singleton_append, words_append_cons hc, words_append_cons hc, words_nil,
      List.append_nil]

theorem notMem_words {w : List α} (h : w ∈ words p s) : w ≠ [] ∧ ∀ x ∈ w, p x = false := by
  unfold words at h
  rw [List.mem_filter] at h
  refine ⟨by simpa using h.2, ?_⟩
  replace h := h.1
  induction s generalizing w with
  | nil =>
    obtain rfl : w = [] := by simpa using h
    exact fun x hx => absurd hx List.not_mem_nil
  | cons c s ih =>
    rw [List.splitOnP_cons_eq_if_modifyHead] at h
    split_ifs at h with hc
    · rcases List.mem_cons.mp h with rfl | h
      · exact fun x hx => absurd hx List.not_mem_nil
      · exact ih h
    · -- the first piece grows by `c`, which is no blank
      obtain ⟨first, rest, heq⟩ := List.exists_cons_of_ne_nil (List.splitOnP_ne_nil p s)
      rw [heq, List.modifyHead_cons] at h
      rw [heq] at ih
      rcases List.mem_cons.mp h with rfl | h
      · intro x hx
        rcases List.mem_cons.mp hx with rfl | hx
        · simpa using hc
        · exact ih List.mem_cons_self x hx
      · exact ih (List.mem_cons_of_mem first h)

/-! ## Spaced words -/

theorem spaced_cons (w : List α) (ws : List (List α)) : spaced b (w :: ws) = w ++ b :: spaced b ws := by
  unfold spaced
  rw [List.flatMap_cons, List.append_assoc, List.singleton_append]

theorem spaced_append (vs ws : List (List α)) : spaced b (vs ++ ws) = spaced b vs ++ spaced b ws :=
  List.flatMap_append

theorem intercalate_concat (w : List α) : [b].intercalate (ws ++ [w]) = spaced b ws ++ w := by
  induction ws with
  | nil => simp [spaced]
  | cons v ws ih =>
    have hstep : [b].intercalate (v :: (ws ++ [w])) = v ++ b :: [b].intercalate (ws ++ [w]) := by
      cases ws <;> simp
    rw [List.cons_append, hstep, ih, spaced_cons, List.append_assoc, List.cons_append]

/-- What precedes a word in a join. -/
theorem intercalate_append_cons (vs : List (List α)) (w : List α) (ws : List (List α)) :
    ∃ rest, [b].intercalate (vs ++ w :: ws) = spaced b vs ++ (w ++ rest) := by
  rcases List.eq_nil_or_concat ws with rfl | ⟨us, u, rfl⟩
  · exact ⟨[], by rw [intercalate_concat, List.append_nil]⟩
  · refine ⟨b :: (spaced b us ++ u), ?_⟩
    rw [List.concat_eq_append, ← List.cons_append, ← List.append_assoc, intercalate_concat,
      spaced_append, spaced_cons]
    simp

/-- A text, split at `b`: what is before its last `b`, and that. -/
theorem spaced_splitOn [BEq α] [LawfulBEq α] (b : α) (s : List α) :
    (b ∉ s ∧ spaced b (s.splitOn b).dropLast = []) ∨
      ∃ u v, s = u ++ b :: v ∧ b ∉ v ∧ spaced b (s.splitOn b).dropLast = u ++ [b] := by
  have hnone : ∀ {v : List α}, b ∉ v → ∀ x ∈ v, (x == b) = false := fun hv x hx =>
    beq_eq_false_iff_ne.mpr fun heq => hv (heq ▸ hx)
  have hwhole : ∀ u : List α, spaced b (u.splitOn b) = u ++ [b] := by
    intro u
    obtain ⟨ws, w, hw⟩ := List.eq_nil_or_concat (u.splitOn b) |>.resolve_left (List.splitOnP_ne_nil _ u)
    have hu : [b].intercalate (u.splitOn b) = u := List.intercalate_splitOn b
    rw [List.concat_eq_append] at hw
    rw [hw, intercalate_concat] at hu
    rw [hw, spaced_append, ← hu, List.append_assoc, spaced_cons]
    rfl
  by_cases hs : b ∈ s
  · obtain ⟨v, u, heq, hv⟩ := List.eq_append_cons_of_mem (List.mem_reverse.mpr hs)
    have hsplit : s = u.reverse ++ b :: v.reverse := by
      rw [← List.reverse_reverse s, heq]
      simp
    rw [← List.mem_reverse] at hv
    refine .inr ⟨u.reverse, v.reverse, hsplit, hv, ?_⟩
    rw [hsplit, List.splitOn, List.splitOnP_append_cons _ _ (by simp),
      List.splitOnP_eq_singleton (hnone hv), List.dropLast_concat]
    exact hwhole u.reverse
  · refine .inl ⟨hs, ?_⟩
    rw [List.splitOn, List.splitOnP_eq_singleton (hnone hs)]
    rfl

/-- The words of a text: not empty, without blanks. -/
def Plain (p : α → Bool) (ws : List (List α)) : Prop := ∀ w ∈ ws, w ≠ [] ∧ ∀ x ∈ w, p x = false

theorem words_spaced (hb : p b) (h : Plain p ws) : words p (spaced b ws) = ws := by
  induction ws with
  | nil => rfl
  | cons w ws ih =>
    obtain ⟨hne, hw⟩ := h w List.mem_cons_self
    rw [spaced_cons, words_append_cons hb, words_of_none hw hne,
      ih fun v hv => h v (List.mem_cons_of_mem w hv)]
    rfl

theorem endsIn_spaced (hb : p b) : EndsIn p (spaced b ws) := by
  rcases List.eq_nil_or_concat ws with rfl | ⟨vs, v, rfl⟩
  · exact endsIn_nil
  · intro c hc
    rw [List.concat_eq_append, spaced_append, spaced_cons] at hc
    simp only [spaced, List.flatMap_nil] at hc
    rw [← List.append_assoc, List.getLast?_concat, Option.mem_some_iff] at hc
    exact hc ▸ hb

/-- The words of a join, where its last word goes on. -/
theorem words_intercalate_append (hb : p b) (h : Plain p ws) (w t : List α) :
    words p ([b].intercalate (ws ++ [w]) ++ t) = ws ++ words p (w ++ t) := by
  rw [intercalate_concat, List.append_assoc, words_append (endsIn_spaced hb), words_spaced hb h]

theorem words_intercalate (hb : p b) (h : Plain p ws) : words p ([b].intercalate ws) = ws := by
  rcases List.eq_nil_or_concat ws with rfl | ⟨vs, w, rfl⟩
  · rfl
  · rw [List.concat_eq_append] at h ⊢
    obtain ⟨hne, hw⟩ := h w (by simp)
    have hvs : Plain p vs := fun v hv => h v (List.mem_append_left _ hv)
    have hjoin := words_intercalate_append hb hvs w []
    rwa [List.append_nil, List.append_nil, words_of_none hw hne] at hjoin

theorem prefix_spaced (h : Plain p ws) (hK : EndsIn p K) (hstart : K <+: spaced b ws) :
    ∃ i, K = spaced b (ws.take i) := by
  induction ws generalizing K with
  | nil => exact ⟨0, List.prefix_nil.mp hstart⟩
  | cons w ws ih =>
    obtain ⟨-, hw⟩ := h w List.mem_cons_self
    rw [spaced_cons] at hstart
    rcases List.prefix_or_prefix_of_prefix hstart (List.prefix_append w _) with hshort | ⟨rest, rfl⟩
    · -- it ends within a word, so it is empty
      rcases hK.cases with rfl | ⟨s, c, rfl, hc⟩
      · exact ⟨0, rfl⟩
      · have hmem : c ∈ w := hshort.subset (by simp)
        rw [hw c hmem] at hc
        cases hc
    · have hrest := (List.prefix_append_right_inj w).mp hstart
      cases rest with
      | nil =>
        rcases hK.cases with hnil | ⟨s, c, hs, hc⟩
        · exact ⟨0, hnil⟩
        · have hmem : c ∈ w := by
            rw [List.append_nil] at hs
            simp [hs]
          rw [hw c hmem] at hc
          cases hc
      | cons d rest =>
        obtain ⟨rfl, hrest⟩ := List.cons_prefix_cons.mp hrest
        have hends : EndsIn p rest := by
          by_cases hnil : rest = []
          · exact hnil ▸ endsIn_nil
          · rw [← List.singleton_append, ← List.append_assoc] at hK
            exact hK.of_append hnil
        obtain ⟨i, rfl⟩ := ih (fun v hv => h v (List.mem_cons_of_mem w hv)) hends hrest
        exact ⟨i + 1, by rw [List.take_succ_cons, spaced_cons]⟩

/-- A text of several words goes on where the first one ends. -/
theorem not_prefix_first {w rest : List α} (hC : b ∉ C) (hlong : 1 < (words p C).length)
    (hw : ∀ x ∈ w, p x = false) : ¬ C <+: w ++ b :: rest := fun h => by
  have hwithin : C <+: w := by
    rw [List.append_cons] at h
    rcases List.prefix_or_prefix_of_prefix h (List.prefix_append (w ++ [b]) rest) with hshort | hcross
    · rcases List.prefix_concat_iff.mp hshort with rfl | hwithin
      · exact absurd (List.mem_append_right w (List.mem_singleton_self b)) hC
      · exact hwithin
    · exact absurd (hcross.subset (List.mem_append_right w (List.mem_singleton_self b))) hC
  have hnone : ∀ x ∈ C, p x = false := fun x hx => hw x (hwithin.subset hx)
  by_cases hnil : C = []
  · rw [hnil, words_nil] at hlong
    cases hlong
  · rw [words_of_none hnone hnil] at hlong
    cases hlong
    contradiction

/-- **All words but the last**, spaced. -/
theorem prefix_spaced_words (hb : p b) (hK : EndsIn p K) (hC : b ∉ C)
    (h : K ++ C <+: spaced b (words p K ++ words p C).dropLast ++ T) :
    spaced b (words p K ++ words p C).dropLast <+: K := by
  have hplain : Plain p (words p K ++ words p C).dropLast := fun w hw => by
    rcases List.mem_append.mp (List.dropLast_subset _ hw) with hw | hw <;> exact notMem_words hw
  rcases List.prefix_or_prefix_of_prefix ((List.prefix_append K C).trans h)
    (List.prefix_append _ T) with hshort | hlong
  · obtain ⟨i, hi⟩ := prefix_spaced hplain hK hshort
    have hwords : words p K = (words p K ++ words p C).dropLast.take i := by
      conv_lhs => rw [hi]
      exact words_spaced hb fun w hw => hplain w (List.mem_of_mem_take hw)
    rw [← hwords] at hi
    rcases List.eq_nil_or_concat (words p C) with hnil | ⟨vs, v, hconcat⟩
    · -- the last word is one of `K`
      rw [hnil, List.append_nil] at hwords ⊢
      have hlength := congrArg List.length hwords
      rw [List.length_take, List.length_dropLast] at hlength
      have hnone : words p K = [] := List.length_eq_zero_iff.mp (by omega)
      rw [hnone]
      exact List.nil_prefix
    · rw [List.concat_eq_append] at hconcat
      rw [hconcat, ← List.append_assoc, List.dropLast_concat, spaced_append, ← hi] at h ⊢
      cases vs with
      | nil => exact ⟨[], by simp [spaced]⟩
      | cons w vs =>
        rw [List.append_assoc, List.prefix_append_right_inj, spaced_cons, List.append_assoc,
          List.cons_append] at h
        refine absurd h (not_prefix_first (p := p) hC ?_ fun x hx => ?_)
        · rw [hconcat, List.length_append, List.length_cons, List.length_singleton]
          omega
        · exact (notMem_words (p := p) (s := C) (by rw [hconcat]; simp)).2 x hx
  · exact hlong

end Cowrie.Lib
